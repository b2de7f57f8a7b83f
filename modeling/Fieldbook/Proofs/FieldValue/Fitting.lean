import Fieldbook.FieldValue.Decoding
import Fieldbook.FieldValue.Encoding
import Fieldbook.Proofs.Calendar.Instants
import Fieldbook.Proofs.MessagePack.Pieces
import Fieldbook.Proofs.Text.ByteOrder

/-!
# Proofs/FieldValue/Fitting — values that the binary form has room for

The binary form counts the bytes of a text and the pieces of a row in four bytes.  A value fits if
four bytes are enough for all its texts and rows (`FieldValue.Fits`); the texts of dates, instants
and kinds always are short enough.
-/

namespace Fieldbook

open MessagePack (CountFits TextFits)

namespace FieldValue

/-- A row of names that fits. -/
def IdsFit (ids : List ResourceId) : Prop := CountFits ids.length ∧ ∀ r ∈ ids, TextFits r.text

mutual

/-- Four bytes are enough to count the bytes of every text and the pieces of every row. -/
def Fits : FieldValue → Prop
  | .text s | .barcode s | .narrative s | .expr s => TextFits s
  | .quantity _ units => ∀ s ∈ units, TextFits s
  | .choice ids | .reference ids => IdsFit ids
  | .image b m => TextFits b ∧ TextFits m
  | .record fields => CountFits fields.length ∧ FieldsFit fields
  | .list items => CountFits items.length ∧ ItemsFit items
  | .boolean _ | .geoPoint .. | .localDate _ | .month .. | .year _ | .localDateInterval ..
  | .instant _ => True

def FieldsFit : List (String × FieldValue) → Prop
  | [] => True
  | (k, v) :: rest => TextFits k ∧ Fits v ∧ FieldsFit rest

def ItemsFit : List FieldValue → Prop
  | [] => True
  | v :: rest => Fits v ∧ ItemsFit rest

end

/-! ## Pair by pair -/

theorem fieldsFit_iff : ∀ {r : Record}, FieldsFit r ↔ ∀ e ∈ r, TextFits e.1 ∧ e.2.Fits
  | [] => iff_of_true trivial fun _ h => absurd h List.not_mem_nil
  | (k, v) :: rest => by
    rw [FieldsFit, fieldsFit_iff, List.forall_mem_cons, and_assoc]

theorem itemsFit_iff : ∀ {items : List FieldValue}, ItemsFit items ↔ ∀ v ∈ items, v.Fits
  | [] => iff_of_true trivial fun _ h => absurd h List.not_mem_nil
  | v :: rest => by
    rw [ItemsFit, itemsFit_iff, List.forall_mem_cons]

theorem fieldsWellFormed_iff : ∀ {r : Record}, FieldsWellFormed r ↔ ∀ e ∈ r, e.2.WellFormed
  | [] => iff_of_true trivial fun _ h => absurd h List.not_mem_nil
  | (k, v) :: rest => by
    rw [FieldsWellFormed, fieldsWellFormed_iff, List.forall_mem_cons]

theorem fieldsNesting_le_iff {depth : Nat} : ∀ {r : Record},
    fieldsNesting r ≤ depth ↔ ∀ e ∈ r, e.2.nesting ≤ depth
  | [] => iff_of_true (Nat.zero_le _) fun _ h => absurd h List.not_mem_nil
  | (k, v) :: rest => by
    rw [fieldsNesting, Nat.max_le, fieldsNesting_le_iff, List.forall_mem_cons]

end FieldValue

/-! ## Records -/

/-- Four bytes are enough for the texts and rows of a record. -/
def Record.Fits (r : Record) : Prop := CountFits r.length ∧ FieldValue.FieldsFit r

/-- The keys ascend in a record and in every record within it. -/
def Record.WellFormed (r : Record) : Prop := Keyed.Ascending r ∧ FieldValue.FieldsWellFormed r

/-! ## Texts that always fit -/

theorem textFits_of_length {cs : List Char} (h : cs.length ≤ 1000) :
    TextFits (String.ofList cs) := by
  have hbytes := Text.length_utf8_le (String.ofList cs)
  rw [String.toList_ofList] at hbytes
  rw [TextFits, CountFits]
  omega

theorem Date.textFits (d : Date) : TextFits d.text :=
  textFits_of_length (Nat.le_trans d.length_chars_le (by decide))

theorem Instant.textFits (t : Instant) : TextFits t.text :=
  textFits_of_length (Nat.le_trans t.length_chars_le (by decide))

end Fieldbook
