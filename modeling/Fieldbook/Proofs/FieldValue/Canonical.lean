import Fieldbook.Proofs.FieldValue.RoundTrip
import Fieldbook.Proofs.MessagePack.Limits

/-!
# Proofs/FieldValue/Canonical — the binary form of a value is its own

Whatever the reader gives has ascending keys and fits (`gives_value`), so the values that survive
being written and read are just those that do.  Two such values are the same if and only if their
bytes are (`read_encode_iff`).  Of a value that does not fit the counts are cut off, and its bytes
are read as something else (`read_encode_letters`).
-/

namespace Fieldbook

open MessagePack

namespace FieldValue

variable {depth : Nat} {item inner value : Reader FieldValue}

/-- A value with ascending keys that fits. -/
def Storable (v : FieldValue) : Prop := v.WellFormed ∧ v.Fits

theorem storable_fields {fields : List (String × FieldValue)}
    (h : ∀ e ∈ fields, TextFits e.1 ∧ e.2.Storable) : FieldsWellFormed fields ∧ FieldsFit fields :=
  ⟨fieldsWellFormed_iff.mpr fun e he => (h e he).2.1,
    fieldsFit_iff.mpr fun e he => ⟨(h e he).1, (h e he).2.2⟩⟩

theorem storable_items : ∀ {items : List FieldValue},
    (∀ v ∈ items, v.Storable) → ItemsWellFormed items ∧ ItemsFit items
  | [], _ => ⟨trivial, trivial⟩
  | _ :: _, h => by
    obtain ⟨hv, hrest⟩ := List.forall_mem_cons.mp h
    obtain ⟨hformed, hfit⟩ := storable_items hrest
    exact ⟨⟨hv.1, hformed⟩, hv.2, hfit⟩

/-! ## What the readers give -/

theorem gives_ids : Gives (readIds depth) IdsFit :=
  gives_array (gives_text.map fun _ h => h)

/-- **A record that is read** has ascending keys and fits. -/
theorem gives_readFields (h : Gives value Storable) :
    Gives (readFields depth value) fun r => r.WellFormed ∧ r.Fits := by
  have hfield : Gives (readField value) fun e => TextFits e.1 ∧ e.2.Storable :=
    gives_text.bind fun _ hkey => h.map fun _ hv => ⟨hkey, hv⟩
  refine gives_head.bind fun k hk => ?_
  split
  · next n =>
    refine (gives_many hfield n).map fun entries hentries => ?_
    obtain ⟨hlength, hall⟩ := hentries
    have hkept := Keyed.kept_ofList entries
    have hcount : CountFits (Keyed.ofList entries).length :=
      Nat.lt_of_le_of_lt (hlength ▸ hkept.length_le) hk
    obtain ⟨hformed, hfit⟩ := storable_fields fun e he => hall e (hkept.mem e he)
    exact ⟨⟨hkept.ascending, hformed⟩, hcount, hfit⟩
  · exact gives_failure

theorem gives_namedFields (h : Gives value Storable) : ∀ (n : Nat) (found : Option Record),
    (∀ r ∈ found, r.WellFormed ∧ r.Fits) →
      Gives (namedFields value depth n found) fun r => r.WellFormed ∧ r.Fits
  | 0, some r, hfound => gives_pure (hfound r rfl)
  | 0, none, _ => gives_failure
  | n + 1, found, hfound => by
    rw [namedFields]
    refine (gives_any _).bind fun place _ => ?_
    split
    · split
      · exact gives_failure
      · exact (gives_readFields h).bind fun r hr =>
          gives_namedFields h n (some r) fun _ h => Option.some.inj h ▸ hr
    · exact (gives_any _).bind fun _ _ => gives_namedFields h n found hfound

theorem gives_record (h : Gives value Storable) :
    Gives (readRecord depth value) fun r => r.WellFormed ∧ r.Fits := by
  refine (gives_any _).bind fun k _ => ?_
  split
  · exact gives_readFields h
  · exact gives_namedFields h _ none fun r hr => absurd hr (Option.not_mem_none r)
  · exact gives_failure

/-- A part of which nothing is asked. -/
theorem partGives_any {α : Type} (part : PairPart α) : part.Gives fun _ => True :=
  ⟨gives_any _, fun _ _ _ => trivial⟩

theorem gives_content (hitem : Gives item Storable) (hinner : Gives inner Storable) (k : Kind) :
    Gives (readContent depth item inner k) Storable := by
  cases k with
  | text | barcode | narrative | expr => exact gives_text.map fun _ h => ⟨trivial, h⟩
  | choice | reference => exact gives_ids.map fun _ h => ⟨trivial, h⟩
  | boolean | localDate | year | instant => exact (gives_any _).map fun _ _ => ⟨trivial, trivial⟩
  | geoPoint | month | localDateInterval =>
    exact (gives_any _).bind fun _ _ => gives_pure ⟨trivial, trivial⟩
  | quantity =>
    have hunits : (PairPart.named "units" readText?).Gives fun s => ∀ t ∈ s, TextFits t :=
      PairPart.gives_named gives_text?
    refine (gives_pair (partGives_any _) hunits ?_).bind fun found h => gives_pure ⟨trivial, h.2⟩
    rintro _ ⟨⟩ t ht
    exact absurd ht (Option.not_mem_none t)
  | image =>
    have htext : ∀ name, (PairPart.named name readText).Gives TextFits := fun _ =>
      PairPart.gives_named gives_text
    exact (gives_pair (htext _) (htext _) fun t ht => absurd ht (Option.not_mem_none t)).bind
      fun _ h => gives_pure ⟨trivial, h⟩
  | record => exact (gives_record hinner).map fun _ h => h
  | list =>
    refine (gives_array hitem).map fun items h => ?_
    obtain ⟨hformed, hfit⟩ := storable_items h.2
    exact ⟨hformed, h.1, hfit⟩

theorem gives_entry (hitem : Gives item Storable) (hinner : Gives inner Storable) :
    Gives (readEntry depth item inner) Storable := by
  refine (gives_any _).bind fun k _ => ?_
  split
  · refine (gives_any _).bind fun place _ => ?_
    split
    · split
      · exact gives_content hitem hinner _
      · exact gives_failure
    · exact gives_failure
  · exact gives_failure

/-- **A value that is read** has ascending keys and fits, whatever the bytes. -/
theorem gives_value : ∀ depth, Gives (readValue depth) Storable
  | 0 => gives_entry gives_failure gives_failure
  | 1 => gives_entry (gives_value 0) gives_failure
  | depth + 2 => gives_entry (gives_value (depth + 1)) (gives_value depth)

/-! ## The binary form -/

variable {v a b : FieldValue} {r : Record} {rest rest' : List UInt8}

theorem read_encode (hdepth : v.nesting ≤ depth) :
    (readValue depth).run (v.encode ++ rest) = some (v, rest) ↔ v.Storable :=
  ⟨gives_value depth _ v rest, fun h => takes_encode v hdepth h.1 h.2 rest⟩

theorem readRecord_encode (hdepth : fieldsNesting r ≤ depth) :
    (readRecord (depth + 2) (readValue depth)).run (r.encode ++ rest) = some (r, rest) ↔
      r.WellFormed ∧ r.Fits := by
  refine ⟨gives_record (gives_value depth) _ r rest, fun h => ?_⟩
  exact takes_record h.2.1 h.1.1 (takes_fields r hdepth h.1.2 h.2.2) rest

/-- **A record within the limit** survives. -/
theorem decode?_record_encode (hdepth : Record.nesting r ≤ nestingLimit)
    (h : r.WellFormed ∧ r.Fits) : Record.decode? r.encode = some r := by
  have hread : (readRecord nestingLimit (readValue (nestingLimit - 2))).run (r.encode ++ []) =
      some (r, []) := (readRecord_encode (Nat.le_sub_of_add_le hdepth)).mpr h
  rw [List.append_nil] at hread
  rw [Record.decode?, hread]
  rfl

/-- **No value's bytes go on as another's.** -/
theorem encode_append_inj (ha : a.Storable) (hb : b.Storable)
    (h : a.encode ++ rest = b.encode ++ rest') : a = b ∧ rest = rest' := by
  have hreadA : (readValue (max a.nesting b.nesting)).run (a.encode ++ rest) = some (a, rest) :=
    (read_encode (Nat.le_max_left _ _)).mpr ha
  have hreadB : (readValue (max a.nesting b.nesting)).run (b.encode ++ rest') = some (b, rest') :=
    (read_encode (Nat.le_max_right _ _)).mpr hb
  rw [h, hreadB] at hreadA
  obtain ⟨rfl, rfl⟩ := Prod.mk.inj (Option.some.inj hreadA)
  exact ⟨rfl, rfl⟩

theorem same_iff_encode (ha : a.Storable) (hb : b.Storable) :
    same a b = true ↔ a.encode = b.encode := by
  rw [same_iff]
  refine ⟨congrArg encode, fun h => ?_⟩
  exact (encode_append_inj ha hb (congrArg (· ++ []) h)).1

/-- **Writing and reading.**  With enough depth a value is read as it was written, whatever follows
it, and so is a record, just if their keys ascend and four bytes are enough to count the bytes of
each text and the pieces of each row.  Two such values are the same if and only if their bytes are. -/
theorem read_encode_iff :
    (∀ (v : FieldValue) (depth : Nat) (rest : List UInt8), v.nesting ≤ depth →
      ((readValue depth).run (v.encode ++ rest) = some (v, rest) ↔ v.WellFormed ∧ v.Fits)) ∧
    (∀ (r : Record) (depth : Nat) (rest : List UInt8), fieldsNesting r ≤ depth →
      ((readRecord (depth + 2) (readValue depth)).run (r.encode ++ rest) = some (r, rest) ↔
        r.WellFormed ∧ r.Fits)) ∧
    ∀ a b : FieldValue, a.WellFormed ∧ a.Fits → b.WellFormed ∧ b.Fits →
      (same a b = true ↔ a.encode = b.encode) :=
  ⟨fun _ _ _ hdepth => read_encode hdepth, fun _ _ _ hdepth => readRecord_encode hdepth,
    fun _ _ ha hb => same_iff_encode ha hb⟩

/-- A record with a list and a record in it. -/
def visit : Record :=
  [("notes", .list [.text "a", .quantity .nan (some "m"), .geoPoint ⟨0⟩ ⟨0x8000000000000000⟩]),
    ("where", .record [("month", .month (-1) 12), ("none", .list [])])]

theorem storable_visit : (FieldValue.record visit).WellFormed ∧ (FieldValue.record visit).Fits := by
  have htext : ∀ s ∈ ["a", "m", "month", "none", "notes", "where"], TextFits s := by decide +kernel
  have hunits : ∀ s ∈ some "m", TextFits s := fun _ h => Option.some.inj h ▸ htext "m" (by decide)
  have houter : Keyed.Ascending visit := List.pairwise_pair.mpr (by decide)
  refine ⟨⟨houter, ⟨trivial, trivial, trivial, trivial⟩,
    ⟨List.pairwise_pair.mpr (by decide), trivial, trivial, trivial⟩, trivial⟩, ?_⟩
  refine ⟨by decide, htext _ (by decide), ⟨by decide, htext _ (by decide), hunits, trivial, trivial⟩,
    htext _ (by decide), ?_, trivial⟩
  exact ⟨by decide, htext _ (by decide), trivial, htext _ (by decide), ⟨by decide, trivial⟩, trivial⟩

/-- The record survives, alone and as a value, and its bytes are not those of the empty list. -/
theorem read_encode_visit :
    (readValue 5).run ((FieldValue.record visit).encode ++ [0xc1]) = some (.record visit, [0xc1]) ∧
      (readRecord 5 (readValue 3)).run (Record.encode visit ++ [0xc1]) = some (visit, [0xc1]) ∧
      (same (.record visit) (.list []) = true ↔
        (FieldValue.record visit).encode = (FieldValue.list []).encode) := by
  obtain ⟨hvalue, hrecord, hsame⟩ := read_encode_iff
  exact ⟨(hvalue (.record visit) 5 [0xc1] (by decide)).mpr storable_visit,
    (hrecord visit 3 [0xc1] (by decide)).mpr storable_visit,
    hsame (.record visit) (.list []) storable_visit ⟨trivial, by decide, trivial⟩⟩

/-- A text of so many letters. -/
def letters (n : Nat) : String := String.ofList (List.replicate n 'a')

theorem length_utf8_letters (n : Nat) : (Text.utf8 (letters n)).length = n := by
  rw [Text.utf8_eq, letters, String.toList_ofList, List.length_flatMap, List.map_replicate]
  have hone : (String.utf8EncodeChar 'a').length = 1 := by decide
  rw [hone, List.sum_replicate_nat, Nat.mul_one]

/-- A text whose letters four bytes cannot count is not read again, however deep the reader goes: of
its bytes the empty text is read, and the letters are left over. -/
theorem read_encode_letters :
    (∀ depth, (readValue depth).run (FieldValue.text (letters 0x100000000)).encode =
      some (.text "", Text.utf8 (letters 0x100000000))) ∧
    ¬∃ depth, (readValue depth).run (FieldValue.text (letters 0x100000000)).encode =
      some (.text (letters 0x100000000), []) := by
  have hlength := length_utf8_letters 0x100000000
  have hbytes : (FieldValue.text (letters 0x100000000)).encode =
      (FieldValue.text "").encode ++ Text.utf8 (letters 0x100000000) := by
    have hhead : MessagePack.textHead 0x100000000 = MessagePack.text "" := by decide
    have htext : MessagePack.text (letters 0x100000000) =
        MessagePack.text "" ++ Text.utf8 (letters 0x100000000) := by
      rw [MessagePack.text, hlength, hhead]
    rw [encode, encode, entry, entry, htext, List.append_assoc, List.append_assoc,
      List.append_assoc]
  have hread : ∀ depth, (readValue depth).run (FieldValue.text (letters 0x100000000)).encode =
      some (.text "", Text.utf8 (letters 0x100000000)) := by
    intro depth
    rw [hbytes]
    exact (read_encode (Nat.zero_le depth)).mpr ⟨trivial, (by decide : TextFits "")⟩
  refine ⟨hread, ?_⟩
  rintro ⟨depth, h⟩
  have hrest := (Prod.mk.inj (Option.some.inj ((hread depth).symm.trans h))).2
  rw [← List.length_eq_zero_iff, hlength] at hrest
  cases hrest

end FieldValue

end Fieldbook
