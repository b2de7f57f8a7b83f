import Fieldbook.Calendar.Instant
import Fieldbook.Expr.Basic
import Fieldbook.Ident
import Fieldbook.Keyed

/-!
# FieldValue/Basic — the values of fields

A field value is one of seventeen kinds; records and lists hold further values. A record is a keyed
list, its keys ascending and each there once (`FieldValue.WellFormed`), which everything that builds
records keeps.

Equality is decided kind by kind. Numbers are equal when their bits are, so it is an equivalence
even on NaN.
-/

namespace Fieldbook

/-- A value that a field may hold. -/
inductive FieldValue where
  | text (s : String)
  | quantity (value : Double) (units : Option String)
  | boolean (b : Bool)
  /-- The chosen items of an enumeration. -/
  | choice (items : List ResourceId)
  | reference (targets : List ResourceId)
  | barcode (s : String)
  | narrative (s : String)
  | geoPoint (latitude longitude : Double)
  | image (blobId mimeType : String)
  | localDate (d : Date)
  | month (year : Int32) (month : UInt32)
  | year (y : Int32)
  | localDateInterval (start finish : Date)
  | instant (t : Instant)
  /-- The text of an expression. -/
  | expr (source : String)
  | record (fields : List (String × FieldValue))
  | list (items : List FieldValue)
  deriving Inhabited

/-- The value of a resource: field values under their keys. -/
abbrev Record := List (String × FieldValue)

namespace FieldValue

/-! ## Equality -/

mutual

/-- Whether two values are of one kind and agree in all their parts. -/
def same : FieldValue → FieldValue → Bool
  | .text a, .text b => a == b
  | .quantity a u, .quantity b v => a == b && u == v
  | .boolean a, .boolean b => a == b
  | .choice a, .choice b => a == b
  | .reference a, .reference b => a == b
  | .barcode a, .barcode b => a == b
  | .narrative a, .narrative b => a == b
  | .geoPoint a b, .geoPoint c d => a == c && b == d
  | .image a b, .image c d => a == c && b == d
  | .localDate a, .localDate b => a == b
  | .month a b, .month c d => a == c && b == d
  | .year a, .year b => a == b
  | .localDateInterval a b, .localDateInterval c d => a == c && b == d
  | .instant a, .instant b => a == b
  | .expr a, .expr b => a == b
  | .record a, .record b => sameFields a b
  | .list a, .list b => sameItems a b
  | _, _ => false

def sameFields : List (String × FieldValue) → List (String × FieldValue) → Bool
  | [], [] => true
  | (j, v) :: rest, (k, w) :: rest' => j == k && same v w && sameFields rest rest'
  | _, _ => false

def sameItems : List FieldValue → List FieldValue → Bool
  | [], [] => true
  | v :: rest, w :: rest' => same v w && sameItems rest rest'
  | _, _ => false

end

mutual

theorem same_iff : ∀ v w : FieldValue, same v w = true ↔ v = w
  | .record a, w => by
    cases w <;> simp [same, sameFields_iff a]
  | .list a, w => by
    cases w <;> simp [same, sameItems_iff a]
  | .text _, w | .quantity _ _, w | .boolean _, w | .choice _, w | .reference _, w
  | .barcode _, w | .narrative _, w | .geoPoint _ _, w | .image _ _, w | .localDate _, w
  | .month _ _, w | .year _, w | .localDateInterval _ _, w | .instant _, w | .expr _, w => by
    cases w <;> simp [same]

theorem sameFields_iff : ∀ a b : List (String × FieldValue), sameFields a b = true ↔ a = b
  | [], b => by cases b <;> simp [sameFields]
  | (j, v) :: rest, b => by
    cases b with
    | nil => simp [sameFields]
    | cons e rest' =>
      obtain ⟨k, w⟩ := e
      simp [sameFields, same_iff v w, sameFields_iff rest rest', and_assoc]

theorem sameItems_iff : ∀ a b : List FieldValue, sameItems a b = true ↔ a = b
  | [], b => by cases b <;> simp [sameItems]
  | v :: rest, b => by
    cases b with
    | nil => simp [sameItems]
    | cons w rest' => simp [sameItems, same_iff v w, sameItems_iff rest rest']

end

instance : DecidableEq FieldValue := fun v w => decidable_of_iff _ (same_iff v w)

/-! ## Well-formed values -/

mutual

/-- In every record within the value the keys are ascending. -/
def WellFormed : FieldValue → Prop
  | .record fields => Keyed.Ascending fields ∧ FieldsWellFormed fields
  | .list items => ItemsWellFormed items
  | _ => True

def FieldsWellFormed : List (String × FieldValue) → Prop
  | [] => True
  | (_, v) :: rest => WellFormed v ∧ FieldsWellFormed rest

def ItemsWellFormed : List FieldValue → Prop
  | [] => True
  | v :: rest => WellFormed v ∧ ItemsWellFormed rest

end

/-! ## Parts -/

def text? : FieldValue → Option String
  | .text s => some s
  | _ => none

def boolean? : FieldValue → Option Bool
  | .boolean b => some b
  | _ => none

def quantity? : FieldValue → Option Double
  | .quantity x _ => some x
  | _ => none

def record? : FieldValue → Option Record
  | .record fields => some fields
  | _ => none

def list? : FieldValue → Option (List FieldValue)
  | .list items => some items
  | _ => none

/-- A value as an operand of expressions. Enumerations and references count by their only member;
kinds without a scalar meaning are missing. -/
def operand : FieldValue → Expr.Operand
  | .quantity x _ => .number x
  | .year y => .number (.ofInt y.toInt)
  | .boolean b => .boolean b
  | .text s | .barcode s | .narrative s => .text s
  | .choice [r] | .reference [r] => .text r.text
  | _ => .missing

end FieldValue

end Fieldbook
