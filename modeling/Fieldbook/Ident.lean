import Fieldbook.Text.Hex

/-!
# Ident — names of resources, fields and commits

Resources and fields are named by any text; principals are resources. A commit marker names a write
whose version is given later. Names are ordered as texts, by code points.
-/

namespace Fieldbook

/-- The name of a resource. -/
structure ResourceId where
  text : String
  deriving DecidableEq, Inhabited

/-- A user or a group, which is a resource itself. -/
abbrev Principal := ResourceId

/-- The name of a field or a section of a form. -/
structure FieldId where
  text : String
  deriving DecidableEq, Inhabited

namespace ResourceId

instance : LT ResourceId := ⟨fun a b => a.text < b.text⟩

instance (a b : ResourceId) : Decidable (a < b) := inferInstanceAs (Decidable (a.text < b.text))

/-- The owner of all topmost resources. -/
def root : ResourceId := ⟨"_root"⟩

def isRoot (r : ResourceId) : Bool := r == root

/-- The detailed text of a resource name. -/
def detailed (r : ResourceId) : String := "ResourceId(" ++ r.text ++ ")"

end ResourceId

/-- The detailed text of a field name. -/
def FieldId.detailed (f : FieldId) : String := "FieldId(" ++ f.text ++ ")"

/-! ## Sets of names -/

/-- A set of resource names, as the ascending list of its members. -/
structure IdSet where
  toList : List ResourceId
  ascending : toList.Pairwise (· < ·)
  deriving DecidableEq

namespace IdSet

/-- Puts a name in its place, once. -/
def insertInto (r : ResourceId) : List ResourceId → List ResourceId
  | [] => [r]
  | s :: rest =>
    if r < s then r :: s :: rest
    else if r = s then s :: rest
    else s :: insertInto r rest

theorem mem_insertInto {r x : ResourceId} :
    ∀ {ids : List ResourceId}, x ∈ insertInto r ids ↔ x = r ∨ x ∈ ids
  | [] => by simp [insertInto]
  | s :: rest => by
    unfold insertInto
    split
    · simp
    · split
      · next h => subst h; simp
      · have ih : x ∈ insertInto r rest ↔ x = r ∨ x ∈ rest := mem_insertInto
        simp only [List.mem_cons, ih]
        grind

theorem lt_of_not_lt_of_ne {a b : ResourceId} (h : ¬a < b) (hne : a ≠ b) : b < a := by
  have hn : a.text ≠ b.text := fun e => hne (by cases a; cases b; simp_all)
  exact Decidable.byContradiction fun hb =>
    hn (String.le_antisymm (String.not_lt.mp hb) (String.not_lt.mp h))

theorem lt_trans {a b c : ResourceId} (hab : a < b) (hbc : b < c) : a < c :=
  String.lt_trans hab hbc

theorem ascending_insertInto (r : ResourceId) :
    ∀ {ids : List ResourceId}, ids.Pairwise (· < ·) → (insertInto r ids).Pairwise (· < ·)
  | [], _ => by simp [insertInto]
  | s :: rest, h => by
    have hp := List.pairwise_cons.mp h
    unfold insertInto
    split
    · next hlt =>
      refine List.pairwise_cons.mpr ⟨fun x hx => ?_, h⟩
      rcases List.mem_cons.mp hx with rfl | hx
      · exact hlt
      · exact lt_trans hlt (hp.1 x hx)
    · split
      · exact h
      · next hlt hne =>
        refine List.pairwise_cons.mpr ⟨fun x hx => ?_, ascending_insertInto r hp.2⟩
        rcases mem_insertInto.mp hx with rfl | hx
        · exact lt_of_not_lt_of_ne hlt hne
        · exact hp.1 x hx

def empty : IdSet := ⟨[], .nil⟩

def singleton (r : ResourceId) : IdSet := ⟨[r], by simp⟩

def insert (s : IdSet) (r : ResourceId) : IdSet :=
  ⟨insertInto r s.toList, ascending_insertInto r s.ascending⟩

/-- The set of the members of a list. -/
def ofList (ids : List ResourceId) : IdSet := ids.foldl insert empty

end IdSet

/-! ## Commit markers -/

/-- The name of a write whose version is given later, as the text it is shown by. -/
structure Marker where
  text : String
  deriving DecidableEq, Inhabited

namespace Marker

/-- Thirty-two hexadecimal digits in groups of 8, 4, 4, 4 and 12. -/
def grouped (digits : List Char) : List Char :=
  digits.take 8 ++ '-' :: (digits.drop 8).take 4 ++ '-' :: (digits.drop 12).take 4 ++
    '-' :: (digits.drop 16).take 4 ++ '-' :: digits.drop 20

/-- The marker of sixteen bytes. -/
def ofBytes (bytes : List UInt8) : Marker := ⟨String.ofList (grouped (Text.hexOfBytes bytes))⟩

/-- The marker that thirty-two hexadecimal digits name, hyphens between them left out. -/
def ofHex? (s : String) : Option Marker := do
  let bytes ← Text.bytesOfHex? (s.toList.filter (· != '-'))
  if bytes.length = 16 then pure (ofBytes bytes) else none

/-- The bytes of a marker; none for a text that no marker is shown by. -/
def bytes (m : Marker) : List UInt8 :=
  (Text.bytesOfHex? (m.text.toList.filter (· != '-'))).getD []

/-- The detailed text of a marker: its first group. -/
def detailed (m : Marker) : String := "CommitMarker(" ++ String.ofList (m.text.toList.take 8) ++ ")"

end Marker

end Fieldbook
