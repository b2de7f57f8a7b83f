import Fieldbook.Record
import Fieldbook.Proofs.FieldValue.Nesting
import Fieldbook.Proofs.Keyed

/-!
# Proofs/FieldValue/Records — records made of given pairs

A record that is made by putting values under keys of their own holds just those pairs, in the order
of the keys (`Record.Made`).  What stands under a key, and what is asked of all values of the record,
is then asked of the pairs, and the order does not matter.  So is the size of the record, pair by
pair (`FieldValue.Sized`): whether it fits, and how deep it is nested.
-/

namespace Fieldbook

open MessagePack (CountFits TextFits)

/-! ## Made records -/

namespace Record

/-- The record holds just the pairs, whatever their order. -/
structure Made (r : Record) (entries : List (String × FieldValue)) : Prop where
  ascending : Keyed.Ascending r
  perm : r.Perm entries

variable {r : Record} {entries : List (String × FieldValue)} {key : String} {value : FieldValue}

theorem made_empty : empty.Made [] := ⟨.nil, .refl _⟩

namespace Made

theorem set (h : r.Made entries) (hnew : key ∉ entries.map (·.1)) :
    (r.set key value).Made ((key, value) :: entries) where
  ascending := Keyed.ascending_insert key value h.ascending
  perm := by
    have hr : key ∉ r.map (·.1) := fun hmem => hnew ((h.perm.map _).mem_iff.mp hmem)
    exact (Keyed.perm_insert hr).trans (h.perm.cons _)

theorem setOption (h : r.Made entries) (hnew : key ∉ entries.map (·.1)) :
    ∀ value? : Option FieldValue,
      (r.setOption key value?).Made ((value?.map (key, ·)).toList ++ entries)
  | none => h
  | some _ => h.set hnew

end Made

theorem Made.of_perm {entries' : List (String × FieldValue)} (h : r.Made entries)
    (hperm : entries.Perm entries') : r.Made entries' :=
  ⟨h.ascending, h.perm.trans hperm⟩

theorem made_foldl : ∀ {later sooner : List (String × FieldValue)} {r : Record}, r.Made sooner →
    ((later ++ sooner).map (·.1)).Nodup →
      Made (later.foldl (fun acc e => Keyed.insert e.1 e.2 acc) r) (later ++ sooner)
  | [], _, _, h, _ => h
  | (key, value) :: later, sooner, r, h, hd => by
    have hmiddle : ((key, value) :: (later ++ sooner)).Perm (later ++ (key, value) :: sooner) :=
      List.perm_middle.symm
    have hnew : key ∉ (later ++ sooner).map (·.1) := (List.nodup_cons.mp hd).1
    rw [List.map_append, List.mem_append] at hnew
    have hset : (r.set key value).Made ((key, value) :: sooner) :=
      h.set fun hmem => hnew (.inr hmem)
    exact (made_foldl hset ((hmiddle.map _).nodup_iff.mp hd)).of_perm hmiddle.symm

/-- **A record of pairs under distinct keys** is made of them. -/
theorem made_ofList (h : (entries.map (·.1)).Nodup) : (ofList entries).Made entries := by
  have hmade : (ofList entries).Made (entries ++ []) :=
    made_foldl made_empty (by rwa [List.append_nil])
  rwa [List.append_nil] at hmade

/-! ## What is asked of all values -/

namespace Made

variable (h : r.Made entries)

include h

theorem nodup_keys : (entries.map (·.1)).Nodup :=
  (h.perm.map _).nodup_iff.mp (Keyed.Ascending.nodup_keys h.ascending)

/-- **What stands under a key** is found among the pairs. -/
theorem get?_eq (key : String) : r.get? key = Keyed.find? key entries := by
  have hr : (r.map (·.1)).Nodup := (h.perm.map _).nodup_iff.mpr h.nodup_keys
  refine Option.ext fun value => ?_
  change Keyed.find? key r = some value ↔ _
  rw [Keyed.find?_eq_some_iff hr, Keyed.find?_eq_some_iff h.nodup_keys]
  exact h.perm.mem_iff

theorem text_eq {key s : String} (hfind : Keyed.find? key entries = some (.text s)) :
    r.text key = .ok s := by
  rw [Record.text, Record.text?, h.get?_eq, hfind]
  rfl

end Made

end Record

namespace FieldValue

variable {r r' : Record}

/-- The order of pairs does not matter to their nesting. -/
theorem fieldsNesting_perm (h : r.Perm r') : fieldsNesting r = fieldsNesting r' := by
  refine Nat.le_antisymm ?_ ?_
  · exact fieldsNesting_le_iff.mpr fun e he =>
      fieldsNesting_le_iff.mp (Nat.le_refl _) e (h.mem_iff.mp he)
  · exact fieldsNesting_le_iff.mpr fun e he =>
      fieldsNesting_le_iff.mp (Nat.le_refl _) e (h.mem_iff.mpr he)

end FieldValue

namespace Record.Made

variable {r : Record} {entries : List (String × FieldValue)} (h : r.Made entries)

include h

theorem nesting_eq : FieldValue.fieldsNesting r = FieldValue.fieldsNesting entries :=
  FieldValue.fieldsNesting_perm h.perm

theorem wellFormed (hall : FieldValue.FieldsWellFormed entries) : r.WellFormed := by
  rw [FieldValue.fieldsWellFormed_iff] at hall
  exact ⟨h.ascending, FieldValue.fieldsWellFormed_iff.mpr fun e he => hall e (h.perm.mem_iff.mp he)⟩

theorem fits_iff : r.Fits ↔ CountFits entries.length ∧ FieldValue.FieldsFit entries := by
  rw [Record.Fits, h.perm.length_eq, FieldValue.fieldsFit_iff, FieldValue.fieldsFit_iff]
  refine and_congr_right fun _ => forall_congr' fun e => ?_
  rw [h.perm.mem_iff]

end Record.Made

/-! ## Values of a size -/

namespace FieldValue

/-- The value fits just if `fits` holds, and is nested as deep as `levels` says. -/
structure Sized (v : FieldValue) (fits : Prop) (levels : Nat) : Prop where
  wellFormed : v.WellFormed
  fits_iff : v.Fits ↔ fits
  nesting_eq : v.nesting = levels

/-- The same of pairs, taken together. -/
structure FieldsSized (entries : List (String × FieldValue)) (fits : Prop) (levels : Nat) :
    Prop where
  wellFormed : FieldsWellFormed entries
  fits_iff : FieldsFit entries ↔ fits
  nesting_eq : fieldsNesting entries = levels

/-- The same of the items of a list, taken together. -/
structure ItemsSized (items : List FieldValue) (fits : Prop) (levels : Nat) : Prop where
  wellFormed : ItemsWellFormed items
  fits_iff : ItemsFit items ↔ fits
  nesting_eq : itemsNesting items = levels

variable {v : FieldValue} {P Q : Prop} {m n : Nat} {entries : List (String × FieldValue)}
  {items : List FieldValue}

theorem Sized.congr (h : v.Sized P m) (hP : P ↔ Q) (hm : m = n) : v.Sized Q n :=
  ⟨h.wellFormed, h.fits_iff.trans hP, h.nesting_eq.trans hm⟩

theorem Sized.text (s : String) : (FieldValue.text s).Sized (TextFits s) 0 := ⟨trivial, .rfl, rfl⟩

theorem Sized.expr (s : String) : (FieldValue.expr s).Sized (TextFits s) 0 := ⟨trivial, .rfl, rfl⟩

theorem Sized.boolean (b : Bool) : (FieldValue.boolean b).Sized True 0 := ⟨trivial, .rfl, rfl⟩

theorem Sized.reference (ids : List ResourceId) : (FieldValue.reference ids).Sized (IdsFit ids) 1 :=
  ⟨trivial, .rfl, rfl⟩

theorem FieldsSized.congr (h : FieldsSized entries P m) (hP : P ↔ Q) (hm : m = n) :
    FieldsSized entries Q n :=
  ⟨h.wellFormed, h.fits_iff.trans hP, h.nesting_eq.trans hm⟩

theorem fieldsSized_nil : FieldsSized [] True 0 := ⟨trivial, .rfl, rfl⟩

theorem FieldsSized.cons (hrest : FieldsSized entries Q n) (key : String) (hkey : TextFits key)
    (hv : v.Sized P m) : FieldsSized ((key, v) :: entries) (P ∧ Q) (max m n) where
  wellFormed := ⟨hv.wellFormed, hrest.wellFormed⟩
  fits_iff := (and_iff_right hkey).trans (and_congr hv.fits_iff hrest.fits_iff)
  nesting_eq := by rw [fieldsNesting, hv.nesting_eq, hrest.nesting_eq]

/-- A text that may be missing. -/
theorem FieldsSized.option (hrest : FieldsSized entries Q n) (key : String) (hkey : TextFits key)
    {make : String → FieldValue} (hmake : ∀ s, (make s).Sized (TextFits s) 0) :
    ∀ s? : Option String, FieldsSized (((s?.map make).map (key, ·)).toList ++ entries)
      ((∀ s ∈ s?, TextFits s) ∧ Q) n
  | none => by
    have hnone : ∀ s ∈ (none : Option String), TextFits s := nofun
    exact ⟨hrest.wellFormed, hrest.fits_iff.trans (and_iff_right hnone).symm, hrest.nesting_eq⟩
  | some s => by
    obtain ⟨hformed, hfits, hnesting⟩ := hrest.cons key hkey (hmake s)
    refine ⟨hformed, hfits.trans (and_congr_left' ?_), hnesting.trans (Nat.zero_max n)⟩
    simp

theorem itemsSized_nil : ItemsSized [] True 0 := ⟨trivial, .rfl, rfl⟩

theorem ItemsSized.cons (hrest : ItemsSized items Q n) (hv : v.Sized P m) :
    ItemsSized (v :: items) (P ∧ Q) (max m n) where
  wellFormed := ⟨hv.wellFormed, hrest.wellFormed⟩
  fits_iff := and_congr hv.fits_iff hrest.fits_iff
  nesting_eq := by rw [itemsNesting, hv.nesting_eq, hrest.nesting_eq]

theorem ItemsSized.list (h : ItemsSized items P n) :
    (list items).Sized (CountFits items.length ∧ P) (n + 1) where
  wellFormed := h.wellFormed
  fits_iff := and_congr_right' h.fits_iff
  nesting_eq := congrArg (· + 1) h.nesting_eq

/-- **A record made of some pairs** is as large as they are together. -/
theorem FieldsSized.record {r : Record} (h : FieldsSized entries P n) (hmade : r.Made entries)
    (hfew : entries.length ≤ 1000) : (record r).Sized P (n + 2) where
  wellFormed := hmade.wellFormed h.wellFormed
  fits_iff := by
    have hcount : CountFits entries.length := Nat.lt_of_le_of_lt hfew (by decide)
    exact hmade.fits_iff.trans ((and_iff_right hcount).trans h.fits_iff)
  nesting_eq := by rw [nesting, hmade.nesting_eq, h.nesting_eq]

end FieldValue

end Fieldbook
