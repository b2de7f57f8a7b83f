import Fieldbook.Form.Basic
import Mathlib.Data.List.Basic

/-!
# Proofs/Form/Removal — what is left of a form

One name may stand on several elements of a form, beside and within each other.  Every element has
a place, which the sections around it tell (`FormElement.places`), and what a removal leaves are the
elements whose places avoid the name (`placesAll_without`): none that has the name, and none within
a section that has it.  The fields that are left are read off from their places.

A form is valid if its fields have names of their own.  Any other form is refused for the first
field whose name has occurred (`validate_error_iff`).
-/

namespace Fieldbook

/-- An element of a form, with the names of the sections around it, the outermost first. -/
structure Place where
  around : List FieldId
  element : FormElement

namespace Place

variable {name id : FieldId} {p : Place}

/-- A place as it is seen from outside of a section. -/
def inside (id : FieldId) (p : Place) : Place := { p with around := id :: p.around }

/-- Neither the element nor a section around it has the name. -/
def Avoids (name : FieldId) (p : Place) : Prop := p.element.id ≠ name ∧ name ∉ p.around

instance (name : FieldId) : DecidablePred (Avoids name) :=
  fun _ => inferInstanceAs (Decidable (_ ∧ _))

/-- The place with everything of a name removed from within the element. -/
def without (name : FieldId) (p : Place) : Place := { p with element := p.element.without name }

/-- The field in a place, if the element is one. -/
def field? (p : Place) : Option FormField :=
  match p.element with
  | .field f => some f
  | .group .. => none

theorem avoids_inside (h : id ≠ name) : (p.inside id).Avoids name ↔ p.Avoids name := by
  simp [Avoids, inside, h.symm]

/-- Another name is avoided in a section as it is within it. -/
theorem filter_inside (h : id ≠ name) (ps : List Place) :
    (ps.map (inside id)).filter (Avoids name) = (ps.filter (Avoids name)).map (inside id) := by
  rw [List.filter_map]
  exact congrArg _ (List.filter_congr fun p _ => decide_eq_decide.mpr (avoids_inside h))

theorem field?_inside (id : FieldId) (p : Place) : (p.inside id).field? = p.field? := rfl

theorem field?_without (name : FieldId) (p : Place) : (p.without name).field? = p.field? := by
  obtain ⟨around, f | ⟨id, label, elements⟩⟩ := p <;> rfl

end Place

namespace FormElement

variable {a b name : FieldId} {e : FormElement} {es : List FormElement} {p : Place}

/-! ## Places -/

mutual

/-- An element and all elements in it, each in its place, in document order. -/
def places : FormElement → List Place
  | .field f => [⟨[], .field f⟩]
  | .group id label elements =>
    ⟨[], .group id label elements⟩ :: (placesAll elements).map (Place.inside id)

def placesAll : List FormElement → List Place
  | [] => []
  | e :: rest => places e ++ placesAll rest

end

mutual

/-- The fields of an element are those in its places. -/
theorem fields_eq : ∀ e : FormElement, e.fields = e.places.filterMap Place.field?
  | .field _ => rfl
  | .group id label elements => by
    have hinside : ((placesAll elements).map (Place.inside id)).filterMap Place.field? =
        (placesAll elements).filterMap Place.field? := by
      rw [List.filterMap_map]
      exact List.filterMap_congr fun p _ => Place.field?_inside id p
    rw [fields, places, List.filterMap_cons_none rfl, hinside, fieldsOfAll_eq elements]

theorem fieldsOfAll_eq : ∀ es : List FormElement,
    fieldsOfAll es = (placesAll es).filterMap Place.field?
  | [] => rfl
  | e :: rest => by
    rw [fieldsOfAll, placesAll, List.filterMap_append, fields_eq e, fieldsOfAll_eq rest]

end

/-! ## Removal -/

theorem id_without (name : FieldId) (e : FormElement) : (e.without name).id = e.id := by
  cases e <;> rfl

theorem withoutAll_cons_of_eq (h : e.id = name) :
    withoutAll name (e :: es) = withoutAll name es := by
  rw [withoutAll, if_pos h]

theorem withoutAll_cons_of_ne (h : e.id ≠ name) :
    withoutAll name (e :: es) = e.without name :: withoutAll name es := by
  rw [withoutAll, if_neg h]

/-- Nothing in an element avoids the name of the element. -/
theorem not_avoids_id (h : p ∈ e.places) : ¬p.Avoids e.id := by
  rintro ⟨hid, haround⟩
  cases e with
  | field f =>
    obtain rfl := List.mem_singleton.mp h
    exact hid rfl
  | group id label elements =>
    obtain rfl | h := List.mem_cons.mp h
    · exact hid rfl
    · obtain ⟨q, -, rfl⟩ := List.mem_map.mp h
      exact haround List.mem_cons_self

mutual

/-- Of an element that does not have the name, what avoids the name is left. -/
theorem places_without : ∀ e : FormElement, e.id ≠ name →
    (e.without name).places = (e.places.filter (Place.Avoids name)).map (Place.without name)
  | .field f, h => by
    have havoids : Place.Avoids name ⟨[], .field f⟩ := ⟨h, List.not_mem_nil⟩
    rw [without, places, List.filter_singleton, decide_eq_true havoids]
    rfl
  | .group id label elements, h => by
    have havoids : Place.Avoids name ⟨[], .group id label elements⟩ := ⟨h, List.not_mem_nil⟩
    have hinside : ((placesAll elements).map (Place.inside id)).filter (Place.Avoids name) =
        ((placesAll elements).filter (Place.Avoids name)).map (Place.inside id) :=
      Place.filter_inside h _
    rw [without, places, places, placesAll_without elements, List.filter_cons,
      if_pos (decide_eq_true havoids), List.map_cons, hinside, List.map_map, List.map_map]
    rfl

/-- **What a removal leaves** are the elements whose places avoid the name, in their order, each
without what is removed from within it. -/
theorem placesAll_without : ∀ es : List FormElement, placesAll (withoutAll name es) =
    ((placesAll es).filter (Place.Avoids name)).map (Place.without name)
  | [] => rfl
  | e :: rest => by
    rw [placesAll, List.filter_append, List.map_append]
    by_cases h : e.id = name
    · have hnone : e.places.filter (Place.Avoids name) = [] :=
        List.filter_eq_nil_iff.mpr fun p hp => by simpa [h] using not_avoids_id hp
      rw [withoutAll_cons_of_eq h, hnone, List.map_nil, List.nil_append, placesAll_without rest]
    · rw [withoutAll_cons_of_ne h, placesAll, places_without e h, placesAll_without rest]

end

/-- Nothing of the name is left. -/
theorem id_ne_of_mem_without (h : p ∈ placesAll (withoutAll name es)) : p.element.id ≠ name := by
  rw [placesAll_without] at h
  obtain ⟨q, hq, rfl⟩ := List.mem_map.mp h
  have havoids : q.Avoids name := of_decide_eq_true (List.mem_filter.mp hq).2
  rw [Place.without, id_without]
  exact havoids.1

theorem fieldsOfAll_without (name : FieldId) (es : List FormElement) :
    fieldsOfAll (withoutAll name es) =
      ((placesAll es).filter (Place.Avoids name)).filterMap Place.field? := by
  rw [fieldsOfAll_eq, placesAll_without, List.filterMap_map]
  exact List.filterMap_congr fun p _ => Place.field?_without name p

mutual

/-- An element in which nothing has the name stays as it is. -/
theorem without_eq_self : ∀ e : FormElement, (∀ p ∈ e.places, p.element.id ≠ name) →
    e.without name = e
  | .field _, _ => rfl
  | .group id label elements, h => by
    have helements : ∀ p ∈ placesAll elements, p.element.id ≠ name := fun p hp =>
      h (p.inside id) (List.mem_cons_of_mem _ (List.mem_map_of_mem hp))
    rw [without, withoutAll_eq_self elements helements]

theorem withoutAll_eq_self : ∀ es : List FormElement, (∀ p ∈ placesAll es, p.element.id ≠ name) →
    withoutAll name es = es
  | [], _ => rfl
  | e :: rest, h => by
    obtain ⟨hfirst, hrest⟩ := List.forall_mem_append.mp h
    have hid : e.id ≠ name := by
      cases e <;> exact hfirst _ List.mem_cons_self
    rw [withoutAll_cons_of_ne hid, without_eq_self e hfirst, withoutAll_eq_self rest hrest]

end

mutual

theorem without_comm : ∀ e : FormElement, (e.without a).without b = (e.without b).without a
  | .field _ => rfl
  | .group _ _ elements => by simp only [without, withoutAll_comm elements]

/-- Two names are removed in either order. -/
theorem withoutAll_comm : ∀ es : List FormElement,
    withoutAll b (withoutAll a es) = withoutAll a (withoutAll b es)
  | [] => rfl
  | e :: rest => by
    have hrest := withoutAll_comm rest
    have hida : (e.without a).id = e.id := id_without a e
    have hidb : (e.without b).id = e.id := id_without b e
    by_cases ha : e.id = a <;> by_cases hb : e.id = b
    · rw [withoutAll_cons_of_eq ha, withoutAll_cons_of_eq hb, hrest]
    · rw [withoutAll_cons_of_eq ha, withoutAll_cons_of_ne hb, withoutAll_cons_of_eq (hidb.trans ha),
        hrest]
    · rw [withoutAll_cons_of_ne ha, withoutAll_cons_of_eq hb, withoutAll_cons_of_eq (hida.trans hb),
        hrest]
    · rw [withoutAll_cons_of_ne ha, withoutAll_cons_of_ne hb,
        withoutAll_cons_of_ne (hida.trans_ne hb), withoutAll_cons_of_ne (hidb.trans_ne ha),
        without_comm e, hrest]

end

end FormElement

namespace Form

variable {f : Form} {a b id : FieldId} {seen : List FieldId} {fields : List FormField}
  {err : DataError}

/-! ## Valid forms -/

/-- Nothing is repeated in fields with names of their own that have not been seen. -/
theorem firstRepeated?_eq_none : firstRepeated? seen fields = none ↔
    (fields.map (·.id)).Nodup ∧ ∀ g ∈ fields, g.id ∉ seen := by
  induction fields generalizing seen with
  | nil => simp [firstRepeated?]
  | cons g rest ih =>
    rw [firstRepeated?, List.map_cons, List.nodup_cons, List.forall_mem_cons]
    by_cases hseen : g.id ∈ seen
    · simp [hseen]
    · rw [if_neg hseen, ih]
      simp only [List.mem_cons, not_or, List.mem_map, not_exists, not_and]
      grind

/-- The first field that repeats a name comes after fields that repeat none. -/
theorem firstRepeated?_eq_some : firstRepeated? seen fields = some id ↔
    ∃ before g after, fields = before ++ g :: after ∧ g.id = id ∧
      firstRepeated? seen before = none ∧ (id ∈ seen ∨ id ∈ before.map (·.id)) := by
  induction fields generalizing seen with
  | nil => simp [firstRepeated?]
  | cons g rest ih =>
    rw [firstRepeated?]
    -- the fields before the one that is found are either none, or begin with `g`
    by_cases hseen : g.id ∈ seen
    · rw [if_pos hseen, Option.some.injEq]
      constructor
      · rintro rfl
        exact ⟨[], g, rest, rfl, rfl, rfl, .inl hseen⟩
      · rintro ⟨_ | ⟨first, before⟩, g', after, hfields, rfl, hnone, -⟩
        · rw [(List.cons.inj hfields).1]
        · rw [← (List.cons.inj hfields).1, firstRepeated?, if_pos hseen] at hnone
          cases hnone
    · rw [if_neg hseen, ih]
      constructor
      · rintro ⟨before, g', after, rfl, rfl, hnone, hmem⟩
        refine ⟨g :: before, g', after, rfl, rfl, ?_, ?_⟩
        · rw [firstRepeated?, if_neg hseen, hnone]
        · simp only [List.mem_cons, List.map_cons] at hmem ⊢
          tauto
      · rintro ⟨_ | ⟨first, before⟩, g', after, hfields, rfl, hnone, hmem⟩
        · rw [(List.cons.inj hfields).1] at hseen
          simp [hseen] at hmem
        · obtain ⟨rfl, rfl⟩ := List.cons.inj hfields
          rw [firstRepeated?, if_neg hseen] at hnone
          refine ⟨before, g', after, rfl, rfl, hnone, ?_⟩
          simp only [List.mem_cons, List.map_cons] at hmem ⊢
          tauto

theorem validate_ok_iff : f.validate = .ok () ↔ (f.fields.map (·.id)).Nodup := by
  have hnone : firstRepeated? [] f.fields = none ↔ (f.fields.map (·.id)).Nodup := by
    simp [firstRepeated?_eq_none]
  rw [validate, ← hnone]
  cases firstRepeated? [] f.fields <;> simp

/-- **A form is refused** for the first of its fields that has the name of an earlier one. -/
theorem validate_error_iff : f.validate = .error err ↔
    ∃ before g after, f.fields = before ++ g :: after ∧ (before.map (·.id)).Nodup ∧
      g.id ∈ before.map (·.id) ∧ err = .duplicateField f.id g.id := by
  have hsome : ∀ id, firstRepeated? [] f.fields = some id ↔
      ∃ before g after, f.fields = before ++ g :: after ∧ g.id = id ∧
        (before.map (·.id)).Nodup ∧ id ∈ before.map (·.id) := by
    simp [firstRepeated?_eq_some, firstRepeated?_eq_none]
  rw [validate]
  cases hrepeated : firstRepeated? [] f.fields with
  | none =>
    refine iff_of_false (fun h => nomatch h) ?_
    rintro ⟨before, g, after, hfields, hnodup, hmem, -⟩
    rw [(hsome g.id).mpr ⟨before, g, after, hfields, rfl, hnodup, hmem⟩] at hrepeated
    cases hrepeated
  | some id =>
    constructor
    · intro h
      obtain ⟨before, g, after, hfields, rfl, hnodup, hmem⟩ := (hsome id).mp hrepeated
      exact ⟨before, g, after, hfields, hnodup, hmem, (Except.error.inj h).symm⟩
    · rintro ⟨before, g, after, hfields, hnodup, hmem, rfl⟩
      rw [(hsome g.id).mpr ⟨before, g, after, hfields, rfl, hnodup, hmem⟩] at hrepeated
      rw [Option.some.inj hrepeated]

/-! ## Forms without a name -/

/-- All elements of a form, each in its place, in document order. -/
def places (f : Form) : List Place := FormElement.placesAll f.elements

/-- A part of the fields of a valid form is valid. -/
theorem validate_of_sublist {g : Form} (hsub : g.fields.Sublist f.fields)
    (hvalid : f.validate = .ok ()) : g.validate = .ok () :=
  validate_ok_iff.mpr ((validate_ok_iff.mp hvalid).sublist (hsub.map _))

/-- What is left of a form without a name. -/
structure Removed (f : Form) (name : FieldId) : Prop where
  /-- No element at any depth has the name. -/
  gone : ∀ p ∈ (f.without name).places, p.element.id ≠ name
  /-- The fields are those whose own name, and the names of all sections around them, are others.
  They keep their order and are unchanged. -/
  fields : (f.without name).fields =
    (f.places.filter (Place.Avoids name)).filterMap Place.field?
  again : (f.without name).without name = f.without name
  swap : ∀ other, (f.without name).without other = (f.without other).without name
  valid : f.validate = .ok () → (f.without name).validate = .ok ()

/-- **A name is removed from a form,** wherever it stands, with everything in the sections that have
it and nothing else.  A form is valid if no two of its fields have one name, and then so is what is
left; any other form is refused for the first of its fields that has the name of an earlier one. -/
theorem removed_of_without (f : Form) (name : FieldId) :
    f.fields = f.places.filterMap Place.field? ∧ f.Removed name ∧
      (f.validate = .ok () ↔ (f.fields.map (·.id)).Nodup) ∧
      ∀ err, f.validate = .error err ↔
        ∃ before g after, f.fields = before ++ g :: after ∧ (before.map (·.id)).Nodup ∧
          g.id ∈ before.map (·.id) ∧ err = .duplicateField f.id g.id := by
  have hall : f.fields = f.places.filterMap Place.field? := FormElement.fieldsOfAll_eq f.elements
  have hfields : (f.without name).fields =
      (f.places.filter (Place.Avoids name)).filterMap Place.field? :=
    FormElement.fieldsOfAll_without name f.elements
  have hgone : ∀ p ∈ (f.without name).places, p.element.id ≠ name := fun _ =>
    FormElement.id_ne_of_mem_without
  refine ⟨hall, ⟨hgone, hfields, ?_, fun other => ?_, validate_of_sublist ?_⟩, validate_ok_iff,
    fun err => validate_error_iff⟩
  · rw [without, FormElement.withoutAll_eq_self _ hgone]
  · rw [without, without, without, without, FormElement.withoutAll_comm]
  · rw [hfields, hall]
    exact List.filter_sublist.filterMap _

/-- A form with a section, and with a field of the section's name in another one. -/
def visit : Form where
  id := ⟨"visit"⟩
  owner := ⟨"home"⟩
  label := "Visit"
  description := none
  elements :=
    let field (id : String) : FormElement := .field ⟨⟨id⟩, id, none, .text, false, false⟩
    [field "name", .group ⟨"place"⟩ "Place" [field "town"],
      .group ⟨"more"⟩ "More" [field "place", field "note"]]

/-- Both go with the name that they share, and with what is in the section. -/
theorem removed_of_without_visit : visit.validate = .ok () ∧
    (visit.without ⟨"place"⟩).validate = .ok () ∧
      (visit.without ⟨"place"⟩).fields.map (·.id.text) = ["name", "note"] := by
  obtain ⟨-, hremoved, hvalid, -⟩ := removed_of_without visit ⟨"place"⟩
  have hvisit : visit.validate = .ok () := hvalid.mpr (by decide)
  refine ⟨hvisit, hremoved.valid hvisit, ?_⟩
  rw [hremoved.fields]
  decide

end Form

end Fieldbook
