import Fieldbook.Form.FieldType

/-!
# Form/Basic — forms, their sections and fields

A form describes the fields that the resources of its class carry. Fields may be gathered in
sections to any depth; `Form.fields` is the flat list in document order. One name may occur on
several elements, but a valid form has no two fields of one name.
-/

namespace Fieldbook

/-- A field of a form. -/
structure FormField where
  id : FieldId
  label : String
  description : Option String
  type : FieldType
  required : Bool
  readOnly : Bool
  deriving DecidableEq

/-- A field, or a section that holds further elements. -/
inductive FormElement where
  | field (f : FormField)
  | group (id : FieldId) (label : String) (elements : List FormElement)

/-- A form: the class of the resources that carry its fields. -/
structure Form where
  id : ResourceId
  owner : ResourceId
  label : String
  description : Option String
  elements : List FormElement

namespace FormElement

def id : FormElement → FieldId
  | .field f => f.id
  | .group id _ _ => id

/-! ## Equality -/

mutual

def same : FormElement → FormElement → Bool
  | .field f, .field g => f == g
  | .group i l es, .group j m fs => i == j && l == m && sameAll es fs
  | _, _ => false

def sameAll : List FormElement → List FormElement → Bool
  | [], [] => true
  | e :: es, f :: fs => same e f && sameAll es fs
  | _, _ => false

end

mutual

theorem same_iff : ∀ e f : FormElement, same e f = true ↔ e = f
  | .field _, f => by cases f <;> simp [same]
  | .group _ _ es, f => by cases f <;> simp [same, sameAll_iff es, and_assoc]

theorem sameAll_iff : ∀ es fs : List FormElement, sameAll es fs = true ↔ es = fs
  | [], fs => by cases fs <;> simp [sameAll]
  | e :: es, fs => by cases fs <;> simp [sameAll, same_iff e, sameAll_iff es]

end

instance : DecidableEq FormElement := fun e f => decidable_of_iff _ (same_iff e f)

/-! ## Fields -/

mutual

/-- The fields of an element, in document order. -/
def fields : FormElement → List FormField
  | .field f => [f]
  | .group _ _ elements => fieldsOfAll elements

def fieldsOfAll : List FormElement → List FormField
  | [] => []
  | e :: rest => fields e ++ fieldsOfAll rest

end

/-! ## Removal -/

mutual

/-- An element with everything of a name removed from within it. -/
def without (name : FieldId) : FormElement → FormElement
  | .field f => .field f
  | .group id label elements => .group id label (withoutAll name elements)

/-- Elements with everything of a name removed, at any depth. -/
def withoutAll (name : FieldId) : List FormElement → List FormElement
  | [] => []
  | e :: rest =>
    if e.id = name then withoutAll name rest else without name e :: withoutAll name rest

end

end FormElement

namespace Form

deriving instance DecidableEq for Form

/-- All fields, in document order. -/
def fields (f : Form) : List FormField := FormElement.fieldsOfAll f.elements

/-- The first field of a name. -/
def field? (f : Form) (id : FieldId) : Option FormField := f.fields.find? (·.id = id)

/-- The form without the fields and sections of a name, wherever they are. -/
def without (f : Form) (name : FieldId) : Form :=
  { f with elements := FormElement.withoutAll name f.elements }

/-- The first field that has the name of an earlier one. -/
def firstRepeated? (seen : List FieldId) : List FormField → Option FieldId
  | [] => none
  | f :: rest => if f.id ∈ seen then some f.id else firstRepeated? (f.id :: seen) rest

/-- No two fields may have one name. -/
def validate (f : Form) : Except DataError Unit :=
  match firstRepeated? [] f.fields with
  | some id => .error (.duplicateField f.id id)
  | none => .ok ()

end Form

end Fieldbook
