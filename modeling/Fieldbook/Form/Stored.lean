import Fieldbook.Form.Basic
import Fieldbook.Resource

/-!
# Form/Stored — forms as resources

A form is stored as a resource of its own class: its label, its description and the list of its
elements, each a record. A record whose type is the text `section` is a section, every other one is
a field.
-/

namespace Fieldbook

/-! ## As records -/

/-- The record of a field. -/
def FormField.toRecord (f : FormField) : Record :=
  Record.ofList [("id", .text f.id.text), ("label", .text f.label),
      ("type", .record f.type.toRecord), ("required", .boolean f.required),
      ("readOnly", .boolean f.readOnly)]
    |>.setOption "description" (f.description.map .text)

mutual

/-- The record of an element. -/
def FormElement.toValue : FormElement → FieldValue
  | .field f => .record f.toRecord
  | .group id label elements =>
    .record (Record.ofList [("id", .text id.text), ("type", .text "section"),
      ("label", .text label), ("elements", .list (FormElement.toValues elements))])

def FormElement.toValues : List FormElement → List FieldValue
  | [] => []
  | e :: rest => e.toValue :: FormElement.toValues rest

end

/-! ## From records -/

/-- The field that a record describes. -/
def FormField.ofRecord (r : Record) : Except DataError FormField := do
  let id ← r.text "id"
  let type ← FieldType.ofRecord (← r.record "type")
  pure { id := ⟨id⟩
         label := (r.text? "label").getD ""
         description := r.text? "description"
         type := type
         required := (r.boolean? "required").getD false
         readOnly := (r.boolean? "readOnly").getD false }

theorem Record.sizeOf_get?_lt {key : String} {v : FieldValue} :
    ∀ {r : Record}, r.get? key = some v → sizeOf v < sizeOf r
  | [], h => by simp [Record.get?, Keyed.find?] at h
  | (k, w) :: rest, h => by
    unfold Record.get? Keyed.find? at h
    split at h
    · injection h with h
      subst h
      simp
      omega
    · have := Record.sizeOf_get?_lt (r := rest) h
      simp
      omega

theorem Record.sizeOf_list?_lt {r : Record} {key : String} {items : List FieldValue}
    (h : r.list? key = some items) : sizeOf items < sizeOf r := by
  unfold Record.list? at h
  obtain ⟨v, hv, hi⟩ := Option.bind_eq_some_iff.mp h
  have := Record.sizeOf_get?_lt hv
  cases v <;> simp [FieldValue.list?] at hi
  subst hi
  simp at this
  omega

mutual

/-- The element that a value describes. -/
def FormElement.ofValue (v : FieldValue) : Except DataError FormElement :=
  match v with
  | .record r =>
    if Record.text? r "type" = some "section" then
      match Record.text r "id" with
      | .error e => .error e
      | .ok id =>
        match h : Record.list? r "elements" with
        | none => .ok (.group ⟨id⟩ ((Record.text? r "label").getD "") [])
        | some items =>
          have := Record.sizeOf_list?_lt h
          match FormElement.ofValues items with
          | .error e => .error e
          | .ok elements => .ok (.group ⟨id⟩ ((Record.text? r "label").getD "") elements)
    else
      match FormField.ofRecord r with
      | .error e => .error e
      | .ok f => .ok (.field f)
  | _ => .error (.invalid .elementNotRecord)
termination_by sizeOf v

def FormElement.ofValues (vs : List FieldValue) : Except DataError (List FormElement) :=
  match vs with
  | [] => .ok []
  | v :: rest =>
    match FormElement.ofValue v with
    | .error e => .error e
    | .ok element =>
      match FormElement.ofValues rest with
      | .error e => .error e
      | .ok elements => .ok (element :: elements)
termination_by sizeOf vs

end

/-! ## As resources -/

namespace Form

/-- The class of the resources that forms are stored as. -/
def classId : ResourceId := ⟨"_class"⟩

/-- The key of a form's label. -/
def labelKey : String := "_class_label"

def toResource (f : Form) : Resource :=
  let value := Record.empty.set labelKey (.text f.label)
    |>.set "elements" (.list (FormElement.toValues f.elements))
    |>.setOption "description" (f.description.map .text)
  .new f.id f.owner classId value

/-- The form that a resource stores. -/
def ofResource (r : Resource) : Except DataError Form :=
  if r.classId ≠ classId then .error (.invalid (.notForm r.id r.classId))
  else do
    let elements ← FormElement.ofValues ((r.value.list? "elements").getD [])
    pure { id := r.id
           owner := r.owner
           label := (r.value.text? labelKey).getD ""
           description := r.value.text? "description"
           elements := elements }

end Form

end Fieldbook
