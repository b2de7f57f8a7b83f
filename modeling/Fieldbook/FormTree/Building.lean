import Fieldbook.Form.Stored
import Fieldbook.FormTree.Basic
import Fieldbook.Ownership.Deletion

/-!
# FormTree/Building — the tree of a form, from a source of forms

A field leads to the forms in its range. Under it stand the fields of each of them, except of a
deleted form, and of a form that is being expanded already: a reference back into it stays a leaf,
while a form that embeds itself has no finite tree and is refused. A form that lies deeper than a
limit is refused as well, before it is asked for.

Every form is asked for once: `Fetched` holds what the source has answered, nothing for a deleted
form.
-/

namespace Fieldbook

/-- Where forms come from. -/
structure FormSource where
  form? : ResourceId → Reading WorkspaceError (Option Form)
  isDeleted : ResourceId → Except WorkspaceError Bool

namespace FormSource

/-- Asks for a form, which the reading notes. -/
def ask (source : FormSource) (id : ResourceId) : Reading WorkspaceError (Option Form) := do
  .note (.form id)
  source.form? id

/-- Given forms under names, some of them deleted. -/
def ofList (forms : List (ResourceId × Form)) (deleted : List ResourceId) : FormSource where
  form? id := pure (forms.lookup id)
  isDeleted id := .ok (id ∈ deleted)

/-- The forms of a store. -/
def ofStore (s : Store) : FormSource where
  form? id := do
    match ← (s.resource? id).mapError .store with
    | none => pure none
    | some r => do
      let form ← .ofExcept ((Form.ofResource r).mapError .data)
      pure (some form)
  isDeleted id := s.isDeleted id

end FormSource

namespace FormTree

/-- The forms asked for so far, nothing for a deleted one. -/
abbrev Fetched := List (ResourceId × Option Form)

/-- A reading that remembers the forms it has asked for. -/
abbrev Build := StateT Fetched (Reading WorkspaceError)

def refuse {α : Type} (e : WorkspaceError) : Build α := fun _ => .fail e

/-- The form that a field leads to, nothing if it is deleted. -/
def fetch (source : FormSource) (form : Form) (field : FormField) (target : ResourceId) :
    Build (Option Form) := do
  match (← get).lookup target with
  | some known => pure known
  | none =>
    match ← source.ask target with
    | none => refuse (.consistency (.missingForm field.id form.id target))
    | some found => do
      let deleted ← (Reading.ofExcept (source.isDeleted target) : Reading _ _)
      let answer := if deleted then none else some found
      modify fun fetched => (target, answer) :: fetched
      pure answer

/-- The nodes that a field of a form finds in another one, given the forms being expanded. -/
abbrev Descent := List ResourceId → Form → FormField → ResourceId → Build (List FieldNode)

/-- The nodes that a field finds in one of the forms in its range. -/
def targetNodes (descend : Descent) (path : List ResourceId) (form : Form) (field : FormField)
    (target : ResourceId) : Build (List FieldNode) :=
  if target ∈ path then
    if field.type.isEmbedded then refuse (.cyclicForm target) else pure []
  else descend path form field target

/-- The node of a field. -/
def fieldNode (descend : Descent) (path : List ResourceId) (form : Form) (field : FormField) :
    Build FieldNode := do
  let children ← field.type.range.toList.mapM (targetNodes descend path form field)
  pure (.node form.id field false children.flatten)

/-- The nodes of the fields of a form. -/
def formNodes (descend : Descent) (path : List ResourceId) (form : Form) :
    Build (List FieldNode) :=
  form.fields.mapM (fieldNode descend path form)

/-- Goes down into a form, at most `depth` further ones deep. -/
def descend (source : FormSource) (limit : Nat) : Nat → Descent
  | 0 => fun _ _ _ target => refuse (.tooDeep target limit)
  | depth + 1 => fun path form field target => do
    match ← fetch source form field target with
    | none => pure []
    | some found => formNodes (descend source limit depth) (target :: path) found

/-- The tree of a form, in which at most `limit` forms are nested in the root form. -/
def build (source : FormSource) (limit : Nat) (root : ResourceId) :
    Reading WorkspaceError FormTree := do
  match ← source.ask root with
  | none => .fail (.notFound root)
  | some form => do
    let (nodes, _) ← (formNodes (descend source limit limit) [form.id] form).run []
    pure ⟨form, intrinsicNodes form.id ++ nodes⟩

end FormTree

end Fieldbook
