import Fieldbook.Store.Error

/-!
# Workspace/Error — what can go wrong in a workspace

Beside the failures of the store and of data these are refusals, missing resources and fields, and
contradictions between resources. `isFatal` marks those after which the whole request is given up:
stored data that cannot be as it is.
-/

namespace Fieldbook

/-- What a principal may be refused. -/
inductive Action where
  | view
  | edit
  | manageAccess
  | writeRule
  | createUnderRoot
  deriving DecidableEq

/-- How resources may contradict each other. -/
inductive Contradiction where
  /-- Owners that lead back to a resource. -/
  | ownershipCycle (repeated : ResourceId)
  /-- An owner, met from a resource, that does not exist. -/
  | missingOwner (owner resource : ResourceId)
  /-- A field that leads to a form that does not exist. -/
  | missingForm (field : FieldId) (form target : ResourceId)
  deriving DecidableEq

/-- What can go wrong in a workspace. -/
inductive WorkspaceError where
  | store (e : StoreError)
  | data (e : DataError)
  | unauthorized (principal : Principal) (action : Action) (resource : ResourceId)
  | deleted (id : ResourceId)
  | notFound (id : ResourceId)
  | fieldNotFound (form : ResourceId) (path : String)
  /-- A move of a resource under something that it owns. -/
  | ownershipCycle (resource owner : ResourceId)
  | consistency (cause : Contradiction)
  /-- A form that embeds itself. -/
  | cyclicForm (form : ResourceId)
  | tooDeep (form : ResourceId) (limit : Nat)
  deriving DecidableEq

def Action.text : Action → String
  | .view => "view"
  | .edit => "edit"
  | .manageAccess => "manage access to"
  | .writeRule => "write rule"
  | .createUnderRoot => "create under root"

def Contradiction.message : Contradiction → String
  | .ownershipCycle id => s!"ownership cycle at {id.text}"
  | .missingOwner owner resource => s!"owner {owner.text} of {resource.text} does not exist"
  | .missingForm field form target =>
    s!"field {field.text} of {form.text} references missing form class {target.text}"

namespace WorkspaceError

def message : WorkspaceError → String
  | .store e => s!"storage error: {e.message}"
  | .data e => s!"core error: {e.message}"
  | .unauthorized principal action resource =>
    s!"principal {principal.text} is not authorized to {action.text} {resource.text}"
  | .deleted id => s!"resource deleted: {id.text}"
  | .notFound id => s!"resource not found: {id.text}"
  | .fieldNotFound form path => s!"field {path} not found in form class {form.text}"
  | .ownershipCycle resource owner =>
    s!"cannot move {resource.text} under {owner.text}, which it owns"
  | .consistency cause => s!"consistency error: {cause.message}"
  | .cyclicForm form => s!"form class {form.text} references itself through its fields"
  | .tooDeep form limit => s!"form tree deeper than {limit} levels at {form.text}"

/-- Whether stored data cannot be as it is. -/
def isFatal : WorkspaceError → Bool
  | .consistency _ | .store (.inconsistent _) => true
  | _ => false

end WorkspaceError

end Fieldbook
