import Fieldbook.Resource

/-!
# AccessRule — what a principal may do with a resource

A rule stands at a resource and names one principal. An owner rule grants everything; any other rule
has a condition for viewing and one for editing, and denies what it has no condition for.

Rules are stored as resources of their own, owned by the resource they stand at, under a name made
of that resource's and the principal's.
-/

namespace Fieldbook

/-- The rights of one principal at a resource. -/
structure AccessRule where
  id : ResourceId
  resource : ResourceId
  principal : Principal
  owner : Bool
  viewCondition : Option String
  editCondition : Option String
  deriving DecidableEq

namespace AccessRule

/-- The class of the resources that rules are stored as. -/
def classId : ResourceId := ⟨"_acr"⟩

/-- How the names of stored rules begin. -/
def idStart : String := "_acr-"

/-- The name of the rule for a principal at a resource. -/
def idFor (resource : ResourceId) (principal : Principal) : ResourceId :=
  ⟨idStart ++ resource.text ++ "-" ++ principal.text⟩

/-- Whether a name is one that rules have. -/
def isRuleId (id : ResourceId) : Bool := idStart.toList.isPrefixOf id.text.toList

/-- The rule that makes a principal an owner. -/
def ownerRule (resource : ResourceId) (principal : Principal) : AccessRule where
  id := idFor resource principal
  resource := resource
  principal := principal
  owner := true
  viewCondition := none
  editCondition := none

/-- The resource that a rule is stored as. -/
def toResource (rule : AccessRule) : Resource :=
  let value := Record.empty.set "principal" (.reference [rule.principal])
    |>.set "owner" (.boolean rule.owner)
    |>.setOption "view" (rule.viewCondition.map .expr)
    |>.setOption "edit" (rule.editCondition.map .expr)
  .new rule.id rule.resource classId value

/-- A condition, kept as an expression or as a text. -/
def condition? (value : Record) (key : String) : Option String :=
  match value.get? key with
  | some (.expr s) | some (.text s) => some s
  | _ => none

/-- The rule that a resource stores. -/
def ofResource (r : Resource) : Except DataError AccessRule :=
  if r.classId ≠ classId then .error (.invalid (.notRule r.id))
  else match r.value.get? "principal" with
    | some (.reference [principal]) =>
      .ok { id := r.id
            resource := r.owner
            principal := principal
            owner := (r.value.boolean? "owner").getD false
            viewCondition := condition? r.value "view"
            editCondition := condition? r.value "edit" }
    | got => .error (.invalid (.rulePrincipal r.id got))

end AccessRule

end Fieldbook
