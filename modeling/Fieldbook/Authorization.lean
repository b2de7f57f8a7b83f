import Fieldbook.AccessRule
import Fieldbook.Workspace.Error

/-!
# Authorization — what the governing rule allows

An authorization is a principal, a resource, and the rule that governs it for the principal, if
there is one. Without a rule everything is denied. An owner rule allows everything; any other rule
allows what its condition allows, and a condition that is absent, fails, or is not a truth value
denies.
-/

namespace Fieldbook

/-- The rights of a principal on a resource. -/
structure Authorization where
  principal : Principal
  resource : ResourceId
  rule : Option AccessRule
  deriving DecidableEq

namespace Authorization

/-- Nothing is allowed. -/
def none (principal : Principal) (resource : ResourceId) : Authorization :=
  ⟨principal, resource, .none⟩

/-- A rule counts only for the principal that it names. -/
def ofRule (principal : Principal) (resource : ResourceId) (rule : AccessRule) : Authorization :=
  if rule.principal = principal then ⟨principal, resource, some rule⟩ else none principal resource

/-- A stored rule counts only if it can be read. -/
def ofStoredRule (principal : Principal) (resource : ResourceId) (stored : Resource) :
    Authorization :=
  match AccessRule.ofResource stored with
  | .ok rule => ofRule principal resource rule
  | .error _ => none principal resource

def isOwner (a : Authorization) : Bool := a.rule.any (·.owner)

/-- What conditions see: the names of the principal and of the resource. -/
def context (a : Authorization) : Context := fun path =>
  let name := Expr.dotted path
  if name = "principal" then some (.text a.principal.text)
  else if name = "resource" then some (.text a.resource.text)
  else .none

/-- Whether a condition holds. -/
def satisfies (a : Authorization) : Option String → Bool
  | .none => false
  | some condition =>
    match Expr.evaluateText condition a.context with
    | .ok (.boolean allowed) => allowed
    | _ => false

/-- Whether a rule, by ownership or by one of its conditions, allows something. -/
def allows (a : Authorization) (condition : AccessRule → Option String) : Bool :=
  match a.rule with
  | .none => false
  | some rule => rule.owner || a.satisfies (condition rule)

def canView (a : Authorization) : Bool := a.allows (·.viewCondition)

def canEdit (a : Authorization) : Bool := a.allows (·.editCondition)

/-- Visible now, and not by an earlier authorization. Without an earlier one nothing has changed. -/
def isNewlyVisible (now : Authorization) : Option Authorization → Bool
  | .none => false
  | some before => now.canView && !before.canView

/-- Refuses what is not allowed. -/
def require (a : Authorization) (action : Action) (allowed : Bool) : Except WorkspaceError Unit :=
  if allowed then .ok () else .error (.unauthorized a.principal action a.resource)

def requireView (a : Authorization) : Except WorkspaceError Unit := a.require .view a.canView

def requireEdit (a : Authorization) : Except WorkspaceError Unit := a.require .edit a.canEdit

end Authorization

end Fieldbook
