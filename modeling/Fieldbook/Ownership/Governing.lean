import Fieldbook.Authorization
import Fieldbook.Ownership.Deletion

/-!
# Ownership/Governing — the rule that governs a resource

The first rule for a principal on the way from a resource to the root governs the resource. A rule
that is marked as deleted is passed over. A rule that cannot be understood, or that names someone
else, ends the way all the same, and grants nothing.

At each name the rule is looked for before the row of the name itself is read.
-/

namespace Fieldbook

namespace Store

variable (s : Store)

/-- The live rule that is stored for a principal at a resource. -/
def ruleAt? (principal : Principal) (id : ResourceId) : Reading StoreError (Option Resource) := do
  match ← .ofExcept (s.get? (AccessRule.idFor id principal)) with
  | none => pure none
  | some e =>
    if e.deleted then pure none
    else do
      let v ← s.resolveVersion e
      pure (some (e.toResource v))

/-- What the rule at a name grants on `asked`, and if there is none what `further` gives. -/
def ruledAt (principal : Principal) (asked id : ResourceId)
    (further : Reading WorkspaceError Authorization) : Reading WorkspaceError Authorization := do
  match ← (s.ruleAt? principal id).mapError .store with
  | some stored => pure (.ofStoredRule principal asked stored)
  | none => further

end Store

/-- What the first rule on the chain of `asked` grants. -/
def OwnerChain.authorize (s : Store) (principal : Principal) (asked : ResourceId) :
    OwnerChain → Reading WorkspaceError Authorization
  | .root => pure (.none principal asked)
  | .repeated id => .fail (repeatedError id)
  | .missing id => s.ruledAt principal asked id (.fail (missingError asked id))
  | .unreadable id e => s.ruledAt principal asked id (.fail (.store e))
  | .link entry up => s.ruledAt principal asked entry.id (up.authorize s principal asked)

namespace Store

variable (s : Store)

/-- The rights of a principal on a resource. -/
def authorize (principal : Principal) (id : ResourceId) : Reading WorkspaceError Authorization :=
  (s.ownerChain id).authorize s principal id

/-- Refuses a principal who may not view a resource. -/
def requireView (principal : Principal) (id : ResourceId) : Reading WorkspaceError Unit := do
  .ofExcept (← s.authorize principal id).requireView

/-- Refuses a principal who may not edit a resource. -/
def requireEdit (principal : Principal) (id : ResourceId) : Reading WorkspaceError Unit := do
  .ofExcept (← s.authorize principal id).requireEdit

/-- Refuses a principal who does not own a resource. -/
def requireOwner (principal : Principal) (id : ResourceId) : Reading WorkspaceError Unit := do
  let a ← s.authorize principal id
  .ofExcept (a.require .manageAccess a.isOwner)

end Store

end Fieldbook
