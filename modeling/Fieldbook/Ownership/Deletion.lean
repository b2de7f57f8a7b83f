import Fieldbook.Ownership.Chain
import Fieldbook.Workspace.Error

/-!
# Ownership/Deletion — what is deleted together with its owners

A resource counts as deleted if it or an owner above it is marked so. Nothing above the first mark
matters: a chain that is broken further up is still that of a deleted resource.
-/

namespace Fieldbook

namespace OwnerChain

/-- The failure of a walk from `asked` that meets a name without a row. -/
def missingError (asked id : ResourceId) : WorkspaceError :=
  if id = asked then .notFound asked else .consistency (.missingOwner id asked)

/-- The failure of a walk that meets a name again. -/
def repeatedError (id : ResourceId) : WorkspaceError := .consistency (.ownershipCycle id)

/-- Whether a mark of deletion stands on the chain of `asked`. -/
def isDeleted (asked : ResourceId) : OwnerChain → Except WorkspaceError Bool
  | .root => .ok false
  | .repeated id => .error (repeatedError id)
  | .missing id => .error (missingError asked id)
  | .unreadable _ e => .error (.store e)
  | .link entry up => if entry.deleted then .ok true else up.isDeleted asked

/-- Whether a chain goes through a name. The root itself is never on it. -/
def contains (ancestor : ResourceId) : OwnerChain → Except WorkspaceError Bool
  | .root => .ok false
  | .repeated id => .error (repeatedError id)
  | .missing id => if id = ancestor then .ok true else .error (.notFound id)
  | .unreadable id e => if id = ancestor then .ok true else .error (.store e)
  | .link entry up => if entry.id = ancestor then .ok true else up.contains ancestor

end OwnerChain

namespace Store

variable (s : Store)

/-- Whether a resource is deleted, by itself or with an owner. -/
def isDeleted (id : ResourceId) : Except WorkspaceError Bool := (s.ownerChain id).isDeleted id

/-- Refuses a deleted resource. -/
def requireLive (id : ResourceId) : Except WorkspaceError Unit := do
  if ← s.isDeleted id then throw (.deleted id)

/-- Whether a resource is another one or stands beneath it. -/
def isWithin (id ancestor : ResourceId) : Except WorkspaceError Bool :=
  (s.ownerChain id).contains ancestor

end Store

end Fieldbook
