import Fieldbook.Record

/-!
# Resource — owned, versioned records

A resource has a name, an owner, a class, and a record as its value. Its version is zero until it
has been committed.
-/

namespace Fieldbook

/-- A named record with an owner and a class. -/
structure Resource where
  id : ResourceId
  owner : ResourceId
  classId : ResourceId
  version : Nat
  value : Record
  deriving DecidableEq

namespace Resource

/-- A resource that has not been committed. -/
def new (id owner classId : ResourceId) (value : Record) : Resource :=
  ⟨id, owner, classId, 0, value⟩

def isCommitted (r : Resource) : Bool := 0 < r.version

end Resource

end Fieldbook
