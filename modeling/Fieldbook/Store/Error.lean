import Fieldbook.DataError

/-!
# Store/Error — what can go wrong in a store

Either something is not there, or what is stored contradicts itself: such failures are
inconsistencies, and no answer that meets one is to be trusted.
-/

namespace Fieldbook

/-- How stored data may contradict itself. -/
inductive Inconsistency where
  /-- The content of a resource is not the content that its digest was taken of. -/
  | content (id : ResourceId)
  /-- A resource is stamped with a version that is none. -/
  | rowVersion (id : ResourceId) (version : Int)
  /-- A time of creation that is out of range. -/
  | createdAt (ms : Int)
  /-- The counter of versions holds something that is no version. -/
  | counter (value : Int)
  /-- A commit is recorded with a version that is none. -/
  | commitVersion (marker : Marker) (version : Int)
  /-- A pending write whose commit is not recorded at all. -/
  | noStatus (marker : Marker)
  deriving DecidableEq

/-- What can go wrong in a store. -/
inductive StoreError where
  /-- A snapshot of a resource at a version of which it has one. -/
  | repeatedSnapshot (id : ResourceId) (version : Nat)
  | noResource (id : ResourceId)
  | noCommit (marker : Marker)
  | inconsistent (cause : Inconsistency)
  | data (e : DataError)
  deriving DecidableEq

def Inconsistency.message : Inconsistency → String
  | .content id => s!"content of {id.text} does not match its hash"
  | .rowVersion id version =>
    let shown := "Some(" ++ toString version ++ ")"
    s!"resource {id.text} has invalid version {shown}"
  | .createdAt ms => s!"invalid created_at timestamp {ms}"
  | .counter value => s!"workspace version counter holds {value}"
  | .commitVersion marker version =>
    s!"commit {marker.text} has non-positive version {version}"
  | .noStatus marker => s!"no commit status for {marker.text}"

def StoreError.message : StoreError → String
  | .repeatedSnapshot id version => s!"{id.text} has a snapshot at {version} already"
  | .noResource id => s!"not found: {id.text}"
  | .noCommit marker => s!"not found: commit {marker.text}"
  | .inconsistent cause => s!"storage inconsistent: {cause.message}"
  | .data e => s!"core error: {e.message}"

end Fieldbook
