import Fieldbook.FieldValue.Decoding
import Fieldbook.FieldValue.Encoding
import Fieldbook.Resource
import Fieldbook.Store.Error

/-!
# Store/Basic — the tables of a store, and how a row is read

A store keeps the latest state of every resource in a row, in the order in which the resources were
first written; a counter of versions; for every pending write whether it has been committed; and a
snapshot for every version that a resource has had.

A row keeps its content beside a digest of it. `Row.replaced` holds bytes that stand in the place of
the content while the digest is still that of the content, which no write of the store does; such a
row cannot be read. `Row.read` checks, in this order, the digest, the version, the content, and the
time of creation.

Every record can be written, but only a shallow one can be read again: the reader of bytes has a limit
of nesting, and the writer has none. Texts and lists that four bytes cannot count are longer than any
content that a row can take, and are left out of account.
-/

namespace Fieldbook

/-- How a row knows its version: it has it, or it waits for a commit. -/
inductive Stamp where
  | committed (version : Int)
  | pending (marker : Marker)
  deriving DecidableEq

/-- Rows and maps of the binary form lie no deeper in each other than its reader goes. -/
def Record.Shallow (r : Record) : Prop := r.nesting ≤ FieldValue.nestingLimit

instance (r : Record) : Decidable r.Shallow := inferInstanceAs (Decidable (_ ≤ _))

/-- What a row holds: the binary form of a record, or any bytes. -/
inductive Content where
  | encoded (r : Record)
  | raw (bytes : List UInt8)
  deriving DecidableEq

namespace Content

def bytes : Content → List UInt8
  | .encoded r => Record.encode r
  | .raw bytes => bytes

/-- The record that is read of a content. -/
def record? : Content → Option Record
  | .encoded r => if r.Shallow then some r else none
  | .raw bytes => Record.decode? bytes

end Content

/-- The latest state of a resource, as stored. -/
structure Row where
  id : ResourceId
  owner : ResourceId
  classId : ResourceId
  stamp : Stamp
  deleted : Bool
  content : Content
  /-- Bytes in the place of the content, under the digest of the content. -/
  replaced : Option (List UInt8)
  createdBy : Principal
  /-- Milliseconds since the start of 1970. -/
  createdAt : Int
  deriving DecidableEq

/-- The latest state of a resource, as read. -/
structure Entry where
  id : ResourceId
  owner : ResourceId
  classId : ResourceId
  stamp : Stamp
  deleted : Bool
  value : Record
  createdBy : Principal
  createdAt : Instant
  deriving DecidableEq

/-- What is known of a pending write: its version, zero until it is committed, and who wrote it. -/
structure Commit where
  marker : Marker
  version : Int
  principal : Principal
  deriving DecidableEq

/-- A version that a resource has had, and whose write gave it.  The time is left out: it is that of
the clock, and nothing is decided by it. -/
structure Snapshot where
  id : ResourceId
  version : Nat
  principal : Principal
  deriving DecidableEq

/-- Everything that a store keeps. -/
structure Tables where
  /-- In the order of the first writes. -/
  rows : List Row
  /-- The last version given out, once there is one. -/
  counter : Option Int
  commits : List Commit
  snapshots : List Snapshot
  deriving DecidableEq

/-! ## Reading a row -/

namespace Row

/-- Whether the stored bytes differ from those that the digest was taken of. -/
def isAltered (r : Row) : Bool :=
  match r.replaced with
  | none => false
  | some bytes => bytes != r.content.bytes

/-- The state that a row stores, if it can be one. -/
def read (r : Row) : Except StoreError Entry := do
  if r.isAltered then throw (.inconsistent (.content r.id))
  if let .committed v := r.stamp then
    if v ≤ 0 then throw (.inconsistent (.rowVersion r.id v))
  match r.content.record?, Instant.ofMillis? r.createdAt with
  | none, _ => throw (.data .unreadable)
  | some _, none => throw (.inconsistent (.createdAt r.createdAt))
  | some value, some createdAt =>
    pure { id := r.id, owner := r.owner, classId := r.classId, stamp := r.stamp,
           deleted := r.deleted, value := value, createdBy := r.createdBy, createdAt := createdAt }

end Row

namespace Entry

/-- The resource that an entry is the state of, at a version. -/
def toResource (e : Entry) (version : Nat) : Resource :=
  ⟨e.id, e.owner, e.classId, version, e.value⟩

end Entry

namespace Tables

/-- A store that nothing has been written to. -/
def empty : Tables := ⟨[], none, [], []⟩

def row? (t : Tables) (id : ResourceId) : Option Row := t.rows.find? (·.id = id)

def commit? (t : Tables) (marker : Marker) : Option Commit :=
  t.commits.find? (·.marker = marker)

/-- The last version given out; one before the first. -/
def currentVersion (t : Tables) : Except StoreError Nat :=
  match t.counter with
  | none => .ok 1
  | some v => if 0 < v then .ok v.toNat else .error (.inconsistent (.counter v))

end Tables

end Fieldbook
