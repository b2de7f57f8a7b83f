import Fieldbook.Store.Reading

/-!
# Store/Writing — the writes of a store

A transaction changes the tables, or fails and changes nothing. Every write takes the next version
of the counter, except a pending one, which gets its version when it is committed. `Operation`
names the writes, so that a run of a store is a list of operations.
-/

namespace Fieldbook

/-- Changes the tables and gives an answer, or fails. -/
abbrev Transaction := StateT Tables (Except StoreError)

/-! ## Rows -/

namespace Row

/-- The row after a write: it is live, and keeps who wrote it first and when. -/
def overwrite (row : Row) (r : Resource) (stamp : Stamp) : Row :=
  { row with owner := r.owner, classId := r.classId, stamp := stamp, deleted := false,
             content := .encoded r.value, replaced := none }

/-- The row of a first write. -/
def first (r : Resource) (stamp : Stamp) (principal : Principal) (now : Int) : Row where
  id := r.id
  owner := r.owner
  classId := r.classId
  stamp := stamp
  deleted := false
  content := .encoded r.value
  replaced := none
  createdBy := principal
  createdAt := now

/-- The rows after a write of a resource: its row is overwritten in its place, or comes last. -/
def write (r : Resource) (stamp : Stamp) (principal : Principal) (now : Int) : List Row → List Row
  | [] => [first r stamp principal now]
  | row :: rest =>
    if row.id = r.id then row.overwrite r stamp :: rest
    else row :: write r stamp principal now rest

end Row

namespace Tables

/-- Changes the rows that pass a test. -/
def editRows (t : Tables) (p : Row → Bool) (edit : Row → Row) : Tables :=
  { t with rows := t.rows.map fun row => if p row then edit row else row }

end Tables

/-! ## Transactions -/

namespace Transaction

/-- Gives out the version after the last one. -/
def nextVersion : Transaction Nat := fun t =>
  let v := t.counter.getD 1 + 1
  if 0 < v then .ok (v.toNat, { t with counter := some v })
  else .error (.inconsistent (.counter v))

def writeRow (r : Resource) (stamp : Stamp) (principal : Principal) (now : Int) :
    Transaction Unit :=
  modify fun t => { t with rows := Row.write r stamp principal now t.rows }

/-- Records that a resource has had a version; it has each version once. -/
def addSnapshot (id : ResourceId) (version : Nat) (principal : Principal) : Transaction Unit :=
  fun t =>
    if t.snapshots.any fun s => s.id = id ∧ s.version = version then
      .error (.repeatedSnapshot id version)
    else .ok ((), { t with snapshots := t.snapshots ++ [⟨id, version, principal⟩] })

/-- Writes a resource at the next version. -/
def put (principal : Principal) (now : Int) (r : Resource) : Transaction Nat := do
  let v ← nextVersion
  writeRow r (.committed v) principal now
  addSnapshot r.id v principal
  pure v

/-- Writes several resources, each at a version of its own. -/
def putBatch (principal : Principal) (now : Int) (rs : List Resource) : Transaction (List Nat) :=
  rs.mapM (put principal now)

/-- Marks a resource as deleted, at the next version. -/
def delete (principal : Principal) (id : ResourceId) : Transaction Nat := do
  let v ← nextVersion
  if ((← get).row? id).isNone then throw (.noResource id)
  modify fun t => t.editRows (·.id = id) fun row =>
    { row with deleted := true, stamp := .committed v }
  addSnapshot id v principal
  pure v

/-- Writes a resource whose version is given when `marker` is committed. -/
def putPending (principal : Principal) (now : Int) (marker : Marker) (r : Resource) :
    Transaction Marker := do
  modify fun t => { t with commits := t.commits ++ [⟨marker, 0, principal⟩] }
  writeRow r (.pending marker) principal now
  pure marker

/-- Gives a pending write the next version, or finds the one it has. The flag tells which. -/
def commit (marker : Marker) : Transaction (Nat × Bool) := do
  match (← get).commit? marker with
  | none => throw (.noCommit marker)
  | some c =>
    if 0 < c.version then pure (c.version.toNat, false)
    else
      let v ← nextVersion
      modify fun t => { t with commits := t.commits.map fun d =>
        if d.marker = marker then { d with version := v } else d }
      let rows := (← get).rows.filter (·.stamp = .pending marker)
      rows.forM fun row => addSnapshot row.id v c.principal
      pure (v, true)

/-- Copies the version of a marker into the rows that wait for it, and counts them. -/
def index (marker : Marker) (version : Nat) : Transaction Nat := do
  let waiting := (← get).rows.filter (·.stamp = .pending marker)
  modify fun t => t.editRows (·.stamp = .pending marker) fun row =>
    { row with stamp := .committed version }
  pure waiting.length

end Transaction

/-! ## Through a connection -/

namespace Store

/-- Does a transaction; a failed one leaves everything as it was. -/
def transact {α : Type} (s : Store) (t : Transaction α) : Except StoreError α × Store :=
  match t.run s.tables with
  | .ok (a, tables) => (.ok a, { s with tables := tables })
  | .error e => (.error e, s)

/-- Commits a pending write. A version given just now is known from then on. -/
def commit (s : Store) (marker : Marker) : Except StoreError Nat × Store :=
  match s.transact (Transaction.commit marker) with
  | (.ok (v, true), s) => (.ok v, { s with known := (marker, v) :: s.known })
  | (.ok (v, false), s) => (.ok v, s)
  | (.error e, s) => (.error e, s)

/-- Indexes a committed marker. -/
def index (s : Store) (marker : Marker) : Except StoreError Nat × Store :=
  match s.run (s.versionOf marker) with
  | (.ok v, s) => s.transact (Transaction.index marker v)
  | (.error e, s) => (.error e, s)

/-- A write of a store. Markers and times are given with it. -/
inductive Operation where
  | increment
  | put (principal : Principal) (now : Int) (r : Resource)
  | putBatch (principal : Principal) (now : Int) (rs : List Resource)
  | delete (principal : Principal) (id : ResourceId)
  | putPending (principal : Principal) (now : Int) (marker : Marker) (r : Resource)
  | commit (marker : Marker)
  | index (marker : Marker)
  deriving DecidableEq

/-- What a write answers. -/
inductive Receipt where
  | version (v : Nat)
  | versions (vs : List Nat)
  | marker (m : Marker)
  | count (n : Nat)
  deriving DecidableEq

/-- The same outcome with its answer put differently. -/
def mapAnswer {ε α β : Type} (f : α → β) (x : Except ε α × Store) : Except ε β × Store :=
  (x.1.map f, x.2)

/-- Does a write. -/
def perform (s : Store) : Operation → Except StoreError Receipt × Store
  | .increment => mapAnswer .version (s.transact Transaction.nextVersion)
  | .put p now r => mapAnswer .version (s.transact (Transaction.put p now r))
  | .putBatch p now rs => mapAnswer .versions (s.transact (Transaction.putBatch p now rs))
  | .delete p id => mapAnswer .version (s.transact (Transaction.delete p id))
  | .putPending p now m r => mapAnswer .marker (s.transact (Transaction.putPending p now m r))
  | .commit m => mapAnswer .version (s.commit m)
  | .index m => mapAnswer .count (s.index m)

end Store

end Fieldbook
