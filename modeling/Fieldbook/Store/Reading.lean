import Fieldbook.Store.Basic

/-!
# Store/Reading — answers, and what they were looked up through

A reading is an answer or a failure, together with a record of what was looked up on the way: which
commits were asked for, and which forms were fetched. The answer of a compound reading is made from
the answers of its parts alone (`answer_bind`); the lookups only add up, also when it fails.
-/

namespace Fieldbook

/-- Something that a reading looked up. -/
inductive Lookup where
  | commit (marker : Marker)
  | form (id : ResourceId)
  deriving DecidableEq

/-- An answer or a failure, and what was looked up for it. -/
structure Reading (ε α : Type) where
  answer : Except ε α
  lookups : List Lookup

namespace Reading

variable {ε ε' α β γ : Type}

protected def pure (a : α) : Reading ε α := ⟨.ok a, []⟩

protected def bind (x : Reading ε α) (f : α → Reading ε β) : Reading ε β :=
  match x.answer with
  | .error e => ⟨.error e, x.lookups⟩
  | .ok a =>
    let y := f a
    ⟨y.answer, x.lookups ++ y.lookups⟩

instance : Monad (Reading ε) where
  pure := Reading.pure
  bind := Reading.bind

theorem bind_pure (x : Reading ε α) : Reading.bind x Reading.pure = x := by
  obtain ⟨a, l⟩ := x
  cases a <;> simp [Reading.bind, Reading.pure]

theorem pure_bind (a : α) (f : α → Reading ε β) : Reading.bind (.pure a) f = f a := by
  simp [Reading.bind, Reading.pure]

theorem bind_assoc (x : Reading ε α) (f : α → Reading ε β) (g : β → Reading ε γ) :
    Reading.bind (Reading.bind x f) g = Reading.bind x fun a => Reading.bind (f a) g := by
  obtain ⟨a, l⟩ := x
  cases a with
  | error => rfl
  | ok a =>
    simp only [Reading.bind]
    cases (f a).answer <;> simp

/-- Readings compound in any grouping. -/
instance : LawfulMonad (Reading ε) := .mk' _ bind_pure pure_bind bind_assoc

/-- A failure without a lookup. -/
def fail (e : ε) : Reading ε α := ⟨.error e, []⟩

/-- An answer or a failure without a lookup. -/
def ofExcept (x : Except ε α) : Reading ε α := ⟨x, []⟩

/-- The same reading with its failure put differently. -/
def mapError (f : ε → ε') (x : Reading ε α) : Reading ε' α := ⟨x.answer.mapError f, x.lookups⟩

/-- Notes a lookup. -/
def note (l : Lookup) : Reading ε Unit := ⟨.ok (), [l]⟩

/-- Goes through a list in order and keeps what there is. -/
def collect (f : α → Reading ε (Option β)) : List α → Reading ε (List β)
  | [] => pure []
  | a :: rest => do
    let b ← f a
    let more ← collect f rest
    pure (b.toList ++ more)

@[simp] theorem answer_pure (a : α) : (pure a : Reading ε α).answer = .ok a := rfl

/-- **The answer of a compound reading is made from the answers of its parts.** -/
@[simp] theorem answer_bind (x : Reading ε α) (f : α → Reading ε β) :
    (x >>= f).answer = x.answer.bind fun a => (f a).answer := by
  show (Reading.bind x f).answer = _
  unfold Reading.bind
  cases x.answer <;> rfl

@[simp] theorem answer_fail (e : ε) : (fail e : Reading ε α).answer = .error e := rfl

@[simp] theorem answer_ofExcept (x : Except ε α) : (ofExcept x).answer = x := rfl

@[simp] theorem answer_mapError (f : ε → ε') (x : Reading ε α) :
    (x.mapError f).answer = x.answer.mapError f := rfl

end Reading

/-! ## Connections -/

/-- A store as one connection sees it: the tables, and the committed markers it already knows. -/
structure Store where
  tables : Tables
  known : List (Marker × Nat)

namespace Store

/-- A connection to a store that nothing has been written to. -/
def empty : Store := ⟨.empty, []⟩

/-- The version of a pending write, nothing while it is not committed. A version that the connection
knows is not looked up again. -/
def commitVersion? (s : Store) (m : Marker) : Except StoreError (Option Nat) :=
  match s.known.lookup m with
  | some v => .ok (some v)
  | none =>
    match s.tables.commit? m with
    | none => .error (.inconsistent (.noStatus m))
    | some c =>
      if 0 < c.version then .ok (some c.version.toNat)
      else if c.version = 0 then .ok none
      else .error (.inconsistent (.commitVersion m c.version))

/-- The connection keeps what it has learned of a marker, if that is a version. -/
def learn (s : Store) (m : Marker) : Store :=
  match s.known.lookup m, s.commitVersion? m with
  | none, .ok (some v) => { s with known := (m, v) :: s.known }
  | _, _ => s

def learnAll (s : Store) (lookups : List Lookup) : Store :=
  lookups.foldl (fun s l => match l with
    | .commit m => s.learn m
    | .form _ => s) s

/-- Does a reading: its answer, and the connection that has learned from it. -/
def run {ε α : Type} (s : Store) (r : Reading ε α) : Except ε α × Store :=
  (r.answer, s.learnAll r.lookups)

/-! ## Readings -/

variable (s : Store)

/-- The latest state of a resource. -/
def get? (id : ResourceId) : Except StoreError (Option Entry) :=
  match s.tables.row? id with
  | none => .ok none
  | some row => row.read.map some

/-- The version of an entry, nothing while it waits for its commit. -/
def committedVersion? (e : Entry) : Reading StoreError (Option Nat) :=
  match e.stamp with
  | .committed v => pure (some v.toNat)
  | .pending m => ⟨s.commitVersion? m, [.commit m]⟩

/-- The version of a marker, which has to be committed. -/
def versionOf (m : Marker) : Reading StoreError Nat := do
  match ← (⟨s.commitVersion? m, [.commit m]⟩ : Reading StoreError (Option Nat)) with
  | some v => pure v
  | none => .fail (.inconsistent (.commitVersion m 0))

/-- The version of an entry, which has to have one. -/
def resolveVersion (e : Entry) : Reading StoreError Nat :=
  match e.stamp with
  | .committed v => pure v.toNat
  | .pending m => s.versionOf m

/-- The resource of a name at its version. -/
def resource? (id : ResourceId) : Reading StoreError (Option Resource) := do
  match ← .ofExcept (s.get? id) with
  | none => pure none
  | some e => do
    let v ← s.resolveVersion e
    pure (some (e.toResource v))

/-- The resources that a resource owns. -/
def children (owner : ResourceId) : Except StoreError (List Entry) :=
  (s.tables.rows.filter (·.owner = owner)).mapM Row.read

/-- The resources of a class. -/
def instances (classId : ResourceId) : Except StoreError (List Entry) :=
  (s.tables.rows.filter (·.classId = classId)).mapM Row.read

/-- The versions that a resource has had, in ascending order. -/
def snapshots (id : ResourceId) : List Snapshot :=
  (s.tables.snapshots.filter (·.id = id)).mergeSort fun a b => a.version ≤ b.version

end Store

end Fieldbook
