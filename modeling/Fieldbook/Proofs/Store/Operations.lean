import Fieldbook.Proofs.Store.Transactions

/-!
# Proofs/Store/Operations — all that a write of a store can do

`Performed s op receipt s'` has one constructor for each way in which an operation succeeds, and
`performed_of_perform` says that there is no other.  A failed operation leaves the tables as they
are (`tables_of_perform_error`), and so does everything that a connection learns from a reading.
-/

namespace Fieldbook

namespace Tables

/-- A marker is known, and was committed at the version `v`. -/
def CommittedAt (t : Tables) (marker : Marker) (v : Nat) : Prop :=
  ∃ c, t.commit? marker = some c ∧ c.version = v ∧ 0 < v

/-- Resources are written one after the other, each at a version of its own. -/
inductive WrittenAll (principal : Principal) (now : Int) :
    Tables → List Resource → List Nat → Tables → Prop where
  | nil {t : Tables} : WrittenAll principal now t [] [] t
  | cons {t t' : Tables} {r : Resource} {rs : List Resource} {v : Nat} {vs : List Nat}
      (next : (v : Int) = t.last + 1) (pos : 0 < v)
      (rest : WrittenAll principal now (t.written r v principal now) rs vs t') :
      WrittenAll principal now t (r :: rs) (v :: vs) t'

theorem writtenAll_of_putBatch {principal : Principal} {now : Int} :
    ∀ {rs : List Resource} {vs : List Nat} {t t' : Tables},
      Transaction.putBatch principal now rs t = .ok (vs, t') →
        WrittenAll principal now t rs vs t'
  | [], vs, t, t', h => by
    obtain ⟨rfl, rfl⟩ := Transaction.putBatch_nil.mp h
    exact .nil
  | r :: rs, vs, t, t', h => by
    obtain ⟨v, t₁, vs', hput, hrest, rfl⟩ := Transaction.putBatch_cons.mp h
    obtain ⟨hv, hpos, rfl⟩ := Transaction.put_ok hput
    exact .cons hv hpos (writtenAll_of_putBatch hrest)

end Tables

namespace Store

variable {s s' : Store}

/-! ## What a connection learns -/

@[simp] theorem learn_tables (s : Store) (m : Marker) : (s.learn m).tables = s.tables := by
  rw [learn]
  split <;> rfl

@[simp] theorem learnAll_tables (s : Store) (lookups : List Lookup) :
    (s.learnAll lookups).tables = s.tables := by
  rw [learnAll]
  induction lookups generalizing s with
  | nil => rfl
  | cons l rest ih =>
    rw [List.foldl_cons, ih]
    cases l with
    | commit m => exact learn_tables s m
    | form id => rfl

theorem versionOf_ok {m : Marker} {v : Nat} :
    (s.versionOf m).answer = .ok v ↔ s.commitVersion? m = .ok (some v) := by
  rw [versionOf, Reading.answer_bind]
  cases s.commitVersion? m with
  | error e => simp [Except.bind]
  | ok found => cases found <;> simp [Except.bind]

theorem versionOf_lookups (s : Store) (m : Marker) : (s.versionOf m).lookups = [.commit m] := by
  rw [versionOf]
  change (Reading.bind _ _).lookups = _
  rw [Reading.bind]
  cases s.commitVersion? m with
  | error e => rfl
  | ok found => cases found <;> rfl

/-! ## Successful operations -/

theorem transact_ok {α : Type} {t : Transaction α} {a : α} (h : s.transact t = (.ok a, s')) :
    ∃ t', t s.tables = .ok (a, t') ∧ s' = { s with tables := t' } := by
  rw [transact] at h
  split at h
  · next t' heq =>
    cases h
    exact ⟨t', heq, rfl⟩
  · cases h

theorem transact_error {α : Type} {t : Transaction α} {e : StoreError}
    (h : s.transact t = (.error e, s')) : s' = s := by
  rw [transact] at h
  split at h
  · cases h
  · cases h
    rfl

/-- What an operation answers and leaves when it succeeds. -/
inductive Performed (s : Store) : Operation → Receipt → Store → Prop where
  | increment {v : Nat} (next : (v : Int) = s.tables.last + 1) (pos : 0 < v) :
      Performed s .increment (.version v)
        { s with tables := { s.tables with counter := some v } }
  | put {p : Principal} {now : Int} {r : Resource} {v : Nat}
      (next : (v : Int) = s.tables.last + 1) (pos : 0 < v) :
      Performed s (.put p now r) (.version v) { s with tables := s.tables.written r v p now }
  | putBatch {p : Principal} {now : Int} {rs : List Resource} {vs : List Nat} {t : Tables}
      (all : s.tables.WrittenAll p now rs vs t) :
      Performed s (.putBatch p now rs) (.versions vs) { s with tables := t }
  | delete {p : Principal} {id : ResourceId} {v : Nat} (next : (v : Int) = s.tables.last + 1)
      (pos : 0 < v) (found : (s.tables.row? id).isSome) :
      Performed s (.delete p id) (.version v) { s with tables := s.tables.marked id v p }
  | putPending {p : Principal} {now : Int} {m : Marker} {r : Resource} :
      Performed s (.putPending p now m r) (.marker m)
        { s with tables := s.tables.pended r m p now }
  /-- A commit of a marker that was committed before. -/
  | commitAgain {m : Marker} {v : Nat} (before : s.tables.CommittedAt m v) :
      Performed s (.commit m) (.version v) s
  | commit {m : Marker} {v : Nat} {c : Commit} (found : s.tables.commit? m = some c)
      (open_ : c.version ≤ 0) (next : (v : Int) = s.tables.last + 1) (pos : 0 < v) :
      Performed s (.commit m) (.version v)
        ⟨s.tables.committed m v c.principal, (m, v) :: s.known⟩
  | index {m : Marker} {v : Nat} (known : s.commitVersion? m = .ok (some v)) :
      Performed s (.index m) (.count (s.tables.waiting m).length)
        { s.learnAll [.commit m] with tables := s.tables.indexed m v }

theorem performed_of_commit {m : Marker} {v : Nat} (h : s.commit m = (.ok v, s')) :
    Performed s (.commit m) (.version v) s' := by
  rw [commit] at h
  split at h
  · next heq =>
    cases h
    obtain ⟨t, hok, rfl⟩ := transact_ok heq
    obtain ⟨c, hc, ⟨_, _, hnew, _⟩ | ⟨hle, hv, hpos, _, rfl⟩⟩ := Transaction.commit_ok hok
    · cases hnew
    · exact .commit hc hle hv hpos
  · next heq =>
    cases h
    obtain ⟨t, hok, rfl⟩ := transact_ok heq
    obtain ⟨c, hc, ⟨hpos, rfl, _, rfl⟩ | ⟨_, _, _, hnew, _⟩⟩ := Transaction.commit_ok hok
    · have hv : (c.version.toNat : Int) = c.version := Int.toNat_of_nonneg (Int.le_of_lt hpos)
      exact .commitAgain ⟨c, hc, hv.symm, by omega⟩
    · cases hnew
  · cases h

theorem performed_of_index {m : Marker} {n : Nat} (h : s.index m = (.ok n, s')) :
    Performed s (.index m) (.count n) s' := by
  rw [index, run, versionOf_lookups] at h
  split at h
  · next v s₁ heq =>
    obtain ⟨hv, rfl⟩ := Prod.mk.inj heq
    obtain ⟨t, hok, rfl⟩ := transact_ok h
    rw [Transaction.index_eq, learnAll_tables] at hok
    obtain ⟨rfl, rfl⟩ := Prod.mk.inj (Except.ok.inj hok)
    exact .index (versionOf_ok.mp hv)
  · cases h

theorem mapAnswer_ok {ε α β : Type} {f : α → β} {x : Except ε α × Store} {b : β}
    (h : mapAnswer f x = (.ok b, s')) : ∃ a, x = (.ok a, s') ∧ f a = b := by
  obtain ⟨answer, s₁⟩ := x
  cases answer with
  | error e => cases h
  | ok a =>
    cases h
    exact ⟨a, rfl, rfl⟩

/-- **There is nothing else that a successful operation can do.** -/
theorem performed_of_perform {op : Operation} {receipt : Receipt}
    (h : s.perform op = (.ok receipt, s')) : Performed s op receipt s' := by
  cases op with
  | increment =>
    obtain ⟨v, hrun, rfl⟩ := mapAnswer_ok h
    obtain ⟨t, hok, rfl⟩ := transact_ok hrun
    obtain ⟨hv, hpos, rfl⟩ := Transaction.nextVersion_ok hok
    exact .increment hv hpos
  | put p now r =>
    obtain ⟨v, hrun, rfl⟩ := mapAnswer_ok h
    obtain ⟨t, hok, rfl⟩ := transact_ok hrun
    obtain ⟨hv, hpos, rfl⟩ := Transaction.put_ok hok
    exact .put hv hpos
  | putBatch p now rs =>
    obtain ⟨vs, hrun, rfl⟩ := mapAnswer_ok h
    obtain ⟨t, hok, rfl⟩ := transact_ok hrun
    exact .putBatch (Tables.writtenAll_of_putBatch hok)
  | delete p id =>
    obtain ⟨v, hrun, rfl⟩ := mapAnswer_ok h
    obtain ⟨t, hok, rfl⟩ := transact_ok hrun
    obtain ⟨hv, hpos, hfound, rfl⟩ := Transaction.delete_ok hok
    exact .delete hv hpos hfound
  | putPending p now m r =>
    obtain ⟨m', hrun, rfl⟩ := mapAnswer_ok h
    obtain ⟨t, hok, rfl⟩ := transact_ok hrun
    obtain ⟨rfl, rfl⟩ := Transaction.putPending_ok hok
    exact .putPending
  | commit m =>
    obtain ⟨v, hrun, rfl⟩ := mapAnswer_ok h
    exact performed_of_commit hrun
  | index m =>
    obtain ⟨n, hrun, rfl⟩ := mapAnswer_ok h
    exact performed_of_index hrun

/-! ## Failed operations -/

theorem commit_error {m : Marker} {e : StoreError} (h : s.commit m = (.error e, s')) : s' = s := by
  rw [commit] at h
  split at h
  · cases h
  · cases h
  · next heq =>
    cases h
    exact transact_error heq

theorem index_error {m : Marker} {e : StoreError} (h : s.index m = (.error e, s')) :
    s' = s.learnAll [.commit m] := by
  rw [index, run, versionOf_lookups] at h
  split at h
  · next heq =>
    obtain ⟨_, rfl⟩ := Prod.mk.inj heq
    exact transact_error h
  · next heq =>
    cases h
    exact (Prod.mk.inj heq).2.symm

theorem mapAnswer_error {ε α β : Type} {f : α → β} {x : Except ε α × Store} {e : ε}
    (h : mapAnswer f x = (.error e, s')) : x = (.error e, s') := by
  obtain ⟨answer, s₁⟩ := x
  cases answer with
  | error e => cases h; rfl
  | ok a => cases h

/-- A failed operation does nothing but learn. -/
theorem learnAll_of_perform_error {op : Operation} {e : StoreError}
    (h : s.perform op = (.error e, s')) : ∃ lookups, s' = s.learnAll lookups := by
  cases op with
  | increment => exact ⟨[], transact_error (mapAnswer_error h)⟩
  | put p now r => exact ⟨[], transact_error (mapAnswer_error h)⟩
  | putBatch p now rs => exact ⟨[], transact_error (mapAnswer_error h)⟩
  | delete p id => exact ⟨[], transact_error (mapAnswer_error h)⟩
  | putPending p now m r => exact ⟨[], transact_error (mapAnswer_error h)⟩
  | commit m => exact ⟨[], commit_error (mapAnswer_error h)⟩
  | index m => exact ⟨_, index_error (mapAnswer_error h)⟩

/-- **A failed operation leaves the tables as they are.** -/
theorem tables_of_perform_error {op : Operation} {e : StoreError}
    (h : s.perform op = (.error e, s')) : s'.tables = s.tables := by
  obtain ⟨lookups, rfl⟩ := learnAll_of_perform_error h
  exact learnAll_tables s lookups

end Store

end Fieldbook
