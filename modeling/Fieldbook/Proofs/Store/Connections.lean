import Fieldbook.Proofs.Store.Consistent

/-!
# Proofs/Store/Connections — what a store answers agrees with itself

Every operation that does not use a marker again keeps rows, snapshots and commits in agreement
(`consistent_perform`), whatever was superseded, deleted or left without an index before.

A connection keeps what it has learned of markers.  In every state that operations and readings
lead to, through any connections to the same tables, it answers as one would that knows nothing
(`consistent_of_reachable`).
-/

namespace Fieldbook

namespace Store

variable {s s' : Store} {op : Operation} {receipt : Receipt} {m : Marker}

/-! ## Connections -/

/-- A new connection to the same tables. -/
def reopened (s : Store) : Store := ⟨s.tables, []⟩

theorem accounted_reopened (hs : s.Accounted) : s.reopened.Accounted :=
  ⟨hs.tables, fun _ _ h => nomatch h⟩

/-- **What a connection has learned does not show:** it answers for a marker as a new one does. -/
theorem Accounted.commitVersion?_reopened (hs : s.Accounted) (m : Marker) :
    s.commitVersion? m = s.reopened.commitVersion? m := by
  cases hm : s.known.lookup m with
  | some v =>
    have hat := hs.known m v hm
    rw [(accounted_reopened hs).commitVersion?_eq_some.mpr hat]
    exact hs.commitVersion?_eq_some.mpr hat
  | none =>
    rw [commitVersion?, hm]
    rfl

/-- So it answers as any other connection to tables that say the same of the marker. -/
theorem Accounted.commitVersion?_congr (hs : s.Accounted) (hs' : s'.Accounted)
    (h : s'.tables.commit? m = s.tables.commit? m) : s'.commitVersion? m = s.commitVersion? m := by
  rw [hs'.commitVersion?_reopened, hs.commitVersion?_reopened]
  unfold commitVersion? reopened
  dsimp only
  rw [List.lookup_nil, h]

/-- The marker of a new pending write is not recorded yet. -/
def Operation.IsFresh (t : Tables) : Operation → Prop
  | .putPending _ _ m _ => t.commit? m = none
  | _ => True

instance (t : Tables) (op : Operation) : Decidable (op.IsFresh t) := by
  unfold Operation.IsFresh
  split <;> infer_instance

/-- **Every operation keeps rows, snapshots and commits in agreement.** -/
theorem Performed.consistent (h : Performed s op receipt s') (hs : s.Accounted)
    (hc : s.tables.Consistent) (hfresh : op.IsFresh s.tables) : s'.tables.Consistent := by
  cases h with
  | increment next => exact hc.counted next
  | put next => exact hc.written hs.tables next
  | putBatch all => exact all.consistent hs.tables hc
  | delete next => exact hc.marked hs.tables next
  | putPending => exact hc.pended hs.tables hfresh
  | commitAgain => exact hc
  | commit found open_ next pos => exact hc.committed hs.tables found open_ next pos
  | index known => exact hc.indexed (hs.commitVersion?_eq_some.mp known)

/-- An operation that fails leaves them so too. -/
theorem consistent_perform (hs : s.Accounted) (hc : s.tables.Consistent)
    (hfresh : op.IsFresh s.tables) : (s.perform op).2.tables.Consistent := by
  rcases hrun : s.perform op with ⟨e | receipt, s'⟩
  · rw [tables_of_perform_error hrun]
    exact hc
  · exact (performed_of_perform hrun).consistent hs hc hfresh

/-! ## Reachable states -/

/-- A state that operations and readings lead to, as one connection sees it.  Others may write to
the same tables. -/
inductive Reachable : Store → Prop where
  | empty : Reachable empty
  | write {s : Store} {op : Operation} (before : Reachable s) (fresh : op.IsFresh s.tables) :
      Reachable (s.perform op).2
  | read {s : Store} {ε α : Type} (before : Reachable s) (r : Reading ε α) :
      Reachable (s.run r).2
  | reopen {s : Store} (before : Reachable s) : Reachable s.reopened
  /-- Another connection, `o`, writes. -/
  | elsewhere {s o : Store} {op : Operation} (here : Reachable s) (there : Reachable o)
      (same : o.tables = s.tables) (fresh : op.IsFresh o.tables) :
      Reachable ⟨(o.perform op).2.tables, s.known⟩

theorem Reachable.keeps (h : s.Reachable) : s.Accounted ∧ s.tables.Consistent := by
  induction h with
  | empty => exact ⟨accounted_empty, Tables.consistent_empty⟩
  | @write s op _ fresh ih => exact ⟨accounted_perform ih.1 op, consistent_perform ih.1 ih.2 fresh⟩
  | @read s _ _ _ r ih =>
    refine ⟨ih.1.learnAll r.lookups, ?_⟩
    change (s.learnAll r.lookups).tables.Consistent
    rw [learnAll_tables]
    exact ih.2
  | reopen _ ih => exact ⟨accounted_reopened ih.1, ih.2⟩
  | @elsewhere s o op _ _ same fresh ih ih' =>
    refine ⟨ih.1.of_tables (accounted_perform ih'.1 op).tables fun m v hm => ?_,
      consistent_perform ih'.1 ih'.2 fresh⟩
    rw [← same] at hm
    exact committedAt_perform hm op

/-- A state that operations and readings lead to from another one, as one connection sees it. -/
inductive Later (s : Store) : Store → Prop where
  | refl : Later s s
  | write {s' : Store} {op : Operation} (before : Later s s') (fresh : op.IsFresh s'.tables) :
      Later s (s'.perform op).2
  | read {s' : Store} {ε α : Type} (before : Later s s') (r : Reading ε α) : Later s (s'.run r).2
  | reopen {s' : Store} (before : Later s s') : Later s s'.reopened
  /-- Another connection, `o`, writes. -/
  | elsewhere {s' o : Store} {op : Operation} (here : Later s s') (there : Reachable o)
      (same : o.tables = s'.tables) (fresh : op.IsFresh o.tables) :
      Later s ⟨(o.perform op).2.tables, s'.known⟩

theorem Later.reachable (h : s.Later s') (hs : s.Reachable) : s'.Reachable := by
  induction h with
  | refl => exact hs
  | write _ fresh ih => exact .write ih fresh
  | read _ r ih => exact .read ih r
  | reopen _ ih => exact .reopen ih
  | elsewhere _ there same fresh ih => exact .elsewhere ih there same fresh

/-- **What every operation keeps of the tables** holds in all later states. -/
theorem Later.keeps (P : Tables → Prop) (h : s.Later s') (hs : s.Reachable)
    (step : ∀ {o : Store} {op : Operation}, o.Reachable → op.IsFresh o.tables → P o.tables →
      P (o.perform op).2.tables) (hp : P s.tables) : P s'.tables := by
  induction h with
  | refl => exact hp
  | write before fresh ih => exact step (before.reachable hs) fresh ih
  | @read s' _ _ _ r ih =>
    change P (s'.learnAll r.lookups).tables
    rw [learnAll_tables]
    exact ih
  | reopen _ ih => exact ih
  | elsewhere _ there same fresh ih => exact step there fresh (same ▸ ih)

/-- Rows, snapshots, commits and what the connection knows agree, in what the store answers. -/
structure Consistent (s : Store) : Prop where
  /-- No two snapshots have one version. -/
  versions : (s.tables.snapshots.map (·.version)).Nodup
  bounds : ∃ last, s.tables.currentVersion = .ok last ∧
    ∀ x ∈ s.tables.snapshots, 2 ≤ x.version ∧ x.version ≤ last
  stamped : ∀ row ∈ s.tables.rows, (∃ v : Nat, row.stamp = .committed v ∧ 0 < v) ∨
    ∃ m, row.stamp = .pending m ∧ (s.tables.commit? m).isSome
  /-- The version of a row is the last of its snapshots. -/
  latest : ∀ row ∈ s.tables.rows, ∀ e : Entry, e.stamp = row.stamp → ∀ v,
    (s.resolveVersion e).answer = .ok v →
      (∃ x ∈ s.snapshots row.id, x.version = v) ∧ ∀ x ∈ s.snapshots row.id, x.version ≤ v
  /-- A marker stands in one row. -/
  carried : ∀ row ∈ s.tables.rows, ∀ row' ∈ s.tables.rows, ∀ m, row.stamp = .pending m →
    row'.stamp = .pending m → row = row'
  /-- A version belongs to one marker. -/
  commits : ∀ m m' v, s.tables.CommittedAt m v → s.tables.CommittedAt m' v → m = m'
  known : ∀ m v, s.known.lookup m = some v → s.tables.CommittedAt m v
  /-- What the connection knows does not show. -/
  transparent : ∀ e : Entry, (s.resolveVersion e).answer = (s.reopened.resolveVersion e).answer ∧
    (s.committedVersion? e).answer = (s.reopened.committedVersion? e).answer

theorem mem_snapshots {id : ResourceId} {x : Snapshot} :
    x ∈ s.snapshots id ↔ x ∈ s.tables.snapshots ∧ x.id = id := by
  rw [snapshots, List.mem_mergeSort, List.mem_filter, decide_eq_true_eq]

/-- The version that an entry of a row resolves to is that of the row. -/
theorem resolves_of_resolveVersion (hs : s.Accounted) (hc : s.tables.Consistent) {row : Row}
    {e : Entry} {v : Nat} (hmem : row ∈ s.tables.rows) (hstamp : e.stamp = row.stamp)
    (h : (s.resolveVersion e).answer = .ok v) : s.tables.Resolves row v := by
  rw [resolveVersion, hstamp] at h
  rcases hc.stamped row hmem with ⟨u, hu, -⟩ | ⟨m, hm, -⟩
  · rw [hu] at h
    obtain rfl : u = v := Except.ok.inj h
    exact .inl hu
  · rw [hm] at h
    exact .inr ⟨m, hm, hs.commitVersion?_eq_some.mp (versionOf_ok.mp h)⟩

/-- **In every state of a store its four parts agree.** -/
theorem consistent_of_reachable (h : s.Reachable) : s.Consistent := by
  obtain ⟨hs, hc⟩ := h.keeps
  refine ⟨hc.ascending.imp Nat.ne_of_lt, ?_, hc.stamped, ?_, hc.carried, hc.commits_inj, hs.known,
    fun e => ⟨?_, ?_⟩⟩
  · have hpos := hs.tables.last_pos
    refine ⟨_, Tables.currentVersion_eq hpos, fun x hx => ⟨hc.after_one x hx, ?_⟩⟩
    have hle := hs.tables.snapshots_le x hx
    omega
  · intro row hmem e hstamp v hv
    obtain ⟨⟨x, hx, hid, hxv⟩, hle⟩ :=
      hc.latest row hmem v (resolves_of_resolveVersion hs hc hmem hstamp hv)
    refine ⟨⟨x, mem_snapshots.mpr ⟨hx, hid⟩, hxv⟩, fun y hy => ?_⟩
    obtain ⟨hy, hid⟩ := mem_snapshots.mp hy
    exact hle y hy hid
  · unfold resolveVersion versionOf
    cases e.stamp with
    | committed v => rfl
    | pending m =>
      dsimp only
      rw [Reading.answer_bind, Reading.answer_bind, hs.commitVersion?_reopened m]
  · unfold committedVersion?
    cases e.stamp with
    | committed v => rfl
    | pending m => exact hs.commitVersion?_reopened m

/-! ## A busy resource -/

/-- The markers of a run are new where they are used. -/
def FreshAlong : Store → List Operation → Prop
  | _, [] => True
  | s, op :: rest => op.IsFresh s.tables ∧ FreshAlong (s.perform op).2 rest

instance decidableFreshAlong : ∀ (s : Store) (ops : List Operation), Decidable (s.FreshAlong ops)
  | _, [] => .isTrue trivial
  | s, op :: rest =>
    have := decidableFreshAlong (s.perform op).2 rest
    inferInstanceAs (Decidable (_ ∧ _))

theorem Reachable.after : ∀ (ops : List Operation) {s : Store}, s.Reachable → s.FreshAlong ops →
    (s.after ops).Reachable
  | [], _, h, _ => h
  | _ :: rest, _, h, hall => Reachable.after rest (.write h hall.1) hall.2

/-- A note whose pending writes are superseded, deleted and committed late; the last one is
committed and waits for its index. -/
def busyNote : Store :=
  let note : Resource := .new ⟨"note"⟩ ⟨"home"⟩ ⟨"_folder"⟩ .empty
  empty.after
    [.put ⟨"alice"⟩ 0 note,
      .putPending ⟨"bob"⟩ 0 ⟨"m1"⟩ note,
      .putPending ⟨"bob"⟩ 0 ⟨"m2"⟩ note,
      .commit ⟨"m1"⟩,
      .delete ⟨"alice"⟩ ⟨"note"⟩,
      .commit ⟨"m2"⟩,
      .putPending ⟨"carol"⟩ 0 ⟨"m3"⟩ note,
      .commit ⟨"m3"⟩]

theorem reachable_busyNote : busyNote.Reachable := .after _ .empty (by decide +kernel)

theorem consistent_busyNote :
    busyNote.Reachable ∧ busyNote.tables.rows.map (·.stamp) = [.pending ⟨"m3"⟩] ∧
      busyNote.tables.snapshots.map (·.version) = [2, 4, 6] ∧ busyNote.Consistent := by
  have h : busyNote.Reachable := Reachable.after _ .empty (by decide +kernel)
  exact ⟨h, by decide +kernel, by decide +kernel, consistent_of_reachable h⟩

end Store

end Fieldbook
