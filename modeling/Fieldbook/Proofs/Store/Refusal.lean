import Fieldbook.Proofs.Store.Accounted

/-!
# Proofs/Store/Refusal — which operations fail

In a store that is accounted for, a version given out now has never been used, so no snapshot is
in the way of a write.  An operation fails exactly when it names something that is not there:
a deletion of a name without a row, a commit of an unknown marker, an indexing of a marker that is
not committed (`perform_error_iff`).
-/

namespace Fieldbook

namespace Transaction

variable {t : Tables} {p : Principal} {now : Int} {r : Resource} {m : Marker}

/-! ## Transactions that succeed -/

theorem nextVersion_succeeds (h : 0 < t.last) :
    ∃ v : Nat, (v : Int) = t.last + 1 ∧
      nextVersion t = .ok (v, { t with counter := some (v : Int) }) := by
  have hlast : 0 < t.counter.getD 1 := h
  have hpos : 0 < t.counter.getD 1 + 1 := by omega
  have hv : (((t.counter.getD 1 + 1).toNat : Nat) : Int) = t.counter.getD 1 + 1 :=
    Int.toNat_of_nonneg (Int.le_of_lt hpos)
  refine ⟨(t.counter.getD 1 + 1).toNat, hv, ?_⟩
  unfold nextVersion
  dsimp only
  rw [if_pos hpos, hv]

theorem addSnapshot_succeeds {id : ResourceId} {v : Nat}
    (h : ∀ x ∈ t.snapshots, x.id = id → x.version ≠ v) :
    addSnapshot id v p t = .ok ((), { t with snapshots := t.snapshots ++ [⟨id, v, p⟩] }) := by
  rw [addSnapshot]
  refine if_neg fun hany => ?_
  obtain ⟨x, hx, heq⟩ := List.any_eq_true.mp hany
  obtain ⟨hid, hv⟩ := of_decide_eq_true heq
  exact h x hx hid hv

/-- **A version that comes next is not that of a snapshot.** -/
theorem snapshot_ne_of_next (ht : t.Accounted) {v : Nat} (hv : (v : Int) = t.last + 1) :
    ∀ x ∈ t.snapshots, x.version ≠ v := by
  intro x hx heq
  have hle := ht.snapshots_le x hx
  omega

theorem put_succeeds (ht : t.Accounted) :
    ∃ v, put p now r t = .ok (v, t.written r v p now) := by
  obtain ⟨v, hv, hnext⟩ := nextVersion_succeeds ht.last_pos
  have hadd : addSnapshot r.id v p { t with
      rows := Row.write r (.committed v) p now t.rows, counter := some (v : Int) } =
        .ok ((), t.written r v p now) :=
    addSnapshot_succeeds fun x hx _ => snapshot_ne_of_next ht hv x hx
  refine ⟨v, bind_ok.mpr ⟨v, _, hnext, ?_⟩⟩
  refine bind_ok.mpr ⟨(), _, modify_ok.mpr rfl, ?_⟩
  exact bind_ok.mpr ⟨(), _, hadd, pure_ok.mpr ⟨rfl, rfl⟩⟩

theorem putBatch_succeeds : ∀ (rs : List Resource) {t : Tables}, t.Accounted →
    ∃ vs t', putBatch p now rs t = .ok (vs, t')
  | [], t, _ => ⟨[], t, putBatch_nil.mpr ⟨rfl, rfl⟩⟩
  | r :: rs, t, ht => by
    obtain ⟨v, hput⟩ : ∃ v, put p now r t = .ok (v, t.written r v p now) := put_succeeds ht
    obtain ⟨hnext, -, -⟩ := put_ok hput
    have hwritten : (t.written r v p now).Accounted := ht.written hnext
    obtain ⟨vs, t', hrest⟩ := putBatch_succeeds rs hwritten
    exact ⟨v :: vs, t', putBatch_cons.mpr ⟨v, _, vs, hput, hrest, rfl⟩⟩

theorem delete_succeeds (ht : t.Accounted) {id : ResourceId} (hfound : (t.row? id).isSome) :
    ∃ v, delete p id t = .ok (v, t.marked id v p) := by
  obtain ⟨v, hv, hnext⟩ := nextVersion_succeeds ht.last_pos
  obtain ⟨row, hrow⟩ := Option.isSome_iff_exists.mp hfound
  have hadd : addSnapshot id v p { t with
      rows := t.rows.map (Row.mark id v), counter := some (v : Int) } =
        .ok ((), t.marked id v p) :=
    addSnapshot_succeeds fun x hx _ => snapshot_ne_of_next ht hv x hx
  have hthere : ({ t with counter := some (v : Int) } : Tables).row? id = some row := hrow
  have hmark := editRows_mark { t with counter := some (v : Int) } id v
  refine ⟨v, bind_ok.mpr ⟨v, _, hnext, ?_⟩⟩
  refine bind_ok.mpr ⟨_, _, get_ok.mpr ⟨rfl, rfl⟩, ?_⟩
  simp only [hthere, Option.isNone_some, Bool.false_eq_true, if_false]
  refine bind_ok.mpr ⟨(), _, modify_ok.mpr rfl, ?_⟩
  refine bind_ok.mpr ⟨(), _, ?_, pure_ok.mpr ⟨rfl, rfl⟩⟩
  rw [← hadd]
  exact congrArg (addSnapshot id v p) hmark

theorem forM_addSnapshot_succeeds {v : Nat} : ∀ (rows : List Row) {t : Tables},
    (rows.map (·.id)).Nodup → (∀ x ∈ t.snapshots, x.id ∈ rows.map (·.id) → x.version ≠ v) →
      ∃ t', (rows.forM fun row => addSnapshot row.id v p) t = .ok ((), t')
  | [], t, _, _ => ⟨t, pure_ok.mpr ⟨rfl, rfl⟩⟩
  | row :: rows, t, hd, h => by
    obtain ⟨hnew, hd⟩ := List.nodup_cons.mp hd
    have hadd : addSnapshot row.id v p t =
        .ok ((), { t with snapshots := t.snapshots ++ [⟨row.id, v, p⟩] }) :=
      addSnapshot_succeeds fun x hx hid => h x hx (hid ▸ List.mem_cons_self)
    have hrest : ∀ x ∈ t.snapshots ++ [⟨row.id, v, p⟩], x.id ∈ rows.map (·.id) →
        x.version ≠ v := by
      intro x hx hid
      rcases List.mem_append.mp hx with hx | hx
      · exact h x hx (List.mem_cons_of_mem _ hid)
      · rw [List.mem_singleton.mp hx] at hid
        exact absurd hid hnew
    obtain ⟨t', hforM⟩ := forM_addSnapshot_succeeds rows
      (t := { t with snapshots := t.snapshots ++ [⟨row.id, v, p⟩] }) hd hrest
    exact ⟨t', bind_ok.mpr ⟨(), _, hadd, hforM⟩⟩

theorem commit_succeeds (ht : t.Accounted) {c : Commit} (hc : t.commit? m = some c)
    (hle : c.version ≤ 0) : ∃ v t', commit m t = .ok ((v, true), t') := by
  obtain ⟨v, hv, hnext⟩ := nextVersion_succeeds ht.last_pos
  have hd : ((t.waiting m).map (·.id)).Nodup :=
    ht.distinct.sublist (List.filter_sublist.map _)
  obtain ⟨t', hforM⟩ := forM_addSnapshot_succeeds (p := c.principal) (v := v) (t.waiting m)
    (t := { t with
      counter := some (v : Int)
      commits := t.commits.map fun d => if d.marker = m then { d with version := v } else d })
    hd fun x hx _ => snapshot_ne_of_next ht hv x hx
  refine ⟨v, t', bind_ok.mpr ⟨t, t, get_ok.mpr ⟨rfl, rfl⟩, ?_⟩⟩
  rw [hc]
  dsimp only
  rw [if_neg (Int.not_lt.mpr hle)]
  refine bind_ok.mpr ⟨v, _, hnext, ?_⟩
  refine bind_ok.mpr ⟨(), _, modify_ok.mpr rfl, ?_⟩
  refine bind_ok.mpr ⟨_, _, get_ok.mpr ⟨rfl, rfl⟩, ?_⟩
  exact bind_ok.mpr ⟨(), t', hforM, pure_ok.mpr ⟨rfl, rfl⟩⟩

/-- **A committed marker is found at its version, and nothing changes.** -/
theorem commit_of_committedAt {v : Nat} (h : t.CommittedAt m v) :
    commit m t = .ok ((v, false), t) := by
  obtain ⟨c, hc, hv, hpos⟩ := h
  refine bind_ok.mpr ⟨t, t, get_ok.mpr ⟨rfl, rfl⟩, ?_⟩
  rw [hc]
  dsimp only
  rw [if_pos (by omega), hv]
  rfl

end Transaction

namespace Store

variable {s : Store}

/-! ## Operations that succeed -/

theorem transact_of_ok {α : Type} {t : Transaction α} {a : α} {t' : Tables}
    (h : t s.tables = .ok (a, t')) : s.transact t = (.ok a, { s with tables := t' }) := by
  have hrun : t.run s.tables = .ok (a, t') := h
  rw [transact, hrun]

theorem transact_succeeds {α : Type} {t : Transaction α} {a : α} {t' : Tables}
    (h : t s.tables = .ok (a, t')) : (s.transact t).1 = .ok a := by
  rw [transact_of_ok h]

theorem mapAnswer_succeeds {ε α β : Type} {f : α → β} {x : Except ε α × Store} {a : α}
    (h : x.1 = .ok a) : ∃ b, (mapAnswer f x).1 = .ok b := by
  rw [mapAnswer, h]
  exact ⟨f a, rfl⟩

/-- **A commit of a committed marker answers the version it has and changes nothing.** -/
theorem perform_commit_of_committedAt {m : Marker} {v : Nat} (h : s.tables.CommittedAt m v) :
    s.perform (.commit m) = (.ok (.version v), s) := by
  change mapAnswer Receipt.version (s.commit m) = _
  rw [commit, transact_of_ok (Transaction.commit_of_committedAt h)]
  rfl

theorem commit_succeeds (hs : s.Accounted) {m : Marker} {c : Commit}
    (hc : s.tables.commit? m = some c) : ∃ receipt, (s.perform (.commit m)).1 = .ok receipt := by
  by_cases hle : c.version ≤ 0
  · obtain ⟨v, t', hcommit⟩ := Transaction.commit_succeeds hs.tables hc hle
    refine mapAnswer_succeeds (a := v) ?_
    rw [commit, transact_of_ok hcommit]
  · have hv : ((c.version.toNat : Nat) : Int) = c.version := Int.toNat_of_nonneg (by omega)
    have hat : s.tables.CommittedAt m c.version.toNat := ⟨c, hc, hv.symm, by omega⟩
    exact ⟨_, congrArg Prod.fst (perform_commit_of_committedAt hat)⟩

theorem index_succeeds (hs : s.Accounted) {m : Marker} {v : Nat}
    (h : s.tables.CommittedAt m v) : ∃ receipt, (s.perform (.index m)).1 = .ok receipt := by
  have hv : (s.versionOf m).answer = .ok v := versionOf_ok.mpr (hs.commitVersion?_eq_some.mpr h)
  refine mapAnswer_succeeds (a := (s.tables.waiting m).length) ?_
  rw [index, run, hv]
  have hindex : Transaction.index m v (s.learnAll (s.versionOf m).lookups).tables =
      .ok ((s.tables.waiting m).length, s.tables.indexed m v) := by
    rw [learnAll_tables, Transaction.index_eq]
  exact transact_succeeds hindex

/-! ## What they answer and leave -/

/-- **A put** takes the version that comes next. -/
theorem perform_put (hs : s.Accounted) (p : Principal) (now : Int) (r : Resource) :
    ∃ v : Nat, (v : Int) = s.tables.last + 1 ∧ s.perform (.put p now r) =
      (.ok (.version v), { s with tables := s.tables.written r v p now }) := by
  obtain ⟨v, hput⟩ : ∃ v, Transaction.put p now r s.tables =
      .ok (v, s.tables.written r v p now) := Transaction.put_succeeds hs.tables
  refine ⟨v, (Transaction.put_ok hput).1, ?_⟩
  change mapAnswer Receipt.version (s.transact (Transaction.put p now r)) = _
  rw [transact_of_ok hput]
  rfl

theorem perform_putBatch {p : Principal} {now : Int} {rs : List Resource} {vs : List Nat}
    {t : Tables} (h : Transaction.putBatch p now rs s.tables = .ok (vs, t)) :
    s.perform (.putBatch p now rs) = (.ok (.versions vs), { s with tables := t }) := by
  change mapAnswer Receipt.versions (s.transact (Transaction.putBatch p now rs)) = _
  rw [transact_of_ok h]
  rfl

/-- **A commit** of an open marker takes the version that comes next. -/
theorem perform_commit_of_open (hs : s.Accounted) {m : Marker} {c : Commit}
    (hc : s.tables.commit? m = some c) (hle : c.version ≤ 0) :
    ∃ v : Nat, (v : Int) = s.tables.last + 1 ∧ s.perform (.commit m) =
      (.ok (.version v), ⟨s.tables.committed m v c.principal, (m, v) :: s.known⟩) := by
  obtain ⟨receipt, hok⟩ := commit_succeeds hs hc
  obtain ⟨s', hrun⟩ : ∃ s', s.perform (.commit m) = (.ok receipt, s') := ⟨_, Prod.ext hok rfl⟩
  rw [hrun]
  cases performed_of_perform hrun with
  | commitAgain before =>
    obtain ⟨d, hd, hv, hpos⟩ := before
    obtain rfl := Option.some.inj (hc.symm.trans hd)
    omega
  | commit found _ next =>
    obtain rfl := Option.some.inj (hc.symm.trans found)
    exact ⟨_, next, rfl⟩

/-- **An indexing** counts the rows that have waited. -/
theorem perform_index (hs : s.Accounted) {m : Marker} {v : Nat} (h : s.tables.CommittedAt m v) :
    (s.perform (.index m)).1 = .ok (.count (s.tables.waiting m).length) ∧
      (s.perform (.index m)).2.tables = s.tables.indexed m v := by
  obtain ⟨receipt, hok⟩ := index_succeeds hs h
  obtain ⟨s', hrun⟩ : ∃ s', s.perform (.index m) = (.ok receipt, s') := ⟨_, Prod.ext hok rfl⟩
  rw [hrun]
  cases performed_of_perform hrun with
  | index known =>
    obtain rfl := h.unique (hs.commitVersion?_eq_some.mp known)
    exact ⟨rfl, rfl⟩

/-! ## What is refused -/

/-- Names something that is not there. -/
def Operation.IsRefused (t : Tables) : Operation → Prop
  | .delete _ id => t.row? id = none
  | .commit m => t.commit? m = none
  | .index m => ¬∃ v, t.CommittedAt m v
  | .increment | .put .. | .putBatch .. | .putPending .. => False

theorem Performed.not_isRefused {op : Operation} {receipt : Receipt} {s' : Store}
    (hs : s.Accounted) (h : Performed s op receipt s') : ¬op.IsRefused s.tables := by
  intro hnone
  cases h with
  | increment | put | putBatch | putPending => exact hnone
  | delete _ _ found => exact absurd hnone (Option.isSome_iff_ne_none.mp found)
  | commitAgain before =>
    obtain ⟨c, hc, -⟩ := before
    exact nomatch hc.symm.trans hnone
  | commit found => exact nomatch found.symm.trans hnone
  | index known => exact hnone ⟨_, hs.commitVersion?_eq_some.mp known⟩

theorem perform_succeeds (hs : s.Accounted) {op : Operation} (h : ¬op.IsRefused s.tables) :
    ∃ receipt, (s.perform op).1 = .ok receipt := by
  cases op with
  | increment =>
    obtain ⟨v, -, hnext⟩ := Transaction.nextVersion_succeeds hs.tables.last_pos
    exact mapAnswer_succeeds (transact_succeeds hnext)
  | put p now r =>
    obtain ⟨v, hput⟩ := Transaction.put_succeeds hs.tables
    exact mapAnswer_succeeds (transact_succeeds hput)
  | putBatch p now rs =>
    obtain ⟨vs, t', hput⟩ := Transaction.putBatch_succeeds rs hs.tables
    exact mapAnswer_succeeds (transact_succeeds hput)
  | delete p id =>
    have hfound : (s.tables.row? id).isSome := Option.isSome_iff_ne_none.mpr h
    obtain ⟨v, hdelete⟩ := Transaction.delete_succeeds hs.tables hfound
    exact mapAnswer_succeeds (transact_succeeds hdelete)
  | putPending p now m r => exact mapAnswer_succeeds (transact_succeeds rfl)
  | commit m =>
    obtain ⟨c, hc⟩ := Option.ne_none_iff_exists'.mp h
    exact commit_succeeds hs hc
  | index m =>
    obtain ⟨v, hv⟩ := Classical.not_not.mp h
    exact index_succeeds hs hv

/-- **An operation fails exactly when it names something that is not there.** -/
theorem perform_error_iff (hs : s.Accounted) (op : Operation) :
    (∃ e, (s.perform op).1 = .error e) ↔ op.IsRefused s.tables := by
  constructor
  · rintro ⟨e, he⟩
    refine Classical.byContradiction fun h => ?_
    obtain ⟨receipt, hok⟩ := perform_succeeds hs h
    exact nomatch he.symm.trans hok
  · intro h
    cases hrun : (s.perform op).1 with
    | error e => exact ⟨e, rfl⟩
    | ok receipt =>
      have hok : s.perform op = (.ok receipt, (s.perform op).2) := Prod.ext hrun rfl
      exact absurd h (Performed.not_isRefused hs (performed_of_perform hok))

end Store

end Fieldbook
