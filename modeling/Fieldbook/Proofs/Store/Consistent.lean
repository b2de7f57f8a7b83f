import Fieldbook.Proofs.Store.Versions

/-!
# Proofs/Store/Consistent — rows, snapshots and commits agree

A row says which version it has by its stamp, and by the commit that the stamp names; the snapshots
say which versions the resource has had.  `Tables.Consistent` is what an operation needs to keep
the two in agreement: no version is used twice, and a marker stands in one row.  There is one lemma
for each way in which an operation changes the tables; only a pending write asks for more, that its
marker has not been used before (`Consistent.pended`).
-/

namespace Fieldbook

namespace Tables

variable {t t' : Tables} {m marker : Marker} {u v : Nat} {p : Principal} {now : Int}
  {r : Resource} {row : Row} {id : ResourceId}

/-- The version of a row: the one it is stamped with, or that of the commit it waits for. -/
def Resolves (t : Tables) (row : Row) (v : Nat) : Prop :=
  row.stamp = .committed v ∨ ∃ m, row.stamp = .pending m ∧ t.CommittedAt m v

/-- A resource has had the version `v`, and none after it. -/
def Latest (t : Tables) (id : ResourceId) (v : Nat) : Prop :=
  (∃ x ∈ t.snapshots, x.id = id ∧ x.version = v) ∧
    ∀ x ∈ t.snapshots, x.id = id → x.version ≤ v

/-- Rows, snapshots and commits agree. -/
structure Consistent (t : Tables) : Prop where
  /-- Every snapshot has a version after those before it. -/
  ascending : (t.snapshots.map (·.version)).Pairwise (· < ·)
  after_one : ∀ x ∈ t.snapshots, 1 < x.version
  stamped : ∀ row ∈ t.rows, (∃ v : Nat, row.stamp = .committed v ∧ 0 < v) ∨
    ∃ m, row.stamp = .pending m ∧ (t.commit? m).isSome
  latest : ∀ row ∈ t.rows, ∀ v, t.Resolves row v → t.Latest row.id v
  /-- A marker stands in one row. -/
  carried : ∀ row ∈ t.rows, ∀ row' ∈ t.rows, ∀ m, row.stamp = .pending m →
    row'.stamp = .pending m → row = row'
  commits_le : ∀ m v, t.CommittedAt m v → (v : Int) ≤ t.last
  /-- A version belongs to one marker. -/
  commits_inj : ∀ m m' v, t.CommittedAt m v → t.CommittedAt m' v → m = m'

theorem consistent_empty : Tables.empty.Consistent where
  ascending := .nil
  after_one := fun _ h => nomatch h
  stamped := fun _ h => nomatch h
  latest := fun _ h => nomatch h
  carried := fun _ h => nomatch h
  commits_le := fun _ _ ⟨_, h, _⟩ => nomatch h
  commits_inj := fun _ _ _ ⟨_, h, _⟩ => nomatch h

/-! ## Snapshots under a new version -/

theorem resolves_of_committed (h : row.stamp = .committed v) : t.Resolves row u ↔ u = v := by
  unfold Resolves
  rw [h]
  simp only [Stamp.committed.injEq, Int.natCast_inj, reduceCtorEq, false_and, exists_false,
    or_false]
  exact eq_comm

theorem resolves_of_pending (h : row.stamp = .pending m) :
    t.Resolves row u ↔ t.CommittedAt m u := by
  unfold Resolves
  rw [h]
  simp

/-- The snapshots of other resources change nothing. -/
theorem Latest.append (h : t.Latest id v) {new : List Snapshot}
    (hsnap : t'.snapshots = t.snapshots ++ new) (hnew : ∀ x ∈ new, x.id ≠ id) :
    t'.Latest id v := by
  obtain ⟨⟨x, hx, hid, hv⟩, hle⟩ := h
  refine ⟨⟨x, ?_, hid, hv⟩, fun y hy hyid => ?_⟩
  · rw [hsnap]
    exact List.mem_append_left _ hx
  · rw [hsnap] at hy
    rcases List.mem_append.mp hy with hy | hy
    · exact hle y hy hyid
    · exact absurd hyid (hnew y hy)

/-- **A snapshot at the next version** is the latest of its resource. -/
theorem latest_of_next (ht : t.Accounted) (hnext : (v : Int) = t.last + 1) {new : List Snapshot}
    (hsnap : t'.snapshots = t.snapshots ++ new) (hv : ∀ x ∈ new, x.version = v)
    (hid : ∃ x ∈ new, x.id = id) : t'.Latest id v := by
  obtain ⟨x, hx, hid⟩ := hid
  refine ⟨⟨x, ?_, hid, hv x hx⟩, fun y hy _ => ?_⟩
  · rw [hsnap]
    exact List.mem_append_right _ hx
  · rw [hsnap] at hy
    rcases List.mem_append.mp hy with hy | hy
    · have hle := ht.snapshots_le y hy
      omega
    · exact Nat.le_of_eq (hv y hy)

/-- One snapshot at the next version keeps the versions ascending. -/
theorem Consistent.ascending_append (h : t.Consistent) (ht : t.Accounted)
    (hnext : (v : Int) = t.last + 1) {new : List Snapshot} (hone : new.length ≤ 1)
    (hv : ∀ x ∈ new, x.version = v) :
    ((t.snapshots ++ new).map (·.version)).Pairwise (· < ·) := by
  rw [List.map_append]
  refine List.pairwise_append.mpr ⟨h.ascending, ?_, fun a ha b hb => ?_⟩
  · match new, hone with
    | [], _ => exact .nil
    | [_], _ => exact List.pairwise_singleton _ _
  · obtain ⟨x, hx, rfl⟩ := List.mem_map.mp ha
    obtain ⟨y, hy, rfl⟩ := List.mem_map.mp hb
    have hle := ht.snapshots_le x hx
    rw [hv y hy]
    omega

theorem Consistent.after_one_append (h : t.Consistent) (ht : t.Accounted)
    (hnext : (v : Int) = t.last + 1) {new : List Snapshot} (hv : ∀ x ∈ new, x.version = v) :
    ∀ x ∈ t.snapshots ++ new, 1 < x.version := by
  intro x hx
  rcases List.mem_append.mp hx with hx | hx
  · exact h.after_one x hx
  · have hpos := ht.last_pos
    rw [hv x hx]
    omega

/-- The snapshots of a commit are at its version. -/
theorem version_of_mem_waiting {x : Snapshot}
    (hx : x ∈ (t.waiting marker).map fun row => (⟨row.id, v, p⟩ : Snapshot)) : x.version = v := by
  obtain ⟨row, -, rfl⟩ := List.mem_map.mp hx
  rfl

/-! ## Operations -/

namespace Consistent

variable (h : t.Consistent)

include h

/-- A marker that stands in a row is recorded. -/
theorem recorded (hmem : row ∈ t.rows) (hm : row.stamp = .pending m) : (t.commit? m).isSome := by
  rcases h.stamped row hmem with ⟨v, hv, -⟩ | ⟨m', hm', hsome⟩
  · cases hm.symm.trans hv
  · cases hm.symm.trans hm'
    exact hsome

/-- **A row at the next version,** with its snapshot, while all other rows stay as they are. -/
theorem dated (ht : t.Accounted) (hnext : (v : Int) = t.last + 1) (hlast : t'.last = v)
    (hcommits : t'.commits = t.commits) (hsnap : t'.snapshots = t.snapshots ++ [⟨id, v, p⟩])
    (hrow : ∀ row ∈ t'.rows, (row ∈ t.rows ∧ row.id ≠ id) ∨
      (row.id = id ∧ row.stamp = .committed v)) : t'.Consistent := by
  have hat : ∀ {m u}, t'.CommittedAt m u ↔ t.CommittedAt m u := committedAt_congr hcommits
  have hone : ∀ x ∈ [(⟨id, v, p⟩ : Snapshot)], x.version = v := by simp
  have hold : ∀ {row m}, row ∈ t'.rows → row.stamp = .pending m → row ∈ t.rows := by
    intro row m hmem hm
    rcases hrow row hmem with ⟨hmem, -⟩ | ⟨-, hv⟩
    · exact hmem
    · cases hm.symm.trans hv
  refine ⟨?_, ?_, fun row hmem => ?_, fun row hmem u hu => ?_, ?_, fun m u hu => ?_, ?_⟩
  · rw [hsnap]
    exact h.ascending_append ht hnext (Nat.le_refl 1) hone
  · rw [hsnap]
    exact h.after_one_append ht hnext hone
  · unfold commit?
    rw [hcommits]
    rcases hrow row hmem with ⟨hmem, -⟩ | ⟨-, hv⟩
    · exact h.stamped row hmem
    · have hpos := ht.last_pos
      exact .inl ⟨v, hv, by omega⟩
  · rcases hrow row hmem with ⟨hmem, hne⟩ | ⟨hid, hv⟩
    · have hbefore : t.Resolves row u := hu.imp_right fun ⟨m, hm, hmu⟩ => ⟨m, hm, hat.mp hmu⟩
      refine (h.latest row hmem u hbefore).append hsnap fun x hx hid => hne ?_
      rw [← hid, List.mem_singleton.mp hx]
    · obtain rfl := (resolves_of_committed hv).mp hu
      exact latest_of_next ht hnext hsnap hone ⟨_, List.mem_singleton_self _, hid.symm⟩
  · intro row hmem row' hmem' m hm hm'
    exact h.carried row (hold hmem hm) row' (hold hmem' hm') m hm hm'
  · have hle := h.commits_le m u (hat.mp hu)
    omega
  · intro m m' u hu hu'
    exact h.commits_inj m m' u (hat.mp hu) (hat.mp hu')

theorem written (ht : t.Accounted) (hnext : (v : Int) = t.last + 1) :
    (t.written r v p now).Consistent := by
  refine h.dated ht hnext rfl rfl rfl fun row hmem => ?_
  refine (Row.mem_write_of_nodup ht.distinct hmem).imp_right ?_
  rintro rfl
  exact ⟨Row.afterWrite_find?_id _, Row.afterWrite_stamp _⟩

theorem marked (ht : t.Accounted) (hnext : (v : Int) = t.last + 1) :
    (t.marked id v p).Consistent := by
  refine h.dated ht hnext rfl rfl rfl fun row hmem => ?_
  obtain ⟨old, hold, rfl⟩ := List.mem_map.mp hmem
  by_cases hid : old.id = id
  · rw [Row.mark_self id v old hid]
    exact .inr ⟨hid, rfl⟩
  · rw [Row.mark_of_ne id v old hid]
    exact .inl ⟨hold, hid⟩

theorem counted (hnext : (v : Int) = t.last + 1) :
    ({ t with counter := some (v : Int) } : Tables).Consistent where
  ascending := h.ascending
  after_one := h.after_one
  stamped := h.stamped
  latest := h.latest
  carried := h.carried
  commits_le := fun m u hu => by
    have hle : (u : Int) ≤ t.last := h.commits_le m u hu
    change (u : Int) ≤ v
    omega
  commits_inj := h.commits_inj

/-- A marker that is not recorded stands in no row. -/
theorem stamp_ne_of_fresh (hfresh : t.commit? marker = none) (hmem : row ∈ t.rows) :
    row.stamp ≠ .pending marker := by
  intro hm
  have hsome := h.recorded hmem hm
  rw [hfresh] at hsome
  cases hsome

/-- **A pending write** puts a new marker in its row, which has no version yet. -/
theorem pended (ht : t.Accounted) (hfresh : t.commit? marker = none) :
    (t.pended r marker p now).Consistent := by
  have hrow : ∀ row ∈ (t.pended r marker p now).rows,
      row ∈ t.rows ∨ (row.id = r.id ∧ row.stamp = .pending marker) := by
    intro row hmem
    refine (Row.mem_write hmem).imp_right ?_
    rintro rfl
    exact ⟨Row.afterWrite_find?_id _, Row.afterWrite_stamp _⟩
  have hopen : ∀ u, ¬t.CommittedAt marker u := by
    rintro u ⟨c, hc, -⟩
    cases hfresh.symm.trans hc
  refine ⟨h.ascending, h.after_one, fun row hmem => ?_, fun row hmem u hu => ?_, ?_,
    fun m u hu => h.commits_le m u (committedAt_pended.mp hu), ?_⟩
  · rcases hrow row hmem with hold | ⟨-, hnew⟩
    · refine (h.stamped row hold).imp_right fun ⟨m, hm, hsome⟩ => ⟨m, hm, ?_⟩
      rw [commit?_pended]
      simp [hsome]
    · refine .inr ⟨marker, hnew, ?_⟩
      rw [commit?_pended]
      simp [hfresh]
  · have hbefore : t.Resolves row u :=
      hu.imp_right fun ⟨m, hm, hmu⟩ => ⟨m, hm, committedAt_pended.mp hmu⟩
    rcases hrow row hmem with hold | ⟨-, hnew⟩
    · exact h.latest row hold u hbefore
    · exact absurd ((resolves_of_pending hnew).mp hbefore) (hopen u)
  · intro row hmem row' hmem' m hm hm'
    rcases Row.mem_write_of_nodup ht.distinct hmem with ⟨hold, -⟩ | rfl
    · rcases Row.mem_write_of_nodup ht.distinct hmem' with ⟨hold', -⟩ | rfl
      · exact h.carried row hold row' hold' m hm hm'
      · rw [Row.afterWrite_stamp] at hm'
        exact absurd (hm.trans hm'.symm) (h.stamp_ne_of_fresh hfresh hold)
    · rcases Row.mem_write_of_nodup ht.distinct hmem' with ⟨hold', -⟩ | rfl
      · rw [Row.afterWrite_stamp] at hm
        exact absurd (hm'.trans hm.symm) (h.stamp_ne_of_fresh hfresh hold')
      · rfl
  · intro m m' u hu hu'
    exact h.commits_inj m m' u (committedAt_pended.mp hu) (committedAt_pended.mp hu')

theorem length_waiting (ht : t.Accounted) (marker : Marker) : (t.waiting marker).length ≤ 1 := by
  have hd : (t.waiting marker).Nodup :=
    (List.Pairwise.of_map _ (fun _ _ hne heq => hne (congrArg _ heq)) ht.distinct).filter _
  have hsame : ∀ row ∈ t.waiting marker, ∀ row' ∈ t.waiting marker, row = row' := by
    intro row hmem row' hmem'
    obtain ⟨hmem, hm⟩ := List.mem_filter.mp hmem
    obtain ⟨hmem', hm'⟩ := List.mem_filter.mp hmem'
    exact h.carried row hmem row' hmem' marker (of_decide_eq_true hm) (of_decide_eq_true hm')
  match hw : t.waiting marker with
  | [] => exact Nat.zero_le 1
  | [_] => exact Nat.le_refl 1
  | a :: b :: rest =>
    rw [hw] at hd hsame
    have heq := hsame a List.mem_cons_self b (List.mem_cons_of_mem _ List.mem_cons_self)
    exact absurd (heq ▸ List.mem_cons_self) (List.nodup_cons.mp hd).1

/-- The version of a row after a commit is the latest of its resource: that of the commit, if the
row has waited for it, and otherwise the one before. -/
theorem latest_committed (ht : t.Accounted) (hnext : (v : Int) = t.last + 1)
    (hat : ∀ {m u}, (t.committed marker v p).CommittedAt m u ↔
      t.CommittedAt m u ∨ (marker = m ∧ v = u)) (hnot : ∀ u, ¬t.CommittedAt marker u)
    (hmem : row ∈ t.rows) (hu : (t.committed marker v p).Resolves row u) :
    (t.committed marker v p).Latest row.id u := by
  by_cases hm : row.stamp = .pending marker
  · obtain ⟨-, rfl⟩ := (hat.mp ((resolves_of_pending hm).mp hu)).resolve_left (hnot u)
    refine latest_of_next ht hnext rfl (fun _ => version_of_mem_waiting) ⟨_, List.mem_map_of_mem ?_, rfl⟩
    exact List.mem_filter.mpr ⟨hmem, decide_eq_true hm⟩
  · have hbefore : t.Resolves row u := by
      refine hu.imp_right fun ⟨m, hm', hmu⟩ => ⟨m, hm', (hat.mp hmu).resolve_right ?_⟩
      rintro ⟨rfl, -⟩
      exact hm hm'
    refine (h.latest row hmem u hbefore).append rfl fun x hx hid => hm ?_
    obtain ⟨row', hwaits, rfl⟩ := List.mem_map.mp hx
    obtain ⟨hmem', hm'⟩ := List.mem_filter.mp hwaits
    obtain rfl := Row.eq_of_id_eq ht.distinct hmem' hmem hid
    exact of_decide_eq_true hm'

/-- **A commit** dates the row that waits for its marker, if there is one. -/
theorem committed (ht : t.Accounted) {c : Commit} (hfound : t.commit? marker = some c)
    (hopen : c.version ≤ 0) (hnext : (v : Int) = t.last + 1) (hpos : 0 < v) :
    (t.committed marker v p).Consistent := by
  have hat : ∀ {m u}, (t.committed marker v p).CommittedAt m u ↔
      t.CommittedAt m u ∨ (marker = m ∧ v = u) := committedAt_committed hfound hopen hpos
  have hone : ((t.waiting marker).map fun row => (⟨row.id, v, p⟩ : Snapshot)).length ≤ 1 := by
    rw [List.length_map]
    exact h.length_waiting ht marker
  have hnot : ∀ u, ¬t.CommittedAt marker u := by
    rintro u ⟨d, hd, hu, hupos⟩
    obtain rfl := Option.some.inj (hfound.symm.trans hd)
    omega
  refine ⟨h.ascending_append ht hnext hone fun _ => version_of_mem_waiting,
    h.after_one_append ht hnext fun _ => version_of_mem_waiting,
    fun row hmem => ?_, fun row hmem u hu => h.latest_committed ht hnext hat hnot hmem hu,
    h.carried, fun m u hu => ?_, ?_⟩
  · refine (h.stamped row hmem).imp_right fun ⟨m, hm, hsome⟩ => ⟨m, hm, ?_⟩
    rw [commit?_committed, Option.isSome_map]
    exact hsome
  · have hlast : (t.committed marker v p).last = v := rfl
    rcases hat.mp hu with hu | ⟨-, rfl⟩
    · have hle := h.commits_le m u hu
      omega
    · exact Int.le_of_eq hlast.symm
  · intro m m' u hu hu'
    rcases hat.mp hu with hu | ⟨rfl, rfl⟩ <;> rcases hat.mp hu' with hu' | ⟨rfl, heq⟩
    · exact h.commits_inj m m' u hu hu'
    · have hle := h.commits_le m u hu
      omega
    · have hle := h.commits_le m' v hu'
      omega
    · rfl

/-- **An indexing** stamps a row with the version that it has already. -/
theorem indexed (hm : t.CommittedAt marker v) : (t.indexed marker v).Consistent := by
  have hresolves : ∀ {row u}, (t.indexed marker v).Resolves (row.restamp marker v) u →
      t.Resolves row u := by
    intro row u hu
    by_cases hrow : row.stamp = .pending marker
    · rw [Row.restamp_self marker v row hrow] at hu
      obtain rfl := (resolves_of_committed rfl).mp hu
      exact .inr ⟨marker, hrow, hm⟩
    · rw [Row.restamp_of_ne marker v row hrow] at hu
      exact hu
  have hkept : ∀ {row m}, (Row.restamp marker v row).stamp = .pending m →
      row.restamp marker v = row := by
    intro row m hrow
    by_cases hwaits : row.stamp = .pending marker
    · rw [Row.restamp_self marker v row hwaits] at hrow
      cases hrow
    · exact Row.restamp_of_ne marker v row hwaits
  refine ⟨h.ascending, h.after_one, fun row hmem => ?_, fun row hmem u hu => ?_, ?_,
    h.commits_le, h.commits_inj⟩
  · obtain ⟨old, hold, rfl⟩ := List.mem_map.mp hmem
    by_cases hrow : old.stamp = .pending marker
    · rw [Row.restamp_self marker v old hrow]
      exact .inl ⟨v, rfl, hm.pos⟩
    · rw [Row.restamp_of_ne marker v old hrow]
      exact h.stamped old hold
  · obtain ⟨old, hold, rfl⟩ := List.mem_map.mp hmem
    rw [(Row.keeps_restamp marker v).id]
    exact h.latest old hold u (hresolves hu)
  · intro row hmem row' hmem' m hm hm'
    obtain ⟨old, hold, rfl⟩ := List.mem_map.mp hmem
    obtain ⟨old', hold', rfl⟩ := List.mem_map.mp hmem'
    have heq := hkept hm
    have heq' := hkept hm'
    rw [heq] at hm ⊢
    rw [heq'] at hm' ⊢
    exact h.carried old hold old' hold' m hm hm'

end Consistent

theorem WrittenAll.consistent {rs : List Resource} {vs : List Nat}
    (h : t.WrittenAll p now rs vs t') (ht : t.Accounted) (hc : t.Consistent) :
    t'.Consistent := by
  induction h with
  | nil => exact hc
  | cons hnext _ _ ih => exact ih (ht.written hnext) (hc.written ht hnext)

end Tables

end Fieldbook
