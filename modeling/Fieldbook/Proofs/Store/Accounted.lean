import Fieldbook.Proofs.Store.Operations

/-!
# Proofs/Store/Accounted — the counter is ahead of everything stored

`Store.Accounted` is what every store keeps that was empty once: the counter has passed every
snapshot, names of rows are distinct, and a connection knows of a marker only what the tables say.
Every operation that succeeds keeps it (`Performed.accounted`), and only a commit adds to what is
committed (`Performed.committedAt_iff`).
-/

namespace Fieldbook

namespace Tables

variable {t : Tables} {m marker : Marker} {v w : Nat} {p : Principal} {now : Int} {r : Resource}

/-! ## Commits -/

theorem CommittedAt.unique (hv : t.CommittedAt m v) (hw : t.CommittedAt m w) : v = w := by
  obtain ⟨c, hc, hcv, -⟩ := hv
  obtain ⟨d, hd, hdw, -⟩ := hw
  obtain rfl := Option.some.inj (hc.symm.trans hd)
  exact_mod_cast hcv.symm.trans hdw

theorem CommittedAt.pos (h : t.CommittedAt m v) : 0 < v := by
  obtain ⟨-, -, -, hpos⟩ := h
  exact hpos

theorem commit?_marker {c : Commit} (h : t.commit? m = some c) : c.marker = m := by
  simpa using List.find?_some h

theorem commit?_pended : (t.pended r marker p now).commit? m =
    (t.commit? m).or (if marker = m then some ⟨marker, 0, p⟩ else none) := by
  unfold commit? pended
  rw [List.find?_append, List.find?_singleton]
  simp

theorem commit?_committed : (t.committed marker v p).commit? m =
    (t.commit? m).map fun c => if c.marker = marker then { c with version := v } else c := by
  rw [commit?, committed, List.find?_map]
  refine congrArg (fun q => (t.commits.find? q).map _) (funext fun c => ?_)
  by_cases h : c.marker = marker <;> simp [h]

/-- A pending write commits nothing. -/
theorem committedAt_pended : (t.pended r marker p now).CommittedAt m v ↔ t.CommittedAt m v := by
  unfold CommittedAt
  rw [commit?_pended]
  cases t.commit? m with
  | some c => simp
  | none =>
    by_cases h : marker = m
    · simp only [Option.none_or, if_pos h, Option.some.injEq]
      refine ⟨?_, fun ⟨_, h, _⟩ => nomatch h⟩
      rintro ⟨c, rfl, hv, hpos⟩
      dsimp only at hv
      omega
    · simp [h]

/-- A commit of an open marker adds its version and keeps all others. -/
theorem committedAt_committed {c : Commit} (hc : t.commit? marker = some c) (hle : c.version ≤ 0)
    (hpos : 0 < w) :
    (t.committed marker w p).CommittedAt m v ↔ t.CommittedAt m v ∨ (marker = m ∧ w = v) := by
  unfold CommittedAt
  rw [commit?_committed]
  by_cases h : marker = m
  · subst h
    simp only [hc, Option.map_some, Option.some.injEq, commit?_marker hc, if_pos]
    constructor
    · rintro ⟨d, rfl, hv, -⟩
      exact .inr ⟨trivial, Int.ofNat_inj.mp hv⟩
    · rintro (⟨d, rfl, hv, hpos⟩ | ⟨-, rfl⟩)
      · omega
      · exact ⟨_, rfl, rfl, hpos⟩
  · cases hm : t.commit? m with
    | none => simp [h]
    | some d =>
      have hne : d.marker ≠ marker := fun e => h (e.symm.trans (commit?_marker hm))
      simp [h, hne]

/-! ## What tables keep -/

/-- The counter has passed every snapshot, and names of rows are distinct. -/
structure Accounted (t : Tables) : Prop where
  last_pos : 0 < t.last
  distinct : (t.rows.map (·.id)).Nodup
  snapshots_le : ∀ x ∈ t.snapshots, (x.version : Int) ≤ t.last

theorem accounted_empty : Tables.empty.Accounted where
  last_pos := by decide
  distinct := .nil
  snapshots_le := fun _ h => nomatch h

namespace Accounted

variable (ht : t.Accounted)

include ht

/-- A new version with its snapshots keeps the counter ahead. -/
theorem next {t' : Tables} (hnext : (v : Int) = t.last + 1) (hlast : t'.last = v)
    (hrows : (t'.rows.map (·.id)).Nodup)
    (hsnap : ∀ x ∈ t'.snapshots, x ∈ t.snapshots ∨ x.version = v) : t'.Accounted where
  last_pos := by have := ht.last_pos; omega
  distinct := hrows
  snapshots_le := by
    intro x hx
    rcases hsnap x hx with hx | hx
    · have := ht.snapshots_le x hx; omega
    · omega

theorem counted (hnext : (v : Int) = t.last + 1) :
    ({ t with counter := some (v : Int) } : Tables).Accounted :=
  ht.next hnext rfl ht.distinct fun _ hx => .inl hx

theorem written (hnext : (v : Int) = t.last + 1) : (t.written r v p now).Accounted := by
  refine ht.next hnext rfl (Row.nodup_write ht.distinct) fun x hx => ?_
  rcases List.mem_append.mp hx with hx | hx
  · exact .inl hx
  · exact .inr (by rw [List.mem_singleton.mp hx])

theorem marked {id : ResourceId} (hnext : (v : Int) = t.last + 1) :
    (t.marked id v p).Accounted := by
  refine ht.next hnext rfl ?_ fun x hx => ?_
  · rw [Tables.marked, (Row.keeps_mark id v).map_id_map]
    exact ht.distinct
  · rcases List.mem_append.mp hx with hx | hx
    · exact .inl hx
    · exact .inr (by rw [List.mem_singleton.mp hx])

theorem committed (hnext : (v : Int) = t.last + 1) : (t.committed marker v p).Accounted := by
  refine ht.next hnext rfl ht.distinct fun x hx => ?_
  rcases List.mem_append.mp hx with hx | hx
  · exact .inl hx
  · obtain ⟨row, -, rfl⟩ := List.mem_map.mp hx
    exact .inr rfl

theorem pended : (t.pended r marker p now).Accounted where
  last_pos := ht.last_pos
  distinct := Row.nodup_write ht.distinct
  snapshots_le := ht.snapshots_le

theorem indexed : (t.indexed marker v).Accounted where
  last_pos := ht.last_pos
  distinct := by
    rw [Tables.indexed, (Row.keeps_restamp marker v).map_id_map]
    exact ht.distinct
  snapshots_le := ht.snapshots_le

end Accounted

theorem WrittenAll.accounted {rs : List Resource} {vs : List Nat} {t t' : Tables}
    (h : t.WrittenAll p now rs vs t') (ht : t.Accounted) : t'.Accounted := by
  induction h with
  | nil => exact ht
  | cons hnext _ _ ih => exact ih (ht.written hnext)

theorem WrittenAll.commits_eq {rs : List Resource} {vs : List Nat} {t t' : Tables}
    (h : t.WrittenAll p now rs vs t') : t'.commits = t.commits := by
  induction h with
  | nil => rfl
  | cons _ _ _ ih => exact ih

/-- What is known of markers rests on the commits alone. -/
theorem committedAt_congr {t t' : Tables} (h : t'.commits = t.commits) :
    t'.CommittedAt m v ↔ t.CommittedAt m v := by
  unfold CommittedAt commit?
  rw [h]

end Tables

/-! ## What a connection keeps -/

namespace Store

variable {s s' : Store} {op : Operation} {receipt : Receipt} {m : Marker} {v : Nat}

/-- The tables are accounted for, and what the connection knows of markers they say too. -/
structure Accounted (s : Store) : Prop where
  tables : s.tables.Accounted
  known : ∀ m v, s.known.lookup m = some v → s.tables.CommittedAt m v

theorem accounted_empty : Store.empty.Accounted where
  tables := Tables.accounted_empty
  known := fun _ _ h => nomatch h

/-- **A connection answers for a marker as the tables do.** -/
theorem Accounted.commitVersion?_eq_some (hs : s.Accounted) :
    s.commitVersion? m = .ok (some v) ↔ s.tables.CommittedAt m v := by
  rw [commitVersion?]
  cases hm : s.known.lookup m with
  | some w =>
    have hw := hs.known m w hm
    simp only [Except.ok.injEq, Option.some.injEq]
    exact ⟨fun h => h ▸ hw, fun h => hw.unique h⟩
  | none =>
    rw [Tables.CommittedAt]
    cases s.tables.commit? m with
    | none => simp
    | some c =>
      dsimp only
      split
      · next hpos =>
        simp only [Except.ok.injEq, Option.some.injEq, exists_eq_left']
        omega
      · split <;> simp <;> omega

theorem Accounted.learn (hs : s.Accounted) (m : Marker) : (s.learn m).Accounted := by
  rw [Store.learn]
  split
  · next w hm hw =>
    refine ⟨hs.tables, fun m' v' h => ?_⟩
    rw [List.lookup_cons] at h
    split at h
    · next heq =>
      obtain rfl := beq_iff_eq.mp heq
      exact Option.some.inj h ▸ hs.commitVersion?_eq_some.mp hw
    · exact hs.known m' v' h
  · exact hs

theorem Accounted.learnAll (hs : s.Accounted) (lookups : List Lookup) :
    (s.learnAll lookups).Accounted := by
  rw [Store.learnAll]
  induction lookups generalizing s with
  | nil => exact hs
  | cons l rest ih =>
    cases l with
    | commit m => exact ih (hs.learn m)
    | form id => exact ih hs

/-- The same knowledge of tables that keep all commits. -/
theorem Accounted.of_tables (hs : s.Accounted) {t : Tables} (ht : t.Accounted)
    (hkeep : ∀ m v, s.tables.CommittedAt m v → t.CommittedAt m v) :
    ({ s with tables := t } : Store).Accounted :=
  ⟨ht, fun m v h => hkeep m v (hs.known m v h)⟩

/-- **Only a commit commits, and what is committed stays so.** -/
theorem Performed.committedAt_iff (h : Performed s op receipt s') :
    s'.tables.CommittedAt m v ↔
      s.tables.CommittedAt m v ∨ (op = .commit m ∧ receipt = .version v) := by
  cases h with
  | increment | put | delete | index =>
    refine (Tables.committedAt_congr (t := s.tables) rfl).trans ?_
    simp
  | putBatch all =>
    refine (Tables.committedAt_congr all.commits_eq).trans ?_
    simp
  | putPending =>
    rw [Tables.committedAt_pended]
    simp
  | commitAgain before =>
    refine ⟨.inl, ?_⟩
    rintro (h | ⟨hop, hr⟩)
    · exact h
    · cases hop
      cases hr
      exact before
  | commit found le next pos =>
    rw [Tables.committedAt_committed found le pos]
    simp

/-- **An operation keeps a store accounted for.** -/
theorem Performed.accounted (h : Performed s op receipt s') (hs : s.Accounted) : s'.Accounted := by
  have hkeep : ∀ m v, s.tables.CommittedAt m v → s'.tables.CommittedAt m v :=
    fun m v hm => h.committedAt_iff.mpr (.inl hm)
  cases h with
  | increment next pos => exact hs.of_tables (hs.tables.counted next) hkeep
  | put next pos => exact hs.of_tables (hs.tables.written next) hkeep
  | putBatch all => exact hs.of_tables (all.accounted hs.tables) hkeep
  | delete next pos found => exact hs.of_tables (hs.tables.marked next) hkeep
  | putPending => exact hs.of_tables hs.tables.pended hkeep
  | commitAgain before => exact hs
  | @commit m v c found le next pos =>
    refine ⟨hs.tables.committed next, fun m' v' h => ?_⟩
    rw [List.lookup_cons] at h
    split at h
    · next heq =>
      obtain rfl := beq_iff_eq.mp heq
      obtain rfl := Option.some.inj h
      exact (Tables.committedAt_committed found le pos).mpr (.inr ⟨rfl, rfl⟩)
    · exact hkeep m' v' (hs.known m' v' h)
  | @index m v known =>
    refine (hs.learnAll [.commit m]).of_tables hs.tables.indexed fun m' v' hm => ?_
    rw [learnAll_tables] at hm
    exact hkeep m' v' hm

end Store

end Fieldbook
