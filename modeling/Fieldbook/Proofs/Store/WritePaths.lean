import Fieldbook.Proofs.Store.Connections

/-!
# Proofs/Store/WritePaths — ways of writing that come to the same

A batch is written as its members are when they are put one after another, whatever names it
repeats; and a pending write that is committed and indexed leaves what a put leaves
(`writePaths_agree`).  The clock is read at other moments on the way, and it shows in one place only:
the time at which a row was created (`Tables.AlikeButTimes`).
-/

namespace Fieldbook

/-! ## Rows under two clocks -/

namespace Row

variable {r : Resource} {stamp : Stamp} {p : Principal} {now : Int} {m : Marker} {v : Nat}

/-- A row without its time of creation. -/
def untimed (row : Row) : Row := { row with createdAt := 0 }

/-- **The clock of a write** shows in the time of creation alone. -/
theorem map_untimed_write : ∀ rows : List Row,
    (write r stamp p now rows).map untimed = write r stamp p 0 (rows.map untimed)
  | [] => rfl
  | row :: rows => by
    by_cases h : row.id = r.id
    · have h' : row.untimed.id = r.id := h
      rw [write, if_pos h, List.map_cons, List.map_cons, write, if_pos h']
      rfl
    · have h' : row.untimed.id ≠ r.id := h
      rw [write, if_neg h, List.map_cons, List.map_cons, write, if_neg h', map_untimed_write rows]

/-! ## A row that waits for a new marker -/

/-- Where no row has waited for a marker, the row written under it does alone. -/
theorem filter_pending_write : ∀ {rows : List Row}, (∀ row ∈ rows, row.stamp ≠ .pending m) →
    (write r (.pending m) p now rows).filter (·.stamp = .pending m) =
      [afterWrite r (.pending m) p now (rows.find? (·.id = r.id))]
  | [], _ => by simp [write, afterWrite, first]
  | row :: rows, h => by
    obtain ⟨hrow, hrows⟩ := List.forall_mem_cons.mp h
    have hnone : rows.filter (·.stamp = .pending m) = [] :=
      List.filter_eq_nil_iff.mpr fun row hmem => by simpa using hrows row hmem
    by_cases hid : row.id = r.id
    · have hnew : (row.overwrite r (.pending m)).stamp = .pending m := rfl
      simp [write, hid, hnew, hnone, afterWrite]
    · simp [write, hid, hrow, filter_pending_write hrows]

/-- **Given its version later,** the row stands as if it had been written at that version. -/
theorem map_restamp_write : ∀ {rows : List Row}, (∀ row ∈ rows, row.stamp ≠ .pending m) →
    (write r (.pending m) p now rows).map (restamp m v) = write r (.committed v) p now rows
  | [], _ => congrArg (fun row => [row]) (restamp_self m v (first r (.pending m) p now) rfl)
  | row :: rows, h => by
    obtain ⟨hrow, hrows⟩ := List.forall_mem_cons.mp h
    by_cases hid : row.id = r.id
    · have hkept : rows.map (restamp m v) = rows :=
        (List.map_congr_left fun row hmem => restamp_of_ne m v row (hrows row hmem)).trans
          (List.map_id' rows)
      have hnew : (row.overwrite r (.pending m)).restamp m v = row.overwrite r (.committed v) :=
        restamp_self m v (row.overwrite r (.pending m)) rfl
      rw [write, if_pos hid, write, if_pos hid, List.map_cons, hkept, hnew]
    · rw [write, if_neg hid, write, if_neg hid, List.map_cons, map_restamp_write hrows,
        restamp_of_ne m v row hrow]

end Row

/-! ## Tables under two clocks -/

namespace Tables

variable {t t' : Tables} {r : Resource} {v : Nat} {p : Principal} {now now' : Int}

/-- The same rows in the same order, the same counter and the same snapshots, whatever the clocks
have shown. -/
structure AlikeButTimes (t t' : Tables) : Prop where
  rows : t.rows.map Row.untimed = t'.rows.map Row.untimed
  counter : t.counter = t'.counter
  snapshots : t.snapshots = t'.snapshots

theorem AlikeButTimes.refl (t : Tables) : t.AlikeButTimes t := ⟨rfl, rfl, rfl⟩

theorem AlikeButTimes.last_eq (h : t.AlikeButTimes t') : t.last = t'.last :=
  congrArg (·.getD 1) h.counter

theorem AlikeButTimes.written (h : t.AlikeButTimes t') :
    (t.written r v p now).AlikeButTimes (t'.written r v p now') where
  rows := by
    change (Row.write r (.committed v) p now t.rows).map Row.untimed =
      (Row.write r (.committed v) p now' t'.rows).map Row.untimed
    rw [Row.map_untimed_write, Row.map_untimed_write, h.rows]
  counter := rfl
  snapshots := congrArg (· ++ [(⟨r.id, v, p⟩ : Snapshot)]) h.snapshots

end Tables

/-! ## Batches -/

namespace Store

variable {s : Store} {t t' : Tables} {r : Resource} {p : Principal} {now : Int} {m : Marker}

/-- Resources put one after another, each at a time of its own. -/
def puts (p : Principal) (writes : List (Int × Resource)) : List Operation :=
  writes.map fun w => .put p w.1 w.2

/-- Resources that are written in one go are put one after another at the same versions; where all
clocks show the same, they leave the same. -/
theorem puts_of_writtenAll : ∀ {writes : List (Int × Resource)} {s : Store} {t t' : Tables}
    {vs : List Nat}, s.Accounted → t.AlikeButTimes s.tables →
      t.WrittenAll p now (writes.map (·.2)) vs t' →
        (s.events (puts p writes)).map (·.outcome) = vs.map (fun v => .ok (.version v)) ∧
          t'.AlikeButTimes (s.after (puts p writes)).tables ∧
          (t = s.tables → (∀ w ∈ writes, w.1 = now) →
            { s with tables := t' } = s.after (puts p writes))
  | [], s, _, _, _, _, halike, .nil => ⟨rfl, halike, fun h _ => by rw [h]; rfl⟩
  | (time, r) :: writes, s, t, t', _, hs, halike, .cons (v := v) next _ rest => by
    obtain ⟨v', next', hput⟩ := perform_put hs p time r
    obtain rfl : v' = v := by
      have hlast := halike.last_eq
      omega
    have hs' : (s.perform (.put p time r)).2.Accounted := accounted_perform hs _
    rw [hput] at hs'
    obtain ⟨houtcomes, hlater, hsame⟩ := puts_of_writtenAll hs' halike.written rest
    have hafter : s.after (puts p ((time, r) :: writes)) =
        Store.after { s with tables := s.tables.written r v' p time } (puts p writes) :=
      congrArg (fun x => Store.after x.2 (puts p writes)) hput
    refine ⟨?_, hafter ▸ hlater, fun heq hnow => ?_⟩
    · change _ :: ((s.perform (.put p time r)).2.events (puts p writes)).map (·.outcome) = _
      rw [hput]
      exact congrArg (_ :: ·) houtcomes
    · obtain ⟨rfl, hnow⟩ := List.forall_mem_cons.mp hnow
      rw [hafter]
      exact hsame (by rw [heq]) hnow

/-! ## Pending writes -/

/-- A resource written under a marker, which is then committed and indexed. -/
def putInSteps (p : Principal) (now : Int) (m : Marker) (r : Resource) : List Operation :=
  [.putPending p now m r, .commit m, .index m]

/-- **A pending write, committed and indexed:** what each of the three operations answers, and what
they leave. -/
theorem putInSteps_outcomes (hs : s.Accounted) (hc : s.tables.Consistent)
    (hfresh : s.tables.commit? m = none) (p : Principal) (now : Int) (r : Resource) :
    ∃ v : Nat, (v : Int) = s.tables.last + 1 ∧
      (s.events (putInSteps p now m r)).map (·.outcome) =
        [.ok (.marker m), .ok (.version v), .ok (.count 1)] ∧
      (s.after (putInSteps p now m r)).tables =
        { s.tables.written r v p now with commits := s.tables.commits ++ [⟨m, v, p⟩] } := by
  have hnone : ∀ row ∈ s.tables.rows, row.stamp ≠ .pending m :=
    fun row hmem => hc.stamp_ne_of_fresh hfresh hmem
  let row : Row := Row.afterWrite r (.pending m) p now (s.tables.row? r.id)
  -- after the first step the marker is recorded and open, and one row waits for it
  let s₁ : Store := { s with tables := s.tables.pended r m p now }
  have hs₁ : s₁.Accounted := accounted_perform hs (.putPending p now m r)
  have hcommit? : s₁.tables.commit? m = some ⟨m, 0, p⟩ := by
    refine Tables.commit?_pended.trans ?_
    rw [hfresh, if_pos rfl]
    rfl
  have hwaits : s₁.tables.waiting m = [row] := Row.filter_pending_write hnone
  obtain ⟨v, hnext, hcommit⟩ := perform_commit_of_open hs₁ hcommit? (Int.le_refl 0)
  -- after the second it is committed, and the row waits still
  let s₂ : Store := ⟨s₁.tables.committed m v p, (m, v) :: s₁.known⟩
  have hs₂ : s₂.Accounted := (congrArg (fun x => x.2.Accounted) hcommit).mp (accounted_perform hs₁ _)
  have hat : s₂.tables.CommittedAt m v := hs₂.known m v List.lookup_cons_self
  obtain ⟨hcount, hindexed⟩ := perform_index hs₂ hat
  have hlength : (s₂.tables.waiting m).length = 1 := congrArg List.length hwaits
  refine ⟨v, hnext, ?_, ?_⟩
  · change [.ok (.marker m), (s₁.perform (.commit m)).1,
      ((s₁.perform (.commit m)).2.perform (.index m)).1] = _
    rw [hcommit, hcount, hlength]
  · change ((s₁.perform (.commit m)).2.perform (.index m)).2.tables = _
    rw [hcommit, hindexed]
    have hrows : (s₂.tables.indexed m v).rows = Row.write r (.committed v) p now s.tables.rows :=
      Row.map_restamp_write hnone
    have hsnapshots : s₂.tables.snapshots = s.tables.snapshots ++ [⟨r.id, v, p⟩] := by
      change s.tables.snapshots ++ (s₁.tables.waiting m).map _ = _
      rw [hwaits]
      exact congrArg (fun id => s.tables.snapshots ++ [(⟨id, v, p⟩ : Snapshot)])
        (Row.afterWrite_find?_id _)
    have hcommits : s₂.tables.commits = s.tables.commits ++ [⟨m, v, p⟩] := by
      change (s.tables.commits ++ [(⟨m, 0, p⟩ : Commit)]).map _ = _
      rw [List.map_append, List.map_singleton, if_pos rfl]
      refine congrArg (· ++ [(⟨m, v, p⟩ : Commit)])
        ((List.map_congr_left fun c hmem => if_neg ?_).trans (List.map_id' _))
      exact of_decide_eq_false (Bool.eq_false_iff.mpr (List.find?_eq_none.mp hfresh c hmem))
    exact Tables.mk.injEq .. |>.mpr ⟨hrows, rfl, hcommits, hsnapshots⟩

/-! ## Agreement -/

/-- **Ways of writing agree.**  In every state of a store a batch answers the versions at which its
members are put one after another, whatever names it repeats, and leaves the same but for times, the
very same if no clock moves on meanwhile.  A pending write under a new marker, committed and indexed,
answers the version of a put, and leaves the same but for times and for the commit. -/
theorem writePaths_agree (h : s.Reachable) :
    (∀ (p : Principal) (now : Int) (writes : List (Int × Resource)), ∃ vs,
      (s.perform (.putBatch p now (writes.map (·.2)))).1 = .ok (.versions vs) ∧
      (s.events (puts p writes)).map (·.outcome) = vs.map (fun v => .ok (.version v)) ∧
      (s.perform (.putBatch p now (writes.map (·.2)))).2.tables.AlikeButTimes
        (s.after (puts p writes)).tables ∧
      ((∀ w ∈ writes, w.1 = now) →
        (s.perform (.putBatch p now (writes.map (·.2)))).2 = s.after (puts p writes))) ∧
    ∀ (p : Principal) (m : Marker) (r : Resource) (now now' : Int), s.tables.commit? m = none →
      ∃ v, (s.events (putInSteps p now m r)).map (·.outcome) =
          [.ok (.marker m), .ok (.version v), .ok (.count 1)] ∧
        (s.perform (.put p now' r)).1 = .ok (.version v) ∧
        (s.after (putInSteps p now m r)).tables.AlikeButTimes (s.perform (.put p now' r)).2.tables ∧
        (now = now' → (s.after (putInSteps p now m r)).tables =
          { (s.perform (.put p now' r)).2.tables with
            commits := s.tables.commits ++ [⟨m, v, p⟩] }) := by
  obtain ⟨hs, hc⟩ := h.keeps
  refine ⟨fun p now writes => ?_, fun p m r now now' hfresh => ?_⟩
  · obtain ⟨vs, t, hbatch⟩ : ∃ vs t, Transaction.putBatch p now (writes.map (·.2)) s.tables =
        .ok (vs, t) := Transaction.putBatch_succeeds _ hs.tables
    obtain ⟨houtcomes, halike, hsame⟩ :=
      puts_of_writtenAll hs (.refl _) (Tables.writtenAll_of_putBatch hbatch)
    rw [perform_putBatch hbatch]
    exact ⟨vs, rfl, houtcomes, halike, hsame rfl⟩
  · obtain ⟨v, hnext, houtcomes, hleaves⟩ := putInSteps_outcomes hs hc hfresh p now r
    obtain ⟨v', hnext', hput⟩ := perform_put hs p now' r
    obtain rfl : v' = v := by omega
    have halike : (s.tables.written r v' p now).AlikeButTimes (s.tables.written r v' p now') :=
      .written (.refl _)
    rw [hleaves, hput]
    refine ⟨v', houtcomes, rfl, ⟨halike.rows, halike.counter, halike.snapshots⟩, ?_⟩
    rintro rfl
    rfl

/-- The busy note is written twice in one batch, with a folder that is new, and then under a marker,
while its row waits for another. -/
theorem writePaths_agree_busyNote :
    let note : Resource := .new ⟨"note"⟩ ⟨"home"⟩ ⟨"_folder"⟩ .empty
    let folder : Resource := .new ⟨"new"⟩ ⟨"home"⟩ ⟨"_folder"⟩ .empty
    busyNote.Reachable ∧ busyNote.tables.commit? ⟨"m4"⟩ = none ∧
      (busyNote.perform (.putBatch ⟨"dave"⟩ 9 [note, folder, note])).2 =
        busyNote.after (puts ⟨"dave"⟩ [(9, note), (9, folder), (9, note)]) ∧
      (busyNote.after (putInSteps ⟨"dave"⟩ 7 ⟨"m4"⟩ note)).tables.AlikeButTimes
        (busyNote.perform (.put ⟨"dave"⟩ 8 note)).2.tables := by
  intro note folder
  have hfresh : busyNote.tables.commit? ⟨"m4"⟩ = none := by decide +kernel
  obtain ⟨hbatch, hsteps⟩ := writePaths_agree reachable_busyNote
  obtain ⟨-, -, -, -, hsame⟩ := hbatch ⟨"dave"⟩ 9 [(9, note), (9, folder), (9, note)]
  obtain ⟨-, -, -, halike, -⟩ := hsteps ⟨"dave"⟩ ⟨"m4"⟩ note 7 8 hfresh
  exact ⟨reachable_busyNote, hfresh, hsame (by simp), halike⟩

end Store

end Fieldbook
