import Fieldbook.Proofs.Store.RowSteps

/-!
# Proofs/Store/Committing — commits and their indexing do not show

A commit changes nothing of what stands in rows.  It dates the row that waits for its marker, if
there still is one, and what has been written over a row in the meantime stays (`TouchesOnly`).  An
indexing copies into a row the version that it has already, so that no answer tells whether it has
been done (`AnswersAlike`), and once it is done there is no row for another one to find.
-/

namespace Fieldbook

/-! ## Stamps -/

namespace Row

variable {m : Marker} {v : Nat}

/-- A row without its stamp. -/
def unstamped (row : Row) : Row := { row with stamp := .committed 0 }

theorem unstamped_restamp (row : Row) : (row.restamp m v).unstamped = row.unstamped := by
  by_cases h : row.stamp = .pending m
  · rw [restamp_self m v row h]
    rfl
  · rw [restamp_of_ne m v row h]

end Row

namespace Entry

variable {m : Marker} {v : Nat}

/-- An entry without its stamp. -/
def unstamped (e : Entry) : Entry := { e with stamp := .committed 0 }

/-- The entry of a row that is given the version `v`, if it waits for `m`. -/
def restamp (m : Marker) (v : Nat) (e : Entry) : Entry :=
  if e.stamp = .pending m then { e with stamp := .committed v } else e

theorem restamp_self {e : Entry} (h : e.stamp = .pending m) :
    e.restamp m v = { e with stamp := .committed v } := if_pos h

theorem restamp_of_ne {e : Entry} (h : e.stamp ≠ .pending m) : e.restamp m v = e := if_neg h

theorem unstamped_restamp (e : Entry) : (e.restamp m v).unstamped = e.unstamped := by
  by_cases h : e.stamp = .pending m
  · rw [restamp_self h]
    rfl
  · rw [restamp_of_ne h]

/-- The stamp does not show in the resource. -/
theorem toResource_restamp (e : Entry) (u : Nat) :
    (e.restamp m v).toResource u = e.toResource u := by
  change (e.restamp m v).unstamped.toResource u = e.unstamped.toResource u
  rw [unstamped_restamp]

end Entry

namespace Row

variable {m : Marker} {v : Nat}

/-- **A row that is given a version** is read as before, at that version. -/
theorem read_restamp (hpos : 0 < v) (row : Row) :
    (row.restamp m v).read = row.read.map (Entry.restamp m v) := by
  by_cases h : row.stamp = .pending m
  · have hnot : ¬(v : Int) ≤ 0 := by omega
    have hdecoded : ({ row with stamp := .committed v } : Row).decoded =
        row.decoded.map (Entry.restamp m v) := by
      unfold decoded
      dsimp only
      cases row.content.record? with
      | none => rfl
      | some value =>
        cases Instant.ofMillis? row.createdAt with
        | none => rfl
        | some createdAt =>
          have hwaits : (row.entry value createdAt).stamp = .pending m := h
          exact congrArg Except.ok (Entry.restamp_self hwaits).symm
    rw [restamp_self m v row h, read_eq, read_eq, h, hdecoded]
    dsimp only
    rw [if_neg hnot]
    change (if row.isAltered = true then _ else _) = _
    split <;> rfl
  · rw [restamp_of_ne m v row h]
    cases hread : row.read with
    | error e => rfl
    | ok e =>
      rw [← stamp_of_read hread] at h
      exact congrArg Except.ok (Entry.restamp_of_ne h).symm

theorem mapM_read_restamp (hpos : 0 < v) : ∀ rows : List Row,
    (rows.map (restamp m v)).mapM read = (rows.mapM read).map (List.map (Entry.restamp m v))
  | [] => rfl
  | row :: rows => by
    rw [List.map_cons, List.mapM_cons, List.mapM_cons, mapM_read_restamp hpos rows,
      read_restamp hpos row]
    cases row.read with
    | error => rfl
    | ok e => cases rows.mapM read <;> rfl

end Row

/-! ## Rows that wait for a marker -/

namespace Store

variable {s s' : Store} {op : Operation} {receipt : Receipt} {m : Marker} {v : Nat}

/-- No row waits for the marker any more, and none will. -/
def Settled (m : Marker) (t : Tables) : Prop :=
  (∃ v, t.CommittedAt m v) ∧ ∀ row ∈ t.rows, row.stamp ≠ .pending m

/-- A row that waits for a marker after an operation waited for it before, or the marker is new. -/
theorem RowStep.waited {t : Tables} {id : ResourceId} {row : Row} {after : Option Row}
    (h : RowStep t id op after) (hafter : some row = after) (hwaits : row.stamp = .pending m) :
    t.row? id = some row ∨ ∃ p now r, op = .putPending p now m r := by
  cases h with
  | kept => exact .inl hafter.symm
  | put =>
    obtain rfl := Option.some.inj hafter
    cases (Row.afterWrite_stamp _).symm.trans hwaits
  | @pended p now m' r =>
    obtain rfl := Option.some.inj hafter
    cases (Row.afterWrite_stamp _).symm.trans hwaits
    exact .inr ⟨p, now, r, rfl⟩
  | deleted | indexed =>
    obtain rfl := Option.some.inj hafter
    cases hwaits

theorem settled_perform (hs : s.Accounted) (hfresh : op.IsFresh s.tables)
    (h : Settled m s.tables) : Settled m (s.perform op).2.tables := by
  obtain ⟨⟨v, hat⟩, hnone⟩ := h
  refine ⟨⟨v, committedAt_perform hat op⟩, fun row hmem hwaits => ?_⟩
  have hfound : (s.perform op).2.tables.row? row.id = some row :=
    Row.find?_of_mem (accounted_perform hs op).tables.distinct hmem
  have hbefore : s.tables.row? row.id ≠ some row := fun h =>
    hnone row (List.mem_of_find?_eq_some h) hwaits
  rcases rowStep_perform s op row.id with hsame | hstep
  · exact hbefore (hsame.symm.trans hfound)
  · rcases hstep.waited hfound.symm hwaits with h | ⟨p, now, r, rfl⟩
    · exact hbefore h
    · obtain ⟨c, hc, -⟩ := hat
      cases hc.symm.trans hfresh

/-- **What is indexed** needs no index again. -/
theorem settled_of_index (hs : s.Accounted) (hat : s.tables.CommittedAt m v) :
    Settled m (s.perform (.index m)).2.tables := by
  refine ⟨⟨v, committedAt_perform hat _⟩, ?_⟩
  rw [(perform_index hs hat).2]
  intro row hmem hwaits
  obtain ⟨old, -, rfl⟩ := List.mem_map.mp hmem
  by_cases h : old.stamp = .pending m
  · rw [Row.restamp_self m v old h] at hwaits
    cases hwaits
  · rw [Row.restamp_of_ne m v old h] at hwaits
    exact h hwaits

theorem perform_index_of_settled (hs : s.Accounted) (h : Settled m s.tables) :
    (s.perform (.index m)).1 = .ok (.count 0) := by
  obtain ⟨⟨v, hat⟩, hnone⟩ := h
  have hwaiting : s.tables.waiting m = [] :=
    List.filter_eq_nil_iff.mpr fun row hmem => by simpa using hnone row hmem
  rw [(perform_index hs hat).1, hwaiting]
  rfl

/-! ## Versions that resolve as before -/

/-- The versions of an entry rest on what the tables say of the marker that it waits for. -/
theorem resolves_congr (hs : s.Accounted) (hs' : s'.Accounted) {e : Entry}
    (h : ∀ m, e.stamp = .pending m → s'.tables.commit? m = s.tables.commit? m) :
    (s'.resolveVersion e).answer = (s.resolveVersion e).answer ∧
      (s'.committedVersion? e).answer = (s.committedVersion? e).answer := by
  unfold resolveVersion committedVersion?
  cases hstamp : e.stamp with
  | committed v => exact ⟨rfl, rfl⟩
  | pending m =>
    have heq := hs.commitVersion?_congr hs' (h m hstamp)
    unfold versionOf
    dsimp only
    rw [heq]
    exact ⟨rfl, rfl⟩

/-- What is changed when a marker is committed, or indexed. -/
structure TouchesOnly (m : Marker) (s s' : Store) : Prop where
  rows : s'.tables.rows.map Row.unstamped = s.tables.rows.map Row.unstamped
  others : ∀ id row, s.tables.row? id = some row → row.stamp ≠ .pending m →
    s'.tables.row? id = some row
  resolved : ∀ e : Entry, e.stamp ≠ .pending m →
    (s'.resolveVersion e).answer = (s.resolveVersion e).answer ∧
      (s'.committedVersion? e).answer = (s.committedVersion? e).answer

theorem touchesOnly_of_known (hs : s.Accounted) (hs' : s'.Accounted) (h : s'.tables = s.tables) :
    TouchesOnly m s s' where
  rows := by rw [h]
  others := fun id row hrow _ => by rw [h, hrow]
  resolved := fun e _ => resolves_congr hs hs' fun m _ => by rw [h]

/-- A commit says of other markers what was said before. -/
theorem commit?_committed_of_ne {t : Tables} {p : Principal} {m' : Marker} (hne : m' ≠ m) :
    (t.committed m v p).commit? m' = t.commit? m' := by
  rw [Tables.commit?_committed]
  cases hc : t.commit? m' with
  | none => rfl
  | some c =>
    have hmarker : c.marker ≠ m := fun h => hne ((Tables.commit?_marker hc).symm.trans h)
    rw [Option.map_some, if_neg hmarker]

/-- **A commit, or an indexing,** has no effect but on the version of the row that waits for its
marker. -/
theorem touchesOnly_perform (hs : s.Accounted) (hop : op = .commit m ∨ op = .index m) :
    TouchesOnly m s (s.perform op).2 := by
  have hs' : (s.perform op).2.Accounted := accounted_perform hs op
  rcases hrun : s.perform op with ⟨e | receipt, s'⟩ <;> rw [hrun] at hs'
  · exact touchesOnly_of_known hs hs' (tables_of_perform_error hrun)
  · have hdone := performed_of_perform hrun
    rcases hop with rfl | rfl
    · cases hdone with
      | commitAgain => exact touchesOnly_of_known hs hs' rfl
      | commit =>
        refine ⟨rfl, fun id row hrow _ => hrow, fun e hne => resolves_congr hs hs' fun m' hm' => ?_⟩
        exact commit?_committed_of_ne fun heq => hne (heq ▸ hm')
    · cases hdone with
      | @index m v =>
        have hedit := Row.keeps_restamp m v
        refine ⟨?_, fun id row hrow hne => ?_, fun e _ => resolves_congr hs hs' fun m' _ => rfl⟩
        · change (s.tables.rows.map (Row.restamp m v)).map Row.unstamped = _
          rw [List.map_map]
          exact List.map_congr_left fun row _ => Row.unstamped_restamp row
        · rw [Tables.row?_of_edit (t := s.tables) rfl hedit, hrow, Option.map_some,
            Row.restamp_of_ne m v row hne]

/-! ## Answers -/

/-- What an entry tells, with its version in the place of its stamp. -/
def told (s : Store) (e : Entry) : Entry × Except StoreError Nat × Except StoreError (Option Nat) :=
  (e.unstamped, (s.resolveVersion e).answer, (s.committedVersion? e).answer)

/-- Two stores that give the same answers. -/
structure AnswersAlike (s s' : Store) : Prop where
  resource : ∀ id, (s'.resource? id).answer = (s.resource? id).answer
  snapshots : ∀ id, s'.snapshots id = s.snapshots id
  current : s'.tables.currentVersion = s.tables.currentVersion
  children : ∀ id, (s'.children id).map (·.map s'.told) = (s.children id).map (·.map s.told)
  instances : ∀ id, (s'.instances id).map (·.map s'.told) = (s.instances id).map (·.map s.told)

section Indexed

variable (hs : s.Accounted) (hs' : s'.Accounted) (hat : s.tables.CommittedAt m v)
  (htables : s'.tables = s.tables.indexed m v)

include hs hs' hat htables

/-- **An entry that is given the version of its marker** tells what it told before. -/
theorem told_restamp (e : Entry) : s'.told (e.restamp m v) = s.told e := by
  have hcommit : ∀ m, s'.tables.commit? m = s.tables.commit? m := fun m => by rw [htables]; rfl
  obtain ⟨hresolve, hcommitted⟩ := resolves_congr (e := e) hs hs' fun m _ => hcommit m
  unfold told
  rw [Entry.unstamped_restamp]
  by_cases h : e.stamp = .pending m
  · have hv : s.commitVersion? m = .ok (some v) := hs.commitVersion?_eq_some.mpr hat
    have hversion : (s.versionOf m).answer = .ok v := versionOf_ok.mpr hv
    rw [Entry.restamp_self h]
    unfold resolveVersion committedVersion?
    rw [h]
    dsimp only
    rw [hversion, hv]
    rfl
  · rw [Entry.restamp_of_ne h, hresolve, hcommitted]

theorem mapM_read_told {p : Row → Bool} (hp : ∀ row : Row, p (row.restamp m v) = p row) :
    ((s'.tables.rows.filter p).mapM Row.read).map (·.map s'.told) =
      ((s.tables.rows.filter p).mapM Row.read).map (·.map s.told) := by
  have hfilter : s'.tables.rows.filter p = (s.tables.rows.filter p).map (Row.restamp m v) := by
    rw [htables]
    change (s.tables.rows.map (Row.restamp m v)).filter p = _
    rw [List.filter_map]
    exact congrArg _ (List.filter_congr fun row _ => hp row)
  rw [hfilter, Row.mapM_read_restamp hat.pos]
  cases (s.tables.rows.filter p).mapM Row.read with
  | error => rfl
  | ok es =>
    refine congrArg Except.ok ?_
    dsimp only
    rw [List.map_map]
    exact List.map_congr_left fun e _ => told_restamp hs hs' hat htables e

theorem answer_resource?_indexed (id : ResourceId) :
    (s'.resource? id).answer = (s.resource? id).answer := by
  have hrow : s'.tables.row? id = (s.tables.row? id).map (Row.restamp m v) :=
    Tables.row?_of_edit (by rw [htables]; rfl) (Row.keeps_restamp m v) id
  unfold resource? get?
  rw [hrow]
  cases s.tables.row? id with
  | none => rfl
  | some row =>
    dsimp only [Option.map_some]
    rw [Row.read_restamp hat.pos]
    cases row.read with
    | error => rfl
    | ok e =>
      have hresolve : (s'.resolveVersion (e.restamp m v)).answer = (s.resolveVersion e).answer :=
        congrArg (fun x => x.2.1) (told_restamp hs hs' hat htables e)
      dsimp only [Except.map]
      simp only [Reading.answer_bind, Reading.answer_ofExcept]
      dsimp only [Except.bind]
      simp only [Reading.answer_bind, hresolve, Entry.toResource_restamp]

theorem answersAlike_indexed : AnswersAlike s s' where
  resource := answer_resource?_indexed hs hs' hat htables
  snapshots := fun id => by
    unfold snapshots
    rw [htables]
    rfl
  current := by
    rw [htables]
    rfl
  children := fun id => mapM_read_told hs hs' hat htables fun row => by
    rw [(Row.keeps_restamp m v).owner]
  instances := fun id => mapM_read_told hs hs' hat htables fun row => by
    rw [(Row.keeps_restamp m v).classId]

end Indexed

/-! ## Commits -/

/-- **Commits bring back nothing, and indexing does not show.**  In a store that has been reached,
to commit a marker or to index it leaves all rows as they are but for the version of the row that
still waits for the marker.  Once a marker is committed, its indexing changes no answer, and whatever
is done afterwards, another one finds no row. -/
theorem commits_alike (h : s.Reachable) (m : Marker) :
    TouchesOnly m s (s.perform (.commit m)).2 ∧ TouchesOnly m s (s.perform (.index m)).2 ∧
      ∀ v, s.tables.CommittedAt m v → AnswersAlike s (s.perform (.index m)).2 ∧
        ∀ s', (s.perform (.index m)).2.Later s' → (s'.perform (.index m)).1 = .ok (.count 0) := by
  obtain ⟨hs, -⟩ := h.keeps
  refine ⟨touchesOnly_perform hs (.inl rfl), touchesOnly_perform hs (.inr rfl),
    fun v hat => ⟨?_, ?_⟩⟩
  · exact answersAlike_indexed hs (accounted_perform hs _) hat (perform_index hs hat).2
  · intro s' hlater
    have hindexed : (s.perform (.index m)).2.Reachable := .write h trivial
    have hsettled : Settled m s'.tables :=
      hlater.keeps (Settled m) hindexed (fun ho hfresh => settled_perform ho.keeps.1 hfresh)
        (settled_of_index hs hat)
    exact perform_index_of_settled (hlater.reachable hindexed).keeps.1 hsettled

/-- The busy note is committed at version 6 and waits for its index.  It is indexed, written over by
a stranger under a new marker and deleted, and the first marker is indexed again. -/
theorem commits_alike_busyNote :
    let note : Resource := .new ⟨"note"⟩ ⟨"home"⟩ ⟨"_folder"⟩ .empty
    let indexed := (busyNote.perform (.index ⟨"m3"⟩)).2
    let later := indexed.after [.putPending ⟨"dave"⟩ 5 ⟨"m4"⟩ note, .delete ⟨"dave"⟩ ⟨"note"⟩]
    busyNote.Reachable ∧ busyNote.tables.CommittedAt ⟨"m3"⟩ 6 ∧
      (busyNote.perform (.index ⟨"m3"⟩)).1 = .ok (.count 1) ∧
      (indexed.resource? ⟨"note"⟩).answer = .ok (some { note with version := 6 }) ∧
      (later.perform (.index ⟨"m3"⟩)).1 = .ok (.count 0) := by
  intro note indexed later
  have hat : busyNote.tables.CommittedAt ⟨"m3"⟩ 6 :=
    ⟨⟨⟨"m3"⟩, 6, ⟨"carol"⟩⟩, by decide +kernel, rfl, by decide⟩
  obtain ⟨-, -, hcommitted⟩ := commits_alike reachable_busyNote ⟨"m3"⟩
  obtain ⟨halike, hagain⟩ := hcommitted 6 hat
  have hlater : indexed.Later later := .write (.write .refl (by decide +kernel)) trivial
  refine ⟨reachable_busyNote, hat, rfl, ?_, hagain later hlater⟩
  exact (halike.resource ⟨"note"⟩).trans rfl

end Store

end Fieldbook
