import Fieldbook.Proofs.Ownership.Breaks
import Fieldbook.Proofs.Ownership.Marks

/-!
# Proofs/Ownership/Inherited — deletion is exact and inherited

Whether a resource is deleted is found out by following its owners, and what they lead to first
decides it (`isDeleted_exact`): a mark of deletion, the root, or a place where they break off.  The
tables may name any owners, those that lead in a circle or nowhere included.

What is deleted is so for all that stands beneath it: a mark that is met from an owner is met from
what it owns, if there is no earlier one (`MarkWalk.of_path`).
-/

namespace Fieldbook

namespace Tables

variable {t : Tables} {goes : ResourceId → Prop} {id y : ResourceId} {path met : List ResourceId}
  {b : Bool}

/-- A name below the root whose row is marked as deleted. -/
def Marked (t : Tables) (id : ResourceId) : Prop :=
  id ≠ .root ∧ ∃ row entry, t.row? id = some row ∧ row.read = .ok entry ∧ row.deleted = true

/-- The walk to the first mark follows owners without one. -/
theorem MarkWalk.exists_path (h : t.MarkWalk id met b) :
    ∃ path y, t.Path t.Unmarked id path y ∧ (b = true → t.Marked y) ∧ (b = false → y = .root) := by
  induction h with
  | root => exact ⟨[], .root, .here _, nofun, fun _ => rfl⟩
  | @marked id row entry below found read deleted =>
    exact ⟨[], id, .here _, fun _ => ⟨below, row, entry, found, read, deleted⟩, nofun⟩
  | @up id row entry met b below found read live _ ih =>
    obtain ⟨path, y, hpath, hend⟩ := ih
    have on : t.Unmarked id := (unmarked_iff found read).mpr ((Row.deleted_of_read read).trans live)
    exact ⟨id :: path, y, .up below on found read hpath, hend⟩

/-- A walk is taken from further below, where no mark stands on the way. -/
theorem MarkWalk.of_unmarked (h : t.Path t.Unmarked id path y) :
    (∃ met, t.MarkWalk y met b) → ∃ met, t.MarkWalk id met b := by
  refine h.down (P := fun x => ∃ met, t.MarkWalk x met b) ?_
  rintro id row entry below on found read ⟨met, hup⟩
  have live := (Row.deleted_of_read read).symm.trans ((unmarked_iff found read).mp on)
  exact ⟨_, .up below found read live hup⟩

/-- **A mark that is met from an owner** is met from below, or another one before it. -/
theorem MarkWalk.of_path (h : t.Path goes id path y) :
    (∃ met, t.MarkWalk y met true) → ∃ met, t.MarkWalk id met true := by
  refine h.down (P := fun x => ∃ met, t.MarkWalk x met true) ?_
  intro id row entry below _ found read hup
  cases hmark : row.deleted with
  | true => exact ⟨_, .marked below found read hmark⟩
  | false =>
    obtain ⟨met, hup⟩ := hup
    exact ⟨_, .up below found read hmark hup⟩

/-- Owners without a mark lead from a name to another, past nothing twice, and so in no more steps
than there are rows. -/
def LeadsUnmarked (t : Tables) (id y : ResourceId) : Prop :=
  ∃ path, t.Path t.Unmarked id path y ∧ (y :: path).Nodup ∧ path.length ≤ t.rows.length

theorem leadsUnmarked_iff : t.LeadsUnmarked id y ↔ ∃ path, t.Path t.Unmarked id path y := by
  constructor
  · rintro ⟨path, hpath, -⟩
    exact ⟨path, hpath⟩
  · rintro ⟨_, hpath⟩
    obtain ⟨path, hpath, hnodup⟩ := hpath.exists_nodup
    exact ⟨path, hpath, hnodup, hpath.length_le (List.nodup_cons.mp hnodup).2⟩

end Tables

namespace Store

open Tables (MarkWalk)

variable {s : Store} {id y : ResourceId} {path : List ResourceId}

/-- A resource is deleted where its owners lead to a mark. -/
theorem isDeleted_true_iff : s.isDeleted id = .ok true ↔
    ∃ y, s.tables.LeadsUnmarked id y ∧ s.tables.Marked y := by
  simp only [isDeleted_ok_iff, Tables.leadsUnmarked_iff]
  constructor
  · rintro ⟨met, hwalk⟩
    obtain ⟨path, y, hpath, hmark, -⟩ := hwalk.exists_path
    exact ⟨y, ⟨path, hpath⟩, hmark rfl⟩
  · rintro ⟨y, ⟨path, hpath⟩, below, row, entry, found, read, deleted⟩
    exact MarkWalk.of_unmarked hpath ⟨_, .marked below found read deleted⟩

/-- A resource is live where its owners lead to the root. -/
theorem isDeleted_false_iff_leads : s.isDeleted id = .ok false ↔ s.tables.LeadsUnmarked id .root := by
  rw [isDeleted_ok_iff, Tables.leadsUnmarked_iff]
  constructor
  · rintro ⟨met, hwalk⟩
    obtain ⟨path, y, hpath, -, hroot⟩ := hwalk.exists_path
    exact ⟨path, hroot rfl ▸ hpath⟩
  · rintro ⟨path, hpath⟩
    exact MarkWalk.of_unmarked hpath ⟨[], .root⟩

/-- Where a resource is there and it cannot be told, owners contradict each other, or the walk comes
to a row that cannot be read. -/
theorem isDeleted_error_of_row {e : WorkspaceError} (h : s.isDeleted id = .error e)
    (hid : (s.tables.row? id).isSome) :
    (∃ cause, e = .consistency cause) ∨
      ∃ y e', s.tables.Breaks s.tables.Unmarked id (.unreadable y e') ∧ e = .store e' := by
  obtain ⟨b, hb, rfl⟩ := isDeleted_error_iff.mp h
  cases b with
  | again y => exact .inl ⟨.ownershipCycle y, rfl⟩
  | lost y =>
    obtain ⟨-, -, missing⟩ := hb.of_lost
    have hne : y ≠ id := by
      rintro rfl
      rw [missing] at hid
      cases hid
    exact .inl ⟨.missingOwner y id, by rw [Break.error, OwnerChain.missingError, if_neg hne]⟩
  | unreadable y e' => exact .inr ⟨y, e', hb, rfl⟩

/-- **Deletion is exact and inherited.**  In any tables and of any resource but the root it is told
that it is deleted exactly if following its owners comes to a mark before the root, a name without
a row or a name that was passed; that it is live exactly if they lead to the root past no mark;
and that it is not found exactly if it has no row.  Otherwise owners contradict each other, where the
rows on the way can be read at all.  What is deleted is so with all that stands beneath it. -/
theorem isDeleted_exact (below : id ≠ .root) :
    (s.isDeleted id = .ok true ↔ ∃ y, s.tables.LeadsUnmarked id y ∧ s.tables.Marked y) ∧
    (s.isDeleted id = .ok false ↔ s.tables.LeadsUnmarked id .root) ∧
    (∀ y, s.isDeleted id = .error (.notFound y) ↔ y = id ∧ s.tables.row? id = none) ∧
    (∀ e, s.isDeleted id = .error e → (s.tables.row? id).isSome → (∃ cause, e = .consistency cause) ∨
      ∃ y e', s.tables.Breaks s.tables.Unmarked id (.unreadable y e') ∧ e = .store e') ∧
    (∀ path y, s.tables.Path (fun _ => True) id path y → s.isDeleted y = .ok true →
      s.isDeleted id = .ok true) := by
  refine ⟨isDeleted_true_iff, isDeleted_false_iff_leads, fun y => ?_,
    fun e => isDeleted_error_of_row, fun path y hpath hy => ?_⟩
  · rw [isDeleted_notFound_iff]
    exact and_congr_right fun _ => and_iff_right below
  · exact isDeleted_ok_iff.mpr (MarkWalk.of_path hpath (isDeleted_ok_iff.mp hy))

end Store

/-- A row with any owner that may be marked as deleted, at the second version. -/
def Row.bare (id owner classId : ResourceId) (deleted : Bool) (value : Record) : Row where
  id := id
  owner := owner
  classId := classId
  stamp := .committed 2
  deleted := deleted
  content := .encoded value
  replaced := none
  createdBy := ⟨"alice"⟩
  createdAt := 0

theorem Row.exists_read_bare (id owner classId : ResourceId) (deleted : Bool) {value : Record}
    (hshallow : value.Shallow) :
    ∃ entry, (Row.bare id owner classId deleted value).read = .ok entry ∧ entry.value = value := by
  have hclock : (Instant.ofMillis? 0).isSome := by decide
  obtain ⟨time, htime⟩ := Option.isSome_iff_exists.mp hclock
  have hvalue := Content.record?_of_shallow hshallow
  refine ⟨_, read_ok_iff.mpr ⟨rfl, ?_, value, time, hvalue, htime, rfl⟩, rfl⟩
  rintro v ⟨⟩
  decide

theorem Record.shallow_empty : Record.empty.Shallow := by decide

namespace Store

/-- Three folders that own each other, one of them deleted, and a note in the first. -/
def circle : Store where
  tables :=
    { rows := [.bare ⟨"a"⟩ ⟨"b"⟩ ⟨"_folder"⟩ false .empty, .bare ⟨"b"⟩ ⟨"c"⟩ ⟨"_folder"⟩ true .empty,
        .bare ⟨"c"⟩ ⟨"a"⟩ ⟨"_folder"⟩ false .empty, .bare ⟨"note"⟩ ⟨"a"⟩ ⟨"text"⟩ false .empty]
      counter := some 2
      commits := []
      snapshots := [] }
  known := []

theorem isDeleted_exact_circle : (⟨"note"⟩ : ResourceId) ≠ .root ∧ (⟨"a"⟩ : ResourceId) ≠ .root ∧
    circle.tables.Path (fun _ => True) ⟨"note"⟩ [⟨"note"⟩] ⟨"a"⟩ ∧
    circle.isDeleted ⟨"a"⟩ = .ok true ∧ circle.isDeleted ⟨"note"⟩ = .ok true ∧
    ∃ y, circle.tables.LeadsUnmarked ⟨"note"⟩ y ∧ circle.tables.Marked y := by
  have hnote : (⟨"note"⟩ : ResourceId) ≠ .root := by decide
  have ha : (⟨"a"⟩ : ResourceId) ≠ .root := by decide
  have hempty := Record.shallow_empty
  obtain ⟨entry, read, -⟩ := Row.exists_read_bare ⟨"note"⟩ ⟨"a"⟩ ⟨"text"⟩ false hempty
  obtain ⟨entryA, readA, -⟩ := Row.exists_read_bare ⟨"a"⟩ ⟨"b"⟩ ⟨"_folder"⟩ false hempty
  obtain ⟨entryB, readB, -⟩ := Row.exists_read_bare ⟨"b"⟩ ⟨"c"⟩ ⟨"_folder"⟩ true hempty
  have hpath : circle.tables.Path (fun _ => True) ⟨"note"⟩ [⟨"note"⟩] ⟨"a"⟩ :=
    .up hnote trivial rfl read (.here _)
  have hmark : circle.tables.Marked ⟨"b"⟩ := ⟨by decide, _, entryB, rfl, readB, rfl⟩
  have hlead : circle.tables.Path circle.tables.Unmarked ⟨"a"⟩ [⟨"a"⟩] ⟨"b"⟩ :=
    .up ha ((Tables.unmarked_iff rfl readA).mpr (Row.deleted_of_read readA)) rfl readA (.here _)
  have hdeleted : circle.isDeleted ⟨"a"⟩ = .ok true :=
    (isDeleted_exact ha).1.mpr ⟨⟨"b"⟩, Tables.leadsUnmarked_iff.mpr ⟨_, hlead⟩, hmark⟩
  obtain ⟨htrue, -, -, -, hinherited⟩ := isDeleted_exact (s := circle) hnote
  have hboth := hinherited _ _ hpath hdeleted
  exact ⟨hnote, ha, hpath, hdeleted, hboth, htrue.mp hboth⟩

end Store

end Fieldbook
