import Fieldbook.Proofs.Ownership.Marks
import Fieldbook.Proofs.Ownership.Matching
import Fieldbook.Proofs.Workspace.LiveRules

/-!
# Proofs/Workspace/Framing — what a write of a resource leaves as it is

A resource is put by someone who may edit it, or its owner if it is new, and its owner besides if
that is another one than before (`permits_of_checkWrite`).  The write changes one row, which is that
of no rule, so rights and deletion can change by where that row leads.  They are told as before of
every resource whose owners lead to the root past the written one, and if its owner is the same as
before then of every resource, unless the written row cannot be read (`frame_of_written`).
-/

namespace Fieldbook

/-- Two stores tell the same of a resource: whether it is deleted, and what anyone may do with it. -/
structure Store.TellsAlike (s s' : Store) (x : ResourceId) : Prop where
  deleted : s'.isDeleted x = s.isDeleted x
  rights : ∀ q, (s'.authorize q x).answer = (s.authorize q x).answer

/-- The second store tells the same of a resource as the first one, or fails in one way. -/
structure Store.TellsOrFails (s s' : Store) (e : StoreError) (x : ResourceId) : Prop where
  deleted : s'.isDeleted x = s.isDeleted x ∨ s'.isDeleted x = .error (.store e)
  rights : ∀ q, (s'.authorize q x).answer = (s.authorize q x).answer ∨
    (s'.authorize q x).answer = .error (.store e)

namespace Store

variable {s s' : Store} {x : ResourceId} {r : Resource} {stamp : Stamp} {p : Principal} {now : Int}
  {path : List ResourceId} {lost lost' : StoreError → Prop} {e : StoreError}

/-- Rights are found side by side on chains that match, where the rules are the same. -/
theorem parallel_authorize_of_matches {q : Principal}
    (h : OwnerChain.Matches lost lost' (s.ownerChain x) (s'.ownerChain x))
    (hrule : ∀ y, (s'.ruleAt? q y).answer = (s.ruleAt? q y).answer) :
    Parallel (StoreError.Raised lost) (StoreError.Raised lost') (· = ·) (s.authorize q x).answer
      (s'.authorize q x).answer := by
  refine OwnerChain.Matches.authorize
    (fun a b => Parallel (StoreError.Raised lost) (StoreError.Raised lost') (· = ·) a.answer b.answer)
    h (fun a => .refl a.answer) (fun y further further' hfurther => ?_)
    (fun e _ hlost => .first ⟨e, hlost, rfl⟩) fun e _ hlost => .second ⟨e, hlost, rfl⟩
  rw [ruledAt_answer, ruledAt_answer, hrule y]
  split
  · exact .error _
  · exact .ok rfl
  · exact hfurther

theorem tellsOrFails_of_matches
    (h : OwnerChain.Matches (fun _ => False) (· = e) (s.ownerChain x) (s'.ownerChain x))
    (hrule : ∀ q y, (s'.ruleAt? q y).answer = (s.ruleAt? q y).answer) : s.TellsOrFails s' e x where
  deleted := by
    obtain heq | ⟨_, rfl, hfails⟩ := (h.isDeleted x).eq_or_raised
    · exact .inl heq
    · exact .inr hfails
  rights q := by
    obtain heq | ⟨_, rfl, hfails⟩ := (parallel_authorize_of_matches h (hrule q)).eq_or_raised
    · exact .inl heq
    · exact .inr hfails

theorem tellsAlike_of_matches
    (h : OwnerChain.Matches (fun _ => False) (fun _ => False) (s.ownerChain x) (s'.ownerChain x))
    (hrule : ∀ q y, (s'.ruleAt? q y).answer = (s.ruleAt? q y).answer) : s.TellsAlike s' x where
  deleted := by
    obtain heq | ⟨_, never, -⟩ := (h.isDeleted x).eq_or_raised
    · exact heq
    · exact never.elim
  rights q := by
    obtain heq | ⟨_, never, -⟩ := (parallel_authorize_of_matches h (hrule q)).eq_or_raised
    · exact heq
    · exact never.elim

/-- A written resource of which something is told has a value that can be read. -/
theorem shallow_of_isDeleted {b : Bool}
    (hrows : s'.tables.rows = Row.write r stamp p now s.tables.rows) (below : r.id ≠ .root)
    (h : s'.isDeleted r.id = .ok b) : r.value.Shallow := by
  obtain ⟨row, entry, found, read⟩ := exists_read_of_isDeleted h below
  rw [Tables.row?_of_write hrows, if_pos rfl] at found
  obtain rfl := Option.some.inj found
  exact Row.shallow_of_read read

/-- Where the written row leads as before, chains match, up to the row if it can be read no more. -/
theorem matches_of_kept {row : Row} {entry : Entry} (hs' : s'.tables.Sound)
    (hrows : s'.tables.rows = Row.write r stamp p now s.tables.rows)
    (found : s.tables.row? r.id = some row) (read : row.read = .ok entry)
    (live : row.deleted = false) (same : row.owner = r.owner)
    (hlost : ¬r.value.Shallow → lost' (.data .unreadable)) (x : ResourceId) :
    OwnerChain.Matches lost lost' (s.ownerChain x) (s'.ownerChain x) := by
  refine OwnerChain.matches_ownerChain (fun _ => True) (fun y _ _ => ?_)
    (fun _ _ _ _ _ => trivial) trivial
  have hwritten := Tables.row?_of_write hrows y
  split at hwritten
  · next heq =>
    obtain rfl := heq
    rw [hwritten]
    nth_rewrite 1 [found]
    refine .some ?_
    by_cases hshallow : r.value.Shallow
    · obtain ⟨entry', read'⟩ := hs'.read_of_write hrows found read hshallow
      rw [Row.lead_of_read read, Row.lead_of_read read', Row.afterWrite_owner,
        Row.afterWrite_deleted, same, live]
      exact .refl _
    · rw [Row.lead_of_unread.mpr (hs'.unread_of_write hrows hshallow)]
      exact .second (hlost hshallow)
  · rw [hwritten]
    cases s.tables.row? y with
    | none => exact .none
    | some row => exact .some (.refl _)

section Write

variable (hs : s.tables.Sound) (hord : r.IsOrdinary)
  (hrows : s'.tables.rows = Row.write r stamp p now s.tables.rows)

include hs hord hrows

/-- **Past the written resource** everything is told as before. -/
theorem tellsAlike_of_climb (h : s.tables.Climb x path) (hout : r.id ∉ path) :
    s.TellsAlike s' x := by
  let on := fun y => ∃ path, s.tables.Climb y path ∧ r.id ∉ path
  refine tellsAlike_of_matches ?_ (ruleAt?_of_ordinary hs hrows hord)
  refine OwnerChain.matches_ownerChain on ?_ ?_ ⟨path, h, hout⟩
  · rintro y ⟨_, hclimb, hout⟩ below
    cases hclimb with
    | root => exact absurd rfl below
    | step _ found =>
      have hne : y ≠ r.id := fun heq => hout (heq ▸ List.mem_cons_self)
      rw [Tables.row?_of_write hrows, if_neg hne, found]
      exact .some (.refl _)
  · rintro y row ⟨_, hclimb, hout⟩ below found
    cases hclimb with
    | root => exact absurd rfl below
    | step _ found' up =>
      obtain rfl := Option.some.inj (found.symm.trans found')
      exact ⟨_, up, fun hmem => hout (List.mem_cons_of_mem _ hmem)⟩

section Kept

variable {row : Row} {entry : Entry} (hs' : s'.tables.Sound)
  (found : s.tables.row? r.id = some row) (read : row.read = .ok entry)
  (live : row.deleted = false) (same : row.owner = r.owner)

include hs' found read live same

/-- **Where the row leads as before** each thing is told as before, or fails because the row can be
read no more. -/
theorem tellsOrFails_of_kept (x : ResourceId) : s.TellsOrFails s' (.data .unreadable) x := by
  refine tellsOrFails_of_matches ?_ (ruleAt?_of_ordinary hs hrows hord)
  refine matches_of_kept hs' hrows found read live same ?_ x
  exact fun _ => rfl

theorem tellsAlike_of_kept (hshallow : r.value.Shallow) (x : ResourceId) : s.TellsAlike s' x := by
  refine tellsAlike_of_matches ?_ (ruleAt?_of_ordinary hs hrows hord)
  exact matches_of_kept hs' hrows found read live same (absurd hshallow) x

end Kept

end Write

end Store

namespace Workspace

variable {w : Workspace} {call : Call} {p : Principal} {now : Int} {r : Resource}

theorem isFresh_of_written (asked : call.written? = some (p, now, r)) : call.IsFresh w := by
  cases call <;> trivial

/-- Where a write is permitted, the owner to be is live. -/
theorem Permits.owner_live (h : w.Permits p r) : w.store.isDeleted r.owner = .ok false := by
  cases h with
  | new _ owner => exact owner.live
  | kept found read self same =>
    obtain ⟨-, hlive⟩ := (Store.isDeleted_false_iff self.ne_root found read).mp self.live
    exact same ▸ hlive
  | moved _ _ _ _ _ owner => exact owner.live

/-- **What a write of a resource needs, changes, and leaves as it is.**  When `p` has put `r`, at
once or to be committed, then before that `p` could edit `r`, or its owner if `r` was not there, and
its owner if that was another one; what `p` could edit was live, and so was the owner.  Afterwards the
row of `r` is the one written, and all other rows are the same.  Rights and deletion are told as
before of every resource whose owners led to the root past `r`.  If `r` was there under the same
owner, each is told as before of every resource, or fails because the row of `r` can be read no more;
and all are told as before exactly if the value is not nested too deeply for that. -/
theorem frame_of_written (hw : w.Reachable) (asked : call.written? = some (p, now, r))
    (hok : (w.perform call).1.isOk = true) :
    (w.store.tables.row? r.id = none → w.MayEdit p r.owner) ∧
    (∀ row, w.store.tables.row? r.id = some row →
      w.MayEdit p r.id ∧ (row.owner ≠ r.owner → w.MayEdit p r.owner)) ∧
    w.store.isDeleted r.owner = .ok false ∧
    (w.perform call).2.store.tables.rows.filter (·.id ≠ r.id) =
      w.store.tables.rows.filter (·.id ≠ r.id) ∧
    (∃ row, (w.perform call).2.store.tables.row? r.id = some row ∧ row.owner = r.owner ∧
      row.classId = r.classId ∧ row.content = .encoded r.value ∧ row.deleted = false) ∧
    (∀ x path, w.store.tables.Climb x path → r.id ∉ path →
      w.store.TellsAlike (w.perform call).2.store x) ∧
    ∀ row, w.store.tables.row? r.id = some row → row.owner = r.owner →
      (∀ x, w.store.TellsOrFails (w.perform call).2.store (.data .unreadable) x) ∧
      ((∀ x, w.store.TellsAlike (w.perform call).2.store x) ↔ r.value.Shallow) := by
  obtain ⟨allowed, stamp, hrows⟩ := rows_of_written (accounted_of_reachable hw) asked hok
  obtain ⟨hord, -, -, hpermits⟩ := permits_of_checkWrite allowed
  have hs := sound_of_reachable hw
  have hs' := sound_of_reachable (hw.call (isFresh_of_written asked))
  have hwritten := (Tables.row?_of_write hrows r.id).trans (if_pos rfl)
  refine ⟨fun new => ?_, fun row found => ?_, hpermits.owner_live, ?_, ?_,
    fun x path => Store.tellsAlike_of_climb hs hord hrows, fun row found same => ?_⟩
  · cases hpermits with
    | new _ owner => exact owner
    | kept found | moved found => cases new.symm.trans found
  · cases hpermits with
    | new new => cases new.symm.trans found
    | kept found' _ self same =>
      obtain rfl := Option.some.inj (found.symm.trans found')
      exact ⟨self, fun hne => absurd same hne⟩
    | moved _ _ self _ _ owner => exact ⟨self, fun _ => owner⟩
  · rw [hrows]
    refine Row.filter_write (fun row _ hid => by simp [hid]) ?_
    rw [Row.afterWrite_find?_id]
    simp
  · exact ⟨_, hwritten, Row.afterWrite_owner _, Row.afterWrite_classId _, Row.afterWrite_content _,
      Row.afterWrite_deleted _⟩
  · cases hpermits with
    | new new => cases new.symm.trans found
    | kept found' read self =>
      obtain rfl := Option.some.inj (found.symm.trans found')
      obtain ⟨live, -⟩ := (Store.isDeleted_false_iff self.ne_root found read).mp self.live
      refine ⟨Store.tellsOrFails_of_kept hs hord hrows hs' found read live same, fun halike => ?_,
        Store.tellsAlike_of_kept hs hord hrows hs' found read live same⟩
      exact Store.shallow_of_isDeleted hrows self.ne_root ((halike r.id).deleted.trans self.live)
    | moved found' _ _ changed =>
      obtain rfl := Option.some.inj (found.symm.trans found')
      exact absurd same changed

/-- The folder with what `bob` has put into it. -/
def noted : Workspace := (sharedFolder.perform putNote).2

theorem reachable_noted : noted.Reachable := reachable_sharedFolder.call trivial

/-- When `bob` puts his note into the folder, the rights on the folder stay as they are; when he puts
it again, all rights do. -/
theorem frame_of_putNote :
    sharedFolder.MayEdit ⟨"bob"⟩ sharedHome ∧ sharedFolder.store.TellsAlike noted.store sharedHome ∧
      noted.MayEdit ⟨"bob"⟩ ⟨"note"⟩ ∧
      ∀ x, noted.store.TellsAlike (noted.perform putNote).2.store x := by
  have asked : putNote.written? = some (⟨"bob"⟩, _, _) := rfl
  obtain ⟨hnew, -, -, -, -, hpast, -⟩ := frame_of_written reachable_sharedFolder asked
    (by decide +kernel)
  obtain ⟨-, hold, -, -, -, -, hkept⟩ := frame_of_written reachable_noted asked (by decide +kernel)
  have hhome : (sharedFolder.store.tables.row? sharedHome).map (·.owner) = some .root := by
    decide +kernel
  obtain ⟨home, found, htop⟩ := Option.map_eq_some_iff.mp hhome
  have hclimb : sharedFolder.store.tables.Climb sharedHome [sharedHome] :=
    .step (by decide) found (htop ▸ .root)
  have hnote : (noted.store.tables.row? ⟨"note"⟩).map (·.owner) = some sharedHome := by
    decide +kernel
  obtain ⟨note, found, howner⟩ := Option.map_eq_some_iff.mp hnote
  exact ⟨hnew (by decide +kernel), hpast _ _ hclimb (by decide), (hold note found).1,
    (hkept note found howner).2.mpr (by decide)⟩

/-- The note with lists in each other, put by `bob` where it is. -/
def putDeepNote : Call := .put ⟨"bob"⟩ 0 (.new ⟨"note"⟩ sharedHome folderClass .deep)

/-- The note may be put with lists as deep as one likes; its owner stays the same. -/
theorem done_putDeepNote : (noted.perform putDeepNote).1.isOk = true ∧
    (noted.store.tables.row? ⟨"note"⟩).map (·.owner) = some sharedHome := by
  decide +kernel

/-- An update of a resource under the same owner may change what is told of it. -/
theorem exists_told_otherwise :
    ¬∀ (w : Workspace) (call : Call) (p : Principal) (now : Int) (r : Resource) (row : Row),
      w.Reachable → call.written? = some (p, now, r) → (w.perform call).1.isOk = true →
        w.store.tables.row? r.id = some row → row.owner = r.owner →
          ∀ x, w.store.TellsAlike (w.perform call).2.store x := by
  intro h
  obtain ⟨hok, howner⟩ := done_putDeepNote
  obtain ⟨note, found, howner⟩ := Option.map_eq_some_iff.mp howner
  have halike := h noted putDeepNote _ _ _ note reachable_noted rfl hok found howner ⟨"note"⟩
  have hlive : noted.store.isDeleted ⟨"note"⟩ = .ok false := by
    rw [← toOption_eq_some]
    decide +kernel
  obtain ⟨-, stamp, hrows⟩ := rows_of_written (accounted_of_reachable reachable_noted)
    (rfl : putDeepNote.written? = some (⟨"bob"⟩, 0, .new ⟨"note"⟩ sharedHome folderClass .deep)) hok
  have hshallow := Store.shallow_of_isDeleted hrows (by decide) (halike.deleted.trans hlive)
  exact Record.not_shallow_deep hshallow

end Workspace

end Fieldbook
