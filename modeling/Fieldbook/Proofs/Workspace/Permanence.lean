import Fieldbook.Proofs.Ownership.Marks
import Fieldbook.Proofs.Workspace.Reachable

/-!
# Proofs/Workspace/Permanence — what is deleted stays deleted

A resource is deleted by a mark that the walk towards the root meets.  Every name on the way to the
mark is that of a deleted resource itself, so no write of a resource touches a row there
(`Writable.not_mem`), and deletions and commits take no mark away (`MarkWalk.of_edit`).

Rules are another matter: a rule that was revoked may be granted again, and a rule may own
resources.  A call that grants a rule on the way to the mark (`GrantsOn`) leaves the resource deleted
exactly when the resource that the rule stands at is; all other calls leave it deleted, and so does
every run, where no rule stands on the way (`deletion_permanent`).
-/

namespace Fieldbook

/-- The rule that a call grants, under the name that belongs to it. -/
def Call.grants? : Call → Option AccessRule
  | .createRootFolder owner _ id _ => some (.ownerRule id owner)
  | .grant _ _ rule => some { rule with id := AccessRule.idFor rule.resource rule.principal }
  | _ => none

/-! ## Walks under writes and edits -/

namespace Tables

variable {t t' : Tables} {r : Resource} {rule : AccessRule} {stamp : Stamp} {p : Principal}
  {now : Int} {x : ResourceId} {path : List ResourceId} {b b' : Bool} {edit : Row → Row}

/-- A write elsewhere leaves a walk as it is. -/
theorem MarkWalk.of_write (h : t.MarkWalk x path b)
    (hrows : t'.rows = Row.write r stamp p now t.rows) (hout : r.id ∉ path) :
    t'.MarkWalk x path b := by
  refine h.of_same fun y hy => ?_
  have hne : y ≠ r.id := fun heq => hout (heq ▸ hy)
  rw [row?_of_write hrows, if_neg hne]

/-- An edit that takes no mark away leaves a mark on the way. -/
theorem MarkWalk.of_edit (h : t.MarkWalk x path true) (ht' : t'.Sound)
    (hrows : t'.rows = t.rows.map edit) (hedit : Row.Keeps edit)
    (hmark : ∀ row, row.deleted = true → (edit row).deleted = true) :
    ∃ path', path' <+: path ∧ t'.MarkWalk x path' true := by
  refine h.keep rfl fun y hy row found => ?_
  obtain ⟨-, row', entry, found', read⟩ := h.exists_read hy
  obtain rfl := Option.some.inj (found.symm.trans found')
  have hrow : t'.row? y = some (edit row) := by
    rw [row?_of_edit hrows hedit, found]
    rfl
  have hcontent : (edit row).content.record?.isSome = true := by
    rw [hedit.content]
    exact Row.isSome_record?_of_read read
  obtain ⟨entry', read'⟩ := (ht'.sound_row hrow).read_of_same (hedit.createdAt row) hcontent read
  exact ⟨edit row, entry', hrow, read', hedit.owner row, hmark row⟩

/-- **Where a rule is granted on the way,** the walk is the one from the resource of the rule. -/
theorem MarkWalk.iff_of_grant (h : t.MarkWalk x path b) (ht' : t'.Sound)
    (hrows : t'.rows = Row.write rule.toResource stamp p now t.rows) (hmem : rule.id ∈ path) :
    (∃ path', t'.MarkWalk x path' b') ↔ ∃ path', t'.MarkWalk rule.resource path' b' := by
  have hrow? := row?_of_write hrows
  have hsame : ∀ y ∈ path, y ≠ rule.id → t'.row? y = t.row? y := by
    intro y _ hne
    exact (hrow? y).trans (if_neg hne)
  obtain ⟨below, row, entry, found, read⟩ := h.exists_read hmem
  have hrow := (hrow? rule.id).trans (if_pos rfl)
  obtain ⟨entry', read'⟩ := ht'.read_of_write hrows found read rule.nesting_le
  have hup := MarkWalk.owner_iff (b := b') below hrow read' (Row.afterWrite_deleted _)
  rw [Row.afterWrite_owner] at hup
  exact (h.through_iff hmem hsame).trans hup

end Tables

/-! ## Calls -/

namespace Workspace

variable {w : Workspace} {call : Call} {r : Resource} {rule : AccessRule} {x : ResourceId}
  {path : List ResourceId} {b : Bool}

/-- The call is done, and grants a rule on the way from `x` to the mark by which it is deleted. -/
def GrantsOn (w : Workspace) (call : Call) (x : ResourceId) (rule : AccessRule) : Prop :=
  (w.perform call).1.isOk = true ∧ call.grants? = some rule ∧
    ∃ path, w.store.tables.MarkWalk x path true ∧ rule.id ∈ path

/-- **No write of a resource is allowed on the way to a mark:** whatever stands there is deleted. -/
theorem Writable.not_mem (h : w.Writable r) (hwalk : w.store.tables.MarkWalk x path true) :
    r.id ∉ path := by
  intro hmem
  obtain ⟨-, row, entry, found, -⟩ := hwalk.exists_read hmem
  obtain ⟨path', hup⟩ := hwalk.of_mem hmem
  have hdead : w.store.isDeleted r.id = .ok true := Store.isDeleted_ok_iff.mpr ⟨path', hup⟩
  cases h with
  | new new => cases found.symm.trans new
  | kept _ _ _ live | moved _ _ _ live => cases hdead.symm.trans (Store.requireLive_ok.mp live)

/-- A new folder stands on no walk. -/
theorem markWalk_of_folder {owner : Principal} {now : Int} {id : ResourceId} {label : String}
    {v : Nat} (hwalk : w.store.tables.MarkWalk x path b) (hnew : w.store.tables.row? id = none) :
    (w.store.tables.written (rootFolder id label) v owner now).MarkWalk x path b := by
  refine hwalk.of_write (r := rootFolder id label) rfl fun hmem => ?_
  obtain ⟨-, row, entry, found, -⟩ := hwalk.exists_read hmem
  cases found.symm.trans hnew

/-- **Every call that grants no rule on the way to a mark leaves a mark there.** -/
theorem markWalk_of_change {outcome : Except WorkspaceError Answer} {rows : List Row}
    {t' : Tables} (h : w.Change call outcome rows) (hs' : t'.Sound) (hfresh : call.IsFresh w)
    (hrows : t'.rows = rows) (hwalk : w.store.tables.MarkWalk x path true)
    (hout : outcome.isOk = true → ∀ rule, call.grants? = some rule → rule.id ∉ path) :
    ∃ path', path' <+: path ∧ t'.MarkWalk x path' true := by
  cases h with
  | refused | read =>
    exact hwalk.of_edit hs' (Tables.rows_eq_map_self hrows) Row.keeps_self fun _ h => h
  | @folder owner now id label a v =>
    have hfolder : (w.store.tables.written (rootFolder id label) v owner now).MarkWalk x path true :=
      markWalk_of_folder hwalk hfresh.2
    exact ⟨path, List.prefix_refl _, hfolder.of_write hrows (hout rfl _ rfl)⟩
  | write _ allowed =>
    have hmem := (writable_of_checkWrite allowed).2.not_mem hwalk
    exact ⟨path, List.prefix_refl _, hwalk.of_write hrows hmem⟩
  | grant => exact ⟨path, List.prefix_refl _, hwalk.of_write hrows (hout rfl _ rfl)⟩
  | delete | revoke =>
    refine hwalk.of_edit hs' hrows (Row.keeps_mark _ _) fun row hdead => ?_
    rw [Row.mark]
    split
    · rfl
    · exact hdead
  | commit =>
    refine hwalk.of_edit hs' hrows (Row.keeps_restamp _ _) fun row hdead => ?_
    rw [Row.restamp]
    split
    · exact hdead
    · exact hdead

/-- **A rule that is granted on the way** hands over to the resource that it stands at. -/
theorem markWalk_iff_of_grant {a : Answer} {rows : List Row} {t' : Tables}
    (h : w.Change call (.ok a) rows) (hs' : t'.Sound) (hfresh : call.IsFresh w)
    (hrows : t'.rows = rows) (hcall : call.grants? = some rule)
    (hwalk : w.store.tables.MarkWalk x path true) (hmem : rule.id ∈ path) :
    (∃ path', t'.MarkWalk x path' b) ↔ ∃ path', t'.MarkWalk rule.resource path' b := by
  cases h with
  | folder =>
    cases hcall
    exact (markWalk_of_folder hwalk hfresh.2).iff_of_grant hs' hrows hmem
  | grant =>
    cases hcall
    exact hwalk.iff_of_grant hs' hrows hmem
  | read asked | write asked => cases call <;> first | (cases hcall; done) | cases asked
  | delete | revoke | commit => cases hcall

theorem markWalk_of_perform (hw : w.Reachable) (hfresh : call.IsFresh w)
    (hwalk : w.store.tables.MarkWalk x path true)
    (hout : (w.perform call).1.isOk = true → ∀ rule, call.grants? = some rule → rule.id ∉ path) :
    ∃ path', path' <+: path ∧ (w.perform call).2.store.tables.MarkWalk x path' true := by
  have hs' : (w.perform call).2.store.tables.Sound := sound_of_reachable (.call hw hfresh)
  have hchange := change_of_perform (accounted_of_reachable hw) call
  exact markWalk_of_change hchange hs' hfresh rfl hwalk hout

/-- A step that grants no rule on the way. -/
theorem isDeleted_perform (hw : w.Reachable) (hfresh : call.IsFresh w)
    (hx : w.store.isDeleted x = .ok true) (hout : ∀ rule, ¬w.GrantsOn call x rule) :
    (w.perform call).2.store.isDeleted x = .ok true := by
  obtain ⟨path, hwalk⟩ := Store.isDeleted_ok_iff.mp hx
  have hnone : (w.perform call).1.isOk = true → ∀ rule, call.grants? = some rule →
      rule.id ∉ path := fun hok rule hcall hmem => hout rule ⟨hok, hcall, path, hwalk, hmem⟩
  obtain ⟨path', -, hafter⟩ := markWalk_of_perform hw hfresh hwalk hnone
  exact Store.isDeleted_ok_iff.mpr ⟨path', hafter⟩

theorem isDeleted_run : ∀ (calls : List Call) {w : Workspace}, w.Reachable →
    w.store.isDeleted x = .ok true →
      AllowedAlong (fun w call => call.IsFresh w ∧ ∀ rule, ¬w.GrantsOn call x rule) w calls →
        (w.run calls).store.isDeleted x = .ok true
  | [], _, _, hx, _ => hx
  | _ :: rest, _, hw, hx, ⟨⟨hfresh, hout⟩, hall⟩ =>
    isDeleted_run rest (.call hw hfresh) (isDeleted_perform hw hfresh hx hout) hall

/-- Where no rule stands on the way, none comes to stand there. -/
theorem isDeleted_run_of_plain : ∀ (calls : List Call) {w : Workspace} {path : List ResourceId},
    w.Reachable → w.store.tables.MarkWalk x path true →
      (∀ y ∈ path, AccessRule.isRuleId y = false) →
        AllowedAlong (fun w call => call.IsFresh w) w calls →
          (w.run calls).store.isDeleted x = .ok true
  | [], _, path, _, hwalk, _, _ => Store.isDeleted_ok_iff.mpr ⟨path, hwalk⟩
  | call :: rest, w, path, hw, hwalk, hplain, ⟨hfresh, hall⟩ => by
    have hout : (w.perform call).1.isOk = true → ∀ rule, call.grants? = some rule →
        rule.id ∉ path := by
      intro _ rule hcall hmem
      have hid : AccessRule.isRuleId rule.id = true := by
        cases call with
        | createRootFolder | grant =>
          cases hcall
          exact AccessRule.isRuleId_idFor _ _
        | _ => cases hcall
      cases hid.symm.trans (hplain _ hmem)
    obtain ⟨path', hinit, hafter⟩ := markWalk_of_perform hw hfresh hwalk hout
    have hplain' : ∀ y ∈ path', AccessRule.isRuleId y = false :=
      fun y hy => hplain y (hinit.subset hy)
    exact isDeleted_run_of_plain rest (.call hw hfresh) hafter hplain' hall

/-- **What is deleted stays deleted,** but for rules that are granted again.  A call leaves a deleted
resource deleted, unless it grants a rule on the way from the resource to the mark; then the resource
is deleted exactly when that is which the rule stands at.  So a run that makes no such grant leaves
it deleted, and where no rule stands on the way, so does every run. -/
theorem deletion_permanent (hw : w.Reachable) (hx : w.store.isDeleted x = .ok true) :
    (∀ call, call.IsFresh w → (∀ rule, ¬w.GrantsOn call x rule) →
      (w.perform call).2.store.isDeleted x = .ok true) ∧
    (∀ call rule, call.IsFresh w → w.GrantsOn call x rule → ∀ b,
      (w.perform call).2.store.isDeleted x = .ok b ↔
        (w.perform call).2.store.isDeleted rule.resource = .ok b) ∧
    (∀ calls, AllowedAlong (fun w call => call.IsFresh w ∧ ∀ rule, ¬w.GrantsOn call x rule) w calls →
      (w.run calls).store.isDeleted x = .ok true) ∧
    ∀ path, w.store.tables.MarkWalk x path true → (∀ y ∈ path, AccessRule.isRuleId y = false) →
      ∀ calls, AllowedAlong (fun w call => call.IsFresh w) w calls →
        (w.run calls).store.isDeleted x = .ok true := by
  refine ⟨fun call hfresh hout => isDeleted_perform hw hfresh hx hout, ?_,
    fun calls hall => isDeleted_run calls hw hx hall,
    fun path hwalk hplain calls hall => isDeleted_run_of_plain calls hw hwalk hplain hall⟩
  rintro call rule hfresh ⟨hok, hcall, path, hwalk, hmem⟩ b
  have hs' : (w.perform call).2.store.tables.Sound := sound_of_reachable (.call hw hfresh)
  have hchange := change_of_perform (accounted_of_reachable hw) call
  rcases houtcome : (w.perform call).1 with e | a
  · rw [houtcome] at hok
    cases hok
  · rw [houtcome] at hchange
    rw [Store.isDeleted_ok_iff, Store.isDeleted_ok_iff]
    exact markWalk_iff_of_grant hchange hs' hfresh rfl hcall hwalk hmem

/-! ## A rule that owns a note -/

/-- A folder with a rule for `bob`, now revoked, that owns a note. -/
def revokedHome : Workspace :=
  let home : ResourceId := ⟨"c0198c3f2a7b07d1e9f5b4c6d8e0f1a2b"⟩
  (empty 16).run
    [.createRootFolder ⟨"alice"⟩ 0 home "Home",
      .grant ⟨"alice"⟩ 0 (.ownerRule home ⟨"bob"⟩),
      .put ⟨"alice"⟩ 0 (.new ⟨"note"⟩ (AccessRule.idFor home ⟨"bob"⟩) folderClass .empty),
      .revoke ⟨"alice"⟩ home ⟨"bob"⟩]

/-- The rule for `bob` is granted again. -/
def grantAgain : Call :=
  .grant ⟨"alice"⟩ 0 (.ownerRule ⟨"c0198c3f2a7b07d1e9f5b4c6d8e0f1a2b"⟩ ⟨"bob"⟩)

theorem reachable_revokedHome : revokedHome.Reachable :=
  ReachableBy.run _ (.empty 16) ⟨by decide, trivial, trivial, trivial, trivial⟩

/-- The note is deleted through the rule, and is there again with it. -/
theorem marks_revokedHome : revokedHome.store.isDeleted ⟨"note"⟩ = .ok true ∧
    (revokedHome.store.tables.row? ⟨"note"⟩).map (fun row => (row.owner, row.deleted)) =
      some (AccessRule.idFor ⟨"c0198c3f2a7b07d1e9f5b4c6d8e0f1a2b"⟩ ⟨"bob"⟩, false) ∧
    (revokedHome.perform grantAgain).1.isOk = true ∧
    (revokedHome.perform grantAgain).2.store.isDeleted
      ⟨"c0198c3f2a7b07d1e9f5b4c6d8e0f1a2b"⟩ = .ok false ∧
    (revokedHome.run [grantAgain]).store.isDeleted ⟨"note"⟩ = .ok false := by
  simp only [← toOption_eq_some]
  decide +kernel

/-- The way from the note to the mark is through the rule. -/
theorem grantsOn_grantAgain : revokedHome.GrantsOn grantAgain ⟨"note"⟩
    (.ownerRule ⟨"c0198c3f2a7b07d1e9f5b4c6d8e0f1a2b"⟩ ⟨"bob"⟩) := by
  obtain ⟨hdead, hfields, hok, -⟩ := marks_revokedHome
  obtain ⟨path, hwalk⟩ := Store.isDeleted_ok_iff.mp hdead
  obtain ⟨row, hrow, hfields⟩ := Option.map_eq_some_iff.mp hfields
  obtain ⟨howner, hlive⟩ := Prod.mk.inj hfields
  have hmem := hwalk.owner_mem (by decide) hrow hlive
  rw [howner] at hmem
  exact ⟨hok, rfl, path, hwalk, hmem⟩

/-- Other calls leave the note deleted; with the rule granted again it is there again. -/
theorem deletion_permanent_revokedHome :
    revokedHome.Reachable ∧ revokedHome.store.isDeleted ⟨"note"⟩ = .ok true ∧
      (revokedHome.run [.put ⟨"alice"⟩ 0 (.new ⟨"note"⟩ ⟨"note"⟩ folderClass .empty),
        .delete ⟨"alice"⟩ ⟨"note"⟩]).store.isDeleted ⟨"note"⟩ = .ok true ∧
      (revokedHome.perform grantAgain).2.store.isDeleted ⟨"note"⟩ = .ok false := by
  obtain ⟨hdead, -, -, hhome, -⟩ := marks_revokedHome
  obtain ⟨-, hgrant, hrun, -⟩ := deletion_permanent reachable_revokedHome hdead
  refine ⟨reachable_revokedHome, hdead, hrun _ ?_, ?_⟩
  · exact ⟨⟨trivial, fun _ h => nomatch h.2.1⟩, ⟨trivial, fun _ h => nomatch h.2.1⟩, trivial⟩
  · exact (hgrant grantAgain _ trivial grantsOn_grantAgain false).mpr hhome

/-- So a deleted resource that is no rule may come back. -/
theorem exists_revived :
    ¬∀ (w : Workspace) (x : ResourceId) (calls : List Call), w.Reachable →
      AccessRule.isRuleId x = false → w.store.isDeleted x = .ok true →
        AllowedAlong (fun w call => call.IsFresh w) w calls →
          (w.run calls).store.isDeleted x = .ok true := by
  intro h
  obtain ⟨hdead, -, -, -, hlive⟩ := marks_revokedHome
  have hdead' := h revokedHome ⟨"note"⟩ [grantAgain] reachable_revokedHome (by decide) hdead
    ⟨trivial, trivial⟩
  cases hdead'.symm.trans hlive

end Workspace

end Fieldbook
