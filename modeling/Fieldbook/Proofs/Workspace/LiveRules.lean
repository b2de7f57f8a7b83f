import Fieldbook.Proofs.Workspace.Reachable

/-!
# Proofs/Workspace/LiveRules — who changes the rules at a resource

The live rules at a resource are rows that it owns.  A write by someone who does not own the
resource leaves them as they are, exactly when it does not touch the row of one of them
(`liveRules_eq_iff`): a resource that is put is never a rule, and a rule that such a principal may
grant stands at another resource.  What remains is that the name of the touched row is that of a
live rule here: a deletion may be asked for under any name, and the rules of two resources may
have one name.
-/

namespace Fieldbook

/-- A live rule at `r`. -/
def Row.IsLiveRule (r : ResourceId) (row : Row) : Bool :=
  row.owner = r ∧ row.classId = AccessRule.classId ∧ row.deleted = false

/-- The live rules at a resource, as they are stored. -/
def Tables.liveRules (t : Tables) (r : ResourceId) : List Row := t.rows.filter (Row.IsLiveRule r)

namespace Tables

variable {t t' : Tables} {r id : ResourceId} {x : Resource} {stamp : Stamp} {p : Principal}
  {now : Int} {v : Nat}

theorem mem_liveRules {row : Row} : row ∈ t.liveRules r ↔
    row ∈ t.rows ∧ row.owner = r ∧ row.classId = AccessRule.classId ∧ row.deleted = false := by
  unfold liveRules Row.IsLiveRule
  rw [List.mem_filter, decide_eq_true_eq]

/-! ## Rules under writes and deletions -/

/-- **A write of what is no rule at `r`** changes the rules at `r` only in the place of one. -/
theorem liveRules_write_iff (hdistinct : (t.rows.map (·.id)).Nodup)
    (hrows : t'.rows = Row.write x stamp p now t.rows)
    (hx : x.owner ≠ r ∨ x.classId ≠ AccessRule.classId) :
    t'.liveRules r = t.liveRules r ↔ ∀ row ∈ t.liveRules r, row.id ≠ x.id := by
  have hafter : ∀ old, Row.IsLiveRule r (Row.afterWrite x stamp p now old) = false := by
    intro old
    rw [Row.IsLiveRule, Row.afterWrite_owner, Row.afterWrite_classId]
    rcases hx with hx | hx <;> simp [hx]
  constructor
  · intro heq row hmem hid
    have hlive := (List.mem_filter.mp hmem).2
    rw [← heq] at hmem
    obtain ⟨hmem', -⟩ := mem_liveRules.mp hmem
    have hfound : t'.row? row.id = some row := by
      rw [row?]
      rw [hrows] at hmem' ⊢
      exact Row.find?_of_mem (Row.nodup_write hdistinct) hmem'
    have hwritten := row?_of_write hrows row.id
    rw [if_pos hid, hfound] at hwritten
    rw [Option.some.inj hwritten, hafter] at hlive
    cases hlive
  · intro h
    rw [liveRules, hrows]
    refine Row.filter_write (fun row hmem hid => ?_) (hafter _)
    refine Bool.eq_false_iff.mpr fun hlive => h row ?_ hid
    exact List.mem_filter.mpr ⟨hmem, hlive⟩

/-- **A deletion** changes the rules at `r` only where it deletes one. -/
theorem liveRules_mark_iff (hrows : t'.rows = t.rows.map (Row.mark id v)) :
    t'.liveRules r = t.liveRules r ↔ ∀ row ∈ t.liveRules r, row.id ≠ id := by
  constructor
  · intro heq row hmem hid
    rw [← heq] at hmem
    obtain ⟨hmem', -, -, hlive⟩ := mem_liveRules.mp hmem
    rw [hrows] at hmem'
    obtain ⟨old, -, rfl⟩ := List.mem_map.mp hmem'
    rw [(Row.keeps_mark id v).id] at hid
    rw [Row.mark_self id v old hid] at hlive
    cases hlive
  · intro h
    rw [liveRules, hrows]
    refine Row.filter_mark id v fun row hmem hid => ⟨?_, ?_⟩
    · refine Bool.eq_false_iff.mpr fun hlive => h row ?_ hid
      exact List.mem_filter.mpr ⟨hmem, hlive⟩
    · rw [Row.mark_self id v row hid]
      simp [Row.IsLiveRule]

theorem liveRules_of_rows_eq (hrows : t'.rows = t.rows) : t'.liveRules r = t.liveRules r := by
  unfold liveRules
  rw [hrows]

/-- Under the name of no rule there is no live rule. -/
theorem Sound.isRuleId_of_mem_liveRules (ht : t.Sound) {row : Row} (h : row ∈ t.liveRules r) :
    AccessRule.isRuleId row.id = true := by
  obtain ⟨hmem, -, hclass, -⟩ := mem_liveRules.mp h
  obtain ⟨rule, hstores⟩ := (ht.rows row hmem).rule (.inl hclass)
  rw [hstores.id]
  exact AccessRule.isRuleId_idFor _ _

/-- A name without a row is not that of a live rule. -/
theorem isSome_of_mem_liveRules {row : Row} (h : row ∈ t.liveRules r) :
    (t.row? row.id).isSome := by
  obtain ⟨hmem, -⟩ := mem_liveRules.mp h
  exact Row.isSome_find?_iff.mpr ⟨row, hmem, rfl⟩

end Tables

/-! ## Calls -/

/-- Who asks for a write that is checked. -/
def Call.writer? : Call → Option Principal
  | .createRootFolder owner _ _ _ => some owner
  | .put principal _ _ | .putForm principal _ _ | .putPending principal _ _ _ => some principal
  | .delete principal _ | .grant principal _ _ | .revoke principal _ _ => some principal
  | _ => none

/-- The name under which a call may write or delete a rule. -/
def Call.ruleName? : Call → Option ResourceId
  | .createRootFolder owner _ id _ => some (AccessRule.idFor id owner)
  | .delete _ id => some id
  | .grant _ _ rule => some (AccessRule.idFor rule.resource rule.principal)
  | .revoke _ id grantee => some (AccessRule.idFor id grantee)
  | _ => none

namespace Workspace

variable {w : Workspace} {call : Call} {p : Principal} {r : ResourceId}

/-- A new folder is no rule, and takes the place of none. -/
theorem liveRules_of_folder {t : Tables} {owner : Principal} {now : Int} {id : ResourceId}
    {label : String} {v : Nat} (hdistinct : (t.rows.map (·.id)).Nodup) (hnew : t.row? id = none)
    (hgen : id.IsGenerated) :
    (t.written (rootFolder id label) v owner now).liveRules r = t.liveRules r := by
  have hclass := (isOrdinary_rootFolder hgen label).1
  refine (Tables.liveRules_write_iff hdistinct rfl (.inr hclass)).mpr fun row hmem hid => ?_
  have hsome := Tables.isSome_of_mem_liveRules hmem
  rw [hid] at hsome
  exact absurd hnew (Option.isSome_iff_ne_none.mp hsome)

/-- A new folder comes with a rule at the folder, whose name may be that of a rule here. -/
theorem liveRules_folder_iff {t t' : Tables} {owner : Principal} {now : Int} {id : ResourceId}
    {label : String} {v v' : Nat} (hdistinct : (t.rows.map (·.id)).Nodup)
    (hr : (t.row? r).isSome) (hnew : t.row? id = none) (hgen : id.IsGenerated)
    (hrows : t'.rows = Row.write (AccessRule.ownerRule id owner).toResource (.committed v') owner
      now (t.written (rootFolder id label) v owner now).rows) :
    t'.liveRules r = t.liveRules r ↔
      ∀ row ∈ t.liveRules r, row.id ≠ AccessRule.idFor id owner := by
  have hne : id ≠ r := by
    rintro rfl
    rw [hnew] at hr
    cases hr
  have hfolder : (t.written (rootFolder id label) v owner now).liveRules r = t.liveRules r :=
    liveRules_of_folder hdistinct hnew hgen
  rw [← hfolder]
  exact Tables.liveRules_write_iff (Row.nodup_write hdistinct) hrows (.inl hne)

theorem liveRules_of_change {a : Answer} {rows : List Row} {t' : Tables}
    (hchange : w.Change call (.ok a) rows) (hs : w.store.tables.Sound)
    (hdistinct : (w.store.tables.rows.map (·.id)).Nodup) (hrows : t'.rows = rows)
    (hr : (w.store.tables.row? r).isSome)
    (hp : ∀ a, (w.store.authorize p r).answer = .ok a → a.isOwner = false)
    (hwriter : call.writer? = some p) (hfresh : call.IsFresh w) :
    t'.liveRules r = w.store.tables.liveRules r ↔
      ∀ row ∈ w.store.tables.liveRules r, call.ruleName? ≠ some row.id := by
  have hname : ∀ k : ResourceId, (∀ row ∈ w.store.tables.liveRules r, row.id ≠ k) ↔
      ∀ row ∈ w.store.tables.liveRules r, some k ≠ some row.id := by
    simp [eq_comm]
  cases hchange with
  | read asked => cases call <;> first | (cases hwriter; done) | cases asked
  | folder =>
    exact (liveRules_folder_iff hdistinct hr hfresh.2 hfresh.1 hrows).trans (hname _)
  | write asked allowed =>
    have hnone : call.ruleName? = none := by
      cases call <;> first | rfl | cases asked
    obtain ⟨⟨hclass, hid⟩, -⟩ := checkWrite_ok allowed
    rw [Tables.liveRules_write_iff hdistinct hrows (.inr hclass), hnone]
    refine iff_of_true (fun row hmem heq => ?_) fun row _ h => nomatch h
    cases hid.symm.trans (heq ▸ hs.isRuleId_of_mem_liveRules hmem)
  | delete => exact (Tables.liveRules_mark_iff hrows).trans (hname _)
  | grant allowed =>
    -- who may grant the rule owns its resource, which is another one
    refine (Tables.liveRules_write_iff hdistinct hrows (.inl ?_)).trans (hname _)
    rintro rfl
    cases hwriter
    obtain ⟨b, hb, howner⟩ := Store.requireOwner_ok.mp allowed
    cases howner.symm.trans (hp b hb)
  | revoke => exact (Tables.liveRules_mark_iff hrows).trans (hname _)
  | commit => cases hwriter

/-- **Who changes the rules at a resource.**  When someone who does not own `r` asks for a write,
the live rules at `r` are the same afterwards exactly when the write is refused or its name is that
of none of them. -/
theorem liveRules_eq_iff (hw : w.Reachable) (hr : (w.store.tables.row? r).isSome)
    (hp : ∀ a, (w.store.authorize p r).answer = .ok a → a.isOwner = false)
    (hwriter : call.writer? = some p) (hfresh : call.IsFresh w) :
    (w.perform call).2.store.tables.liveRules r = w.store.tables.liveRules r ↔
      ((w.perform call).1.isOk = true →
        ∀ row ∈ w.store.tables.liveRules r, call.ruleName? ≠ some row.id) := by
  have hs := sound_of_reachable hw
  have hdistinct := (accounted_of_reachable hw).tables.distinct
  have hchange := change_of_perform (accounted_of_reachable hw) call
  rcases houtcome : (w.perform call).1 with e | a
  · rw [houtcome] at hchange
    have hrows : (w.perform call).2.store.tables.rows = w.store.tables.rows := by
      generalize (w.perform call).2.store.tables.rows = rows at hchange
      generalize houtcome' : Except.error e = outcome at hchange
      cases hchange with
      | refused | read => rfl
      | commit => cases hwriter
      | _ => cases houtcome'
    exact iff_of_true (Tables.liveRules_of_rows_eq hrows) fun h => nomatch h
  · rw [houtcome] at hchange
    rw [liveRules_of_change hchange hs hdistinct rfl hr hp hwriter hfresh]
    exact ⟨fun h _ => h, fun h => h rfl⟩

/-! ## An editor who deletes a rule -/

/-- The name of the folder below. -/
def sharedHome : ResourceId := ⟨"c0198c3f2a7b07d1e9f5b4c6d8e0f1a2b"⟩

/-- A folder that `bob` may edit and `carol` may view. -/
def sharedFolder : Workspace :=
  (empty 16).run
    [.createRootFolder ⟨"alice"⟩ 0 sharedHome "Home",
      .grant ⟨"alice"⟩ 0 ⟨⟨""⟩, sharedHome, ⟨"bob"⟩, false, some "true", some "true"⟩,
      .grant ⟨"alice"⟩ 0 ⟨⟨""⟩, sharedHome, ⟨"carol"⟩, false, some "true", none⟩]

/-- The deletion, by `bob`, of the rule for `carol`. -/
def deletedRule : Call := .delete ⟨"bob"⟩ (AccessRule.idFor sharedHome ⟨"carol"⟩)

/-- A resource that `bob` puts into the folder. -/
def putNote : Call := .put ⟨"bob"⟩ 0 (.new ⟨"note"⟩ sharedHome folderClass .empty)

theorem reachable_sharedFolder : sharedFolder.Reachable :=
  ReachableBy.run _ (.empty 16) (by decide +kernel)

theorem not_isOwner_bob : ∀ a, (sharedFolder.store.authorize ⟨"bob"⟩ sharedHome).answer = .ok a →
    a.isOwner = false := by
  have hall : ((sharedFolder.store.authorize ⟨"bob"⟩ sharedHome).answer.toOption.all
      (·.isOwner = false)) = true := by decide +kernel
  intro a ha
  rw [ha] at hall
  exact of_decide_eq_true hall

/-- A resource put by an editor leaves the rules as they are. -/
theorem liveRules_putNote :
    sharedFolder.Reachable ∧ (sharedFolder.store.tables.row? sharedHome).isSome ∧
      putNote.writer? = some ⟨"bob"⟩ ∧ putNote.IsFresh sharedFolder ∧
      (sharedFolder.perform putNote).2.store.tables.liveRules sharedHome =
        sharedFolder.store.tables.liveRules sharedHome := by
  have hr : (sharedFolder.store.tables.row? sharedHome).isSome := by decide +kernel
  refine ⟨reachable_sharedFolder, hr, rfl, trivial, ?_⟩
  have hfresh : putNote.IsFresh sharedFolder := trivial
  refine (liveRules_eq_iff reachable_sharedFolder hr not_isOwner_bob rfl hfresh).mpr ?_
  exact fun _ row _ h => nomatch h

/-- A deletion by an editor may leave them otherwise. -/
theorem exists_liveRules_ne :
    ¬∀ (w : Workspace) (call : Call) (p : Principal) (r : ResourceId), w.Reachable →
      (w.store.tables.row? r).isSome →
        (∀ a, (w.store.authorize p r).answer = .ok a → a.isOwner = false) →
          call.writer? = some p → call.IsFresh w →
            (w.perform call).2.store.tables.liveRules r = w.store.tables.liveRules r := by
  intro h
  have heq := h sharedFolder deletedRule ⟨"bob"⟩ sharedHome reachable_sharedFolder
    (by decide +kernel) not_isOwner_bob rfl trivial
  exact absurd (congrArg List.length heq) (by decide +kernel)

end Workspace

end Fieldbook
