import Fieldbook.Proofs.Workspace.Sound

/-!
# Proofs/Workspace/Reachable — the workspaces that calls lead to

A workspace is reachable when calls lead to it from one that nothing has been written to.  Which
calls are made may be restricted (`ReachableBy`); the restriction made everywhere is that the name
of a new folder is fresh (`Call.IsFresh`), since folders are named by a generator and not by the
caller.  Every reachable workspace is accounted for and sound.
-/

namespace Fieldbook

/-- The name of a new folder is a generated one that no row has. -/
def Call.IsFresh (w : Workspace) : Call → Prop
  | .createRootFolder _ _ id _ => id.IsGenerated ∧ w.store.tables.row? id = none
  | _ => True

instance (w : Workspace) (call : Call) : Decidable (call.IsFresh w) := by
  unfold Call.IsFresh
  split <;> infer_instance

namespace Workspace

variable {w : Workspace} {call : Call} {allowed allowed' : Workspace → Call → Prop}

theorem isOrdinary_rootFolder {id : ResourceId} (h : id.IsGenerated) (label : String) :
    (rootFolder id label).IsOrdinary := by
  refine ⟨?_, AccessRule.isRuleId_of_isGenerated h⟩
  change folderClass ≠ AccessRule.classId
  decide

/-- A new folder stands under the root. -/
theorem sound_of_folder {t : Tables} {owner : Principal} {now : Int} {id : ResourceId}
    {label : String} {v : Nat} (ht : t.Sound) (hgen : id.IsGenerated) (pos : 0 < v) :
    (t.written (rootFolder id label) v owner now).Sound := by
  have hrow := isOrdinary_rootFolder hgen label
  exact ht.of_write rfl (Row.sound_afterWrite hrow fun _ => Stamp.pos_of_committed pos) (.inl rfl)

/-- **Every call leads from sound tables to sound tables.** -/
theorem sound_of_change {outcome : Except WorkspaceError Answer} {rows : List Row} {t' : Tables}
    (h : w.Change call outcome rows) (hs : w.store.tables.Sound) (hfresh : call.IsFresh w)
    (hrows : t'.rows = rows) : t'.Sound := by
  cases h with
  | refused | read => exact hs.of_rows_eq hrows
  | @folder owner now id label a v v' pos pos' =>
    -- the rule is written into tables that have the folder already
    let t := w.store.tables.written (rootFolder id label) v owner now
    have ht : t.Sound := sound_of_folder hs hfresh.1 pos
    have hid : t.Has id := Tables.has_written (r := rootFolder id label) rfl
    exact ht.of_write hrows (Row.sound_afterWrite_rule rfl pos') (hid.of_write hrows)
  | write _ allowed pos =>
    obtain ⟨hord, hadmits⟩ := checkWrite_ok allowed
    exact hs.of_write hrows (Row.sound_afterWrite hord pos) ((hadmits.has hs).of_write hrows)
  | grant allowed pos =>
    have hthere := Store.isSome_of_requireOwner hs allowed
    exact hs.of_write hrows (Row.sound_afterWrite_rule rfl pos)
      (Tables.Has.of_write (.inr hthere) hrows)
  | delete _ pos | revoke _ pos =>
    exact hs.of_edit hrows (Row.keeps_mark _ _) fun row h => h.mark pos
  | commit pos =>
    exact hs.of_edit hrows (Row.keeps_restamp _ _) fun row h => h.restamp pos

/-! ## Reachable workspaces -/

/-- Calls that are allowed where they are made lead to the workspace from an empty one. -/
inductive ReachableBy (allowed : Workspace → Call → Prop) : Workspace → Prop where
  | empty (maxTreeDepth : Nat) : ReachableBy allowed (empty maxTreeDepth)
  | call {w : Workspace} {call : Call} (before : ReachableBy allowed w) (h : allowed w call) :
      ReachableBy allowed (w.perform call).2

theorem ReachableBy.mono (h : w.ReachableBy allowed)
    (hle : ∀ w call, allowed w call → allowed' w call) : w.ReachableBy allowed' := by
  induction h with
  | empty maxTreeDepth => exact .empty maxTreeDepth
  | call _ hcall ih => exact .call ih (hle _ _ hcall)

/-- Calls that lead to the workspace name new folders freshly. -/
abbrev Reachable (w : Workspace) : Prop := w.ReachableBy fun w call => call.IsFresh w

theorem accounted_of_reachable (h : w.ReachableBy allowed) : w.store.Accounted := by
  induction h with
  | empty => exact Store.accounted_empty
  | call _ _ ih => exact accounted_perform ih _

/-- **Reachable workspaces are sound.** -/
theorem sound_of_reachable (h : w.Reachable) : w.store.tables.Sound := by
  induction h with
  | empty => exact Tables.sound_empty
  | @call w call before hfresh ih =>
    have hchange := change_of_perform (accounted_of_reachable before) call
    exact sound_of_change hchange ih hfresh rfl

/-! ## Runs -/

/-- Each call of a run is allowed where it is made. -/
def AllowedAlong (allowed : Workspace → Call → Prop) : Workspace → List Call → Prop
  | _, [] => True
  | w, call :: rest => allowed w call ∧ AllowedAlong allowed (w.perform call).2 rest

instance decidableAllowedAlong [∀ w call, Decidable (allowed w call)] :
    ∀ (w : Workspace) (calls : List Call), Decidable (AllowedAlong allowed w calls)
  | _, [] => .isTrue trivial
  | w, call :: rest =>
    have := decidableAllowedAlong (w.perform call).2 rest
    inferInstanceAs (Decidable (_ ∧ _))

theorem ReachableBy.run : ∀ (calls : List Call) {w : Workspace}, w.ReachableBy allowed →
    AllowedAlong allowed w calls → (w.run calls).ReachableBy allowed
  | [], _, h, _ => h
  | _ :: rest, _, h, hall => ReachableBy.run rest (.call h hall.1) hall.2

end Workspace

end Fieldbook
