import Fieldbook.Proofs.Ownership.Failures
import Fieldbook.Proofs.Workspace.Reachable

/-!
# Proofs/Ownership/Tree — ownership stays a tree

`Tables.Forest` says that every owner climbs to the root.  A write keeps it if the owner of the
written resource climbs to the root without the resource itself (`Forest.of_write`): an old climb is
then followed up to the resource, and from there goes on as the new owner does.  The checks of a
workspace make sure of that, apart from a grant.  A grant would move the row of a rule if the name
belonged to a rule at another resource, and it does not where rules are granted at plain resources
(`admits_granted`).

In a forest no chain is broken, so the readings that walk along chains meet no contradiction of
owners (`ownership_tree`).
-/

namespace Fieldbook

namespace Tables

variable {t t' : Tables} {r : Resource} {stamp : Stamp} {p : Principal} {now : Int}
  {id x : ResourceId} {path : List ResourceId} {row : Row} {edit : Row → Row}

/-- Every owner climbs to the root. -/
def Forest (t : Tables) : Prop := ∀ row ∈ t.rows, ∃ path, t.Climb row.owner path

theorem forest_empty : Tables.empty.Forest := fun _ h => nomatch h

/-! ## Climbs in a forest -/

theorem Climb.ne_root (h : t.Climb id path) : x ∈ path → x ≠ .root := by
  induction h with
  | root =>
    intro hx
    exact absurd hx List.not_mem_nil
  | step below _ _ ih =>
    intro hx
    rcases List.mem_cons.mp hx with rfl | hx
    · exact below
    · exact ih hx

/-- No resource owns one of its owners. -/
theorem Climb.not_mem (h : t.Climb row.owner path) (hrow : t.row? id = some row) : id ∉ path := by
  intro hmem
  exact not_mem_of_cons (.step (h.ne_root hmem) hrow h) hmem

theorem Forest.climb_owner (ht : t.Forest) (hrow : t.row? id = some row) :
    ∃ path, t.Climb row.owner path :=
  ht row (OwnerChain.row?_mem hrow)

theorem Forest.climb (ht : t.Forest) (hid : t.Has id) : ∃ path, t.Climb id path := by
  by_cases hroot : id = .root
  · exact ⟨[], hroot ▸ .root⟩
  · obtain ⟨row, hrow⟩ := Option.isSome_iff_exists.mp (hid.resolve_left hroot)
    obtain ⟨path, hclimb⟩ := ht.climb_owner hrow
    exact ⟨_, .step hroot hrow hclimb⟩

/-! ## Climbs under writes -/

/-- A climb past other resources goes on as before. -/
theorem Climb.of_write (h : t.Climb id path) (hrows : t'.rows = Row.write r stamp p now t.rows)
    (hout : r.id ∉ path) : t'.Climb id path := by
  induction h with
  | root => exact .root
  | step below found up ih =>
    have hne : _ ≠ r.id := fun e => hout (e ▸ List.mem_cons_self)
    refine .step below ?_ (ih fun hmem => hout (List.mem_cons_of_mem _ hmem))
    rw [row?_of_write hrows, if_neg hne]
    exact found

/-- **An old climb is followed up to the written resource,** and from there as its owner climbs. -/
theorem Climb.through_write (h : t.Climb id path)
    (hrows : t'.rows = Row.write r stamp p now t.rows) {above : List ResourceId}
    (hown : t'.Climb r.owner above) : ∃ path', t'.Climb id path' := by
  induction h with
  | root => exact ⟨[], .root⟩
  | @step id row path below found up ih =>
    by_cases hid : id = r.id
    · subst hid
      have hrow := (row?_of_write hrows r.id).trans (if_pos rfl)
      rw [← Row.afterWrite_owner (r := r) (t.row? r.id)] at hown
      exact ⟨_, .step below hrow hown⟩
    · obtain ⟨path', hup⟩ := ih
      refine ⟨_, .step below ?_ hup⟩
      rw [row?_of_write hrows, if_neg hid]
      exact found

/-- **A write under an owner that climbs without the resource keeps the forest.** -/
theorem Forest.of_write (ht : t.Forest) (hrows : t'.rows = Row.write r stamp p now t.rows)
    (hown : ∃ path, t.Climb r.owner path ∧ r.id ∉ path) : t'.Forest := by
  obtain ⟨above, hclimb, hout⟩ := hown
  have hown' : t'.Climb r.owner above := hclimb.of_write hrows hout
  intro row hmem
  rw [hrows] at hmem
  rcases Row.mem_write hmem with hold | rfl
  · obtain ⟨path, hup⟩ := ht row hold
    exact hup.through_write hrows hown'
  · rw [Row.afterWrite_owner]
    exact ⟨above, hown'⟩

/-- What the tables admit may be written. -/
theorem Admits.climb (h : t.Admits r) (ht : t.Forest) :
    ∃ path, t.Climb r.owner path ∧ r.id ∉ path := by
  cases h with
  | new new climb =>
    refine ⟨_, climb, fun hmem => ?_⟩
    have hsome := climb.row?_isSome hmem
    rw [new] at hsome
    cases hsome
  | kept found same =>
    obtain ⟨path, hclimb⟩ := ht.climb_owner found
    exact ⟨path, same ▸ hclimb, hclimb.not_mem found⟩
  | moved found climb out => exact ⟨_, climb, out⟩

/-! ## Climbs under edits -/

theorem Climb.of_edit (h : t.Climb id path) (hrows : t'.rows = t.rows.map edit)
    (hedit : Row.Keeps edit) : t'.Climb id path := by
  induction h with
  | root => exact .root
  | @step id row path below found _ ih =>
    have hrow : t'.row? id = some (edit row) := by
      rw [row?_of_edit hrows hedit, found]
      rfl
    rw [← hedit.owner row] at ih
    exact .step below hrow ih

theorem Forest.of_edit (ht : t.Forest) (hrows : t'.rows = t.rows.map edit)
    (hedit : Row.Keeps edit) : t'.Forest := by
  intro row hmem
  rw [hrows] at hmem
  obtain ⟨old, hold, rfl⟩ := List.mem_map.mp hmem
  obtain ⟨path, hclimb⟩ := ht old hold
  rw [hedit.owner]
  exact ⟨path, hclimb.of_edit hrows hedit⟩

/-! ## Rules at plain resources -/

/-- Every rule stands at a plain resource. -/
def RulesPlain (t : Tables) : Prop :=
  ∀ row ∈ t.rows, row.classId = AccessRule.classId → row.owner.IsPlain

theorem rulesPlain_empty : Tables.empty.RulesPlain := fun _ h => nomatch h

theorem RulesPlain.of_write (ht : t.RulesPlain) (hrows : t'.rows = Row.write r stamp p now t.rows)
    (hr : r.classId = AccessRule.classId → r.owner.IsPlain) : t'.RulesPlain := by
  intro row hmem hclass
  rw [hrows] at hmem
  rcases Row.mem_write hmem with hold | rfl
  · exact ht row hold hclass
  · rw [Row.afterWrite_classId] at hclass
    rw [Row.afterWrite_owner]
    exact hr hclass

theorem RulesPlain.of_edit (ht : t.RulesPlain) (hrows : t'.rows = t.rows.map edit)
    (hedit : Row.Keeps edit) : t'.RulesPlain := by
  intro row hmem hclass
  rw [hrows] at hmem
  obtain ⟨old, hold, rfl⟩ := List.mem_map.mp hmem
  rw [hedit.classId] at hclass
  rw [hedit.owner]
  exact ht old hold hclass

/-- **A rule granted at a plain resource** is new, or stands there already. -/
theorem admits_granted {rule : AccessRule} (ht : t.Sound) (hforest : t.Forest)
    (hplain : t.RulesPlain) (hthere : (t.row? rule.resource).isSome)
    (hrule : rule.resource.IsPlain) : t.Admits (Workspace.granted rule) := by
  cases hrow : t.row? (Workspace.granted rule).id with
  | none =>
    obtain ⟨path, hclimb⟩ := hforest.climb (.inr hthere : t.Has rule.resource)
    exact .new hrow hclimb
  | some row =>
    refine .kept hrow ?_
    have hfound : t.row? (AccessRule.idFor rule.resource rule.principal) = some row := hrow
    obtain ⟨stored, hstores⟩ := ht.stores hfound
    have hat := hplain row (OwnerChain.row?_mem hfound) hstores.classId
    exact (AccessRule.idFor_inj_of_isPlain hat hrule
      (hstores.id.symm.trans (Row.id_of_find? hfound))).1

end Tables

/-- A grant is of a rule at a plain resource. -/
def Call.IsPlain : Call → Prop
  | .grant _ _ rule => rule.resource.IsPlain
  | _ => True

instance (call : Call) : Decidable call.IsPlain := by
  unfold Call.IsPlain
  split <;> infer_instance

namespace Workspace

variable {w : Workspace} {call : Call}

/-- Calls that name new folders freshly and grant rules at plain resources lead to the
workspace. -/
abbrev PlainlyReachable (w : Workspace) : Prop :=
  w.ReachableBy fun w call => call.IsFresh w ∧ call.IsPlain

theorem PlainlyReachable.reachable (h : w.PlainlyReachable) : w.Reachable :=
  h.mono fun _ _ h => h.1

/-- A new folder climbs to the root in one step. -/
theorem climb_of_folder {t : Tables} {owner : Principal} {now : Int} {id : ResourceId}
    {label : String} {v : Nat} (hgen : id.IsGenerated) :
    (t.written (rootFolder id label) v owner now).Climb id [id] := by
  obtain ⟨row, hrow, howner⟩ : ∃ row,
      (t.written (rootFolder id label) v owner now).row? id = some row ∧ row.owner = .root :=
    ⟨_, (Tables.row?_of_write rfl id).trans (if_pos rfl), Row.afterWrite_owner _⟩
  refine .step hgen.ne_root hrow ?_
  rw [howner]
  exact .root

/-- A new folder stands under the root, and its rule under the folder. -/
theorem forest_of_folder {t t' : Tables} {owner : Principal} {now : Int} {id : ResourceId}
    {label : String} {v v' : Nat} (ht : t.Forest) (hgen : id.IsGenerated)
    (hrows : t'.rows = Row.write (AccessRule.ownerRule id owner).toResource (.committed v') owner
      now (t.written (rootFolder id label) v owner now).rows) : t'.Forest := by
  have hfolder : (t.written (rootFolder id label) v owner now).Forest :=
    ht.of_write rfl ⟨[], .root, List.not_mem_nil⟩
  refine hfolder.of_write hrows ⟨[id], climb_of_folder hgen, fun hmem => ?_⟩
  have hid : AccessRule.idFor id owner = id := List.mem_singleton.mp hmem
  cases (AccessRule.isRuleId_of_isGenerated hgen).symm.trans
    (hid ▸ AccessRule.isRuleId_idFor id owner)

/-- **Every call keeps the forest,** and the rules at plain resources. -/
theorem forest_of_change {outcome : Except WorkspaceError Answer} {rows : List Row} {t' : Tables}
    (h : w.Change call outcome rows) (hs : w.store.tables.Sound) (hforest : w.store.tables.Forest)
    (hplain : w.store.tables.RulesPlain) (hfresh : call.IsFresh w) (hcall : call.IsPlain)
    (hrows : t'.rows = rows) : t'.Forest ∧ t'.RulesPlain := by
  cases h with
  | refused | read =>
    have hsame := Tables.rows_eq_map_self hrows
    exact ⟨hforest.of_edit hsame Row.keeps_self, hplain.of_edit hsame Row.keeps_self⟩
  | @folder owner now id label a v v' pos pos' =>
    refine ⟨forest_of_folder hforest hfresh.1 hrows, ?_⟩
    have hfolder : (w.store.tables.written (rootFolder id label) v owner now).RulesPlain :=
      hplain.of_write rfl fun h => absurd h (isOrdinary_rootFolder hfresh.1 label).1
    exact hfolder.of_write hrows fun _ => hfresh.1.2
  | write asked allowed pos =>
    obtain ⟨⟨hclass, -⟩, hadmits⟩ := checkWrite_ok allowed
    exact ⟨hforest.of_write hrows (hadmits.climb hforest),
      hplain.of_write hrows fun h => absurd h hclass⟩
  | grant allowed pos =>
    have hadmits := Tables.admits_granted hs hforest hplain
      (Store.isSome_of_requireOwner hs allowed) hcall
    exact ⟨hforest.of_write hrows (hadmits.climb hforest), hplain.of_write hrows fun _ => hcall⟩
  | delete | revoke =>
    exact ⟨hforest.of_edit hrows (Row.keeps_mark _ _), hplain.of_edit hrows (Row.keeps_mark _ _)⟩
  | commit =>
    exact ⟨hforest.of_edit hrows (Row.keeps_restamp _ _),
      hplain.of_edit hrows (Row.keeps_restamp _ _)⟩

theorem forest_of_reachable (h : w.PlainlyReachable) :
    w.store.tables.Forest ∧ w.store.tables.RulesPlain := by
  induction h with
  | empty => exact ⟨Tables.forest_empty, Tables.rulesPlain_empty⟩
  | @call w call before hallowed ih =>
    have hchange := change_of_perform (accounted_of_reachable before) call
    have hs := sound_of_reachable (PlainlyReachable.reachable before)
    exact forest_of_change hchange hs ih.1 ih.2 hallowed.1 hallowed.2 rfl

end Workspace

/-! ## Readings in a forest -/

/-- An answer, or a failure that is no contradiction between resources. -/
def Coherent {α : Type} (x : Except WorkspaceError α) : Prop := ∀ c, x ≠ .error (.consistency c)

/-- No contradiction between resources. -/
def WorkspaceError.IsCoherent (e : WorkspaceError) : Prop := ∀ c, e ≠ .consistency c

open WorkspaceError (IsCoherent)

theorem FailsOnly.coherent {α : Type} {x : Except WorkspaceError α} (h : FailsOnly IsCoherent x) :
    Coherent x := fun c hx => h _ hx c rfl

namespace OwnerChain

variable {t : Tables} {id asked : ResourceId} {chain : OwnerChain}

/-- In a forest a chain is unbroken, unless it is asked for a name without a row. -/
theorem unbroken_or_missing (ht : t.Forest) (h : IsAbove t [] id chain) :
    chain.Unbroken ∨ chain = .missing id := by
  by_cases hid : t.Has id
  · obtain ⟨path, hclimb⟩ := ht.climb hid
    exact .inl (unbroken_of_climb hclimb h fun _ _ => List.not_mem_nil)
  · cases h with
    | root => exact absurd (.inl rfl) hid
    | repeated _ again => cases again
    | missing => exact .inr rfl
    | unreadable _ _ found | link _ _ found => exact absurd (.inr (by rw [found]; rfl)) hid

theorem coherent_missingError {α : Type} (id : ResourceId) :
    FailsOnly IsCoherent (.error (missingError id id) : Except WorkspaceError α) := by
  rw [missingError, if_pos rfl]
  exact .error nofun

theorem coherent_isDeleted (h : chain.Unbroken) :
    FailsOnly IsCoherent (chain.isDeleted asked) := by
  induction chain with
  | root => exact .ok _
  | repeated | missing => cases h
  | unreadable => exact .error nofun
  | link entry up ih =>
    rw [isDeleted]
    split
    · exact .ok _
    · exact ih h

theorem coherent_ruledAt {s : Store} {q : Principal}
    {further : Reading WorkspaceError Authorization} (h : FailsOnly IsCoherent further.answer) :
    FailsOnly IsCoherent (s.ruledAt q asked id further).answer := by
  rw [Store.ruledAt_answer]
  split
  · exact .error nofun
  · exact .ok _
  · exact h

theorem coherent_authorize {s : Store} {q : Principal} (h : chain.Unbroken) :
    FailsOnly IsCoherent (chain.authorize s q asked).answer := by
  induction chain with
  | root => exact .ok _
  | repeated | missing => cases h
  | unreadable => exact coherent_ruledAt (.error nofun)
  | link entry up ih => exact coherent_ruledAt (ih h)

end OwnerChain

namespace Store

variable {s : Store} (hs : s.tables.Forest)

include hs

theorem coherent_isDeleted (id : ResourceId) : FailsOnly IsCoherent (s.isDeleted id) := by
  have habove := OwnerChain.isAbove_ownerChain s id
  rw [isDeleted]
  rcases OwnerChain.unbroken_or_missing hs habove with h | h
  · exact OwnerChain.coherent_isDeleted h
  · rw [h]
    exact OwnerChain.coherent_missingError id

theorem coherent_authorize (q : Principal) (id : ResourceId) :
    FailsOnly IsCoherent (s.authorize q id).answer := by
  have habove := OwnerChain.isAbove_ownerChain s id
  rw [authorize]
  rcases OwnerChain.unbroken_or_missing hs habove with h | h
  · exact OwnerChain.coherent_authorize h
  · rw [h]
    exact OwnerChain.coherent_ruledAt (OwnerChain.coherent_missingError id)

theorem coherent_requireLive (id : ResourceId) : FailsOnly IsCoherent (s.requireLive id) :=
  .requireLive (coherent_isDeleted hs id) nofun

end Store

namespace Workspace

variable {w : Workspace}

theorem coherent_get (hs : w.store.tables.Forest) (q : Principal) (id : ResourceId) :
    FailsOnly IsCoherent (w.get q id).answer := by
  refine .reading (.store (fun _ => nofun) _) fun found _ => ?_
  cases found with
  | none => exact .error nofun
  | some r =>
    refine .reading (w.store.coherent_requireLive hs id) fun _ _ => ?_
    exact .reading (.requireView (fun _ _ _ => nofun) (w.store.coherent_authorize hs q id))
      fun _ _ => .ok _

theorem coherent_child? (hs : w.store.tables.Forest) (q : Principal) (e : Entry) :
    FailsOnly IsCoherent (w.child? q e).answer := by
  rw [child?]
  split
  · exact .ok _
  · refine .reading (.store (fun _ => nofun) _) fun found _ => ?_
    cases found with
    | none => exact .ok _
    | some v => exact .reading (w.store.coherent_authorize hs q e.id) fun _ _ => .ok _

theorem coherent_children (hs : w.store.tables.Forest) (q : Principal) (owner : ResourceId) :
    FailsOnly IsCoherent (w.children q owner).answer := by
  have hlist : FailsOnly IsCoherent (do
      let entries ← .ofExcept ((w.store.children owner).mapError .store)
      Reading.collect (w.child? q) entries : Reading WorkspaceError (List Child)).answer :=
    .reading (.store (fun _ => nofun) _) fun _ _ => .collect fun e _ => coherent_child? hs q e
  rw [children]
  split
  · exact .reading (w.store.coherent_requireLive hs owner) fun _ _ => hlist
  · exact hlist

/-- **Ownership stays a tree.**  In every workspace that calls lead to, where folders are named
freshly and rules granted at plain resources, the owners of every row lead to the root through rows,
and no name is met twice.  So nobody who asks whether a resource is deleted, for rights, for
children or for a resource is told of owners that contradict each other. -/
theorem ownership_tree (hw : w.PlainlyReachable) :
    (∀ row ∈ w.store.tables.rows,
      ∃ path, w.store.tables.Climb row.owner path ∧ (row.id :: path).Nodup) ∧
    (∀ id, Coherent (w.perform (.isDeleted id)).1) ∧
    (∀ q id, Coherent (w.perform (.authorize q id)).1) ∧
    (∀ q owner, Coherent (w.perform (.children q owner)).1) ∧
    (∀ q id, Coherent (w.perform (.get q id)).1) := by
  have hforest := (forest_of_reachable hw).1
  have hdistinct := (accounted_of_reachable hw).tables.distinct
  refine ⟨fun row hmem => ?_, fun id => ?_, fun q id => ?_, fun q owner => ?_, fun q id => ?_⟩
  · obtain ⟨path, hclimb⟩ := hforest row hmem
    have hrow : w.store.tables.row? row.id = some row := Row.find?_of_mem hdistinct hmem
    exact ⟨path, hclimb, List.nodup_cons.mpr ⟨hclimb.not_mem hrow, hclimb.nodup⟩⟩
  · exact ((w.store.coherent_isDeleted hforest id).map _).coherent
  · exact ((w.store.coherent_authorize hforest q id).map _).coherent
  · exact ((coherent_children hforest q owner).map _).coherent
  · exact ((coherent_get hforest q id).map _).coherent

/-- A folder with unusual inhabitants: a resource of the name of the root, one that a rule owns, and
one that a pending write has moved beneath it. -/
def unusualHome : Workspace :=
  let home : ResourceId := ⟨"c0198c3f2a7b07d1e9f5b4c6d8e0f1a2b"⟩
  let rule := AccessRule.idFor home ⟨"bob"⟩
  (empty 16).run
    [.createRootFolder ⟨"alice"⟩ 0 home "Home",
      .put ⟨"alice"⟩ 0 (.new .root home folderClass .empty),
      .grant ⟨"alice"⟩ 0 (.ownerRule home ⟨"bob"⟩),
      .put ⟨"alice"⟩ 0 (.new ⟨"note"⟩ home folderClass .empty),
      .put ⟨"bob"⟩ 0 (.new ⟨"x-y"⟩ rule folderClass .empty),
      .putPending ⟨"bob"⟩ 0 ⟨"m"⟩ (.new ⟨"note"⟩ ⟨"x-y"⟩ folderClass .empty)]

theorem ownership_tree_unusualHome :
    unusualHome.PlainlyReachable ∧ unusualHome.store.tables.rows.length = 6 ∧
      ∀ row ∈ unusualHome.store.tables.rows,
        ∃ path, unusualHome.store.tables.Climb row.owner path ∧ (row.id :: path).Nodup := by
  have hw : unusualHome.PlainlyReachable := ReachableBy.run _ (.empty 16) (by decide +kernel)
  exact ⟨hw, by decide +kernel, (ownership_tree hw).1⟩

end Workspace

end Fieldbook
