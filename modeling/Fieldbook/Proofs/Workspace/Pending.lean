import Fieldbook.Proofs.Store.Connections
import Fieldbook.Proofs.Workspace.Agreement
import Fieldbook.Proofs.Workspace.Hidden

/-!
# Proofs/Workspace/Pending — what a write shows before its commit

A pending write stands in the row of its resource, in the place of what was committed there.  Until
it is committed, lists and queries leave the row out (`pending_hidden`).  For a resource that is new
this is as if nothing had been written.  A resource that was there vanishes; a form that was there
can be no more asked for; and where the resource is moved, the rights on all that stands under it may
be others at once.  Marks of deletion are found as before.

All of this is said of values that can be read again.  A value that is nested too deeply is written
all the same, and no list or query that comes to its row is answered any more.
-/

namespace Fieldbook

/-! ## Commits of a store with a pending write -/

namespace Store

variable {s s' : Store} {r : Resource} {m marker : Marker} {p : Principal} {now : Int}
  {v : Option Nat}

/-- What can be told of markers is told after a pending write. -/
theorem commitVersion?_of_pended (hs : s.Accounted) (hs' : s'.Accounted)
    (htables : s'.tables = s.tables.pended r marker p now) (h : s.commitVersion? m = .ok v) :
    s'.commitVersion? m = .ok v := by
  rw [hs.commitVersion?_reopened, reopened, commitVersion?, List.lookup_nil] at h
  rw [hs'.commitVersion?_reopened, reopened, commitVersion?, List.lookup_nil, htables,
    Tables.commit?_pended]
  cases hm : s.tables.commit? m with
  | none => simp [hm] at h
  | some c => simpa [hm] using h

/-- The new marker has no version. -/
theorem commitVersion?_pended (hs' : s'.Accounted)
    (htables : s'.tables = s.tables.pended r marker p now)
    (hfresh : s.tables.commit? marker = none) : s'.commitVersion? marker = .ok none := by
  rw [hs'.commitVersion?_reopened, reopened, commitVersion?, List.lookup_nil, htables,
    Tables.commit?_pended, hfresh]
  simp

end Store

namespace Workspace

variable {w w' : Workspace} {p q : Principal} {now : Int} {m : Marker} {r : Resource}
  {path : List ResourceId} {b : Bool}

/-! ## Walks of a workspace with a pending write -/

/-- A resource that may be written has an owner that is live, without the resource itself. -/
theorem Writable.walk_owner (h : w.Writable r) :
    ∃ path, w.store.tables.MarkWalk r.owner path false ∧ r.id ∉ path := by
  cases h with
  | new new owner =>
    obtain ⟨path, hwalk⟩ := Store.isDeleted_ok_iff.mp (Store.requireLive_ok.mp owner)
    refine ⟨path, hwalk, fun hmem => ?_⟩
    obtain ⟨-, row, entry, found, -⟩ := hwalk.exists_read hmem
    cases found.symm.trans new
  | kept below found read live same =>
    have hlive := Store.requireLive_ok.mp live
    obtain ⟨-, howner⟩ := (Store.isDeleted_false_iff below found read).mp hlive
    obtain ⟨path, hwalk⟩ := Store.isDeleted_ok_iff.mp howner
    exact ⟨path, same ▸ hwalk, Tables.Climb.not_mem_of_cons (.step below found (hwalk.climb rfl))⟩
  | moved _ _ _ _ out owner =>
    obtain ⟨path, hwalk⟩ := Store.isDeleted_ok_iff.mp (Store.requireLive_ok.mp owner)
    obtain ⟨path', hclimb, hout⟩ := Store.climb_of_isWithin out
    exact ⟨path, hwalk, hclimb.unique (hwalk.climb rfl) ▸ hout⟩

/-- A resource that may be written is not deleted. -/
theorem Writable.live (h : w.Writable r) (hwalk : w.store.tables.MarkWalk r.id path b) :
    b = false := by
  cases h with
  | new new =>
    rcases hwalk.start with ⟨-, hb⟩ | hsome
    · exact hb
    · rw [new] at hsome
      cases hsome
  | kept _ _ _ live | moved _ _ _ live =>
    obtain ⟨path', hlive⟩ := Store.isDeleted_ok_iff.mp (Store.requireLive_ok.mp live)
    exact (hwalk.unique hlive).2

theorem Writable.read (h : w.Writable r) {row : Row} (hrow : w.store.tables.row? r.id = some row) :
    ∃ e, row.read = .ok e := by
  cases h with
  | new new => cases hrow.symm.trans new
  | kept _ found read | moved _ found read =>
    obtain rfl := Option.some.inj (hrow.symm.trans found)
    exact ⟨_, read⟩

/-- **A pending write hides the row of its resource,** and nothing else. -/
theorem Writable.hides (h : w.Writable r) {s' : Store} (hs : w.store.Accounted)
    (hs' : s'.Accounted) (htables : s'.tables = w.store.tables.pended r m p now)
    (hfresh : w.store.tables.commit? m = none) (hclock : (Instant.ofMillis? now).isSome)
    (hshallow : r.value.Shallow) : w.store.Hides r.id s' := by
  have hrows : s'.tables.rows = Row.write r (.pending m) p now w.store.tables.rows := by
    rw [htables]
    rfl
  have hrow? := Tables.row?_of_write hrows
  have hrow := (hrow? r.id).trans (if_pos rfl)
  have hsame : ∀ y, y ≠ r.id → s'.tables.row? y = w.store.tables.row? y :=
    fun y hy => (hrow? y).trans (if_neg hy)
  obtain ⟨entry, hread⟩ : ∃ entry,
      (Row.afterWrite r (.pending m) p now (w.store.tables.row? r.id)).read = .ok entry :=
    Row.exists_read_afterWrite (fun _ hv => nomatch hv) (fun _ hold => h.read hold) hclock hshallow
  obtain ⟨path, howner, hout⟩ := h.walk_owner
  have howner' : s'.tables.MarkWalk r.owner path false :=
    howner.of_same fun y hy => hsame y fun heq => hout (heq ▸ hy)
  refine ⟨?_, hs'.tables.distinct, ⟨_, entry, m, hrow, hread, Row.afterWrite_deleted _, ?_,
    Row.afterWrite_stamp _, Store.commitVersion?_pended hs' htables hfresh⟩,
    fun m' v => Store.commitVersion?_of_pended hs hs' htables, fun id b hb => ?_⟩
  · rw [hrows]
    refine Row.filter_write (fun row _ hid => ?_) ?_
    · simp [hid]
    · simp
  · rw [Row.afterWrite_owner]
    exact Store.isDeleted_ok_iff.mpr ⟨path, howner'⟩
  · obtain ⟨way, hwalk⟩ := Store.isDeleted_ok_iff.mp hb
    refine Store.isDeleted_ok_iff.mpr (hwalk.transfer hsame fun {way b} hk => ?_)
    obtain rfl := h.live hk
    by_cases below : r.id = .root
    · exact ⟨[], below ▸ .root⟩
    · rw [← Row.afterWrite_owner (r := r) (w.store.tables.row? r.id)] at howner'
      exact ⟨_, .up below hrow hread (Row.afterWrite_deleted _) howner'⟩

/-! ## Pending writes -/

/-- What a pending write that is done leaves behind. -/
theorem tables_of_putPending (h : (w.perform (.putPending p now m r)).1.isOk = true) :
    (w.checkWrite p r).answer = .ok () ∧
      (w.perform (.putPending p now m r)).2.store.tables = w.store.tables.pended r m p now := by
  have hrequest : w.Answered ⟨w.checkWrite p r, .putPending p now m r⟩
      (w.perform (.putPending p now m r)).1 (w.perform (.putPending p now m r)).2.store :=
    perform_request rfl
  generalize (w.perform (.putPending p now m r)).2.store = s' at hrequest ⊢
  generalize (w.perform (.putPending p now m r)).1 = outcome at hrequest h
  cases hrequest with
  | refused => cases h
  | done allowed performed =>
    refine ⟨allowed, ?_⟩
    cases performed with
    | putPending => rw [Store.learnAll_tables]

/-- The owner of a resource that was there is another one than in a pending write. -/
def Moved (w : Workspace) (r : Resource) : Prop :=
  ∃ row, w.store.tables.row? r.id = some row ∧ row.owner ≠ r.owner

/-- **A pending write keeps rights** on what does not stand under the resource.  If it moves the
resource and keeps the rights of a principal there, or does not move it, it keeps them everywhere. -/
theorem rightsKept_of_pended (hs : w.store.tables.Sound) (hs' : w'.store.tables.Sound)
    (htables : w'.store.tables = w.store.tables.pended r m p now)
    (hr : AccessRule.isRuleId r.id = false) (hwritable : w.Writable r) (hshallow : r.value.Shallow)
    {y : ResourceId} (hy : (w.store.tables.row? y).isSome)
    (hcase : w.store.isWithin y r.id = .ok false ∨ (w.Moved r → RightsKept w w' q r.id)) :
    RightsKept w w' q y := by
  have hrows : w'.store.tables.rows = Row.write r (.pending m) p now w.store.tables.rows := by
    rw [htables]
    rfl
  have hrow? := Tables.row?_of_write hrows
  have hrow := (hrow? r.id).trans (if_pos rfl)
  have hapart : w.store.tables.ApartAt w'.store.tables r.id := by
    refine ⟨hs, hs', fun id hid => (hrow? id).trans (if_neg hid), fun _ => by rw [hrow]; rfl, ?_, ?_⟩
    · intro row row' hfound hfound'
      rw [hrow, hfound] at hfound'
      obtain rfl := Option.some.inj hfound'
      rfl
    · intro row row' hfound hfound'
      obtain ⟨e, hread⟩ := hwritable.read hfound
      obtain rfl := Option.some.inj (hrow.symm.trans hfound')
      rw [Row.isSome_record?_of_read hread]
      exact (Row.isSome_record?_afterWrite _).mpr hshallow
  have hname : ∀ y, AccessRule.idFor y q ≠ r.id := by
    intro y hid
    cases hr.symm.trans (hid ▸ AccessRule.isRuleId_idFor y q)
  rcases hcase with hout | hkept
  · obtain ⟨path, hclimb, hout⟩ := Store.climb_of_isWithin hout
    exact rightsKept_of_climb hapart hname hclimb hout
  · refine rightsKept_of_apartAt hapart (fun y _ hid => absurd hid (hname y)) (fun hmoves => ?_)
      (.inr hy)
    obtain ⟨row, row', hfound, hfound', hne⟩ := hmoves
    rw [hrow] at hfound'
    obtain rfl := Option.some.inj hfound'
    rw [Row.afterWrite_owner] at hne
    exact hkept ⟨row, hfound, hne.symm⟩

/-- **A pending write that cannot be read** keeps lists and queries that come to it from being
answered. -/
theorem not_answered_of_pended
    (htables : w'.store.tables = w.store.tables.pended r m p now) (hdeep : ¬r.value.Shallow) :
    (∀ q cs, (w'.children q r.owner).answer ≠ .ok cs) ∧
      ∀ q c, q.form = r.classId → (w'.query q).answer ≠ .ok c := by
  have hrows : w'.store.tables.rows = Row.write r (.pending m) p now w.store.tables.rows := by
    rw [htables]
    rfl
  have hmem := OwnerChain.row?_mem ((Tables.row?_of_write hrows r.id).trans (if_pos rfl))
  have hunread : ∀ e,
      (Row.afterWrite r (.pending m) p now (w.store.tables.row? r.id)).read ≠ .ok e :=
    fun e hread => hdeep (Row.shallow_of_read hread)
  refine ⟨fun q cs hcs => ?_, fun q c hform hc => ?_⟩
  · obtain ⟨-, htold, -⟩ := children_ok.mp hcs
    obtain ⟨e, _, hread, -⟩ := htold _ (List.mem_filter.mpr ⟨hmem, by simp⟩)
    exact hunread e hread
  · obtain ⟨_, _, _, hq, -⟩ := query_ok_iff.mp hc
    obtain ⟨e, _, hread, -⟩ := hq.told _ (List.mem_filter.mpr ⟨hmem, by simp [hform]⟩)
    exact hunread e hread

/-- A call that writes nothing. -/
def Quiet (w : Workspace) (call : Call) : Prop := (w.perform call).2.store.tables = w.store.tables

instance (w : Workspace) (call : Call) : Decidable (Quiet w call) :=
  inferInstanceAs (Decidable (_ = _))

theorem maxTreeDepth_guarded {α : Type} (w : Workspace) (check : Reading WorkspaceError Unit)
    (t : Transaction α) : (w.guarded check t).2.maxTreeDepth = w.maxTreeDepth := by
  rw [guarded, read, Store.run]
  cases check.answer <;> rfl

theorem maxTreeDepth_perform (w : Workspace) (call : Call) :
    (w.perform call).2.maxTreeDepth = w.maxTreeDepth := by
  cases call with
  | createRootFolder =>
    change (w.createRootFolder _ _ _ _).2.maxTreeDepth = _
    rw [createRootFolder, maxTreeDepth_guarded]
  | put | putForm | putPending | delete | grant | revoke => exact maxTreeDepth_guarded w _ _
  | commitPending m =>
    change (w.commitPending m).2.maxTreeDepth = _
    rw [commitPending]
    rcases w.store.commit m with ⟨e | v, s⟩ <;> rfl
  | _ => rfl

/-- A run that writes nothing leaves what readers rest on. -/
theorem run_quiet : ∀ (calls : List Call) {w : Workspace}, AllowedAlong Quiet w calls →
    w.store.Accounted → (w.run calls).store.tables = w.store.tables ∧
      (w.run calls).store.Accounted ∧ (w.run calls).maxTreeDepth = w.maxTreeDepth
  | [], _, _, hs => ⟨rfl, hs, rfl⟩
  | call :: rest, w, ⟨hquiet, hall⟩, hs => by
    obtain ⟨htables, hs', hdepth⟩ := run_quiet rest hall (accounted_perform hs call)
    exact ⟨htables.trans hquiet, hs', hdepth.trans (maxTreeDepth_perform w call)⟩

/-- **What a write shows before its commit.**  A pending write is done under a new marker, at a time
that can be read back, and after it nothing is written for a while.  Let its value not be nested too
deeply to be read.  If the resource is new, every list of children and every query that was answered
is answered as before.

If the resource is not moved, everybody's rights are as before; else they are on what does not stand
under it, and are for whom they are on the resource itself.  Where rights are kept on the rows of an
owner, the list of children has lost that of the name, if there was one.  Where they are kept on a
form and its rows, a query is answered as before exactly when it has not shown the resource, nor read
it as a form.

A value that is nested too deeply is not read: its owner has no list of children any more, and no
query of its class is answered. -/
theorem pending_hidden (hw : w.Reachable)
    (hok : (w.perform (.putPending p now m r)).1.isOk = true)
    (hfresh : w.store.tables.commit? m = none) (hclock : (Instant.ofMillis? now).isSome)
    {later : List Call}
    (hquiet : AllowedAlong Quiet (w.perform (.putPending p now m r)).2 later)
    (hw' : w' = (w.perform (.putPending p now m r)).2.run later) :
    (r.value.Shallow →
      (w.store.tables.row? r.id = none →
        (∀ q o cs, (w.children q o).answer = .ok cs → (w'.children q o).answer = .ok cs) ∧
        ∀ q c, (w.query q).answer = .ok c → (w'.query q).answer = .ok c) ∧
      (∀ q y, (w.store.tables.row? y).isSome →
        (w.store.isWithin y r.id = .ok false ∨ (w.Moved r → RightsKept w w' q r.id)) →
          RightsKept w w' q y) ∧
      (∀ q o cs, (w.children q o).answer = .ok cs → RightsKeptBut r.id w w' q (·.owner = o) →
        (w'.children q o).answer = .ok (cs.filter (·.id ≠ r.id))) ∧
      ∀ q c, (w.query q).answer = .ok c →
        RightsKeptBut r.id w w' q.principal (fun row => row.id = q.form ∨ row.classId = q.form) →
          ((w'.query q).answer = .ok c ↔ ¬w.Shows q r.id ∧ Lookup.form r.id ∉
            (FormTree.build (.ofStore w.store) w.maxTreeDepth q.form).lookups)) ∧
    (¬r.value.Shallow → (∀ q cs, (w'.children q r.owner).answer ≠ .ok cs) ∧
      ∀ q c, q.form = r.classId → (w'.query q).answer ≠ .ok c) := by
  have hs := accounted_of_reachable hw
  have hdistinct := hs.tables.distinct
  obtain ⟨hallowed, hpended⟩ := tables_of_putPending hok
  obtain ⟨⟨-, hr⟩, hwritable⟩ := writable_of_checkWrite hallowed
  obtain ⟨htables, hs', hdepth⟩ := run_quiet later hquiet (accounted_perform hs _)
  rw [← hw'] at htables hs' hdepth
  have hsound' : w'.store.tables.Sound := by
    rw [htables]
    exact sound_of_reachable (.call hw trivial)
  rw [hpended] at htables
  rw [maxTreeDepth_perform] at hdepth
  refine ⟨fun hshallow => ?_, not_answered_of_pended htables⟩
  have hhides : w.Hides r.id w' :=
    ⟨hwritable.hides hs hs' htables hfresh hclock hshallow, hdepth⟩
  have hrights : ∀ q y, (w.store.tables.row? y).isSome →
      (w.store.isWithin y r.id = .ok false ∨ (w.Moved r → RightsKept w w' q r.id)) →
        RightsKept w w' q y :=
    fun q y hy hcase =>
      rightsKept_of_pended (sound_of_reachable hw) hsound' htables hr hwritable hshallow hy hcase
  refine ⟨fun hnew => ?_, hrights, fun q o cs hcs hkept => hhides.children hkept hcs,
    fun q c hc hkept => hhides.query_iff hkept hdistinct hc⟩
  have hkept : ∀ q test, RightsKeptBut r.id w w' q test := by
    intro q test row hmem _ _
    refine hrights q row.id (Row.isSome_find?_iff.mpr ⟨row, hmem, rfl⟩) (.inr ?_)
    rintro ⟨old, hold, -⟩
    cases hold.symm.trans hnew
  exact ⟨fun q o cs hcs => hhides.children_of_new (hkept q _) hnew hcs,
    fun q c hc => hhides.query_of_new (hkept _ _) hdistinct hnew hc⟩

/-! ## A resource that vanishes -/

/-- A resource of the class is written, and not committed. -/
def pendingSite (id : ResourceId) : Call :=
  .putPending ⟨"alice"⟩ 0 ⟨"n"⟩ (.new id surveyFolder ⟨"site"⟩ .empty)

/-- The survey with the pending write, once a query has looked for its commit. -/
def surveyPending (id : ResourceId) : Workspace :=
  (surveyHome.perform (pendingSite id)).2.run [.query siteNames]

/-- Both writes are done, and the query writes nothing.  The resource that was there keeps its
rights, but not its row in the query. -/
theorem pended_surveyHome :
    surveyHome.store.tables.commit? ⟨"n"⟩ = none ∧
    surveyHome.store.tables.row? ⟨"s4"⟩ = none ∧
    (surveyHome.get ⟨"alice"⟩ ⟨"s2"⟩).answer.toOption.map (·.classId) = some ⟨"site"⟩ ∧
    (∀ id ∈ [⟨"s2"⟩, ⟨"s4"⟩], (surveyHome.perform (pendingSite id)).1.isOk = true ∧
      AllowedAlong Quiet (surveyHome.perform (pendingSite id)).2 [.query siteNames]) ∧
    RightsKept surveyHome (surveyPending ⟨"s2"⟩) ⟨"alice"⟩ ⟨"s2"⟩ ∧
    ((surveyPending ⟨"s2"⟩).query siteNames).answer.toOption ≠ some shownNames := by
  decide +kernel

/-- A new resource does not show; the one that was there shows no more. -/
theorem pending_hidden_pendingSite :
    surveyHome.Reachable ∧ surveyHome.store.tables.commit? ⟨"n"⟩ = none ∧
      (surveyHome.query siteNames).answer = .ok shownNames ∧
      ((surveyPending ⟨"s4"⟩).query siteNames).answer = .ok shownNames ∧
      ((surveyPending ⟨"s2"⟩).query siteNames).answer ≠ .ok shownNames ∧
      (surveyHome.children ⟨"alice"⟩ surveyFolder).answer = .ok shownChildren ∧
      ((surveyPending ⟨"s4"⟩).children ⟨"alice"⟩ surveyFolder).answer = .ok shownChildren ∧
      ((surveyPending ⟨"s2"⟩).children ⟨"alice"⟩ surveyFolder).answer =
        .ok (shownChildren.filter (·.id ≠ ⟨"s2"⟩)) := by
  obtain ⟨hc, hcs⟩ := shown_surveyHome
  obtain ⟨hfresh, hnone, hclass, hdone, hrightsKept, -⟩ := pended_surveyHome
  obtain ⟨hok, hquiet⟩ := hdone ⟨"s2"⟩ (by decide)
  obtain ⟨hnewOk, hnewQuiet⟩ := hdone ⟨"s4"⟩ (by decide)
  have hclock : (Instant.ofMillis? 0).isSome := by decide
  have hshallow : Record.empty.Shallow := by decide
  obtain ⟨hnew, -⟩ :=
    (pending_hidden reachable_surveyHome hnewOk hfresh hclock hnewQuiet rfl).1 hshallow
  obtain ⟨hsameChildren, hsameQuery⟩ := hnew hnone
  obtain ⟨-, hrights, hchildren, hquery⟩ :=
    (pending_hidden reachable_surveyHome hok hfresh hclock hquiet rfl).1 hshallow
  have hkept : ∀ test, RightsKeptBut ⟨"s2"⟩ surveyHome (surveyPending ⟨"s2"⟩) ⟨"alice"⟩ test := by
    intro test row hmem _ _
    exact hrights _ _ (Row.isSome_find?_iff.mpr ⟨row, hmem, rfl⟩) (.inr fun _ => hrightsKept)
  refine ⟨reachable_surveyHome, hfresh, hc, hsameQuery _ _ hc, fun h => ?_, hcs,
    hsameChildren _ _ _ hcs, hchildren _ _ _ hcs (hkept _)⟩
  -- the query has shown the resource
  obtain ⟨r, hr, hclass⟩ := Option.map_eq_some_iff.mp hclass
  exact ((hquery _ _ hc (hkept _)).mp h).1 ⟨r, none, toOption_eq_some.mp hr, hclass, rfl, rfl⟩

/-- So a write may show before its commit, by what it takes away. -/
theorem exists_pending_shown :
    ¬∀ (w : Workspace) (p : Principal) (now : Int) (m : Marker) (r : Resource) (later : List Call),
      w.Reachable → (w.perform (.putPending p now m r)).1.isOk = true →
        w.store.tables.commit? m = none →
        AllowedAlong Quiet (w.perform (.putPending p now m r)).2 later →
          (∀ q o cs, (w.children q o).answer = .ok cs →
            (((w.perform (.putPending p now m r)).2.run later).children q o).answer = .ok cs) ∧
          ∀ q c, (w.query q).answer = .ok c →
            (((w.perform (.putPending p now m r)).2.run later).query q).answer = .ok c := by
  intro h
  obtain ⟨hfresh, -, -, hdone, -, hshown⟩ := pended_surveyHome
  obtain ⟨hok, hquiet⟩ := hdone ⟨"s2"⟩ (by decide)
  obtain ⟨-, hquery⟩ := h surveyHome _ _ _ _ _ reachable_surveyHome hok hfresh hquiet
  exact hshown (toOption_eq_some.mpr (hquery siteNames shownNames shown_surveyHome.1))

end Workspace

end Fieldbook
