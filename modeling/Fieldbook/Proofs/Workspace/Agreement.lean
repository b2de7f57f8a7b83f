import Fieldbook.Proofs.Keyed
import Fieldbook.Proofs.Workspace.Changes
import Fieldbook.Proofs.Workspace.Listings
import Fieldbook.Proofs.Workspace.Reachable

/-!
# Proofs/Workspace/Agreement — three ways to read, one answer

What `get` answers of the rows that pass a test is one list (`gettable`), in the order of the rows.
Children are that list for the rows of an owner (`children_eq`), and a query without a filter is that
list for the rows of a class (`ids_submissions`), so that all three agree (`listings_agree`).
-/

namespace Fieldbook

namespace Workspace

variable {w : Workspace} {p : Principal}

/-- The resources that `get` answers with, of the rows that pass a test. -/
def gettable (w : Workspace) (p : Principal) (test : Row → Bool) : List Resource :=
  (w.store.tables.rows.filter test).filterMap fun row => (w.get p row.id).answer.toOption

/-! ## Children -/

/-- **Children are what `get` answers** of the rows of an owner, rules apart. -/
theorem children_eq (hdistinct : (w.store.tables.rows.map (·.id)).Nodup) {o : ResourceId}
    {cs : List Child} (h : (w.children p o).answer = .ok cs) :
    cs = (w.gettable p fun row => row.owner = o ∧ row.classId ≠ AccessRule.classId).map
      Child.ofResource := by
  obtain ⟨howner, hall, rfl⟩ := children_ok.mp h
  rw [gettable, List.map_filterMap, List.filterMap_filter, List.filterMap_filter]
  refine List.filterMap_congr fun row hmem => ?_
  by_cases ho : row.owner = o
  · obtain ⟨e, c, hread, hc⟩ := hall row (List.mem_filter.mpr ⟨hmem, decide_eq_true ho⟩)
    have hrow : w.store.tables.row? row.id = some row := Row.find?_of_mem hdistinct hmem
    have hc' := child?_ok hrow hread (ho ▸ howner) hc
    rw [Row.shown_eq hread hc, hc']
    by_cases hclass : row.classId = AccessRule.classId <;> simp [ho, hclass]
  · simp [ho]

end Workspace

/-! ## Queries -/

namespace Query

variable {tree : FormTree} {name : String} {fields : List String} {ps : List Plan}

/-- The plan for the name of the resource itself. -/
def idPlan : Plan := ⟨idField, .texts, .id⟩

theorem plan_ok {p : Plan} (h : plan tree name = .ok (some p)) :
    p.name = name ∧ (name = idField → p = idPlan) := by
  rw [plan] at h
  split at h
  · next hname =>
    cases h
    exact ⟨rfl, fun _ => by rw [idPlan, hname]⟩
  · next hname =>
    refine ⟨?_, fun h => absurd h hname⟩
    split at h
    · cases h
    · split at h
      · cases h
      · next last _ =>
        -- a field has a column when it has a source and its type can be filled in
        split at h
        case h_4 =>
          cases h
          rfl
        all_goals cases h

theorem plans_ok : ∀ {fields : List String} {ps : List Plan}, plans tree fields = .ok ps →
    (∀ p ∈ ps, p.name = idField → p = idPlan) ∧ (idField ∈ fields → idPlan ∈ ps)
  | [], ps, h => by
    cases h
    exact ⟨fun _ h => absurd h List.not_mem_nil, fun h => absurd h List.not_mem_nil⟩
  | name :: rest, ps, h => by
    rw [plans] at h
    cases hplan : plan tree name with
    | error e => simp [hplan, bind, Except.bind] at h
    | ok p =>
      cases hrest : plans tree rest with
      | error e => simp [hplan, hrest, bind, Except.bind] at h
      | ok more =>
        simp only [hplan, hrest, bind, Except.bind, pure, Except.pure, Except.ok.injEq] at h
        obtain rfl := h
        obtain ⟨hall, hmem⟩ := plans_ok hrest
        constructor
        · intro q hq hname
          rcases List.mem_append.mp hq with hq | hq
          · rw [Option.mem_toList.mp hq] at hplan
            obtain ⟨hq', hid⟩ := plan_ok hplan
            exact hid (hq'.symm.trans hname)
          · exact hall q hq hname
        · intro hid
          rcases List.mem_cons.mp hid with rfl | hid
          · rw [plan, if_pos rfl] at hplan
            cases hplan
            exact List.mem_cons_self
          · exact List.mem_append_right _ (hmem hid)

/-- **The names of the rows** are what the column for them holds. -/
theorem column?_fill (h : plans tree fields = .ok ps) (hid : idField ∈ fields)
    (rows : List Submission) :
    (fill ps rows).column? idField = some (.texts (rows.map fun row => some row.id.text)) := by
  obtain ⟨hall, hmem⟩ := plans_ok h
  refine Keyed.find?_ofList (fun x hx hname => ?_) ?_
  · obtain ⟨p, hp, rfl⟩ := List.mem_map.mp hx
    rw [hall p hp hname]
    rfl
  · exact ⟨_, List.mem_map_of_mem (hmem hid), rfl⟩

end Query

namespace Workspace

variable {w : Workspace} {q : Query} {c : ColumnSet}

/-- **The rows of a query are what `get` answers** of the rows of a class. -/
theorem ids_submissions {tree : FormTree} {plans : List Query.Plan}
    (hdistinct : (w.store.tables.rows.map (·.id)).Nodup) (h : w.Queried q tree plans none) :
    (w.submissions q none).map (·.id) =
      (w.gettable q.principal fun row => row.classId = q.form).map (·.id) := by
  rw [submissions, gettable, List.map_filterMap, List.map_filterMap, List.filterMap_filter,
    List.filterMap_filter]
  refine List.filterMap_congr fun row hmem => ?_
  by_cases hclass : row.classId = q.form
  · obtain ⟨e, sub, hread, hsub⟩ := h.told row (List.mem_filter.mpr ⟨hmem, decide_eq_true hclass⟩)
    have hrow : w.store.tables.row? row.id = some row := Row.find?_of_mem hdistinct hmem
    have hsub' := admitted?_ok hrow hread hsub
    rw [Row.shown_eq hread hsub, hsub']
    cases hget : (w.get q.principal row.id).answer.toOption with
    | none => simp
    | some r => simp [Query.passes, Entry.submission, Row.id_of_read hread, id_of_get hget]
  · simp [hclass]

/-! ## All three -/

/-- The names of what is gettable are those of the rows that `get` answers with. -/
theorem ids_gettable (w : Workspace) (p : Principal) (test : Row → Bool) :
    (w.gettable p test).map (·.id) = (w.store.tables.rows.filter fun row =>
      test row ∧ (w.get p row.id).answer.isOk = true).map (·.id) := by
  rw [gettable, List.map_filterMap, List.filterMap_filter, ← List.filterMap_eq_map,
    List.filterMap_filter]
  refine List.filterMap_congr fun row _ => ?_
  cases hget : (w.get p row.id).answer with
  | error e => simp [Except.toOption, Except.isOk, Except.toBool]
  | ok r =>
    have hid : r.id = row.id := id_of_get (toOption_eq_some.mpr hget)
    cases test row <;> simp [Except.toOption, Except.isOk, Except.toBool, hid]

/-- A row keeps its place under every call, and new ones come last. -/
theorem ids_prefix_of_change {call : Call} {outcome : Except WorkspaceError Answer}
    {rows : List Row} (h : w.Change call outcome rows) :
    w.store.tables.rows.map (·.id) <+: rows.map (·.id) := by
  cases h with
  | refused | read => exact List.prefix_refl _
  | folder => exact (Row.ids_prefix_write _).trans (Row.ids_prefix_write _)
  | write | grant => exact Row.ids_prefix_write _
  | delete | revoke => exact (Row.keeps_mark _ _).ids_prefix_map _
  | commit => exact (Row.keeps_restamp _ _).ids_prefix_map _

/-- **Three ways to read, one answer.**  In every workspace that calls lead to, and for everyone, a
query without a filter that asks for names is answered with those of the rows of its class that `get`
answers with; children are what `get` answers of the rows of their owner, rules apart.  Both list
them in the order of the rows, each once, and rows are in the order of their first writes. -/
theorem listings_agree {allowed : Workspace → Call → Prop} (hw : w.ReachableBy allowed)
    (p : Principal) :
    (∀ q c, q.principal = p → q.filter = none → Query.idField ∈ q.fields →
      (w.query q).answer = .ok c →
        c.column? Query.idField = some (.texts ((w.store.tables.rows.filter fun row =>
          row.classId = q.form ∧ (w.get p row.id).answer.isOk = true).map
            fun row => some row.id.text))) ∧
    (∀ o cs, (w.children p o).answer = .ok cs →
      cs = (w.gettable p fun row => row.owner = o ∧ row.classId ≠ AccessRule.classId).map
        Child.ofResource) ∧
    (∀ test, (w.gettable p test).map (·.id) = (w.store.tables.rows.filter fun row =>
      test row ∧ (w.get p row.id).answer.isOk = true).map (·.id)) ∧
    (w.store.tables.rows.map (·.id)).Nodup ∧
    ∀ call, w.store.tables.rows.map (·.id) <+: (w.perform call).2.store.tables.rows.map (·.id) := by
  have hs := accounted_of_reachable hw
  have hdistinct := hs.tables.distinct
  refine ⟨?_, fun o cs h => children_eq hdistinct h, ids_gettable w p, hdistinct,
    fun call => ids_prefix_of_change (change_of_perform hs call)⟩
  rintro q c rfl hfilter hid h
  obtain ⟨tree, plans, filter, hqueried, rfl⟩ := query_ok_iff.mp h
  have hparsed := hqueried.parsed
  rw [Query.condition, hfilter] at hparsed
  cases hparsed
  have hids := (ids_submissions hdistinct hqueried).trans (ids_gettable w q.principal _)
  have htexts := congrArg (List.map fun id : ResourceId => some id.text) hids
  rw [List.map_map, List.map_map] at htexts
  rw [Query.column?_fill hqueried.planned hid]
  refine congrArg (fun cells => some (Column.texts cells)) (htexts.trans ?_)
  simp [Function.comp_def]

/-! ## A class with one row to show -/

def surveyFolder : ResourceId := ⟨"c0198c3f2a7b07d1e9f5b4c6d8e0f1a2b"⟩

/-- A folder with a form and three resources of its class: one is deleted, one is not committed. -/
def surveyHome : Workspace :=
  (empty 16).run
    [.createRootFolder ⟨"alice"⟩ 0 surveyFolder "Home",
      .putForm ⟨"alice"⟩ 0 ⟨⟨"site"⟩, surveyFolder, "Site", none, []⟩,
      .put ⟨"alice"⟩ 0 (.new ⟨"s1"⟩ surveyFolder ⟨"site"⟩ .empty),
      .put ⟨"alice"⟩ 0 (.new ⟨"s2"⟩ surveyFolder ⟨"site"⟩ .empty),
      .delete ⟨"alice"⟩ ⟨"s1"⟩,
      .putPending ⟨"alice"⟩ 0 ⟨"m"⟩ (.new ⟨"s3"⟩ surveyFolder ⟨"site"⟩ .empty)]

/-- The names of the resources of the class. -/
def siteNames : Query := ⟨⟨"site"⟩, [Query.idField], ⟨"alice"⟩, none⟩

/-- What the survey shows: the names, and the form with the resource that is left. -/
def shownNames : ColumnSet := ⟨[(Query.idField, .texts [some "s2"])], 1⟩

def shownChildren : List Child :=
  [⟨⟨"site"⟩, surveyFolder, Form.classId, 4, some "Site"⟩,
    ⟨⟨"s2"⟩, surveyFolder, ⟨"site"⟩, 6, none⟩]

theorem reachable_surveyHome : surveyHome.Reachable :=
  ReachableBy.run _ (.empty 16) ⟨by decide, trivial, trivial, trivial, trivial, trivial, trivial⟩

theorem shown_surveyHome : (surveyHome.query siteNames).answer = .ok shownNames ∧
    (surveyHome.children ⟨"alice"⟩ surveyFolder).answer = .ok shownChildren := by
  simp only [← toOption_eq_some]
  decide +kernel

/-- So `get` answers with the one resource, and under the folder with the form too. -/
theorem listings_agree_surveyHome :
    surveyHome.Reachable ∧
      ((surveyHome.store.tables.rows.filter fun row => row.classId = ⟨"site"⟩ ∧
        (surveyHome.get ⟨"alice"⟩ row.id).answer.isOk = true).map
          fun row => some row.id.text) = [some "s2"] ∧
      (surveyHome.gettable ⟨"alice"⟩ fun row =>
        row.owner = surveyFolder ∧ row.classId ≠ AccessRule.classId).map Child.ofResource =
          shownChildren := by
  obtain ⟨hquery, hchildren, -⟩ := listings_agree reachable_surveyHome ⟨"alice"⟩
  obtain ⟨hc, hcs⟩ := shown_surveyHome
  have hnames := hquery siteNames shownNames rfl rfl (by decide) hc
  have hcolumn : shownNames.column? Query.idField = some (.texts [some "s2"]) := by decide
  rw [hcolumn] at hnames
  exact ⟨reachable_surveyHome, (Column.texts.inj (Option.some.inj hnames)).symm,
    (hchildren surveyFolder shownChildren hcs).symm⟩

end Workspace

end Fieldbook
