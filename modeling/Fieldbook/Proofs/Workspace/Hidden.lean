import Fieldbook.Proofs.FormTree.Following
import Fieldbook.Proofs.Workspace.Listings
import Fieldbook.Proofs.Workspace.Rights

/-!
# Proofs/Workspace/Hidden — what a row hides that waits for its commit

Take a workspace, and another one that differs in a single row, which waits there for a commit that
is not made (`Store.Hides`).  Readers of the other one do not see that row, neither what is written
in it nor what has stood there before.  So a list of children is as before, without the child of
that name (`Hides.children`).  A query that has asked for the row as a form fails; any other is
answered as before, when the row is not among those that it has shown, and otherwise with one row
less (`Hides.query_iff`).

This is so for a principal whose rights on the rows that may be listed are kept, and for a query
those on its form.
-/

namespace Fieldbook

/-! ## Stores -/

namespace Store

/-- The other store has the same rows but for that of `k`, which waits for its commit there. What
can be told of commits and of marks of deletion in the one can be told in the other. -/
structure Hides (k : ResourceId) (s s' : Store) : Prop where
  rows : s'.tables.rows.filter (·.id ≠ k) = s.tables.rows.filter (·.id ≠ k)
  distinct : (s'.tables.rows.map (·.id)).Nodup
  row : ∃ row entry m, s'.tables.row? k = some row ∧ row.read = .ok entry ∧
    row.deleted = false ∧ s'.isDeleted row.owner = .ok false ∧ row.stamp = .pending m ∧
      s'.commitVersion? m = .ok none
  versions : ∀ m v, s.commitVersion? m = .ok v → s'.commitVersion? m = .ok v
  marks : ∀ id b, s.isDeleted id = .ok b → s'.isDeleted id = .ok b

namespace Hides

variable {s s' : Store} {k id : ResourceId} {e : Entry} {row : Row}

theorem row?_eq (h : s.Hides k s') (hid : id ≠ k) : s'.tables.row? id = s.tables.row? id := by
  have hfilter : ∀ rows : List Row,
      (rows.filter (·.id ≠ k)).find? (·.id = id) = rows.find? (·.id = id) := by
    intro rows
    rw [List.find?_filter]
    refine congrArg (fun p => rows.find? p) (funext fun row => ?_)
    by_cases hrow : row.id = id <;> simp [hrow, hid]
  rw [Tables.row?, Tables.row?, ← hfilter, h.rows, hfilter]

theorem mem_rows (h : s.Hides k s') (hid : row.id ≠ k) :
    row ∈ s'.tables.rows ↔ row ∈ s.tables.rows := by
  have hmem : ∀ rows : List Row, row ∈ rows ↔ row ∈ rows.filter (·.id ≠ k) := by
    intro rows
    rw [List.mem_filter, and_iff_left (decide_eq_true hid)]
  rw [hmem, h.rows, ← hmem]

/-- The row of `k` is live in the other store, and has no version. -/
theorem waits (h : s.Hides k s') (hmem : row ∈ s'.tables.rows) (hid : row.id = k) :
    ∃ entry, row.read = .ok entry ∧ entry.deleted = false ∧ s'.isDeleted entry.owner = .ok false ∧
      (s'.committedVersion? entry).answer = .ok none := by
  obtain ⟨row', entry, m, found, read, live, howner, hstamp, hopen⟩ := h.row
  have hfound : s'.tables.row? row.id = some row := Row.find?_of_mem h.distinct hmem
  rw [hid] at hfound
  obtain rfl := Option.some.inj (found.symm.trans hfound)
  refine ⟨entry, read, (Row.deleted_of_read read).trans live, ?_, ?_⟩
  · rw [Row.owner_of_read read]
    exact howner
  · rw [committedVersion?, Row.stamp_of_read read, hstamp]
    exact hopen

theorem committedVersion? (h : s.Hides k s') {v : Option Nat}
    (hv : (s.committedVersion? e).answer = .ok v) :
    (s'.committedVersion? e).answer = .ok v := by
  unfold Store.committedVersion? at hv ⊢
  cases hstamp : e.stamp with
  | committed u => simpa only [hstamp] using hv
  | pending m =>
    simp only [hstamp] at hv ⊢
    exact h.versions m v hv

/-! ## Forms -/

theorem resource? (h : s.Hides k s') (hid : id ≠ k) {r : Option Resource}
    (hr : (s.resource? id).answer = .ok r) : (s'.resource? id).answer = .ok r := by
  have hget : s'.get? id = s.get? id := by rw [get?, get?, h.row?_eq hid]
  obtain ⟨found, hfound, hr⟩ := Reading.bind_ok.mp hr
  refine Reading.bind_ok.mpr ⟨found, hget.trans hfound, ?_⟩
  cases found with
  | none => exact hr
  | some e =>
    obtain ⟨v, hv, hr⟩ := Reading.bind_ok.mp hr
    have hv' := h.committedVersion? (committedVersion?_ok_some.mpr hv)
    exact Reading.bind_ok.mpr ⟨v, committedVersion?_ok_some.mp hv', hr⟩

/-- A row that waits is no resource with a version. -/
theorem resource?_ne (h : s.Hides k s') (r : Option Resource) :
    (s'.resource? k).answer ≠ .ok r := by
  intro hr
  obtain ⟨row, entry, m, found, read, -, -, hstamp, hopen⟩ := h.row
  obtain ⟨found', hget, hr⟩ := Reading.bind_ok.mp hr
  rcases get?_ok.mp hget with ⟨hnone, -⟩ | ⟨row', entry', hrow', hread', rfl⟩
  · cases found.symm.trans hnone
  · obtain rfl := Option.some.inj (found.symm.trans hrow')
    obtain ⟨v, hv, -⟩ := Reading.bind_ok.mp hr
    rw [resolveVersion, Row.stamp_of_read hread', hstamp] at hv
    cases hopen.symm.trans (versionOf_ok.mp hv)

end Hides

/-- No form is asked for when a resource is looked up. -/
theorem form_notMem_lookups (s : Store) (k id : ResourceId) :
    Lookup.form k ∉ ((FormSource.ofStore s).form? id).lookups := by
  have hversion : ∀ e, Lookup.form k ∉ (s.resolveVersion e).lookups := by
    intro e
    rw [resolveVersion]
    cases e.stamp with
    | committed v => exact List.not_mem_nil
    | pending m =>
      dsimp only
      rw [versionOf_lookups, List.mem_singleton]
      intro heq
      cases heq
  intro hmem
  rcases Reading.mem_lookups_bind hmem with hmem | ⟨found, hmem⟩
  · have hmem : Lookup.form k ∈ (s.resource? id).lookups := hmem
    rcases Reading.mem_lookups_bind hmem with hmem | ⟨entry, hmem⟩
    · cases hmem
    · cases entry with
      | none => cases hmem
      | some e =>
        rcases Reading.mem_lookups_bind hmem with hmem | ⟨v, hmem⟩
        · exact hversion e hmem
        · cases hmem
  · cases found with
    | none => cases hmem
    | some r =>
      rcases Reading.mem_lookups_bind hmem with hmem | ⟨form, hmem⟩
      · cases hmem
      · cases hmem

/-- **The forms of the other store** are the same but for `k`, which is none. -/
theorem Hides.closes {s s' : Store} {k : ResourceId} (h : s.Hides k s') :
    FormSource.Closes k (.ofStore s) (.ofStore s') where
  same := by
    intro id hid a ha
    obtain ⟨r, hr, ha⟩ := Reading.bind_ok.mp ha
    have hr' := h.resource? hid (Reading.mapError_ok.mp hr)
    exact Reading.bind_ok.mpr ⟨r, Reading.mapError_ok.mpr hr', ha⟩
  unasked := form_notMem_lookups s k
  deleted := h.marks
  closed := by
    intro form hform
    obtain ⟨r, hr, -⟩ := Reading.bind_ok.mp hform
    exact h.resource?_ne r (Reading.mapError_ok.mp hr)

end Store

/-! ## Workspaces -/

/-- The rows of a listing that shows nothing of `k`. -/
theorem filterMap_hidden {β : Type} {k : ResourceId} {rows rows' : List Row}
    {f f' : Row → Option β} (name : β → ResourceId)
    (hrows : rows'.filter (·.id ≠ k) = rows.filter (·.id ≠ k))
    (hhidden : ∀ row ∈ rows', row.id = k → f' row = none)
    (hsame : ∀ row ∈ rows, row.id ≠ k → f' row = f row)
    (hname : ∀ row ∈ rows, ∀ b, f row = some b → name b = row.id) :
    rows'.filterMap f' = (rows.filterMap f).filter (name · ≠ k) := by
  have hleft : rows'.filterMap f' = (rows'.filter (·.id ≠ k)).filterMap f' := by
    rw [List.filterMap_filter]
    refine List.filterMap_congr fun row hmem => ?_
    by_cases hid : row.id = k
    · simp [hid, hhidden row hmem hid]
    · simp [hid]
  rw [hleft, hrows, List.filterMap_filter, List.filter_filterMap]
  refine List.filterMap_congr fun row hmem => ?_
  by_cases hid : row.id = k
  · cases hf : f row with
    | none => simp [hid]
    | some b => simp [Option.filter, hid, hname row hmem b hf]
  · cases hf : f row with
    | none => simp [hid, hsame row hmem hid, hf]
    | some b => simp [Option.filter, hid, hsame row hmem hid, hf, hname row hmem b hf]

namespace Workspace

/-- The other workspace differs in the row of `k`, which waits there for its commit. -/
structure Hides (k : ResourceId) (w w' : Workspace) : Prop where
  store : w.store.Hides k w'.store
  depth : w'.maxTreeDepth = w.maxTreeDepth

/-- The rights of a principal are kept on the rows that pass a test, that of `k` apart. -/
def RightsKeptBut (k : ResourceId) (w w' : Workspace) (p : Principal) (test : Row → Prop) : Prop :=
  ∀ row ∈ w.store.tables.rows, row.id ≠ k → test row → RightsKept w w' p row.id

/-- **A listing shows the same but for the row that waits.** -/
theorem listing_hidden {β : Type} {s s' : Store} {k : ResourceId} (h : s.Hides k s')
    {f f' : Entry → Reading WorkspaceError (Option β)} {test : Row → Bool} (name : β → ResourceId)
    (htold : ∀ row ∈ s.tables.rows.filter test, ∃ e b, row.read = .ok e ∧ (f e).answer = .ok b)
    (hname : ∀ e b, (f e).answer = .ok (some b) → name b = e.id)
    (hhidden : ∀ e, e.deleted = false → s'.isDeleted e.owner = .ok false →
      (s'.committedVersion? e).answer = .ok none → (f' e).answer = .ok none)
    (hsame : ∀ row ∈ s.tables.rows, row.id ≠ k → test row = true → ∀ e b, row.read = .ok e →
      (f e).answer = .ok b → (f' e).answer = .ok b) :
    (∀ row ∈ s'.tables.rows.filter test, ∃ e b, row.read = .ok e ∧ (f' e).answer = .ok b) ∧
      (s'.tables.rows.filter test).filterMap (Row.shown f') =
        ((s.tables.rows.filter test).filterMap (Row.shown f)).filter (name · ≠ k) := by
  have hwaits : ∀ row ∈ s'.tables.rows, row.id = k →
      ∃ e, row.read = .ok e ∧ (f' e).answer = .ok none := by
    intro row hmem hid
    obtain ⟨e, hread, hlive, howner, hopen⟩ := h.waits hmem hid
    exact ⟨e, hread, hhidden e hlive howner hopen⟩
  have hkept : ∀ row ∈ s.tables.rows, row.id ≠ k → test row = true →
      ∃ e b, row.read = .ok e ∧ (f e).answer = .ok b ∧ (f' e).answer = .ok b := by
    intro row hmem hid htest
    obtain ⟨e, b, hread, hb⟩ := htold row (List.mem_filter.mpr ⟨hmem, htest⟩)
    exact ⟨e, b, hread, hb, hsame row hmem hid htest e b hread hb⟩
  constructor
  · intro row hmem
    obtain ⟨hmem, htest⟩ := List.mem_filter.mp hmem
    by_cases hid : row.id = k
    · obtain ⟨e, hread, hnone⟩ := hwaits row hmem hid
      exact ⟨e, none, hread, hnone⟩
    · obtain ⟨e, b, hread, -, hb⟩ := hkept row ((h.mem_rows hid).mp hmem) hid htest
      exact ⟨e, b, hread, hb⟩
  · rw [List.filterMap_filter, List.filterMap_filter]
    refine filterMap_hidden name h.rows (fun row hmem hid => ?_) (fun row hmem hid => ?_) ?_
    · obtain ⟨e, hread, hnone⟩ := hwaits row hmem hid
      rw [Row.shown_eq hread hnone, ite_self]
    · cases htest : test row with
      | false => rfl
      | true =>
        obtain ⟨e, b, hread, hb, hb'⟩ := hkept row hmem hid htest
        rw [Row.shown_eq hread hb, Row.shown_eq hread hb']
    · intro row hmem b hb
      split at hb
      · next htest =>
        obtain ⟨e, b', hread, hb'⟩ := htold row (List.mem_filter.mpr ⟨hmem, htest⟩)
        rw [Row.shown_eq hread hb'] at hb
        subst hb
        exact (hname e b hb').trans (Row.id_of_read hread)
      · cases hb

variable {w w' : Workspace} {k : ResourceId} {p : Principal} {e : Entry}

theorem RightsKept.authorize {y : ResourceId} {a : Authorization} (h : RightsKept w w' p y)
    (ha : (w.store.authorize p y).answer = .ok a) : (w'.store.authorize p y).answer = .ok a := by
  rw [RightsKept, ha] at h
  exact toOption_eq_some.mp h

namespace Hides

/-! ## Children -/

theorem child? (h : w.Hides k w') (hkept : RightsKept w w' p e.id) {c : Option Child}
    (hc : (w.child? p e).answer = .ok c) : (w'.child? p e).answer = .ok c := by
  rw [Workspace.child?] at hc ⊢
  split
  · next hleft =>
    rw [if_pos hleft] at hc
    exact hc
  · next hleft =>
    rw [if_neg hleft] at hc
    obtain ⟨v, hv, hc⟩ := Reading.bind_ok.mp hc
    have hv' := h.store.committedVersion? (Reading.mapError_ok.mp hv)
    refine Reading.bind_ok.mpr ⟨v, Reading.mapError_ok.mpr hv', ?_⟩
    cases v with
    | none => exact hc
    | some v =>
      obtain ⟨a, ha, hc⟩ := Reading.bind_ok.mp hc
      exact Reading.bind_ok.mpr ⟨a, hkept.authorize ha, hc⟩

/-- **Children are listed without the one that waits.** -/
theorem children (h : w.Hides k w') {o : ResourceId} {cs : List Child}
    (hkept : RightsKeptBut k w w' p (·.owner = o)) (hcs : (w.children p o).answer = .ok cs) :
    (w'.children p o).answer = .ok (cs.filter (·.id ≠ k)) := by
  obtain ⟨howner, htold, rfl⟩ := children_ok.mp hcs
  obtain ⟨htold', hlist⟩ := listing_hidden h.store Child.id htold (fun _ _ => id_of_child?)
    (fun _ _ _ hopen => child?_open w' p hopen) fun row hmem hid ho e c hread hc => by
      have hrights := hkept row hmem hid (of_decide_eq_true ho)
      exact h.child? (Row.id_of_read hread ▸ hrights) hc
  exact children_ok.mpr ⟨h.store.marks _ _ howner, htold', hlist.symm⟩

/-! ## Queries -/

theorem admitted? (h : w.Hides k w') (hkept : RightsKept w w' p e.id) {filter : Option Expr}
    {sub : Option Submission}
    (hsub : (w.store.admitted? p filter e).answer = .ok sub) :
    (w'.store.admitted? p filter e).answer = .ok sub := by
  rw [Store.admitted?] at hsub ⊢
  split
  · next hdead =>
    rw [if_pos hdead] at hsub
    exact hsub
  · next hlive =>
    rw [if_neg hlive] at hsub
    obtain ⟨dead, howner, hsub⟩ := Reading.bind_ok.mp hsub
    refine Reading.bind_ok.mpr ⟨dead, h.store.marks _ _ howner, ?_⟩
    cases dead with
    | true => exact hsub
    | false =>
      obtain ⟨v, hv, hsub⟩ := Reading.bind_ok.mp hsub
      have hv' := h.store.committedVersion? (Reading.mapError_ok.mp hv)
      refine Reading.bind_ok.mpr ⟨v, Reading.mapError_ok.mpr hv', ?_⟩
      cases v with
      | none => exact hsub
      | some v =>
        obtain ⟨a, ha, hsub⟩ := Reading.bind_ok.mp hsub
        exact Reading.bind_ok.mpr ⟨a, hkept.authorize ha, hsub⟩

end Hides

/-- A query that is answered has asked for no form without a row. -/
theorem form_notMem_of_query {w : Workspace} {q : Query} {c : ColumnSet} {k : ResourceId}
    (hc : (w.query q).answer = .ok c) (hnew : w.store.tables.row? k = none) :
    Lookup.form k ∉ (FormTree.build (.ofStore w.store) w.maxTreeDepth q.form).lookups := by
  intro hmem
  obtain ⟨tree, plans, filter, hq, -⟩ := query_ok_iff.mp hc
  have hcloses : FormSource.Closes k (.ofStore w.store) (.ofStore w.store) := by
    refine ⟨fun _ _ _ h => h, Store.form_notMem_lookups w.store k, fun _ _ h => h, ?_⟩
    intro form hform
    have hsome := (Store.isSome_form?_eq hform).symm
    rw [hnew] at hsome
    cases hsome
  obtain ⟨-, hfail⟩ := FormTree.follows_build hcloses w.maxTreeDepth q.form tree hq.built
  obtain ⟨e, he⟩ := hfail hmem
  cases he.symm.trans hq.built

variable {q : Query} {tree : FormTree} {plans : List Query.Plan} {filter : Option Expr}
  {c : ColumnSet}

namespace Hides

/-- The rows that a query shows, without the one that waits. -/
theorem submissions (h : w.Hides k w')
    (hkept : RightsKeptBut k w w' q.principal fun row => row.id = q.form ∨ row.classId = q.form)
    (hq : w.Queried q tree plans filter) :
    (∀ row ∈ w'.store.tables.rows.filter (·.classId = q.form), ∃ e sub, row.read = .ok e ∧
      (w'.store.admitted? q.principal filter e).answer = .ok sub) ∧
    w'.submissions q filter = (w.submissions q filter).filter (·.id ≠ k) :=
  listing_hidden h.store Submission.id hq.told (fun _ _ => id_of_admitted?)
    (fun _ hlive howner hopen => admitted?_open w'.store q.principal hlive howner hopen)
    fun row hmem hid hclass e sub hread hsub => by
      have hrights := hkept row hmem hid (.inr (of_decide_eq_true hclass))
      exact h.admitted? (Row.id_of_read hread ▸ hrights) hsub

/-- A query that has not asked for the form `k` takes the same steps. -/
theorem queried (h : w.Hides k w')
    (hkept : RightsKeptBut k w w' q.principal fun row => row.id = q.form ∨ row.classId = q.form)
    (hq : w.Queried q tree plans filter) (hasked : Lookup.form k ∉
      (FormTree.build (.ofStore w.store) w.maxTreeDepth q.form).lookups) :
    w'.Queried q tree plans filter := by
  obtain ⟨hsame, -⟩ := FormTree.follows_build h.store.closes w.maxTreeDepth q.form tree hq.built
  obtain ⟨hroot, form, hform⟩ := FormTree.asked_of_build hq.built
  have hne : q.form ≠ k := by
    rintro rfl
    exact hasked hroot
  obtain ⟨a, ha, hview⟩ := Store.requireView_ok.mp hq.viewed
  obtain ⟨row, hmem, hid⟩ := Row.isSome_find?_iff.mp (Store.isSome_form?_eq hform).symm
  have hrights : RightsKept w w' q.principal q.form := hid ▸ hkept row hmem (hid ▸ hne) (.inl hid)
  refine ⟨Store.requireView_ok.mpr ⟨a, hrights.authorize ha, hview⟩, h.store.marks _ _ hq.live, ?_,
    hq.planned, hq.parsed, (h.submissions hkept hq).1⟩
  rw [h.depth]
  exact hsame hasked

/-- **A query is answered as before** exactly when it has not asked for the form `k`, and has not
shown the row. -/
theorem query_iff (h : w.Hides k w')
    (hkept : RightsKeptBut k w w' q.principal fun row => row.id = q.form ∨ row.classId = q.form)
    (hdistinct : (w.store.tables.rows.map (·.id)).Nodup) (hc : (w.query q).answer = .ok c) :
    (w'.query q).answer = .ok c ↔ ¬w.Shows q k ∧
      Lookup.form k ∉ (FormTree.build (.ofStore w.store) w.maxTreeDepth q.form).lookups := by
  obtain ⟨tree, plans, filter, hq, rfl⟩ := query_ok_iff.mp hc
  obtain ⟨hsame, hfail⟩ :=
    FormTree.follows_build h.store.closes w.maxTreeDepth q.form tree hq.built
  obtain ⟨-, hsubs⟩ := h.submissions hkept hq
  rw [hq.shows_iff hdistinct]
  constructor
  · intro hc'
    obtain ⟨tree', plans', filter', hq', heq⟩ := query_ok_iff.mp hc'
    have hbuilt := hq'.built
    rw [h.depth] at hbuilt
    have hasked : Lookup.form k ∉
        (FormTree.build (.ofStore w.store) w.maxTreeDepth q.form).lookups := by
      intro hmem
      obtain ⟨e, he⟩ := hfail hmem
      cases he.symm.trans hbuilt
    obtain rfl := Except.ok.inj ((hsame hasked).symm.trans hbuilt)
    obtain rfl := Except.ok.inj (hq.parsed.symm.trans hq'.parsed)
    -- the number of rows tells that none is left out
    have hlength : (w.submissions q filter).length = (w'.submissions q filter).length :=
      congrArg ColumnSet.numRows heq
    rw [hsubs] at hlength
    have hall := List.length_filter_eq_length_iff.mp hlength.symm
    refine ⟨?_, hasked⟩
    rintro ⟨sub, hmem, hid⟩
    exact of_decide_eq_true (hall sub hmem) hid
  · rintro ⟨hshown, hasked⟩
    refine query_ok_iff.mpr ⟨tree, plans, filter, h.queried hkept hq hasked, ?_⟩
    rw [hsubs, List.filter_eq_self.mpr fun sub hmem => ?_]
    exact decide_eq_true fun hid => hshown ⟨sub, hmem, hid⟩

/-! ## New resources -/

/-- Nothing is left out of a list when there was no row of the name. -/
theorem children_of_new (h : w.Hides k w') {o : ResourceId} {cs : List Child}
    (hkept : RightsKeptBut k w w' p (·.owner = o)) (hnew : w.store.tables.row? k = none)
    (hcs : (w.children p o).answer = .ok cs) : (w'.children p o).answer = .ok cs := by
  have hfilter : cs.filter (·.id ≠ k) = cs := by
    refine List.filter_eq_self.mpr fun c hc => decide_eq_true fun hid => ?_
    have hsome := isSome_of_mem_children hcs hc
    rw [hid, hnew] at hsome
    cases hsome
  have hcs' := h.children hkept hcs
  rw [hfilter] at hcs'
  exact hcs'

/-- Neither is anything of a query. -/
theorem query_of_new (h : w.Hides k w')
    (hkept : RightsKeptBut k w w' q.principal fun row => row.id = q.form ∨ row.classId = q.form)
    (hdistinct : (w.store.tables.rows.map (·.id)).Nodup) (hnew : w.store.tables.row? k = none)
    (hc : (w.query q).answer = .ok c) : (w'.query q).answer = .ok c := by
  refine (h.query_iff hkept hdistinct hc).mpr ⟨?_, form_notMem_of_query hc hnew⟩
  rintro ⟨found, filter, hget, -⟩
  obtain ⟨row, e, v, hrow, -⟩ := get_ok_iff.mp hget
  cases hrow.symm.trans hnew

end Hides

end Workspace

end Fieldbook
