import Fieldbook.Proofs.Ownership.Marks
import Fieldbook.Proofs.Store.Operations
import Fieldbook.Proofs.Workspace.Checks
import Mathlib.Data.List.Basic

/-!
# Proofs/Workspace/Listings — what `get`, `children` and `query` answer

A listing reads every row that passes a test and asks of each whether it is to be shown; it answers
when all of this can be told, and shows what there is (`listing_ok`).  Children and the rows of a
query are listings.  They look at marks, commits and rights in orders of their own: children trust
the owner that they are asked for, a query walks up from the owner of every row.  Row by row both
show what `get` would answer (`child?_ok`, `admitted?_ok`).
-/

namespace Fieldbook

/-! ## Listings -/

namespace Reading

variable {ε α β : Type} {f : α → Reading ε (Option β)}

/-- A collection answers when everything in the list does. -/
theorem collect_ok : ∀ {as : List α} {bs : List β}, (collect f as).answer = .ok bs ↔
    (∀ a ∈ as, ∃ b, (f a).answer = .ok b) ∧ bs = as.filterMap fun a => (f a).answer.toOption.join
  | [], bs => by simp [collect, eq_comm]
  | a :: as, bs => by
    rw [collect, bind_ok]
    constructor
    · rintro ⟨b, hb, h⟩
      obtain ⟨more, hmore, h⟩ := bind_ok.mp h
      obtain ⟨hall, rfl⟩ := collect_ok.mp hmore
      cases h
      refine ⟨List.forall_mem_cons.mpr ⟨⟨b, hb⟩, hall⟩, ?_⟩
      cases b <;> simp [hb, Except.toOption]
    · rintro ⟨hall, rfl⟩
      obtain ⟨⟨b, hb⟩, hrest⟩ := List.forall_mem_cons.mp hall
      refine ⟨b, hb, bind_ok.mpr ⟨_, collect_ok.mpr ⟨hrest, rfl⟩, ?_⟩⟩
      cases b <;> simp [hb, Except.toOption]

end Reading

namespace Row

variable {β : Type}

/-- What a listing shows of a row. -/
def shown (f : Entry → Reading WorkspaceError (Option β)) (row : Row) : Option β :=
  row.read.toOption.bind fun e => (f e).answer.toOption.join

theorem shown_eq {f : Entry → Reading WorkspaceError (Option β)} {row : Row} {e : Entry}
    {b : Option β} (hread : row.read = .ok e) (hb : (f e).answer = .ok b) : row.shown f = b := by
  simp [shown, hread, hb, Except.toOption]

end Row

namespace Workspace

variable {β : Type}

/-- **A listing answers when every row can be read and be told of,** and shows what there is. -/
theorem listing_ok {rows : List Row} {f : Entry → Reading WorkspaceError (Option β)}
    {bs : List β} :
    (do let entries ← .ofExcept ((rows.mapM Row.read).mapError .store)
        Reading.collect f entries : Reading WorkspaceError (List β)).answer = .ok bs ↔
      (∀ row ∈ rows, ∃ e b, row.read = .ok e ∧ (f e).answer = .ok b) ∧
        bs = rows.filterMap (Row.shown f) := by
  have hlist : (rows.filterMap fun row => row.read.toOption).filterMap
      (fun e => (f e).answer.toOption.join) = rows.filterMap (Row.shown f) :=
    List.filterMap_filterMap
  rw [Reading.bind_ok]
  constructor
  · rintro ⟨es, hread, h⟩
    obtain ⟨hall, rfl⟩ := Row.mapM_read_ok.mp (Reading.mapError_ok.mp hread)
    obtain ⟨htold, rfl⟩ := Reading.collect_ok.mp h
    refine ⟨fun row hrow => ?_, hlist⟩
    obtain ⟨e, he⟩ := hall row hrow
    obtain ⟨b, hb⟩ := htold e (List.mem_filterMap.mpr ⟨row, hrow, by rw [he]; rfl⟩)
    exact ⟨e, b, he, hb⟩
  · rintro ⟨hall, rfl⟩
    refine ⟨_, Reading.mapError_ok.mpr (Row.mapM_read_ok.mpr ⟨fun row hrow => ?_, rfl⟩),
      Reading.collect_ok.mpr ⟨fun e he => ?_, hlist.symm⟩⟩
    · obtain ⟨e, b, he, -⟩ := hall row hrow
      exact ⟨e, he⟩
    · obtain ⟨row, hrow, hread⟩ := List.mem_filterMap.mp he
      obtain ⟨e', b, he', hb⟩ := hall row hrow
      rw [he'] at hread
      obtain rfl := Option.some.inj hread
      exact ⟨b, hb⟩

end Workspace

/-! ## What is asked for by name -/

namespace Store

variable {s : Store} {q : Principal} {e : Entry} {v : Nat}

/-- An entry has a version when that can be resolved. -/
theorem committedVersion?_ok_some :
    (s.committedVersion? e).answer = .ok (some v) ↔ (s.resolveVersion e).answer = .ok v := by
  rw [committedVersion?, resolveVersion]
  cases e.stamp with
  | committed u => simp
  | pending m => exact versionOf_ok.symm

/-- Nobody views the root. -/
theorem ne_root_of_canView {id : ResourceId} {a : Authorization}
    (ha : (s.authorize q id).answer = .ok a) (hview : a.canView = true) : id ≠ .root := by
  rintro rfl
  obtain rfl := Except.ok.inj (ha.symm.trans authorize_root)
  cases hview

/-- A resource is given just when there is a row. -/
theorem isSome_resource?_eq {id : ResourceId} {found : Option Resource}
    (h : (s.resource? id).answer = .ok found) : found.isSome = (s.tables.row? id).isSome := by
  obtain ⟨e?, hget, h⟩ := Reading.bind_ok.mp h
  rcases get?_ok.mp hget with ⟨hrow, rfl⟩ | ⟨row, e, hrow, -, rfl⟩
  · obtain rfl := Except.ok.inj h
    rw [hrow]
    rfl
  · obtain ⟨v, -, h⟩ := Reading.bind_ok.mp h
    obtain rfl := Except.ok.inj h
    rw [hrow]
    rfl

/-- So is a form. -/
theorem isSome_form?_eq {id : ResourceId} {found : Option Form}
    (h : ((FormSource.ofStore s).form? id).answer = .ok found) :
    found.isSome = (s.tables.row? id).isSome := by
  obtain ⟨r?, hr, h⟩ := Reading.bind_ok.mp h
  rw [← isSome_resource?_eq (Reading.mapError_ok.mp hr)]
  cases r? with
  | none =>
    obtain rfl := Except.ok.inj h
    rfl
  | some r =>
    obtain ⟨form, -, h⟩ := Reading.bind_ok.mp h
    obtain rfl := Except.ok.inj h
    rfl

end Store

namespace Workspace

variable {w : Workspace} {p : Principal} {row : Row} {e : Entry} {id : ResourceId} {r : Resource}
  {v : Nat}

/-- A row that `get` answers with. -/
structure Gets (w : Workspace) (p : Principal) (row : Row) (e : Entry) (v : Nat) : Prop where
  read : row.read = .ok e
  version : (w.store.committedVersion? e).answer = .ok (some v)
  live : w.store.isDeleted row.id = .ok false
  viewed : ∃ a, (w.store.authorize p row.id).answer = .ok a ∧ a.canView = true

/-- **What `get` answers** is committed, live, and may be viewed. -/
theorem get_ok_iff : (w.get p id).answer = .ok r ↔
    ∃ row e v, w.store.tables.row? id = some row ∧ w.Gets p row e v ∧ r = e.toResource v := by
  rw [get, Reading.bind_ok]
  constructor
  · rintro ⟨found, hfound, h⟩
    obtain ⟨stored, hget, hfound⟩ := Reading.bind_ok.mp (Reading.mapError_ok.mp hfound)
    rcases Store.get?_ok.mp hget with ⟨-, rfl⟩ | ⟨row, e, hrow, hread, rfl⟩
    · cases hfound
      cases h
    · obtain ⟨v, hv, hfound⟩ := Reading.bind_ok.mp hfound
      cases hfound
      obtain ⟨_, hlive, h⟩ := Reading.bind_ok.mp h
      obtain ⟨_, hview, h⟩ := Reading.bind_ok.mp h
      cases h
      obtain rfl := Row.id_of_find? hrow
      exact ⟨row, e, v, hrow, ⟨hread, Store.committedVersion?_ok_some.mpr hv,
        Store.requireLive_ok.mp hlive, Store.requireView_ok.mp hview⟩, rfl⟩
  · rintro ⟨row, e, v, hrow, ⟨hread, hversion, hlive, hview⟩, rfl⟩
    obtain rfl := Row.id_of_find? hrow
    refine ⟨some (e.toResource v), Reading.mapError_ok.mpr ?_, ?_⟩
    · refine Reading.bind_ok.mpr ⟨some e, Store.get?_ok.mpr (.inr ⟨row, e, hrow, hread, rfl⟩), ?_⟩
      exact Reading.bind_ok.mpr ⟨v, Store.committedVersion?_ok_some.mp hversion, rfl⟩
    · refine Reading.bind_ok.mpr ⟨(), Store.requireLive_ok.mpr hlive, ?_⟩
      exact Reading.bind_ok.mpr ⟨(), Store.requireView_ok.mpr hview, rfl⟩

theorem id_of_get (h : (w.get p id).answer.toOption = some r) : r.id = id := by
  obtain ⟨row, e, v, hrow, hgets, rfl⟩ := get_ok_iff.mp (toOption_eq_some.mp h)
  exact (Row.id_of_read hgets.read).trans (Row.id_of_find? hrow)

theorem Gets.get_eq (h : w.Gets p row e v) (hrow : w.store.tables.row? row.id = some row) :
    (w.get p row.id).answer.toOption = some (e.toResource v) :=
  toOption_eq_some.mpr (get_ok_iff.mpr ⟨row, e, v, hrow, h, rfl⟩)

theorem get_eq_none (hrow : w.store.tables.row? row.id = some row) (hread : row.read = .ok e)
    (h : ∀ v, ¬w.Gets p row e v) : (w.get p row.id).answer.toOption = none := by
  refine Option.eq_none_iff_forall_ne_some.mpr fun r hr => ?_
  obtain ⟨row', e', v, hrow', hgets, -⟩ := get_ok_iff.mp (toOption_eq_some.mp hr)
  obtain rfl := Option.some.inj (hrow.symm.trans hrow')
  obtain rfl := Except.ok.inj (hread.symm.trans hgets.read)
  exact h v hgets

/-- A row that `get` answers with is not marked as deleted, nor is anything above it. -/
theorem Gets.unmarked (h : w.Gets p row e v) (hrow : w.store.tables.row? row.id = some row) :
    e.deleted = false ∧ w.store.isDeleted e.owner = .ok false := by
  obtain ⟨a, ha, hview⟩ := h.viewed
  rw [Row.deleted_of_read h.read, Row.owner_of_read h.read]
  exact (Store.isDeleted_false_iff (Store.ne_root_of_canView ha hview) hrow h.read).mp h.live

/-- A row with a mark on it, or above it, is not answered with. -/
theorem get_of_marked (hrow : w.store.tables.row? row.id = some row) (hread : row.read = .ok e)
    (h : e.deleted = true ∨ w.store.isDeleted e.owner = .ok true) :
    (w.get p row.id).answer.toOption = none := by
  refine get_eq_none hrow hread fun v hgets => ?_
  obtain ⟨hlive, howner⟩ := hgets.unmarked hrow
  rcases h with hdead | hdead
  · cases hdead.symm.trans hlive
  · cases hdead.symm.trans howner

/-- A row that waits for its commit is not answered with. -/
theorem get_of_open (hrow : w.store.tables.row? row.id = some row) (hread : row.read = .ok e)
    (hversion : (w.store.committedVersion? e).answer = .ok none) :
    (w.get p row.id).answer.toOption = none := by
  refine get_eq_none hrow hread fun v hgets => ?_
  cases hversion.symm.trans hgets.version

/-- **An unmarked row with a version** is answered with to those who may view it. -/
theorem get_of_unmarked {a : Authorization} (hrow : w.store.tables.row? row.id = some row)
    (hread : row.read = .ok e) (hlive : e.deleted = false)
    (howner : w.store.isDeleted e.owner = .ok false)
    (hversion : (w.store.committedVersion? e).answer = .ok (some v))
    (ha : (w.store.authorize p e.id).answer = .ok a) :
    (w.get p row.id).answer.toOption = if a.canView then some (e.toResource v) else none := by
  rw [Row.id_of_read hread] at ha
  rw [Row.deleted_of_read hread] at hlive
  rw [Row.owner_of_read hread] at howner
  split
  · next hview =>
    have below : row.id ≠ .root := Store.ne_root_of_canView ha hview
    have hid := (Store.isDeleted_false_iff below hrow hread).mpr ⟨hlive, howner⟩
    exact Gets.get_eq ⟨hread, hversion, hid, a, ha, hview⟩ hrow
  · next hview =>
    refine get_eq_none hrow hread fun v hgets => ?_
    obtain ⟨a', ha', hview'⟩ := hgets.viewed
    obtain rfl := Except.ok.inj (ha.symm.trans ha')
    exact hview hview'

end Workspace

/-! ## Rows of a listing -/

/-- A resource as a child. -/
def Child.ofResource (r : Resource) : Child :=
  ⟨r.id, r.owner, r.classId, r.version, labelOf r.value⟩

namespace Workspace

variable {w : Workspace} {p : Principal} {row : Row} {e : Entry}

/-- **A child is what `get` answers,** where the owner is live; rules apart. -/
theorem child?_ok {c : Option Child} (hrow : w.store.tables.row? row.id = some row)
    (hread : row.read = .ok e) (howner : w.store.isDeleted row.owner = .ok false)
    (h : (w.child? p e).answer = .ok c) :
    c = if row.classId = AccessRule.classId then none
      else (w.get p row.id).answer.toOption.map Child.ofResource := by
  rw [← Row.classId_of_read hread]
  rw [← Row.owner_of_read hread] at howner
  rw [child?] at h
  split at h
  · next hleft =>
    cases h
    split
    · rfl
    · next hclass =>
      rw [get_of_marked hrow hread (.inl (hleft.resolve_right hclass)), Option.map_none]
  · next hleft =>
    obtain ⟨hlive, hclass⟩ := not_or.mp hleft
    rw [if_neg hclass]
    obtain ⟨version?, hversion, h⟩ := Reading.bind_ok.mp h
    cases version? with
    | none =>
      cases h
      rw [get_of_open hrow hread (Reading.mapError_ok.mp hversion), Option.map_none]
    | some v =>
      obtain ⟨a, ha, h⟩ := Reading.bind_ok.mp h
      cases h
      rw [get_of_unmarked hrow hread (Bool.eq_false_iff.mpr hlive) howner
        (Reading.mapError_ok.mp hversion) ha]
      split <;> rfl

theorem child?_open (w : Workspace) (p : Principal)
    (hopen : (w.store.committedVersion? e).answer = .ok none) :
    (w.child? p e).answer = .ok none := by
  rw [Workspace.child?]
  split
  · rfl
  · exact Reading.bind_ok.mpr ⟨none, Reading.mapError_ok.mpr hopen, rfl⟩

theorem id_of_child? {c : Child} (hc : (w.child? p e).answer = .ok (some c)) : c.id = e.id := by
  rw [Workspace.child?] at hc
  split at hc
  · cases hc
  · obtain ⟨v, -, hc⟩ := Reading.bind_ok.mp hc
    cases v with
    | none => cases hc
    | some v =>
      obtain ⟨a, -, hc⟩ := Reading.bind_ok.mp hc
      cases hview : a.canView with
      | false => simp [hview] at hc
      | true =>
        simp only [hview, if_true, Reading.answer_pure] at hc
        cases hc
        rfl

/-- **A row of a query is what `get` answers,** if the filter lets it pass. -/
theorem admitted?_ok {filter : Option Expr} {sub : Option Submission}
    (hrow : w.store.tables.row? row.id = some row) (hread : row.read = .ok e)
    (h : (w.store.admitted? p filter e).answer = .ok sub) :
    sub = (w.get p row.id).answer.toOption.bind fun r =>
      if Query.passes filter r.value then some e.submission else none := by
  rw [Store.admitted?] at h
  split at h
  · next hdead =>
    cases h
    rw [get_of_marked hrow hread (.inl hdead), Option.bind_none]
  · next hlive =>
    obtain ⟨dead, howner, h⟩ := Reading.bind_ok.mp h
    cases dead with
    | true =>
      cases h
      rw [get_of_marked hrow hread (.inr howner), Option.bind_none]
    | false =>
      obtain ⟨version?, hversion, h⟩ := Reading.bind_ok.mp h
      cases version? with
      | none =>
        cases h
        rw [get_of_open hrow hread (Reading.mapError_ok.mp hversion), Option.bind_none]
      | some v =>
        obtain ⟨a, ha, h⟩ := Reading.bind_ok.mp h
        cases h
        rw [get_of_unmarked hrow hread (Bool.eq_false_iff.mpr hlive) howner
          (Reading.mapError_ok.mp hversion) ha]
        -- the filter sees the value of the entry, which is that of the resource
        by_cases hview : a.canView = true
        · simp only [hview, true_and, if_true, Option.bind_some, Entry.toResource]
        · simp only [hview, false_and, Bool.false_eq_true, if_false, Option.bind_none]

theorem admitted?_open (s : Store) (p : Principal) {filter : Option Expr}
    (hlive : e.deleted = false) (howner : s.isDeleted e.owner = .ok false)
    (hopen : (s.committedVersion? e).answer = .ok none) :
    (s.admitted? p filter e).answer = .ok none := by
  rw [Store.admitted?, hlive, if_neg Bool.false_ne_true]
  refine Reading.bind_ok.mpr ⟨false, howner, ?_⟩
  exact Reading.bind_ok.mpr ⟨none, Reading.mapError_ok.mpr hopen, rfl⟩

theorem id_of_admitted? {s : Store} {filter : Option Expr} {sub : Submission}
    (hsub : (s.admitted? p filter e).answer = .ok (some sub)) : sub.id = e.id := by
  rw [Store.admitted?] at hsub
  split at hsub
  · cases hsub
  · obtain ⟨dead, -, hsub⟩ := Reading.bind_ok.mp hsub
    cases dead with
    | true => cases hsub
    | false =>
      obtain ⟨v, -, hsub⟩ := Reading.bind_ok.mp hsub
      cases v with
      | none => cases hsub
      | some v =>
        obtain ⟨a, -, hsub⟩ := Reading.bind_ok.mp hsub
        rw [Reading.answer_pure] at hsub
        split at hsub
        · cases hsub
          rfl
        · cases hsub

/-! ## Lists of children -/

/-- Children are listed of an owner that is live; the root always is. -/
theorem children_ok {o : ResourceId} {cs : List Child} : (w.children p o).answer = .ok cs ↔
    w.store.isDeleted o = .ok false ∧
      (∀ row ∈ w.store.tables.rows.filter (·.owner = o), ∃ e c, row.read = .ok e ∧
        (w.child? p e).answer = .ok c) ∧
      cs = (w.store.tables.rows.filter (·.owner = o)).filterMap (Row.shown (w.child? p)) := by
  rw [← listing_ok, children]
  split
  · rw [Reading.bind_ok]
    constructor
    · rintro ⟨_, hlive, h⟩
      exact ⟨Store.requireLive_ok.mp hlive, h⟩
    · rintro ⟨hlive, h⟩
      exact ⟨(), Store.requireLive_ok.mpr hlive, h⟩
  · next hroot =>
    obtain rfl : o = .root := by simpa [ResourceId.isRoot] using hroot
    have hlive : w.store.isDeleted .root = .ok false := Store.isDeleted_ok_iff.mpr ⟨[], .root⟩
    exact (and_iff_right hlive).symm

/-- A child that is listed has a row. -/
theorem isSome_of_mem_children {o : ResourceId} {cs : List Child} {c : Child}
    (hcs : (w.children p o).answer = .ok cs) (hc : c ∈ cs) :
    (w.store.tables.row? c.id).isSome := by
  obtain ⟨-, htold, rfl⟩ := children_ok.mp hcs
  obtain ⟨row, hmem, hshown⟩ := List.mem_filterMap.mp hc
  obtain ⟨e, c', hread, hc'⟩ := htold row hmem
  rw [Row.shown_eq hread hc'] at hshown
  subst hshown
  rw [id_of_child? hc', Row.id_of_read hread]
  exact Row.isSome_find?_iff.mpr ⟨row, (List.mem_filter.mp hmem).1, rfl⟩

/-! ## Answers to queries -/

variable {q : Query} {tree : FormTree} {plans : List Query.Plan} {filter : Option Expr}
  {c : ColumnSet} {k : ResourceId}

/-- The steps of a query that is answered. -/
structure Queried (w : Workspace) (q : Query) (tree : FormTree) (plans : List Query.Plan)
    (filter : Option Expr) : Prop where
  viewed : (w.store.requireView q.principal q.form).answer = .ok ()
  live : w.store.isDeleted q.form = .ok false
  built : (FormTree.build (.ofStore w.store) w.maxTreeDepth q.form).answer = .ok tree
  planned : Query.plans tree q.fields = .ok plans
  parsed : q.condition = .ok filter
  told : ∀ row ∈ w.store.tables.rows.filter (·.classId = q.form), ∃ e sub, row.read = .ok e ∧
    (w.store.admitted? q.principal filter e).answer = .ok sub

/-- The rows that a query shows. -/
def submissions (w : Workspace) (q : Query) (filter : Option Expr) : List Submission :=
  (w.store.tables.rows.filter (·.classId = q.form)).filterMap
    (Row.shown (w.store.admitted? q.principal filter))

theorem query_ok_iff : (w.query q).answer = .ok c ↔ ∃ tree plans filter,
    w.Queried q tree plans filter ∧ c = Query.fill plans (w.submissions q filter) := by
  rw [query, Store.query]
  constructor
  · intro h
    obtain ⟨_, viewed, h⟩ := Reading.bind_ok.mp h
    obtain ⟨_, live, h⟩ := Reading.bind_ok.mp h
    obtain ⟨tree, built, h⟩ := Reading.bind_ok.mp h
    obtain ⟨plans, planned, h⟩ := Reading.bind_ok.mp h
    obtain ⟨filter, parsed, h⟩ := Reading.bind_ok.mp h
    obtain ⟨entries, hread, h⟩ := Reading.bind_ok.mp h
    obtain ⟨rows, hrows, h⟩ := Reading.bind_ok.mp h
    cases h
    obtain ⟨told, rfl⟩ := listing_ok.mp (Reading.bind_ok.mpr ⟨entries, hread, hrows⟩)
    exact ⟨tree, plans, filter,
      ⟨viewed, Store.requireLive_ok.mp live, built, planned, parsed, told⟩, rfl⟩
  · rintro ⟨tree, plans, filter, ⟨viewed, live, built, planned, parsed, told⟩, rfl⟩
    obtain ⟨entries, hread, hrows⟩ := Reading.bind_ok.mp (listing_ok.mpr ⟨told, rfl⟩)
    refine Reading.bind_ok.mpr ⟨(), viewed, ?_⟩
    refine Reading.bind_ok.mpr ⟨(), Store.requireLive_ok.mpr live, ?_⟩
    refine Reading.bind_ok.mpr ⟨tree, built, ?_⟩
    refine Reading.bind_ok.mpr ⟨plans, planned, ?_⟩
    refine Reading.bind_ok.mpr ⟨filter, parsed, ?_⟩
    refine Reading.bind_ok.mpr ⟨entries, hread, ?_⟩
    exact Reading.bind_ok.mpr ⟨_, hrows, rfl⟩

/-- A query shows the row of `k`. -/
def Shows (w : Workspace) (q : Query) (k : ResourceId) : Prop :=
  ∃ r filter, (w.get q.principal k).answer = .ok r ∧ r.classId = q.form ∧
    q.condition = .ok filter ∧ Query.passes filter r.value = true

/-- The rows that a query shows, by name. -/
theorem Queried.shows_iff (h : w.Queried q tree plans filter)
    (hdistinct : (w.store.tables.rows.map (·.id)).Nodup) :
    w.Shows q k ↔ ∃ sub ∈ w.submissions q filter, sub.id = k := by
  have hrow : ∀ row ∈ w.store.tables.rows, w.store.tables.row? row.id = some row :=
    fun row hmem => Row.find?_of_mem hdistinct hmem
  constructor
  · rintro ⟨r, filter', hget, hclass, hparsed, hpasses⟩
    obtain rfl := Except.ok.inj (hparsed.symm.trans h.parsed)
    obtain ⟨row, e, v, hfound, hgets, rfl⟩ := get_ok_iff.mp hget
    have hmem : row ∈ w.store.tables.rows := OwnerChain.row?_mem hfound
    have hclass : row.classId = q.form := (Row.classId_of_read hgets.read).symm.trans hclass
    have hlisted : row ∈ w.store.tables.rows.filter (·.classId = q.form) :=
      List.mem_filter.mpr ⟨hmem, decide_eq_true hclass⟩
    obtain ⟨e', sub, hread, hsub⟩ := h.told row hlisted
    obtain rfl := Except.ok.inj (hgets.read.symm.trans hread)
    have hsub' := admitted?_ok (hrow row hmem) hread hsub
    rw [hgets.get_eq (hrow row hmem), Option.bind_some, if_pos hpasses] at hsub'
    refine ⟨e.submission, List.mem_filterMap.mpr ⟨row, hlisted, ?_⟩, ?_⟩
    · rw [Row.shown_eq hread hsub, hsub']
    · exact (Row.id_of_read hread).trans (Row.id_of_find? hfound)
  · rintro ⟨sub, hin, rfl⟩
    obtain ⟨row, hlisted, hshown⟩ := List.mem_filterMap.mp hin
    obtain ⟨hmem, hclass⟩ := List.mem_filter.mp hlisted
    obtain ⟨e, sub', hread, hsub⟩ := h.told row hlisted
    rw [Row.shown_eq hread hsub] at hshown
    subst hshown
    have hsub' := admitted?_ok (hrow row hmem) hread hsub
    cases hget : (w.get q.principal row.id).answer.toOption with
    | none => simp [hget] at hsub'
    | some r =>
      rw [hget, Option.bind_some] at hsub'
      split at hsub'
      · next hpasses =>
        obtain rfl := Option.some.inj hsub'
        have hid : e.submission.id = row.id := Row.id_of_read hread
        obtain ⟨row', e', v, hrow', hgets, rfl⟩ := get_ok_iff.mp (toOption_eq_some.mp hget)
        obtain rfl := Option.some.inj ((hrow row hmem).symm.trans hrow')
        refine ⟨_, filter, hid ▸ toOption_eq_some.mp hget, ?_, h.parsed, hpasses⟩
        exact (Row.classId_of_read hgets.read).trans (of_decide_eq_true hclass)
      · cases hsub'

end Workspace

end Fieldbook
