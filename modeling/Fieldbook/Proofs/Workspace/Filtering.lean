import Fieldbook.Proofs.Expr.Embedding
import Fieldbook.Proofs.Workspace.Columns

/-!
# Proofs/Workspace/Filtering — filters made of filters

A filter keeps the rows of a query that it holds in, in the order of the rows (`query_names`).  Two
filters in parentheses with an operation between them are a filter, whatever their texts are
(`Expr.parse_between`), and both are evaluated before the operation.  So `&&` holds where both hold,
`!` only where the filter is false, and `||` only where one of the two holds
(`composition_of_query`).  Where a filter fails, none of these holds.
-/

namespace Fieldbook

namespace Expr

variable {ctx : Context} {op : Operation} {d e : Expr} {v w u : Operand}

/-! ## Operations on truth values -/

theorem evaluate_apply_one : evaluate ctx (.apply op [e]) = .ok u ↔
    ∃ v, evaluate ctx e = .ok v ∧ op.apply [v] = .ok u := by
  simp [evaluate, evaluateAll, bind_ok]

theorem evaluate_apply_two : evaluate ctx (.apply op [d, e]) = .ok u ↔
    ∃ v w, evaluate ctx d = .ok v ∧ evaluate ctx e = .ok w ∧ op.apply [v, w] = .ok u := by
  simp [evaluate, evaluateAll, bind_ok]

theorem apply_and_true : Operation.and.apply [v, w] = .ok (.boolean true) ↔
    v = .boolean true ∧ w = .boolean true := by
  cases v <;> cases w <;>
    simp [Operation.apply, Operation.truth, bind, Except.bind, pure, Except.pure]

theorem or_of_apply_true (h : Operation.or.apply [v, w] = .ok (.boolean true)) :
    v = .boolean true ∨ w = .boolean true := by
  revert h
  cases v <;> cases w <;>
    simp [Operation.apply, Operation.truth, bind, Except.bind, pure, Except.pure]

theorem apply_not_true : Operation.not.apply [v] = .ok (.boolean true) ↔ v = .boolean false := by
  cases v <;>
    simp [Operation.apply, Operation.single, Operation.truth, bind, Except.bind, pure, Except.pure]

end Expr

/-! ## Filters -/

namespace Query

variable {d e : Expr} {value : Record} {f g : String}

theorem passes_some_iff :
    passes (some e) value = true ↔ e.evaluate value.context = .ok (.boolean true) := by
  rw [passes]
  split
  · next heval => exact iff_of_true rfl heval
  · next hother => exact iff_of_false Bool.false_ne_true hother

/-- A record passes `&&` when it passes both. -/
theorem passes_and : passes (some (.apply .and [d, e])) value =
    (passes (some d) value && passes (some e) value) := by
  rw [Bool.eq_iff_iff, Bool.and_eq_true, passes_some_iff, passes_some_iff, passes_some_iff,
    Expr.evaluate_apply_two]
  constructor
  · rintro ⟨v, w, hd, he, h⟩
    obtain ⟨rfl, rfl⟩ := Expr.apply_and_true.mp h
    exact ⟨hd, he⟩
  · rintro ⟨hd, he⟩
    exact ⟨_, _, hd, he, Expr.apply_and_true.mpr ⟨rfl, rfl⟩⟩

/-- A record passes `||` only if it passes one of the two. -/
theorem passes_or (h : passes (some (.apply .or [d, e])) value = true) :
    passes (some d) value = true ∨ passes (some e) value = true := by
  simp only [passes_some_iff] at h ⊢
  obtain ⟨v, w, hd, he, h⟩ := Expr.evaluate_apply_two.mp h
  obtain rfl | rfl := Expr.or_of_apply_true h
  · exact .inl hd
  · exact .inr he

/-- A record passes `!` only where the filter is false. -/
theorem passes_not (h : passes (some (.apply .not [e])) value = true) :
    passes (some e) value = false := by
  rw [passes_some_iff, Expr.evaluate_apply_one] at h
  obtain ⟨v, he, h⟩ := h
  obtain rfl := Expr.apply_not_true.mp h
  rw [Bool.eq_false_iff, ne_eq, passes_some_iff, he]
  simp

/-! ### Filters of filters -/

/-- What holds where both filters hold. -/
def both (f g : String) : String := "(" ++ f ++ ") && (" ++ g ++ ")"

/-- What holds where one of the filters holds, and the other one has a truth value. -/
def either (f g : String) : String := "(" ++ f ++ ") || (" ++ g ++ ")"

/-- What holds where the filter is false. -/
def negation (f : String) : String := "!(" ++ f ++ ")"

theorem parse_both (hf : Expr.parse f = .ok d) (hg : Expr.parse g = .ok e) :
    Expr.parse (both f g) = .ok (.apply .and [d, e]) := by
  have htext : both f g = "(" ++ f ++ ") " ++ Expr.Operation.and.spelling ++ " (" ++ g ++ ")" :=
    String.toList_inj.mp (by simp [both, Expr.Operation.spelling])
  rw [htext]
  exact Expr.parse_between rfl hf hg

theorem parse_either (hf : Expr.parse f = .ok d) (hg : Expr.parse g = .ok e) :
    Expr.parse (either f g) = .ok (.apply .or [d, e]) := by
  have htext : either f g = "(" ++ f ++ ") " ++ Expr.Operation.or.spelling ++ " (" ++ g ++ ")" :=
    String.toList_inj.mp (by simp [either, Expr.Operation.spelling])
  rw [htext]
  exact Expr.parse_between rfl hf hg

theorem parse_negation (hf : Expr.parse f = .ok e) :
    Expr.parse (negation f) = .ok (.apply .not [e]) := by
  have htext : negation f = Expr.Operation.not.spelling ++ "(" ++ f ++ ")" :=
    String.toList_inj.mp (by simp [negation, Expr.Operation.spelling])
  rw [htext]
  exact Expr.parse_sign (by decide) hf

/-! ### Queries for names -/

/-- The query for the names of the resources of a class. -/
def names (k : ResourceId) (p : Principal) (filter : Option String) : Query :=
  ⟨k, [idField], p, filter⟩

end Query

/-- The answer that holds some names. -/
def ColumnSet.ofIds (ids : List ResourceId) : ColumnSet :=
  ⟨[(Query.idField, .texts (ids.map fun id => some id.text))], ids.length⟩

/-- Whether a filter holds in a row. -/
def Submission.meets (row : Submission) (filter : String) : Bool :=
  match Expr.evaluateText filter row.value.context with
  | .ok (.boolean true) => true
  | _ => false

/-- The names of the rows that a filter holds in. -/
def Submission.idsUnder (rows : List Submission) (filter : String) : List ResourceId :=
  (rows.filter (·.meets filter)).map (·.id)

namespace Workspace

variable {w : Workspace} {k : ResourceId} {p : Principal} {q : Query} {tree : FormTree}
  {plans : List Query.Plan} {c : ColumnSet} {f g source : String} {d e : Expr}

/-! ## Rows under a filter -/

/-- **A filter changes nothing about an entry,** other than that it has to pass. -/
theorem answer_admitted? (s : Store) (p : Principal) (e : Expr) (entry : Entry) :
    (s.admitted? p (some e) entry).answer = (s.admitted? p none entry).answer.map
      (Option.filter fun row => Query.passes (some e) row.value) := by
  have hlast (a : Authorization) : (if a.canView ∧ Query.passes (some e) entry.value
      then some entry.submission else none) =
        (if a.canView ∧ Query.passes none entry.value then some entry.submission else none).filter
          fun row => Query.passes (some e) row.value := by
    have hnone : Query.passes none entry.value = true := rfl
    have hvalue : entry.submission.value = entry.value := rfl
    cases a.canView <;> cases hpass : Query.passes (some e) entry.value <;>
      simp [Option.filter, hnone, hvalue, hpass]
  rw [Store.admitted?, Store.admitted?]
  split
  · rfl
  · simp only [Reading.answer_bind, Reading.answer_ofExcept]
    cases s.isDeleted entry.owner with
    | error _ => rfl
    | ok dead =>
      cases dead with
      | true => rfl
      | false =>
        simp only [Except.bind, Bool.false_eq_true, if_false, Reading.answer_bind,
          Reading.answer_mapError]
        cases (s.committedVersion? entry).answer.mapError WorkspaceError.store with
        | error _ => rfl
        | ok version? =>
          cases version? with
          | none => rfl
          | some v =>
            simp only [Reading.answer_bind, hlast]
            cases (s.authorize p entry.id).answer <;> rfl

/-- The rows under a filter are those of the query without it that pass. -/
theorem submissions_filtered (w : Workspace) (k : ResourceId) (p : Principal) (source : String)
    (e : Expr) : w.submissions (.names k p (some source)) (some e) =
      (w.submissions (.names k p none) none).filter fun row => Query.passes (some e) row.value := by
  have hshown (row : Row) : row.shown (w.store.admitted? p (some e)) =
      (row.shown (w.store.admitted? p none)).filter fun row => Query.passes (some e) row.value := by
    rw [Row.shown, Row.shown]
    cases row.read with
    | error _ => rfl
    | ok entry =>
      change (w.store.admitted? p (some e) entry).answer.toOption.join =
        (w.store.admitted? p none entry).answer.toOption.join.filter _
      rw [answer_admitted?]
      cases (w.store.admitted? p none entry).answer <;> rfl
  rw [submissions, submissions, List.filter_filterMap]
  exact List.filterMap_congr fun row _ => hshown row

/-- A query without a filter that is answered would be answered under any filter. -/
theorem Queried.filtered (h : w.Queried (.names k p none) tree plans none)
    (hparse : Expr.parse source = .ok e) :
    w.Queried (.names k p (some source)) tree plans (some e) where
  viewed := h.viewed
  live := h.live
  built := h.built
  planned := h.planned
  parsed := by simp [Query.condition, Query.names, hparse]
  told row hrow := by
    obtain ⟨entry, sub, hread, hsub⟩ := h.told row hrow
    have hsub : (w.store.admitted? p none entry).answer = .ok sub := hsub
    exact ⟨entry, _, hread, (answer_admitted? w.store p e entry).trans (by rw [hsub]; rfl)⟩

/-- Names are answered with the names of the rows. -/
theorem fill_names (h : Query.plans tree [Query.idField] = .ok plans) (rows : List Submission) :
    Query.fill plans rows = .ofIds (rows.map (·.id)) := by
  have hplan : Query.plans tree [Query.idField] = .ok [Query.idPlan] := by
    simp [Query.plans, Query.plan, Query.idPlan, bind, Except.bind, pure, Except.pure]
  obtain rfl := Except.ok.inj (h.symm.trans hplan)
  simp only [Query.fill, ColumnSet.ofIds, List.map_map, List.length_map]
  rfl

theorem meets_eq_passes (hparse : Expr.parse source = .ok e) (row : Submission) :
    row.meets source = Query.passes (some e) row.value := by
  simp only [Submission.meets, Query.passes, Expr.evaluateText, hparse]
  rcases e.evaluate row.value.context with _ | (_ | _ | (_ | _) | _) <;> rfl

/-- **Under a filter, names are answered with those of the rows that it holds in,** in their order. -/
theorem query_names (h : w.Queried (.names k p none) tree plans none)
    (hparse : Expr.parse source = .ok e) : (w.query (.names k p (some source))).answer =
      .ok (.ofIds (Submission.idsUnder (w.submissions (.names k p none) none) source)) := by
  refine query_ok_iff.mpr ⟨tree, plans, some e, h.filtered hparse, ?_⟩
  rw [submissions_filtered, fill_names h.planned, Submission.idsUnder]
  simp only [meets_eq_passes hparse]

/-! ## Two filters -/

/-- The names under two filters and under what is made of them, where names are distinct. -/
structure IdsCompose (f g : String) (rows : List Submission) : Prop where
  both : Submission.idsUnder rows (Query.both f g) = (rows.map (·.id)).filter fun id =>
    id ∈ Submission.idsUnder rows f ∧ id ∈ Submission.idsUnder rows g
  among : Submission.idsUnder rows (Query.negation f) ⊆ rows.map (·.id)
  apart : (Submission.idsUnder rows (Query.negation f)).Disjoint (Submission.idsUnder rows f)
  either : ∀ id ∈ Submission.idsUnder rows (Query.either f g),
    id ∈ Submission.idsUnder rows f ∨ id ∈ Submission.idsUnder rows g

/-- What the query for the names of a class is answered with under two filters, and under what is
made of them.  Without a filter it is answered with `rows`. -/
structure Composition (w : Workspace) (k : ResourceId) (p : Principal) (f g : String)
    (rows : List Submission) : Prop where
  unfiltered : (w.query (.names k p none)).answer = .ok (.ofIds (rows.map (·.id)))
  /-- All of them are expressions, and keep the rows that they hold in. -/
  filtered : ∀ source ∈ [f, g, Query.both f g, Query.negation f, Query.either f g],
    (∃ e, Expr.parse source = .ok e) ∧ (w.query (.names k p (some source))).answer =
      .ok (.ofIds (Submission.idsUnder rows source))
  both : ∀ row : Submission, row.meets (Query.both f g) = (row.meets f && row.meets g)
  negation : ∀ row : Submission, row.meets (Query.negation f) → row.meets f = false
  either : ∀ row : Submission, row.meets (Query.either f g) → row.meets f ∨ row.meets g
  /-- As the store has one row for a name, the same holds of the names. -/
  ids : (w.store.tables.rows.map (·.id)).Nodup → IdsCompose f g rows

theorem mem_idsUnder {rows : List Submission} {row : Submission}
    (hdistinct : (rows.map (·.id)).Nodup) (hrow : row ∈ rows) :
    row.id ∈ Submission.idsUnder rows source ↔ row.meets source = true := by
  rw [Submission.idsUnder, List.mem_map]
  constructor
  · rintro ⟨other, hother, hid⟩
    obtain ⟨hmem, hmeets⟩ := List.mem_filter.mp hother
    rwa [← List.inj_on_of_nodup_map hdistinct hmem hrow hid]
  · exact fun hmeets => ⟨row, List.mem_filter.mpr ⟨hrow, hmeets⟩, rfl⟩

/-- What holds of rows with distinct names holds of the names. -/
theorem idsCompose_of_rows {rows : List Submission} (hdistinct : (rows.map (·.id)).Nodup)
    (hboth : ∀ row : Submission, row.meets (Query.both f g) = (row.meets f && row.meets g))
    (hnegation : ∀ row : Submission, row.meets (Query.negation f) → row.meets f = false)
    (heither : ∀ row : Submission, row.meets (Query.either f g) → row.meets f ∨ row.meets g) :
    IdsCompose f g rows where
  both := by
    rw [List.filter_map, Submission.idsUnder]
    refine congrArg (List.map _) (List.filter_congr fun row hrow => ?_)
    rw [hboth, Function.comp_apply, Bool.eq_iff_iff, Bool.and_eq_true, decide_eq_true_iff,
      mem_idsUnder hdistinct hrow, mem_idsUnder hdistinct hrow]
  among := (List.filter_sublist.map _).subset
  apart := by
    intro id hid hid'
    obtain ⟨row, hrow, rfl⟩ := List.mem_map.mp hid
    obtain ⟨hmem, hmeets⟩ := List.mem_filter.mp hrow
    have hholds := (mem_idsUnder hdistinct hmem).mp hid'
    exact Bool.false_ne_true ((hnegation row hmeets).symm.trans hholds)
  either := by
    intro id hid
    obtain ⟨row, hrow, rfl⟩ := List.mem_map.mp hid
    obtain ⟨hmem, hmeets⟩ := List.mem_filter.mp hrow
    rw [mem_idsUnder hdistinct hmem, mem_idsUnder hdistinct hmem]
    exact heither row hmeets

/-- The rows of a query have distinct names, as those of the store have. -/
theorem nodup_submissions (hdistinct : (w.store.tables.rows.map (·.id)).Nodup)
    (h : w.Queried q tree plans none) : ((w.submissions q none).map (·.id)).Nodup := by
  rw [ids_submissions hdistinct h, ids_gettable]
  exact (List.filter_sublist.map _).nodup hdistinct

/-- **Filters compose.**  Where the query for the names of a class is answered without a filter, and
two texts are expressions, it is answered under both, and under what is made of them. -/
theorem composition_of_query (hall : (w.query (.names k p none)).answer = .ok c)
    (hf : Expr.parse f = .ok d) (hg : Expr.parse g = .ok e) :
    ∃ rows, c = .ofIds (rows.map (·.id)) ∧ w.Composition k p f g rows := by
  obtain ⟨tree, plans, filter, h, rfl⟩ := query_ok_iff.mp hall
  obtain rfl : filter = none := (Except.ok.inj h.parsed).symm
  have hfill := fill_names h.planned (w.submissions (.names k p none) none)
  have hanswer {source : String} {e : Expr} (hparse : Expr.parse source = .ok e) :
      (∃ e, Expr.parse source = .ok e) ∧ (w.query (.names k p (some source))).answer =
        .ok (.ofIds (Submission.idsUnder (w.submissions (.names k p none) none) source)) :=
    ⟨⟨e, hparse⟩, query_names h hparse⟩
  have hboth (row : Submission) : row.meets (Query.both f g) = (row.meets f && row.meets g) := by
    rw [meets_eq_passes (Query.parse_both hf hg), Query.passes_and, meets_eq_passes hf,
      meets_eq_passes hg]
  have hnegation (row : Submission) (h : row.meets (Query.negation f)) : row.meets f = false := by
    rw [meets_eq_passes (Query.parse_negation hf)] at h
    rw [meets_eq_passes hf, Query.passes_not h]
  have heither (row : Submission) (h : row.meets (Query.either f g)) :
      row.meets f ∨ row.meets g := by
    rw [meets_eq_passes (Query.parse_either hf hg)] at h
    rw [meets_eq_passes hf, meets_eq_passes hg]
    exact Query.passes_or h
  refine ⟨_, hfill, hall.trans (congrArg _ hfill), ?_, hboth, hnegation, heither, fun hdistinct =>
    idsCompose_of_rows (nodup_submissions hdistinct h) hboth hnegation heither⟩
  simp only [List.forall_mem_cons]
  exact ⟨hanswer hf, hanswer hg, hanswer (Query.parse_both hf hg),
    hanswer (Query.parse_negation hf), hanswer (Query.parse_either hf hg), fun _ h => nomatch h⟩

/-! ## Visits in a town -/

/-- The answer tells the names. -/
theorem ofIds_injective {ids ids' : List ResourceId}
    (h : ColumnSet.ofIds ids = ColumnSet.ofIds ids') : ids = ids' := by
  simp only [ColumnSet.ofIds, ColumnSet.mk.injEq, List.cons.injEq, Prod.mk.injEq,
    Column.texts.injEq, true_and, and_true] at h
  refine List.map_injective_iff.mpr (fun a b hab => ?_) h.1
  cases a
  cases b
  simpa using hab

/-- Of two visits one has an address. -/
theorem names_visitHome : (visitHome.query (.names ⟨"visit"⟩ ⟨"alice"⟩ none)).answer =
    .ok (.ofIds [⟨"v1"⟩, ⟨"v2"⟩]) := by
  rw [← toOption_eq_some]
  decide +kernel

theorem isSome_parse_town : (Expr.parse "at.town == \"Ulm\"").toOption.isSome = true ∧
    (Expr.parse "at.town != \"Bonn\"").toOption.isSome = true := by
  decide +kernel

/-- Two filters for the town compose, also over the visit without one. -/
theorem composition_of_query_visitHome : ∃ rows : List Submission,
    rows.map (·.id) = [⟨"v1"⟩, ⟨"v2"⟩] ∧
      visitHome.Composition ⟨"visit"⟩ ⟨"alice"⟩ "at.town == \"Ulm\"" "at.town != \"Bonn\"" rows ∧
        IdsCompose "at.town == \"Ulm\"" "at.town != \"Bonn\"" rows := by
  obtain ⟨hulm, hbonn⟩ := isSome_parse_town
  obtain ⟨d, hd⟩ := Option.isSome_iff_exists.mp hulm
  obtain ⟨e, he⟩ := Option.isSome_iff_exists.mp hbonn
  have hdistinct : (visitHome.store.tables.rows.map (·.id)).Nodup := by decide +kernel
  obtain ⟨rows, hrows, hcompose⟩ := composition_of_query names_visitHome
    (toOption_eq_some.mp hd) (toOption_eq_some.mp he)
  exact ⟨rows, (ofIds_injective hrows).symm, hcompose, hcompose.ids hdistinct⟩

end Workspace

end Fieldbook
