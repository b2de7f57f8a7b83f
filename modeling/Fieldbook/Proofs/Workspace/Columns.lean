import Fieldbook.Proofs.Column.Cells
import Fieldbook.Proofs.FormTree.Trails
import Fieldbook.Proofs.Workspace.Agreement
import Fieldbook.Proofs.Workspace.Disclosure

/-!
# Proofs/Workspace/Columns — the columns of a query, row by row

A query goes through the rows of a class once and keeps those that it has to show (`admitted`).  A
name that is asked for has a column if it is found in the tree of the form, no reference stands
above it, and its type has columns (`Asks`); the column is then told by the name and the rows alone,
one cell for each row (`rowWise_of_query`).
-/

namespace Fieldbook

/-! ## What is asked for -/

/-- Where a row has the value of a node's field: under the names on the way to the node, unless the
field is one that every form has. -/
def PlacedNode.source (n : PlacedNode) : CellSource :=
  if n.intrinsic ∧ n.field.id = FormTree.creatorField.id then .creator
  else if n.intrinsic ∧ n.field.id = FormTree.submissionTimeField.id then .submissionTime
  else .path (n.path.map fun id => id.text)

namespace Query

open FieldNode

variable {tree : FormTree} {name : String} {fields : List String} {ps : List Plan}
  {filling : Filling} {source : CellSource}

/-- What a name asks for: the name of the resource itself, or the field of a node that has only
embedded records above it and a type with columns. -/
inductive Asks (tree : FormTree) (name : String) : Filling → CellSource → Prop where
  | id (h : name = idField) : Asks tree name .texts .id
  | node {i : Nat} {n : PlacedNode} {filling : Filling} (other : name ≠ idField)
      (found : tree.find? name = some i) (get : tree.listing[i]? = some n)
      (embedded : ∀ (j : Nat) (m : PlacedNode), Under tree.listing j i → j ≠ i →
        tree.listing[j]? = some m → m.field.type.isEmbedded = true)
      (fills : Filling.ofType n.field.type = .ok (some filling)) : Asks tree name filling n.source

/-- The fields that every form has stand at the top. -/
def TopIntrinsic (tree : FormTree) : Prop :=
  ∀ (i : Nat) (n : PlacedNode), tree.listing[i]? = some n → n.intrinsic = true → n.parent = none

/-- **Where a field has its values:** at its node's place, if only embedded records stand above. -/
theorem source?_eq {i : Nat} {n : FieldNode} {above : List (Nat × FieldNode)}
    (htop : TopIntrinsic tree) (h : Way tree.nodes i n above) :
    source? ((above ++ [(i, n)]).map (·.2)) n =
      if ∀ x ∈ above, x.2.field.type.isEmbedded = true
      then some (n.place i (lastNumber? above) (names above)).source else none := by
  have hget : tree.listing[i]? = some (n.place i (lastNumber? above) (names above)) := h.getElem?
  have habove : n.isIntrinsic = true → above = [] := by
    intro hintrinsic
    have hparent := htop i _ hget hintrinsic
    cases habove : above.getLast? with
    | none => exact List.getLast?_eq_none_iff.mp habove
    | some x => simp [place, lastNumber?, habove] at hparent
  have hall : ((above ++ [(i, n)]).map (·.2)).dropLast.all (fun m => m.field.type.isEmbedded) =
      true ↔ ∀ x ∈ above, x.2.field.type.isEmbedded = true := by
    rw [List.map_append, List.map_singleton, List.dropLast_concat, List.all_eq_true,
      List.forall_mem_map]
  by_cases hembedded : ∀ x ∈ above, x.2.field.type.isEmbedded = true
  · have hpath : ((above ++ [(i, n)]).map (·.2)).map (fun m => m.field.id.text) =
        (names above ++ [n.field.id]).map fun id => id.text := by
      rw [names, List.map_map, List.map_append, List.map_append, List.map_map]
      rfl
    have hsource : (n.place i (lastNumber? above) (names above)).source =
        if n.isIntrinsic ∧ n.field.id = FormTree.creatorField.id then .creator
        else if n.isIntrinsic ∧ n.field.id = FormTree.submissionTimeField.id then .submissionTime
        else .path ((names above ++ [n.field.id]).map fun id => id.text) := rfl
    rw [if_pos hembedded, source?, if_pos (hall.mpr hembedded), hpath, hsource]
    split_ifs <;> rfl
  · have hdeclared : n.isIntrinsic = false := by
      rw [Bool.eq_false_iff]
      intro hintrinsic
      exact hembedded (by simp [habove hintrinsic])
    rw [if_neg hembedded, source?, if_neg (by simp [hdeclared]), if_neg (by simp [hdeclared]),
      if_neg (fun h => hembedded (hall.mp h))]

/-- **The column for a name** is planned when the name asks for one. -/
theorem plan_some_iff (htop : TopIntrinsic tree) {p : Plan} :
    plan tree name = .ok (some p) ↔ p.name = name ∧ Asks tree name p.filling p.source := by
  obtain ⟨name', filling, source⟩ := p
  dsimp only
  rw [plan]
  split
  · next hid =>
    constructor
    · intro h
      cases h
      exact ⟨rfl, .id hid⟩
    · rintro ⟨rfl, hasks⟩
      cases hasks with
      | id => rfl
      | node other => exact absurd hid other
  · next hid =>
    cases htrail : tree.trail? name with
    | none =>
      refine iff_of_false (by simp) ?_
      rintro ⟨-, hasks⟩
      cases hasks with
      | id h => exact hid h
      | node _ found => simp [FormTree.find?, htrail] at found
    | some trail =>
      obtain ⟨-, above, i, n, rfl, hway⟩ := FormTree.way_of_trail? htrail
      have hfind := FormTree.find?_of_trail? htrail
      have hget : tree.listing[i]? = some (n.place i (lastNumber? above) (names above)) :=
        hway.getElem?
      have hembedded := hway.forall_iff fun field => field.type.isEmbedded = true
      have hlast : ((above ++ [(i, n)]).map (·.2)).getLast? = some n := by simp
      simp only [Option.map_some, hlast, source?_eq htop hway]
      constructor
      · intro h
        split at h
        · cases h
        · cases h
        · cases h
        · next hsource hfills =>
          cases h
          split at hsource
          · next hall =>
            obtain rfl := Option.some.inj hsource
            exact ⟨rfl, .node hid hfind hget (hembedded.mp hall) hfills⟩
          · cases hsource
      · rintro ⟨rfl, hasks⟩
        cases hasks with
        | id h => exact absurd h hid
        | node _ found get embedded fills =>
          obtain rfl := Option.some.inj (hfind.symm.trans found)
          obtain rfl := Option.some.inj (hget.symm.trans get)
          have hfills : Filling.ofType n.field.type = .ok (some filling) := fills
          rw [if_pos (hembedded.mpr embedded), hfills]

/-- A name asks for one thing. -/
theorem Asks.unique {filling' : Filling} {source' : CellSource} (h : Asks tree name filling source)
    (h' : Asks tree name filling' source') : filling = filling' ∧ source = source' := by
  cases h with
  | id hid =>
    cases h' with
    | id => exact ⟨rfl, rfl⟩
    | node other => exact absurd hid other
  | node other found get _ fills =>
    cases h' with
    | id hid => exact absurd hid other
    | node _ found' get' _ fills' =>
      obtain rfl := Option.some.inj (found.symm.trans found')
      obtain rfl := Option.some.inj (get.symm.trans get')
      exact ⟨Option.some.inj (Except.ok.inj (fills.symm.trans fills')), rfl⟩

/-! ## Columns under names -/

theorem toOption_join_eq_some {ε α : Type} {x : Except ε (Option α)} {a : α} :
    x.toOption.join = some a ↔ x = .ok (some a) := by
  cases x <;> simp [Except.toOption]

theorem plans_ok_iff : ∀ {fields : List String} {ps : List Plan}, plans tree fields = .ok ps ↔
    (∀ name ∈ fields, ∃ p, plan tree name = .ok p) ∧
      ps = fields.filterMap fun name => (plan tree name).toOption.join
  | [], ps => by simp [plans, eq_comm]
  | name :: rest, ps => by
    rw [plans]
    cases hplan : plan tree name with
    | error e => simp [hplan, bind, Except.bind]
    | ok p =>
      cases hrest : plans tree rest with
      | error e =>
        have hnot : ¬∀ name ∈ rest, ∃ p, plan tree name = .ok p := by
          intro hall
          cases hrest.symm.trans (plans_ok_iff.mpr ⟨hall, rfl⟩)
        simp [bind, Except.bind, hnot]
      | ok more =>
        obtain ⟨hall, rfl⟩ := plans_ok_iff.mp hrest
        have hok : ∀ name' ∈ name :: rest, ∃ p, plan tree name' = .ok p :=
          List.forall_mem_cons.mpr ⟨⟨p, hplan⟩, hall⟩
        rw [and_iff_right hok, List.filterMap_cons, hplan]
        cases p <;> simp [bind, Except.bind, pure, Except.pure, Except.toOption, eq_comm]

/-- **The columns of a query** are those that are asked for, each told by its name and the rows. -/
theorem column?_fill_iff (htop : TopIntrinsic tree) (h : plans tree fields = .ok ps)
    {rows : List Submission} {column : Column} :
    (fill ps rows).column? name = some column ↔ name ∈ fields ∧
      ∃ filling source, Asks tree name filling source ∧ column = filling.column source rows := by
  obtain ⟨-, rfl⟩ := plans_ok_iff.mp h
  have hmem : ∀ x : String × Column, (x ∈ (fields.filterMap fun name =>
      (plan tree name).toOption.join).map fun p => (p.name, p.filling.column p.source rows)) ↔
      x.1 ∈ fields ∧ ∃ filling source, Asks tree x.1 filling source ∧
        x.2 = filling.column source rows := by
    rintro ⟨name, column⟩
    simp only [List.mem_map, List.mem_filterMap, Prod.mk.injEq]
    constructor
    · rintro ⟨p, ⟨asked, hasked, hp⟩, rfl, rfl⟩
      obtain ⟨hname, hasks⟩ := (plan_some_iff htop).mp (toOption_join_eq_some.mp hp)
      exact ⟨hname ▸ hasked, p.filling, p.source, hname ▸ hasks, rfl⟩
    · rintro ⟨hasked, filling, source, hasks, rfl⟩
      exact ⟨⟨name, filling, source⟩, ⟨name, hasked,
        toOption_join_eq_some.mpr ((plan_some_iff htop).mpr ⟨rfl, hasks⟩)⟩, rfl, rfl⟩
  change Keyed.find? name (Keyed.ofList _) = _ ↔ _
  generalize List.map _ _ = pairs at hmem ⊢
  have hone : ∀ x y, x ∈ pairs → y ∈ pairs → x.1 = y.1 → x.2 = y.2 := by
    intro x y hx hy hname
    obtain ⟨-, filling, source, hasks, hcolumn⟩ := (hmem x).mp hx
    obtain ⟨-, filling', source', hasks', hcolumn'⟩ := (hmem y).mp hy
    obtain ⟨rfl, rfl⟩ := hasks.unique (hname ▸ hasks')
    rw [hcolumn, hcolumn']
  exact (Keyed.find?_ofList_iff hone).trans (hmem (name, column))

end Query

namespace Workspace

variable {w : Workspace} {q : Query} {c : ColumnSet} {tree : FormTree} {plans : List Query.Plan}
  {filter : Option Expr}

/-! ## Rows -/

/-- A row that a query has to show, and the entry that is read of it. -/
structure Admits (w : Workspace) (q : Query) (row : Row) (e : Entry) : Prop where
  class_eq : row.classId = q.form
  read : row.read = .ok e
  /-- Neither the row is marked as deleted, nor is anything above it. -/
  unmarked : row.deleted = false ∧ w.store.isDeleted row.owner = .ok false
  version : ∃ v, (w.store.committedVersion? e).answer = .ok (some v)
  viewed : w.Views q.principal row.id
  passes : ∀ source, q.filter = some source →
    Expr.evaluateText source e.value.context = .ok (.boolean true)

open Classical in
/-- **The rows that a query has to show,** in the order of the store. -/
noncomputable def admitted (w : Workspace) (q : Query) : List Submission :=
  w.store.tables.rows.filterMap fun row => row.read.toOption.bind fun e =>
    if w.Admits q row e then some e.submission else none

open Classical in
/-- What has to be shown does not depend on which names are asked for. -/
theorem admitted_of_fields (w : Workspace) (q : Query) (fields : List String) :
    w.admitted { q with fields := fields } = w.admitted q := by
  have hadmits : ∀ row e, w.Admits { q with fields := fields } row e ↔ w.Admits q row e :=
    fun row e => ⟨fun ⟨a, b, c, d, e, f⟩ => ⟨a, b, c, d, e, f⟩,
      fun ⟨a, b, c, d, e, f⟩ => ⟨a, b, c, d, e, f⟩⟩
  exact List.filterMap_congr fun row _ =>
    congrArg (Option.bind _) (funext fun e => if_congr (hadmits row e) rfl rfl)

theorem passes_iff (h : q.condition = .ok filter) {value : Record} :
    Query.passes filter value = true ↔ ∀ source, q.filter = some source →
      Expr.evaluateText source value.context = .ok (.boolean true) := by
  rw [Query.condition] at h
  cases hfilter : q.filter with
  | none =>
    rw [hfilter] at h
    cases h
    simp [Query.passes]
  | some source =>
    rw [hfilter] at h
    cases hparse : Expr.parse source with
    | error e => simp [hparse] at h
    | ok e =>
      simp only [hparse, Except.ok.injEq] at h
      subst h
      have hpasses : Query.passes (some e) value = true ↔
          e.evaluate value.context = .ok (.boolean true) := by
        rw [Query.passes]
        split
        · next heval => exact iff_of_true rfl heval
        · next hother => exact iff_of_false Bool.false_ne_true hother
      have htext : Expr.evaluateText source value.context = .ok (.boolean true) ↔
          e.evaluate value.context = .ok (.boolean true) := by
        cases heval : e.evaluate value.context <;> simp [Expr.evaluateText, hparse, heval]
      rw [hpasses, ← htext]
      exact ⟨fun h source' hsource => Option.some.inj hsource ▸ h, fun h => h source rfl⟩

open Classical in
/-- **What is told of an entry** that can be told of. -/
theorem admitted?_eq {p : Principal} {e : Entry} {sub : Option Submission}
    (h : (w.store.admitted? p filter e).answer = .ok sub) :
    sub = if (e.deleted = false ∧ w.store.isDeleted e.owner = .ok false) ∧
        (∃ v, (w.store.committedVersion? e).answer = .ok (some v)) ∧ w.Views p e.id ∧
        Query.passes filter e.value = true then some e.submission else none := by
  rw [Store.admitted?] at h
  split at h
  · next hdead =>
    cases h
    rw [if_neg fun hshown => Bool.false_ne_true (hshown.1.1.symm.trans hdead)]
  · next hlive =>
    have hlive : e.deleted = false := Bool.eq_false_iff.mpr hlive
    obtain ⟨dead, howner, h⟩ := Reading.bind_ok.mp h
    have howner : w.store.isDeleted e.owner = .ok dead := howner
    cases dead with
    | true =>
      cases h
      rw [if_neg fun hshown => absurd (howner.symm.trans hshown.1.2) (by simp)]
    | false =>
      obtain ⟨version?, hversion, h⟩ := Reading.bind_ok.mp h
      have hversion := Reading.mapError_ok.mp hversion
      cases version? with
      | none =>
        cases h
        rw [if_neg]
        rintro ⟨-, ⟨v, hv⟩, -⟩
        cases hversion.symm.trans hv
      | some v =>
        obtain ⟨a, ha, h⟩ := Reading.bind_ok.mp h
        cases h
        have hview : w.Views p e.id ↔ a.canView = true := by
          constructor
          · rintro ⟨a', ha', hview⟩
            obtain rfl := Except.ok.inj (ha.symm.trans ha')
            exact hview
          · exact fun hview => ⟨a, ha, hview⟩
        refine if_congr ?_ rfl rfl
        rw [hview]
        constructor
        · rintro ⟨hview, hpass⟩
          exact ⟨⟨hlive, howner⟩, ⟨v, hversion⟩, hview, hpass⟩
        · exact fun hshown => hshown.2.2

open Classical in
/-- **The rows that a query shows** are those that it has to. -/
theorem submissions_eq (h : w.Queried q tree plans filter) :
    w.submissions q filter = w.admitted q := by
  rw [submissions, admitted, List.filterMap_filter]
  refine List.filterMap_congr fun row hmem => ?_
  by_cases hclass : row.classId = q.form
  · obtain ⟨e, sub, hread, hsub⟩ := h.told row (List.mem_filter.mpr ⟨hmem, decide_eq_true hclass⟩)
    rw [if_pos (decide_eq_true hclass), Row.shown_eq hread hsub, hread, admitted?_eq hsub]
    refine if_congr ?_ rfl rfl
    rw [Row.deleted_of_read hread, Row.owner_of_read hread, Row.id_of_read hread,
      passes_iff h.parsed]
    constructor
    · rintro ⟨hmark, hversion, hview, hpasses⟩
      exact ⟨hclass, hread, hmark, hversion, hview, hpasses⟩
    · exact fun hadmits => ⟨hadmits.unmarked, hadmits.version, hadmits.viewed, hadmits.passes⟩
  · rw [if_neg (by simp [hclass])]
    cases row.read with
    | error e => rfl
    | ok e => exact (if_neg fun hadmits => hclass hadmits.class_eq).symm

/-! ## The columns of a query -/

/-- The two fields that every form has stand at the top of its tree. -/
theorem topIntrinsic_of_build
    (h : (FormTree.build (.ofStore w.store) w.maxTreeDepth q.form).answer = .ok tree) :
    Query.TopIntrinsic tree := by
  obtain ⟨-, nodes, hnodes, hfields, hgrown⟩ :=
    FormTree.grown_of_build (fun _ _ => Store.id_of_form?) h
  have hshape := FormTree.Shape.of_grown hnodes hfields hgrown
  intro i n hget hintrinsic
  have hi : i < 2 := (hshape.intrinsic i n hget).mp hintrinsic
  have htake : (tree.listing.take 2)[i]? = some n := by rw [List.getElem?_take_of_lt hi, hget]
  rw [hshape.first] at htake
  have hmem := List.mem_of_getElem? htake
  obtain ⟨field, -, rfl⟩ := List.mem_map.mp hmem
  rfl

/-- Fewer names, or the same ones in another order, are asked of the same tree and rows. -/
theorem Queried.of_fields (h : w.Queried q tree plans filter) {fields : List String}
    (hfields : ∀ name ∈ fields, name ∈ q.fields) :
    ∃ plans', w.Queried { q with fields := fields } tree plans' filter := by
  obtain ⟨hall, -⟩ := Query.plans_ok_iff.mp h.planned
  have hplanned := Query.plans_ok_iff.mpr ⟨fun name hname => hall name (hfields name hname), rfl⟩
  exact ⟨_, h.viewed, h.live, h.built, hplanned, h.parsed, h.told⟩

/-- The columns of an answer, row by row. -/
structure RowWise (w : Workspace) (q : Query) (tree : FormTree) (c : ColumnSet) : Prop where
  built : (FormTree.build (.ofStore w.store) w.maxTreeDepth q.form).answer = .ok tree
  /-- There are as many rows as have to be shown. -/
  numRows : c.numRows = (w.admitted q).length
  /-- Every column is there once. -/
  ascending : Keyed.Ascending c.columns
  /-- The names with a column are the asked ones that are found, without a reference above them, and
  have a type with columns. -/
  keys : ∀ name, (c.column? name).isSome ↔
    name ∈ q.fields ∧ ∃ filling source, Query.Asks tree name filling source
  /-- A column has a cell for each row, made of that row alone in a column of this type. -/
  cells : ∀ name column, c.column? name = some column → ∃ filling source,
    Query.Asks tree name filling source ∧ column.length = (w.admitted q).length ∧
      column.type = filling.type source (w.admitted q) ∧
      column.cells = (w.admitted q).map fun row => filling.cell source column.type row
  /-- Which other names are asked for makes no difference to the column of a name. -/
  others : ∀ fields c', (w.query { q with fields := fields }).answer = .ok c' →
    c'.numRows = c.numRows ∧ ∀ name ∈ q.fields, name ∈ fields → c'.column? name = c.column? name
  /-- Asking for less is answered as well. -/
  fewer : ∀ fields, (∀ name ∈ fields, name ∈ q.fields) →
    ∃ c', (w.query { q with fields := fields }).answer = .ok c'

/-- **The columns of a query are its rows, read one by one.** -/
theorem rowWise_of_query (h : (w.query q).answer = .ok c) : ∃ tree, w.RowWise q tree c := by
  obtain ⟨tree, plans, filter, hqueried, rfl⟩ := query_ok_iff.mp h
  have htop := topIntrinsic_of_build hqueried.built
  rw [submissions_eq hqueried]
  have hcolumn : ∀ {name column},
      (Query.fill plans (w.admitted q)).column? name = some column ↔ name ∈ q.fields ∧
        ∃ filling source, Query.Asks tree name filling source ∧
          column = filling.column source (w.admitted q) :=
    fun {name column} => Query.column?_fill_iff htop hqueried.planned
  refine ⟨tree, hqueried.built, rfl, (Keyed.kept_ofList _).ascending, fun name => ?_,
    fun name column hname => ?_, fun fields c' h' => ?_, fun fields hfields => ?_⟩
  · rw [Option.isSome_iff_exists]
    constructor
    · rintro ⟨column, hname⟩
      obtain ⟨hasked, filling, source, hasks, -⟩ := hcolumn.mp hname
      exact ⟨hasked, filling, source, hasks⟩
    · rintro ⟨hasked, filling, source, hasks⟩
      exact ⟨_, hcolumn.mpr ⟨hasked, filling, source, hasks, rfl⟩⟩
  · obtain ⟨-, filling, source, hasks, rfl⟩ := hcolumn.mp hname
    obtain ⟨htype, hcells⟩ := filling.column_eq source (w.admitted q)
    refine ⟨filling, source, hasks, ?_, htype, htype ▸ hcells⟩
    rw [← Column.length_cells, hcells, List.length_map]
  · obtain ⟨tree', plans', filter', hqueried', rfl⟩ := query_ok_iff.mp h'
    obtain rfl := Except.ok.inj (hqueried.built.symm.trans hqueried'.built)
    have hrows : w.submissions { q with fields := fields } filter' = w.admitted q :=
      (submissions_eq hqueried').trans (admitted_of_fields w q fields)
    rw [hrows]
    refine ⟨rfl, fun name hasked hasked' => Option.ext fun column => ?_⟩
    rw [hcolumn, Query.column?_fill_iff htop hqueried'.planned]
    simp only [hasked, hasked', true_and]
  · obtain ⟨plans', hqueried'⟩ := hqueried.of_fields hfields
    exact ⟨_, query_ok_iff.mpr ⟨tree, plans', filter, hqueried', rfl⟩⟩

/-! ## Visits with an address -/

/-- Two visits, of which one has an address, and a field that points at others. -/
def visitHome : Workspace :=
  let home : ResourceId := ⟨"c0198c3f2a7b07d1e9f5b4c6d8e0f1a2b"⟩
  (empty 16).run
    [.createRootFolder ⟨"alice"⟩ 0 home "Home",
      .putForm ⟨"alice"⟩ 0 ⟨⟨"address"⟩, home, "Address", none,
        [.field ⟨⟨"town"⟩, "Town", none, .text, false, false⟩]⟩,
      .putForm ⟨"alice"⟩ 0 ⟨⟨"visit"⟩, home, "Visit", none,
        [.field ⟨⟨"at"⟩, "At", none, .embedded ⟨"address"⟩, false, false⟩,
          .field (FormTree.pointsAt "after" [⟨"visit"⟩])]⟩,
      .put ⟨"alice"⟩ 0 (.new ⟨"v1"⟩ home ⟨"visit"⟩ [("at", .record [("town", .text "Ulm")])]),
      .put ⟨"alice"⟩ 0 (.new ⟨"v2"⟩ home ⟨"visit"⟩ .empty)]

/-- The towns, and what has no column. -/
def visitTowns : Query := ⟨⟨"visit"⟩, ["at.town", "after", "_id", "at.town"], ⟨"alice"⟩, none⟩

theorem shown_visitHome : (visitHome.query visitTowns).answer =
    .ok ⟨[("_id", .texts [some "v1", some "v2"]), ("at.town", .texts [some "Ulm", none])], 2⟩ := by
  rw [← toOption_eq_some]
  decide +kernel

/-- So two visits have to be shown, and the second one has a gap. -/
theorem rowWise_visitHome : (visitHome.admitted visitTowns).length = 2 ∧
    ∃ tree, visitHome.RowWise visitTowns tree
      ⟨[("_id", .texts [some "v1", some "v2"]), ("at.town", .texts [some "Ulm", none])], 2⟩ := by
  obtain ⟨tree, htree⟩ := rowWise_of_query shown_visitHome
  exact ⟨htree.numRows.symm, tree, htree⟩

end Workspace

end Fieldbook
