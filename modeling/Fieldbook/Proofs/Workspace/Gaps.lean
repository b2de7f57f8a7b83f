import Fieldbook.Proofs.FormTree.Failing
import Fieldbook.Proofs.Ownership.Breaks
import Fieldbook.Proofs.Workspace.Listings
import Fieldbook.Workspace.Call

/-!
# Proofs/Workspace/Gaps — owners without a row, and which answers call them a contradiction

Whatever owners the rows of a store name, a resource that is there and whose owners lead to a name
without a row, or back to themselves, is a contradiction for whoever asks whether it is deleted or
for rights on it.  Only the name that was asked for itself may be told not to be found.

Two walks start elsewhere.  Whether a resource stands beneath another is told by a walk that calls
every name without a row not found, which is no contradiction.  A query walks up from the owner of
each row, so an owner without a row is the name that the walk was asked for.  There, and nowhere
else, a query tells of a name that its caller has not given (`query_tellsGap`).
-/

namespace Fieldbook

open OwnerChain (missingError)

/-! ## Failures that tell of gaps -/

namespace WorkspaceError

/-- A failure that is made of a gap by a walk. -/
def TellsGap (e : WorkspaceError) : Prop :=
  ∃ (b : Break) (asked : ResourceId), b.IsGap ∧ e = b.error (missingError asked)

/-- Contradictions between owners, and names that are not found. -/
def isOfOwners : WorkspaceError → Bool
  | .notFound _ | .consistency (.ownershipCycle _) | .consistency (.missingOwner ..) => true
  | _ => false

/-- Nothing else is told of gaps. -/
theorem TellsGap.isOfOwners {e : WorkspaceError} (h : e.TellsGap) : e.isOfOwners = true := by
  obtain ⟨b, asked, hgap, rfl⟩ := h
  cases b with
  | again => rfl
  | unreadable => cases hgap
  | lost y =>
    rw [Break.error, missingError]
    split <;> rfl

end WorkspaceError

/-- A failure is made of a gap above a resource that is there, by a walk that looks for marks or for
the rules for `p`. -/
def Store.AtGap (s : Store) (p : Principal) (e : WorkspaceError) : Prop :=
  ∃ id b, (s.tables.row? id).isSome ∧ b.IsGap ∧
    (s.tables.Breaks s.tables.Unmarked id b ∨ s.tables.Breaks (s.Unruled p) id b) ∧
      e = b.error (missingError id)

theorem Store.AtGap.isFatal {s : Store} {p : Principal} {e : WorkspaceError} (h : s.AtGap p e) :
    e.isFatal = true := by
  obtain ⟨id, b, hid, hgap, hb | hb, rfl⟩ := h <;> exact Break.isFatal_error hb hid hgap

/-- A failure that, if it tells of a gap, tells of one above a resource that is there, or of a name
that is not found, where `P` holds. -/
def Store.Finds (s : Store) (p : Principal) (P : ResourceId → Prop) (e : WorkspaceError) : Prop :=
  e.TellsGap → s.AtGap p e ∨ ∃ y, e = .notFound y ∧ P y

/-- Fails because what is stored cannot be as it is. -/
def FailsFatally {α : Type} (x : Except WorkspaceError α) : Prop :=
  ∃ e, x = .error e ∧ e.isFatal = true

namespace FailsFatally

variable {α β : Type} {x : Except WorkspaceError α} {r : Reading WorkspaceError α}

theorem bind (h : FailsFatally x) (f : α → Except WorkspaceError β) : FailsFatally (x.bind f) := by
  obtain ⟨e, rfl, hfatal⟩ := h
  exact ⟨e, rfl, hfatal⟩

/-- A compound reading fails by its first part, -/
theorem reading (h : FailsFatally r.answer) (f : α → Reading WorkspaceError β) :
    FailsFatally (r >>= f).answer := by
  rw [Reading.answer_bind]
  exact h.bind _

/-- or by what comes after it. -/
theorem after {f : α → Reading WorkspaceError β} {a : α} (hr : r.answer = .ok a)
    (h : FailsFatally (f a).answer) : FailsFatally (r >>= f).answer := by
  rw [Reading.answer_bind, hr]
  exact h

end FailsFatally

namespace Store

variable {s : Store} {p : Principal} {id : ResourceId} {P : ResourceId → Prop}

/-! ## Walks -/

section Gap

variable {b : Break} (hid : (s.tables.row? id).isSome) (hgap : b.IsGap)

include hid hgap

theorem isDeleted_fatal (hb : s.tables.Breaks s.tables.Unmarked id b) :
    FailsFatally (s.isDeleted id) :=
  ⟨_, isDeleted_error_iff.mpr ⟨b, hb, rfl⟩, Break.isFatal_error hb hid hgap⟩

theorem authorize_fatal (hb : s.tables.Breaks (s.Unruled p) id b) :
    FailsFatally (s.authorize p id).answer :=
  ⟨_, authorize_of_breaks hb, Break.isFatal_error hb hid hgap⟩

end Gap

/-- A name that is met again is a contradiction to this walk too, one without a row is not. -/
theorem isWithin_gap {a : ResourceId} {b : Break} (hgap : b.IsGap)
    (hb : s.tables.Breaks (· ≠ a) id b) :
    ∃ e, s.isWithin id a = .error e ∧ (e.isFatal = true ↔ ∃ y, b = .again y) := by
  refine ⟨_, isWithin_error_iff.mpr ⟨b, hb, rfl⟩, ?_⟩
  cases b with
  | again y => exact iff_of_true rfl ⟨y, rfl⟩
  | lost y => exact iff_of_false Bool.false_ne_true fun h => nomatch h
  | unreadable => cases hgap

/-! ## What is told of gaps -/

/-- A failure of another kind tells of no gap. -/
theorem finds_other {e : WorkspaceError} (h : e.isOfOwners = false) : s.Finds p P e :=
  fun htells => absurd htells.isOfOwners (Bool.eq_false_iff.mp h)

/-- What a walk makes of a break is a gap above its resource if that is there, and is the name of
the resource otherwise. -/
theorem finds_break {b : Break} (hb : s.tables.Breaks s.tables.Unmarked id b ∨
      s.tables.Breaks (s.Unruled p) id b) (h : id ≠ .root → s.tables.row? id = none → P id) :
    s.Finds p P (b.error (missingError id)) := by
  cases hrow : s.tables.row? id with
  | none =>
    obtain rfl : b = .lost id := hb.elim (·.eq_lost hrow) (·.eq_lost hrow)
    have hbelow : id ≠ .root := hb.elim (·.of_lost.1) (·.of_lost.1)
    exact fun _ => .inr ⟨id, Break.error_eq_notFound_iff.mpr ⟨rfl, rfl⟩, h hbelow hrow⟩
  | some row =>
    cases b with
    | again y => exact fun _ => .inl ⟨id, .again y, hrow ▸ rfl, trivial, hb, rfl⟩
    | lost y => exact fun _ => .inl ⟨id, .lost y, hrow ▸ rfl, trivial, hb, rfl⟩
    | unreadable => exact finds_other rfl

theorem finds_isDeleted (h : id ≠ .root → s.tables.row? id = none → P id) :
    FailsOnly (s.Finds p P) (s.isDeleted id) := by
  intro e he
  obtain ⟨b, hb, rfl⟩ := isDeleted_error_iff.mp he
  exact finds_break (.inl hb) h

theorem finds_authorize (h : id ≠ .root → s.tables.row? id = none → P id) :
    FailsOnly (s.Finds p P) (s.authorize p id).answer := by
  intro e he
  rcases authorize_error he with ⟨b, hb, rfl⟩ | ⟨y, e', -, rfl⟩
  · exact finds_break (.inr hb) h
  · exact finds_other rfl

/-! ## Trees and rows -/

/-- A form is given of what is there, so whether it is deleted tells of gaps above it. -/
theorem finds_formSource (s : Store) (p : Principal) :
    (FormSource.ofStore s).FailsOnly (s.Finds p P) where
  form := by
    intro id
    refine .reading (.store (fun _ => finds_other rfl) _) fun found _ => ?_
    cases found with
    | none => exact .ok _
    | some r =>
      refine .reading ?_ fun _ _ => .ok _
      cases Form.ofResource r with
      | error e => exact .error (finds_other rfl)
      | ok form => exact .ok form
  deleted := by
    intro id form hform
    refine finds_isDeleted fun _ missing => ?_
    have hsome := isSome_form?_eq hform
    rw [missing] at hsome
    cases hsome
  missing := fun _ _ _ => finds_other rfl
  cyclic := fun _ => finds_other rfl
  deep := fun _ _ => finds_other rfl

/-- **A row of a query** may name an owner that is not found. -/
theorem finds_admitted? {filter : Option Expr} {e : Entry} (hrow : (s.tables.row? e.id).isSome)
    (h : e.deleted = false → e.owner ≠ .root → s.tables.row? e.owner = none → P e.owner) :
    FailsOnly (s.Finds p P) (s.admitted? p filter e).answer := by
  rw [admitted?]
  split
  · exact .ok _
  · next hlive =>
    refine .reading (finds_isDeleted (h (Bool.eq_false_iff.mpr hlive))) fun dead _ => ?_
    cases dead with
    | true => exact .ok _
    | false =>
      refine .reading (.store (fun _ => finds_other rfl) _) fun version? _ => ?_
      cases version? with
      | none => exact .ok _
      | some v =>
        refine .reading (finds_authorize fun _ missing => ?_) fun _ _ => .ok _
        rw [missing] at hrow
        cases hrow

theorem admitted?_of_error {filter : Option Expr} {e : Entry} {err : WorkspaceError}
    (hlive : e.deleted = false) (h : s.isDeleted e.owner = .error err) :
    (s.admitted? p filter e).answer = .error err := by
  rw [admitted?, hlive, if_neg Bool.false_ne_true, Reading.answer_bind, Reading.answer_ofExcept, h]
  rfl

end Store

/-! ## Queries -/

namespace Query

variable {s : Store} {p : Principal} {P : ResourceId → Prop}

/-- A name is not planned if the tree has no such field, or none that can be filled. -/
theorem plan_error {tree : FormTree} {name : String} {e : WorkspaceError}
    (h : plan tree name = .error e) :
    e = .fieldNotFound tree.root.id name ∨ ∃ cause, e = .data cause := by
  unfold plan at h
  split at h
  · cases h
  · split at h
    · exact .inl (Except.error.inj h).symm
    · split at h
      · exact .inl (Except.error.inj h).symm
      · split at h
        · cases h
        · exact .inr ⟨_, (Except.error.inj h).symm⟩
        · cases h
        · cases h

theorem finds_plans (tree : FormTree) :
    ∀ fields, FailsOnly (s.Finds p P) (plans tree fields)
  | [] => .ok []
  | name :: rest => by
    refine .bind (fun e he => ?_) fun _ _ => (finds_plans tree rest).bind fun _ _ => .ok _
    obtain rfl | ⟨cause, rfl⟩ := plan_error he <;> exact Store.finds_other rfl

theorem finds_condition (q : Query) : FailsOnly (s.Finds p P) q.condition := by
  rw [condition]
  split
  · exact .ok none
  · split
    · exact .ok _
    · exact .error (Store.finds_other rfl)

end Query

namespace Workspace

variable {w : Workspace} {q : Query} {filter : Option Expr} {before after : List Entry} {e : Entry}
  {y : ResourceId}

/-- A live row of a form is owned by a name without a row. -/
def Strays (w : Workspace) (form y : ResourceId) : Prop :=
  ∃ row ∈ w.store.tables.rows, row.classId = form ∧ row.deleted = false ∧ row.owner = y ∧
    y ≠ .root ∧ w.store.tables.row? y = none

/-- **What a query tells of gaps:** one above a resource that is there, its form if that has no
row, or an owner of a row of the form. -/
theorem query_tellsGap {e : WorkspaceError} (h : (w.query q).answer = .error e)
    (htells : e.TellsGap) : w.store.AtGap q.principal e ∨
      ∃ y, e = .notFound y ∧ ((y = q.form ∧ w.store.tables.row? y = none) ∨ w.Strays q.form y) := by
  have hform : w.store.tables.row? q.form = none →
      (q.form = q.form ∧ w.store.tables.row? q.form = none) ∨ w.Strays q.form q.form :=
    fun missing => .inl ⟨rfl, missing⟩
  suffices hfinds : FailsOnly (w.store.Finds q.principal fun y =>
      (y = q.form ∧ w.store.tables.row? y = none) ∨ w.Strays q.form y) (w.query q).answer from
    hfinds e h htells
  refine .reading (.requireView (fun _ _ _ => Store.finds_other rfl)
    (Store.finds_authorize fun _ => hform)) fun _ _ => ?_
  refine .reading (.requireLive (Store.finds_isDeleted fun _ => hform) (Store.finds_other rfl))
    fun _ _ => ?_
  refine .reading (FormTree.failsOnly_build (w.store.finds_formSource q.principal)
    (fun hnone _ => ?_) _) fun tree _ => ?_
  · have missing := Option.isSome_eq_false_iff.mp (Store.isSome_form?_eq hnone).symm
    exact .inr ⟨_, rfl, hform (Option.isNone_iff_eq_none.mp missing)⟩
  refine .reading (Query.finds_plans tree q.fields) fun plans _ => ?_
  refine .reading q.finds_condition fun filter _ => ?_
  refine .reading (.store (fun _ => Store.finds_other rfl) _) fun entries hlisted => ?_
  refine .reading (.collect fun e he => ?_) fun _ _ => .ok _
  obtain ⟨-, rfl⟩ := Row.mapM_read_ok.mp (Reading.mapError_ok.mp hlisted)
  obtain ⟨row, hrow, hread⟩ := List.mem_filterMap.mp he
  obtain ⟨hmem, hclass⟩ := List.mem_filter.mp hrow
  have hread := toOption_eq_some.mp hread
  refine Store.finds_admitted? ?_ fun hlive hbelow missing => .inr ⟨row, hmem, ?_⟩
  · rw [Row.id_of_read hread]
    exact Row.isSome_find?_iff.mpr ⟨row, hmem, rfl⟩
  · rw [Row.deleted_of_read hread] at hlive
    rw [Row.owner_of_read hread] at hbelow missing ⊢
    exact ⟨of_decide_eq_true hclass, hlive, rfl, hbelow, missing⟩

/-- A query that has come to its rows. -/
structure Opened (w : Workspace) (q : Query) (filter : Option Expr) (entries : List Entry) :
    Prop where
  viewed : (w.store.requireView q.principal q.form).answer = .ok ()
  live : w.store.requireLive q.form = .ok ()
  planned : ∃ tree plans,
    (FormTree.build (.ofStore w.store) w.maxTreeDepth q.form).answer = .ok tree ∧
      Query.plans tree q.fields = .ok plans
  parsed : q.condition = .ok filter
  listed : w.store.instances q.form = .ok entries

/-- It fails at the first row that it cannot tell of. -/
theorem Opened.query_error {err : WorkspaceError} (h : w.Opened q filter (before ++ e :: after))
    (htold : ∀ e' ∈ before, ∃ sub, (w.store.admitted? q.principal filter e').answer = .ok sub)
    (he : (w.store.admitted? q.principal filter e).answer = .error err) :
    (w.query q).answer = .error err := by
  obtain ⟨tree, plans, hbuilt, hplanned⟩ := h.planned
  have hcollect : (Reading.collect (w.store.admitted? q.principal filter)
      (before ++ e :: after)).answer = .error err := Reading.collect_of_error he htold
  simp only [query, Store.query, Reading.answer_bind, Reading.answer_ofExcept, h.viewed, h.live,
    hbuilt, hplanned, h.parsed, h.listed, hcollect, Except.mapError, Except.bind]

theorem Opened.query_fatal (h : w.Opened q filter (before ++ e :: after))
    (htold : ∀ e' ∈ before, ∃ sub, (w.store.admitted? q.principal filter e').answer = .ok sub)
    (hlive : e.deleted = false) (howner : FailsFatally (w.store.isDeleted e.owner)) :
    FailsFatally (w.query q).answer := by
  obtain ⟨err, herror, hfatal⟩ := howner
  exact ⟨err, h.query_error htold (Store.admitted?_of_error hlive herror), hfatal⟩

/-- A query whose form stands under a gap fails by it, whether its principal is asked for rights or,
when a rule below the gap grants them, the form for marks. -/
theorem query_fatal {b : Break} (hid : (w.store.tables.row? q.form).isSome) (hgap : b.IsGap)
    (hb : w.store.tables.Breaks (w.store.Unruled q.principal) q.form b ∨
      (w.store.requireView q.principal q.form).answer = .ok () ∧
        w.store.tables.Breaks w.store.tables.Unmarked q.form b) :
    FailsFatally (w.query q).answer := by
  rcases hb with hb | ⟨hview, hb⟩
  · exact ((Store.authorize_fatal hid hgap hb).reading _).reading _
  · exact .after hview (((Store.isDeleted_fatal hid hgap hb).bind _).reading (r := .ofExcept _) _)

/-! ## Gaps -/

/-- **What is said of gaps.**  Of a resource that is there, whose owners break off by a name without
a row or by one that is met again, everyone who asks whether it is deleted or for rights on it is
told of a contradiction; who asks whether it stands beneath another is so only if a name is met
again.  The first two tell of a name that is not found exactly when it was asked for, the third of
every name without a row that it comes to.  Whatever gap a query tells of, of its form, of a form
that this one leads to or of a row, is a contradiction above a resource that is there; otherwise it
tells of a name that is not found, which is its form, or an owner of a row of the form.  When it comes
to a row with such an owner it always does; gaps further up, and above its form, are contradictions to
it. -/
theorem gaps (w : Workspace) :
    (∀ id b, (w.store.tables.row? id).isSome → b.IsGap →
      (w.store.tables.Breaks w.store.tables.Unmarked id b → FailsFatally (w.store.isDeleted id)) ∧
      (∀ p, w.store.tables.Breaks (w.store.Unruled p) id b →
        FailsFatally (w.store.authorize p id).answer) ∧
      ∀ a, w.store.tables.Breaks (· ≠ a) id b →
        ∃ e, w.store.isWithin id a = .error e ∧ (e.isFatal = true ↔ ∃ y, b = .again y)) ∧
    (∀ id y, w.store.isDeleted id = .error (.notFound y) ↔
      y = id ∧ id ≠ .root ∧ w.store.tables.row? id = none) ∧
    (∀ p id y, (w.store.authorize p id).answer = .error (.notFound y) ↔
      y = id ∧ id ≠ .root ∧ w.store.tables.row? id = none ∧ w.store.Unruled p id) ∧
    (∀ id a y, w.store.isWithin id a = .error (.notFound y) ↔
      w.store.tables.Breaks (· ≠ a) id (.lost y)) ∧
    (∀ q e, (w.query q).answer = .error e → e.TellsGap →
      (w.store.AtGap q.principal e ∧ e.isFatal = true) ∨ ∃ y, e = .notFound y ∧
        ((y = q.form ∧ w.store.tables.row? y = none) ∨ w.Strays q.form y)) ∧
    (∀ q b, (w.store.tables.row? q.form).isSome → b.IsGap →
      w.store.tables.Breaks (w.store.Unruled q.principal) q.form b ∨
        (w.store.requireView q.principal q.form).answer = .ok () ∧
          w.store.tables.Breaks w.store.tables.Unmarked q.form b →
      FailsFatally (w.query q).answer) ∧
    ∀ q filter before e after, w.Opened q filter (before ++ e :: after) →
      (∀ e' ∈ before, ∃ sub, (w.store.admitted? q.principal filter e').answer = .ok sub) →
        e.deleted = false →
          (e.owner ≠ .root → w.store.tables.row? e.owner = none →
            (w.query q).answer = .error (.notFound e.owner)) ∧
          ∀ b, (w.store.tables.row? e.owner).isSome → b.IsGap →
            w.store.tables.Breaks w.store.tables.Unmarked e.owner b →
              FailsFatally (w.query q).answer := by
  refine ⟨fun id b hid hgap => ⟨Store.isDeleted_fatal hid hgap,
      fun _ => Store.authorize_fatal hid hgap, fun _ => Store.isWithin_gap hgap⟩,
    fun _ _ => Store.isDeleted_notFound_iff, fun _ _ _ => Store.authorize_notFound_iff,
    fun _ _ _ => Store.isWithin_notFound_iff,
    fun _ _ h htells => (query_tellsGap h htells).imp_left fun hgap => ⟨hgap, hgap.isFatal⟩,
    fun _ _ => query_fatal, fun q filter before e after hopened htold hlive => ⟨?_, ?_⟩⟩
  · intro hbelow missing
    have howner := Store.isDeleted_notFound_iff.mpr ⟨rfl, hbelow, missing⟩
    exact hopened.query_error htold (Store.admitted?_of_error hlive howner)
  · exact fun b hid hgap hb => hopened.query_fatal htold hlive (Store.isDeleted_fatal hid hgap hb)

/-! ## A row whose owner is not there -/

/-- The name of the folder below. -/
def strayFolder : ResourceId := ⟨"c0198c3f2a7b07d1e9f5b4c6d8e0f1a2b"⟩

/-- A form in a folder. -/
def strayForm : Workspace :=
  (empty 16).run
    [.createRootFolder ⟨"alice"⟩ 0 strayFolder "Home",
      .putForm ⟨"alice"⟩ 0 ⟨⟨"site"⟩, strayFolder, "Site", none, []⟩]

/-- A resource of the form whose owner has no row. -/
def stray : Resource := .new ⟨"s1"⟩ ⟨"ghost"⟩ ⟨"site"⟩ .empty

/-- The form with such a resource, which nobody has checked. -/
def strayed : Workspace :=
  { strayForm with store := (strayForm.store.transact (.put ⟨"alice"⟩ 0 stray)).2 }

/-- The names of the resources of the form. -/
def strayNames : Query := ⟨⟨"site"⟩, [Query.idField], ⟨"alice"⟩, none⟩

/-- What stands there of the resource and its owner, and how far the query comes. -/
theorem shown_strayed :
    strayed.store.tables.row? ⟨"s1"⟩ =
        some (Row.afterWrite stray (.committed 5) ⟨"alice"⟩ 0 none) ∧
      (Instant.ofMillis? 0).isSome ∧ strayed.store.tables.row? ⟨"ghost"⟩ = none ∧
      (strayed.store.requireView ⟨"alice"⟩ ⟨"site"⟩).answer.toOption = some () ∧
      (strayed.store.requireLive ⟨"site"⟩).toOption = some () ∧
      ((FormTree.build (.ofStore strayed.store) strayed.maxTreeDepth
        ⟨"site"⟩).answer.toOption.bind fun tree =>
          (Query.plans tree strayNames.fields).toOption).isSome ∧
      (strayed.store.instances ⟨"site"⟩).toOption.map (fun entries =>
        entries.map fun e => (e.deleted, e.owner)) = some [(false, ⟨"ghost"⟩)] := by
  decide +kernel

theorem exists_read_strayed : ∃ row entry, strayed.store.tables.row? ⟨"s1"⟩ = some row ∧
    row.read = .ok entry ∧ row.owner = ⟨"ghost"⟩ ∧ row.deleted = false := by
  obtain ⟨found, hinstant, -⟩ := shown_strayed
  have hread : ∃ entry, (Row.afterWrite stray (.committed 5) ⟨"alice"⟩ 0 none).read = .ok entry :=
    Row.exists_read_afterWrite (by rintro v ⟨⟩; decide) (fun _ h => nomatch h) hinstant (by decide)
  obtain ⟨entry, read⟩ := hread
  exact ⟨_, entry, found, read, rfl, rfl⟩

theorem breaks_strayed {goes : ResourceId → Prop} (on : goes ⟨"s1"⟩) (on' : goes ⟨"ghost"⟩) :
    strayed.store.tables.Breaks goes ⟨"s1"⟩ (.lost ⟨"ghost"⟩) := by
  obtain ⟨row, entry, found, read, howner, -⟩ := exists_read_strayed
  obtain ⟨-, -, missing, -⟩ := shown_strayed
  have hpath : strayed.store.tables.Path goes ⟨"s1"⟩ [⟨"s1"⟩] ⟨"ghost"⟩ :=
    .up (by decide) on found read (howner ▸ .here _)
  exact ⟨_, _, hpath, List.pairwise_singleton _ _, by decide, .lost on' missing⟩

/-- The query comes to the resource. -/
theorem opened_strayed : ∃ e, strayed.Opened strayNames none [e] ∧ e.deleted = false ∧
    e.owner = ⟨"ghost"⟩ := by
  obtain ⟨-, -, -, hview, hlive, hplanned, hlisted⟩ := shown_strayed
  obtain ⟨entries, hentries, hshown⟩ := Option.map_eq_some_iff.mp hlisted
  obtain ⟨e, rfl, he⟩ := List.map_eq_singleton_iff.mp hshown
  obtain ⟨plans, hplans⟩ := Option.isSome_iff_exists.mp hplanned
  obtain ⟨tree, hbuilt, hplans⟩ := Option.bind_eq_some_iff.mp hplans
  obtain ⟨hunmarked, howner⟩ := Prod.mk.inj he
  refine ⟨e, ⟨?_, ?_, ⟨tree, plans, ?_, ?_⟩, rfl, ?_⟩, hunmarked, howner⟩
  · exact toOption_eq_some.mp hview
  · exact toOption_eq_some.mp hlive
  · exact toOption_eq_some.mp hbuilt
  · exact toOption_eq_some.mp hplans
  · exact toOption_eq_some.mp hentries

theorem isWithin_strayed :
    strayed.store.isWithin ⟨"s1"⟩ ⟨"far"⟩ = .error (.notFound ⟨"ghost"⟩) :=
  Store.isWithin_notFound_iff.mpr (breaks_strayed (by decide) (by decide))

theorem query_strayed : (strayed.query strayNames).answer = .error (.notFound ⟨"ghost"⟩) := by
  obtain ⟨e, hopened, hlive, howner⟩ := opened_strayed
  obtain ⟨-, -, missing, -⟩ := shown_strayed
  have hghost : strayed.store.isDeleted e.owner = .error (.notFound ⟨"ghost"⟩) := by
    rw [howner, Store.isDeleted_notFound_iff]
    exact ⟨rfl, by decide, missing⟩
  have hfirst : strayed.Opened strayNames none ([] ++ e :: []) := hopened
  exact hfirst.query_error (fun _ h => nomatch h) (Store.admitted?_of_error hlive hghost)

/-- Whether the resource is deleted is told by a contradiction; the walk past it and the query tell
of its owner. -/
theorem gaps_strayed :
    FailsFatally (strayed.store.isDeleted ⟨"s1"⟩) ∧
      strayed.store.isWithin ⟨"s1"⟩ ⟨"far"⟩ = .error (.notFound ⟨"ghost"⟩) ∧
      ∃ e, strayed.Opened strayNames none [e] ∧
        (strayed.query strayNames).answer = .error (.notFound e.owner) := by
  obtain ⟨hgaps, -, -, hwithin, -, -, hquery⟩ := gaps strayed
  obtain ⟨row, entry, found, read, -, hlive⟩ := exists_read_strayed
  obtain ⟨-, -, missing, -⟩ := shown_strayed
  have hunmarked := (Tables.unmarked_iff found read).mpr ((Row.deleted_of_read read).trans hlive)
  have hbreaks := breaks_strayed hunmarked (Tables.unmarked_of_missing missing)
  obtain ⟨e, hopened, hlive, howner⟩ := opened_strayed
  refine ⟨(hgaps ⟨"s1"⟩ (.lost ⟨"ghost"⟩) (found ▸ rfl) trivial).1 hbreaks,
    (hwithin _ _ _).mpr (breaks_strayed (by decide) (by decide)), e, hopened, ?_⟩
  refine (hquery strayNames none [] e [] hopened (fun _ h => nomatch h) hlive).1 ?_ ?_
  · rw [howner]
    decide
  · rw [howner]
    exact missing

/-- So gaps are not always told as contradictions, and a query may tell of a name that nobody has
asked for. -/
theorem exists_gap_not_fatal :
    (¬∀ (w : Workspace) (id a : ResourceId) (b : Break) (e : WorkspaceError),
      (w.store.tables.row? id).isSome → b.IsGap → w.store.tables.Breaks (· ≠ a) id b →
        w.store.isWithin id a = .error e → e.isFatal = true) ∧
    ¬∀ (w : Workspace) (q : Query) (y : ResourceId),
      (w.query q).answer = .error (.notFound y) → y = q.form := by
  constructor
  · intro h
    obtain ⟨row, -, found, -⟩ := exists_read_strayed
    exact absurd (h strayed ⟨"s1"⟩ ⟨"far"⟩ (.lost ⟨"ghost"⟩) _ (found ▸ rfl) trivial
      (breaks_strayed (by decide) (by decide)) isWithin_strayed) (by decide)
  · intro h
    exact absurd (h strayed strayNames ⟨"ghost"⟩ query_strayed) (by decide)

end Workspace

end Fieldbook
