import Fieldbook.Proofs.Ownership.Values
import Fieldbook.Proofs.Workspace.Agreement

/-!
# Proofs/Workspace/Unseen — values that a query does not look at

Whether a row is shown is told from its class, the marks above it, its commit and the rights on it,
and the value of a row is looked at only where it may be viewed.  So two stores that differ in the
contents of hidden rows answer a query alike, with the same columns, also where the type of a
calculated column is that of its first result, or with the same error.

There is one way in which a hidden row shows: a row that cannot be read keeps every query that comes
to it from being answered.  So where the stores do not answer alike, one of them fails with the error
of a hidden row that cannot be read there, and that is read in the other store or fails otherwise
(`query_eq_or_lost`).  This happens (`exists_query_ne`).
-/

namespace Fieldbook

namespace Store

variable {s s' : Store} {p : Principal}

/-- Where a principal may not view what there is, rules and forms apart. -/
def Hidden (s : Store) (p : Principal) (id classId : ResourceId) : Prop :=
  classId ≠ AccessRule.classId ∧ classId ≠ Form.classId ∧
    ∀ a, (s.authorize p id).answer = .ok a → a.canView = false

section Hidden

variable (h : s.Alike (s.Hidden p) s')
include h

theorem parallel_authorize (q : Principal) (id : ResourceId) :
    Reading.Parallel (s.Lost (s.Hidden p) s') (s'.Lost (s.Hidden p) s) (· = ·) (s.authorize q id)
      (s'.authorize q id) :=
  h.authorize (fun _ _ hhidden => hhidden.1) q id

theorem parallel_requireView (q : Principal) (id : ResourceId) :
    Reading.Parallel (s.Lost (s.Hidden p) s') (s'.Lost (s.Hidden p) s) (· = ·) (s.requireView q id)
      (s'.requireView q id) := by
  refine (parallel_authorize h q id).bind fun a _ _ heq => ?_
  subst heq
  exact .refl _

/-- **A hidden entry is left out,** whatever its value. -/
theorem parallel_admitted (filter : Option Expr) {e e' : Entry} (he : e.Alike (s.Hidden p) e') :
    Reading.Parallel (s.Lost (s.Hidden p) s') (s'.Lost (s.Hidden p) s) (· = ·)
      (s.admitted? p filter e) (s'.admitted? p filter e') := by
  rw [admitted?, admitted?, h.committedVersion? he, he.deleted_eq, he.owner_eq, he.id_eq]
  split
  · exact .refl _
  · refine (Reading.Parallel.ofExcept (h.isDeleted e.owner)).bind fun dead _ _ heq => ?_
    subst heq
    cases dead with
    | true => exact .refl _
    | false =>
      refine (Reading.Parallel.refl _).bind fun version _ _ heq => ?_
      subst heq
      cases version with
      | none => exact .refl _
      | some v =>
        refine (parallel_authorize h p e.id).bind fun a _ ha heq => ?_
        subst heq
        obtain rfl | ⟨⟨-, -, hview⟩, value, rfl⟩ := he
        · exact .refl _
        · simp only [hview a ha, Bool.false_eq_true, false_and, if_false]
          exact .refl _

end Hidden

/-- **A query does not look at values that are hidden from who asks.**  Two stores that differ in
contents of hidden rows answer the query alike, unless one of them fails with the error of such a row,
which cannot be read there and does not fail so in the other store. -/
theorem query_eq_or_lost {q : Query} (h : s.Alike (s.Hidden q.principal) s') (limit : Nat) :
    s'.query limit q = s.query limit q ∨
      (∃ e, s.tables.Unread (s.Hidden q.principal) s'.tables e ∧
        (s.query limit q).answer = .error (.store e)) ∨
      ∃ e, s'.tables.Unread (s.Hidden q.principal) s.tables e ∧
        (s'.query limit q).answer = .error (.store e) := by
  have hquery : Reading.Parallel (s.Lost (s.Hidden q.principal) s')
      (s'.Lost (s.Hidden q.principal) s) (· = ·) (s.query limit q) (s'.query limit q) := by
    have hsource := h.formSource fun _ _ hhidden => hhidden.2.1
    rw [query, query]
    refine (parallel_requireView h q.principal q.form).bind fun _ _ _ _ => ?_
    refine (Reading.Parallel.ofExcept (h.requireLive q.form)).bind fun _ _ _ _ => ?_
    refine (FormTree.parallel_build hsource limit q.form).bind fun tree _ _ heq => ?_
    subst heq
    refine (Reading.Parallel.refl _).bind fun plans _ _ heq => ?_
    subst heq
    refine (Reading.Parallel.refl _).bind fun filter _ _ heq => ?_
    subst heq
    refine (Reading.Parallel.ofExcept (h.instances q.form).raised).bind fun _ _ _ hentries => ?_
    refine (Reading.Parallel.collect (fun _ _ he => parallel_admitted h filter he) hentries).bind
      fun rows _ _ heq => ?_
    subst heq
    exact .refl _
  refine hquery.eq_or_lost.imp_right (Or.imp ?_ ?_)
  · rintro ⟨_, ⟨e, hunread, rfl⟩, hanswer⟩
    exact ⟨e, hunread, hanswer⟩
  · rintro ⟨_, ⟨e, hunread, rfl⟩, hanswer⟩
    exact ⟨e, hunread, hanswer⟩

/-! ## A row that one rule hides -/

def fieldFolder : ResourceId := ⟨"c0198c3f2a7b07d1e9f5b4c6d8e0f1a2b"⟩

/-- A form with a name, and a calculation that repeats it. -/
def plotForm : Form :=
  ⟨⟨"plot"⟩, fieldFolder, "Plot", none,
    [.field ⟨⟨"name"⟩, "Name", none, .text, false, false⟩,
      .field ⟨⟨"again"⟩, "Again", none, .calculated "name", false, true⟩]⟩

/-- Two plots in a folder; a rule shows the folder to bob, and another one hides the second plot. -/
def guarded : Store :=
  ((Workspace.empty 16).run
    [.createRootFolder ⟨"alice"⟩ 0 fieldFolder "Home",
      .putForm ⟨"alice"⟩ 0 plotForm,
      .put ⟨"alice"⟩ 0 (.new ⟨"hill"⟩ fieldFolder ⟨"plot"⟩ [("name", .text "Hill")]),
      .put ⟨"alice"⟩ 0 (.new ⟨"mine"⟩ fieldFolder ⟨"plot"⟩ [("name", .text "Mine")]),
      .grant ⟨"alice"⟩ 0 ⟨⟨""⟩, fieldFolder, ⟨"bob"⟩, false, some "true", none⟩,
      .grant ⟨"alice"⟩ 0 ⟨⟨""⟩, ⟨"mine"⟩, ⟨"bob"⟩, false, none, none⟩]).store

/-- The second plot with a truth value in the place of its name. -/
def renamed (row : Row) : Row :=
  if row.id = ⟨"mine"⟩ then { row with content := .encoded [("name", .boolean true)] } else row

def guardedAgain : Store :=
  { guarded with tables := { guarded.tables with rows := guarded.tables.rows.map renamed } }

/-- What bob asks for: names, as they are and as they are calculated. -/
def plotNames : Query := ⟨⟨"plot"⟩, ["name", "again"], ⟨"bob"⟩, some "name == name"⟩

theorem hides_guarded : (∀ row ∈ guarded.tables.rows, row.id = ⟨"mine"⟩ →
      row.classId = ⟨"plot"⟩ ∧
        (guarded.authorize ⟨"bob"⟩ row.id).answer.toOption.all (fun a => !a.canView) = true) ∧
    ∀ row ∈ guardedAgain.tables.rows, row.read.toOption.isSome = true := by
  decide +kernel

theorem shown_guarded : (guarded.query 16 plotNames).answer =
    .ok ⟨[("again", .texts [some "Hill"]), ("name", .texts [some "Hill"])], 1⟩ := by
  rw [← Workspace.toOption_eq_some]
  decide +kernel

/-- So bob may not view the second plot. -/
theorem hidden_guarded (row : Row) (hrow : row ∈ guarded.tables.rows) (hid : row.id = ⟨"mine"⟩) :
    guarded.Hidden ⟨"bob"⟩ row.id row.classId := by
  obtain ⟨hclass, hview⟩ := hides_guarded.1 row hrow hid
  refine ⟨?_, ?_, fun a ha => ?_⟩
  · rw [hclass]
    decide
  · rw [hclass]
    decide
  · simpa [ha, Except.toOption] using hview

theorem alike_guarded : guarded.Alike (guarded.Hidden ⟨"bob"⟩) guardedAgain := by
  refine ⟨⟨List.forall₂_map_right_iff.mpr (List.forall₂_same.mpr ?_), rfl, rfl, rfl⟩, rfl⟩
  intro row hrow
  rw [renamed]
  split
  · next hid => exact .inr ⟨hidden_guarded row hrow hid, rfl⟩
  · exact .inl rfl

/-- So bob is shown the one plot, whatever stands in the other. -/
theorem query_eq_or_lost_guarded : guarded.Alike (guarded.Hidden ⟨"bob"⟩) guardedAgain ∧
    (guardedAgain.query 16 plotNames).answer =
      .ok ⟨[("again", .texts [some "Hill"]), ("name", .texts [some "Hill"])], 1⟩ := by
  refine ⟨alike_guarded, ?_⟩
  obtain heq | ⟨e, -, hanswer⟩ | ⟨e, ⟨row, _, hpair, -, hread, -⟩, -⟩ :=
    query_eq_or_lost (q := plotNames) alike_guarded 16
  · rw [heq, shown_guarded]
  · cases shown_guarded.symm.trans hanswer
  · -- every row can be read
    have hsome := hides_guarded.2 row (List.of_mem_zip hpair).1
    rw [hread] at hsome
    cases hsome

/-- The second plot with lists in each other, too deep to be read. -/
def deepened (row : Row) : Row :=
  if row.id = ⟨"mine"⟩ then { row with content := .encoded .deep } else row

def guardedDeep : Store :=
  { guarded with tables := { guarded.tables with rows := guarded.tables.rows.map deepened } }

theorem unanswered_guardedDeep : (guardedDeep.query 16 plotNames).answer.toOption = none := by
  decide +kernel

/-- A hidden row is read all the same, and where it cannot be read the query is not answered.  So
stores that differ in contents of hidden rows alone may answer otherwise. -/
theorem exists_query_ne :
    ¬∀ (s s' : Store) (q : Query) (limit : Nat),
      List.Forall₂ (fun row row' => row' = row ∨ s.Hidden q.principal row.id row.classId ∧
        ∃ content, row' = { row with content := content }) s.tables.rows s'.tables.rows →
      s' = { s with tables := { s.tables with rows := s'.tables.rows } } →
        (s'.query limit q).answer = (s.query limit q).answer := by
  intro h
  have hsame := h guarded guardedDeep plotNames 16 ?_ rfl
  · have hnone := unanswered_guardedDeep
    rw [hsame, shown_guarded] at hnone
    cases hnone
  · refine List.forall₂_map_right_iff.mpr (List.forall₂_same.mpr fun row hrow => ?_)
    rw [deepened]
    split
    · next hid => exact .inr ⟨hidden_guarded row hrow hid, _, rfl⟩
    · exact .inl rfl

end Store

end Fieldbook
