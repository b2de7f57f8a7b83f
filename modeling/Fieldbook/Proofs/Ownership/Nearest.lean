import Fieldbook.Proofs.AccessRule
import Fieldbook.Proofs.Ownership.Inherited

/-!
# Proofs/Ownership/Nearest — the nearest rule governs

The walk for a principal goes from a resource to its owner and on from owner to owner.  At each name
it asks, in this order: is it the root, has it been passed before, is a live rule for the principal
stored at it, is there no row under it.  The first name at which the answer is yes ends the walk
(`Store.Ends`), and what it ends with is the authorization (`nearest_rule_governs`).

So a rule at a nearer name governs whatever stands further up, and that is so also for a rule
that cannot be understood or that names someone else: it grants nothing and ends the walk all the
same.  The tables may hold anything, as long as their rows can be read (`Store.Legible`).
-/

namespace Fieldbook

/-- In the context `principal` and `resource` are the names of the two, and nothing else is known. -/
def Context.Binds (context : Context) (q : Principal) (r : ResourceId) : Prop :=
  ∀ path, context path =
    if Expr.dotted path = "principal" then some (.text q.text)
    else if Expr.dotted path = "resource" then some (.text r.text)
    else none

/-- The condition is true of a principal and a resource. -/
def AccessRule.Holds (condition : String) (q : Principal) (r : ResourceId) : Prop :=
  ∃ context : Context, context.Binds q r ∧
    Expr.evaluateText condition context = .ok (.boolean true)

/-- No live row has the name of the rule for a principal at a resource. -/
def Tables.RuleFree (t : Tables) (q : Principal) (id : ResourceId) : Prop :=
  ∀ row, t.row? (AccessRule.idFor id q) = some row → row.deleted = true

namespace Store

/-- What a live row stores that has the name of the rule for a principal at a resource. -/
def StoresRule (s : Store) (q : Principal) (id : ResourceId) (stored : Resource) : Prop :=
  ∃ row entry v, s.tables.row? (AccessRule.idFor id q) = some row ∧ row.read = .ok entry ∧
    row.deleted = false ∧ (s.resolveVersion entry).answer = .ok v ∧ stored = entry.toResource v

/-- All rows can be read, and the versions of the rules for a principal. -/
structure Legible (s : Store) (q : Principal) : Prop where
  rows : ∀ row ∈ s.tables.rows, ∃ entry, row.read = .ok entry
  versions : ∀ id row entry, s.tables.row? (AccessRule.idFor id q) = some row →
    row.read = .ok entry → row.deleted = false → ∃ v, (s.resolveVersion entry).answer = .ok v

/-- How the walk for `q` from `asked` may end at a name, when it has passed some names. -/
inductive Ends (s : Store) (q : Principal) (asked : ResourceId) (passed : List ResourceId) :
    ResourceId → Except WorkspaceError Authorization → Prop where
  | root : Ends s q asked passed .root (.ok ⟨q, asked, none⟩)
  | again {id : ResourceId} (below : id ≠ .root) (met : id ∈ passed) :
      Ends s q asked passed id (.error (.consistency (.ownershipCycle id)))
  | ruled {id : ResourceId} {stored : Resource} (below : id ≠ .root) (new : id ∉ passed)
      (rule : s.StoresRule q id stored) :
      Ends s q asked passed id (.ok ⟨q, asked, Authorization.counted? q stored⟩)
  | missing {id : ResourceId} (below : id ≠ .root) (new : id ∉ passed)
      (free : s.tables.RuleFree q id) (missing : s.tables.row? id = none) :
      Ends s q asked passed id
        (.error (if passed = [] then .notFound asked else .consistency (.missingOwner id asked)))

variable {s : Store} {q : Principal} {id y asked : ResourceId} {stored : Resource}
  {path : List ResourceId} {rule : Option AccessRule} {n m : Nat}

/-! ## Rules at a name -/

theorem StoresRule.answer (h : s.StoresRule q id stored) :
    (s.ruleAt? q id).answer = .ok (some stored) := by
  obtain ⟨row, entry, v, found, read, live, version, rfl⟩ := h
  have hlive : entry.deleted = false := (Row.deleted_of_read read).trans live
  have hget : s.get? (AccessRule.idFor id q) = .ok (some entry) := by
    rw [get?, found]
    exact congrArg (Except.map some) read
  rw [ruleAt?, Reading.answer_bind, Reading.answer_ofExcept, hget]
  simp only [Except.bind, hlive]
  exact (Reading.answer_bind _ _).trans (by rw [version]; rfl)

theorem Legible.exists_read (h : s.Legible q) {row : Row} (found : s.tables.row? id = some row) :
    ∃ entry, row.read = .ok entry := h.rows row (OwnerChain.row?_mem found)

theorem Legible.free_or_stores (h : s.Legible q) (id : ResourceId) :
    s.tables.RuleFree q id ∨ ∃ stored, s.StoresRule q id stored := by
  by_cases hfree : s.tables.RuleFree q id
  · exact .inl hfree
  · obtain ⟨row, hrow⟩ := not_forall.mp hfree
    obtain ⟨found, hlive⟩ := Classical.not_imp.mp hrow
    have live : row.deleted = false := Bool.eq_false_iff.mpr hlive
    obtain ⟨entry, read⟩ := h.exists_read found
    obtain ⟨v, version⟩ := h.versions id row entry found read live
    exact .inr ⟨_, row, entry, v, found, read, live, version, rfl⟩

/-- Where rows can be read, no rule is found exactly where no live row has its name. -/
theorem Legible.unruled_iff (h : s.Legible q) : s.Unruled q id ↔ s.tables.RuleFree q id := by
  constructor
  · intro hnone
    refine (h.free_or_stores id).resolve_right ?_
    rintro ⟨stored, hstored⟩
    cases hnone.symm.trans hstored.answer
  · intro hfree
    rw [Unruled]
    cases found : s.tables.row? (AccessRule.idFor id q) with
    | none => simp [ruleAt?, get?, found, Except.bind]
    | some row =>
      obtain ⟨entry, read⟩ := h.exists_read found
      have dead : entry.deleted = true := (Row.deleted_of_read read).trans (hfree row found)
      simp [ruleAt?, get?, found, read, dead, Except.map, Except.bind]

theorem Legible.stores_of_answer (h : s.Legible q)
    (hrule : (s.ruleAt? q id).answer = .ok (some stored)) : s.StoresRule q id stored := by
  rcases h.free_or_stores id with hfree | ⟨stored', hstored⟩
  · cases hrule.symm.trans (h.unruled_iff.mpr hfree)
  · obtain rfl := Option.some.inj (Except.ok.inj (hrule.symm.trans hstored.answer))
    exact hstored

/-! ## Walks to the nearest rule -/

/-- The walk to a rule, or to the root, passes names without one. -/
theorem Governs.exists_path (h : s.Governs q n id rule) :
    ∃ path y, s.tables.Path (s.Unruled q) id path y ∧ (y = .root ∧ rule = none ∨
      y ≠ .root ∧ ∃ stored, (s.ruleAt? q y).answer = .ok (some stored) ∧
        Authorization.counted? q stored = rule) := by
  induction h with
  | root => exact ⟨[], .root, .here _, .inl ⟨rfl, rfl⟩⟩
  | @found id stored _ below hrule counted =>
    exact ⟨[], id, .here _, .inr ⟨below, stored, hrule, counted⟩⟩
  | @up id row entry n rule below hnone found read _ ih =>
    obtain ⟨path, y, hpath, hend⟩ := ih
    exact ⟨id :: path, y, .up below hnone found read hpath, hend⟩

/-- A walk is taken from further below, where no rule stands on the way. -/
theorem Governs.of_path (h : s.tables.Path (s.Unruled q) id path y) :
    (∃ n, s.Governs q n y rule) → ∃ n, s.Governs q n id rule := by
  refine h.down (P := fun x => ∃ n, s.Governs q n x rule) ?_
  rintro id row entry below on found read ⟨n, hup⟩
  exact ⟨n + 1, .up below on found read hup⟩

/-- The failure at a name without a row tells whether it is the first one. -/
theorem missingError_of_path {goes : ResourceId → Prop} (h : s.tables.Path goes id path y)
    (new : y ∉ path) : OwnerChain.missingError id y =
      if path = [] then .notFound id else .consistency (.missingOwner y id) := by
  rw [OwnerChain.missingError]
  cases h with
  | here => rw [if_pos rfl, if_pos rfl]
  | up =>
    have hne : y ≠ id := fun heq => new (heq ▸ List.mem_cons_self)
    rw [if_neg hne, if_neg (List.cons_ne_nil _ _)]

/-- **Every walk ends,** after no more names than there are rows. -/
theorem Legible.exists_ends (h : s.Legible q) (id : ResourceId) : ∃ path y,
    path.length ≤ s.tables.rows.length ∧ s.tables.Path (s.tables.RuleFree q) id path y ∧
      path.Nodup ∧ s.Ends q id path y (s.authorize q id).answer := by
  have hfree : ∀ x, s.Unruled q x → s.tables.RuleFree q x := fun _ => h.unruled_iff.mp
  cases hanswer : (s.authorize q id).answer with
  | ok a =>
    obtain ⟨n, rule, hgoverns, rfl⟩ := authorize_ok_iff.mp hanswer
    obtain ⟨_, y, hpath, hend⟩ := hgoverns.exists_path
    obtain ⟨path, hpath, hnodup⟩ := hpath.exists_nodup
    obtain ⟨new, hnodup⟩ := List.nodup_cons.mp hnodup
    refine ⟨path, y, hpath.length_le hnodup, hpath.mono hfree, hnodup, ?_⟩
    rcases hend with ⟨rfl, rfl⟩ | ⟨below, stored, hrule, rfl⟩
    · exact .root
    · exact .ruled below new (h.stores_of_answer hrule)
  | error e =>
    rcases authorize_error hanswer with ⟨b, ⟨path, y, hpath, hnodup, below, hends⟩, rfl⟩ |
      ⟨y, e', hrule, -⟩
    · refine ⟨path, y, hpath.length_le hnodup, hpath.mono hfree, hnodup, ?_⟩
      cases hends with
      | again met => exact .again below met
      | lost on missing =>
        have new : y ∉ path := by
          intro hmem
          obtain ⟨row, _, found, -⟩ := hpath.exists_read hmem
          cases missing.symm.trans found
        rw [Break.error, missingError_of_path hpath new]
        exact .missing below new (hfree y on) missing
      | unreadable _ found unread =>
        obtain ⟨entry, read⟩ := h.exists_read found
        cases read.symm.trans unread
    · rcases h.free_or_stores y with hfree | ⟨stored, hstored⟩
      · cases hrule.symm.trans (h.unruled_iff.mpr hfree)
      · cases hrule.symm.trans hstored.answer

/-- **What a walk ends with is the authorization.** -/
theorem Legible.answer_of_ends (h : s.Legible q) {x : Except WorkspaceError Authorization}
    (hpath : s.tables.Path (s.tables.RuleFree q) id path y) (hnodup : path.Nodup)
    (hends : s.Ends q id path y x) : (s.authorize q id).answer = x := by
  have hpath : s.tables.Path (s.Unruled q) id path y := hpath.mono fun _ => h.unruled_iff.mpr
  cases hends with
  | root =>
    obtain ⟨n, hgoverns⟩ := Governs.of_path hpath ⟨0, .root⟩
    exact authorize_ok_iff.mpr ⟨n, none, hgoverns, rfl⟩
  | ruled below _ hrule =>
    obtain ⟨n, hgoverns⟩ := Governs.of_path hpath ⟨0, .found below hrule.answer rfl⟩
    exact authorize_ok_iff.mpr ⟨n, _, hgoverns, rfl⟩
  | again below met =>
    exact authorize_of_breaks ⟨path, y, hpath, hnodup, below, .again met⟩
  | missing below new free missing =>
    have hbreaks : s.tables.Breaks (s.Unruled q) id (.lost y) :=
      ⟨path, y, hpath, hnodup, below, .lost (h.unruled_iff.mpr free) missing⟩
    rw [authorize_of_breaks hbreaks, Break.error, missingError_of_path hpath new]

end Store

/-! ## What the nearest rule allows -/

/-- A rule that names `q`, stored for it at the name where the walk from `id` ends. -/
def Store.Nearest (s : Store) (q : Principal) (id : ResourceId) (rule : AccessRule) : Prop :=
  ∃ path y stored, s.tables.Path (s.tables.RuleFree q) id path y ∧ path.Nodup ∧ y ≠ .root ∧
    y ∉ path ∧ s.StoresRule q y stored ∧ AccessRule.ofResource stored = .ok rule ∧
    rule.principal = q

namespace Authorization

variable {q : Principal} {r : ResourceId} {stored : Resource} {rule : AccessRule}

theorem counted?_eq_some_iff : counted? q stored = some rule ↔
    AccessRule.ofResource stored = .ok rule ∧ rule.principal = q := by
  rw [counted?]
  cases AccessRule.ofResource stored with
  | error e => simp
  | ok other =>
    by_cases hq : other.principal = q
    · simp only [if_pos hq, Option.some.injEq, Except.ok.injEq]
      exact (and_iff_left_of_imp fun heq => heq ▸ hq).symm
    · simp only [if_neg hq, Except.ok.injEq]
      exact iff_of_false (Option.some_ne_none rule).symm fun h => hq (h.1 ▸ h.2)

theorem satisfies_iff {rule : Option AccessRule} {condition : Option String} :
    satisfies ⟨q, r, rule⟩ condition = true ↔
      ∃ c, condition = some c ∧ AccessRule.Holds c q r := by
  cases condition with
  | none => simp [satisfies]
  | some c =>
    have hcontext : ∀ context : Context,
        context.Binds q r ↔ context = Authorization.context ⟨q, r, rule⟩ := fun _ => funext_iff.symm
    have hholds : AccessRule.Holds c q r ↔
        Expr.evaluateText c (Authorization.context ⟨q, r, rule⟩) = .ok (.boolean true) := by
      simp only [AccessRule.Holds, hcontext, exists_eq_left]
    rw [satisfies]
    simp only [Option.some.injEq, exists_eq_left', hholds]
    split <;> simp_all

/-- **A right comes from a rule,** by ownership or by a condition that holds. -/
theorem allows_iff {found : Option AccessRule} {condition : AccessRule → Option String} :
    allows ⟨q, r, found⟩ condition = true ↔ ∃ rule, found = some rule ∧
      (rule.owner = true ∨ ∃ c, condition rule = some c ∧ AccessRule.Holds c q r) := by
  cases found with
  | none => simp [allows]
  | some rule => simp [allows, satisfies_iff]

end Authorization

namespace Store

variable {s : Store} {q : Principal} {id : ResourceId} {a : Authorization} {rule : AccessRule}

/-- The rule of an authorization is the nearest one. -/
theorem Legible.nearest_iff (h : s.Legible q) (ha : (s.authorize q id).answer = .ok a) :
    a.rule = some rule ↔ s.Nearest q id rule := by
  constructor
  · intro hrule
    obtain ⟨path, y, -, hpath, hnodup, hends⟩ := h.exists_ends id
    rw [ha] at hends
    cases hends with
    | root => cases hrule
    | ruled below new hstored =>
      obtain ⟨hread, hnamed⟩ := Authorization.counted?_eq_some_iff.mp hrule
      exact ⟨path, y, _, hpath, hnodup, below, new, hstored, hread, hnamed⟩
  · rintro ⟨path, y, stored, hpath, hnodup, below, new, hstored, hread, hnamed⟩
    have hanswer := h.answer_of_ends hpath hnodup (.ruled below new hstored)
    obtain rfl := Except.ok.inj (ha.symm.trans hanswer)
    exact Authorization.counted?_eq_some_iff.mpr ⟨hread, hnamed⟩

theorem Legible.allows_iff (h : s.Legible q) (ha : (s.authorize q id).answer = .ok a)
    {condition : AccessRule → Option String} : a.allows condition = true ↔
      ∃ rule, s.Nearest q id rule ∧
        (rule.owner = true ∨ ∃ c, condition rule = some c ∧ AccessRule.Holds c q id) := by
  obtain ⟨n, rule, -, rfl⟩ := authorize_ok_iff.mp ha
  simp only [Authorization.allows_iff, ← h.nearest_iff ha]

/-- **The nearest rule governs.**  In any tables that can be read, owners in a circle and owners
without a row included, the authorization of a principal is what the walk ends with, at the first
name that is the root, was passed before, stores a live rule for the principal, or has no row.  The
principal may view or edit only by the rule at that name, if it can be understood and names the
principal: as an owner, or because the condition for it holds. -/
theorem nearest_rule_governs (h : s.Legible q) (id : ResourceId) :
    (∀ x, (s.authorize q id).answer = x ↔ ∃ path y, path.length ≤ s.tables.rows.length ∧
      s.tables.Path (s.tables.RuleFree q) id path y ∧ path.Nodup ∧ s.Ends q id path y x) ∧
    ∀ a, (s.authorize q id).answer = .ok a →
      (a.canView = true ↔ ∃ rule, s.Nearest q id rule ∧
        (rule.owner = true ∨ ∃ c, rule.viewCondition = some c ∧ AccessRule.Holds c q id)) ∧
      (a.canEdit = true ↔ ∃ rule, s.Nearest q id rule ∧
        (rule.owner = true ∨ ∃ c, rule.editCondition = some c ∧ AccessRule.Holds c q id)) := by
  refine ⟨fun x => ⟨?_, ?_⟩, fun a ha => ⟨h.allows_iff ha, h.allows_iff ha⟩⟩
  · rintro rfl
    exact h.exists_ends id
  · rintro ⟨path, y, -, hpath, hnodup, hends⟩
    exact h.answer_of_ends hpath hnodup hends

/-- Rows at a version can be read, and so can the versions of the rules among them. -/
theorem legible_of_bare (h : ∀ row ∈ s.tables.rows, ∃ id owner classId deleted value,
    Record.Shallow value ∧ row = .bare id owner classId deleted value) : s.Legible q where
  rows row hmem := by
    obtain ⟨id, owner, classId, deleted, value, hshallow, rfl⟩ := h row hmem
    obtain ⟨entry, read, -⟩ := Row.exists_read_bare id owner classId deleted hshallow
    exact ⟨entry, read⟩
  versions id row entry found read _ := by
    obtain ⟨id, owner, classId, deleted, value, -, rfl⟩ := h row (OwnerChain.row?_mem found)
    have hstamp : entry.stamp = .committed 2 := Row.stamp_of_read read
    exact ⟨2, by rw [resolveVersion, hstamp]; rfl⟩

theorem storesRule_of_bare {rule owner classId : ResourceId} {value : Record}
    (hshallow : value.Shallow)
    (found : s.tables.row? (AccessRule.idFor id q) = some (.bare rule owner classId false value)) :
    ∃ stored, s.StoresRule q id stored ∧ stored.classId = classId ∧ stored.value = value := by
  obtain ⟨entry, read, hvalue⟩ := Row.exists_read_bare rule owner classId false hshallow
  have hstamp : entry.stamp = .committed 2 := Row.stamp_of_read read
  have hversion : (s.resolveVersion entry).answer = .ok 2 := by
    rw [resolveVersion, hstamp]
    rfl
  exact ⟨_, ⟨_, entry, 2, found, read, rfl, hversion, rfl⟩, Row.classId_of_read read, hvalue⟩

/-- A folder that `eve` owns, a folder in it with a rule for her that names nobody, and a note
there; apart from them two folders that own each other. -/
def shadowed : Store where
  tables :=
    { rows := [.bare ⟨"top"⟩ .root ⟨"_folder"⟩ false .empty,
        .bare ⟨"_acr-top-eve"⟩ ⟨"top"⟩ AccessRule.classId false
          (AccessRule.ownerRule ⟨"top"⟩ ⟨"eve"⟩).toResource.value,
        .bare ⟨"mid"⟩ ⟨"top"⟩ ⟨"_folder"⟩ false .empty,
        .bare ⟨"_acr-mid-eve"⟩ ⟨"mid"⟩ AccessRule.classId false .empty,
        .bare ⟨"note"⟩ ⟨"mid"⟩ ⟨"text"⟩ false .empty,
        .bare ⟨"this"⟩ ⟨"that"⟩ ⟨"_folder"⟩ false .empty,
        .bare ⟨"that"⟩ ⟨"this"⟩ ⟨"_folder"⟩ false .empty]
      counter := some 2
      commits := []
      snapshots := [] }
  known := []

theorem legible_shadowed : shadowed.Legible ⟨"eve"⟩ := by
  refine legible_of_bare fun row hmem => ?_
  simp only [shadowed, List.mem_cons, List.not_mem_nil, or_false] at hmem
  rcases hmem with rfl | rfl | rfl | rfl | rfl | rfl | rfl <;>
    exact ⟨_, _, _, _, _, by decide +kernel, rfl⟩

/-- What is stored for the principal at the names on the way. -/
theorem shown_shadowed :
    shadowed.tables.row? (AccessRule.idFor ⟨"top"⟩ ⟨"eve"⟩) =
        some (.bare ⟨"_acr-top-eve"⟩ ⟨"top"⟩ AccessRule.classId false
          (AccessRule.ownerRule ⟨"top"⟩ ⟨"eve"⟩).toResource.value) ∧
      shadowed.tables.row? (AccessRule.idFor ⟨"mid"⟩ ⟨"eve"⟩) =
        some (.bare ⟨"_acr-mid-eve"⟩ ⟨"mid"⟩ AccessRule.classId false .empty) ∧
      shadowed.tables.row? (AccessRule.idFor ⟨"note"⟩ ⟨"eve"⟩) = none ∧
      shadowed.tables.row? (AccessRule.idFor ⟨"this"⟩ ⟨"eve"⟩) = none ∧
      shadowed.tables.row? (AccessRule.idFor ⟨"that"⟩ ⟨"eve"⟩) = none := by
  decide +kernel

theorem nearest_rule_governs_shadowed : shadowed.Legible ⟨"eve"⟩ ∧
    (∃ a, (shadowed.authorize ⟨"eve"⟩ ⟨"top"⟩).answer = .ok a ∧ a.canView = true) ∧
    (shadowed.authorize ⟨"eve"⟩ ⟨"note"⟩).answer = .ok ⟨⟨"eve"⟩, ⟨"note"⟩, none⟩ ∧
    (shadowed.authorize ⟨"eve"⟩ ⟨"this"⟩).answer =
      .error (.consistency (.ownershipCycle ⟨"this"⟩)) := by
  have hl := legible_shadowed
  have hempty := Record.shallow_empty
  obtain ⟨htop, hmid, hnote, hthis, hthat⟩ := shown_shadowed
  have free : ∀ {id}, shadowed.tables.row? (AccessRule.idFor id ⟨"eve"⟩) = none →
      shadowed.tables.RuleFree ⟨"eve"⟩ id := fun h row hrow => by cases h.symm.trans hrow
  refine ⟨hl, ?_, ?_, ?_⟩
  · obtain ⟨stored, hstored, hclass, hvalue⟩ := storesRule_of_bare (AccessRule.nesting_le _) htop
    have hread := AccessRule.ofResource_toResource (AccessRule.ownerRule ⟨"top"⟩ ⟨"eve"⟩) hclass hvalue
    obtain ⟨hanswer, hrights⟩ := nearest_rule_governs hl ⟨"top"⟩
    have ha := (hanswer _).mpr ⟨[], ⟨"top"⟩, Nat.zero_le _, .here _, .nil,
      .ruled (by decide) List.not_mem_nil hstored⟩
    have hnearest : shadowed.Nearest ⟨"eve"⟩ ⟨"top"⟩ _ :=
      ⟨[], ⟨"top"⟩, stored, .here _, .nil, by decide, List.not_mem_nil, hstored, hread, rfl⟩
    exact ⟨_, ha, (hrights _ ha).1.mpr ⟨_, hnearest, .inl rfl⟩⟩
  · obtain ⟨stored, hstored, hclass, hvalue⟩ := storesRule_of_bare hempty hmid
    have hcounted : Authorization.counted? ⟨"eve"⟩ stored = none := by
      rw [Authorization.counted?, AccessRule.ofResource, if_neg (not_not_intro hclass), hvalue]
      rfl
    obtain ⟨entry, read, -⟩ := Row.exists_read_bare ⟨"note"⟩ ⟨"mid"⟩ ⟨"text"⟩ false hempty
    rw [← hcounted]
    exact ((nearest_rule_governs hl ⟨"note"⟩).1 _).mpr ⟨[⟨"note"⟩], ⟨"mid"⟩, by decide,
      .up (by decide) (free hnote) rfl read (.here _), List.nodup_singleton _,
      .ruled (by decide) (by decide) hstored⟩
  · obtain ⟨entry, read, -⟩ := Row.exists_read_bare ⟨"this"⟩ ⟨"that"⟩ ⟨"_folder"⟩ false hempty
    obtain ⟨entry', read', -⟩ := Row.exists_read_bare ⟨"that"⟩ ⟨"this"⟩ ⟨"_folder"⟩ false hempty
    have hpath : shadowed.tables.Path (shadowed.tables.RuleFree ⟨"eve"⟩) ⟨"this"⟩
        [⟨"this"⟩, ⟨"that"⟩] ⟨"this"⟩ :=
      .up (by decide) (free hthis) rfl read (.up (by decide) (free hthat) rfl read' (.here _))
    exact ((nearest_rule_governs hl ⟨"this"⟩).1 _).mpr ⟨_, _, by decide, hpath, by decide,
      .again (by decide) List.mem_cons_self⟩

end Store

end Fieldbook
