import Fieldbook.Proofs.Workspace.Rights

/-!
# Proofs/Workspace/Walks — where a walk towards the root comes through

Whether a principal owns a resource is found on the walk from there towards the root.  Some places
may be set apart: `Store.Comes s q apart id` says that the walk of `q` from `id` comes to one of
them, having found no rule before.  What it finds is then what is found from that place on
(`Comes.exists_owns_iff`).  In a store that agrees with an earlier one everywhere else, a walk that
comes to no such place finds nothing that was not found before (`Agree.governs`); it may be that a
row on the way can be read no more.
-/

namespace Fieldbook.Store

variable {s s' : Store} {q : Principal} {apart : ResourceId → Prop} {id y : ResourceId} {n : Nat}
  {rule : Option AccessRule} {row : Row} {entry : Entry}

/-! ## Owners -/

/-- The principal is an owner of the resource. -/
def Owns (s : Store) (q : Principal) (id : ResourceId) : Prop :=
  (s.authorize q id).answer.toOption.any (·.isOwner) = true

instance (s : Store) (q : Principal) (id : ResourceId) : Decidable (s.Owns q id) :=
  inferInstanceAs (Decidable (_ = _))

theorem owns_iff_authorize :
    s.Owns q id ↔ ∃ a, (s.authorize q id).answer = .ok a ∧ a.isOwner = true := by
  rw [Owns, Option.any_eq_true]
  simp only [Workspace.toOption_eq_some]

theorem owns_iff_governs :
    s.Owns q id ↔ ∃ n rule, s.Governs q n id (some rule) ∧ rule.owner = true :=
  owns_iff_authorize.trans isOwner_iff

/-- Walks that find the same find the same owners. -/
theorem owns_congr (h : ∀ rule, (∃ n, s.Governs q n id rule) ↔ ∃ n, s'.Governs q n y rule) :
    s.Owns q id ↔ s'.Owns q y := by
  rw [owns_iff_governs, owns_iff_governs]
  constructor
  · rintro ⟨n, rule, hgov, howner⟩
    obtain ⟨m, hgov'⟩ := (h (some rule)).mp ⟨n, hgov⟩
    exact ⟨m, rule, hgov', howner⟩
  · rintro ⟨n, rule, hgov, howner⟩
    obtain ⟨m, hgov'⟩ := (h (some rule)).mpr ⟨n, hgov⟩
    exact ⟨m, rule, hgov', howner⟩

/-- Where there is no rule, the row has to be read. -/
theorem Owns.exists_read (h : s.Owns q id) (below : id ≠ .root)
    (none : (s.ruleAt? q id).answer = .ok none) :
    ∃ row entry, s.tables.row? id = some row ∧ row.read = .ok entry := by
  obtain ⟨n, rule, hgov, -⟩ := owns_iff_governs.mp h
  cases hgov with
  | found _ found => cases none.symm.trans found
  | up _ _ found read => exact ⟨_, _, found, read⟩

/-- Where there is no rule, the owner of the row decides. -/
theorem owns_owner_iff (below : id ≠ .root) (none : (s.ruleAt? q id).answer = .ok none)
    (found : s.tables.row? id = some row) (read : row.read = .ok entry) :
    s.Owns q id ↔ s.Owns q row.owner := by
  refine owns_congr fun rule => ⟨?_, fun ⟨n, further⟩ => ⟨n + 1, .up below none found read further⟩⟩
  rintro ⟨n, hgov⟩
  exact hgov.of_owner below none found

theorem Governs.of_ruled (h : s.Governs q n id rule)
    (hrule : (s'.ruleAt? q id).answer = (s.ruleAt? q id).answer)
    (hruled : (s.ruleAt? q id).answer ≠ .ok none) : s'.Governs q n id rule := by
  cases h with
  | root => exact .root
  | found below found counted => exact .found below (hrule.trans found) counted
  | up _ none => exact absurd none hruled

/-- Everywhere else what is looked up there decides. -/
theorem owns_iff_of_ruled (hrule : (s'.ruleAt? q id).answer = (s.ruleAt? q id).answer)
    (hruled : (s.ruleAt? q id).answer ≠ .ok none) : s'.Owns q id ↔ s.Owns q id := by
  refine owns_congr fun rule => ⟨fun ⟨n, h⟩ => ⟨n, ?_⟩, fun ⟨n, h⟩ => ⟨n, h.of_ruled hrule hruled⟩⟩
  exact h.of_ruled hrule.symm (hrule ▸ hruled)

/-! ## Places on the way -/

/-- The walk of a principal from a resource towards the root comes to a place that is set apart, and
finds no rule before. -/
inductive Comes (s : Store) (q : Principal) (apart : ResourceId → Prop) : ResourceId → Prop where
  | here {id : ResourceId} (h : apart id) : Comes s q apart id
  | up {id : ResourceId} {row : Row} {entry : Entry} (below : id ≠ .root)
      (none : (s.ruleAt? q id).answer = .ok none) (found : s.tables.row? id = some row)
      (read : row.read = .ok entry) (further : Comes s q apart row.owner) : Comes s q apart id

/-- **What a walk finds that comes to a place is what is found from there.** -/
theorem Comes.exists_owns_iff (h : s.Comes q apart id) :
    ∃ y, apart y ∧ (s.Owns q id ↔ s.Owns q y) := by
  induction h with
  | @here id h => exact ⟨id, h, Iff.rfl⟩
  | up below none found read _ ih =>
    obtain ⟨y, hy, hiff⟩ := ih
    exact ⟨y, hy, (owns_owner_iff below none found read).trans hiff⟩

/-- A walk comes to nothing that the climb to the root does not meet. -/
theorem Comes.exists_mem (h : s.Comes q apart id) : ∀ {path}, s.tables.Climb id path →
    ∃ y, (y = .root ∨ y ∈ path) ∧ apart y := by
  induction h with
  | @here id h =>
    intro path hclimb
    cases hclimb with
    | root => exact ⟨.root, .inl rfl, h⟩
    | step => exact ⟨id, .inr List.mem_cons_self, h⟩
  | up below _ found _ _ ih =>
    intro path hclimb
    cases hclimb with
    | root => exact absurd rfl below
    | step _ found' hup =>
      obtain rfl := Option.some.inj (found.symm.trans found')
      obtain ⟨y, hy, ha⟩ := ih hup
      exact ⟨y, hy.imp_right (List.mem_cons_of_mem _), ha⟩

/-! ## Stores that agree -/

/-- Two stores agree for a principal on what was there, but for the places set apart: on the rules
for the principal, and on who owns a row.  What can be read of a row in the second store can be read
in the first. -/
structure Agree (s s' : Store) (q : Principal) (apart : ResourceId → Prop) : Prop where
  sound : s.tables.Sound
  rules : ∀ y, (s.tables.row? y).isSome → ¬apart y →
    s'.tables.row? (AccessRule.idFor y q) = s.tables.row? (AccessRule.idFor y q)
  rows : ∀ y row, s.tables.row? y = some row → ¬apart y →
    ∃ row', s'.tables.row? y = some row' ∧ row'.owner = row.owner ∧
      ∀ entry', row'.read = .ok entry' → ∃ entry, row.read = .ok entry

/-- Stores with the same rows, but for the places set apart, agree either way. -/
theorem agree_of_same (hs : s.tables.Sound) (hs' : s'.tables.Sound)
    (hrows : ∀ y, ¬apart y → s'.tables.row? y = s.tables.row? y)
    (hrules : ∀ y, s'.tables.row? (AccessRule.idFor y q) = s.tables.row? (AccessRule.idFor y q)) :
    s.Agree s' q apart ∧ s'.Agree s q apart := by
  refine ⟨⟨hs, fun y _ _ => hrules y, fun y row found hne => ?_⟩,
    ⟨hs', fun y _ _ => (hrules y).symm, fun y row found hne => ?_⟩⟩
  · exact ⟨row, (hrows y hne).trans found, rfl, fun entry read => ⟨entry, read⟩⟩
  · exact ⟨row, (hrows y hne).symm.trans found, rfl, fun entry read => ⟨entry, read⟩⟩

namespace Agree

variable (h : s.Agree s' q apart)
include h

theorem ruleAt? (hy : (s.tables.row? y).isSome) (hne : ¬apart y) :
    (s'.ruleAt? q y).answer = (s.ruleAt? q y).answer :=
  ruleAt?_congr h.sound (h.rules y hy hne)

/-- **A step of a walk in the second store** is one in the first. -/
theorem exists_step (hy : s.tables.Has y) (hne : ¬apart y) (below : y ≠ .root)
    (none : (s'.ruleAt? q y).answer = .ok none) (found : s'.tables.row? y = some row)
    (read : row.read = .ok entry) : (s.ruleAt? q y).answer = .ok .none ∧
      ∃ row₀ entry₀, s.tables.row? y = some row₀ ∧ row₀.read = .ok entry₀ ∧
        row₀.owner = row.owner := by
  have hthere := hy.resolve_left below
  obtain ⟨row₀, found₀⟩ := Option.isSome_iff_exists.mp hthere
  obtain ⟨row', found', howner, hread⟩ := h.rows y row₀ found₀ hne
  obtain rfl := Option.some.inj (found.symm.trans found')
  obtain ⟨entry₀, read₀⟩ := hread entry read
  exact ⟨(h.ruleAt? hthere hne).symm.trans none, row₀, entry₀, found₀, read₀, howner.symm⟩

/-- **A walk that comes to no place set apart** finds in the first store what it finds in the
second. -/
theorem governs (hgov : s'.Governs q n y rule) (hy : s.tables.Has y)
    (hout : ¬s.Comes q apart y) : s.Governs q n y rule := by
  induction hgov with
  | root => exact .root
  | found below found counted =>
    have hrule := h.ruleAt? (hy.resolve_left below) fun ha => hout (.here ha)
    exact .found below (hrule.symm.trans found) counted
  | up below none found read _ ih =>
    have hne := fun ha => hout (.here ha)
    obtain ⟨none₀, row₀, entry₀, found₀, read₀, howner⟩ :=
      h.exists_step hy hne below none found read
    rw [← howner] at ih
    have further := ih (h.sound.has_owner found₀) fun hc => hout (.up below none₀ found₀ read₀ hc)
    exact .up below none₀ found₀ read₀ further

/-- A walk that comes to a place set apart does so in the first store as well. -/
theorem comes (hc : s'.Comes q apart y) : s.tables.Has y → s.Comes q apart y := by
  induction hc with
  | here ha => exact fun _ => .here ha
  | @up y row entry below none found read _ ih =>
    intro hy
    by_cases hne : apart y
    · exact .here hne
    · obtain ⟨none₀, row₀, entry₀, found₀, read₀, howner⟩ :=
        h.exists_step hy hne below none found read
      rw [← howner] at ih
      exact .up below none₀ found₀ read₀ (ih (h.sound.has_owner found₀))

/-- Owners in the second store are owners in the first. -/
theorem owns (hy : s.tables.Has y) (hout : ¬s.Comes q apart y) (howns : s'.Owns q y) :
    s.Owns q y := by
  obtain ⟨n, rule, hgov, howner⟩ := owns_iff_governs.mp howns
  exact owns_iff_governs.mpr ⟨n, rule, h.governs hgov hy hout, howner⟩

/-- **Nobody becomes an owner** by what differs at places that they own. -/
theorem not_owns (hapart : ∀ y, apart y → s.Owns q y) (hy : s.tables.Has y)
    (hnot : ¬s.Owns q y) : ¬s'.Owns q y := by
  have hout : ¬s.Comes q apart y := by
    intro hc
    obtain ⟨z, hz, hiff⟩ := hc.exists_owns_iff
    exact hnot (hiff.mpr (hapart z hz))
  exact fun howns => hnot (h.owns hy hout howns)

end Agree

end Fieldbook.Store
