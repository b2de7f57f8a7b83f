import Fieldbook.Proofs.Ownership.Chains

/-!
# Proofs/Ownership/Governing — the rule that is found first

`Store.Governs s q n id rule` says what the walk from `id` towards the root finds for a principal:
after `n` links a stored rule, or the root and no rule.  A walk finds one thing only, and
`authorize_ok_iff` says that the authorization of a principal is what the walk finds.  The walk is
a relation on the rows alone: it knows nothing of names that were met before.
-/

namespace Fieldbook

namespace Authorization

/-- A stored rule as it counts for a principal: only if it can be read and names the principal. -/
def counted? (q : Principal) (stored : Resource) : Option AccessRule :=
  match AccessRule.ofResource stored with
  | .ok rule => if rule.principal = q then some rule else .none
  | .error _ => .none

theorem ofStoredRule_eq (q : Principal) (asked : ResourceId) (stored : Resource) :
    ofStoredRule q asked stored = ⟨q, asked, counted? q stored⟩ := by
  rw [ofStoredRule, counted?]
  cases AccessRule.ofResource stored with
  | error e => rfl
  | ok rule =>
    simp only [ofRule]
    split <;> rfl

end Authorization

namespace Store

variable {s : Store} {q : Principal} {asked id : ResourceId} {n m : Nat}
  {rule rule' : Option AccessRule}

/-- What the walk from a resource towards the root finds, and after how many links. -/
inductive Governs (s : Store) (q : Principal) : Nat → ResourceId → Option AccessRule → Prop where
  | root : Governs s q 0 .root none
  | found {id : ResourceId} {stored : Resource} {rule : Option AccessRule} (below : id ≠ .root)
      (found : (s.ruleAt? q id).answer = .ok (some stored))
      (counted : Authorization.counted? q stored = rule) : Governs s q 0 id rule
  | up {id : ResourceId} {row : Row} {entry : Entry} {n : Nat} {rule : Option AccessRule}
      (below : id ≠ .root) (none : (s.ruleAt? q id).answer = .ok none)
      (found : s.tables.row? id = some row) (read : row.read = .ok entry)
      (further : Governs s q n row.owner rule) : Governs s q (n + 1) id rule

/-- **A walk finds one thing only,** after one number of links. -/
theorem Governs.unique (h : s.Governs q n id rule) : ∀ {m rule'}, s.Governs q m id rule' →
    n = m ∧ rule = rule' := by
  induction h with
  | root =>
    intro m rule' h'
    cases h' with
    | root => exact ⟨rfl, rfl⟩
    | found below | up below => exact absurd rfl below
  | found below hrule counted =>
    intro m rule' h'
    cases h' with
    | root => exact absurd rfl below
    | found _ hrule' counted' =>
      obtain rfl := Option.some.inj (Except.ok.inj (hrule.symm.trans hrule'))
      exact ⟨rfl, counted.symm.trans counted'⟩
    | up _ hnone => cases hrule.symm.trans hnone
  | up below hnone found _ _ ih =>
    intro m rule' h'
    cases h' with
    | root => exact absurd rfl below
    | found _ hrule => cases hnone.symm.trans hrule
    | up _ _ found' _ further' =>
      obtain rfl := Option.some.inj (found.symm.trans found')
      obtain ⟨rfl, rfl⟩ := ih further'
      exact ⟨rfl, rfl⟩

/-- Where there is no rule, the walk goes on from the owner. -/
theorem Governs.of_owner {row : Row} (h : s.Governs q n id rule) (below : id ≠ .root)
    (none : (s.ruleAt? q id).answer = .ok none) (found : s.tables.row? id = some row) :
    ∃ m, s.Governs q m row.owner rule := by
  cases h with
  | root => exact absurd rfl below
  | found _ hrule => cases none.symm.trans hrule
  | up _ _ found' _ further =>
    obtain rfl := Option.some.inj (found.symm.trans found')
    exact ⟨_, further⟩

/-! ## Authorizations -/

theorem ruledAt_answer (s : Store) (q : Principal) (asked id : ResourceId)
    (further : Reading WorkspaceError Authorization) :
    (s.ruledAt q asked id further).answer = match (s.ruleAt? q id).answer with
      | .error e => .error (.store e)
      | .ok (some stored) => .ok ⟨q, asked, Authorization.counted? q stored⟩
      | .ok none => further.answer := by
  rw [ruledAt, Reading.answer_bind, Reading.answer_mapError]
  cases (s.ruleAt? q id).answer with
  | error e => rfl
  | ok found =>
    cases found with
    | none => rfl
    | some stored => exact congrArg Except.ok (Authorization.ofStoredRule_eq q asked stored)

/-- What is answered rests on a walk. -/
theorem governs_of_authorize {met : List ResourceId} {chain : OwnerChain} {a : Authorization}
    (h : OwnerChain.IsAbove s.tables met id chain)
    (ha : (chain.authorize s q asked).answer = .ok a) :
    ∃ n rule, s.Governs q n id rule ∧ a = ⟨q, asked, rule⟩ := by
  induction h with
  | root =>
    cases ha
    exact ⟨0, none, .root, rfl⟩
  | repeated => cases ha
  | @missing met id below _ _ | @unreadable met id _ _ below _ _ _ =>
    rw [OwnerChain.authorize, ruledAt_answer] at ha
    split at ha
    · cases ha
    · next hrule =>
      cases ha
      exact ⟨0, _, .found below hrule rfl, rfl⟩
    · cases ha
  | @link met id row entry up below _ found read _ ih =>
    rw [OwnerChain.authorize] at ha
    have hid : entry.id = id := (Row.id_of_read read).trans (Row.id_of_find? found)
    rw [ruledAt_answer, hid] at ha
    split at ha
    · cases ha
    · next hrule =>
      cases ha
      exact ⟨0, _, .found below hrule rfl, rfl⟩
    · next hnone =>
      obtain ⟨n, rule, hgov, rfl⟩ := ih ha
      rw [Row.owner_of_read read] at hgov
      exact ⟨n + 1, rule, .up below hnone found read hgov, rfl⟩

/-- A walk is answered, whatever names were met before it: those it would meet again walk further
than it does. -/
theorem authorize_of_governs (h : s.Governs q n id rule) :
    ∀ {met : List ResourceId} {chain : OwnerChain}, OwnerChain.IsAbove s.tables met id chain →
      (∀ x ∈ met, ∀ m rule', s.Governs q m x rule' → n < m) →
        (chain.authorize s q asked).answer = .ok ⟨q, asked, rule⟩ := by
  induction h with
  | root =>
    intro met chain h hmet
    rw [h.eq_root rfl]
    rfl
  | found below hrule counted =>
    intro met chain h hmet
    cases h with
    | root => exact absurd rfl below
    | repeated _ again =>
      exact absurd (hmet _ again _ _ (.found below hrule counted)) (Nat.lt_irrefl _)
    | missing | unreadable =>
      rw [OwnerChain.authorize, ruledAt_answer, hrule, ← counted]
    | link _ _ found read =>
      rw [OwnerChain.authorize]
      rw [ruledAt_answer, Row.id_of_read read, Row.id_of_find? found, hrule, ← counted]
  | @up id row entry n rule below hnone found read further ih =>
    intro met chain h hmet
    have new : id ∉ met := fun again =>
      absurd (hmet _ again _ _ (.up below hnone found read further)) (Nat.lt_irrefl _)
    obtain ⟨up, rfl, isAbove⟩ := h.exists_link below new found read
    rw [OwnerChain.authorize, ruledAt_answer, Row.id_of_read read, Row.id_of_find? found, hnone]
    refine ih isAbove fun x hx m rule' hgov => ?_
    rcases List.mem_cons.mp hx with rfl | hx
    · obtain ⟨rfl, -⟩ := hgov.unique (.up below hnone found read further)
      exact Nat.lt_succ_self n
    · exact Nat.lt_of_succ_lt (hmet x hx m rule' hgov)

/-- **The authorization of a principal is what the walk finds.** -/
theorem authorize_ok_iff {a : Authorization} :
    (s.authorize q id).answer = .ok a ↔ ∃ n rule, s.Governs q n id rule ∧ a = ⟨q, id, rule⟩ := by
  have habove := OwnerChain.isAbove_ownerChain s id
  constructor
  · exact governs_of_authorize habove
  · rintro ⟨n, rule, hgov, rfl⟩
    exact authorize_of_governs hgov habove fun x hx => nomatch hx

end Store

end Fieldbook
