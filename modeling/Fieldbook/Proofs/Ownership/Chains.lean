import Fieldbook.Ownership.Governing
import Fieldbook.Proofs.Store.Rows

/-!
# Proofs/Ownership/Chains — climbing from owner to owner

`Tables.Climb t id path` says that going from owner to owner from `id` leads to the root, through
the names of `path`.  A climb goes one way only, so it meets no name twice (`Climb.nodup`).  A chain
that is read without a failure up to the root is a climb (`climb_of_isDeleted`,
`climb_of_contains`), and the chain of a name that climbs has no broken link (`unbroken_of_climb`).
-/

namespace Fieldbook

namespace Tables

variable {t : Tables} {id x : ResourceId} {path path' : List ResourceId}

/-- The names met on the way from a resource to the root, from owner to owner. -/
inductive Climb (t : Tables) : ResourceId → List ResourceId → Prop where
  | root : Climb t .root []
  | step {id : ResourceId} {row : Row} {path : List ResourceId} (below : id ≠ .root)
      (found : t.row? id = some row) (up : Climb t row.owner path) : Climb t id (id :: path)

namespace Climb

theorem unique (h : t.Climb id path) : ∀ {path'}, t.Climb id path' → path = path' := by
  induction h with
  | root =>
    intro path' h'
    cases h' with
    | root => rfl
    | step below => exact absurd rfl below
  | step below found _ ih =>
    intro path' h'
    cases h' with
    | root => exact absurd rfl below
    | step _ found' up' =>
      obtain rfl := Option.some.inj (found.symm.trans found')
      rw [ih up']

/-- From a name on the way the climb goes on as it did. -/
theorem of_mem (h : t.Climb id path) : x ∈ path → ∃ path', t.Climb x path' ∧ path' <:+ path := by
  induction h with
  | root =>
    intro hx
    exact absurd hx List.not_mem_nil
  | step below found up ih =>
    intro hx
    rcases List.mem_cons.mp hx with rfl | hx
    · exact ⟨_, .step below found up, List.suffix_refl _⟩
    · obtain ⟨path', hclimb, hsuffix⟩ := ih hx
      exact ⟨path', hclimb, hsuffix.trans (List.suffix_cons _ _)⟩

theorem not_mem_of_cons {y : ResourceId} (h : t.Climb id (y :: path)) : y ∉ path := by
  intro hy
  cases h with
  | step below found up =>
    obtain ⟨path', hclimb, hsuffix⟩ := up.of_mem hy
    obtain rfl := hclimb.unique (.step below found up)
    have hlength := hsuffix.length_le
    rw [List.length_cons] at hlength
    omega

/-- **A climb meets no name twice.** -/
theorem nodup (h : t.Climb id path) : path.Nodup := by
  induction h with
  | root => exact .nil
  | step below found up ih =>
    exact List.nodup_cons.mpr ⟨not_mem_of_cons (.step below found up), ih⟩

/-- Where a climb starts is the root, or has a row. -/
theorem start (h : t.Climb id path) : id = .root ∨ (t.row? id).isSome := by
  cases h with
  | root => exact .inl rfl
  | step _ found => exact .inr (by rw [found]; rfl)

theorem row?_isSome (h : t.Climb id path) : x ∈ path → (t.row? x).isSome := by
  induction h with
  | root =>
    intro hx
    exact absurd hx List.not_mem_nil
  | step _ found _ ih =>
    intro hx
    rcases List.mem_cons.mp hx with rfl | hx
    · rw [found]
      rfl
    · exact ih hx

end Climb

end Tables

namespace OwnerChain

variable {t : Tables} {met : List ResourceId} {id asked ancestor : ResourceId}
  {path : List ResourceId} {chain : OwnerChain}

/-! ## The links of a chain -/

/-- The chain from a name upwards, one constructor for each way in which it goes on or ends. -/
inductive IsAbove (t : Tables) : List ResourceId → ResourceId → OwnerChain → Prop where
  | root {met : List ResourceId} : IsAbove t met .root .root
  | repeated {met : List ResourceId} {id : ResourceId} (below : id ≠ .root) (again : id ∈ met) :
      IsAbove t met id (.repeated id)
  | missing {met : List ResourceId} {id : ResourceId} (below : id ≠ .root) (new : id ∉ met)
      (found : t.row? id = none) : IsAbove t met id (.missing id)
  | unreadable {met : List ResourceId} {id : ResourceId} {row : Row} {e : StoreError}
      (below : id ≠ .root) (new : id ∉ met) (found : t.row? id = some row)
      (read : row.read = .error e) : IsAbove t met id (.unreadable id e)
  | link {met : List ResourceId} {id : ResourceId} {row : Row} {entry : Entry} {up : OwnerChain}
      (below : id ≠ .root) (new : id ∉ met) (found : t.row? id = some row)
      (read : row.read = .ok entry) (isAbove : IsAbove t (id :: met) entry.owner up) :
      IsAbove t met id (.link entry up)

theorem isAbove_above (t : Tables) (met : List ResourceId) (id : ResourceId) :
    IsAbove t met id (above t met id) := by
  have hne : ∀ {id : ResourceId}, ¬id.isRoot = true → id ≠ .root := by
    rintro _ h rfl
    exact h rfl
  induction met, id using above.induct (t := t) with
  | case1 met id h =>
    obtain rfl : id = .root := by simpa [ResourceId.isRoot] using h
    rw [above]
    exact .root
  | case2 met id h hmet =>
    rw [above, if_neg h, dif_pos hmet]
    exact .repeated (hne h) hmet
  | case3 met id h hmet hrow =>
    rw [above, if_neg h, dif_neg hmet]
    split
    · exact .missing (hne h) hmet hrow
    · next hrow' => cases hrow.symm.trans hrow'
  | case4 met id h hmet row hrow _ e hread =>
    rw [above, if_neg h, dif_neg hmet]
    split
    · next hrow' => cases hrow.symm.trans hrow'
    · next hrow' =>
      obtain rfl := Option.some.inj (hrow.symm.trans hrow')
      simp only [hread]
      exact .unreadable (hne h) hmet hrow hread
  | case5 met id h hmet row hrow _ entry hread ih =>
    rw [above, if_neg h, dif_neg hmet]
    split
    · next hrow' => cases hrow.symm.trans hrow'
    · next hrow' =>
      obtain rfl := Option.some.inj (hrow.symm.trans hrow')
      simp only [hread]
      exact .link (hne h) hmet hrow hread ih

theorem isAbove_ownerChain (s : Store) (id : ResourceId) :
    IsAbove s.tables [] id (s.ownerChain id) := isAbove_above s.tables [] id

section Links

variable {row : Row} {entry : Entry} {e : StoreError} (h : IsAbove t met id chain)
include h

theorem IsAbove.eq_root (top : id = .root) : chain = .root := by
  cases h with
  | root => rfl
  | repeated below | missing below | unreadable below | link below => exact absurd top below

theorem IsAbove.eq_repeated (below : id ≠ .root) (again : id ∈ met) : chain = .repeated id := by
  cases h with
  | root => exact absurd rfl below
  | repeated => rfl
  | missing _ new | unreadable _ new | link _ new => exact absurd again new

theorem IsAbove.eq_missing (below : id ≠ .root) (new : id ∉ met) (missing : t.row? id = none) :
    chain = .missing id := by
  cases h with
  | root => exact absurd rfl below
  | repeated _ again => exact absurd again new
  | missing => rfl
  | unreadable _ _ found | link _ _ found => cases missing.symm.trans found

theorem IsAbove.eq_unreadable (below : id ≠ .root) (new : id ∉ met) (found : t.row? id = some row)
    (unread : row.read = .error e) : chain = .unreadable id e := by
  cases h with
  | root => exact absurd rfl below
  | repeated _ again => exact absurd again new
  | missing _ _ missing => cases missing.symm.trans found
  | unreadable _ _ found' unread' =>
    obtain rfl := Option.some.inj (found.symm.trans found')
    rw [Except.error.inj (unread.symm.trans unread')]
  | link _ _ found' read =>
    obtain rfl := Option.some.inj (found.symm.trans found')
    cases unread.symm.trans read

theorem IsAbove.exists_link (below : id ≠ .root) (new : id ∉ met) (found : t.row? id = some row)
    (read : row.read = .ok entry) :
    ∃ up, chain = .link entry up ∧ IsAbove t (id :: met) row.owner up := by
  cases h with
  | root => exact absurd rfl below
  | repeated _ again => exact absurd again new
  | missing _ _ missing => cases missing.symm.trans found
  | unreadable _ _ found' unread =>
    obtain rfl := Option.some.inj (found.symm.trans found')
    cases read.symm.trans unread
  | @link _ _ _ entry' up _ _ found' read' isAbove =>
    obtain rfl := Option.some.inj (found.symm.trans found')
    obtain rfl := Except.ok.inj (read.symm.trans read')
    rw [Row.owner_of_read read] at isAbove
    exact ⟨up, rfl, isAbove⟩

end Links

/-! ## From a chain to a climb -/

/-- A chain without a mark of deletion goes up to the root. -/
theorem climb_of_isDeleted (h : IsAbove t met id chain)
    (hlive : chain.isDeleted asked = .ok false) : ∃ path, t.Climb id path := by
  induction h with
  | root => exact ⟨[], .root⟩
  | repeated | missing | unreadable => cases hlive
  | link below _ found read _ ih =>
    rw [isDeleted] at hlive
    split at hlive
    · cases hlive
    · obtain ⟨path, hclimb⟩ := ih hlive
      rw [Row.owner_of_read read] at hclimb
      exact ⟨_, .step below found hclimb⟩

/-- **A chain that does not contain a name goes up to the root without it.** -/
theorem climb_of_contains (h : IsAbove t met id chain)
    (hout : chain.contains ancestor = .ok false) :
    ∃ path, t.Climb id path ∧ ancestor ∉ path := by
  induction h with
  | root => exact ⟨[], .root, List.not_mem_nil⟩
  | repeated => cases hout
  | missing =>
    rw [contains] at hout
    split at hout <;> cases hout
  | unreadable =>
    rw [contains] at hout
    split at hout <;> cases hout
  | link below _ found read _ ih =>
    rw [contains] at hout
    split at hout
    · cases hout
    · next hne =>
      obtain ⟨path, hclimb, hpath⟩ := ih hout
      rw [Row.owner_of_read read] at hclimb
      rw [Row.id_of_read read, Row.id_of_find? found] at hne
      refine ⟨_, .step below found hclimb, fun hmem => ?_⟩
      rcases List.mem_cons.mp hmem with rfl | hmem
      · exact hne rfl
      · exact hpath hmem

/-! ## From a climb to a chain -/

/-- A chain that meets no name again, and none without a row. -/
def Unbroken : OwnerChain → Prop
  | .root => True
  | .repeated _ => False
  | .missing _ => False
  | .unreadable _ _ => True
  | .link _ up => up.Unbroken

/-- **The chain of a name that climbs to the root is unbroken.** -/
theorem unbroken_of_climb (h : t.Climb id path) : ∀ {met : List ResourceId} {chain : OwnerChain},
    IsAbove t met id chain → (∀ x ∈ path, x ∉ met) → chain.Unbroken := by
  induction h with
  | root =>
    intro met chain h _
    rw [h.eq_root rfl]
    exact trivial
  | @step id row path below found up ih =>
    intro met chain h hmet
    have new := hmet id List.mem_cons_self
    cases hread : row.read with
    | error e =>
      rw [h.eq_unreadable below new found hread]
      exact trivial
    | ok entry =>
      obtain ⟨up', rfl, isAbove⟩ := h.exists_link below new found hread
      rw [Unbroken]
      refine ih isAbove fun x hx hmem => ?_
      rcases List.mem_cons.mp hmem with rfl | hmem
      · exact Tables.Climb.not_mem_of_cons (.step below found up) hx
      · exact hmet x (List.mem_cons_of_mem _ hx) hmem

end OwnerChain

end Fieldbook
