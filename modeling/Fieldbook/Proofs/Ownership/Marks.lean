import Fieldbook.Proofs.Ownership.Chains

/-!
# Proofs/Ownership/Marks — the first mark of deletion

`Tables.MarkWalk t id path b` says what the walk from `id` towards the root meets: the names of
`path`, up to the first that is marked as deleted, or up to the root when none is.  As with rules, a
walk finds one thing only, and `isDeleted_ok_iff` says that it is what a store answers.

Names that a walk does not meet have no part in what it finds (`MarkWalk.of_same`), and where it
meets a name whose row is changed, it goes on as the walk from there (`MarkWalk.through_iff`,
`MarkWalk.transfer`).
-/

namespace Fieldbook

namespace Tables

variable {t t' : Tables} {id k x : ResourceId} {path path' : List ResourceId} {b b' : Bool}

/-- The names met on the way from a resource towards the root, up to the first that is marked as
deleted, and whether there is one. -/
inductive MarkWalk (t : Tables) : ResourceId → List ResourceId → Bool → Prop where
  | root : MarkWalk t .root [] false
  | marked {id : ResourceId} {row : Row} {entry : Entry} (below : id ≠ .root)
      (found : t.row? id = some row) (read : row.read = .ok entry) (deleted : row.deleted = true) :
      MarkWalk t id [id] true
  | up {id : ResourceId} {row : Row} {entry : Entry} {path : List ResourceId} {b : Bool}
      (below : id ≠ .root) (found : t.row? id = some row) (read : row.read = .ok entry)
      (live : row.deleted = false) (further : MarkWalk t row.owner path b) :
      MarkWalk t id (id :: path) b

namespace MarkWalk

/-- **A walk meets one thing only.** -/
theorem unique (h : t.MarkWalk id path b) : ∀ {path' b'}, t.MarkWalk id path' b' →
    path = path' ∧ b = b' := by
  induction h with
  | root =>
    intro path' b' h'
    cases h' with
    | root => exact ⟨rfl, rfl⟩
    | marked below | up below => exact absurd rfl below
  | marked below found _ deleted =>
    intro path' b' h'
    cases h' with
    | root => exact absurd rfl below
    | marked => exact ⟨rfl, rfl⟩
    | up _ found' _ live =>
      obtain rfl := Option.some.inj (found.symm.trans found')
      cases deleted.symm.trans live
  | up below found _ live _ ih =>
    intro path' b' h'
    cases h' with
    | root => exact absurd rfl below
    | marked _ found' _ deleted =>
      obtain rfl := Option.some.inj (found.symm.trans found')
      cases deleted.symm.trans live
    | up _ found' _ _ further' =>
      obtain rfl := Option.some.inj (found.symm.trans found')
      obtain ⟨rfl, rfl⟩ := ih further'
      exact ⟨rfl, rfl⟩

/-- From a name on the way the walk goes on as it did. -/
theorem of_mem (h : t.MarkWalk id path b) : x ∈ path → ∃ path', t.MarkWalk x path' b := by
  induction h with
  | root =>
    intro hx
    exact absurd hx List.not_mem_nil
  | marked below found read deleted =>
    intro hx
    obtain rfl := List.mem_singleton.mp hx
    exact ⟨_, .marked below found read deleted⟩
  | up below found read live further ih =>
    intro hx
    rcases List.mem_cons.mp hx with rfl | hx
    · exact ⟨_, .up below found read live further⟩
    · exact ih hx

/-- Where there is a mark, the walk meets the name that it starts from. -/
theorem mem_self (h : t.MarkWalk id path true) : id ∈ path := by
  cases h with
  | marked | up => exact List.mem_cons_self

/-- From a live name on the way to a mark, the owner is met next. -/
theorem owner_mem {row : Row} (h : t.MarkWalk id path true) (below : id ≠ .root)
    (found : t.row? id = some row) (live : row.deleted = false) : row.owner ∈ path := by
  cases h with
  | marked _ found' _ deleted =>
    obtain rfl := Option.some.inj (found.symm.trans found')
    cases deleted.symm.trans live
  | up _ found' _ _ further =>
    obtain rfl := Option.some.inj (found.symm.trans found')
    exact List.mem_cons_of_mem _ further.mem_self

/-- A walk starts from the root, where there is no mark, or from a row. -/
theorem start (h : t.MarkWalk id path b) : (id = .root ∧ b = false) ∨ (t.row? id).isSome := by
  cases h with
  | root => exact .inl ⟨rfl, rfl⟩
  | marked _ found | up _ found => exact .inr (by rw [found]; rfl)

/-- Every name on the way has a row that can be read. -/
theorem exists_read (h : t.MarkWalk id path b) : x ∈ path →
    x ≠ .root ∧ ∃ row entry, t.row? x = some row ∧ row.read = .ok entry := by
  induction h with
  | root =>
    intro hx
    exact absurd hx List.not_mem_nil
  | marked below found read deleted =>
    intro hx
    obtain rfl := List.mem_singleton.mp hx
    exact ⟨below, _, _, found, read⟩
  | up below found read live further ih =>
    intro hx
    rcases List.mem_cons.mp hx with rfl | hx
    · exact ⟨below, _, _, found, read⟩
    · exact ih hx

/-- A walk without a mark climbs to the root. -/
theorem climb (h : t.MarkWalk id path b) : b = false → t.Climb id path := by
  induction h with
  | root => exact fun _ => .root
  | marked => exact fun hb => nomatch hb
  | up below found _ _ _ ih => exact fun hb => .step below found (ih hb)

/-! ## Walks in other tables -/

/-- **What a walk finds rests on the rows it meets.** -/
theorem of_same (h : t.MarkWalk id path b) : (∀ y ∈ path, t'.row? y = t.row? y) →
    t'.MarkWalk id path b := by
  induction h with
  | root => exact fun _ => .root
  | marked below found read deleted =>
    intro hsame
    exact .marked below ((hsame _ List.mem_cons_self).trans found) read deleted
  | up below found read live _ ih =>
    intro hsame
    have hup := ih fun y hy => hsame y (List.mem_cons_of_mem _ hy)
    exact .up below ((hsame _ List.mem_cons_self).trans found) read live hup

/-- **A walk goes on in other tables** that differ in the row of `k` alone, if the walk from `k`
does. -/
theorem transfer (h : t.MarkWalk id path b) (hsame : ∀ y, y ≠ k → t'.row? y = t.row? y)
    (hk : ∀ {path b}, t.MarkWalk k path b → ∃ path', t'.MarkWalk k path' b) :
    ∃ path', t'.MarkWalk id path' b := by
  induction h with
  | root => exact ⟨[], .root⟩
  | @marked id row entry below found read deleted =>
    by_cases hid : id = k
    · subst hid
      exact hk (.marked below found read deleted)
    · exact ⟨_, .marked below ((hsame id hid).trans found) read deleted⟩
  | @up id row entry path b below found read live further ih =>
    by_cases hid : id = k
    · subst hid
      exact hk (.up below found read live further)
    · obtain ⟨path', hup⟩ := ih
      exact ⟨_, .up below ((hsame id hid).trans found) read live hup⟩

/-- The walk from a live name is the walk from its owner. -/
theorem owner_iff {row : Row} {entry : Entry} (below : id ≠ .root) (found : t.row? id = some row)
    (read : row.read = .ok entry) (live : row.deleted = false) :
    (∃ path, t.MarkWalk id path b) ↔ ∃ path, t.MarkWalk row.owner path b := by
  constructor
  · rintro ⟨path, h⟩
    cases h with
    | root => exact absurd rfl below
    | marked _ found' _ deleted =>
      obtain rfl := Option.some.inj (found.symm.trans found')
      cases deleted.symm.trans live
    | up _ found' _ _ further =>
      obtain rfl := Option.some.inj (found.symm.trans found')
      exact ⟨_, further⟩
  · rintro ⟨path, h⟩
    exact ⟨_, .up below found read live h⟩

/-- **A walk that meets `k` is, in tables that differ from there on, the walk from `k`.** -/
theorem through_iff (h : t.MarkWalk id path b) : k ∈ path →
    (∀ y ∈ path, y ≠ k → t'.row? y = t.row? y) →
      ((∃ path', t'.MarkWalk id path' b') ↔ ∃ path', t'.MarkWalk k path' b') := by
  induction h with
  | root =>
    intro hk
    exact absurd hk List.not_mem_nil
  | marked =>
    intro hk _
    rw [List.mem_singleton.mp hk]
  | @up id row entry path b below found read live further ih =>
    intro hk hsame
    by_cases hid : id = k
    · rw [hid]
    · have hfound : t'.row? id = some row := (hsame id List.mem_cons_self hid).trans found
      have hmem : k ∈ path := (List.mem_cons.mp hk).resolve_left fun heq => hid heq.symm
      rw [owner_iff below hfound read live]
      exact ih hmem fun y hy => hsame y (List.mem_cons_of_mem _ hy)

/-- **A mark is met again** where rows keep their owners and their marks, at a name that was met
before, if not earlier. -/
theorem keep (h : t.MarkWalk id path b) : b = true →
    (∀ y ∈ path, ∀ row, t.row? y = some row → ∃ row' entry', t'.row? y = some row' ∧
      row'.read = .ok entry' ∧ row'.owner = row.owner ∧
      (row.deleted = true → row'.deleted = true)) →
      ∃ path', path' <+: path ∧ t'.MarkWalk id path' true := by
  induction h with
  | root => exact fun hb => nomatch hb
  | @marked id row entry below found read deleted =>
    intro _ hkeep
    obtain ⟨row', entry', found', read', -, hdead⟩ := hkeep id List.mem_cons_self row found
    exact ⟨_, List.prefix_refl _, .marked below found' read' (hdead deleted)⟩
  | @up id row entry path b below found read live further ih =>
    intro hb hkeep
    obtain ⟨row', entry', found', read', howner, -⟩ := hkeep id List.mem_cons_self row found
    cases hlive : row'.deleted with
    | true => exact ⟨_, List.cons_prefix_cons.mpr ⟨rfl, List.nil_prefix⟩,
        .marked below found' read' hlive⟩
    | false =>
      obtain ⟨path', hinit, hup⟩ := ih hb fun y hy => hkeep y (List.mem_cons_of_mem _ hy)
      exact ⟨_, List.cons_prefix_cons.mpr ⟨rfl, hinit⟩,
        .up below found' read' hlive (howner ▸ hup)⟩

end MarkWalk

end Tables

/-! ## Deletion -/

namespace OwnerChain

variable {t : Tables} {met : List ResourceId} {id asked : ResourceId} {path : List ResourceId}
  {b : Bool} {chain : OwnerChain}

/-- What is answered rests on a walk. -/
theorem markWalk_of_isDeleted (h : IsAbove t met id chain) (hb : chain.isDeleted asked = .ok b) :
    ∃ path, t.MarkWalk id path b := by
  induction h with
  | root =>
    cases hb
    exact ⟨[], .root⟩
  | repeated | missing | unreadable => cases hb
  | @link met id row entry up below _ found read _ ih =>
    rw [isDeleted] at hb
    split at hb
    · next hdead =>
      cases hb
      exact ⟨_, .marked below found read ((Row.deleted_of_read read).symm.trans hdead)⟩
    · next hlive =>
      obtain ⟨path, hup⟩ := ih hb
      rw [Row.owner_of_read read] at hup
      rw [Row.deleted_of_read read] at hlive
      exact ⟨_, .up below found read (Bool.eq_false_iff.mpr hlive) hup⟩

/-- A walk is answered, whatever names were met before it: those it would meet again walk further
than it does. -/
theorem isDeleted_of_markWalk (h : t.MarkWalk id path b) :
    ∀ {met : List ResourceId} {chain : OwnerChain}, IsAbove t met id chain →
      (∀ x ∈ met, ∀ path' b', t.MarkWalk x path' b' → path.length < path'.length) →
        chain.isDeleted asked = .ok b := by
  induction h with
  | root =>
    intro met chain h _
    rw [h.eq_root rfl]
    rfl
  | @marked id row entry below found read deleted =>
    intro met chain h hmet
    have new : id ∉ met := fun again =>
      absurd (hmet _ again _ _ (.marked below found read deleted)) (Nat.lt_irrefl _)
    obtain ⟨up, rfl, -⟩ := h.exists_link below new found read
    rw [isDeleted, Row.deleted_of_read read, if_pos deleted]
  | @up id row entry path b below found read live further ih =>
    intro met chain h hmet
    have new : id ∉ met := fun again =>
      absurd (hmet _ again _ _ (.up below found read live further)) (Nat.lt_irrefl _)
    obtain ⟨up, rfl, isAbove⟩ := h.exists_link below new found read
    rw [isDeleted, Row.deleted_of_read read, live, if_neg Bool.false_ne_true]
    refine ih isAbove fun x hx path' b' hwalk => ?_
    rcases List.mem_cons.mp hx with rfl | hx
    · obtain ⟨rfl, -⟩ := hwalk.unique (.up below found read live further)
      exact Nat.lt_succ_self _
    · exact Nat.lt_of_succ_lt (hmet x hx path' b' hwalk)

end OwnerChain

namespace Store

variable {s : Store} {id : ResourceId} {b : Bool}

/-- **Whether a resource is deleted is what the walk finds.** -/
theorem isDeleted_ok_iff : s.isDeleted id = .ok b ↔ ∃ path, s.tables.MarkWalk id path b := by
  have habove := OwnerChain.isAbove_ownerChain s id
  constructor
  · exact OwnerChain.markWalk_of_isDeleted habove
  · rintro ⟨path, hwalk⟩
    exact OwnerChain.isDeleted_of_markWalk hwalk habove fun x hx => nomatch hx

/-- What can be told to be deleted or not has a row that can be read. -/
theorem exists_read_of_isDeleted (h : s.isDeleted id = .ok b) (below : id ≠ .root) :
    ∃ row entry, s.tables.row? id = some row ∧ row.read = .ok entry := by
  obtain ⟨path, hwalk⟩ := isDeleted_ok_iff.mp h
  cases hwalk with
  | root => exact absurd rfl below
  | marked _ found read | up _ found read => exact ⟨_, _, found, read⟩

/-- A row is live when it is not marked and its owner is live. -/
theorem isDeleted_false_iff {row : Row} {entry : Entry} (below : id ≠ .root)
    (found : s.tables.row? id = some row) (read : row.read = .ok entry) :
    s.isDeleted id = .ok false ↔ row.deleted = false ∧ s.isDeleted row.owner = .ok false := by
  rw [isDeleted_ok_iff, isDeleted_ok_iff]
  constructor
  · rintro ⟨path, hwalk⟩
    cases hwalk with
    | root => exact absurd rfl below
    | up _ found' _ live further =>
      obtain rfl := Option.some.inj (found.symm.trans found')
      exact ⟨live, _, further⟩
  · rintro ⟨live, path, hwalk⟩
    exact ⟨_, .up below found read live hwalk⟩

end Store

end Fieldbook
