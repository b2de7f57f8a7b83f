import Fieldbook.Proofs.Ownership.Governing
import Mathlib.Data.List.Nodup
import Mathlib.Data.List.Perm.Subperm

/-!
# Proofs/Ownership/Breaks — where owners break off, and what a walk makes of it

A walk from owner to owner goes on where it finds nothing to stop for: no mark of deletion, no rule,
not the name that it looks for.  `Tables.Breaks t goes id b` says that it comes, by rows that can be
read, to a name that it has passed before, to one without a row, or to a row that cannot be read.
It holds of any tables, whatever owners they name.

The three walks fail exactly where owners break off for them (`isDeleted_error_iff`,
`isWithin_error_iff`, `authorize_error`), and all of them call a name that they meet again a
contradiction.  Of a name without a row the first and the last say that it is not found only if it
is the one that they were asked for; the second says so of every such name.
-/

namespace Fieldbook

/-- How the owners of a resource may break off before the root. -/
inductive Break where
  /-- A name that has been passed already. -/
  | again (id : ResourceId)
  /-- A name without a row. -/
  | lost (id : ResourceId)
  /-- A row that cannot be read. -/
  | unreadable (id : ResourceId) (e : StoreError)

namespace Break

/-- The failure of a walk that comes to a break, given what it says of names without a row. -/
def error (missing : ResourceId → WorkspaceError) : Break → WorkspaceError
  | .again id => OwnerChain.repeatedError id
  | .lost id => missing id
  | .unreadable _ e => .store e

/-- The rows name owners that contradict each other, though all of them can be read. -/
def IsGap : Break → Prop
  | .again _ | .lost _ => True
  | .unreadable .. => False

end Break

namespace Tables

variable {t : Tables} {goes : ResourceId → Prop} {id y : ResourceId} {path passed : List ResourceId}
  {b : Break}

/-- From owner to owner, by rows that can be read under the names of `path`, all of which a walk
passes. -/
inductive Path (t : Tables) (goes : ResourceId → Prop) :
    ResourceId → List ResourceId → ResourceId → Prop where
  | here (id : ResourceId) : Path t goes id [] id
  | up {id y : ResourceId} {row : Row} {entry : Entry} {path : List ResourceId} (below : id ≠ .root)
      (on : goes id) (found : t.row? id = some row) (read : row.read = .ok entry)
      (rest : Path t goes row.owner path y) : Path t goes id (id :: path) y

/-- What breaks off at a name, when some names have been passed. -/
inductive EndsAt (t : Tables) (goes : ResourceId → Prop) (passed : List ResourceId) :
    ResourceId → Break → Prop where
  | again {y : ResourceId} (met : y ∈ passed) : EndsAt t goes passed y (.again y)
  | lost {y : ResourceId} (on : goes y) (missing : t.row? y = none) :
      EndsAt t goes passed y (.lost y)
  | unreadable {y : ResourceId} {row : Row} {e : StoreError} (on : goes y)
      (found : t.row? y = some row) (unread : row.read = .error e) :
      EndsAt t goes passed y (.unreadable y e)

/-- **The owners of a resource break off** below the root, for a walk that goes on wherever `goes`
says. -/
def Breaks (t : Tables) (goes : ResourceId → Prop) (id : ResourceId) (b : Break) : Prop :=
  ∃ path y, t.Path goes id path y ∧ path.Nodup ∧ y ≠ .root ∧ t.EndsAt goes path y b

/-- A name whose row, if it can be read, bears no mark of deletion. -/
def Unmarked (t : Tables) (id : ResourceId) : Prop :=
  ∀ row entry, t.row? id = some row → row.read = .ok entry → entry.deleted = false

theorem unmarked_of_missing (missing : t.row? id = none) : t.Unmarked id := by
  intro row entry found _
  cases missing.symm.trans found

theorem unmarked_iff {row : Row} {entry : Entry} (found : t.row? id = some row)
    (read : row.read = .ok entry) : t.Unmarked id ↔ entry.deleted = false := by
  refine ⟨fun h => h row entry found read, fun h row' entry' found' read' => ?_⟩
  obtain rfl := Option.some.inj (found.symm.trans found')
  obtain rfl := Except.ok.inj (read.symm.trans read')
  exact h

/-! ## Paths -/

namespace Path

theorem mono {goes' : ResourceId → Prop} (h : t.Path goes id path y)
    (hgoes : ∀ x, goes x → goes' x) : t.Path goes' id path y := by
  induction h with
  | here id => exact .here id
  | up below on found read _ ih => exact .up below (hgoes _ on) found read ih

/-- From a name on the way the path goes on as it did. -/
theorem of_mem {x : ResourceId} (h : t.Path goes id path y) :
    x ∈ path → ∃ path', t.Path goes x path' y ∧ path' <:+ path := by
  induction h with
  | here =>
    intro hx
    exact absurd hx List.not_mem_nil
  | up below on found read rest ih =>
    intro hx
    rcases List.mem_cons.mp hx with rfl | hx
    · exact ⟨_, .up below on found read rest, List.suffix_refl _⟩
    · obtain ⟨path', hpath', hsuffix⟩ := ih hx
      exact ⟨path', hpath', hsuffix.trans (List.suffix_cons _ _)⟩

/-- **What a path leads to, one that passes nothing twice leads to**: where it comes to a name again
it may as well go on from there at once. -/
theorem exists_nodup (h : t.Path goes id path y) :
    ∃ path', t.Path goes id path' y ∧ (y :: path').Nodup := by
  induction h with
  | here id => exact ⟨[], .here id, List.nodup_singleton id⟩
  | @up id y row entry path below on found read _ ih =>
    by_cases hy : id = y
    · exact ⟨[], hy ▸ .here id, List.nodup_singleton y⟩
    · obtain ⟨path', hpath', hnodup⟩ := ih
      by_cases hid : id ∈ path'
      · obtain ⟨path'', hpath'', hsuffix⟩ := hpath'.of_mem hid
        exact ⟨path'', hpath'', hnodup.sublist (hsuffix.sublist.cons_cons y)⟩
      · refine ⟨id :: path', .up below on found read hpath', ?_⟩
        refine (List.Perm.swap y id path').nodup_iff.mp (List.nodup_cons.mpr ⟨?_, hnodup⟩)
        exact List.not_mem_cons_of_ne_of_not_mem hy hid

/-- What is handed down from owners to what they own is handed down a path. -/
theorem down {P : ResourceId → Prop} (h : t.Path goes id path y)
    (step : ∀ {id row entry}, id ≠ .root → goes id → t.row? id = some row →
      row.read = .ok entry → P row.owner → P id) : P y → P id := by
  induction h with
  | here => exact fun hy => hy
  | up below on found read _ ih => exact fun hy => step below on found read (ih hy)

/-- Every name on the way has a row that can be read. -/
theorem exists_read {x : ResourceId} (h : t.Path goes id path y) :
    x ∈ path → ∃ row entry, t.row? x = some row ∧ row.read = .ok entry := by
  induction h with
  | here =>
    intro hx
    exact absurd hx List.not_mem_nil
  | up _ _ found read _ ih =>
    intro hx
    rcases List.mem_cons.mp hx with rfl | hx
    · exact ⟨_, _, found, read⟩
    · exact ih hx

/-- **A path that passes nothing twice is no longer than the rows.** -/
theorem length_le (h : t.Path goes id path y) (hnodup : path.Nodup) :
    path.length ≤ t.rows.length := by
  have hsub : path ⊆ t.rows.map (·.id) := by
    intro x hx
    obtain ⟨row, entry, found, -⟩ := h.exists_read hx
    exact List.mem_map.mpr ⟨row, OwnerChain.row?_mem found, OwnerChain.row?_id found⟩
  have hlength := (List.Nodup.subperm hnodup hsub).length_le
  rwa [List.length_map] at hlength

end Path

theorem EndsAt.of_mem {passed' : List ResourceId} (h : t.EndsAt goes passed y b)
    (hmem : ∀ x ∈ passed, x ∈ passed') : t.EndsAt goes passed' y b := by
  cases h with
  | again met => exact .again (hmem y met)
  | lost on missing => exact .lost on missing
  | unreadable on found unread => exact .unreadable on found unread

/-- A name without a row is not passed. -/
theorem Breaks.of_lost (h : t.Breaks goes id (.lost y)) :
    y ≠ .root ∧ goes y ∧ t.row? y = none := by
  obtain ⟨path, _, -, -, hbelow, hends⟩ := h
  cases hends with
  | lost on missing => exact ⟨hbelow, on, missing⟩

theorem Breaks.of_unreadable {e : StoreError} (h : t.Breaks goes id (.unreadable y e)) :
    ∃ row, t.row? y = some row ∧ row.read = .error e := by
  obtain ⟨path, _, -, -, -, hends⟩ := h
  cases hends with
  | unreadable _ found unread => exact ⟨_, found, unread⟩

/-- At a name without a row owners break off at once. -/
theorem Breaks.eq_lost (h : t.Breaks goes id b) (missing : t.row? id = none) : b = .lost id := by
  obtain ⟨path, y, hpath, -, -, hends⟩ := h
  cases hpath with
  | up _ _ found => cases missing.symm.trans found
  | here =>
    cases hends with
    | again met => cases met
    | lost => rfl
    | unreadable _ found => cases missing.symm.trans found

theorem breaks_self_iff : t.Breaks goes id (.lost id) ↔
    id ≠ .root ∧ goes id ∧ t.row? id = none := by
  refine ⟨Breaks.of_lost, ?_⟩
  rintro ⟨hbelow, on, missing⟩
  exact ⟨[], id, .here id, .nil, hbelow, .lost on missing⟩

end Tables

/-- A name at which no rule is found for a principal. -/
def Store.Unruled (s : Store) (q : Principal) (id : ResourceId) : Prop :=
  (s.ruleAt? q id).answer = .ok none

/-! ## Broken chains -/

namespace OwnerChain

variable {t : Tables} {goes : ResourceId → Prop} {id y asked ancestor : ResourceId}
  {met path : List ResourceId} {chain : OwnerChain} {b : Break} {e : WorkspaceError}

/-- The end of a chain is a break that a walk comes to. -/
def Broken (goes : ResourceId → Prop) : OwnerChain → Break → Prop
  | .root, _ => False
  | .repeated id, b => b = .again id
  | .missing id, b => goes id ∧ b = .lost id
  | .unreadable id e, b => goes id ∧ b = .unreadable id e
  | .link entry up, b => goes entry.id ∧ up.Broken goes b

/-- What breaks off at once. -/
theorem exists_path_of_endsAt (h : t.EndsAt goes met id b) (hbelow : id ≠ .root) :
    ∃ path y, t.Path goes id path y ∧ path.Nodup ∧ (∀ x ∈ path, x ∉ met) ∧ y ≠ .root ∧
      t.EndsAt goes (path ++ met) y b :=
  ⟨[], id, .here id, .nil, fun _ hx => absurd hx List.not_mem_nil, hbelow, h⟩

/-- The break of a chain stands in the rows. -/
theorem Broken.exists_path (h : IsAbove t met id chain) (hb : chain.Broken goes b) :
    ∃ path y, t.Path goes id path y ∧ path.Nodup ∧ (∀ x ∈ path, x ∉ met) ∧ y ≠ .root ∧
      t.EndsAt goes (path ++ met) y b := by
  induction h with
  | root => cases hb
  | repeated below again =>
    obtain rfl := hb
    exact exists_path_of_endsAt (.again again) below
  | missing below _ found =>
    obtain ⟨on, rfl⟩ := hb
    exact exists_path_of_endsAt (.lost on found) below
  | unreadable below _ found unread =>
    obtain ⟨on, rfl⟩ := hb
    exact exists_path_of_endsAt (.unreadable on found unread) below
  | @link met id row entry up below new found read _ ih =>
    obtain ⟨on, hb⟩ := hb
    rw [Row.id_of_read read, Row.id_of_find? found] at on
    obtain ⟨path, y, hpath, hnodup, hout, hbelow, hends⟩ := ih hb
    rw [Row.owner_of_read read] at hpath
    have hid : id ∉ path := fun hmem => hout id hmem List.mem_cons_self
    refine ⟨id :: path, y, .up below on found read hpath, List.nodup_cons.mpr ⟨hid, hnodup⟩, ?_,
      hbelow, hends.of_mem fun _ => List.perm_middle.mem_iff.mp⟩
    exact List.forall_mem_cons.mpr ⟨new, fun x hx hmem => hout x hx (List.mem_cons_of_mem _ hmem)⟩

/-- What breaks off at once is the chain's break, where all names met before have rows that can be
read. -/
theorem broken_of_endsAt (hbelow : id ≠ .root) (h : IsAbove t met id chain)
    (hmet : ∀ x ∈ met, ∃ row entry, t.row? x = some row ∧ row.read = .ok entry)
    (hends : t.EndsAt goes met id b) : chain.Broken goes b := by
  cases hends with
  | again again =>
    rw [h.eq_repeated hbelow again]
    rfl
  | lost on missing =>
    have new : id ∉ met := by
      intro hmem
      obtain ⟨row, _, found, -⟩ := hmet id hmem
      cases missing.symm.trans found
    rw [h.eq_missing hbelow new missing]
    exact ⟨on, rfl⟩
  | unreadable on found unread =>
    have new : id ∉ met := by
      intro hmem
      obtain ⟨row, entry, found', read⟩ := hmet id hmem
      obtain rfl := Option.some.inj (found.symm.trans found')
      cases read.symm.trans unread
    rw [h.eq_unreadable hbelow new found unread]
    exact ⟨on, rfl⟩

/-- A break in the rows is that of the chain, whatever readable names were met before it. -/
theorem broken_of_path (h : t.Path goes id path y) (hbelow : y ≠ .root) :
    ∀ {met : List ResourceId} {chain : OwnerChain}, IsAbove t met id chain → path.Nodup →
      (∀ x ∈ path, x ∉ met) → (∀ x ∈ met, ∃ row entry, t.row? x = some row ∧ row.read = .ok entry) →
        t.EndsAt goes (path ++ met) y b → chain.Broken goes b := by
  induction h with
  | here id =>
    intro met chain h _ _ hmet hends
    exact broken_of_endsAt hbelow h hmet hends
  | @up id y row entry path below on found read _ ih =>
    intro met chain h hnodup hout hmet hends
    obtain ⟨hid, hnodup⟩ := List.nodup_cons.mp hnodup
    obtain ⟨hnew, hout⟩ := List.forall_mem_cons.mp hout
    obtain ⟨up, rfl, isAbove⟩ := h.exists_link below hnew found read
    have hends := hends.of_mem fun _ => List.perm_middle.mem_iff.mpr
    refine ⟨?_, ih hbelow isAbove hnodup ?_ ?_ hends⟩
    · rw [Row.id_of_read read, Row.id_of_find? found]
      exact on
    · intro x hx hmem
      rcases List.mem_cons.mp hmem with rfl | hmem
      · exact hid hx
      · exact hout x hx hmem
    · exact List.forall_mem_cons.mpr ⟨⟨row, entry, found, read⟩, hmet⟩

/-- **The chain of a resource is broken** where its owners break off. -/
theorem broken_ownerChain_iff {s : Store} :
    (s.ownerChain id).Broken goes b ↔ s.tables.Breaks goes id b := by
  have habove := isAbove_ownerChain s id
  constructor
  · intro hb
    obtain ⟨path, y, hpath, hnodup, -, hbelow, hends⟩ := Broken.exists_path habove hb
    rw [List.append_nil] at hends
    exact ⟨path, y, hpath, hnodup, hbelow, hends⟩
  · rintro ⟨path, y, hpath, hnodup, hbelow, hends⟩
    refine broken_of_path hpath hbelow habove hnodup (fun _ _ h => nomatch h)
      (fun _ h => nomatch h) ?_
    rwa [List.append_nil]

/-! ## Walks on broken chains -/

theorem isDeleted_error (h : IsAbove t met id chain) : chain.isDeleted asked = .error e ↔
    ∃ b, chain.Broken t.Unmarked b ∧ e = b.error (missingError asked) := by
  induction h with
  | root => simp [isDeleted, Broken]
  | repeated => simp [isDeleted, Broken, Break.error, eq_comm]
  | @missing met id _ _ found =>
    have on := Tables.unmarked_of_missing found
    simp [isDeleted, Broken, Break.error, on, eq_comm]
  | @unreadable met id row e' _ _ found unread =>
    have on : t.Unmarked id := by
      intro row' entry found' read
      obtain rfl := Option.some.inj (found.symm.trans found')
      cases read.symm.trans unread
    simp [isDeleted, Broken, Break.error, on, eq_comm]
  | @link met id row entry up _ _ found read _ ih =>
    have on : t.Unmarked entry.id ↔ entry.deleted = false := by
      rw [Row.id_of_read read, Row.id_of_find? found]
      exact Tables.unmarked_iff found read
    simp only [isDeleted, Broken, on]
    cases entry.deleted <;> simp [ih]

theorem contains_error (chain : OwnerChain) : chain.contains ancestor = .error e ↔
    ∃ b, chain.Broken (· ≠ ancestor) b ∧ e = b.error .notFound := by
  induction chain with
  | root => simp [contains, Broken]
  | repeated => simp [contains, Broken, Break.error, eq_comm]
  | missing id => by_cases h : id = ancestor <;> simp [contains, Broken, Break.error, h, eq_comm]
  | unreadable id => by_cases h : id = ancestor <;> simp [contains, Broken, Break.error, h, eq_comm]
  | link entry up ih => by_cases h : entry.id = ancestor <;> simp [contains, Broken, h, ih]

theorem authorize_of_broken {s : Store} {q : Principal} : ∀ {chain : OwnerChain} {b : Break},
    chain.Broken (s.Unruled q) b →
      (chain.authorize s q asked).answer = .error (b.error (missingError asked))
  | .repeated _, _, rfl => rfl
  | .missing _, _, ⟨on, rfl⟩ | .unreadable _ _, _, ⟨on, rfl⟩ => by
    rw [authorize, Store.ruledAt_answer, on]
    rfl
  | .link _ _, _, ⟨on, hb⟩ => by
    rw [authorize, Store.ruledAt_answer, on]
    exact authorize_of_broken hb

/-- Rights fail to be told at a break, or where a rule cannot be looked up. -/
theorem authorize_error {s : Store} {q : Principal} : ∀ {chain : OwnerChain},
    (chain.authorize s q asked).answer = .error e →
      (∃ b, chain.Broken (s.Unruled q) b ∧ e = b.error (missingError asked)) ∨
        ∃ y e', (s.ruleAt? q y).answer = .error e' ∧ e = .store e'
  | .root, h => nomatch h
  | .repeated id, h => .inl ⟨.again id, rfl, (Except.error.inj h).symm⟩
  | .missing id, h => by
    rw [authorize, Store.ruledAt_answer] at h
    split at h
    · next hrule => exact .inr ⟨_, _, hrule, (Except.error.inj h).symm⟩
    · cases h
    · next hnone => exact .inl ⟨.lost id, ⟨hnone, rfl⟩, (Except.error.inj h).symm⟩
  | .unreadable id e', h => by
    rw [authorize, Store.ruledAt_answer] at h
    split at h
    · next hrule => exact .inr ⟨_, _, hrule, (Except.error.inj h).symm⟩
    · cases h
    · next hnone => exact .inl ⟨.unreadable id e', ⟨hnone, rfl⟩, (Except.error.inj h).symm⟩
  | .link entry up, h => by
    rw [authorize, Store.ruledAt_answer] at h
    split at h
    · next hrule => exact .inr ⟨_, _, hrule, (Except.error.inj h).symm⟩
    · cases h
    · next hnone =>
      refine (authorize_error h).imp_left ?_
      rintro ⟨b, hb, heq⟩
      exact ⟨b, ⟨hnone, hb⟩, heq⟩

end OwnerChain

/-! ## Failures -/

namespace Store

variable {s : Store} {q : Principal} {id y ancestor : ResourceId} {goes : ResourceId → Prop}
  {b : Break} {e : WorkspaceError}

open OwnerChain (missingError broken_ownerChain_iff)

/-- **Whether a resource is deleted** fails to be told where its owners break off unmarked. -/
theorem isDeleted_error_iff : s.isDeleted id = .error e ↔
    ∃ b, s.tables.Breaks s.tables.Unmarked id b ∧ e = b.error (missingError id) := by
  simp only [← broken_ownerChain_iff]
  exact OwnerChain.isDeleted_error (OwnerChain.isAbove_ownerChain s id)

/-- **Whether a resource stands beneath another** fails to be told where its owners break off before
they come to the other. -/
theorem isWithin_error_iff : s.isWithin id ancestor = .error e ↔
    ∃ b, s.tables.Breaks (· ≠ ancestor) id b ∧ e = b.error .notFound := by
  simp only [← broken_ownerChain_iff]
  exact OwnerChain.contains_error _

/-- **Rights on a resource** fail to be told where its owners break off before there is a rule. -/
theorem authorize_of_breaks (h : s.tables.Breaks (s.Unruled q) id b) :
    (s.authorize q id).answer = .error (b.error (missingError id)) :=
  OwnerChain.authorize_of_broken (broken_ownerChain_iff.mpr h)

/-- They fail otherwise only where a rule cannot be looked up. -/
theorem authorize_error (h : (s.authorize q id).answer = .error e) :
    (∃ b, s.tables.Breaks (s.Unruled q) id b ∧ e = b.error (missingError id)) ∨
      ∃ y e', (s.ruleAt? q y).answer = .error e' ∧ e = .store e' := by
  simp only [← broken_ownerChain_iff]
  exact OwnerChain.authorize_error h

end Store

namespace Break

variable {s : Store} {q : Principal} {id y : ResourceId} {goes : ResourceId → Prop} {b : Break}

open OwnerChain (missingError)

/-- Of the names on the way that of the resource itself is told not to be found, and no other. -/
theorem error_eq_notFound_iff : b.error (missingError id) = .notFound y ↔ b = .lost id ∧ y = id := by
  cases b with
  | again | unreadable => exact iff_of_false nofun fun h => nomatch h.1
  | lost z =>
    rw [error, missingError]
    split
    · next h => simp [h, eq_comm]
    · next h => simp [h]

/-- **Owners that break off above a resource that is there** are a contradiction. -/
theorem isFatal_error (h : s.tables.Breaks goes id b) (hid : (s.tables.row? id).isSome)
    (hgap : b.IsGap) : (b.error (missingError id)).isFatal = true := by
  cases b with
  | again => rfl
  | unreadable => cases hgap
  | lost z =>
    rw [error, missingError]
    split
    · next heq =>
      obtain ⟨-, -, missing⟩ := h.of_lost
      rw [← heq, missing] at hid
      cases hid
    · rfl

end Break

namespace Store

variable {s : Store} {q : Principal} {id y ancestor : ResourceId}

theorem isDeleted_notFound_iff : s.isDeleted id = .error (.notFound y) ↔
    y = id ∧ id ≠ .root ∧ s.tables.row? id = none := by
  rw [isDeleted_error_iff]
  constructor
  · rintro ⟨b, hb, herror⟩
    obtain ⟨rfl, rfl⟩ := Break.error_eq_notFound_iff.mp herror.symm
    obtain ⟨hbelow, -, missing⟩ := hb.of_lost
    exact ⟨rfl, hbelow, missing⟩
  · rintro ⟨rfl, hbelow, missing⟩
    have on := Tables.unmarked_of_missing missing
    refine ⟨.lost y, Tables.breaks_self_iff.mpr ⟨hbelow, on, missing⟩, ?_⟩
    exact (Break.error_eq_notFound_iff.mpr ⟨rfl, rfl⟩).symm

theorem authorize_notFound_iff : (s.authorize q id).answer = .error (.notFound y) ↔
    y = id ∧ id ≠ .root ∧ s.tables.row? id = none ∧ s.Unruled q id := by
  constructor
  · intro h
    rcases authorize_error h with ⟨b, hb, herror⟩ | ⟨_, _, -, herror⟩
    · obtain ⟨rfl, rfl⟩ := Break.error_eq_notFound_iff.mp herror.symm
      obtain ⟨hbelow, on, missing⟩ := hb.of_lost
      exact ⟨rfl, hbelow, missing, on⟩
    · cases herror
  · rintro ⟨rfl, hbelow, missing, on⟩
    rw [authorize_of_breaks (Tables.breaks_self_iff.mpr ⟨hbelow, on, missing⟩),
      Break.error_eq_notFound_iff.mpr ⟨rfl, rfl⟩]

theorem isWithin_notFound_iff : s.isWithin id ancestor = .error (.notFound y) ↔
    s.tables.Breaks (· ≠ ancestor) id (.lost y) := by
  rw [isWithin_error_iff]
  constructor
  · rintro ⟨b, hb, herror⟩
    cases b with
    | again | unreadable => cases herror
    | lost z =>
      cases herror
      exact hb
  · exact fun hb => ⟨.lost y, hb, rfl⟩

end Store

end Fieldbook
