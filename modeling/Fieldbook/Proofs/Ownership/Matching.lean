import Fieldbook.Proofs.Ownership.Governing
import Fieldbook.Proofs.Store.Parallel

/-!
# Proofs/Ownership/Matching — chains that go the same way

Whether a resource is deleted and which rule governs it rests on the rules along its chain, and of
each row there on where it leads: on its owner and its mark of deletion, if it can be read at all
(`Row.lead`).  Rows that lead the same way make chains that match (`matches_ownerChain`), and chains
that match are told the same (`Matches.isDeleted`, `Matches.authorize`), failures included.

A row may lead nowhere in one of two tables because it cannot be read there.  Chains match up to such
a row, and what is told of them is the same, or is the failure of the row.
-/

namespace Fieldbook

namespace Row

variable {row : Row}

/-- Where a row leads: its owner, and whether it is marked as deleted, if it can be read. -/
def lead (row : Row) : Except StoreError (ResourceId × Bool) :=
  row.read.map fun e => (e.owner, e.deleted)

theorem lead_of_read {e : Entry} (h : row.read = .ok e) : row.lead = .ok (row.owner, row.deleted) := by
  rw [lead, h, ← owner_of_read h, ← deleted_of_read h]
  rfl

theorem read_of_lead {owner : ResourceId} {dead : Bool} (h : row.lead = .ok (owner, dead)) :
    ∃ e, row.read = .ok e ∧ row.owner = owner ∧ e.deleted = dead := by
  rw [lead] at h
  cases hread : row.read with
  | error e =>
    rw [hread] at h
    cases h
  | ok e =>
    rw [hread] at h
    obtain ⟨howner, hdead⟩ := Prod.mk.inj (Except.ok.inj h)
    exact ⟨e, rfl, (owner_of_read hread).symm.trans howner, hdead⟩

theorem lead_of_unread {e : StoreError} : row.lead = .error e ↔ row.read = .error e := by
  rw [lead]
  cases row.read <;> simp [Except.map]

end Row

namespace OwnerChain

variable {t t' : Tables} {met : List ResourceId} {id asked : ResourceId} {chain chain' : OwnerChain}
  {on : ResourceId → Prop} {lost lost' : StoreError → Prop} {row : Row}

/-- The chain has come to the row of a name. -/
def ComesTo (id : ResourceId) : OwnerChain → Prop
  | .link entry _ => entry.id = id
  | .unreadable y _ => y = id
  | _ => False

theorem IsAbove.comesTo (h : IsAbove t met id chain) (below : id ≠ .root) (new : id ∉ met)
    (found : t.row? id = some row) : chain.ComesTo id := by
  cases read : row.read with
  | error e =>
    rw [h.eq_unreadable below new found read]
    rfl
  | ok entry =>
    obtain ⟨up, rfl, -⟩ := h.exists_link below new found read
    exact (Row.id_of_read read).trans (row?_id found)

/-- At the row of a name the rule there is looked for first. -/
theorem ComesTo.authorize (h : chain.ComesTo id) (s : Store) (q : Principal) (asked : ResourceId) :
    ∃ further, chain.authorize s q asked = s.ruledAt q asked id further := by
  cases chain with
  | root | repeated | missing => exact h.elim
  | unreadable y e =>
    obtain rfl := h
    exact ⟨_, rfl⟩
  | link entry up =>
    obtain rfl := h
    exact ⟨_, rfl⟩

/-- Chains by the same names, with the same marks, that end in the same way, or up to a row that
cannot be read on one of them. -/
inductive Matches (lost lost' : StoreError → Prop) : OwnerChain → OwnerChain → Prop where
  | root : Matches lost lost' .root .root
  | repeated (id : ResourceId) : Matches lost lost' (.repeated id) (.repeated id)
  | missing (id : ResourceId) : Matches lost lost' (.missing id) (.missing id)
  | unreadable (id : ResourceId) (e : StoreError) :
      Matches lost lost' (.unreadable id e) (.unreadable id e)
  | link {entry entry' : Entry} {up up' : OwnerChain} (id : entry'.id = entry.id)
      (mark : entry'.deleted = entry.deleted) (further : Matches lost lost' up up') :
      Matches lost lost' (.link entry up) (.link entry' up')
  | first {id : ResourceId} {e : StoreError} {chain : OwnerChain} (fails : lost e)
      (comes : chain.ComesTo id) : Matches lost lost' (.unreadable id e) chain
  | second {id : ResourceId} {e : StoreError} {chain : OwnerChain} (fails : lost' e)
      (comes : chain.ComesTo id) : Matches lost lost' chain (.unreadable id e)

/-- **Marks of deletion are found side by side** on chains that match. -/
theorem Matches.isDeleted (h : Matches lost lost' chain chain') (asked : ResourceId) :
    Parallel (StoreError.Raised lost) (StoreError.Raised lost') (· = ·) (chain.isDeleted asked)
      (chain'.isDeleted asked) := by
  induction h with
  | root => exact .ok rfl
  | repeated | missing | unreadable => exact .error _
  | link _ mark _ ih =>
    rw [OwnerChain.isDeleted, OwnerChain.isDeleted, mark]
    split
    · exact .ok rfl
    · exact ih
  | first fails => exact .first ⟨_, fails, rfl⟩
  | second fails => exact .second ⟨_, fails, rfl⟩

/-- **Chains that match are governed alike,** where the rules on the way are looked up alike. -/
theorem Matches.authorize {s s' : Store} {q : Principal}
    (P : Reading WorkspaceError Authorization → Reading WorkspaceError Authorization → Prop)
    (h : Matches lost lost' chain chain') (hsame : ∀ x, P x x)
    (hruled : ∀ y further further', P further further' →
      P (s.ruledAt q asked y further) (s'.ruledAt q asked y further'))
    (hfirst : ∀ e x, lost e → P (.fail (.store e)) x)
    (hsecond : ∀ e x, lost' e → P x (.fail (.store e))) :
    P (chain.authorize s q asked) (chain'.authorize s' q asked) := by
  induction h with
  | root | repeated => exact hsame _
  | missing | unreadable => exact hruled _ _ _ (hsame _)
  | link hid _ _ ih =>
    rw [OwnerChain.authorize, OwnerChain.authorize, hid]
    exact hruled _ _ _ ih
  | first fails comes =>
    obtain ⟨further, heq⟩ := comes.authorize s' q asked
    rw [OwnerChain.authorize, heq]
    exact hruled _ _ _ (hfirst _ _ fails)
  | second fails comes =>
    obtain ⟨further, heq⟩ := comes.authorize s q asked
    rw [OwnerChain.authorize, heq]
    exact hruled _ _ _ (hsecond _ _ fails)

/-- **Chains match** if all rows on the one lead the same way in the other tables. -/
theorem matches_of_isAbove (hsame : ∀ y, on y → y ≠ .root → Option.Rel
      (fun row row' => Parallel lost lost' (· = ·) row.lead row'.lead) (t.row? y) (t'.row? y))
    (hup : ∀ y row, on y → y ≠ .root → t.row? y = some row → on row.owner)
    (h : IsAbove t met id chain) :
    ∀ {chain'}, on id → IsAbove t' met id chain' → Matches lost lost' chain chain' := by
  induction h with
  | root =>
    intro chain' _ h'
    rw [h'.eq_root rfl]
    exact .root
  | repeated below again =>
    intro chain' _ h'
    rw [h'.eq_repeated below again]
    exact .repeated _
  | missing below new missing =>
    intro chain' hon h'
    have hrow := hsame _ hon below
    rw [missing] at hrow
    generalize missing' : t'.row? _ = found' at hrow
    cases hrow
    rw [h'.eq_missing below new missing']
    exact .missing _
  | unreadable below new found unread =>
    intro chain' hon h'
    have hrow := hsame _ hon below
    rw [found] at hrow
    generalize found' : t'.row? _ = there at hrow
    cases hrow with
    | @some _ row' hlead =>
      rw [Row.lead_of_unread.mpr unread] at hlead
      generalize lead' : row'.lead = outcome at hlead
      cases hlead with
      | error =>
        rw [h'.eq_unreadable below new found' (Row.lead_of_unread.mp lead')]
        exact .unreadable _ _
      | first fails => exact .first fails (h'.comesTo below new found')
      | second fails =>
        rw [h'.eq_unreadable below new found' (Row.lead_of_unread.mp lead')]
        exact .second fails rfl
  | @link met id row entry up below new found read _ ih =>
    intro chain' hon h'
    have hrow := hsame _ hon below
    rw [found] at hrow
    generalize found' : t'.row? id = there at hrow
    cases hrow with
    | @some _ row' hlead =>
      rw [Row.lead_of_read read] at hlead
      generalize lead' : row'.lead = outcome at hlead
      cases hlead with
      | ok heq =>
        subst heq
        obtain ⟨entry', read', howner, hmark⟩ := Row.read_of_lead lead'
        obtain ⟨up', rfl, isAbove'⟩ := h'.exists_link below new found' read'
        rw [howner, ← Row.owner_of_read read] at isAbove'
        have hon' : on entry.owner := Row.owner_of_read read ▸ hup id row hon below found
        refine .link ?_ (hmark.trans (Row.deleted_of_read read).symm) (ih hon' isAbove')
        rw [Row.id_of_read read', Row.id_of_read read, row?_id found', row?_id found]
      | second fails =>
        rw [h'.eq_unreadable below new found' (Row.lead_of_unread.mp lead')]
        exact .second fails ((Row.id_of_read read).trans (row?_id found))

/-- The chain of a resource in tables whose rows lead the same way. -/
theorem matches_ownerChain {s s' : Store} (on : ResourceId → Prop)
    (hsame : ∀ y, on y → y ≠ .root → Option.Rel
      (fun row row' => Parallel lost lost' (· = ·) row.lead row'.lead) (s.tables.row? y)
      (s'.tables.row? y))
    (hup : ∀ y row, on y → y ≠ .root → s.tables.row? y = some row → on row.owner) (hid : on id) :
    Matches lost lost' (s.ownerChain id) (s'.ownerChain id) :=
  matches_of_isAbove hsame hup (isAbove_ownerChain s id) hid (isAbove_ownerChain s' id)

end OwnerChain

end Fieldbook
