import Fieldbook.Store.Reading
import Fieldbook.Workspace.Error
import Mathlib.Data.List.Forall2

/-!
# Proofs/Store/Parallel — two readings side by side

Two readings are compared that come upon the same, but for some failures that one of them may have
and the other not.  Side by side, both give related results or fail in the same way, having looked up
the same; or one of them has such a failure, and then it does not matter any more how the other goes
on (`Reading.Parallel`).  What is read after readings side by side is read side by side
(`Parallel.bind`), and two readings side by side that have no failure of their own are the same
(`Parallel.eq_or_lost`).
-/

namespace Fieldbook

variable {ε α α' β β' : Type} {lost lost' : ε → Prop} {R : α → β → Prop} {S : α' → β' → Prop}

/-! ## Outcomes -/

/-- Two outcomes: related results, the same failure, or a failure of the first one, or of the second
one, that is of a kind of its own. -/
inductive Parallel (lost lost' : ε → Prop) (R : α → β → Prop) : Except ε α → Except ε β → Prop where
  | ok {a : α} {b : β} (related : R a b) : Parallel lost lost' R (.ok a) (.ok b)
  | error (e : ε) : Parallel lost lost' R (.error e) (.error e)
  | first {e : ε} {y : Except ε β} (fails : lost e) : Parallel lost lost' R (.error e) y
  | second {e : ε} {x : Except ε α} (fails : lost' e) : Parallel lost lost' R x (.error e)

namespace Parallel

variable {x : Except ε α} {y : Except ε β}

theorem refl (x : Except ε α) : Parallel lost lost' (· = ·) x x := by
  cases x with
  | ok a => exact .ok rfl
  | error e => exact .error e

/-- **The same outcome,** or one that is a failure of its own. -/
theorem eq_or_lost {y : Except ε α} (h : Parallel lost lost' (· = ·) x y) :
    y = x ∨ (∃ e, lost e ∧ x = .error e) ∨ ∃ e, lost' e ∧ y = .error e := by
  cases h with
  | ok related => exact .inl (by rw [related])
  | error e => exact .inl rfl
  | first fails => exact .inr (.inl ⟨_, fails, rfl⟩)
  | second fails => exact .inr (.inr ⟨_, fails, rfl⟩)

theorem map {f : α → α'} {g : β → β'} (h : Parallel lost lost' R x y)
    (hfg : ∀ a b, R a b → S (f a) (g b)) : Parallel lost lost' S (x.map f) (y.map g) := by
  cases h with
  | ok related => exact .ok (hfg _ _ related)
  | error e => exact .error e
  | first fails => exact .first fails
  | second fails => exact .second fails

theorem bind {f : α → Except ε α'} {g : β → Except ε β'} (h : Parallel lost lost' R x y)
    (hfg : ∀ a b, R a b → Parallel lost lost' S (f a) (g b)) :
    Parallel lost lost' S (x >>= f) (y >>= g) := by
  cases h with
  | ok related => exact hfg _ _ related
  | error e => exact .error e
  | first fails => exact .first fails
  | second fails => exact .second fails

/-- Lists are gone through side by side. -/
theorem mapM {f : α → Except ε α'} {g : β → Except ε β'}
    (hfg : ∀ a b, R a b → Parallel lost lost' S (f a) (g b)) {as : List α} {bs : List β}
    (h : List.Forall₂ R as bs) :
    Parallel lost lost' (List.Forall₂ S) (as.mapM f) (bs.mapM g) := by
  induction h with
  | nil => exact .ok .nil
  | cons related _ ih =>
    rw [List.mapM_cons, List.mapM_cons]
    refine (hfg _ _ related).bind fun _ _ hhead => ?_
    exact ih.bind fun _ _ hrest => .ok (.cons hhead hrest)

end Parallel

/-! ## Readings -/

namespace Reading

/-- Two readings with such outcomes, which have looked up the same unless one of them has a failure
of its own. -/
inductive Parallel (lost lost' : ε → Prop) (R : α → β → Prop) : Reading ε α → Reading ε β → Prop where
  | ok {a : α} {b : β} {ls : List Lookup} (related : R a b) :
      Parallel lost lost' R ⟨.ok a, ls⟩ ⟨.ok b, ls⟩
  | error (e : ε) (ls : List Lookup) : Parallel lost lost' R ⟨.error e, ls⟩ ⟨.error e, ls⟩
  | first {e : ε} {ls : List Lookup} {y : Reading ε β} (fails : lost e) :
      Parallel lost lost' R ⟨.error e, ls⟩ y
  | second {e : ε} {ls : List Lookup} {x : Reading ε α} (fails : lost' e) :
      Parallel lost lost' R x ⟨.error e, ls⟩

namespace Parallel

variable {x : Reading ε α} {y : Reading ε β}

theorem refl (x : Reading ε α) : Parallel lost lost' (· = ·) x x := by
  obtain ⟨answer, lookups⟩ := x
  cases answer with
  | ok a => exact .ok rfl
  | error e => exact .error e lookups

theorem ofExcept {x : Except ε α} {y : Except ε β} (h : Fieldbook.Parallel lost lost' R x y) :
    Parallel lost lost' R (.ofExcept x) (.ofExcept y) := by
  cases h with
  | ok related => exact .ok related
  | error e => exact .error e []
  | first fails => exact .first fails
  | second fails => exact .second fails

/-- **What goes on side by side** after readings side by side. -/
theorem bind {f : α → Reading ε α'} {g : β → Reading ε β'} (h : Parallel lost lost' R x y)
    (hfg : ∀ a b, x.answer = .ok a → R a b → Parallel lost lost' S (f a) (g b)) :
    Parallel lost lost' S (x >>= f) (y >>= g) := by
  change Parallel lost lost' S (Reading.bind x f) (Reading.bind y g)
  cases h with
  | @ok a b ls related =>
    have hnext := hfg a b rfl related
    rw [Reading.bind, Reading.bind]
    dsimp only
    generalize f a = u at hnext ⊢
    generalize g b = v at hnext ⊢
    cases hnext with
    | ok related => exact .ok related
    | error e => exact .error e _
    | first fails => exact .first fails
    | second fails => exact .second fails
  | error e ls => exact .error e ls
  | first fails => exact .first fails
  | second fails => exact .second fails

/-- Lists are gone through side by side, and what there is is kept. -/
theorem collect {f : α → Reading ε (Option α')} {g : β → Reading ε (Option α')}
    (hfg : ∀ a b, R a b → Parallel lost lost' (· = ·) (f a) (g b)) {as : List α} {bs : List β}
    (h : List.Forall₂ R as bs) :
    Parallel lost lost' (· = ·) (Reading.collect f as) (Reading.collect g bs) := by
  induction h with
  | nil => exact .refl _
  | cons related _ ih =>
    rw [Reading.collect, Reading.collect]
    refine (hfg _ _ related).bind fun found _ _ heq => ?_
    subst heq
    refine ih.bind fun more _ _ heq => ?_
    subst heq
    exact .refl _

/-- **The same reading,** or one that has a failure of its own. -/
theorem eq_or_lost {y : Reading ε α} (h : Parallel lost lost' (· = ·) x y) :
    y = x ∨ (∃ e, lost e ∧ x.answer = .error e) ∨ ∃ e, lost' e ∧ y.answer = .error e := by
  cases h with
  | ok related => exact .inl (by rw [related])
  | error e ls => exact .inl rfl
  | first fails => exact .inr (.inl ⟨_, fails, rfl⟩)
  | second fails => exact .inr (.inr ⟨_, fails, rfl⟩)

end Parallel

end Reading

/-- A failure of the store as the workspace puts it. -/
def StoreError.Raised (lost : StoreError → Prop) (e : WorkspaceError) : Prop :=
  ∃ e', lost e' ∧ e = .store e'

theorem Parallel.raised {lost lost' : StoreError → Prop} {x : Except StoreError α}
    {y : Except StoreError β} (h : Parallel lost lost' R x y) :
    Parallel (StoreError.Raised lost) (StoreError.Raised lost') R (x.mapError .store)
      (y.mapError .store) := by
  cases h with
  | ok related => exact .ok related
  | error e => exact .error _
  | first fails => exact .first ⟨_, fails, rfl⟩
  | second fails => exact .second ⟨_, fails, rfl⟩

/-- Where only the second outcome may have a failure of its own. -/
theorem Parallel.eq_or_raised {lost' : StoreError → Prop} {x y : Except WorkspaceError α}
    (h : Parallel (StoreError.Raised fun _ => False) (StoreError.Raised lost') (· = ·) x y) :
    y = x ∨ ∃ e, lost' e ∧ y = .error (.store e) := by
  obtain heq | ⟨_, ⟨_, never, -⟩, -⟩ | ⟨_, ⟨e, hlost, rfl⟩, hfails⟩ := h.eq_or_lost
  · exact .inl heq
  · exact never.elim
  · exact .inr ⟨e, hlost, hfails⟩

end Fieldbook
