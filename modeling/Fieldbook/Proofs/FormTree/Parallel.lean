import Fieldbook.Proofs.FormTree.Following
import Fieldbook.Proofs.Store.Parallel

/-!
# Proofs/FormTree/Parallel — trees side by side

From two sources that are asked side by side trees are built side by side (`parallel_build`): the
same tree, with the same lookups, or the same failure, unless one source fails as the other does not.
-/

namespace Fieldbook

/-- Two sources that are asked side by side. -/
structure FormSource.Parallel (lost lost' : WorkspaceError → Prop) (source source' : FormSource) :
    Prop where
  form : ∀ id, Reading.Parallel lost lost' (· = ·) (source.form? id) (source'.form? id)
  deleted : ∀ id, Fieldbook.Parallel lost lost' (· = ·) (source.isDeleted id) (source'.isDeleted id)

namespace FormTree

variable {α β : Type} {lost lost' : WorkspaceError → Prop} {source source' : FormSource}

/-- Building goes on side by side, whatever forms have been fetched. -/
def ParallelAll (lost lost' : WorkspaceError → Prop) (m m' : Build α) : Prop :=
  ∀ fetched, Reading.Parallel lost lost' (· = ·) (m fetched) (m' fetched)

theorem ParallelAll.bind {m m' : Build α} {f g : α → Build β} (hm : ParallelAll lost lost' m m')
    (hf : ∀ a, ParallelAll lost lost' (f a) (g a)) : ParallelAll lost lost' (m >>= f) (m' >>= g) := by
  refine fun fetched => (hm fetched).bind fun x _ _ heq => ?_
  subst heq
  exact hf x.1 x.2

theorem joins_parallelAll : Joins fun _ m m' => ParallelAll lost lost' m m' where
  pure _ _ := .refl _
  refuse _ _ := .refl _
  bind := ParallelAll.bind

theorem parallel_ask (h : source.Parallel lost lost' source') (id : ResourceId) :
    Reading.Parallel lost lost' (· = ·) (source.ask id) (source'.ask id) :=
  (Reading.Parallel.refl (Reading.note (.form id))).bind fun _ _ _ _ => h.form id

theorem parallel_fetch (h : source.Parallel lost lost' source') (form : Form) (field : FormField)
    (target : ResourceId) :
    ParallelAll lost lost' (fetch source form field target) (fetch source' form field target) := by
  refine ParallelAll.bind (fun fetched => .refl _) fun fetched => ?_
  cases fetched.lookup target with
  | some known => exact fun _ => .refl _
  | none =>
    intro fetched
    dsimp only
    rw [lift_bind, lift_bind]
    refine (parallel_ask h target).bind fun found _ _ heq => ?_
    subst heq
    cases found with
    | none => exact .refl _
    | some found =>
      dsimp only
      rw [lift_bind, lift_bind]
      refine (Reading.Parallel.ofExcept (h.deleted target)).bind fun deleted _ _ heq => ?_
      subst heq
      exact .refl _

/-- **Trees are built side by side** from sources that are asked side by side. -/
theorem parallel_build (h : source.Parallel lost lost' source') (limit : Nat) (root : ResourceId) :
    Reading.Parallel lost lost' (· = ·) (build source limit root) (build source' limit root) := by
  refine (parallel_ask h root).bind fun found _ _ heq => ?_
  subst heq
  cases found with
  | none => exact .refl _
  | some form =>
    have hnodes := joins_parallelAll.formNodes
      (joins_parallelAll.descend (parallel_fetch h) limit limit) [form.id] form
    refine (hnodes []).bind fun x _ _ heq => ?_
    subst heq
    exact .refl _

end FormTree

end Fieldbook
