import Fieldbook.Proofs.FormTree.Following
import Fieldbook.Proofs.Ownership.Failures

/-!
# Proofs/FormTree/Failing — how the building of a tree may fail

A tree fails to be built as its source fails, because a field leads where it cannot, or because there
is no root form.  So what all of these failures have in common, every failure has (`failsOnly_build`).

That is found out part by part, as other things are that hold of a compound building if they hold of
its parts: then they hold of the nodes of a form (`Compounds.formNodes`).
-/

namespace Fieldbook

/-- The failures of a source are of one kind, and so are those of a field that leads where it
cannot. -/
structure FormSource.FailsOnly (source : FormSource) (kind : WorkspaceError → Prop) : Prop where
  form : ∀ id, Fieldbook.FailsOnly kind (source.form? id).answer
  deleted : ∀ id form, (source.form? id).answer = .ok (some form) →
    Fieldbook.FailsOnly kind (source.isDeleted id)
  missing : ∀ field form target, kind (.consistency (.missingForm field form target))
  cyclic : ∀ target, kind (.cyclicForm target)
  deep : ∀ target limit, kind (.tooDeep target limit)

namespace FormTree

variable {α β : Type} {kind : WorkspaceError → Prop} {source : FormSource} {m : Build α}

/-! ## Buildings part by part -/

/-- It holds of a building that is put together from others of which it holds. -/
structure Compounds (P : ∀ α : Type, Build α → Prop) : Prop where
  pure {α : Type} (a : α) : P α (pure a)
  bind {α β : Type} {m : Build α} {f : α → Build β} :
    P α m → (∀ a, P β (f a)) → P β (m >>= f)

theorem Compounds.mapM {P : ∀ α : Type, Build α → Prop} (h : Compounds P) {f : α → Build β}
    (hf : ∀ a, P β (f a)) : ∀ as : List α, P (List β) (as.mapM f)
  | [] => by
    rw [List.mapM_nil]
    exact h.pure []
  | a :: as => by
    rw [List.mapM_cons]
    exact h.bind (hf a) fun b => h.bind (mapM h hf as) fun bs => h.pure (b :: bs)

/-- **The nodes of a form** are put together from what is found under fields that lead out of the
forms being expanded. -/
theorem Compounds.formNodes {P : ∀ α : Type, Build α → Prop} (h : Compounds P) {descent : Descent}
    {path : List ResourceId} {form : Form}
    (hcyclic : ∀ target, P (List FieldNode) (refuse (.cyclicForm target)))
    (hdescent : ∀ field, ∀ target ∉ path, P (List FieldNode) (descent path form field target)) :
    P (List FieldNode) (formNodes descent path form) := by
  refine h.mapM (fun field => ?_) form.fields
  refine h.bind (h.mapM (fun target => ?_) _) fun children => h.pure _
  rw [targetNodes]
  split
  · split
    · exact hcyclic target
    · exact h.pure _
  · next hpath => exact hdescent field target hpath

/-! ## Failures -/

/-- The failures of a building are of one kind, whatever has been fetched. -/
def Fails (kind : WorkspaceError → Prop) (m : Build α) : Prop :=
  ∀ fetched, FailsOnly kind (m fetched).answer

theorem fails_pure (a : α) : Fails kind (pure a) := fun _ => .ok _

theorem fails_refuse {e : WorkspaceError} (h : kind e) : Fails kind (refuse e : Build α) :=
  fun _ => .error h

theorem Fails.bind {f : α → Build β} (hm : Fails kind m) (hf : ∀ a, Fails kind (f a)) :
    Fails kind (m >>= f) :=
  fun fetched => .reading (hm fetched) fun x _ => hf x.1 x.2

theorem compounds_fails : Compounds fun _ m => Fails kind m where
  pure := fails_pure
  bind := Fails.bind

theorem fails_fetch (h : source.FailsOnly kind) (form : Form) (field : FormField)
    (target : ResourceId) : Fails kind (fetch source form field target) := by
  refine Fails.bind (fun fetched => .ok (fetched, fetched)) fun fetched => ?_
  cases fetched.lookup target with
  | some known => exact fails_pure known
  | none =>
    intro fetched
    dsimp only
    rw [lift_bind]
    have hask : (source.ask target).answer = (source.form? target).answer := rfl
    refine .reading (hask ▸ h.form target) fun found hfound => ?_
    cases found with
    | none => exact .error (h.missing ..)
    | some f =>
      dsimp only
      rw [lift_bind]
      exact .reading (h.deleted target f (hask ▸ hfound)) fun _ _ => .ok _

theorem fails_descend (h : source.FailsOnly kind) (limit : Nat) :
    ∀ (depth : Nat) (path : List ResourceId) (form : Form) (field : FormField)
      (target : ResourceId), Fails kind (descend source limit depth path form field target)
  | 0, _, _, _, target => fails_refuse (h.deep target limit)
  | depth + 1, path, form, field, target => by
    refine (fails_fetch h form field target).bind fun found => ?_
    cases found with
    | none => exact fails_pure []
    | some found =>
      exact compounds_fails.formNodes (fun target => fails_refuse (h.cyclic target))
        fun field target' _ => fails_descend h limit depth (target :: path) found field target'

/-- **A tree fails to be built** as its source does, or for want of its root form. -/
theorem failsOnly_build (h : source.FailsOnly kind) {root : ResourceId}
    (hroot : (source.form? root).answer = .ok none → kind (.notFound root)) (limit : Nat) :
    FailsOnly kind (build source limit root).answer := by
  have hask : (source.ask root).answer = (source.form? root).answer := rfl
  refine .reading (hask ▸ h.form root) fun found hfound => ?_
  cases found with
  | none => exact .error (hroot (hask ▸ hfound))
  | some form =>
    have hnodes : Fails kind (formNodes (descend source limit limit) [form.id] form) :=
      compounds_fails.formNodes (fun target => fails_refuse (h.cyclic target))
        fun field target _ => fails_descend h limit limit [form.id] form field target
    exact .reading (hnodes []) fun _ _ => .ok _

end FormTree

end Fieldbook
