import Fieldbook.Ownership.Governing

/-!
# Proofs/Ownership/Failures — how a computation may fail

Which failures a computation may end with is found out part by part: a compound one fails as one of
its parts does, and a demand on a resource as the walk from it does, or because it is refused.
-/

namespace Fieldbook

/-- Every failure is of one kind. -/
def FailsOnly {ε α : Type} (kind : ε → Prop) (x : Except ε α) : Prop :=
  ∀ e, x = .error e → kind e

namespace FailsOnly

variable {ε ε' α β : Type} {kind : ε → Prop} {kind' : ε' → Prop} {x : Except ε α}

theorem ok (a : α) : FailsOnly kind (.ok a : Except ε α) := fun _ h => nomatch h

theorem error {e : ε} (h : kind e) : FailsOnly kind (.error e : Except ε α) :=
  fun _ heq => Except.error.inj heq ▸ h

theorem bind {f : α → Except ε β} (hx : FailsOnly kind x)
    (hf : ∀ a, x = .ok a → FailsOnly kind (f a)) : FailsOnly kind (x.bind f) := by
  cases x with
  | error e => exact .error (hx e rfl)
  | ok a => exact hf a rfl

theorem map (hx : FailsOnly kind x) (f : α → β) : FailsOnly kind (x.map f) := by
  cases x with
  | error e => exact .error (hx e rfl)
  | ok a => exact .ok _

theorem mapError {f : ε → ε'} (hx : FailsOnly kind x) (hf : ∀ e, kind e → kind' (f e)) :
    FailsOnly kind' (x.mapError f) := by
  cases x with
  | error e => exact .error (hf e (hx e rfl))
  | ok a => exact .ok a

/-- A compound reading fails as one of its parts does. -/
theorem reading {r : Reading ε α} {f : α → Reading ε β} (hr : FailsOnly kind r.answer)
    (hf : ∀ a, r.answer = .ok a → FailsOnly kind (f a).answer) :
    FailsOnly kind (r >>= f).answer := by
  rw [Reading.answer_bind]
  exact hr.bind hf

/-- A collection fails as something in the list does. -/
theorem collect {f : α → Reading ε (Option β)} : ∀ {as : List α},
    (∀ a ∈ as, FailsOnly kind (f a).answer) → FailsOnly kind (Reading.collect f as).answer
  | [], _ => .ok _
  | _ :: _, hf => by
    obtain ⟨ha, hrest⟩ := List.forall_mem_cons.mp hf
    exact .reading ha fun _ _ => .reading (collect hrest) fun _ _ => .ok _

theorem mapM {f : α → Except ε β} : ∀ {as : List α},
    (∀ a ∈ as, FailsOnly kind (f a)) → FailsOnly kind (as.mapM f)
  | [], _ => .ok _
  | _ :: _, hf => by
    obtain ⟨ha, hrest⟩ := List.forall_mem_cons.mp hf
    rw [List.mapM_cons]
    exact ha.bind fun _ _ => (mapM hrest).bind fun _ _ => .ok _

end FailsOnly

/-- A collection fails at the first thing in the list that fails. -/
theorem Reading.collect_of_error {ε α β : Type} {f : α → Reading ε (Option β)} {a : α}
    {after : List α} {e : ε} (ha : (f a).answer = .error e) : ∀ {before : List α},
    (∀ a' ∈ before, ∃ b, (f a').answer = .ok b) →
      (collect f (before ++ a :: after)).answer = .error e
  | [], _ => by
    rw [List.nil_append, collect, answer_bind, ha]
    rfl
  | _ :: before, htold => by
    obtain ⟨⟨b, hb⟩, hrest⟩ := List.forall_mem_cons.mp htold
    rw [List.cons_append, collect, answer_bind, hb]
    change (collect f (before ++ a :: after) >>= _).answer = _
    rw [answer_bind, collect_of_error ha hrest]
    rfl

/-! ## Stores and demands -/

namespace FailsOnly

variable {α : Type} {kind : WorkspaceError → Prop} {s : Store} {p : Principal} {id : ResourceId}

theorem store (h : ∀ e, kind (.store e)) (x : Except StoreError α) :
    FailsOnly kind (x.mapError .store) := by
  cases x with
  | error e => exact .error (h e)
  | ok a => exact .ok a

theorem requireLive (h : FailsOnly kind (s.isDeleted id)) (hdeleted : kind (.deleted id)) :
    FailsOnly kind (s.requireLive id) := by
  refine h.bind fun dead _ => ?_
  cases dead with
  | true => exact .error hdeleted
  | false => exact .ok ()

variable (hrefused : ∀ p action id, kind (.unauthorized p action id))
include hrefused

theorem require (a : Authorization) (action : Action) (allowed : Bool) :
    FailsOnly kind (a.require action allowed) := by
  rw [Authorization.require]
  split
  · exact .ok ()
  · exact .error (hrefused ..)

theorem requireView (h : FailsOnly kind (s.authorize p id).answer) :
    FailsOnly kind (s.requireView p id).answer :=
  h.reading fun a _ => require hrefused a .view a.canView

theorem requireOwner (h : FailsOnly kind (s.authorize p id).answer) :
    FailsOnly kind (s.requireOwner p id).answer :=
  h.reading fun a _ => require hrefused a .manageAccess a.isOwner

end FailsOnly

end Fieldbook
