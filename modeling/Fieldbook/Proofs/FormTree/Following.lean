import Fieldbook.FormTree.Building

/-!
# Proofs/FormTree/Following — the tree of a form when one form is closed

A tree is built by asking for forms one after another, each once, and the lookups of the reading
tell which.  Suppose that another source gives the same forms but for one, `k`, which it does not
give.  Then a tree that was built without `k` is built by it as before, and no tree is built that had
asked for `k` (`follows_build`).  Up to the first question for `k` the two readings are the same, and
from there on the second has failed: that is what it is for one reading to follow another
(`Reading.Follows`), and sequences of readings follow each other part by part (`Follows.bind`).

Two trees are built side by side from two sources, field by field and form by form.  What holds of
two buildings if it holds of their parts, then holds of the trees if it holds where a form is fetched
(`Joins.descend`).
-/

namespace Fieldbook

/-! ## Readings that follow each other -/

namespace Reading

variable {ε α β : Type} {k : ResourceId} {x y : Reading ε α} {f g : α → Reading ε β}

/-- `y` answers what `x` does, unless `x` has asked for the form `k`; then `y` fails. -/
def Follows (k : ResourceId) (x y : Reading ε α) : Prop :=
  ∀ a, x.answer = .ok a → (Lookup.form k ∉ x.lookups → y.answer = .ok a) ∧
    (Lookup.form k ∈ x.lookups → ∃ e, y.answer = .error e)

theorem lookups_bind {a : α} (h : x.answer = .ok a) :
    (x >>= f).lookups = x.lookups ++ (f a).lookups := by
  change (Reading.bind x f).lookups = _
  rw [Reading.bind, h]

/-- What a compound reading has looked up, one of its parts has. -/
theorem mem_lookups_bind {l : Lookup} (h : l ∈ (x >>= f).lookups) :
    l ∈ x.lookups ∨ ∃ a, l ∈ (f a).lookups := by
  cases hx : x.answer with
  | error e =>
    change l ∈ (Reading.bind x f).lookups at h
    rw [Reading.bind, hx] at h
    exact .inl h
  | ok a =>
    rw [lookups_bind hx] at h
    exact (List.mem_append.mp h).imp_right fun h => ⟨a, h⟩

/-- A reading that asks for no form is followed by one with the same answer. -/
theorem follows_of_answer (hl : Lookup.form k ∉ x.lookups)
    (h : ∀ a, x.answer = .ok a → y.answer = .ok a) : Follows k x y :=
  fun a ha => ⟨fun _ => h a ha, fun hk => absurd hk hl⟩

theorem follows_pure (a : α) : Follows k (pure a : Reading ε α) (pure a) :=
  follows_of_answer List.not_mem_nil fun _ h => h

/-- What fails is followed by anything. -/
theorem follows_of_error {e : ε} (h : x.answer = .error e) : Follows k x y :=
  fun _ ha => nomatch h.symm.trans ha

/-- **Compound readings follow each other part by part.** -/
theorem Follows.bind (hx : Follows k x y) (hf : ∀ a, Follows k (f a) (g a)) :
    Follows k (x >>= f) (y >>= g) := by
  intro b hb
  obtain ⟨a, ha, hb'⟩ : ∃ a, x.answer = .ok a ∧ (f a).answer = .ok b := by
    rw [answer_bind] at hb
    cases hxa : x.answer with
    | error e => simp [hxa, Except.bind] at hb
    | ok a => exact ⟨a, rfl, by simpa [hxa, Except.bind] using hb⟩
  obtain ⟨hsame, hfail⟩ := hx a ha
  obtain ⟨hsame', hfail'⟩ := hf a b hb'
  rw [lookups_bind ha, answer_bind, List.mem_append]
  constructor
  · intro hk
    obtain ⟨hk, hk'⟩ := not_or.mp hk
    rw [hsame hk, Except.bind, hsame' hk']
  · intro hk
    by_cases hk' : Lookup.form k ∈ x.lookups
    · obtain ⟨e, he⟩ := hfail hk'
      exact ⟨e, by rw [he]; rfl⟩
    · rw [hsame hk', Except.bind]
      exact hfail' (hk.resolve_left hk')

end Reading

open Reading (Follows)

/-! ## Sources -/

namespace FormSource

variable {source source' : FormSource} {k id : ResourceId} {β : Type}

/-- The other source gives the same forms but for `k`, which it does not give. -/
structure Closes (k : ResourceId) (source source' : FormSource) : Prop where
  same : ∀ id, id ≠ k → ∀ a, (source.form? id).answer = .ok a → (source'.form? id).answer = .ok a
  unasked : ∀ id, Lookup.form k ∉ (source.form? id).lookups
  deleted : ∀ id b, source.isDeleted id = .ok b → source'.isDeleted id = .ok b
  closed : ∀ form, (source'.form? k).answer ≠ .ok (some form)

/-- **A question for a form** that has to be there. -/
theorem Closes.follows_ask (h : Closes k source source')
    {f g : Option Form → Reading WorkspaceError β} {e e' : WorkspaceError}
    (hf : (f none).answer = .error e) (hg : (g none).answer = .error e')
    (hsome : ∀ form, Follows k (f (some form)) (g (some form))) :
    Follows k (source.ask id >>= f) (source'.ask id >>= g) := by
  by_cases hid : id = k
  · subst hid
    intro b hb
    have hasked : Lookup.form id ∈ (source.ask id >>= f).lookups := by
      cases hask : (source.ask id).answer with
      | error e => simp [hask, Except.bind] at hb
      | ok a =>
        rw [Reading.lookups_bind hask]
        exact List.mem_append_left _ List.mem_cons_self
    refine ⟨fun hk => absurd hasked hk, fun _ => ?_⟩
    have hanswer : (source'.ask id).answer = (source'.form? id).answer := rfl
    rw [Reading.answer_bind, hanswer]
    cases hform : (source'.form? id).answer with
    | error e => exact ⟨e, rfl⟩
    | ok found =>
      cases found with
      | none => exact ⟨e', hg⟩
      | some form => exact absurd hform (h.closed form)
  · have hasked : Lookup.form k ∉ (source.ask id).lookups := by
      change Lookup.form k ∉ [Lookup.form id] ++ (source.form? id).lookups
      rw [List.mem_append, List.mem_singleton]
      rintro (heq | hmem)
      · exact hid (Lookup.form.inj heq).symm
      · exact h.unasked id hmem
    have hask : Follows k (source.ask id) (source'.ask id) :=
      Reading.follows_of_answer hasked (h.same id hid)
    refine hask.bind fun found => ?_
    cases found with
    | none => exact Reading.follows_of_error hf
    | some form => exact hsome form

end FormSource

/-! ## Trees -/

namespace FormTree

variable {α β : Type} {k : ResourceId} {source source' : FormSource}

/-- A reading within a building. -/
theorem lift_bind (x : Reading WorkspaceError α) (f : α → Build β) (fetched : Fetched) :
    ((x : Build α) >>= f) fetched = x >>= fun a => f a fetched := by
  change (x >>= fun a => pure (a, fetched)) >>= (fun y => f y.1 y.2) = _
  rw [bind_assoc]
  simp only [pure_bind]

/-- It holds of two buildings that are put together alike from parts of which it holds. -/
structure Joins (P : ∀ α : Type, Build α → Build α → Prop) : Prop where
  pure {α : Type} (a : α) : P α (pure a) (pure a)
  refuse {α : Type} (e : WorkspaceError) : P α (refuse e) (refuse e)
  bind {α β : Type} {m m' : Build α} {f g : α → Build β} :
    P α m m' → (∀ a, P β (f a) (g a)) → P β (m >>= f) (m' >>= g)

namespace Joins

variable {P : ∀ α : Type, Build α → Build α → Prop} (h : Joins P)
include h

theorem mapM {f g : α → Build β} (hf : ∀ a, P β (f a) (g a)) :
    ∀ as : List α, P (List β) (as.mapM f) (as.mapM g)
  | [] => by
    rw [List.mapM_nil, List.mapM_nil]
    exact h.pure []
  | a :: as => by
    rw [List.mapM_cons, List.mapM_cons]
    refine h.bind (hf a) fun b => ?_
    exact h.bind (mapM hf as) fun bs => h.pure (b :: bs)

/-- The nodes of a form are put together alike, when those are that stand in every form further
down. -/
theorem formNodes {descent descent' : Descent}
    (hdescent : ∀ path form field target,
      P (List FieldNode) (descent path form field target) (descent' path form field target))
    (path : List ResourceId) (form : Form) :
    P (List FieldNode) (formNodes descent path form) (formNodes descent' path form) := by
  refine h.mapM (fun field => ?_) form.fields
  refine h.bind (h.mapM (fun target => ?_) _) fun children => h.pure _
  rw [targetNodes, targetNodes]
  split
  · split
    · exact h.refuse _
    · exact h.pure _
  · exact hdescent path form field target

/-- **Going down from two sources** is put together alike, when fetching a form is. -/
theorem descend (hfetch : ∀ form field target,
      P (Option Form) (fetch source form field target) (fetch source' form field target))
    (limit : Nat) : ∀ (depth : Nat) (path : List ResourceId) (form : Form) (field : FormField)
      (target : ResourceId), P (List FieldNode) (descend source limit depth path form field target)
        (descend source' limit depth path form field target)
  | 0, _, _, _, _ => h.refuse _
  | depth + 1, path, form, field, target => by
    refine h.bind (hfetch form field target) fun found => ?_
    cases found with
    | none => exact h.pure []
    | some found => exact h.formNodes (descend hfetch limit depth) (target :: path) found

end Joins

/-- Building follows building, whatever forms have been fetched. -/
def FollowsAll (k : ResourceId) (m m' : Build α) : Prop := ∀ fetched, Follows k (m fetched) (m' fetched)

theorem FollowsAll.bind {m m' : Build α} {f g : α → Build β} (hm : FollowsAll k m m')
    (hf : ∀ a, FollowsAll k (f a) (g a)) : FollowsAll k (m >>= f) (m' >>= g) :=
  fun fetched => (hm fetched).bind fun x => hf x.1 x.2

theorem followsAll_pure (a : α) : FollowsAll k (pure a) (pure a) :=
  fun fetched => Reading.follows_pure (a, fetched)

theorem joins_followsAll : Joins fun _ m m' => FollowsAll k m m' where
  pure := followsAll_pure
  refuse _ _ := Reading.follows_of_error rfl
  bind := FollowsAll.bind

/-- **Fetching a form** follows fetching it from the other source. -/
theorem follows_fetch (h : FormSource.Closes k source source') (form : Form) (field : FormField)
    (target : ResourceId) :
    FollowsAll k (fetch source form field target) (fetch source' form field target) := by
  refine FollowsAll.bind (fun fetched => Reading.follows_pure (fetched, fetched)) fun fetched => ?_
  cases fetched.lookup target with
  | some known => exact followsAll_pure known
  | none =>
    intro fetched
    dsimp only
    rw [lift_bind, lift_bind]
    refine h.follows_ask rfl rfl fun found => ?_
    dsimp only
    rw [lift_bind, lift_bind]
    refine Follows.bind ?_ fun deleted => Reading.follows_pure _
    exact Reading.follows_of_answer List.not_mem_nil (h.deleted target)

/-- **A tree that is built without the closed form is built as before,** and no other is built. -/
theorem follows_build (h : FormSource.Closes k source source') (limit : Nat) (root : ResourceId) :
    Follows k (build source limit root) (build source' limit root) := by
  refine h.follows_ask rfl rfl fun form => ?_
  have hnodes := joins_followsAll.formNodes
    (joins_followsAll.descend (follows_fetch h) limit limit) [form.id] form
  exact (hnodes []).bind fun x => Reading.follows_pure _

/-- A tree that is built has asked for its root form, which is there. -/
theorem asked_of_build {limit : Nat} {root : ResourceId} {tree : FormTree}
    (h : (build source limit root).answer = .ok tree) :
    Lookup.form root ∈ (build source limit root).lookups ∧
      ∃ form, (source.form? root).answer = .ok (some form) := by
  have hanswer : (source.ask root).answer = (source.form? root).answer := rfl
  cases hask : (source.ask root).answer with
  | error e => simp [build, hask, Except.bind] at h
  | ok found =>
    constructor
    · rw [build, Reading.lookups_bind hask]
      exact List.mem_append_left _ List.mem_cons_self
    · cases found with
      | none => simp [build, hask, Except.bind] at h
      | some form => exact ⟨form, hanswer.symm.trans hask⟩

end FormTree

end Fieldbook
