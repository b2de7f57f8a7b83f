import Fieldbook.Proofs.FormTree.Failing
import Fieldbook.Proofs.FormTree.Shape

/-!
# Proofs/FormTree/Afresh — a tree that asks for every form anew

What has been fetched is kept so that no form is asked for twice.  Without that, a form would be asked
for wherever a field leads to it (`nodesAfresh`), and the tree would be the same, or fail in the same
way (`answer_build`).  What has been fetched is then what asking again would say (`Remembers`), and a
building that starts from there comes to what the recursion that keeps nothing does (`Mirrors`).

So how a tree fails to be built is told by what holds of the forms on the way down (`Carries`).

Each form is asked for once at most, also if the tree is not built: a step asks for forms that have not
been asked for, and what it asks for it keeps unless it fails (`AsksNew`).
-/

namespace Fieldbook

/-- A form has the name that it is given by, and giving it asks for no form. -/
structure FormSource.Steady (source : FormSource) : Prop where
  named : ∀ id form, (source.form? id).answer = .ok (some form) → form.id = id
  unasked : ∀ id k, Lookup.form k ∉ (source.form? id).lookups

/-- Forms that are listed are given under their own names. -/
theorem FormSource.steady_ofList (forms : List Form) (deleted : List ResourceId) :
    (ofList (forms.map fun f => (f.id, f)) deleted).Steady where
  named _ _ h := FormTree.id_of_lookup (Except.ok.inj h)
  unasked _ _ := List.not_mem_nil

namespace Reading

variable {ε α β : Type} {x : Reading ε α} {f : α → Reading ε β}

theorem lookups_bind_error {e : ε} (h : x.answer = .error e) :
    (x >>= f).lookups = x.lookups := by
  change (Reading.bind x f).lookups = _
  rw [Reading.bind, h]

/-- What looks nothing up adds nothing to the lookups. -/
theorem lookups_bind_nil (h : ∀ a, (f a).lookups = []) : (x >>= f).lookups = x.lookups := by
  cases hx : x.answer with
  | error e => exact lookups_bind_error hx
  | ok a => rw [lookups_bind hx, h, List.append_nil]

end Reading

namespace FormTree

variable {α β : Type} {source : FormSource} {limit : Nat} {root target : ResourceId}
  {fetched : Fetched}

/-! ## The tree without anything kept -/

/-- What the source says of a form that a field leads to: the form, nothing if it is deleted. -/
def afresh (source : FormSource) (form : Form) (field : FormField) (target : ResourceId) :
    Except WorkspaceError (Option Form) := do
  match ← (source.form? target).answer with
  | none => .error (.consistency (.missingForm field.id form.id target))
  | some found => do
    let deleted ← source.isDeleted target
    pure (if deleted then none else some found)

mutual

/-- The nodes of the fields of a form, given the forms being expanded. -/
def nodesAfresh (source : FormSource) (limit : Nat) (path : List ResourceId) (form : Form) :
    Except WorkspaceError (List FieldNode) :=
  form.fields.mapM fun field => do
    let children ← field.type.range.toList.mapM fun target =>
      targetAfresh source limit path form field target
    pure (.node form.id field false children.flatten)
termination_by (limit + 1 - path.length, 1)

/-- The nodes that a field of a form finds in one of the forms in its range. -/
def targetAfresh (source : FormSource) (limit : Nat) (path : List ResourceId) (form : Form)
    (field : FormField) (target : ResourceId) : Except WorkspaceError (List FieldNode) :=
  if target ∈ path then
    if field.type.isEmbedded then .error (.cyclicForm target) else pure []
  else if limit < path.length then .error (.tooDeep target limit)
  else do
    match ← afresh source form field target with
    | none => pure []
    | some found => nodesAfresh source limit (target :: path) found
termination_by (limit + 1 - path.length, 0)

end

/-- The tree of a form, from a source that is asked wherever a field leads to a form. -/
def buildAfresh (source : FormSource) (limit : Nat) (root : ResourceId) :
    Except WorkspaceError FormTree := do
  match ← (source.form? root).answer with
  | none => .error (.notFound root)
  | some form => do
    let nodes ← nodesAfresh source limit [form.id] form
    pure ⟨form, intrinsicNodes form.id ++ nodes⟩

/-! ## Fetching -/

/-- What is read of what has been fetched is all of it. -/
theorem get_bind (f : Fetched → Build α) (fetched : Fetched) :
    ((get : Build Fetched) >>= f) fetched = f fetched fetched := rfl

theorem fetch_of_known {known : Option Form} (form : Form) (field : FormField)
    (h : fetched.lookup target = some known) :
    fetch source form field target fetched = pure (known, fetched) := by
  rw [fetch, get_bind]
  simp only [h]
  rfl

/-- A form that has not been fetched is asked for, and kept. -/
theorem fetch_of_new (form : Form) (field : FormField) (h : fetched.lookup target = none) :
    fetch source form field target fetched = (do
      match ← source.ask target with
      | none => .fail (.consistency (.missingForm field.id form.id target))
      | some found =>
        let deleted ← Reading.ofExcept (source.isDeleted target)
        let answer := if deleted then none else some found
        pure (answer, (target, answer) :: fetched)) := by
  rw [fetch, get_bind]
  simp only [h]
  rw [lift_bind]
  refine congrArg (source.ask target >>= ·) (funext fun found => ?_)
  cases found with
  | none => rfl
  | some found => exact lift_bind _ _ _

/-- The source says that a form is there, deleted or not, whichever field leads to it. -/
theorem afresh_ok_iff {form : Form} {field : FormField} {known : Option Form} :
    afresh source form field target = .ok known ↔
      ∃ found deleted, (source.form? target).answer = .ok (some found) ∧
        source.isDeleted target = .ok deleted ∧ known = if deleted then none else some found := by
  rw [afresh]
  constructor
  · intro h
    rcases hfound : (source.form? target).answer with _ | (_ | found)
    · rw [hfound] at h
      cases h
    · rw [hfound] at h
      cases h
    · rw [hfound] at h
      rcases hdeleted : source.isDeleted target with _ | deleted
      · rw [hdeleted] at h
        cases h
      · rw [hdeleted] at h
        exact ⟨found, deleted, rfl, rfl, (Except.ok.inj h).symm⟩
  · rintro ⟨found, deleted, hfound, hdeleted, rfl⟩
    rw [hfound, hdeleted]
    rfl

/-- It fails as the source fails, or for want of the form. -/
theorem failsOnly_afresh {kind : WorkspaceError → Prop} {form : Form} {field : FormField}
    (hform : FailsOnly kind (source.form? target).answer)
    (hmissing : kind (.consistency (.missingForm field.id form.id target)))
    (hdeleted : FailsOnly kind (source.isDeleted target)) :
    FailsOnly kind (afresh source form field target) := by
  refine FailsOnly.bind hform fun found _ => ?_
  cases found with
  | none => exact .error hmissing
  | some found => exact .bind hdeleted fun _ _ => .ok _

/-- A form that is fetched for the first time is the one that the source gives. -/
theorem answer_fetch_of_new (form : Form) (field : FormField) (h : fetched.lookup target = none) :
    (fetch source form field target fetched).answer =
      (afresh source form field target).map fun known => (known, (target, known) :: fetched) := by
  have hask : (source.ask target).answer = (source.form? target).answer := rfl
  rw [fetch_of_new form field h, afresh, Reading.answer_bind, hask]
  rcases (source.form? target).answer with _ | (_ | found)
  · rfl
  · rfl
  · cases source.isDeleted target <;> rfl

/-! ## What is kept makes no difference -/

/-- What has been fetched is what asking again would say. -/
def Remembers (source : FormSource) (fetched : Fetched) : Prop :=
  ∀ target known, fetched.lookup target = some known →
    ∀ form field, afresh source form field target = .ok known

theorem Remembers.cons {form : Form} {field : FormField} {known : Option Form}
    (h : Remembers source fetched) (hknown : afresh source form field target = .ok known) :
    Remembers source ((target, known) :: fetched) := by
  intro id answer hid form' field'
  rw [List.lookup_cons] at hid
  split at hid
  · next heq =>
    obtain rfl := Option.some.inj hid
    rw [eq_of_beq heq]
    exact afresh_ok_iff.mpr (afresh_ok_iff.mp hknown)
  · exact h id answer hid form' field'

/-- From what the source would say again, the building comes to `x`, and keeps nothing else. -/
def Mirrors (source : FormSource) (m : Build α) (x : Except WorkspaceError α) : Prop :=
  ∀ fetched, Remembers source fetched →
    (m fetched).answer.map Prod.fst = x ∧ ∀ y, (m fetched).answer = .ok y → Remembers source y.2

theorem mirrors_pure (a : α) : Mirrors source (pure a) (pure a) :=
  fun _ hfetched => ⟨rfl, fun _ hy => Except.ok.inj hy ▸ hfetched⟩

theorem mirrors_refuse (e : WorkspaceError) : Mirrors source (refuse e : Build α) (.error e) :=
  fun _ _ => ⟨rfl, fun _ hy => nomatch hy⟩

/-- **Steps compound.** -/
theorem Mirrors.bind {m : Build α} {x : Except WorkspaceError α} {f : α → Build β}
    {g : α → Except WorkspaceError β} (hm : Mirrors source m x)
    (hf : ∀ a, Mirrors source (f a) (g a)) : Mirrors source (m >>= f) (x >>= g) := by
  intro fetched hfetched
  obtain ⟨rfl, hkeeps⟩ := hm fetched hfetched
  change (m fetched >>= fun y => f y.1 y.2).answer.map Prod.fst = _ ∧
    ∀ z, (m fetched >>= fun y => f y.1 y.2).answer = .ok z → Remembers source z.2
  rw [Reading.answer_bind]
  rcases hy : (m fetched).answer with e | y
  · exact ⟨rfl, fun z hz => nomatch hz⟩
  · exact hf y.1 y.2 (hkeeps y hy)

theorem Mirrors.mapM {f : α → Build β} {g : α → Except WorkspaceError β}
    (hf : ∀ a, Mirrors source (f a) (g a)) :
    ∀ as : List α, Mirrors source (as.mapM f) (as.mapM g)
  | [] => by
    rw [List.mapM_nil, List.mapM_nil]
    exact mirrors_pure []
  | a :: as => by
    rw [List.mapM_cons, List.mapM_cons]
    exact (hf a).bind fun b => (mapM hf as).bind fun bs => mirrors_pure (b :: bs)

/-- **Fetching a form** comes to what asking for it does. -/
theorem mirrors_fetch (form : Form) (field : FormField) (target : ResourceId) :
    Mirrors source (fetch source form field target) (afresh source form field target) := by
  intro fetched hfetched
  cases hlookup : fetched.lookup target with
  | some known =>
    rw [fetch_of_known form field hlookup, hfetched target known hlookup form field]
    exact ⟨rfl, fun _ hy => Except.ok.inj hy ▸ hfetched⟩
  | none =>
    rw [answer_fetch_of_new form field hlookup]
    cases hanswer : afresh source form field target with
    | error e => exact ⟨rfl, fun _ hy => nomatch hy⟩
    | ok known => exact ⟨rfl, fun _ hy => Except.ok.inj hy ▸ hfetched.cons hanswer⟩

/-- A form mirrors, if every field that leads out of the forms being expanded does. -/
theorem mirrors_formNodes {descent : Descent} {path : List ResourceId} {form : Form}
    (hdescent : ∀ field, ∀ target ∉ path, Mirrors source (descent path form field target)
      (targetAfresh source limit path form field target)) :
    Mirrors source (formNodes descent path form) (nodesAfresh source limit path form) := by
  rw [nodesAfresh]
  refine Mirrors.mapM (fun field => ?_) form.fields
  refine Mirrors.bind (Mirrors.mapM (fun target => ?_) _) fun children => mirrors_pure _
  by_cases hpath : target ∈ path
  · rw [targetNodes, targetAfresh, if_pos hpath, if_pos hpath]
    split
    · exact mirrors_refuse _
    · exact mirrors_pure _
  · rw [targetNodes, if_neg hpath]
    exact hdescent field target hpath

/-- **A descent** comes to what the recursion does that is as deep already. -/
theorem mirrors_descend : ∀ (depth : Nat) (path : List ResourceId),
    path.length + depth = limit + 1 → ∀ (form : Form) (field : FormField), ∀ target ∉ path,
      Mirrors source (descend source limit depth path form field target)
        (targetAfresh source limit path form field target)
  | 0, path, hlength, form, field, target, hpath => by
    rw [targetAfresh, if_neg hpath, if_pos (by omega)]
    exact mirrors_refuse _
  | depth + 1, path, hlength, form, field, target, hpath => by
    rw [targetAfresh, if_neg hpath, if_neg (by omega)]
    refine (mirrors_fetch form field target).bind fun known => ?_
    cases known with
    | none => exact mirrors_pure []
    | some found =>
      have hlonger : (target :: path).length + depth = limit + 1 := by
        rw [List.length_cons]
        omega
      exact mirrors_formNodes (mirrors_descend depth (target :: path) hlonger found)

/-- **What is kept makes no difference** to the tree or to how it fails to be built. -/
theorem answer_build (source : FormSource) (limit : Nat) (root : ResourceId) :
    (build source limit root).answer = buildAfresh source limit root := by
  have hask : (source.ask root).answer = (source.form? root).answer := rfl
  rw [build, buildAfresh, Reading.answer_bind, hask]
  rcases (source.form? root).answer with _ | (_ | form)
  · rfl
  · rfl
  · have hempty : Remembers source [] := fun _ _ h => by simp at h
    have hmirrors : Mirrors source (formNodes (descend source limit limit) [form.id] form)
        (nodesAfresh source limit [form.id] form) :=
      mirrors_formNodes (mirrors_descend limit [form.id] (Nat.add_comm 1 limit) form)
    obtain ⟨hnodes, -⟩ := hmirrors [] hempty
    change ((formNodes (descend source limit limit) [form.id] form []) >>= fun x => pure
      (⟨form, intrinsicNodes form.id ++ x.1⟩ : FormTree)).answer =
        (nodesAfresh source limit [form.id] form).map fun nodes =>
          ⟨form, intrinsicNodes form.id ++ nodes⟩
    rw [Reading.answer_bind, ← hnodes]
    cases (formNodes (descend source limit limit) [form.id] form []).answer <;> rfl

/-! ## Going down -/

/-- What holds of the forms being expanded, from the root form down, and how a tree fails to be built
where it holds: as the source fails, where a field embeds a form that is being expanded, or where it
leads too deep. -/
structure Carries (source : FormSource) (limit : Nat) (holds : List ResourceId → Form → Prop)
    (kind : WorkspaceError → Prop) : Prop where
  failing : ∀ form field target, FailsOnly kind (afresh source form field target)
  cyclic {path : List ResourceId} {form : Form} {field : FormField} {target : ResourceId} :
    holds path form → field ∈ form.fields → field.type.isEmbedded →
      target ∈ field.type.range.toList → target ∈ path → kind (.cyclicForm target)
  deep {path : List ResourceId} {form : Form} {field : FormField} {target : ResourceId} :
    holds path form → field ∈ form.fields → target ∈ field.type.range.toList → target ∉ path →
      limit < path.length → kind (.tooDeep target limit)
  step {path : List ResourceId} {form found : Form} {field : FormField} {target : ResourceId} :
    holds path form → field ∈ form.fields → target ∈ field.type.range.toList → target ∉ path →
      ¬limit < path.length → afresh source form field target = .ok (some found) →
        holds (target :: path) found

-- The induction is on how many more forms the limit allows.
theorem Carries.nodesAfresh {holds : List ResourceId → Form → Prop} {kind : WorkspaceError → Prop}
    (h : Carries source limit holds kind) (path : List ResourceId) (form : Form)
    (hholds : holds path form) : FailsOnly kind (nodesAfresh source limit path form) := by
  rw [FormTree.nodesAfresh]
  refine FailsOnly.mapM fun field hfield => ?_
  refine FailsOnly.bind (FailsOnly.mapM fun target htarget => ?_) fun children _ => .ok _
  rw [targetAfresh]
  by_cases hpath : target ∈ path
  · rw [if_pos hpath]
    split
    · next hembedded => exact .error (h.cyclic hholds hfield hembedded htarget hpath)
    · exact .ok _
  · rw [if_neg hpath]
    by_cases hdeep : limit < path.length
    · rw [if_pos hdeep]
      exact .error (h.deep hholds hfield htarget hpath hdeep)
    · rw [if_neg hdeep]
      refine FailsOnly.bind (h.failing form field target) fun known hknown => ?_
      cases known with
      | none => exact .ok _
      | some found =>
        exact nodesAfresh h (target :: path) found
          (h.step hholds hfield htarget hpath hdeep hknown)
termination_by limit + 1 - path.length
decreasing_by
  rw [List.length_cons]
  omega

/-- **How a tree fails to be built:** there is no root form, or the source fails, or it fails where what
is carried down from the root form holds. -/
theorem Carries.buildAfresh {holds : List ResourceId → Form → Prop} {kind : WorkspaceError → Prop}
    (h : Carries source limit holds kind) (hform : FailsOnly kind (source.form? root).answer)
    (hnone : kind (.notFound root))
    (hroot : ∀ form, (source.form? root).answer = .ok (some form) → holds [form.id] form) :
    FailsOnly kind (buildAfresh source limit root) := by
  refine FailsOnly.bind hform fun found hfound => ?_
  cases found with
  | none => exact .error hnone
  | some form => exact .bind (h.nodesAfresh [form.id] form (hroot form hfound)) fun nodes _ => .ok _

/-! ## No form is asked for twice -/

/-- How often a form has been asked for: once if it is the root form, or has been fetched. -/
def asked (root : ResourceId) (fetched : Fetched) (id : ResourceId) : Nat :=
  if id = root ∨ (fetched.lookup id).isSome then 1 else 0

/-- Only forms that have not been asked for are, each once, and then they have been fetched. -/
structure AsksNew (root : ResourceId) (m : Build α) : Prop where
  once : ∀ fetched id, asked root fetched id + (m fetched).lookups.count (.form id) ≤ 1
  keeps : ∀ fetched id y, (m fetched).answer = .ok y →
    asked root fetched id + (m fetched).lookups.count (.form id) = asked root y.2 id

theorem asked_le_one (root : ResourceId) (fetched : Fetched) (id : ResourceId) :
    asked root fetched id ≤ 1 := by
  rw [asked]
  split <;> omega

theorem asksNew_pure (a : α) : AsksNew root (pure a) where
  once fetched id := asked_le_one root fetched id
  keeps _ _ _ hy := Except.ok.inj hy ▸ rfl

theorem asksNew_refuse (e : WorkspaceError) : AsksNew root (refuse e : Build α) where
  once fetched id := asked_le_one root fetched id
  keeps _ _ _ hy := nomatch hy

/-- **Steps compound:** what one has asked for the next does not. -/
theorem AsksNew.bind {m : Build α} {f : α → Build β} (hm : AsksNew root m)
    (hf : ∀ a, AsksNew root (f a)) : AsksNew root (m >>= f) where
  once fetched id := by
    change _ + (m fetched >>= fun x => f x.1 x.2).lookups.count (.form id) ≤ 1
    cases hx : (m fetched).answer with
    | error e =>
      rw [Reading.lookups_bind_error hx]
      exact hm.once fetched id
    | ok x =>
      rw [Reading.lookups_bind hx, List.count_append, ← Nat.add_assoc, hm.keeps fetched id x hx]
      exact (hf x.1).once x.2 id
  keeps fetched id z hz := by
    change (m fetched >>= fun x => f x.1 x.2).answer = _ at hz
    change _ + (m fetched >>= fun x => f x.1 x.2).lookups.count (.form id) = _
    rw [Reading.answer_bind] at hz
    cases hx : (m fetched).answer with
    | error e =>
      rw [hx] at hz
      cases hz
    | ok x =>
      rw [hx] at hz
      rw [Reading.lookups_bind hx, List.count_append, ← Nat.add_assoc, hm.keeps fetched id x hx]
      exact (hf x.1).keeps x.2 id z hz

theorem compounds_asksNew (root : ResourceId) : Compounds fun _ m => AsksNew root m where
  pure := asksNew_pure
  bind := AsksNew.bind

/-- A form is asked for by its name, and no other is. -/
theorem count_ask (h : source.Steady) (target id : ResourceId) :
    (source.ask target).lookups.count (.form id) = if id = target then 1 else 0 := by
  have hnone : (source.form? target).lookups.count (.form id) = 0 :=
    List.count_eq_zero.mpr (h.unasked target id)
  change (Lookup.form target :: (source.form? target).lookups).count (.form id) = _
  rw [List.count_cons, hnone, Nat.zero_add]
  by_cases hid : id = target
  · simp [hid]
  · simp [hid, Ne.symm hid]

/-- After a form is asked for nothing else is looked up to fetch it. -/
theorem lookups_fetch_of_new (form : Form) (field : FormField)
    (h : fetched.lookup target = none) :
    (fetch source form field target fetched).lookups = (source.ask target).lookups := by
  rw [fetch_of_new form field h]
  refine Reading.lookups_bind_nil fun found => ?_
  cases found with
  | none => rfl
  | some found => exact Reading.lookups_bind_nil fun deleted => rfl

theorem asked_cons (hroot : target ≠ root) (h : fetched.lookup target = none)
    (known : Option Form) (id : ResourceId) :
    asked root ((target, known) :: fetched) id =
      asked root fetched id + if id = target then 1 else 0 := by
  by_cases hid : id = target
  · subst hid
    simp [asked, hroot, h]
  · rw [asked, asked, List.lookup_cons, beq_false_of_ne hid, if_neg hid, Nat.add_zero]

/-- **Fetching a form** asks for it unless it has been fetched. -/
theorem asksNew_fetch (h : source.Steady) (form : Form) (field : FormField)
    (hroot : target ≠ root) : AsksNew root (fetch source form field target) where
  once fetched id := by
    cases hlookup : fetched.lookup target with
    | some known =>
      rw [fetch_of_known form field hlookup]
      exact asked_le_one root fetched id
    | none =>
      rw [lookups_fetch_of_new form field hlookup, count_ask h,
        ← asked_cons hroot hlookup none]
      exact asked_le_one root _ id
  keeps fetched id y hy := by
    cases hlookup : fetched.lookup target with
    | some known =>
      rw [fetch_of_known form field hlookup] at hy ⊢
      exact Except.ok.inj hy ▸ rfl
    | none =>
      rw [lookups_fetch_of_new form field hlookup, count_ask h]
      rw [answer_fetch_of_new form field hlookup] at hy
      cases hanswer : afresh source form field target with
      | error e =>
        rw [hanswer] at hy
        cases hy
      | ok known =>
        rw [hanswer] at hy
        obtain rfl := Except.ok.inj hy
        exact (asked_cons hroot hlookup known id).symm

/-- **A descent** asks for no form again, the root form among those being expanded. -/
theorem asksNew_descend (h : source.Steady) (limit : Nat) : ∀ (depth : Nat)
    (path : List ResourceId), root ∈ path → ∀ (form : Form) (field : FormField), ∀ target ∉ path,
      AsksNew root (descend source limit depth path form field target)
  | 0, _, _, _, _, _, _ => asksNew_refuse _
  | depth + 1, path, hroot, form, field, target, hpath => by
    have hnew : target ≠ root := fun heq => hpath (heq ▸ hroot)
    refine (asksNew_fetch h form field hnew).bind fun known => ?_
    cases known with
    | none => exact asksNew_pure []
    | some found =>
      exact (compounds_asksNew root).formNodes (fun target => asksNew_refuse _)
        (asksNew_descend h limit depth (target :: path) (List.mem_cons_of_mem _ hroot) found)

/-- **A tree asks for each form once,** whether or not it is built. -/
theorem count_build_le_one (h : source.Steady) (limit : Nat) (root id : ResourceId) :
    (build source limit root).lookups.count (.form id) ≤ 1 := by
  have hone : (source.ask root).lookups.count (.form id) ≤ 1 := by
    rw [count_ask h]
    split <;> omega
  cases hask : (source.ask root).answer with
  | error e =>
    rw [build, Reading.lookups_bind_error hask]
    exact hone
  | ok found =>
    rw [build, Reading.lookups_bind hask]
    cases found with
    | none =>
      change ((source.ask root).lookups ++ []).count _ ≤ 1
      rwa [List.append_nil]
    | some form =>
      obtain rfl := h.named root form hask
      have hnew : AsksNew form.id (formNodes (descend source limit limit) [form.id] form) :=
        (compounds_asksNew form.id).formNodes (fun target => asksNew_refuse _)
          (asksNew_descend h limit limit [form.id] List.mem_cons_self form)
      dsimp only
      rw [Reading.lookups_bind_nil (fun x => rfl), List.count_append, count_ask h]
      have honce := hnew.once [] id
      simp only [asked, List.lookup_nil, Option.isSome_none, Bool.false_eq_true, or_false] at honce
      exact honce

/-- **What has been fetched is kept to no effect but one:** the tree, or the failure to build it, is
what asking for every form anew would come to, and no form is asked for twice. -/
theorem build_eq_afresh_and_count_le (h : source.Steady) (limit : Nat) (root : ResourceId) :
    (build source limit root).answer = buildAfresh source limit root ∧
      ∀ id, (build source limit root).lookups.count (.form id) ≤ 1 :=
  ⟨answer_build source limit root, count_build_le_one h limit root⟩

/-- Visits, which lead to the villages by two fields. -/
def visitForms : List Form :=
  [⟨⟨"visit"⟩, ⟨"home"⟩, "Visit", none, [.field (pointsAt "home" [⟨"village"⟩]),
      .field (pointsAt "clinic" [⟨"old"⟩, ⟨"village"⟩]), .field (pointsAt "ward" [⟨"old"⟩])]⟩,
    ⟨⟨"village"⟩, ⟨"home"⟩, "Village", none, [.field (pointsAt "near" [⟨"village"⟩])]⟩,
    ⟨⟨"old"⟩, ⟨"home"⟩, "Old place", none, []⟩]

def visitSource : FormSource := .ofList (visitForms.map fun f => (f.id, f)) [⟨"old"⟩]

theorem build_eq_afresh_and_count_le_visit :
    visitSource.Steady ∧
      (∃ tree, buildAfresh visitSource 1 ⟨"visit"⟩ = .ok tree ∧
        tree.listing.map (fun n => (n.field.id.text, n.parent)) =
          [("_creator", none), ("_commit_time", none), ("home", none), ("near", some 2),
            ("clinic", none), ("near", some 4), ("ward", none)]) ∧
      (build visitSource 1 ⟨"visit"⟩).lookups =
        [.form ⟨"visit"⟩, .form ⟨"village"⟩, .form ⟨"old"⟩] ∧
      ∀ id, (build visitSource 1 ⟨"visit"⟩).lookups.count (.form id) ≤ 1 := by
  have hsteady : visitSource.Steady := FormSource.steady_ofList visitForms [⟨"old"⟩]
  obtain ⟨hanswer, hcount⟩ := build_eq_afresh_and_count_le hsteady 1 ⟨"visit"⟩
  exact ⟨hsteady, hanswer ▸ ⟨_, rfl, rfl⟩, rfl, hcount⟩

end FormTree

end Fieldbook
