import Fieldbook.Proofs.FormTree.Afresh
import Fieldbook.Proofs.FormTree.Reaching
import Mathlib.Data.Set.Card

/-!
# Proofs/FormTree/Depth — how deep a tree may be

A limit cuts a tree off, and does nothing else: whatever a tree comes to if it is not cut off, it comes
to under any higher limit (`Deepens`).  And a tree is cut off only below a way of different forms that
is as long as the limit allows (`Exceeds`), so not if there are fewer forms than that.
-/

namespace Fieldbook

/-- It is not that a form lies too deep. -/
def WorkspaceError.IsShallow (e : WorkspaceError) : Prop := ∀ form limit, e ≠ .tooDeep form limit

/-- The forms that a form leads to, also through others, but for itself. -/
def FormSource.below (source : FormSource) (root : ResourceId) : Set ResourceId :=
  {target | target ≠ root ∧ ∃ id field, source.Reaches root id ∧ source.Declares id field ∧
    target ∈ field.type.range.toList}

/-- A form has the name that it is given by, and the source never says that one lies too deep. -/
structure FormSource.Plain (source : FormSource) : Prop where
  named : ∀ id form, (source.form? id).answer = .ok (some form) → form.id = id
  form : ∀ id, Fieldbook.FailsOnly WorkspaceError.IsShallow (source.form? id).answer
  deleted : ∀ id, Fieldbook.FailsOnly WorkspaceError.IsShallow (source.isDeleted id)

/-- Forms that are listed are given under their own names. -/
theorem FormSource.plain_ofList (forms : List Form) (deleted : List ResourceId) :
    (ofList (forms.map fun f => (f.id, f)) deleted).Plain where
  named _ _ h := FormTree.id_of_lookup (Except.ok.inj h)
  form _ := .ok _
  deleted _ := .ok _

namespace FormTree

open WorkspaceError (IsShallow)

variable {α β : Type} {source : FormSource} {limit limit' : Nat} {root target : ResourceId}
  {path : List ResourceId} {form : Form} {field : FormField}

/-! ## Higher limits -/

/-- `x'` is what `x` is, unless `x` is cut off. -/
def Deepens (x x' : Except WorkspaceError α) : Prop := FailsOnly IsShallow x → x' = x

theorem deepens_refl (x : Except WorkspaceError α) : Deepens x x := fun _ => rfl

theorem deepens_tooDeep (target : ResourceId) (limit : Nat) (x : Except WorkspaceError α) :
    Deepens (.error (.tooDeep target limit)) x :=
  fun h => absurd rfl (h _ rfl target limit)

/-- **Steps compound.** -/
theorem Deepens.bind {x x' : Except WorkspaceError α} {f f' : α → Except WorkspaceError β}
    (hx : Deepens x x') (hf : ∀ a, Deepens (f a) (f' a)) : Deepens (x >>= f) (x' >>= f') := by
  intro hshallow
  cases x with
  | error e =>
    rw [hx (.error (hshallow e rfl))]
    rfl
  | ok a =>
    rw [hx (.ok a)]
    exact hf a hshallow

theorem Deepens.mapM {f f' : α → Except WorkspaceError β} (hf : ∀ a, Deepens (f a) (f' a)) :
    ∀ as : List α, Deepens (as.mapM f) (as.mapM f')
  | [] => deepens_refl _
  | a :: as => by
    rw [List.mapM_cons, List.mapM_cons]
    exact (hf a).bind fun b => (mapM hf as).bind fun bs => deepens_refl _

theorem deepens_nodesAfresh (htarget : ∀ field, ∀ target ∉ path,
      Deepens (targetAfresh source limit path form field target)
        (targetAfresh source limit' path form field target)) :
    Deepens (nodesAfresh source limit path form) (nodesAfresh source limit' path form) := by
  rw [nodesAfresh, nodesAfresh]
  refine Deepens.mapM (fun field => ?_) form.fields
  refine Deepens.bind (Deepens.mapM (fun target => ?_) _) fun children => deepens_refl _
  by_cases hpath : target ∈ path
  · rw [targetAfresh, targetAfresh, if_pos hpath, if_pos hpath]
    exact deepens_refl _
  · exact htarget field target hpath

-- The induction is on how many more forms the lower limit allows.
theorem deepens_targetAfresh (hle : limit ≤ limit') (path : List ResourceId) (form : Form)
    (field : FormField) (target : ResourceId) (hpath : target ∉ path) :
    Deepens (targetAfresh source limit path form field target)
      (targetAfresh source limit' path form field target) := by
  by_cases hdeep : limit < path.length
  · rw [targetAfresh, if_neg hpath, if_pos hdeep]
    exact deepens_tooDeep _ _ _
  · have hdeep' : ¬limit' < path.length := by omega
    rw [targetAfresh, targetAfresh, if_neg hpath, if_neg hpath, if_neg hdeep, if_neg hdeep']
    refine (deepens_refl _).bind fun known => ?_
    cases known with
    | none => exact deepens_refl _
    | some found =>
      exact deepens_nodesAfresh fun field' target' hpath' =>
        deepens_targetAfresh hle (target :: path) found field' target' hpath'
termination_by limit + 1 - path.length
decreasing_by
  rw [List.length_cons]
  omega

/-- **A higher limit** cuts off nothing that a lower one does not. -/
theorem deepens_buildAfresh (source : FormSource) (hle : limit ≤ limit') (root : ResourceId) :
    Deepens (buildAfresh source limit root) (buildAfresh source limit' root) := by
  refine (deepens_refl _).bind fun found => ?_
  cases found with
  | none => exact deepens_refl _
  | some form =>
    exact (deepens_nodesAfresh (deepens_targetAfresh hle [form.id] form)).bind fun nodes =>
      deepens_refl _

/-! ## Enough room -/

/-- The forms being expanded are different, can all be reached from the root, and are no more than
the limit allows; the last is `form`. -/
structure Expanding (source : FormSource) (limit : Nat) (root : ResourceId)
    (path : List ResourceId) (form : Form) : Prop where
  nodup : path.Nodup
  length : path.length ≤ limit + 1
  rooted : root ∈ path
  reached : ∀ id ∈ path, source.Reaches root id
  given : ∃ id ∈ path, (source.form? id).answer = .ok (some form)

/-- A form that lies too deep is led to from a way of other forms that is as long as the limit
allows. -/
def Exceeds (source : FormSource) (limit : Nat) (root : ResourceId) (e : WorkspaceError) : Prop :=
  ∀ target l, e = .tooDeep target l → ∃ path form, Expanding source limit root path form ∧
    path.length = limit + 1 ∧ target ∉ path ∧ target ∈ source.below root

theorem exceeds_of_isShallow {e : WorkspaceError} (h : e.IsShallow) :
    Exceeds source limit root e := fun target l he => absurd he (h target l)

theorem mem_below_of_reaches {id : ResourceId} (h : source.Reaches root id) (hne : id ≠ root) :
    id ∈ source.below root := by
  cases h with
  | self => exact absurd rfl hne
  | step reached given declared leads kept => exact ⟨hne, _, _, reached, ⟨_, given, declared⟩, leads⟩

theorem Expanding.mem_below (h : Expanding source limit root path form) (hfield : field ∈ form.fields)
    (htarget : target ∈ field.type.range.toList) (hpath : target ∉ path) :
    target ∈ source.below root := by
  obtain ⟨id, hid, hgiven⟩ := h.given
  have hne : target ≠ root := fun heq => hpath (heq ▸ h.rooted)
  exact ⟨hne, id, field, h.reached id hid, ⟨form, hgiven, hfield⟩, htarget⟩

/-- What is found afresh is given, and is not deleted. -/
theorem afresh_some {found : Form} (h : afresh source form field target = .ok (some found)) :
    (source.form? target).answer = .ok (some found) ∧ source.isDeleted target ≠ .ok true := by
  obtain ⟨given, deleted, hgiven, hdeleted, heq⟩ := afresh_ok_iff.mp h
  cases deleted with
  | true => cases heq
  | false =>
    obtain rfl := Option.some.inj heq
    exact ⟨hgiven, by simp [hdeleted]⟩

/-- **A step down** to another form. -/
theorem Expanding.step {found : Form} (h : Expanding source limit root path form)
    (hfield : field ∈ form.fields) (htarget : target ∈ field.type.range.toList)
    (hpath : target ∉ path) (hdeep : ¬limit < path.length)
    (hfound : afresh source form field target = .ok (some found)) :
    Expanding source limit root (target :: path) found := by
  obtain ⟨hgiven, hkept⟩ := afresh_some hfound
  obtain ⟨id, hid, hform⟩ := h.given
  have hreached : source.Reaches root target :=
    .step (h.reached id hid) hform hfield htarget hkept
  exact {
    nodup := List.nodup_cons.mpr ⟨hpath, h.nodup⟩
    length := by
      rw [List.length_cons]
      omega
    rooted := List.mem_cons_of_mem _ h.rooted
    reached := List.forall_mem_cons.mpr ⟨hreached, h.reached⟩
    given := ⟨target, List.mem_cons_self, hgiven⟩ }

theorem exceeds_afresh (h : source.Plain) (form : Form) (field : FormField) (target : ResourceId) :
    FailsOnly (Exceeds source limit root) (afresh source form field target) :=
  failsOnly_afresh (fun e he => exceeds_of_isShallow (h.form target e he))
    (fun _ _ => WorkspaceError.noConfusion)
    fun e he => exceeds_of_isShallow (h.deleted target e he)

/-- **Where a tree is cut off,** a way as long as the limit allows leads to yet another form. -/
theorem carries_expanding (h : source.Plain) :
    Carries source limit (Expanding source limit root) (Exceeds source limit root) where
  failing := exceeds_afresh h
  cyclic _ _ _ _ _ := exceeds_of_isShallow fun _ _ => WorkspaceError.noConfusion
  deep hexpanding hfield htarget hpath hdeep := by
    intro target' l heq
    obtain ⟨rfl, rfl⟩ := WorkspaceError.tooDeep.inj heq
    exact ⟨_, _, hexpanding, Nat.le_antisymm hexpanding.length hdeep, hpath,
      hexpanding.mem_below hfield htarget hpath⟩
  step := Expanding.step

theorem exceeds_buildAfresh (h : source.Plain) (limit : Nat) (root : ResourceId) :
    FailsOnly (Exceeds source limit root) (buildAfresh source limit root) := by
  refine (carries_expanding h).buildAfresh (fun e he => exceeds_of_isShallow (h.form root e he))
    (fun _ _ => WorkspaceError.noConfusion) fun form hform => ?_
  obtain rfl := h.named root form hform
  exact {
    nodup := List.nodup_singleton form.id
    length := Nat.le_add_left 1 limit
    rooted := List.mem_singleton_self form.id
    reached := List.forall_mem_singleton.mpr .self
    given := ⟨form.id, List.mem_singleton_self form.id, hform⟩ }

/-- Different members of a set are no more than it has. -/
theorem length_le_encard {ids : List ResourceId} {s : Set ResourceId} (hnodup : ids.Nodup)
    (hmem : ∀ id ∈ ids, id ∈ s) : (ids.length : ℕ∞) ≤ s.encard := by
  have hsub : (ids.toFinset : Set ResourceId) ⊆ s := fun id hid =>
    hmem id (List.mem_toFinset.mp hid)
  calc (ids.length : ℕ∞) = ids.toFinset.card := by rw [List.toFinset_card_of_nodup hnodup]
    _ = (ids.toFinset : Set ResourceId).encard := (Set.encard_coe_eq_coe_finsetCard _).symm
    _ ≤ s.encard := Set.encard_le_encard hsub

/-- **Where a tree is cut off** there are more forms than the limit allows, those that are expanded
and those that are only led to. -/
theorem Exceeds.lt_encard {e : WorkspaceError} {l : Nat} (h : Exceeds source limit root e)
    (he : e = .tooDeep target l) : (limit : ℕ∞) < (source.below root).encard ∧
      (limit : ℕ∞) < {id | source.Reaches root id}.encard := by
  obtain ⟨path, form, hexpanding, hlength, hpath, hbelow⟩ := h target l he
  have hlt : (limit : ℕ∞) < (limit + 1 : ℕ) := by exact_mod_cast Nat.lt_succ_self limit
  constructor
  · -- the root is left out, and the form that the way leads to counted in its stead
    have hnodup : (target :: path.erase root).Nodup :=
      List.nodup_cons.mpr ⟨fun hmem => hpath (List.mem_of_mem_erase hmem),
        hexpanding.nodup.erase root⟩
    have hmem : ∀ id ∈ target :: path.erase root, id ∈ source.below root := by
      refine List.forall_mem_cons.mpr ⟨hbelow, fun id hid => ?_⟩
      obtain ⟨hne, hid⟩ := hexpanding.nodup.mem_erase_iff.mp hid
      exact mem_below_of_reaches (hexpanding.reached id hid) hne
    have hcard := length_le_encard hnodup hmem
    rw [List.length_cons, List.length_erase_of_mem hexpanding.rooted, hlength] at hcard
    exact hlt.trans_le hcard
  · have hcard := length_le_encard hexpanding.nodup hexpanding.reached
    rw [hlength] at hcard
    exact hlt.trans_le hcard

/-- **The limit cuts a tree off, and does nothing else:** what a tree comes to otherwise, it comes to
under a higher limit, and it is never cut off if the limit is as high as there are forms, be it those
that the root leads to, or those that are not deleted and the root. -/
theorem build_of_le_and_isShallow (source : FormSource) (root : ResourceId) :
    (∀ d d' : Nat, d ≤ d' → FailsOnly IsShallow (build source d root).answer →
      (build source d' root).answer = (build source d root).answer) ∧
    (source.Plain → ∀ d : Nat,
      (source.below root).encard ≤ d ∨ {id | source.Reaches root id}.encard ≤ d →
        FailsOnly IsShallow (build source d root).answer) := by
  constructor
  · intro d d' hle hshallow
    rw [answer_build] at hshallow ⊢
    rw [answer_build]
    exact deepens_buildAfresh source hle root hshallow
  · intro hplain d hroom e he target l hdeep
    rw [answer_build] at he
    obtain ⟨hbelow, hreached⟩ := (exceeds_buildAfresh hplain d root e he).lt_encard hdeep
    exact hroom.elim (absurd hbelow ∘ not_lt_of_ge) (absurd hreached ∘ not_lt_of_ge)

/-- Forms that lead one to the next, and the last one back to the first. -/
def chainForms : List Form :=
  [⟨⟨"l0"⟩, ⟨"home"⟩, "First", none, [.field (pointsAt "next" [⟨"l1"⟩])]⟩,
    ⟨⟨"l1"⟩, ⟨"home"⟩, "Second", none, [.field (pointsAt "next" [⟨"l2"⟩])]⟩,
    ⟨⟨"l2"⟩, ⟨"home"⟩, "Third", none, [.field (pointsAt "first" [⟨"l0"⟩])]⟩]

def chainSource : FormSource := .ofList (chainForms.map fun f => (f.id, f)) []

theorem encard_below_chain : (chainSource.below ⟨"l0"⟩).encard ≤ 2 := by
  have hleads : ∀ f ∈ chainForms, ∀ field ∈ f.fields, ∀ target ∈ field.type.range.toList,
      target ≠ ⟨"l0"⟩ → target ∈ [(⟨"l1"⟩ : ResourceId), ⟨"l2"⟩] := by
    decide +kernel
  have hsub : chainSource.below ⟨"l0"⟩ ⊆ {⟨"l1"⟩, ⟨"l2"⟩} := by
    rintro target ⟨hne, id, field, -, ⟨f, hf, hfield⟩, htarget⟩
    simpa using hleads f (mem_of_lookup (Except.ok.inj hf)) field hfield target htarget hne
  exact (Set.encard_le_encard hsub).trans (Set.encard_pair (by decide)).le

theorem build_of_le_and_isShallow_chain :
    chainSource.Plain ∧ (chainSource.below ⟨"l0"⟩).encard ≤ 2 ∧
      FailsOnly IsShallow (build chainSource 2 ⟨"l0"⟩).answer ∧
      (build chainSource 7 ⟨"l0"⟩).answer = (build chainSource 2 ⟨"l0"⟩).answer ∧
      (build chainSource 1 ⟨"l0"⟩).answer = .error (.tooDeep ⟨"l2"⟩ 1) := by
  have hplain : chainSource.Plain := FormSource.plain_ofList chainForms []
  obtain ⟨hdeeper, hroom⟩ := build_of_le_and_isShallow chainSource ⟨"l0"⟩
  have hshallow := hroom hplain 2 (.inl encard_below_chain)
  exact ⟨hplain, encard_below_chain, hshallow, hdeeper 2 7 (by decide) hshallow, rfl⟩

end FormTree

end Fieldbook
