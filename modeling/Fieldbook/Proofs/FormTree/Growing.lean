import Fieldbook.FormTree.Building
import Fieldbook.Proofs.FormTree.Places
import Fieldbook.Proofs.Text.ByteOrder
import Mathlib.Data.List.Nodup

/-!
# Proofs/FormTree/Growing — what a built tree has under its nodes

While a tree is built, what has been fetched agrees with what the source answers (`Faithful`), so a
form that is fetched again is the one that the source gives.  A step of the building keeps that and
gives an answer of some kind (`Ensures`), and steps compound.  In the end a node has under it the
fields of the forms that it leads to, but for those that are omitted, and so has every node under it,
with one more form on the way (`Grown`).
-/

namespace Fieldbook

/-- The fields of a form, each with the name of the form. -/
def Form.declared (f : Form) : List (ResourceId × FormField) := f.fields.map fun d => (f.id, d)

namespace FormTree

variable {source : FormSource} {α β : Type} {field : FormField} {target : ResourceId}
  {forms path : List ResourceId} {limit : Nat}

/-- A form that does not stand under a field that leads to it: a deleted one, or one that a reference
leads back to. -/
def Omitted (source : FormSource) (forms : List ResourceId) (field : FormField)
    (target : ResourceId) : Prop :=
  source.isDeleted target = .ok true ∨ field.type.isReference ∧ target ∈ forms

/-- The forms under a field, in the order of the bytes of their names: all that it leads to but for
those that are omitted. -/
structure Found (source : FormSource) (forms : List ResourceId) (field : FormField)
    (found : List Form) : Prop where
  ascending : (found.map fun f => Text.utf8 f.id.text).Pairwise (· < ·)
  all : ∀ target, target ∈ found.map Form.id ↔
    target ∈ field.type.range.toList ∧ ¬Omitted source forms field target
  given : ∀ f ∈ found, (source.form? f.id).answer = .ok (some f)

/-- A node with all that belongs under it, where `forms` are the forms on the way from it to the
root. -/
inductive Grown (source : FormSource) (limit : Nat) : List ResourceId → FieldNode → Prop
  | intro {forms : List ResourceId} {n : FieldNode} {found : List Form} :
    forms.Nodup → forms.length ≤ limit + 1 → Found source forms n.field found →
      n.children.map FieldNode.declared = found.flatMap Form.declared →
      (∀ c ∈ n.children, c.isIntrinsic = false) →
      (∀ c ∈ n.children, Grown source limit (c.form :: forms) c) → Grown source limit forms n

/-! ## Steps of the building -/

/-- What is known of a form is what the source says. -/
def Answers (source : FormSource) (target : ResourceId) : Option Form → Prop
  | none => source.isDeleted target = .ok true
  | some f => (source.form? target).answer = .ok (some f) ∧ source.isDeleted target = .ok false

/-- All that has been fetched is what the source says. -/
def Faithful (source : FormSource) (fetched : Fetched) : Prop :=
  ∀ target known, fetched.lookup target = some known → Answers source target known

/-- Where what has been fetched is faithful it stays so, and the result satisfies `P`. -/
def Ensures (source : FormSource) (m : Build α) (P : α → Prop) : Prop :=
  ∀ fetched, Faithful source fetched → ∀ a fetched', (m fetched).answer = .ok (a, fetched') →
    Faithful source fetched' ∧ P a

variable {m : Build α} {f : α → Build β} {P P' : α → Prop} {Q : β → Prop}

theorem Ensures.mono (hm : Ensures source m P) (hP : ∀ a, P a → P' a) : Ensures source m P' :=
  fun fetched hfetched a fetched' h => (hm fetched hfetched a fetched' h).imp_right (hP a)

theorem ensures_pure {a : α} (h : P a) : Ensures source (pure a) P := by
  intro fetched hfetched b fetched' hb
  obtain ⟨rfl, rfl⟩ := Prod.mk.inj (Except.ok.inj hb)
  exact ⟨hfetched, h⟩

theorem ensures_refuse (e : WorkspaceError) : Ensures source (refuse e) P :=
  fun _ _ _ _ h => absurd h (by simp [refuse])

/-- **Steps compound.** -/
theorem Ensures.bind (hm : Ensures source m P) (hf : ∀ a, P a → Ensures source (f a) Q) :
    Ensures source (m >>= f) Q := by
  intro fetched hfetched b fetched' h
  change ((m fetched) >>= fun x => f x.1 x.2).answer = _ at h
  rw [Reading.answer_bind] at h
  rcases hmid : (m fetched).answer with _ | ⟨a, mid⟩
  · simp [hmid, Except.bind] at h
  · obtain ⟨hfaithful, ha⟩ := hm fetched hfetched a mid hmid
    rw [hmid] at h
    exact hf a ha mid hfaithful b fetched' h

theorem ensures_mapM {f : α → Build β} {R : α → β → Prop} {as : List α}
    (hf : ∀ a ∈ as, Ensures source (f a) (R a)) :
    Ensures source (as.mapM f) fun bs => List.Forall₂ R as bs := by
  induction as with
  | nil =>
    rw [List.mapM_nil]
    exact ensures_pure .nil
  | cons a as ih =>
    obtain ⟨ha, has⟩ := List.forall_mem_cons.mp hf
    rw [List.mapM_cons]
    exact ha.bind fun b hb => (ih has).bind fun bs hbs => ensures_pure (.cons hb hbs)

/-- A reading within the building. -/
theorem ensures_lift {x : Reading WorkspaceError α} (h : ∀ a, x.answer = .ok a → P a) :
    Ensures source (x : Build α) P := by
  intro fetched hfetched a fetched' ha
  change (x >>= fun a => pure (a, fetched)).answer = _ at ha
  rw [Reading.answer_bind] at ha
  rcases hx : x.answer with _ | b
  · simp [hx, Except.bind] at ha
  · rw [hx] at ha
    obtain ⟨rfl, rfl⟩ := Prod.mk.inj (Except.ok.inj ha)
    exact ⟨hfetched, h b hx⟩

theorem ensures_get : Ensures source (get : Build Fetched) (Faithful source) := by
  intro fetched hfetched a fetched' ha
  obtain ⟨rfl, rfl⟩ := Prod.mk.inj (Except.ok.inj ha)
  exact ⟨hfetched, hfetched⟩

/-- What the source has said may be kept. -/
theorem ensures_keep {known : Option Form} (h : Answers source target known) :
    Ensures source (modify fun fetched => (target, known) :: fetched : Build PUnit)
      fun _ => True := by
  intro fetched hfetched a fetched' ha
  obtain ⟨rfl, rfl⟩ := Prod.mk.inj (Except.ok.inj ha)
  refine ⟨fun id answer hid => ?_, trivial⟩
  rw [List.lookup_cons] at hid
  split at hid
  · next heq =>
    obtain rfl := Option.some.inj hid
    rwa [eq_of_beq heq]
  · exact hfetched id answer hid

theorem exists_of_mem_right {R : α → β → Prop} {as : List α} {bs : List β} {b : β}
    (h : List.Forall₂ R as bs) (hb : b ∈ bs) : ∃ a, R a b := by
  induction h with
  | nil => exact absurd hb List.not_mem_nil
  | cons hab _ ih =>
    rcases List.mem_cons.mp hb with rfl | hb
    · exact ⟨_, hab⟩
    · exact ih hb

/-! ## Forms and fields -/

/-- **A form that is fetched** is the one that the source gives, nothing if it is deleted. -/
theorem ensures_fetch (form : Form) (field : FormField) (target : ResourceId) :
    Ensures source (fetch source form field target) (Answers source target) := by
  refine ensures_get.bind fun fetched hfetched => ?_
  rcases hlookup : fetched.lookup target with _ | known
  · refine (ensures_lift fun _ h => h).bind fun found hfound => ?_
    rcases found with _ | f
    · exact ensures_refuse _
    · refine (ensures_lift fun _ h => h).bind fun deleted hdeleted => ?_
      have hanswer : Answers source target (if deleted then none else some f) := by
        rcases deleted with _ | _
        · exact ⟨hfound, hdeleted⟩
        · exact hdeleted
      exact (ensures_keep hanswer).bind fun _ _ => ensures_pure hanswer
  · exact ensures_pure (hfetched target known hlookup)

/-- What stands under a field for one of the forms in its range, if `forms` are the forms on the way:
nothing if the form is omitted, otherwise its fields. -/
inductive Below (source : FormSource) (limit : Nat) (forms : List ResourceId) (field : FormField)
    (target : ResourceId) : List FieldNode → Prop
  | omitted : Omitted source forms field target → Below source limit forms field target []
  | grown {f : Form} {nodes : List FieldNode} : ¬Omitted source forms field target → f.id = target →
    (source.form? target).answer = .ok (some f) → nodes.map FieldNode.declared = f.declared →
    (∀ n ∈ nodes, n.isIntrinsic = false ∧ Grown source limit (target :: forms) n) →
    Below source limit forms field target nodes

/-- **The forms under a field** are found one after another. -/
theorem exists_found {targets : List ResourceId} {parts : List (List FieldNode)}
    (h : List.Forall₂ (Below source limit forms field) targets parts) (htargets : targets.Nodup) :
    ∃ found : List Form, (found.map Form.id).Sublist targets ∧
      (∀ target ∈ targets,
        target ∈ found.map Form.id ↔ ¬Omitted source forms field target) ∧
      (∀ f ∈ found, (source.form? f.id).answer = .ok (some f)) ∧
      parts.flatten.map FieldNode.declared = found.flatMap Form.declared := by
  induction h with
  | nil => exact ⟨[], .slnil, fun _ ht => absurd ht List.not_mem_nil,
      fun _ hf => absurd hf List.not_mem_nil, rfl⟩
  | @cons target nodes targets parts hbelow _ ih =>
    obtain ⟨hnew, hrest⟩ := List.nodup_cons.mp htargets
    obtain ⟨found, hsub, hall, hgiven, hfields⟩ := ih hrest
    rcases hbelow with ho | ⟨ho, rfl, hf, hnodes, -⟩
    · refine ⟨found, hsub.cons _, ?_, hgiven, by simpa using hfields⟩
      refine List.forall_mem_cons.mpr ⟨⟨fun ht => absurd (hsub.subset ht) hnew, absurd ho⟩, hall⟩
    · rename_i f
      refine ⟨f :: found, hsub.cons_cons _, ?_, List.forall_mem_cons.mpr ⟨hf, hgiven⟩, ?_⟩
      · refine List.forall_mem_cons.mpr ⟨⟨fun _ => ho, fun _ => List.mem_cons_self⟩, ?_⟩
        intro t ht
        rw [← hall t ht, List.map_cons, List.mem_cons]
        exact or_iff_right fun heq => hnew (heq ▸ ht)
      · rw [List.flatten_cons, List.map_append, hnodes, hfields, List.flatMap_cons]

theorem form_of_mem_declared {f : Form} {nodes : List FieldNode} {n : FieldNode}
    (h : nodes.map FieldNode.declared = f.declared) (hn : n ∈ nodes) : n.form = f.id := by
  have hmem : n.declared ∈ f.declared := h ▸ List.mem_map_of_mem hn
  obtain ⟨_, _, hd⟩ := List.mem_map.mp hmem
  exact (congrArg Prod.fst hd).symm

theorem Below.grown_of_mem {nodes : List FieldNode} {n : FieldNode}
    (h : Below source limit forms field target nodes) (hn : n ∈ nodes) :
    n.isIntrinsic = false ∧ Grown source limit (n.form :: forms) n := by
  rcases h with _ | ⟨_, rfl, _, hnodes, hgrown⟩
  · exact absurd hn List.not_mem_nil
  · rw [form_of_mem_declared hnodes hn]
    exact hgrown n hn

/-- A field that leads somewhere and embeds nothing is a reference. -/
theorem isReference_of_mem {type : FieldType} (h : target ∈ type.range.toList)
    (htype : type.isEmbedded = false) : type.isReference := by
  rcases type
  case reference => rfl
  case embedded => exact absurd htype (by simp [FieldType.isEmbedded])
  all_goals exact absurd h List.not_mem_nil

/-! ## Nodes -/

variable {descent : Descent} {form : Form}

theorem ensures_targetNodes (htarget : target ∈ field.type.range.toList)
    (hdescent : target ∉ path → Ensures source (descent path form field target)
      (Below source limit path field target)) :
    Ensures source (targetNodes descent path form field target)
      (Below source limit path field target) := by
  rw [targetNodes]
  split
  · next hpath =>
    split
    · exact ensures_refuse _
    · next htype =>
      have href : field.type.isReference := isReference_of_mem htarget (by simpa using htype)
      exact ensures_pure (.omitted (.inr ⟨href, hpath⟩))
  · next hpath => exact hdescent hpath

/-- **The node of a field** has all that belongs under it, if what the descent finds does. -/
theorem ensures_fieldNode (hpath : path.Nodup) (hlength : path.length ≤ limit + 1)
    (hdescent : ∀ field, ∀ target ∉ path, Ensures source (descent path form field target)
      (Below source limit path field target)) (field : FormField) :
    Ensures source (fieldNode descent path form field) fun n =>
      n.declared = (form.id, field) ∧ n.isIntrinsic = false ∧ Grown source limit path n := by
  have htargets : Ensures source
      (field.type.range.toList.mapM (targetNodes descent path form field)) _ :=
    ensures_mapM fun target htarget => ensures_targetNodes htarget (hdescent field target)
  refine htargets.bind fun parts hparts => ensures_pure ⟨rfl, rfl, ?_⟩
  have hrange : field.type.range.toList.Pairwise (· < ·) := field.type.range.ascending
  have hnodup : field.type.range.toList.Nodup := hrange.imp fun hlt heq =>
    absurd (heq ▸ hlt) (String.lt_irrefl _)
  obtain ⟨found, hsub, hall, hgiven, hfields⟩ := exists_found hparts hnodup
  have hbytes : ∀ a b : Form, a.id < b.id → Text.utf8 a.id.text < Text.utf8 b.id.text :=
    fun _ _ => Text.utf8_lt
  have hfound : Found source path field found :=
    { ascending := List.pairwise_map.mpr
        ((List.pairwise_map.mp (hrange.sublist hsub)).imp @hbytes)
      all := fun t => ⟨fun ht => ⟨hsub.subset ht, (hall t (hsub.subset ht)).mp ht⟩,
        fun ht => (hall t ht.1).mpr ht.2⟩
      given := hgiven }
  have hgrown : ∀ c ∈ parts.flatten,
      c.isIntrinsic = false ∧ Grown source limit (c.form :: path) c := by
    intro c hc
    obtain ⟨nodes, hnodes, hc⟩ := List.mem_flatten.mp hc
    obtain ⟨_, hbelow⟩ := exists_of_mem_right hparts hnodes
    exact hbelow.grown_of_mem hc
  exact .intro hpath hlength hfound hfields (fun c hc => (hgrown c hc).1) fun c hc => (hgrown c hc).2

theorem ensures_formNodes (hpath : path.Nodup) (hlength : path.length ≤ limit + 1)
    (hdescent : ∀ field, ∀ target ∉ path, Ensures source (descent path form field target)
      (Below source limit path field target)) :
    Ensures source (formNodes descent path form) fun nodes =>
      nodes.map FieldNode.declared = form.declared ∧
        ∀ n ∈ nodes, n.isIntrinsic = false ∧ Grown source limit path n := by
  refine (ensures_mapM fun field _ => ensures_fieldNode hpath hlength hdescent field).mono ?_
  intro nodes hnodes
  constructor
  · rw [Form.declared]
    generalize form.fields = fields at hnodes ⊢
    induction hnodes with
    | nil => rfl
    | cons hn _ ih => rw [List.map_cons, List.map_cons, hn.1, ih]
  · intro n hn
    obtain ⟨_, hgrown⟩ := exists_of_mem_right hnodes hn
    exact hgrown.2

/-- **What a descent finds** in a form belongs there. -/
theorem ensures_descend
    (hsource : ∀ id f, (source.form? id).answer = .ok (some f) → f.id = id) :
    ∀ (depth : Nat) (path : List ResourceId), path.Nodup → path.length + depth = limit + 1 →
      ∀ form field, ∀ target ∉ path, Ensures source (descend source limit depth path form field target)
        (Below source limit path field target)
  | 0, _, _, _, _, _, _, _ => ensures_refuse _
  | depth + 1, path, hpath, hlength, form, field, target, htarget => by
    refine (ensures_fetch form field target).bind fun known hknown => ?_
    rcases known with _ | f
    · exact ensures_pure (.omitted (.inl hknown))
    · obtain ⟨hf, hdeleted⟩ := hknown
      have hlonger : (target :: path).length + depth = limit + 1 := by
        rw [List.length_cons]
        omega
      have hnodup : (target :: path).Nodup := List.nodup_cons.mpr ⟨htarget, hpath⟩
      have hkept : ¬Omitted source path field target := by
        rintro (hd | ⟨-, ht⟩)
        · exact absurd (hd.symm.trans hdeleted) (by simp)
        · exact htarget ht
      refine (ensures_formNodes hnodup (by omega)
        (ensures_descend hsource depth (target :: path) hnodup hlonger f)).mono ?_
      rintro nodes ⟨hnodes, hgrown⟩
      exact .grown hkept (hsource target f hf) hf hnodes hgrown

/-- **A tree that is built** has the fields of its root form after the two that every form has, and
under each node what belongs there. -/
theorem grown_of_build {root : ResourceId} {tree : FormTree}
    (hsource : ∀ id f, (source.form? id).answer = .ok (some f) → f.id = id)
    (h : (build source limit root).answer = .ok tree) :
    (source.form? root).answer = .ok (some tree.root) ∧
      ∃ nodes, tree.nodes = intrinsicNodes tree.root.id ++ nodes ∧
        nodes.map FieldNode.declared = tree.root.declared ∧
        ∀ n ∈ nodes, n.isIntrinsic = false ∧ Grown source limit [tree.root.id] n := by
  have hask : (source.ask root).answer = (source.form? root).answer := rfl
  rw [build, Reading.answer_bind, hask] at h
  rcases hroot : (source.form? root).answer with _ | (_ | form)
  · simp [hroot, Except.bind] at h
  · simp [hroot, Except.bind] at h
  · have hone : [form.id].Nodup := List.nodup_singleton form.id
    have hensures := ensures_formNodes hone (Nat.le_add_left 1 limit)
      (ensures_descend hsource limit [form.id] hone (Nat.add_comm 1 limit) form)
    rw [hroot] at h
    change ((formNodes (descend source limit limit) [form.id] form []) >>= fun x => pure
      (⟨form, intrinsicNodes form.id ++ x.1⟩ : FormTree)).answer = .ok tree at h
    rw [Reading.answer_bind] at h
    rcases hnodes : (formNodes (descend source limit limit) [form.id] form []).answer with _ | x
    · simp [hnodes, Except.bind] at h
    · rw [hnodes] at h
      obtain rfl := Except.ok.inj h
      have hempty : Faithful source [] := fun _ _ h => by simp at h
      obtain ⟨-, hfields, hgrown⟩ := hensures [] hempty x.1 x.2 hnodes
      exact ⟨rfl, x.1, rfl, hfields, hgrown⟩

end FormTree

end Fieldbook
