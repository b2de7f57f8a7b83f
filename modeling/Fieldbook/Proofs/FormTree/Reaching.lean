import Fieldbook.Proofs.FormTree.Shape

/-!
# Proofs/FormTree/Reaching — whose fields a tree has

A form leads to others by its fields, and those lead further.  The tree of a form has the fields of
all that can be reached in this way through forms that are not deleted, and no others
(`mem_listing_iff`).  Nothing is lost where a reference leads back to a form on the way: its fields
stand higher up already.
-/

namespace Fieldbook

namespace FormSource

/-- A form that another one leads to, through forms that are not deleted. -/
inductive Reaches (source : FormSource) (root : ResourceId) : ResourceId → Prop where
  | self : Reaches source root root
  | step {id target : ResourceId} {f : Form} {field : FormField} (reached : Reaches source root id)
      (given : (source.form? id).answer = .ok (some f)) (declared : field ∈ f.fields)
      (leads : target ∈ field.type.range.toList) (kept : source.isDeleted target ≠ .ok true) :
      Reaches source root target

/-- The field is one of those that the form of a name declares. -/
def Declares (source : FormSource) (id : ResourceId) (field : FormField) : Prop :=
  ∃ f, (source.form? id).answer = .ok (some f) ∧ field ∈ f.fields

end FormSource

namespace FormTree

variable {source : FormSource} {limit i p : Nat} {root : Form} {ns : List PlacedNode}
  {n : PlacedNode} {id target : ResourceId} {forms : List ResourceId}

/-- **The fields right under a node** are those of the forms found there. -/
theorem Shape.found (h : Shape source limit root ns) (hget : ns[i]? = some n) :
    ∃ forms found, Lineage ns i forms ∧ Found source forms n.field found ∧
      ∀ d, (∃ f ∈ found, d ∈ f.declared) ↔
        ∃ (j : Nat) (m : PlacedNode), ns[j]? = some m ∧ m.parent = some i ∧ m.declared = d := by
  obtain ⟨forms, found, hlineage, -, -, hfound, hchildren⟩ := h.below i n hget
  refine ⟨forms, found, hlineage, hfound, fun d => ?_⟩
  have hmem : (∃ f ∈ found, d ∈ f.declared) ↔
      some d ∈ n.children.map fun j => (ns[j]?).map PlacedNode.declared := by
    rw [hchildren, List.mem_map_of_injective (fun _ _ h => Option.some.inj h), List.mem_flatMap]
  rw [hmem, List.mem_map]
  constructor
  · rintro ⟨j, hj, hd⟩
    obtain ⟨m, hm, hparent⟩ := ((h.children i n hget).2 j).mp hj
    rw [hm] at hd
    exact ⟨j, m, hm, hparent, Option.some.inj hd⟩
  · rintro ⟨j, m, hm, hparent, rfl⟩
    exact ⟨j, ((h.children i n hget).2 j).mpr ⟨m, hm, hparent⟩, by rw [hm]; rfl⟩

/-- The fields at the root. -/
theorem Shape.mem_top (h : Shape source limit root ns) {d : ResourceId × FormField} :
    (∃ n ∈ ns, n.parent = none ∧ n.declared = d) ↔
      d ∈ (root.id, creatorField) :: (root.id, submissionTimeField) :: root.declared := by
  rw [← h.top, List.mem_map]
  simp only [List.mem_filter, decide_eq_true_eq, and_assoc]

theorem mem_declared {f : Form} {field : FormField} :
    (id, field) ∈ f.declared ↔ f.id = id ∧ field ∈ f.fields := by
  simp [Form.declared, and_comm]

/-- A field at the root is one of the root, or one that every form has. -/
theorem Shape.declared_at_top (h : Shape source limit root ns) (hget : ns[i]? = some n)
    (hparent : n.parent = none) :
    n.form = root.id ∧
      (n.field ∈ root.fields ∨ n.field = creatorField ∨ n.field = submissionTimeField) := by
  have htop := h.mem_top.mp ⟨n, List.mem_of_getElem? hget, hparent, rfl⟩
  simp only [PlacedNode.declared, List.mem_cons, Prod.mk.injEq, mem_declared] at htop
  rcases htop with ⟨hform, hfield⟩ | ⟨hform, hfield⟩ | ⟨hform, hfield⟩
  · exact ⟨hform, .inr (.inl hfield)⟩
  · exact ⟨hform, .inr (.inr hfield)⟩
  · exact ⟨hform.symm, .inl hfield⟩

/-! ## Forms with all their fields -/

/-- Every field of the form has a node. -/
def Expanded (source : FormSource) (ns : List PlacedNode) (id : ResourceId) : Prop :=
  ∀ field, source.Declares id field → ∃ n ∈ ns, n.declared = (id, field)

/-- **A form that is found under a node** is expanded there. -/
theorem Shape.expanded_found (h : Shape source limit root ns) (hget : ns[i]? = some n) :
    ∃ forms found, Lineage ns i forms ∧ Found source forms n.field found ∧
      (∀ f ∈ found, Expanded source ns f.id) ∧
      ∀ (j : Nat) (m : PlacedNode), ns[j]? = some m → m.parent = some i →
        ∃ f ∈ found, f.id = m.form ∧ m.field ∈ f.fields := by
  obtain ⟨forms, found, hlineage, hfound, hbelow⟩ := h.found hget
  refine ⟨forms, found, hlineage, hfound, ?_, fun j m hm hparent => ?_⟩
  · rintro f hf field ⟨g, hg, hmem⟩
    obtain rfl := Option.some.inj (Except.ok.inj ((hfound.given f hf).symm.trans hg))
    obtain ⟨j, m, hm, -, hd⟩ := (hbelow (f.id, field)).mp ⟨f, hf, mem_declared.mpr ⟨rfl, hmem⟩⟩
    exact ⟨m, List.mem_of_getElem? hm, hd⟩
  · obtain ⟨f, hf, hd⟩ := (hbelow m.declared).mpr ⟨j, m, hm, hparent, rfl⟩
    exact ⟨f, hf, mem_declared.mp hd⟩

theorem Shape.exists_parent (h : Shape source limit root ns) (hget : ns[i]? = some n)
    (hparent : n.parent = some p) : p < i ∧ ∃ m, ns[p]? = some m := by
  have hlt := h.parent_lt i p n hget hparent
  obtain ⟨hi, -⟩ := List.getElem?_eq_some_iff.mp hget
  exact ⟨hlt, ns[p], List.getElem?_eq_getElem (Nat.lt_trans hlt hi)⟩

/-! ## What has nodes can be reached -/

/-- **The form of a node can be reached,** and declares its field unless every form has it. -/
theorem Shape.reaches_of_get (h : Shape source limit root ns)
    (hroot : (source.form? root.id).answer = .ok (some root)) (hget : ns[i]? = some n) :
    source.Reaches root.id n.form ∧ (source.Declares n.form n.field ∨
      n.form = root.id ∧ (n.field = creatorField ∨ n.field = submissionTimeField)) := by
  induction i using Nat.strongRecOn generalizing n with
  | ind i ih =>
    cases hparent : n.parent with
    | none =>
      obtain ⟨hform, hfield | hintrinsic⟩ := h.declared_at_top hget hparent
      · exact ⟨hform ▸ .self, .inl ⟨root, hform ▸ hroot, hfield⟩⟩
      · exact ⟨hform ▸ .self, .inr ⟨hform, hintrinsic⟩⟩
    | some p =>
      obtain ⟨hlt, m, hp⟩ := h.exists_parent hget hparent
      obtain ⟨forms, found, -, hfound, -, hbelow⟩ := h.expanded_found hp
      obtain ⟨f, hf, hform, hfield⟩ := hbelow i n hget hparent
      obtain ⟨hrange, hkept⟩ := (hfound.all f.id).mp (List.mem_map_of_mem hf)
      obtain ⟨hreached, hdeclares⟩ := ih p hlt hp
      refine ⟨?_, .inl ⟨f, hform ▸ hfound.given f hf, hfield⟩⟩
      rcases hdeclares with ⟨g, hg, hmem⟩ | ⟨-, hintrinsic⟩
      · exact hform ▸ .step hreached hg hmem hrange fun hdeleted => hkept (.inl hdeleted)
      · -- nothing stands under the fields that every form has
        rcases hintrinsic with heq | heq <;> rw [heq] at hrange <;> cases hrange

/-! ## What can be reached has nodes -/

theorem Shape.expanded_root (h : Shape source limit root ns)
    (hroot : (source.form? root.id).answer = .ok (some root)) : Expanded source ns root.id := by
  rintro field ⟨f, hf, hmem⟩
  obtain rfl := Option.some.inj (Except.ok.inj (hroot.symm.trans hf))
  have hd : (root.id, field) ∈ root.declared := mem_declared.mpr ⟨rfl, hmem⟩
  obtain ⟨n, hn, -, hdeclared⟩ := h.mem_top.mpr
    (List.mem_cons_of_mem _ (List.mem_cons_of_mem _ hd))
  exact ⟨n, hn, hdeclared⟩

/-- **A form with one of its fields in the tree is there with all of them.** -/
theorem Shape.expanded_of_get (h : Shape source limit root ns)
    (hroot : (source.form? root.id).answer = .ok (some root)) (hget : ns[i]? = some n) :
    Expanded source ns n.form := by
  cases hparent : n.parent with
  | none => exact (h.declared_at_top hget hparent).1 ▸ h.expanded_root hroot
  | some p =>
    obtain ⟨-, m, hp⟩ := h.exists_parent hget hparent
    obtain ⟨forms, found, -, -, hexpanded, hbelow⟩ := h.expanded_found hp
    obtain ⟨f, hf, hform, -⟩ := hbelow i n hget hparent
    exact hform ▸ hexpanded f hf

theorem exists_get_of_lineage (h : Lineage ns i forms) (hid : id ∈ forms) :
    ∃ (j : Nat) (m : PlacedNode), ns[j]? = some m ∧ m.form = id := by
  induction h with
  | @top i n hget _ => exact ⟨i, n, hget, (List.mem_singleton.mp hid).symm⟩
  | @under i p n forms hget _ _ ih =>
    rcases List.mem_cons.mp hid with rfl | hid
    · exact ⟨i, n, hget, rfl⟩
    · exact ih hid

/-- **A form that can be reached is expanded.** -/
theorem Shape.expanded_of_reaches (h : Shape source limit root ns)
    (hroot : (source.form? root.id).answer = .ok (some root))
    (hreaches : source.Reaches root.id id) : Expanded source ns id := by
  induction hreaches with
  | self => exact h.expanded_root hroot
  | @step id target f field _ given declared leads kept ih =>
    obtain ⟨n, hn, hd⟩ := ih field ⟨f, given, declared⟩
    obtain ⟨-, rfl⟩ := Prod.mk.inj hd
    obtain ⟨i, hget⟩ := List.mem_iff_getElem?.mp hn
    obtain ⟨forms, found, hlineage, hfound, hexpanded, -⟩ := h.expanded_found hget
    by_cases homitted : Omitted source forms n.field target
    · -- the form is on the way already, since it is not deleted
      obtain ⟨-, hback⟩ := homitted.resolve_left kept
      obtain ⟨j, m, hm, rfl⟩ := exists_get_of_lineage hlineage hback
      exact h.expanded_of_get hroot hm
    · obtain ⟨g, hg, rfl⟩ := List.mem_map.mp ((hfound.all target).mpr ⟨leads, homitted⟩)
      exact hexpanded g hg

/-- **Whose fields a tree has:** those of the forms that its root leads to. -/
theorem mem_listing_iff {root : ResourceId} {tree : FormTree} {d : ResourceId × FormField}
    (hsource : ∀ id f, (source.form? id).answer = .ok (some f) → f.id = id)
    (h : (build source limit root).answer = .ok tree) :
    (∃ n ∈ tree.listing, n.declared = d) ↔
      source.Reaches root d.1 ∧ source.Declares d.1 d.2 ∨
        d.1 = root ∧ (d.2 = creatorField ∨ d.2 = submissionTimeField) := by
  obtain ⟨hroot, nodes, hnodes, hfields, hgrown⟩ := grown_of_build hsource h
  have hshape := Shape.of_grown hnodes hfields hgrown
  obtain rfl := hsource root tree.root hroot
  constructor
  · rintro ⟨n, hn, rfl⟩
    obtain ⟨i, hget⟩ := List.mem_iff_getElem?.mp hn
    obtain ⟨hreaches, hdeclares⟩ := hshape.reaches_of_get hroot hget
    exact hdeclares.imp_left fun hdeclares => ⟨hreaches, hdeclares⟩
  · rintro (⟨hreaches, hdeclares⟩ | ⟨hform, hfield⟩)
    · exact hshape.expanded_of_reaches hroot hreaches d.2 hdeclares
    · have htop : d ∈ (tree.root.id, creatorField) :: (tree.root.id, submissionTimeField) ::
          tree.root.declared := by
        rcases hfield with hfield | hfield
        · exact List.mem_cons.mpr (.inl (Prod.ext hform hfield))
        · exact List.mem_cons_of_mem _ (List.mem_cons.mpr (.inl (Prod.ext hform hfield)))
      obtain ⟨n, hn, -, hd⟩ := hshape.mem_top.mpr htop
      exact ⟨n, hn, hd⟩

end FormTree

end Fieldbook
