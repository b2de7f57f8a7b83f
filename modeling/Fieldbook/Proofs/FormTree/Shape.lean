import Fieldbook.Proofs.FormTree.Growing

/-!
# Proofs/FormTree/Shape — the shape of the tree of a form

What the nodes of a built tree tell by their numbers (`FormTree.Shape`): they stand depth first, a
node names its parent and its children rightly, and the fields under a node are those of the forms
that it leads to, in the order of the names of the forms and then in document order.  A form is missing there
only if it is deleted or if a reference leads back to it, so the forms on the way to a node are
different ones, and no more than the limit allows (`Shape.of_grown`).
-/

namespace Fieldbook.FormTree

open FieldNode

/-- The shape of a tree of fields that `root` is the form of, told by the numbers of its nodes. -/
structure Shape (source : FormSource) (limit : Nat) (root : Form) (ns : List PlacedNode) : Prop where
  /-- The nodes 0 and 1 are those of the two fields that every form has. -/
  first : ns.take 2 = [creatorField, submissionTimeField].map fun field =>
    { form := root.id, field := field, intrinsic := true, parent := none, children := [],
      path := [field.id], childFields := [] }
  intrinsic : ∀ (i : Nat) (n : PlacedNode), ns[i]? = some n → (n.intrinsic ↔ i < 2)
  parent_lt : ∀ (i p : Nat) (n : PlacedNode), ns[i]? = some n → n.parent = some p → p < i
  /-- The children of a node are those that name it as their parent. -/
  children : ∀ (i : Nat) (n : PlacedNode), ns[i]? = some n → n.children.Pairwise (· < ·) ∧
    ∀ j, j ∈ n.children ↔ ∃ m : PlacedNode, ns[j]? = some m ∧ m.parent = some i
  /-- Depth first: the nodes under a node follow it without a gap. -/
  under : ∀ (i : Nat) (n : PlacedNode), ns[i]? = some n → ∃ stop, ∀ j, Under ns i j ↔ i ≤ j ∧ j < stop
  /-- The fields at the root. -/
  top : (ns.filter fun n => n.parent = none).map PlacedNode.declared =
    (root.id, creatorField) :: (root.id, submissionTimeField) :: root.declared
  /-- The fields under a node, and the forms on the way to it. -/
  below : ∀ (i : Nat) (n : PlacedNode), ns[i]? = some n → ∃ forms found, Lineage ns i forms ∧
    forms.Nodup ∧ forms.length ≤ limit + 1 ∧ Found source forms n.field found ∧
    n.children.map (fun j => (ns[j]?).map PlacedNode.declared) =
      (found.flatMap Form.declared).map some

variable {source : FormSource} {limit i : Nat} {q : Option Nat} {forms : List ResourceId}
  {n : FieldNode} {nodes : List FieldNode} {root : Form}

/-- No form belongs under a field that every form has. -/
theorem grown_intrinsic (h : n ∈ intrinsicNodes root.id) : Grown source limit [root.id] n := by
  have hn : n.children = [] ∧ n.field.type.range.toList = [] := by
    simp only [intrinsicNodes, List.mem_cons, List.not_mem_nil, or_false] at h
    rcases h with rfl | rfl <;> exact ⟨rfl, rfl⟩
  have hfound : Found source [root.id] n.field [] :=
    { ascending := .nil
      all := fun _ => by simp [hn.2]
      given := fun _ hf => absurd hf List.not_mem_nil }
  refine .intro (List.nodup_singleton _) (Nat.le_add_left 1 limit) hfound ?_ ?_ ?_
  all_goals simp [hn.1]

/-- **Every node has all that belongs under it,** and the first two are those of every form. -/
theorem grown_of_placed
    (hgrown : ∀ n ∈ nodes, n.isIntrinsic = false ∧ Grown source limit [n.form] n)
    (h : Placed (intrinsicNodes root.id ++ nodes) i q forms n) :
    (n.isIntrinsic ↔ i < 2) ∧ (i < 2 → n.children = []) ∧ Grown source limit forms n := by
  induction h with
  | @top before after n hf =>
    rcases before with _ | ⟨a, _ | ⟨b, before⟩⟩
    · obtain ⟨rfl, -⟩ := List.cons.inj hf
      exact ⟨iff_of_true rfl Nat.zero_lt_two, fun _ => rfl, grown_intrinsic List.mem_cons_self⟩
    · obtain ⟨rfl, htail⟩ := List.cons.inj hf
      obtain ⟨rfl, -⟩ := List.cons.inj htail
      exact ⟨iff_of_true rfl Nat.one_lt_two, fun _ => rfl,
        grown_intrinsic (List.mem_cons_of_mem _ List.mem_cons_self)⟩
    · obtain ⟨-, htail⟩ := List.cons.inj hf
      obtain ⟨-, rfl⟩ := List.cons.inj htail
      obtain ⟨hn, hn'⟩ := hgrown n (by simp)
      have hi : 2 ≤ sizeAll (a :: b :: before) := by
        have ha := a.size_pos
        have hb := b.size_pos
        simp only [sizeAll]
        omega
      exact ⟨iff_of_false (by simp [hn]) (Nat.not_lt_of_le hi),
        fun hlt => absurd hlt (Nat.not_lt_of_le hi), hn'⟩
  | @under p q forms m n before after _ hc ih =>
    have hmem : n ∈ m.children := by simp [hc]
    obtain ⟨-, hleaf, _, _, _, _, hintrinsic, hgrown⟩ := ih
    have hi : 2 ≤ p + 1 + sizeAll before := by
      have hp : ¬p < 2 := fun hlt => absurd (hleaf hlt ▸ hmem) List.not_mem_nil
      omega
    exact ⟨iff_of_false (by simp [hintrinsic n hmem]) (Nat.not_lt_of_le hi),
      fun hlt => absurd hlt (Nat.not_lt_of_le hi), hgrown n hmem⟩

/-- A node of the listing has a place. -/
theorem exists_place {tree : FormTree} {placed : PlacedNode} (h : tree.listing[i]? = some placed) :
    ∃ q forms n path, Placed tree.nodes i q forms n ∧ placed = n.place i q path := by
  obtain ⟨hlt, -⟩ := List.getElem?_eq_some_iff.mp h
  obtain ⟨q, forms, n, hn⟩ := exists_placed hlt
  obtain ⟨path, hget⟩ := hn.getElem?
  exact ⟨q, forms, n, path, hn, Option.some.inj (h.symm.trans hget)⟩

/-- **A tree that is grown from its root form** has this shape. -/
theorem Shape.of_grown {tree : FormTree}
    (hnodes : tree.nodes = intrinsicNodes tree.root.id ++ nodes)
    (hfields : nodes.map FieldNode.declared = tree.root.declared)
    (hgrown : ∀ n ∈ nodes, n.isIntrinsic = false ∧ Grown source limit [tree.root.id] n) :
    Shape source limit tree.root tree.listing := by
  have hplaced : ∀ {i q forms n}, Placed tree.nodes i q forms n →
      (n.isIntrinsic ↔ i < 2) ∧ (i < 2 → n.children = []) ∧ Grown source limit forms n := by
    rw [hnodes]
    refine grown_of_placed fun n hn => ?_
    rw [form_of_mem_declared hfields hn]
    exact hgrown n hn
  refine ⟨?_, ?_, ?_, ?_, ?_, ?_, ?_⟩
  · rw [listing, hnodes, listingAll_append]
    rfl
  · intro i placed hget
    obtain ⟨q, forms, n, path, hn, rfl⟩ := exists_place hget
    exact (hplaced hn).1
  · intro i p placed hget hparent
    obtain ⟨q, forms, n, path, hn, rfl⟩ := exists_place hget
    obtain rfl : q = some p := hparent
    exact hn.parent_lt
  · intro i placed hget
    obtain ⟨q, forms, n, path, hn, rfl⟩ := exists_place hget
    exact ⟨ascending_numbers _ _, fun _ => hn.mem_numbers_iff⟩
  · intro i placed hget
    obtain ⟨q, forms, n, path, hn, rfl⟩ := exists_place hget
    exact ⟨i + n.size, fun _ => hn.under_iff⟩
  · rw [listing, declared_tops, hnodes, List.map_append, hfields]
    rfl
  · intro i placed hget
    obtain ⟨q, forms, n, path, hn, rfl⟩ := exists_place hget
    obtain ⟨-, -, hnodup, hlength, hfound, hbelow, -, -⟩ := hplaced hn
    refine ⟨forms, _, hn.lineage, hnodup, hlength, hfound, ?_⟩
    rw [← hbelow, List.map_map]
    exact hn.declared_children

/-- **The shape of the tree of a form.** -/
theorem shape_of_build {source : FormSource} {limit : Nat} {root : ResourceId} {tree : FormTree}
    (hsource : ∀ id f, (source.form? id).answer = .ok (some f) → f.id = id)
    (h : (build source limit root).answer = .ok tree) :
    (source.form? root).answer = .ok (some tree.root) ∧
      Shape source limit tree.root tree.listing := by
  obtain ⟨hroot, nodes, hnodes, hfields, hgrown⟩ := grown_of_build hsource h
  exact ⟨hroot, .of_grown hnodes hfields hgrown⟩

/-- A field that points at resources of some forms. -/
def pointsAt (id : String) (range : List ResourceId) : FormField where
  id := ⟨id⟩
  label := id
  description := none
  type := .reference .single (.ofList range)
  required := false
  readOnly := false

/-- Visits of sites, and the sites, which are near others. -/
def siteForms : List Form :=
  [⟨⟨"visit"⟩, ⟨"home"⟩, "Visit", none,
      [.field (pointsAt "site" [⟨"visit"⟩, ⟨"place"⟩, ⟨"old"⟩])]⟩,
    ⟨⟨"place"⟩, ⟨"home"⟩, "Place", none, [.field (pointsAt "near" [⟨"place"⟩])]⟩,
    ⟨⟨"old"⟩, ⟨"home"⟩, "Old place", none, []⟩]

def siteSource : FormSource := .ofList (siteForms.map fun f => (f.id, f)) [⟨"old"⟩]

/-- Forms that are given under their own names. -/
theorem id_of_lookup {fs : List Form} {id : ResourceId} {f : Form}
    (h : (fs.map fun f => (f.id, f)).lookup id = some f) : f.id = id := by
  induction fs with
  | nil => simp at h
  | cons g fs ih =>
    rw [List.map_cons, List.lookup_cons] at h
    split at h
    · next heq =>
      obtain rfl := Option.some.inj h
      exact (eq_of_beq heq).symm
    · exact ih h

theorem mem_of_lookup {fs : List Form} {id : ResourceId} {f : Form}
    (h : (fs.map fun f => (f.id, f)).lookup id = some f) : f ∈ fs := by
  obtain ⟨before, after, hsplit, -⟩ := List.lookup_eq_some_iff.mp h
  have hmem : (id, f) ∈ fs.map fun f => (f.id, f) := by simp [hsplit]
  obtain ⟨g, hg, heq⟩ := List.mem_map.mp hmem
  exact (Prod.mk.inj heq).2 ▸ hg

theorem shape_of_build_visit : ∃ tree, (build siteSource 1 ⟨"visit"⟩).answer = .ok tree ∧
    tree.listing.map (fun n => (n.field.id.text, n.parent)) =
      [("_creator", none), ("_commit_time", none), ("site", none), ("near", some 2)] ∧
    Shape siteSource 1 tree.root tree.listing := by
  have hsource : ∀ id f, (siteSource.form? id).answer = .ok (some f) → f.id = id :=
    fun _ _ h => id_of_lookup (Except.ok.inj h)
  have hbuild : ∃ tree, (build siteSource 1 ⟨"visit"⟩).answer = .ok tree ∧
      tree.listing.map (fun n => (n.field.id.text, n.parent)) =
        [("_creator", none), ("_commit_time", none), ("site", none), ("near", some 2)] :=
    ⟨_, rfl, rfl⟩
  obtain ⟨tree, htree, hlisting⟩ := hbuild
  exact ⟨tree, htree, hlisting, (shape_of_build hsource htree).2⟩

end Fieldbook.FormTree
