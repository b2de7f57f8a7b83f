import Fieldbook.FormTree.Basic

/-!
# Proofs/FormTree/Places — where the nodes of a tree stand in its listing

A node is placed by the way down to it: past the nodes before it on each level, and past one node for
each level (`Placed`).  The listing has the node there (`Placed.getElem?`), every number is the place
of one node (`exists_placed`, `Placed.unique`), and the nodes under a node follow it without a gap
(`Placed.under_iff`).  So what a listing says by numbers is what the tree says by its shape.
-/

namespace Fieldbook

/-- The field of a node with the form that declares it. -/
def PlacedNode.declared (n : PlacedNode) : ResourceId × FormField := (n.form, n.field)

/-- The number `i` is that of the node `a` or of one under it. -/
inductive Under (ns : List PlacedNode) (a : Nat) : Nat → Prop
  | self : Under ns a a
  | step {p i : Nat} {n : PlacedNode} :
    Under ns a p → ns[i]? = some n → n.parent = some p → Under ns a i

/-- The forms of the fields on the way from a node up to the root. -/
inductive Lineage (ns : List PlacedNode) : Nat → List ResourceId → Prop
  | top {i : Nat} {n : PlacedNode} : ns[i]? = some n → n.parent = none → Lineage ns i [n.form]
  | under {i p : Nat} {n : PlacedNode} {forms : List ResourceId} :
    ns[i]? = some n → n.parent = some p → Lineage ns p forms → Lineage ns i (n.form :: forms)

namespace FieldNode

variable {f g tops before after before' after' : List FieldNode} {n n' m m' : FieldNode}
  {start i j p a : Nat} {q q' parent : Option Nat} {path : List FieldId}
  {forms forms' : List ResourceId}

/-! ## Sizes and numbers -/

theorem size_pos (n : FieldNode) : 0 < n.size := by
  obtain ⟨_, _, _, _⟩ := n
  rw [size]
  omega

theorem size_eq (n : FieldNode) : n.size = 1 + sizeAll n.children := by
  obtain ⟨_, _, _, _⟩ := n
  rw [size, children]

theorem sizeAll_append (f g : List FieldNode) : sizeAll (f ++ g) = sizeAll f + sizeAll g := by
  induction f with
  | nil => simp [sizeAll]
  | cons n f ih => simp [sizeAll, ih, Nat.add_assoc]

theorem sizeAll_split (h : f = before ++ n :: after) :
    sizeAll f = sizeAll before + n.size + sizeAll after := by
  rw [h, sizeAll_append, sizeAll, Nat.add_assoc]

/-- Every number below the size of some nodes falls to one of them. -/
theorem exists_split (h : i < sizeAll f) : ∃ before n after, f = before ++ n :: after ∧
    sizeAll before ≤ i ∧ i < sizeAll before + n.size := by
  induction f generalizing i with
  | nil => exact absurd h (Nat.not_lt_zero i)
  | cons n f ih =>
    rw [sizeAll] at h
    by_cases hi : i < n.size
    · exact ⟨[], n, f, rfl, Nat.zero_le i, by simpa [sizeAll] using hi⟩
    · obtain ⟨before, m, after, rfl, hle, hlt⟩ := ih (i := i - n.size) (by omega)
      exact ⟨n :: before, m, after, rfl, by simp only [sizeAll]; omega, by simp only [sizeAll]; omega⟩

/-- The nodes before a node are told by their size. -/
theorem split_unique (h : before ++ n :: after = before' ++ n' :: after')
    (hsize : sizeAll before = sizeAll before') : n = n' := by
  induction before generalizing before' with
  | nil =>
    rcases before' with _ | ⟨d, before'⟩
    · exact (List.cons.inj h).1
    · have hpos := d.size_pos
      simp only [sizeAll] at hsize
      omega
  | cons c before ih =>
    rcases before' with _ | ⟨d, before'⟩
    · have hpos := c.size_pos
      simp only [sizeAll] at hsize
      omega
    · obtain ⟨rfl, htail⟩ := List.cons.inj h
      exact ih htail (Nat.add_left_cancel hsize)

theorem mem_numbers : j ∈ numbers start f ↔
    ∃ before n after, f = before ++ n :: after ∧ j = start + sizeAll before := by
  induction f generalizing start with
  | nil => simp [numbers]
  | cons n f ih =>
    rw [numbers, List.mem_cons, ih]
    constructor
    · rintro (rfl | ⟨before, m, after, rfl, rfl⟩)
      · exact ⟨[], n, f, rfl, rfl⟩
      · exact ⟨n :: before, m, after, rfl, by rw [sizeAll, Nat.add_assoc]⟩
    · rintro ⟨before, m, after, hf, rfl⟩
      rcases before with _ | ⟨c, before⟩
      · exact .inl rfl
      · obtain ⟨rfl, rfl⟩ := List.cons.inj hf
        exact .inr ⟨before, m, after, rfl, by rw [sizeAll, Nat.add_assoc]⟩

/-- **Numbers ascend.** -/
theorem ascending_numbers (f : List FieldNode) (start : Nat) :
    (numbers start f).Pairwise (· < ·) := by
  induction f generalizing start with
  | nil => exact .nil
  | cons n f ih =>
    refine List.pairwise_cons.mpr ⟨fun j hj => ?_, ih _⟩
    obtain ⟨before, _, _, _, rfl⟩ := mem_numbers.mp hj
    have hpos := n.size_pos
    omega

/-! ## The listing of a part -/

/-- A node in its place. -/
def place (i : Nat) (parent : Option Nat) (path : List FieldId) (n : FieldNode) : PlacedNode where
  form := n.form
  field := n.field
  intrinsic := n.isIntrinsic
  parent := parent
  children := numbers (i + 1) n.children
  path := path ++ [n.field.id]
  childFields := n.children.map fun c => c.field.id

theorem listing_eq : n.listing i parent path =
    n.place i parent path :: listingAll (i + 1) (some i) (path ++ [n.field.id]) n.children := by
  obtain ⟨_, _, _, _⟩ := n
  rw [listing]
  rfl

theorem listingAll_append : listingAll start parent path (f ++ g) =
    listingAll start parent path f ++ listingAll (start + sizeAll f) parent path g := by
  induction f generalizing start with
  | nil => simp [listingAll, sizeAll]
  | cons n f ih => simp [listingAll, sizeAll, ih, Nat.add_assoc]

mutual

theorem length_listing (i : Nat) (parent : Option Nat) (path : List FieldId) :
    ∀ n : FieldNode, (n.listing i parent path).length = n.size
  | .node _ _ _ children => by
    rw [listing, List.length_cons, length_listingAll, size, Nat.add_comm]

theorem length_listingAll (start : Nat) (parent : Option Nat) (path : List FieldId) :
    ∀ f : List FieldNode, (listingAll start parent path f).length = sizeAll f
  | [] => by rw [listingAll, sizeAll, List.length_nil]
  | n :: f => by
    rw [listingAll, List.length_append, length_listing, length_listingAll, sizeAll]

end

/-! ## Places -/

/-- The node `n` has the number `i` and the parent `q`, and `forms` are the forms of the fields from
it up to the root. -/
inductive Placed (tops : List FieldNode) :
    Nat → Option Nat → List ResourceId → FieldNode → Prop
  | top {before after : List FieldNode} {n : FieldNode} :
    tops = before ++ n :: after → Placed tops (sizeAll before) none [n.form] n
  | under {p : Nat} {q : Option Nat} {forms : List ResourceId} {m n : FieldNode}
      {before after : List FieldNode} :
    Placed tops p q forms m → m.children = before ++ n :: after →
      Placed tops (p + 1 + sizeAll before) (some p) (n.form :: forms) n

/-- The listing of a node stands at its number. -/
theorem Placed.listing (h : Placed tops i q forms n) :
    ∃ pre post path, listingAll 0 none [] tops = pre ++ (n.listing i q path ++ post) ∧
      pre.length = i := by
  induction h with
  | @top before after n hf =>
    refine ⟨listingAll 0 none [] before, listingAll (sizeAll before + n.size) none [] after, [], ?_,
      length_listingAll _ _ _ before⟩
    rw [hf, listingAll_append, Nat.zero_add, listingAll]
  | @under p q forms m n before after _ hm ih =>
    obtain ⟨pre, post, path, hpre, rfl⟩ := ih
    refine ⟨pre ++ m.place pre.length q path :: listingAll (pre.length + 1) (some pre.length)
      (path ++ [m.field.id]) before, listingAll (pre.length + 1 + sizeAll before + n.size)
      (some pre.length) (path ++ [m.field.id]) after ++ post, path ++ [m.field.id], ?_, ?_⟩
    · rw [hpre, listing_eq, hm, listingAll_append, listingAll]
      simp
    · simp only [List.length_append, List.length_cons, length_listingAll]
      omega

/-- **The listing has the node at its place.** -/
theorem Placed.getElem? (h : Placed tops i q forms n) :
    ∃ path, (listingAll 0 none [] tops)[i]? = some (n.place i q path) := by
  obtain ⟨pre, post, path, hns, rfl⟩ := h.listing
  refine ⟨path, ?_⟩
  rw [hns, listing_eq, List.getElem?_append_right (Nat.le_refl _), Nat.sub_self]
  rfl

/-- Every number that falls to a node or to one under it is a place. -/
theorem Placed.reach (h : Placed tops p q forms m) (hle : p ≤ i) (hlt : i < p + m.size)
    (hunder : Under (listingAll 0 none [] tops) a p) :
    Under (listingAll 0 none [] tops) a i ∧ ∃ q' forms' n, Placed tops i q' forms' n := by
  induction hk : m.size using Nat.strongRecOn generalizing p q forms m with
  | ind k ih =>
    by_cases hi : i = p
    · subst hi
      exact ⟨hunder, q, forms, m, h⟩
    · rw [size_eq] at hlt hk
      have hrest : i - (p + 1) < sizeAll m.children := by omega
      obtain ⟨before, c, after, hc, hle', hlt'⟩ := exists_split hrest
      have hplaced : Placed tops (p + 1 + sizeAll before) (some p) _ c := h.under hc
      have hsmaller : c.size < k := by
        rw [← hk, sizeAll_split hc]
        omega
      obtain ⟨path, hget⟩ := hplaced.getElem?
      exact ih c.size hsmaller hplaced (by omega) (by omega) (.step hunder hget rfl) rfl

/-- **Every number of the listing is a place.** -/
theorem exists_placed (h : i < (listingAll 0 none [] tops).length) :
    ∃ q forms n, Placed tops i q forms n := by
  rw [length_listingAll] at h
  obtain ⟨before, m, after, htops, hle, hlt⟩ := exists_split h
  exact ((Placed.top htops).reach hle hlt .self).2

theorem Placed.parent_eq (h : Placed tops i q forms n) (h' : Placed tops i q' forms' n') :
    q = q' := by
  obtain ⟨_, hget⟩ := h.getElem?
  obtain ⟨_, hget'⟩ := h'.getElem?
  exact congrArg PlacedNode.parent (Option.some.inj (hget.symm.trans hget'))

/-- **A place is that of one node.** -/
theorem Placed.unique (h : Placed tops i q forms n) :
    ∀ {q' forms' n'}, Placed tops i q' forms' n' → forms = forms' ∧ n = n' := by
  induction h with
  | top hf =>
    intro q' forms' n' h'
    obtain rfl := (Placed.top hf).parent_eq h'
    generalize hi : sizeAll _ = i at h'
    rcases h' with ⟨hf'⟩ | _
    obtain rfl := split_unique (hf.symm.trans hf') hi
    exact ⟨rfl, rfl⟩
  | under hm hc ih =>
    intro q' forms' n' h'
    obtain rfl := (hm.under hc).parent_eq h'
    generalize hi : _ + sizeAll _ = i at h'
    rcases h' with _ | ⟨hm', hc'⟩
    obtain ⟨rfl, rfl⟩ := ih hm'
    obtain rfl := split_unique (hc.symm.trans hc') (Nat.add_left_cancel hi)
    exact ⟨rfl, rfl⟩

/-! ## What the listing tells of a place -/

theorem Placed.lineage (h : Placed tops i q forms n) :
    Lineage (listingAll 0 none [] tops) i forms := by
  induction h with
  | top hf =>
    obtain ⟨_, hget⟩ := (Placed.top hf).getElem?
    exact .top hget rfl
  | under hm hc ih =>
    obtain ⟨_, hget⟩ := (hm.under hc).getElem?
    exact .under hget rfl ih

/-- A node stands after its parent. -/
theorem Placed.parent_lt (h : Placed tops i (some p) forms n) : p < i := by
  rcases h with _ | ⟨_, _⟩
  omega

/-- The parent of a node has a place, and the node is one of those right under it. -/
theorem Placed.of_parent (h : Placed tops i (some p) forms n) : ∃ q forms m before after,
    Placed tops p q forms m ∧ m.children = before ++ n :: after ∧ i = p + 1 + sizeAll before := by
  rcases h with _ | ⟨hm, hc⟩
  exact ⟨_, _, _, _, _, hm, hc, rfl⟩

/-- **The children of a node** are the nodes that name it as their parent. -/
theorem Placed.mem_numbers_iff (h : Placed tops i q forms n) : j ∈ numbers (i + 1) n.children ↔
    ∃ m, (listingAll 0 none [] tops)[j]? = some m ∧ m.parent = some i := by
  rw [mem_numbers]
  constructor
  · rintro ⟨before, c, after, hc, rfl⟩
    obtain ⟨path, hget⟩ := (h.under hc).getElem?
    exact ⟨_, hget, rfl⟩
  · rintro ⟨m, hget, hparent⟩
    obtain ⟨hlt, -⟩ := List.getElem?_eq_some_iff.mp hget
    obtain ⟨q', forms', c, hplaced⟩ := exists_placed hlt
    obtain ⟨_, hget'⟩ := hplaced.getElem?
    obtain rfl := Option.some.inj (hget.symm.trans hget')
    obtain rfl : q' = some i := hparent
    obtain ⟨_, _, m, before, after, hm, hc, rfl⟩ := hplaced.of_parent
    obtain ⟨-, rfl⟩ := h.unique hm
    exact ⟨before, c, after, hc, rfl⟩

/-- A node under another one has its place within it. -/
theorem Placed.within (h : Placed tops a q forms m) (hunder : Under (listingAll 0 none [] tops) a j) :
    ∃ q' forms' n, Placed tops j q' forms' n ∧ a ≤ j ∧ j + n.size ≤ a + m.size := by
  induction hunder with
  | self => exact ⟨q, forms, m, h, Nat.le_refl _, Nat.le_refl _⟩
  | @step p i n _ hget hparent ih =>
    obtain ⟨_, _, c, hc, hle, hsize⟩ := ih
    obtain ⟨hlt, -⟩ := List.getElem?_eq_some_iff.mp hget
    obtain ⟨q', forms', d, hd⟩ := exists_placed hlt
    obtain ⟨_, hget'⟩ := hd.getElem?
    obtain rfl := Option.some.inj (hget.symm.trans hget')
    obtain rfl : q' = some p := hparent
    obtain ⟨_, _, c', before, after, hc', hsplit, rfl⟩ := hd.of_parent
    obtain ⟨-, rfl⟩ := hc.unique hc'
    have hchildren := sizeAll_split hsplit
    rw [size_eq c] at hsize
    exact ⟨_, _, d, hd, by omega, by omega⟩

/-- **The nodes under a node** are those that follow it, as many as its tree has. -/
theorem Placed.under_iff (h : Placed tops a q forms m) :
    Under (listingAll 0 none [] tops) a j ↔ a ≤ j ∧ j < a + m.size := by
  constructor
  · intro hunder
    obtain ⟨_, _, n, _, hle, hsize⟩ := h.within hunder
    have hpos := n.size_pos
    omega
  · rintro ⟨hle, hlt⟩
    exact (h.reach hle hlt .self).1

/-! ## Fields in order -/

/-- A field with the form that declares it. -/
def declared (n : FieldNode) : ResourceId × FormField := (n.form, n.field)

/-- **The fields under a node** are those of the nodes under it, in their order. -/
theorem Placed.declared_children (h : Placed tops i q forms m) :
    (numbers (i + 1) m.children).map (fun j => ((listingAll 0 none [] tops)[j]?).map
      PlacedNode.declared) = m.children.map fun c => some c.declared := by
  have hrest : ∀ rest before, m.children = before ++ rest →
      (numbers (i + 1 + sizeAll before) rest).map (fun j => ((listingAll 0 none [] tops)[j]?).map
        PlacedNode.declared) = rest.map fun c => some c.declared := by
    intro rest
    induction rest with
    | nil => intro before _; rfl
    | cons c rest ih =>
      intro before hc
      obtain ⟨_, hget⟩ := (h.under hc).getElem?
      have hnext := ih (before ++ [c]) (by rw [hc, List.append_assoc, List.singleton_append])
      rw [sizeAll_append, ← Nat.add_assoc] at hnext
      rw [numbers, List.map_cons, List.map_cons, hget]
      exact congrArg (List.cons _) hnext
  exact hrest m.children [] rfl

mutual

theorem parent_of_mem_listing (i p : Nat) (path : List FieldId) :
    ∀ n : FieldNode, ∀ m ∈ n.listing i (some p) path, m.parent ≠ none
  | .node _ _ _ children => by
    intro m hm
    rw [listing] at hm
    rcases List.mem_cons.mp hm with rfl | hm
    · exact Option.some_ne_none p
    · exact parent_of_mem_listingAll _ _ _ children m hm

theorem parent_of_mem_listingAll (start p : Nat) (path : List FieldId) :
    ∀ f : List FieldNode, ∀ m ∈ listingAll start (some p) path f, m.parent ≠ none
  | [] => fun _ hm => absurd hm List.not_mem_nil
  | n :: f => by
    intro m hm
    rw [listingAll] at hm
    rcases List.mem_append.mp hm with hm | hm
    · exact parent_of_mem_listing _ _ _ n m hm
    · exact parent_of_mem_listingAll _ _ _ f m hm

end

/-- The nodes without a parent are the topmost ones, in their order. -/
theorem declared_tops (f : List FieldNode) : ((listingAll start none path f).filter
    fun n => n.parent = none).map PlacedNode.declared = f.map declared := by
  induction f generalizing start with
  | nil => rfl
  | cons n f ih =>
    have hbelow : ∀ i p path, (listingAll i (some p) path n.children).filter
        (fun n => n.parent = none) = [] := fun i p path =>
      List.filter_eq_nil_iff.mpr fun m hm => by simpa using parent_of_mem_listingAll i p path _ m hm
    rw [listingAll, listing_eq, List.cons_append, List.filter_cons_of_pos (by rfl),
      List.filter_append, hbelow, List.nil_append, List.map_cons, ih]
    rfl

end FieldNode

end Fieldbook
