import Fieldbook.Expr.Basic
import Fieldbook.Proofs.FormTree.Reaching
import Fieldbook.Proofs.FormTree.Trails

/-!
# Proofs/FormTree/Finding — which node a dotted path finds

Looking up a dotted path takes the first node of the next name on each level, and never goes back to
another one.  So it finds a node exactly if the node has the path, and no node on the way to it stands
behind one of its own name (`find?_eq_some_iff`).  Whatever is found has the path that was looked up;
but a node may have a path and not be found, where a field that stands before one on the way to it has
the same name.

Fields side by side have different names (`Shape.eq_of_id`) if every form declares different ones, the
forms that one field leads to have none in common, and the root form has no field named like those that
every form has.  Then every node is found (`looksUp_of_isFirst`).
-/

namespace Fieldbook

/-- The names on the way to a node, with points between them. -/
def PlacedNode.dottedPath (n : PlacedNode) : String := Expr.dotted (n.path.map FieldId.text)

/-- No node of the same name stands before it under the same node. -/
def IsFirst (ns : List PlacedNode) (j : Nat) : Prop :=
  ∀ (k : Nat) (m m' : PlacedNode), ns[j]? = some m → ns[k]? = some m' → m'.parent = m.parent →
    m'.field.id = m.field.id → j ≤ k

/-- The names of the fields of a form. -/
def Form.fieldIds (f : Form) : List FieldId := f.fields.map FormField.id

/-- Fields that may stand side by side in the tree of a form have different names. -/
structure FormSource.NamesApart (source : FormSource) (root : ResourceId) : Prop where
  /-- A form declares a name once, and no name has a point in it. -/
  fields : ∀ id form, source.Reaches root id → (source.form? id).answer = .ok (some form) →
    form.fieldIds.Nodup ∧ ∀ name ∈ form.fieldIds, '.' ∉ name.text.toList
  /-- The forms that one field leads to declare different names. -/
  range : ∀ id field, source.Reaches root id → source.Declares id field →
    ∀ a ∈ field.type.range.toList, ∀ b ∈ field.type.range.toList, a ≠ b → ∀ form form',
      (source.form? a).answer = .ok (some form) → (source.form? b).answer = .ok (some form') →
        form.fieldIds.Disjoint form'.fieldIds
  /-- The root form declares none of the names that every form has. -/
  intrinsic : ∀ form, (source.form? root).answer = .ok (some form) →
    form.fieldIds.Disjoint [FormTree.creatorField.id, FormTree.submissionTimeField.id]

namespace FieldNode

variable {tops nodes before after : List FieldNode} {n m : FieldNode} {start i p : Nat}
  {q : Option Nat} {forms : List ResourceId} {above : List (Nat × FieldNode)} {id : FieldId}

/-! ## The first of a name -/

/-- **The first node of a name** has none of that name before it. -/
theorem first?_eq_some_iff (start : Nat) (before : List FieldNode) (n : FieldNode)
    (after : List FieldNode) :
    first? n.field.id start (before ++ n :: after) = some (start + sizeAll before, n) ↔
      ∀ m ∈ before, m.field.id ≠ n.field.id := by
  induction before generalizing start with
  | nil => simp [first?, sizeAll]
  | cons m before ih =>
    rw [List.cons_append, first?, List.forall_mem_cons]
    by_cases hid : m.field.id = n.field.id
    · have hpos := m.size_pos
      have hne : start ≠ start + sizeAll (m :: before) := by
        rw [sizeAll]
        omega
      rw [if_pos hid]
      exact iff_of_false (fun h => hne (Prod.mk.inj (Option.some.inj h)).1) fun h => h.1 hid
    · rw [if_neg hid, sizeAll, ← Nat.add_assoc, ih, and_iff_right hid]

/-! ## Siblings -/

/-- The nodes side by side of which the first has the number `start` are all that stand under `q`. -/
def Siblings (tops : List FieldNode) (q : Option Nat) (start : Nat) (nodes : List FieldNode) : Prop :=
  ∀ (k : Nat) (field : FormField),
    (∃ m, (listingAll 0 none [] tops)[k]? = some m ∧ m.parent = q ∧ m.field = field) ↔
      ∃ before c after, nodes = before ++ c :: after ∧ k = start + sizeAll before ∧ c.field = field

theorem siblings_tops (tops : List FieldNode) : Siblings tops none 0 tops := by
  intro k field
  constructor
  · rintro ⟨m, hget, hparent, rfl⟩
    obtain ⟨hlt, -⟩ := List.getElem?_eq_some_iff.mp hget
    obtain ⟨q, forms, c, hplaced⟩ := exists_placed hlt
    obtain ⟨path, hget'⟩ := hplaced.getElem?
    obtain rfl := Option.some.inj (hget.symm.trans hget')
    obtain rfl : q = none := hparent
    rcases hplaced with ⟨hsplit⟩ | _
    exact ⟨_, c, _, hsplit, (Nat.zero_add _).symm, rfl⟩
  · rintro ⟨before, c, after, hsplit, rfl, rfl⟩
    obtain ⟨path, hget⟩ := (Placed.top hsplit).getElem?
    rw [Nat.zero_add]
    exact ⟨_, hget, rfl, rfl⟩

theorem Placed.siblings (h : Placed tops p q forms m) : Siblings tops (some p) (p + 1) m.children := by
  intro k field
  constructor
  · rintro ⟨m', hget, hparent, rfl⟩
    obtain ⟨hlt, -⟩ := List.getElem?_eq_some_iff.mp hget
    obtain ⟨q', forms', c, hplaced⟩ := exists_placed hlt
    obtain ⟨path, hget'⟩ := hplaced.getElem?
    obtain rfl := Option.some.inj (hget.symm.trans hget')
    obtain rfl : q' = some p := hparent
    obtain ⟨_, _, _, before, after, hm, hsplit, rfl⟩ := hplaced.of_parent
    obtain ⟨-, rfl⟩ := h.unique hm
    exact ⟨before, c, after, hsplit, rfl, rfl⟩
  · rintro ⟨before, c, after, hsplit, rfl, rfl⟩
    obtain ⟨path, hget⟩ := (h.under hsplit).getElem?
    exact ⟨_, hget, rfl, rfl⟩

/-- **The first of its name** among nodes side by side. -/
theorem Siblings.isFirst_iff (h : Siblings tops q start nodes) (hsplit : nodes = before ++ n :: after) :
    IsFirst (listingAll 0 none [] tops) (start + sizeAll before) ↔
      ∀ m ∈ before, m.field.id ≠ n.field.id := by
  obtain ⟨here, hget, hparent, hfield⟩ := (h _ n.field).mpr ⟨before, n, after, hsplit, rfl, rfl⟩
  constructor
  · intro hfirst m hm hid
    obtain ⟨before', between, rfl⟩ := List.append_of_mem hm
    rw [List.append_assoc, List.cons_append] at hsplit
    obtain ⟨there, hget', hparent', hfield'⟩ := (h _ m.field).mpr ⟨before', m, _, hsplit, rfl, rfl⟩
    have hle := hfirst _ here there hget hget' (hparent'.trans hparent.symm)
      (by rw [hfield, hfield', hid])
    have hpos := m.size_pos
    rw [sizeAll_split rfl] at hle
    omega
  · intro hbefore k here' there hget' hget'' hparent' hid
    obtain rfl := Option.some.inj (hget.symm.trans hget')
    obtain ⟨before', c, after', hsplit', rfl, hfield'⟩ :=
      (h k there.field).mp ⟨there, hget'', hparent'.trans hparent, rfl⟩
    rw [hsplit'] at hsplit
    rcases List.append_eq_append_iff.mp hsplit with ⟨rest, rfl, hrest⟩ | ⟨rest, rfl, -⟩
    · cases rest with
      | nil => simp
      | cons d rest =>
        -- then the other node stands before this one, and has another name
        obtain ⟨rfl, -⟩ := List.cons.inj hrest
        exact absurd (by rw [hfield', hid, hfield]) (hbefore c (by simp))
    · rw [sizeAll_append]
      omega

theorem Siblings.first?_eq_some_iff (h : Siblings tops q start nodes)
    (hsplit : nodes = before ++ n :: after) :
    first? n.field.id start nodes = some (start + sizeAll before, n) ↔
      IsFirst (listingAll 0 none [] tops) (start + sizeAll before) := by
  rw [h.isFirst_iff hsplit, hsplit, FieldNode.first?_eq_some_iff]

/-! ## The way that is chosen -/

theorem Placed.exists_way (h : Placed tops i q forms n) : ∃ above, Way tops i n above := by
  induction h with
  | top hsplit => exact ⟨[], .top hsplit⟩
  | under _ hsplit ih =>
    obtain ⟨above, hway⟩ := ih
    exact ⟨_, hway.under hsplit⟩

theorem Way.exists_placed (h : Way tops i n above) : ∃ q forms, Placed tops i q forms n := by
  induction h with
  | top hsplit => exact ⟨none, _, .top hsplit⟩
  | under _ hsplit ih =>
    obtain ⟨q, forms, hplaced⟩ := ih
    exact ⟨_, _, hplaced.under hsplit⟩

theorem trailFrom?_cons_eq_some {x : Nat × FieldNode} :
    trailFrom? start nodes (id :: ids) = some (x :: trail) ↔
      first? id start nodes = some x ∧ trailFrom? (x.1 + 1) x.2.children ids = some trail := by
  rw [trailFrom?, Option.bind_eq_bind, Option.bind_eq_some_iff]
  simp only [Option.bind_eq_bind, Option.bind_eq_some_iff, Option.pure_def, Option.some.injEq,
    List.cons.injEq]
  constructor
  · rintro ⟨y, hfirst, trail', htrail, rfl, rfl⟩
    exact ⟨hfirst, htrail⟩
  · rintro ⟨hfirst, htrail⟩
    exact ⟨x, hfirst, trail, htrail, rfl, rfl⟩

/-- One name more is looked up among the nodes under the last one. -/
theorem trailFrom?_concat {x : Nat × FieldNode} :
    trailFrom? start nodes (names (above ++ [(p, m)]) ++ [id]) = some (above ++ [(p, m)] ++ [x]) ↔
      trailFrom? start nodes (names (above ++ [(p, m)])) = some (above ++ [(p, m)]) ∧
        first? id (p + 1) m.children = some x := by
  induction above generalizing start nodes with
  | nil =>
    have hlast : ∀ (start : Nat) (nodes : List FieldNode), trailFrom? start nodes [] = some [] :=
      fun _ _ => rfl
    show trailFrom? start nodes [m.field.id, id] = some [(p, m), x] ↔
      trailFrom? start nodes [m.field.id] = some [(p, m)] ∧ _
    simp only [trailFrom?_cons_eq_some, hlast, and_true]
  | cons y above ih =>
    show trailFrom? start nodes (y.2.field.id :: (names (above ++ [(p, m)]) ++ [id])) =
        some (y :: (above ++ [(p, m)] ++ [x])) ↔
      trailFrom? start nodes (y.2.field.id :: names (above ++ [(p, m)])) =
        some (y :: (above ++ [(p, m)])) ∧ _
    rw [trailFrom?_cons_eq_some, trailFrom?_cons_eq_some, ih, and_assoc]

/-- **The way down to a node is the one that its names lead down** if every node on it is the first
of its name. -/
theorem Way.trail_iff (h : Way tops i n above) :
    trailFrom? 0 tops (names (above ++ [(i, n)])) = some (above ++ [(i, n)]) ↔
      ∀ x ∈ above ++ [(i, n)], IsFirst (listingAll 0 none [] tops) x.1 := by
  induction h with
  | @top before after n split =>
    have hfirst := (siblings_tops tops).first?_eq_some_iff split
    rw [Nat.zero_add] at hfirst
    show trailFrom? 0 tops [n.field.id] = some [(sizeAll before, n)] ↔ _
    rw [trailFrom?_cons_eq_some, hfirst]
    simp [trailFrom?]
  | @under p m n above before after further split ih =>
    obtain ⟨q, forms, hplaced⟩ := further.exists_placed
    rw [names_append _ [(_, n)], List.forall_mem_append, ← ih]
    show trailFrom? 0 tops (names (above ++ [(p, m)]) ++ [n.field.id]) = _ ↔ _
    rw [trailFrom?_concat, hplaced.siblings.first?_eq_some_iff split, List.forall_mem_singleton]

/-- What the listing has at a number stands at the end of a way. -/
theorem exists_way {placed : PlacedNode} (h : (listingAll 0 none [] tops)[i]? = some placed) :
    ∃ n above, Way tops i n above ∧ placed.path = names (above ++ [(i, n)]) := by
  obtain ⟨hlt, -⟩ := List.getElem?_eq_some_iff.mp h
  obtain ⟨q, forms, n, hplaced⟩ := exists_placed hlt
  obtain ⟨above, hway⟩ := hplaced.exists_way
  obtain rfl := Option.some.inj (h.symm.trans hway.getElem?)
  exact ⟨n, above, hway, (names_append above [(i, n)]).symm⟩

theorem Way.forall_under_iff (h : Way tops i n above) (P : Nat → Prop) :
    (∀ j, Under (listingAll 0 none [] tops) j i → P j) ↔ ∀ x ∈ above ++ [(i, n)], P x.1 := by
  rw [List.forall_mem_append, List.forall_mem_singleton]
  constructor
  · intro hall
    exact ⟨fun x hx => hall x.1 (h.under_iff.mpr ⟨x.2, hx⟩).1, hall i .self⟩
  · rintro ⟨habove, hself⟩ j hunder
    by_cases hj : j = i
    · exact hj ▸ hself
    · obtain ⟨m, hmem⟩ := h.under_iff.mp ⟨hunder, hj⟩
      exact habove (j, m) hmem

end FieldNode

namespace FormTree

open FieldNode

variable {tree : FormTree} {path : String} {i : Nat}

/-! ## What is found -/

/-- **A dotted path finds a node** if the node has that path, and stands behind no other of its name,
nor does a node above it. -/
theorem find?_eq_some_iff : tree.find? path = some i ↔
    ∃ n, tree.listing[i]? = some n ∧ n.path = fieldPath path ∧
      ∀ j, Under tree.listing j i → IsFirst tree.listing j := by
  constructor
  · intro h
    obtain ⟨trail, htrail, hlast⟩ := Option.bind_eq_some_iff.mp h
    obtain ⟨hnames, above, k, n, rfl, hway⟩ := way_of_trail? htrail
    obtain rfl : k = i := by simpa using hlast
    refine ⟨_, hway.getElem?, (names_append _ _).symm.trans hnames, ?_⟩
    refine (hway.forall_under_iff _).mpr (hway.trail_iff.mp ?_)
    rw [hnames]
    exact htrail
  · rintro ⟨placed, hget, hpath, hfirst⟩
    obtain ⟨n, above, hway, hnames⟩ := exists_way hget
    have htrail : tree.trail? path = some (above ++ [(i, n)]) := by
      rw [trail?, ← hpath, hnames]
      exact hway.trail_iff.mpr ((hway.forall_under_iff _).mp hfirst)
    exact find?_of_trail? htrail

/-! ## Dotted paths -/

theorem joined_eq_intercalate (mark : Char) : ∀ parts : List (List Char),
    Text.joined mark parts = [mark].intercalate parts
  | [] => rfl
  | [s] => by simp [Text.joined]
  | s :: t :: more => by
    rw [Text.joined, joined_eq_intercalate mark (t :: more), List.intercalate_cons_cons]
    simp

theorem toList_dotted (ids : List FieldId) : (Expr.dotted (ids.map FieldId.text)).toList =
    Text.joined '.' (ids.map fun id => id.text.toList) := by
  rw [Expr.dotted, String.toList_intercalate, joined_eq_intercalate, List.map_map]
  rfl

/-- The names in a dotted path are joined to it again. -/
theorem dotted_fieldPath (path : String) :
    Expr.dotted ((fieldPath path).map FieldId.text) = path := by
  rw [← String.toList_inj, toList_dotted, fieldPath, List.map_map]
  have hparts : ((fun id : FieldId => id.text.toList) ∘ fun s => ⟨String.ofList s⟩) = id :=
    funext fun s => String.toList_ofList
  rw [hparts, List.map_id, Text.joined_segments]

/-- Names without points are those in the path that they are joined to. -/
theorem fieldPath_dotted {ids : List FieldId} (hne : ids ≠ [])
    (hdots : ∀ id ∈ ids, '.' ∉ id.text.toList) :
    fieldPath (Expr.dotted (ids.map FieldId.text)) = ids := by
  have hparts : ids.map (fun id => id.text.toList) ≠ [] := fun h => hne (List.map_eq_nil_iff.mp h)
  rw [fieldPath, toList_dotted, Text.segments_joined hparts (List.forall_mem_map.mpr hdots),
    List.map_map]
  have hids : ((fun s => (⟨String.ofList s⟩ : FieldId)) ∘ fun id => id.text.toList) = id :=
    funext fun id => by simp
  rw [hids, List.map_id]

/-- Looking up a path finds a node of that path, and does find one if there is one. -/
structure LooksUp (tree : FormTree) (path : String) : Prop where
  sound : ∀ i, tree.find? path = some i → ∃ n, tree.listing[i]? = some n ∧ n.dottedPath = path
  complete : (∃ n ∈ tree.listing, n.dottedPath = path) → ∃ i, tree.find? path = some i

/-- What is found has the path that was looked up. -/
theorem dottedPath_of_find? (h : tree.find? path = some i) :
    ∃ n, tree.listing[i]? = some n ∧ n.dottedPath = path := by
  obtain ⟨n, hget, hpath, -⟩ := find?_eq_some_iff.mp h
  exact ⟨n, hget, by rw [PlacedNode.dottedPath, hpath, dotted_fieldPath]⟩

/-- A path has at least one name, and each is that of a node. -/
theorem path_of_getElem? {n : PlacedNode} (h : tree.listing[i]? = some n) :
    n.path ≠ [] ∧ ∀ id ∈ n.path, ∃ m ∈ tree.listing, m.field.id = id := by
  obtain ⟨node, above, hway, hnames⟩ := exists_way h
  rw [hnames, names]
  refine ⟨by simp, List.forall_mem_map.mpr (List.forall_mem_append.mpr ⟨?_, ?_⟩)⟩
  · rintro ⟨j, m⟩ hmem
    obtain ⟨placed, hget, hfield⟩ := hway.getElem?_of_mem hmem
    exact ⟨placed, List.mem_of_getElem? hget, congrArg FormField.id hfield⟩
  · exact List.forall_mem_singleton.mpr ⟨_, List.mem_of_getElem? hway.getElem?, rfl⟩

/-- **Every path is looked up rightly** if all nodes are the first of their names. -/
theorem looksUp_of_isFirst (hfirst : ∀ j, IsFirst tree.listing j)
    (hdots : ∀ n ∈ tree.listing, '.' ∉ n.field.id.text.toList) (path : String) :
    LooksUp tree path where
  sound _ := dottedPath_of_find?
  complete := by
    rintro ⟨n, hn, rfl⟩
    obtain ⟨i, hget⟩ := List.mem_iff_getElem?.mp hn
    obtain ⟨hne, hnames⟩ := path_of_getElem? hget
    refine ⟨i, find?_eq_some_iff.mpr ⟨n, hget, ?_, fun j _ => hfirst j⟩⟩
    refine (fieldPath_dotted hne fun id hid => ?_).symm
    obtain ⟨m, hm, rfl⟩ := hnames id hid
    exact hdots m hm

/-! ## Fields of different names -/

variable {source : FormSource} {limit : Nat} {root : Form} {ns : List PlacedNode}

theorem map_id_declared (f : Form) : f.declared.map (fun d => d.2.id) = f.fieldIds := by
  rw [Form.declared, List.map_map, Form.fieldIds]
  rfl

/-- The forms under a node declare different names. -/
theorem Shape.nodup_found (h : Shape source limit root ns)
    (hroot : (source.form? root.id).answer = .ok (some root)) (hapart : source.NamesApart root.id)
    {n : PlacedNode} {forms : List ResourceId} {found : List Form} (hget : ns[i]? = some n)
    (hfound : Found source forms n.field found) : (found.flatMap Form.fieldIds).Nodup := by
  obtain ⟨hreaches, hdeclares | ⟨-, hintrinsic⟩⟩ := h.reaches_of_get hroot hget
  · have hrange : ∀ f ∈ found, f.id ∈ n.field.type.range.toList ∧ source.Reaches root.id f.id := by
      intro f hf
      obtain ⟨hleads, hkept⟩ := (hfound.all f.id).mp (List.mem_map_of_mem hf)
      obtain ⟨g, hgiven, hfield⟩ := hdeclares
      exact ⟨hleads, .step hreaches hgiven hfield hleads fun hdeleted => hkept (.inl hdeleted)⟩
    refine List.nodup_flatMap.mpr ⟨fun f hf => ?_, ?_⟩
    · exact (hapart.fields f.id f (hrange f hf).2 (hfound.given f hf)).1
    · refine (List.pairwise_map.mp hfound.ascending).imp_of_mem fun {f g} hf hg hlt => ?_
      have hne : f.id ≠ g.id := fun heq => List.lt_irrefl _ (heq ▸ hlt)
      exact hapart.range n.form n.field hreaches hdeclares f.id (hrange f hf).1 g.id (hrange g hg).1
        hne f g (hfound.given f hf) (hfound.given g hg)
  · -- nothing stands under the fields that every form has
    have hempty : n.field.type.range.toList = [] := by
      rcases hintrinsic with heq | heq <;> rw [heq] <;> rfl
    have hnone : found = [] := List.eq_nil_iff_forall_not_mem.mpr fun f hf =>
      absurd ((hfound.all f.id).mp (List.mem_map_of_mem hf)).1 (hempty ▸ List.not_mem_nil)
    rw [hnone]
    exact List.nodup_nil

theorem Shape.nodup_top (h : Shape source limit root ns)
    (hroot : (source.form? root.id).answer = .ok (some root)) (hapart : source.NamesApart root.id) :
    ((ns.filter fun n => n.parent = none).map fun n => n.field.id).Nodup := by
  have htop := congrArg (List.map fun d => d.2.id) h.top
  rw [List.map_map, List.map_cons, List.map_cons, map_id_declared] at htop
  have hne : creatorField.id ≠ submissionTimeField.id := by decide
  obtain ⟨hcreator, htime⟩ :
      creatorField.id ∉ root.fieldIds ∧ submissionTimeField.id ∉ root.fieldIds := by
    simpa using hapart.intrinsic root hroot
  have hfields := (hapart.fields root.id root .self hroot).1
  show List.Nodup (List.map ((fun d => d.2.id) ∘ PlacedNode.declared) _)
  rw [htop]
  refine List.nodup_cons.mpr ⟨fun hmem => ?_, List.nodup_cons.mpr ⟨htime, hfields⟩⟩
  exact (List.mem_cons.mp hmem).elim hne hcreator

/-- **Nodes under the same node** have different names. -/
theorem Shape.eq_of_id (h : Shape source limit root ns)
    (hroot : (source.form? root.id).answer = .ok (some root)) (hapart : source.NamesApart root.id)
    {j k : Nat} {m m' : PlacedNode} (hm : ns[j]? = some m) (hm' : ns[k]? = some m')
    (hparent : m'.parent = m.parent) (hid : m'.field.id = m.field.id) : j = k := by
  cases hp : m.parent with
  | none =>
    have hnodup := h.nodup_top hroot hapart
    rw [List.nodup_iff_pairwise_ne, List.pairwise_map, List.pairwise_filter,
      List.pairwise_iff_getElem] at hnodup
    obtain ⟨hj, rfl⟩ := List.getElem?_eq_some_iff.mp hm
    obtain ⟨hk, rfl⟩ := List.getElem?_eq_some_iff.mp hm'
    have hp' := hparent.trans hp
    rcases Nat.lt_trichotomy j k with hlt | heq | hlt
    · exact absurd hid.symm (hnodup j k hj hk hlt (decide_eq_true hp) (decide_eq_true hp'))
    · exact heq
    · exact absurd hid (hnodup k j hk hj hlt (decide_eq_true hp') (decide_eq_true hp))
  | some p =>
    obtain ⟨-, n, hget⟩ := h.exists_parent hm hp
    obtain ⟨forms, found, -, -, -, hfound, hchildren⟩ := h.below p n hget
    have hids : (n.children.map fun j => (ns[j]?).map fun m => m.field.id) =
        (found.flatMap Form.fieldIds).map some := by
      have hboth := congrArg (List.map (Option.map fun d => d.2.id)) hchildren
      have hfields : (found.flatMap Form.declared).map (fun d => d.2.id) =
          found.flatMap Form.fieldIds := by
        rw [List.map_flatMap]
        exact List.flatMap_congr fun f _ => map_id_declared f
      rw [← hfields, List.map_map]
      simpa [List.map_map, Function.comp_def, PlacedNode.declared] using hboth
    have hnodup : (n.children.map fun j => (ns[j]?).map fun m => m.field.id).Nodup :=
      hids ▸ (h.nodup_found hroot hapart hget hfound).map (fun _ _ => Option.some.inj)
    have hmem : ∀ k, k ∈ n.children ↔ _ := (h.children p n hget).2
    refine List.inj_on_of_nodup_map hnodup ((hmem j).mpr ⟨m, hm, hp⟩)
      ((hmem k).mpr ⟨m', hm', hparent.trans hp⟩) ?_
    rw [hm, hm', Option.map_some, Option.map_some, hid]

/-- A name without a point, of a field or of those that every form has. -/
theorem Shape.name_of_get (h : Shape source limit root ns)
    (hroot : (source.form? root.id).answer = .ok (some root)) (hapart : source.NamesApart root.id)
    {n : PlacedNode} (hget : ns[i]? = some n) : '.' ∉ n.field.id.text.toList := by
  obtain ⟨hreaches, ⟨f, hgiven, hfield⟩ | ⟨-, hintrinsic⟩⟩ := h.reaches_of_get hroot hget
  · exact (hapart.fields n.form f hreaches hgiven).2 _ (List.mem_map_of_mem hfield)
  · rcases hintrinsic with heq | heq <;> rw [heq] <;> decide

/-- **Looking up a dotted path.** What is found has the path. The node of a number is found exactly
if it has the path and no node down to it stands behind one of its name. So all that is there is
found in the tree of a form whose fields side by side have different names. -/
theorem find?_iff_isFirst (tree : FormTree) :
    (∀ path i, tree.find? path = some i →
      ∃ n, tree.listing[i]? = some n ∧ n.dottedPath = path) ∧
    (∀ path i, tree.find? path = some i ↔ ∃ n, tree.listing[i]? = some n ∧ n.path = fieldPath path ∧
      ∀ j, Under tree.listing j i → IsFirst tree.listing j) ∧
    ∀ source limit root, (∀ id f, (source.form? id).answer = .ok (some f) → f.id = id) →
      (build source limit root).answer = .ok tree → source.NamesApart root →
        ∀ path, LooksUp tree path := by
  refine ⟨fun _ _ => dottedPath_of_find?, fun _ _ => find?_eq_some_iff, ?_⟩
  intro source limit root hsource hbuild hapart
  obtain ⟨hroot, nodes, hnodes, hfields, hgrown⟩ := grown_of_build hsource hbuild
  have hshape := Shape.of_grown hnodes hfields hgrown
  obtain rfl := hsource root tree.root hroot
  have hfirst : ∀ j, IsFirst tree.listing j := fun j k m m' hm hm' hparent hid =>
    Nat.le_of_eq (hshape.eq_of_id hroot hapart hm hm' hparent hid)
  refine looksUp_of_isFirst hfirst fun n hn => ?_
  obtain ⟨i, hget⟩ := List.mem_iff_getElem?.mp hn
  exact hshape.name_of_get hroot hapart hget

theorem namesApart_site : siteSource.NamesApart ⟨"visit"⟩ := by
  have hforms : ∀ f ∈ siteForms, f.fieldIds.Nodup ∧ ∀ name ∈ f.fieldIds, '.' ∉ name.text.toList ∧
      name ∉ [creatorField.id, submissionTimeField.id] ∧
        ∀ g ∈ siteForms, f.id ≠ g.id → name ∉ g.fieldIds := by
    decide +kernel
  refine ⟨fun id form _ h => ?_, fun _ _ _ _ a _ b _ hne form form' h h' => ?_, fun form h => ?_⟩
  · obtain ⟨hnodup, hnames⟩ := hforms form (mem_of_lookup (Except.ok.inj h))
    exact ⟨hnodup, fun name hname => (hnames name hname).1⟩
  · intro name hname hname'
    have hform := Except.ok.inj h
    have hform' := Except.ok.inj h'
    obtain ⟨-, hnames⟩ := hforms form (mem_of_lookup hform)
    refine (hnames name hname).2.2 form' (mem_of_lookup hform') ?_ hname'
    rwa [id_of_lookup hform, id_of_lookup hform']
  · intro name hname
    obtain ⟨-, hnames⟩ := hforms form (mem_of_lookup (Except.ok.inj h))
    exact (hnames name hname).2.1

theorem find?_iff_isFirst_site : ∃ tree, (build siteSource 1 ⟨"visit"⟩).answer = .ok tree ∧
    siteSource.NamesApart ⟨"visit"⟩ ∧ (∀ path, LooksUp tree path) ∧
      tree.find? "site.near" = some 3 := by
  have hsource : ∀ id f, (siteSource.form? id).answer = .ok (some f) → f.id = id :=
    fun _ _ h => id_of_lookup (Except.ok.inj h)
  have hbuild : ∃ tree, (build siteSource 1 ⟨"visit"⟩).answer = .ok tree ∧
      tree.find? "site.near" = some 3 := ⟨_, rfl, by decide +kernel⟩
  obtain ⟨tree, htree, hfind⟩ := hbuild
  obtain ⟨-, -, hlooksUp⟩ := find?_iff_isFirst tree
  exact ⟨tree, htree, namesApart_site,
    hlooksUp siteSource 1 ⟨"visit"⟩ hsource htree namesApart_site, hfind⟩

/-- Visits of camps and of clinics, of which the latter lie in towns. -/
def placeForms : List Form :=
  [⟨⟨"visit"⟩, ⟨"home"⟩, "Visit", none, [.field (pointsAt "place" [⟨"camp"⟩, ⟨"clinic"⟩])]⟩,
    ⟨⟨"camp"⟩, ⟨"home"⟩, "Camp", none, [.field (pointsAt "site" [])]⟩,
    ⟨⟨"clinic"⟩, ⟨"home"⟩, "Clinic", none, [.field (pointsAt "site" [⟨"town"⟩])]⟩,
    ⟨⟨"town"⟩, ⟨"home"⟩, "Town", none, [.field (pointsAt "name" [])]⟩]

def placeSource : FormSource := .ofList (placeForms.map fun f => (f.id, f)) []

/-- **Not all that is there is found:** the site of a camp stands before that of a clinic, and has
nothing under it. -/
theorem exists_not_looksUp : ∃ tree, (build placeSource 2 ⟨"visit"⟩).answer = .ok tree ∧
    (∃ n ∈ tree.listing, n.dottedPath = "place.site.name") ∧
      tree.find? "place.site.name" = none ∧ ¬LooksUp tree "place.site.name" := by
  have hbuild : ∃ tree, (build placeSource 2 ⟨"visit"⟩).answer = .ok tree ∧
      (∃ n ∈ tree.listing, n.dottedPath = "place.site.name") ∧
        tree.find? "place.site.name" = none := ⟨_, rfl, by decide +kernel, by decide +kernel⟩
  obtain ⟨tree, htree, hnode, hfind⟩ := hbuild
  refine ⟨tree, htree, hnode, hfind, fun hlooksUp => ?_⟩
  obtain ⟨i, hi⟩ := hlooksUp.complete hnode
  cases hfind.symm.trans hi

end FormTree

end Fieldbook
