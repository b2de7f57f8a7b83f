import Fieldbook.Proofs.FormTree.Places

/-!
# Proofs/FormTree/Trails — the way down to a node

A node stands at the end of a way, through the nodes above it (`Way`).  The listing tells the way by
the path of the node and by the numbers of the nodes above it (`Way.getElem?`, `Way.under_iff`), and
looking up a dotted path goes such a way, by the first node of each name (`way_of_trailFrom?`).
-/

namespace Fieldbook

namespace FieldNode

variable {tops nodes before after : List FieldNode} {n m : FieldNode} {start i j p : Nat}
  {above trail : List (Nat × FieldNode)} {id : FieldId} {ids : List FieldId}

/-- The node `n` has the number `i`, and `above` are the numbered nodes from the top down to the one
that it stands under. -/
inductive Way (tops : List FieldNode) : Nat → FieldNode → List (Nat × FieldNode) → Prop where
  | top {before after : List FieldNode} {n : FieldNode} (split : tops = before ++ n :: after) :
      Way tops (sizeAll before) n []
  | under {p : Nat} {m n : FieldNode} {above : List (Nat × FieldNode)}
      {before after : List FieldNode} (further : Way tops p m above)
      (split : m.children = before ++ n :: after) :
      Way tops (p + 1 + sizeAll before) n (above ++ [(p, m)])

/-- The names of the fields on a way. -/
def names (trail : List (Nat × FieldNode)) : List FieldId := trail.map fun x => x.2.field.id

/-- The number of the last node on a way. -/
def lastNumber? (trail : List (Nat × FieldNode)) : Option Nat := trail.getLast?.map (·.1)

theorem names_append (trail rest : List (Nat × FieldNode)) :
    names (trail ++ rest) = names trail ++ names rest := List.map_append

/-! ## Ways in the listing -/

/-- The listing of a node among others. -/
theorem listingAll_split (start : Nat) (parent : Option Nat) (path : List FieldId)
    (h : nodes = before ++ n :: after) :
    ∃ pre post, listingAll start parent path nodes =
        pre ++ (n.listing (start + sizeAll before) parent path ++ post) ∧
      pre.length = sizeAll before := by
  refine ⟨listingAll start parent path before,
    listingAll (start + sizeAll before + n.size) parent path after, ?_, length_listingAll _ _ _ _⟩
  rw [h, listingAll_append, listingAll]

/-- The listing of a node stands at its number, under the names on the way to it. -/
theorem Way.listing (h : Way tops i n above) :
    ∃ pre post, listingAll 0 none [] tops =
        pre ++ (n.listing i (lastNumber? above) (names above) ++ post) ∧ pre.length = i := by
  induction h with
  | top split =>
    obtain ⟨pre, post, hlisting, hlength⟩ := listingAll_split 0 none [] split
    rw [Nat.zero_add] at hlisting
    exact ⟨pre, post, hlisting, hlength⟩
  | @under p m n above before after _ split ih =>
    obtain ⟨pre, post, hlisting, rfl⟩ := ih
    obtain ⟨pre', post', hlisting', hlength'⟩ := listingAll_split (pre.length + 1)
      (some pre.length) (names above ++ [m.field.id]) split
    refine ⟨pre ++ m.place pre.length (lastNumber? above) (names above) :: pre', post' ++ post,
      ?_, ?_⟩
    · have hlast : lastNumber? (above ++ [(pre.length, m)]) = some pre.length := by
        simp [lastNumber?]
      have hnames : names (above ++ [(pre.length, m)]) = names above ++ [m.field.id] :=
        names_append _ _
      rw [hlisting, listing_eq, hlisting', hlast, hnames]
      simp
    · rw [List.length_append, List.length_cons, hlength']
      omega

/-- **The listing has the node at the end of a way,** with the names on the way as its path. -/
theorem Way.getElem? (h : Way tops i n above) :
    (listingAll 0 none [] tops)[i]? = some (n.place i (lastNumber? above) (names above)) := by
  obtain ⟨pre, post, hlisting, rfl⟩ := h.listing
  rw [hlisting, listing_eq, List.getElem?_append_right (Nat.le_refl _), Nat.sub_self]
  rfl

theorem Way.lt_of_mem (h : Way tops i n above) : (j, m) ∈ above → j < i := by
  induction h with
  | top => exact fun hmem => absurd hmem List.not_mem_nil
  | @under p m' n above before after _ _ ih =>
    intro hmem
    rcases List.mem_append.mp hmem with hmem | hmem
    · have := ih hmem
      omega
    · obtain ⟨rfl, -⟩ := Prod.mk.inj (List.mem_singleton.mp hmem)
      omega

/-- **The nodes above a node** are those on the way to it. -/
theorem Way.under_iff (h : Way tops i n above) :
    Under (listingAll 0 none [] tops) j i ∧ j ≠ i ↔ ∃ m, (j, m) ∈ above := by
  induction h with
  | @top before after n split =>
    have hget := (Way.top split).getElem?
    refine iff_of_false (fun ⟨hunder, hne⟩ => ?_) (fun ⟨m, hm⟩ => absurd hm List.not_mem_nil)
    cases hunder with
    | self => exact hne rfl
    | step _ hget' hparent =>
      obtain rfl := Option.some.inj (hget.symm.trans hget')
      cases hparent
  | @under p m n above before after further split ih =>
    have hget := (further.under split).getElem?
    have hparent : (n.place (p + 1 + sizeAll before) (lastNumber? (above ++ [(p, m)]))
        (names (above ++ [(p, m)]))).parent = some p := by
      simp [place, lastNumber?]
    constructor
    · rintro ⟨hunder, hne⟩
      cases hunder with
      | self => exact absurd rfl hne
      | step hunder hget' hparent' =>
        obtain rfl := Option.some.inj (hget.symm.trans hget')
        obtain rfl := Option.some.inj (hparent.symm.trans hparent')
        by_cases hj : j = p
        · exact ⟨m, hj ▸ List.mem_append_right _ (List.mem_singleton.mpr rfl)⟩
        · obtain ⟨m', hm'⟩ := ih.mp ⟨hunder, hj⟩
          exact ⟨m', List.mem_append_left _ hm'⟩
    · rintro ⟨m', hm'⟩
      have hlt := (further.under split).lt_of_mem hm'
      refine ⟨.step (p := p) ?_ hget hparent, Nat.ne_of_lt hlt⟩
      rcases List.mem_append.mp hm' with hm' | hm'
      · exact (ih.mpr ⟨m', hm'⟩).1
      · obtain ⟨rfl, -⟩ := Prod.mk.inj (List.mem_singleton.mp hm')
        exact .self

/-- The nodes on a way are those that the listing has there. -/
theorem Way.getElem?_of_mem (h : Way tops i n above) (hmem : (j, m) ∈ above) :
    ∃ placed, (listingAll 0 none [] tops)[j]? = some placed ∧ placed.field = m.field := by
  induction h with
  | top => exact absurd hmem List.not_mem_nil
  | @under p m' n above before after further _ ih =>
    rcases List.mem_append.mp hmem with hmem | hmem
    · exact ih hmem
    · obtain ⟨rfl, rfl⟩ := Prod.mk.inj (List.mem_singleton.mp hmem)
      exact ⟨_, further.getElem?, rfl⟩

/-- What holds of the fields on the way to a node holds of those of the nodes above it. -/
theorem Way.forall_iff (h : Way tops i n above) (P : FormField → Prop) :
    (∀ x ∈ above, P x.2.field) ↔ ∀ (j : Nat) (m : PlacedNode),
      Under (listingAll 0 none [] tops) j i → j ≠ i →
        (listingAll 0 none [] tops)[j]? = some m → P m.field := by
  constructor
  · intro hall j m hunder hne hget
    obtain ⟨node, hmem⟩ := h.under_iff.mp ⟨hunder, hne⟩
    obtain ⟨placed, hget', hfield⟩ := h.getElem?_of_mem hmem
    obtain rfl := Option.some.inj (hget.symm.trans hget')
    exact hfield ▸ hall (j, node) hmem
  · rintro hall ⟨j, node⟩ hmem
    obtain ⟨placed, hget, hfield⟩ := h.getElem?_of_mem hmem
    obtain ⟨hunder, hne⟩ := h.under_iff.mpr ⟨node, hmem⟩
    exact hfield ▸ hall j placed hunder hne hget

/-! ## Looking up a path -/

/-- The nodes side by side of which the first has the number `start` stand under `above`. -/
def Level (tops : List FieldNode) (start : Nat) (nodes : List FieldNode)
    (above : List (Nat × FieldNode)) : Prop :=
  ∀ before n after, nodes = before ++ n :: after → Way tops (start + sizeAll before) n above

theorem level_tops (tops : List FieldNode) : Level tops 0 tops [] := by
  intro before n after split
  rw [Nat.zero_add]
  exact .top split

theorem Way.level (h : Way tops p m above) : Level tops (p + 1) m.children (above ++ [(p, m)]) :=
  fun _ _ _ split => h.under split

theorem first?_some (h : first? id start nodes = some (i, n)) :
    n.field.id = id ∧
      ∃ before after, nodes = before ++ n :: after ∧ i = start + sizeAll before := by
  induction nodes generalizing start with
  | nil => cases h
  | cons m nodes ih =>
    rw [first?] at h
    split at h
    · next hid =>
      obtain ⟨rfl, rfl⟩ := Prod.mk.inj (Option.some.inj h)
      exact ⟨hid, [], nodes, rfl, rfl⟩
    · obtain ⟨hid, before, after, rfl, rfl⟩ := ih h
      exact ⟨hid, m :: before, after, rfl, by rw [sizeAll, Nat.add_assoc]⟩

/-- **A path that is looked up leads down a way.** -/
theorem way_of_trailFrom? (hlevel : Level tops start nodes above)
    (h : trailFrom? start nodes ids = some trail) (hids : ids ≠ []) :
    names trail = ids ∧ ∃ init i n, trail = init ++ [(i, n)] ∧ Way tops i n (above ++ init) := by
  induction ids generalizing start nodes above trail with
  | nil => exact absurd rfl hids
  | cons id ids ih =>
    rw [trailFrom?] at h
    obtain ⟨⟨i, n⟩, hfirst, h⟩ := Option.bind_eq_some_iff.mp h
    obtain ⟨rest, hrest, h⟩ := Option.bind_eq_some_iff.mp h
    obtain rfl := Option.some.inj h
    obtain ⟨hid, before, after, split, rfl⟩ := first?_some hfirst
    have hway := hlevel before n after split
    cases ids with
    | nil =>
      obtain rfl := Option.some.inj hrest
      exact ⟨by rw [names, List.map_singleton, hid], [], _, n, rfl, by rwa [List.append_nil]⟩
    | cons id' ids =>
      obtain ⟨hnames, init, i, n', rfl, hway'⟩ := ih hway.level hrest (List.cons_ne_nil _ _)
      refine ⟨?_, (_, n) :: init, i, n', rfl, ?_⟩
      · rw [← hnames, ← hid]
        rfl
      · rwa [List.append_assoc] at hway'

end FieldNode

namespace FormTree

open FieldNode

variable {tree : FormTree} {path : String} {trail : List (Nat × FieldNode)}

theorem fieldPath_ne_nil (path : String) : fieldPath path ≠ [] := by
  intro h
  exact Text.segments_ne_nil '.' path.toList (List.map_eq_nil_iff.mp h)

/-- **A dotted path leads down a way** through nodes of the names in it. -/
theorem way_of_trail? (h : tree.trail? path = some trail) : names trail = fieldPath path ∧
    ∃ above i n, trail = above ++ [(i, n)] ∧ Way tree.nodes i n above :=
  way_of_trailFrom? (level_tops tree.nodes) h (fieldPath_ne_nil path)

/-- The node that a dotted path finds is the one at the end of its trail. -/
theorem find?_of_trail? {above : List (Nat × FieldNode)} {i : Nat} {n : FieldNode}
    (h : tree.trail? path = some (above ++ [(i, n)])) : tree.find? path = some i := by
  simp [find?, h]

end FormTree

end Fieldbook
