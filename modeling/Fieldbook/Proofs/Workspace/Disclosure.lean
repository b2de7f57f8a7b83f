import Fieldbook.Proofs.FormTree.Depth
import Fieldbook.Proofs.Ownership.Breaks
import Fieldbook.Proofs.Workspace.Hidden
import Fieldbook.Proofs.Workspace.Reachable

/-!
# Proofs/Workspace/Disclosure — what the tree of a form shows to whom

The tree of a form is built for those who may view the form, and nothing more is asked of them: the
forms that it leads to are read from the store as they are.  So a principal is shown the fields of a
form that is hidden from them exactly if it can be reached from the one that was asked for
(`views_formTree_iff`).
-/

namespace Fieldbook

namespace Store

/-- A form has the name that it is given by. -/
theorem id_of_form? {s : Store} {id : ResourceId} {form : Form}
    (h : ((FormSource.ofStore s).form? id).answer = .ok (some form)) : form.id = id := by
  obtain ⟨r, hr, h⟩ := Reading.bind_ok.mp h
  obtain ⟨found, hget, hr⟩ := Reading.bind_ok.mp (Reading.mapError_ok.mp hr)
  rcases get?_ok.mp hget with ⟨-, rfl⟩ | ⟨row, entry, hrow, hread, rfl⟩
  · cases hr
    cases h
  · obtain ⟨v, -, hr⟩ := Reading.bind_ok.mp hr
    cases hr
    obtain ⟨form', hform', h⟩ := Reading.bind_ok.mp h
    cases h
    have hform := Reading.mapError_ok.mp hform'
    rw [Form.ofResource] at hform
    split at hform
    · cases hform
    · cases helements : FormElement.ofValues
          (((entry.toResource v).value.list? "elements").getD []) with
      | error e => simp [helements, bind, Except.bind] at hform
      | ok elements =>
        simp only [helements, bind, Except.bind, pure, Except.pure, Except.ok.injEq] at hform
        rw [← hform]
        exact (Row.id_of_read hread).trans (Row.id_of_find? hrow)

end Store

namespace FormSource

/-- **The forms of a store** are given under their own names, and none is asked for on the way. -/
theorem steady_ofStore (s : Store) : (ofStore s).Steady where
  named _ _ := Store.id_of_form?
  unasked id k := Store.form_notMem_lookups s k id

/-- A store fails to give a form for what is in its tables, never for how deep the form lies. -/
theorem plain_ofStore (s : Store) : (ofStore s).Plain where
  named _ _ := Store.id_of_form?
  form id := by
    refine .reading (.store (fun _ _ _ => WorkspaceError.noConfusion) _) fun found _ => ?_
    cases found with
    | none => exact .ok _
    | some r =>
      refine .reading ?_ fun _ _ => .ok _
      cases Form.ofResource r with
      | error e => exact .error fun _ _ => WorkspaceError.noConfusion
      | ok form => exact .ok form
  deleted id := by
    intro e he
    obtain ⟨b, -, rfl⟩ := Store.isDeleted_error_iff.mp he
    cases b with
    | again y => exact fun _ _ => WorkspaceError.noConfusion
    | unreadable _ e => exact fun _ _ => WorkspaceError.noConfusion
    | lost y =>
      change (OwnerChain.missingError id y).IsShallow
      rw [OwnerChain.missingError]
      split <;> exact fun _ _ => WorkspaceError.noConfusion

end FormSource

namespace Workspace

variable {w : Workspace} {p : Principal} {c : ResourceId} {tree : FormTree}

/-- A principal may view a resource. -/
def Views (w : Workspace) (p : Principal) (id : ResourceId) : Prop :=
  ∃ a, (w.store.authorize p id).answer = .ok a ∧ a.canView = true

theorem formTree_ok : (w.formTree p c).answer = .ok tree ↔
    w.store.isDeleted c = .ok false ∧ w.Views p c ∧
      (FormTree.build (.ofStore w.store) w.maxTreeDepth c).answer = .ok tree := by
  rw [formTree, Reading.bind_ok]
  constructor
  · rintro ⟨_, hlive, h⟩
    obtain ⟨_, hview, h⟩ := Reading.bind_ok.mp h
    exact ⟨Store.requireLive_ok.mp hlive, Store.requireView_ok.mp hview, h⟩
  · rintro ⟨hlive, hview, h⟩
    exact ⟨(), Store.requireLive_ok.mpr hlive,
      Reading.bind_ok.mpr ⟨(), Store.requireView_ok.mpr hview, h⟩⟩

/-- **Whose fields the tree of a form shows.**  A principal who is given the tree of a form may view
every form that it has fields of if and only if that is so for all forms with fields that can be
reached from it.  The form itself may always be viewed. -/
theorem views_formTree_iff (h : (w.formTree p c).answer = .ok tree) :
    w.Views p c ∧ ((∀ n ∈ tree.listing, w.Views p n.form) ↔
      ∀ id field, (FormSource.ofStore w.store).Reaches c id →
        (FormSource.ofStore w.store).Declares id field → w.Views p id) := by
  obtain ⟨-, hview, hbuild⟩ := formTree_ok.mp h
  refine ⟨hview, fun hall id field hreaches hdeclares => ?_, fun hall n hn => ?_⟩
  · obtain ⟨n, hn, hd⟩ := (FormTree.mem_listing_iff (d := (id, field))
      (fun _ _ => Store.id_of_form?) hbuild).mpr (.inl ⟨hreaches, hdeclares⟩)
    exact (Prod.mk.inj hd).1 ▸ hall n hn
  · rcases (FormTree.mem_listing_iff (d := n.declared) (fun _ _ => Store.id_of_form?) hbuild).mp
      ⟨n, hn, rfl⟩ with ⟨hreaches, hdeclares⟩ | ⟨hform, -⟩
    · exact hall n.form n.field hreaches hdeclares
    · have hform : n.form = c := hform
      exact hform ▸ hview

/-! ## A form that leads to one of someone else -/

/-- Alice has a form of what is paid, and bob one of his own that points at hers. -/
def probed : Workspace :=
  let home : ResourceId := ⟨"c0198c3f2a7b07d1e9f5b4c6d8e0f1a2b"⟩
  let hut : ResourceId := ⟨"c0198c3f2a7b07d1e9f5b4c6d8e0f1a2c"⟩
  (empty 16).run
    [.createRootFolder ⟨"alice"⟩ 0 home "Home",
      .putForm ⟨"alice"⟩ 0 ⟨⟨"pay"⟩, home, "Pay", none,
        [.field ⟨⟨"sum"⟩, "Sum", none, .quantity none, false, false⟩]⟩,
      .createRootFolder ⟨"bob"⟩ 0 hut "Hut",
      .putForm ⟨"bob"⟩ 0 ⟨⟨"probe"⟩, hut, "Probe", none,
        [.field (FormTree.pointsAt "of" [⟨"pay"⟩])]⟩]

theorem reachable_probed : probed.Reachable := ReachableBy.run _ (.empty 16) (by decide +kernel)

theorem not_views_probed : ¬probed.Views ⟨"bob"⟩ ⟨"pay"⟩ := by
  have hdenied : (probed.store.authorize ⟨"bob"⟩ ⟨"pay"⟩).answer.toOption.all
      (fun a => !a.canView) = true := by decide +kernel
  rintro ⟨a, ha, hview⟩
  simp [ha, Except.toOption, hview] at hdenied

/-- The tree of bob's form has a node of alice's. -/
theorem formTree_probed : ∃ tree, (probed.formTree ⟨"bob"⟩ ⟨"probe"⟩).answer = .ok tree ∧
    ∃ n ∈ tree.listing, n.form = ⟨"pay"⟩ := by
  have hshown : ((probed.formTree ⟨"bob"⟩ ⟨"probe"⟩).answer.toOption.map fun tree =>
      tree.listing.map fun n => (n.form.text, n.field.id.text)) =
        some [("probe", "_creator"), ("probe", "_commit_time"), ("probe", "of"), ("pay", "sum")] :=
    by decide +kernel
  obtain ⟨tree, htree, hlisting⟩ := Option.map_eq_some_iff.mp hshown
  have hmem : ("pay", "sum") ∈ tree.listing.map fun n => (n.form.text, n.field.id.text) := by
    simp [hlisting]
  obtain ⟨n, hn, hname⟩ := List.mem_map.mp hmem
  exact ⟨tree, toOption_eq_some.mp htree, n, hn, congrArg ResourceId.mk (Prod.mk.inj hname).1⟩

/-- So bob's form leads to one that he may not view. -/
theorem exists_reaches_probed : ∃ id field,
    (FormSource.ofStore probed.store).Reaches ⟨"probe"⟩ id ∧
      (FormSource.ofStore probed.store).Declares id field ∧ ¬probed.Views ⟨"bob"⟩ id := by
  obtain ⟨tree, htree, n, hn, hform⟩ := formTree_probed
  obtain ⟨-, hiff⟩ := views_formTree_iff htree
  by_contra hnone
  have hall := hiff.mpr fun id field hreaches hdeclares =>
    by_contra fun hview => hnone ⟨id, field, hreaches, hdeclares, hview⟩
  exact not_views_probed (hform ▸ hall n hn)

/-- So a tree may show the fields of a form that is hidden from who asks for it. -/
theorem exists_not_views_formTree :
    ¬∀ (w : Workspace) (p : Principal) (c : ResourceId) (tree : FormTree), w.Reachable →
      (w.formTree p c).answer = .ok tree → ∀ n ∈ tree.listing, w.Views p n.form := by
  intro h
  obtain ⟨tree, htree, n, hn, hform⟩ := formTree_probed
  exact not_views_probed (hform ▸ h probed ⟨"bob"⟩ ⟨"probe"⟩ tree reachable_probed htree n hn)

end Workspace

end Fieldbook
