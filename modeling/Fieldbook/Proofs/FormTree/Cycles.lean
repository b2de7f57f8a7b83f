import Fieldbook.Proofs.FormTree.Afresh
import Mathlib.Logic.Relation

/-!
# Proofs/FormTree/Cycles — which forms are refused as cyclic

A form is refused as cyclic where the last of some forms, each of which leads to the next one, embeds
one of them (`Loops`).  If a tree is built, there is no such place (`not_loops_of_build`).

The form that is refused then lies on a cycle of fields, of which the one that leads back to it embeds
it (`Loops.recurs`).  The others may be references.  If no cycle has fields of both kinds, the refused
form embeds itself, through embedded forms only (`Recurs.embeds_self`).  And wherever a form embeds
itself in this way below the root form, there is no tree (`not_embeds_self_of_build`).
-/

namespace Fieldbook

open Relation (ReflTransGen TransGen)

/-- It is not that a form is refused as cyclic. -/
def WorkspaceError.IsAcyclic (e : WorkspaceError) : Prop := ∀ x, e ≠ .cyclicForm x

/-- The source itself never says that a form is cyclic. -/
structure FormSource.NeverCyclic (source : FormSource) : Prop where
  form : ∀ id, Fieldbook.FailsOnly WorkspaceError.IsAcyclic (source.form? id).answer
  deleted : ∀ id, Fieldbook.FailsOnly WorkspaceError.IsAcyclic (source.isDeleted id)

/-! ## Sources -/

/-- Forms that are listed are given, and nothing else is said of them. -/
theorem FormSource.neverCyclic_ofList (forms : List (ResourceId × Form)) (deleted : List ResourceId) :
    (ofList forms deleted).NeverCyclic where
  form _ := .ok _
  deleted _ := .ok _

theorem OwnerChain.isAcyclic_isDeleted (asked : ResourceId) :
    ∀ chain : OwnerChain, FailsOnly WorkspaceError.IsAcyclic (chain.isDeleted asked)
  | .root => .ok _
  | .repeated _ => .error fun _ => WorkspaceError.noConfusion
  | .unreadable _ _ => .error fun _ => WorkspaceError.noConfusion
  | .missing id => by
    rw [isDeleted, missingError]
    split
    · exact .error fun _ => WorkspaceError.noConfusion
    · exact .error fun _ => WorkspaceError.noConfusion
  | .link entry up => by
    rw [isDeleted]
    split
    · exact .ok _
    · exact isAcyclic_isDeleted asked up

/-- A store says of its forms that they are not there, cannot be read or are deleted. -/
theorem FormSource.neverCyclic_ofStore (s : Store) : (ofStore s).NeverCyclic where
  form id := by
    refine .reading (.store (fun _ _ => WorkspaceError.noConfusion) _) fun found _ => ?_
    cases found with
    | none => exact .ok _
    | some r =>
      refine .reading ?_ fun _ _ => .ok _
      cases Form.ofResource r with
      | error e => exact .error fun _ => WorkspaceError.noConfusion
      | ok form => exact .ok form
  deleted id := OwnerChain.isAcyclic_isDeleted id (s.ownerChain id)

/-! ## Cycles of fields -/

namespace FormSource

variable {source : FormSource} {root x y a b : ResourceId}

/-- The form of a name in the tree of `root`: the root form under its own name, or the form that is
given under the name and not deleted. -/
inductive Gives (source : FormSource) (root : ResourceId) : ResourceId → Form → Prop where
  | root {form : Form} (given : (source.form? root).answer = .ok (some form)) :
    Gives source root form.id form
  | other {id : ResourceId} {form : Form} (given : (source.form? id).answer = .ok (some form))
    (kept : source.isDeleted id = .ok false) : Gives source root id form

/-- A field of a kind leads from the form `a` to `b`. -/
def Leads (source : FormSource) (root : ResourceId) (kind : FieldType → Bool)
    (a b : ResourceId) : Prop :=
  ∃ form field, source.Gives root a form ∧ field ∈ form.fields ∧ kind field.type ∧
    b ∈ field.type.range.toList

/-- The form `a` has an embedded record with the fields of `b`. -/
abbrev Embeds (source : FormSource) (root : ResourceId) : ResourceId → ResourceId → Prop :=
  source.Leads root FieldType.isEmbedded

/-- The form `a` has a reference to resources of the form `b`. -/
abbrev Refers (source : FormSource) (root : ResourceId) : ResourceId → ResourceId → Prop :=
  source.Leads root FieldType.isReference

/-- The form `a` has a field that leads to `b`. -/
abbrev Joins (source : FormSource) (root : ResourceId) : ResourceId → ResourceId → Prop :=
  source.Leads root fun _ => true

/-- The form lies on a cycle of fields, of which the last, which leads back to it, embeds it. -/
def Recurs (source : FormSource) (root x : ResourceId) : Prop :=
  ∃ y, ReflTransGen (source.Joins root) x y ∧ source.Embeds root y x

/-- No cycle has fields of both kinds. -/
def Unmixed (source : FormSource) (root : ResourceId) : Prop :=
  ∀ x y a b, source.Embeds root y x → ReflTransGen (source.Joins root) x a →
    source.Refers root a b → ¬ReflTransGen (source.Joins root) b y

/-- What leads somewhere is there. -/
theorem Leads.exists_gives {kind : FieldType → Bool} (h : source.Leads root kind a b) :
    ∃ form, source.Gives root a form := by
  obtain ⟨form, field, hgives, -⟩ := h
  exact ⟨form, hgives⟩

/-- What leads somewhere embeds it or refers to it. -/
theorem Leads.embeds_or_refers (h : source.Joins root a b) :
    source.Embeds root a b ∨ source.Refers root a b := by
  obtain ⟨form, field, hgives, hfield, -, hrange⟩ := h
  cases hembedded : field.type.isEmbedded with
  | true => exact .inl ⟨form, field, hgives, hfield, hembedded, hrange⟩
  | false =>
    exact .inr ⟨form, field, hgives, hfield, FormTree.isReference_of_mem hrange hembedded, hrange⟩

/-- **Where no cycle has fields of both kinds,** a form that lies on one with an embedded record embeds
itself, through embedded forms only. -/
theorem Recurs.embeds_self (h : source.Recurs root x) (hunmixed : source.Unmixed root) :
    TransGen (source.Embeds root) x x := by
  obtain ⟨y, hjoins, hback⟩ := h
  -- every form from which `y` is reached leads there through embedded forms, if `x` leads to it
  have hembeds : ∀ a, ReflTransGen (source.Joins root) x a → ReflTransGen (source.Joins root) a y →
      ReflTransGen (source.Embeds root) a y := by
    intro a hfrom hto
    induction hto using ReflTransGen.head_induction_on with
    | refl => exact .refl
    | @head a b hstep hrest ih =>
      rcases Leads.embeds_or_refers hstep with hembeds | hrefers
      · exact .head hembeds (ih (hfrom.tail hstep))
      · exact absurd hrest (hunmixed x y a b hback hfrom hrefers)
  exact .tail' (hembeds x .refl hjoins) hback

end FormSource

namespace FormTree

variable {source : FormSource} {limit : Nat} {root x : ResourceId} {path : List ResourceId}
  {form : Form}

/-! ## Ways down from the root form -/

/-- Forms of different names, the last first, of which each leads to the next one; `form` is the
last. -/
inductive Nested (source : FormSource) (root : ResourceId) : List ResourceId → Form → Prop where
  | root {form : Form} (given : (source.form? root).answer = .ok (some form)) :
    Nested source root [form.id] form
  | step {path : List ResourceId} {form found : Form} {field : FormField} {target : ResourceId}
    (further : Nested source root path form) (declared : field ∈ form.fields)
    (leads : target ∈ field.type.range.toList) (new : target ∉ path)
    (given : (source.form? target).answer = .ok (some found))
    (kept : source.isDeleted target = .ok false) : Nested source root (target :: path) found

/-- The last of some forms that lead one to the next embeds `x`, which is one of them. -/
def Loops (source : FormSource) (root x : ResourceId) : Prop :=
  ∃ path form field, Nested source root path form ∧ field ∈ form.fields ∧ field.type.isEmbedded ∧
    x ∈ field.type.range.toList ∧ x ∈ path

/-- **All forms on a way** lead to the last one, whose form is given. -/
theorem Nested.exists_last (h : Nested source root path form) : ∃ id ∈ path,
    source.Gives root id form ∧ ∀ x ∈ path, ReflTransGen (source.Joins root) x id := by
  induction h with
  | root given =>
    exact ⟨_, List.mem_singleton_self _, .root given, List.forall_mem_singleton.mpr .refl⟩
  | @step path form found field target _ declared leads _ given kept ih =>
    obtain ⟨id, hid, hgives, hjoins⟩ := ih
    refine ⟨target, List.mem_cons_self, .other given kept, ?_⟩
    exact List.forall_mem_cons.mpr ⟨.refl, fun x hx =>
      (hjoins x hx).tail ⟨form, field, hgives, declared, rfl, leads⟩⟩

/-- The root form leads to all forms on a way. -/
theorem Nested.exists_root (h : Nested source root path form) :
    ∃ top, (source.form? root).answer = .ok (some top) ∧
      ∀ x ∈ path, ReflTransGen (source.Joins root) top.id x := by
  induction h with
  | root given => exact ⟨_, given, List.forall_mem_singleton.mpr .refl⟩
  | @step path form found field target further declared leads _ _ _ ih =>
    obtain ⟨top, htop, hjoins⟩ := ih
    obtain ⟨id, hid, hgives, -⟩ := further.exists_last
    refine ⟨top, htop, List.forall_mem_cons.mpr ⟨?_, hjoins⟩⟩
    exact (hjoins id hid).tail ⟨form, field, hgives, declared, rfl, leads⟩

/-- **The form that a way loops back to** is one that the root form leads to, and lies on a cycle. -/
theorem Loops.recurs (h : Loops source root x) : source.Recurs root x ∧
    ∃ top, (source.form? root).answer = .ok (some top) ∧
      ReflTransGen (source.Joins root) top.id x := by
  obtain ⟨path, form, field, hnested, hfield, hembedded, hrange, hx⟩ := h
  obtain ⟨id, -, hgives, hjoins⟩ := hnested.exists_last
  obtain ⟨top, htop, hreached⟩ := hnested.exists_root
  exact ⟨⟨id, hjoins x hx, form, field, hgives, hfield, hembedded, hrange⟩, top, htop, hreached x hx⟩

/-! ## Where a form is refused -/

theorem carries_nested (h : source.NeverCyclic) : Carries source limit (Nested source root)
    fun e => ∀ x, e = .cyclicForm x → Loops source root x where
  failing _ _ target :=
    failsOnly_afresh (fun e he x hx => absurd hx (h.form target e he x))
      (fun _ => WorkspaceError.noConfusion) fun e he x hx => absurd hx (h.deleted target e he x)
  cyclic hnested hfield hembedded hrange hpath := by
    intro x hx
    obtain rfl := WorkspaceError.cyclicForm.inj hx
    exact ⟨_, _, _, hnested, hfield, hembedded, hrange, hpath⟩
  deep _ _ _ _ _ := fun _ => WorkspaceError.noConfusion
  step hnested hfield hrange hpath _ hfound := by
    obtain ⟨found, deleted, hgiven, hdeleted, heq⟩ := afresh_ok_iff.mp hfound
    cases deleted with
    | true => cases heq
    | false =>
      obtain rfl := Option.some.inj heq
      exact hnested.step hfield hrange hpath hgiven hdeleted

/-- **A form that is refused as cyclic** is embedded at the end of a way that it is on. -/
theorem loops_of_build (h : source.NeverCyclic)
    (hbuild : (build source limit root).answer = .error (.cyclicForm x)) : Loops source root x := by
  rw [answer_build] at hbuild
  refine (carries_nested h).buildAfresh (fun e he x hx => absurd hx (h.form root e he x))
    (fun _ => WorkspaceError.noConfusion) (fun form hform => .root hform) _ hbuild x rfl

/-! ## Where a tree is built -/

theorem exists_ok_of_bind {ε α β : Type} {y : Except ε α} {f : α → Except ε β} {b : β}
    (h : (y >>= f) = .ok b) : ∃ a, y = .ok a ∧ f a = .ok b := by
  cases y with
  | error e => cases h
  | ok a => exact ⟨a, rfl, h⟩

/-- What is done with all of a list is done with each of it. -/
theorem exists_ok_of_mapM {ε α β : Type} {f : α → Except ε β} {a : α} :
    ∀ {as : List α} {bs : List β}, as.mapM f = .ok bs → a ∈ as → ∃ b, f a = .ok b
  | [], _, _, ha => absurd ha List.not_mem_nil
  | _ :: as, bs, h, ha => by
    rw [List.mapM_cons] at h
    obtain ⟨b, hb, h⟩ := exists_ok_of_bind h
    obtain ⟨bs', hbs, -⟩ := exists_ok_of_bind h
    rcases List.mem_cons.mp ha with rfl | ha
    · exact ⟨b, hb⟩
    · exact exists_ok_of_mapM hbs ha

theorem exists_ok_of_nodesAfresh {field : FormField} {target : ResourceId} {nodes : List FieldNode}
    (h : nodesAfresh source limit path form = .ok nodes) (hfield : field ∈ form.fields)
    (hrange : target ∈ field.type.range.toList) :
    ∃ below, targetAfresh source limit path form field target = .ok below := by
  rw [nodesAfresh] at h
  obtain ⟨node, hnode⟩ := exists_ok_of_mapM h hfield
  obtain ⟨children, hchildren, -⟩ := exists_ok_of_bind hnode
  exact exists_ok_of_mapM hchildren hrange

/-- A tree that is built goes down every way to its end, so no way is longer than the limit allows. -/
theorem Nested.exists_nodes {tree : FormTree} (hbuild : buildAfresh source limit root = .ok tree)
    (h : Nested source root path form) : path.length ≤ limit + 1 ∧
      ∃ nodes, nodesAfresh source limit path form = .ok nodes := by
  induction h with
  | root given =>
    obtain ⟨found, hfound, hbuild⟩ := exists_ok_of_bind hbuild
    obtain rfl := Except.ok.inj (given.symm.trans hfound)
    obtain ⟨nodes, hnodes, -⟩ := exists_ok_of_bind hbuild
    exact ⟨Nat.le_add_left 1 limit, nodes, hnodes⟩
  | @step path form found field target _ declared leads new given kept ih =>
    obtain ⟨-, nodes, hnodes⟩ := ih
    obtain ⟨below, hbelow⟩ := exists_ok_of_nodesAfresh hnodes declared leads
    have hfound : afresh source form field target = .ok (some found) :=
      afresh_ok_iff.mpr ⟨found, false, given, kept, rfl⟩
    rw [targetAfresh, if_neg new, hfound] at hbelow
    split at hbelow
    · cases hbelow
    · next hroom => exact ⟨Nat.succ_le_succ (Nat.le_of_not_lt hroom), below, hbelow⟩

/-- **Where a tree is built,** no way down loops back by an embedded record. -/
theorem not_loops_of_build {tree : FormTree} (hbuild : (build source limit root).answer = .ok tree) :
    ¬Loops source root x := by
  rintro ⟨path, form, field, hnested, hfield, hembedded, hrange, hx⟩
  obtain ⟨-, nodes, hnodes⟩ := hnested.exists_nodes (answer_build source limit root ▸ hbuild)
  obtain ⟨below, hbelow⟩ := exists_ok_of_nodesAfresh hnodes hfield hrange
  rw [targetAfresh, if_pos hx, if_pos hembedded] at hbelow
  cases hbelow

/-! ## Forms that embed themselves -/

/-- A way down can be cut off at each of its forms. -/
theorem Nested.of_mem (h : Nested source root path form) (hx : x ∈ path) :
    ∃ rest found, Nested source root (x :: rest) found := by
  induction h with
  | @root form given =>
    obtain rfl := List.mem_singleton.mp hx
    exact ⟨[], form, .root given⟩
  | @step path form found field target further declared leads new given kept ih =>
    rcases List.mem_cons.mp hx with rfl | hx
    · exact ⟨path, found, .step further declared leads new given kept⟩
    · exact ih hx

theorem Nested.root_mem {top : Form} (h : Nested source root path form)
    (htop : (source.form? root).answer = .ok (some top)) : top.id ∈ path := by
  induction h with
  | root given =>
    obtain rfl := Option.some.inj (Except.ok.inj (htop.symm.trans given))
    exact List.mem_singleton_self _
  | step _ _ _ _ _ _ ih => exact List.mem_cons_of_mem _ ih

section

variable {y : ResourceId} {rest : List ResourceId}
  (hnamed : ∀ id form, (source.form? id).answer = .ok (some form) → form.id = id)

include hnamed

theorem Gives.given (h : source.Gives root y form) : (source.form? y).answer = .ok (some form) := by
  cases h with
  | root given => rwa [hnamed root form given]
  | other given _ => exact given

/-- The last form on a way is the one of its name. -/
theorem Nested.eq_of_gives {found : Form} (h : Nested source root (y :: rest) form)
    (hgives : source.Gives root y found) : found = form := by
  have hform : source.Gives root y form := by
    cases h with
    | root given => exact .root given
    | step _ _ _ _ given kept => exact .other given kept
  have hboth := (Gives.given hnamed hgives).symm.trans (Gives.given hnamed hform)
  exact Option.some.inj (Except.ok.inj hboth)

/-- A field of the last form on a way leads back to the way, or on to a form that is there. -/
theorem Nested.join {found : Form} (h : Nested source root (x :: rest) form)
    {kind : FieldType → Bool} (hjoin : source.Leads root kind x y)
    (hgives : source.Gives root y found) :
    y ∈ x :: rest ∨ Nested source root (y :: x :: rest) found := by
  obtain ⟨form', field, hform, hfield, -, hrange⟩ := hjoin
  obtain rfl := h.eq_of_gives hnamed hform
  by_cases hy : y ∈ x :: rest
  · exact .inl hy
  · cases hgives with
    | root given => exact absurd (h.root_mem given) hy
    | other given kept => exact .inr (.step h hfield hrange hy given kept)

/-- A form that the root form leads to is at the end of a way. -/
theorem exists_nested {top found : Form} (htop : (source.form? root).answer = .ok (some top))
    (hjoins : ReflTransGen (source.Joins root) top.id y) (hgives : source.Gives root y found) :
    ∃ rest form, Nested source root (y :: rest) form := by
  induction hjoins generalizing found with
  | refl => exact ⟨[], top, .root htop⟩
  | @tail a b _ hstep ih =>
    obtain ⟨_, hstart⟩ := hstep.exists_gives
    obtain ⟨rest, form, hnested⟩ := ih hstart
    rcases hnested.join hnamed hstep hgives with hmem | hnested
    · exact hnested.of_mem hmem
    · exact ⟨_, found, hnested⟩

/-- A way down that ends in a form which embeds itself goes on to another one, where a tree is
built. -/
theorem Nested.longer {tree : FormTree} (hbuild : (build source limit root).answer = .ok tree)
    (h : Nested source root (x :: rest) form) (hself : TransGen (source.Embeds root) x x) :
    ∃ y found, Nested source root (y :: x :: rest) found ∧
      TransGen (source.Embeds root) y y := by
  obtain ⟨y, hembeds, hback⟩ := TransGen.head'_iff.mp hself
  have hself' : TransGen (source.Embeds root) y y := .tail' hback hembeds
  obtain ⟨_, hnext, -⟩ := TransGen.head'_iff.mp hself'
  obtain ⟨found, hgives⟩ := hnext.exists_gives
  rcases h.join hnamed hembeds hgives with hmem | hlonger
  · obtain ⟨form', field, hform, hfield, hembedded, hrange⟩ := hembeds
    obtain rfl := h.eq_of_gives hnamed hform
    exact absurd ⟨_, _, field, h, hfield, hembedded, hrange, hmem⟩ (not_loops_of_build hbuild)
  · exact ⟨y, found, hlonger, hself'⟩

/-- **Where a tree is built,** no form that the root form leads to embeds itself, also through
others. -/
theorem not_embeds_self_of_build {tree : FormTree}
    (hbuild : (build source limit root).answer = .ok tree)
    (hjoins : ReflTransGen (source.Joins root) tree.root.id y) :
    ¬TransGen (source.Embeds root) y y := by
  intro hself
  have hlong : ∀ k, ∃ x rest form, Nested source root (x :: rest) form ∧
      TransGen (source.Embeds root) x x ∧ k ≤ rest.length := by
    intro k
    induction k with
    | zero =>
      obtain ⟨_, hnext, -⟩ := TransGen.head'_iff.mp hself
      obtain ⟨_, hgives⟩ := hnext.exists_gives
      obtain ⟨rest, form, hnested⟩ :=
        exists_nested hnamed (grown_of_build hnamed hbuild).1 hjoins hgives
      exact ⟨y, rest, form, hnested, hself, Nat.zero_le _⟩
    | succ k ih =>
      obtain ⟨x, rest, form, hnested, hself, hk⟩ := ih
      obtain ⟨y, found, hlonger, hself'⟩ := hnested.longer hnamed hbuild hself
      exact ⟨y, x :: rest, found, hlonger, hself', Nat.succ_le_succ hk⟩
  obtain ⟨x, rest, form, hnested, -, hlength⟩ := hlong (limit + 1)
  obtain ⟨hle, -⟩ := hnested.exists_nodes (answer_build source limit root ▸ hbuild)
  rw [List.length_cons] at hle
  omega

end

/-! ## What is refused -/

/-- **What is refused as cyclic.** A form is refused only if, somewhere below the root form, a form
embeds it that it leads to: so it lies on a cycle of fields with an embedded record in it, and where no
cycle has fields of both kinds, on one of embedded records only. Without an embedded record on a cycle
nothing is refused; and where a tree is built, there is no way down that loops back by one. -/
theorem recurs_of_cyclicForm (source : FormSource) (limit : Nat) (root : ResourceId)
    (h : source.NeverCyclic) :
    (∀ x, (build source limit root).answer = .error (.cyclicForm x) →
      Loops source root x ∧ source.Recurs root x ∧
        (∃ top, (source.form? root).answer = .ok (some top) ∧
          ReflTransGen (source.Joins root) top.id x) ∧
        (source.Unmixed root → TransGen (source.Embeds root) x x)) ∧
    ((∀ x, ¬source.Recurs root x) →
      ∀ x, (build source limit root).answer ≠ .error (.cyclicForm x)) ∧
    ∀ tree, (build source limit root).answer = .ok tree → ∀ x, ¬Loops source root x := by
  refine ⟨fun x hbuild => ?_, fun hnone x hbuild => ?_, fun _ hbuild _ => not_loops_of_build hbuild⟩
  · have hloops := loops_of_build h hbuild
    obtain ⟨hrecurs, hreached⟩ := hloops.recurs
    exact ⟨hloops, hrecurs, hreached, hrecurs.embeds_self⟩
  · exact hnone x (loops_of_build h hbuild).recurs.1

/-- A field with a record of another form in it. -/
def embeds (id : String) (form : ResourceId) : FormField where
  id := ⟨id⟩
  label := id
  description := none
  type := .embedded form
  required := false
  readOnly := false

/-- Households that are visited, and the visits, which have the household in them. -/
def householdForms : List Form :=
  [⟨⟨"household"⟩, ⟨"home"⟩, "Household", none, [.field (pointsAt "visits" [⟨"visit"⟩])]⟩,
    ⟨⟨"visit"⟩, ⟨"home"⟩, "Visit", none, [.field (embeds "household" ⟨"household"⟩)]⟩]

def householdSource : FormSource := .ofList (householdForms.map fun f => (f.id, f)) []

theorem recurs_of_cyclicForm_household :
    householdSource.NeverCyclic ∧
      (build householdSource 2 ⟨"household"⟩).answer = .error (.cyclicForm ⟨"household"⟩) ∧
      householdSource.Recurs ⟨"household"⟩ ⟨"household"⟩ ∧
      ∃ tree, (build householdSource 2 ⟨"visit"⟩).answer = .ok tree ∧
        ∀ x, ¬Loops householdSource ⟨"visit"⟩ x := by
  have hnever : householdSource.NeverCyclic := FormSource.neverCyclic_ofList _ []
  have hbuild : (build householdSource 2 ⟨"household"⟩).answer =
      .error (.cyclicForm ⟨"household"⟩) := rfl
  obtain ⟨hrefused, -, -⟩ := recurs_of_cyclicForm householdSource 2 ⟨"household"⟩ hnever
  obtain ⟨-, -, hbuilt⟩ := recurs_of_cyclicForm householdSource 2 ⟨"visit"⟩ hnever
  obtain ⟨tree, htree⟩ : ∃ tree, (build householdSource 2 ⟨"visit"⟩).answer = .ok tree := ⟨_, rfl⟩
  exact ⟨hnever, hbuild, (hrefused _ hbuild).2.1, tree, htree, hbuilt tree htree⟩

/-- **A form may be refused as cyclic though no form embeds itself,** also through others: every cycle
passes through a reference. -/
theorem exists_cyclicForm_not_embeds_self :
    (build householdSource 2 ⟨"household"⟩).answer = .error (.cyclicForm ⟨"household"⟩) ∧
      ∀ x, ¬TransGen (householdSource.Embeds ⟨"household"⟩) x x := by
  refine ⟨rfl, fun x hself => ?_⟩
  have hforms : ∀ f ∈ householdForms, ∀ field ∈ f.fields, field.type.isEmbedded →
      ∀ target ∈ field.type.range.toList, f.id = ⟨"visit"⟩ ∧ target = ⟨"household"⟩ := by
    decide +kernel
  have hembeds : ∀ a b, householdSource.Embeds ⟨"household"⟩ a b →
      a = ⟨"visit"⟩ ∧ b = ⟨"household"⟩ := by
    rintro a b ⟨form, field, hgives, hfield, hembedded, hrange⟩
    have hform : form ∈ householdForms ∧ form.id = a := by
      cases hgives with
      | root given => exact ⟨mem_of_lookup (Except.ok.inj given), rfl⟩
      | other given _ =>
        exact ⟨mem_of_lookup (Except.ok.inj given), id_of_lookup (Except.ok.inj given)⟩
    exact hform.2 ▸ hforms form hform.1 field hfield hembedded b hrange
  obtain ⟨b, hfirst, -⟩ := TransGen.head'_iff.mp hself
  obtain ⟨a, -, hlast⟩ := TransGen.tail'_iff.mp hself
  have heq : (⟨"visit"⟩ : ResourceId) = ⟨"household"⟩ :=
    (hembeds x b hfirst).1.symm.trans (hembeds a x hlast).2
  exact absurd heq (by decide)

end FormTree

end Fieldbook
