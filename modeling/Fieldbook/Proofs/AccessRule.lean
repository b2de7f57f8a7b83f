import Fieldbook.AccessRule
import Fieldbook.Proofs.FieldValue.Records

/-!
# Proofs/AccessRule — how rules are named and stored

The name of a stored rule is made of a resource and a principal.  Either of the two and the name
determine the other.  The two together are not determined by the name, since a hyphen may end the
resource or stand within it, unless the resources are known to be plain, that is without a hyphen
(`idFor_inj_of_isPlain`).  A stored rule is read back as the rule that was stored
(`ofResource_toResource`); it holds a principal and two conditions, and is never nested too deeply
(`nesting_le`).
-/

namespace Fieldbook

open MessagePack (TextFits)

namespace ResourceId

variable {a b : ResourceId}

theorem ext (h : a.text.toList = b.text.toList) : a = b := by
  cases a
  cases b
  exact congrArg mk (String.ext h)

/-- A name without a hyphen. -/
def IsPlain (id : ResourceId) : Prop := '-' ∉ id.text.toList

/-- The form of the names that are made for new folders. -/
def IsGenerated (id : ResourceId) : Prop := id.text.toList.head? = some 'c' ∧ id.IsPlain

theorem IsGenerated.ne_root {id : ResourceId} (h : id.IsGenerated) : id ≠ root := by
  rintro rfl
  exact absurd h.1 (by decide)

instance (id : ResourceId) : Decidable id.IsPlain := inferInstanceAs (Decidable (_ ∉ _))

instance (id : ResourceId) : Decidable id.IsGenerated := inferInstanceAs (Decidable (_ ∧ _))

end ResourceId

namespace Record

theorem get?_empty (key : String) : empty.get? key = none := rfl

theorem get?_set (r : Record) (key other : String) (value : FieldValue) :
    (r.set key value).get? other = if key = other then some value else r.get? other :=
  Keyed.find?_insert key other value r

theorem get?_setOption (r : Record) (key other : String) (value : Option FieldValue) :
    (r.setOption key value).get? other =
      if key = other then value.or (r.get? other) else r.get? other := by
  cases value with
  | some v => exact get?_set r key other v
  | none => simp [setOption]

end Record

namespace AccessRule

variable {r r' : ResourceId} {p p' : Principal}

/-! ## Names -/

theorem idFor_toList (r : ResourceId) (p : Principal) :
    (idFor r p).text.toList = idStart.toList ++ (r.text.toList ++ '-' :: p.text.toList) := by
  have hdash : "-".toList = ['-'] := rfl
  simp only [idFor, String.toList_append, hdash]
  simp

theorem isRuleId_idFor (r : ResourceId) (p : Principal) : isRuleId (idFor r p) = true := by
  rw [isRuleId, idFor_toList]
  exact List.isPrefixOf_iff_prefix.mpr (List.prefix_append _ _)

theorem ne_root_of_isRuleId {id : ResourceId} (h : isRuleId id = true) : id ≠ .root := by
  rintro rfl
  exact absurd h (by decide)

/-- Two rules of one name leave the same text for resource and principal. -/
theorem toList_of_idFor_eq (h : idFor r p = idFor r' p') :
    r.text.toList ++ '-' :: p.text.toList = r'.text.toList ++ '-' :: p'.text.toList := by
  have htext := congrArg (fun id => id.text.toList) h
  simp only [idFor_toList] at htext
  exact List.append_cancel_left htext

theorem principal_of_idFor_eq (h : idFor r p = idFor r p') : p = p' := by
  have htail := List.append_cancel_left (toList_of_idFor_eq h)
  exact ResourceId.ext (List.cons.inj htail).2

theorem resource_of_idFor_eq (h : idFor r p = idFor r' p) : r = r' :=
  ResourceId.ext (List.append_cancel_right (toList_of_idFor_eq h))

/-- A list is cut in one way only at the first place of an element. -/
theorem append_cons_inj_of_not_mem {α : Type} {c : α} : ∀ {xs xs' ys ys' : List α},
    xs ++ c :: ys = xs' ++ c :: ys' → c ∉ xs → c ∉ xs' → xs = xs'
  | [], [], _, _, _, _, _ => rfl
  | [], x' :: xs', _, _, h, _, h' => absurd (List.cons.inj h).1 fun e => h' (e ▸ List.mem_cons_self)
  | x :: xs, [], _, _, h, hx, _ => absurd (List.cons.inj h).1 fun e => hx (e ▸ List.mem_cons_self)
  | x :: xs, x' :: xs', _, _, h, hx, hx' => by
    obtain ⟨rfl, hrest⟩ := List.cons.inj h
    have hxs : c ∉ xs := fun hc => hx (List.mem_cons_of_mem _ hc)
    have hxs' : c ∉ xs' := fun hc => hx' (List.mem_cons_of_mem _ hc)
    rw [append_cons_inj_of_not_mem hrest hxs hxs']

/-- **Between plain resources a name belongs to one rule.** -/
theorem idFor_inj_of_isPlain (hr : r.IsPlain) (hr' : r'.IsPlain)
    (h : idFor r p = idFor r' p') : r = r' ∧ p = p' := by
  have htext := append_cons_inj_of_not_mem (toList_of_idFor_eq h) hr hr'
  obtain rfl : r = r' := ResourceId.ext htext
  exact ⟨rfl, principal_of_idFor_eq h⟩

theorem isRuleId_of_isGenerated {id : ResourceId} (h : id.IsGenerated) : isRuleId id = false := by
  rw [isRuleId]
  obtain ⟨hstart, -⟩ := h
  cases htext : id.text.toList with
  | nil => rfl
  | cons c cs =>
    rw [htext] at hstart
    obtain rfl := Option.some.inj hstart
    rfl

/-! ## Reading a rule back -/

theorem condition?_of_get? {value : Record} {key : String} {condition : Option String}
    (h : value.get? key = condition.map .expr) : condition? value key = condition := by
  rw [condition?, h]
  cases condition <;> rfl

section Stored

variable (rule : AccessRule)

theorem get?_principal :
    rule.toResource.value.get? "principal" = some (.reference [rule.principal]) := by
  simp [toResource, Resource.new, Record.get?_setOption, Record.get?_set]

theorem boolean?_owner : rule.toResource.value.boolean? "owner" = some rule.owner := by
  simp [toResource, Resource.new, Record.boolean?, Record.get?_setOption, Record.get?_set,
    FieldValue.boolean?]

theorem get?_view : rule.toResource.value.get? "view" = rule.viewCondition.map .expr := by
  simp [toResource, Resource.new, Record.get?_setOption, Record.get?_set, Record.get?_empty]

theorem get?_edit : rule.toResource.value.get? "edit" = rule.editCondition.map .expr := by
  simp [toResource, Resource.new, Record.get?_setOption, Record.get?_set, Record.get?_empty]

end Stored

/-- **A stored rule is read back** as the rule that was stored, at the resource and under the name
it is found by. -/
theorem ofResource_toResource (rule : AccessRule) {r : Resource} (hclass : r.classId = classId)
    (hvalue : r.value = rule.toResource.value) :
    ofResource r = .ok { rule with id := r.id, resource := r.owner } := by
  rw [ofResource, if_neg (not_not_intro hclass), hvalue, get?_principal, boolean?_owner,
    condition?_of_get? (get?_view rule), condition?_of_get? (get?_edit rule)]
  rfl

/-! ## The size of a rule -/

/-- Four bytes are enough for the principal and the conditions of a rule. -/
def Fits (rule : AccessRule) : Prop :=
  TextFits rule.principal.text ∧ (∀ s ∈ rule.viewCondition, TextFits s) ∧
    ∀ s ∈ rule.editCondition, TextFits s

/-- The value of a rule holds its conditions, if there are any, and two other pairs. -/
theorem made_toResource (rule : AccessRule) : rule.toResource.value.Made
    (((rule.editCondition.map FieldValue.expr).map ("edit", ·)).toList ++
      (((rule.viewCondition.map FieldValue.expr).map ("view", ·)).toList ++
        [("owner", .boolean rule.owner), ("principal", .reference [rule.principal])])) :=
  (((Record.made_empty.set (by simp)).set (by simp)).setOption (by simp) _).setOption
    (by cases rule.viewCondition <;> simp) _

/-- **The value of a rule** is as large as the rule. -/
theorem sized_toResource (rule : AccessRule) :
    (FieldValue.record rule.toResource.value).Sized rule.Fits 3 := by
  have hprincipal :=
    FieldValue.fieldsSized_nil.cons "principal" (by decide) (.reference [rule.principal])
  have howner := hprincipal.cons "owner" (by decide) (.boolean rule.owner)
  have hview := howner.option "view" (by decide) .expr rule.viewCondition
  have hall := hview.option "edit" (by decide) .expr rule.editCondition
  have hone : FieldValue.IdsFit [rule.principal] ↔ TextFits rule.principal.text := by
    have hcount : MessagePack.CountFits [rule.principal].length := (by decide : 1 < 0x100000000)
    rw [FieldValue.IdsFit, and_iff_right hcount]
    simp
  refine (hall.record rule.made_toResource ?_).congr ?_ rfl
  · cases rule.viewCondition <;> cases rule.editCondition <;> simp
  · rw [Fits, true_and, and_true, hone]
    exact ⟨fun ⟨he, hv, hp⟩ => ⟨hp, hv, he⟩, fun ⟨hp, hv, he⟩ => ⟨he, hv, hp⟩⟩

/-- A rule is never nested too deeply to be read again. -/
theorem nesting_le (rule : AccessRule) :
    rule.toResource.value.nesting ≤ FieldValue.nestingLimit := by
  change (FieldValue.record rule.toResource.value).nesting ≤ FieldValue.nestingLimit
  rw [rule.sized_toResource.nesting_eq]
  decide

end AccessRule

end Fieldbook
