import Fieldbook.Form.Stored
import Fieldbook.Proofs.FieldValue.Records

/-!
# Proofs/Form/Reading — forms read back from their records

Each part of a form is kept as a record of pairs under distinct keys (`FieldType.made_toRecord`,
`FormField.made_toRecord`), and is read back from what stands under them.  A field is never taken
for a section, as its type is a record and that of a section a text.
-/

namespace Fieldbook

open Record (Made)

/-! ## Sets -/

namespace IdSet

/-- A member after all others goes to the end. -/
theorem insertInto_of_forall_lt {r : ResourceId} : ∀ {ids : List ResourceId}, (∀ s ∈ ids, s < r) →
    insertInto r ids = ids ++ [r]
  | [], _ => rfl
  | s :: rest, h => by
    obtain ⟨hs, hrest⟩ := List.forall_mem_cons.mp h
    have hnot : ¬r < s := fun hlt => String.lt_irrefl _ (lt_trans hs hlt)
    have hne : r ≠ s := by
      rintro rfl
      exact String.lt_irrefl _ hs
    rw [insertInto, if_neg hnot, if_neg hne, insertInto_of_forall_lt hrest, List.cons_append]

theorem toList_foldl_insert : ∀ {ids : List ResourceId} {s : IdSet},
    (s.toList ++ ids).Pairwise (· < ·) → (ids.foldl insert s).toList = s.toList ++ ids
  | [], s, _ => (List.append_nil _).symm
  | r :: rest, s, h => by
    have hlt : ∀ x ∈ s.toList, x < r := fun x hx =>
      (List.pairwise_append.mp h).2.2 x hx r List.mem_cons_self
    have hinsert : (s.insert r).toList = s.toList ++ [r] := insertInto_of_forall_lt hlt
    have happend : s.toList ++ r :: rest = s.toList ++ [r] ++ rest := by simp
    rw [List.foldl_cons, happend, ← hinsert]
    rw [happend, ← hinsert] at h
    exact toList_foldl_insert h

/-- **A set is that of its own members.** -/
theorem ofList_toList (s : IdSet) : ofList s.toList = s := by
  have h : (ofList s.toList).toList = s.toList := toList_foldl_insert (s := empty) s.ascending
  exact (IdSet.mk.injEq ..).mpr h

end IdSet

/-! ## Types -/

namespace FieldType

/-- The record of an item holds its name and its label. -/
theorem made_item (item : EnumItem) : ∃ r : Record, itemValue item = .record r ∧
    r.Made [("label", .text item.label), ("id", .text item.id.text)] :=
  ⟨_, rfl, (Record.made_empty.set (by simp)).set (by simp)⟩

theorem itemOfValue_itemValue (item : EnumItem) : itemOfValue (itemValue item) = .ok item := by
  obtain ⟨r, hvalue, hmade⟩ := made_item item
  rw [itemOfValue, hvalue]
  dsimp only [FieldValue.record?]
  rw [hmade.text_eq rfl, hmade.text_eq rfl]
  rfl

theorem mapM_itemOfValue : ∀ items : List EnumItem,
    (items.map itemValue).mapM itemOfValue = .ok items
  | [] => rfl
  | item :: items => by
    rw [List.map_cons, List.mapM_cons, itemOfValue_itemValue, mapM_itemOfValue items]
    rfl

/-- The record of a type holds its name and its parts. -/
theorem made_toRecord (t : FieldType) :
    t.toRecord.Made (("typeClass", .text t.typeClass) :: t.parts) := by
  refine Record.made_ofList ?_
  cases t with
  | quantity units => cases units <;> simp [parts]
  | _ => simp [parts]

theorem cardinalityOf_of_get? {r : Record} {c : Cardinality}
    (h : r.get? "cardinality" = some (.text c.name)) : cardinalityOf r = .ok c := by
  rw [cardinalityOf, Record.text?, h]
  cases c <;> rfl

/-- **A type is read back from its record.** -/
theorem ofRecord_toRecord (t : FieldType) : ofRecord t.toRecord = .ok t := by
  have hmade := t.made_toRecord
  rw [ofRecord, hmade.text_eq rfl]
  change ofParts t.toRecord t.typeClass = .ok t
  cases t with
  | quantity units =>
    change Except.ok (quantity (Record.text? _ "units")) = _
    rw [Record.text?, hmade.get?_eq]
    cases units <;> rfl
  | choice cardinality items =>
    have hcardinality : cardinalityOf (toRecord (.choice cardinality items)) = .ok cardinality :=
      cardinalityOf_of_get? (hmade.get?_eq _)
    change (((Record.list? _ "values").getD []).mapM itemOfValue >>= fun items =>
      cardinalityOf _ >>= fun cardinality => pure (choice cardinality items)) = _
    rw [Record.list?, hmade.get?_eq, hcardinality]
    change ((items.map itemValue).mapM itemOfValue >>= _) = _
    rw [mapM_itemOfValue]
    rfl
  | reference cardinality range =>
    have hcardinality : cardinalityOf (toRecord (.reference cardinality range)) = .ok cardinality :=
      cardinalityOf_of_get? (hmade.get?_eq _)
    have hrange : rangeOf (toRecord (.reference cardinality range)) = .ok range := by
      rw [rangeOf, hmade.get?_eq]
      exact congrArg Except.ok range.ofList_toList
    change (rangeOf _ >>= fun range =>
      cardinalityOf _ >>= fun cardinality => pure (reference cardinality range)) = _
    rw [hrange, hcardinality]
    rfl
  | embedded form =>
    change (Record.text _ "classId" >>= fun form => pure (embedded ⟨form⟩)) = _
    rw [hmade.text_eq rfl]
    rfl
  | calculated expression =>
    change Except.ok (calculated (expressionOf _)) = _
    rw [expressionOf, hmade.get?_eq]
    rfl
  | _ => rfl

end FieldType

/-! ## Fields -/

namespace FormField

/-- The record of a field holds its description, if there is one, and five other pairs. -/
theorem made_toRecord (f : FormField) : f.toRecord.Made
    (((f.description.map FieldValue.text).map ("description", ·)).toList ++
      [("id", .text f.id.text), ("label", .text f.label), ("type", .record f.type.toRecord),
        ("required", .boolean f.required), ("readOnly", .boolean f.readOnly)]) :=
  (Record.made_ofList (by simp)).setOption (by simp) _

/-- What stands under the keys of a field, apart from its description. -/
theorem get?_toRecord (f : FormField) (key : String) (hkey : key ≠ "description") :
    f.toRecord.get? key = Keyed.find? key [("id", .text f.id.text), ("label", .text f.label),
      ("type", .record f.type.toRecord), ("required", .boolean f.required),
      ("readOnly", .boolean f.readOnly)] := by
  rw [f.made_toRecord.get?_eq]
  cases f.description with
  | none => rfl
  | some d => exact if_neg (Ne.symm hkey)

theorem text?_description (f : FormField) : f.toRecord.text? "description" = f.description := by
  rw [Record.text?, f.made_toRecord.get?_eq]
  cases f.description <;> rfl

/-- **A field is read back from its record.** -/
theorem ofRecord_toRecord (f : FormField) : ofRecord f.toRecord = .ok f := by
  have hid : f.toRecord.text "id" = .ok f.id.text := by
    rw [Record.text, Record.text?, f.get?_toRecord "id" (by decide)]
    rfl
  have htype : f.toRecord.record "type" = .ok f.type.toRecord := by
    rw [Record.record, Record.record?, f.get?_toRecord "type" (by decide)]
    rfl
  rw [ofRecord, hid]
  change (Record.record _ "type" >>= _) = _
  rw [htype]
  change (FieldType.ofRecord f.type.toRecord >>= _) = _
  rw [FieldType.ofRecord_toRecord, f.text?_description, Record.text?, Record.boolean?,
    Record.boolean?, f.get?_toRecord "label" (by decide), f.get?_toRecord "required" (by decide),
    f.get?_toRecord "readOnly" (by decide)]
  rfl

end FormField

/-! ## Elements -/

namespace FormElement

variable (id : FieldId) (label : String) (elements : List FormElement)

theorem made_group : ∃ r : Record, toValue (.group id label elements) = .record r ∧
    r.Made [("id", .text id.text), ("type", .text "section"), ("label", .text label),
      ("elements", .list (toValues elements))] :=
  ⟨_, by rw [toValue], Record.made_ofList (by simp)⟩

/-- **A field is not taken for a section:** its type is a record. -/
theorem ofValue_field (f : FormField) : ofValue (toValue (.field f)) = .ok (.field f) := by
  have hnot : ¬f.toRecord.text? "type" = some "section" := by
    rw [Record.text?, f.get?_toRecord "type" (by decide)]
    exact (Option.some_ne_none _).symm
  rw [toValue, ofValue, if_neg hnot, f.ofRecord_toRecord]

theorem ofValue_group (h : ofValues (toValues elements) = .ok elements) :
    ofValue (toValue (.group id label elements)) = .ok (.group id label elements) := by
  obtain ⟨r, hvalue, hmade⟩ := made_group id label elements
  have htype : r.text? "type" = some "section" := by
    rw [Record.text?, hmade.get?_eq]
    rfl
  have hlabel : r.text? "label" = some label := by
    rw [Record.text?, hmade.get?_eq]
    rfl
  have hlist : r.list? "elements" = some (toValues elements) := by
    rw [Record.list?, hmade.get?_eq]
    rfl
  rw [hvalue, ofValue, if_pos htype, hmade.text_eq rfl]
  dsimp only
  split
  · next hnone => cases hlist.symm.trans hnone
  · next items hsome =>
    obtain rfl := Option.some.inj (hlist.symm.trans hsome)
    rw [h, hlabel]
    rfl

mutual

/-- **An element is read back from its record,** with all that lies in it. -/
theorem ofValue_toValue : ∀ e : FormElement, ofValue e.toValue = .ok e
  | .field f => ofValue_field f
  | .group id label elements => ofValue_group id label elements (ofValues_toValues elements)

theorem ofValues_toValues : ∀ es : List FormElement, ofValues (toValues es) = .ok es
  | [] => by rw [toValues, ofValues]
  | e :: es => by
    rw [toValues, ofValues, ofValue_toValue e, ofValues_toValues es]

end

end FormElement

/-! ## Forms -/

namespace Form

/-- The value of a form holds its description, if there is one, its elements and its label. -/
theorem made_toResource (f : Form) : f.toResource.value.Made
    (((f.description.map FieldValue.text).map ("description", ·)).toList ++
      [("elements", .list (FormElement.toValues f.elements)), (labelKey, .text f.label)]) :=
  ((Record.made_empty.set (by simp)).set (by simp [labelKey])).setOption (by simp [labelKey]) _

/-- **A stored form is read back** as the form that was stored, under the name and the owner it is
found by. -/
theorem ofResource_toResource (f : Form) {r : Resource} (hclass : r.classId = classId)
    (hvalue : r.value = f.toResource.value) :
    ofResource r = .ok { f with id := r.id, owner := r.owner } := by
  have hmade := f.made_toResource
  have hlist : r.value.list? "elements" = some (FormElement.toValues f.elements) := by
    rw [hvalue, Record.list?, hmade.get?_eq]
    cases f.description <;> rfl
  have hlabel : r.value.text? labelKey = some f.label := by
    rw [hvalue, Record.text?, hmade.get?_eq]
    cases f.description <;> rfl
  have hdescription : r.value.text? "description" = f.description := by
    rw [hvalue, Record.text?, hmade.get?_eq]
    cases f.description <;> rfl
  rw [ofResource, if_neg (not_not_intro hclass), hlist, hlabel, hdescription]
  change (FormElement.ofValues (FormElement.toValues f.elements) >>= _) = _
  rw [FormElement.ofValues_toValues]
  rfl

end Form

end Fieldbook
