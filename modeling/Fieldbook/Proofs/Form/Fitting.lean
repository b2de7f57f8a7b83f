import Fieldbook.Proofs.Form.Reading

/-!
# Proofs/Form/Fitting — forms that the binary form has room for

A form is stored as one record, and the binary form has room for it if four bytes are enough to
count its texts and lists (`Form.Fits`).  Its rows and maps lie in each other as deep as its sections
do, three for each section, and some more for the field at the bottom (`Form.levels`).  Both are
found part by part, from the value that each part is kept as (`FieldValue.Sized`).
-/

namespace Fieldbook

open FieldValue (FieldsSized ItemsSized Sized fieldsSized_nil itemsSized_nil)
open MessagePack (CountFits TextFits)

/-! ## Types -/

/-- Four bytes are enough for the texts of an item. -/
def EnumItem.Fits (item : EnumItem) : Prop := TextFits item.label ∧ TextFits item.id.text

namespace FieldType

/-- Four bytes are enough for the texts and the lists of a type. -/
def Fits : FieldType → Prop
  | .quantity units => ∀ s ∈ units, TextFits s
  | .choice _ items => CountFits items.length ∧ ∀ item ∈ items, item.Fits
  | .reference _ range => FieldValue.IdsFit range.toList
  | .embedded form => TextFits form.text
  | .calculated expression => TextFits expression
  | .text | .boolean | .barcode | .geoPoint | .image | .narrative | .localDate | .month | .year
  | .localDateInterval | .instant | .expr => True

/-- How many rows and maps lie in each other in the record of a type. -/
def levels : FieldType → Nat
  | .choice _ (_ :: _) => 5
  | .choice _ [] | .reference .. => 3
  | .text | .quantity _ | .boolean | .embedded _ | .barcode | .geoPoint | .image | .narrative
  | .localDate | .month | .year | .localDateInterval | .instant | .calculated _ | .expr => 2

theorem levels_le (t : FieldType) : t.levels ≤ 5 := by
  unfold levels
  split <;> decide

theorem sized_item (item : EnumItem) : (itemValue item).Sized item.Fits 2 := by
  obtain ⟨r, hvalue, hmade⟩ := made_item item
  have hid := fieldsSized_nil.cons "id" (by decide) (.text item.id.text)
  have hboth := hid.cons "label" (by decide) (.text item.label)
  rw [hvalue]
  exact (hboth.record hmade (by simp)).congr (and_congr_right' (and_iff_left trivial)) rfl

theorem sized_items : ∀ items : List EnumItem, ItemsSized (items.map itemValue)
    (∀ item ∈ items, item.Fits) (if items = [] then 0 else 2)
  | [] => ⟨trivial, iff_of_true trivial nofun, rfl⟩
  | item :: items => by
    obtain ⟨hformed, hfits, hnesting⟩ := (sized_items items).cons (sized_item item)
    refine ⟨hformed, hfits.trans List.forall_mem_cons.symm, hnesting.trans ?_⟩
    cases items <;> rfl

theorem length_parts_le (t : FieldType) : t.parts.length ≤ 2 := by
  cases t with
  | quantity units => cases units <;> simp [parts]
  | _ => simp [parts]

/-- What a type keeps beside its name. -/
theorem sized_parts (t : FieldType) : ∃ n, FieldsSized t.parts t.Fits n ∧ t.levels = n + 2 := by
  have hname : ∀ c : Cardinality, TextFits c.name := by
    intro c
    cases c <;> decide
  cases t with
  | quantity units =>
    cases units with
    | none => exact ⟨0, ⟨trivial, iff_of_true trivial nofun, rfl⟩, rfl⟩
    | some s =>
      have hunits := fieldsSized_nil.cons "units" (by decide) (.text s)
      exact ⟨0, hunits.congr (by simp [Fits]) rfl, rfl⟩
  | choice cardinality items =>
    have hitems := fieldsSized_nil.cons "values" (by decide) (sized_items items).list
    have hboth := hitems.cons "cardinality" (by decide) (.text cardinality.name)
    refine ⟨_, hboth.congr ?_ rfl, ?_⟩
    · rw [List.length_map, and_iff_right (hname cardinality), and_true]
      rfl
    · cases items <;> rfl
  | reference cardinality range =>
    have hrange := fieldsSized_nil.cons "range" (by decide) (.reference range.toList)
    have hboth := hrange.cons "cardinality" (by decide) (.text cardinality.name)
    refine ⟨_, hboth.congr ?_ rfl, rfl⟩
    rw [and_iff_right (hname cardinality), and_true]
    rfl
  | embedded form =>
    have hform := fieldsSized_nil.cons "classId" (by decide) (.text form.text)
    exact ⟨_, hform.congr (and_iff_left trivial) rfl, rfl⟩
  | calculated expression =>
    have hexpression := fieldsSized_nil.cons "expression" (by decide) (.expr expression)
    exact ⟨_, hexpression.congr (and_iff_left trivial) rfl, rfl⟩
  | _ => exact ⟨0, fieldsSized_nil, rfl⟩

/-- **The record of a type** is as large as the type. -/
theorem sized_toRecord (t : FieldType) : (FieldValue.record t.toRecord).Sized t.Fits t.levels := by
  obtain ⟨n, hparts, hlevels⟩ := t.sized_parts
  have hname : TextFits t.typeClass := by
    cases t <;> dsimp only [typeClass] <;> decide
  have hboth := hparts.cons "typeClass" (by decide) (.text t.typeClass)
  have hfew := t.length_parts_le
  refine (hboth.record t.made_toRecord ?_).congr (and_iff_right hname) ?_
  · rw [List.length_cons]
    omega
  · rw [Nat.zero_max, hlevels]

end FieldType

/-! ## Fields -/

namespace FormField

/-- Four bytes are enough for the texts and the lists of a field. -/
def Fits (f : FormField) : Prop :=
  TextFits f.id.text ∧ TextFits f.label ∧ (∀ s ∈ f.description, TextFits s) ∧ f.type.Fits

/-- How many rows and maps lie in each other in the record of a field. -/
def levels (f : FormField) : Nat := f.type.levels + 2

theorem sized_toRecord (f : FormField) : (FieldValue.record f.toRecord).Sized f.Fits f.levels := by
  have hreadOnly := fieldsSized_nil.cons "readOnly" (by decide) (.boolean f.readOnly)
  have hrequired := hreadOnly.cons "required" (by decide) (.boolean f.required)
  have htype := hrequired.cons "type" (by decide) f.type.sized_toRecord
  have hlabel := htype.cons "label" (by decide) (.text f.label)
  have hid := hlabel.cons "id" (by decide) (.text f.id.text)
  have hall := hid.option "description" (by decide) .text f.description
  refine (hall.record f.made_toRecord ?_).congr ?_ ?_
  · cases f.description <;> simp
  · rw [Fits, true_and, true_and, and_true]
    exact ⟨fun ⟨hd, hi, hl, ht⟩ => ⟨hi, hl, hd, ht⟩, fun ⟨hi, hl, hd, ht⟩ => ⟨hd, hi, hl, ht⟩⟩
  · rw [levels]
    omega

end FormField

/-! ## Elements -/

namespace FormElement

mutual

/-- Four bytes are enough for the texts and the lists of an element. -/
def Fits : FormElement → Prop
  | .field f => f.Fits
  | .group id label elements =>
    TextFits id.text ∧ TextFits label ∧ CountFits elements.length ∧ AllFit elements

def AllFit : List FormElement → Prop
  | [] => True
  | e :: rest => Fits e ∧ AllFit rest

end

mutual

/-- How many rows and maps lie in each other in the record of an element. -/
def levels : FormElement → Nat
  | .field f => f.levels
  | .group _ _ elements => levelsOfAll elements + 3

def levelsOfAll : List FormElement → Nat
  | [] => 0
  | e :: rest => max (levels e) (levelsOfAll rest)

end

mutual

/-- How many sections lie in each other. -/
def sections : FormElement → Nat
  | .field _ => 0
  | .group _ _ elements => sectionsOfAll elements + 1

def sectionsOfAll : List FormElement → Nat
  | [] => 0
  | e :: rest => max (sections e) (sectionsOfAll rest)

end

theorem length_toValues (es : List FormElement) : (toValues es).length = es.length := by
  induction es with
  | nil => rw [toValues, List.length_nil, List.length_nil]
  | cons e es ih => rw [toValues, List.length_cons, List.length_cons, ih]

mutual

/-- **The record of an element** is as large as the element. -/
theorem sized_toValue : ∀ e : FormElement, e.toValue.Sized e.Fits e.levels
  | .field f => by
    rw [toValue, Fits, levels]
    exact f.sized_toRecord
  | .group id label elements => by
    obtain ⟨r, hvalue, hmade⟩ := made_group id label elements
    have hlist := fieldsSized_nil.cons "elements" (by decide) (sized_toValues elements).list
    have hlabel := hlist.cons "label" (by decide) (.text label)
    have htype := hlabel.cons "type" (by decide) (.text "section")
    have hid := htype.cons "id" (by decide) (.text id.text)
    have hsection : TextFits "section" := by decide
    rw [hvalue, Fits, levels]
    refine (hid.record hmade (by simp)).congr ?_ (by omega)
    rw [and_iff_right hsection, and_true, length_toValues]

theorem sized_toValues : ∀ es : List FormElement,
    ItemsSized (toValues es) (AllFit es) (levelsOfAll es)
  | [] => by
    rw [toValues, AllFit, levelsOfAll]
    exact itemsSized_nil
  | e :: es => by
    rw [toValues, AllFit, levelsOfAll]
    exact (sized_toValues es).cons (sized_toValue e)

end

mutual

/-- A section adds three levels, and a field has at most seven. -/
theorem levels_bounds : ∀ e : FormElement,
    3 * e.sections ≤ e.levels ∧ e.levels ≤ 3 * e.sections + 7
  | .field f => by
    have htype := f.type.levels_le
    rw [sections, levels, FormField.levels]
    omega
  | .group _ _ elements => by
    have h := levelsOfAll_bounds elements
    rw [sections, levels]
    omega

theorem levelsOfAll_bounds : ∀ es : List FormElement,
    3 * sectionsOfAll es ≤ levelsOfAll es ∧ levelsOfAll es ≤ 3 * sectionsOfAll es + 7
  | [] => by decide
  | e :: es => by
    have he := levels_bounds e
    have hes := levelsOfAll_bounds es
    rw [sectionsOfAll, levelsOfAll]
    omega

end

end FormElement

/-! ## Forms -/

namespace Form

/-- Four bytes are enough for the texts and the lists of a form. -/
def Fits (f : Form) : Prop :=
  TextFits f.label ∧ (∀ s ∈ f.description, TextFits s) ∧ CountFits f.elements.length ∧
    FormElement.AllFit f.elements

/-- How many rows and maps lie in each other in the binary form of a form. -/
def levels (f : Form) : Nat := FormElement.levelsOfAll f.elements + 3

/-- How many sections of a form lie in each other. -/
def sections (f : Form) : Nat := FormElement.sectionsOfAll f.elements

/-- **The value of a form** is as large as the form. -/
theorem sized_toResource (f : Form) :
    (FieldValue.record f.toResource.value).Sized f.Fits f.levels := by
  have hlabel := fieldsSized_nil.cons labelKey (by decide) (.text f.label)
  have hlist := hlabel.cons "elements" (by decide) (FormElement.sized_toValues f.elements).list
  have hall := hlist.option "description" (by decide) .text f.description
  refine (hall.record f.made_toResource ?_).congr ?_ ?_
  · cases f.description <;> simp
  · rw [Fits, and_true, FormElement.length_toValues]
    exact ⟨fun ⟨hd, ⟨hn, he⟩, hl⟩ => ⟨hl, hd, hn, he⟩, fun ⟨hl, hd, hn, he⟩ => ⟨hd, ⟨hn, he⟩, hl⟩⟩
  · rw [levels]
    omega

/-- Three levels for each section, and from three to ten for the rest. -/
theorem levels_bounds (f : Form) :
    3 * f.sections + 3 ≤ f.levels ∧ f.levels ≤ 3 * f.sections + 10 := by
  have h := FormElement.levelsOfAll_bounds f.elements
  rw [sections, levels]
  omega

end Form

end Fieldbook
