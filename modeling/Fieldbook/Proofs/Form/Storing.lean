import Fieldbook.Proofs.AccessRule
import Fieldbook.Proofs.Form.Refitting
import Fieldbook.Store.Basic

/-!
# Proofs/Form/Storing — forms and rules that survive their storage

A form is stored as the bytes of a record.  What is read of them is the form itself, unless its
sections lie deeper in each other than the reader of bytes goes; then nothing is read
(`Form.reread_eq`).  Of the rows and maps that the reader counts, three go to each section.  A rule
is never too deep.  What is read of a content is what is read of its bytes, where four bytes are
enough to count texts and lists (`Content.record?_eq_decode?`).
-/

namespace Fieldbook

open FieldValue (FieldsFit nestingLimit)
open MessagePack (TextFits)

/-- Whatever is read of bytes has ascending keys and fits. -/
theorem Record.fits_of_decode? {bytes : List UInt8} {r : Record} (h : decode? bytes = some r) :
    r.WellFormed ∧ r.Fits := by
  obtain ⟨⟨r, rest⟩, hread, rfl⟩ := Option.map_eq_some_iff.mp h
  exact FieldValue.gives_record (FieldValue.gives_value _) bytes r rest hread

/-- **What is read of a content is read of its bytes.** -/
theorem Content.record?_eq_decode? {content : Content}
    (h : ∀ r, content = .encoded r → r.WellFormed ∧ r.Fits) :
    content.record? = Record.decode? content.bytes := by
  cases content with
  | encoded r =>
    obtain ⟨hformed, hfits⟩ := h r rfl
    exact (FieldValue.decode?_encode_eq hformed hfits).symm
  | raw bytes => rfl

/-! ## Forms -/

namespace Form

/-- What is read of the bytes that a form is stored as. -/
def reread (f : Form) : Option (Except DataError Form) :=
  (Record.decode? f.toResource.value.encode).map fun value =>
    ofResource { f.toResource with value := value }

/-- **A form that fits** is read back, unless it is nested too deeply. -/
theorem reread_eq {f : Form} (hfits : f.Fits) :
    f.reread = if f.levels ≤ nestingLimit then some (.ok f) else none := by
  obtain ⟨hformed, hfit, hlevels⟩ := f.sized_toResource
  rw [← hlevels, reread, FieldValue.decode?_encode_eq hformed (hfit.mpr hfits)]
  change Option.map _ (if f.toResource.value.nesting ≤ nestingLimit then _ else _) =
    if f.toResource.value.nesting ≤ nestingLimit then _ else _
  split
  · exact congrArg some (f.ofResource_toResource rfl rfl)
  · rfl

/-- **The forms that survive:** those that fit and are not nested too deeply. -/
theorem reread_ok_iff {f : Form} :
    f.reread = some (.ok f) ↔ f.Fits ∧ f.levels ≤ nestingLimit := by
  constructor
  · intro h
    have hfits : f.Fits := by
      obtain ⟨value, hvalue, hread⟩ := Option.map_eq_some_iff.mp h
      exact fits_of_ofResource (Record.fits_of_decode? hvalue).2.2 hread
    rw [reread_eq hfits] at h
    refine ⟨hfits, Decidable.byContradiction fun hdeep => ?_⟩
    rw [if_neg hdeep] at h
    cases h
  · rintro ⟨hfits, hlevels⟩
    rw [reread_eq hfits, if_pos hlevels]

end Form

/-! ## Rules -/

namespace AccessRule

theorem textFits_condition? {value : Record} (h : FieldsFit value) (key : String) :
    ∀ s ∈ condition? value key, TextFits s := by
  intro s hs
  rw [condition?] at hs
  split at hs
  · next t hget =>
    obtain rfl := Option.some.inj hs
    have hfit : (FieldValue.expr t).Fits := Record.fits_of_get? h hget
    exact hfit
  · next t hget =>
    obtain rfl := Option.some.inj hs
    have hfit : (FieldValue.text t).Fits := Record.fits_of_get? h hget
    exact hfit
  · cases hs

/-- **A rule that is read** of a value that fits, fits. -/
theorem fits_of_ofResource {r : Resource} {rule : AccessRule} (h : FieldsFit r.value)
    (hread : ofResource r = .ok rule) : rule.Fits := by
  rw [ofResource] at hread
  split at hread
  · cases hread
  · split at hread
    · next principal hget =>
      have hfit : (FieldValue.reference [principal]).Fits := Record.fits_of_get? h hget
      cases hread
      exact ⟨hfit.2 principal (List.mem_singleton_self _), textFits_condition? h "view",
        textFits_condition? h "edit"⟩
    · cases hread

/-- What is read of the bytes that a rule is stored as. -/
def reread (rule : AccessRule) : Option (Except DataError AccessRule) :=
  (Record.decode? rule.toResource.value.encode).map fun value =>
    ofResource { rule.toResource with value := value }

/-- **The rules that survive:** those that fit. -/
theorem reread_ok_iff {rule : AccessRule} : rule.reread = some (.ok rule) ↔ rule.Fits := by
  constructor
  · intro h
    obtain ⟨value, hvalue, hread⟩ := Option.map_eq_some_iff.mp h
    exact fits_of_ofResource (Record.fits_of_decode? hvalue).2.2 hread
  · intro hfits
    obtain ⟨hformed, hfit, -⟩ := rule.sized_toResource
    rw [reread, FieldValue.decode?_record_encode rule.nesting_le ⟨hformed, hfit.mpr hfits⟩]
    exact congrArg some (ofResource_toResource rule rfl rfl)

end AccessRule

/-! ## Storage -/

/-- **Forms and rules survive their storage.**  A form is always read back from the record that it
is stored as.  It is read back from the bytes of the record just if four bytes are enough to count
its texts and lists, and its rows and maps lie at most as deep in each other as the reader of bytes
goes; a deeper form is not read at all.  Each section that lies in another one adds three levels.  A
rule is read back from its bytes just if four bytes are enough to count its texts. -/
theorem survives_storage :
    (∀ f : Form, Form.ofResource f.toResource = .ok f ∧
      (f.reread = some (.ok f) ↔ f.Fits ∧ f.levels ≤ nestingLimit) ∧
      (f.Fits → nestingLimit < f.levels → f.reread = none) ∧
      3 * f.sections + 3 ≤ f.levels ∧ f.levels ≤ 3 * f.sections + 10) ∧
    ∀ rule : AccessRule, AccessRule.ofResource rule.toResource = .ok rule ∧
      (rule.reread = some (.ok rule) ↔ rule.Fits) := by
  refine ⟨fun f => ⟨f.ofResource_toResource rfl rfl, Form.reread_ok_iff, ?_, f.levels_bounds⟩,
    fun rule => ⟨AccessRule.ofResource_toResource rule rfl rfl, AccessRule.reread_ok_iff⟩⟩
  intro hfits hdeep
  rw [Form.reread_eq hfits, if_neg (Nat.not_le.mpr hdeep)]

/-- Sections in each other, with a choice in the middle. -/
def nestedElements : Nat → List FormElement
  | 0 => [.field
      { id := ⟨"f"⟩, label := "", description := none, required := false, readOnly := false
        type := .choice .single [⟨⟨"a"⟩, "A"⟩] }]
  | n + 1 => [.group ⟨"s"⟩ "" (nestedElements n)]

/-- A form of sections in each other. -/
def nestedForm (n : Nat) : Form := ⟨⟨"nested"⟩, ⟨"home"⟩, "", none, nestedElements n⟩

theorem fits_nestedElements (n : Nat) :
    (nestedElements n).length = 1 ∧ FormElement.AllFit (nestedElements n) := by
  induction n with
  | zero =>
    have hitem : EnumItem.Fits ⟨⟨"a"⟩, "A"⟩ := ⟨by decide, by decide⟩
    have htype : FieldType.Fits (.choice .single [⟨⟨"a"⟩, "A"⟩]) :=
      ⟨by decide, List.forall_mem_singleton.mpr hitem⟩
    exact ⟨rfl, ⟨by decide, by decide, nofun, htype⟩, trivial⟩
  | succ n ih =>
    obtain ⟨hlength, hfit⟩ := ih
    refine ⟨rfl, ⟨by decide, by decide, ?_, hfit⟩, trivial⟩
    rw [hlength]
    decide

theorem fits_nestedForm (n : Nat) : (nestedForm n).Fits := by
  obtain ⟨hlength, hfit⟩ := fits_nestedElements n
  have hempty : TextFits "" := by decide
  refine ⟨hempty, nofun, ?_, hfit⟩
  change MessagePack.CountFits (nestedElements n).length
  rw [hlength]
  decide

theorem levels_nestedElements (n : Nat) :
    FormElement.levelsOfAll (nestedElements n) = 3 * n + 7 := by
  induction n with
  | zero => rfl
  | succ n ih =>
    rw [nestedElements, FormElement.levelsOfAll, FormElement.levels, ih, FormElement.levelsOfAll]
    omega

theorem levels_nestedForm (n : Nat) : (nestedForm n).levels = 3 * n + 10 := by
  rw [Form.levels]
  change FormElement.levelsOfAll (nestedElements n) + 3 = 3 * n + 10
  rw [levels_nestedElements]

/-- With a choice in the middle, 337 sections in each other survive, and 338 do not.  A rule of two
conditions survives. -/
theorem survives_storage_nestedForm :
    let rule : AccessRule := ⟨⟨"_acr-a-b"⟩, ⟨"a"⟩, ⟨"b"⟩, false, some "true", some ""⟩
    (nestedForm 337).reread = some (.ok (nestedForm 337)) ∧ (nestedForm 338).reread = none ∧
      rule.reread = some (.ok rule) := by
  intro rule
  obtain ⟨hforms, hrules⟩ := survives_storage
  obtain ⟨-, hshallow, -⟩ := hforms (nestedForm 337)
  obtain ⟨-, -, hdeep, -⟩ := hforms (nestedForm 338)
  have hrule : rule.Fits :=
    ⟨by decide, fun s hs => Option.some.inj hs ▸ (by decide : TextFits "true"),
      fun s hs => Option.some.inj hs ▸ (by decide : TextFits "")⟩
  refine ⟨hshallow.mpr ⟨fits_nestedForm 337, ?_⟩, hdeep (fits_nestedForm 338) ?_,
    (hrules rule).2.mpr hrule⟩
  · rw [levels_nestedForm]
    decide
  · rw [levels_nestedForm]
    decide

/-- Not every form survives: one with 338 sections in each other does not. -/
theorem not_survives_nestedForm :
    (nestedForm 338).reread ≠ some (.ok (nestedForm 338)) := by
  rw [Form.reread_eq (fits_nestedForm 338), levels_nestedForm, if_neg (by decide)]
  exact nofun

end Fieldbook
