import Fieldbook.Proofs.Form.Fitting

/-!
# Proofs/Form/Refitting — what is read of a record that fits

The texts and lists of a form that is read come from the record that it is read of, each from a
place of its own, or are left empty.  So a form that is read of a record that fits does so too
(`Form.fits_of_ofResource`), whatever else the record holds.
-/

namespace Fieldbook

open FieldValue (FieldsFit ItemsFit)
open MessagePack (CountFits TextFits)

/-- Whatever is answered has the property. -/
def Yields {ε α : Type} (x : Except ε α) (P : α → Prop) : Prop := ∀ a, x = .ok a → P a

namespace Yields

variable {ε α β : Type} {x : Except ε α} {f : α → Except ε β} {P : α → Prop} {Q : β → Prop} {a : α}

theorem ok (h : P a) : Yields (.ok a : Except ε α) P := by
  rintro _ ⟨⟩
  exact h

theorem error {e : ε} : Yields (.error e : Except ε α) P := nofun

/-- **Answers that follow each other.** -/
theorem bind (hx : Yields x P) (hf : ∀ a, P a → Yields (f a) Q) : Yields (x >>= f) Q := by
  cases x with
  | error e => exact error
  | ok a => exact hf a (hx a rfl)

theorem any (x : Except ε α) : Yields x fun _ => True := fun _ _ => trivial

theorem mapM : ∀ {as : List α}, (∀ a ∈ as, Yields (f a) Q) →
    Yields (as.mapM f) fun bs => bs.length = as.length ∧ ∀ b ∈ bs, Q b
  | [], _ => ok ⟨rfl, nofun⟩
  | a :: as, h => by
    obtain ⟨ha, hrest⟩ := List.forall_mem_cons.mp h
    rw [List.mapM_cons]
    refine bind ha fun b hb => bind (mapM hrest) fun bs hbs => ok ?_
    exact ⟨congrArg (· + 1) hbs.1, List.forall_mem_cons.mpr ⟨hb, hbs.2⟩⟩

end Yields

/-! ## What stands under a key -/

namespace Record

variable {r : Record} (h : FieldsFit r) {key : String}

include h

theorem fits_of_get? {v : FieldValue} (hv : r.get? key = some v) : v.Fits :=
  (FieldValue.fieldsFit_iff.mp h _ (Keyed.mem_of_find? hv)).2

theorem textFits_of_text? {s : String} (hs : r.text? key = some s) : TextFits s := by
  obtain ⟨v, hv, htext⟩ := Option.bind_eq_some_iff.mp hs
  cases v with
  | text t =>
    obtain rfl := Option.some.inj htext
    exact fits_of_get? h hv
  | _ => cases htext

theorem yields_text : Yields (r.text key) TextFits := by
  intro s hs
  rw [text] at hs
  split at hs
  · next hsome =>
    cases hs
    exact textFits_of_text? h hsome
  · cases hs

theorem yields_record : Yields (r.record key) FieldsFit := by
  intro s hs
  rw [record] at hs
  split at hs
  · next hsome =>
    cases hs
    obtain ⟨v, hv, hrecord⟩ := Option.bind_eq_some_iff.mp hsome
    cases v with
    | record fields =>
      obtain rfl := Option.some.inj hrecord
      exact (fits_of_get? h hv).2
    | _ => cases hrecord
  · cases hs

/-- A list that is missing is empty. -/
theorem fits_list (key : String) :
    CountFits ((r.list? key).getD []).length ∧ ItemsFit ((r.list? key).getD []) := by
  cases hlist : r.list? key with
  | none => exact ⟨by decide, trivial⟩
  | some items =>
    obtain ⟨v, hv, hitems⟩ := Option.bind_eq_some_iff.mp hlist
    cases v with
    | list items' =>
      obtain rfl := Option.some.inj hitems
      exact fits_of_get? h hv
    | _ => cases hitems

/-- A text that is missing is empty. -/
theorem textFits_getD (key : String) : TextFits ((r.text? key).getD "") := by
  cases htext : r.text? key with
  | none => exact (by decide : TextFits "")
  | some s => exact textFits_of_text? h htext

end Record

/-! ## Types -/

namespace IdSet

theorem length_insertInto_le (r : ResourceId) : ∀ ids : List ResourceId,
    (insertInto r ids).length ≤ ids.length + 1
  | [] => Nat.le_refl 1
  | s :: rest => by
    unfold insertInto
    split
    · exact Nat.le_refl _
    · split
      · exact Nat.le_succ _
      · exact Nat.succ_le_succ (length_insertInto_le r rest)

theorem foldl_insert_le : ∀ (ids : List ResourceId) (s : IdSet),
    (∀ id ∈ (ids.foldl insert s).toList, id ∈ s.toList ∨ id ∈ ids) ∧
      (ids.foldl insert s).toList.length ≤ s.toList.length + ids.length
  | [], s => ⟨fun _ h => .inl h, Nat.le_refl _⟩
  | r :: ids, s => by
    obtain ⟨hmem, hlength⟩ := foldl_insert_le ids (s.insert r)
    have hinsert : (s.insert r).toList.length ≤ s.toList.length + 1 := length_insertInto_le r _
    refine ⟨fun id h => ?_, ?_⟩
    · rcases hmem id h with h | h
      · rcases mem_insertInto.mp h with rfl | h
        · exact .inr List.mem_cons_self
        · exact .inl h
      · exact .inr (List.mem_cons_of_mem _ h)
    · rw [List.foldl_cons, List.length_cons]
      omega

/-- The set of some names that fit. -/
theorem idsFit_ofList {ids : List ResourceId} (h : FieldValue.IdsFit ids) :
    FieldValue.IdsFit (ofList ids).toList := by
  obtain ⟨hmem, hlength⟩ := foldl_insert_le ids empty
  have hempty : empty.toList.length = 0 := rfl
  refine ⟨?_, fun id hid => ?_⟩
  · have hcount : ids.length < 0x100000000 := h.1
    change (ids.foldl insert empty).toList.length < 0x100000000
    omega
  · exact h.2 id ((hmem id hid).resolve_left List.not_mem_nil)

end IdSet

namespace FieldType

theorem yields_itemOfValue {v : FieldValue} (hv : v.Fits) :
    Yields (itemOfValue v) EnumItem.Fits := by
  cases v with
  | record r =>
    have hr : FieldsFit r := hv.2
    exact (Record.yields_text hr).bind fun _ hid =>
      (Record.yields_text hr).bind fun _ hlabel => .ok ⟨hlabel, hid⟩
  | _ => exact .error

variable {r : Record} (h : FieldsFit r)

include h

theorem yields_rangeOf : Yields (rangeOf r) fun range => FieldValue.IdsFit range.toList := by
  rw [rangeOf]
  split
  · next ids hids =>
    have hfit : (FieldValue.reference ids).Fits := Record.fits_of_get? h hids
    exact .ok (IdSet.idsFit_ofList hfit)
  · exact .ok ⟨by decide, fun id hid => absurd hid List.not_mem_nil⟩
  · exact .error

theorem textFits_expressionOf : TextFits (expressionOf r) := by
  rw [expressionOf]
  split
  · next s hs =>
    have hfit : (FieldValue.expr s).Fits := Record.fits_of_get? h hs
    exact hfit
  · next s hs =>
    have hfit : (FieldValue.text s).Fits := Record.fits_of_get? h hs
    exact hfit
  · decide

/-- **A type that is read** fits, whatever name it is read under. -/
theorem yields_ofParts (name : String) : Yields (ofParts r name) Fits := by
  unfold ofParts
  split
  case h_2 => exact .ok fun s hs => Record.textFits_of_text? h hs
  case h_4 =>
    obtain ⟨hcount, hitems⟩ := Record.fits_list h "values"
    have hall : ∀ v ∈ (r.list? "values").getD [], Yields (itemOfValue v) EnumItem.Fits :=
      fun v hv => yields_itemOfValue (FieldValue.itemsFit_iff.mp hitems v hv)
    refine (Yields.mapM hall).bind fun items ⟨hlength, hfit⟩ => ?_
    exact (Yields.any _).bind fun _ _ => .ok ⟨hlength ▸ hcount, hfit⟩
  case h_5 =>
    exact (yields_rangeOf h).bind fun range hrange => (Yields.any _).bind fun _ _ => .ok hrange
  case h_6 => exact (Record.yields_text h).bind fun form hform => .ok hform
  case h_16 => exact .ok (textFits_expressionOf h)
  case h_18 => exact .error
  all_goals exact .ok trivial

theorem yields_ofRecord : Yields (ofRecord r) Fits :=
  (Yields.any _).bind fun name _ => yields_ofParts h name

end FieldType

/-! ## Fields -/

theorem FormField.yields_ofRecord {r : Record} (h : FieldsFit r) : Yields (ofRecord r) Fits :=
  (Record.yields_text h).bind fun _ hid => (Record.yields_record h).bind fun _ hr =>
    (FieldType.yields_ofRecord hr).bind fun _ htype => .ok
      ⟨hid, Record.textFits_getD h "label", fun _ hs => Record.textFits_of_text? h hs, htype⟩

/-! ## Elements -/

namespace FormElement

mutual

/-- **An element that is read** fits, with all that lies in it. -/
theorem yields_ofValue (v : FieldValue) (hv : v.Fits) : Yields (ofValue v) Fits := by
  match v with
  | .record r =>
    have hr : FieldsFit r := hv.2
    rw [ofValue]
    split
    · split
      · exact .error
      · next id hid =>
        have hidFits := Record.yields_text hr id hid
        have hlabel := Record.textFits_getD hr "label"
        split
        · exact .ok ⟨hidFits, hlabel, by decide, trivial⟩
        · next items hitems =>
          have hlt := Record.sizeOf_list?_lt hitems
          have hlist := Record.fits_list hr "elements"
          rw [hitems] at hlist
          have hread := yields_ofValues items hlist.2
          split
          · exact .error
          · next elements helements =>
            obtain ⟨hlength, hall⟩ := hread elements helements
            exact .ok ⟨hidFits, hlabel, hlength ▸ hlist.1, hall⟩
    · split
      · exact .error
      · next f hf => exact .ok (FormField.yields_ofRecord hr f hf)
  | .text _ | .quantity .. | .boolean _ | .choice _ | .reference _ | .barcode _ | .narrative _
  | .geoPoint .. | .image .. | .localDate _ | .month .. | .year _ | .localDateInterval ..
  | .instant _ | .expr _ | .list _ =>
    rw [ofValue]
    · exact .error
    · exact nofun
termination_by sizeOf v

theorem yields_ofValues (vs : List FieldValue) (hvs : ItemsFit vs) :
    Yields (ofValues vs) fun es => es.length = vs.length ∧ AllFit es := by
  match vs with
  | [] =>
    rw [ofValues]
    exact .ok ⟨rfl, trivial⟩
  | v :: rest =>
    have hfirst := yields_ofValue v hvs.1
    have hrest := yields_ofValues rest hvs.2
    rw [ofValues]
    split
    · exact .error
    · next e he =>
      split
      · exact .error
      · next es hes =>
        obtain ⟨hlength, hall⟩ := hrest es hes
        exact .ok ⟨congrArg (· + 1) hlength, hfirst e he, hall⟩
termination_by sizeOf vs

end

end FormElement

/-! ## Forms -/

/-- **A form that is read** of a value that fits, fits. -/
theorem Form.fits_of_ofResource {r : Resource} {f : Form} (h : FieldsFit r.value)
    (hread : ofResource r = .ok f) : f.Fits := by
  have hyields : Yields (ofResource r) Fits := by
    obtain ⟨hcount, hitems⟩ := Record.fits_list h "elements"
    rw [ofResource]
    split
    · exact .error
    · refine (FormElement.yields_ofValues _ hitems).bind ?_
      rintro es ⟨hlength, hall⟩
      exact .ok ⟨Record.textFits_getD h labelKey, fun _ hs => Record.textFits_of_text? h hs,
        hlength ▸ hcount, hall⟩
  exact hyields f hread

end Fieldbook
