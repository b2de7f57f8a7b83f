import Fieldbook.Proofs.FieldValue.Fitting

/-!
# Proofs/FieldValue/RoundTrip — values read as they are written

A reader that may go as deep as the value is nested takes the value's bytes as the value
(`takes_encode`): by recursion on the value, each content by the lemma about its pieces.  The items of
a list are read one step deeper than the list, the values of a record two steps deeper, as the record
is a row of one map.
-/

namespace Fieldbook

open MessagePack

namespace FieldValue

variable {depth : Nat} {content : List UInt8} {v : FieldValue}

/-! ## Kinds -/

/-- The name of a kind has the place of the kind. -/
theorem findIdx?_name (k : Kind) :
    ((Kind.all.map Kind.name).findIdx? fun name => Text.utf8 name == Text.utf8 k.name) =
      some (Kind.all.idxOf k) := by
  cases k <;> decide +kernel

theorem getElem?_idxOf (k : Kind) : Kind.all[Kind.all.idxOf k]? = some k := by
  cases k <;> rfl

theorem Kind.textFits (k : Kind) : TextFits k.name := by
  have hlength : k.name.toList.length ≤ 1000 := by
    cases k <;> decide
  have hfits : TextFits (String.ofList k.name.toList) := textFits_of_length hlength
  rwa [String.ofList_toList] at hfits

/-- A content is read as the kind before it says. -/
theorem takes_entry {item inner : Reader FieldValue} {k : Kind}
    (h : Takes (readContent depth item inner k) content v) :
    Takes (readEntry depth item inner) (entry k content) v := by
  have hname : Takes (readName (Kind.all.map Kind.name)) (MessagePack.text k.name)
      (some (Kind.all.idxOf k)) := takes_name k.textFits (findIdx?_name k)
  rw [entry, List.append_assoc]
  refine (takes_mapHead (by decide : 1 < 0x100000000)).bind (hname.bind ?_)
  simp only [getElem?_idxOf]
  exact h

theorem exists_readEntry (depth : Nat) :
    ∃ item inner, readValue depth = readEntry depth item inner := by
  rcases depth with _ | _ | depth
  · exact ⟨_, _, rfl⟩
  · exact ⟨_, _, rfl⟩
  · exact ⟨_, _, rfl⟩

/-- The items of a list lie one step deeper. -/
theorem exists_readEntry_succ (depth : Nat) :
    ∃ inner, readValue (depth + 1) = readEntry (depth + 1) (readValue depth) inner := by
  rcases depth with _ | depth
  · exact ⟨_, rfl⟩
  · exact ⟨_, rfl⟩

/-- A content without values in it. -/
theorem takes_value {k : Kind} (h : ∀ item inner, Takes (readContent depth item inner k) content v) :
    Takes (readValue depth) (entry k content) v := by
  obtain ⟨item, inner, hread⟩ := exists_readEntry depth
  rw [hread]
  exact takes_entry (h item inner)

/-! ## Contents -/

theorem takes_ids {ids : List ResourceId} (h : IdsFit ids) :
    Takes (readIds (depth + 1)) (encodeIds ids) ids :=
  takes_array h.1 (takes_many fun r hr => (takes_text (h.2 r hr)).map)

theorem takes_units {units : Option String} (h : ∀ s ∈ units, TextFits s) :
    Takes readText? (encodeText? units) units := by
  rcases units with _ | s
  · exact takes_nothing
  · exact takes_something (h s rfl)

theorem takes_date (d : Date) : Takes readDate (MessagePack.text d.text) d :=
  (takes_writtenText d.textFits).answer (by simp only [d.read?_text])

theorem takes_instant (t : Instant) : Takes readInstant (MessagePack.text t.text) t :=
  (takes_writtenText t.textFits).answer (by simp only [t.read?_text])

theorem takes_field {value : Reader FieldValue} {key : String} {bytes : List UInt8}
    (hkey : TextFits key) (hv : Takes value bytes v) :
    Takes (readField value) (MessagePack.text key ++ bytes) (key, v) :=
  (takes_text hkey).bind hv.map

/-- The map of a record, if its keys ascend. -/
theorem takes_record {value : Reader FieldValue} {fields : Record} {bytes : List UInt8}
    (hcount : CountFits fields.length) (hascending : Keyed.Ascending fields)
    (h : Takes (many fields.length (readField value)) bytes fields) :
    Takes (readRecord (depth + 2) value) (arrayHead 1 ++ mapHead fields.length ++ bytes) fields := by
  rw [List.append_assoc]
  exact (takes_arrayHead (by decide : 1 < 0x100000000)).bind
    ((takes_mapHead hcount).bind (h.answer (congrArg pure (Keyed.ofList_of_ascending hascending))))

/-! ## Values -/

/-- **A value with no others in it** reads as it is written. -/
theorem takes_plain (hrecord : v.kind ≠ .record) (hlist : v.kind ≠ .list) (hdepth : v.nesting ≤ depth)
    (hfits : v.Fits) : Takes (readValue depth) v.encode v := by
  cases v with
  | text | barcode | narrative | expr => exact takes_value fun _ _ => (takes_text hfits).map
  | boolean b => exact takes_value fun _ _ => (takes_readBoolean b).map
  | localDate d => exact takes_value fun _ _ => (takes_date d).map
  | year y => exact takes_value fun _ _ => (takes_int32 y).map
  | instant t => exact takes_value fun _ _ => (takes_instant t).map
  | record => exact absurd rfl hrecord
  | list => exact absurd rfl hlist
  | choice | reference =>
    obtain ⟨depth, rfl⟩ := Nat.exists_eq_add_of_le' hdepth
    exact takes_value fun _ _ => (takes_ids hfits).map
  | quantity x =>
    obtain ⟨depth, rfl⟩ := Nat.exists_eq_add_of_le' hdepth
    exact takes_value fun _ _ => (takes_pair (takes_readDouble x) (takes_units hfits)).answer rfl
  | geoPoint a b =>
    obtain ⟨depth, rfl⟩ := Nat.exists_eq_add_of_le' hdepth
    exact takes_value fun _ _ => (takes_pair (takes_readDouble a) (takes_readDouble b)).answer rfl
  | image =>
    obtain ⟨depth, rfl⟩ := Nat.exists_eq_add_of_le' hdepth
    exact takes_value fun _ _ => (takes_pair (takes_text hfits.1) (takes_text hfits.2)).answer rfl
  | month y m =>
    obtain ⟨depth, rfl⟩ := Nat.exists_eq_add_of_le' hdepth
    exact takes_value fun _ _ => (takes_pair (takes_int32 y) (takes_uint32 m)).answer rfl
  | localDateInterval a b =>
    obtain ⟨depth, rfl⟩ := Nat.exists_eq_add_of_le' hdepth
    have hpair : Takes (readPair (depth + 1) (.named "start" readDate) (.named "end" readDate) none)
        (arrayHead 2 ++ MessagePack.text a.text ++ MessagePack.text b.text) (a, b) :=
      takes_pair (takes_date a) (takes_date b)
    exact takes_value fun _ _ => hpair.answer rfl

mutual

/-- **A value reads as it is written,** whatever follows it. -/
theorem takes_encode : ∀ {depth : Nat} (v : FieldValue), v.nesting ≤ depth → v.WellFormed → v.Fits →
    Takes (readValue depth) v.encode v
  | _, .text _, hdepth, _, hfits | _, .quantity .., hdepth, _, hfits
  | _, .boolean _, hdepth, _, hfits | _, .choice _, hdepth, _, hfits
  | _, .reference _, hdepth, _, hfits | _, .barcode _, hdepth, _, hfits
  | _, .narrative _, hdepth, _, hfits | _, .geoPoint .., hdepth, _, hfits
  | _, .image .., hdepth, _, hfits | _, .localDate _, hdepth, _, hfits
  | _, .month .., hdepth, _, hfits | _, .year _, hdepth, _, hfits
  | _, .localDateInterval .., hdepth, _, hfits | _, .instant _, hdepth, _, hfits
  | _, .expr _, hdepth, _, hfits => takes_plain nofun nofun hdepth hfits
  | depth + 2, .record fields, hdepth, hformed, hfits =>
    have hfields : Takes (many fields.length (readField (readValue depth))) (encodeFields fields)
        fields := takes_fields fields (Nat.le_of_add_le_add_right hdepth) hformed.2 hfits.2
    takes_entry (takes_record hfits.1 hformed.1 hfields).map
  | depth + 1, .list items, hdepth, hformed, hfits => by
    have hitems : Takes (many items.length (readValue depth)) (encodeItems items) items :=
      takes_items items (Nat.le_of_add_le_add_right hdepth) hformed hfits.2
    obtain ⟨inner, hread⟩ := exists_readEntry_succ depth
    rw [hread]
    exact takes_entry (takes_array hfits.1 hitems).map

theorem takes_fields : ∀ {depth : Nat} (fields : List (String × FieldValue)),
    fieldsNesting fields ≤ depth → FieldsWellFormed fields → FieldsFit fields →
      Takes (many fields.length (readField (readValue depth))) (encodeFields fields) fields
  | _, [], _, _, _ => takes_pure []
  | _, (_, v) :: rest, hdepth, hformed, hfits =>
    (takes_field hfits.1
      (takes_encode v (Nat.le_trans (Nat.le_max_left _ _) hdepth) hformed.1 hfits.2.1)).bind
      (takes_fields rest (Nat.le_trans (Nat.le_max_right _ _) hdepth) hformed.2 hfits.2.2).map

theorem takes_items : ∀ {depth : Nat} (items : List FieldValue), itemsNesting items ≤ depth →
    ItemsWellFormed items → ItemsFit items →
      Takes (many items.length (readValue depth)) (encodeItems items) items
  | _, [], _, _, _ => takes_pure []
  | _, v :: rest, hdepth, hformed, hfits =>
    (takes_encode v (Nat.le_trans (Nat.le_max_left _ _) hdepth) hformed.1 hfits.1).bind
      (takes_items rest (Nat.le_trans (Nat.le_max_right _ _) hdepth) hformed.2 hfits.2).map

end

end FieldValue

end Fieldbook
