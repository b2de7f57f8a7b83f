import Fieldbook.Proofs.FieldValue.Canonical

/-!
# Proofs/FieldValue/Nesting — values that are nested too deeply

A reader that may not go as deep as a value is nested fails on the value's bytes, whatever follows
them (`fails_encode`): it reads what comes before the first part that lies too deep, and fails there.
So the bytes of a record that fits tell by its nesting alone whether they can be read again
(`decode?_encode_eq`).
-/

namespace Fieldbook

namespace MessagePack

variable {α β : Type} {r : Reader α} {f : α → Reader β} {bytes bytes' : List UInt8} {a : α}

/-- The reader fails on the bytes, whatever follows them. -/
def Fails (r : Reader α) (bytes : List UInt8) : Prop := ∀ rest, r (bytes ++ rest) = none

theorem Fails.append (h : Fails r bytes) (bytes' : List UInt8) : Fails r (bytes ++ bytes') := by
  intro rest
  rw [List.append_assoc]
  exact h _

theorem Fails.bind (h : Fails r bytes) : Fails (r >>= f) bytes := by
  intro rest
  change (r (bytes ++ rest)).bind (fun x => f x.1 x.2) = none
  rw [h]
  rfl

/-- **What is read first** does not keep a reader from failing on what follows. -/
theorem Takes.bind_fails (hr : Takes r bytes a) (hf : Fails (f a) bytes') :
    Fails (r >>= f) (bytes ++ bytes') := by
  intro rest
  change (r (bytes ++ bytes' ++ rest)).bind (fun x => f x.1 x.2) = none
  rw [List.append_assoc, hr]
  exact hf rest

/-- A reader whose answer is refused. -/
theorem Takes.refused (hr : Takes r bytes a) (hf : f a = failure) : Fails (r >>= f) bytes := by
  intro rest
  change (r (bytes ++ rest)).bind (fun x => f x.1 x.2) = none
  rw [hr]
  exact congrFun hf rest

/-! ## Rows without a depth -/

variable {n : Nat}

theorem fails_array {item : Reader α} (hcount : CountFits n) :
    Fails (readArray 0 item) (arrayHead n) :=
  (takes_arrayHead hcount).refused rfl

theorem fails_pair {a : PairPart α} {b : PairPart β} {missing : Option β} :
    Fails (readPair 0 a b missing) (arrayHead 2) :=
  (takes_arrayHead (n := 2) (by decide)).refused rfl

end MessagePack

open MessagePack

namespace FieldValue

variable {depth : Nat} {content : List UInt8} {v : FieldValue}

/-! ## Contents -/

theorem fails_entry {item inner : Reader FieldValue} {k : Kind}
    (h : Fails (readContent depth item inner k) content) :
    Fails (readEntry depth item inner) (entry k content) := by
  have hname : Takes (readName (Kind.all.map Kind.name)) (MessagePack.text k.name)
      (some (Kind.all.idxOf k)) := takes_name k.textFits (findIdx?_name k)
  rw [entry, List.append_assoc]
  refine (takes_mapHead (by decide : 1 < 0x100000000)).bind_fails (hname.bind_fails ?_)
  simp only [getElem?_idxOf]
  exact h

/-- A content without values in it. -/
theorem fails_value {k : Kind} (h : ∀ item inner, Fails (readContent depth item inner k) content) :
    Fails (readValue depth) (entry k content) := by
  obtain ⟨item, inner, hread⟩ := exists_readEntry depth
  rw [hread]
  exact fails_entry (h item inner)

/-- A record is a row of one map, and needs a depth of two. -/
theorem fails_shallow_record {value : Reader FieldValue} {n : Nat} (hcount : CountFits n)
    (hdepth : depth < 2) (bytes : List UInt8) :
    Fails (readRecord depth value) (arrayHead 1 ++ mapHead n ++ bytes) := by
  have hone : Takes head (arrayHead 1) (.array 1) := takes_arrayHead (by decide)
  rw [List.append_assoc]
  match depth, hdepth with
  | 0, _ => exact (hone.refused rfl).append _
  | 1, _ => exact hone.bind_fails (((takes_mapHead hcount).refused rfl).append _)

theorem fails_deep_record {value : Reader FieldValue} {n : Nat} {bytes : List UInt8}
    (hcount : CountFits n) (h : Fails (many n (readField value)) bytes) :
    Fails (readRecord (depth + 2) value) (arrayHead 1 ++ mapHead n ++ bytes) := by
  rw [List.append_assoc]
  exact (takes_arrayHead (by decide : 1 < 0x100000000)).bind_fails
    ((takes_mapHead hcount).bind_fails h.bind)

/-! ## Values -/

/-- **A value with no others in it,** where there is no depth left. -/
theorem fails_plain (hrecord : v.kind ≠ .record) (hlist : v.kind ≠ .list)
    (hdepth : depth < v.nesting) (hfits : v.Fits) : Fails (readValue depth) v.encode := by
  cases v with
  | text | barcode | narrative | expr | boolean | localDate | year | instant =>
    exact absurd hdepth (Nat.not_lt_zero _)
  | record => exact absurd rfl hrecord
  | list => exact absurd rfl hlist
  | choice | reference =>
    obtain rfl := Nat.lt_one_iff.mp hdepth
    exact fails_value fun _ _ => ((fails_array hfits.1).append _).bind
  | quantity | geoPoint | image | month | localDateInterval =>
    obtain rfl := Nat.lt_one_iff.mp hdepth
    exact fails_value fun _ _ => ((fails_pair.append _).append _).bind

mutual

/-- **A value that lies too deep** is not read. -/
theorem fails_encode : ∀ {depth : Nat} (v : FieldValue), depth < v.nesting → v.WellFormed → v.Fits →
    Fails (readValue depth) v.encode
  | _, .text _, hdepth, _, hfits | _, .quantity .., hdepth, _, hfits
  | _, .boolean _, hdepth, _, hfits | _, .choice _, hdepth, _, hfits
  | _, .reference _, hdepth, _, hfits | _, .barcode _, hdepth, _, hfits
  | _, .narrative _, hdepth, _, hfits | _, .geoPoint .., hdepth, _, hfits
  | _, .image .., hdepth, _, hfits | _, .localDate _, hdepth, _, hfits
  | _, .month .., hdepth, _, hfits | _, .year _, hdepth, _, hfits
  | _, .localDateInterval .., hdepth, _, hfits | _, .instant _, hdepth, _, hfits
  | _, .expr _, hdepth, _, hfits => fails_plain nofun nofun hdepth hfits
  | 0, .record _, _, _, hfits => fails_value fun _ _ =>
      (fails_shallow_record hfits.1 (by decide) _).bind
  | 1, .record _, _, _, hfits => fails_value fun _ _ =>
      (fails_shallow_record hfits.1 (by decide) _).bind
  | _ + 2, .record fields, hdepth, hformed, hfits =>
    fails_entry (fails_deep_record hfits.1
      (fails_fields fields (Nat.lt_of_add_lt_add_right hdepth) hformed.2 hfits.2)).bind
  | 0, .list _, _, _, hfits => fails_value fun _ _ => ((fails_array hfits.1).append _).bind
  | depth + 1, .list items, hdepth, hformed, hfits => by
    have hitems : Fails (many items.length (readValue depth)) (encodeItems items) :=
      fails_items items (Nat.lt_of_add_lt_add_right hdepth) hformed hfits.2
    obtain ⟨inner, hread⟩ := exists_readEntry_succ depth
    rw [hread]
    exact fails_entry ((takes_arrayHead hfits.1).bind_fails hitems).bind

theorem fails_fields : ∀ {depth : Nat} (fields : List (String × FieldValue)),
    depth < fieldsNesting fields → FieldsWellFormed fields → FieldsFit fields →
      Fails (many fields.length (readField (readValue depth))) (encodeFields fields)
  | _, [], hdepth, _, _ => absurd hdepth (Nat.not_lt_zero _)
  | depth, (_, v) :: rest, hdepth, hformed, hfits => by
    by_cases hv : v.nesting ≤ depth
    · have hrest : depth < fieldsNesting rest := by
        rw [fieldsNesting] at hdepth
        omega
      exact (takes_field hfits.1 (takes_encode v hv hformed.1 hfits.2.1)).bind_fails
        (fails_fields rest hrest hformed.2 hfits.2.2).bind
    · have hvalue := fails_encode v (Nat.not_le.mp hv) hformed.1 hfits.2.1
      exact (((takes_text hfits.1).bind_fails hvalue.bind).append _).bind

theorem fails_items : ∀ {depth : Nat} (items : List FieldValue), depth < itemsNesting items →
    ItemsWellFormed items → ItemsFit items →
      Fails (many items.length (readValue depth)) (encodeItems items)
  | _, [], hdepth, _, _ => absurd hdepth (Nat.not_lt_zero _)
  | depth, v :: rest, hdepth, hformed, hfits => by
    by_cases hv : v.nesting ≤ depth
    · have hrest : depth < itemsNesting rest := by
        rw [itemsNesting] at hdepth
        omega
      exact (takes_encode v hv hformed.1 hfits.1).bind_fails
        (fails_items rest hrest hformed.2 hfits.2).bind
    · exact ((fails_encode v (Nat.not_le.mp hv) hformed.1 hfits.1).append _).bind

end

/-- **A record that fits** is read from its bytes, unless it is nested too deeply. -/
theorem decode?_encode_eq {r : Record} (hformed : r.WellFormed) (hfits : r.Fits) :
    Record.decode? r.encode = if r.nesting ≤ nestingLimit then some r else none := by
  split
  · next hdepth => exact decode?_record_encode hdepth ⟨hformed, hfits⟩
  · next hdepth =>
    have hdeep : nestingLimit - 2 < fieldsNesting r := by
      have hlimit : nestingLimit = 1023 := rfl
      rw [Record.nesting] at hdepth
      omega
    have hfields := fails_fields r hdeep hformed.2 hfits.2
    have hfails : Fails (readRecord nestingLimit (readValue (nestingLimit - 2))) r.encode :=
      fails_deep_record hfits.1 hfields
    have hread := hfails []
    rw [List.append_nil] at hread
    rw [Record.decode?, StateT.run, hread]
    rfl

end FieldValue

end Fieldbook
