import Fieldbook.Store.Writing

/-!
# Proofs/Store/Rows — the rows under writes

A write of a resource touches one row: `find?_write` says which row is found under every name
afterwards, and `filter_write` that a list of rows chosen by a test is as before when neither the
old nor the new row of the resource passes it.  Marks of deletion and restampings are edits that
keep all else of a row (`Keeps`), so they commute with finding one (`Keeps.find?_map`).
-/

namespace Fieldbook

theorem Stamp.pos_of_committed {v : Nat} (pos : 0 < v) {u : Int}
    (h : Stamp.committed v = .committed u) : 0 < u := by
  cases h
  exact Int.ofNat_lt.mpr pos

namespace Row

variable (r : Resource) (stamp : Stamp) (principal : Principal) (now : Int)

/-- The row of a resource after a write, from the row that was there before, if any. -/
def afterWrite : Option Row → Row
  | some row => row.overwrite r stamp
  | none => first r stamp principal now

variable {r : Resource} {stamp : Stamp} {principal : Principal} {now : Int}

@[simp] theorem afterWrite_owner (old : Option Row) :
    (afterWrite r stamp principal now old).owner = r.owner := by cases old <;> rfl

@[simp] theorem afterWrite_classId (old : Option Row) :
    (afterWrite r stamp principal now old).classId = r.classId := by cases old <;> rfl

@[simp] theorem afterWrite_stamp (old : Option Row) :
    (afterWrite r stamp principal now old).stamp = stamp := by cases old <;> rfl

@[simp] theorem afterWrite_deleted (old : Option Row) :
    (afterWrite r stamp principal now old).deleted = false := by cases old <;> rfl

@[simp] theorem afterWrite_content (old : Option Row) :
    (afterWrite r stamp principal now old).content = .encoded r.value := by cases old <;> rfl

@[simp] theorem afterWrite_replaced (old : Option Row) :
    (afterWrite r stamp principal now old).replaced = none := by cases old <;> rfl

/-- The row found under a name bears the name. -/
theorem id_of_find? {rows : List Row} {id : ResourceId} {row : Row}
    (h : rows.find? (·.id = id) = some row) : row.id = id := by
  simpa using List.find?_some h

@[simp] theorem afterWrite_find?_id (rows : List Row) :
    (afterWrite r stamp principal now (rows.find? (·.id = r.id))).id = r.id := by
  cases h : rows.find? (·.id = r.id) with
  | none => rfl
  | some row => exact (id_of_find? h : row.id = r.id)

/-- **A write changes what is found under the written name alone.** -/
theorem find?_write (id : ResourceId) : ∀ rows : List Row,
    (write r stamp principal now rows).find? (·.id = id) =
      if id = r.id then some (afterWrite r stamp principal now (rows.find? (·.id = r.id)))
      else rows.find? (·.id = id)
  | [] => by
    by_cases h : r.id = id
    · simp [write, afterWrite, first, h]
    · simp [write, first, h, Ne.symm h]
  | row :: rest => by
    have ih := find?_write id rest
    by_cases hrow : row.id = r.id
    · by_cases h : id = r.id
      · simp [write, overwrite, afterWrite, hrow, h]
      · have hne : r.id ≠ id := fun e => h e.symm
        simp [write, overwrite, hrow, h, hne]
    · by_cases h : row.id = id
      · have hne : id ≠ r.id := fun e => hrow (h.trans e)
        simp [write, h, hne]
      · simpa [write, hrow, h] using ih

/-- The names after a write: a new name comes last. -/
theorem map_id_write : ∀ rows : List Row,
    (write r stamp principal now rows).map (·.id) =
      if r.id ∈ rows.map (·.id) then rows.map (·.id) else rows.map (·.id) ++ [r.id]
  | [] => rfl
  | row :: rest => by
    have ih := map_id_write rest
    by_cases h : row.id = r.id
    · simp [write, overwrite, h]
    · have hne : r.id ≠ row.id := fun e => h e.symm
      simp only [write, if_neg h, List.map_cons, ih, List.mem_cons, hne, false_or]
      split <;> rfl

/-- **No name is lost or moved by a write.** -/
theorem ids_prefix_write (rows : List Row) :
    rows.map (·.id) <+: (write r stamp principal now rows).map (·.id) := by
  rw [map_id_write]
  split
  · exact List.prefix_refl _
  · exact List.prefix_append _ _

theorem nodup_write {rows : List Row} (h : (rows.map (·.id)).Nodup) :
    ((write r stamp principal now rows).map (·.id)).Nodup := by
  rw [map_id_write]
  split
  · exact h
  · next hnew =>
    refine List.nodup_append.mpr ⟨h, by simp, fun a ha b hb => ?_⟩
    obtain rfl := List.mem_singleton.mp hb
    exact fun e => hnew (e ▸ ha)

/-- A row after a write is a row from before, or the written one. -/
theorem mem_write {row : Row} : ∀ {rows : List Row}, row ∈ write r stamp principal now rows →
    row ∈ rows ∨ row = afterWrite r stamp principal now (rows.find? (·.id = r.id))
  | [], h => by simpa [write, afterWrite] using h
  | head :: rest, h => by
    by_cases hid : head.id = r.id
    · rcases List.mem_cons.mp (by simpa [write, hid] using h) with h | h
      · exact .inr (by simpa [afterWrite, hid] using h)
      · exact .inl (List.mem_cons_of_mem _ h)
    · rcases List.mem_cons.mp (by simpa [write, hid] using h) with h | h
      · exact .inl (h ▸ List.mem_cons_self)
      · rcases mem_write h with h | h
        · exact .inl (List.mem_cons_of_mem _ h)
        · exact .inr (by simpa [hid] using h)

/-- Every name is still found after a write. -/
theorem isSome_find?_write {rows : List Row} {id : ResourceId}
    (h : (rows.find? (·.id = id)).isSome) :
    ((write r stamp principal now rows).find? (·.id = id)).isSome := by
  rw [find?_write]
  split
  · rfl
  · exact h

/-- **Rows chosen by a test that the written row never passes are as before.** -/
theorem filter_write {p : Row → Bool} : ∀ {rows : List Row},
    (∀ row ∈ rows, row.id = r.id → p row = false) →
    p (afterWrite r stamp principal now (rows.find? (·.id = r.id))) = false →
      (write r stamp principal now rows).filter p = rows.filter p
  | [], _, hnew => by simpa [write, afterWrite] using hnew
  | head :: rest, hold, hnew => by
    by_cases hid : head.id = r.id
    · have hhead := hold head List.mem_cons_self hid
      have hafter : p (head.overwrite r stamp) = false := by simpa [afterWrite, hid] using hnew
      simp [write, hid, hhead, hafter]
    · have ih : (write r stamp principal now rest).filter p = rest.filter p :=
        filter_write (fun row hrow => hold row (List.mem_cons_of_mem _ hrow))
          (by simpa [hid] using hnew)
      simp [write, hid, List.filter_cons, ih]

/-! ## Reading -/

end Row

namespace Content

/-- What was written is read, unless it is nested too deeply. -/
theorem record?_encoded {r value : Record} :
    (encoded r).record? = some value ↔ r.Shallow ∧ r = value := by
  rw [record?]
  split
  · next hshallow => rw [Option.some.injEq, and_iff_right hshallow]
  · next hdeep => exact iff_of_false nofun fun h => hdeep h.1

theorem record?_of_shallow {r : Record} (h : r.Shallow) : (encoded r).record? = some r :=
  record?_encoded.mpr ⟨h, rfl⟩

theorem isSome_record?_encoded {r : Record} : (encoded r).record?.isSome ↔ r.Shallow := by
  simp [Option.isSome_iff_exists, record?_encoded]

end Content

/-- Lists in each other. -/
def FieldValue.nestedLists : Nat → FieldValue
  | 0 => .list []
  | n + 1 => .list [nestedLists n]

theorem FieldValue.nesting_nestedLists (n : Nat) : (nestedLists n).nesting = n + 1 := by
  induction n with
  | zero => rfl
  | succ n ih => rw [nestedLists, nesting, itemsNesting, itemsNesting, ih, Nat.max_zero]

/-- Lists in each other, of which the innermost lies too deep by one. -/
def Record.deep : Record := [("deep", .nestedLists 1021)]

theorem Record.not_shallow_deep : ¬deep.Shallow := by
  rw [Shallow, nesting, deep, FieldValue.fieldsNesting, FieldValue.nesting_nestedLists]
  decide

namespace Row

variable {r : Resource} {stamp : Stamp} {principal : Principal} {now : Int}

/-- The entry of a row, when its content and its time of creation are understood. -/
def entry (row : Row) (value : Record) (createdAt : Instant) : Entry where
  id := row.id
  owner := row.owner
  classId := row.classId
  stamp := row.stamp
  deleted := row.deleted
  value := value
  createdBy := row.createdBy
  createdAt := createdAt

/-- What is left of a reading after the checks of digest and version. -/
def decoded (row : Row) : Except StoreError Entry :=
  match row.content.record?, Instant.ofMillis? row.createdAt with
  | none, _ => .error (.data .unreadable)
  | some _, none => .error (.inconsistent (.createdAt row.createdAt))
  | some value, some createdAt => .ok (row.entry value createdAt)

/-- A reading checks the digest and the version before it looks at anything else. -/
theorem read_eq (row : Row) : row.read =
    if row.isAltered then .error (.inconsistent (.content row.id))
    else match row.stamp with
      | .committed v => if v ≤ 0 then .error (.inconsistent (.rowVersion row.id v)) else row.decoded
      | .pending _ => row.decoded := by
  obtain ⟨id, owner, classId, stamp, deleted, content, replaced, createdBy, createdAt⟩ := row
  rw [read]
  dsimp only
  split
  · rfl
  · cases stamp with
    | committed v => dsimp only; split <;> rfl
    | pending m => rfl

theorem decoded_ok_iff {row : Row} {e : Entry} : row.decoded = .ok e ↔
    ∃ value createdAt, row.content.record? = some value ∧
      Instant.ofMillis? row.createdAt = some createdAt ∧ row.entry value createdAt = e := by
  rw [decoded]
  cases row.content.record? <;> cases Instant.ofMillis? row.createdAt <;> simp

/-- **What is read of a row** stands in it, and every check of the row has passed. -/
theorem read_ok_iff {row : Row} {e : Entry} :
    row.read = .ok e ↔ row.isAltered = false ∧ (∀ v, row.stamp = .committed v → 0 < v) ∧
      ∃ value createdAt, row.content.record? = some value ∧
        Instant.ofMillis? row.createdAt = some createdAt ∧ row.entry value createdAt = e := by
  rw [read_eq, ← decoded_ok_iff]
  cases hstamp : row.stamp with
  | pending m => by_cases h : row.isAltered = true <;> simp [h]
  | committed v =>
    by_cases h : row.isAltered = true
    · simp [h]
    · by_cases hv : v ≤ 0
      · have hn : ¬0 < v := Int.not_lt.mpr hv
        simp [h, hv, hn]
      · have hp : 0 < v := Int.not_le.mp hv
        simp [h, hv, hp]

/-- A row whose content says nothing is not read, if nothing is wrong with it before that. -/
theorem read_of_unreadable {row : Row} (kept : row.isAltered = false)
    (stamped : ∀ v, row.stamp = .committed v → 0 < v) (h : row.content.record? = none) :
    row.read = .error (.data .unreadable) := by
  have hdecoded : row.decoded = .error (.data .unreadable) := by rw [decoded, h]
  rw [read_eq, kept, if_neg Bool.false_ne_true, hdecoded]
  cases hstamp : row.stamp with
  | pending m => rfl
  | committed v => exact if_neg (Int.not_le.mpr (stamped v hstamp))

section Read

variable {row : Row} {e : Entry} (h : row.read = .ok e)

include h

theorem id_of_read : e.id = row.id := by
  obtain ⟨-, -, value, createdAt, -, -, rfl⟩ := read_ok_iff.mp h
  rfl

theorem owner_of_read : e.owner = row.owner := by
  obtain ⟨-, -, value, createdAt, -, -, rfl⟩ := read_ok_iff.mp h
  rfl

theorem classId_of_read : e.classId = row.classId := by
  obtain ⟨-, -, value, createdAt, -, -, rfl⟩ := read_ok_iff.mp h
  rfl

theorem stamp_of_read : e.stamp = row.stamp := by
  obtain ⟨-, -, value, createdAt, -, -, rfl⟩ := read_ok_iff.mp h
  rfl

theorem deleted_of_read : e.deleted = row.deleted := by
  obtain ⟨-, -, value, createdAt, -, -, rfl⟩ := read_ok_iff.mp h
  rfl

theorem isSome_record?_of_read : row.content.record?.isSome = true := by
  obtain ⟨-, -, value, createdAt, hvalue, -, -⟩ := read_ok_iff.mp h
  exact Option.isSome_of_eq_some hvalue

end Read

theorem isSome_record?_afterWrite (old : Option Row) :
    (afterWrite r stamp principal now old).content.record?.isSome ↔ r.value.Shallow := by
  rw [afterWrite_content]
  exact Content.isSome_record?_encoded

/-- What is read after a write was not nested too deeply. -/
theorem shallow_of_read {old : Option Row} {e : Entry}
    (h : (afterWrite r stamp principal now old).read = .ok e) : r.value.Shallow :=
  (isSome_record?_afterWrite old).mp (isSome_record?_of_read h)

/-- A row that is written can be read if the row before it could be, or the clock, and the value
is not nested too deeply. -/
theorem exists_read_afterWrite {old : Option Row} (pos : ∀ v, stamp = .committed v → 0 < v)
    (hold : ∀ row, old = some row → ∃ e, row.read = .ok e)
    (hclock : (Instant.ofMillis? now).isSome) (hshallow : r.value.Shallow) :
    ∃ e, (afterWrite r stamp principal now old).read = .ok e := by
  have hat : ∃ t, Instant.ofMillis? (afterWrite r stamp principal now old).createdAt = some t := by
    cases old with
    | none => exact Option.isSome_iff_exists.mp hclock
    | some row =>
      obtain ⟨e, hread⟩ := hold row rfl
      obtain ⟨-, -, _, t, -, ht, -⟩ := read_ok_iff.mp hread
      exact ⟨t, ht⟩
  obtain ⟨t, ht⟩ := hat
  refine ⟨_, read_ok_iff.mpr ⟨?_, ?_, r.value, t, ?_, ht, rfl⟩⟩
  · rw [isAltered, afterWrite_replaced]
  · rw [afterWrite_stamp]
    exact pos
  · rw [afterWrite_content]
    exact Content.record?_of_shallow hshallow

/-- **Rows are read one by one,** and nothing is answered unless all can be read. -/
theorem mapM_read_ok : ∀ {rows : List Row} {es : List Entry}, rows.mapM read = .ok es ↔
    (∀ row ∈ rows, ∃ e, row.read = .ok e) ∧ es = rows.filterMap fun row => row.read.toOption
  | [], es => by simp [pure, Except.pure, eq_comm]
  | row :: rows, es => by
    rw [List.mapM_cons]
    cases hread : row.read with
    | error e => simp [hread, bind, Except.bind]
    | ok e =>
      cases hrest : rows.mapM read with
      | error e' =>
        have hnot : ¬∀ row ∈ rows, ∃ e, row.read = .ok e := by
          intro hall
          cases hrest.symm.trans (mapM_read_ok.mpr ⟨hall, rfl⟩)
        simp [hread, bind, Except.bind, hnot]
      | ok more =>
        obtain ⟨hall, rfl⟩ := mapM_read_ok.mp hrest
        have hok : ∀ row' ∈ row :: rows, ∃ e, row'.read = .ok e :=
          List.forall_mem_cons.mpr ⟨⟨e, hread⟩, hall⟩
        rw [and_iff_right hok, List.filterMap_cons, hread]
        simp [bind, Except.bind, pure, Except.pure, Except.toOption, eq_comm]

/-! ## Edits -/

/-- An edit that touches nothing of a row but the mark of deletion and the stamp. -/
structure Keeps (edit : Row → Row) : Prop where
  id : ∀ row, (edit row).id = row.id
  owner : ∀ row, (edit row).owner = row.owner
  classId : ∀ row, (edit row).classId = row.classId
  content : ∀ row, (edit row).content = row.content
  replaced : ∀ row, (edit row).replaced = row.replaced
  createdAt : ∀ row, (edit row).createdAt = row.createdAt

variable {edit : Row → Row}

theorem Keeps.of_changes (h : ∀ row, (∃ deleted stamp,
    edit row = { row with deleted := deleted, stamp := stamp }) ∨ edit row = row) :
    Keeps edit := by
  refine ⟨?_, ?_, ?_, ?_, ?_, ?_⟩ <;> intro row <;>
    rcases h row with ⟨deleted, stamp, heq⟩ | heq <;> rw [heq]

/-- **Finding a row commutes with an edit.** -/
theorem Keeps.find?_map (hedit : Keeps edit) (rows : List Row) (id : ResourceId) :
    (rows.map edit).find? (·.id = id) = (rows.find? (·.id = id)).map edit := by
  rw [List.find?_map]
  refine congrArg (fun p => (rows.find? p).map edit) (funext fun row => ?_)
  simp [hedit.id]

theorem Keeps.map_id_map (hedit : Keeps edit) (rows : List Row) :
    (rows.map edit).map (·.id) = rows.map (·.id) := by
  rw [List.map_map]
  exact List.map_congr_left fun row _ => hedit.id row

theorem Keeps.ids_prefix_map (hedit : Keeps edit) (rows : List Row) :
    rows.map (·.id) <+: (rows.map edit).map (·.id) :=
  hedit.map_id_map rows ▸ List.prefix_refl _

theorem keeps_self : Keeps fun row => row := .of_changes fun _ => .inr rfl

/-- The row after the row of `id` is marked as deleted at the version `v`. -/
def mark (id : ResourceId) (v : Nat) (row : Row) : Row :=
  if row.id = id then { row with deleted := true, stamp := .committed v } else row

/-- The row after the rows that wait for `m` are given the version `v`. -/
def restamp (m : Marker) (v : Nat) (row : Row) : Row :=
  if row.stamp = .pending m then { row with stamp := .committed v } else row

section Edits

variable (id : ResourceId) (m : Marker) (v : Nat) (row : Row)

theorem mark_self (h : row.id = id) :
    mark id v row = { row with deleted := true, stamp := .committed v } := if_pos h

theorem mark_of_ne (h : row.id ≠ id) : mark id v row = row := if_neg h

theorem restamp_self (h : row.stamp = .pending m) :
    restamp m v row = { row with stamp := .committed v } := if_pos h

theorem restamp_of_ne (h : row.stamp ≠ .pending m) : restamp m v row = row := if_neg h

theorem keeps_mark : Keeps (mark id v) := by
  refine .of_changes fun row => ?_
  by_cases h : row.id = id
  · exact .inl ⟨true, .committed v, mark_self id v row h⟩
  · exact .inr (mark_of_ne id v row h)

theorem keeps_restamp : Keeps (restamp m v) := by
  refine .of_changes fun row => ?_
  by_cases h : row.stamp = .pending m
  · exact .inl ⟨row.deleted, .committed v, restamp_self m v row h⟩
  · exact .inr (restamp_of_ne m v row h)

/-- **Rows chosen by a test that the marked row never passes are as before.** -/
theorem filter_mark {p : Row → Bool} : ∀ {rows : List Row},
    (∀ row ∈ rows, row.id = id → p row = false ∧ p (mark id v row) = false) →
      (rows.map (mark id v)).filter p = rows.filter p
  | [], _ => rfl
  | head :: rest, h => by
    have ih : (rest.map (mark id v)).filter p = rest.filter p :=
      filter_mark fun row hrow => h row (List.mem_cons_of_mem _ hrow)
    by_cases hid : head.id = id
    · obtain ⟨hold, hmarked⟩ := h head List.mem_cons_self hid
      simp [hold, hmarked, ih]
    · rw [List.map_cons, mark_of_ne id v head hid, List.filter_cons, List.filter_cons, ih]

theorem restamp_of_committed {u : Int} (h : row.stamp = .committed u) :
    restamp m v row = row :=
  restamp_of_ne m v row fun h' => nomatch h.symm.trans h'

end Edits

/-! ## Distinct names -/

/-- When names are distinct, a row is the one found under its name. -/
theorem find?_of_mem {row : Row} : ∀ {rows : List Row}, (rows.map (·.id)).Nodup → row ∈ rows →
    rows.find? (·.id = row.id) = some row
  | head :: rest, hd, h => by
    obtain ⟨hhead, hrest⟩ := List.nodup_cons.mp hd
    rcases List.mem_cons.mp h with rfl | h
    · simp
    · have hne : head.id ≠ row.id := fun e => hhead (List.mem_map.mpr ⟨row, h, e.symm⟩)
      simpa [hne] using find?_of_mem hrest h

theorem isSome_find?_iff {rows : List Row} {id : ResourceId} :
    (rows.find? (·.id = id)).isSome ↔ ∃ row ∈ rows, row.id = id := by
  rw [List.find?_isSome]
  simp

/-- When names are distinct, no two rows have one name. -/
theorem eq_of_id_eq {row row' : Row} {rows : List Row} (hd : (rows.map (·.id)).Nodup)
    (h : row ∈ rows) (h' : row' ∈ rows) (heq : row.id = row'.id) : row = row' := by
  have hfound := find?_of_mem hd h
  rw [heq, find?_of_mem hd h'] at hfound
  exact (Option.some.inj hfound).symm

/-- When names are distinct, a row after a write is one of another name from before, or the written
one. -/
theorem mem_write_of_nodup {row : Row} {rows : List Row} (hd : (rows.map (·.id)).Nodup)
    (h : row ∈ write r stamp principal now rows) :
    (row ∈ rows ∧ row.id ≠ r.id) ∨
      row = afterWrite r stamp principal now (rows.find? (·.id = r.id)) := by
  have hfound := find?_of_mem (nodup_write hd) h
  rw [find?_write] at hfound
  by_cases hid : row.id = r.id
  · rw [if_pos hid] at hfound
    exact .inr (Option.some.inj hfound).symm
  · rw [if_neg hid] at hfound
    exact .inl ⟨List.mem_of_find?_eq_some hfound, hid⟩

end Row

end Fieldbook
