import Fieldbook.Proofs.Store.Connections

/-!
# Proofs/Store/RowSteps — what an operation does with the row of a name

An operation that succeeds leaves a row alone, writes it, marks it as deleted or gives it the version
that it has waited for; `RowStep` has one constructor for each, and `Performed.rowStep` says that
there is nothing else.  Rows that the operation does not name, by their name or by the marker they
wait for, are left alone (`Operation.Names`).
-/

namespace Fieldbook

namespace Store

variable {s s' : Store} {op : Operation} {receipt : Receipt} {t t' : Tables} {id : ResourceId}
  {p : Principal} {now : Int}

/-- The operation names the row of `id`, by its name or by the marker it waits for. -/
def Operation.Names (t : Tables) (id : ResourceId) : Operation → Prop
  | .put _ _ r | .putPending _ _ _ r => r.id = id
  | .putBatch _ _ rs => ∃ r ∈ rs, r.id = id
  | .delete _ i => i = id
  | .index m => ∃ row, t.row? id = some row ∧ row.stamp = .pending m
  | .increment | .commit _ => False

/-- The operation writes a resource, on behalf of `p` at the time `now`. -/
def Operation.Writes (p : Principal) (now : Int) (r : Resource) : Operation → Prop
  | .put p' now' r' | .putPending p' now' _ r' => p' = p ∧ now' = now ∧ r' = r
  | .putBatch p' now' rs => p' = p ∧ now' = now ∧ r ∈ rs
  | .increment | .delete .. | .commit _ | .index _ => False

/-- What is found under a name after an operation. -/
inductive RowStep (t : Tables) (id : ResourceId) : Operation → Option Row → Prop where
  | kept {op : Operation} (unnamed : ¬op.Names t id) : RowStep t id op (t.row? id)
  | put {op : Operation} {p : Principal} {now : Int} {r : Resource} {v : Nat}
      (writes : op.Writes p now r) (named : r.id = id) :
      RowStep t id op (some (Row.afterWrite r (.committed v) p now (t.row? id)))
  | pended {p : Principal} {now : Int} {m : Marker} {r : Resource} (named : r.id = id) :
      RowStep t id (.putPending p now m r)
        (some (Row.afterWrite r (.pending m) p now (t.row? id)))
  | deleted {p : Principal} {row : Row} (v : Nat) (found : t.row? id = some row) :
      RowStep t id (.delete p id) (some { row with deleted := true, stamp := .committed v })
  | indexed {m : Marker} {row : Row} (v : Nat) (found : t.row? id = some row)
      (waits : row.stamp = .pending m) :
      RowStep t id (.index m) (some { row with stamp := .committed v })

/-! ## Batches -/

/-- Of several writes of a row the last one shows. -/
theorem afterWrite_afterWrite {r r' : Resource} {stamp stamp' : Stamp} (h : r.id = r'.id)
    (old : Option Row) :
    Row.afterWrite r' stamp' p now (some (Row.afterWrite r stamp p now old)) =
      Row.afterWrite r' stamp' p now old := by
  cases old with
  | some row => rfl
  | none =>
    change (Row.first r stamp p now).overwrite r' stamp' = Row.first r' stamp' p now
    rw [Row.first, Row.first, h]
    rfl

theorem row?_of_writtenAll {rs : List Resource} {vs : List Nat}
    (h : t.WrittenAll p now rs vs t') (id : ResourceId) :
    ((¬∃ r ∈ rs, r.id = id) ∧ t'.row? id = t.row? id) ∨ ∃ r ∈ rs, r.id = id ∧
      ∃ v : Nat, t'.row? id = some (Row.afterWrite r (.committed v) p now (t.row? id)) := by
  induction h with
  | nil => exact .inl ⟨by simp, rfl⟩
  | @cons t t' r rs v vs _ _ _ ih =>
    have hrows : (t.written r v p now).rows = Row.write r (.committed v) p now t.rows := rfl
    have hrow := Tables.row?_of_write hrows id
    by_cases hid : r.id = id
    · subst hid
      rw [if_pos rfl] at hrow
      refine .inr ?_
      rcases ih with ⟨-, hrest⟩ | ⟨r', hmem, hid', v', hrest⟩
      · exact ⟨r, List.mem_cons_self, rfl, v, hrest.trans hrow⟩
      · rw [hrow, afterWrite_afterWrite hid'.symm] at hrest
        exact ⟨r', List.mem_cons_of_mem _ hmem, hid', v', hrest⟩
    · rw [if_neg fun h => hid h.symm] at hrow
      rcases ih with ⟨hnone, hrest⟩ | ⟨r', hmem, hid', v', hrest⟩
      · refine .inl ⟨?_, hrest.trans hrow⟩
        rintro ⟨r', hmem, hid'⟩
        rcases List.mem_cons.mp hmem with rfl | hmem
        · exact hid hid'
        · exact hnone ⟨r', hmem, hid'⟩
      · rw [hrow] at hrest
        exact .inr ⟨r', List.mem_cons_of_mem _ hmem, hid', v', hrest⟩

/-! ## One operation -/

/-- A write leaves all rows of other names alone. -/
theorem rowStep_of_write {r : Resource} {stamp : Stamp}
    (hrows : t'.rows = Row.write r stamp p now t.rows) (unnamed : r.id ≠ id → ¬op.Names t id)
    (named : r.id = id → RowStep t id op (some (Row.afterWrite r stamp p now (t.row? id)))) :
    RowStep t id op (t'.row? id) := by
  rw [Tables.row?_of_write hrows]
  by_cases hid : r.id = id
  · rw [if_pos hid.symm, hid]
    exact named hid
  · rw [if_neg fun h => hid h.symm]
    exact .kept (unnamed hid)

/-- **All that a successful operation can do with a row.** -/
theorem Performed.rowStep (h : Performed s op receipt s') (id : ResourceId) :
    RowStep s.tables id op (s'.tables.row? id) := by
  cases h with
  | increment | commitAgain | commit => exact .kept fun hnamed => hnamed
  | put => exact rowStep_of_write rfl (fun hid => hid) fun hid => .put ⟨rfl, rfl, rfl⟩ hid
  | putPending => exact rowStep_of_write rfl (fun hid => hid) fun hid => .pended hid
  | putBatch all =>
    rcases row?_of_writtenAll all id with ⟨hnone, hrow⟩ | ⟨r, hmem, hid, v, hrow⟩
    · rw [hrow]
      exact .kept hnone
    · rw [hrow]
      exact .put ⟨rfl, rfl, hmem⟩ hid
  | @delete p i v _ _ found =>
    have hrows : (s.tables.marked i v p).rows = s.tables.rows.map (Row.mark i v) := rfl
    rw [Tables.row?_of_edit hrows (Row.keeps_mark i v)]
    cases hrow : s.tables.row? id with
    | none =>
      rw [Option.map_none, ← hrow]
      refine .kept ?_
      rintro rfl
      rw [hrow] at found
      cases found
    | some row =>
      by_cases hid : row.id = i
      · obtain rfl : i = id := hid.symm.trans (Row.id_of_find? hrow)
        rw [Option.map_some, Row.mark_self i v row hid]
        exact .deleted v hrow
      · rw [Option.map_some, Row.mark_of_ne i v row hid, ← hrow]
        exact .kept fun hnamed : i = id => hid ((Row.id_of_find? hrow).trans hnamed.symm)
  | @index m v _ =>
    have hrows : (s.tables.indexed m v).rows = s.tables.rows.map (Row.restamp m v) := rfl
    rw [Tables.row?_of_edit hrows (Row.keeps_restamp m v)]
    cases hrow : s.tables.row? id with
    | none =>
      rw [Option.map_none, ← hrow]
      refine .kept ?_
      rintro ⟨row, hrow', -⟩
      cases hrow.symm.trans hrow'
    | some row =>
      by_cases hwaits : row.stamp = .pending m
      · rw [Option.map_some, Row.restamp_self m v row hwaits]
        exact .indexed v hrow hwaits
      · rw [Option.map_some, Row.restamp_of_ne m v row hwaits, ← hrow]
        refine .kept ?_
        rintro ⟨row', hrow', hwaits'⟩
        obtain rfl := Option.some.inj (hrow.symm.trans hrow')
        exact hwaits hwaits'

/-- **All that an operation can do with a row:** none is touched by one that fails. -/
theorem rowStep_perform (s : Store) (op : Operation) (id : ResourceId) :
    (s.perform op).2.tables.row? id = s.tables.row? id ∨
      RowStep s.tables id op ((s.perform op).2.tables.row? id) := by
  rcases hrun : s.perform op with ⟨e | receipt, s'⟩
  · exact .inl (congrArg (·.row? id) (tables_of_perform_error hrun))
  · exact .inr ((performed_of_perform hrun).rowStep id)

end Store

end Fieldbook
