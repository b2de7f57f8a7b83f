import Fieldbook.Proofs.Column.Cells
import Fieldbook.Proofs.Expr.Display

/-!
# Proofs/Column/Results — what a calculated column keeps

The column of a calculation has the type of its first result that is not missing, and a result of
another type is a gap in it.  But all results of an expression are of one type, which its operation or
its constant tells beforehand, unless the expression is a reference (`Expr.type_of_evaluate`).  So
nothing is lost: every result stands in the column (`showsValues`).
-/

namespace Fieldbook

/-! ## Cells of results -/

def Cell.type : Cell → CellType
  | .text _ => .text
  | .number _ => .number
  | .flag _ => .flag
  | .date _ => .date

/-- Whether a cell is a gap. -/
def Cell.isGap : Cell → Bool
  | .text s => s.isNone
  | .number x => x.isNaN
  | .flag b => b.isNone
  | .date d => d.isNone

/-- The cell that shows a result, unless it is missing. -/
def Expr.Operand.cell? : Expr.Operand → Option Cell
  | .number x => some (.number x)
  | .text s => some (.text (some s))
  | .boolean b => some (.flag (some b))
  | .missing => none

/-- The type of a result, unless it is missing. -/
def Expr.Operand.type? (v : Operand) : Option CellType := v.cell?.map Cell.type

namespace Column

/-- A row is missing in a column if its cell is a gap. -/
theorem isMissing_eq {c : Column} {i : Nat} {cell : Cell} (h : c.cells[i]? = some cell) :
    c.isMissing i = cell.isGap := by
  cases c with
  | texts cells | numbers cells | flags cells | dates cells =>
    rw [Column.cells, List.getElem?_map, Option.map_eq_some_iff] at h
    obtain ⟨x, hx, rfl⟩ := h
    simp [isMissing, text?, number, flag?, date?, hx, Cell.isGap]

end Column

/-! ## Types of results -/

namespace Expr

variable {op : Operation} {e : Expr} {ctx : Context} {v : Operand} {vs : List Operand}

/-- The type of what an operation results in. -/
def Operation.resultType : Operation → CellType
  | .and | .or | .not | .equal | .notEqual => .flag
  | .sum | .minus | .multiply | .divide | .negate => .number

/-- What is combined from the left is a number. -/
theorem type_of_fold {combine : Double → Double → Double} (h : op.fold combine vs = .ok v) :
    v.type? = some .number := by
  cases vs with
  | nil => cases h
  | cons w vs =>
    obtain ⟨_, -, h⟩ := bind_ok.mp h
    obtain ⟨x, -, h⟩ := bind_ok.mp h
    obtain rfl := pure_ok.mp h
    rfl

/-- **An operation results in values of one type.** -/
theorem type_of_apply (h : op.apply vs = .ok v) : v.type? = some op.resultType := by
  cases op with
  | and | or =>
    obtain ⟨bs, -, h⟩ := bind_ok.mp h
    obtain rfl := pure_ok.mp h
    rfl
  | not =>
    obtain ⟨w, -, h⟩ := bind_ok.mp h
    obtain ⟨b, -, h⟩ := bind_ok.mp h
    obtain rfl := pure_ok.mp h
    rfl
  | equal =>
    cases vs with
    | nil => cases h
    | cons w vs =>
      obtain ⟨b, -, h⟩ := bind_ok.mp h
      obtain rfl := pure_ok.mp h
      rfl
  | notEqual =>
    rcases vs with _ | ⟨w, _ | ⟨w', _ | ⟨_, vs⟩⟩⟩
    · cases h
    · cases h
    · obtain ⟨b, -, h⟩ := bind_ok.mp h
      obtain rfl := pure_ok.mp h
      rfl
    · cases h
  | sum | minus | multiply | divide => exact type_of_fold h
  | negate =>
    obtain ⟨w, -, h⟩ := bind_ok.mp h
    obtain ⟨x, -, h⟩ := bind_ok.mp h
    obtain rfl := pure_ok.mp h
    rfl

/-- **All results of a written expression are of one type,** unless it is a reference. -/
theorem type_of_evaluate (hwritten : Written e) (hsymbol : ∀ path, e ≠ .symbol path) :
    ∃ type, ∀ ctx v, evaluate ctx e = .ok v → v.type? = some type := by
  cases hwritten with
  | @const w hw =>
    have htype : ∃ type, w.type? = some type := by
      cases w <;> simp [Operand.type?, Operand.cell?] at hw ⊢
    obtain ⟨type, htype⟩ := htype
    refine ⟨type, fun ctx v h => ?_⟩
    rw [evaluate] at h
    obtain rfl := Except.ok.inj h
    exact htype
  | symbol => exact absurd rfl (hsymbol _)
  | @apply op args _ _ =>
    refine ⟨op.resultType, fun ctx v h => ?_⟩
    rw [evaluate] at h
    obtain ⟨vs, -, h⟩ := bind_ok.mp h
    exact type_of_apply h

end Expr

/-! ## Columns of results -/

namespace Filling

open Fieldbook.Expr (Operand)

variable {results before after : List Operand} {type : CellType} {v : Operand} {cell : Cell}
  {e : Expr} {source : CellSource} {rows : List Submission} {row : Submission} {r : Record} {i : Nat}

theorem typeOfResults_cons (htype : v.type? = some type) :
    typeOfResults (v :: after) = type := by
  cases v with
  | missing => cases htype
  | _ => exact Option.some.inj htype

/-- The type of some results is that of the first one that is not missing. -/
theorem typeOfResults_split (hbefore : ∀ u ∈ before, u = .missing) (htype : v.type? = some type) :
    typeOfResults (before ++ v :: after) = type := by
  induction before with
  | nil => exact typeOfResults_cons htype
  | cons u before ih =>
    obtain ⟨rfl, hrest⟩ := List.forall_mem_cons.mp hbefore
    exact ih hrest

/-- Results of one type have that type, if one of them is not missing. -/
theorem typeOfResults_of_mem (hall : ∀ u ∈ results, u = .missing ∨ u.type? = some type)
    (hmem : v ∈ results) (htype : v.type? = some type) : typeOfResults results = type := by
  induction results with
  | nil => exact absurd hmem List.not_mem_nil
  | cons u results ih =>
    obtain ⟨rfl | hu, hrest⟩ := List.forall_mem_cons.mp hall
    · refine ih hrest ((List.mem_cons.mp hmem).resolve_left ?_)
      rintro rfl
      cases htype
    · exact typeOfResults_cons hu

/-- **A result keeps its cell** in a column of its type. -/
theorem resultCell_of_type (hcell : v.cell? = some cell) (htype : cell.type = type) :
    resultCell type v = cell := by
  subst htype
  cases v with
  | missing => cases hcell
  | _ =>
    obtain rfl := Option.some.inj hcell
    rfl

/-- A result is a gap in a column of another type. -/
theorem isGap_resultCell (h : v.type? ≠ some type) : (resultCell type v).isGap = true := by
  have hnan : Double.nan.isNaN := by decide
  cases v <;> cases type <;> first
    | exact absurd rfl h
    | simp [resultCell, resultText, resultNumber, resultFlag, Cell.isGap, hnan]

/-- Of the cells of results only NaN is a gap. -/
theorem isGap_iff_of_cell? (hcell : v.cell? = some cell) :
    cell.isGap = true ↔ ∃ x, v = .number x ∧ x.isNaN = true := by
  cases v with
  | missing => cases hcell
  | _ =>
    obtain rfl := Option.some.inj hcell
    simp [Cell.isGap]

theorem resultIn_of_ok (hv : e.evaluate r.context = .ok v) : resultIn e (some r) = v := by
  rw [resultIn, hv]
  rfl

theorem resultIn_of_error {err : Expr.EvalError} (hv : e.evaluate r.context = .error err) :
    resultIn e (some r) = .missing := by
  rw [resultIn, hv]
  rfl

/-- A cell of a calculated column is that of the result in its row. -/
theorem cell_calculated (hrow : rows[i]? = some row) :
    ((Filling.calculated e).column source rows).cells[i]? =
      some (resultCell ((Filling.calculated e).column source rows).type
        (resultIn e (source.scope row))) := by
  obtain ⟨htype, hcells⟩ := column_eq (.calculated e) source rows
  rw [hcells, htype, List.getElem?_map, hrow]
  rfl

/-- The type of a calculated column is that of its results. -/
theorem type_calculated : ((Filling.calculated e).column source rows).type =
    typeOfResults (rows.map fun row => resultIn e (source.scope row)) :=
  (column_eq (.calculated e) source rows).1

/-- What a column shows of an expression if its results are of different types. -/
structure ShowsFirstType (e : Expr) (source : CellSource) (rows : List Submission)
    (column : Column) : Prop where
  /-- The column has the type of the first result that is not missing. -/
  first : ∀ (before : List Submission) (row : Submission) (after : List Submission)
    (type : CellType), rows = before ++ row :: after →
      (∀ u ∈ before, resultIn e (source.scope u) = .missing) →
        (resultIn e (source.scope row)).type? = some type → column.type = type
  /-- Every result of that type stands in it. -/
  kept : ∀ (i : Nat) (row : Submission) (cell : Cell), rows[i]? = some row →
    (resultIn e (source.scope row)).cell? = some cell → cell.type = column.type →
      column.cells[i]? = some cell
  /-- All other results are gaps. -/
  other : ∀ (i : Nat) (row : Submission), rows[i]? = some row →
    (resultIn e (source.scope row)).type? ≠ some column.type → column.isMissing i = true

/-- What a column shows of an expression, row by row: its values, and gaps where it has none. -/
structure ShowsValues (e : Expr) (source : CellSource) (rows : List Submission) (column : Column) :
    Prop where
  value : ∀ (i : Nat) (row : Submission) (r : Record) (v : Operand), rows[i]? = some row →
    source.scope row = some r → e.evaluate r.context = .ok v →
      ∃ cell, v.cell? = some cell ∧ column.cells[i]? = some cell
  gap : ∀ (i : Nat) (row : Submission), rows[i]? = some row → (column.isMissing i = true ↔
    source.scope row = none ∨ ∃ r, source.scope row = some r ∧
      ((∃ err, e.evaluate r.context = .error err) ∨
        ∃ x, e.evaluate r.context = .ok (.number x) ∧ x.isNaN = true))

theorem showsFirstType (e : Expr) (source : CellSource) (rows : List Submission) :
    ShowsFirstType e source rows ((Filling.calculated e).column source rows) where
  first := by
    rintro before row after type rfl hbefore htype
    rw [type_calculated, List.map_append, List.map_cons]
    exact typeOfResults_split (List.forall_mem_map.mpr hbefore) htype
  kept i row cell hrow hcell htype := by
    rw [cell_calculated hrow, resultCell_of_type hcell htype]
  other i row hrow hother := by
    rw [Column.isMissing_eq (cell_calculated hrow)]
    exact isGap_resultCell hother

section

variable (htype : ∀ ctx v, e.evaluate ctx = .ok v → v.type? = some type)

include htype

/-- A row without a value of the type of all values has none at all. -/
theorem missing_or_type (scope : Option Record) :
    resultIn e scope = .missing ∨ (resultIn e scope).type? = some type := by
  cases scope with
  | none => exact .inl rfl
  | some r =>
    cases hv : e.evaluate r.context with
    | error err => exact .inl (resultIn_of_error hv)
    | ok v => exact .inr (resultIn_of_ok hv ▸ htype _ v hv)

/-- **The value of an expression stands in its column,** where all values are of one type. -/
theorem cell_of_evaluate (hrow : rows[i]? = some row) (hscope : source.scope row = some r)
    (hv : e.evaluate r.context = .ok v) : ∃ cell, v.cell? = some cell ∧
      ((Filling.calculated e).column source rows).cells[i]? = some cell := by
  have hresult : resultIn e (source.scope row) = v := by rw [hscope, resultIn_of_ok hv]
  have hmem : v ∈ rows.map fun row => resultIn e (source.scope row) :=
    List.mem_map.mpr ⟨row, List.mem_of_getElem? hrow, hresult⟩
  have hall : ∀ u ∈ rows.map (fun row => resultIn e (source.scope row)),
      u = .missing ∨ u.type? = some type :=
    List.forall_mem_map.mpr fun _ _ => missing_or_type htype _
  have hcolumn : ((Filling.calculated e).column source rows).type = type :=
    type_calculated.trans (typeOfResults_of_mem hall hmem (htype _ v hv))
  obtain ⟨cell, hcell, hcelltype⟩ := Option.map_eq_some_iff.mp (htype _ v hv)
  refine ⟨cell, hcell, (showsFirstType e source rows).kept i row cell hrow ?_ ?_⟩
  · rw [hresult, hcell]
  · rw [hcelltype, hcolumn]

/-- **Where all values of an expression are of one type,** its column shows them. -/
theorem showsValues (source : CellSource) (rows : List Submission) :
    ShowsValues e source rows ((Filling.calculated e).column source rows) where
  value _ _ _ _ := cell_of_evaluate htype
  gap i row hrow := by
    have hgap : resultIn e (source.scope row) = .missing →
        ((Filling.calculated e).column source rows).isMissing i = true := by
      intro hmissing
      refine (showsFirstType e source rows).other i row hrow fun htype => ?_
      rw [hmissing] at htype
      cases htype
    cases hscope : source.scope row with
    | none => exact iff_of_true (hgap (by rw [hscope, resultIn])) (.inl rfl)
    | some r =>
      cases hv : e.evaluate r.context with
      | error err =>
        exact iff_of_true (hgap (hscope ▸ resultIn_of_error hv)) (.inr ⟨r, rfl, .inl ⟨err, hv⟩⟩)
      | ok v =>
        obtain ⟨cell, hcell, hstands⟩ := cell_of_evaluate htype hrow hscope hv
        rw [Column.isMissing_eq hstands, isGap_iff_of_cell? hcell]
        simp [hv]

end

/-- **A calculated column loses no result.** A field that is calculated by an expression has a column
with a cell for each row. Unless the expression is a reference, its values stand in the column, and a
row is a gap only where there is no record to calculate in, where the calculation fails, or where the
value is NaN. Results of different types, which only a reference has, are kept if they are of the type
of the first one. -/
theorem calculated_keeps (text : String) (e : Expr) (h : Expr.parse text = .ok e)
    (source : CellSource) (rows : List Submission) :
    Filling.ofType (.calculated text) = .ok (some (.calculated e)) ∧
    ((Filling.calculated e).column source rows).length = rows.length ∧
    ((∀ path, e ≠ .symbol path) →
      ShowsValues e source rows ((Filling.calculated e).column source rows)) ∧
    ShowsFirstType e source rows ((Filling.calculated e).column source rows) := by
  have hwritten : e.Written := by
    obtain ⟨_, -, htokens⟩ := Expr.bind_ok.mp h
    exact Expr.written_of_sentence (Expr.parseTokens_ok.mp htokens)
  refine ⟨by rw [ofType, h], ?_, fun hsymbol => ?_, showsFirstType e source rows⟩
  · rw [← Column.length_cells, (column_eq (.calculated e) source rows).2, List.length_map]
  · obtain ⟨type, htype⟩ := Expr.type_of_evaluate hwritten hsymbol
    exact showsValues htype source rows

/-- Whether a town is Ulm. -/
def isUlm : Expr := .apply .equal [.symbol ["town"], .const (.text "Ulm")]

theorem parse_isUlm : Expr.parse "equal(town, \"Ulm\")" = .ok isUlm := by
  have htokens : (Expr.tokens "equal(town, \"Ulm\")").toOption = some [⟨.symbol, 0, "equal"⟩,
      ⟨.parenStart, 5, "("⟩, ⟨.symbol, 6, "town"⟩, ⟨.comma, 10, ","⟩, ⟨.whitespace, 11, " "⟩,
      ⟨.stringLiteral, 12, "Ulm"⟩, ⟨.parenEnd, 17, ")"⟩] := by decide +kernel
  have hoperand {ts : List Expr.Token} {e : Expr} (h : Expr.Primary Expr.Sentence ts e) :
      Expr.Sentence ts e := Expr.sentence_of_sum (.one (.one (.bare h)))
  have hargs : Expr.Listed Expr.Sentence [⟨.symbol, 6, "town"⟩, ⟨.comma, 10, ","⟩,
      ⟨.stringLiteral, 12, "Ulm"⟩] _ :=
    .more (hoperand (.reference rfl .nil)) rfl (.one (hoperand (.text rfl)))
  have hcall : Expr.Primary Expr.Sentence (⟨.symbol, 0, "equal"⟩ :: ⟨.parenStart, 5, "("⟩ ::
      (_ ++ [⟨.parenEnd, 17, ")"⟩])) isUlm := .call rfl (by decide) rfl hargs rfl rfl
  rw [Expr.parse, Expr.bind_ok]
  exact ⟨_, Expr.toOption_eq_some.mp htokens, Expr.parseTokens_ok.mpr (hoperand hcall)⟩

/-- A row with a town and one without. -/
def townRows : List Submission :=
  let time : Instant := ⟨0, 0, by decide, by decide⟩
  [⟨⟨"v1"⟩, [("town", .text "Ulm")], ⟨"alice"⟩, time⟩, ⟨⟨"v2"⟩, [], ⟨"alice"⟩, time⟩]

/-- The first row is true, and the second one a gap: nothing can be compared with a text there. -/
theorem calculated_keeps_isUlm :
    Expr.parse "equal(town, \"Ulm\")" = .ok isUlm ∧ (∀ path, isUlm ≠ .symbol path) ∧
      ((Filling.calculated isUlm).column (.path ["same"]) townRows).cells[0]? =
        some (.flag (some true)) ∧
      ((Filling.calculated isUlm).column (.path ["same"]) townRows).isMissing 1 = true := by
  have hsymbol : ∀ path, isUlm ≠ .symbol path := fun _ => Expr.noConfusion
  obtain ⟨-, -, hshows, -⟩ := calculated_keeps _ isUlm parse_isUlm (.path ["same"]) townRows
  obtain ⟨hvalue, hgap⟩ := hshows hsymbol
  obtain ⟨cell, hcell, hstands⟩ := hvalue 0 _ _ (.boolean true) rfl rfl (by decide +kernel)
  obtain rfl := Option.some.inj hcell
  exact ⟨parse_isUlm, hsymbol, hstands, (hgap 1 _ rfl).mpr (.inr ⟨_, rfl, .inl ⟨_, rfl⟩⟩)⟩

end Filling

end Fieldbook
