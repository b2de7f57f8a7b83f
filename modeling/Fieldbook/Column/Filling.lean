import Fieldbook.Column.Basic
import Fieldbook.Form.FieldType
import Fieldbook.Store.Basic

/-!
# Column/Filling — how rows fill a column

The type of a field decides how its values become cells, if it has columns at all
(`Filling.ofType`). A value of a kind that the column has no use for is a gap. Every cell comes
from one row alone, except that the type of a calculated column is that of its first result that
is not missing.
-/

namespace Fieldbook

/-- What a resource of a form's class brings to a row. -/
structure Submission where
  id : ResourceId
  value : Record
  createdBy : Principal
  createdAt : Instant
  deriving DecidableEq

/-- An entry as a row. -/
def Entry.submission (e : Entry) : Submission := ⟨e.id, e.value, e.createdBy, e.createdAt⟩

/-! ## Sources -/

/-- Where a column takes its values from. -/
inductive CellSource where
  | id
  | creator
  | submissionTime
  /-- A key, after the keys of the records around it. -/
  | path (keys : List String)
  deriving DecidableEq

namespace CellSource

def read (row : Submission) : CellSource → Option FieldValue
  | .id => some (.text row.id.text)
  | .creator => some (.text row.createdBy.text)
  | .submissionTime => some (.instant row.createdAt)
  | .path keys => row.value.resolve keys

/-- The record that the value stands in. -/
def scope (row : Submission) : CellSource → Option Record
  | .path [] => none
  | .path keys => row.value.descend keys.dropLast
  | _ => some row.value

end CellSource

/-! ## Fillings -/

/-- How values become the cells of a column. -/
inductive Filling where
  | texts
  | quantities
  | years
  | flags
  | choices (cardinality : Cardinality) (items : List EnumItem)
  | dates
  | calculated (e : Expr)

namespace Filling

/-- How the values of a type fill a column, nothing for a type without columns. -/
def ofType : FieldType → Except DataError (Option Filling)
  | .text | .barcode => .ok (some .texts)
  | .quantity _ => .ok (some .quantities)
  | .year => .ok (some .years)
  | .boolean => .ok (some .flags)
  | .choice cardinality items => .ok (some (.choices cardinality items))
  | .instant => .ok (some .dates)
  | .calculated expression =>
    match Expr.parse expression with
    | .ok e => .ok (some (.calculated e))
    | .error e => .error (.parse e)
  | .reference .. | .embedded _ | .geoPoint | .image | .narrative | .localDate | .month
  | .localDateInterval | .expr => .ok none

def textCell : FieldValue → Option String
  | .text s | .barcode s => some s
  | _ => none

def yearCell : FieldValue → Option Double
  | .year y => some (.ofInt y.toInt)
  | _ => none

/-- An instant counts by its date in universal time. -/
def dateCell : FieldValue → Option Date
  | .instant t => some t.date
  | .localDate d => some d
  | _ => none

/-- Where the item of each name stands: the last one, if several items have that name. -/
def itemPlaces (items : List EnumItem) : List (String × Nat) :=
  Keyed.ofList (items.zipIdx.map fun x => (x.1.id.text, x.2))

/-- Where the selected items stand, in ascending order, each once. What no item is named is left
out. -/
def selectedPlaces (items : List EnumItem) (selected : List ResourceId) : List Nat :=
  (selected.filterMap fun id => Keyed.find? id.text (itemPlaces items)).mergeSort Nat.ble
    |>.eraseReps

def labelAt? (items : List EnumItem) (i : Nat) : Option String := items[i]?.map (·.label)

/-- The cell of a choice: the label that comes first among the items, or all of them with commas
between. -/
def choiceCell (cardinality : Cardinality) (items : List EnumItem) : FieldValue → Option String
  | .choice selected =>
    match cardinality, selectedPlaces items selected with
    | _, [] => none
    | .single, first :: _ => labelAt? items first
    | .multiple, places => some (", ".intercalate (places.filterMap (labelAt? items)))
  | _ => none

/-- The result of a calculation in a row. One that fails, or has no record to work in, is
missing. -/
def resultIn (e : Expr) (scope : Option Record) : Expr.Operand :=
  match scope with
  | none => .missing
  | some r => ((e.evaluate r.context).toOption).getD .missing

def resultText : Expr.Operand → Option String
  | .text s => some s
  | _ => none

def resultFlag : Expr.Operand → Option Bool
  | .boolean b => some b
  | _ => none

/-- The number of a result, NaN for any other. -/
def resultNumber : Expr.Operand → Double
  | .number x => x
  | _ => .nan

/-- The column of the type of the first result that is not missing; numbers if there is none. -/
def ofResults (results : List Expr.Operand) : Column :=
  match results.find? (· ≠ .missing) with
  | some (.text _) => .texts (results.map resultText)
  | some (.boolean _) => .flags (results.map resultFlag)
  | _ => .numbers (results.map resultNumber)

/-- The column that rows fill. -/
def column (filling : Filling) (source : CellSource) (rows : List Submission) : Column :=
  match filling with
  | .texts => .texts (rows.map fun row => (source.read row).bind textCell)
  | .quantities =>
    .numbers (rows.map fun row => ((source.read row).bind FieldValue.quantity?).getD .nan)
  | .years => .numbers (rows.map fun row => ((source.read row).bind yearCell).getD .nan)
  | .flags => .flags (rows.map fun row => (source.read row).bind FieldValue.boolean?)
  | .choices cardinality items =>
    .texts (rows.map fun row => (source.read row).bind (choiceCell cardinality items))
  | .dates => .dates (rows.map fun row => (source.read row).bind dateCell)
  | .calculated e => ofResults (rows.map fun row => resultIn e (source.scope row))

end Filling

end Fieldbook
