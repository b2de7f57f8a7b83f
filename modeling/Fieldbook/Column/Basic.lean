import Fieldbook.Calendar.Date
import Fieldbook.Double.Basic

/-!
# Column/Basic — columns of cells of one type

A column has one cell for each row, all of them texts, numbers, truth values or dates. A cell may be
a gap; among numbers NaN is the gap. Each type has its own getter, which answers with a gap for rows
that the column does not have and on columns of another type.

`Column.shown?` is what a row shows of a column: nothing for a gap, and no infinite number either.
-/

namespace Fieldbook

/-- A column of cells of one type. -/
inductive Column where
  | texts (cells : List (Option String))
  | numbers (cells : List Double)
  | flags (cells : List (Option Bool))
  | dates (cells : List (Option Date))
  deriving DecidableEq

/-- What a row shows of a column. -/
inductive Shown where
  | text (s : String)
  | number (x : Double)
  | flag (b : Bool)
  deriving DecidableEq

namespace Column

def length : Column → Nat
  | .texts cells => cells.length
  | .numbers cells => cells.length
  | .flags cells => cells.length
  | .dates cells => cells.length

def isEmpty (c : Column) : Bool := c.length == 0

/-! ## Cells -/

def text? (c : Column) (row : Nat) : Option String :=
  match c with
  | .texts cells => cells[row]?.join
  | _ => none

/-- The number in a row, NaN where there is none. -/
def number (c : Column) (row : Nat) : Double :=
  match c with
  | .numbers cells => cells[row]?.getD .nan
  | _ => .nan

def flag? (c : Column) (row : Nat) : Option Bool :=
  match c with
  | .flags cells => cells[row]?.join
  | _ => none

def date? (c : Column) (row : Nat) : Option Date :=
  match c with
  | .dates cells => cells[row]?.join
  | _ => none

/-- Whether a row has a gap in the column. -/
def isMissing (c : Column) (row : Nat) : Bool :=
  match c with
  | .texts _ => (c.text? row).isNone
  | .numbers _ => (c.number row).isNaN
  | .flags _ => (c.flag? row).isNone
  | .dates _ => (c.date? row).isNone

/-- What a row shows of the column, dates as texts. -/
def shown? (c : Column) (row : Nat) : Option Shown :=
  match c with
  | .texts _ => (c.text? row).map .text
  | .numbers _ => if (c.number row).isFinite then some (.number (c.number row)) else none
  | .flags _ => (c.flag? row).map .flag
  | .dates _ => (c.date? row).map fun d => .text d.text

end Column

end Fieldbook
