import Fieldbook.Double.Text

/-!
# Expr/Operand — the values that expressions work on

An operand is a number, a text, a truth value, or missing: what a field reference gives when
nothing stands there. In arithmetic and in comparisons a missing operand counts as NaN.
-/

namespace Fieldbook.Expr

/-- A value of an expression. -/
inductive Operand where
  | number (x : Double)
  | text (s : String)
  | boolean (b : Bool)
  | missing
  deriving DecidableEq, Inhabited

namespace Operand

/-- A missing operand as a number, every other one as it is. -/
def numeric : Operand → Operand
  | .missing => .number .nan
  | v => v

/-- How an operand is shown: a text between double quotes, unchanged. -/
def chars : Operand → List Char
  | .number x => x.text.toList
  | .text s => '"' :: s.toList ++ ['"']
  | .boolean true => "true".toList
  | .boolean false => "false".toList
  | .missing => "missing".toList

def shown (v : Operand) : String := String.ofList v.chars

end Operand

end Fieldbook.Expr
