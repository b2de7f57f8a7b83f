import Fieldbook.Expr.Operation

/-!
# Expr/Basic — expression trees

An expression is a constant, a field reference given by a path of names, or an operation on
expressions. Its value depends on a `Context`, which answers field references; `symbols` lists the
references that occur, and `chars` shows the tree with every operation in parentheses.
-/

namespace Fieldbook

/-- What field references stand for: a value, or nothing. -/
abbrev Context := List String → Option Expr.Operand

/-- An expression over field references. -/
inductive Expr where
  | const (value : Expr.Operand)
  | symbol (path : List String)
  | apply (op : Expr.Operation) (args : List Expr)
  deriving Inhabited

namespace Expr

/-- The dotted name of a path. -/
def dotted (path : List String) : String := ".".intercalate path

/-! ## Value -/

mutual

/-- The value of an expression. All operands are evaluated, from left to right, before the operation
is applied. -/
def evaluate (ctx : Context) : Expr → Except EvalError Operand
  | .const v => .ok v
  | .symbol path => .ok ((ctx path).getD .missing)
  | .apply op args => do op.apply (← evaluateAll ctx args)

/-- The values of several expressions, or the first failure. -/
def evaluateAll (ctx : Context) : List Expr → Except EvalError (List Operand)
  | [] => .ok []
  | e :: rest => do
    let v ← evaluate ctx e
    let vs ← evaluateAll ctx rest
    pure (v :: vs)

end

/-! ## Field references -/

mutual

/-- The paths of all field references, from left to right, repetitions kept. -/
def paths : Expr → List (List String)
  | .const _ => []
  | .symbol path => [path]
  | .apply _ args => pathsAll args

def pathsAll : List Expr → List (List String)
  | [] => []
  | e :: rest => paths e ++ pathsAll rest

end

/-- The dotted names of all field references. -/
def symbols (e : Expr) : List String := e.paths.map dotted

/-! ## Shown form -/

mutual

/-- The shown form: a single operand follows its operation in parentheses, several operands stand
around it. -/
def chars : Expr → List Char
  | .const v => v.chars
  | .symbol path => (dotted path).toList
  | .apply op [e] => op.spelling.toList ++ '(' :: chars e ++ [')']
  | .apply op args => '(' :: charsBetween op args ++ [')']

/-- Expressions with the spelling of an operation between them. -/
def charsBetween (op : Operation) : List Expr → List Char
  | [] => []
  | e :: rest => chars e ++ charsAfter op rest

def charsAfter (op : Operation) : List Expr → List Char
  | [] => []
  | e :: rest => ' ' :: op.spelling.toList ++ ' ' :: chars e ++ charsAfter op rest

end

def shown (e : Expr) : String := String.ofList e.chars

end Expr

end Fieldbook
