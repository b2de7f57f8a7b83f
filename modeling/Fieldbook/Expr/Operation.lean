import Fieldbook.Expr.Operand

/-!
# Expr/Operation — the operations of expressions

Ten operations, each with a spelling between operands and a name for call notation. `apply` works on
any number of operands; how many a written expression may give is `accepts`, which the reader of
expressions checks for calls.

Operands are looked at from left to right, and the first unfit one is the one reported.
-/

namespace Fieldbook.Expr

/-- What an expression may do with operands. -/
inductive Operation where
  | and
  | or
  | not
  | equal
  | notEqual
  | sum
  | minus
  | multiply
  | divide
  | negate
  deriving DecidableEq, Inhabited

/-- Why an expression has no value. -/
inductive EvalError where
  /-- A logical operation met an operand that is no truth value. -/
  | notBoolean (op : Operation) (got : Operand)
  /-- An arithmetical operation met an operand that is no number. -/
  | notNumeric (op : Operation) (got : Operand)
  /-- Two operands of different kinds were compared. -/
  | incomparable (a b : Operand)
  /-- An operation was given a number of operands it has no value for. -/
  | operandCount (op : Operation) (n : Nat)
  /-- An operation on one operand was given another number of them. -/
  | notSingle (n : Nat)
  deriving DecidableEq

namespace Operation

/-- All operations, in the order in which they are looked up. -/
def all : List Operation :=
  [and, or, not, equal, notEqual, sum, minus, multiply, divide, negate]

/-! ## Names -/

/-- The spelling between operands, or before a single one. -/
def spelling : Operation → String
  | .and => "&&"
  | .or => "||"
  | .not => "!"
  | .equal => "=="
  | .notEqual => "!="
  | .sum => "+"
  | .minus | .negate => "-"
  | .multiply => "*"
  | .divide => "/"

/-- The name in call notation. -/
def callName : Operation → String
  | .and => "and"
  | .or => "or"
  | .not => "not"
  | .equal => "equal"
  | .notEqual => "notequal"
  | .sum => "sum"
  | .minus => "minus"
  | .multiply => "multiply"
  | .divide => "divide"
  | .negate => "negate"

/-- Operations that stand between operands. -/
def isBinary (op : Operation) : Bool := op != .not && op != .negate

/-- The operation spelled so between operands. -/
def ofSpelling? (s : String) : Option Operation :=
  all.find? fun op => op.isBinary && op.spelling == s

/-- The operation of a call name, in any case of the ASCII letters. -/
def ofCallName? (name : String) : Option Operation :=
  all.find? fun op => op.callName.toList == name.toList.map Char.toLower

/-- How many operands a written call may have. -/
def accepts : Operation → Nat → Bool
  | .not, n | .negate, n => n == 1
  | .notEqual, n | .minus, n | .divide, n => n == 2
  | .and, n | .or, n | .equal, n | .sum, n | .multiply, n => 2 ≤ n

/-! ## Values -/

/-- The operand of a logical operation. -/
def truth (op : Operation) : Operand → Except EvalError Bool
  | .boolean b => .ok b
  | v => .error (.notBoolean op v)

/-- The operand of an arithmetical operation. -/
def amount (op : Operation) : Operand → Except EvalError Double
  | .number x => .ok x
  | .missing => .ok .nan
  | v => .error (.notNumeric op v)

/-- Whether two operands of one kind are equal; numbers as in calculations. -/
def compare (a b : Operand) : Except EvalError Bool :=
  match a.numeric, b.numeric with
  | .number x, .number y => .ok (x.ieeeEq y)
  | .text s, .text t => .ok (s == t)
  | .boolean p, .boolean q => .ok (p == q)
  | x, y => .error (.incomparable x y)

/-- Whether the first operand equals all others; the first difference settles it. -/
def equalsAll (first : Operand) : List Operand → Except EvalError Bool
  | [] => .ok true
  | v :: rest => do if ← compare first v then equalsAll first rest else pure false

/-- The operands combined from the left. -/
def fold (op : Operation) (combine : Double → Double → Double) :
    List Operand → Except EvalError Operand
  | [] => .error (.operandCount op 0)
  | v :: rest => do
    let first ← op.amount v
    let total ← rest.foldlM (fun acc w => do pure (combine acc (← op.amount w))) first
    pure (.number total)

/-- The only operand. -/
def single : List Operand → Except EvalError Operand
  | [v] => .ok v
  | vs => .error (.notSingle vs.length)

/-- The value of an operation on operands. -/
def apply (op : Operation) (operands : List Operand) : Except EvalError Operand :=
  match op with
  | .and => do pure (.boolean ((← operands.mapM (truth .and)).all id))
  | .or => do pure (.boolean ((← operands.mapM (truth .or)).any id))
  | .not => do pure (.boolean !(← truth .not (← single operands)))
  | .equal =>
    match operands with
    | [] => .error (.operandCount .equal 0)
    | v :: rest => do pure (.boolean (← equalsAll v rest))
  | .notEqual =>
    match operands with
    | [a, b] => do pure (.boolean !(← compare a b))
    | vs => .error (.operandCount .notEqual vs.length)
  | .sum => fold .sum Double.add operands
  | .minus => fold .minus Double.sub operands
  | .multiply => fold .multiply Double.mul operands
  | .divide => fold .divide Double.div operands
  | .negate => do pure (.number (← amount .negate (← single operands)).neg)

end Operation

/-- The wording of a failed evaluation. -/
def EvalError.message : EvalError → String
  | .notBoolean op got => s!"'{op.spelling}' expects boolean operands, got {got.shown}"
  | .notNumeric op got => s!"'{op.spelling}' expects numeric operands, got {got.shown}"
  | .incomparable a b => s!"cannot compare {a.shown} with {b.shown}"
  | .operandCount op n => s!"function '{op.spelling}' cannot take {n} arguments"
  | .notSingle n => s!"expected one argument, got {n}"

end Fieldbook.Expr
