import Fieldbook.Expr.Operation
import Fieldbook.Text.Alphabetic
import Fieldbook.Text.Blank
import Fieldbook.Text.Numeric

/-!
# Expr/Token — the tokens of expression text

A token is a kind, the position of its first character, and its text. Positions count characters. A
quoted token carries its text without the quotes, every other token the characters it stands for.

`ParseError` gathers all reasons for which a text is no expression, each with its position.
-/

namespace Fieldbook.Expr

/-- What a token is. -/
inductive TokenKind where
  | parenStart
  | parenEnd
  | comma
  | dot
  | symbol
  | stringLiteral
  | whitespace
  | number
  | operator
  | booleanLiteral
  deriving DecidableEq, Inhabited

/-- A token of an expression text. -/
structure Token where
  kind : TokenKind
  position : Nat
  text : String
  deriving DecidableEq, Inhabited

namespace Token

/-- Whether the token is the operator spelled `s`. -/
def isOperator (t : Token) (s : String) : Bool := t.kind == .operator && t.text == s

end Token

/-! ## Character classes -/

/-- Digits and the point; a token that starts with a point is not a number. -/
def isNumberPart (c : Char) : Bool := c.isDigit || c == '.'

def isOperatorPart (c : Char) : Bool :=
  ['+', '-', '/', '*', '&', '|', '=', '!'].contains c

def isSymbolStart (c : Char) : Bool := c == '_' || Text.isAlphabetic c

def isSymbolPart (c : Char) : Bool := c == '_' || Text.isAlphabetic c || Text.isNumeric c

theorem isSymbolPart_of_isSymbolStart {c : Char} (h : isSymbolStart c = true) :
    isSymbolPart c = true := by
  simp only [isSymbolStart, isSymbolPart, Bool.or_eq_true] at *
  exact Or.inl h

/-- The words for the truth values, in any case of their letters. -/
def isBooleanWord (cs : List Char) : Bool :=
  cs.map Char.toLower == "true".toList || cs.map Char.toLower == "false".toList

/-! ## Failures -/

/-- What the reader of expressions was looking for. -/
inductive Wanted where
  | operand
  | fieldName
  | parenEnd
  deriving DecidableEq

def Wanted.text : Wanted → String
  | .operand => "an operand"
  | .fieldName => "a field name"
  | .parenEnd => "')'"

/-- Why a text is no expression. -/
inductive ParseFault where
  /-- A character that starts no token. -/
  | unsupported (c : Char)
  /-- A quoted token whose closing character does not occur any more. -/
  | unclosed (closing : Char)
  /-- A token that cannot stand where it stands. -/
  | unexpected (text : String)
  /-- A token other than the one required. -/
  | expected (wanted : Wanted) (found : String)
  /-- The tokens ran out. -/
  | ended (wanted : Wanted)
  | unknownOperator (text : String)
  | invalidNumber (text : String)
  | unknownFunction (name : String)
  | argumentCount (name : String) (n : Nat)
  deriving DecidableEq

/-- A fault and where it lies. -/
structure ParseError where
  position : Nat
  fault : ParseFault
  deriving DecidableEq

def ParseFault.message : ParseFault → String
  | .unsupported c => s!"unsupported character '{c}'"
  | .unclosed closing => s!"end of input reached while looking for closing '{closing}'"
  | .unexpected text => s!"unexpected '{text}'"
  | .expected wanted found => s!"expected {wanted.text}, found '{found}'"
  | .ended wanted => s!"expected {wanted.text}, found end of input"
  | .unknownOperator text => s!"unknown operator '{text}'"
  | .invalidNumber text => s!"invalid number '{text}'"
  | .unknownFunction name => s!"unknown function '{name}'"
  | .argumentCount name n => s!"'{name}' cannot take {n} arguments"

end Fieldbook.Expr
