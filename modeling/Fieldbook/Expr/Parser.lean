import Fieldbook.Expr.Basic
import Fieldbook.Expr.Lexer

/-!
# Expr/Parser — from tokens to expression trees

From the loosest to the tightest: `||`, `&&`, `==` and `!=`, `+` and `-`, `*` and `/`, the signs `!`
and `-` before an operand, and then constants, field references, calls and parentheses. Each level
is built from the parser of its operands, so it can be read, and reasoned about, by itself;
`expression` closes the circle through parentheses and calls, once for each level of nesting.

A parser takes an expression from the front of the tokens and returns the tokens after it. A level
goes on only while its operands shorten the tokens, which every parser here does, so every level
ends. The position `finish`, the length of the text, is where the end of the tokens is reported.
-/

namespace Fieldbook.Expr

/-- Reads an expression from the front of the tokens. -/
abbrev Parser := List Token → Except ParseError (Expr × List Token)

def ParseError.on (t : Token) (fault : ParseFault) : ParseError := ⟨t.position, fault⟩

/-! ## Chains of one operation -/

/-- The operands of `op operand op operand …`, as far as it goes. -/
def operandsAfter (op : Operation) (operand : Parser) (ts : List Token) :
    Except ParseError (List Expr × List Token) :=
  match ts with
  | [] => .ok ([], [])
  | t :: rest =>
    if t.isOperator op.spelling then
      match operand rest with
      | .error e => .error e
      | .ok (e, rest') =>
        if _ : rest'.length < (t :: rest).length then
          match operandsAfter op operand rest' with
          | .error e => .error e
          | .ok (more, left) => .ok (e :: more, left)
        else .ok ([e], rest')
    else .ok ([], t :: rest)
termination_by ts.length
decreasing_by all_goals assumption

/-- One operand, or one application to all operands of a chain. -/
def variadic (op : Operation) (operand : Parser) : Parser := fun ts => do
  let (first, rest) ← operand ts
  let (others, rest) ← operandsAfter op operand rest
  pure (if others.isEmpty then first else .apply op (first :: others), rest)

/-! ## Equality -/

/-- Goes on with `==` and `!=` after `left`. A run of `==` is one comparison of all its operands
with `left`; each `!=` compares two. -/
def equalityAfter (operand : Parser) (left : Expr) (ts : List Token) :
    Except ParseError (Expr × List Token) :=
  match ts with
  | [] => .ok (left, [])
  | t :: rest =>
    if t.isOperator "==" then
      match operandsAfter .equal operand (t :: rest) with
      | .error e => .error e
      | .ok (others, rest') =>
        if _ : rest'.length < (t :: rest).length then
          equalityAfter operand (.apply .equal (left :: others)) rest'
        else .ok (left, rest')
    else if t.isOperator "!=" then
      match operand rest with
      | .error e => .error e
      | .ok (right, rest') =>
        if _ : rest'.length < (t :: rest).length then
          equalityAfter operand (.apply .notEqual [left, right]) rest'
        else .ok (left, rest')
    else .ok (left, t :: rest)
termination_by ts.length
decreasing_by all_goals assumption

def equality (operand : Parser) : Parser := fun ts => do
  let (left, rest) ← operand ts
  equalityAfter operand left rest

/-! ## Arithmetic -/

/-- An operator token that no operation is spelled as may not stand between operands. -/
def checkOperator : List Token → Except ParseError Unit
  | [] => .ok ()
  | t :: _ =>
    if t.kind == .operator && (Operation.ofSpelling? t.text).isNone then
      .error (.on t (.unknownOperator t.text))
    else .ok ()

/-- Goes on with operations of `ops` after `left`, each on what stands before it and one operand. -/
def binaryAfter (ops : List Operation) (operand : Parser) (left : Expr) (ts : List Token) :
    Except ParseError (Expr × List Token) :=
  match checkOperator ts with
  | .error e => .error e
  | .ok () =>
    match ts with
    | [] => .ok (left, [])
    | t :: rest =>
      match ops.find? fun op => t.isOperator op.spelling with
      | none => .ok (left, t :: rest)
      | some op =>
        match operand rest with
        | .error e => .error e
        | .ok (right, rest') =>
          if _ : rest'.length < (t :: rest).length then
            binaryAfter ops operand (.apply op [left, right]) rest'
          else .ok (left, rest')
termination_by ts.length
decreasing_by all_goals assumption

def binary (ops : List Operation) (operand : Parser) : Parser := fun ts => do
  let (left, rest) ← operand ts
  binaryAfter ops operand left rest

/-! ## Signs -/

/-- Any number of signs before an operand. -/
def signed (operand : Parser) : Parser
  | [] => operand []
  | t :: rest =>
    if t.isOperator "!" then do
      let (e, rest) ← signed operand rest
      pure (.apply .not [e], rest)
    else if t.isOperator "-" then do
      let (e, rest) ← signed operand rest
      pure (.apply .negate [e], rest)
    else operand (t :: rest)

/-! ## Operands -/

/-- A closing parenthesis. -/
def parenEnd (finish : Nat) : List Token → Except ParseError (List Token)
  | [] => .error ⟨finish, .ended .parenEnd⟩
  | t :: rest =>
    if t.kind = .parenEnd then .ok rest else .error (.on t (.expected .parenEnd t.text))

/-- The further names of a field reference, each after a dot. -/
def namesAfter (finish : Nat) : List Token → Except ParseError (List String × List Token)
  | [] => .ok ([], [])
  | t :: rest =>
    if t.kind = .dot then
      match rest with
      | [] => .error ⟨finish, .ended .fieldName⟩
      | name :: rest =>
        if name.kind = .symbol then do
          let (names, rest) ← namesAfter finish rest
          pure (name.text :: names, rest)
        else .error (.on name (.expected .fieldName name.text))
    else .ok ([], t :: rest)

/-- Expressions with commas between them. -/
def argumentList (inner : Parser) (ts : List Token) :
    Except ParseError (List Expr × List Token) :=
  match inner ts with
  | .error e => .error e
  | .ok (e, rest) =>
    match rest with
    | [] => .ok ([e], [])
    | t :: rest' =>
      if t.kind = .comma then
        if _ : rest'.length < ts.length then
          match argumentList inner rest' with
          | .error e => .error e
          | .ok (more, left) => .ok (e :: more, left)
        else .ok ([e], rest')
      else .ok ([e], t :: rest')
termination_by ts.length
decreasing_by all_goals assumption

/-- The arguments of a call, which may be none, and its closing parenthesis. -/
def arguments (finish : Nat) (inner : Parser) (ts : List Token) :
    Except ParseError (List Expr × List Token) := do
  let (args, rest) ←
    match ts with
    | t :: _ => if t.kind = .parenEnd then .ok ([], ts) else argumentList inner ts
    | [] => argumentList inner ts
  let rest ← parenEnd finish rest
  pure (args, rest)

/-- A call, after its name and the opening parenthesis. -/
def call (finish : Nat) (inner : Parser) (name : Token) : Parser := fun ts =>
  match Operation.ofCallName? name.text with
  | none => .error (.on name (.unknownFunction name.text))
  | some op => do
    let (args, rest) ← arguments finish inner ts
    if op.accepts args.length then pure (.apply op args, rest)
    else .error (.on name (.argumentCount name.text args.length))

/-- A field reference, after its first name. -/
def reference (finish : Nat) (name : Token) : Parser := fun ts => do
  let (names, rest) ← namesAfter finish ts
  pure (.symbol (name.text :: names), rest)

/-- A constant, a field reference, a call, or an expression in parentheses. -/
def primary (finish : Nat) (inner : Parser) : Parser
  | [] => .error ⟨finish, .ended .operand⟩
  | t :: rest =>
    match t.kind with
    | .number =>
      match Double.readDigits? t.text.toList with
      | some x => .ok (.const (.number x), rest)
      | none => .error (.on t (.invalidNumber t.text))
    | .stringLiteral => .ok (.const (.text t.text), rest)
    | .booleanLiteral =>
      .ok (.const (.boolean (t.text.toList.map Char.toLower == "true".toList)), rest)
    | .parenStart => do
      let (e, rest) ← inner rest
      let rest ← parenEnd finish rest
      pure (e, rest)
    | .symbol =>
      match rest with
      | next :: after =>
        if next.kind = .parenStart then call finish inner t after else reference finish t rest
      | [] => reference finish t rest
    | _ => .error (.on t (.unexpected t.text))

/-! ## Expressions -/

/-- The levels above the operands. -/
def levels (operand : Parser) : Parser :=
  variadic .or (variadic .and (equality
    (binary [.sum, .minus] (binary [.multiply, .divide] (signed operand)))))

/-- An expression with parentheses and calls nested at most `depth` deep. -/
def expression (finish : Nat) : Nat → Parser
  | 0 => fun _ => .error ⟨finish, .ended .operand⟩
  | depth + 1 => levels (primary finish (expression finish depth))

/-- The expression that all of the tokens form. Nesting takes tokens, so it is never deeper than
there are tokens. -/
def parseTokens (finish : Nat) (ts : List Token) : Except ParseError Expr := do
  let (e, rest) ← expression finish (ts.length + 1) ts
  match rest with
  | [] => pure e
  | t :: _ => .error (.on t (.unexpected t.text))

/-- The expression that a text writes. White space between tokens has no meaning. -/
def parse (source : String) : Except ParseError Expr := do
  let ts ← tokens source
  parseTokens source.length (ts.filter fun t => t.kind != .whitespace)

end Fieldbook.Expr
