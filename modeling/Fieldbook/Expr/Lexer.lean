import Fieldbook.Expr.Token

/-!
# Expr/Lexer — from text to tokens

`scan` reads one token from the characters in front of it and returns what is left; `tokensFrom`
repeats it to the end of the text. Runs are as long as they can be: white space, numbers, operators
and symbols each take every character of their class that follows. White space is a token too.

The main facts are that a scan leaves less than it was given (`length_scan`), so that the repetition
ends, and that what a scan takes together with what it leaves is the text (`scan_append`).
-/

namespace Fieldbook.Expr

/-- A token as it is scanned: its kind, its text, the characters it took, and what is left. -/
structure Scan where
  kind : TokenKind
  text : List Char
  taken : List Char
  rest : List Char
  deriving DecidableEq

/-- A token of one character. -/
def scanOne (kind : TokenKind) (c : Char) (cs : List Char) : Scan := ⟨kind, [c], [c], cs⟩

/-- The longest run of a class, from its first character on. -/
def scanRun (kind : TokenKind) (p : Char → Bool) (c : Char) (cs : List Char) : Scan :=
  ⟨kind, c :: cs.takeWhile p, c :: cs.takeWhile p, cs.dropWhile p⟩

/-- A quoted token: its text ends before the next closing character. -/
def scanQuoted (kind : TokenKind) (closing : Char) (c : Char) (cs : List Char) :
    Except ParseFault Scan :=
  let text := cs.takeWhile (· != closing)
  match cs.dropWhile (· != closing) with
  | [] => .error (.unclosed closing)
  | last :: rest => .ok ⟨kind, text, c :: text ++ [last], rest⟩

/-- A symbol, or one of the words for the truth values. -/
def scanWord (c : Char) (cs : List Char) : Scan :=
  let s := scanRun .symbol isSymbolPart c cs
  if isBooleanWord s.text then { s with kind := .booleanLiteral } else s

/-- How a token goes on after its first character. -/
inductive Lead where
  | one (kind : TokenKind)
  | quoted (kind : TokenKind) (closing : Char)
  | run (kind : TokenKind) (p : Char → Bool)
  | word

/-- What the first character of a token decides; nothing for one that starts no token. -/
def lead (c : Char) : Option Lead :=
  if c = '(' then some (.one .parenStart)
  else if c = ')' then some (.one .parenEnd)
  else if c = '\x7b' then some (.quoted .symbol '\x7d')
  else if c = '[' then some (.quoted .symbol ']')
  else if c = ',' then some (.one .comma)
  else if c = '.' then some (.one .dot)
  else if c = '"' then some (.quoted .stringLiteral '"')
  else if c = '\'' then some (.quoted .stringLiteral '\'')
  else if Text.isBlank c then some (.run .whitespace Text.isBlank)
  else if isNumberPart c then some (.run .number isNumberPart)
  else if isOperatorPart c then some (.run .operator isOperatorPart)
  else if isSymbolStart c then some .word
  else none

/-- The token that starts with `c`. -/
def scan (c : Char) (cs : List Char) : Except ParseFault Scan :=
  match lead c with
  | some (.one kind) => .ok (scanOne kind c cs)
  | some (.quoted kind closing) => scanQuoted kind closing c cs
  | some (.run kind p) => .ok (scanRun kind p c cs)
  | some .word => .ok (scanWord c cs)
  | none => .error (.unsupported c)

/-! ## What a scan takes and leaves -/

/-- The ways in which a token can be scanned. -/
theorem scan_shape {c : Char} {cs : List Char} {s : Scan} (h : scan c cs = .ok s) :
    (∃ kind, s = scanOne kind c cs) ∨ (∃ kind closing, scanQuoted kind closing c cs = .ok s) ∨
      (∃ kind p, s = scanRun kind p c cs) ∨ s = scanWord c cs := by
  unfold scan at h
  split at h
  · injection h with h
    exact Or.inl ⟨_, h.symm⟩
  · exact Or.inr (Or.inl ⟨_, _, h⟩)
  · injection h with h
    exact Or.inr (Or.inr (Or.inl ⟨_, _, h.symm⟩))
  · injection h with h
    exact Or.inr (Or.inr (Or.inr h.symm))
  · exact nomatch h

theorem scanQuoted_append {kind : TokenKind} {closing c : Char} {cs : List Char} {s : Scan}
    (h : scanQuoted kind closing c cs = .ok s) : s.taken ++ s.rest = c :: cs := by
  unfold scanQuoted at h
  split at h
  · exact nomatch h
  · next last rest hd =>
    injection h with h
    subst h
    have := List.takeWhile_append_dropWhile (p := (· != closing)) (l := cs)
    rw [hd] at this
    simpa using this

theorem scanQuoted_taken_ne_nil {kind : TokenKind} {closing c : Char} {cs : List Char} {s : Scan}
    (h : scanQuoted kind closing c cs = .ok s) : s.taken ≠ [] := by
  unfold scanQuoted at h
  split at h
  · exact nomatch h
  · injection h with h
    subst h
    simp

theorem scanWord_taken (c : Char) (cs : List Char) :
    (scanWord c cs).taken = (scanRun .symbol isSymbolPart c cs).taken := by
  unfold scanWord
  simp only
  split <;> rfl

theorem scanWord_rest (c : Char) (cs : List Char) :
    (scanWord c cs).rest = (scanRun .symbol isSymbolPart c cs).rest := by
  unfold scanWord
  simp only
  split <;> rfl

/-- **What a scan takes and what it leaves is the text.** -/
theorem scan_append {c : Char} {cs : List Char} {s : Scan} (h : scan c cs = .ok s) :
    s.taken ++ s.rest = c :: cs := by
  rcases scan_shape h with ⟨_, rfl⟩ | ⟨_, _, h⟩ | ⟨_, _, rfl⟩ | rfl
  · rfl
  · exact scanQuoted_append h
  · simp [scanRun]
  · rw [scanWord_taken, scanWord_rest]
    simp [scanRun]

theorem scan_taken_ne_nil {c : Char} {cs : List Char} {s : Scan} (h : scan c cs = .ok s) :
    s.taken ≠ [] := by
  rcases scan_shape h with ⟨_, rfl⟩ | ⟨_, _, h⟩ | ⟨_, _, rfl⟩ | rfl
  · simp [scanOne]
  · exact scanQuoted_taken_ne_nil h
  · simp [scanRun]
  · rw [scanWord_taken]
    simp [scanRun]

/-- **A scan leaves less than it was given.** -/
theorem length_scan {c : Char} {cs : List Char} {s : Scan} (h : scan c cs = .ok s) :
    s.rest.length < (c :: cs).length := by
  have ha := congrArg List.length (scan_append h)
  have hn := List.length_pos_iff.mpr (scan_taken_ne_nil h)
  rw [List.length_append] at ha
  omega

/-! ## All tokens -/

/-- The tokens of the characters from position `at` on. -/
def tokensFrom (start : Nat) (cs : List Char) : Except ParseError (List Token) :=
  match cs with
  | [] => .ok []
  | c :: rest =>
    match h : scan c rest with
    | .error fault => .error ⟨start, fault⟩
    | .ok s =>
      have : s.rest.length < rest.length + 1 := length_scan h
      match tokensFrom (start + s.taken.length) s.rest with
      | .error e => .error e
      | .ok more => .ok (⟨s.kind, start, String.ofList s.text⟩ :: more)
termination_by cs.length

/-- The tokens of a text, white space included. -/
def tokens (source : String) : Except ParseError (List Token) := tokensFrom 0 source.toList

end Fieldbook.Expr
