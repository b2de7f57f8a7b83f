import Fieldbook.Expr.Lexer
import Fieldbook.Proofs.Text.Digits

/-!
# Proofs/Expr/Lexing — the tokens of a text put together from parts

A token goes on as far as the characters of its class do.  So a part of a text has the tokens that it
has by itself if what follows cannot go on its last token, and then the tokens of the text are those
of the part before those of the rest (`Lexed.append`).  What is kept of the tokens of a part is a
property of those that are not white space, as their positions are of no account.

The classes of characters that start tokens are disjoint: beyond ASCII that is a fact about the
tables, which are compared range by range (`inRanges_apart`).
-/

namespace Fieldbook

/-! ## Classes of characters -/

namespace Text

/-- Ranges of which none meets one of the others. -/
def rangesApart (rs ss : List (Nat × Nat)) : Bool :=
  rs.all fun r => ss.all fun s => r.2 < s.1 || s.2 < r.1

theorem inRanges_apart {rs ss : List (Nat × Nat)} {c : Char} (h : rangesApart rs ss)
    (hr : inRanges rs c) : inRanges ss c = false := by
  obtain ⟨r, hr, hc⟩ := List.any_eq_true.mp hr
  refine Bool.eq_false_iff.mpr fun hs => ?_
  obtain ⟨s, hs, hc'⟩ := List.any_eq_true.mp hs
  have hrs := List.all_eq_true.mp (List.all_eq_true.mp h r hr) s hs
  simp only [Bool.and_eq_true, Bool.or_eq_true, decide_eq_true_eq] at hc hc' hrs
  omega

theorem rangesApart_alphabetic_blank : rangesApart alphabeticRanges blankRanges := by
  decide +kernel

end Text

namespace Expr

/-- The characters that are tokens by themselves or open a quoted one. -/
def marks : List Char := ['(', ')', '\x7b', '[', ',', '.', '"', '\'']

variable {c d : Char} {cs rest text : List Char}

/-- A character beyond ASCII is none of a list of ASCII characters. -/
theorem not_mem_of_le {l : List Char} (hl : l.all fun d => d.toNat < 128) (hc : ¬c.toNat < 128) :
    c ∉ l := fun hm => hc (by simpa using List.all_eq_true.mp hl c hm)

/-- **A letter starts no token but a word.** -/
theorem of_isSymbolStart (h : isSymbolStart c) : c ∉ marks ∧ Text.isBlank c = false ∧
    isNumberPart c = false ∧ isOperatorPart c = false := by
  by_cases hc : c.toNat < 128
  · revert h
    refine Text.of_ascii (P := fun c => isSymbolStart c = true → c ∉ marks ∧ Text.isBlank c = false ∧
      isNumberPart c = false ∧ isOperatorPart c = false) ?_ hc
    decide +kernel
  · have hle : 128 ≤ c.toNat := Nat.le_of_not_lt hc
    have halpha : Text.inRanges Text.alphabeticRanges c := by
      simp only [isSymbolStart, Text.isAlphabetic, Text.inClass_of_le hle, Bool.or_eq_true,
        beq_iff_eq] at h
      exact h.resolve_left fun heq => hc (by rw [heq]; decide)
    refine ⟨not_mem_of_le (by decide) hc, ?_, ?_, ?_⟩
    · rw [Text.isBlank, Text.inClass_of_le hle]
      exact Text.inRanges_apart Text.rangesApart_alphabetic_blank halpha
    · refine Bool.eq_false_iff.mpr fun hn => ?_
      simp only [isNumberPart, Bool.or_eq_true, beq_iff_eq] at hn
      rcases hn with hn | rfl
      · exact hc (Text.toNat_of_isDigit hn)
      · exact hc (by decide)
    · refine Bool.eq_false_iff.mpr fun hop => ?_
      exact not_mem_of_le (by decide) hc (List.contains_iff_mem.mp hop)

theorem lead_of_isSymbolStart (h : isSymbolStart c) : lead c = some .word := by
  obtain ⟨hmarks, hblank, hnumber, hoperator⟩ := of_isSymbolStart h
  simp only [marks, List.mem_cons, List.not_mem_nil, or_false, not_or] at hmarks
  simp [lead, hmarks, hblank, hnumber, hoperator, h]

theorem not_mem_marks_of_isDigit (h : c.isDigit) : c ∉ marks := by
  have hascii : c.toNat < 128 := Text.toNat_of_isDigit h
  revert h
  refine Text.of_ascii (P := fun c => c.isDigit = true → c ∉ marks) ?_ hascii
  decide +kernel

theorem lead_of_isDigit (h : c.isDigit) : lead c = some (.run .number isNumberPart) := by
  have hmarks : c ∉ marks := not_mem_marks_of_isDigit h
  have hblank : Text.isBlank c = false := Text.isBlank_of_isDigit h
  have hnumber : isNumberPart c = true := by simp [isNumberPart, h]
  simp only [marks, List.mem_cons, List.not_mem_nil, or_false, not_or] at hmarks
  simp [lead, hmarks, hblank, hnumber]

/-! ## One token -/

/-- A run of a class ends where another character stands. -/
theorem scanRun_append {kind : TokenKind} {p : Char → Bool} (hcs : ∀ d ∈ cs, p d)
    (hrest : ∀ d ∈ rest.head?, p d = false) :
    scanRun kind p c (cs ++ rest) = ⟨kind, c :: cs, c :: cs, rest⟩ := by
  have htake : rest.takeWhile p = [] := by
    match rest with
    | [] => rfl
    | d :: _ => simp [List.takeWhile, hrest d rfl]
  have hdrop : rest.dropWhile p = rest := by
    match rest with
    | [] => rfl
    | d :: _ => simp [List.dropWhile, hrest d rfl]
  rw [scanRun, List.takeWhile_append_of_pos hcs, List.dropWhile_append_of_pos hcs, htake, hdrop,
    List.append_nil]

theorem scanQuoted_of_not_mem {kind : TokenKind} {closing : Char} (h : closing ∉ text) :
    scanQuoted kind closing c (text ++ closing :: rest) =
      .ok ⟨kind, text, c :: (text ++ [closing]), rest⟩ := by
  have htext : ∀ d ∈ text, (d != closing) = true := fun d hd => by
    simpa using fun heq : d = closing => h (heq ▸ hd)
  simp [scanQuoted, List.takeWhile_append_of_pos htext, List.dropWhile_append_of_pos htext]

theorem scan_number (hc : c.isDigit) (hcs : ∀ d ∈ cs, isNumberPart d)
    (hrest : ∀ d ∈ rest.head?, isNumberPart d = false) :
    scan c (cs ++ rest) = .ok ⟨.number, c :: cs, c :: cs, rest⟩ := by
  simp [scan, lead_of_isDigit hc, scanRun_append hcs hrest]

/-- The kind of a word. -/
def wordKind (cs : List Char) : TokenKind := if isBooleanWord cs then .booleanLiteral else .symbol

theorem scan_word (hc : isSymbolStart c) (hcs : ∀ d ∈ cs, isSymbolPart d)
    (hrest : ∀ d ∈ rest.head?, isSymbolPart d = false) :
    scan c (cs ++ rest) = .ok ⟨wordKind (c :: cs), c :: cs, c :: cs, rest⟩ := by
  have hword : scanWord c (cs ++ rest) = ⟨wordKind (c :: cs), c :: cs, c :: cs, rest⟩ := by
    rw [scanWord, scanRun_append hcs hrest, wordKind]
    split <;> rfl
  simp [scan, lead_of_isSymbolStart hc, hword]

/-! ## The tokens of a part -/

/-- Where a text goes on with `rest`, its part `cs` before has tokens of its own, and those that are
not white space satisfy `P`. -/
def Lexed (cs rest : List Char) (P : List Token → Prop) : Prop :=
  ∀ start, ∃ ts, tokensFrom start (cs ++ rest) =
    (tokensFrom (start + cs.length) rest).map (ts ++ ·) ∧ P (ts.filter fun t => t.kind != .whitespace)

theorem tokensFrom_cons {start : Nat} {s : Scan} (h : scan c cs = .ok s) :
    tokensFrom start (c :: cs) = (tokensFrom (start + s.taken.length) s.rest).map
      (⟨s.kind, start, String.ofList s.text⟩ :: ·) := by
  rw [tokensFrom]
  split
  · next h' => exact absurd (h.symm.trans h') (by simp)
  · next s' h' =>
    obtain rfl : s = s' := Except.ok.inj (h.symm.trans h')
    cases tokensFrom (start + s.taken.length) s.rest <;> rfl

variable {P Q : List Token → Prop}

theorem Lexed.mono (h : Lexed cs rest P) (hPQ : ∀ ts, P ts → Q ts) : Lexed cs rest Q :=
  fun start => (h start).imp fun _ h => ⟨h.1, hPQ _ h.2⟩

/-- **The tokens of two parts** are those of the one before those of the other. -/
theorem Lexed.append {cs' : List Char} (h : Lexed cs (cs' ++ rest) P) (h' : Lexed cs' rest Q) :
    Lexed (cs ++ cs') rest fun ts => ∃ us vs, ts = us ++ vs ∧ P us ∧ Q vs := by
  intro start
  obtain ⟨us, hus, hP⟩ := h start
  obtain ⟨vs, hvs, hQ⟩ := h' (start + cs.length)
  refine ⟨us ++ vs, ?_, _, _, List.filter_append .., hP, hQ⟩
  rw [List.append_assoc, hus, hvs, List.length_append, ← Nat.add_assoc]
  cases tokensFrom (start + cs.length + cs'.length) rest <;> simp [Except.map]

theorem lexed_nil : Lexed [] rest (· = []) := by
  intro start
  refine ⟨[], ?_, rfl⟩
  cases h : tokensFrom start rest <;> simp [Except.map, h]

/-- One token that is not white space. -/
def IsToken (kind : TokenKind) (text : List Char) (ts : List Token) : Prop :=
  ∃ t, ts = [t] ∧ t.kind = kind ∧ t.text.toList = text

theorem lexed_token {kind : TokenKind}
    (h : scan c (cs ++ rest) = .ok ⟨kind, text, c :: cs, rest⟩) (hkind : kind ≠ .whitespace) :
    Lexed (c :: cs) rest (IsToken kind text) := by
  intro start
  refine ⟨[⟨kind, start, String.ofList text⟩], ?_, ⟨kind, start, String.ofList text⟩, ?_, rfl, ?_⟩
  · rw [List.cons_append, tokensFrom_cons h]
    rfl
  · simp [hkind]
  · simp

/-- A mark is a token by itself, whatever follows. -/
theorem lexed_mark {kind : TokenKind} (h : lead c = some (.one kind)) (hkind : kind ≠ .whitespace) :
    Lexed [c] rest (IsToken kind [c]) := by
  have hscan : scan c rest = .ok ⟨kind, [c], [c], rest⟩ := by simp [scan, h, scanOne]
  exact lexed_token hscan hkind

/-- A blank between tokens leaves none. -/
theorem lexed_blank (h : ∀ d ∈ rest.head?, Text.isBlank d = false) : Lexed [' '] rest (· = []) := by
  intro start
  have hnil : ∀ d ∈ ([] : List Char), Text.isBlank d := fun _ hd => nomatch hd
  have hscan : scan ' ' rest = .ok ⟨.whitespace, [' '], [' '], rest⟩ :=
    congrArg Except.ok (scanRun_append hnil h)
  refine ⟨[⟨.whitespace, start, " "⟩], ?_, rfl⟩
  rw [List.singleton_append, tokensFrom_cons hscan]
  rfl

end Expr

end Fieldbook
