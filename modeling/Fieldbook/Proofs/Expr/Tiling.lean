import Fieldbook.Proofs.Expr.Lexing
import Mathlib.Data.List.Forall2
import Mathlib.Data.List.TakeWhile

/-!
# Proofs/Expr/Tiling — tokens cover the text

The tokens of a text cut it into slices, one behind the other with nothing between them.  A token
that is not quoted is its slice, a quoted one stands between the delimiters of it (`Covers`).

A scan looks at its own slice, and beyond it only to see that the token does not go on there
(`scan_exchange`).  So what stands before the place where a text cannot be scanned has its tokens by
itself (`Scans.exchange`), and white space between tokens leaves the others as they are
(`says_spaced`).
-/

namespace Fieldbook

namespace Text

theorem rangesApart_numeric_blank : rangesApart numericRanges blankRanges := by
  decide +kernel

end Text

namespace Expr

variable {c d : Char} {cs rest rest' text : List Char} {s : Scan} {l : Lead} {kind : TokenKind}

/-! ## How tokens start -/

/-- The marks that are tokens by themselves. -/
def lone : List (Char × TokenKind) :=
  [('(', .parenStart), (')', .parenEnd), (',', .comma), ('.', .dot)]

/-- Opening and closing delimiters, and the kind of what stands between them. -/
def quotes : List (Char × Char × TokenKind) :=
  [('\x7b', '\x7d', .symbol), ('[', ']', .symbol), ('"', '"', .stringLiteral),
    ('\'', '\'', .stringLiteral)]

/-- A character that is no mark and in none of the classes that tokens start with. -/
def StartsNothing (c : Char) : Prop :=
  c ∉ marks ∧ Text.isBlank c = false ∧ isNumberPart c = false ∧ isOperatorPart c = false ∧
    isSymbolStart c = false

/-- What the first character of a token decides. -/
inductive Starts (c : Char) : Lead → Prop
  | mark {kind : TokenKind} : (c, kind) ∈ lone → Starts c (.one kind)
  | quote {closing : Char} {kind : TokenKind} :
    (c, closing, kind) ∈ quotes → Starts c (.quoted kind closing)
  | blank : Text.isBlank c → Starts c (.run .whitespace Text.isBlank)
  | number : isNumberPart c → Starts c (.run .number isNumberPart)
  | operator : isOperatorPart c → Starts c (.run .operator isOperatorPart)
  | word : isSymbolStart c → Starts c .word

theorem ite_eq_some {α : Type} {p : Prop} [Decidable p] {a b : α} {x : Option α} :
    (if p then some a else x) = some b ↔ p ∧ a = b ∨ ¬p ∧ x = some b := by
  split <;> simp_all

theorem ite_eq_none {α : Type} {p : Prop} [Decidable p] {a : α} {x : Option α} :
    (if p then some a else x) = none ↔ ¬p ∧ x = none := by
  split <;> simp_all

theorem starts_of_lead (h : lead c = some l) : Starts c l := by
  simp only [lead, ite_eq_some] at h
  obtain ⟨rfl, rfl⟩ | ⟨-, ⟨rfl, rfl⟩ | ⟨-, ⟨rfl, rfl⟩ | ⟨-, ⟨rfl, rfl⟩ | ⟨-, ⟨rfl, rfl⟩ | ⟨-, h⟩⟩⟩⟩⟩
    := h
  · exact .mark (by decide)
  · exact .mark (by decide)
  · exact .quote (by decide)
  · exact .quote (by decide)
  · exact .mark (by decide)
  obtain ⟨rfl, rfl⟩ | ⟨-, ⟨rfl, rfl⟩ | ⟨-, ⟨rfl, rfl⟩ | ⟨-, ⟨h, rfl⟩ | ⟨-, ⟨h, rfl⟩ | ⟨-, ⟨h, rfl⟩ |
    ⟨-, h⟩⟩⟩⟩⟩⟩ := h
  · exact .mark (by decide)
  · exact .quote (by decide)
  · exact .quote (by decide)
  · exact .blank h
  · exact .number h
  · exact .operator h
  · obtain ⟨h, rfl⟩ | ⟨-, h⟩ := h
    · exact .word h
    · cases h

theorem startsNothing_of_lead (h : lead c = none) : StartsNothing c := by
  simp only [lead, ite_eq_none, Bool.not_eq_true] at h
  obtain ⟨h1, h2, h3, h4, h5, h6, h7, h8, hblank, hnumber, hoperator, hsymbol, -⟩ := h
  refine ⟨?_, hblank, hnumber, hoperator, hsymbol⟩
  simp [marks, h1, h2, h3, h4, h5, h6, h7, h8]

/-! ## Where tokens end -/

/-- Whether a token that starts so goes on with a character. -/
def Lead.goesOn : Lead → Char → Bool
  | .one _, _ | .quoted _ _, _ => false
  | .run _ p, c => p c
  | .word, c => isSymbolPart c

/-- Text that goes on no token. -/
def Halts (rest : List Char) : Prop :=
  ∀ d ∈ rest.head?, ∀ c l, lead c = some l → l.goesOn d = false

theorem halts_nil : Halts [] := fun _ h => nomatch h

/-- White space is in no other class. -/
theorem of_isBlank (h : Text.isBlank d) :
    isNumberPart d = false ∧ isOperatorPart d = false ∧ isSymbolPart d = false := by
  by_cases hd : d.toNat < 128
  · revert h
    refine Text.of_ascii (P := fun d => Text.isBlank d = true → isNumberPart d = false ∧
      isOperatorPart d = false ∧ isSymbolPart d = false) ?_ hd
    decide +kernel
  · have hle : 128 ≤ d.toNat := Nat.le_of_not_lt hd
    have hapart : ∀ {rs : List (Nat × Nat)}, Text.rangesApart rs Text.blankRanges →
        Text.inRanges rs d = false := fun {rs} hrs => by
      refine Bool.eq_false_iff.mpr fun hr => ?_
      have hblank := Text.inRanges_apart hrs hr
      rw [Text.isBlank, Text.inClass_of_le hle, hblank] at h
      exact Bool.false_ne_true h
    refine ⟨?_, ?_, ?_⟩
    · refine Bool.eq_false_iff.mpr fun hn => ?_
      simp only [isNumberPart, Bool.or_eq_true, beq_iff_eq] at hn
      rcases hn with hn | rfl
      · exact hd (Text.toNat_of_isDigit hn)
      · exact hd (by decide)
    · refine Bool.eq_false_iff.mpr fun hop => ?_
      exact not_mem_of_le (by decide) hd (List.contains_iff_mem.mp hop)
    · have halpha : Text.isAlphabetic d = false := by
        rw [Text.isAlphabetic, Text.inClass_of_le hle]
        exact hapart Text.rangesApart_alphabetic_blank
      have hnum : Text.isNumeric d = false := by
        rw [Text.isNumeric, Text.inClass_of_le hle]
        exact hapart Text.rangesApart_numeric_blank
      have hline : d ≠ '_' := by
        rintro rfl
        exact hd (by decide)
      simp [isSymbolPart, halpha, hnum, hline]

/-- White space goes on white space only. -/
theorem eq_of_goesOn_blank (hl : lead c = some l) (hd : Text.isBlank d) (h : l.goesOn d = true) :
    l = .run .whitespace Text.isBlank := by
  obtain ⟨hnumber, hoperator, hsymbol⟩ := of_isBlank hd
  cases starts_of_lead hl with
  | mark _ | quote _ => exact nomatch h
  | blank _ => rfl
  | number _ => exact absurd h (by simp [Lead.goesOn, hnumber])
  | operator _ => exact absurd h (by simp [Lead.goesOn, hoperator])
  | word _ => exact absurd h (by simp [Lead.goesOn, hsymbol])

/-! ## One scan -/

/-- A scan, by what stands in front: all of the characters that the token goes on with, and then
what is left. -/
inductive Scanned (c : Char) : List Char → Scan → Prop
  | mark {kind : TokenKind} {rest : List Char} : lead c = some (.one kind) →
    Scanned c rest ⟨kind, [c], [c], rest⟩
  | quoted {kind : TokenKind} {closing : Char} {text rest : List Char} :
    lead c = some (.quoted kind closing) → closing ∉ text →
      Scanned c (text ++ closing :: rest) ⟨kind, text, c :: (text ++ [closing]), rest⟩
  | run {kind : TokenKind} {p : Char → Bool} {cs rest : List Char} :
    lead c = some (.run kind p) → (∀ d ∈ cs, p d) → (∀ d ∈ rest.head?, p d = false) →
      Scanned c (cs ++ rest) ⟨kind, c :: cs, c :: cs, rest⟩
  | word {cs rest : List Char} : lead c = some .word → (∀ d ∈ cs, isSymbolPart d) →
    (∀ d ∈ rest.head?, isSymbolPart d = false) →
      Scanned c (cs ++ rest) ⟨wordKind (c :: cs), c :: cs, c :: cs, rest⟩

theorem scan_of_scanned (h : Scanned c cs s) : scan c cs = .ok s := by
  cases h with
  | mark hl => simp [scan, hl, scanOne]
  | quoted hl htext => simp [scan, hl, scanQuoted_of_not_mem htext]
  | run hl hcs hrest => simp [scan, hl, scanRun_append hcs hrest]
  | word hl hcs hrest => exact scan_word (by cases starts_of_lead hl; assumption) hcs hrest

/-- The longest run of a class, and what does not go on with it. -/
theorem exists_run (p : Char → Bool) (cs : List Char) :
    ∃ run rest, cs = run ++ rest ∧ (∀ d ∈ run, p d) ∧ ∀ d ∈ rest.head?, p d = false := by
  refine ⟨cs.takeWhile p, cs.dropWhile p, List.takeWhile_append_dropWhile.symm,
    fun _ hd => List.mem_takeWhile_imp hd, fun d hd => ?_⟩
  have hhead := List.head?_dropWhile_not p cs
  rw [Option.mem_def.mp hd] at hhead
  simpa using hhead

/-- Why a character cannot be scanned. -/
inductive Unscanned (c : Char) (cs : List Char) : ParseFault → Prop
  | closing {closing : Char} {kind : TokenKind} : (c, closing, kind) ∈ quotes → closing ∉ cs →
    Unscanned c cs (.unclosed closing)
  | nothing : StartsNothing c → Unscanned c cs (.unsupported c)

/-- **Every character is scanned, or cannot be.** -/
theorem scanned_or_unscanned (c : Char) (cs : List Char) :
    (∃ s, Scanned c cs s) ∨ ∃ fault, scan c cs = .error fault ∧ Unscanned c cs fault := by
  cases hl : lead c with
  | none => exact .inr ⟨_, by simp [scan, hl], .nothing (startsNothing_of_lead hl)⟩
  | some l =>
    cases l with
    | one kind => exact .inl ⟨_, .mark hl⟩
    | quoted kind closing =>
      by_cases hmem : closing ∈ cs
      · obtain ⟨text, rest, rfl, htext⟩ := List.eq_append_cons_of_mem hmem
        exact .inl ⟨_, .quoted hl htext⟩
      · have hdrop : cs.dropWhile (· != closing) = [] := by
          refine List.dropWhile_eq_nil_iff.mpr fun d hd => ?_
          simpa using fun heq : d = closing => hmem (heq ▸ hd)
        have hquote : (c, closing, kind) ∈ quotes := by cases starts_of_lead hl; assumption
        exact .inr ⟨_, by simp [scan, hl, scanQuoted, hdrop], .closing hquote hmem⟩
    | run kind p =>
      obtain ⟨run, rest, rfl, hrun, hrest⟩ := exists_run p cs
      exact .inl ⟨_, .run hl hrun hrest⟩
    | word =>
      obtain ⟨run, rest, rfl, hrun, hrest⟩ := exists_run isSymbolPart cs
      exact .inl ⟨_, .word hl hrun hrest⟩

theorem scanned_of_scan (h : scan c cs = .ok s) : Scanned c cs s := by
  obtain ⟨s', hs'⟩ | ⟨fault, hfault, -⟩ := scanned_or_unscanned c cs
  · obtain rfl := Except.ok.inj (h.symm.trans (scan_of_scanned hs'))
    exact hs'
  · exact nomatch h.symm.trans hfault

/-- **A scan takes its slice,** whatever follows that goes on the token as little. -/
theorem scan_exchange (h : scan c cs = .ok s) :
    ∃ body, s.taken = c :: body ∧ cs = body ++ s.rest ∧ ∀ rest',
      (∀ d ∈ rest'.head?, ∀ l, lead c = some l → l.goesOn d = false) →
        scan c (body ++ rest') = .ok { s with rest := rest' } := by
  cases scanned_of_scan h with
  | mark hl => exact ⟨[], rfl, rfl, fun rest' _ => scan_of_scanned (.mark hl)⟩
  | @quoted kind closing text rest hl htext =>
    refine ⟨text ++ [closing], rfl, by simp, fun rest' _ => ?_⟩
    rw [List.append_assoc]
    exact scan_of_scanned (.quoted hl htext)
  | run hl hcs hrest =>
    exact ⟨_, rfl, rfl, fun rest' hrest' => scan_of_scanned (.run hl hcs fun d hd => hrest' d hd _ hl)⟩
  | word hl hcs hrest =>
    exact ⟨_, rfl, rfl, fun rest' hrest' => scan_of_scanned (.word hl hcs fun d hd => hrest' d hd _ hl)⟩

/-- A token does not go on with what its scan leaves. -/
theorem not_goesOn_of_scan (h : scan c cs = .ok s) :
    ∀ d ∈ s.rest.head?, ∀ l, lead c = some l → l.goesOn d = false := by
  intro d hd l hl
  cases scanned_of_scan h with
  | mark hl' | quoted hl' _ | run hl' _ hrest | word hl' _ hrest =>
    obtain rfl := Option.some.inj (hl.symm.trans hl')
    first | rfl | exact hrest d hd

/-! ## Slices of tokens -/

/-- What an unquoted token of a kind is made of. -/
def TokenKind.Spells : TokenKind → List Char → Prop
  | .parenStart, cs => cs = ['(']
  | .parenEnd, cs => cs = [')']
  | .comma, cs => cs = [',']
  | .dot, cs => cs = ['.']
  | .symbol, cs => (∀ d ∈ cs, isSymbolPart d) ∧ isBooleanWord cs = false
  | .stringLiteral, _ => False
  | .whitespace, cs => ∀ d ∈ cs, Text.isBlank d
  | .number, cs => ∀ d ∈ cs, isNumberPart d
  | .operator, cs => ∀ d ∈ cs, isOperatorPart d
  | .booleanLiteral, cs => isBooleanWord cs

/-- The slice of a text that a token of some kind and text covers: the text, or that between
delimiters. -/
inductive Covers (kind : TokenKind) : (text slice : List Char) → Prop
  | plain {slice : List Char} : kind.Spells slice → (∀ c ∈ slice.head?, ∀ q ∈ quotes, c ≠ q.1) →
    Covers kind slice slice
  | quoted {opening closing : Char} {text : List Char} : (opening, closing, kind) ∈ quotes →
    closing ∉ text → Covers kind text (opening :: (text ++ [closing]))

/-- No class has an opening delimiter. -/
theorem of_mem_quotes {q : Char × Char × TokenKind} (hq : q ∈ quotes) :
    Text.isBlank q.1 = false ∧ isNumberPart q.1 = false ∧ isOperatorPart q.1 = false ∧
      isSymbolPart q.1 = false := by
  revert q
  decide

theorem spells_lone (h : (c, kind) ∈ lone) : kind.Spells [c] ∧ ∀ q ∈ quotes, c ≠ q.1 := by
  simp only [lone, List.mem_cons, Prod.mk.injEq, List.not_mem_nil, or_false] at h
  obtain ⟨rfl, rfl⟩ | ⟨rfl, rfl⟩ | ⟨rfl, rfl⟩ | ⟨rfl, rfl⟩ := h <;> exact ⟨rfl, by decide⟩

theorem spells_word (h : ∀ d ∈ cs, isSymbolPart d) : (wordKind cs).Spells cs := by
  rw [wordKind]
  split
  · next hword => exact hword
  · next hword => exact ⟨h, Bool.eq_false_iff.mpr hword⟩

theorem covers_of_scan (h : scan c cs = .ok s) : Covers s.kind s.text s.taken := by
  -- no class has an opening delimiter, so no token of a class starts with one
  have hclass {p : Char → Bool} (hp : ∀ q ∈ quotes, p q.1 = false) (hc : p c) :
      ∀ q ∈ quotes, c ≠ q.1 := by
    rintro q hq rfl
    exact absurd hc (by simp [hp q hq])
  have hall {p : Char → Bool} {cs : List Char} (hc : p c) (hcs : ∀ d ∈ cs, p d) :
      ∀ d ∈ c :: cs, p d := List.forall_mem_cons.mpr ⟨hc, hcs⟩
  cases scanned_of_scan h with
  | mark hl =>
    cases starts_of_lead hl with
    | mark hkind =>
      obtain ⟨hspells, hhead⟩ := spells_lone hkind
      exact .plain hspells (by rintro _ ⟨⟩; exact hhead)
  | quoted hl htext =>
    cases starts_of_lead hl with
    | quote hquote => exact .quoted hquote htext
  | run hl hcs _ =>
    cases starts_of_lead hl with
    | blank hc =>
      exact .plain (hall hc hcs)
        (by rintro _ ⟨⟩; exact hclass (fun q hq => (of_mem_quotes hq).1) hc)
    | number hc =>
      exact .plain (hall hc hcs)
        (by rintro _ ⟨⟩; exact hclass (fun q hq => (of_mem_quotes hq).2.1) hc)
    | operator hc =>
      exact .plain (hall hc hcs)
        (by rintro _ ⟨⟩; exact hclass (fun q hq => (of_mem_quotes hq).2.2.1) hc)
  | word hl hcs _ =>
    cases starts_of_lead hl with
    | word hc =>
      have hpart : isSymbolPart c := isSymbolPart_of_isSymbolStart hc
      exact .plain (spells_word (hall hpart hcs))
        (by rintro _ ⟨⟩; exact hclass (fun q hq => (of_mem_quotes hq).2.2.2) hpart)

/-! ## All scans of a text -/

/-- A token without its place, and the slice that it covers. -/
structure Piece where
  kind : TokenKind
  text : List Char
  slice : List Char

def Scan.piece (s : Scan) : Piece := ⟨s.kind, s.text, s.taken⟩

/-- The pieces that are scanned from the front of a text, and what is left of it. -/
inductive Scans : List Char → List Piece → List Char → Prop
  | nil {rest : List Char} : Scans rest [] rest
  | cons {c : Char} {cs rest : List Char} {s : Scan} {ps : List Piece} :
    scan c cs = .ok s → Scans s.rest ps rest → Scans (c :: cs) (s.piece :: ps) rest

/-- The text that pieces cover. -/
def covered (ps : List Piece) : List Char := ps.flatMap (·.slice)

/-- The tokens of pieces that start at a position. -/
def tokensAt (start : Nat) : List Piece → List Token
  | [] => []
  | p :: ps => ⟨p.kind, start, String.ofList p.text⟩ :: tokensAt (start + p.slice.length) ps

variable {p : Piece} {ps : List Piece} {start : Nat}

/-- **Nothing is lost** between the pieces. -/
theorem Scans.append (h : Scans cs ps rest) : cs = covered ps ++ rest := by
  induction h with
  | nil => rfl
  | @cons c cs rest s ps hscan _ ih =>
    rw [← scan_append hscan, ih, covered, covered, List.flatMap_cons, List.append_assoc]
    rfl

theorem Scans.slice_ne_nil (h : Scans cs ps rest) : ∀ p ∈ ps, p.slice ≠ [] := by
  induction h with
  | nil => exact fun _ h => nomatch h
  | cons hscan _ ih => exact List.forall_mem_cons.mpr ⟨scan_taken_ne_nil hscan, ih⟩

theorem Scans.covers (h : Scans cs ps rest) : ∀ p ∈ ps, Covers p.kind p.text p.slice := by
  induction h with
  | nil => exact fun _ h => nomatch h
  | cons hscan _ ih => exact List.forall_mem_cons.mpr ⟨covers_of_scan hscan, ih⟩

/-- A text is scanned to its end, or to a character that cannot be scanned. -/
theorem exists_scans (cs : List Char) : ∃ ps rest, Scans cs ps rest ∧
    (rest = [] ∨ ∃ c cs' fault, rest = c :: cs' ∧ scan c cs' = .error fault) := by
  induction hn : cs.length using Nat.strongRecOn generalizing cs with
  | ind n ih =>
    subst hn
    match cs with
    | [] => exact ⟨[], [], .nil, .inl rfl⟩
    | c :: cs =>
      cases hscan : scan c cs with
      | error fault => exact ⟨[], c :: cs, .nil, .inr ⟨c, cs, fault, rfl, hscan⟩⟩
      | ok s =>
        obtain ⟨ps, rest, hps, hrest⟩ := ih _ (length_scan hscan) s.rest rfl
        exact ⟨s.piece :: ps, rest, .cons hscan hps, hrest⟩

/-- The tokens of a text are those of its pieces, before those of what is left. -/
theorem Scans.tokensFrom_eq (h : Scans cs ps rest) (start : Nat) :
    tokensFrom start cs =
      (tokensFrom (start + (covered ps).length) rest).map (tokensAt start ps ++ ·) := by
  induction h generalizing start with
  | nil =>
    rw [covered, List.flatMap_nil, List.length_nil, Nat.add_zero]
    cases tokensFrom start _ <;> rfl
  | @cons c cs rest s ps hscan _ ih =>
    have hlength : start + s.taken.length + (covered ps).length =
        start + (covered (s.piece :: ps)).length := by
      simp [covered, Scan.piece, Nat.add_assoc]
    rw [tokensFrom_cons hscan, ih, hlength]
    cases tokensFrom _ rest <;> rfl

theorem tokensFrom_of_unscanned {fault : ParseFault} (h : scan c cs = .error fault) :
    tokensFrom start (c :: cs) = .error ⟨start, fault⟩ := by
  rw [tokensFrom]
  split
  · next h' =>
    obtain rfl := Except.error.inj (h.symm.trans h')
    rfl
  · next h' => cases h.symm.trans h'

/-- **A text has tokens when it is scanned to its end.** -/
theorem tokensFrom_of_scans (h : Scans cs ps []) (start : Nat) :
    tokensFrom start cs = .ok (tokensAt start ps) := by
  have hnil : tokensFrom (start + (covered ps).length) [] = .ok [] := by rw [tokensFrom]
  rw [h.tokensFrom_eq start, hnil]
  simp [Except.map]

/-- What follows the pieces can be exchanged for anything that goes on none of them. -/
theorem Scans.exchange (h : Scans cs ps rest) (hrest' : Halts rest') :
    Scans (covered ps ++ rest') ps rest' := by
  induction h with
  | nil => exact .nil
  | @cons c cs rest s ps hscan hps ih =>
    obtain ⟨body, htaken, hcs, hexchange⟩ := scan_exchange hscan
    have hhead : ∀ d ∈ (covered ps ++ rest').head?, ∀ l, lead c = some l → l.goesOn d = false := by
      match ps with
      | [] => exact fun d hd => hrest' d hd c
      | p :: ps =>
        -- the next piece is what the scan has left
        have hne : p.slice ≠ [] := hps.slice_ne_nil p List.mem_cons_self
        obtain ⟨d, slice, hslice⟩ := List.exists_cons_of_ne_nil hne
        have hleft := not_goesOn_of_scan hscan
        rw [hps.append] at hleft
        simpa [covered, hslice] using hleft
    have hstep : Scans (c :: (body ++ (covered ps ++ rest'))) (s.piece :: ps) rest' :=
      .cons (s := { s with rest := covered ps ++ rest' }) (hexchange _ hhead) ih
    have htext : covered (s.piece :: ps) ++ rest' = c :: (body ++ (covered ps ++ rest')) := by
      simp [covered, Scan.piece, htaken]
    rw [htext]
    exact hstep

/-! ## Slices by positions -/

/-- The slices of a text from each token's position to that of the next one, the last to the end. -/
def slices (source : List Char) : List Token → List (List Char)
  | [] => []
  | t :: ts => (source.take ((ts.head?.map (·.position)).getD source.length)).drop t.position ::
    slices source ts

/-- **The slices between the positions are the slices of the pieces.** -/
theorem slices_tokensAt (before : List Char) (ps : List Piece) :
    slices (before ++ covered ps) (tokensAt before.length ps) = ps.map (·.slice) := by
  induction ps generalizing before with
  | nil => rfl
  | cons p ps ih =>
    have htext : before ++ covered (p :: ps) = (before ++ p.slice) ++ covered ps := by
      simp [covered]
    have hnext : ((tokensAt (before.length + p.slice.length) ps).head?.map (·.position)).getD
        (before ++ covered (p :: ps)).length = (before ++ p.slice).length := by
      cases ps with
      | nil => simp [tokensAt, covered]
      | cons q ps => simp [tokensAt]
    have hmore := ih (before ++ p.slice)
    rw [← htext, List.length_append] at hmore
    rw [tokensAt, slices, hnext, htext, List.take_left', List.drop_left', ← htext, hmore,
      List.map_cons]
    · rfl
    · rfl

theorem length_tokensAt (start : Nat) (ps : List Piece) :
    (tokensAt start ps).length = ps.length := by
  induction ps generalizing start with
  | nil => rfl
  | cons p ps ih => rw [tokensAt, List.length_cons, List.length_cons, ih]

theorem le_of_mem_tokensAt {t : Token} (ht : t ∈ tokensAt start ps) : start ≤ t.position := by
  induction ps generalizing start with
  | nil => exact nomatch ht
  | cons p ps ih =>
    rcases List.mem_cons.mp ht with rfl | ht
    · exact Nat.le_refl _
    · exact Nat.le_trans (Nat.le_add_right ..) (ih ht)

theorem lt_of_mem_tokensAt (h : ∀ p ∈ ps, p.slice ≠ []) {t : Token} (ht : t ∈ tokensAt start ps) :
    t.position < start + (covered ps).length := by
  induction ps generalizing start with
  | nil => exact nomatch ht
  | cons p ps ih =>
    obtain ⟨hp, hps⟩ := List.forall_mem_cons.mp h
    have hlength : 0 < p.slice.length := List.length_pos_iff.mpr hp
    have hcovered : (covered (p :: ps)).length = p.slice.length + (covered ps).length := by
      simp [covered]
    rcases List.mem_cons.mp ht with rfl | ht
    · simp only
      omega
    · have hlt := ih hps ht
      omega

theorem pairwise_tokensAt (h : ∀ p ∈ ps, p.slice ≠ []) (start : Nat) :
    ((tokensAt start ps).map (·.position)).Pairwise (· < ·) := by
  induction ps generalizing start with
  | nil => exact .nil
  | cons p ps ih =>
    obtain ⟨hp, hps⟩ := List.forall_mem_cons.mp h
    refine List.pairwise_cons.mpr ⟨?_, ih hps _⟩
    rw [List.forall_mem_map]
    intro t ht
    have hlength : 0 < p.slice.length := List.length_pos_iff.mpr hp
    have hle := le_of_mem_tokensAt ht
    simp only at hle ⊢
    omega

theorem forall₂_covers (h : ∀ p ∈ ps, Covers p.kind p.text p.slice) (start : Nat) :
    List.Forall₂ (fun t slice => Covers t.kind t.text.toList slice) (tokensAt start ps)
      (ps.map (·.slice)) := by
  induction ps generalizing start with
  | nil => exact .nil
  | cons p ps ih =>
    obtain ⟨hp, hps⟩ := List.forall_mem_cons.mp h
    exact .cons (by simpa using hp) (ih hps _)

/-! ## White space between tokens -/

/-- The tokens that are not white space, without their places. -/
def significant (ts : List Token) : List (TokenKind × String) :=
  (ts.filter fun t => t.kind != .whitespace).map fun t => (t.kind, t.text)

/-- The same of pieces. -/
def words (ps : List Piece) : List (TokenKind × String) :=
  (ps.filter fun p => p.kind != .whitespace).map fun p => (p.kind, String.ofList p.text)

theorem significant_tokensAt (start : Nat) (ps : List Piece) :
    significant (tokensAt start ps) = words ps := by
  induction ps generalizing start with
  | nil => rfl
  | cons p ps ih =>
    have ih := ih (start + p.slice.length)
    simp only [significant, words, tokensAt, List.filter_cons] at ih ⊢
    split <;> simp [ih]

/-- A text is scanned to its end, and says some words. -/
def Says (cs : List Char) (ws : List (TokenKind × String)) : Prop :=
  ∃ ps, Scans cs ps [] ∧ words ps = ws

variable {ws : List (TokenKind × String)}

theorem says_nil : Says [] [] := ⟨[], .nil, rfl⟩

theorem Says.cons (hscan : scan c cs = .ok s) (hkind : s.kind ≠ .whitespace)
    (h : Says s.rest ws) : Says (c :: cs) ((s.kind, String.ofList s.text) :: ws) := by
  obtain ⟨ps, hps, rfl⟩ := h
  exact ⟨s.piece :: ps, .cons hscan hps, by simp [words, Scan.piece, hkind]⟩

theorem lead_of_isBlank (h : Text.isBlank c) :
    lead c = some (.run .whitespace Text.isBlank) := by
  have hmarks : c ∉ marks := by
    have hall : (marks.all fun d => !Text.isBlank d) = true := by decide
    exact fun hm => absurd h (by simpa using List.all_eq_true.mp hall c hm)
  simp only [marks, List.mem_cons, List.not_mem_nil, or_false, not_or] at hmarks
  simp [lead, hmarks, h]

/-- White space before white space is one token with it, and says nothing in any case. -/
theorem Says.blank (hc : Text.isBlank c) (h : Says cs ws) : Says (c :: cs) ws := by
  have hrun : ∀ {c run rest}, Text.isBlank c → (∀ d ∈ run, Text.isBlank d) →
      (∀ d ∈ rest.head?, Text.isBlank d = false) → scan c (run ++ rest) =
        .ok ⟨.whitespace, c :: run, c :: run, rest⟩ := fun hc hblanks hrest =>
    scan_of_scanned (.run (lead_of_isBlank hc) hblanks hrest)
  obtain ⟨run, rest, rfl, hblanks, hrest⟩ := exists_run Text.isBlank cs
  obtain ⟨ps, hps, rfl⟩ : Says rest ws := by
    match run with
    | [] => exact h
    | d :: run =>
      obtain ⟨hd, hblanks⟩ := List.forall_mem_cons.mp hblanks
      obtain ⟨ps, hps, rfl⟩ := h
      obtain _ | ⟨hscan, hps⟩ := hps
      obtain rfl := Except.ok.inj (hscan.symm.trans (hrun hd hblanks hrest))
      exact ⟨_, hps, rfl⟩
  exact ⟨_, .cons (hrun hc hblanks hrest) hps, rfl⟩

theorem Says.blanks {gap : List Char} (hgap : ∀ d ∈ gap, Text.isBlank d) (h : Says cs ws) :
    Says (gap ++ cs) ws := by
  induction gap with
  | nil => exact h
  | cons d gap ih =>
    obtain ⟨hd, hgap⟩ := List.forall_mem_cons.mp hgap
    exact (ih hgap).blank hd

/-- The slice of white space is white space. -/
theorem Covers.blanks {slice : List Char} (h : Covers .whitespace text slice) :
    ∀ d ∈ slice, Text.isBlank d := by
  cases h with
  | plain hspells _ => exact hspells
  | quoted hquote _ => exact absurd hquote (by simp [quotes])

/-- A token that is no white space does not go on with white space. -/
theorem not_goesOn_blank (h : scan c cs = .ok s) (hkind : s.kind ≠ .whitespace)
    (hd : Text.isBlank d) (hl : lead c = some l) : l.goesOn d = false := by
  refine Bool.eq_false_iff.mpr fun hgoes => hkind ?_
  obtain rfl := eq_of_goesOn_blank hl hd hgoes
  simp only [scan, hl] at h
  obtain rfl := Except.ok.inj h
  rfl

/-- Slices with gaps before them. -/
def spaced (gaps slices : List (List Char)) : List Char :=
  (List.zipWith (· ++ ·) gaps slices).flatten

/-- **White space before the slices of a text** leaves what it says. -/
theorem says_spaced (h : Scans cs ps []) {gaps : List (List Char)}
    (hlength : gaps.length = ps.length) (hgaps : ∀ gap ∈ gaps, ∀ d ∈ gap, Text.isBlank d) :
    Says (spaced gaps (ps.map (·.slice))) (words ps) := by
  generalize hend : [] = finish at h
  induction h generalizing gaps with
  | nil =>
    obtain rfl := List.length_eq_zero_iff.mp hlength
    exact says_nil
  | @cons c cs _ s ps hscan hps ih =>
    subst hend
    match gaps, hlength with
    | gap :: gaps, hlength =>
      obtain ⟨hgap, hgaps⟩ := List.forall_mem_cons.mp hgaps
      have hsays : Says (spaced gaps (ps.map (·.slice))) (words ps) :=
        ih (Nat.succ.inj hlength) hgaps rfl
      have htext : spaced (gap :: gaps) ((s.piece :: ps).map (·.slice)) =
          gap ++ (s.taken ++ spaced gaps (ps.map (·.slice))) := by
        simp [spaced, Scan.piece]
      rw [htext]
      refine Says.blanks hgap ?_
      by_cases hkind : s.kind = .whitespace
      · have hwords : words (s.piece :: ps) = words ps := by simp [words, Scan.piece, hkind]
        rw [hwords]
        have hcovers : Covers .whitespace s.text s.taken := hkind ▸ covers_of_scan hscan
        exact hsays.blanks hcovers.blanks
      · obtain ⟨body, htaken, -, hexchange⟩ := scan_exchange hscan
        have hhead : ∀ d ∈ (spaced gaps (ps.map (·.slice))).head?, ∀ l, lead c = some l →
            l.goesOn d = false := by
          match gaps, ps, hps, hgaps with
          | [], _, _, _ | _ :: _, [], _, _ => exact fun d hd => nomatch hd
          | [] :: gaps, p :: ps, hps, _ =>
            -- without a gap the next slice is what the scan has left
            obtain ⟨d, slice, hslice⟩ :=
              List.exists_cons_of_ne_nil (hps.slice_ne_nil p List.mem_cons_self)
            have hleft := not_goesOn_of_scan hscan
            rw [hps.append] at hleft
            simpa [covered, spaced, hslice] using hleft
          | (d :: gap) :: gaps, p :: ps, _, hgaps =>
            rintro _ ⟨⟩ l hl
            have hd : Text.isBlank d := hgaps _ List.mem_cons_self d List.mem_cons_self
            exact not_goesOn_blank hscan hkind hd hl
        rw [htaken]
        have hcons := Says.cons (hexchange _ hhead) hkind hsays
        simpa [words, Scan.piece, hkind] using hcons

/-! ## Tokens of a text -/

/-- The tokens of a text tile it. -/
structure Tiling (source : String) (ts : List Token) : Prop where
  starts : source ≠ "" → ts.head?.map (·.position) = some 0
  ascends : (ts.map (·.position)).Pairwise (· < ·)
  /-- The slices between the positions are the whole text. -/
  whole : (slices source.toList ts).flatten = source.toList
  /-- Each token covers its slice. -/
  covers : List.Forall₂ (fun t slice => Covers t.kind t.text.toList slice) ts
    (slices source.toList ts)
  /-- White space put before any of the slices leaves the tokens that are no white space. -/
  spaces : ∀ gaps : List (List Char), gaps.length = ts.length →
    (∀ gap ∈ gaps, ∀ c ∈ gap, Text.isBlank c) →
      ∃ ts', tokens (String.ofList (spaced gaps (slices source.toList ts))) = .ok ts' ∧
        significant ts' = significant ts

/-- Where a text cannot be scanned any more: what stands before has tokens by itself, and there
stands an opening delimiter that is not closed later, or a character that starts no token. -/
inductive Stuck (source : String) : ParseError → Prop
  | at {before rest : List Char} {c : Char} {ts : List Token} {fault : ParseFault} :
    source.toList = before ++ c :: rest → tokens (String.ofList before) = .ok ts →
      Unscanned c rest fault → Stuck source ⟨before.length, fault⟩

theorem tiling_of_scans {source : String} (h : Scans source.toList ps []) :
    Tiling source (tokensAt 0 ps) := by
  have hsource : source.toList = covered ps := by simpa using h.append
  have hslices : slices source.toList (tokensAt 0 ps) = ps.map (·.slice) := by
    rw [hsource]
    exact slices_tokensAt [] ps
  refine ⟨fun hne => ?_, pairwise_tokensAt h.slice_ne_nil 0, ?_, ?_, fun gaps hlength hgaps => ?_⟩
  · match ps, hsource with
    | [], hsource => exact absurd (String.toList_eq_nil_iff.mp hsource) hne
    | p :: ps, _ => rfl
  · rw [hslices, hsource, covered, List.flatMap_def]
  · rw [hslices]
    exact forall₂_covers h.covers 0
  · obtain ⟨ps', hps', hwords⟩ := says_spaced h (hlength.trans (length_tokensAt 0 ps)) hgaps
    refine ⟨tokensAt 0 ps', ?_, ?_⟩
    · rw [hslices, tokens, String.toList_ofList]
      exact tokensFrom_of_scans hps' 0
    · rw [significant_tokensAt, significant_tokensAt, hwords]

/-- A text is scanned to its end, or stuck. -/
theorem scans_or_stuck (source : String) :
    (∃ ps, Scans source.toList ps [] ∧ tokens source = .ok (tokensAt 0 ps)) ∨
      ∃ e, tokens source = .error e ∧ Stuck source e := by
  obtain ⟨ps, rest, hscans, rfl | ⟨c, rest, fault, rfl, hfault⟩⟩ := exists_scans source.toList
  · exact .inl ⟨ps, hscans, tokensFrom_of_scans hscans 0⟩
  · have hbefore : Scans (covered ps) ps [] := by simpa using hscans.exchange halts_nil
    have htokens : tokens (String.ofList (covered ps)) = .ok (tokensAt 0 ps) := by
      rw [tokens, String.toList_ofList]
      exact tokensFrom_of_scans hbefore 0
    have hunscanned : Unscanned c rest fault := by
      obtain ⟨s, hs⟩ | ⟨fault', hfault', h⟩ := scanned_or_unscanned c rest
      · exact nomatch hfault.symm.trans (scan_of_scanned hs)
      · obtain rfl := Except.error.inj (hfault.symm.trans hfault')
        exact h
    refine .inr ⟨_, ?_, .at hscans.append htokens hunscanned⟩
    rw [tokens, hscans.tokensFrom_eq 0, tokensFrom_of_unscanned hfault, Nat.zero_add]
    rfl

/-- **The tokens of a text tile it,** or the text has a place where it cannot be scanned. -/
theorem tiling_or_stuck (source : String) :
    (∃ ts, tokens source = .ok ts ∧ Tiling source ts) ∨
      ∃ e, tokens source = .error e ∧ Stuck source e := by
  obtain ⟨ps, hscans, htokens⟩ | hstuck := scans_or_stuck source
  · exact .inl ⟨_, htokens, tiling_of_scans hscans⟩
  · exact .inr hstuck

end Expr

end Fieldbook
