import Fieldbook.Proofs.Expr.Lexing
import Fieldbook.Proofs.Expr.Parsing
import Fieldbook.Proofs.Expr.Regrouping

/-!
# Proofs/Expr/Display — shown expressions read back

The shown form of a tree stands between blanks and parentheses wherever it is part of another one,
and neither goes on a token.  So it has tokens of its own, and these are a phrase that writes the
regrouped tree (`shows_of_written`): an operand, as every operation is shown in parentheses or with
a sign before them.  The reader then reads it as that tree (`parse_shown`).

Three kinds of trees cannot be read back from what they show: a number that is not finite has no
digits, a text that contains a double quote ends early, and a name that is no identifier is not one
symbol.  That a finite number has digits which read as the number is taken from the format of numbers
(`Double.Rereads`).
-/

namespace Fieldbook

/-- A number that is shown by digits, with or without a fraction, which read as the number. -/
structure Double.Rereads (x : Double) : Prop where
  digits : ∃ whole fraction, x.text.toList = whole ++ fraction ∧ whole ≠ [] ∧
    (∀ d ∈ whole, d.isDigit) ∧ (fraction = [] ∨ ∃ ds, fraction = '.' :: ds ∧ ∀ d ∈ ds, d.isDigit)
  same : Double.readDigits? x.text.toList = some x

theorem Double.Rereads.first {x : Double} (hx : x.Rereads) :
    ∃ c cs, x.text.toList = c :: cs ∧ c.isDigit := by
  obtain ⟨whole, fraction, htext, hwhole, hdigits, -⟩ := hx.digits
  obtain ⟨c, cs, rfl⟩ := List.exists_cons_of_ne_nil hwhole
  exact ⟨c, cs ++ fraction, htext, hdigits c List.mem_cons_self⟩

namespace Expr

/-- A name that stands for itself without quotes: a letter or `_`, then letters, digits and `_`, and
no word for a truth value. -/
def IsIdentifier (name : String) : Prop :=
  ∃ c cs, name.toList = c :: cs ∧ isSymbolStart c ∧ (∀ d ∈ cs, isSymbolPart d) ∧
    isBooleanWord name.toList = false

/-- Trees that show themselves: numbers are finite, texts hold no quote, names are identifiers. -/
structure Printable (e : Expr) : Prop where
  finite : ∀ x, .const (.number x) ∈ e.parts → x.isFinite
  unquoted : ∀ s, .const (.text s) ∈ e.parts → '"' ∉ s.toList
  plain : ∀ path, .symbol path ∈ e.parts → ∀ name ∈ path, IsIdentifier name

theorem Printable.arg {op : Operation} {args : List Expr} {e : Expr}
    (h : Printable (.apply op args)) (he : e ∈ args) : Printable e where
  finite x hx := h.finite x (mem_parts_apply he hx)
  unquoted s hs := h.unquoted s (mem_parts_apply he hs)
  plain path hpath := h.plain path (mem_parts_apply he hpath)

/-! ## Where a shown part ends -/

/-- What follows a shown part: a blank, a closing parenthesis, or nothing. -/
def Stops (rest : List Char) : Prop := ∀ d ∈ rest.head?, d = ' ' ∨ d = ')'

variable {rest cs : List Char} {op : Operation} {e : Expr} {es args : List Expr}

/-- No class that has neither of the two goes on. -/
theorem Stops.class {p : Char → Bool} (h : Stops rest) (hblank : p ' ' = false)
    (hparen : p ')' = false) : ∀ d ∈ rest.head?, p d = false := fun d hd => by
  rcases h d hd with rfl | rfl
  · exact hblank
  · exact hparen

/-! ## Constants and references -/

theorem lexed_number {x : Double} (hx : x.Rereads) (hrest : Stops rest) :
    Lexed x.text.toList rest fun ts => Primary Sentence ts (.const (.number x)) := by
  obtain ⟨whole, fraction, htext, hwhole, hdigits, hfraction⟩ := hx.digits
  have hparts : ∀ d ∈ whole ++ fraction, isNumberPart d := by
    have hnumber : ∀ d : Char, d.isDigit → isNumberPart d := fun d hd => by simp [isNumberPart, hd]
    intro d hd
    rcases List.mem_append.mp hd with hd | hd
    · exact hnumber d (hdigits d hd)
    · rcases hfraction with rfl | ⟨ds, rfl, hds⟩
      · exact absurd hd List.not_mem_nil
      · rcases List.mem_cons.mp hd with rfl | hd
        · decide
        · exact hnumber d (hds d hd)
  obtain ⟨c, cs, rfl⟩ := List.exists_cons_of_ne_nil hwhole
  have hstop : ∀ d ∈ rest.head?, isNumberPart d = false := hrest.class (by decide) (by decide)
  have hscan : scan c (cs ++ fraction ++ rest) = _ := scan_number (hdigits c List.mem_cons_self)
    (fun d hd => hparts d (List.mem_cons_of_mem _ hd)) hstop
  rw [htext]
  refine (lexed_token hscan (by decide)).mono ?_
  rintro _ ⟨t, rfl, hkind, ht⟩
  have hread : Double.readDigits? t.text.toList = some x := by
    rw [ht, ← List.cons_append, ← htext, hx.same]
  exact .number hkind hread

theorem lexed_text {s : String} (hs : '"' ∉ s.toList) :
    Lexed (Operand.text s).chars rest fun ts => Primary Sentence ts (.const (.text s)) := by
  have hscan : scan '"' (s.toList ++ ['"'] ++ rest) =
      .ok ⟨.stringLiteral, s.toList, '"' :: (s.toList ++ ['"']), rest⟩ := by
    rw [List.append_assoc]
    exact scanQuoted_of_not_mem hs
  change Lexed ('"' :: (s.toList ++ ['"'])) rest _
  refine (lexed_token hscan (by decide)).mono ?_
  rintro _ ⟨t, rfl, hkind, ht⟩
  obtain rfl : t.text = s := String.toList_inj.mp ht
  exact .text hkind

theorem lexed_word (hc : ∃ c cs', cs = c :: cs' ∧ isSymbolStart c ∧ ∀ d ∈ cs', isSymbolPart d)
    (hrest : ∀ d ∈ rest.head?, isSymbolPart d = false) :
    Lexed cs rest (IsToken (wordKind cs) cs) := by
  obtain ⟨c, cs', rfl, hc, hcs⟩ := hc
  refine lexed_token (scan_word hc hcs hrest) ?_
  rw [wordKind]
  split <;> decide

theorem lexed_truth {b : Bool} (hrest : Stops rest) :
    Lexed (Operand.boolean b).chars rest fun ts => Primary Sentence ts (.const (.boolean b)) := by
  have hword : ∃ c cs', (Operand.boolean b).chars = c :: cs' ∧ isSymbolStart c ∧
      ∀ d ∈ cs', isSymbolPart d := by
    cases b
    · exact ⟨'f', "alse".toList, rfl, by decide, List.all_eq_true.mp (by decide)⟩
    · exact ⟨'t', "rue".toList, rfl, by decide, List.all_eq_true.mp (by decide)⟩
  refine (lexed_word hword (hrest.class (by decide) (by decide))).mono ?_
  rintro _ ⟨t, rfl, hkind, ht⟩
  refine .truth (hkind.trans ?_) ?_
  · cases b <;> rfl
  · rw [ht]
    cases b <;> decide

theorem lexed_name {name : String} (h : IsIdentifier name)
    (hrest : ∀ d ∈ rest.head?, isSymbolPart d = false) :
    Lexed name.toList rest (IsToken .symbol name.toList) := by
  obtain ⟨c, cs, hname, hc, hcs, hword⟩ := h
  have hkind : wordKind name.toList = .symbol := by simp [wordKind, hword]
  exact hkind ▸ lexed_word ⟨c, cs, hname, hc, hcs⟩ hrest

/-- The further names of a path, each after its dot. -/
def dottedNames (names : List String) : List Char := names.flatMap fun name => '.' :: name.toList

theorem dotted_toList (name : String) (names : List String) :
    (dotted (name :: names)).toList = name.toList ++ dottedNames names := by
  have hdot : ".".toList = ['.'] := rfl
  rw [dotted, String.toList_intercalate, hdot]
  induction names generalizing name with
  | nil => simp [dottedNames]
  | cons next names ih =>
    have ih := ih next
    simp only [List.map_cons] at ih ⊢
    rw [List.intercalate_cons_cons, ih]
    simp [dottedNames]

/-- A name ends before a dot. -/
theorem stops_dottedNames (names : List String) (hrest : Stops rest) :
    ∀ d ∈ (dottedNames names ++ rest).head?, isSymbolPart d = false := by
  match names with
  | [] => exact hrest.class (by decide) (by decide)
  | _ :: _ => rintro _ ⟨⟩; decide

theorem lexed_names {names : List String} (h : ∀ name ∈ names, IsIdentifier name)
    (hrest : Stops rest) : Lexed (dottedNames names) rest fun ts => Names ts names := by
  induction names with
  | nil => exact lexed_nil.mono fun ts hts => hts ▸ .nil
  | cons name names ih =>
    obtain ⟨hname, hnames⟩ := List.forall_mem_cons.mp h
    have hmark : Lexed ['.'] (name.toList ++ dottedNames names ++ rest) (IsToken .dot ['.']) :=
      lexed_mark rfl (by decide)
    refine (hmark.append
      ((lexed_name hname (stops_dottedNames names hrest)).append (ih hnames))).mono ?_
    rintro _ ⟨_, _, rfl, ⟨dot, rfl, hdot, -⟩, _, ts, rfl, ⟨t, rfl, hkind, ht⟩, hts⟩
    obtain rfl : t.text = name := String.toList_inj.mp ht
    exact .cons hdot hkind hts

theorem lexed_reference {name : String} {names : List String}
    (h : ∀ part ∈ name :: names, IsIdentifier part) (hrest : Stops rest) :
    Lexed (dotted (name :: names)).toList rest
      fun ts => Primary Sentence ts (.symbol (name :: names)) := by
  obtain ⟨hname, hnames⟩ := List.forall_mem_cons.mp h
  rw [dotted_toList]
  refine ((lexed_name hname (stops_dottedNames names hrest)).append (lexed_names hnames hrest)).mono ?_
  rintro _ ⟨_, ts, rfl, ⟨t, rfl, hkind, ht⟩, hts⟩
  obtain rfl : t.text = name := String.toList_inj.mp ht
  exact .reference hkind hts

/-! ## Operators and parentheses -/

theorem lexed_operator (op : Operation) (hrest : ∀ d ∈ rest.head?, isOperatorPart d = false) :
    Lexed op.spelling.toList rest fun ts => ∃ t, ts = [t] ∧ t.isOperator op.spelling := by
  obtain ⟨c, cs, hop, hc, hcs⟩ : ∃ c cs, op.spelling.toList = c :: cs ∧
      lead c = some (.run .operator isOperatorPart) ∧ ∀ d ∈ cs, isOperatorPart d := by
    cases op <;> exact ⟨_, _, rfl, rfl, List.all_eq_true.mp (by decide)⟩
  have hscan : scan c (cs ++ rest) = .ok ⟨.operator, c :: cs, c :: cs, rest⟩ := by
    simp [scan, hc, scanRun_append hcs hrest]
  rw [hop]
  refine (lexed_token hscan (by decide)).mono ?_
  rintro _ ⟨t, rfl, hkind, ht⟩
  have htext : t.text = op.spelling := String.toList_inj.mp (ht.trans hop.symm)
  exact ⟨t, rfl, by simp [Token.isOperator, hkind, htext]⟩

theorem stops_paren (rest : List Char) : Stops (')' :: rest) := by
  rintro _ ⟨⟩
  exact .inr rfl

/-- A sentence in parentheses is an operand, whatever follows. -/
theorem lexed_parens (h : ∀ rest, Lexed cs (')' :: rest) fun ts => Sentence ts e) :
    Lexed ('(' :: cs ++ [')']) rest fun ts => Primary Sentence ts e := by
  have hstart : Lexed ['('] (cs ++ [')'] ++ rest) (IsToken .parenStart ['(']) :=
    lexed_mark rfl (by decide)
  have hend : Lexed [')'] rest (IsToken .parenEnd [')']) := lexed_mark rfl (by decide)
  have hinner : Lexed cs ([')'] ++ rest) fun ts => Sentence ts e := h rest
  refine (hstart.append (hinner.append hend)).mono ?_
  rintro _ ⟨_, _, rfl, ⟨start, rfl, hopen, -⟩, us, _, rfl, hsentence, close, rfl, hclose, -⟩
  exact .parens hopen hsentence hclose

/-! ## Chains of operands -/

theorem Chain.mono {G G' : Grammar} {ts : List Token} (hG : ∀ ts e, G ts e → G' ts e)
    (h : Chain op G ts es) : Chain op G' ts es := by
  induction h with
  | nil => exact .nil
  | cons ht hfirst _ ih => exact .cons ht (hG _ _ hfirst) ih

/-- A chain after a phrase joins its operands two at a time. -/
theorem Chain.folded {G : Grammar} {ops : List Operation} {us : List Token} (hop : op ∈ ops)
    (h : Chain op G us es) : ∀ {ts left}, Folded ops G ts left →
      Folded ops G (ts ++ us) (es.foldl (fun left e => .apply op [left, e]) left) := by
  induction h with
  | nil => exact fun hleft => by simpa using hleft
  | cons ht hfirst _ ih =>
    intro ts left hleft
    simpa using ih (.more hleft hop ht hfirst)

/-- The operands of a shown operation. -/
abbrev Shown : Grammar := Signed (Primary Sentence)

theorem sentence_of_equality {ts : List Token}
    (h : Equality (Folded [.sum, .minus] (Folded [.multiply, .divide] Shown)) ts e) :
    Sentence ts e := ⟨.one (.one h)⟩

theorem sentence_of_sum {ts : List Token}
    (h : Folded [.sum, .minus] (Folded [.multiply, .divide] Shown) ts e) : Sentence ts e :=
  sentence_of_equality ⟨.one h⟩

/-- **A chain of shown operands is a sentence.** -/
theorem sentence_of_chain {first second : Expr} {others : List Expr} {ts us : List Token}
    (hop : op.accepts (others.length + 2)) (hfirst : Shown ts first)
    (h : Chain op Shown us (second :: others)) :
    Sentence (ts ++ us) (op.regroup (first :: second :: others)) := by
  have hproduct : ∀ ts e, Shown ts e → Folded [.multiply, .divide] Shown ts e := fun _ _ => .one
  have hsum : ∀ ts e, Shown ts e →
      Folded [.sum, .minus] (Folded [.multiply, .divide] Shown) ts e := fun _ _ h => .one (.one h)
  cases op with
  | or => exact ⟨.many (.one ⟨.one (hsum _ _ hfirst)⟩) (h.mono fun _ _ h => .one ⟨.one (hsum _ _ h)⟩)⟩
  | and => exact ⟨.one (.many ⟨.one (hsum _ _ hfirst)⟩ (h.mono fun _ _ h => ⟨.one (hsum _ _ h)⟩))⟩
  | equal => exact sentence_of_equality ⟨.run (.one (hsum _ _ hfirst)) (h.mono hsum)⟩
  | notEqual =>
    obtain rfl : others = [] := by simpa [Operation.accepts] using hop
    obtain _ | ⟨ht, hsecond, _ | _⟩ := h
    rw [List.append_nil]
    exact sentence_of_equality ⟨.differ (.one (hsum _ _ hfirst)) ht (hsum _ _ hsecond)⟩
  | sum | minus => exact sentence_of_sum ((h.mono hproduct).folded (by decide) (hsum _ _ hfirst))
  | multiply | divide => exact sentence_of_sum (.one (h.folded (by decide) (hproduct _ _ hfirst)))
  | not | negate => simp [Operation.accepts] at hop

/-! ## Shown trees -/

/-- The shown form of a tree starts with no blank and has tokens that write the regrouped tree. -/
structure Shows (e : Expr) : Prop where
  opens : ∃ c cs, e.chars = c :: cs ∧ Text.isBlank c = false
  lexed : ∀ rest, Stops rest → Lexed e.chars rest fun ts => Shown ts (regrouped e)

/-- An operator between blanks. -/
theorem lexed_between (op : Operation) (hrest : ∀ d ∈ rest.head?, Text.isBlank d = false) :
    Lexed ([' '] ++ (op.spelling.toList ++ [' '])) rest
      fun ts => ∃ t, ts = [t] ∧ t.isOperator op.spelling := by
  have hopen : ∀ d ∈ (op.spelling.toList ++ [' '] ++ rest).head?, Text.isBlank d = false := by
    cases op <;> (rintro _ ⟨⟩; rfl)
  have hop : Lexed op.spelling.toList ([' '] ++ rest) _ :=
    lexed_operator op (by rintro _ ⟨⟩; decide)
  refine ((lexed_blank hopen).append (hop.append (lexed_blank hrest))).mono ?_
  rintro _ ⟨_, _, rfl, rfl, _, _, rfl, ht, rfl⟩
  simpa using ht

/-- What stands after the first operand. -/
theorem lexed_after (h : ∀ e ∈ es, Shows e) (hrest : Stops rest) :
    Lexed (charsAfter op es) rest fun ts => Chain op Shown ts (es.map regrouped) := by
  induction es with
  | nil => exact lexed_nil.mono fun ts hts => hts ▸ .nil
  | cons e es ih =>
    obtain ⟨he, hes⟩ := List.forall_mem_cons.mp h
    have hstop : Stops (charsAfter op es ++ rest) := by
      match es with
      | [] => exact hrest
      | _ :: _ => rintro _ ⟨⟩; exact .inl rfl
    have hopen : ∀ d ∈ (e.chars ++ charsAfter op es ++ rest).head?, Text.isBlank d = false := by
      obtain ⟨c, cs, hchars, hc⟩ := he.opens
      rw [hchars]
      rintro _ ⟨⟩
      exact hc
    have hsplit : charsAfter op (e :: es) =
        [' '] ++ (op.spelling.toList ++ [' ']) ++ (e.chars ++ charsAfter op es) := by
      simp [charsAfter]
    rw [hsplit]
    refine ((lexed_between op hopen).append ((he.lexed _ hstop).append (ih hes))).mono ?_
    rintro _ ⟨_, _, rfl, ⟨t, rfl, ht⟩, us, vs, rfl, hfirst, hchain⟩
    change Chain op Shown (t :: (us ++ vs)) _
    exact .cons ht hfirst hchain

/-- An operation on one operand is shown as a sign before parentheses. -/
theorem shows_sign (hop : op.accepts 1) (he : Shows e) : Shows (.apply op [e]) where
  opens := by cases op <;> exact ⟨_, _, rfl, rfl⟩
  lexed rest hrest := by
    have hsign : op ∈ [.not, .negate] ∧ op.combines = false := by
      cases op <;> first | exact ⟨by decide, rfl⟩ | exact nomatch hop
    have hregroup : regrouped (.apply op [e]) = .apply op [regrouped e] := by
      simp [regrouped_apply, Operation.regroup, hsign.2]
    have hinner : Lexed ('(' :: e.chars ++ [')']) rest fun ts =>
        Primary Sentence ts (regrouped e) := lexed_parens fun rest =>
      (he.lexed _ (stops_paren rest)).mono fun _ h => sentence_of_sum (.one (.one h))
    have hchars : (Expr.apply op [e]).chars = op.spelling.toList ++ ('(' :: e.chars ++ [')']) := by
      simp [chars]
    rw [hchars, hregroup]
    refine ((lexed_operator op (by rintro _ ⟨⟩; decide)).append hinner).mono ?_
    rintro _ ⟨_, us, rfl, ⟨t, rfl, ht⟩, hparens⟩
    exact .sign hsign.1 ht (.bare hparens)

/-- An operation on more operands is shown in parentheses. -/
theorem shows_parens {first second : Expr} {others : List Expr}
    (hop : op.accepts (others.length + 2)) (h : ∀ e ∈ first :: second :: others, Shows e) :
    Shows (.apply op (first :: second :: others)) where
  opens := ⟨_, _, rfl, rfl⟩
  lexed rest hrest := by
    obtain ⟨hfirst, hothers⟩ := List.forall_mem_cons.mp h
    have hchain : ∀ rest, Stops rest → Lexed (first.chars ++ charsAfter op (second :: others)) rest
        fun ts => Sentence ts (regrouped (.apply op (first :: second :: others))) := by
      intro rest hrest
      refine ((hfirst.lexed _ (by rintro _ ⟨⟩; exact .inl rfl)).append
        (lexed_after hothers hrest)).mono ?_
      rintro _ ⟨us, vs, rfl, hus, hvs⟩
      rw [regrouped_apply]
      exact sentence_of_chain (by simpa using hop) hus hvs
    exact (lexed_parens fun rest => hchain _ (stops_paren rest)).mono fun _ => .bare

/-- **What a written tree shows** has tokens of its own that write the regrouped tree. -/
theorem shows_of_written (h : Written e) (hprint : Printable e)
    (hnum : ∀ x, .const (.number x) ∈ e.parts → x.isFinite → x.Rereads) : Shows e := by
  induction h with
  | @const v hv =>
    have hself : Expr.const v ∈ (Expr.const v).parts := self_mem_parts _
    cases v with
    | number x =>
      have hx : x.Rereads := hnum x hself (hprint.finite x hself)
      obtain ⟨c, cs, htext, hc⟩ := hx.first
      exact ⟨⟨c, cs, htext, Text.isBlank_of_isDigit hc⟩,
        fun _ hrest => (lexed_number hx hrest).mono fun _ => .bare⟩
    | text s =>
      exact ⟨⟨_, _, rfl, rfl⟩, fun _ _ => (lexed_text (hprint.unquoted s hself)).mono fun _ => .bare⟩
    | boolean b =>
      exact ⟨by cases b <;> exact ⟨_, _, rfl, rfl⟩,
        fun _ hrest => (lexed_truth hrest).mono fun _ => .bare⟩
    | missing => exact absurd rfl hv
  | @symbol name names =>
    have hnames : ∀ part ∈ name :: names, IsIdentifier part := hprint.plain _ (self_mem_parts _)
    obtain ⟨c, cs, hname, hc, -⟩ := hnames name List.mem_cons_self
    have htext : (dotted (name :: names)).toList = c :: (cs ++ dottedNames names) := by
      rw [dotted_toList, hname, List.cons_append]
    exact ⟨⟨c, _, htext, (of_isSymbolStart hc).2.1⟩,
      fun _ hrest => (lexed_reference hnames hrest).mono fun _ => .bare⟩
  | @apply op args haccepts _ ih =>
    have hargs : ∀ e ∈ args, Shows e := fun e he =>
      ih e he (hprint.arg he) fun x hx => hnum x (mem_parts_apply he hx)
    match args, hargs with
    | [], _ => simp [accepts_zero] at haccepts
    | [e], hargs => exact shows_sign haccepts (hargs e List.mem_cons_self)
    | _ :: _ :: _, hargs => exact shows_parens haccepts hargs

/-- **A shown expression reads back.** Where a text is read as a tree that shows itself, the shown form
is read as a tree that has the same value in every context, or none where that has none; it is the
same tree unless that has a sum or a product of three operands or more. -/
theorem parse_shown {source : String} {e : Expr} (h : parse source = .ok e) (hprint : Printable e)
    (hnum : ∀ x, .const (.number x) ∈ e.parts → x.isFinite → x.Rereads) :
    ∃ e', parse e.shown = .ok e' ∧
      (∀ ctx v, evaluate ctx e' = .ok v ↔ evaluate ctx e = .ok v) ∧
      ((∀ op args, .apply op args ∈ e.parts → op = .sum ∨ op = .multiply → args.length < 3) →
        e' = e) := by
  obtain ⟨_, -, htokens⟩ := bind_ok.mp h
  have hwritten : Written e := written_of_sentence (parseTokens_ok.mp htokens)
  have hshows : Shows e := shows_of_written hwritten hprint hnum
  refine ⟨regrouped e, ?_, fun _ _ => evaluate_regrouped hwritten, regrouped_eq_self hwritten⟩
  obtain ⟨ts, hts, hphrase⟩ := hshows.lexed [] (by simp [Stops]) 0
  have hread : tokens e.shown = .ok ts := by
    have hnil : tokensFrom e.chars.length [] = .ok [] := by rw [tokensFrom]
    rw [List.append_nil, Nat.zero_add, hnil] at hts
    rw [tokens, shown, String.toList_ofList, hts]
    simp [Except.map]
  rw [parse, bind_ok]
  exact ⟨ts, hread, parseTokens_ok.mpr (sentence_of_sum (.one (.one hphrase)))⟩

/-- A sum of three operands. -/
def threeTerms : Expr :=
  .apply .sum [.symbol ["a"], .const (.number ⟨0x4004000000000000⟩), .symbol ["b"]]

theorem rereads_five_halves : (⟨0x4004000000000000⟩ : Double).Rereads where
  digits := ⟨['2'], ['.', '5'], by decide +kernel, by decide, by simp, .inr ⟨['5'], rfl, by simp⟩⟩
  same := by decide +kernel

theorem printable_threeTerms : Printable threeTerms where
  finite x hx := by
    obtain rfl : x = ⟨0x4004000000000000⟩ := by simpa [threeTerms, parts, partsAll] using hx
    decide
  unquoted s hs := by simp [threeTerms, parts, partsAll] at hs
  plain path hpath := by
    obtain rfl | rfl : path = ["a"] ∨ path = ["b"] := by
      simpa [threeTerms, parts, partsAll] using hpath
    · exact List.forall_mem_singleton.mpr ⟨'a', [], rfl, by decide, by simp, by decide⟩
    · exact List.forall_mem_singleton.mpr ⟨'b', [], rfl, by decide, by simp, by decide⟩

theorem parse_threeTerms : parse "sum(a, 2.5, b)" = .ok threeTerms := by
  have htokens : (tokens "sum(a, 2.5, b)").toOption = some [⟨.symbol, 0, "sum"⟩,
      ⟨.parenStart, 3, "("⟩, ⟨.symbol, 4, "a"⟩, ⟨.comma, 5, ","⟩, ⟨.whitespace, 6, " "⟩,
      ⟨.number, 7, "2.5"⟩, ⟨.comma, 10, ","⟩, ⟨.whitespace, 11, " "⟩, ⟨.symbol, 12, "b"⟩,
      ⟨.parenEnd, 13, ")"⟩] := by decide +kernel
  have hname {t : Token} (ht : t.kind = .symbol) : Sentence [t] (.symbol [t.text]) :=
    sentence_of_sum (.one (.one (.bare (.reference ht .nil))))
  have hnumber : Sentence [⟨.number, 7, "2.5"⟩] (.const (.number ⟨0x4004000000000000⟩)) :=
    sentence_of_sum (.one (.one (.bare (.number rfl rereads_five_halves.same))))
  have hargs : Listed Sentence [⟨.symbol, 4, "a"⟩, ⟨.comma, 5, ","⟩, ⟨.number, 7, "2.5"⟩,
      ⟨.comma, 10, ","⟩, ⟨.symbol, 12, "b"⟩] _ :=
    .more (hname rfl) rfl (.more hnumber rfl (.one (hname rfl)))
  have hcall : Primary Sentence (⟨.symbol, 0, "sum"⟩ :: ⟨.parenStart, 3, "("⟩ ::
      (_ ++ [⟨.parenEnd, 13, ")"⟩])) threeTerms := .call rfl (by decide) rfl hargs rfl rfl
  rw [parse, bind_ok]
  exact ⟨_, toOption_eq_some.mp htokens,
    parseTokens_ok.mpr (sentence_of_sum (.one (.one (.bare hcall))))⟩

/-- It reads back as a sum of a sum. -/
theorem parse_shown_threeTerms :
    parse "sum(a, 2.5, b)" = .ok threeTerms ∧ threeTerms.shown = "(a + 2.5 + b)" ∧
      ∃ e', parse threeTerms.shown = .ok e' ∧
        (∀ ctx v, evaluate ctx e' = .ok v ↔ evaluate ctx threeTerms = .ok v) := by
  have hnum : ∀ x, .const (.number x) ∈ threeTerms.parts → x.isFinite → x.Rereads := by
    intro x hx _
    obtain rfl : x = ⟨0x4004000000000000⟩ := by simpa [threeTerms, parts, partsAll] using hx
    exact rereads_five_halves
  obtain ⟨e', hread, hvalue, -⟩ := parse_shown parse_threeTerms printable_threeTerms hnum
  exact ⟨parse_threeTerms, by decide +kernel, e', hread, hvalue⟩

end Expr

end Fieldbook
