import Fieldbook.Proofs.Expr.Display
import Fieldbook.Proofs.Expr.Tiling

/-!
# Proofs/Expr/Embedding — texts of expressions within other texts

A text that is read as an expression can stand in parentheses in another text.  No token goes on with
a closing parenthesis, so the text has the same tokens there (`lexed_of_parse`), only at other
places, and sentences do not depend on places (`Sentence.shifted`).  In parentheses it is an operand:
two texts can be joined by an operation (`parse_between`), and one can have a sign (`parse_sign`).
-/

namespace Fieldbook

namespace Expr

variable {c : Char} {cs rest : List Char} {start shift n : Nat} {G : Grammar} {op : Operation}
  {ops : List Operation} {ts : List Token} {d e : Expr} {es : List Expr} {f g source : String}

/-! ## Places of tokens -/

/-- The token at another place. -/
def Token.moved (shift : Nat) (t : Token) : Token := { t with position := shift + t.position }

/-- Phrases of fewer than `n` tokens are phrases at other places, and write the same. -/
def MovesBelow (shift n : Nat) (G : Grammar) : Prop :=
  ∀ ts e, G ts e → ts.length < n → G (ts.map (Token.moved shift)) e

theorem Chain.moved (hG : MovesBelow shift n G) (h : Chain op G ts es) (hn : ts.length < n) :
    Chain op G (ts.map (Token.moved shift)) es := by
  induction h with
  | nil => exact .nil
  | cons ht hfirst _ ih =>
    simp only [List.length_cons, List.length_append] at hn
    rw [List.map_cons, List.map_append]
    exact .cons ht (hG _ _ hfirst (by omega)) (ih (by omega))

theorem MovesBelow.joined (hG : MovesBelow shift n G) : MovesBelow shift n (Joined op G) := by
  intro ts e h hn
  rcases h with h | ⟨hfirst, hchain⟩
  · exact .one (hG _ _ h hn)
  · rw [List.length_append] at hn
    rw [List.map_append]
    exact .many (hG _ _ hfirst (by omega)) (hchain.moved hG (by omega))

theorem Compared.moved {ended : Bool} (hG : MovesBelow shift n G) (h : Compared G ended ts e)
    (hn : ts.length < n) : Compared G ended (ts.map (Token.moved shift)) e := by
  induction h with
  | one h => exact .one (hG _ _ h hn)
  | run _ hchain ih =>
    rw [List.length_append] at hn
    rw [List.map_append]
    exact .run (ih (by omega)) (hchain.moved hG (by omega))
  | differ _ ht hright ih =>
    rw [List.length_append, List.length_cons] at hn
    rw [List.map_append, List.map_cons]
    exact .differ (ih (by omega)) ht (hG _ _ hright (by omega))

theorem MovesBelow.equality (hG : MovesBelow shift n G) : MovesBelow shift n (Equality G) :=
  fun _ _ ⟨h⟩ hn => ⟨h.moved hG hn⟩

theorem MovesBelow.folded (hG : MovesBelow shift n G) : MovesBelow shift n (Folded ops G) := by
  intro ts e h hn
  induction h with
  | one h => exact .one (hG _ _ h hn)
  | more _ hop ht hright ih =>
    rw [List.length_append, List.length_cons] at hn
    rw [List.map_append, List.map_cons]
    exact .more (ih (by omega)) hop ht (hG _ _ hright (by omega))

theorem MovesBelow.signed (hG : MovesBelow shift n G) : MovesBelow shift n (Signed G) := by
  intro ts e h hn
  induction h with
  | bare h => exact .bare (hG _ _ h hn)
  | sign hop ht _ ih =>
    rw [List.length_cons] at hn
    exact .sign hop ht (ih (by omega))

theorem Names.moved {names : List String} (h : Names ts names) :
    Names (ts.map (Token.moved shift)) names := by
  induction h with
  | nil => exact .nil
  | @cons dot name ts names hdot hname _ ih =>
    have hmoved : (name.moved shift).kind = .symbol := hname
    exact .cons hdot hmoved ih

theorem Listed.moved (hG : MovesBelow shift n G) (h : Listed G ts es) (hn : ts.length < n) :
    Listed G (ts.map (Token.moved shift)) es := by
  induction h with
  | one h => exact .one (hG _ _ h hn)
  | more h hcomma _ ih =>
    rw [List.length_append, List.length_cons] at hn
    rw [List.map_append, List.map_cons]
    exact .more (hG _ _ h (by omega)) hcomma (ih (by omega))

theorem MovesBelow.primary (hG : MovesBelow shift n G) :
    MovesBelow shift (n + 1) (Primary G) := by
  intro ts e h hn
  cases h with
  | number hk hx => exact .number hk hx
  | @text t hk =>
    have hmoved : (t.moved shift).kind = .stringLiteral := hk
    exact .text hmoved
  | truth hk hb => exact .truth hk hb
  | parens hk h hclose =>
    simp only [List.length_cons, List.length_append, List.length_nil] at hn
    rw [List.map_cons, List.map_append]
    exact .parens hk (hG _ _ h (by omega)) hclose
  | call hk hop hstart h hclose haccepts =>
    simp only [List.length_cons, List.length_append, List.length_nil] at hn
    rw [List.map_cons, List.map_cons, List.map_append]
    exact .call hk hop hstart (h.moved hG (by omega)) hclose haccepts
  | @reference name ts names hk hnames =>
    have hmoved : (name.moved shift).kind = .symbol := hk
    exact .reference hmoved hnames.moved

theorem movesBelow_sentence (shift : Nat) : ∀ n, MovesBelow shift n Sentence
  | 0 => fun _ _ _ h => absurd h (Nat.not_lt_zero _)
  | n + 1 => fun ts e ⟨h⟩ hn =>
    ⟨(movesBelow_sentence shift n).primary.signed.folded.folded.equality.joined.joined ts e h hn⟩

/-- **A sentence is one at any place,** and writes the same tree there. -/
theorem Sentence.moved (h : Sentence ts e) : Sentence (ts.map (Token.moved shift)) e :=
  movesBelow_sentence shift _ ts e h (Nat.lt_succ_self _)

theorem tokensAt_add (shift start : Nat) (ps : List Piece) :
    tokensAt (shift + start) ps = (tokensAt start ps).map (Token.moved shift) := by
  induction ps generalizing start with
  | nil => rfl
  | cons p ps ih =>
    rw [tokensAt, tokensAt, List.map_cons, Nat.add_assoc, ih]
    rfl

/-! ## Texts in parentheses -/

theorem halts_paren (rest : List Char) : Halts (')' :: rest) := by
  rintro _ ⟨⟩ c l hl
  cases starts_of_lead hl with
  | mark _ | quote _ => rfl
  | blank _ | number _ | operator _ | word _ => decide

/-- **A text that is read has tokens of its own,** where no token goes on with what follows. -/
theorem lexed_of_parse (h : parse source = .ok e) (hrest : Halts rest) :
    Lexed source.toList rest fun ts => Sentence ts e := by
  obtain ⟨ts, htokens, h⟩ := bind_ok.mp h
  obtain ⟨ps, hscans, hps⟩ | ⟨err, herr, -⟩ := scans_or_stuck source
  · obtain rfl := Except.ok.inj (htokens.symm.trans hps)
    have htext : source.toList = covered ps := by simpa using hscans.append
    intro start
    rw [htext]
    refine ⟨tokensAt start ps, (hscans.exchange hrest).tokensFrom_eq start, ?_⟩
    rw [← Nat.add_zero start, tokensAt_add, List.filter_map]
    exact (parseTokens_ok.mp h).moved
  · exact nomatch htokens.symm.trans herr

theorem lexed_operand (h : parse source = .ok e) :
    Lexed ('(' :: source.toList ++ [')']) rest fun ts => Primary Sentence ts e :=
  lexed_parens fun rest => lexed_of_parse h (halts_paren rest)

/-- A text is read as what its tokens write. -/
theorem parse_of_lexed (h : Lexed source.toList [] fun ts => Sentence ts e) :
    parse source = .ok e := by
  obtain ⟨ts, hts, hsentence⟩ := h 0
  have hnil : tokensFrom (0 + source.toList.length) [] = .ok [] := by rw [tokensFrom]
  rw [List.append_nil, hnil] at hts
  rw [parse, bind_ok]
  exact ⟨ts, hts.trans (by simp [Except.map]), parseTokens_ok.mpr hsentence⟩

/-! ## Texts joined -/

/-- **Two texts in parentheses, joined by an operation,** are read as the operation on both. -/
theorem parse_between (hop : op.accepts 2) (hf : parse f = .ok d) (hg : parse g = .ok e) :
    parse ("(" ++ f ++ ") " ++ op.spelling ++ " (" ++ g ++ ")") = .ok (.apply op [d, e]) := by
  have htext : ("(" ++ f ++ ") " ++ op.spelling ++ " (" ++ g ++ ")").toList =
      ('(' :: f.toList ++ [')']) ++ ([' '] ++ (op.spelling.toList ++ [' ']) ++
        ('(' :: g.toList ++ [')'])) := by
    simp [String.toList_append]
  have hregroup : op.regroup [d, e] = .apply op [d, e] := by
    rw [Operation.regroup, Operation.pairwise]
    split <;> rfl
  refine parse_of_lexed ?_
  rw [htext]
  have hjoin : Lexed ([' '] ++ (op.spelling.toList ++ [' '])) ('(' :: g.toList ++ [')'] ++ []) _ :=
    lexed_between op (by rintro _ ⟨⟩; decide)
  refine ((lexed_operand hf).append (hjoin.append (lexed_operand hg))).mono ?_
  rintro _ ⟨us, _, rfl, hus, _, vs, rfl, ⟨t, rfl, ht⟩, hvs⟩
  rw [← hregroup]
  have hchain : Chain op Shown (t :: (vs ++ [])) [e] := .cons ht (.bare hvs) .nil
  simpa using sentence_of_chain (by simpa using hop) (.bare hus) hchain

/-- **A text in parentheses with a sign** is read as the operation on it. -/
theorem parse_sign (hop : op ∈ [.not, .negate]) (hf : parse f = .ok e) :
    parse (op.spelling ++ "(" ++ f ++ ")") = .ok (.apply op [e]) := by
  have htext : (op.spelling ++ "(" ++ f ++ ")").toList =
      op.spelling.toList ++ ('(' :: f.toList ++ [')']) := by
    simp [String.toList_append]
  refine parse_of_lexed ?_
  rw [htext]
  refine ((lexed_operator op (by rintro _ ⟨⟩; decide)).append (lexed_operand hf)).mono ?_
  rintro _ ⟨_, us, rfl, ⟨t, rfl, ht⟩, hus⟩
  exact sentence_of_sum (.one (.one (.sign hop ht (.bare hus))))

end Expr

end Fieldbook
