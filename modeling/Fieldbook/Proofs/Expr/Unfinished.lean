import Fieldbook.Proofs.Expr.Parsing
import Fieldbook.Proofs.Expr.Tiling

/-!
# Proofs/Expr/Unfinished — where reading a text fails

A reader fails at one of the tokens, or behind the last one, where something is wanted that no token
is left for.  The tokens that it fails behind are given as the sentences are, layer by layer: a
fragment of a layer is one of an operand, in front or after a phrase of the layer and a separator
(`Cut`), and `Unfinished` closes the circle.

A layer fails where the reader of its operands fails, which is said once for the chains, the
comparisons, the arithmetic and the arguments of a call (`Relays`).  So the reader fails behind the
tokens exactly when they are a fragment (`fails_expression`), and a text is reported there at its
length and anywhere else at a place within it (`parse_or_located`).
-/

namespace Fieldbook.Expr

/-! ## Fragments -/

/-- Tokens that end where something is wanted. -/
abbrev Fragments := Wanted → List Token → Prop

/-- A fragment of `H`, in front or after a phrase of `L` and a separator. -/
inductive Cut (sep : Token → Prop) (L : List Token → Prop) (H : Fragments) : Fragments
  | first {w : Wanted} {ts : List Token} : H w ts → Cut sep L H w ts
  | later {w : Wanted} {t : Token} {us ts : List Token} :
    L us → sep t → H w ts → Cut sep L H w (us ++ t :: ts)

/-- The token is an operator of one of the operations. -/
def Joins (ops : List Operation) (t : Token) : Prop := ∃ op ∈ ops, t.isOperator op.spelling

/-- The tokens are a phrase. -/
def Phrase (G : Grammar) (ts : List Token) : Prop := ∃ e, G ts e

/-- The tokens are phrases with commas between them. -/
def Phrases (G : Grammar) (ts : List Token) : Prop := ∃ args, Listed G ts args

/-- Any number of signs before a fragment. -/
inductive SignedCut (H : Fragments) : Fragments
  | bare {w : Wanted} {ts : List Token} : H w ts → SignedCut H w ts
  | sign {w : Wanted} {op : Operation} {t : Token} {ts : List Token} :
    op ∈ [.not, .negate] → t.isOperator op.spelling → SignedCut H w ts → SignedCut H w (t :: ts)

/-- Nothing where an operand is wanted, a parenthesis that is open, the name of an operation with
some of its arguments, or names that end with a dot. -/
inductive PrimaryCut (G : Grammar) (H : Fragments) : Fragments
  | operand : PrimaryCut G H .operand []
  | inner {w : Wanted} {start : Token} {ts : List Token} :
    start.kind = .parenStart → H w ts → PrimaryCut G H w (start :: ts)
  | parens {start : Token} {ts : List Token} :
    start.kind = .parenStart → Phrase G ts → PrimaryCut G H .parenEnd (start :: ts)
  | argument {w : Wanted} {name start : Token} {op : Operation} {ts : List Token} :
    name.kind = .symbol → op.callName.toList = name.text.toList.map Char.toLower →
      start.kind = .parenStart → Cut (·.kind = .comma) (Phrases G) H w ts →
      PrimaryCut G H w (name :: start :: ts)
  | call {name start : Token} {op : Operation} {ts : List Token} :
    name.kind = .symbol → op.callName.toList = name.text.toList.map Char.toLower →
      start.kind = .parenStart → Phrases G ts → PrimaryCut G H .parenEnd (name :: start :: ts)
  | reference {name dot : Token} {ts : List Token} {names : List String} :
    name.kind = .symbol → Names ts names → dot.kind = .dot →
      PrimaryCut G H .fieldName (name :: (ts ++ [dot]))

/-! ### The layers of sentences -/

abbrev Products : Grammar := Folded [.multiply, .divide] (Signed (Primary Sentence))

abbrev Sums : Grammar := Folded [.sum, .minus] Products

abbrev Comparisons : Grammar := Equality Sums

abbrev Conjunctions : Grammar := Joined .and Comparisons

abbrev Disjunctions : Grammar := Joined .or Conjunctions

/-- **Tokens that end within a sentence,** where an operand, a field name or a closing parenthesis is
wanted. -/
inductive Unfinished : Fragments
  | intro {w : Wanted} {ts : List Token} :
    Cut (Joins [.or]) (Phrase Disjunctions) (Cut (Joins [.and]) (Phrase Conjunctions)
      (Cut (Joins [.equal, .notEqual]) (Phrase Comparisons) (Cut (Joins [.sum, .minus]) (Phrase Sums)
        (Cut (Joins [.multiply, .divide]) (Phrase Products)
          (SignedCut (PrimaryCut Sentence Unfinished)))))) w ts → Unfinished w ts

variable {α : Type} {n finish : Nat} {p : Parser} {q : List Token → Except ParseError α}
  {G : Grammar} {H : Fragments} {L : List Token → Prop} {sep : Token → Prop} {k : TokenKind}
  {op : Operation} {ops ops' : List Operation} {t name : Token} {ts us vs : List Token}
  {e left : Expr} {es args : List Expr} {w : Wanted} {err : ParseError}

/-- No fragment starts with a token of a kind. -/
def Shuns (k : TokenKind) (H : Fragments) : Prop :=
  ∀ w ts, H w ts → ∀ t ∈ ts.head?, t.kind ≠ k

theorem PrimaryCut.head_kind (h : PrimaryCut G H w ts) :
    ∀ t ∈ ts.head?, t.kind = .parenStart ∨ t.kind = .symbol := by
  cases h with
  | operand => exact fun _ h => nomatch h
  | inner hk _ | parens hk _ => rintro _ ⟨⟩; exact .inl hk
  | argument hk _ _ _ | call hk _ _ _ | reference hk _ _ => rintro _ ⟨⟩; exact .inr hk

theorem shuns_primaryCut (hstart : k ≠ .parenStart) (hsymbol : k ≠ .symbol) :
    Shuns k (PrimaryCut G H) := by
  rintro w ts h t ht rfl
  exact (h.head_kind t ht).elim hstart hsymbol

theorem Shuns.signed (hk : k ≠ .operator) (h : Shuns k H) : Shuns k (SignedCut H) := by
  intro w ts hts
  rcases hts with hts | ⟨-, ht, -⟩
  · exact h w ts hts
  · rintro _ ⟨⟩
    rw [kind_of_isOperator ht]
    exact hk.symm

theorem Shuns.cut (hL : ∀ us, L us → ∃ t vs, us = t :: vs ∧ t.kind ≠ k) (h : Shuns k H) :
    Shuns k (Cut sep L H) := by
  intro w ts hts
  rcases hts with hts | ⟨hus, -, -⟩
  · exact h w ts hts
  · obtain ⟨t, vs, rfl, ht⟩ := hL _ hus
    rintro _ ⟨⟩
    exact ht

theorem Shuns.layer (hG : Opens G) (h : Shuns .parenEnd H) : Shuns .parenEnd (Cut sep (Phrase G) H) :=
  h.cut fun _ hus => hus.elim fun _ hus => hG _ _ hus

/-- No fragment starts with a closing parenthesis. -/
theorem shuns_unfinished : Shuns .parenEnd Unfinished := by
  rintro w ts ⟨h⟩
  have hproduct : Opens Products := opens_primary.signed.folded
  have hsum : Opens Sums := hproduct.folded
  have hoperand : Shuns .parenEnd (SignedCut (PrimaryCut Sentence Unfinished)) :=
    (shuns_primaryCut (by decide) (by decide)).signed (by decide)
  refine Shuns.layer hsum.equality.joined.joined ?_ w ts h
  refine Shuns.layer hsum.equality.joined (Shuns.layer hsum.equality ?_)
  exact Shuns.layer hsum (Shuns.layer hproduct hoperand)

/-! ## Failures -/

/-- A failure at one of the tokens. -/
def OnToken (ts : List Token) (err : ParseError) : Prop :=
  ∃ t ∈ ts, ∃ fault, err = .on t fault ∧ ∀ w, fault ≠ .ended w

theorem OnToken.head {fault : ParseFault} (h : ∀ w, fault ≠ .ended w) :
    OnToken (t :: ts) (.on t fault) := ⟨t, List.mem_cons_self, fault, rfl, h⟩

theorem OnToken.mono (hts : ts ⊆ us) (h : OnToken ts err) : OnToken us err := by
  obtain ⟨t, ht, hfault⟩ := h
  exact ⟨t, hts ht, hfault⟩

/-- `q` fails at a token, or behind fewer than `n` tokens that are a fragment of `H`, and behind all
of these. -/
structure Fails (n finish : Nat) (q : List Token → Except ParseError α) (H : Fragments) : Prop where
  sound : ∀ ts err, q ts = .error err → ts.length < n →
    OnToken ts err ∨ ∃ w, err = ⟨finish, .ended w⟩ ∧ H w ts
  complete : ∀ w ts, H w ts → ts.length < n → q ts = .error ⟨finish, .ended w⟩

/-- `q` fails at a token, or where `p` fails: in front, or after a phrase of `L` and a separator. -/
structure Relays (n : Nat) (p : Parser) (q : List Token → Except ParseError α)
    (L : List Token → Prop) (sep : Token → Prop) : Prop where
  origin : ∀ ts err, q ts = .error err → OnToken ts err ∨ p ts = .error err ∨
    ∃ us t vs, ts = us ++ t :: vs ∧ L us ∧ sep t ∧ p vs = .error err
  first : ∀ ts err, p ts = .error err → q ts = .error err
  later : ∀ us t vs err, L us → us.length < n → sep t → p vs = .error err →
    q (us ++ t :: vs) = .error err

/-- **What relays failures fails behind the fragments of its layer.** -/
theorem Relays.fails (hq : Relays n p q L sep) (hp : Fails n finish p H) :
    Fails n finish q (Cut sep L H) where
  sound ts err h hn := by
    obtain htoken | hfirst | ⟨us, t, vs, rfl, hus, ht, hlater⟩ := hq.origin ts err h
    · exact .inl htoken
    · exact (hp.sound ts err hfirst hn).imp_right fun ⟨w, herr, hts⟩ => ⟨w, herr, .first hts⟩
    · simp only [List.length_append, List.length_cons] at hn
      obtain htoken | ⟨w, herr, hvs⟩ := hp.sound vs err hlater (by omega)
      · exact .inl (htoken.mono (by simp))
      · exact .inr ⟨w, herr, .later hus ht hvs⟩
  complete w ts h hn := by
    rcases h with h | ⟨hus, ht, h⟩
    · exact hq.first _ _ (hp.complete w ts h hn)
    · simp only [List.length_append, List.length_cons] at hn
      exact hq.later _ _ _ _ hus (by omega) ht (hp.complete w _ h (by omega))

/-! ## Chains of one operation -/

/-- A chain fails at an operand after some others. -/
theorem operandsAfter_origin (hp : Reads n p G ops) (ts : List Token) :
    ∀ {err}, operandsAfter op p ts = .error err → ∃ us es t vs, ts = us ++ t :: vs ∧
      Chain op G us es ∧ t.isOperator op.spelling ∧ p vs = .error err := by
  induction hn : ts.length using Nat.strongRecOn generalizing ts with
  | ind m ih =>
    subst hn
    intro err h
    by_cases hb : Begins op.spelling ts
    · obtain ⟨t, ts, rfl, ht⟩ := exists_of_begins hb
      simp only [hp.operandsAfter_begins ht, bind_error, Prod.exists] at h
      obtain h | ⟨e, rest, hread, h | ⟨_, _, -, h⟩⟩ := h
      · exact ⟨[], [], t, ts, rfl, .nil, ht, h⟩
      · obtain ⟨us, rfl, hG⟩ := hp.sound _ _ _ hread
        have hlt : rest.length < (t :: (us ++ rest)).length := by
          simp only [List.length_cons, List.length_append]
          omega
        obtain ⟨vs, es, s, ws, rfl, hchain, hs, hfail⟩ := ih _ hlt rest rfl h
        exact ⟨t :: (us ++ vs), e :: es, s, ws, by simp, .cons ht hG hchain, hs, hfail⟩
      · exact absurd h pure_ne_error
    · exact nomatch (operandsAfter_stops hb).symm.trans h

/-- A chain before an operator of its own starts with one. -/
theorem Chain.begins_append (h : Chain op G us es) (ht : t.isOperator op.spelling) :
    Begins op.spelling (us ++ t :: vs) := by
  rcases h with - | ⟨hs, -, -⟩
  · exact ht
  · exact hs

theorem operandsAfter_later (hp : Reads n p G ops) (hop : op ∈ ops) (h : Chain op G us es)
    (hn : us.length < n) (ht : t.isOperator op.spelling) (hfail : p vs = .error err) :
    operandsAfter op p (us ++ t :: vs) = .error err := by
  induction h with
  | nil =>
    rw [List.nil_append, hp.operandsAfter_begins ht, hfail]
    rfl
  | @cons s ts us e es hs hG hchain ih =>
    simp only [List.length_cons, List.length_append] at hn
    have hnext : Ends ops (us ++ t :: vs) := ends_of_begins hop (hchain.begins_append ht)
    have hread : p (ts ++ (us ++ t :: vs)) = .ok (e, us ++ t :: vs) :=
      hp.complete _ _ _ hG (by omega) hnext
    rw [List.cons_append, List.append_assoc, hp.operandsAfter_begins hs, hread]
    simp [bind, Except.bind, ih (by omega)]

theorem phrase_joined (h : G us e) (hchain : Chain op G vs es) : Phrase (Joined op G) (us ++ vs) := by
  rcases hchain with - | ⟨ht, hG, hchain⟩
  · exact ⟨e, by simpa using .one h⟩
  · exact ⟨_, .many h (.cons ht hG hchain)⟩

/-- Joined operands are the first of them and a chain of the others. -/
theorem Joined.split (h : Joined op G ts e) :
    ∃ us vs first others, ts = us ++ vs ∧ G us first ∧ Chain op G vs others := by
  rcases h with h | ⟨h, hchain⟩
  · exact ⟨ts, [], e, [], (List.append_nil ts).symm, h, .nil⟩
  · exact ⟨_, _, _, _, rfl, h, hchain⟩

theorem joins_singleton : Joins [op] t ↔ t.isOperator op.spelling = true := by simp [Joins]

theorem Reads.relays_variadic (hp : Reads n p G (op :: ops)) :
    Relays n p (Expr.variadic op p) (Phrase (Joined op G)) (Joins [op]) where
  origin ts err h := by
    simp only [Expr.variadic, bind_error, Prod.exists] at h
    obtain h | ⟨first, rest, hread, h | ⟨_, _, -, h⟩⟩ := h
    · exact .inr (.inl h)
    · obtain ⟨us, rfl, hG⟩ := hp.sound _ _ _ hread
      obtain ⟨vs, es, t, ws, rfl, hchain, ht, hfail⟩ := operandsAfter_origin hp _ h
      exact .inr (.inr ⟨us ++ vs, t, ws, by simp, phrase_joined hG hchain, joins_singleton.mpr ht,
        hfail⟩)
    · exact absurd h pure_ne_error
  first ts err h := by rw [Expr.variadic, h]; rfl
  later ts t vs err h hn ht hfail := by
    obtain ⟨e, h⟩ := h
    rw [joins_singleton] at ht
    obtain ⟨us, ws, first, others, rfl, hG, hchain⟩ := h.split
    rw [List.length_append] at hn
    have hnext : Ends (op :: ops) (ws ++ t :: vs) :=
      ends_of_begins List.mem_cons_self (hchain.begins_append ht)
    have hread : p (us ++ (ws ++ t :: vs)) = .ok (first, ws ++ t :: vs) :=
      hp.complete _ _ _ hG (by omega) hnext
    rw [Expr.variadic, List.append_assoc, hread]
    simp [bind, Except.bind,
      operandsAfter_later hp List.mem_cons_self hchain (by omega) ht hfail]

/-! ## Equality -/

theorem equalityAfter_origin (hp : Reads n p G ops) (ts : List Token) :
    ∀ {ended vs left err}, Compared G ended vs left → (ended → ¬Begins "==" ts) →
      equalityAfter p left ts = .error err → ∃ us t ws, ts = us ++ t :: ws ∧
        Phrase (Equality G) (vs ++ us) ∧ Joins [.equal, .notEqual] t ∧ p ws = .error err := by
  induction hn : ts.length using Nat.strongRecOn generalizing ts with
  | ind m ih =>
    subst hn
    intro ended vs left err hleft hended h
    by_cases heq : Begins "==" ts
    · obtain rfl : ended = false := by simpa using fun he => hended he heq
      obtain ⟨t, ts, rfl, ht⟩ := exists_of_begins heq
      simp only [hp.equalityAfter_equal ht, bind_error, Prod.exists] at h
      obtain h | ⟨es, rest, hrun, h⟩ := h
      · obtain ⟨us, es, s, ws, hts, hchain, hs, hfail⟩ := operandsAfter_origin hp _ h
        refine ⟨us, s, ws, hts, ?_, ⟨.equal, by simp, hs⟩, hfail⟩
        rcases hchain with - | ⟨hu, hG, hchain⟩
        · exact ⟨left, by simpa using ⟨hleft⟩⟩
        · exact ⟨_, ⟨.run hleft (.cons hu hG hchain)⟩⟩
      · obtain ⟨⟨us, hts, hchain⟩, hend⟩ := operandsAfter_sound hp _ hrun
        cases hchain with
        | nil =>
          obtain rfl : t :: ts = rest := hts
          exact absurd heq hend
        | @cons u vs us e es hu hG hchain =>
          have hlt : rest.length < (t :: ts).length := by
            rw [hts, List.length_append, List.length_cons]
            omega
          obtain ⟨xs, s, ws, rfl, hphrase, hs, hfail⟩ :=
            ih _ hlt rest rfl (.run hleft (.cons hu hG hchain)) (fun _ => hend) h
          exact ⟨u :: (vs ++ us) ++ xs, s, ws, by rw [hts, List.append_assoc], by simpa using hphrase,
            hs, hfail⟩
    · by_cases hne : Begins "!=" ts
      · obtain ⟨t, ts, rfl, ht⟩ := exists_of_begins hne
        simp only [hp.equalityAfter_differ ht, bind_error, Prod.exists] at h
        obtain h | ⟨right, rest, hread, h⟩ := h
        · exact ⟨[], t, ts, rfl, ⟨left, by simpa using ⟨hleft⟩⟩, ⟨.notEqual, by simp, ht⟩, h⟩
        · obtain ⟨us, rfl, hG⟩ := hp.sound _ _ _ hread
          have hlt : rest.length < (t :: (us ++ rest)).length := by
            simp only [List.length_cons, List.length_append]
            omega
          obtain ⟨xs, s, ws, rfl, hphrase, hs, hfail⟩ :=
            ih _ hlt rest rfl (.differ hleft ht hG) (fun he => absurd he Bool.false_ne_true) h
          exact ⟨t :: (us ++ xs), s, ws, by simp, by simpa using hphrase, hs, hfail⟩
      · exact nomatch (equalityAfter_stops heq hne).symm.trans h

/-- A comparison is one that ends with no run, and a run after it, which may be empty. -/
theorem Compared.split {ended : Bool} (h : Compared G ended ts e) :
    ∃ us vs left others, ts = us ++ vs ∧ Compared G false us left ∧ Chain .equal G vs others := by
  cases ended with
  | false => exact ⟨ts, [], e, [], (List.append_nil ts).symm, h, .nil⟩
  | true =>
    cases h with
    | run h hchain => exact ⟨_, _, _, _, rfl, h, hchain⟩

theorem Reads.relays_equality (hp : Reads n p G (.equal :: .notEqual :: ops)) :
    Relays n p (Expr.equality p) (Phrase (Equality G)) (Joins [.equal, .notEqual]) where
  origin ts err h := by
    simp only [Expr.equality, bind_error, Prod.exists] at h
    obtain h | ⟨left, rest, hread, h⟩ := h
    · exact .inr (.inl h)
    · obtain ⟨us, rfl, hG⟩ := hp.sound _ _ _ hread
      obtain ⟨vs, t, ws, rfl, hphrase, ht, hfail⟩ :=
        equalityAfter_origin hp _ (.one hG) (fun he => absurd he Bool.false_ne_true) h
      exact .inr (.inr ⟨us ++ vs, t, ws, by simp, hphrase, ht, hfail⟩)
  first ts err h := by rw [Expr.equality, h]; rfl
  later us t vs err h hn ht hfail := by
    obtain ⟨e, ⟨h⟩⟩ := h
    obtain ⟨op, hop, ht⟩ := ht
    have hmem : op ∈ Operation.equal :: .notEqual :: ops := List.mem_append_left ops hop
    have hends : Ends (.equal :: .notEqual :: ops) (t :: vs) := ends_of_begins hmem ht
    simp only [List.mem_cons, List.not_mem_nil, or_false] at hop
    obtain rfl | rfl := hop
    · -- the run goes on, or starts here
      obtain ⟨us, ws, left, others, rfl, h, hchain⟩ := h.split
      rw [List.length_append] at hn
      have hbegins : Begins "==" (ws ++ t :: vs) := hchain.begins_append ht
      have hleft : Expr.equality p (us ++ (ws ++ t :: vs)) = equalityAfter p left (ws ++ t :: vs) :=
        equality_eq_equalityAfter hp h (by omega) (ends_of_begins List.mem_cons_self hbegins)
          fun he => absurd he Bool.false_ne_true
      obtain ⟨s, xs, hxs, hs⟩ := exists_of_begins hbegins
      rw [List.append_assoc, hleft, hxs, hp.equalityAfter_equal hs, ← hxs,
        operandsAfter_later hp List.mem_cons_self hchain (by omega) ht hfail]
      rfl
    · rw [equality_eq_equalityAfter hp h hn hends fun _ heq =>
        absurd ((text_of_isOperator heq).symm.trans (text_of_isOperator ht)) (by decide),
        hp.equalityAfter_differ ht, hfail]
      rfl

/-! ## Arithmetic -/

theorem checkOperator_error (h : checkOperator ts = .error err) : OnToken ts err := by
  match ts with
  | [] => cases h
  | t :: ts =>
    rw [checkOperator] at h
    split at h
    · obtain rfl := Except.error.inj h
      exact .head (by simp)
    · cases h

theorem binaryAfter_origin (hp : Reads n p G ops') (ts : List Token) :
    ∀ {vs left err}, Folded ops G vs left → binaryAfter ops p left ts = .error err →
      OnToken ts err ∨ ∃ us t ws, ts = us ++ t :: ws ∧ Phrase (Folded ops G) (vs ++ us) ∧
        Joins ops t ∧ p ws = .error err := by
  induction hn : ts.length using Nat.strongRecOn generalizing ts with
  | ind m ih =>
    subst hn
    intro vs left err hleft h
    match hcheck : checkOperator ts with
    | .error err' =>
      rw [binaryAfter.eq_def, hcheck] at h
      obtain rfl := Except.error.inj h
      exact .inl (checkOperator_error hcheck)
    | .ok () =>
      by_cases hb : ∀ op ∈ ops, ¬Begins op.spelling ts
      · exact nomatch (binaryAfter_stops hcheck hb).symm.trans h
      · obtain ⟨op, hop, hb⟩ : ∃ op ∈ ops, Begins op.spelling ts := by simpa using hb
        obtain ⟨t, ts, rfl, ht⟩ := exists_of_begins hb
        obtain ⟨op, hfind⟩ : ∃ op, (ops.find? fun op => t.isOperator op.spelling) = some op :=
          Option.isSome_iff_exists.mp (List.find?_isSome.mpr ⟨op, hop, ht⟩)
        obtain ⟨hop, ht⟩ := of_find? hfind
        simp only [hp.binaryAfter_begins hcheck hfind, bind_error, Prod.exists] at h
        obtain h | ⟨right, rest, hread, h⟩ := h
        · exact .inr ⟨[], t, ts, rfl, ⟨left, by simpa using hleft⟩, ⟨op, hop, ht⟩, h⟩
        · obtain ⟨us, rfl, hG⟩ := hp.sound _ _ _ hread
          have hlt : rest.length < (t :: (us ++ rest)).length := by
            simp only [List.length_cons, List.length_append]
            omega
          obtain htoken | ⟨xs, s, ws, rfl, hphrase, hs, hfail⟩ :=
            ih _ hlt rest rfl (.more hleft hop ht hG) h
          · exact .inl (htoken.mono (by simp))
          · exact .inr ⟨t :: (us ++ xs), s, ws, by simp, by simpa using hphrase, hs, hfail⟩

theorem Reads.relays_binary (hp : Reads n p G (ops ++ ops')) (hops : Distinct ops)
    (hbinary : ∀ o ∈ ops ++ ops', o.isBinary) :
    Relays n p (Expr.binary ops p) (Phrase (Folded ops G)) (Joins ops) where
  origin ts err h := by
    simp only [Expr.binary, bind_error, Prod.exists] at h
    obtain h | ⟨left, rest, hread, h⟩ := h
    · exact .inr (.inl h)
    · obtain ⟨us, rfl, hG⟩ := hp.sound _ _ _ hread
      obtain htoken | ⟨vs, t, ws, rfl, hphrase, ht, hfail⟩ := binaryAfter_origin hp _ (.one hG) h
      · exact .inl (htoken.mono (List.subset_append_right ..))
      · exact .inr (.inr ⟨us ++ vs, t, ws, by simp, hphrase, ht, hfail⟩)
  first ts err h := by rw [Expr.binary, h]; rfl
  later us t vs err h hn ht hfail := by
    obtain ⟨e, h⟩ := h
    obtain ⟨op, hop, ht⟩ := ht
    have hends : Ends (ops ++ ops') (t :: vs) := ends_of_begins (List.mem_append_left _ hop) ht
    rw [binary_eq_binaryAfter hp hops hbinary h hn hends, hp.binaryAfter_begins
      (checkOperator_of_ends hbinary hends) (hops.find? hop ht), hfail]
    rfl

/-! ## Signs -/

/-- **Signs change nothing about where an operand fails,** if no fragment of one starts with an
operator. -/
theorem Fails.signed (hp : Fails n finish p H) (hH : Shuns .operator H) :
    Fails n finish (Expr.signed p) (SignedCut H) where
  sound ts := by
    induction ts with
    | nil =>
      intro err h hn
      rw [Expr.signed] at h
      obtain htoken | ⟨w, herr, hts⟩ := hp.sound [] err h hn
      · exact .inl htoken
      · exact .inr ⟨w, herr, .bare hts⟩
    | cons t ts ih =>
      intro err h hn
      by_cases hb : ∀ op ∈ [Operation.not, .negate], ¬Begins op.spelling (t :: ts)
      · rw [signed_bare hb] at h
        obtain htoken | ⟨w, herr, hts⟩ := hp.sound _ err h hn
        · exact .inl htoken
        · exact .inr ⟨w, herr, .bare hts⟩
      · obtain ⟨op, hop, ht⟩ : ∃ op ∈ [Operation.not, .negate], t.isOperator op.spelling = true := by
          simpa only [Classical.not_forall, Classical.not_not, begins_cons, exists_prop] using hb
        simp only [signed_sign hop ht, bind_error, Prod.exists] at h
        obtain h | ⟨_, _, -, h⟩ := h
        · obtain htoken | ⟨w, herr, hts⟩ := ih err h (Nat.lt_of_succ_lt hn)
          · exact .inl (htoken.mono (List.subset_cons_self ..))
          · exact .inr ⟨w, herr, .sign hop ht hts⟩
        · exact absurd h pure_ne_error
  complete w ts h hn := by
    induction h with
    | @bare w ts h =>
      have hbare : ∀ op ∈ [Operation.not, .negate], ¬Begins op.spelling ts := by
        intro op _ hb
        obtain ⟨t, us, rfl, ht⟩ := exists_of_begins hb
        exact hH _ _ h t rfl (kind_of_isOperator ht)
      rw [signed_bare hbare]
      exact hp.complete w ts h hn
    | sign hop ht _ ih =>
      rw [List.length_cons] at hn
      rw [signed_sign hop ht, ih (by omega)]
      rfl

/-! ## Operands -/

theorem parenEnd_error (h : parenEnd finish ts = .error err) :
    OnToken ts err ∨ err = ⟨finish, .ended .parenEnd⟩ ∧ ts = [] := by
  match ts with
  | [] => exact .inr ⟨(Except.error.inj h).symm, rfl⟩
  | t :: ts =>
    rw [parenEnd] at h
    split at h
    · cases h
    · obtain rfl := Except.error.inj h
      exact .inl (.head (by simp))

theorem namesAfter_error (ts : List Token) : ∀ {err}, namesAfter finish ts = .error err →
    OnToken ts err ∨ err = ⟨finish, .ended .fieldName⟩ ∧
      ∃ us names dot, ts = us ++ [dot] ∧ Names us names ∧ dot.kind = .dot := by
  fun_induction namesAfter finish ts with
  | case1 | case5 =>
    intro err h
    cases h
  | case2 dot hdot =>
    intro err h
    exact .inr ⟨(Except.error.inj h).symm, [], [], dot, rfl, .nil, hdot⟩
  | case3 dot hdot name ts hname ih =>
    intro err h
    simp only [bind_error, Prod.exists] at h
    obtain h | ⟨_, _, -, h⟩ := h
    · obtain htoken | ⟨herr, us, names, last, rfl, hnames, hlast⟩ := ih h
      · exact .inl (htoken.mono (by simp))
      · exact .inr ⟨herr, dot :: name :: us, _, last, rfl, .cons hdot hname hnames, hlast⟩
    · exact absurd h pure_ne_error
  | case4 dot hdot name ts hname =>
    intro err h
    obtain rfl := Except.error.inj h
    exact .inl ((OnToken.head (by simp)).mono (List.subset_cons_self ..))

theorem namesAfter_ended {names : List String} (ht : t.kind = .dot) (h : Names us names) :
    namesAfter finish (us ++ [t]) = .error ⟨finish, .ended .fieldName⟩ := by
  induction h with
  | nil =>
    rw [List.nil_append, namesAfter.eq_def]
    simp only [if_pos ht]
  | cons hdot hname _ ih =>
    rw [List.cons_append, List.cons_append, namesAfter.eq_def]
    simp only [if_pos hdot, if_pos hname, ih]
    rfl

/-- A list of arguments fails where one of them does. -/
theorem Reads.relays_argumentList (hp : Reads n p G []) :
    Relays n p (argumentList p) (Phrases G) (·.kind = .comma) where
  origin ts := by
    induction hn : ts.length using Nat.strongRecOn generalizing ts with
    | ind m ih =>
      subst hn
      intro err h
      match hpt : p ts with
      | .error err' =>
        rw [argumentList.eq_def, hpt] at h
        exact .inr (.inl (congrArg _ (Except.error.inj h)))
      | .ok (e, rest) =>
        obtain ⟨us, rfl, hG⟩ := hp.sound _ _ _ hpt
        by_cases hcomma : ∀ t ∈ rest.head?, t.kind ≠ .comma
        · exact nomatch (argumentList_last hpt hcomma).symm.trans h
        · match rest with
          | [] => simp at hcomma
          | t :: rest =>
            have ht : t.kind = .comma := by simpa using hcomma
            simp only [hp.argumentList_comma hpt ht, bind_error, Prod.exists] at h
            obtain h | ⟨_, _, -, h⟩ := h
            · have hlt : rest.length < (us ++ t :: rest).length := hp.length_le hpt
              obtain htoken | hfirst | ⟨vs, s, ws, rfl, ⟨args, hargs⟩, hs, hfail⟩ :=
                ih _ hlt rest rfl err h
              · exact .inl (htoken.mono (by simp))
              · exact .inr (.inr ⟨us, t, rest, rfl, ⟨[e], .one hG⟩, ht, hfirst⟩)
              · exact .inr (.inr ⟨us ++ t :: vs, s, ws, by simp, ⟨_, .more hG ht hargs⟩, hs, hfail⟩)
            · exact absurd h pure_ne_error
  first ts err h := by rw [argumentList.eq_def, h]
  later us t vs err h hn ht hfail := by
    have hend : argumentList p vs = .error err := by rw [argumentList.eq_def, hfail]
    obtain ⟨args, h⟩ := h
    induction h with
    | one hG =>
      rw [hp.argumentList_comma (hp.complete _ _ _ hG hn (.inr (.inl ht))) ht, hend]
      rfl
    | @more comma ts us e es hG hcomma _ ih =>
      rw [List.length_append, List.length_cons] at hn
      have hread : p (ts ++ comma :: (us ++ t :: vs)) = .ok (e, comma :: (us ++ t :: vs)) :=
        hp.complete _ _ _ hG (by omega) (.inr (.inl hcomma))
      rw [List.append_assoc, List.cons_append, hp.argumentList_comma hread hcomma, ih (by omega)]
      rfl

/-- Arguments fail within one of them, or where their closing parenthesis is wanted. -/
theorem arguments_error (hp : Reads n p G []) (hf : Fails n finish p H)
    (h : arguments finish p ts = .error err) (hn : ts.length < n) : OnToken ts err ∨
      (∃ w, err = ⟨finish, .ended w⟩ ∧ Cut (·.kind = .comma) (Phrases G) H w ts) ∨
        err = ⟨finish, .ended .parenEnd⟩ ∧ Phrases G ts := by
  by_cases hts : ∀ t ∈ ts.head?, t.kind ≠ .parenEnd
  · simp only [arguments_some hts, bind_error, Prod.exists] at h
    obtain h | ⟨args, rest, hread, h | ⟨_, -, h⟩⟩ := h
    · exact ((hp.relays_argumentList.fails hf).sound ts err h hn).imp_right .inl
    · obtain ⟨us, rfl, hlist⟩ := argumentList_sound hp _ hread
      obtain htoken | ⟨rfl, rfl⟩ := parenEnd_error h
      · exact .inl (htoken.mono (List.subset_append_right ..))
      · exact .inr (.inr ⟨rfl, args, by simpa using hlist⟩)
    · exact absurd h pure_ne_error
  · match ts with
    | [] => simp at hts
    | t :: ts => exact nomatch (arguments_none (by simpa using hts)).symm.trans h

theorem call_error (hp : Reads n p G []) (hf : Fails n finish p H) {start : Token}
    (hname : name.kind = .symbol) (hstart : start.kind = .parenStart)
    (h : call finish p name ts = .error err) (hn : ts.length < n) :
    OnToken (name :: start :: ts) err ∨
      ∃ w, err = ⟨finish, .ended w⟩ ∧ PrimaryCut G H w (name :: start :: ts) := by
  rw [call] at h
  split at h
  · obtain rfl := Except.error.inj h
    exact .inl (.head (by simp))
  · next op hop =>
    have hop := ofCallName?_eq_some.mp hop
    simp only [bind_error, Prod.exists] at h
    obtain h | ⟨args, rest, -, h⟩ := h
    · obtain htoken | ⟨w, herr, hcut⟩ | ⟨herr, hlist⟩ := arguments_error hp hf h hn
      · exact .inl (htoken.mono (by simp))
      · exact .inr ⟨w, herr, .argument hname hop hstart hcut⟩
      · exact .inr ⟨.parenEnd, herr, .call hname hop hstart hlist⟩
    · split at h
      · exact absurd h pure_ne_error
      · obtain rfl := Except.error.inj h
        exact .inl (.head (by simp))

theorem reference_error (hname : name.kind = .symbol)
    (h : reference finish name ts = .error err) : OnToken (name :: ts) err ∨
      ∃ w, err = ⟨finish, .ended w⟩ ∧ PrimaryCut G H w (name :: ts) := by
  simp only [reference, bind_error, Prod.exists] at h
  obtain h | ⟨_, _, -, h⟩ := h
  · obtain htoken | ⟨herr, us, names, dot, rfl, hnames, hdot⟩ := namesAfter_error _ h
    · exact .inl (htoken.mono (List.subset_cons_self ..))
    · exact .inr ⟨.fieldName, herr, .reference hname hnames hdot⟩
  · exact absurd h pure_ne_error

theorem primary_error (hp : Reads n p G []) (hf : Fails n finish p H)
    (h : primary finish p ts = .error err) (hn : ts.length < n + 1) :
    OnToken ts err ∨ ∃ w, err = ⟨finish, .ended w⟩ ∧ PrimaryCut G H w ts := by
  match ts with
  | [] => exact .inr ⟨.operand, (Except.error.inj h).symm, .operand⟩
  | t :: ts =>
    have hts : ts.length < n := Nat.lt_of_succ_lt_succ hn
    rw [primary.eq_def] at h
    simp only at h
    split at h
    · split at h
      · cases h
      · obtain rfl := Except.error.inj h
        exact .inl (.head (by simp))
    · cases h
    · cases h
    · next hk =>
      simp only [bind_error, Prod.exists] at h
      obtain h | ⟨e, rest, hread, h | ⟨_, -, h⟩⟩ := h
      · obtain htoken | ⟨w, herr, hcut⟩ := hf.sound _ _ h hts
        · exact .inl (htoken.mono (List.subset_cons_self ..))
        · exact .inr ⟨w, herr, .inner hk hcut⟩
      · obtain ⟨us, rfl, hG⟩ := hp.sound _ _ _ hread
        obtain htoken | ⟨rfl, rfl⟩ := parenEnd_error h
        · exact .inl (htoken.mono (by simp))
        · exact .inr ⟨.parenEnd, rfl, .parens hk ⟨e, by simpa using hG⟩⟩
      · exact absurd h pure_ne_error
    · next hk =>
      split at h
      · split at h
        · next hstart => exact call_error hp hf hk hstart h (Nat.lt_of_succ_lt hts)
        · exact reference_error hk h
      · exact reference_error hk h
    · obtain rfl := Except.error.inj h
      exact .inl (.head (by simp))

theorem primary_call {start : Token} (hname : name.kind = .symbol)
    (hop : op.callName.toList = name.text.toList.map Char.toLower)
    (hstart : start.kind = .parenStart) (h : arguments finish p ts = .error err) :
    primary finish p (name :: start :: ts) = .error err := by
  simp [primary, hname, hstart, call, ofCallName?_eq_some.mpr hop, h, bind, Except.bind]

theorem primary_ended (hp : Reads n p G []) (hG : Opens G) (hf : Fails n finish p H)
    (hH : Shuns .parenEnd H) (h : PrimaryCut G H w ts) (hn : ts.length < n + 1) :
    primary finish p ts = .error ⟨finish, .ended w⟩ := by
  have hlists {us : List Token} (h : Phrases G us) : ∃ t vs, us = t :: vs ∧ t.kind ≠ .parenEnd :=
    h.elim fun _ h => hG.listed h
  cases h with
  | operand => rw [primary]
  | inner hk h =>
    simp [primary, hk, hf.complete _ _ h (Nat.lt_of_succ_lt_succ hn), bind, Except.bind]
  | @parens start ts hk h =>
    obtain ⟨e, h⟩ := h
    have hread : p ts = .ok (e, []) := by
      simpa using hp.complete ts e [] h (Nat.lt_of_succ_lt_succ hn) trivial
    simp [primary, hk, hread, parenEnd, bind, Except.bind]
  | @argument _ name start op ts hk hop hstart h =>
    simp only [List.length_cons] at hn
    have hread : argumentList p ts = .error ⟨finish, .ended w⟩ :=
      (hp.relays_argumentList.fails hf).complete w ts h (by omega)
    refine primary_call hk hop hstart ?_
    rw [arguments_some (hH.cut (fun _ => hlists) w ts h), hread]
    rfl
  | @call name start op ts hk hop hstart h =>
    simp only [List.length_cons] at hn
    obtain ⟨args, hlist⟩ := h
    have hread : argumentList p ts = .ok (args, []) := by
      have hnone : ∀ t ∈ ([] : List Token).head?, t.kind = .parenEnd := by simp
      simpa using argumentList_complete hp hlist (by omega) hnone
    refine primary_call hk hop hstart ?_
    have hopen : ∀ t ∈ ts.head?, t.kind ≠ .parenEnd := by
      obtain ⟨t, us, rfl, ht⟩ := hG.listed hlist
      rintro _ ⟨⟩
      exact ht
    rw [arguments_some hopen, hread]
    rfl
  | @reference name dot ts names hk hnames hdot =>
    have hparen : ∀ t ∈ (ts ++ [dot]).head?, t.kind ≠ .parenStart :=
      hnames.head_kind (by simp [hdot])
    rw [primary_reference hk hparen, reference, namesAfter_ended hdot hnames]
    rfl

/-- **Where constants, references, calls and parentheses fail.** -/
theorem Fails.primary (hf : Fails n finish p H) (hp : Reads n p G []) (hG : Opens G)
    (hH : Shuns .parenEnd H) : Fails (n + 1) finish (Expr.primary finish p) (PrimaryCut G H) where
  sound _ _ h hn := primary_error hp hf h hn
  complete _ _ h hn := primary_ended hp hG hf hH h hn

/-! ## Expressions -/

/-- **An expression fails at a token, or behind the tokens of a fragment.** -/
theorem fails_expression (finish : Nat) :
    ∀ depth, Fails depth finish (expression finish depth) Unfinished
  | 0 => ⟨fun _ _ _ h => absurd h (Nat.not_lt_zero _), fun _ _ _ h => absurd h (Nat.not_lt_zero _)⟩
  | depth + 1 => by
    have hreads := reads_expression finish depth
    have hprimary : Reads (depth + 1) (Expr.primary finish (expression finish depth))
        (Primary Sentence) infixes := hreads.primary opens_sentence
    have hsigned := hprimary.signed fun _ _ h =>
      let ⟨t, us, hts, _, ht⟩ := h.first
      ⟨t, us, hts, ht⟩
    have hproduct := hsigned.binary (by unfold Distinct; decide) (by decide) (by decide)
    have hsum := hproduct.binary (by unfold Distinct; decide) (by decide) (by decide)
    have hequality := hsum.equality (by decide) (by decide)
    have hand := hequality.variadic (by decide)
    have hf : Fails (depth + 1) finish _ (PrimaryCut Sentence Unfinished) :=
      (fails_expression finish depth).primary hreads opens_sentence shuns_unfinished
    have hproducts := (hsigned.relays_binary (by unfold Distinct; decide) (by decide)).fails
      (hf.signed (shuns_primaryCut (by decide) (by decide)))
    have hsums := (hproduct.relays_binary (by unfold Distinct; decide) (by decide)).fails hproducts
    have hor := hand.relays_variadic.fails
      (hequality.relays_variadic.fails (hsum.relays_equality.fails hsums))
    exact ⟨fun ts err h hn => (hor.sound ts err h hn).imp_right fun ⟨w, herr, hts⟩ =>
      ⟨w, herr, ⟨hts⟩⟩, fun w ts ⟨h⟩ hn => hor.complete w ts h hn⟩

theorem parseTokens_error (h : parseTokens finish ts = .error err) :
    OnToken ts err ∨ ∃ w, err = ⟨finish, .ended w⟩ ∧ Unfinished w ts := by
  simp only [parseTokens, bind_error, Prod.exists] at h
  obtain h | ⟨e, rest, hread, h⟩ := h
  · exact (fails_expression finish _).sound ts err h (Nat.lt_succ_self _)
  · obtain ⟨us, rfl, -⟩ := (reads_expression finish _).sound _ _ _ hread
    match rest with
    | [] => exact absurd h pure_ne_error
    | t :: rest =>
      obtain rfl := Except.error.inj h
      exact .inl ((OnToken.head (by simp)).mono (List.subset_append_right ..))

theorem parseTokens_ended (h : Unfinished w ts) :
    parseTokens finish ts = .error ⟨finish, .ended w⟩ := by
  have hfail := (fails_expression finish (ts.length + 1)).complete w ts h (Nat.lt_succ_self _)
  rw [parseTokens, hfail]
  rfl

/-! ## Texts -/

/-- Where a failure lies in its text. -/
structure Located (source : String) (err : ParseError) : Prop where
  le : err.position ≤ source.length
  /-- It lies at the end when something is wanted there. -/
  ended : err.position = source.length ↔ ∃ w, err.fault = .ended w
  /-- Something is wanted at the end exactly when the text has tokens, and they are a fragment. -/
  unfinished : ∀ w, err.fault = .ended w ↔
    ∃ ts, tokens source = .ok ts ∧ Unfinished w (ts.filter fun t => t.kind != .whitespace)
  /-- Any other failure lies at a token, or where the text cannot be scanned any more. -/
  inside : err.position ≠ source.length →
    (∃ ts, tokens source = .ok ts ∧ ∃ t ∈ ts, t.kind ≠ .whitespace ∧ t.position = err.position) ∨
      tokens source = .error err ∧ Stuck source err

theorem Stuck.lt_length {source : String} (h : Stuck source err) :
    err.position < source.length := by
  obtain ⟨hsource, -, -⟩ := h
  rw [← String.length_toList, hsource]
  simp

theorem Stuck.not_ended {source : String} (h : Stuck source err) (w : Wanted) :
    err.fault ≠ .ended w := by
  obtain ⟨-, -, hfault⟩ := h
  cases hfault <;> exact fun h => nomatch h

variable {source : String}

/-- **A text whose tokens are a fragment** fails behind them. -/
theorem parse_of_unfinished (htokens : tokens source = .ok ts)
    (hts : Unfinished w (ts.filter fun t => t.kind != .whitespace)) :
    parse source = .error ⟨source.length, .ended w⟩ := by
  rw [parse, htokens]
  exact parseTokens_ended hts

theorem eq_of_unfinished (h : parse source = .error err) (hts : ∃ ts, tokens source = .ok ts ∧
    Unfinished w (ts.filter fun t => t.kind != .whitespace)) : err = ⟨source.length, .ended w⟩ := by
  obtain ⟨ts, htokens, hts⟩ := hts
  exact Except.error.inj (h.symm.trans (parse_of_unfinished htokens hts))

/-- A failure before the end at which nothing is wanted. -/
theorem located_inside (h : parse source = .error err) (hlt : err.position < source.length)
    (hfault : ∀ w, err.fault ≠ .ended w) (hinside : (∃ ts, tokens source = .ok ts ∧
      ∃ t ∈ ts, t.kind ≠ .whitespace ∧ t.position = err.position) ∨
        tokens source = .error err ∧ Stuck source err) : Located source err where
  le := hlt.le
  ended := iff_of_false hlt.ne fun ⟨w, hw⟩ => hfault w hw
  unfinished w := iff_of_false (hfault w) fun hts =>
    hfault w (congrArg ParseError.fault (eq_of_unfinished h hts))
  inside _ := hinside

/-- **Failures of the reader are located.**  A text is read, or fails at a place that tells why; and
a text whose tokens are a fragment always fails behind them. -/
theorem parse_or_located (source : String) :
    ((∃ e, parse source = .ok e) ∨ ∃ err, parse source = .error err ∧ Located source err) ∧
      ∀ w ts, tokens source = .ok ts →
        Unfinished w (ts.filter fun t => t.kind != .whitespace) →
          parse source = .error ⟨source.length, .ended w⟩ := by
  refine ⟨?_, fun w ts => parse_of_unfinished⟩
  cases h : parse source with
  | ok e => exact .inl ⟨e, rfl⟩
  | error err =>
    refine .inr ⟨err, rfl, ?_⟩
    obtain ⟨ps, hscans, htokens⟩ | ⟨err', htokens, hstuck⟩ := scans_or_stuck source
    · have htext : source.length = (covered ps).length := by
        rw [← String.length_toList, hscans.append, List.append_nil]
      have hread : parseTokens source.length
          ((tokensAt 0 ps).filter fun t => t.kind != .whitespace) = .error err := by
        rw [parse, htokens] at h
        exact h
      obtain ⟨t, ht, fault, rfl, hfault⟩ | ⟨w, rfl, hts⟩ := parseTokens_error hread
      · obtain ⟨ht, hkind⟩ := List.mem_filter.mp ht
        have hlt : t.position < source.length := by
          simpa [htext] using lt_of_mem_tokensAt hscans.slice_ne_nil ht
        exact located_inside h hlt hfault (.inl ⟨_, htokens, t, ht, by simpa using hkind, rfl⟩)
      · refine ⟨le_rfl, iff_of_true rfl ⟨w, rfl⟩, fun w' => ?_, fun hne => absurd rfl hne⟩
        constructor
        · rintro ⟨⟩
          exact ⟨_, htokens, hts⟩
        · exact fun hts => congrArg ParseError.fault (eq_of_unfinished h hts)
    · obtain rfl : err' = err := by
        rw [parse, htokens] at h
        exact Except.error.inj h
      exact located_inside h hstuck.lt_length hstuck.not_ended (.inr ⟨htokens, hstuck⟩)

end Fieldbook.Expr
