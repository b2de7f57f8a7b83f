import Fieldbook.Expr.Parser

/-!
# Proofs/Expr/Grammar — the grammar of expressions

A phrase is a list of tokens together with the tree that it writes.  The grammar has one layer for
each strength of binding, and each layer is given by the phrases of its operands, as the reader is
built from the readers of its operands.  `Sentence` closes the circle: it is the least grammar whose
operands are constants, field references, calls of sentences and sentences in parentheses.

What follows a phrase does not belong to it.  `Ends ops` holds of the tokens that may come after a
phrase beside which only the operations `ops` bind more loosely.
-/

namespace Fieldbook.Expr

/-- Phrases: which tokens write which tree. -/
abbrev Grammar := List Token → Expr → Prop

/-! ## Chains of one operation -/

/-- Operands of `G`, each after the operator of `op`. -/
inductive Chain (op : Operation) (G : Grammar) : List Token → List Expr → Prop
  | nil : Chain op G [] []
  | cons {t : Token} {ts us : List Token} {e : Expr} {es : List Expr} :
    t.isOperator op.spelling → G ts e → Chain op G us es → Chain op G (t :: (ts ++ us)) (e :: es)

/-- Operands joined by `op`: one operand, or one application to two or more of them. -/
inductive Joined (op : Operation) (G : Grammar) : Grammar
  | one {ts : List Token} {e : Expr} : G ts e → Joined op G ts e
  | many {ts us : List Token} {first second : Expr} {others : List Expr} :
    G ts first → Chain op G us (second :: others) →
      Joined op G (ts ++ us) (.apply op (first :: second :: others))

/-! ## Equality -/

/-- Operands joined by `==` and `!=`, from the left. A run of `==` gives one application to all that
stands to its left and the operands of the run. The flag tells that the phrase ends with a run, which
no other run may follow: so every run is as long as it can be. -/
inductive Compared (G : Grammar) : (runEnded : Bool) → Grammar
  | one {ts : List Token} {e : Expr} : G ts e → Compared G false ts e
  | run {ts us : List Token} {left second : Expr} {others : List Expr} :
    Compared G false ts left → Chain .equal G us (second :: others) →
      Compared G true (ts ++ us) (.apply .equal (left :: second :: others))
  | differ {ended : Bool} {t : Token} {ts us : List Token} {left right : Expr} :
    Compared G ended ts left → t.isOperator Operation.notEqual.spelling → G us right →
      Compared G false (ts ++ t :: us) (.apply .notEqual [left, right])

/-- Operands joined by comparisons. -/
inductive Equality (G : Grammar) : Grammar
  | intro {ended : Bool} {ts : List Token} {e : Expr} : Compared G ended ts e → Equality G ts e

/-! ## Arithmetic and signs -/

/-- Operands joined by operations of `ops`, two at a time from the left. -/
inductive Folded (ops : List Operation) (G : Grammar) : Grammar
  | one {ts : List Token} {e : Expr} : G ts e → Folded ops G ts e
  | more {op : Operation} {t : Token} {ts us : List Token} {left right : Expr} :
    Folded ops G ts left → op ∈ ops → t.isOperator op.spelling → G us right →
      Folded ops G (ts ++ t :: us) (.apply op [left, right])

/-- Any number of signs before an operand. -/
inductive Signed (G : Grammar) : Grammar
  | bare {ts : List Token} {e : Expr} : G ts e → Signed G ts e
  | sign {op : Operation} {t : Token} {ts : List Token} {e : Expr} :
    op ∈ [.not, .negate] → t.isOperator op.spelling → Signed G ts e →
      Signed G (t :: ts) (.apply op [e])

/-! ## Operands -/

/-- The further names of a field reference. -/
inductive Names : List Token → List String → Prop
  | nil : Names [] []
  | cons {dot name : Token} {ts : List Token} {names : List String} :
    dot.kind = .dot → name.kind = .symbol → Names ts names →
      Names (dot :: name :: ts) (name.text :: names)

/-- Phrases of `G` with commas between them. -/
inductive Listed (G : Grammar) : List Token → List Expr → Prop
  | one {ts : List Token} {e : Expr} : G ts e → Listed G ts [e]
  | more {comma : Token} {ts us : List Token} {e : Expr} {es : List Expr} :
    G ts e → comma.kind = .comma → Listed G us es → Listed G (ts ++ comma :: us) (e :: es)

/-- A constant, a field reference, a call of an operation with as many arguments as it accepts, or a
phrase of `G` in parentheses. -/
inductive Primary (G : Grammar) : Grammar
  | number {t : Token} {x : Double} :
    t.kind = .number → Double.readDigits? t.text.toList = some x → Primary G [t] (.const (.number x))
  | text {t : Token} : t.kind = .stringLiteral → Primary G [t] (.const (.text t.text))
  | truth {t : Token} {b : Bool} : t.kind = .booleanLiteral →
    (b = true ↔ t.text.toList.map Char.toLower = "true".toList) →
      Primary G [t] (.const (.boolean b))
  | parens {start finish : Token} {ts : List Token} {e : Expr} :
    start.kind = .parenStart → G ts e → finish.kind = .parenEnd →
      Primary G (start :: (ts ++ [finish])) e
  | call {name start finish : Token} {op : Operation} {ts : List Token} {args : List Expr} :
    name.kind = .symbol → op.callName.toList = name.text.toList.map Char.toLower →
      start.kind = .parenStart → Listed G ts args → finish.kind = .parenEnd →
      op.accepts args.length → Primary G (name :: start :: (ts ++ [finish])) (.apply op args)
  | reference {name : Token} {ts : List Token} {names : List String} :
    name.kind = .symbol → Names ts names → Primary G (name :: ts) (.symbol (name.text :: names))

/-! ## Sentences -/

/-- **The grammar of expressions.** -/
inductive Sentence : Grammar
  | intro {ts : List Token} {e : Expr} :
    Joined .or (Joined .and (Equality (Folded [.sum, .minus] (Folded [.multiply, .divide]
      (Signed (Primary Sentence)))))) ts e → Sentence ts e

/-! ## First tokens -/

/-- No phrase is empty or starts with a closing parenthesis. -/
def Opens (G : Grammar) : Prop :=
  ∀ (ts : List Token) (e : Expr), G ts e → ∃ t us, ts = t :: us ∧ t.kind ≠ .parenEnd

variable {G : Grammar} {ts : List Token} {e : Expr}

theorem Primary.first (h : Primary G ts e) :
    ∃ t us, ts = t :: us ∧ t.kind ≠ .parenEnd ∧ t.kind ≠ .operator := by
  cases h with
  | number hk _ | text hk | truth hk _ | parens hk _ _ | call hk _ _ _ _ _ | reference hk _ =>
    exact ⟨_, _, rfl, by simp [hk], by simp [hk]⟩

theorem opens_primary : Opens (Primary G) := fun _ _ h =>
  let ⟨t, us, hts, hend, _⟩ := h.first
  ⟨t, us, hts, hend⟩

/-- A phrase that starts with one that opens does so too. -/
theorem opens_append {us : List Token} (h : ∃ t vs, ts = t :: vs ∧ t.kind ≠ .parenEnd) :
    ∃ t vs, ts ++ us = t :: vs ∧ t.kind ≠ .parenEnd := by
  obtain ⟨t, vs, rfl, ht⟩ := h
  exact ⟨t, vs ++ us, rfl, ht⟩

theorem kind_of_isOperator {t : Token} {s : String} (h : t.isOperator s = true) :
    t.kind = .operator := by
  simp only [Token.isOperator, Bool.and_eq_true, beq_iff_eq] at h
  exact h.1

theorem text_of_isOperator {t : Token} {s : String} (h : t.isOperator s = true) : t.text = s := by
  simp only [Token.isOperator, Bool.and_eq_true, beq_iff_eq] at h
  exact h.2

theorem Opens.signed (hG : Opens G) : Opens (Signed G) := by
  intro ts e h
  rcases h with h | ⟨_, ht, _⟩
  · exact hG _ _ h
  · exact ⟨_, _, rfl, by rw [kind_of_isOperator ht]; decide⟩

theorem Opens.folded {ops : List Operation} (hG : Opens G) : Opens (Folded ops G) := by
  intro ts e h
  induction h with
  | one h => exact hG _ _ h
  | more _ _ _ _ ih => exact opens_append ih

theorem Opens.equality (hG : Opens G) : Opens (Equality G) := by
  rintro ts e ⟨h⟩
  induction h with
  | one h => exact hG _ _ h
  | run _ _ ih => exact opens_append ih
  | differ _ _ _ ih => exact opens_append ih

theorem Opens.joined {op : Operation} (hG : Opens G) : Opens (Joined op G) := by
  intro ts e h
  rcases h with h | ⟨h, _⟩
  · exact hG _ _ h
  · exact opens_append (hG _ _ h)

theorem opens_sentence : Opens Sentence := fun _ _ ⟨h⟩ =>
  opens_primary.signed.folded.folded.equality.joined.joined _ _ h

/-! ## What follows a phrase -/

/-- What may come after a phrase: the end, a closing parenthesis, a comma, or an operator of `ops`. -/
def Ends (ops : List Operation) : List Token → Prop
  | [] => True
  | t :: _ => t.kind = .parenEnd ∨ t.kind = .comma ∨ ∃ op ∈ ops, t.isOperator op.spelling

/-- Whether the tokens go on with an operator. -/
def Begins (s : String) : List Token → Prop
  | [] => False
  | t :: _ => t.isOperator s

variable {ops ops' : List Operation} {rest : List Token} {s : String}

theorem begins_cons {t : Token} : Begins s (t :: ts) ↔ t.isOperator s = true := Iff.rfl

theorem exists_of_begins (h : Begins s ts) : ∃ t us, ts = t :: us ∧ t.isOperator s = true := by
  match ts, h with
  | t :: us, h => exact ⟨t, us, rfl, h⟩

/-- A chain of one operand or more begins with its operator. -/
theorem Chain.begins {op : Operation} {es : List Expr} (h : Chain op G ts (e :: es))
    (rest : List Token) : Begins op.spelling (ts ++ rest) := by
  rcases h with _ | ⟨ht, _, _⟩
  exact ht

theorem Ends.mono (hops : ops ⊆ ops') (h : Ends ops rest) : Ends ops' rest := by
  match rest with
  | [] => trivial
  | t :: _ =>
    rcases h with h | h | ⟨op, hop, h⟩
    · exact .inl h
    · exact .inr (.inl h)
    · exact .inr (.inr ⟨op, hops hop, h⟩)

theorem ends_of_begins {op : Operation} (hop : op ∈ ops) (h : Begins op.spelling rest) :
    Ends ops rest := by
  match rest, h with
  | t :: _, h => exact .inr (.inr ⟨op, hop, h⟩)

/-- No operator comes next but those of `ops`. -/
theorem Ends.not_begins (hs : ∀ op ∈ ops, op.spelling ≠ s) (h : Ends ops rest) :
    ¬Begins s rest := by
  match rest with
  | [] => exact id
  | t :: _ =>
    intro hb
    have hkind := kind_of_isOperator hb
    rcases h with h | h | ⟨op, hop, h⟩
    · rw [hkind] at h
      exact nomatch h
    · rw [hkind] at h
      exact nomatch h
    · exact hs op hop ((text_of_isOperator h).symm.trans (text_of_isOperator hb))

/-- A token of another kind comes not next. -/
theorem Ends.kind_ne {k : TokenKind} (h : Ends ops rest) (hend : k ≠ .parenEnd)
    (hcomma : k ≠ .comma) (hop : k ≠ .operator) : ∀ t ∈ rest.head?, t.kind ≠ k := by
  match rest with
  | [] => simp
  | t :: _ =>
    rintro _ ⟨⟩ rfl
    rcases h with h | h | ⟨_, _, h⟩
    · exact hend h
    · exact hcomma h
    · exact hop (kind_of_isOperator h)

end Fieldbook.Expr
