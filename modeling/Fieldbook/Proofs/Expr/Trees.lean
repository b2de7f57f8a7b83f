import Fieldbook.Proofs.Expr.Grammar

/-!
# Proofs/Expr/Trees — the trees that sentences write

Every operation of a written tree stands on as many operands as it accepts, no constant is missing,
and every reference has a name (`Written`).  The grammar builds no other trees, and this is shown
layer by layer: operands that are written make phrases of a layer that are (`written_of_sentence`).

`Expr.parts` lists a tree with all trees within it, so that a condition on the constants or the
references of a tree is one on its parts.
-/

namespace Fieldbook

namespace Expr

/-! ## Parts -/

mutual

/-- The tree and all trees within it. -/
def parts : Expr → List Expr
  | .const v => [.const v]
  | .symbol path => [.symbol path]
  | .apply op args => .apply op args :: partsAll args

def partsAll : List Expr → List Expr
  | [] => []
  | e :: rest => parts e ++ partsAll rest

end

theorem mem_partsAll {e part : Expr} {es : List Expr} (he : e ∈ es) (h : part ∈ e.parts) :
    part ∈ partsAll es := by
  induction es with
  | nil => exact nomatch he
  | cons d es ih =>
    rw [partsAll, List.mem_append]
    rcases List.mem_cons.mp he with rfl | he
    · exact .inl h
    · exact .inr (ih he)

theorem self_mem_parts (e : Expr) : e ∈ e.parts := by
  cases e <;> simp [parts]

/-- The parts of an operand are parts of the whole. -/
theorem mem_parts_apply {op : Operation} {args : List Expr} {e part : Expr} (he : e ∈ args)
    (h : part ∈ e.parts) : part ∈ (Expr.apply op args).parts :=
  List.mem_cons_of_mem _ (mem_partsAll he h)

/-! ## Written trees -/

/-- A tree in which every operation accepts its operands. -/
inductive Written : Expr → Prop
  | const {v : Operand} : v ≠ .missing → Written (.const v)
  | symbol {name : String} {names : List String} : Written (.symbol (name :: names))
  | apply {op : Operation} {args : List Expr} :
    op.accepts args.length → (∀ e ∈ args, Written e) → Written (.apply op args)

/-- The phrases of `G` with fewer than `n` tokens write such trees. -/
def WritesBelow (n : Nat) (G : Grammar) : Prop :=
  ∀ ts e, G ts e → ts.length < n → Written e

variable {n : Nat} {G : Grammar} {op : Operation} {ops : List Operation} {ts : List Token}
  {e : Expr} {es : List Expr}

theorem Chain.written (hG : WritesBelow n G) (h : Chain op G ts es) (hn : ts.length < n) :
    ∀ e ∈ es, Written e := by
  induction h with
  | nil => exact fun _ he => nomatch he
  | cons _ hfirst _ ih =>
    simp only [List.length_cons, List.length_append] at hn
    exact List.forall_mem_cons.mpr ⟨hG _ _ hfirst (by omega), ih (by omega)⟩

theorem WritesBelow.joined (hop : ∀ k, op.accepts (k + 2)) (hG : WritesBelow n G) :
    WritesBelow n (Joined op G) := by
  intro ts e h hn
  rcases h with h | ⟨hfirst, hchain⟩
  · exact hG _ _ h hn
  · rw [List.length_append] at hn
    exact .apply (hop _) (List.forall_mem_cons.mpr
      ⟨hG _ _ hfirst (by omega), hchain.written hG (by omega)⟩)

theorem WritesBelow.equality (hG : WritesBelow n G) : WritesBelow n (Equality G) := by
  rintro ts e ⟨h⟩ hn
  induction h with
  | one h => exact hG _ _ h hn
  | run _ hchain ih =>
    rw [List.length_append] at hn
    exact .apply (by simp [Operation.accepts]) (List.forall_mem_cons.mpr
      ⟨ih (by omega), hchain.written hG (by omega)⟩)
  | differ _ _ hright ih =>
    rw [List.length_append, List.length_cons] at hn
    exact .apply rfl (by simp [ih (by omega), hG _ _ hright (by omega)])

theorem WritesBelow.folded (hops : ∀ op ∈ ops, op.accepts 2) (hG : WritesBelow n G) :
    WritesBelow n (Folded ops G) := by
  intro ts e h hn
  induction h with
  | one h => exact hG _ _ h hn
  | more _ hop _ hright ih =>
    rw [List.length_append, List.length_cons] at hn
    exact .apply (hops _ hop) (by simp [ih (by omega), hG _ _ hright (by omega)])

theorem WritesBelow.signed (hG : WritesBelow n G) : WritesBelow n (Signed G) := by
  intro ts e h hn
  induction h with
  | bare h => exact hG _ _ h hn
  | @sign op _ _ _ hop _ _ ih =>
    rw [List.length_cons] at hn
    have haccepts : op.accepts 1 := by
      simp only [List.mem_cons, List.not_mem_nil, or_false] at hop
      obtain rfl | rfl := hop <;> rfl
    exact .apply haccepts (by simpa using ih (by omega))

theorem Listed.written (hG : WritesBelow n G) (h : Listed G ts es) (hn : ts.length < n) :
    ∀ e ∈ es, Written e := by
  induction h with
  | one h => simpa using hG _ _ h hn
  | more h _ _ ih =>
    rw [List.length_append, List.length_cons] at hn
    exact List.forall_mem_cons.mpr ⟨hG _ _ h (by omega), ih (by omega)⟩

/-- Parentheses and calls take tokens of their own. -/
theorem WritesBelow.primary (hG : WritesBelow n G) : WritesBelow (n + 1) (Primary G) := by
  intro ts e h hn
  cases h with
  | number _ _ | text _ | truth _ _ => exact .const (fun h => nomatch h)
  | parens _ h _ =>
    simp only [List.length_cons, List.length_append, List.length_nil] at hn
    exact hG _ _ h (by omega)
  | call _ _ _ h _ haccepts =>
    simp only [List.length_cons, List.length_append, List.length_nil] at hn
    exact .apply haccepts (h.written hG (by omega))
  | reference _ _ => exact .symbol

theorem writesBelow_sentence : ∀ n, WritesBelow n Sentence
  | 0 => fun _ _ _ h => absurd h (Nat.not_lt_zero _)
  | n + 1 => fun ts e ⟨h⟩ => by
    have hsigned : WritesBelow (n + 1) (Signed (Primary Sentence)) :=
      (writesBelow_sentence n).primary.signed
    have hsum : WritesBelow (n + 1) (Folded [.sum, .minus] (Folded [.multiply, .divide] _)) :=
      (hsigned.folded (by decide)).folded (by decide)
    have hand : WritesBelow (n + 1) (Joined .and (Equality _)) :=
      hsum.equality.joined fun k => by simp [Operation.accepts]
    exact hand.joined (fun k => by simp [Operation.accepts]) ts e h

/-- **What a sentence writes is a tree in which every operation accepts its operands.** -/
theorem written_of_sentence (h : Sentence ts e) : Written e :=
  writesBelow_sentence _ ts e h (Nat.lt_succ_self _)

end Expr

end Fieldbook
