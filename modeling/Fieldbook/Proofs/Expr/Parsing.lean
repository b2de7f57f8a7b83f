import Fieldbook.Proofs.Expr.Grammar

/-!
# Proofs/Expr/Parsing — the reader of expressions reads exactly the grammar

Every layer of the reader reads the phrases of its layer of the grammar, if the reader of its
operands reads theirs (`Reads`): what it takes from the front of the tokens is a phrase, and it takes
any phrase that is followed by what may follow it.  Nesting is bounded in both: a reader that goes
down `n` levels reads the phrases of fewer than `n` tokens, as parentheses take two of them.

So an expression is read exactly where the grammar derives it (`parse_ok_iff_sentence`), and as a
reader has one answer, no tokens derive two trees.
-/

namespace Fieldbook.Expr

theorem bind_ok {ε α β : Type} {x : Except ε α} {f : α → Except ε β} {b : β} :
    (x >>= f) = .ok b ↔ ∃ a, x = .ok a ∧ f a = .ok b := by
  rcases x with e | a <;> simp [bind, Except.bind]

theorem pure_ok {ε α : Type} {a b : α} : (pure a : Except ε α) = .ok b ↔ a = b := by
  simp [pure, Except.pure]

theorem bind_error {ε α β : Type} {x : Except ε α} {f : α → Except ε β} {err : ε} :
    (x >>= f) = .error err ↔ x = .error err ∨ ∃ a, x = .ok a ∧ f a = .error err := by
  rcases x with e | a <;> simp [bind, Except.bind]

theorem bind_pure_error {ε α β : Type} {x : Except ε α} {f : α → β} {err : ε} :
    (x >>= fun a => pure (f a)) = .error err ↔ x = .error err := by
  rcases x with e | a <;> simp [bind, Except.bind, pure, Except.pure]

theorem pure_ne_error {ε α : Type} {a : α} {err : ε} : (pure a : Except ε α) ≠ .error err :=
  fun h => nomatch h

/-- `p` reads the phrases of `G` with fewer than `n` tokens, where only the operations `ops` may
follow. -/
structure Reads (n : Nat) (p : Parser) (G : Grammar) (ops : List Operation) : Prop where
  sound : ∀ ts e rest, p ts = .ok (e, rest) → ∃ us, ts = us ++ rest ∧ G us e
  complete : ∀ us e rest, G us e → us.length < n → Ends ops rest → p (us ++ rest) = .ok (e, rest)

variable {n : Nat} {p : Parser} {G : Grammar} {op : Operation} {ops ops' : List Operation}
  {ts us rest : List Token} {e left : Expr} {es : List Expr} {t : Token}

theorem Reads.length_le (hp : Reads n p G ops) (h : p ts = .ok (e, rest)) :
    rest.length ≤ ts.length := by
  obtain ⟨us, rfl, _⟩ := hp.sound _ _ _ h
  simp

/-! ## Chains of one operation -/

theorem operandsAfter_stops (h : ¬Begins op.spelling ts) :
    operandsAfter op p ts = .ok ([], ts) := by
  match ts with
  | [] => rw [operandsAfter]
  | t :: ts =>
    rw [begins_cons] at h
    rw [operandsAfter, if_neg h]

/-- One more operand of a chain, and then the others. -/
theorem Reads.operandsAfter_begins (hp : Reads n p G ops) (h : t.isOperator op.spelling) :
    operandsAfter op p (t :: ts) = (do
      let (e, rest) ← p ts
      let (es, left) ← operandsAfter op p rest
      pure (e :: es, left)) := by
  rw [operandsAfter, if_pos h]
  rcases hpt : p ts with _ | ⟨e, rest⟩
  · rfl
  · have hlt : rest.length < (t :: ts).length := Nat.lt_succ_of_le (hp.length_le hpt)
    simp only [dif_pos hlt, bind, Except.bind]
    rcases operandsAfter op p rest with _ | _ <;> rfl

/-- A chain is read as far as it goes. -/
theorem operandsAfter_sound (hp : Reads n p G ops) (ts : List Token) :
    ∀ {es rest}, operandsAfter op p ts = .ok (es, rest) →
      (∃ us, ts = us ++ rest ∧ Chain op G us es) ∧ ¬Begins op.spelling rest := by
  induction hn : ts.length using Nat.strongRecOn generalizing ts with
  | ind m ih =>
    subst hn
    intro es rest h
    by_cases hb : Begins op.spelling ts
    · obtain ⟨t, ts, rfl, ht⟩ := exists_of_begins hb
      simp only [hp.operandsAfter_begins ht, bind_ok, pure_ok, Prod.exists] at h
      obtain ⟨e, ts', hread, more, left, hmore, h⟩ := h
      obtain ⟨rfl, rfl⟩ := Prod.mk.inj h
      obtain ⟨us, rfl, hG⟩ := hp.sound _ _ _ hread
      obtain ⟨⟨vs, rfl, hchain⟩, hend⟩ :=
        ih ts'.length (by simp only [List.length_cons, List.length_append]; omega) ts' rfl hmore
      exact ⟨⟨t :: (us ++ vs), by simp, .cons ht hG hchain⟩, hend⟩
    · obtain ⟨rfl, rfl⟩ := Prod.mk.inj (Except.ok.inj ((operandsAfter_stops hb).symm.trans h))
      exact ⟨⟨[], rfl, .nil⟩, hb⟩

theorem operandsAfter_complete (hp : Reads n p G ops) (hop : op ∈ ops) (hrest : Ends ops rest)
    (hend : ¬Begins op.spelling rest) (h : Chain op G us es) (hn : us.length < n) :
    operandsAfter op p (us ++ rest) = .ok (es, rest) := by
  induction h with
  | nil => exact operandsAfter_stops hend
  | @cons t ts us e es ht hG hchain ih =>
    simp only [List.length_cons, List.length_append] at hn
    have hnext : Ends ops (us ++ rest) := by
      rcases hchain with - | ⟨ht, -, -⟩
      · exact hrest
      · exact ends_of_begins hop ht
    have hread : p (ts ++ (us ++ rest)) = .ok (e, us ++ rest) :=
      hp.complete _ _ _ hG (by omega) hnext
    have hmore : operandsAfter op p (us ++ rest) = .ok (es, rest) := ih (by omega)
    rw [List.cons_append, List.append_assoc, hp.operandsAfter_begins ht, hread]
    simp [bind, Except.bind, hmore, pure, Except.pure]

/-- **Operands joined by one operation.** -/
theorem Reads.variadic (hp : Reads n p G (op :: ops)) (hops : ∀ o ∈ ops, o.spelling ≠ op.spelling) :
    Reads n (variadic op p) (Joined op G) ops where
  sound ts e rest h := by
    simp only [Expr.variadic, bind_ok, pure_ok, Prod.exists] at h
    obtain ⟨first, ts', hfirst, others, rest', hothers, h⟩ := h
    obtain ⟨rfl, rfl⟩ := Prod.mk.inj h
    obtain ⟨us, rfl, hG⟩ := hp.sound _ _ _ hfirst
    obtain ⟨⟨vs, rfl, hchain⟩, -⟩ := operandsAfter_sound hp _ hothers
    rcases hchain with - | ⟨ht, hG', hchain⟩
    · exact ⟨us, rfl, .one hG⟩
    · exact ⟨_, (List.append_assoc ..).symm, .many hG (.cons ht hG' hchain)⟩
  complete us e rest h hn hrest := by
    have hrest' : Ends (op :: ops) rest := hrest.mono (List.subset_cons_self ..)
    have hend : ¬Begins op.spelling rest := hrest.not_begins hops
    rw [Expr.variadic]
    rcases h with hG | ⟨hG, hchain⟩
    · rw [hp.complete _ _ _ hG hn hrest']
      simp [bind, Except.bind, operandsAfter_stops hend, pure, Except.pure]
    · rw [List.length_append] at hn
      have hread := hp.complete _ _ _ hG (by omega)
        (ends_of_begins List.mem_cons_self (hchain.begins rest))
      have hmore := operandsAfter_complete hp List.mem_cons_self hrest' hend hchain (by omega)
      rw [List.append_assoc, hread]
      simp [bind, Except.bind, hmore, pure, Except.pure]

/-! ## Equality -/

theorem equalityAfter_stops (heq : ¬Begins "==" ts) (hne : ¬Begins "!=" ts) :
    equalityAfter p left ts = .ok (left, ts) := by
  match ts with
  | [] => rw [equalityAfter]
  | t :: ts =>
    rw [begins_cons] at heq hne
    rw [equalityAfter, if_neg heq, if_neg hne]

/-- A run of `==` is one comparison. -/
theorem Reads.equalityAfter_equal (hp : Reads n p G ops) (h : t.isOperator "==") :
    equalityAfter p left (t :: ts) = (do
      let (es, rest) ← operandsAfter .equal p (t :: ts)
      equalityAfter p (.apply .equal (left :: es)) rest) := by
  rw [equalityAfter, if_pos h]
  rcases hrun : operandsAfter .equal p (t :: ts) with _ | ⟨es, rest⟩
  · rfl
  · obtain ⟨⟨us, hts, hchain⟩, hend⟩ := operandsAfter_sound hp _ hrun
    have hlt : rest.length < (t :: ts).length := by
      rcases hchain with - | ⟨-, -, -⟩
      · obtain rfl : t :: ts = rest := hts
        exact absurd h hend
      · rw [hts, List.length_append, List.length_cons]
        omega
    simp only [dif_pos hlt, bind, Except.bind]

/-- Each `!=` compares two. -/
theorem Reads.equalityAfter_differ (hp : Reads n p G ops) (h : t.isOperator "!=") :
    equalityAfter p left (t :: ts) = (do
      let (e, rest) ← p ts
      equalityAfter p (.apply .notEqual [left, e]) rest) := by
  have hne : ¬t.isOperator "==" = true := fun heq =>
    absurd ((text_of_isOperator heq).symm.trans (text_of_isOperator h)) (by decide)
  rw [equalityAfter, if_neg hne, if_pos h]
  rcases hpt : p ts with _ | ⟨e, rest⟩
  · rfl
  · have hlt : rest.length < (t :: ts).length := Nat.lt_succ_of_le (hp.length_le hpt)
    simp only [dif_pos hlt, bind, Except.bind]

/-- What goes on after a comparison is a comparison, in which no run follows another. -/
theorem equalityAfter_sound (hp : Reads n p G ops) (ts : List Token) :
    ∀ {ended vs left e rest}, Compared G ended vs left → (ended → ¬Begins "==" ts) →
      equalityAfter p left ts = .ok (e, rest) →
        ∃ us, ts = us ++ rest ∧ Equality G (vs ++ us) e := by
  induction hn : ts.length using Nat.strongRecOn generalizing ts with
  | ind m ih =>
    subst hn
    intro ended vs left e rest hleft hended h
    by_cases heq : Begins "==" ts
    · obtain rfl : ended = false := by simpa using fun he => hended he heq
      obtain ⟨t, ts, rfl, ht⟩ := exists_of_begins heq
      simp only [hp.equalityAfter_equal ht, bind_ok, Prod.exists] at h
      obtain ⟨es, ts', hrun, h⟩ := h
      obtain ⟨⟨us, hts, hchain⟩, hend⟩ := operandsAfter_sound hp _ hrun
      cases es with
      | nil =>
        cases hchain
        obtain rfl : t :: ts = ts' := hts
        exact absurd heq hend
      | cons second others =>
        have hlt : ts'.length < (t :: ts).length := by
          cases hchain
          rw [hts, List.length_append, List.length_cons]
          omega
        obtain ⟨ws, rfl, hres⟩ := ih _ hlt ts' rfl (.run hleft hchain) (fun _ => hend) h
        exact ⟨us ++ ws, by simpa using hts, by simpa using hres⟩
    · by_cases hne : Begins "!=" ts
      · obtain ⟨t, ts, rfl, ht⟩ := exists_of_begins hne
        simp only [hp.equalityAfter_differ ht, bind_ok, Prod.exists] at h
        obtain ⟨right, ts', hread, h⟩ := h
        obtain ⟨us, rfl, hG⟩ := hp.sound _ _ _ hread
        have hlt : ts'.length < (t :: (us ++ ts')).length := by
          simp only [List.length_cons, List.length_append]
          omega
        obtain ⟨ws, rfl, hres⟩ := ih _ hlt ts' rfl (.differ hleft ht hG) (fun he => nomatch he) h
        exact ⟨t :: (us ++ ws), by simp, by simpa using hres⟩
      · obtain ⟨rfl, rfl⟩ :=
          Prod.mk.inj (Except.ok.inj ((equalityAfter_stops heq hne).symm.trans h))
        exact ⟨[], rfl, by simpa using ⟨hleft⟩⟩

/-- A comparison has been read when its last operand has. -/
theorem equality_eq_equalityAfter (hp : Reads n p G (.equal :: .notEqual :: ops)) {ended : Bool}
    (h : Compared G ended us e) (hn : us.length < n)
    (hrest : Ends (.equal :: .notEqual :: ops) rest) (hended : ended → ¬Begins "==" rest) :
    equality p (us ++ rest) = equalityAfter p e rest := by
  induction h generalizing rest with
  | one hG =>
    rw [equality, hp.complete _ _ _ hG hn hrest]
    rfl
  | @run ts us left second others _ hchain ih =>
    rw [List.length_append] at hn
    have hbegins : Begins "==" (us ++ rest) := hchain.begins rest
    have hleft : equality p (ts ++ (us ++ rest)) = equalityAfter p left (us ++ rest) :=
      ih (by omega) (ends_of_begins List.mem_cons_self hbegins) (fun he => nomatch he)
    have hrun : operandsAfter .equal p (us ++ rest) = .ok (second :: others, rest) :=
      operandsAfter_complete hp List.mem_cons_self hrest (hended rfl) hchain (by omega)
    obtain ⟨t, ts', hts, ht⟩ := exists_of_begins hbegins
    rw [List.append_assoc, hleft, hts, hp.equalityAfter_equal ht, ← hts, hrun]
    rfl
  | @differ ended t ts us left right _ ht hG ih =>
    rw [List.length_append, List.length_cons] at hn
    have hends : Ends (.equal :: .notEqual :: ops) (t :: us ++ rest) :=
      .inr (.inr ⟨.notEqual, by simp, ht⟩)
    have hleft : equality p (ts ++ (t :: us ++ rest)) = equalityAfter p left (t :: us ++ rest) :=
      ih (by omega) hends fun _ heq =>
        absurd ((text_of_isOperator heq).symm.trans (text_of_isOperator ht)) (by decide)
    rw [List.append_assoc, hleft, List.cons_append, hp.equalityAfter_differ ht,
      hp.complete _ _ _ hG (by omega) hrest]
    rfl

/-- **Operands joined by comparisons.** -/
theorem Reads.equality (hp : Reads n p G (.equal :: .notEqual :: ops))
    (heq : ∀ o ∈ ops, o.spelling ≠ "==") (hne : ∀ o ∈ ops, o.spelling ≠ "!=") :
    Reads n (equality p) (Equality G) ops where
  sound ts e rest h := by
    simp only [Expr.equality, bind_ok, Prod.exists] at h
    obtain ⟨left, ts', hleft, h⟩ := h
    obtain ⟨us, rfl, hG⟩ := hp.sound _ _ _ hleft
    obtain ⟨vs, rfl, hres⟩ := equalityAfter_sound hp _ (.one hG) (fun he => nomatch he) h
    exact ⟨us ++ vs, by simp, hres⟩
  complete us e rest h hn hrest := by
    obtain ⟨h⟩ := h
    have hrest' : Ends (.equal :: .notEqual :: ops) rest :=
      hrest.mono (List.subset_append_right [.equal, .notEqual] ops)
    rw [equality_eq_equalityAfter hp h hn hrest' fun _ => hrest.not_begins heq,
      equalityAfter_stops (hrest.not_begins heq) (hrest.not_begins hne)]

/-! ## Arithmetic -/

theorem Operation.mem_all (op : Operation) : op ∈ Operation.all := by cases op <;> decide

/-- Where only binary operations may follow, no operator is unknown. -/
theorem checkOperator_of_ends (hops : ∀ o ∈ ops, o.isBinary) (h : Ends ops rest) :
    checkOperator rest = .ok () := by
  match rest with
  | [] => rfl
  | t :: _ =>
    rw [checkOperator, if_neg]
    rintro ht
    simp only [Bool.and_eq_true, beq_iff_eq, Option.isNone_iff_eq_none] at ht
    rcases h with h | h | ⟨o, ho, h⟩
    · exact absurd (ht.1.symm.trans h) (by decide)
    · exact absurd (ht.1.symm.trans h) (by decide)
    · rw [text_of_isOperator h, Operation.ofSpelling?, List.find?_eq_none] at ht
      exact ht.2 o o.mem_all (by simp [hops o ho])

/-- The operation that a token is the operator of. -/
theorem of_find? (h : (ops.find? fun op => t.isOperator op.spelling) = some op) :
    op ∈ ops ∧ t.isOperator op.spelling := by
  have hop := List.find?_some h
  exact ⟨List.mem_of_find?_eq_some h, hop⟩

theorem binaryAfter_stops (hcheck : checkOperator ts = .ok ())
    (h : ∀ op ∈ ops, ¬Begins op.spelling ts) : binaryAfter ops p left ts = .ok (left, ts) := by
  rw [binaryAfter.eq_def, hcheck]
  match ts with
  | [] => rfl
  | t :: ts =>
    have hfind : (ops.find? fun op => t.isOperator op.spelling) = none :=
      List.find?_eq_none.mpr h
    simp only [hfind]

/-- Each operation takes one more operand. -/
theorem Reads.binaryAfter_begins (hp : Reads n p G ops') (hcheck : checkOperator (t :: ts) = .ok ())
    (h : (ops.find? fun op => t.isOperator op.spelling) = some op) :
    binaryAfter ops p left (t :: ts) = (do
      let (e, rest) ← p ts
      binaryAfter ops p (.apply op [left, e]) rest) := by
  rw [binaryAfter, hcheck]
  simp only [h]
  rcases hpt : p ts with _ | ⟨e, rest⟩
  · rfl
  · have hlt : rest.length < (t :: ts).length := Nat.lt_succ_of_le (hp.length_le hpt)
    simp only [dif_pos hlt, bind, Except.bind]

theorem binaryAfter_sound (hp : Reads n p G ops') (ts : List Token) :
    ∀ {vs left e rest}, Folded ops G vs left → binaryAfter ops p left ts = .ok (e, rest) →
      ∃ us, ts = us ++ rest ∧ Folded ops G (vs ++ us) e := by
  induction hn : ts.length using Nat.strongRecOn generalizing ts with
  | ind m ih =>
    subst hn
    intro vs left e rest hleft h
    have hcheck : checkOperator ts = .ok () := by
      rw [binaryAfter.eq_def] at h
      match hc : checkOperator ts with
      | .ok () => rfl
      | .error _ => simp [hc] at h
    by_cases hb : ∀ op ∈ ops, ¬Begins op.spelling ts
    · obtain ⟨rfl, rfl⟩ := Prod.mk.inj (Except.ok.inj ((binaryAfter_stops hcheck hb).symm.trans h))
      exact ⟨[], rfl, by simpa using hleft⟩
    · obtain ⟨op, hop, hb⟩ : ∃ op ∈ ops, Begins op.spelling ts := by simpa using hb
      obtain ⟨t, ts, rfl, ht⟩ := exists_of_begins hb
      obtain ⟨op, hfind⟩ : ∃ op, (ops.find? fun op => t.isOperator op.spelling) = some op :=
        Option.isSome_iff_exists.mp (List.find?_isSome.mpr ⟨op, hop, ht⟩)
      simp only [hp.binaryAfter_begins hcheck hfind, bind_ok, Prod.exists] at h
      obtain ⟨right, ts', hread, h⟩ := h
      obtain ⟨us, rfl, hG⟩ := hp.sound _ _ _ hread
      have hlt : ts'.length < (t :: (us ++ ts')).length := by
        simp only [List.length_cons, List.length_append]
        omega
      obtain ⟨ws, rfl, hres⟩ := ih _ hlt ts' rfl
        (.more hleft (of_find? hfind).1 (of_find? hfind).2 hG) h
      exact ⟨t :: (us ++ ws), by simp, by simpa using hres⟩

/-- No two of the operations are spelled alike. -/
def Distinct (ops : List Operation) : Prop :=
  ∀ o ∈ ops, ∀ o' ∈ ops, o.spelling = o'.spelling → o = o'

theorem Distinct.find? (hops : Distinct ops) (hop : op ∈ ops) (h : t.isOperator op.spelling) :
    (ops.find? fun op => t.isOperator op.spelling) = some op := by
  obtain ⟨o, hfind⟩ : ∃ o, (ops.find? fun op => t.isOperator op.spelling) = some o :=
    Option.isSome_iff_exists.mp (List.find?_isSome.mpr ⟨op, hop, h⟩)
  obtain ⟨ho, hto⟩ := of_find? hfind
  rw [hfind, hops o ho op hop ((text_of_isOperator hto).symm.trans (text_of_isOperator h))]

/-- An operation has been read when its last operand has. -/
theorem binary_eq_binaryAfter (hp : Reads n p G (ops ++ ops')) (hops : Distinct ops)
    (hbinary : ∀ o ∈ ops ++ ops', o.isBinary) (h : Folded ops G us e) (hn : us.length < n)
    (hrest : Ends (ops ++ ops') rest) : binary ops p (us ++ rest) = binaryAfter ops p e rest := by
  induction h generalizing rest with
  | one hG =>
    rw [binary, hp.complete _ _ _ hG hn hrest]
    rfl
  | @more op t ts us left right _ hop ht hG ih =>
    rw [List.length_append, List.length_cons] at hn
    have hends : Ends (ops ++ ops') (t :: (us ++ rest)) :=
      .inr (.inr ⟨op, List.mem_append_left _ hop, ht⟩)
    have hleft : binary ops p (ts ++ (t :: (us ++ rest))) = _ := ih (by omega) hends
    rw [List.append_assoc, List.cons_append, hleft, hp.binaryAfter_begins
      (checkOperator_of_ends hbinary hends) (hops.find? hop ht), hp.complete _ _ _ hG (by omega) hrest]
    rfl

/-- **Operands joined by operations on two.** -/
theorem Reads.binary (hp : Reads n p G (ops ++ ops')) (hops : Distinct ops)
    (hbinary : ∀ o ∈ ops ++ ops', o.isBinary)
    (hapart : ∀ o ∈ ops, ∀ o' ∈ ops', o'.spelling ≠ o.spelling) :
    Reads n (binary ops p) (Folded ops G) ops' where
  sound ts e rest h := by
    simp only [Expr.binary, bind_ok, Prod.exists] at h
    obtain ⟨left, ts', hleft, h⟩ := h
    obtain ⟨us, rfl, hG⟩ := hp.sound _ _ _ hleft
    obtain ⟨vs, rfl, hres⟩ := binaryAfter_sound hp _ (.one hG) h
    exact ⟨us ++ vs, by simp, hres⟩
  complete us e rest h hn hrest := by
    have hrest' : Ends (ops ++ ops') rest := hrest.mono (List.subset_append_right ..)
    rw [binary_eq_binaryAfter hp hops hbinary h hn hrest',
      binaryAfter_stops (checkOperator_of_ends hbinary hrest') fun o ho =>
        hrest.not_begins (hapart o ho)]

/-! ## Signs -/

theorem signed_sign (hop : op ∈ [Operation.not, .negate]) (h : t.isOperator op.spelling) :
    signed p (t :: ts) = (do
      let (e, rest) ← signed p ts
      pure (.apply op [e], rest)) := by
  simp only [List.mem_cons, List.not_mem_nil, or_false] at hop
  obtain rfl | rfl := hop
  · change t.isOperator "!" = true at h
    rw [signed, if_pos h]
  · change t.isOperator "-" = true at h
    have hne : ¬t.isOperator "!" = true := fun hn =>
      absurd ((text_of_isOperator hn).symm.trans (text_of_isOperator h)) (by decide)
    rw [signed, if_neg hne, if_pos h]

theorem signed_bare (h : ∀ op ∈ [Operation.not, .negate], ¬Begins op.spelling ts) :
    signed p ts = p ts := by
  match ts with
  | [] => rw [signed]
  | t :: ts =>
    have hnot : ¬t.isOperator "!" = true := h .not (by simp)
    have hnegate : ¬t.isOperator "-" = true := h .negate (by simp)
    rw [signed, if_neg hnot, if_neg hnegate]

theorem signed_sound (hp : Reads n p G ops) :
    ∀ ts {e rest}, signed p ts = .ok (e, rest) → ∃ us, ts = us ++ rest ∧ Signed G us e := by
  intro ts
  induction ts with
  | nil =>
    intro e rest h
    obtain ⟨us, hus, hG⟩ := hp.sound _ _ _ h
    exact ⟨us, hus, .bare hG⟩
  | cons t ts ih =>
    intro e rest h
    by_cases hb : ∀ op ∈ [Operation.not, .negate], ¬Begins op.spelling (t :: ts)
    · rw [signed_bare hb] at h
      obtain ⟨us, hus, hG⟩ := hp.sound _ _ _ h
      exact ⟨us, hus, .bare hG⟩
    · obtain ⟨op, hop, ht⟩ : ∃ op ∈ [Operation.not, .negate], t.isOperator op.spelling = true := by
        simpa only [Classical.not_forall, Classical.not_not, begins_cons, exists_prop] using hb
      simp only [signed_sign hop ht, bind_ok, pure_ok, Prod.exists] at h
      obtain ⟨e', rest', hread, h⟩ := h
      obtain ⟨rfl, rfl⟩ := Prod.mk.inj h
      obtain ⟨us, rfl, hG⟩ := ih hread
      exact ⟨t :: us, rfl, .sign hop ht hG⟩

/-- **Operands with signs,** if no operand starts with an operator. -/
theorem Reads.signed (hp : Reads n p G ops)
    (hfirst : ∀ us e, G us e → ∃ t vs, us = t :: vs ∧ t.kind ≠ .operator) :
    Reads n (signed p) (Signed G) ops where
  sound ts e rest h := signed_sound hp ts h
  complete us e rest h hn hrest := by
    induction h with
    | bare hG =>
      obtain ⟨t, vs, rfl, ht⟩ := hfirst _ _ hG
      have hbare : ∀ op ∈ [Operation.not, .negate], ¬Begins op.spelling (t :: vs ++ rest) :=
        fun op _ hb => ht (kind_of_isOperator hb)
      rw [signed_bare hbare, hp.complete _ _ _ hG hn hrest]
    | sign hop ht _ ih =>
      rw [List.length_cons] at hn
      rw [List.cons_append, signed_sign hop ht, ih (by omega)]
      rfl

/-! ## Operands -/

variable {finish : Nat} {names : List String} {name : Token} {args : List Expr}

theorem parenEnd_ok : parenEnd finish ts = .ok rest ↔ ∃ t, ts = t :: rest ∧ t.kind = .parenEnd := by
  match ts with
  | [] => simp [parenEnd]
  | t :: ts =>
    rw [parenEnd]
    by_cases ht : t.kind = .parenEnd
    · rw [if_pos ht, Except.ok.injEq]
      constructor
      · rintro rfl
        exact ⟨t, rfl, ht⟩
      · rintro ⟨_, ⟨⟩, -⟩
        rfl
    · simp only [if_neg ht, reduceCtorEq, List.cons.injEq, false_iff]
      rintro ⟨_, ⟨rfl, -⟩, h⟩
      exact ht h

theorem namesAfter_stops (h : ∀ t ∈ ts.head?, t.kind ≠ .dot) :
    namesAfter finish ts = .ok ([], ts) := by
  match ts with
  | [] => rw [namesAfter]
  | t :: ts => rw [namesAfter.eq_def]; simp only [if_neg (h t rfl)]

/-- The names of a field reference are read as far as they go. -/
theorem namesAfter_sound (ts : List Token) : ∀ {names rest},
    namesAfter finish ts = .ok (names, rest) → ∃ us, ts = us ++ rest ∧ Names us names := by
  fun_induction namesAfter finish ts with
  | case1 | case5 =>
    intro names rest h
    obtain ⟨rfl, rfl⟩ := Prod.mk.inj (Except.ok.inj h)
    exact ⟨[], rfl, .nil⟩
  | case2 | case4 => exact fun h => nomatch h
  | case3 dot hdot name ts hname ih =>
    intro names rest h
    simp only [bind_ok, pure_ok, Prod.exists] at h
    obtain ⟨more, rest', hmore, h⟩ := h
    obtain ⟨rfl, rfl⟩ := Prod.mk.inj h
    obtain ⟨us, rfl, hnames⟩ := ih hmore
    exact ⟨dot :: name :: us, rfl, .cons hdot hname hnames⟩

theorem namesAfter_complete (hrest : ∀ t ∈ rest.head?, t.kind ≠ .dot) (h : Names us names) :
    namesAfter finish (us ++ rest) = .ok (names, rest) := by
  induction h with
  | nil => exact namesAfter_stops hrest
  | cons hdot hname _ ih =>
    rw [List.cons_append, List.cons_append, namesAfter.eq_def]
    simp only [if_pos hdot, if_pos hname, ih]
    rfl

/-! ## Calls -/

theorem argumentList_last (h : p ts = .ok (e, rest)) (hrest : ∀ t ∈ rest.head?, t.kind ≠ .comma) :
    argumentList p ts = .ok ([e], rest) := by
  rw [argumentList.eq_def, h]
  match rest with
  | [] => rfl
  | t :: rest => simp only [if_neg (hrest t rfl)]

theorem Reads.argumentList_comma (hp : Reads n p G ops) (h : p ts = .ok (e, t :: rest))
    (ht : t.kind = .comma) : argumentList p ts = (do
      let (es, left) ← argumentList p rest
      pure (e :: es, left)) := by
  have hlt : rest.length < ts.length := hp.length_le h
  rw [argumentList.eq_def, h]
  simp only [if_pos ht, dif_pos hlt]
  cases argumentList p rest <;> rfl

theorem argumentList_sound (hp : Reads n p G ops) (ts : List Token) : ∀ {es rest},
    argumentList p ts = .ok (es, rest) → ∃ us, ts = us ++ rest ∧ Listed G us es := by
  induction hn : ts.length using Nat.strongRecOn generalizing ts with
  | ind m ih =>
    subst hn
    intro es rest h
    match hpt : p ts with
    | .error _ => rw [argumentList.eq_def, hpt] at h; exact nomatch h
    | .ok (e, rest') =>
      obtain ⟨us, rfl, hG⟩ := hp.sound _ _ _ hpt
      by_cases hcomma : ∀ t ∈ rest'.head?, t.kind ≠ .comma
      · obtain ⟨rfl, rfl⟩ :=
          Prod.mk.inj (Except.ok.inj ((argumentList_last hpt hcomma).symm.trans h))
        exact ⟨us, rfl, .one hG⟩
      · match rest' with
        | [] => simp at hcomma
        | t :: rest' =>
          have ht : t.kind = .comma := by simpa using hcomma
          simp only [hp.argumentList_comma hpt ht, bind_ok, pure_ok, Prod.exists] at h
          obtain ⟨more, left, hmore, h⟩ := h
          obtain ⟨rfl, rfl⟩ := Prod.mk.inj h
          have hlt : rest'.length < (us ++ t :: rest').length := hp.length_le hpt
          obtain ⟨vs, rfl, hlist⟩ := ih _ hlt rest' rfl hmore
          exact ⟨us ++ t :: vs, by simp, .more hG ht hlist⟩

theorem argumentList_complete (hp : Reads n p G []) (h : Listed G us args) (hn : us.length < n)
    (hrest : ∀ t ∈ rest.head?, t.kind = .parenEnd) :
    argumentList p (us ++ rest) = .ok (args, rest) := by
  induction h with
  | one hG =>
    have hends : Ends [] rest := by
      match rest with
      | [] => trivial
      | t :: rest => exact .inl (hrest t rfl)
    exact argumentList_last (hp.complete _ _ _ hG hn hends) fun t ht => by simp [hrest t ht]
  | @more comma ts us e es hG hcomma _ ih =>
    rw [List.length_append, List.length_cons] at hn
    have hread : p (ts ++ comma :: (us ++ rest)) = .ok (e, comma :: (us ++ rest)) :=
      hp.complete _ _ _ hG (by omega) (.inr (.inl hcomma))
    rw [List.append_assoc, List.cons_append, hp.argumentList_comma hread hcomma, ih (by omega)]
    rfl

theorem Opens.listed (hG : Opens G) (h : Listed G us args) :
    ∃ t vs, us = t :: vs ∧ t.kind ≠ .parenEnd := by
  induction h with
  | one h => exact hG _ _ h
  | more h _ _ _ => exact opens_append (hG _ _ h)

theorem arguments_none (ht : t.kind = .parenEnd) :
    arguments finish p (t :: ts) = .ok ([], ts) := by
  rw [arguments.eq_def]
  simp [if_pos ht, bind, Except.bind, parenEnd, pure, Except.pure]

theorem arguments_some (h : ∀ t ∈ ts.head?, t.kind ≠ .parenEnd) :
    arguments finish p ts = (do
      let (args, rest) ← argumentList p ts
      let rest ← parenEnd finish rest
      pure (args, rest)) := by
  match ts with
  | [] => rfl
  | t :: ts => rw [arguments.eq_def]; simp only [if_neg (h t rfl)]

theorem arguments_sound (hp : Reads n p G ops) (h : arguments finish p ts = .ok (args, rest)) :
    args = [] ∨ ∃ us t, ts = us ++ t :: rest ∧ Listed G us args ∧ t.kind = .parenEnd := by
  by_cases hts : ∀ t ∈ ts.head?, t.kind ≠ .parenEnd
  · simp only [arguments_some hts, bind_ok, pure_ok, Prod.exists] at h
    obtain ⟨args, rest', hargs, left, hend, h⟩ := h
    obtain ⟨rfl, rfl⟩ := Prod.mk.inj h
    obtain ⟨t, rfl, ht⟩ := parenEnd_ok.mp hend
    obtain ⟨us, hus, hlist⟩ := argumentList_sound hp _ hargs
    exact .inr ⟨us, t, hus, hlist, ht⟩
  · match ts with
    | [] => simp at hts
    | t :: ts =>
      rw [arguments_none (by simpa using hts)] at h
      exact .inl (Prod.mk.inj (Except.ok.inj h)).1.symm

theorem arguments_complete (hp : Reads n p G []) (hG : Opens G) (h : Listed G us args)
    (hn : us.length < n) (ht : t.kind = .parenEnd) :
    arguments finish p (us ++ t :: rest) = .ok (args, rest) := by
  have hlist : argumentList p (us ++ t :: rest) = .ok (args, t :: rest) :=
    argumentList_complete hp h hn (by simp [ht])
  have hopen : ∀ s ∈ (us ++ t :: rest).head?, s.kind ≠ .parenEnd := by
    obtain ⟨s, vs, rfl, hs⟩ := hG.listed h
    rintro _ ⟨⟩
    exact hs
  rw [arguments_some hopen, hlist]
  simp [bind, Except.bind, parenEnd_ok.mpr ⟨t, rfl, ht⟩, pure, Except.pure]

theorem ofCallName?_eq_some {s : String} : Operation.ofCallName? s = some op ↔
    op.callName.toList = s.toList.map Char.toLower := by
  constructor
  · intro h
    simpa using List.find?_some h
  · intro h
    rw [Operation.ofCallName?, ← h]
    cases op <;> decide

/-! ## Operands of the layers -/

theorem accepts_zero (op : Operation) : op.accepts 0 = false := by cases op <;> rfl

/-- What is read after the name of a call is the rest of the call. -/
theorem call_sound (hp : Reads n p G ops) {start : Token} (hname : name.kind = .symbol)
    (hstart : start.kind = .parenStart) (h : call finish p name ts = .ok (e, rest)) :
    ∃ us, name :: start :: ts = us ++ rest ∧ Primary G us e := by
  rw [call] at h
  split at h
  · contradiction
  · next op hop =>
    simp only [bind_ok, Prod.exists] at h
    obtain ⟨args, rest', hargs, h⟩ := h
    split at h
    · next haccepts =>
      obtain ⟨rfl, rfl⟩ := Prod.mk.inj (pure_ok.mp h)
      obtain rfl | ⟨us, t, rfl, hlist, ht⟩ := arguments_sound hp hargs
      · exact absurd haccepts (by simp [accepts_zero])
      · exact ⟨name :: start :: (us ++ [t]), by simp,
          .call hname (ofCallName?_eq_some.mp hop) hstart hlist ht haccepts⟩
    · contradiction

theorem reference_sound (hname : name.kind = .symbol)
    (h : reference finish name ts = .ok (e, rest)) :
    ∃ us, name :: ts = us ++ rest ∧ Primary G us e := by
  simp only [reference, bind_ok, pure_ok, Prod.exists] at h
  obtain ⟨names, rest', hnames, h⟩ := h
  obtain ⟨rfl, rfl⟩ := Prod.mk.inj h
  obtain ⟨us, rfl, hwords⟩ := namesAfter_sound _ hnames
  exact ⟨name :: us, rfl, .reference hname hwords⟩

theorem primary_sound (hp : Reads n p G ops) (h : primary finish p ts = .ok (e, rest)) :
    ∃ us, ts = us ++ rest ∧ Primary G us e := by
  match ts with
  | [] => exact nomatch h
  | t :: ts =>
    rw [primary.eq_def] at h
    simp only at h
    split at h
    · next hk =>
      split at h
      · next hx =>
        obtain ⟨rfl, rfl⟩ := Prod.mk.inj (Except.ok.inj h)
        exact ⟨[t], rfl, .number hk hx⟩
      · exact nomatch h
    · next hk =>
      obtain ⟨rfl, rfl⟩ := Prod.mk.inj (Except.ok.inj h)
      exact ⟨[t], rfl, .text hk⟩
    · next hk =>
      obtain ⟨rfl, rfl⟩ := Prod.mk.inj (Except.ok.inj h)
      exact ⟨[t], rfl, .truth hk (by simp)⟩
    · next hk =>
      simp only [bind_ok, pure_ok, Prod.exists] at h
      obtain ⟨e', rest', hread, left, hend, h⟩ := h
      obtain ⟨rfl, rfl⟩ := Prod.mk.inj h
      obtain ⟨us, rfl, hG⟩ := hp.sound _ _ _ hread
      obtain ⟨close, rfl, hclose⟩ := parenEnd_ok.mp hend
      exact ⟨t :: (us ++ [close]), by simp, .parens hk hG hclose⟩
    · next hk =>
      split at h
      · split at h
        · next hstart => exact call_sound hp hk hstart h
        · exact reference_sound hk h
      · exact reference_sound hk h
    · exact nomatch h

theorem call_complete (hp : Reads n p G []) (hG : Opens G)
    (hop : op.callName.toList = name.text.toList.map Char.toLower) (hlist : Listed G us args)
    (hn : us.length < n) (ht : t.kind = .parenEnd) (haccepts : op.accepts args.length) :
    call finish p name (us ++ t :: rest) = .ok (.apply op args, rest) := by
  rw [call, ofCallName?_eq_some.mpr hop]
  simp [arguments_complete hp hG hlist hn ht, bind, Except.bind, haccepts, pure, Except.pure]

theorem reference_complete (hrest : ∀ t ∈ rest.head?, t.kind ≠ .dot) (h : Names us names) :
    reference finish name (us ++ rest) = .ok (.symbol (name.text :: names), rest) := by
  simp [reference, namesAfter_complete hrest h, bind, Except.bind, pure, Except.pure]

/-- A name without an opening parenthesis after it starts a reference. -/
theorem primary_reference (hk : name.kind = .symbol)
    (h : ∀ t ∈ ts.head?, t.kind ≠ .parenStart) :
    primary finish p (name :: ts) = reference finish name ts := by
  match ts with
  | [] => simp [primary, hk]
  | t :: ts => simp [primary, hk, h t rfl]

theorem Names.head_kind (h : Names us names) (hrest : ∀ t ∈ rest.head?, t.kind ≠ .parenStart) :
    ∀ t ∈ (us ++ rest).head?, t.kind ≠ .parenStart := by
  rcases h with _ | ⟨hdot, _, _⟩
  · exact hrest
  · rintro _ ⟨⟩
    rw [hdot]
    decide

theorem primary_complete (hp : Reads n p G []) (hG : Opens G) (h : Primary G us e)
    (hn : us.length < n + 1) (hrest : Ends ops rest) :
    primary finish p (us ++ rest) = .ok (e, rest) := by
  cases h with
  | number hk hx => simp [primary, hk, hx]
  | text hk => simp [primary, hk]
  | @truth t b hk hb =>
    obtain rfl : (t.text.toList.map Char.toLower == "true".toList) = b := by
      rw [Bool.eq_iff_iff, beq_iff_eq, hb]
    simp [primary, hk]
  | @parens start close ts e hk hinner hclose =>
    simp only [List.length_cons, List.length_append, List.length_nil] at hn
    have hread : p (ts ++ close :: rest) = .ok (e, close :: rest) :=
      hp.complete _ _ _ hinner (by omega) (.inl hclose)
    rw [List.cons_append, List.append_assoc, List.singleton_append]
    simp [primary, hk, hread, bind, Except.bind, parenEnd_ok.mpr ⟨close, rfl, hclose⟩, pure,
      Except.pure]
  | @call name start close op ts args hk hop hstart hlist hclose haccepts =>
    simp only [List.length_cons, List.length_append, List.length_nil] at hn
    have hread : Expr.call finish p name (ts ++ close :: rest) = .ok (.apply op args, rest) :=
      call_complete hp hG hop hlist (by omega) hclose haccepts
    rw [List.cons_append, List.cons_append, List.append_assoc, List.singleton_append]
    simp [primary, hk, hstart, hread]
  | @reference name ts names hk hnames =>
    have hparen : ∀ t ∈ rest.head?, t.kind ≠ .parenStart :=
      hrest.kind_ne (by decide) (by decide) (by decide)
    have hdot : ∀ t ∈ rest.head?, t.kind ≠ .dot :=
      hrest.kind_ne (by decide) (by decide) (by decide)
    rw [List.cons_append, primary_reference hk (hnames.head_kind hparen),
      reference_complete hdot hnames]

/-- **Constants, references, calls and parentheses.** -/
theorem Reads.primary (hp : Reads n p G []) (hG : Opens G) :
    Reads (n + 1) (primary finish p) (Primary G) ops where
  sound _ _ _ h := primary_sound hp h
  complete _ _ _ h hn hrest := primary_complete hp hG h hn hrest

/-! ## Expressions -/

/-- The operations between operands, the tightest first. -/
abbrev infixes : List Operation :=
  [.multiply, .divide] ++ ([.sum, .minus] ++ [.equal, .notEqual, .and, .or])

/-- **An expression is read when its nesting is not deeper than the reader goes.** -/
theorem reads_expression (finish : Nat) :
    ∀ depth, Reads depth (expression finish depth) Sentence []
  | 0 => ⟨fun _ _ _ h => (nomatch h), fun _ _ _ _ h => absurd h (Nat.not_lt_zero _)⟩
  | depth + 1 => by
    have hprimary : Reads (depth + 1) (Expr.primary finish (expression finish depth))
        (Primary Sentence) infixes := (reads_expression finish depth).primary opens_sentence
    have hsigned := hprimary.signed fun _ _ h =>
      let ⟨t, us, hts, _, ht⟩ := h.first
      ⟨t, us, hts, ht⟩
    have hproduct := hsigned.binary (by unfold Distinct; decide) (by decide) (by decide)
    have hsum := hproduct.binary (by unfold Distinct; decide) (by decide) (by decide)
    have hequality := hsum.equality (by decide) (by decide)
    have hor := (hequality.variadic (by decide)).variadic (by decide)
    exact ⟨fun ts e rest h => (hor.sound ts e rest h).imp fun _ h => ⟨h.1, ⟨h.2⟩⟩,
      fun us e rest ⟨h⟩ hn hrest => hor.complete us e rest h hn hrest⟩

/-- **The reader takes all of some tokens exactly when they are a sentence.** -/
theorem parseTokens_ok {finish : Nat} :
    parseTokens finish ts = .ok e ↔ Sentence ts e := by
  have hreads := reads_expression finish (ts.length + 1)
  constructor
  · intro h
    simp only [parseTokens, bind_ok, Prod.exists] at h
    obtain ⟨e', rest, hread, h⟩ := h
    obtain ⟨us, rfl, hG⟩ := hreads.sound _ _ _ hread
    rcases rest with _ | _
    · obtain rfl := pure_ok.mp h
      simpa using hG
    · contradiction
  · intro h
    have hread := hreads.complete ts e [] h (Nat.lt_succ_self _) trivial
    rw [List.append_nil] at hread
    simp [parseTokens, hread, bind, Except.bind, pure, Except.pure]

/-- **A text is read as an expression exactly when its tokens, without white space, are a sentence
that writes it, and no tokens write two expressions.** -/
theorem parse_ok_iff_sentence :
    (∀ (source : String) (e : Expr), parse source = .ok e ↔
      ∃ ts, tokens source = .ok ts ∧ Sentence (ts.filter fun t => t.kind != .whitespace) e) ∧
    ∀ (ts : List Token) (e e' : Expr), Sentence ts e → Sentence ts e' → e = e' := by
  constructor
  · intro source e
    rw [parse, bind_ok]
    exact exists_congr fun ts => and_congr_right fun _ => parseTokens_ok
  · intro ts e e' h h'
    have hread : parseTokens 0 ts = .ok e := parseTokens_ok.mpr h
    exact Except.ok.inj (hread.symm.trans (parseTokens_ok.mpr h'))

end Fieldbook.Expr
