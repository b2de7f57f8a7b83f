import Fieldbook.Proofs.Column.Results

/-!
# Proofs/Expr/Safety — what is read can be evaluated

An operation that accepts the number of its operands fails only for the type of one of them: the
first from the left that it is not for (`Unfit`).  Every operation of a tree that is read accepts its
operands, so the tree has a value unless one of them meets operands that are unfit (`Misapplied`),
and no other failure is possible (`safe_of_parse`).
-/

namespace Fieldbook.Expr

variable {α β ε : Type} {P : α → Prop} {a b : α} {as : List α} {op : Operation} {ctx : Context}
  {e part : Expr} {args : List Expr} {v w : Operand} {vs : List Operand} {err : EvalError}

/-! ## The first failure in a list -/

/-- `a` comes after elements that all satisfy `P`. -/
inductive Reached (P : α → Prop) : List α → α → Prop
  | head {a : α} {as : List α} : Reached P (a :: as) a
  | tail {a b : α} {as : List α} : P b → Reached P as a → Reached P (b :: as) a

theorem not_reached_nil : ¬Reached P [] a := fun h => nomatch h

theorem reached_cons : Reached P (b :: as) a ↔ a = b ∨ P b ∧ Reached P as a := by
  constructor
  · rintro (_ | ⟨hb, h⟩)
    · exact .inl rfl
    · exact .inr ⟨hb, h⟩
  · rintro (rfl | ⟨hb, h⟩)
    · exact .head
    · exact .tail hb h

theorem reached_singleton : Reached P [b] a ↔ a = b := by simp [reached_cons, not_reached_nil]

theorem exists_reached_cons {Q : α → Prop} :
    (∃ a, Reached P (b :: as) a ∧ Q a) ↔ Q b ∨ P b ∧ ∃ a, Reached P as a ∧ Q a := by
  simp only [reached_cons, or_and_right, exists_or, exists_eq_left, and_assoc, exists_and_left]

/-- The images of a list fail at the first element that has none. -/
theorem mapM_error {f : α → Except ε β} {err : ε} : as.mapM f = .error err ↔
    ∃ a, Reached (fun b => ∃ c, f b = .ok c) as a ∧ f a = .error err := by
  induction as with
  | nil => simp [pure, Except.pure, not_reached_nil]
  | cons b as ih =>
    rw [List.mapM_cons, exists_reached_cons, bind_error]
    refine or_congr_right ⟨?_, ?_⟩
    · rintro ⟨c, hb, h⟩
      exact ⟨⟨c, hb⟩, ih.mp (bind_pure_error.mp h)⟩
    · rintro ⟨⟨c, hb⟩, h⟩
      exact ⟨c, hb, bind_pure_error.mpr (ih.mpr h)⟩

/-! ## Operands that operations are not for -/

/-- Why an operation has no value on some operands: one of them is of a type that it is not for, and
those before it are fit.  In arithmetic and in comparisons a missing operand is a number, and a
comparison is settled by the first operand that differs. -/
def Unfit (op : Operation) (vs : List Operand) (err : EvalError) : Prop :=
  match op with
  | .and | .or | .not =>
    ∃ v, Reached (·.type? = some .flag) vs v ∧ v.type? ≠ some .flag ∧ err = .notBoolean op v
  | .equal | .notEqual =>
    ∃ first others v, vs = first :: others ∧ Reached (Operation.compare first · = .ok true) others v ∧
      first.numeric.type? ≠ v.numeric.type? ∧ err = .incomparable first.numeric v.numeric
  | .sum | .minus | .multiply | .divide | .negate =>
    ∃ v, Reached (·.numeric.type? = some .number) vs v ∧ v.numeric.type? ≠ some .number ∧
      err = .notNumeric op v

theorem truth_ok : (∃ b, op.truth v = .ok b) ↔ v.type? = some .flag := by
  cases v <;> simp [Operation.truth, Operand.type?, Operand.cell?, Cell.type]

theorem truth_error : op.truth v = .error err ↔ v.type? ≠ some .flag ∧ err = .notBoolean op v := by
  cases v <;> simp [Operation.truth, Operand.type?, Operand.cell?, Cell.type, eq_comm]

theorem amount_ok (op : Operation) :
    (∃ x, op.amount v = .ok x) ↔ v.numeric.type? = some .number := by
  cases v <;> simp [Operation.amount, Operand.numeric, Operand.type?, Operand.cell?, Cell.type]

theorem amount_error :
    op.amount v = .error err ↔ v.numeric.type? ≠ some .number ∧ err = .notNumeric op v := by
  cases v <;>
    simp [Operation.amount, Operand.numeric, Operand.type?, Operand.cell?, Cell.type, eq_comm]

theorem compare_error : Operation.compare v w = .error err ↔
    v.numeric.type? ≠ w.numeric.type? ∧ err = .incomparable v.numeric w.numeric := by
  cases v <;> cases w <;> simp [Operation.compare, Operand.numeric, Operand.type?, Operand.cell?,
    Cell.type, eq_comm]

theorem foldlM_amount_error {combine : Double → Double → Double} {acc : Double} :
    vs.foldlM (fun acc w => do pure (combine acc (← op.amount w))) acc = .error err ↔
      ∃ w, Reached (fun v => ∃ x, op.amount v = .ok x) vs w ∧ op.amount w = .error err := by
  induction vs generalizing acc with
  | nil => simp [pure, Except.pure, not_reached_nil]
  | cons v vs ih =>
    rw [List.foldlM_cons, exists_reached_cons]
    cases hv : op.amount v with
    | error _ => simp [bind, Except.bind]
    | ok x => simpa [bind, Except.bind, pure, Except.pure] using ih

theorem fold_error {combine : Double → Double → Double} (hvs : vs ≠ []) :
    op.fold combine vs = .error err ↔
      ∃ w, Reached (·.numeric.type? = some .number) vs w ∧ w.numeric.type? ≠ some .number ∧
        err = .notNumeric op w := by
  simp only [← amount_ok op, ← amount_error]
  cases vs with
  | nil => exact absurd rfl hvs
  | cons v vs =>
    rw [Operation.fold, exists_reached_cons, bind_error]
    refine or_congr_right ⟨?_, ?_⟩
    · rintro ⟨x, hv, h⟩
      exact ⟨⟨x, hv⟩, foldlM_amount_error.mp (bind_pure_error.mp h)⟩
    · rintro ⟨⟨x, hv⟩, h⟩
      exact ⟨x, hv, bind_pure_error.mpr (foldlM_amount_error.mpr h)⟩

theorem equalsAll_error : Operation.equalsAll v vs = .error err ↔
    ∃ w, Reached (Operation.compare v · = .ok true) vs w ∧ Operation.compare v w = .error err := by
  induction vs with
  | nil => simp [Operation.equalsAll, not_reached_nil]
  | cons w vs ih =>
    rw [Operation.equalsAll, exists_reached_cons]
    cases hw : Operation.compare v w with
    | error _ => simp [bind, Except.bind]
    | ok b => cases b <;> simp [bind, Except.bind, pure, Except.pure, ih]

theorem mapM_truth_error : vs.mapM op.truth = .error err ↔
    ∃ v, Reached (·.type? = some .flag) vs v ∧ v.type? ≠ some .flag ∧ err = .notBoolean op v := by
  simp only [mapM_error, truth_ok, truth_error]

/-- **An operation fails exactly on operands that it is not for,** if it accepts their number. -/
theorem apply_error_iff (haccepts : op.accepts vs.length) :
    op.apply vs = .error err ↔ Unfit op vs err := by
  cases op with
  | and | or =>
    rw [Operation.apply, bind_pure_error, mapM_truth_error]
    rfl
  | not =>
    obtain ⟨v, rfl⟩ := List.length_eq_one_iff.mp (by simpa [Operation.accepts] using haccepts)
    change (Operation.truth .not v >>= fun b => pure (Operand.boolean !b)) = _ ↔ _
    simp only [bind_pure_error, truth_error, Unfit, reached_singleton, exists_eq_left]
  | equal =>
    cases vs with
    | nil => exact absurd haccepts (by decide)
    | cons v vs =>
      change (Operation.equalsAll v vs >>= fun b => pure (Operand.boolean b)) = _ ↔ _
      rw [bind_pure_error, equalsAll_error]
      simp [compare_error, Unfit]
  | notEqual =>
    obtain ⟨v, w, rfl⟩ := List.length_eq_two.mp (by simpa [Operation.accepts] using haccepts)
    change (Operation.compare v w >>= fun b => pure (Operand.boolean !b)) = _ ↔ _
    rw [bind_pure_error, compare_error]
    simp [Unfit, reached_singleton]
  | sum | minus | multiply | divide =>
    refine fold_error fun hvs => ?_
    subst hvs
    exact absurd haccepts (by decide)
  | negate =>
    obtain ⟨v, rfl⟩ := List.length_eq_one_iff.mp (by simpa [Operation.accepts] using haccepts)
    change (Operation.amount .negate v >>= fun x => pure (Operand.number x.neg)) = _ ↔ _
    simp only [bind_pure_error, amount_error, Unfit, reached_singleton, exists_eq_left]

/-- No failure of an operation is about the number of its operands. -/
theorem Unfit.counted (h : Unfit op vs err) :
    (∀ op n, err ≠ .operandCount op n) ∧ ∀ n, err ≠ .notSingle n := by
  have hkind : (∃ v, err = .notBoolean op v) ∨ (∃ v, err = .notNumeric op v) ∨
      ∃ v w, err = .incomparable v w := by
    cases op with
    | and | or | not =>
      obtain ⟨v, -, -, rfl⟩ := h
      exact .inl ⟨v, rfl⟩
    | equal | notEqual =>
      obtain ⟨first, others, v, -, -, -, rfl⟩ := h
      exact .inr (.inr ⟨_, _, rfl⟩)
    | sum | minus | multiply | divide | negate =>
      obtain ⟨v, -, -, rfl⟩ := h
      exact .inr (.inl ⟨v, rfl⟩)
  obtain ⟨v, rfl⟩ | ⟨v, rfl⟩ | ⟨v, w, rfl⟩ := hkind <;> simp

/-! ## Trees -/

/-- An operation in a tree meets operands that it is not for. -/
def Misapplied (ctx : Context) (e : Expr) (err : EvalError) : Prop :=
  ∃ op args vs, .apply op args ∈ e.parts ∧ evaluateAll ctx args = .ok vs ∧ Unfit op vs err

theorem Misapplied.of_mem (he : e ∈ args) (h : Misapplied ctx e err) :
    Misapplied ctx (.apply op args) err := by
  obtain ⟨op', args', vs, hpart, hvs, hunfit⟩ := h
  exact ⟨op', args', vs, mem_parts_apply he hpart, hvs, hunfit⟩

theorem Misapplied.counted (h : Misapplied ctx e err) :
    (∀ op n, err ≠ .operandCount op n) ∧ ∀ n, err ≠ .notSingle n := by
  obtain ⟨_, _, _, -, -, hunfit⟩ := h
  exact hunfit.counted

theorem evaluateAll_eq_mapM (ctx : Context) (es : List Expr) :
    evaluateAll ctx es = es.mapM (evaluate ctx) := by
  induction es with
  | nil => rw [evaluateAll, List.mapM_nil]; rfl
  | cons e es ih => rw [evaluateAll, List.mapM_cons, ih]

theorem exists_of_evaluateAll (h : evaluateAll ctx args = .error err) :
    ∃ e ∈ args, evaluate ctx e = .error err := by
  rw [evaluateAll_eq_mapM, mapM_error] at h
  obtain ⟨e, he, h⟩ := h
  refine ⟨e, ?_, h⟩
  clear h
  induction he with
  | head => exact List.mem_cons_self
  | tail _ _ ih => exact List.mem_cons_of_mem _ ih

theorem length_evaluateAll (h : evaluateAll ctx args = .ok vs) : vs.length = args.length := by
  induction args generalizing vs with
  | nil =>
    obtain rfl := Except.ok.inj h
    rfl
  | cons e args ih =>
    rw [evaluateAll] at h
    obtain ⟨v, -, h⟩ := bind_ok.mp h
    obtain ⟨ws, hws, h⟩ := bind_ok.mp h
    obtain rfl := pure_ok.mp h
    rw [List.length_cons, List.length_cons, ih hws]

theorem evaluateAll_of_mem (h : evaluateAll ctx args = .ok vs) (he : e ∈ args) :
    ∃ v, evaluate ctx e = .ok v := by
  induction args generalizing vs with
  | nil => exact nomatch he
  | cons d args ih =>
    rw [evaluateAll] at h
    obtain ⟨v, hv, h⟩ := bind_ok.mp h
    obtain ⟨ws, hws, -⟩ := bind_ok.mp h
    obtain rfl | he := List.mem_cons.mp he
    · exact ⟨v, hv⟩
    · exact ih hws he

/-- **A written tree fails only where it is misapplied.** -/
theorem misapplied_of_evaluate (hwritten : Written e) (h : evaluate ctx e = .error err) :
    Misapplied ctx e err := by
  induction hwritten with
  | const _ | symbol => exact nomatch h
  | @apply op args haccepts _ ih =>
    rw [evaluate] at h
    obtain h | ⟨vs, hvs, h⟩ := bind_error.mp h
    · obtain ⟨e, he, h⟩ := exists_of_evaluateAll h
      exact (ih e he h).of_mem he
    · have haccepts : op.accepts vs.length := by rwa [length_evaluateAll hvs]
      exact ⟨op, args, vs, self_mem_parts _, hvs, (apply_error_iff haccepts).mp h⟩

theorem exists_of_mem_partsAll (h : part ∈ partsAll args) : ∃ e ∈ args, part ∈ e.parts := by
  induction args with
  | nil => exact nomatch h
  | cons e args ih =>
    rw [partsAll, List.mem_append] at h
    obtain h | h := h
    · exact ⟨e, List.mem_cons_self, h⟩
    · obtain ⟨d, hd, h⟩ := ih h
      exact ⟨d, List.mem_cons_of_mem _ hd, h⟩

theorem Written.of_mem_parts (hwritten : Written e) (hpart : part ∈ e.parts) : Written part := by
  induction hwritten with
  | const hv =>
    obtain rfl := List.mem_singleton.mp hpart
    exact .const hv
  | symbol =>
    obtain rfl := List.mem_singleton.mp hpart
    exact .symbol
  | apply haccepts hargs ih =>
    obtain rfl | hpart := List.mem_cons.mp hpart
    · exact .apply haccepts hargs
    · obtain ⟨e, he, hpart⟩ := exists_of_mem_partsAll hpart
      exact ih e he hpart

/-- Operands are evaluated, all of them, before the operation: a tree that has a value has one in
each of its parts. -/
theorem evaluate_part (hwritten : Written e) (h : evaluate ctx e = .ok v) (hpart : part ∈ e.parts) :
    ∃ w, evaluate ctx part = .ok w := by
  induction hwritten generalizing v with
  | const _ | symbol =>
    obtain rfl := List.mem_singleton.mp hpart
    exact ⟨v, h⟩
  | apply _ _ ih =>
    obtain rfl | hpart := List.mem_cons.mp hpart
    · exact ⟨v, h⟩
    · obtain ⟨d, hd, hpart⟩ := exists_of_mem_partsAll hpart
      rw [evaluate] at h
      obtain ⟨vs, hvs, -⟩ := bind_ok.mp h
      obtain ⟨w, hw⟩ := evaluateAll_of_mem hvs hd
      exact ih d hd hw hpart

theorem accepts_of_mem_parts (hwritten : Written e) (h : .apply op args ∈ e.parts) :
    op.accepts args.length := by
  cases hwritten.of_mem_parts h
  assumption

/-- **A written tree has a value exactly where it is not misapplied.** -/
theorem evaluate_ok_iff (hwritten : Written e) :
    (∃ v, evaluate ctx e = .ok v) ↔ ∀ err, ¬Misapplied ctx e err := by
  constructor
  · rintro ⟨v, hv⟩ err ⟨op, args, vs, hpart, hvs, hunfit⟩
    obtain ⟨w, hw⟩ := evaluate_part hwritten hv hpart
    have haccepts : op.accepts vs.length := by
      rw [length_evaluateAll hvs]
      exact accepts_of_mem_parts hwritten hpart
    rw [evaluate, hvs] at hw
    cases hw.symm.trans ((apply_error_iff haccepts).mpr hunfit)
  · intro h
    cases hv : evaluate ctx e with
    | ok v => exact ⟨v, rfl⟩
    | error err => exact absurd (misapplied_of_evaluate hwritten hv) (h err)

/-- A tree can be evaluated in every context. -/
structure Safe (e : Expr) : Prop where
  accepts : ∀ op args, .apply op args ∈ e.parts → op.accepts args.length
  /-- It has a value exactly where no operation in it meets operands of the wrong type. -/
  ok_iff : ∀ ctx, (∃ v, evaluate ctx e = .ok v) ↔ ∀ err, ¬Misapplied ctx e err
  /-- It fails only for the type of operands, never for their number. -/
  error : ∀ ctx err, evaluate ctx e = .error err → Misapplied ctx e err ∧
    (∀ op n, err ≠ .operandCount op n) ∧ ∀ n, err ≠ .notSingle n
  boolean : ∀ ctx v op args, e = .apply op args → op ∈ [.and, .or, .not, .equal, .notEqual] →
    evaluate ctx e = .ok v → ∃ b, v = .boolean b
  number : ∀ ctx v op args, e = .apply op args → op ∈ [.sum, .minus, .multiply, .divide, .negate] →
    evaluate ctx e = .ok v → ∃ x, v = .number x

theorem type_of_evaluate_apply (h : evaluate ctx (.apply op args) = .ok v) :
    v.type? = some op.resultType := by
  rw [evaluate] at h
  obtain ⟨vs, -, h⟩ := bind_ok.mp h
  exact type_of_apply h

theorem eq_boolean_of_type (h : v.type? = some .flag) : ∃ b, v = .boolean b := by
  cases v <;> simp_all [Operand.type?, Operand.cell?, Cell.type]

theorem eq_number_of_type (h : v.type? = some .number) : ∃ x, v = .number x := by
  cases v <;> simp_all [Operand.type?, Operand.cell?, Cell.type]

/-- **What is read is safe to evaluate.** -/
theorem safe_of_parse {source : String} (h : parse source = .ok e) : Safe e := by
  rw [parse, bind_ok] at h
  obtain ⟨ts, -, h⟩ := h
  have hwritten : Written e := written_of_sentence (parseTokens_ok.mp h)
  refine ⟨fun op args => accepts_of_mem_parts hwritten, fun ctx => evaluate_ok_iff hwritten,
    fun ctx err h => ?_, ?_, ?_⟩
  · have hmisapplied : Misapplied ctx e err := misapplied_of_evaluate hwritten h
    exact ⟨hmisapplied, hmisapplied.counted⟩
  · rintro ctx v op args rfl hop h
    refine eq_boolean_of_type ((type_of_evaluate_apply h).trans (congrArg some ?_))
    revert hop
    cases op <;> simp [Operation.resultType]
  · rintro ctx v op args rfl hop h
    refine eq_number_of_type ((type_of_evaluate_apply h).trans (congrArg some ?_))
    revert hop
    cases op <;> simp [Operation.resultType]

/-- A sum that is read has a number or no value. -/
theorem safe_of_parse_threeTerms : parse "sum(a, 2.5, b)" = .ok threeTerms ∧
    ∀ ctx v, evaluate ctx threeTerms = .ok v → ∃ x, v = .number x :=
  ⟨parse_threeTerms, fun ctx v =>
    (safe_of_parse parse_threeTerms).number ctx v .sum _ rfl (by decide)⟩

end Fieldbook.Expr
