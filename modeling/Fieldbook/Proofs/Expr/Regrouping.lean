import Fieldbook.Proofs.Expr.Trees
import Mathlib.Data.List.Basic

/-!
# Proofs/Expr/Regrouping — operations on many numbers, two at a time

A sum of many operands shown as a chain of `+` is read as sums of two, grouped from the left.
`regrouped` is that tree.  It has the value of the first one, and fails where that one fails
(`value_regrouped`), since a sum adds its operands from the left as well; but it may name another
reason, as it looks at a sum before the operands after it.  So values are compared without reasons,
and then the order in which operands are looked at does not count.
-/

namespace Fieldbook

namespace Expr

/-! ## Values without reasons -/

/-- The value of an expression, if it has one. -/
def value (ctx : Context) (e : Expr) : Option Operand := (evaluate ctx e).toOption

/-- The values of expressions, if all have one. -/
def values (ctx : Context) (es : List Expr) : Option (List Operand) := (evaluateAll ctx es).toOption

variable {ctx : Context} {op : Operation} {e : Expr} {es args : List Expr}

theorem toOption_bind {ε α β : Type} (x : Except ε α) (f : α → Except ε β) :
    (x >>= f).toOption = x.toOption.bind fun a => (f a).toOption := by
  rcases x with _ | _ <;> rfl

theorem toOption_eq_some {ε α : Type} {x : Except ε α} {a : α} :
    x.toOption = some a ↔ x = .ok a := by
  rcases x with _ | _ <;> simp [Except.toOption]

theorem value_apply : value ctx (.apply op args) =
    (values ctx args).bind fun vs => (op.apply vs).toOption := by
  rw [value, evaluate, toOption_bind]
  rfl

theorem values_cons : values ctx (e :: es) =
    (value ctx e).bind fun v => (values ctx es).bind fun vs => some (v :: vs) := by
  rw [values, evaluateAll, toOption_bind]
  refine congrArg (Option.bind (value ctx e)) (funext fun v => ?_)
  rw [toOption_bind]
  rfl

theorem values_congr {f : Expr → Expr} (h : ∀ e ∈ es, value ctx (f e) = value ctx e) :
    values ctx (es.map f) = values ctx es := by
  induction es with
  | nil => rfl
  | cons e es ih =>
    obtain ⟨he, hes⟩ := List.forall_mem_cons.mp h
    rw [List.map_cons, values_cons, values_cons, he, ih hes]

/-! ## Operations that combine two by two -/

namespace Operation

/-- The operations that combine their operands from the left. -/
def combines (op : Operation) : Bool := [sum, minus, multiply, divide].contains op

theorem apply_of_combines (h : op.combines) :
    ∃ combine, ∀ vs, op.apply vs = op.fold combine vs := by
  cases op with
  | sum | minus | multiply | divide => exact ⟨_, fun _ => rfl⟩
  | and | or | not | equal | notEqual | negate => exact nomatch h

/-- The first two operands can be combined before the others. -/
theorem fold_cons_cons (combine : Double → Double → Double) (v w : Operand) (vs : List Operand) :
    op.fold combine (v :: w :: vs) =
      op.fold combine [v, w] >>= fun u => op.fold combine (u :: vs) := by
  simp only [fold, List.foldlM_cons, List.foldlM_nil, bind_pure]
  rcases op.amount v with _ | x
  · rfl
  rcases op.amount w with _ | y <;> rfl

/-- `op` on two operands at a time, from the left. -/
def pairwise (op : Operation) : List Expr → Expr
  | [] => .apply op []
  | first :: others => others.foldl (fun left e => .apply op [left, e]) first

/-- The application of `op` as a chain of operators is read. -/
def regroup (op : Operation) (args : List Expr) : Expr :=
  if op.combines then op.pairwise args else .apply op args

end Operation

theorem apply_cons_cons (h : op.combines) (v w : Operand) (vs : List Operand) :
    (op.apply (v :: w :: vs)).toOption =
      (op.apply [v, w]).toOption.bind fun u => (op.apply (u :: vs)).toOption := by
  obtain ⟨combine, hcombine⟩ := Operation.apply_of_combines h
  rw [hcombine, Operation.fold_cons_cons, toOption_bind, ← hcombine]
  exact congrArg _ (funext fun u => by rw [hcombine])

theorem value_apply_apply (h : op.combines) (d : Expr) :
    value ctx (.apply op (.apply op [d, e] :: es)) = value ctx (.apply op (d :: e :: es)) := by
  have hnil : values ctx [] = some [] := rfl
  simp only [value_apply, values_cons, hnil]
  rcases value ctx d with _ | v
  · rfl
  rcases value ctx e with _ | w
  · rfl
  rcases values ctx es with _ | vs
  · rcases (op.apply [v, w]).toOption with _ | u <;> simp
  · simp only [Option.bind_some, apply_cons_cons h v w vs]
    rcases (op.apply [v, w]).toOption with _ | u <;> rfl

theorem value_foldl (h : op.combines) (he : es ≠ []) : ∀ d : Expr,
    value ctx (es.foldl (fun left e => .apply op [left, e]) d) = value ctx (.apply op (d :: es)) := by
  induction es with
  | nil => exact absurd rfl he
  | cons e es ih =>
    intro d
    rw [List.foldl_cons]
    by_cases hes : es = []
    · subst hes
      rfl
    · rw [ih hes, value_apply_apply h]

theorem value_regroup (h : op.accepts args.length) :
    value ctx (op.regroup args) = value ctx (.apply op args) := by
  rw [Operation.regroup]
  split
  · next hop =>
    match args with
    | first :: second :: others => exact value_foldl hop (List.cons_ne_nil second others) first
    | [] | [_] => cases op <;> simp_all [Operation.combines, Operation.accepts]
  · rfl

/-! ## Regrouped trees -/

mutual

/-- The tree with its operations grouped as chains of operators are read. -/
def regrouped : Expr → Expr
  | .const v => .const v
  | .symbol path => .symbol path
  | .apply op args => op.regroup (regroupedAll args)

def regroupedAll : List Expr → List Expr
  | [] => []
  | e :: rest => regrouped e :: regroupedAll rest

end

theorem regroupedAll_eq (es : List Expr) : regroupedAll es = es.map regrouped := by
  induction es with
  | nil => rfl
  | cons e es ih => rw [regroupedAll, ih, List.map_cons]

theorem regrouped_apply : regrouped (.apply op args) = op.regroup (args.map regrouped) := by
  rw [regrouped, regroupedAll_eq]

/-- **A regrouped tree has the value of the tree,** and none where that has none. -/
theorem value_regrouped (h : Written e) : value ctx (regrouped e) = value ctx e := by
  induction h with
  | const _ | symbol => rfl
  | apply haccepts _ ih =>
    rw [regrouped_apply, value_regroup (by rwa [List.length_map]), value_apply, value_apply,
      values_congr ih]

theorem evaluate_regrouped {v : Operand} (h : Written e) :
    evaluate ctx (regrouped e) = .ok v ↔ evaluate ctx e = .ok v := by
  have hvalue : (evaluate ctx (regrouped e)).toOption = (evaluate ctx e).toOption :=
    value_regrouped h
  rw [← toOption_eq_some, ← toOption_eq_some, hvalue]

/-- Only an operation on three numbers or more is regrouped. -/
theorem regrouped_eq_self (h : Written e)
    (hsmall : ∀ op args, .apply op args ∈ e.parts → op = .sum ∨ op = .multiply → args.length < 3) :
    regrouped e = e := by
  induction h with
  | const _ | symbol => rfl
  | @apply op args haccepts _ ih =>
    have hargs : args.map regrouped = args := by
      refine (List.map_congr_left fun e he => ?_).trans (List.map_id args)
      exact ih e he fun op' args' hpart => hsmall op' args' (mem_parts_apply he hpart)
    rw [regrouped_apply, hargs, Operation.regroup]
    split
    · next hop =>
      have hlength : args.length = 2 := by
        have hlt := hsmall op args (self_mem_parts _)
        cases op <;> simp_all [Operation.combines, Operation.accepts]
        all_goals omega
      obtain ⟨_, _, rfl⟩ := List.length_eq_two.mp hlength
      rfl
    · rfl

end Expr

end Fieldbook
