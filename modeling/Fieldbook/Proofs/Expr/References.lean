import Fieldbook.Authorization
import Fieldbook.Proofs.Expr.Display

/-!
# Proofs/Expr/References — a value depends on its references alone

Of a context an expression sees only the operands that its own references stand for (`Alike`), and
two contexts in which these are the same give it one value or one failure
(`evaluate_eq_of_alike`).  A table of values is asked for the dotted name of a path
(`Context.ofNames`), and a record is gone through along the path itself, so the condition is one on
names there and one on paths here.

What a condition of an access rule sees is a table of two names.  A condition that mentions neither
has the outcome that it has where nothing stands (`evaluateText_eq_of_unmentioned`), and so one for
all principals and resources (`evaluate_depends_on_symbols`).
-/

namespace Fieldbook

/-- A table of values by their names, in which a path stands for its dotted name. -/
def Context.ofNames (values : String → Option Expr.Operand) : Context :=
  fun path => values (Expr.dotted path)

/-- Nothing stands under any name. -/
def Context.empty : Context := fun _ => none

namespace Expr

variable {ctx ctx' : Context} {e : Expr} {source name : String}

/-! ## Two contexts -/

/-- Two contexts give the same operand for each of some paths. A path without a value counts as
missing. -/
def Alike (ctx ctx' : Context) (paths : List (List String)) : Prop :=
  ∀ path ∈ paths, (ctx path).getD .missing = (ctx' path).getD .missing

mutual

/-- **An expression has one value,** or one failure, in contexts alike on its references. -/
theorem evaluate_eq_of_alike : ∀ e : Expr, Alike ctx ctx' e.paths →
    e.evaluate ctx = e.evaluate ctx'
  | .const _, _ => rfl
  | .symbol path, h => by rw [evaluate, evaluate, h path List.mem_cons_self]
  | .apply _ args, h => by rw [evaluate, evaluate, evaluateAll_eq_of_alike args h]

theorem evaluateAll_eq_of_alike : ∀ es : List Expr, Alike ctx ctx' (pathsAll es) →
    evaluateAll ctx es = evaluateAll ctx' es
  | [], _ => rfl
  | e :: rest, h => by
    have hfirst : Alike ctx ctx' e.paths := fun path hp => h path (List.mem_append_left _ hp)
    have hrest : Alike ctx ctx' (pathsAll rest) := fun path hp =>
      h path (List.mem_append_right _ hp)
    rw [evaluateAll, evaluateAll, evaluate_eq_of_alike e hfirst, evaluateAll_eq_of_alike rest hrest]

end

theorem dotted_mem_symbols {path : List String} (h : path ∈ e.paths) : dotted path ∈ e.symbols :=
  List.mem_map_of_mem h

/-- Tables are alike on a tree if they have the same under each of its symbols. -/
theorem alike_ofNames {values values' : String → Option Operand}
    (h : ∀ name ∈ e.symbols, values name = values' name) :
    Alike (.ofNames values) (.ofNames values') e.paths := by
  intro path hpath
  rw [Context.ofNames, Context.ofNames, h _ (dotted_mem_symbols hpath)]

/-! ## Access conditions -/

/-- A text is an expression that refers to a name. -/
def Mentions (source name : String) : Prop := ∃ e, parse source = .ok e ∧ name ∈ e.symbols

/-- Conditions see a table of two names. -/
theorem context_authorization (a : Authorization) : a.context = .ofNames fun name =>
    Keyed.find? name
      [("principal", .text a.principal.text), ("resource", .text a.resource.text)] := by
  funext path
  simp only [Authorization.context, Context.ofNames, Keyed.find?, eq_comm (a := dotted path)]

theorem evaluateText_congr (h : ∀ e, parse source = .ok e → e.evaluate ctx = e.evaluate ctx') :
    evaluateText source ctx = evaluateText source ctx' := by
  rw [evaluateText, evaluateText]
  cases hparse : parse source with
  | error _ => rfl
  | ok e => simp only [h e hparse]

/-- **A condition that mentions neither name** has the outcome that it has where nothing stands. -/
theorem evaluateText_eq_of_unmentioned (hprincipal : ¬Mentions source "principal")
    (hresource : ¬Mentions source "resource") (a : Authorization) :
    evaluateText source a.context = evaluateText source .empty := by
  refine evaluateText_congr fun e he => evaluate_eq_of_alike e ?_
  rw [context_authorization]
  change Alike _ (.ofNames fun _ => none) _
  refine alike_ofNames fun name hname => ?_
  have hne : ∀ {other : String}, ¬Mentions source other → other ≠ name := by
    rintro _ hother rfl
    exact hother ⟨e, he, hname⟩
  rw [Keyed.find?, if_neg (hne hprincipal), Keyed.find?, if_neg (hne hresource), Keyed.find?]

/-- Authorizations are told apart by a condition only if they see a difference in it. -/
theorem satisfies_congr {a b : Authorization}
    (h : evaluateText source a.context = evaluateText source b.context) :
    a.satisfies (some source) = b.satisfies (some source) := by
  rw [Authorization.satisfies, Authorization.satisfies, h]

/-- **A value depends on the listed symbols alone.** Tables that have the same under the symbols of
a tree give it the same value or the same failure, and so do records in which its paths lead to the
same. A condition that mentions neither the principal nor the resource has one outcome for all of
them. -/
theorem evaluate_depends_on_symbols :
    (∀ (e : Expr) (values values' : String → Option Operand),
      (∀ name ∈ e.symbols, values name = values' name) →
        e.evaluate (.ofNames values) = e.evaluate (.ofNames values')) ∧
    (∀ (e : Expr) (r r' : Record), (∀ path ∈ e.paths, r.context path = r'.context path) →
      e.evaluate r.context = e.evaluate r'.context) ∧
    ∀ condition, ¬Mentions condition "principal" → ¬Mentions condition "resource" →
      ∀ a b : Authorization,
        evaluateText condition a.context = evaluateText condition b.context ∧
        a.satisfies (some condition) = b.satisfies (some condition) := by
  refine ⟨fun e _ _ h => evaluate_eq_of_alike e (alike_ofNames h), fun e r r' h => ?_,
    fun condition hprincipal hresource a b => ?_⟩
  · refine evaluate_eq_of_alike e fun path hpath => ?_
    rw [h path hpath]
  · have hsame : evaluateText condition a.context = evaluateText condition b.context :=
      (evaluateText_eq_of_unmentioned hprincipal hresource a).trans
        (evaluateText_eq_of_unmentioned hprincipal hresource b).symm
    exact ⟨hsame, satisfies_congr hsame⟩

theorem parse_true : parse "true" = .ok (.const (.boolean true)) := by
  have htokens : (tokens "true").toOption = some [⟨.booleanLiteral, 0, "true"⟩] := by decide +kernel
  rw [parse, bind_ok]
  exact ⟨_, toOption_eq_some.mp htokens,
    parseTokens_ok.mpr (sentence_of_sum (.one (.one (.bare (.truth rfl (by decide))))))⟩

/-- A sum of what stands under two names is the same whatever stands under a third one, and a
condition that is always true is so for everyone. -/
theorem evaluate_depends_on_symbols_threeTerms :
    threeTerms.symbols = ["a", "b"] ∧
    (∀ v, threeTerms.evaluate (.ofNames fun name => Keyed.find? name [("a", .boolean true)]) =
      threeTerms.evaluate
        (.ofNames fun name => Keyed.find? name [("a", .boolean true), ("c", v)])) ∧
    (∀ v, threeTerms.evaluate (Record.context [("a", .year 1)]) =
      threeTerms.evaluate (Record.context [("a", .year 1), ("c", v)])) ∧
    ∀ a b : Authorization, a.satisfies (some "true") = b.satisfies (some "true") := by
  obtain ⟨hnames, hrecords, hconditions⟩ := evaluate_depends_on_symbols
  have hsymbols : threeTerms.symbols = ["a", "b"] := by decide +kernel
  have hunmentioned : ∀ name, ¬Mentions "true" name := by
    rintro name ⟨e, he, hname⟩
    obtain rfl := Except.ok.inj (parse_true.symm.trans he)
    exact nomatch hname
  refine ⟨hsymbols, fun v => hnames _ _ _ ?_, fun v => hrecords _ _ _ ?_, fun a b => ?_⟩
  · rw [hsymbols]
    simp [Keyed.find?]
  · simp [threeTerms, paths, pathsAll, Record.context, Record.resolve, Record.get?, Keyed.find?]
  · exact (hconditions "true" (hunmentioned _) (hunmentioned _) a b).2

end Expr

end Fieldbook
