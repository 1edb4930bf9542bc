/-
Reduction and evaluation.

The two recursions are written apart.  An evaluation fails on a missing name, on an
operand that is no integer and on a result out of range; a reduction leaves such a
node unfolded, keeps functions and vectors behind their names, leaves a derivative in
place when a name is missing in it, and gives the whole expression back when a name
is missing elsewhere.  What is left is never a literal, so a literal comes out
exactly when the evaluation has that value.

The statement this file exists for is `reduce_eq_ok_toExpr_iff`.
-/
import IntCalculus.Proofs.Evaluate
import IntCalculus.Reduce

namespace IntCalculus

variable {env : Environment}

/-! ## Values as expressions -/

namespace Value

theorem toExpr_injective : Function.Injective toExpr := by
  intro v w h
  cases v with
  | int a =>
    cases w <;> cases h
    rfl
  | bool a =>
    cases w <;> cases h
    rfl
  | string a =>
    cases w <;> cases h
    rfl
  | function params body =>
    cases w <;> cases h
    rfl
  | vector elements =>
    cases w <;> cases h
    rfl

theorem evaluate_toExpr (v : Value) : v.toExpr.evaluate env = .ok v := by
  cases v <;> rfl

theorem tryReduce_toExpr (v : Value) : v.toExpr.tryReduce env = .ok v.toExpr := by
  cases v <;> rfl

theorem toExpr_ne_node (v : Value) (operator : Operator) (l r : Expr) :
    operator.node l r ≠ v.toExpr := by
  intro h
  cases operator <;> cases v <;> cases h

end Value

namespace Expr

/-! ## Folds of reduced operands -/

theorem tryReduce_node (env : Environment) (operator : Operator) (l r : Expr) :
    (operator.node l r).tryReduce env = (l.tryReduce env >>= fun l' =>
      r.tryReduce env >>= fun r' => .ok (foldOr operator.node operator l' r')) := by
  cases operator <;> rfl

theorem tryReduce_neg (env : Environment) (e : Expr) :
    (neg e).tryReduce env = (e.tryReduce env >>= fun e' => .ok e'.foldNeg) := rfl

theorem foldOr_constants {operator : Operator} {a b c : Int32}
    (h : OverflowPolicy.checked.fold operator a b = some c) :
    foldOr operator.node operator (constant a) (constant b) = constant c := by
  simp only [foldOr, constant?_constant, h, Option.map_some, Option.getD_some]

theorem foldNeg_constant {a c : Int32} (h : OverflowPolicy.checked.fit (-a.toInt) = some c) :
    (constant a).foldNeg = constant c := by
  simp only [foldNeg, constant?_constant, h, Option.map_some, Option.getD_some]

/-- A node of reduced operands is left as it is, or it is folded into a constant. -/
theorem foldOr_cases (operator : Operator) (l r : Expr) :
    foldOr operator.node operator l r = operator.node l r ∨
      ∃ a b c, l = constant a ∧ r = constant b ∧
        OverflowPolicy.checked.fold operator a b = some c ∧
          foldOr operator.node operator l r = constant c := by
  cases hl : l.constant? with
  | none =>
    refine Or.inl ?_
    simp only [foldOr, hl]
  | some a =>
    cases hr : r.constant? with
    | none =>
      refine Or.inl ?_
      simp only [foldOr, hl, hr]
    | some b =>
      cases hfold : OverflowPolicy.checked.fold operator a b with
      | none =>
        refine Or.inl ?_
        simp only [foldOr, hl, hr, hfold, Option.map_none, Option.getD_none]
      | some c =>
        obtain rfl := constant?_eq_some.mp hl
        obtain rfl := constant?_eq_some.mp hr
        exact Or.inr ⟨a, b, c, rfl, rfl, hfold, foldOr_constants hfold⟩

theorem foldNeg_cases (e : Expr) :
    e.foldNeg = neg e ∨
      ∃ a c, e = constant a ∧ OverflowPolicy.checked.fit (-a.toInt) = some c ∧
        e.foldNeg = constant c := by
  cases he : e.constant? with
  | none =>
    refine Or.inl ?_
    simp only [foldNeg, he]
  | some a =>
    cases hfit : OverflowPolicy.checked.fit (-a.toInt) with
    | none =>
      refine Or.inl ?_
      simp only [foldNeg, he, hfit, Option.map_none, Option.getD_none]
    | some c =>
      obtain rfl := constant?_eq_some.mp he
      exact Or.inr ⟨a, c, rfl, hfit, foldNeg_constant hfit⟩

/-- A node is folded into a literal when its operands are constants and the result is
in range. -/
theorem foldOr_eq_toExpr {operator : Operator} {l r : Expr} {v : Value} :
    foldOr operator.node operator l r = v.toExpr ↔
      ∃ a b c, l = constant a ∧ r = constant b ∧
        OverflowPolicy.checked.fold operator a b = some c ∧ v = .int c := by
  constructor
  · intro h
    rcases foldOr_cases operator l r with hkept | ⟨a, b, c, hl, hr, hc, hfolded⟩
    · exact absurd (hkept.symm.trans h) (v.toExpr_ne_node operator l r)
    · have hv : (Value.int c).toExpr = v.toExpr := hfolded.symm.trans h
      exact ⟨a, b, c, hl, hr, hc, (Value.toExpr_injective hv).symm⟩
  · rintro ⟨a, b, c, rfl, rfl, hc, rfl⟩
    exact foldOr_constants hc

theorem foldNeg_eq_toExpr {e : Expr} {v : Value} :
    e.foldNeg = v.toExpr ↔
      ∃ a c, e = constant a ∧ OverflowPolicy.checked.fit (-a.toInt) = some c ∧ v = .int c := by
  constructor
  · intro h
    rcases foldNeg_cases e with hkept | ⟨a, c, he, hc, hfolded⟩
    · cases v <;> cases hkept.symm.trans h
    · have hv : (Value.int c).toExpr = v.toExpr := hfolded.symm.trans h
      exact ⟨a, c, he, hc, (Value.toExpr_injective hv).symm⟩
  · rintro ⟨a, c, rfl, hc, rfl⟩
    exact foldNeg_constant hc

/-! ## The two recursions -/

theorem tryReduce_var_eq_ok_toExpr_iff {name : String} {v : Value} (hv : v.isScalar = true) :
    (var name).tryReduce env = .ok v.toExpr ↔ env.lookup name = .ok v := by
  show (env.lookup name >>= fun w => .ok (if w.isScalar then w.toExpr else var name)) = _ ↔ _
  cases env.lookup name with
  | error err =>
    constructor
    · intro h
      cases h
    · intro h
      cases h
  | ok w =>
    show (Except.ok (if w.isScalar then w.toExpr else var name) : Except Error Expr) = _ ↔ _
    by_cases hw : w.isScalar = true
    · rw [if_pos hw, Except.ok.injEq, Except.ok.injEq]
      exact Value.toExpr_injective.eq_iff
    · rw [if_neg hw, Except.ok.injEq, Except.ok.injEq]
      constructor
      · intro h
        cases v <;> cases h
      · rintro rfl
        exact absurd hv hw

theorem reduce_derivative_eq_ok_toExpr_iff {d : Derivative} {v : Value} :
    d.reduce env = .ok v.toExpr ↔ d.evaluate env = .ok v := by
  unfold Derivative.reduce
  cases d.evaluate env with
  | ok w =>
    rw [Except.ok.injEq, Except.ok.injEq]
    exact Value.toExpr_injective.eq_iff
  | error err =>
    constructor
    · intro h
      by_cases herr : err.isEnvironment = true
      · have hkept : d.toExpr = v.toExpr := Except.ok.inj ((if_pos herr).symm.trans h)
        cases v <;> cases hkept
      · have hfail := (if_neg herr).symm.trans h
        cases hfail
    · intro h
      cases h

theorem evaluate_gradient_ne_scalar {f : Expr} {xs : List String} {options : Option Options}
    {v : Value} (hv : v.isScalar = true) : (gradient f xs options).evaluate env ≠ .ok v := by
  intro h
  have hmap : ((Gradient.mk f xs options).partials.mapM (Derivative.evaluate env)).map
      Value.vector = .ok v := h
  cases hpartials : (Gradient.mk f xs options).partials.mapM (Derivative.evaluate env) with
  | error err =>
    rw [hpartials] at hmap
    cases hmap
  | ok values =>
    rw [hpartials] at hmap
    cases hmap
    cases hv

/-- A reduction that does not give up ends in a literal exactly when the evaluation
has its value. -/
theorem tryReduce_eq_ok_toExpr_iff {e : Expr} {v : Value} (hv : v.isScalar = true) :
    e.tryReduce env = .ok v.toExpr ↔ e.evaluate env = .ok v := by
  induction e using operator_induction generalizing v with
  | leaf e hleaf =>
    have hliteral : ∀ w : Value, e = w.toExpr →
        (e.tryReduce env = .ok v.toExpr ↔ e.evaluate env = .ok v) := by
      rintro w rfl
      rw [w.tryReduce_toExpr, w.evaluate_toExpr, Except.ok.injEq, Except.ok.injEq]
      exact Value.toExpr_injective.eq_iff
    cases e with
    | constant c => exact hliteral (.int c) rfl
    | bool b => exact hliteral (.bool b) rfl
    | str s => exact hliteral (.string s) rfl
    | function params body => exact hliteral (.function params body) rfl
    | vector elements => exact hliteral (.vector elements) rfl
    | var name => exact tryReduce_var_eq_ok_toExpr_iff hv
    | derivative f x options => exact reduce_derivative_eq_ok_toExpr_iff
    | gradient f xs options =>
      refine ⟨fun h => ?_, fun h => absurd h (evaluate_gradient_ne_scalar hv)⟩
      have hself : (Except.ok (gradient f xs options) : Except Error Expr) = .ok v.toExpr := h
      cases v <;> cases hself
    | add | sub | mul | neg => cases hleaf
  | node operator l r ihl ihr =>
    rw [tryReduce_node, evaluate_node_eq_ok]
    constructor
    · intro h
      obtain ⟨l', hl, h⟩ := bind_eq_ok h
      obtain ⟨r', hr, h⟩ := bind_eq_ok h
      obtain ⟨a, b, c, rfl, rfl, hc, hvc⟩ := foldOr_eq_toExpr.mp (Except.ok.inj h)
      have hla : l.evaluate env = .ok (.int a) := (ihl rfl).mp hl
      have hrb : r.evaluate env = .ok (.int b) := (ihr rfl).mp hr
      exact ⟨a, b, c, hla, hrb, hc, hvc⟩
    · rintro ⟨a, b, c, hla, hrb, hc, hvc⟩
      have hl : l.tryReduce env = .ok (constant a) := (ihl rfl).mpr hla
      have hr : r.tryReduce env = .ok (constant b) := (ihr rfl).mpr hrb
      rw [hl, hr]
      exact congrArg Except.ok (foldOr_eq_toExpr.mpr ⟨a, b, c, rfl, rfl, hc, hvc⟩)
  | neg e ih =>
    rw [tryReduce_neg, evaluate_neg_eq_ok]
    constructor
    · intro h
      obtain ⟨e', he, h⟩ := bind_eq_ok h
      obtain ⟨a, c, rfl, hc, hvc⟩ := foldNeg_eq_toExpr.mp (Except.ok.inj h)
      have hea : e.evaluate env = .ok (.int a) := (ih rfl).mp he
      exact ⟨a, c, hea, hc, hvc⟩
    · rintro ⟨a, c, hea, hc, hvc⟩
      have he : e.tryReduce env = .ok (constant a) := (ih rfl).mpr hea
      rw [he]
      exact congrArg Except.ok (foldNeg_eq_toExpr.mpr ⟨a, c, rfl, hc, hvc⟩)

/-- An expression is reduced to the literal of a scalar exactly when it evaluates to
that scalar. -/
theorem reduce_eq_ok_toExpr_iff {env : Environment} {e : Expr} {v : Value}
    (hv : v.isScalar = true) : e.reduce env = .ok v.toExpr ↔ e.evaluate env = .ok v := by
  rw [← tryReduce_eq_ok_toExpr_iff hv]
  unfold reduce
  cases htry : e.tryReduce env with
  | ok reduced => exact Iff.rfl
  | error err =>
    constructor
    · intro h
      by_cases herr : err.isEnvironment = true
      · -- A reduction given up returns its input, and a literal is never given up.
        have he : e = v.toExpr := Except.ok.inj ((if_pos herr).symm.trans h)
        rw [he, v.tryReduce_toExpr] at htry
        cases htry
      · have hfail := (if_neg herr).symm.trans h
        cases hfail
    · intro h
      cases h

/-- The expression `derive(x * x by x) - (-y)`. -/
def slopePlus : Expr :=
  .sub (.derivative (.mul (.var "x") (.var "x")) "x" none) (.neg (.var "y"))

theorem reduce_slopePlus :
    (Value.int 10).isScalar = true ∧
      slopePlus.reduce ⟨[], [("x", .int 3), ("y", .int 4)]⟩ = .ok (.constant 10) := by
  have hvalue : slopePlus.evaluate ⟨[], [("x", .int 3), ("y", .int 4)]⟩ = .ok (.int 10) := by
    decide +kernel
  exact ⟨rfl, (reduce_eq_ok_toExpr_iff rfl).mpr hvalue⟩

end Expr
end IntCalculus
