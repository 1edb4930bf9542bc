/-
The rules of reduction.

`Reduces env e r` says what an expression is reduced to, one constructor a rule.  A
literal stays.  A variable is replaced by a scalar, and a function or a vector stays
behind its name.  A derivative is replaced by its value, and stays where a name is
missing in it.  A gradient stays.  An operator is applied to reduced operands, and folded
when both are constants with a result in range.

A reduction that is not given up is a derivation by these rules, by `reduces_of_tryReduce`.
One that is given up returns its input, and any other failure escapes.
-/
import IntCalculus.Proofs.Reduce

namespace IntCalculus

variable {env : Environment}

/-- `Reduces env e r`: reducing the operands of `e` and then applying one rule to the
results gives `r`. -/
inductive Reduces (env : Environment) : Expr → Expr → Prop where
  | literal (v : Value) : Reduces env v.toExpr v.toExpr
  | scalar {x : String} {v : Value} (h : env.lookup x = .ok v) (hv : v.isScalar = true) :
      Reduces env (.var x) v.toExpr
  | name {x : String} {v : Value} (h : env.lookup x = .ok v) (hv : ¬ v.isScalar = true) :
      Reduces env (.var x) (.var x)
  | derivative {d : Derivative} {v : Value} (h : d.evaluate env = .ok v) :
      Reduces env d.toExpr v.toExpr
  | missing {d : Derivative} {err : Error} (h : d.evaluate env = .error err)
      (herr : err.isEnvironment = true) : Reduces env d.toExpr d.toExpr
  | gradient (g : Gradient) : Reduces env g.toExpr g.toExpr
  | node (operator : Operator) {l r l' r' : Expr} (hl : Reduces env l l')
      (hr : Reduces env r r') :
      Reduces env (operator.node l r) (.foldOr operator.node operator l' r')
  | neg {e e' : Expr} (h : Reduces env e e') : Reduces env (.neg e) e'.foldNeg

/-! ## Leaves -/

theorem Expr.tryReduce_var (env : Environment) (x : String) :
    (var x).tryReduce env = (env.lookup x >>= fun v =>
      .ok (if v.isScalar then v.toExpr else var x)) := rfl

theorem Derivative.reduce_of_missing {d : Derivative} {err : Error}
    (h : d.evaluate env = .error err) (herr : err.isEnvironment = true) :
    d.reduce env = .ok d.toExpr := by
  rw [reduce, h]
  exact if_pos herr

theorem Derivative.reduce_of_fatal {d : Derivative} {err : Error}
    (h : d.evaluate env = .error err) (herr : ¬ err.isEnvironment = true) :
    d.reduce env = .error err := by
  rw [reduce, h]
  exact if_neg herr

/-- A derivative is replaced by its value, it is left in place, or it fails. -/
theorem Derivative.reduce_outcome (env : Environment) (d : Derivative) :
    (∃ v, d.evaluate env = .ok v ∧ d.reduce env = .ok v.toExpr) ∨
    (∃ err, d.evaluate env = .error err ∧ err.isEnvironment = true ∧
      d.reduce env = .ok d.toExpr) ∨
    ∃ err, d.evaluate env = .error err ∧ ¬ err.isEnvironment = true ∧
      d.reduce env = .error err := by
  cases hvalue : d.evaluate env with
  | ok v =>
    refine Or.inl ⟨v, rfl, ?_⟩
    rw [reduce, hvalue]
  | error err =>
    by_cases herr : err.isEnvironment = true
    · exact Or.inr (Or.inl ⟨err, rfl, herr, reduce_of_missing hvalue herr⟩)
    · exact Or.inr (Or.inr ⟨err, rfl, herr, reduce_of_fatal hvalue herr⟩)

/-! ## Derivations -/

theorem reduces_of_tryReduce {e r : Expr} (h : e.tryReduce env = .ok r) : Reduces env e r := by
  induction e using Expr.operator_induction generalizing r with
  | leaf e hleaf =>
    cases e with
    | constant c =>
      cases h
      exact .literal (.int c)
    | bool b =>
      cases h
      exact .literal (.bool b)
    | str s =>
      cases h
      exact .literal (.string s)
    | function params body =>
      cases h
      exact .literal (.function params body)
    | vector elements =>
      cases h
      exact .literal (.vector elements)
    | var x =>
      obtain ⟨v, hv, hr⟩ := bind_eq_ok (Expr.tryReduce_var env x ▸ h)
      by_cases hscalar : v.isScalar = true
      · rw [if_pos hscalar] at hr
        cases hr
        exact .scalar hv hscalar
      · rw [if_neg hscalar] at hr
        cases hr
        exact .name hv hscalar
    | derivative f x options =>
      rcases Derivative.reduce_outcome env ⟨f, x, options⟩ with
        ⟨v, hvalue, hr⟩ | ⟨err, hvalue, herr, hr⟩ | ⟨err, _, _, hr⟩
      · cases hr.symm.trans h
        exact .derivative hvalue
      · cases hr.symm.trans h
        exact .missing hvalue herr
      · cases hr.symm.trans h
    | gradient f xs options =>
      cases h
      exact .gradient ⟨f, xs, options⟩
    | add | sub | mul | neg => cases hleaf
  | node operator l r ihl ihr =>
    rw [Expr.tryReduce_node] at h
    obtain ⟨l', hl, h⟩ := bind_eq_ok h
    obtain ⟨r', hr, h⟩ := bind_eq_ok h
    cases h
    exact .node operator (ihl hl) (ihr hr)
  | neg e ih =>
    obtain ⟨e', he, h⟩ := bind_eq_ok h
    cases h
    exact .neg (ih he)

/-! ## Giving up -/

namespace Expr

variable {e r : Expr} {err : Error}

theorem reduce_of_tryReduce (h : e.tryReduce env = .ok r) : e.reduce env = .ok r := by
  rw [reduce, h]

theorem reduce_of_missing (h : e.tryReduce env = .error err) (herr : err.isEnvironment = true) :
    e.reduce env = .ok e := by
  rw [reduce, h]
  exact if_pos herr

theorem reduce_of_fatal (h : e.tryReduce env = .error err) (herr : ¬ err.isEnvironment = true) :
    e.reduce env = .error err := by
  rw [reduce, h]
  exact if_neg herr

/-- A reduction that succeeds was carried out, or it was given up. -/
theorem tryReduce_of_reduce (h : e.reduce env = .ok r) :
    e.tryReduce env = .ok r ∨
      r = e ∧ ∃ err, e.tryReduce env = .error err ∧ err.isEnvironment = true := by
  cases htry : e.tryReduce env with
  | ok r' =>
    rw [reduce_of_tryReduce htry] at h
    exact Or.inl h
  | error err =>
    by_cases herr : err.isEnvironment = true
    · rw [reduce_of_missing htry herr] at h
      exact Or.inr ⟨(Except.ok.inj h).symm, err, rfl, herr⟩
    · rw [reduce_of_fatal htry herr] at h
      cases h

theorem tryReduce_of_reduce_eq_error (h : e.reduce env = .error err) :
    e.tryReduce env = .error err ∧ ¬ err.isEnvironment = true := by
  cases htry : e.tryReduce env with
  | ok r =>
    rw [reduce_of_tryReduce htry] at h
    cases h
  | error err' =>
    by_cases herr : err'.isEnvironment = true
    · rw [reduce_of_missing htry herr] at h
      cases h
    · rw [reduce_of_fatal htry herr] at h
      cases h
      exact ⟨rfl, herr⟩

end Expr
end IntCalculus
