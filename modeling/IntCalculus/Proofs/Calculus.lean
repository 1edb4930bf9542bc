/-
Derivatives and gradients at a point.

A calculus node is regular in an environment when it folds under the checked policy
and what it differentiates there is an expression of the fragment in names bound to
integers.  Differentiation brings in no name, so the derivative of a regular node is
a computation at that environment, and its simplification is one with the same exact
value.  A computation can only end with its exact value or overflow.

The statement this file exists for is `evaluate_partialDerivatives`.
-/
import IntCalculus.Proofs.Derive.Order
import IntCalculus.Proofs.Simplify.Evaluate

namespace IntCalculus

/-- The integers an environment binds.  A name bound to no integer is read as 0. -/
def Environment.point (env : Environment) (name : String) : ℤ :=
  match env.lookup name with
  | .ok (.int c) => c.toInt
  | _ => 0

variable {env : Environment}

/-! ## The fragment at a point -/

namespace Expr

theorem exactAt_eq_valueIn (env : Environment) {e : Expr} (h : e.isArithmetic = true) :
    e.exactAt env = e.valueIn env.point := by
  induction e, h using isArithmetic_induction with
  | constant c => rfl
  | var x => rfl
  | add l r _ _ ihl ihr =>
    show l.exactAt env + r.exactAt env = l.valueIn env.point + r.valueIn env.point
    rw [ihl, ihr]
  | sub l r _ _ ihl ihr =>
    show l.exactAt env - r.exactAt env = l.valueIn env.point - r.valueIn env.point
    rw [ihl, ihr]
  | neg e _ ih =>
    show -e.exactAt env = -e.valueIn env.point
    rw [ih]
  | mul l r _ _ ihl ihr =>
    show l.exactAt env * r.exactAt env = l.valueIn env.point * r.valueIn env.point
    rw [ihl, ihr]

theorem computes_of_isArithmetic {e : Expr} (h : e.isArithmetic = true)
    (hbound : ∀ x ∈ e.freeNames, ∃ c, env.lookup x = .ok (.int c)) :
    e.Computes (fun _ => True) env := by
  induction e, h using isArithmetic_induction with
  | constant c => exact computes_constant c
  | var x => exact hbound x List.mem_cons_self
  | add l r _ _ ihl ihr | sub l r _ _ ihl ihr | mul l r _ _ ihl ihr =>
    refine ⟨ihl fun x hx => ?_, ihr fun x hx => ?_, trivial⟩
    · exact hbound x (List.mem_append_left _ hx)
    · exact hbound x (List.mem_append_right _ hx)
  | neg e _ ih => exact ⟨ih hbound, trivial⟩

end Expr

/-! ## Derivatives -/

namespace Derivative

variable {d : Derivative}

/-- The node folds under the checked policy, and its body is an expression of the
fragment whose names are bound to integers. -/
structure Regular (env : Environment) (d : Derivative) : Prop where
  checked : d.effectiveOptions.overflow = .checked
  arithmetic : (d.bodyIn env).isArithmetic = true
  bound : ∀ x ∈ (d.bodyIn env).freeVars, ∃ c, env.lookup x = .ok (.int c)

/-- The exact value of the partial derivative of the body. -/
noncomputable def exactAt (env : Environment) (d : Derivative) : ℤ :=
  MvPolynomial.eval env.point (MvPolynomial.pderiv d.wrt (d.bodyIn env).polynomial)

/-- The node evaluates to an integer, and to the exact one. -/
def HasValue (env : Environment) (d : Derivative) (c : Int32) : Prop :=
  d.evaluate env = .ok (.int c) ∧ c.toInt = d.exactAt env

section

variable {d' : Expr}

theorem evaluate_of_derives (h : Derives d.wrt (d.bodyIn env) d') :
    d.evaluate env = (simplify d.effectiveOptions d').evaluate env := by
  have hsymbolic : d.symbolicIn env = .ok (simplify d.effectiveOptions d') :=
    deriveSimplified_of_derives _ h
  rw [evaluate, hsymbolic]
  exact Expr.evaluateWith_congr (isArithmetic_simplify _ h.isArithmetic.2) env _ _

theorem exactAt_of_derives (h : Derives d.wrt (d.bodyIn env) d') :
    d.exactAt env = d'.exactAt env := by
  rw [exactAt, ← h.polynomial, Expr.eval_polynomial, Expr.exactAt_eq_valueIn env h.isArithmetic.2]

end

theorem evaluate_of_regular (h : d.Regular env) :
    (∃ c, d.HasValue env c) ∨ ∃ text, d.evaluate env = .error (.overflow text) := by
  obtain ⟨d', hd'⟩ := exists_derives d.wrt h.arithmetic
  have hsound : d.effectiveOptions.overflow.SoundIn ℤ := by
    rw [h.checked]
    exact OverflowPolicy.soundIn_checked
  have hcomputes : d'.Computes (fun _ => True) env := by
    -- Names occur in the derivative only where the body has them, so they are bound.
    refine Expr.computes_of_isArithmetic hd'.isArithmetic.2 fun x hx => ?_
    exact h.bound x (Expr.mem_freeVars.mpr (hd'.freeNames_subset hx))
  have hsimplified := computes_simplify hsound (fun _ _ => trivial) hcomputes
  unfold HasValue
  rw [evaluate_of_derives hd', exactAt_of_derives hd',
    ← value_simplify (Expr.isValuation_exactAt env) hsound d']
  exact Expr.evaluate_or_overflow hsimplified

theorem Regular.value_eq (h : d.Regular env) {v : Value} (hv : d.evaluate env = .ok v) :
    ∃ c, v = .int c ∧ d.HasValue env c := by
  rcases evaluate_of_regular h with ⟨c, hc⟩ | ⟨text, htext⟩
  · exact ⟨c, Except.ok.inj (hv.symm.trans hc.1), hc⟩
  · cases hv.symm.trans htext

theorem Regular.error_eq (h : d.Regular env) {err : Error} (herr : d.evaluate env = .error err) :
    ∃ text, err = .overflow text := by
  rcases evaluate_of_regular h with ⟨c, hc⟩ | ⟨text, htext⟩
  · cases herr.symm.trans hc.1
  · exact ⟨text, Except.error.inj (herr.symm.trans htext)⟩

end Derivative

/-! ## Gradients -/

theorem Gradient.evaluate_eq_mapM (env : Environment) (g : Gradient) :
    g.evaluate env = (g.wrt.mapM fun x =>
      Derivative.evaluate env ⟨g.subject, x, g.options⟩).map .vector := by
  rw [evaluate, partials, List.mapM_map]
  rfl

theorem exists_integers_of_regular {node : String → Derivative} {xs : List String}
    {values : List Value} (hregular : ∀ x ∈ xs, (node x).Regular env)
    (h : List.Forall₂ (fun x v => (node x).evaluate env = .ok v) xs values) :
    ∃ integers : List Int32, values = integers.map .int ∧
      List.Forall₂ (fun x c => (node x).HasValue env c) xs integers := by
  induction h with
  | nil => exact ⟨[], rfl, .nil⟩
  | cons hx _ ih =>
    obtain ⟨c, rfl, hc⟩ := (hregular _ List.mem_cons_self).value_eq hx
    obtain ⟨integers, rfl, hintegers⟩ := ih fun x hmem => hregular x (List.mem_cons_of_mem _ hmem)
    exact ⟨c :: integers, rfl, .cons hc hintegers⟩

theorem Gradient.evaluate_of_regular {g : Gradient}
    (h : ∀ x ∈ g.wrt, Derivative.Regular env ⟨g.subject, x, g.options⟩) :
    (∃ integers : List Int32, g.evaluate env = .ok (.vector (integers.map .int)) ∧
      List.Forall₂ (fun x c => Derivative.HasValue env ⟨g.subject, x, g.options⟩ c)
        g.wrt integers) ∨
    ∃ before x after text, g.wrt = before ++ x :: after ∧
      (∀ y ∈ before, ∃ c, Derivative.HasValue env ⟨g.subject, y, g.options⟩ c) ∧
        Derivative.evaluate env ⟨g.subject, x, g.options⟩ = .error (.overflow text) ∧
          g.evaluate env = .error (.overflow text) := by
  rw [evaluate_eq_mapM]
  rcases mapM_outcome (fun x => Derivative.evaluate env ⟨g.subject, x, g.options⟩) g.wrt with
    ⟨values, hvalues, hall⟩ | ⟨before, x, after, err, hsplit, hbefore, hx, herr⟩
  · obtain ⟨integers, rfl, hintegers⟩ := exists_integers_of_regular h hall
    rw [hvalues]
    exact Or.inl ⟨integers, rfl, hintegers⟩
  · have hmem : x ∈ g.wrt := by
      rw [hsplit]
      exact List.mem_append_right _ List.mem_cons_self
    obtain ⟨text, rfl⟩ := (h x hmem).error_eq hx
    refine Or.inr ⟨before, x, after, text, hsplit, fun y hy => ?_, hx, ?_⟩
    · have hmem' : y ∈ g.wrt := by
        rw [hsplit]
        exact List.mem_append_left _ hy
      obtain ⟨v, hv⟩ := hbefore y hy
      obtain ⟨c, _, hc⟩ := (h y hmem').value_eq hv
      exact ⟨c, hc⟩
    · rw [herr]
      rfl

/-- At a regular node a derivative is the exact partial derivative or an overflow, and
a gradient is the vector of the partial derivatives in the order of its variables or
the overflow of the first that has one. -/
theorem evaluate_partialDerivatives (env : Environment) :
    (∀ d : Derivative, d.Regular env →
      (∃ c, d.HasValue env c) ∨ ∃ text, d.evaluate env = .error (.overflow text)) ∧
    ∀ g : Gradient, (∀ x ∈ g.wrt, Derivative.Regular env ⟨g.subject, x, g.options⟩) →
      (∃ integers : List Int32, g.evaluate env = .ok (.vector (integers.map .int)) ∧
        List.Forall₂ (fun x c => Derivative.HasValue env ⟨g.subject, x, g.options⟩ c)
          g.wrt integers) ∨
      ∃ before x after text, g.wrt = before ++ x :: after ∧
        (∀ y ∈ before, ∃ c, Derivative.HasValue env ⟨g.subject, y, g.options⟩ c) ∧
          Derivative.evaluate env ⟨g.subject, x, g.options⟩ = .error (.overflow text) ∧
            g.evaluate env = .error (.overflow text) :=
  ⟨fun _ => Derivative.evaluate_of_regular, fun _ => Gradient.evaluate_of_regular⟩

def squareTimes : Expr := .mul (.mul (.var "x") (.var "x")) (.var "y")

/-- The environment that binds `f` to a function with the body `(x * x) * y`, and the
point (3, 4). -/
def namedProduct : Environment :=
  ⟨[[("f", .function ["x", "y"] squareTimes)]], [("x", .int 3), ("y", .int 4)]⟩

/-- `gradient(f by [x, y, y])` with whole chains collected. -/
def productGradient : Gradient := ⟨.var "f", ["x", "y", "y"], some ⟨.checked, .extended⟩⟩

/-- The partial derivatives are `2 * x * y`, and `x * x` twice. -/
theorem evaluate_productGradient :
    (∀ x ∈ productGradient.wrt,
        Derivative.Regular namedProduct ⟨.var "f", x, productGradient.options⟩) ∧
      productGradient.evaluate namedProduct = .ok (.vector [.int 24, .int 9, .int 9]) ∧
        List.Forall₂ (fun x c =>
            Derivative.HasValue namedProduct ⟨.var "f", x, productGradient.options⟩ c)
          ["x", "y", "y"] [24, 9, 9] := by
  have hregular : ∀ x ∈ productGradient.wrt,
      Derivative.Regular namedProduct ⟨.var "f", x, productGradient.options⟩ := by
    intro x _
    have hbody : (Derivative.mk (.var "f") x productGradient.options).bodyIn namedProduct =
      squareTimes := rfl
    refine ⟨rfl, congrArg Expr.isArithmetic hbody, fun y hy => ?_⟩
    have hmem : y ∈ ["x", "x", "y"] := Expr.mem_freeVars.mp hy
    have hnames : y = "x" ∨ y = "y" := by simpa using hmem
    rcases hnames with rfl | rfl
    · exact ⟨3, rfl⟩
    · exact ⟨4, rfl⟩
  have hvalue : productGradient.evaluate namedProduct =
      .ok (.vector ([24, 9, 9].map .int)) := by decide +kernel
  refine ⟨hregular, hvalue, ?_⟩
  rcases (evaluate_partialDerivatives namedProduct).2 productGradient hregular with
    ⟨integers, hintegers, hall⟩ | ⟨_, _, _, text, _, _, _, htext⟩
  · have hmap : integers.map Value.int = [24, 9, 9].map Value.int :=
      Value.vector.inj (Except.ok.inj (hintegers.symm.trans hvalue))
    have hlist : integers = [24, 9, 9] :=
      List.map_injective_iff.mpr (fun _ _ => Value.int.inj) hmap
    exact hlist ▸ hall
  · cases hvalue.symm.trans htext

end IntCalculus
