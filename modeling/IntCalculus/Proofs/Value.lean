/-
The exact value of an arithmetic expression.

`Expr.valueIn point` reads an expression of the arithmetic fragment in a
commutative ring, with the variables assigned as `point` says.  Over the
integers this is the exact value, without a range; over the polynomials with
each variable assigned to itself it is the polynomial the expression denotes.
`valueIn_map` ties the readings together: a ring homomorphism may be applied to
the assignment or to the value.  What is proved of every `IsValuation` holds of
other readings as well, such as the one that gives nodes outside the fragment the
integers they evaluate to.

A node outside the fragment has no exact value and is read as 0, so statements
about values say beside them that the expressions lie in the fragment.
-/
import Mathlib.Algebra.MvPolynomial.PDeriv
import IntCalculus.Evaluate
import IntCalculus.Proofs.Node

namespace IntCalculus
namespace Expr

theorem isArithmetic_add {l r : Expr} :
    (add l r).isArithmetic = true ↔ l.isArithmetic = true ∧ r.isArithmetic = true :=
  Bool.and_eq_true_iff

theorem isArithmetic_sub {l r : Expr} :
    (sub l r).isArithmetic = true ↔ l.isArithmetic = true ∧ r.isArithmetic = true :=
  Bool.and_eq_true_iff

theorem isArithmetic_mul {l r : Expr} :
    (mul l r).isArithmetic = true ↔ l.isArithmetic = true ∧ r.isArithmetic = true :=
  Bool.and_eq_true_iff

theorem isArithmetic_node {operator : Operator} {l r : Expr} :
    (operator.node l r).isArithmetic = true ↔ l.isArithmetic = true ∧ r.isArithmetic = true := by
  cases operator <;> exact Bool.and_eq_true_iff

/-- Induction over the arithmetic fragment. -/
@[elab_as_elim]
theorem isArithmetic_induction {motive : (e : Expr) → e.isArithmetic = true → Prop}
    (constant : ∀ c, motive (.constant c) rfl)
    (var : ∀ x, motive (.var x) rfl)
    (add : ∀ l r hl hr, motive l hl → motive r hr →
      motive (.add l r) (by rw [isArithmetic, hl, hr]; rfl))
    (sub : ∀ l r hl hr, motive l hl → motive r hr →
      motive (.sub l r) (by rw [isArithmetic, hl, hr]; rfl))
    (neg : ∀ e he, motive e he → motive (.neg e) (by rw [isArithmetic, he]))
    (mul : ∀ l r hl hr, motive l hl → motive r hr →
      motive (.mul l r) (by rw [isArithmetic, hl, hr]; rfl))
    (e : Expr) (h : e.isArithmetic = true) : motive e h := by
  induction e using Expr.isArithmetic.induct with
  | case1 c => exact constant c
  | case2 x => exact var x
  | case3 l r ihl ihr =>
    obtain ⟨hl, hr⟩ := Bool.and_eq_true_iff.mp h
    exact add l r hl hr (ihl hl) (ihr hr)
  | case4 l r ihl ihr =>
    obtain ⟨hl, hr⟩ := Bool.and_eq_true_iff.mp h
    exact sub l r hl hr (ihl hl) (ihr hr)
  | case5 l r ihl ihr =>
    obtain ⟨hl, hr⟩ := Bool.and_eq_true_iff.mp h
    exact mul l r hl hr (ihl hl) (ihr hr)
  | case6 e ih => exact neg e h (ih h)
  | case7 e h1 h2 h3 h4 h5 h6 =>
    have hfalse : e.isArithmetic = false := by
      cases e <;> simp_all [isArithmetic]
    exact absurd (hfalse.symm.trans h) Bool.false_ne_true

/-- Induction over the arithmetic fragment, with the operators taken as one. -/
@[elab_as_elim]
theorem isArithmetic_node_induction {motive : (e : Expr) → e.isArithmetic = true → Prop}
    (constant : ∀ c, motive (.constant c) rfl)
    (var : ∀ x, motive (.var x) rfl)
    (node : ∀ (operator : Operator) l r hl hr, motive l hl → motive r hr →
      motive (operator.node l r) (isArithmetic_node.mpr ⟨hl, hr⟩))
    (neg : ∀ e he, motive e he → motive (.neg e) (by rw [isArithmetic, he]))
    (e : Expr) (h : e.isArithmetic = true) : motive e h :=
  isArithmetic_induction constant var (node .plus) (node .minus) neg (node .times) e h

/-! ## Values -/

variable {R S : Type*} [CommRing R] [CommRing S]

def valueIn (point : String → R) : Expr → R
  | constant c => (c.toInt : R)
  | var x => point x
  | add l r => l.valueIn point + r.valueIn point
  | sub l r => l.valueIn point - r.valueIn point
  | neg e => -e.valueIn point
  | mul l r => l.valueIn point * r.valueIn point
  | _ => 0

variable {point : String → R}

theorem valueIn_node (point : String → ℤ) (operator : Operator) (l r : Expr) :
    (operator.node l r).valueIn point =
      operator.exact (l.valueIn point) (r.valueIn point) := by
  cases operator <;> rfl

/-! ## Valuations -/

/-- A reading of expressions in a ring: constants and operators mean what they mean in
the ring, and nothing is asked of the other nodes but that the body of a function
value does not matter. -/
structure IsValuation (value : Expr → R) : Prop where
  constant (c : Int32) : value (.constant c) = (c.toInt : R)
  add (l r : Expr) : value (.add l r) = value l + value r
  sub (l r : Expr) : value (.sub l r) = value l - value r
  neg (e : Expr) : value (.neg e) = -value e
  mul (l r : Expr) : value (.mul l r) = value l * value r
  function (params : List String) (body body' : Expr) :
    value (.function params body) = value (.function params body')

namespace IsValuation

variable {value : Expr → R}

theorem zero (hv : IsValuation value) : value (.constant 0) = 0 := by
  rw [hv.constant, Int32.toInt_zero, Int.cast_zero]

theorem one (hv : IsValuation value) : value (.constant 1) = 1 := by
  rw [hv.constant, show (1 : Int32).toInt = 1 from rfl, Int.cast_one]

end IsValuation

theorem isValuation_valueIn (point : String → R) : IsValuation (valueIn point) where
  constant _ := rfl
  add _ _ := rfl
  sub _ _ := rfl
  neg _ := rfl
  mul _ _ := rfl
  function _ _ _ := rfl

@[simp] theorem valueIn_zero : (constant 0).valueIn point = 0 := (isValuation_valueIn point).zero

@[simp] theorem valueIn_one : (constant 1).valueIn point = 1 := (isValuation_valueIn point).one

/-! ## Values and polynomials -/

theorem valueIn_map (f : R →+* S) (point : String → R) (e : Expr) :
    e.valueIn (fun x => f (point x)) = f (e.valueIn point) := by
  induction e using Expr.isArithmetic.induct with
  | case1 c => simp only [valueIn, map_intCast]
  | case2 x => rfl
  | case3 l r ihl ihr => simp only [valueIn, ihl, ihr, map_add]
  | case4 l r ihl ihr => simp only [valueIn, ihl, ihr, map_sub]
  | case5 l r ihl ihr => simp only [valueIn, ihl, ihr, map_mul]
  | case6 e ih => simp only [valueIn, ih, map_neg]
  | case7 e h1 h2 h3 h4 h5 h6 =>
    cases e <;> simp_all [valueIn]

/-- The polynomial with integer coefficients that an expression denotes. -/
noncomputable def polynomial (e : Expr) : MvPolynomial String ℤ := e.valueIn MvPolynomial.X

/-- The value of an expression is the value of its polynomial. -/
theorem eval_polynomial (point : String → ℤ) (e : Expr) :
    MvPolynomial.eval point e.polynomial = e.valueIn point := by
  rw [polynomial, ← valueIn_map]
  simp only [MvPolynomial.eval_X]

end Expr
end IntCalculus
