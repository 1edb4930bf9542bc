/-
Coefficients: an expression as a constant times something else.

A linear term is a variable `x`, read as `1 * x`, or a product of a constant and
a variable in either order.  A product has a coefficient when exactly one factor
is a constant and the other factor is not itself a product with a constant
factor; such nested products are left to the pass that built them.  `scaled`
writes a coefficient back: nothing for 1, and the constant 0 for 0.
-/
import IntCalculus.Expr

namespace IntCalculus
namespace Expr

/-- The coefficient and the name of a linear term. -/
def linear? : Expr → Option (Int32 × String)
  | var x => some (1, x)
  | mul (constant c) (var x) => some (c, x)
  | mul (var x) (constant c) => some (c, x)
  | _ => none

/-- Whether the expression is a product with a constant factor. -/
def hasConstantFactor : Expr → Bool
  | mul a b => a.constant?.isSome || b.constant?.isSome
  | _ => false

/-- The coefficient of a product and the factor it stands before. -/
def coefficient? : Expr → Option (Int32 × Expr)
  | mul l r =>
    match l.constant?, r.constant? with
    | some c, none => if r.hasConstantFactor then none else some (c, r)
    | none, some c => if l.hasConstantFactor then none else some (c, l)
    | _, _ => none
  | _ => none

/-- A constant times an expression, written without the factor 1. -/
def scaled (c : Int32) (e : Expr) : Expr :=
  if c = 0 then constant 0
  else if c = 1 then e
  else mul (constant c) e

/-- A linear term is a variable, or a product of a constant and a variable. -/
theorem linear?_eq_some {e : Expr} {c : Int32} {x : String} :
    e.linear? = some (c, x) ↔
      (c = 1 ∧ e = var x) ∨ e = mul (constant c) (var x) ∨ e = mul (var x) (constant c) := by
  constructor
  · intro h
    unfold linear? at h
    split at h
    · simp only [Option.some.injEq, Prod.mk.injEq] at h
      exact Or.inl ⟨h.1.symm, by rw [h.2]⟩
    · simp only [Option.some.injEq, Prod.mk.injEq] at h
      exact Or.inr (Or.inl (by rw [h.1, h.2]))
    · simp only [Option.some.injEq, Prod.mk.injEq] at h
      exact Or.inr (Or.inr (by rw [h.1, h.2]))
    · cases h
  · rintro (⟨rfl, rfl⟩ | rfl | rfl) <;> rfl

/-- A coefficient is a constant factor of a product whose other factor is neither
a constant nor a product with a constant factor. -/
theorem coefficient?_eq_some {e rest : Expr} {c : Int32} :
    e.coefficient? = some (c, rest) ↔
      (e = mul (constant c) rest ∨ e = mul rest (constant c)) ∧
        rest.constant? = none ∧ rest.hasConstantFactor = false := by
  constructor
  · intro h
    unfold coefficient? at h
    split at h
    case h_2 => cases h
    case h_1 l r =>
      split at h
      case h_1 a ha hb =>
        rw [constant?_eq_some] at ha
        split at h
        · cases h
        · rename_i hr
          simp only [Option.some.injEq, Prod.mk.injEq] at h
          obtain ⟨rfl, rfl⟩ := h
          exact ⟨Or.inl (by rw [ha]), hb, by simpa using hr⟩
      case h_2 b ha hb =>
        rw [constant?_eq_some] at hb
        split at h
        · cases h
        · rename_i hl
          simp only [Option.some.injEq, Prod.mk.injEq] at h
          obtain ⟨rfl, rfl⟩ := h
          exact ⟨Or.inr (by rw [hb]), ha, by simpa using hl⟩
      case h_3 => cases h
  · rintro ⟨rfl | rfl, hrest, hfactor⟩ <;>
      simp [coefficient?, hrest, hfactor]

/-! ## Size -/

theorem nodeCount_scaled_le (c : Int32) (e : Expr) :
    (scaled c e).nodeCount ≤ 2 + e.nodeCount := by
  unfold scaled
  split
  · simp only [nodeCount]; omega
  · split
    · omega
    · simp only [nodeCount]; omega

/-- A linear term is either a bare variable or a product of three nodes. -/
theorem nodeCount_of_linear? {e : Expr} {c : Int32} {x : String}
    (h : e.linear? = some (c, x)) : (c = 1 ∧ e.nodeCount = 1) ∨ e.nodeCount = 3 := by
  rcases linear?_eq_some.mp h with ⟨hc, rfl⟩ | rfl | rfl
  · exact Or.inl ⟨hc, rfl⟩
  · exact Or.inr rfl
  · exact Or.inr rfl

theorem nodeCount_of_coefficient? {e rest : Expr} {c : Int32}
    (h : e.coefficient? = some (c, rest)) : e.nodeCount = 2 + rest.nodeCount := by
  obtain ⟨he | he, _, _⟩ := coefficient?_eq_some.mp h
  · rw [he]
    simp only [nodeCount]
  · rw [he]
    simp only [nodeCount]
    omega

end Expr
end IntCalculus
