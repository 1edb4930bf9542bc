/-
Simplification modulo `2 ^ 32`.

A wrapped fold is not exact, and what it wraps to may be a 0 or a 1 that lets other
rules fire.  Modulo `2 ^ 32` nothing of this shows: the residues are a ring in which
the wrapping policy folds soundly, and the rules are identities of every ring.  The
exact values before and after a simplification have the same residue because reading
an expression in the residues is reducing its exact value.

An evaluation never wraps, so a derivative node under the wrapping policy evaluates to
the exact value of what the simplification left, and to an integer congruent to the
partial derivative.

The statement this file exists for is `modEq_of_wrapping`.
-/
import IntCalculus.Proofs.Calculus
import Mathlib.Data.ZMod.Basic

namespace IntCalculus

/-- A wrapped result is the exact one modulo `2 ^ 32`. -/
theorem OverflowPolicy.soundIn_wrapping : wrapping.SoundIn (ZMod (2 ^ 32)) := by
  intro n c h
  have hc : c = Int32.ofInt n := (Option.some.inj h).symm
  rw [hc, Int32.toInt_ofInt]
  exact (ZMod.intCast_eq_intCast_iff _ _ _).mpr Int.bmod_emod

/-- Two expressions with the same residue at a point have congruent exact values there. -/
theorem Expr.valueIn_modEq {n : ℕ} {point : String → ℤ} {e f : Expr}
    (h : e.valueIn (fun x => (point x : ZMod n)) = f.valueIn (fun x => (point x : ZMod n))) :
    e.valueIn point ≡ f.valueIn point [ZMOD n] := by
  have hresidue : ∀ g : Expr,
      g.valueIn (fun x => (point x : ZMod n)) = ((g.valueIn point : ℤ) : ZMod n) :=
    fun g => g.valueIn_map (Int.castRingHom (ZMod n)) point
  rw [hresidue, hresidue] at h
  exact (ZMod.intCast_eq_intCast_iff _ _ _).mp h

theorem valueIn_simplify_modEq {options : Options} (hwrapping : options.overflow = .wrapping)
    (point : String → ℤ) (e : Expr) :
    (simplify options e).valueIn point ≡ e.valueIn point [ZMOD 2 ^ 32] := by
  have hsound : options.overflow.SoundIn (ZMod (2 ^ 32)) := by
    rw [hwrapping]
    exact OverflowPolicy.soundIn_wrapping
  exact Expr.valueIn_modEq (valueIn_simplify hsound _ e)

namespace Derivative

variable {env : Environment} {d : Derivative}

/-- A node that has a value has a body that can be differentiated. -/
theorem derives_of_evaluate {v : Value} (h : d.evaluate env = .ok v) :
    ∃ d', Derives d.wrt (d.bodyIn env) d' := by
  obtain ⟨s, hs, _⟩ := bind_eq_ok h
  obtain ⟨d', hd', _⟩ := map_eq_ok hs
  exact ⟨d', derives_of_derive hd'⟩

theorem toInt_modEq_exactAt (hwrapping : d.effectiveOptions.overflow = .wrapping) {c : Int32}
    (h : d.evaluate env = .ok (.int c)) : c.toInt ≡ d.exactAt env [ZMOD 2 ^ 32] := by
  obtain ⟨d', hd'⟩ := derives_of_evaluate h
  have harithmetic := hd'.isArithmetic.2
  rw [evaluate_of_derives hd'] at h
  have hvalue := (Expr.computes_of_evaluate h).2
  rw [Expr.exactAt_eq_valueIn env (isArithmetic_simplify _ harithmetic)] at hvalue
  rw [exactAt_of_derives hd', Expr.exactAt_eq_valueIn env harithmetic, ← hvalue]
  exact valueIn_simplify_modEq hwrapping env.point d'

end Derivative

/-- Under the wrapping policy an expression of the fragment is simplified to one with a
congruent exact value at every point, and a derivative node that evaluates to an integer
evaluates to one congruent to the partial derivative of its body. -/
theorem modEq_of_wrapping :
    (∀ (likeTerms : LikeTerms) (e : Expr) (point : String → ℤ), e.isArithmetic = true →
      (simplify ⟨.wrapping, likeTerms⟩ e).isArithmetic = true ∧
        (simplify ⟨.wrapping, likeTerms⟩ e).valueIn point ≡ e.valueIn point [ZMOD 2 ^ 32]) ∧
    ∀ (env : Environment) (d : Derivative) (c : Int32),
      d.effectiveOptions.overflow = .wrapping → d.evaluate env = .ok (.int c) →
        (d.bodyIn env).isArithmetic = true ∧ c.toInt ≡ d.exactAt env [ZMOD 2 ^ 32] := by
  refine ⟨fun likeTerms e point he => ⟨?_, ?_⟩, fun env d c hwrapping h => ⟨?_, ?_⟩⟩
  · exact isArithmetic_simplify _ he
  · exact valueIn_simplify_modEq rfl point e
  · obtain ⟨d', hd'⟩ := Derivative.derives_of_evaluate h
    exact hd'.isArithmetic.1
  · exact Derivative.toInt_modEq_exactAt hwrapping h

/-- The product `65537 * (65537 * x)`, whose coefficient is `2 ^ 32 + 131073`. -/
def wrappedMultiple : Expr :=
  .mul (.constant 65537) (.mul (.constant 65537) (.var "x"))

/-- The environment that binds `f` to a function with that product as its body, at 2 ^ 30. -/
def wrappedPoint : Environment :=
  ⟨[[("f", .function ["x"] wrappedMultiple)]], [("x", .int 1073741824)]⟩

/-- `derive(f by x)` under the wrapping policy. -/
def wrappedSlope : Derivative := ⟨.var "f", "x", some ⟨.wrapping, .pairwise⟩⟩

theorem modEq_of_wrapping_wrappedMultiple :
    wrappedMultiple.isArithmetic = true ∧
      simplify ⟨.wrapping, .extended⟩ wrappedMultiple = .mul (.constant 131073) (.var "x") ∧
        (∀ point : String → ℤ, 131073 * point "x" ≡ 65537 * (65537 * point "x") [ZMOD 2 ^ 32]) ∧
          wrappedSlope.bodyIn wrappedPoint = wrappedMultiple ∧
            wrappedSlope.evaluate wrappedPoint = .ok (.int 131073) ∧
              131073 ≡ MvPolynomial.eval wrappedPoint.point
                (MvPolynomial.pderiv "x" wrappedMultiple.polynomial) [ZMOD 2 ^ 32] := by
  have hmultiple : wrappedMultiple.isArithmetic = true := by decide
  have hsimplify : simplify ⟨.wrapping, .extended⟩ wrappedMultiple =
      .mul (.constant 131073) (.var "x") := by decide +kernel
  have hslope : wrappedSlope.evaluate wrappedPoint = .ok (.int 131073) := by decide +kernel
  have hbody : wrappedSlope.bodyIn wrappedPoint = wrappedMultiple := rfl
  refine ⟨hmultiple, hsimplify, fun point => ?_, hbody, hslope, ?_⟩
  · have hvalue := (modEq_of_wrapping.1 .extended wrappedMultiple point hmultiple).2
    rw [hsimplify] at hvalue
    exact hvalue
  · have hvalue := (modEq_of_wrapping.2 wrappedPoint wrappedSlope 131073 rfl hslope).2
    rw [Derivative.exactAt, hbody] at hvalue
    exact hvalue

end IntCalculus
