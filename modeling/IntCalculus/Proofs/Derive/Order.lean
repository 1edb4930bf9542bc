/-
Derivatives of higher order, with and without simplification between the orders.

The trees of the two ways differ from the first order on.  What they share is
the polynomial: differentiation respects it, and a simplification whose folds
are sound for polynomials keeps it.  So the invariant of the induction on the
order is that both trees lie in the fragment and denote the same polynomial.
An expression outside the fragment fails at the first order, before any
simplification.

The statement this file exists for is `deriveNth_agrees`.
-/
import IntCalculus.Proofs.Derive.Formal
import IntCalculus.Proofs.Simplify.Exact

namespace IntCalculus

/-- Two expressions of the fragment that denote the same polynomial. -/
structure SamePolynomial (e f : Expr) : Prop where
  left : e.isArithmetic = true
  right : f.isArithmetic = true
  polynomial_eq : f.polynomial = e.polynomial

namespace SamePolynomial

variable {e f d d' : Expr}

theorem refl (h : e.isArithmetic = true) : SamePolynomial e e := ⟨h, h, rfl⟩

theorem valueIn_eq (h : SamePolynomial e f) (point : String → ℤ) :
    f.valueIn point = e.valueIn point := by
  rw [← Expr.eval_polynomial, h.polynomial_eq, Expr.eval_polynomial]

/-- Differentiation respects polynomials, and not only trees. -/
theorem derives {x : String} (h : SamePolynomial e f) (he : Derives x e d)
    (hf : Derives x f d') : SamePolynomial d d' where
  left := he.isArithmetic.2
  right := hf.isArithmetic.2
  polynomial_eq := by rw [he.polynomial, hf.polynomial, h.polynomial_eq]

theorem simplify_right {options : Options}
    (hsound : options.overflow.SoundIn (MvPolynomial String ℤ)) (h : SamePolynomial e f) :
    SamePolynomial e (simplify options f) where
  left := h.left
  right := isArithmetic_simplify options h.right
  polynomial_eq := by
    rw [← h.polynomial_eq]
    exact valueIn_simplify hsound MvPolynomial.X f

end SamePolynomial

theorem deriveSimplified_of_derives (options : Options) {x : String} {e d : Expr}
    (h : Derives x e d) : deriveSimplified options x e = .ok (simplify options d) := by
  rw [deriveSimplified, derive_of_derives h]
  rfl

/-- From trees with the same polynomial both ways succeed, and again with the same
polynomial. -/
theorem deriveNth_of_samePolynomial {options : Options}
    (hsound : options.overflow.SoundIn (MvPolynomial String ℤ)) (x : String) (order : Nat) :
    ∀ {e f : Expr}, SamePolynomial e f →
      ∃ raw simplified, deriveRawNth x order e = .ok raw ∧
        deriveNth options x order f = .ok simplified ∧ SamePolynomial raw simplified := by
  induction order with
  | zero =>
    intro e f h
    exact ⟨e, f, rfl, rfl, h⟩
  | succ order ih =>
    intro e f h
    obtain ⟨d, hd⟩ := exists_derives x h.left
    obtain ⟨d', hd'⟩ := exists_derives x h.right
    obtain ⟨raw, simplified, hraw, hsimplified, hsame⟩ :=
      ih ((h.derives hd hd').simplify_right hsound)
    refine ⟨raw, simplified, ?_, ?_, hsame⟩
    · rw [deriveRawNth, derive_of_derives hd]
      exact hraw
    · rw [deriveNth, deriveSimplified_of_derives options hd']
      exact hsimplified

/-- Outside the fragment the first order fails, in both ways alike. -/
theorem deriveNth_of_not_isArithmetic (options : Options) (x : String) (order : Nat) {e : Expr}
    (h : ¬ e.isArithmetic = true) :
    ∃ err, deriveRawNth x (order + 1) e = .error err ∧
      deriveNth options x (order + 1) e = .error err := by
  cases hd : derive x e with
  | ok d => exact absurd (derives_of_derive hd).isArithmetic.1 h
  | error err =>
    refine ⟨err, ?_, ?_⟩
    · rw [deriveRawNth, hd]
      rfl
    · rw [deriveNth, deriveSimplified, hd]
      rfl

/-- Either both ways succeed, with trees of the same polynomial where there is one, or
both fail with the same error. -/
theorem deriveNth_outcome {options : Options}
    (hsound : options.overflow.SoundIn (MvPolynomial String ℤ)) (x : String) (order : Nat)
    (e : Expr) :
    (∃ raw simplified, deriveRawNth x order e = .ok raw ∧
      deriveNth options x order e = .ok simplified ∧
        (e.isArithmetic = true → SamePolynomial raw simplified)) ∨
    ∃ err, deriveRawNth x order e = .error err ∧ deriveNth options x order e = .error err := by
  by_cases he : e.isArithmetic = true
  · obtain ⟨raw, simplified, hraw, hsimplified, hsame⟩ :=
      deriveNth_of_samePolynomial hsound x order (SamePolynomial.refl he)
    exact Or.inl ⟨raw, simplified, hraw, hsimplified, fun _ => hsame⟩
  · cases order with
    | zero => exact Or.inl ⟨e, e, rfl, rfl, fun h => absurd h he⟩
    | succ order => exact Or.inr (deriveNth_of_not_isArithmetic options x order he)

/-- The derivative of any order taken without simplification and the one
simplified between the orders under the checked policy succeed on the same
expressions, fail with the same error, and have the same exact value. -/
theorem deriveNth_agrees (likeTerms : LikeTerms) (x : String) (order : Nat) (e : Expr) :
    ((∃ raw, deriveRawNth x order e = .ok raw) ↔
      ∃ simplified, deriveNth ⟨.checked, likeTerms⟩ x order e = .ok simplified) ∧
    (∀ raw simplified, deriveRawNth x order e = .ok raw →
      deriveNth ⟨.checked, likeTerms⟩ x order e = .ok simplified → e.isArithmetic = true →
        raw.isArithmetic = true ∧ simplified.isArithmetic = true ∧
          ∀ point : String → ℤ, simplified.valueIn point = raw.valueIn point) ∧
    (∀ err err', deriveRawNth x order e = .error err →
      deriveNth ⟨.checked, likeTerms⟩ x order e = .error err' → err = err') ∧
    (order = 0 → deriveRawNth x order e = .ok e ∧
      deriveNth ⟨.checked, likeTerms⟩ x order e = .ok e) := by
  have hzero : order = 0 → deriveRawNth x order e = .ok e ∧
      deriveNth ⟨.checked, likeTerms⟩ x order e = .ok e := by
    rintro rfl
    exact ⟨rfl, rfl⟩
  have hsound : (⟨.checked, likeTerms⟩ : Options).overflow.SoundIn (MvPolynomial String ℤ) :=
    OverflowPolicy.soundIn_checked
  rcases deriveNth_outcome hsound x order e with
    ⟨raw, simplified, hraw, hsimplified, hsame⟩ | ⟨err, hraw, hsimplified⟩
  · rw [hraw, hsimplified] at hzero ⊢
    refine ⟨⟨fun _ => ⟨simplified, rfl⟩, fun _ => ⟨raw, rfl⟩⟩, ?_, ?_, hzero⟩
    · intro raw' simplified' hraw' hsimplified' he
      cases hraw'
      cases hsimplified'
      exact ⟨(hsame he).left, (hsame he).right, (hsame he).valueIn_eq⟩
    · intro err err' hraw'
      cases hraw'
  · rw [hraw, hsimplified] at hzero ⊢
    refine ⟨⟨?_, ?_⟩, ?_, ?_, hzero⟩
    · rintro ⟨raw, hraw'⟩
      cases hraw'
    · rintro ⟨simplified, hsimplified'⟩
      cases hsimplified'
    · intro raw simplified hraw'
      cases hraw'
    · intro err₁ err₂ h₁ h₂
      cases h₁
      cases h₂
      rfl

end IntCalculus
