/-
Differentiation computes the formal partial derivative.

`Derives x e d` lists the rules of differentiation; a successful `derive` is a
derivation by them and every expression of the fragment has one.  Along a
derivation the polynomial of `d` is the partial derivative of the polynomial of
`e`, and the value of `e` at a point moved by `step` in `x` is its first-order
expansion up to a multiple of `step * step`.  The product rule needs the second
statement for both factors at the moved and the unmoved point, which is why the
remainder is an element of the ring and not a bound.

The statement this file exists for is `derive_isPartialDerivative`.
-/
import IntCalculus.Proofs.Outcome
import IntCalculus.Proofs.Value
import Mathlib.Tactic.LinearCombination

namespace IntCalculus

/-- The rules of differentiation by `x`. -/
inductive Derives (x : String) : Expr → Expr → Prop where
  | constant (c : Int32) : Derives x (.constant c) (.constant 0)
  | self : Derives x (.var x) (.constant 1)
  | other {y : String} (h : y ≠ x) : Derives x (.var y) (.constant 0)
  | add {l r l' r' : Expr} (hl : Derives x l l') (hr : Derives x r r') :
      Derives x (.add l r) (.add l' r')
  | sub {l r l' r' : Expr} (hl : Derives x l l') (hr : Derives x r r') :
      Derives x (.sub l r) (.sub l' r')
  | neg {e e' : Expr} (h : Derives x e e') : Derives x (.neg e) (.neg e')
  | mul {u v u' v' : Expr} (hu : Derives x u u') (hv : Derives x v v') :
      Derives x (.mul u v) (.add (.mul u' v) (.mul u v'))

variable {x : String}

theorem derives_of_derive {e d : Expr} (h : derive x e = .ok d) : Derives x e d := by
  induction e using Expr.isArithmetic.induct generalizing d with
  | case1 c =>
    cases h
    exact .constant c
  | case2 y =>
    cases h
    by_cases hy : y = x
    · rw [if_pos hy, hy]
      exact .self
    · rw [if_neg hy]
      exact .other hy
  | case3 l r ihl ihr =>
    obtain ⟨l', hl, h⟩ := bind_eq_ok h
    obtain ⟨r', hr, h⟩ := bind_eq_ok h
    cases h
    exact .add (ihl hl) (ihr hr)
  | case4 l r ihl ihr =>
    obtain ⟨l', hl, h⟩ := bind_eq_ok h
    obtain ⟨r', hr, h⟩ := bind_eq_ok h
    cases h
    exact .sub (ihl hl) (ihr hr)
  | case5 u v ihu ihv =>
    obtain ⟨u', hu, h⟩ := bind_eq_ok h
    obtain ⟨v', hv, h⟩ := bind_eq_ok h
    cases h
    exact .mul (ihu hu) (ihv hv)
  | case6 e ih =>
    obtain ⟨e', he, h⟩ := bind_eq_ok h
    cases h
    exact .neg (ih he)
  | case7 e h1 h2 h3 h4 h5 h6 =>
    cases e <;> simp_all [derive]

theorem derive_of_derives {e d : Expr} (h : Derives x e d) : derive x e = .ok d := by
  induction h with
  | constant c => rfl
  | self => rw [derive, if_pos rfl]
  | other hy => rw [derive, if_neg hy]
  | add _ _ ihl ihr => rw [derive, ihl, ihr]; rfl
  | sub _ _ ihl ihr => rw [derive, ihl, ihr]; rfl
  | neg _ ih => rw [derive, ih]; rfl
  | mul _ _ ihu ihv => rw [derive, ihu, ihv]; rfl

theorem exists_derives (x : String) {e : Expr} (h : e.isArithmetic = true) :
    ∃ d, Derives x e d := by
  induction e, h using Expr.isArithmetic_induction with
  | constant c => exact ⟨_, .constant c⟩
  | var y =>
    by_cases hy : y = x
    · rw [hy]
      exact ⟨_, .self⟩
    · exact ⟨_, .other hy⟩
  | add l r _ _ ihl ihr =>
    obtain ⟨l', hl⟩ := ihl
    obtain ⟨r', hr⟩ := ihr
    exact ⟨_, .add hl hr⟩
  | sub l r _ _ ihl ihr =>
    obtain ⟨l', hl⟩ := ihl
    obtain ⟨r', hr⟩ := ihr
    exact ⟨_, .sub hl hr⟩
  | neg e _ ih =>
    obtain ⟨e', he⟩ := ih
    exact ⟨_, .neg he⟩
  | mul u v _ _ ihu ihv =>
    obtain ⟨u', hu⟩ := ihu
    obtain ⟨v', hv⟩ := ihv
    exact ⟨_, .mul hu hv⟩

namespace Derives

variable {e d : Expr}

/-- Only expressions of the fragment are differentiated, and into such. -/
theorem isArithmetic (h : Derives x e d) : e.isArithmetic = true ∧ d.isArithmetic = true := by
  induction h with
  | constant | self | other => exact ⟨rfl, rfl⟩
  | add _ _ ihl ihr =>
    exact ⟨Expr.isArithmetic_add.mpr ⟨ihl.1, ihr.1⟩, Expr.isArithmetic_add.mpr ⟨ihl.2, ihr.2⟩⟩
  | sub _ _ ihl ihr =>
    exact ⟨Expr.isArithmetic_sub.mpr ⟨ihl.1, ihr.1⟩, Expr.isArithmetic_sub.mpr ⟨ihl.2, ihr.2⟩⟩
  | neg _ ih => exact ih
  | mul _ _ ihu ihv =>
    refine ⟨Expr.isArithmetic_mul.mpr ⟨ihu.1, ihv.1⟩, Expr.isArithmetic_add.mpr ⟨?_, ?_⟩⟩
    · exact Expr.isArithmetic_mul.mpr ⟨ihu.2, ihv.1⟩
    · exact Expr.isArithmetic_mul.mpr ⟨ihu.1, ihv.2⟩

/-- The derivative is an expression in the names of what was differentiated. -/
theorem freeNames_subset (h : Derives x e d) : d.freeNames ⊆ e.freeNames := by
  induction h with
  | constant | self | other => exact List.nil_subset _
  | add _ _ ihl ihr | sub _ _ ihl ihr =>
    refine List.append_subset.mpr ⟨?_, ?_⟩
    · exact List.subset_append_of_subset_left _ ihl
    · exact List.subset_append_of_subset_right _ ihr
  | neg _ ih => exact ih
  | mul _ _ ihu ihv =>
    refine List.append_subset.mpr ⟨?_, ?_⟩
    · exact List.append_subset.mpr
        ⟨List.subset_append_of_subset_left _ ihu, List.subset_append_right _ _⟩
    · exact List.append_subset.mpr
        ⟨List.subset_append_left _ _, List.subset_append_of_subset_right _ ihv⟩

theorem polynomial (h : Derives x e d) :
    d.polynomial = MvPolynomial.pderiv x e.polynomial := by
  induction h with
  | constant c =>
    show (Expr.constant 0).polynomial = MvPolynomial.pderiv x ((c.toInt : MvPolynomial String ℤ))
    rw [Expr.polynomial, Expr.valueIn_zero, Derivation.map_intCast]
  | self =>
    show (Expr.constant 1).polynomial = MvPolynomial.pderiv x (MvPolynomial.X x)
    rw [Expr.polynomial, Expr.valueIn_one, MvPolynomial.pderiv_X_self]
  | @other y hy =>
    show (Expr.constant 0).polynomial = MvPolynomial.pderiv x (MvPolynomial.X y)
    rw [Expr.polynomial, Expr.valueIn_zero, MvPolynomial.pderiv_X_of_ne hy]
  | @add l r l' r' _ _ ihl ihr =>
    show l'.polynomial + r'.polynomial = MvPolynomial.pderiv x (l.polynomial + r.polynomial)
    rw [ihl, ihr, map_add]
  | @sub l r l' r' _ _ ihl ihr =>
    show l'.polynomial - r'.polynomial = MvPolynomial.pderiv x (l.polynomial - r.polynomial)
    rw [ihl, ihr, map_sub]
  | @neg e e' _ ih =>
    show -e'.polynomial = MvPolynomial.pderiv x (-e.polynomial)
    rw [ih, map_neg]
  | @mul u v u' v' _ _ ihu ihv =>
    show u'.polynomial * v.polynomial + u.polynomial * v'.polynomial =
      MvPolynomial.pderiv x (u.polynomial * v.polynomial)
    rw [ihu, ihv, MvPolynomial.pderiv_mul]

variable {R : Type*} [CommRing R]

/-- The first-order expansion of an expression around a point. -/
theorem valueIn_update (h : Derives x e d) (point : String → R) (step : R) :
    ∃ k, e.valueIn (Function.update point x (point x + step)) =
      e.valueIn point + step * d.valueIn point + step * step * k := by
  induction h with
  | constant c =>
    refine ⟨0, ?_⟩
    rw [Expr.valueIn_zero, mul_zero, mul_zero, add_zero, add_zero]
    rfl
  | self =>
    refine ⟨0, ?_⟩
    rw [Expr.valueIn_one, mul_one, mul_zero, add_zero]
    exact Function.update_self x _ point
  | other hy =>
    refine ⟨0, ?_⟩
    rw [Expr.valueIn_zero, mul_zero, mul_zero, add_zero, add_zero]
    exact Function.update_of_ne hy _ point
  | add _ _ ihl ihr =>
    obtain ⟨a, ha⟩ := ihl
    obtain ⟨b, hb⟩ := ihr
    refine ⟨a + b, ?_⟩
    simp only [Expr.valueIn]
    linear_combination ha + hb
  | sub _ _ ihl ihr =>
    obtain ⟨a, ha⟩ := ihl
    obtain ⟨b, hb⟩ := ihr
    refine ⟨a - b, ?_⟩
    simp only [Expr.valueIn]
    linear_combination ha - hb
  | neg _ ih =>
    obtain ⟨a, ha⟩ := ih
    refine ⟨-a, ?_⟩
    simp only [Expr.valueIn]
    linear_combination -ha
  | @mul u v u' v' _ _ ihu ihv =>
    obtain ⟨a, ha⟩ := ihu
    obtain ⟨b, hb⟩ := ihv
    -- All that is not of first order in the product of the two expansions.
    refine ⟨u.valueIn point * b + a * v.valueIn point + u'.valueIn point * v'.valueIn point +
      step * (u'.valueIn point * b + a * v'.valueIn point) + step * step * (a * b), ?_⟩
    simp only [Expr.valueIn]
    rw [ha, hb]
    ring

end Derives

/-- An expression of the fragment is differentiated into one that denotes the
partial derivative of its polynomial, which its values at moved points show. -/
theorem derive_isPartialDerivative {e : Expr} (h : e.isArithmetic = true) (x : String) :
    ∃ d, derive x e = .ok d ∧ d.isArithmetic = true ∧
      d.polynomial = MvPolynomial.pderiv x e.polynomial ∧
      ∀ (point : String → ℤ) (step : ℤ), ∃ k,
        e.valueIn (Function.update point x (point x + step)) =
          e.valueIn point + step * d.valueIn point + step * step * k := by
  obtain ⟨d, hd⟩ := exists_derives x h
  exact ⟨d, derive_of_derives hd, hd.isArithmetic.2, hd.polynomial, hd.valueIn_update⟩

/-- The product `(x * x) * (y - x)`. -/
def cubic : Expr := .mul (.mul (.var "x") (.var "x")) (.sub (.var "y") (.var "x"))

theorem derive_cubic :
    cubic.isArithmetic = true ∧
      ∃ d, derive "x" cubic = .ok d ∧ d.isArithmetic = true ∧
        d.polynomial = MvPolynomial.pderiv "x" cubic.polynomial ∧
        ∀ (point : String → ℤ) (step : ℤ), ∃ k,
          cubic.valueIn (Function.update point "x" (point "x" + step)) =
            cubic.valueIn point + step * d.valueIn point + step * step * k := by
  have hcubic : cubic.isArithmetic = true := by decide
  exact ⟨hcubic, derive_isPartialDerivative hcubic "x"⟩

end IntCalculus
