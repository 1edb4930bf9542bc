/-
Simplification as a relation.

`Simplifies options e s` holds when `s` can be had from `e` by simplifying the
operands first and then applying one rule at the node.

The statement this file exists for is `simplifies_simplify`: every run of the
pass is a derivation.  A property the rules keep is then proved by induction on
the derivation, with one case for each rule, and neither the order of the rules
nor the second run that a double negation starts has to be looked at again.
-/
import IntCalculus.Simplify

namespace IntCalculus

/-- The kinds of expression that a simplification leaves alone.  The subjects of
calculus nodes are not simplified where they stand. -/
def Expr.isAtom : Expr → Bool
  | .constant _ | .bool _ | .str _ | .var _ | .vector _ => true
  | .derivative _ _ _ | .gradient _ _ _ => true
  | _ => false

theorem simplify_of_isAtom (options : Options) {e : Expr} (h : e.isAtom = true) :
    simplify options e = e := by
  cases e with
  | constant c => exact simplify_constant options c
  | bool b => exact simplify_bool options b
  | str s => exact simplify_str options s
  | var x => exact simplify_var options x
  | vector elements => exact simplify_vector options elements
  | derivative f x own => exact simplify_derivative options f x own
  | gradient f xs own => exact simplify_gradient options f xs own
  | add | sub | neg | mul | function => cases h

/-- `Simplifies options e s`: simplifying the operands of `e` and then applying
one rule to the results gives `s`. -/
inductive Simplifies (options : Options) : Expr → Expr → Prop where
  | atom {e : Expr} (h : e.isAtom = true) : Simplifies options e e
  | function {params : List String} {body body' : Expr}
      (hbody : Simplifies options body body') :
      Simplifies options (.function params body) (.function params body')
  | sum {l r l' r' s : Expr} (hl : Simplifies options l l') (hr : Simplifies options r r')
      (h : SumRule options l' r' s) : Simplifies options (.add l r) s
  | minuend {l r l' : Expr} (hl : Simplifies options l l')
      (hr : Simplifies options r (.constant 0)) : Simplifies options (.sub l r) l'
  | subtrahend {l r s : Expr} (hl : Simplifies options l (.constant 0))
      (hr : Simplifies options (.neg r) s) : Simplifies options (.sub l r) s
  | difference {l r l' r' s : Expr} (hl : Simplifies options l l')
      (hr : Simplifies options r r') (hl0 : l'.isZero = false) (hr0 : r'.isZero = false)
      (h : DifferenceRule options.overflow l' r' s) : Simplifies options (.sub l r) s
  | negatedZero {e : Expr} (he : Simplifies options e (.constant 0)) :
      Simplifies options (.neg e) (.constant 0)
  | doubleNegation {e inner s : Expr} (he : Simplifies options e (.neg inner))
      (h : Simplifies options inner s) : Simplifies options (.neg e) s
  | negation {e e' : Expr} (he : Simplifies options e e') (hzero : e'.isZero = false)
      (hneg : ∀ inner, e' ≠ .neg inner) : Simplifies options (.neg e) (.neg e')
  | product {l r l' r' s : Expr} (hl : Simplifies options l l') (hr : Simplifies options r r')
      (h : ProductRule options.overflow l' r' s) : Simplifies options (.mul l r) s

theorem negation_of_ne_neg {options : Options} {e : Expr} (h : ∀ inner, e ≠ .neg inner) :
    negation options e = if e.isZero then .constant 0 else .neg e := by
  unfold negation
  split
  · rename_i inner
    exact absurd rfl (h inner)
  · rfl

/-- The negation of a simplified operand, where the operand of a negation is known
to have a derivation. -/
theorem simplifies_negation {options : Options} {e e' : Expr} (he : Simplifies options e e')
    (hagain : ∀ inner, e' = .neg inner → Simplifies options inner (simplify options inner)) :
    Simplifies options (.neg e) (negation options e') := by
  by_cases hneg : ∃ inner, e' = .neg inner
  · obtain ⟨inner, rfl⟩ := hneg
    exact .doubleNegation he (hagain inner rfl)
  have hne : ∀ inner, e' ≠ .neg inner := fun inner h => hneg ⟨inner, h⟩
  rw [negation_of_ne_neg hne]
  by_cases hzero : e'.isZero = true
  · rw [if_pos hzero]
    exact .negatedZero (Expr.isZero_iff.mp hzero ▸ he)
  · rw [if_neg hzero]
    exact .negation he (Bool.eq_false_iff.mpr hzero) hne

/-- Every run of the pass is a derivation. -/
theorem simplifies_simplify (options : Options) (e : Expr) :
    Simplifies options e (simplify options e) := by
  -- The second run of a double negation is on a part of a result, so the induction
  -- is on the size and not on the tree.
  induction hn : e.nodeCount using Nat.strongRecOn generalizing e with
  | ind n ih =>
    subst hn
    have hnegate : ∀ operand : Expr, operand.nodeCount < e.nodeCount →
        Simplifies options (.neg operand) (negation options (simplify options operand)) := by
      intro operand hlt
      refine simplifies_negation (ih _ hlt operand rfl) (fun inner hinner => ?_)
      have hle := nodeCount_simplify_le options operand
      rw [hinner] at hle
      simp only [Expr.nodeCount] at hle
      exact ih _ (by omega) inner rfl
    cases e with
    | function params body =>
      rw [simplify_function]
      exact .function (ih _ (by simp only [Expr.nodeCount]; omega) body rfl)
    | add l r =>
      rw [simplify_add]
      exact .sum (ih _ (by simp only [Expr.nodeCount]; omega) l rfl)
        (ih _ (by simp only [Expr.nodeCount]; omega) r rfl) (sumRule_sum options _ _)
    | sub l r =>
      have hl := ih _ (by simp only [Expr.nodeCount]; omega) l rfl
      have hr := ih _ (by simp only [Expr.nodeCount]; omega) r rfl
      rw [simplify_sub]
      by_cases hr0 : (simplify options r).isZero = true
      · rw [if_pos hr0]
        exact .minuend hl (Expr.isZero_iff.mp hr0 ▸ hr)
      rw [if_neg hr0]
      by_cases hl0 : (simplify options l).isZero = true
      · rw [if_pos hl0]
        exact .subtrahend (Expr.isZero_iff.mp hl0 ▸ hl)
          (hnegate r (by simp only [Expr.nodeCount]; omega))
      · rw [if_neg hl0]
        exact .difference hl hr (Bool.eq_false_iff.mpr hl0) (Bool.eq_false_iff.mpr hr0)
          (differenceRule_difference options.overflow _ _)
    | neg operand =>
      rw [simplify_neg]
      exact hnegate operand (by simp only [Expr.nodeCount]; omega)
    | mul l r =>
      rw [simplify_mul]
      exact .product (ih _ (by simp only [Expr.nodeCount]; omega) l rfl)
        (ih _ (by simp only [Expr.nodeCount]; omega) r rfl)
        (productRule_product options.overflow _ _)
    | _ =>
      rw [simplify_of_isAtom options rfl]
      exact .atom rfl

end IntCalculus
