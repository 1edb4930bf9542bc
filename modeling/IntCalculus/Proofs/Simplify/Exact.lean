/-
Simplification keeps the exact value.

Every rule is an identity of commutative rings once its folds are, so soundness
is stated for any ring in which the overflow policy folds soundly and for every
valuation in it.  A checked fold happens only when it is exact and is therefore
sound in every ring, the integers and the polynomials among them.

The statements this file exists for are `value_simplify`, for the valuation at
hand, and `valueIn_simplify_checked`, over the integers.
-/
import IntCalculus.Proofs.Node
import IntCalculus.Proofs.Simplify.Collected
import IntCalculus.Proofs.Simplify.Fragment
import IntCalculus.Proofs.Simplify.Relation
import IntCalculus.Proofs.Value
import Mathlib.Tactic.LinearCombination

namespace IntCalculus

variable {R : Type*} [CommRing R] {value : Expr → R}

/-! ## Folds -/

/-- In the ring `R` the policy replaces a result only by a constant equal to it. -/
def OverflowPolicy.SoundIn (policy : OverflowPolicy) (R : Type*) [CommRing R] : Prop :=
  ∀ (n : ℤ) (c : Int32), policy.fit n = some c → (c.toInt : R) = (n : R)

theorem OverflowPolicy.soundIn_checked : OverflowPolicy.checked.SoundIn R := by
  intro n c h
  rw [toInt_of_fit_checked h]

namespace Expr.IsValuation

theorem node (hv : IsValuation value) (operator : Operator) (a b : Int32) :
    value (operator.node (.constant a) (.constant b)) =
      ((operator.exact a.toInt b.toInt : ℤ) : R) := by
  cases operator with
  | plus =>
    show value (.add (.constant a) (.constant b)) = _
    rw [hv.add, hv.constant, hv.constant]
    exact (Int.cast_add _ _).symm
  | minus =>
    show value (.sub (.constant a) (.constant b)) = _
    rw [hv.sub, hv.constant, hv.constant]
    exact (Int.cast_sub _ _).symm
  | times =>
    show value (.mul (.constant a) (.constant b)) = _
    rw [hv.mul, hv.constant, hv.constant]
    exact (Int.cast_mul _ _).symm

/-- A fold has the value of the node it replaces. -/
theorem fold (hv : IsValuation value) {policy : OverflowPolicy} (hsound : policy.SoundIn R)
    {operator : Operator} {a b c : Int32} (h : policy.fold operator a b = some c) :
    value (.constant c) = value (operator.node (.constant a) (.constant b)) := by
  rw [hv.node, hv.constant]
  exact hsound _ c h

/-! ## Coefficients and chains -/

theorem scaled (hv : IsValuation value) (c : Int32) (e : Expr) :
    value (.scaled c e) = value (.constant c) * value e := by
  unfold Expr.scaled
  by_cases h0 : c = 0
  · rw [if_pos h0, h0, hv.zero, zero_mul]
  by_cases h1 : c = 1
  · rw [if_neg h0, if_pos h1, h1, hv.one, one_mul]
  · rw [if_neg h0, if_neg h1, hv.mul]

theorem linear? (hv : IsValuation value) {e : Expr} {c : Int32} {x : String}
    (h : e.linear? = some (c, x)) : value e = value (.constant c) * value (.var x) := by
  rcases linear?_eq_some.mp h with ⟨rfl, rfl⟩ | rfl | rfl
  · rw [hv.one, one_mul]
  · exact hv.mul _ _
  · rw [hv.mul, mul_comm]

theorem coefficient? (hv : IsValuation value) {e rest : Expr} {c : Int32}
    (h : e.coefficient? = some (c, rest)) : value e = value (.constant c) * value rest := by
  obtain ⟨rfl | rfl, _, _⟩ := coefficient?_eq_some.mp h
  · exact hv.mul _ _
  · rw [hv.mul, mul_comm]

theorem sum_summands (hv : IsValuation value) (e : Expr) :
    (e.summands.map value).sum = value e := by
  induction e using Expr.summands.induct with
  | case1 l r ihl ihr =>
    rw [summands, List.map_append, List.sum_append, ihl, ihr, hv.add]
  | case2 e hne =>
    have he : e.summands = [e] := summands_eq_singleton hne
    rw [he, List.map_singleton, List.sum_singleton]

theorem chain (hv : IsValuation value) (terms : List Expr) :
    value (.chain terms) = (terms.map value).sum := by
  induction terms using List.reverseRecOn with
  | nil => exact hv.zero
  | append_singleton terms t ih =>
    rw [chain_append_singleton, List.map_append, List.sum_append, List.map_singleton,
      List.sum_singleton]
    by_cases hterms : terms = []
    · rw [if_pos hterms, hterms, List.map_nil, List.sum_nil, zero_add]
    · rw [if_neg hterms, hv.add, ih]

end Expr.IsValuation

/-! ## Collecting a chain -/

namespace Collected

open IntCalculus.Expr (IsValuation)

def summandValue (value : Expr → R) : Summand → R
  | .linear c x => value (.constant c) * value (.var x)
  | .other t => value t

def sumOf (value : Expr → R) (collected : Collected) : R :=
  (collected.summands.map (summandValue value)).sum + value (.constant collected.constant)

variable {policy : OverflowPolicy}

theorem sum_of_inserted (hv : IsValuation value) (hsound : policy.SoundIn R) {c : Int32}
    {x : String} {summands summands' : List Summand} (h : Inserted policy c x summands summands') :
    (summands'.map (summandValue value)).sum =
      (summands.map (summandValue value)).sum + value (.constant c) * value (.var x) := by
  induction h with
  | new =>
    rw [List.map_singleton, List.sum_singleton, List.map_nil, List.sum_nil, zero_add]
    rfl
  | @merge d total rest htotal =>
    have hvalue : value (.constant total) = value (.constant d) + value (.constant c) :=
      (hv.fold hsound htotal).trans (hv.add _ _)
    simp only [List.map_cons, List.sum_cons, summandValue, hvalue]
    ring
  | pass _ _ ih => rw [List.map_cons, List.map_cons, List.sum_cons, List.sum_cons, ih, add_assoc]

theorem sum_of_step (hv : IsValuation value) (hsound : policy.SoundIn R)
    {sofar next : Collected} {term : Expr} (h : Step policy term sofar next) :
    next.sumOf value = sofar.sumOf value + value term := by
  cases h with
  | @constant _ c total htotal =>
    have hvalue : value (.constant total) =
        value (.constant sofar.constant) + value (.constant c) :=
      (hv.fold hsound htotal).trans (hv.add _ _)
    rw [sumOf, sumOf, hvalue, add_assoc]
  | linear hterm hinserted =>
    rw [sumOf, sumOf, sum_of_inserted hv hsound hinserted, hv.linear? hterm]
    exact add_right_comm _ _ _
  | other _ _ =>
    rw [sumOf, sumOf, List.map_append, List.sum_append, List.map_singleton,
      List.sum_singleton]
    exact add_right_comm _ _ _

theorem sum_of_insertAll (hv : IsValuation value) (hsound : policy.SoundIn R)
    {terms : List Expr} {collected : Collected}
    (h : empty.insertAll policy terms = some collected) :
    collected.sumOf value = (terms.map value).sum := by
  let invariant := fun (read : List Expr) (sofar : Collected) =>
    sofar.sumOf value = (read.map value).sum
  have hstart : invariant [] empty := by
    show (0 : R) + value (.constant 0) = 0
    rw [hv.zero, add_zero]
  refine invariant_of_insertAll (motive := invariant)
    (fun read sofar term next hsofar hstep => ?_) hstart h
  show next.sumOf value = _
  rw [sum_of_step hv hsound hstep, hsofar, List.map_append, List.sum_append,
    List.map_singleton, List.sum_singleton]

theorem sum_terms (hv : IsValuation value) (collected : Collected) :
    (collected.terms.map value).sum = collected.sumOf value := by
  have hsummands : ∀ summands : List Summand,
      ((summands.filterMap term?).map value).sum =
        (summands.map (summandValue value)).sum := by
    intro summands
    induction summands with
    | nil => rfl
    | cons s rest ih =>
      rw [List.map_cons, List.sum_cons, ← ih]
      cases s with
      | linear c x =>
        by_cases hc : c = 0
        · rw [List.filterMap_cons_none (by rw [term?, if_pos hc]), summandValue, hc,
            hv.zero, zero_mul, zero_add]
        · rw [List.filterMap_cons_some (by rw [term?, if_neg hc]), List.map_cons,
            List.sum_cons, hv.scaled, summandValue]
      | other t =>
        have hterm : term? (.other t) = some t := rfl
        rw [List.filterMap_cons_some hterm, List.map_cons, List.sum_cons, summandValue]
  rw [terms_eq, List.map_append, List.sum_append, hsummands, sumOf]
  by_cases hc : collected.constant = 0
  · rw [if_pos hc, hc, hv.zero, List.map_nil, List.sum_nil]
  · rw [if_neg hc, List.map_singleton, List.sum_singleton]

end Collected

/-! ## The rules -/

open IntCalculus.Expr (IsValuation)

variable {policy : OverflowPolicy} {options : Options} {l r s : Expr}

theorem SumRule.value_eq (hv : IsValuation value) (hsound : options.overflow.SoundIn R)
    (h : SumRule options l r s) : value s = value l + value r := by
  cases h with
  | zeroLeft => rw [hv.zero, zero_add]
  | zeroRight => rw [hv.zero, add_zero]
  | fold hc => exact (hv.fold hsound hc).trans (hv.add _ _)
  | @merge _ _ a b c x hl hr hc =>
    have hvalue : value (.constant c) = value (.constant a) + value (.constant b) :=
      (hv.fold hsound hc).trans (hv.add _ _)
    rw [hv.scaled, hvalue, hv.linear? hl, hv.linear? hr]
    exact add_mul _ _ _
  | collect _ hcollected =>
    rw [hv.chain, Collected.sum_terms hv, Collected.sum_of_insertAll hv hsound hcollected,
      List.map_append, List.sum_append, hv.sum_summands, hv.sum_summands]
  | keep _ => exact hv.add _ _

theorem DifferenceRule.value_eq (hv : IsValuation value) (hsound : policy.SoundIn R)
    (h : DifferenceRule policy l r s) : value s = value l - value r := by
  cases h with
  | fold hc => exact (hv.fold hsound hc).trans (hv.sub _ _)
  | keep _ => exact hv.sub _ _

/-- A constant that has joined a coefficient. -/
theorem value_scaled_of_coefficient? (hv : IsValuation value) (hsound : policy.SoundIn R)
    {e rest : Expr} {a b c : Int32} (he : e.coefficient? = some (b, rest))
    (h : policy.fold .times a b = some c) :
    value (.scaled c rest) = value (.constant a) * value e := by
  have hvalue : value (.constant c) = value (.constant a) * value (.constant b) :=
    (hv.fold hsound h).trans (hv.mul _ _)
  rw [hv.scaled, hv.coefficient? he, hvalue, mul_assoc]

theorem ProductRule.value_eq (hv : IsValuation value) (hsound : policy.SoundIn R)
    (h : ProductRule policy l r s) : value s = value l * value r := by
  cases h with
  | zeroLeft => rw [hv.zero, zero_mul]
  | zeroRight => rw [hv.zero, mul_zero]
  | oneLeft => rw [hv.one, one_mul]
  | oneRight => rw [hv.one, mul_one]
  | fold hc => exact (hv.fold hsound hc).trans (hv.mul _ _)
  | scaleRight hr hc => exact value_scaled_of_coefficient? hv hsound hr hc
  | scaleLeft hl hc => rw [value_scaled_of_coefficient? hv hsound hl hc, mul_comm]
  | keep _ => exact hv.mul _ _

/-! ## The pass -/

theorem Simplifies.value_eq (hv : IsValuation value) (hsound : options.overflow.SoundIn R)
    {e : Expr} (h : Simplifies options e s) : value s = value e := by
  induction h with
  | atom _ => rfl
  | function _ _ => exact hv.function _ _ _
  | sum _ _ hrule ihl ihr => rw [hrule.value_eq hv hsound, ihl, ihr, hv.add]
  | minuend _ _ ihl ihr =>
    rw [hv.zero] at ihr
    rw [ihl, hv.sub, ← ihr, sub_zero]
  | subtrahend _ _ ihl ihr =>
    rw [hv.zero] at ihl
    rw [ihr, hv.neg, hv.sub, ← ihl, zero_sub]
  | difference _ _ _ _ hrule ihl ihr => rw [hrule.value_eq hv hsound, ihl, ihr, hv.sub]
  | negatedZero _ ih =>
    rw [hv.zero] at ih
    rw [hv.zero, hv.neg, ← ih, neg_zero]
  | doubleNegation _ _ ihe ih =>
    rw [hv.neg] at ihe
    rw [ih, hv.neg, ← ihe, neg_neg]
  | negation _ _ _ ih => rw [hv.neg, hv.neg, ih]
  | product _ _ hrule ihl ihr => rw [hrule.value_eq hv hsound, ihl, ihr, hv.mul]

/-- Where the folds are sound, so is the pass, whatever the valuation. -/
theorem value_simplify (hv : IsValuation value) (hsound : options.overflow.SoundIn R) (e : Expr) :
    value (simplify options e) = value e :=
  (simplifies_simplify options e).value_eq hv hsound

theorem valueIn_simplify (hsound : options.overflow.SoundIn R) (point : String → R) (e : Expr) :
    (simplify options e).valueIn point = e.valueIn point :=
  value_simplify (Expr.isValuation_valueIn point) hsound e

/-- Under the checked policy an expression of the fragment is simplified to one
with the same exact value at every point. -/
theorem valueIn_simplify_checked (likeTerms : LikeTerms) {e : Expr} (h : e.isArithmetic = true)
    (point : String → ℤ) :
    (simplify ⟨.checked, likeTerms⟩ e).isArithmetic = true ∧
      (simplify ⟨.checked, likeTerms⟩ e).valueIn point = e.valueIn point :=
  ⟨isArithmetic_simplify _ h, valueIn_simplify OverflowPolicy.soundIn_checked point e⟩

/-- A chain whose constants overflow half way, with a product that takes in a
coefficient and a double negation among its summands. -/
def overflowingChain : Expr :=
  .add
    (.add (.add (.constant 2147483647) (.var "x"))
      (.add (.constant 1) (.mul (.constant 2) (.mul (.var "x") (.constant 3)))))
    (.sub (.constant 0) (.neg (.add (.var "y") (.constant 0))))

theorem valueIn_simplify_overflowingChain :
    overflowingChain.isArithmetic = true ∧
      (simplify ⟨.checked, .extended⟩ overflowingChain).isArithmetic = true ∧
        (simplify ⟨.checked, .extended⟩ overflowingChain).valueIn
          (fun x => if x = "x" then (5 : ℤ) else -3) = 2147483680 := by
  have hchain : overflowingChain.isArithmetic = true := by decide
  obtain ⟨harithmetic, hvalue⟩ := valueIn_simplify_checked .extended hchain
    (fun x => if x = "x" then (5 : ℤ) else -3)
  exact ⟨hchain, harithmetic, hvalue.trans (by decide)⟩

end IntCalculus
