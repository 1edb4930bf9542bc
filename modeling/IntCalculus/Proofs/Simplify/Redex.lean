/-
A simplified expression has no redex.

A redex is a node that one of the rules of simplification is there for: an operand
that is 0, a factor that is 1, a negated 0, a double negation, an operator between
two constants, a sum of two linear terms in one variable, a constant before a product
with a coefficient.  The last three need a fold, which the checked policy declines
when the result is out of range; then the node is no redex.

The pass goes over every node once, so that no result of a rule may be a redex of
another one.  That the result is settled gives this back at every node: the rule of a
redex does not leave its node alone.

The statement this file exists for is `not_redex_of_mem_parts_simplify`.
-/
import IntCalculus.Proofs.Simplify.Settled

namespace IntCalculus

namespace Expr

/-- A constant times `factor`, in either order. -/
def IsMultiple (e : Expr) (c : Int32) (factor : Expr) : Prop :=
  e = mul (constant c) factor ∨ e = mul factor (constant c)

/-- The term `x`, `c * x` or `x * c`, where `x` alone counts as `1 * x`. -/
def IsLinear (e : Expr) (c : Int32) (x : String) : Prop :=
  (c = 1 ∧ e = var x) ∨ e.IsMultiple c (var x)

theorem isLinear_iff {e : Expr} {c : Int32} {x : String} :
    e.IsLinear c x ↔ e.linear? = some (c, x) := linear?_eq_some.symm

theorem IsMultiple.nodeCount_eq {e factor : Expr} {c : Int32} (h : e.IsMultiple c factor) :
    e.nodeCount = 2 + factor.nodeCount := by
  rcases h with rfl | rfl
  · rfl
  · simp only [nodeCount]
    omega

theorem node_ne_left (operator : Operator) (l r : Expr) : operator.node l r ≠ l := by
  intro h
  have hsize := congrArg nodeCount h
  cases operator <;> simp only [Operator.node, nodeCount] at hsize <;> omega

theorem node_ne_right (operator : Operator) (l r : Expr) : operator.node l r ≠ r := by
  intro h
  have hsize := congrArg nodeCount h
  cases operator <;> simp only [Operator.node, nodeCount] at hsize <;> omega

theorem constant_ne_node (c : Int32) (operator : Operator) (l r : Expr) :
    constant c ≠ operator.node l r := by
  intro h
  cases operator <;> cases h

theorem hasConstantFactor_iff {e : Expr} :
    e.hasConstantFactor = true ↔ ∃ c factor, e.IsMultiple c factor := by
  constructor
  · intro h
    cases e with
    | mul l r =>
      rcases Bool.or_eq_true_iff.mp h with hl | hr
      · obtain ⟨c, hc⟩ := Option.isSome_iff_exists.mp hl
        exact ⟨c, r, Or.inl (by rw [constant?_eq_some.mp hc])⟩
      · obtain ⟨c, hc⟩ := Option.isSome_iff_exists.mp hr
        exact ⟨c, l, Or.inr (by rw [constant?_eq_some.mp hc])⟩
    | _ => cases h
  · rintro ⟨c, factor, rfl | rfl⟩
    · rfl
    · exact Bool.or_eq_true_iff.mpr (Or.inr rfl)

theorem constant?_of_linear? {e : Expr} {c : Int32} {x : String} (h : e.linear? = some (c, x)) :
    e.constant? = none := by
  rcases linear?_eq_some.mp h with ⟨_, rfl⟩ | rfl | rfl <;> rfl

theorem summands_of_linear? {e : Expr} {c : Int32} {x : String} (h : e.linear? = some (c, x)) :
    e.summands = [e] := by
  rcases linear?_eq_some.mp h with ⟨_, rfl⟩ | rfl | rfl <;> rfl

/-- A multiple of a factor that is neither a constant nor a multiple has its constant as
coefficient. -/
theorem IsMultiple.coefficient?_eq {e factor : Expr} {c : Int32} (h : e.IsMultiple c factor)
    (hconstant : ∀ b, factor ≠ constant b) (hfactor : ∀ b f, ¬ factor.IsMultiple b f) :
    e.coefficient? = some (c, factor) := by
  refine coefficient?_eq_some.mpr ⟨h, ?_, ?_⟩
  · rw [Option.eq_none_iff_forall_ne_some]
    exact fun b hb => hconstant b (constant?_eq_some.mp hb)
  · rw [← Bool.not_eq_true, hasConstantFactor_iff]
    rintro ⟨b, f, hbf⟩
    exact hfactor b f hbf

end Expr

/-- No constant stands for the exact result `n`, so that its operation is left as it is
written. -/
def OverflowPolicy.Declines (policy : OverflowPolicy) (n : Int) : Prop :=
  policy = .checked ∧ ¬ InRange n

/-- What the rules of simplification are there to remove. -/
inductive Redex (policy : OverflowPolicy) : Expr → Prop where
  | zeroOperand (operator : Operator) {l r : Expr} (h : l = .constant 0 ∨ r = .constant 0) :
      Redex policy (operator.node l r)
  | oneFactor {l r : Expr} (h : l = .constant 1 ∨ r = .constant 1) : Redex policy (.mul l r)
  | negatedZero : Redex policy (.neg (.constant 0))
  | doubleNegation (e : Expr) : Redex policy (.neg (.neg e))
  | constants (operator : Operator) {a b : Int32}
      (h : ¬ policy.Declines (operator.exact a.toInt b.toInt)) :
      Redex policy (operator.node (.constant a) (.constant b))
  | likeTerms {l r : Expr} {a b : Int32} {x : String} (hl : l.IsLinear a x)
      (hr : r.IsLinear b x) (h : ¬ policy.Declines (a.toInt + b.toInt)) :
      Redex policy (.add l r)
  | coefficients {e multiple factor : Expr} {a b : Int32} (he : e.IsMultiple a multiple)
      (hmultiple : multiple.IsMultiple b factor) (hconstant : ∀ c, factor ≠ .constant c)
      (hfactor : ∀ c f, ¬ factor.IsMultiple c f) (h : ¬ policy.Declines (a.toInt * b.toInt)) :
      Redex policy e

/-! ## Nodes that a rule leaves alone -/

variable {options : Options} {policy : OverflowPolicy} {l r : Expr}

theorem OverflowPolicy.fold_eq_none_iff {operator : Operator} {a b : Int32} :
    policy.fold operator a b = none ↔ policy.Declines (operator.exact a.toInt b.toInt) :=
  fit_eq_none_iff

/-- If the node is left alone, nothing else was found. -/
theorem eq_none_of_getD_eq {found : Option Expr} {node : Expr} (h : found.getD node = node)
    (hne : ∀ s, found = some s → s ≠ node) : found = none := by
  cases found with
  | none => rfl
  | some s => exact absurd h (hne s rfl)

theorem isZero_of_sum_eq_add (h : sum options l r = .add l r) :
    l.isZero = false ∧ r.isZero = false := by
  constructor
  · refine Bool.eq_false_iff.mpr fun hl => ?_
    rw [Expr.isZero_iff.mp hl, sum_zero_left] at h
    exact Expr.node_ne_right .plus _ r h.symm
  · refine Bool.eq_false_iff.mpr fun hr => ?_
    rw [Expr.isZero_iff.mp hr, sum_zero_right] at h
    exact Expr.node_ne_left .plus l _ h.symm

theorem isZero_of_product_eq_mul (h : product policy l r = .mul l r) :
    l.isZero = false ∧ r.isZero = false := by
  constructor
  · refine Bool.eq_false_iff.mpr fun hl => ?_
    rw [Expr.isZero_iff.mp hl, product_zero_left] at h
    cases h
  · refine Bool.eq_false_iff.mpr fun hr => ?_
    rw [Expr.isZero_iff.mp hr, product_zero_right] at h
    cases h

theorem isOne_of_product_eq_mul (h : product policy l r = .mul l r) :
    l.isOne = false ∧ r.isOne = false := by
  obtain ⟨hl0, hr0⟩ := isZero_of_product_eq_mul h
  unfold product at h
  rw [hl0, hr0, Bool.or_self, if_neg Bool.false_ne_true] at h
  by_cases hl : l.isOne = true
  · rw [if_pos hl] at h
    exact absurd h.symm (Expr.node_ne_right .times l r)
  by_cases hr : r.isOne = true
  · rw [if_neg hl, if_pos hr] at h
    exact absurd h.symm (Expr.node_ne_left .times l r)
  · exact ⟨Bool.eq_false_iff.mpr hl, Bool.eq_false_iff.mpr hr⟩

/-! ## Like terms -/

section

variable {a b : Int32} {x : String} (hl : l.linear? = some (a, x)) (hr : r.linear? = some (b, x))
include hl hr

theorem insertAll_likeTerms :
    Collected.empty.insertAll policy (l.summands ++ r.summands) =
      (policy.fold .plus a b).map fun c => ⟨[.linear c x], 0⟩ := by
  rw [Expr.summands_of_linear? hl, Expr.summands_of_linear? hr]
  simp only [List.singleton_append, Collected.insertAll, Collected.insert,
    Expr.constant?_of_linear? hl, Expr.constant?_of_linear? hr, hl, hr, Collected.empty,
    Collected.insertLinear, if_true]
  cases policy.fold .plus a b <;> rfl

theorem collectSum_likeTerms :
    collectSum policy l r =
      ((policy.fold .plus a b).map fun c => .scaled c (.var x)).getD (.add l r) := by
  unfold collectSum
  rw [insertAll_likeTerms hl hr]
  cases policy.fold .plus a b with
  | none => rfl
  | some c =>
    show Expr.chain (Collected.terms ⟨[.linear c x], 0⟩) = .scaled c (.var x)
    rw [Collected.terms_eq, if_pos rfl, List.append_nil]
    by_cases hc : c = 0
    · have hterm : Collected.term? (.linear c x) = none := if_pos hc
      rw [List.filterMap_cons_none hterm, Expr.scaled, if_pos hc]
      rfl
    · have hterm : Collected.term? (.linear c x) = some (.scaled c (.var x)) := if_neg hc
      rw [List.filterMap_cons_some hterm]
      rfl

/-- However far like terms are combined, two direct operands are. -/
theorem sum_likeTerms :
    sum options l r =
      ((options.overflow.fold .plus a b).map fun c => .scaled c (.var x)).getD (.add l r) := by
  have hlconstant := Expr.constant?_of_linear? hl
  have hrconstant := Expr.constant?_of_linear? hr
  have hl0 : l.isZero = false := by rw [Expr.isZero, hlconstant]; rfl
  have hr0 : r.isZero = false := by rw [Expr.isZero, hrconstant]; rfl
  cases hmode : options.likeTerms with
  | pairwise =>
    simp only [sum, hl0, hr0, hlconstant, hrconstant, hmode, mergeLinear?, hl, hr, if_true,
      if_false, Bool.false_eq_true]
  | extended =>
    rw [sum_of_extended hmode hlconstant hr0]
    exact collectSum_likeTerms hl hr

end

theorem Expr.scaled_var_ne_add (c : Int32) (x : String) (l r : Expr) :
    scaled c (var x) ≠ add l r := by
  intro h
  unfold scaled at h
  split at h
  · cases h
  split at h
  · cases h
  · cases h

/-! ## The rule of a redex changes it -/

theorem isZero_of_settled_node {operator : Operator}
    (h : (operator.node l r).Settled options) : l.isZero = false ∧ r.isZero = false := by
  cases operator with
  | plus => exact isZero_of_sum_eq_add h.2.2
  | minus => exact ⟨h.2.2.1, h.2.2.2.1⟩
  | times => exact isZero_of_product_eq_mul h.2.2

theorem fold_of_settled_constants (operator : Operator) {a b : Int32}
    (h : (operator.node (.constant a) (.constant b)).Settled options) :
    options.overflow.fold operator a b = none := by
  obtain ⟨ha0, hb0⟩ := isZero_of_settled_node h
  have hfold : ((options.overflow.fold operator a b).map Expr.constant).getD
      (operator.node (.constant a) (.constant b)) =
        operator.node (.constant a) (.constant b) := by
    cases operator with
    | plus =>
      have hrule := h.2.2
      simp only [sum, ha0, hb0, Expr.constant?_constant, if_false, Bool.false_eq_true] at hrule
      exact hrule
    | minus => exact h.2.2.2.2
    | times =>
      have hrule : product options.overflow (.constant a) (.constant b) = _ := h.2.2
      obtain ⟨ha1, hb1⟩ := isOne_of_product_eq_mul hrule
      simp only [product, ha0, hb0, ha1, hb1, Expr.constant?_constant, Bool.or_self, if_false,
        Bool.false_eq_true] at hrule
      exact hrule
  refine Option.map_eq_none_iff.mp (eq_none_of_getD_eq hfold fun s hs => ?_)
  obtain ⟨c, _, rfl⟩ := Option.map_eq_some_iff.mp hs
  exact Expr.constant_ne_node c operator _ _

theorem fold_of_settled_likeTerms {a b : Int32} {x : String} (hl : l.linear? = some (a, x))
    (hr : r.linear? = some (b, x)) (h : (Expr.add l r).Settled options) :
    options.overflow.fold .plus a b = none := by
  have hrule := h.2.2
  rw [sum_likeTerms hl hr] at hrule
  refine Option.map_eq_none_iff.mp (eq_none_of_getD_eq hrule fun s hs => ?_)
  obtain ⟨c, _, rfl⟩ := Option.map_eq_some_iff.mp hs
  exact Expr.scaled_var_ne_add c x l r

theorem fold_of_settled_coefficients {e multiple factor : Expr} {a b : Int32}
    (he : e.IsMultiple a multiple) (hmultiple : multiple.coefficient? = some (b, factor))
    (h : e.Settled options) : options.overflow.fold .times a b = none := by
  have hconstant : multiple.constant? = none := by
    obtain ⟨rfl | rfl, _, _⟩ := Expr.coefficient?_eq_some.mp hmultiple <;> rfl
  have hscale : (scaleProduct? options.overflow a multiple).getD e = e := by
    rcases he with rfl | rfl
    all_goals
      have hrule := h.2.2
      obtain ⟨hl0, hr0⟩ := isZero_of_product_eq_mul hrule
      obtain ⟨hl1, hr1⟩ := isOne_of_product_eq_mul hrule
      simp only [product, hl0, hr0, hl1, hr1, hconstant, Expr.constant?_constant, Bool.or_self,
        if_false, Bool.false_eq_true] at hrule
      exact hrule
  rw [scaleProduct?, hmultiple] at hscale
  refine Option.map_eq_none_iff.mp (eq_none_of_getD_eq hscale fun s hs => ?_)
  obtain ⟨c, _, rfl⟩ := Option.map_eq_some_iff.mp hs
  -- The factor under one coefficient is smaller than the node with both.
  have hscaled := Expr.nodeCount_scaled_le c factor
  have hsize := Expr.nodeCount_of_coefficient? hmultiple
  rintro rfl
  rw [he.nodeCount_eq] at hscaled
  omega

theorem Redex.not_settled {e : Expr} (h : Redex options.overflow e) : ¬ e.Settled options := by
  intro hsettled
  cases h with
  | zeroOperand operator hzero =>
    obtain ⟨hl, hr⟩ := isZero_of_settled_node hsettled
    rcases hzero with rfl | rfl
    · cases hl
    · cases hr
  | oneFactor hone =>
    obtain ⟨hl, hr⟩ := isOne_of_product_eq_mul hsettled.2.2
    rcases hone with rfl | rfl
    · cases hl
    · cases hr
  | negatedZero => cases hsettled.2.1
  | doubleNegation e => exact hsettled.2.2 e rfl
  | constants operator hfold =>
    exact hfold (OverflowPolicy.fold_eq_none_iff.mp (fold_of_settled_constants operator hsettled))
  | likeTerms hl hr hfold =>
    have hnone := fold_of_settled_likeTerms (Expr.isLinear_iff.mp hl) (Expr.isLinear_iff.mp hr)
      hsettled
    exact hfold (OverflowPolicy.fold_eq_none_iff.mp hnone)
  | coefficients he hmultiple hconstant hfactor hfold =>
    have hnone := fold_of_settled_coefficients he
      (hmultiple.coefficient?_eq hconstant hfactor) hsettled
    exact hfold (OverflowPolicy.fold_eq_none_iff.mp hnone)

/-- Nothing in a simplified expression is a redex, for every expression and all options. -/
theorem not_redex_of_mem_parts_simplify (options : Options) (e : Expr) {t : Expr}
    (ht : t ∈ (simplify options e).parts) : ¬ Redex options.overflow t :=
  fun hredex => hredex.not_settled (Expr.settled_of_mem_parts (settled_simplify options e) ht)

/-- The product `2 * (x * (2147483647 + (0 + 1)))`. -/
def overflowingFactor : Expr :=
  .mul (.constant 2) (.mul (.var "x")
    (.add (.constant 2147483647) (.add (.constant 0) (.constant 1))))

theorem not_redex_overflowingFactor :
    .add (.constant 2147483647) (.constant 1) ∈
        (simplify ⟨.checked, .extended⟩ overflowingFactor).parts ∧
      ¬ Redex .checked (.add (.constant 2147483647) (.constant 1)) ∧
        Redex .wrapping (.add (.constant 2147483647) (.constant 1)) := by
  have hpart : .add (.constant 2147483647) (.constant 1) ∈
      (simplify ⟨.checked, .extended⟩ overflowingFactor).parts := by decide +kernel
  refine ⟨hpart, not_redex_of_mem_parts_simplify ⟨.checked, .extended⟩ _ hpart, ?_⟩
  exact .constants .plus (by rintro ⟨hpolicy, _⟩; cases hpolicy)

end IntCalculus
