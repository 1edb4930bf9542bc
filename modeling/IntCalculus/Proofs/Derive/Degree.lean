/-
Repeated differentiation ends in the constant 0.

The degree of an expression in a variable is read off the tree, and no rule of a
simplification raises it.  Differentiation alone does not lower it: in the derivative
of a product each factor is kept once, beside the derivative of the other.  What
lowers it is that a factor without the variable has a derivative that is simplified
to the constant 0 and takes its product with it.  So a simplified derivative is 0 or
has a degree below that of the expression, which is the invariant of the induction on
the order.

The statement this file exists for is `deriveNth_eq_zero`.
-/
import IntCalculus.Proofs.Derive.Order

namespace IntCalculus
namespace Expr

/-- The degree in `x`, as the tree shows it and before anything cancels. -/
def degree (x : String) : Expr → Nat
  | var y => if y = x then 1 else 0
  | add l r | sub l r => max (l.degree x) (r.degree x)
  | neg e => e.degree x
  | mul l r => l.degree x + r.degree x
  | _ => 0

variable {x : String} {n : Nat}

theorem degree_eq_zero {e : Expr} (he : e.isArithmetic = true) (h : x ∉ e.freeNames) :
    e.degree x = 0 := by
  induction e, he using isArithmetic_induction with
  | constant c => rfl
  | var y =>
    have hy : y ≠ x := fun hy => h (hy ▸ List.mem_cons_self)
    exact if_neg hy
  | add l r _ _ ihl ihr | sub l r _ _ ihl ihr =>
    have hl := ihl fun hx => h (List.mem_append_left _ hx)
    have hr := ihr fun hx => h (List.mem_append_right _ hx)
    rw [degree, hl, hr, Nat.max_self]
  | neg e _ ih => exact ih h
  | mul l r _ _ ihl ihr =>
    have hl := ihl fun hx => h (List.mem_append_left _ hx)
    have hr := ihr fun hx => h (List.mem_append_right _ hx)
    rw [degree, hl, hr]

/-! ## Coefficients and chains -/

theorem degree_scaled_le (c : Int32) (e : Expr) : (scaled c e).degree x ≤ e.degree x := by
  unfold scaled
  split
  · exact Nat.zero_le _
  split
  · exact Nat.le_refl _
  · exact Nat.le_of_eq (Nat.zero_add _)

theorem degree_of_linear? {e : Expr} {c : Int32} {y : String} (h : e.linear? = some (c, y)) :
    e.degree x = (var y).degree x := by
  rcases linear?_eq_some.mp h with ⟨_, rfl⟩ | rfl | rfl
  · rfl
  · exact Nat.zero_add _
  · exact Nat.add_zero _

theorem degree_of_coefficient? {e rest : Expr} {c : Int32}
    (h : e.coefficient? = some (c, rest)) : e.degree x = rest.degree x := by
  obtain ⟨rfl | rfl, _, _⟩ := coefficient?_eq_some.mp h
  · exact Nat.zero_add _
  · exact Nat.add_zero _

theorem degree_le_of_mem_summands {e t : Expr} (ht : t ∈ e.summands) :
    t.degree x ≤ e.degree x := by
  induction e using Expr.summands.induct with
  | case1 l r ihl ihr =>
    rw [summands, List.mem_append] at ht
    rcases ht with ht | ht
    · exact (ihl ht).trans (Nat.le_max_left _ _)
    · exact (ihr ht).trans (Nat.le_max_right _ _)
  | case2 e hne =>
    rw [summands_eq_singleton hne, List.mem_singleton] at ht
    rw [ht]

theorem degree_chain_le {terms : List Expr} (h : ∀ t ∈ terms, t.degree x ≤ n) :
    (chain terms).degree x ≤ n := by
  induction terms using List.reverseRecOn with
  | nil => exact Nat.zero_le n
  | append_singleton terms t ih =>
    have ht : t.degree x ≤ n := h t (List.mem_append_right _ List.mem_cons_self)
    rw [chain_append_singleton]
    split
    · exact ht
    · exact Nat.max_le.mpr ⟨ih fun u hu => h u (List.mem_append_left _ hu), ht⟩

end Expr

/-! ## No rule raises the degree -/

variable {x : String} {m n : Nat} {options : Options} {policy : OverflowPolicy} {l r s : Expr}

theorem Collected.Origin.degree_le {read : List Expr} {t : Expr} (h : Origin read t)
    (hread : ∀ u ∈ read, u.degree x ≤ n) : t.degree x ≤ n := by
  cases h with
  | other ht _ _ => exact hread t ht
  | linear hu hlinear _ =>
    have hvar := hread _ hu
    rw [Expr.degree_of_linear? hlinear] at hvar
    exact (Expr.degree_scaled_le _ _).trans hvar
  | constant _ => exact Nat.zero_le n

theorem SumRule.degree_le (h : SumRule options l r s) (hl : l.degree x ≤ n)
    (hr : r.degree x ≤ n) : s.degree x ≤ n := by
  cases h with
  | zeroLeft => exact hr
  | zeroRight => exact hl
  | fold _ => exact Nat.zero_le n
  | merge hlinear _ _ =>
    rw [Expr.degree_of_linear? hlinear] at hl
    exact (Expr.degree_scaled_le _ _).trans hl
  | collect _ hcollected =>
    refine Expr.degree_chain_le fun t ht => ?_
    have horigin := Collected.origin_of_mem_terms (Collected.reads_of_insertAll hcollected) ht
    refine horigin.degree_le fun u hu => ?_
    rcases List.mem_append.mp hu with hu | hu
    · exact (Expr.degree_le_of_mem_summands hu).trans hl
    · exact (Expr.degree_le_of_mem_summands hu).trans hr
  | keep _ => exact Nat.max_le.mpr ⟨hl, hr⟩

theorem SumRule.degree_lt (h : SumRule options l r s) (hl : l.degree x < n)
    (hr : r.degree x < n) : s.degree x < n := by
  have hle := h.degree_le (Nat.le_max_left (l.degree x) (r.degree x)) (Nat.le_max_right _ _)
  exact Nat.lt_of_le_of_lt hle (Nat.max_lt.mpr ⟨hl, hr⟩)

theorem DifferenceRule.degree_le (h : DifferenceRule policy l r s) (hl : l.degree x ≤ n)
    (hr : r.degree x ≤ n) : s.degree x ≤ n := by
  cases h with
  | fold _ => exact Nat.zero_le n
  | keep _ => exact Nat.max_le.mpr ⟨hl, hr⟩

theorem DifferenceRule.degree_lt (h : DifferenceRule policy l r s) (hl : l.degree x < n)
    (hr : r.degree x < n) : s.degree x < n := by
  have hle := h.degree_le (Nat.le_max_left (l.degree x) (r.degree x)) (Nat.le_max_right _ _)
  exact Nat.lt_of_le_of_lt hle (Nat.max_lt.mpr ⟨hl, hr⟩)

theorem ProductRule.degree_le (h : ProductRule policy l r s) (hl : l.degree x ≤ m)
    (hr : r.degree x ≤ n) : s.degree x ≤ m + n := by
  cases h with
  | zeroLeft | zeroRight | fold => exact Nat.zero_le _
  | oneLeft => exact hr.trans (Nat.le_add_left n m)
  | oneRight => exact hl.trans (Nat.le_add_right m n)
  | scaleRight hcoefficient _ =>
    rw [Expr.degree_of_coefficient? hcoefficient] at hr
    exact ((Expr.degree_scaled_le _ _).trans hr).trans (Nat.le_add_left n m)
  | scaleLeft hcoefficient _ =>
    rw [Expr.degree_of_coefficient? hcoefficient] at hl
    exact ((Expr.degree_scaled_le _ _).trans hl).trans (Nat.le_add_right m n)
  | keep _ => exact Nat.add_le_add hl hr

theorem Simplifies.degree_le {e : Expr} (h : Simplifies options e s) :
    s.degree x ≤ e.degree x := by
  induction h with
  | atom _ => exact Nat.le_refl _
  | function _ _ => exact Nat.le_refl 0
  | sum _ _ hrule ihl ihr =>
    exact hrule.degree_le (ihl.trans (Nat.le_max_left _ _)) (ihr.trans (Nat.le_max_right _ _))
  | minuend _ _ ihl _ => exact ihl.trans (Nat.le_max_left _ _)
  | subtrahend _ _ _ ihr => exact ihr.trans (Nat.le_max_right _ _)
  | difference _ _ _ _ hrule ihl ihr =>
    exact hrule.degree_le (ihl.trans (Nat.le_max_left _ _)) (ihr.trans (Nat.le_max_right _ _))
  | negatedZero _ _ => exact Nat.zero_le _
  | doubleNegation _ _ ihe ih => exact ih.trans ihe
  | negation _ _ _ ih => exact ih
  | product _ _ hrule ihl ihr => exact hrule.degree_le ihl ihr

theorem degree_simplify_le (options : Options) (e : Expr) :
    (simplify options e).degree x ≤ e.degree x :=
  (simplifies_simplify options e).degree_le

/-! ## Simplified derivatives -/

/-- The degree in `x` is less than `n`, where the constant 0 counts as less than any. -/
def Expr.DegreeBelow (x : String) (n : Nat) (e : Expr) : Prop := e = .constant 0 ∨ e.degree x < n

namespace Expr.DegreeBelow

theorem mono {e : Expr} (h : e.DegreeBelow x m) (hmn : m ≤ n) : e.DegreeBelow x n :=
  h.imp_right fun hlt => Nat.lt_of_lt_of_le hlt hmn

theorem sum (options : Options) (hl : l.DegreeBelow x n) (hr : r.DegreeBelow x n) :
    (sum options l r).DegreeBelow x n := by
  rcases hl with rfl | hl
  · rw [sum_zero_left]
    exact hr
  rcases hr with rfl | hr
  · rw [sum_zero_right]
    exact Or.inr hl
  · exact Or.inr ((sumRule_sum options l r).degree_lt hl hr)

/-- A factor that is 0 takes the product with it, whatever the degree of the other. -/
theorem product_left (policy : OverflowPolicy) (hl : l.DegreeBelow x m) (hr : r.degree x ≤ n) :
    (product policy l r).DegreeBelow x (m + n) := by
  rcases hl with rfl | hl
  · rw [product_zero_left]
    exact Or.inl rfl
  · have hle := (productRule_product policy l r).degree_le (Nat.le_refl _) hr
    exact Or.inr (Nat.lt_of_le_of_lt hle (Nat.add_lt_add_right hl n))

theorem product_right (policy : OverflowPolicy) (hl : l.degree x ≤ m) (hr : r.DegreeBelow x n) :
    (product policy l r).DegreeBelow x (m + n) := by
  rcases hr with rfl | hr
  · rw [product_zero_right]
    exact Or.inl rfl
  · have hle := (productRule_product policy l r).degree_le hl (Nat.le_refl _)
    exact Or.inr (Nat.lt_of_le_of_lt hle (Nat.add_lt_add_left hr m))

end Expr.DegreeBelow

theorem degree_negation_le (options : Options) (e : Expr) :
    (negation options e).degree x ≤ e.degree x := by
  by_cases hneg : ∃ inner, e = .neg inner
  · obtain ⟨inner, rfl⟩ := hneg
    exact degree_simplify_le options inner
  · rw [negation_of_ne_neg fun inner h => hneg ⟨inner, h⟩]
    split
    · exact Nat.zero_le _
    · exact Nat.le_refl _

theorem degreeBelow_simplify_neg {e : Expr} (h : (simplify options e).DegreeBelow x n) :
    (simplify options (.neg e)).DegreeBelow x n := by
  rw [simplify_neg]
  rcases h with h | h
  · rw [h]
    exact Or.inl rfl
  · exact Or.inr (Nat.lt_of_le_of_lt (degree_negation_le options _) h)

theorem degreeBelow_simplify_sub (hl : (simplify options l).DegreeBelow x n)
    (hr : (simplify options r).DegreeBelow x n) :
    (simplify options (.sub l r)).DegreeBelow x n := by
  rw [simplify_sub]
  by_cases hr0 : (simplify options r).isZero = true
  · rw [if_pos hr0]
    exact hl
  rw [if_neg hr0]
  by_cases hl0 : (simplify options l).isZero = true
  · rw [if_pos hl0, ← simplify_neg]
    exact degreeBelow_simplify_neg hr
  · rw [if_neg hl0]
    have hllt := hl.resolve_left fun h => hl0 (Expr.isZero_iff.mpr h)
    have hrlt := hr.resolve_left fun h => hr0 (Expr.isZero_iff.mpr h)
    have hrule := differenceRule_difference options.overflow (simplify options l)
      (simplify options r)
    exact Or.inr (hrule.degree_lt hllt hrlt)

/-- A simplified derivative is 0 or has a lower degree than the expression. -/
theorem Derives.degreeBelow_simplify (options : Options) {e d : Expr} (h : Derives x e d) :
    (simplify options d).DegreeBelow x (e.degree x) := by
  induction h with
  | constant c =>
    rw [simplify_constant]
    exact Or.inl rfl
  | self =>
    rw [simplify_constant]
    have hself : (Expr.var x).degree x = 1 := if_pos rfl
    exact Or.inr (hself ▸ Nat.one_pos)
  | other _ =>
    rw [simplify_constant]
    exact Or.inl rfl
  | add _ _ ihl ihr =>
    rw [simplify_add]
    exact (ihl.mono (Nat.le_max_left _ _)).sum options (ihr.mono (Nat.le_max_right _ _))
  | sub _ _ ihl ihr =>
    exact degreeBelow_simplify_sub (ihl.mono (Nat.le_max_left _ _))
      (ihr.mono (Nat.le_max_right _ _))
  | neg _ ih => exact degreeBelow_simplify_neg ih
  | @mul u v _ _ _ _ ihu ihv =>
    -- Each summand keeps one factor whole, so only the other may lower its degree.
    rw [simplify_add, simplify_mul, simplify_mul]
    have hleft := ihu.product_left options.overflow (degree_simplify_le options v)
    have hright := ihv.product_right options.overflow (degree_simplify_le options u)
    exact hleft.sum options hright

/-! ## Higher orders -/

theorem deriveNth_of_degreeBelow (options : Options) {e : Expr} (he : e.isArithmetic = true)
    {order : Nat} (h : e.DegreeBelow x order) :
    deriveNth options x order e = .ok (.constant 0) := by
  induction order generalizing e with
  | zero =>
    have hzero := h.resolve_right (Nat.not_lt_zero _)
    rw [hzero]
    rfl
  | succ order ih =>
    obtain ⟨d, hd⟩ := exists_derives x he
    have hle : e.degree x ≤ order := by
      rcases h with rfl | hlt
      · exact Nat.zero_le order
      · exact Nat.le_of_lt_succ hlt
    have hbelow := (hd.degreeBelow_simplify options).mono hle
    rw [deriveNth, deriveSimplified_of_derives options hd]
    exact ih (isArithmetic_simplify options hd.isArithmetic.2) hbelow

/-- Every derivative of an order above the degree is the constant 0, under all options,
and so is the first derivative by a variable that does not occur. -/
theorem deriveNth_eq_zero (options : Options) (x : String) {e : Expr}
    (h : e.isArithmetic = true) :
    (∀ order, e.degree x < order → deriveNth options x order e = .ok (.constant 0)) ∧
      (x ∉ e.freeVars → deriveSimplified options x e = .ok (.constant 0)) := by
  refine ⟨fun order horder => deriveNth_of_degreeBelow options h (Or.inr horder), fun hx => ?_⟩
  obtain ⟨d, hd⟩ := exists_derives x h
  have hdegree := Expr.degree_eq_zero h fun hmem => hx (Expr.mem_freeVars.mpr hmem)
  have hbelow := hd.degreeBelow_simplify options
  rw [hdegree] at hbelow
  rw [deriveSimplified_of_derives options hd, hbelow.resolve_right (Nat.not_lt_zero _)]

/-- The product `(2147483647 + x) * ((x - y) * x)`, whose coefficients overflow. -/
def largeCubic : Expr :=
  .mul (.add (.constant 2147483647) (.var "x"))
    (.mul (.sub (.var "x") (.var "y")) (.var "x"))

theorem deriveNth_largeCubic :
    largeCubic.isArithmetic = true ∧ largeCubic.degree "x" < 4 ∧ "z" ∉ largeCubic.freeVars ∧
      deriveNth ⟨.wrapping, .extended⟩ "x" 4 largeCubic = .ok (.constant 0) ∧
        deriveSimplified ⟨.saturating, .pairwise⟩ "z" largeCubic = .ok (.constant 0) := by
  have hcubic : largeCubic.isArithmetic = true := by decide
  have hdegree : largeCubic.degree "x" < 4 := by decide
  have hz : "z" ∉ largeCubic.freeVars := by
    rw [Expr.mem_freeVars]
    decide
  exact ⟨hcubic, hdegree, hz, (deriveNth_eq_zero _ "x" hcubic).1 4 hdegree,
    (deriveNth_eq_zero _ "z" hcubic).2 hz⟩

end IntCalculus
