/-
The rules for sums, differences and products of simplified operands.

Each rule takes operands that have been simplified already and fires once, in
the order its cases are written.  `SumRule`, `DifferenceRule` and `ProductRule`
say what can come out, one constructor for each rule, and a rule that leaves its
node alone says so.  What is proved of a rule is proved by cases on them.

No rule makes the tree larger, which is what the termination of the whole pass
rests on: `nodeCount_sum_le`, `nodeCount_difference_le` and
`nodeCount_product_le`.
-/
import IntCalculus.Simplify.Chain

namespace IntCalculus

/-- Add two linear terms in the same variable. -/
def mergeLinear? (policy : OverflowPolicy) (l r : Expr) : Option Expr :=
  match l.linear?, r.linear? with
  | some (a, x), some (b, y) =>
    if x = y then (policy.fold .plus a b).map fun c => .scaled c (.var x) else none
  | _, _ => none

/-- The sum of two simplified expressions: zero operands vanish, constants fold,
and like terms are combined as far as the options ask. -/
def sum (options : Options) (l r : Expr) : Expr :=
  if l.isZero then r
  else if r.isZero then l
  else
    match l.constant?, r.constant? with
    | some a, some b => ((options.overflow.fold .plus a b).map .constant).getD (.add l r)
    | _, _ =>
      match options.likeTerms with
      | .pairwise => (mergeLinear? options.overflow l r).getD (.add l r)
      | .extended => collectSum options.overflow l r

/-- The difference of two simplified expressions, neither of which is 0:
constants fold. -/
def difference (policy : OverflowPolicy) (l r : Expr) : Expr :=
  match l.constant?, r.constant? with
  | some a, some b => ((policy.fold .minus a b).map .constant).getD (.sub l r)
  | _, _ => .sub l r

/-- A constant times a product with a coefficient, with the two constants folded
into one. -/
def scaleProduct? (policy : OverflowPolicy) (a : Int32) (e : Expr) : Option Expr :=
  match e.coefficient? with
  | some (b, rest) => (policy.fold .times a b).map fun c => .scaled c rest
  | none => none

/-- The product of two simplified expressions: a zero operand makes it zero, one
operands vanish, constants fold, and a constant joins the coefficient of the
other factor. -/
def product (policy : OverflowPolicy) (l r : Expr) : Expr :=
  if l.isZero || r.isZero then .constant 0
  else if l.isOne then r
  else if r.isOne then l
  else
    match l.constant?, r.constant? with
    | some a, some b => ((policy.fold .times a b).map .constant).getD (.mul l r)
    | some a, none => (scaleProduct? policy a r).getD (.mul l r)
    | none, some a => (scaleProduct? policy a l).getD (.mul l r)
    | none, none => .mul l r

/-! ## Operands that are 0 -/

theorem sum_zero_left (options : Options) (r : Expr) : sum options (.constant 0) r = r :=
  if_pos (Expr.isZero_iff.mpr rfl)

theorem sum_zero_right (options : Options) (l : Expr) : sum options l (.constant 0) = l := by
  unfold sum
  by_cases hl : l.isZero = true
  · rw [if_pos hl, Expr.isZero_iff.mp hl]
  · rw [if_neg hl, if_pos (Expr.isZero_iff.mpr rfl)]

theorem product_zero_left (policy : OverflowPolicy) (r : Expr) :
    product policy (.constant 0) r = .constant 0 :=
  if_pos (Bool.or_eq_true_iff.mpr (Or.inl (Expr.isZero_iff.mpr rfl)))

theorem product_zero_right (policy : OverflowPolicy) (l : Expr) :
    product policy l (.constant 0) = .constant 0 :=
  if_pos (Bool.or_eq_true_iff.mpr (Or.inr (Expr.isZero_iff.mpr rfl)))

/-! ## The rules as relations -/

/-- The rules for a sum of simplified operands. -/
inductive SumRule (options : Options) : Expr → Expr → Expr → Prop where
  | zeroLeft (r : Expr) : SumRule options (.constant 0) r r
  | zeroRight (l : Expr) : SumRule options l (.constant 0) l
  | fold {a b c : Int32} (h : options.overflow.fold .plus a b = some c) :
      SumRule options (.constant a) (.constant b) (.constant c)
  | merge {l r : Expr} {a b c : Int32} {x : String} (hl : l.linear? = some (a, x))
      (hr : r.linear? = some (b, x)) (h : options.overflow.fold .plus a b = some c) :
      SumRule options l r (.scaled c (.var x))
  | collect {l r : Expr} {collected : Collected} (hmode : options.likeTerms = .extended)
      (h : Collected.empty.insertAll options.overflow (l.summands ++ r.summands) =
        some collected) :
      SumRule options l r (.chain collected.terms)
  | keep {l r : Expr} (h : sum options l r = .add l r) : SumRule options l r (.add l r)

/-- The rules for a difference of simplified operands, neither of which is 0. -/
inductive DifferenceRule (policy : OverflowPolicy) : Expr → Expr → Expr → Prop where
  | fold {a b c : Int32} (h : policy.fold .minus a b = some c) :
      DifferenceRule policy (.constant a) (.constant b) (.constant c)
  | keep {l r : Expr} (h : difference policy l r = .sub l r) :
      DifferenceRule policy l r (.sub l r)

/-- The rules for a product of simplified operands. -/
inductive ProductRule (policy : OverflowPolicy) : Expr → Expr → Expr → Prop where
  | zeroLeft (r : Expr) : ProductRule policy (.constant 0) r (.constant 0)
  | zeroRight (l : Expr) : ProductRule policy l (.constant 0) (.constant 0)
  | oneLeft (r : Expr) : ProductRule policy (.constant 1) r r
  | oneRight (l : Expr) : ProductRule policy l (.constant 1) l
  | fold {a b c : Int32} (h : policy.fold .times a b = some c) :
      ProductRule policy (.constant a) (.constant b) (.constant c)
  | scaleRight {r rest : Expr} {a b c : Int32} (hr : r.coefficient? = some (b, rest))
      (h : policy.fold .times a b = some c) :
      ProductRule policy (.constant a) r (.scaled c rest)
  | scaleLeft {l rest : Expr} {a b c : Int32} (hl : l.coefficient? = some (b, rest))
      (h : policy.fold .times a b = some c) :
      ProductRule policy l (.constant a) (.scaled c rest)
  | keep {l r : Expr} (h : product policy l r = .mul l r) : ProductRule policy l r (.mul l r)

/-- Either something was found, or the node is left as it is. -/
theorem found_or_kept {found : Option Expr} {node s : Expr} (h : found.getD node = s) :
    found = some s ∨ node = s := by
  cases found with
  | none => exact Or.inr h
  | some e => exact Or.inl (congrArg some h)

theorem sumRule_of_mergeLinear? {options : Options} {l r s : Expr}
    (h : mergeLinear? options.overflow l r = some s) : SumRule options l r s := by
  unfold mergeLinear? at h
  split at h
  · rename_i a x b y hl hr
    by_cases hxy : x = y
    · rw [if_pos hxy, Option.map_eq_some_iff] at h
      obtain ⟨c, hc, rfl⟩ := h
      exact .merge hl (hxy ▸ hr) hc
    · rw [if_neg hxy] at h
      cases h
  · cases h

theorem sumRule_sum (options : Options) (l r : Expr) :
    SumRule options l r (sum options l r) := by
  suffices ∀ s, sum options l r = s → SumRule options l r s from this _ rfl
  intro s h
  have hs := h
  unfold sum at hs
  split at hs
  · rename_i hl
    rw [Expr.isZero_iff.mp hl, ← hs]
    exact .zeroLeft r
  split at hs
  · rename_i hr
    rw [Expr.isZero_iff.mp hr, ← hs]
    exact .zeroRight l
  split at hs
  · rename_i a b ha hb
    rw [Expr.constant?_eq_some] at ha hb
    rcases found_or_kept hs with hfound | hkept
    · obtain ⟨c, hc, rfl⟩ := Option.map_eq_some_iff.mp hfound
      rw [ha, hb]
      exact .fold hc
    · subst hkept
      exact .keep h
  split at hs
  · rcases found_or_kept hs with hfound | hkept
    · exact sumRule_of_mergeLinear? hfound
    · subst hkept
      exact .keep h
  · rename_i hmode
    unfold collectSum at hs
    split at hs
    · rename_i collected hcollected
      rw [← hs]
      exact .collect hmode hcollected
    · subst hs
      exact .keep h

theorem differenceRule_difference (policy : OverflowPolicy) (l r : Expr) :
    DifferenceRule policy l r (difference policy l r) := by
  suffices ∀ s, difference policy l r = s → DifferenceRule policy l r s from this _ rfl
  intro s h
  have hs := h
  unfold difference at hs
  split at hs
  · rename_i a b ha hb
    rw [Expr.constant?_eq_some] at ha hb
    rcases found_or_kept hs with hfound | hkept
    · obtain ⟨c, hc, rfl⟩ := Option.map_eq_some_iff.mp hfound
      rw [ha, hb]
      exact .fold hc
    · subst hkept
      exact .keep h
  · subst hs
    exact .keep h

theorem scaleProduct?_eq_some {policy : OverflowPolicy} {a : Int32} {e s : Expr}
    (h : scaleProduct? policy a e = some s) :
    ∃ b c rest, e.coefficient? = some (b, rest) ∧ policy.fold .times a b = some c ∧
      s = .scaled c rest := by
  unfold scaleProduct? at h
  split at h
  · rename_i b rest he
    obtain ⟨c, hc, hs⟩ := Option.map_eq_some_iff.mp h
    exact ⟨b, c, rest, he, hc, hs.symm⟩
  · cases h

theorem productRule_product (policy : OverflowPolicy) (l r : Expr) :
    ProductRule policy l r (product policy l r) := by
  suffices ∀ s, product policy l r = s → ProductRule policy l r s from this _ rfl
  intro s h
  have hs := h
  unfold product at hs
  split at hs
  · rename_i hzero
    rw [← hs]
    rcases Bool.or_eq_true_iff.mp hzero with hl | hr
    · rw [Expr.isZero_iff.mp hl]
      exact .zeroLeft r
    · rw [Expr.isZero_iff.mp hr]
      exact .zeroRight l
  split at hs
  · rename_i hl
    rw [Expr.isOne_iff.mp hl, ← hs]
    exact .oneLeft r
  split at hs
  · rename_i hr
    rw [Expr.isOne_iff.mp hr, ← hs]
    exact .oneRight l
  split at hs
  · rename_i a b ha hb
    rw [Expr.constant?_eq_some] at ha hb
    rcases found_or_kept hs with hfound | hkept
    · obtain ⟨c, hc, rfl⟩ := Option.map_eq_some_iff.mp hfound
      rw [ha, hb]
      exact .fold hc
    · subst hkept
      exact .keep h
  · rename_i a ha hb
    rw [Expr.constant?_eq_some] at ha
    rcases found_or_kept hs with hfound | hkept
    · obtain ⟨b, c, rest, hr, hc, rfl⟩ := scaleProduct?_eq_some hfound
      rw [ha]
      exact .scaleRight hr hc
    · subst hkept
      exact .keep h
  · rename_i a ha hb
    rw [Expr.constant?_eq_some] at hb
    rcases found_or_kept hs with hfound | hkept
    · obtain ⟨b, c, rest, hl, hc, rfl⟩ := scaleProduct?_eq_some hfound
      rw [hb]
      exact .scaleLeft hl hc
    · subst hkept
      exact .keep h
  · subst hs
    exact .keep h

/-! ## Size -/

theorem SumRule.nodeCount_le {options : Options} {l r s : Expr} (h : SumRule options l r s) :
    s.nodeCount ≤ 1 + l.nodeCount + r.nodeCount := by
  cases h with
  | zeroLeft => omega
  | zeroRight => omega
  | fold _ => simp only [Expr.nodeCount]; omega
  | @merge _ _ _ _ c x _ _ _ =>
    have hscaled := Expr.nodeCount_scaled_le c (.var x)
    have hl := l.nodeCount_pos
    have hr := r.nodeCount_pos
    simp only [Expr.nodeCount] at hscaled
    omega
  | collect _ hcollected => exact nodeCount_collected_le hcollected
  | keep _ => exact Nat.le_refl _

theorem DifferenceRule.nodeCount_le {policy : OverflowPolicy} {l r s : Expr}
    (h : DifferenceRule policy l r s) : s.nodeCount ≤ 1 + l.nodeCount + r.nodeCount := by
  cases h with
  | fold _ => simp only [Expr.nodeCount]; omega
  | keep _ => exact Nat.le_refl _

theorem ProductRule.nodeCount_le {policy : OverflowPolicy} {l r s : Expr}
    (h : ProductRule policy l r s) : s.nodeCount ≤ 1 + l.nodeCount + r.nodeCount := by
  cases h with
  | zeroLeft => simp only [Expr.nodeCount]; omega
  | zeroRight => simp only [Expr.nodeCount]; omega
  | oneLeft => omega
  | oneRight => omega
  | fold _ => simp only [Expr.nodeCount]; omega
  | @scaleRight _ rest _ _ c hr _ =>
    have hscaled := Expr.nodeCount_scaled_le c rest
    have hrest := Expr.nodeCount_of_coefficient? hr
    omega
  | @scaleLeft _ rest _ _ c hl _ =>
    have hscaled := Expr.nodeCount_scaled_le c rest
    have hrest := Expr.nodeCount_of_coefficient? hl
    omega
  | keep _ => exact Nat.le_refl _

theorem nodeCount_sum_le (options : Options) (l r : Expr) :
    (sum options l r).nodeCount ≤ 1 + l.nodeCount + r.nodeCount :=
  (sumRule_sum options l r).nodeCount_le

theorem nodeCount_difference_le (policy : OverflowPolicy) (l r : Expr) :
    (difference policy l r).nodeCount ≤ 1 + l.nodeCount + r.nodeCount :=
  (differenceRule_difference policy l r).nodeCount_le

theorem nodeCount_product_le (policy : OverflowPolicy) (l r : Expr) :
    (product policy l r).nodeCount ≤ 1 + l.nodeCount + r.nodeCount :=
  (productRule_product policy l r).nodeCount_le

end IntCalculus
