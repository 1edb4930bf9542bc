/-
Sums that have been collected whole.

Where like terms are combined over whole chains, every sum in a simplified expression
is nested to the left, has one linear term at most in each variable, and one constant
at most, which is not 0 and comes last.  Sums are collected on the way up, and some
reach their place by another road: as the other operand of a 0 or a 1, as the minuend
of a 0, or out of a double negation.  What they share is that they are settled, so
that collecting such a sum once more gives it back, and with it the form of what a
collection writes.

The checked policy gives a collection up when one of its totals leaves the range.
`Collected.Tally` keeps what has been collected next to the exact totals of what has
been read, so a collection that was given up names a total that is out of range.

The statement this file exists for is `isCollected_of_mem_parts_simplify`.
-/
import IntCalculus.Proofs.Simplify.Redex

namespace IntCalculus

namespace Expr

/-! ## The form of a collected sum -/

/-- No addition of the chain has an addition as its right operand. -/
def LeftNested : Expr → Prop
  | add l r => l.LeftNested ∧ ∀ a b, r ≠ add a b
  | _ => True

structure IsCollected (e : Expr) : Prop where
  nested : e.LeftNested
  linear : ∀ t ∈ e.summands, ∀ c x, t.IsLinear c x →
    t = var x ∨ (c ≠ 0 ∧ c ≠ 1 ∧ t = mul (constant c) (var x))
  distinct : e.summands.Pairwise fun t u => ∀ c d x, ¬ (t.IsLinear c x ∧ u.IsLinear d x)
  constant : ∃ others, (∀ t ∈ others, ∀ c, t ≠ constant c) ∧
    (e.summands = others ∨ ∃ c, c ≠ 0 ∧ e.summands = others ++ [constant c])

theorem summands_ne_nil (e : Expr) : e.summands ≠ [] := by
  induction e using Expr.summands.induct with
  | case1 l r ihl _ =>
    rw [summands]
    exact List.append_ne_nil_of_left_ne_nil ihl _
  | case2 e hne =>
    rw [summands_eq_singleton hne]
    exact List.cons_ne_nil e []

theorem ne_add_of_summands {t : Expr} (h : t.summands = [t]) (a b : Expr) : t ≠ add a b := by
  rintro rfl
  have hlength := congrArg List.length h
  have ha := List.length_pos_iff.mpr a.summands_ne_nil
  have hb := List.length_pos_iff.mpr b.summands_ne_nil
  rw [summands, List.length_append, List.length_singleton] at hlength
  omega

theorem leftNested_chain {terms : List Expr} (h : ∀ t ∈ terms, t.summands = [t]) :
    (chain terms).LeftNested := by
  induction terms using List.reverseRecOn with
  | nil => trivial
  | append_singleton terms t ih =>
    have hadd := ne_add_of_summands (h t (List.mem_append_right _ List.mem_cons_self))
    rw [chain_append_singleton]
    split
    · cases t with
      | add a b => exact absurd rfl (hadd a b)
      | _ => trivial
    · exact ⟨ih fun u hu => h u (List.mem_append_left _ hu), hadd⟩

/-! ## Totals -/

/-- The coefficient of `x` in a linear term, where `x` alone counts as `1 * x`. -/
def coefficientOf (x : String) : Expr → Int
  | var y => if y = x then 1 else 0
  | mul (constant c) (var y) => if y = x then c.toInt else 0
  | mul (var y) (constant c) => if y = x then c.toInt else 0
  | _ => 0

def constantOf : Expr → Int
  | constant c => c.toInt
  | _ => 0

def coefficientTotal (x : String) (terms : List Expr) : Int :=
  terms.foldl (fun total t => total + t.coefficientOf x) 0

def constantTotal (terms : List Expr) : Int :=
  terms.foldl (fun total t => total + t.constantOf) 0

/-- Adding up the constants from left to right leaves the range, or adding up the
coefficients of some variable does. -/
def TotalsOverflow (terms : List Expr) : Prop :=
  ∃ read, read <+: terms ∧
    (¬ InRange (constantTotal read) ∨ ∃ x, ¬ InRange (coefficientTotal x read))

theorem coefficientTotal_append_singleton (x : String) (terms : List Expr) (t : Expr) :
    coefficientTotal x (terms ++ [t]) = coefficientTotal x terms + t.coefficientOf x :=
  List.foldl_append

theorem constantTotal_append_singleton (terms : List Expr) (t : Expr) :
    constantTotal (terms ++ [t]) = constantTotal terms + t.constantOf :=
  List.foldl_append

theorem coefficientOf_of_linear? {t : Expr} {c : Int32} {x : String}
    (h : t.linear? = some (c, x)) (y : String) :
    t.coefficientOf y = if x = y then c.toInt else 0 := by
  rcases linear?_eq_some.mp h with ⟨rfl, rfl⟩ | rfl | rfl <;> rfl

theorem coefficientOf_eq_zero {t : Expr} (h : t.linear? = none) (x : String) :
    t.coefficientOf x = 0 := by
  unfold coefficientOf
  split
  · cases h
  · cases h
  · cases h
  · rfl

theorem constantOf_eq_zero {t : Expr} (h : t.constant? = none) : t.constantOf = 0 := by
  cases t with
  | constant c => cases h
  | _ => rfl

end Expr

namespace Collected

variable {policy : OverflowPolicy}

/-! ## Where a collection is given up -/

/-- The coefficient that has been collected for `x`. -/
def coefficientIn (x : String) : List Summand → Int
  | [] => 0
  | .linear c y :: rest => if y = x then c.toInt else coefficientIn x rest
  | .other _ :: rest => coefficientIn x rest

theorem coefficientIn_append_other (x : String) (summands : List Summand) (t : Expr) :
    coefficientIn x (summands ++ [.other t]) = coefficientIn x summands := by
  induction summands with
  | nil => rfl
  | cons s rest ih => cases s <;> simp only [List.cons_append, coefficientIn, ih]

/-- A new coefficient is added to the one that was there, or to 0. -/
theorem fold_of_inserted {c : Int32} {x : String} {summands summands' : List Summand}
    (h : Inserted policy c x summands summands') :
    ∃ d total, policy.fold .plus d c = some total ∧ coefficientIn x summands = d.toInt ∧
      coefficientIn x summands' = total.toInt := by
  induction h with
  | new => exact ⟨0, c, fold_zero_plus policy c, rfl, if_pos rfl⟩
  | @merge d total rest htotal => exact ⟨d, total, htotal, if_pos rfl, if_pos rfl⟩
  | @pass s rest rest' hs _ ih =>
    cases s with
    | linear d z =>
      have hz : z ≠ x := fun hzx => hs d (by rw [hzx])
      obtain ⟨d', total, hfold, hd, htotal⟩ := ih
      exact ⟨d', total, hfold, (if_neg hz).trans hd, (if_neg hz).trans htotal⟩
    | other t => exact ih

theorem coefficientIn_of_inserted_of_ne {c : Int32} {x y : String}
    {summands summands' : List Summand} (h : Inserted policy c x summands summands')
    (hxy : x ≠ y) : coefficientIn y summands' = coefficientIn y summands := by
  induction h with
  | new => exact if_neg hxy
  | merge _ => simp only [coefficientIn, if_neg hxy]
  | @pass s rest rest' _ _ ih => cases s <;> simp only [coefficientIn, ih]

theorem coefficientIn_of_inserted {c : Int32} {x : String} {summands summands' : List Summand}
    (h : Inserted .checked c x summands summands') (y : String) :
    coefficientIn y summands' = coefficientIn y summands + if x = y then c.toInt else 0 := by
  by_cases hxy : x = y
  · subst hxy
    obtain ⟨d, total, hfold, hd, htotal⟩ := fold_of_inserted h
    have hexact : total.toInt = d.toInt + c.toInt := OverflowPolicy.toInt_of_fit_checked hfold
    rw [if_pos rfl, htotal, hd, hexact]
  · rw [if_neg hxy, coefficientIn_of_inserted_of_ne h hxy, Int.add_zero]

theorem insertLinear_eq_none {c : Int32} {x : String} {summands : List Summand}
    (h : insertLinear policy c x summands = none) :
    ∃ d, policy.fold .plus d c = none ∧ coefficientIn x summands = d.toInt := by
  induction summands with
  | nil => cases h
  | cons s rest ih =>
    cases s with
    | linear d y =>
      simp only [insertLinear] at h
      by_cases hy : y = x
      · rw [if_pos hy] at h
        split at h
        · cases h
        · rename_i hfold
          exact ⟨d, hfold, if_pos hy⟩
      · rw [if_neg hy] at h
        split at h
        · cases h
        · rename_i hrest
          obtain ⟨d', hfold, hd'⟩ := ih hrest
          exact ⟨d', hfold, (if_neg hy).trans hd'⟩
    | other t =>
      simp only [insertLinear] at h
      split at h
      · cases h
      · rename_i hrest
        exact ih hrest

theorem insert_eq_none {sofar : Collected} {term : Expr} (h : sofar.insert policy term = none) :
    ∃ a b, policy.fold .plus a b = none ∧
      ((term = .constant b ∧ sofar.constant = a) ∨
        ∃ x, term.linear? = some (b, x) ∧ coefficientIn x sofar.summands = a.toInt) := by
  unfold insert at h
  split at h
  · rename_i c hc
    split at h
    · cases h
    · rename_i hfold
      exact ⟨_, c, hfold, Or.inl ⟨Expr.constant?_eq_some.mp hc, rfl⟩⟩
  · split at h
    · rename_i c x hlinear
      split at h
      · cases h
      · rename_i hinsert
        obtain ⟨d, hfold, hd⟩ := insertLinear_eq_none hinsert
        exact ⟨d, c, hfold, Or.inr ⟨x, hlinear, hd⟩⟩
    · cases h

theorem insertAll_eq_none {terms : List Expr} {sofar : Collected}
    (h : sofar.insertAll policy terms = none) :
    ∃ before term after mid, terms = before ++ term :: after ∧
      sofar.insertAll policy before = some mid ∧ mid.insert policy term = none := by
  induction terms generalizing sofar with
  | nil => cases h
  | cons term rest ih =>
    simp only [insertAll] at h
    split at h
    · rename_i next hnext
      obtain ⟨before, t, after, mid, rfl, hmid, ht⟩ := ih h
      refine ⟨term :: before, t, after, mid, rfl, ?_, ht⟩
      simp only [insertAll, hnext]
      exact hmid
    · rename_i hnone
      exact ⟨[], term, rest, sofar, rfl, rfl, hnone⟩

/-- What has been collected are the exact totals of what has been read. -/
structure Tally (read : List Expr) (collected : Collected) : Prop where
  constant : collected.constant.toInt = Expr.constantTotal read
  coefficient : ∀ x, coefficientIn x collected.summands = Expr.coefficientTotal x read

theorem tally_empty : Tally [] empty where
  constant := rfl
  coefficient _ := rfl

theorem tally_step {read : List Expr} {sofar next : Collected} {term : Expr}
    (h : Tally read sofar) (hstep : Step .checked term sofar next) :
    Tally (read ++ [term]) next := by
  refine ⟨?_, fun x => ?_⟩
  · rw [Expr.constantTotal_append_singleton, ← h.constant]
    cases hstep with
    | constant hfold => exact OverflowPolicy.toInt_of_fit_checked hfold
    | linear hlinear _ =>
      rw [Expr.constantOf_eq_zero (Expr.constant?_of_linear? hlinear), Int.add_zero]
    | other hconstant _ => rw [Expr.constantOf_eq_zero hconstant, Int.add_zero]
  · rw [Expr.coefficientTotal_append_singleton, ← h.coefficient]
    cases hstep with
    | constant _ => exact (Int.add_zero _).symm
    | linear hlinear hinserted =>
      rw [Expr.coefficientOf_of_linear? hlinear]
      exact coefficientIn_of_inserted hinserted x
    | other _ hlinear =>
      rw [Expr.coefficientOf_eq_zero hlinear, Int.add_zero]
      exact coefficientIn_append_other x _ _

/-- Only the checked policy gives a collection up, and only when a total overflows. -/
theorem totalsOverflow_of_insertAll {terms : List Expr}
    (h : empty.insertAll policy terms = none) :
    policy = .checked ∧ Expr.TotalsOverflow terms := by
  obtain ⟨before, term, after, mid, rfl, hmid, hterm⟩ := insertAll_eq_none h
  obtain ⟨a, b, hfold, hcause⟩ := insert_eq_none hterm
  obtain ⟨rfl, hrange⟩ := OverflowPolicy.fold_eq_none_iff.mp hfold
  have htally : Tally before mid :=
    invariant_of_insertAll (motive := Tally) (fun _ _ _ _ => tally_step) tally_empty hmid
  refine ⟨rfl, before ++ [term], ⟨after, by rw [List.append_assoc]; rfl⟩, ?_⟩
  rcases hcause with ⟨rfl, ha⟩ | ⟨x, hlinear, ha⟩
  · refine Or.inl ?_
    rw [Expr.constantTotal_append_singleton, ← htally.constant, ha]
    exact hrange
  · refine Or.inr ⟨x, ?_⟩
    rw [Expr.coefficientTotal_append_singleton, ← htally.coefficient, ha,
      Expr.coefficientOf_of_linear? hlinear, if_pos rfl]
    exact hrange

/-! ## What a collection writes -/

theorem mem_names {c : Int32} {x : String} {summands : List Summand}
    (h : .linear c x ∈ summands) : x ∈ names summands := by
  induction summands with
  | nil => cases h
  | cons s rest ih =>
    rcases List.mem_cons.mp h with rfl | hrest
    · exact List.mem_cons_self
    · cases s with
      | linear d y => exact List.mem_cons_of_mem y (ih hrest)
      | other t => exact ih hrest

theorem pairwise_of_nodup_names {summands : List Summand} (h : (names summands).Nodup) :
    summands.Pairwise fun s s' => ∀ c d x, ¬ (s = .linear c x ∧ s' = .linear d x) := by
  induction summands with
  | nil => exact .nil
  | cons s rest ih =>
    cases s with
    | linear c x =>
      obtain ⟨hx, hrest⟩ := List.nodup_cons.mp h
      refine .cons (fun s' hs' => ?_) (ih hrest)
      rintro c' d y ⟨hs, rfl⟩
      cases hs
      exact hx (mem_names hs')
    | other t => exact .cons (fun s' _ => by rintro c d x ⟨hs, _⟩; cases hs) (ih h)

namespace Canonical

variable {summands : List Summand}

theorem eq_linear (h : Canonical summands) {s : Summand} (hs : s ∈ summands) {c : Int32}
    {x : String} (hlinear : (term s).IsLinear c x) : s = .linear c x := by
  have hterm := Expr.isLinear_iff.mp hlinear
  cases s with
  | linear d y =>
    rw [term, linear?_scaled_var (h.linear d y hs)] at hterm
    cases hterm
    rfl
  | other t => cases (h.other t hs).2.symm.trans hterm

theorem pairwise_term (h : Canonical summands) :
    (summands.map term).Pairwise fun t u => ∀ c d x, ¬ (t.IsLinear c x ∧ u.IsLinear d x) := by
  rw [List.pairwise_map]
  refine (pairwise_of_nodup_names h.nodup).imp_of_mem fun hs hs' hne => ?_
  rintro c d x ⟨hc, hd⟩
  exact hne c d x ⟨h.eq_linear hs hc, h.eq_linear hs' hd⟩

end Canonical

/-- The terms of canonical summands and at most one constant, last and not 0, make a
collected sum. -/
theorem isCollected_of_summands_eq {summands : List Summand} (h : Canonical summands) {e : Expr}
    (hnested : e.LeftNested) {last : List Expr} (he : e.summands = summands.map term ++ last)
    (hlast : last = [] ∨ ∃ c, c ≠ 0 ∧ last = [.constant c]) : e.IsCollected := by
  have hconstants : ∀ t ∈ last, ∃ c, t = .constant c := by
    rcases hlast with rfl | ⟨c, _, rfl⟩
    · exact fun t ht => absurd ht List.not_mem_nil
    · exact fun t ht => ⟨c, List.mem_singleton.mp ht⟩
  have hnotLinear : ∀ t ∈ last, ∀ c x, ¬ t.IsLinear c x := by
    intro t ht c x hlinear
    obtain ⟨d, rfl⟩ := hconstants t ht
    cases Expr.isLinear_iff.mp hlinear
  refine ⟨hnested, fun t ht c x hlinear => ?_, ?_, summands.map term, fun t ht c => ?_, ?_⟩
  · rw [he, List.mem_append, List.mem_map] at ht
    rcases ht with ⟨s, hs, rfl⟩ | ht
    · cases h.eq_linear hs hlinear
      have hc := h.linear c x hs
      by_cases h1 : c = 1
      · exact Or.inl (by rw [term, Expr.scaled, if_neg hc, if_pos h1])
      · exact Or.inr ⟨hc, h1, by rw [term, Expr.scaled, if_neg hc, if_neg h1]⟩
    · exact absurd hlinear (hnotLinear t ht c x)
  · rw [he, List.pairwise_append]
    refine ⟨h.pairwise_term, ?_, fun t _ u hu c d x hboth => hnotLinear u hu d x hboth.2⟩
    rcases hlast with rfl | ⟨c, _, rfl⟩
    · exact .nil
    · exact List.pairwise_singleton _ _
  · obtain ⟨s, hs, rfl⟩ := List.mem_map.mp ht
    intro hconstant
    cases (h.constant?_term hs).symm.trans (congrArg Expr.constant? hconstant)
  · rw [he]
    rcases hlast with rfl | ⟨c, hc, rfl⟩
    · exact Or.inl (List.append_nil _)
    · exact Or.inr ⟨c, hc, rfl⟩

theorem isCollected_chain_terms {read : List Expr} {collected : Collected}
    (h : Reads read collected) (hread : ∀ t ∈ read, t.summands = [t])
    (hne : collected.terms ≠ []) : (Expr.chain collected.terms).IsCollected := by
  have hlive := canonical_live h hread
  have hterms := terms_eq_live h hread
  have hsingle : ∀ t ∈ collected.terms, t.summands = [t] := by
    intro t ht
    rw [hterms, List.mem_append, List.mem_map] at ht
    rcases ht with ⟨s, hs, rfl⟩ | ht
    · exact hlive.single s hs
    · split at ht
      · cases ht
      · rw [List.mem_singleton.mp ht]
        rfl
  refine isCollected_of_summands_eq hlive (Expr.leftNested_chain hsingle)
    ((Expr.summands_chain hne hsingle).trans hterms) ?_
  by_cases hk : collected.constant = 0
  · exact Or.inl (if_pos hk)
  · exact Or.inr ⟨collected.constant, hk, if_neg hk⟩

end Collected

/-! ## The sums of a simplified expression -/

variable {options : Options} {l r : Expr}

theorem sum_eq_collectSum (hmode : options.likeTerms = .extended) (hl : l.isZero = false)
    (hr : r.isZero = false) (hconstants : ∀ a b, ¬ (l = .constant a ∧ r = .constant b)) :
    sum options l r = collectSum options.overflow l r := by
  cases hla : l.constant? with
  | none => exact sum_of_extended hmode hla hr
  | some a =>
    cases hrb : r.constant? with
    | none => simp only [sum, hl, hr, hla, hrb, hmode, if_false, Bool.false_eq_true]
    | some b =>
      exact absurd ⟨Expr.constant?_eq_some.mp hla, Expr.constant?_eq_some.mp hrb⟩
        (hconstants a b)

/-- Two constants that stand as a sum have been declined by the fold that a collection
starts with. -/
theorem not_constants_of_insertAll {collected : Collected} (h : (Expr.add l r).Settled options)
    (hcollected : Collected.empty.insertAll options.overflow (l.summands ++ r.summands) =
      some collected) (a b : Int32) : ¬ (l = .constant a ∧ r = .constant b) := by
  rintro ⟨rfl, rfl⟩
  have hfold := fold_of_settled_constants .plus h
  have hnone : Collected.empty.insertAll options.overflow [.constant a, .constant b] = none := by
    simp only [Collected.insertAll, Collected.insert, Expr.constant?_constant, Collected.empty,
      Collected.fold_zero_plus, hfold]
  cases hnone.symm.trans hcollected

theorem isCollected_of_settled (hmode : options.likeTerms = .extended)
    (h : (Expr.add l r).Settled options) {collected : Collected}
    (hcollected : Collected.empty.insertAll options.overflow (l.summands ++ r.summands) =
      some collected) : (Expr.add l r).IsCollected := by
  have hrule := h.2.2
  obtain ⟨hl, hr⟩ := isZero_of_sum_eq_add hrule
  -- However the sum got here, collecting it again gives it back.
  rw [sum_eq_collectSum hmode hl hr (not_constants_of_insertAll h hcollected), collectSum,
    hcollected] at hrule
  have hchain : Expr.chain collected.terms = .add l r := hrule
  have hread : ∀ t ∈ (Expr.add l r).summands, t.summands = [t] :=
    fun _ => Expr.summands_of_mem_summands
  have hne : collected.terms ≠ [] := by
    intro hnil
    rw [hnil] at hchain
    cases hchain
  rw [← hchain]
  exact Collected.isCollected_chain_terms (Collected.reads_of_insertAll hcollected) hread hne

/-- Where whole chains are collected, every sum in a simplified expression is a collected
one, and so is every longest chain of additions.  Under the checked policy that is said
of the sums whose totals stay in range. -/
theorem isCollected_of_mem_parts_simplify (policy : OverflowPolicy) (e : Expr)
    (hpart : .add l r ∈ (simplify ⟨policy, .extended⟩ e).parts)
    (htotals : policy = .checked → ¬ Expr.TotalsOverflow (Expr.add l r).summands) :
    (Expr.add l r).IsCollected := by
  have hsettled := Expr.settled_of_mem_parts (settled_simplify ⟨policy, .extended⟩ e) hpart
  cases hcollected : Collected.empty.insertAll policy (l.summands ++ r.summands) with
  | none =>
    obtain ⟨hpolicy, hoverflow⟩ := Collected.totalsOverflow_of_insertAll hcollected
    exact absurd hoverflow (htotals hpolicy)
  | some collected => exact isCollected_of_settled rfl hsettled hcollected

/-- The negated sum `-((x * 3 + (y + 4)) + (-1 + x))`. -/
def scatteredSum : Expr :=
  .neg (.add (.add (.mul (.var "x") (.constant 3)) (.add (.var "y") (.constant 4)))
    (.add (.constant (-1)) (.var "x")))

/-- The sum `4 * x + y + 3`. -/
def gatheredSum : Expr :=
  .add (.add (.mul (.constant 4) (.var "x")) (.var "y")) (.constant 3)

theorem isCollected_gatheredSum :
    gatheredSum ∈ (simplify ⟨.checked, .extended⟩ scatteredSum).parts ∧
      ¬ Expr.TotalsOverflow gatheredSum.summands ∧ gatheredSum.IsCollected := by
  have hpart : gatheredSum ∈ (simplify ⟨.checked, .extended⟩ scatteredSum).parts := by
    decide +kernel
  have htotals : ¬ Expr.TotalsOverflow gatheredSum.summands := by
    rintro ⟨read, hread, hout⟩
    have hprefix : read = [] ∨ ∃ t, read = .mul (.constant 4) (.var "x") :: t ∧
        (t = [] ∨ ∃ u, t = .var "y" :: u ∧ (u = [] ∨ u = [.constant 3])) := by
      simpa [gatheredSum, Expr.summands, List.prefix_cons_iff] using hread
    rcases hout with hout | ⟨x, hout⟩
    · rcases hprefix with rfl | ⟨_, rfl, rfl | ⟨_, rfl, rfl | rfl⟩⟩ <;> exact hout (by decide)
    · refine hout ?_
      rcases hprefix with rfl | ⟨_, rfl, rfl | ⟨_, rfl, rfl | rfl⟩⟩
      · exact (by decide : InRange 0)
      all_goals
        simp only [Expr.coefficientTotal, Expr.coefficientOf, List.foldl_cons, List.foldl_nil]
        split_ifs <;> decide
  exact ⟨hpart, htotals, isCollected_of_mem_parts_simplify .checked scatteredSum hpart
    fun _ => htotals⟩

end IntCalculus
