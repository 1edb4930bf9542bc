/-
Simplification under the checked policy and evaluation.

An expression that has a value keeps it.  Where like terms are combined in pairs,
every result of a rule is a result the node had before, so a computation that stays
in range stays in range.  A collected chain is added up in another order, and a
coefficient that was spread over the chain is multiplied in one step, so there the
results on the way are new; they are still results of integers, and nothing can
happen to them but an overflow.

The statement this file exists for is `evaluate_simplify_checked`.
-/
import IntCalculus.Proofs.Evaluate
import IntCalculus.Proofs.Simplify.Exact
import IntCalculus.Proofs.Simplify.Settled

namespace IntCalculus

variable {admits : ℤ → Prop} {env : Environment}

namespace Expr

/-! ## Coefficients and chains -/

theorem computes_constant (c : Int32) : (constant c).Computes admits env := ⟨c, rfl⟩

theorem computes_scaled {c : Int32} {e : Expr} (he : e.Computes admits env)
    (h : admits ((scaled c e).exactAt env)) : (scaled c e).Computes admits env := by
  unfold scaled at h ⊢
  by_cases h0 : c = 0
  · rw [if_pos h0]
    exact computes_constant 0
  rw [if_neg h0] at h ⊢
  by_cases h1 : c = 1
  · rw [if_pos h1]
    exact he
  · rw [if_neg h1] at h ⊢
    exact ⟨computes_constant c, he, h⟩

theorem computes_var_of_linear? {e : Expr} {c : Int32} {x : String}
    (h : e.linear? = some (c, x)) (he : e.Computes admits env) : (var x).Computes admits env := by
  rcases linear?_eq_some.mp h with ⟨_, rfl⟩ | rfl | rfl
  · exact he
  · exact he.2.1
  · exact he.1

theorem computes_of_coefficient? {e rest : Expr} {c : Int32}
    (h : e.coefficient? = some (c, rest)) (he : e.Computes admits env) :
    rest.Computes admits env := by
  obtain ⟨rfl | rfl, _, _⟩ := coefficient?_eq_some.mp h
  · exact he.2.1
  · exact he.1

theorem computes_of_mem_summands {e t : Expr} (he : e.Computes admits env)
    (ht : t ∈ e.summands) : t.Computes admits env := by
  induction e using Expr.summands.induct with
  | case1 l r ihl ihr =>
    obtain ⟨hl, hr, _⟩ := he
    rw [summands, List.mem_append] at ht
    exact ht.elim (ihl hl) (ihr hr)
  | case2 e hne =>
    rw [summands_eq_singleton hne, List.mem_singleton] at ht
    exact ht ▸ he

/-- The partial sums of a chain are new results. -/
theorem computes_chain (hall : ∀ n, admits n) {terms : List Expr}
    (h : ∀ t ∈ terms, t.Computes admits env) : (chain terms).Computes admits env := by
  induction terms using List.reverseRecOn with
  | nil => exact computes_constant 0
  | append_singleton terms t ih =>
    have ht : t.Computes admits env := h t (List.mem_append_right _ List.mem_cons_self)
    rw [chain_append_singleton]
    by_cases hterms : terms = []
    · rw [if_pos hterms]
      exact ht
    · rw [if_neg hterms]
      exact ⟨ih fun u hu => h u (List.mem_append_left _ hu), ht, hall _⟩

theorem Computes.mono {admits' : ℤ → Prop} (hle : ∀ n, admits n → admits' n) {e : Expr}
    (h : e.Computes admits env) : e.Computes admits' env := by
  induction e using operator_induction with
  | leaf e hleaf => exact (computes_of_isLeaf hleaf).mpr ((computes_of_isLeaf hleaf).mp h)
  | node operator l r ihl ihr =>
    obtain ⟨hl, hr, hadmits⟩ := computes_node.mp h
    exact computes_node.mpr ⟨ihl hl, ihr hr, hle _ hadmits⟩
  | neg e ih => exact ⟨ih h.1, hle _ h.2⟩

end Expr

theorem Collected.Origin.computes (hall : ∀ n, admits n) {read : List Expr} {t : Expr}
    (h : Origin read t) (hread : ∀ u ∈ read, u.Computes admits env) :
    t.Computes admits env := by
  cases h with
  | other ht _ _ => exact hread t ht
  | linear hu hlinear _ =>
    exact Expr.computes_scaled (Expr.computes_var_of_linear? hlinear (hread _ hu)) (hall _)
  | constant _ => exact Expr.computes_constant _

/-! ## The rules

The result of the node is admitted, and `value_eq` says that it is the result of what
the rule puts there. -/

variable {options : Options} {policy : OverflowPolicy} {l r s : Expr}

theorem SumRule.computes (hsound : options.overflow.SoundIn ℤ)
    (hnew : options.likeTerms = .extended → ∀ n, admits n) (h : SumRule options l r s)
    (hl : l.Computes admits env) (hr : r.Computes admits env)
    (hadmits : admits (l.exactAt env + r.exactAt env)) : s.Computes admits env := by
  have hvalue := h.value_eq (Expr.isValuation_exactAt env) hsound
  rw [← hvalue] at hadmits
  cases h with
  | zeroLeft => exact hr
  | zeroRight => exact hl
  | fold _ => exact Expr.computes_constant _
  | merge hlinear _ _ =>
    exact Expr.computes_scaled (Expr.computes_var_of_linear? hlinear hl) hadmits
  | collect hmode hcollected =>
    -- The partial sums of the collected chain are none that the node had.
    have hall := hnew hmode
    refine Expr.computes_chain hall fun t ht => ?_
    have horigin := Collected.origin_of_mem_terms (Collected.reads_of_insertAll hcollected) ht
    refine horigin.computes hall fun u hu => ?_
    rcases List.mem_append.mp hu with hu | hu
    · exact Expr.computes_of_mem_summands hl hu
    · exact Expr.computes_of_mem_summands hr hu
  | keep _ => exact ⟨hl, hr, hadmits⟩

theorem DifferenceRule.computes (h : DifferenceRule policy l r s)
    (hl : l.Computes admits env) (hr : r.Computes admits env)
    (hadmits : admits (l.exactAt env - r.exactAt env)) : s.Computes admits env := by
  cases h with
  | fold _ => exact Expr.computes_constant _
  | keep _ => exact ⟨hl, hr, hadmits⟩

theorem ProductRule.computes (hsound : policy.SoundIn ℤ) (h : ProductRule policy l r s)
    (hl : l.Computes admits env) (hr : r.Computes admits env)
    (hadmits : admits (l.exactAt env * r.exactAt env)) : s.Computes admits env := by
  have hvalue := h.value_eq (Expr.isValuation_exactAt env) hsound
  rw [← hvalue] at hadmits
  cases h with
  | zeroLeft | zeroRight => exact Expr.computes_constant 0
  | oneLeft => exact hr
  | oneRight => exact hl
  | fold _ => exact Expr.computes_constant _
  | scaleRight hcoefficient _ =>
    exact Expr.computes_scaled (Expr.computes_of_coefficient? hcoefficient hr) hadmits
  | scaleLeft hcoefficient _ =>
    exact Expr.computes_scaled (Expr.computes_of_coefficient? hcoefficient hl) hadmits
  | keep _ => exact ⟨hl, hr, hadmits⟩

/-! ## The pass -/

theorem Simplifies.computes (hsound : options.overflow.SoundIn ℤ)
    (hnew : options.likeTerms = .extended → ∀ n, admits n) {e : Expr}
    (h : Simplifies options e s) (he : e.Computes admits env) : s.Computes admits env := by
  have hv := Expr.isValuation_exactAt env
  induction h with
  | atom _ => exact he
  | function _ _ =>
    obtain ⟨c, hc⟩ := he
    cases hc
  | sum hl hr hrule ihl ihr =>
    obtain ⟨hel, her, hadmits⟩ := he
    rw [← hl.value_eq hv hsound, ← hr.value_eq hv hsound] at hadmits
    exact hrule.computes hsound hnew (ihl hel) (ihr her) hadmits
  | minuend _ _ ihl _ => exact ihl he.1
  | subtrahend hl _ _ ihr =>
    -- The minuend is 0, so the negation has the result of the difference.
    obtain ⟨_, her, hadmits⟩ := he
    have hzero := hl.value_eq hv hsound
    rw [hv.zero] at hzero
    rw [← hzero, zero_sub] at hadmits
    exact ihr ⟨her, hadmits⟩
  | difference hl hr _ _ hrule ihl ihr =>
    obtain ⟨hel, her, hadmits⟩ := he
    rw [← hl.value_eq hv hsound, ← hr.value_eq hv hsound] at hadmits
    exact hrule.computes (ihl hel) (ihr her) hadmits
  | negatedZero _ _ => exact Expr.computes_constant 0
  | doubleNegation _ _ ihe ih => exact ih (ihe he.1).1
  | negation he' _ _ ih =>
    obtain ⟨hee, hadmits⟩ := he
    rw [← he'.value_eq hv hsound] at hadmits
    exact ⟨ih hee, hadmits⟩
  | product hl hr hrule ihl ihr =>
    obtain ⟨hel, her, hadmits⟩ := he
    rw [← hl.value_eq hv hsound, ← hr.value_eq hv hsound] at hadmits
    exact hrule.computes hsound (ihl hel) (ihr her) hadmits

theorem computes_simplify (hsound : options.overflow.SoundIn ℤ)
    (hnew : options.likeTerms = .extended → ∀ n, admits n) {e : Expr}
    (he : e.Computes admits env) : (simplify options e).Computes admits env :=
  (simplifies_simplify options e).computes hsound hnew he

theorem exists_int_of_evaluate {e : Expr} {v : Value} (hatom : e.isAtom = false)
    (hfunction : ∀ params body, e ≠ .function params body) (h : e.evaluate env = .ok v) :
    ∃ c, v = .int c := by
  cases e using Expr.operator_induction with
  | leaf e hleaf =>
    cases e with
    | function params body => exact absurd rfl (hfunction params body)
    | add | sub | neg | mul => cases hleaf
    | _ => cases hatom
  | node operator l r _ _ =>
    obtain ⟨_, _, c, _, _, _, hv⟩ := Expr.evaluate_node_eq_ok.mp h
    exact ⟨c, hv⟩
  | neg e _ =>
    obtain ⟨_, c, _, _, hv⟩ := Expr.evaluate_neg_eq_ok.mp h
    exact ⟨c, hv⟩

/-- A simplification under the checked policy keeps the value of every expression that
has one and is no function value.  Only the collection of a whole chain may replace
it, and by an overflow. -/
theorem evaluate_simplify_checked {env : Environment} {e : Expr} {v : Value}
    (hfunction : ∀ params body, e ≠ .function params body) (h : e.evaluate env = .ok v) :
    (simplify ⟨.checked, .pairwise⟩ e).evaluate env = .ok v ∧
      ((simplify ⟨.checked, .extended⟩ e).evaluate env = .ok v ∨
        ∃ text, (simplify ⟨.checked, .extended⟩ e).evaluate env = .error (.overflow text)) := by
  by_cases hatom : e.isAtom = true
  · rw [simplify_of_isAtom _ hatom, simplify_of_isAtom _ hatom]
    exact ⟨h, Or.inl h⟩
  obtain ⟨c, rfl⟩ := exists_int_of_evaluate (Bool.eq_false_iff.mpr hatom) hfunction h
  obtain ⟨hcomputes, hexact⟩ := Expr.computes_of_evaluate h
  have hsound : OverflowPolicy.checked.SoundIn ℤ := OverflowPolicy.soundIn_checked
  have hvalue : ∀ likeTerms, (simplify ⟨.checked, likeTerms⟩ e).exactAt env = c.toInt :=
    fun _ => (value_simplify (Expr.isValuation_exactAt env) hsound e).trans hexact
  constructor
  · have hpairwise : (simplify ⟨.checked, .pairwise⟩ e).Computes InRange env :=
      computes_simplify hsound (fun hmode => LikeTerms.noConfusion hmode) hcomputes
    exact Expr.evaluate_eq_ok_int_iff.mpr ⟨hpairwise, hvalue .pairwise⟩
  · have hextended : (simplify ⟨.checked, .extended⟩ e).Computes (fun _ => True) env :=
      computes_simplify hsound (fun _ _ => trivial) (hcomputes.mono fun _ _ => trivial)
    refine (Expr.evaluate_or_overflow hextended).imp_left ?_
    rintro ⟨d, hd, hde⟩
    rw [hd, Int32.toInt_inj.mp (hde.trans (hvalue .extended))]

/-- The chain `x + ((-1073741824 + x) + derive(3 * x by x))`, whose linear terms add up
to `2 * x`. -/
def cancellingChain : Expr :=
  .add (.var "x") (.add (.add (.constant (-1073741824)) (.var "x"))
    (.derivative (.mul (.constant 3) (.var "x")) "x" none))

/-- The environment that binds `x` to `2 ^ 30`. -/
def largePoint : Environment := ⟨[], [("x", .int 1073741824)]⟩

theorem evaluate_simplify_cancellingChain :
    (∀ params body, cancellingChain ≠ .function params body) ∧
      cancellingChain.evaluate largePoint = .ok (.int 1073741827) ∧
        (simplify ⟨.checked, .pairwise⟩ cancellingChain).evaluate largePoint =
            .ok (.int 1073741827) ∧
          ∃ text, (simplify ⟨.checked, .extended⟩ cancellingChain).evaluate largePoint =
            .error (.overflow text) := by
  have hfunction : ∀ params body, cancellingChain ≠ .function params body :=
    fun _ _ h => Expr.noConfusion h
  have hvalue : cancellingChain.evaluate largePoint = .ok (.int 1073741827) := by decide +kernel
  obtain ⟨hpairwise, hextended⟩ := evaluate_simplify_checked hfunction hvalue
  exact ⟨hfunction, hvalue, hpairwise, hextended.resolve_left (by decide +kernel)⟩

end IntCalculus
