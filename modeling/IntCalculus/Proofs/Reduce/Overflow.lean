/-
Overflow in a reduction.

A reduction meets arithmetic in two places.  An operator that is reached is folded when
its operands are constants, and where the result is out of range the node is left, with
the constants for operands.  A derivative is evaluated, and an evaluation that overflows
is no matter of a missing name: the error is passed on.  So a reduction overflows at the
first obstacle or nowhere, and only a derivative can be such an obstacle.

The statement this file exists for is `reduce_overflow`.
-/
import IntCalculus.Proofs.Reduce.Failure

namespace IntCalculus

variable {env : Environment}

namespace Expr

/-! ## Folds out of range -/

/-- `Unfolded env p q`: the operands of `p` are integers with a result out of range, and
`q` is the node `p` with these integers for operands. -/
inductive Unfolded (env : Environment) : Expr → Expr → Prop where
  | operation (operator : Operator) {l r : Expr} {a b : Int32}
      (hl : l.evaluate env = .ok (.int a)) (hr : r.evaluate env = .ok (.int b))
      (hout : ¬ InRange (operator.exact a.toInt b.toInt)) :
      Unfolded env (operator.node l r) (operator.node (.constant a) (.constant b))
  | negation {e : Expr} {a : Int32} (he : e.evaluate env = .ok (.int a))
      (hout : ¬ InRange (-a.toInt)) : Unfolded env (.neg e) (.neg (.constant a))

theorem tryReduce_of_evaluate_int {e : Expr} {a : Int32} (h : e.evaluate env = .ok (.int a)) :
    e.tryReduce env = .ok (constant a) :=
  (tryReduce_eq_ok_toExpr_iff (v := .int a) rfl).mpr h

theorem foldOr_of_not_inRange {operator : Operator} {a b : Int32}
    (h : ¬ InRange (operator.exact a.toInt b.toInt)) :
    foldOr operator.node operator (constant a) (constant b) =
      operator.node (constant a) (constant b) := by
  have hfold : OverflowPolicy.checked.fold operator a b = none :=
    OverflowPolicy.fit_checked_of_not_inRange h
  simp only [foldOr, constant?_constant, hfold, Option.map_none, Option.getD_none]

theorem foldNeg_of_not_inRange {a : Int32} (h : ¬ InRange (-a.toInt)) :
    (constant a).foldNeg = neg (constant a) := by
  have hfit := OverflowPolicy.fit_checked_of_not_inRange h
  simp only [foldNeg, constant?_constant, hfit, Option.map_none, Option.getD_none]

theorem Unfolded.tryReduce {p q : Expr} (h : Unfolded env p q) : p.tryReduce env = .ok q := by
  cases h with
  | operation operator hl hr hout =>
    rw [tryReduce_node, tryReduce_of_evaluate_int hl, tryReduce_of_evaluate_int hr,
      ← foldOr_of_not_inRange hout]
    rfl
  | negation he hout =>
    rw [tryReduce_neg, tryReduce_of_evaluate_int he, ← foldNeg_of_not_inRange hout]
    rfl

theorem Unfolded.ne_constant {p q : Expr} (h : Unfolded env p q) (c : Int32) :
    q ≠ constant c := by
  cases h with
  | operation operator => exact Value.toExpr_ne_node (.int c) operator _ _
  | negation =>
    intro hq
    cases hq

/-- What a part that is reached is reduced to is reached in the reduced expression, unless
it is a constant that was folded into another. -/
theorem mem_reached_of_tryReduce {e p q r : Expr} (hp : p ∈ e.reached)
    (hq : p.tryReduce env = .ok q) (hconstant : ∀ c, q ≠ constant c)
    (hr : e.tryReduce env = .ok r) : q ∈ r.reached := by
  induction e using operator_induction generalizing r with
  | leaf e hleaf =>
    rw [reached_of_isLeaf hleaf, List.mem_singleton] at hp
    subst hp
    cases hq.symm.trans hr
    exact self_mem_reached q
  | node operator e₁ e₂ ih₁ ih₂ =>
    rw [reached_node, List.mem_cons, List.mem_append] at hp
    rcases hp with rfl | hp
    · cases hq.symm.trans hr
      exact self_mem_reached q
    · rw [tryReduce_node] at hr
      obtain ⟨r₁, hr₁, hr⟩ := bind_eq_ok hr
      obtain ⟨r₂, hr₂, hr⟩ := bind_eq_ok hr
      obtain rfl := Except.ok.inj hr
      have hmem : q ∈ r₁.reached ∨ q ∈ r₂.reached :=
        hp.imp (fun hp₁ => ih₁ hp₁ hr₁) (fun hp₂ => ih₂ hp₂ hr₂)
      rcases foldOr_cases operator r₁ r₂ with hkept | ⟨a, b, _, rfl, rfl, _, _⟩
      · rw [hkept, reached_node]
        exact List.mem_cons_of_mem _ (List.mem_append.mpr hmem)
      · -- The operands were constants, and `q` is none.
        rcases hmem with hmem | hmem
        · exact absurd (List.mem_singleton.mp hmem) (hconstant a)
        · exact absurd (List.mem_singleton.mp hmem) (hconstant b)
  | neg e ih =>
    rw [reached_neg, List.mem_cons] at hp
    rcases hp with rfl | hp
    · cases hq.symm.trans hr
      exact self_mem_reached q
    · obtain ⟨e', he', hr⟩ := bind_eq_ok hr
      obtain rfl := Except.ok.inj hr
      have hmem : q ∈ e'.reached := ih hp he'
      rcases foldNeg_cases e' with hkept | ⟨a, _, rfl, _, _⟩
      · rw [hkept, reached_neg]
        exact List.mem_cons_of_mem _ hmem
      · exact absurd (List.mem_singleton.mp hmem) (hconstant a)

theorem Unfolded.mem_reached {e p q r : Expr} (h : Unfolded env p q) (hp : p ∈ e.reached)
    (hr : e.reduce env = .ok r) : e.GivesUp env ∧ r = e ∨ q ∈ r.reached := by
  rcases tryReduce_of_reduce hr with hcarried | ⟨hback, err, htry, herr⟩
  · exact Or.inr (mem_reached_of_tryReduce hp h.tryReduce h.ne_constant hcarried)
  · exact Or.inl ⟨givesUp_of_tryReduce htry herr, hback⟩

/-! ## Derivatives that overflow -/

theorem reduce_eq_overflow_iff {e : Expr} {text : String} :
    e.reduce env = .error (.overflow text) ↔
      ∃ d : Derivative, e.FirstObstacle env d.toExpr (.overflow text) := by
  constructor
  · intro h
    obtain ⟨leaf, hfirst⟩ := tryReduce_eq_error_iff.mp (tryReduce_of_reduce_eq_error h).1
    cases hfirst.obstacle with
    | @fatal d => exact ⟨d, hfirst⟩
  · rintro ⟨d, hfirst⟩
    exact reduce_of_fatal (tryReduce_eq_error_iff.mpr ⟨_, hfirst⟩) Bool.false_ne_true

/-- A reduction fails for an unsupported derivative or for an operand that is no integer,
and for nothing else unless the first obstacle is a derivative that overflows.  A node
outside of derivatives whose result is out of range is left with its operands reduced,
wherever it stands and unless the reduction is given up. -/
theorem reduce_overflow (env : Environment) (e : Expr) :
    ((∀ err, e.reduce env = .error err → (∃ kind, err = .unsupportedDerivative kind) ∨
        ∃ operator found, err = .nonIntegerOperand operator found) ↔
      ∀ (d : Derivative) text, ¬ e.FirstObstacle env d.toExpr (.overflow text)) ∧
    ∀ p ∈ e.reached, ∀ q, Unfolded env p q → p.reduce env = .ok q ∧
      ∀ r, e.reduce env = .ok r → e.GivesUp env ∧ r = e ∨ q ∈ r.reached := by
  refine ⟨⟨?_, ?_⟩, fun p hp q hunfolded => ?_⟩
  · intro hdocumented d text hfirst
    have hfails := reduce_eq_overflow_iff.mpr ⟨d, hfirst⟩
    rcases hdocumented _ hfails with ⟨_, hkind⟩ | ⟨_, _, hoperand⟩
    · cases hkind
    · cases hoperand
  · intro hnone err hfails
    have herr := (tryReduce_of_reduce_eq_error hfails).2
    cases err with
    | undeclared | alreadyDeclared => exact absurd rfl herr
    | unsupportedDerivative kind => exact Or.inl ⟨kind, rfl⟩
    | nonIntegerOperand operator found => exact Or.inr ⟨operator, found, rfl⟩
    | overflow text =>
      obtain ⟨d, hfirst⟩ := reduce_eq_overflow_iff.mp hfails
      exact absurd hfirst (hnone d text)
  · exact ⟨reduce_of_tryReduce hunfolded.tryReduce, fun r hr => hunfolded.mem_reached hp hr⟩

/-- The derivative `derive(x * x by x)`. -/
def steepSquare : Derivative := ⟨.mul (.var "x") (.var "x"), "x", none⟩

/-- The expression `2 * x`, which is what `steepSquare` evaluates. -/
def doubled : Expr := .mul (.constant 2) (.var "x")

/-- The environment that binds `x` to the greatest integer there is. -/
def upperEdge : Environment := ⟨[], [("x", .int 2147483647)]⟩

/-- A product out of range is left as it is, but not where it is a derivative. -/
theorem reduce_steepSquare :
    doubled.reduce upperEdge = .ok (.mul (.constant 2) (.constant 2147483647)) ∧
      steepSquare.toExpr.reduce upperEdge = .error (.overflow "2 * x") := by
  decide +kernel

theorem reduce_overflow_doubled :
    doubled ∈ (neg doubled).reached ∧
      Unfolded upperEdge doubled (.mul (.constant 2) (.constant 2147483647)) ∧
      ∃ r, (neg doubled).reduce upperEdge = .ok r ∧
        .mul (.constant 2) (.constant 2147483647) ∈ r.reached := by
  have hreached : doubled ∈ (neg doubled).reached := by decide +kernel
  have hunfolded : Unfolded upperEdge doubled (.mul (.constant 2) (.constant 2147483647)) :=
    .operation .times rfl rfl (by decide +kernel)
  have hreduce : (neg doubled).reduce upperEdge =
      .ok (.neg (.mul (.constant 2) (.constant 2147483647))) := by decide +kernel
  refine ⟨hreached, hunfolded, _, hreduce, ?_⟩
  rcases ((reduce_overflow upperEdge (neg doubled)).2 _ hreached _ hunfolded).2 _ hreduce with
    ⟨_, hback⟩ | hmem
  · cases hback
  · exact hmem

end Expr
end IntCalculus
