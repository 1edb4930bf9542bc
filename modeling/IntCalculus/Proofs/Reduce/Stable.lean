/-
Reducing an expression twice.

An expression is stable in an environment when it is reduced to itself there.  A second
reduction sees another tree than the first: literals in the place of names, values in the
place of derivatives, and nodes that could not be folded.  Each of them is stable, and a
node of stable operands is asked for the same fold as before.  An expression that was
given back is given back again.

What operators reach in a stable expression is stable too, and nothing is left to do in
it.

The statement this file exists for is `reduce_reduce`.
-/
import IntCalculus.Proofs.Reduce.Failure

namespace IntCalculus

variable {env : Environment}

namespace Expr

/-- A reduction leaves the expression as it is. -/
def Stable (env : Environment) (e : Expr) : Prop := e.tryReduce env = .ok e

theorem stable_toExpr (v : Value) : v.toExpr.Stable env := v.tryReduce_toExpr

theorem stable_foldOr (operator : Operator) {l r : Expr} (hl : l.Stable env)
    (hr : r.Stable env) : (foldOr operator.node operator l r).Stable env := by
  have hnode : (operator.node l r).tryReduce env = .ok (foldOr operator.node operator l r) := by
    rw [tryReduce_node, hl, hr]
    rfl
  rcases foldOr_cases operator l r with hkept | ⟨_, _, c, _, _, _, hfolded⟩
  · rw [hkept] at hnode ⊢
    exact hnode
  · rw [hfolded]
    exact stable_toExpr (.int c)

theorem stable_foldNeg {e : Expr} (h : e.Stable env) : e.foldNeg.Stable env := by
  have hneg : (neg e).tryReduce env = .ok e.foldNeg := by
    rw [tryReduce_neg, h]
    rfl
  rcases foldNeg_cases e with hkept | ⟨_, c, _, _, hfolded⟩
  · rw [hkept] at hneg ⊢
    exact hneg
  · rw [hfolded]
    exact stable_toExpr (.int c)

theorem stable_of_reduces {e r : Expr} (h : Reduces env e r) : r.Stable env := by
  induction h with
  | literal | scalar | derivative => exact stable_toExpr _
  | @name x v hlookup hv =>
    show (var x).tryReduce env = .ok (var x)
    rw [tryReduce_var, hlookup]
    exact congrArg Except.ok (if_neg hv)
  | missing hvalue herr => exact Derivative.reduce_of_missing hvalue herr
  | gradient => exact rfl
  | node operator _ _ ihl ihr => exact stable_foldOr operator ihl ihr
  | neg _ ih => exact stable_foldNeg ih

/-! ## What is reached -/

theorem stable_node {operator : Operator} {l r : Expr} (h : (operator.node l r).Stable env) :
    l.Stable env ∧ r.Stable env ∧ foldOr operator.node operator l r = operator.node l r := by
  unfold Stable at h
  rw [tryReduce_node] at h
  obtain ⟨l', hl, h⟩ := bind_eq_ok h
  obtain ⟨r', hr, h⟩ := bind_eq_ok h
  have hfold : foldOr operator.node operator l' r' = operator.node l r := Except.ok.inj h
  rcases foldOr_cases operator l' r' with hkept | ⟨_, _, c, _, _, _, hfolded⟩
  · obtain ⟨rfl, rfl⟩ := Operator.node_inj.mp (hkept.symm.trans hfold)
    exact ⟨hl, hr, hfold⟩
  · exact absurd (hfold.symm.trans hfolded) ((Value.int c).toExpr_ne_node operator l r)

theorem stable_neg {e : Expr} (h : (neg e).Stable env) :
    e.Stable env ∧ e.foldNeg = neg e := by
  obtain ⟨e', he, h⟩ := bind_eq_ok h
  have hfold : e'.foldNeg = neg e := Except.ok.inj h
  rcases foldNeg_cases e' with hkept | ⟨_, c, _, _, hfolded⟩
  · cases hkept.symm.trans hfold
    exact ⟨he, hfold⟩
  · cases hfold.symm.trans hfolded

theorem stable_of_mem_reached {e p : Expr} (h : e.Stable env) (hp : p ∈ e.reached) :
    p.Stable env := by
  induction e using operator_induction with
  | leaf e hleaf =>
    rw [reached_of_isLeaf hleaf, List.mem_singleton] at hp
    exact hp ▸ h
  | node operator l r ihl ihr =>
    obtain ⟨hl, hr, _⟩ := stable_node h
    rw [reached_node, List.mem_cons, List.mem_append] at hp
    rcases hp with rfl | hp | hp
    · exact h
    · exact ihl hl hp
    · exact ihr hr hp
  | neg e ih =>
    rw [reached_neg, List.mem_cons] at hp
    rcases hp with rfl | hp
    · exact h
    · exact ih (stable_neg h).1 hp

/-- What a reduction replaces or folds: the name of a scalar, an operator between two
constants with a result in range, and a negated constant other than the least one. -/
inductive Reducible (env : Environment) : Expr → Prop where
  | scalar {x : String} {v : Value} (h : env.lookup x = .ok v) (hv : v.isScalar = true) :
      Reducible env (.var x)
  | operation (operator : Operator) {a b : Int32}
      (h : InRange (operator.exact a.toInt b.toInt)) :
      Reducible env (operator.node (.constant a) (.constant b))
  | negation {c : Int32} (h : c ≠ Int32.minValue) : Reducible env (.neg (.constant c))

theorem inRange_neg {c : Int32} (h : c ≠ Int32.minValue) : InRange (-c.toInt) := by
  have hne : c.toInt ≠ -2147483648 := fun heq => h (Int32.toInt_inj.mp heq)
  have hc := inRange_toInt c
  unfold InRange at hc ⊢
  omega

theorem Reducible.not_stable {e : Expr} (h : Reducible env e) : ¬ e.Stable env := by
  intro hstable
  cases h with
  | @scalar x v hlookup hv =>
    unfold Stable at hstable
    rw [tryReduce_var, hlookup] at hstable
    have hliteral : v.toExpr = var x := (if_pos hv).symm.trans (Except.ok.inj hstable)
    cases v <;> cases hliteral
  | operation operator hrange =>
    have hfolded := foldOr_constants (OverflowPolicy.fit_of_inRange hrange .checked)
    have hliteral := (stable_node hstable).2.2.symm.trans hfolded
    exact Value.toExpr_ne_node (.int _) operator _ _ hliteral
  | negation hc =>
    have hfolded := foldNeg_constant (OverflowPolicy.fit_of_inRange (inRange_neg hc) .checked)
    cases (stable_neg hstable).2.symm.trans hfolded

/-! ## Reducing twice -/

/-- A reduced expression is reduced to itself.  Where all variables that are reached are
bound, nothing that is reached in it can be replaced or folded. -/
theorem reduce_reduce {env : Environment} {e r : Expr} (h : e.reduce env = .ok r) :
    r.reduce env = .ok r ∧
      ((∀ x, var x ∈ e.reached → env.contains x = true) →
        ∀ p ∈ r.reached, ¬ Reducible env p) := by
  rcases tryReduce_of_reduce h with hcarried | ⟨hback, err, htry, herr⟩
  · have hstable : r.Stable env := stable_of_reduces (reduces_of_tryReduce hcarried)
    exact ⟨reduce_of_tryReduce hstable, fun _ p hp hreducible =>
      hreducible.not_stable (stable_of_mem_reached hstable hp)⟩
  · subst hback
    refine ⟨h, fun hbound => ?_⟩
    obtain ⟨leaf, hmem, hobstacle⟩ := exists_obstacle htry
    cases hobstacle with
    | @unbound x hunbound =>
      rw [hbound x (mem_leaves.mp hmem).1] at hunbound
      cases hunbound
    | fatal _ hother =>
      rw [herr] at hother
      cases hother

/-- The expression `(x + 2147483647) * -(x - 7) + (derive(x * z by x) - f)`. -/
def keptNodes : Expr :=
  .add (.mul (.add (.var "x") (.constant 2147483647)) (.neg (.sub (.var "x") (.constant 7))))
    (.sub (.derivative (.mul (.var "x") (.var "z")) "x" none) (.var "f"))

/-- The expression `(3 + 2147483647) * 4 + (derive(x * z by x) - f)`. -/
def keptNodesReduced : Expr :=
  .add (.mul (.add (.constant 3) (.constant 2147483647)) (.constant 4))
    (.sub (.derivative (.mul (.var "x") (.var "z")) "x" none) (.var "f"))

/-- The environment that binds `x` to 3 and `f` to a function. -/
def besideFunction : Environment :=
  ⟨[[("f", .function ["t"] (.var "t"))]], [("x", .int 3)]⟩

theorem reduce_reduce_keptNodes :
    keptNodes.reduce besideFunction = .ok keptNodesReduced ∧
      keptNodesReduced.reduce besideFunction = .ok keptNodesReduced ∧
      ∀ p ∈ keptNodesReduced.reached, ¬ Reducible besideFunction p := by
  have hreduce : keptNodes.reduce besideFunction = .ok keptNodesReduced := by decide +kernel
  obtain ⟨hagain, hnone⟩ := reduce_reduce hreduce
  refine ⟨hreduce, hagain, hnone fun x hx => ?_⟩
  have hnames : x = "x" ∨ x = "f" := by
    simpa [keptNodes, reached] using hx
  rcases hnames with rfl | rfl <;> rfl

end Expr
end IntCalculus
