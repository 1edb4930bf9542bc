/-
Evaluation of a reduced expression.

In the environment of the reduction a reduced expression evaluates as the expression it
comes from: to the same value, or to the same error.  Operands fail in the same order as
before, because what is folded or replaced has a value.  Only the text that an overflow
carries may change, since it is the text of a node whose operands are reduced.

The statement this file exists for is `evaluate_of_reduce`.
-/
import IntCalculus.Proofs.Reduce.Relation

namespace IntCalculus

variable {env : Environment}

/-- The same result or the same error, up to the text that an overflow carries. -/
inductive SameOutcome {α : Type} : Except Error α → Except Error α → Prop where
  | same (outcome : Except Error α) : SameOutcome outcome outcome
  | overflow (text text' : String) :
      SameOutcome (.error (.overflow text)) (.error (.overflow text'))

namespace SameOutcome

theorem bind {α β : Type} {outcome outcome' : Except Error α} {next next' : α → Except Error β}
    (h : SameOutcome outcome outcome') (hnext : ∀ a, SameOutcome (next a) (next' a)) :
    SameOutcome (outcome >>= next) (outcome' >>= next') := by
  cases h with
  | overflow text text' => exact .overflow text text'
  | same =>
    cases outcome with
    | error err => exact .same (.error err)
    | ok a => exact hnext a

theorem checkedResult (node node' : Expr) (n : Int) :
    SameOutcome (node.checkedResult n) (node'.checkedResult n) := by
  unfold Expr.checkedResult
  cases OverflowPolicy.checked.fit n with
  | none => exact .overflow node.text node'.text
  | some c => exact .same _

theorem apply {node node' : Expr} {operator : Operator} {l l' r r' : Except Error Value}
    (hl : SameOutcome l l') (hr : SameOutcome r r') :
    SameOutcome (node.apply operator l r) (node'.apply operator l' r') :=
  hl.bind fun x => (same (x.operand operator)).bind fun _ =>
    hr.bind fun y => (same (y.operand operator)).bind fun _ => checkedResult node node' _

end SameOutcome

namespace Expr

/-! ## Folds -/

theorem evaluate_foldOr (operator : Operator) (l r : Expr) :
    (foldOr operator.node operator l r).evaluate env = (operator.node l r).evaluate env := by
  rcases foldOr_cases operator l r with hkept | ⟨a, b, c, rfl, rfl, hfold, hfolded⟩
  · rw [hkept]
  · rw [hfolded]
    exact (evaluate_node_eq_ok.mpr ⟨a, b, c, rfl, rfl, hfold, rfl⟩).symm

theorem evaluate_foldNeg (e : Expr) : e.foldNeg.evaluate env = (neg e).evaluate env := by
  rcases foldNeg_cases e with hkept | ⟨a, c, rfl, hfit, hfolded⟩
  · rw [hkept]
  · rw [hfolded]
    exact (evaluate_neg_eq_ok.mpr ⟨a, c, rfl, hfit, rfl⟩).symm

/-! ## Reduced expressions -/

theorem evaluate_replaced {e : Expr} {v : Value} (h : e.evaluate env = .ok v) :
    SameOutcome (v.toExpr.evaluate env) (e.evaluate env) := by
  rw [v.evaluate_toExpr, h]
  exact .same _

theorem evaluate_of_reduces {e r : Expr} (h : Reduces env e r) :
    SameOutcome (r.evaluate env) (e.evaluate env) := by
  induction h with
  | literal | name | missing | gradient => exact .same _
  | scalar hlookup _ => exact evaluate_replaced hlookup
  | derivative hvalue => exact evaluate_replaced hvalue
  | node operator _ _ ihl ihr =>
    rw [evaluate_foldOr, evaluate_node, evaluate_node]
    exact ihl.apply ihr
  | neg _ ih =>
    rw [evaluate_foldNeg, evaluate_neg, evaluate_neg]
    exact ih.bind fun x => (SameOutcome.same (x.operand .minus)).bind fun _ =>
      SameOutcome.checkedResult _ _ _

/-- A reduced expression evaluates like the expression it was reduced from. -/
theorem evaluate_of_reduce {env : Environment} {e r : Expr} (h : e.reduce env = .ok r) :
    SameOutcome (r.evaluate env) (e.evaluate env) := by
  rcases tryReduce_of_reduce h with hcarried | ⟨rfl, _⟩
  · exact evaluate_of_reduces (reduces_of_tryReduce hcarried)
  · exact .same _

/-- The expression `derive(x * x by x) * (x + 2147483647)`. -/
def steepSum : Expr :=
  .mul (.derivative (.mul (.var "x") (.var "x")) "x" none)
    (.add (.var "x") (.constant 2147483647))

/-- The expression `6 * (3 + 2147483647)`. -/
def steepSumAtThree : Expr := .mul (.constant 6) (.add (.constant 3) (.constant 2147483647))

theorem evaluate_of_reduce_steepSum :
    steepSum.reduce ⟨[], [("x", .int 3)]⟩ = .ok steepSumAtThree ∧
      steepSum.evaluate ⟨[], [("x", .int 3)]⟩ = .error (.overflow "x + 2147483647") ∧
      SameOutcome (steepSumAtThree.evaluate ⟨[], [("x", .int 3)]⟩)
        (.error (.overflow "x + 2147483647")) := by
  have hreduce : steepSum.reduce ⟨[], [("x", .int 3)]⟩ = .ok steepSumAtThree := by
    decide +kernel
  have hvalue : steepSum.evaluate ⟨[], [("x", .int 3)]⟩ =
      .error (.overflow "x + 2147483647") := by decide +kernel
  exact ⟨hreduce, hvalue, hvalue ▸ evaluate_of_reduce hreduce⟩

end Expr
end IntCalculus
