/-
The exact computation behind an evaluation.

`exactAt env` reads an expression in the unbounded integers, where a leaf stands for
the integer it evaluates to.  `Computes admits env` says that every leaf the
operators reach is an integer and that every operator has an admitted result.
Two choices of `admits` matter.  With the 32-bit range the computation is one that
evaluation carries out; with every integer admitted it is one that evaluation can
only leave by an overflow.

`evaluate_eq_ok_int_iff` and `evaluate_of_computes` are the statements this file
exists for.
-/
import IntCalculus.Evaluate
import IntCalculus.Proofs.Node
import IntCalculus.Proofs.Outcome
import IntCalculus.Proofs.Value

namespace IntCalculus

theorem OverflowPolicy.fit_checked_of_not_inRange {n : ℤ} (h : ¬ InRange n) :
    checked.fit n = none := if_neg h

theorem Value.operand_eq_ok {operator : Operator} {v : Value} {a : Int32} :
    v.operand operator = .ok a ↔ v = .int a := by
  cases v <;> simp [operand]

namespace Expr

variable {env : Environment}

/-! ## One node -/

theorem checkedResult_eq_ok {node : Expr} {n : ℤ} {v : Value} :
    node.checkedResult n = .ok v ↔ ∃ c, OverflowPolicy.checked.fit n = some c ∧ v = .int c := by
  unfold checkedResult
  cases OverflowPolicy.checked.fit n with
  | none => simp
  | some c => simp [eq_comm]

theorem checkedResult_outcome (node : Expr) (n : ℤ) :
    (∃ c, node.checkedResult n = .ok (.int c) ∧ c.toInt = n) ∨
      ¬ InRange n ∧ node.checkedResult n = .error (.overflow node.text) := by
  unfold checkedResult
  by_cases h : InRange n
  · have hfit := OverflowPolicy.fit_of_inRange h .checked
    rw [hfit]
    exact Or.inl ⟨_, rfl, OverflowPolicy.toInt_of_fit_checked hfit⟩
  · rw [OverflowPolicy.fit_checked_of_not_inRange h]
    exact Or.inr ⟨h, rfl⟩

theorem evaluate_node (env : Environment) (operator : Operator) (l r : Expr) :
    (operator.node l r).evaluate env =
      (operator.node l r).apply operator (l.evaluate env) (r.evaluate env) := by
  cases operator <;> rfl

/-- An operator has a value when both operands are integers and the result is in
range. -/
theorem evaluate_node_eq_ok {operator : Operator} {l r : Expr} {v : Value} :
    (operator.node l r).evaluate env = .ok v ↔
      ∃ a b c, l.evaluate env = .ok (.int a) ∧ r.evaluate env = .ok (.int b) ∧
        OverflowPolicy.checked.fold operator a b = some c ∧ v = .int c := by
  rw [evaluate_node]
  constructor
  · intro h
    obtain ⟨x, hl, h⟩ := bind_eq_ok h
    obtain ⟨a, ha, h⟩ := bind_eq_ok h
    obtain ⟨y, hr, h⟩ := bind_eq_ok h
    obtain ⟨b, hb, h⟩ := bind_eq_ok h
    obtain ⟨c, hc, hv⟩ := checkedResult_eq_ok.mp h
    rw [Value.operand_eq_ok.mp ha] at hl
    rw [Value.operand_eq_ok.mp hb] at hr
    exact ⟨a, b, c, hl, hr, hc, hv⟩
  · rintro ⟨a, b, c, hl, hr, hc, rfl⟩
    rw [hl, hr]
    exact checkedResult_eq_ok.mpr ⟨c, hc, rfl⟩

theorem evaluate_neg (env : Environment) (e : Expr) :
    (neg e).evaluate env = (e.evaluate env >>= fun v => v.operand .minus >>= fun a =>
      (neg e).checkedResult (-a.toInt)) := rfl

theorem evaluate_neg_eq_ok {e : Expr} {v : Value} :
    (neg e).evaluate env = .ok v ↔
      ∃ a c, e.evaluate env = .ok (.int a) ∧
        OverflowPolicy.checked.fit (-a.toInt) = some c ∧ v = .int c := by
  rw [evaluate_neg]
  constructor
  · intro h
    obtain ⟨x, he, h⟩ := bind_eq_ok h
    obtain ⟨a, ha, h⟩ := bind_eq_ok h
    obtain ⟨c, hc, hv⟩ := checkedResult_eq_ok.mp h
    rw [Value.operand_eq_ok.mp ha] at he
    exact ⟨a, c, he, hc, hv⟩
  · rintro ⟨a, c, he, hc, rfl⟩
    rw [he]
    exact checkedResult_eq_ok.mpr ⟨c, hc, rfl⟩

/-! ## Exact values -/

/-- The exact value at the point an environment gives.  A leaf that is no integer
there is read as 0. -/
def exactAt (env : Environment) : Expr → ℤ
  | constant c => c.toInt
  | add l r => l.exactAt env + r.exactAt env
  | sub l r => l.exactAt env - r.exactAt env
  | neg e => -e.exactAt env
  | mul l r => l.exactAt env * r.exactAt env
  | e =>
    match e.evaluate env with
    | .ok (.int c) => c.toInt
    | _ => 0

theorem isValuation_exactAt (env : Environment) : IsValuation (exactAt env) where
  constant _ := rfl
  add _ _ := rfl
  sub _ _ := rfl
  neg _ := rfl
  mul _ _ := rfl
  function _ _ _ := rfl

theorem exactAt_node (env : Environment) (operator : Operator) (l r : Expr) :
    (operator.node l r).exactAt env = operator.exact (l.exactAt env) (r.exactAt env) := by
  cases operator <;> rfl

theorem exactAt_of_isLeaf {e : Expr} {c : Int32} (hleaf : e.isLeaf = true)
    (h : e.evaluate env = .ok (.int c)) : e.exactAt env = c.toInt := by
  cases e with
  | constant d =>
    cases h
    rfl
  | add | sub | mul | neg => cases hleaf
  | _ => simp only [exactAt, h]

/-! ## Computations -/

/-- The operators of the expression are applied to integers, with admitted results. -/
def Computes (admits : ℤ → Prop) (env : Environment) : Expr → Prop
  | add l r => l.Computes admits env ∧ r.Computes admits env ∧
      admits (l.exactAt env + r.exactAt env)
  | sub l r => l.Computes admits env ∧ r.Computes admits env ∧
      admits (l.exactAt env - r.exactAt env)
  | neg e => e.Computes admits env ∧ admits (-e.exactAt env)
  | mul l r => l.Computes admits env ∧ r.Computes admits env ∧
      admits (l.exactAt env * r.exactAt env)
  | e => ∃ c, e.evaluate env = .ok (.int c)

variable {admits : ℤ → Prop}

theorem computes_node {operator : Operator} {l r : Expr} :
    (operator.node l r).Computes admits env ↔
      l.Computes admits env ∧ r.Computes admits env ∧
        admits (operator.exact (l.exactAt env) (r.exactAt env)) := by
  cases operator <;> exact Iff.rfl

theorem computes_of_isLeaf {e : Expr} (hleaf : e.isLeaf = true) :
    e.Computes admits env ↔ ∃ c, e.evaluate env = .ok (.int c) := by
  cases e with
  | add | sub | mul | neg => cases hleaf
  | _ => exact Iff.rfl

/-- A computation ends with its exact value, or at a result that was admitted and is
out of range. -/
theorem evaluate_of_computes {e : Expr} (h : e.Computes admits env) :
    (∃ c, e.evaluate env = .ok (.int c) ∧ c.toInt = e.exactAt env) ∨
      (∃ n, admits n ∧ ¬ InRange n) ∧ ∃ text, e.evaluate env = .error (.overflow text) := by
  induction e using operator_induction with
  | leaf e hleaf =>
    obtain ⟨c, hc⟩ := (computes_of_isLeaf hleaf).mp h
    exact Or.inl ⟨c, hc, (exactAt_of_isLeaf hleaf hc).symm⟩
  | node operator l r ihl ihr =>
    obtain ⟨hl, hr, hadmits⟩ := computes_node.mp h
    rw [evaluate_node, exactAt_node]
    -- The operands are evaluated in order, so an overflow on the left hides the right.
    rcases ihl hl with ⟨a, ha, hael⟩ | ⟨hout, text, ha⟩
    · rcases ihr hr with ⟨b, hb, hber⟩ | ⟨hout, text, hb⟩
      · rw [ha, hb, ← hael, ← hber]
        rw [← hael, ← hber] at hadmits
        rcases checkedResult_outcome (operator.node l r) (operator.exact a.toInt b.toInt) with
          hresult | ⟨hrange, hresult⟩
        · exact Or.inl hresult
        · exact Or.inr ⟨⟨_, hadmits, hrange⟩, _, hresult⟩
      · rw [ha, hb]
        exact Or.inr ⟨hout, text, rfl⟩
    · rw [ha]
      exact Or.inr ⟨hout, text, rfl⟩
  | neg e ih =>
    obtain ⟨he, hadmits⟩ := h
    rw [evaluate_neg, (isValuation_exactAt env).neg]
    rcases ih he with ⟨a, ha, hae⟩ | ⟨hout, text, ha⟩
    · rw [ha, ← hae]
      rw [← hae] at hadmits
      rcases checkedResult_outcome (neg e) (-a.toInt) with hresult | ⟨hrange, hresult⟩
      · exact Or.inl hresult
      · exact Or.inr ⟨⟨_, hadmits, hrange⟩, _, hresult⟩
    · rw [ha]
      exact Or.inr ⟨hout, text, rfl⟩

/-- Where every integer is admitted, a computation can only overflow. -/
theorem evaluate_or_overflow {e : Expr} (h : e.Computes (fun _ => True) env) :
    (∃ c, e.evaluate env = .ok (.int c) ∧ c.toInt = e.exactAt env) ∨
      ∃ text, e.evaluate env = .error (.overflow text) :=
  (evaluate_of_computes h).imp_right And.right

theorem computes_of_evaluate {e : Expr} {c : Int32} (h : e.evaluate env = .ok (.int c)) :
    e.Computes InRange env ∧ e.exactAt env = c.toInt := by
  induction e using operator_induction generalizing c with
  | leaf e hleaf => exact ⟨(computes_of_isLeaf hleaf).mpr ⟨c, h⟩, exactAt_of_isLeaf hleaf h⟩
  | node operator l r ihl ihr =>
    obtain ⟨a, b, d, ha, hb, hfold, hd⟩ := evaluate_node_eq_ok.mp h
    cases hd
    obtain ⟨hl, hal⟩ := ihl ha
    obtain ⟨hr, hbr⟩ := ihr hb
    have hexact : c.toInt = operator.exact a.toInt b.toInt :=
      OverflowPolicy.toInt_of_fit_checked hfold
    rw [computes_node, exactAt_node, hal, hbr, ← hexact]
    exact ⟨⟨hl, hr, inRange_toInt c⟩, rfl⟩
  | neg e ih =>
    obtain ⟨a, d, ha, hfit, hd⟩ := evaluate_neg_eq_ok.mp h
    cases hd
    obtain ⟨he, hae⟩ := ih ha
    have hexact : c.toInt = -a.toInt := OverflowPolicy.toInt_of_fit_checked hfit
    show (e.Computes InRange env ∧ InRange (-e.exactAt env)) ∧ -e.exactAt env = c.toInt
    rw [hae, ← hexact]
    exact ⟨⟨he, inRange_toInt c⟩, rfl⟩

/-- Evaluation gives the exact value when all results on the way are in range, and
no integer otherwise. -/
theorem evaluate_eq_ok_int_iff {e : Expr} {c : Int32} :
    e.evaluate env = .ok (.int c) ↔ e.Computes InRange env ∧ e.exactAt env = c.toInt := by
  refine ⟨computes_of_evaluate, fun ⟨h, hexact⟩ => ?_⟩
  rcases evaluate_of_computes h with ⟨d, hd, hde⟩ | ⟨⟨n, hin, hout⟩, _⟩
  · rw [hd, Int32.toInt_inj.mp (hde.trans hexact)]
  · exact absurd hin hout

end Expr
end IntCalculus
