/-
The simplification of an expression ends, and leaves nothing larger and nothing new.

A call of the pass starts others: one for each operand, and one more for the operand of
a double negation.  That last call is on a part of a result and on no part of the
expression, and it is started for `0 - e` as well as for `-e`.  `Calls` lists them all.
Each call is on fewer nodes than the one that starts it, because the result it may be on
a part of has been made no larger.

`simplifyNested?` is the pass once more, written without a bound on sizes and stopped
where its calls are nested too deep.  It is not stopped when the depth allowed is the
number of nodes, and then it gives what the pass gives.

The statement this file exists for is `simplify_terminates`.
-/
import IntCalculus.Proofs.Simplify.Fragment

namespace IntCalculus

/-! ## Calls -/

/-- What stands directly below a node that the pass goes into. -/
def Expr.operands : Expr → List Expr
  | add l r | sub l r | mul l r => [l, r]
  | neg e => [e]
  | function _ body => [body]
  | _ => []

theorem Expr.nodeCount_lt_of_mem_operands {e operand : Expr} (h : operand ∈ e.operands) :
    operand.nodeCount < e.nodeCount := by
  cases e with
  | add l r | sub l r | mul l r =>
    simp only [operands, List.mem_cons, List.not_mem_nil, or_false] at h
    rcases h with rfl | rfl <;> simp only [nodeCount] <;> omega
  | neg e =>
    rw [List.mem_singleton.mp h]
    exact Nat.lt_add_of_pos_left Nat.one_pos
  | function params body =>
    rw [List.mem_singleton.mp h]
    exact Nat.lt_add_of_pos_left Nat.one_pos
  | _ => cases h

/-- `Calls options e' e`: the simplification of `e` starts one of `e'`. -/
inductive Calls (options : Options) : Expr → Expr → Prop where
  | operand {e operand : Expr} (h : operand ∈ e.operands) : Calls options operand e
  | doubleNegation {e inner : Expr} (h : simplify options e = .neg inner) :
      Calls options inner (.neg e)
  | negatedSubtrahend {l r inner : Expr} (hl : simplify options l = .constant 0)
      (hr : simplify options r = .neg inner) : Calls options inner (.sub l r)

variable {options : Options}

theorem nodeCount_lt_of_simplify_eq_neg {e inner : Expr}
    (h : simplify options e = .neg inner) : inner.nodeCount < e.nodeCount := by
  have hle := nodeCount_simplify_le options e
  rw [h] at hle
  exact Nat.lt_of_lt_of_le (Nat.lt_add_of_pos_left Nat.one_pos) hle

theorem Calls.nodeCount_lt {e e' : Expr} (h : Calls options e' e) :
    e'.nodeCount < e.nodeCount := by
  cases h with
  | operand hmem => exact Expr.nodeCount_lt_of_mem_operands hmem
  | @doubleNegation e _ hinner =>
    have hoperand : e.nodeCount < (Expr.neg e).nodeCount :=
      Expr.nodeCount_lt_of_mem_operands List.mem_cons_self
    exact Nat.lt_trans (nodeCount_lt_of_simplify_eq_neg hinner) hoperand
  | @negatedSubtrahend l r _ _ hinner =>
    have hoperand : r.nodeCount < (Expr.sub l r).nodeCount :=
      Expr.nodeCount_lt_of_mem_operands (List.mem_cons_of_mem _ List.mem_cons_self)
    exact Nat.lt_trans (nodeCount_lt_of_simplify_eq_neg hinner) hoperand

theorem wellFounded_calls (options : Options) : WellFounded (Calls options) :=
  Subrelation.wf (fun hcall => Calls.nodeCount_lt hcall)
    (InvImage.wf Expr.nodeCount Nat.lt_wfRel.wf)

/-! ## The recursion with a depth -/

/-- The negation of a simplified expression, where `again` simplifies the operand of a
double negation. -/
def negateNested? (again : Expr → Option Expr) : Expr → Option Expr
  | .neg inner => again inner
  | e => some (if e.isZero then .constant 0 else .neg e)

/-- Simplify an expression, unless calls are nested more than `depth` deep. -/
def simplifyNested? (options : Options) : Nat → Expr → Option Expr
  | 0, _ => none
  | depth + 1, .add l r => do
    let l' ← simplifyNested? options depth l
    let r' ← simplifyNested? options depth r
    some (sum options l' r')
  | depth + 1, .sub l r => do
    let l' ← simplifyNested? options depth l
    let r' ← simplifyNested? options depth r
    if r'.isZero then some l'
    else if l'.isZero then negateNested? (simplifyNested? options depth) r'
    else some (difference options.overflow l' r')
  | depth + 1, .neg e => do
    let e' ← simplifyNested? options depth e
    negateNested? (simplifyNested? options depth) e'
  | depth + 1, .mul l r => do
    let l' ← simplifyNested? options depth l
    let r' ← simplifyNested? options depth r
    some (product options.overflow l' r')
  | depth + 1, .function params body => do
    let body' ← simplifyNested? options depth body
    some (.function params body')
  | _ + 1, e => some e

theorem negateNested?_eq {again : Expr → Option Expr} {e : Expr}
    (h : ∀ inner, e = .neg inner → again inner = some (simplify options inner)) :
    negateNested? again e = some (negation options e) := by
  by_cases hneg : ∃ inner, e = .neg inner
  · obtain ⟨inner, rfl⟩ := hneg
    exact h inner rfl
  · have hne : ∀ inner, e ≠ .neg inner := fun inner h => hneg ⟨inner, h⟩
    rw [negation_of_ne_neg hne]
    cases e with
    | neg inner => exact absurd rfl (hne inner)
    | _ => rfl

/-- A call is carried out when the calls it starts are. -/
theorem simplifyNested?_succ {depth : Nat} {e : Expr}
    (h : ∀ e', Calls options e' e → simplifyNested? options depth e' = some (simplify options e')) :
    simplifyNested? options (depth + 1) e = some (simplify options e) := by
  have hoperand : ∀ operand ∈ e.operands,
      simplifyNested? options depth operand = some (simplify options operand) :=
    fun operand hmem => h operand (.operand hmem)
  cases e with
  | add l r =>
    rw [simplifyNested?, hoperand l List.mem_cons_self,
      hoperand r (List.mem_cons_of_mem _ List.mem_cons_self), simplify_add]
    rfl
  | sub l r =>
    rw [simplifyNested?, hoperand l List.mem_cons_self,
      hoperand r (List.mem_cons_of_mem _ List.mem_cons_self), simplify_sub]
    show (if (simplify options r).isZero then some (simplify options l)
      else if (simplify options l).isZero then
        negateNested? (simplifyNested? options depth) (simplify options r)
      else some (difference options.overflow (simplify options l) (simplify options r))) = _
    by_cases hr0 : (simplify options r).isZero = true
    · rw [if_pos hr0, if_pos hr0]
    rw [if_neg hr0, if_neg hr0]
    by_cases hl0 : (simplify options l).isZero = true
    · rw [if_pos hl0, if_pos hl0]
      exact negateNested?_eq fun inner hinner =>
        h inner (.negatedSubtrahend (Expr.isZero_iff.mp hl0) hinner)
    · rw [if_neg hl0, if_neg hl0]
  | neg e =>
    rw [simplifyNested?, hoperand e List.mem_cons_self, simplify_neg]
    exact negateNested?_eq fun inner hinner => h inner (.doubleNegation hinner)
  | mul l r =>
    rw [simplifyNested?, hoperand l List.mem_cons_self,
      hoperand r (List.mem_cons_of_mem _ List.mem_cons_self), simplify_mul]
    rfl
  | function params body =>
    rw [simplifyNested?, hoperand body List.mem_cons_self, simplify_function]
    rfl
  | _ => exact congrArg some (simplify_of_isAtom options rfl).symm

/-- As deep as the expression has nodes is deep enough. -/
theorem simplifyNested?_of_nodeCount_le {depth : Nat} {e : Expr} (h : e.nodeCount ≤ depth) :
    simplifyNested? options depth e = some (simplify options e) := by
  induction depth generalizing e with
  | zero => exact absurd e.nodeCount_pos (Nat.not_lt.mpr h)
  | succ depth ih =>
    refine simplifyNested?_succ fun e' hcall => ih ?_
    exact Nat.le_of_lt_succ (Nat.lt_of_lt_of_le hcall.nodeCount_lt h)

/-! ## What is left -/

/-- The calls of a simplification are well-founded, and nested no deeper than the
expression has nodes.  What comes out has no more nodes and no other free variables. -/
theorem simplify_terminates (options : Options) (e : Expr) :
    WellFounded (Calls options) ∧
      (∀ depth, e.nodeCount ≤ depth →
        simplifyNested? options depth e = some (simplify options e)) ∧
      (simplifyWithReport options e).2.finalSize ≤ (simplifyWithReport options e).2.initialSize ∧
      ∀ x ∈ (simplifyWithReport options e).1.freeVars, x ∈ e.freeVars := by
  refine ⟨wellFounded_calls options, fun _ => simplifyNested?_of_nodeCount_le,
    nodeCount_simplify_le options e, fun x hx => ?_⟩
  have hname : x ∈ (simplify options e).freeNames := Expr.mem_freeVars.mp hx
  exact Expr.mem_freeVars.mpr (freeNames_simplify_subset options e hname)

end IntCalculus
