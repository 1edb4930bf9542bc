/-
The folds of a simplification.

A rule that makes one constant out of two asks the overflow policy for it and goes on with
the answer, which is none where the policy declines.  `Folding` is a computation that knows
nothing else of the policy, so that the folds it asks for can be listed.  The pass is
written once more as such a computation, and run under a policy it gives what the pass
gives.

The answer to one fold decides which folds come next: a coefficient 0 or 1 is not written,
a merge that is declined leaves its node alone, and a chain is given up at the first fold
that is declined.  But two policies that answer every fold of a run alike go the same way
all along it, and inside the range all policies answer alike.

The statement this file exists for is `policies_agree`.
-/
import IntCalculus.Derive
import IntCalculus.Proofs.Simplify.Termination

namespace IntCalculus

/-- Two constants, and the operator they are to be folded with. -/
structure Fold where
  operator : Operator
  left : Int32
  right : Int32
  deriving DecidableEq, Repr

/-- The result in unbounded integers. -/
def Fold.exact (f : Fold) : Int := f.operator.exact f.left.toInt f.right.toInt

/-- A computation that asks for folds, and goes on with the constant it is given or with
none. -/
inductive Folding (α : Type) where
  | done (result : α)
  | ask (f : Fold) (next : Option Int32 → Folding α)

namespace Folding

variable {α β : Type} {policy : OverflowPolicy}

def run (policy : OverflowPolicy) : Folding α → α
  | done result => result
  | ask f next => (next (policy.fold f.operator f.left f.right)).run policy

/-- The folds that are asked for in a run, in order. -/
def folds (policy : OverflowPolicy) : Folding α → List Fold
  | done _ => []
  | ask f next => f :: (next (policy.fold f.operator f.left f.right)).folds policy

def bind : Folding α → (α → Folding β) → Folding β
  | done result, next => next result
  | ask f answered, next => ask f fun answer => (answered answer).bind next

instance : Monad Folding where
  pure := done
  bind := bind

def fold (operator : Operator) (a b : Int32) : Folding (Option Int32) :=
  ask ⟨operator, a, b⟩ done

@[simp] theorem run_pure (a : α) : (pure a : Folding α).run policy = a := rfl

@[simp] theorem run_fold (operator : Operator) (a b : Int32) :
    (fold operator a b).run policy = policy.fold operator a b := rfl

@[simp] theorem run_bind (c : Folding α) (next : α → Folding β) :
    (c >>= next).run policy = (next (c.run policy)).run policy := by
  show (c.bind next).run policy = _
  induction c with
  | done result => rfl
  | ask f answered ih => exact ih _

/-- No fold that is asked for under the checked policy leaves the range. -/
def NoOverflow (c : Folding α) : Prop := ∀ f ∈ c.folds .checked, InRange f.exact

instance (c : Folding α) : Decidable c.NoOverflow :=
  inferInstanceAs (Decidable (∀ f ∈ c.folds .checked, InRange f.exact))

/-- Where no fold leaves the range, all policies go the way of the checked one. -/
theorem run_of_noOverflow {c : Folding α} (h : c.NoOverflow) (policy : OverflowPolicy) :
    c.run policy = c.run .checked := by
  induction c with
  | done result => rfl
  | ask f next ih =>
    have hf : InRange f.exact := h f List.mem_cons_self
    have hchecked : OverflowPolicy.checked.fold f.operator f.left f.right =
        some (Int32.ofInt f.exact) := OverflowPolicy.fit_of_inRange hf .checked
    have hpolicy : policy.fold f.operator f.left f.right = some (Int32.ofInt f.exact) :=
      OverflowPolicy.fit_of_inRange hf policy
    have hnext : (next (some (Int32.ofInt f.exact))).NoOverflow := by
      intro g hg
      refine h g (List.mem_cons_of_mem f ?_)
      rw [hchecked]
      exact hg
    rw [run, run, hpolicy, hchecked]
    exact ih _ hnext

/-! ## Chains -/

def insertLinear (c : Int32) (x : String) : List Summand → Folding (Option (List Summand))
  | [] => return some [.linear c x]
  | .linear d y :: rest =>
    if y = x then do
      let total ← fold .plus d c
      return total.map fun total => .linear total y :: rest
    else do
      let rest' ← insertLinear c x rest
      return rest'.map (.linear d y :: ·)
  | .other t :: rest => do
    let rest' ← insertLinear c x rest
    return rest'.map (.other t :: ·)

def insert (sofar : Collected) (term : Expr) : Folding (Option Collected) :=
  match term.constant? with
  | some c => do
    let total ← fold .plus sofar.constant c
    return total.map fun total => { sofar with constant := total }
  | none =>
    match term.linear? with
    | some (c, x) => do
      let summands ← insertLinear c x sofar.summands
      return summands.map fun summands => { sofar with summands := summands }
    | none => return some { sofar with summands := sofar.summands ++ [.other term] }

def insertAll (sofar : Collected) : List Expr → Folding (Option Collected)
  | [] => return some sofar
  | term :: rest => do
    match ← insert sofar term with
    | some next => insertAll next rest
    | none => return none

def collectSum (l r : Expr) : Folding Expr := do
  match ← insertAll .empty (l.summands ++ r.summands) with
  | some collected => return .chain collected.terms
  | none => return .add l r

theorem run_insertLinear (c : Int32) (x : String) (summands : List Summand) :
    (insertLinear c x summands).run policy = Collected.insertLinear policy c x summands := by
  induction summands with
  | nil => rfl
  | cons s rest ih =>
    cases s with
    | linear d y =>
      rw [insertLinear, Collected.insertLinear]
      by_cases hy : y = x
      · rw [if_pos hy, if_pos hy, run_bind, run_fold, run_pure]
        cases policy.fold .plus d c <;> rfl
      · rw [if_neg hy, if_neg hy, run_bind, ih, run_pure]
        cases Collected.insertLinear policy c x rest <;> rfl
    | other t =>
      rw [insertLinear, Collected.insertLinear, run_bind, ih, run_pure]
      cases Collected.insertLinear policy c x rest <;> rfl

theorem run_insert (sofar : Collected) (term : Expr) :
    (insert sofar term).run policy = sofar.insert policy term := by
  unfold insert Collected.insert
  cases term.constant? with
  | some c =>
    simp only [run_bind, run_fold, run_pure]
    cases policy.fold .plus sofar.constant c <;> rfl
  | none =>
    cases term.linear? with
    | some linear =>
      simp only [run_bind, run_insertLinear, run_pure]
      cases Collected.insertLinear policy linear.1 linear.2 sofar.summands <;> rfl
    | none => rfl

theorem run_insertAll (sofar : Collected) (terms : List Expr) :
    (insertAll sofar terms).run policy = sofar.insertAll policy terms := by
  induction terms generalizing sofar with
  | nil => rfl
  | cons term rest ih =>
    rw [insertAll, Collected.insertAll, run_bind, run_insert]
    cases sofar.insert policy term with
    | some next => exact ih next
    | none => rfl

theorem run_collectSum (l r : Expr) :
    (collectSum l r).run policy = IntCalculus.collectSum policy l r := by
  rw [collectSum, IntCalculus.collectSum, run_bind, run_insertAll]
  cases Collected.empty.insertAll policy (l.summands ++ r.summands) <;> rfl

/-! ## Rules -/

def mergeLinear? (l r : Expr) : Folding (Option Expr) :=
  match l.linear?, r.linear? with
  | some (a, x), some (b, y) =>
    if x = y then do
      let total ← fold .plus a b
      return total.map fun c => .scaled c (.var x)
    else return none
  | _, _ => return none

/-- The two constants folded into one, or the node as it is. -/
def foldOr (node : Expr) (operator : Operator) (a b : Int32) : Folding Expr := do
  let c ← fold operator a b
  return (c.map .constant).getD node

/-- The sum of two expressions with like terms combined as far as the mode asks. -/
def combine (mode : LikeTerms) (l r : Expr) : Folding Expr :=
  match mode with
  | .pairwise => do
    let merged ← mergeLinear? l r
    return merged.getD (.add l r)
  | .extended => collectSum l r

def sum (mode : LikeTerms) (l r : Expr) : Folding Expr :=
  if l.isZero then return r
  else if r.isZero then return l
  else
    match l.constant?, r.constant? with
    | some a, some b => foldOr (.add l r) .plus a b
    | _, _ => combine mode l r

def difference (l r : Expr) : Folding Expr :=
  match l.constant?, r.constant? with
  | some a, some b => foldOr (.sub l r) .minus a b
  | _, _ => return .sub l r

def scaleProduct? (a : Int32) (e : Expr) : Folding (Option Expr) :=
  match e.coefficient? with
  | some (b, rest) => do
    let total ← fold .times a b
    return total.map fun c => .scaled c rest
  | none => return none

def product (l r : Expr) : Folding Expr :=
  if l.isZero || r.isZero then return .constant 0
  else if l.isOne then return r
  else if r.isOne then return l
  else
    match l.constant?, r.constant? with
    | some a, some b => foldOr (.mul l r) .times a b
    | some a, none => do
      let scaled ← scaleProduct? a r
      return scaled.getD (.mul l r)
    | none, some a => do
      let scaled ← scaleProduct? a l
      return scaled.getD (.mul l r)
    | none, none => return .mul l r

theorem run_mergeLinear? (l r : Expr) :
    (mergeLinear? l r).run policy = IntCalculus.mergeLinear? policy l r := by
  unfold mergeLinear? IntCalculus.mergeLinear?
  cases l.linear? with
  | none => rfl
  | some left =>
    cases r.linear? with
    | none => rfl
    | some right =>
      by_cases hx : left.2 = right.2
      · simp only [if_pos hx]
        rfl
      · simp only [if_neg hx]
        rfl

theorem run_scaleProduct? (a : Int32) (e : Expr) :
    (scaleProduct? a e).run policy = IntCalculus.scaleProduct? policy a e := by
  unfold scaleProduct? IntCalculus.scaleProduct?
  cases e.coefficient? <;> rfl

theorem run_combine (mode : LikeTerms) (l r : Expr) :
    (combine mode l r).run policy =
      match mode with
      | .pairwise => (IntCalculus.mergeLinear? policy l r).getD (.add l r)
      | .extended => IntCalculus.collectSum policy l r := by
  cases mode with
  | pairwise => rw [combine, run_bind, run_mergeLinear?, run_pure]
  | extended => exact run_collectSum l r

theorem run_sum (mode : LikeTerms) (l r : Expr) :
    (sum mode l r).run policy = IntCalculus.sum ⟨policy, mode⟩ l r := by
  unfold sum IntCalculus.sum
  split
  · rfl
  split
  · rfl
  cases l.constant? with
  | none => exact run_combine mode l r
  | some a =>
    cases r.constant? with
    | none => exact run_combine mode l r
    | some b => rfl

theorem run_difference (l r : Expr) :
    (difference l r).run policy = IntCalculus.difference policy l r := by
  unfold difference IntCalculus.difference
  cases l.constant? with
  | none => rfl
  | some a => cases r.constant? <;> rfl

theorem run_product (l r : Expr) :
    (product l r).run policy = IntCalculus.product policy l r := by
  unfold product IntCalculus.product
  split
  · rfl
  split
  · rfl
  split
  · rfl
  cases l.constant? with
  | none =>
    cases r.constant? with
    | none => rfl
    | some a => simp only [run_bind, run_scaleProduct?, run_pure]
  | some a =>
    cases r.constant? with
    | none => simp only [run_bind, run_scaleProduct?, run_pure]
    | some b => rfl

/-! ## The pass -/

/-- The negation of a simplified expression, where `again` simplifies the operand of a
double negation. -/
def negation (again : Expr → Folding Expr) : Expr → Folding Expr
  | .neg inner => again inner
  | e => return if e.isZero then .constant 0 else .neg e

/-- Simplify an expression, as far as calls are nested no more than `depth` deep. -/
def simplifyNested (mode : LikeTerms) : Nat → Expr → Folding Expr
  | 0, e => return e
  | depth + 1, .add l r => do
    let l' ← simplifyNested mode depth l
    let r' ← simplifyNested mode depth r
    sum mode l' r'
  | depth + 1, .sub l r => do
    let l' ← simplifyNested mode depth l
    let r' ← simplifyNested mode depth r
    if r'.isZero then return l'
    else if l'.isZero then negation (simplifyNested mode depth) r'
    else difference l' r'
  | depth + 1, .neg e => do
    let e' ← simplifyNested mode depth e
    negation (simplifyNested mode depth) e'
  | depth + 1, .mul l r => do
    let l' ← simplifyNested mode depth l
    let r' ← simplifyNested mode depth r
    product l' r'
  | depth + 1, .function params body => do
    let body' ← simplifyNested mode depth body
    return .function params body'
  | _ + 1, e => return e

/-- The pass.  Calls are nested no deeper than the expression has nodes. -/
def simplify (mode : LikeTerms) (e : Expr) : Folding Expr := simplifyNested mode e.nodeCount e

theorem run_negation {options : Options} {again : Expr → Folding Expr} {e : Expr}
    (h : ∀ inner, e = .neg inner →
      (again inner).run options.overflow = IntCalculus.simplify options inner) :
    (negation again e).run options.overflow = IntCalculus.negation options e := by
  cases e with
  | neg inner => exact h inner rfl
  | _ => rfl

/-- A call goes like one of the pass when the calls it starts do. -/
theorem run_simplifyNested_succ {options : Options} {depth : Nat} {e : Expr}
    (h : ∀ e', Calls options e' e →
      (simplifyNested options.likeTerms depth e').run options.overflow =
        IntCalculus.simplify options e') :
    (simplifyNested options.likeTerms (depth + 1) e).run options.overflow =
      IntCalculus.simplify options e := by
  have hoperand : ∀ operand ∈ e.operands,
      (simplifyNested options.likeTerms depth operand).run options.overflow =
        IntCalculus.simplify options operand := fun operand hmem => h operand (.operand hmem)
  cases e with
  | add l r =>
    rw [simplifyNested, run_bind, hoperand l List.mem_cons_self, run_bind,
      hoperand r (List.mem_cons_of_mem _ List.mem_cons_self), run_sum, simplify_add]
  | sub l r =>
    rw [simplifyNested, run_bind, hoperand l List.mem_cons_self, run_bind,
      hoperand r (List.mem_cons_of_mem _ List.mem_cons_self), simplify_sub]
    by_cases hr0 : (IntCalculus.simplify options r).isZero = true
    · rw [if_pos hr0, if_pos hr0, run_pure]
    rw [if_neg hr0, if_neg hr0]
    by_cases hl0 : (IntCalculus.simplify options l).isZero = true
    · rw [if_pos hl0, if_pos hl0]
      exact run_negation fun inner hinner =>
        h inner (.negatedSubtrahend (Expr.isZero_iff.mp hl0) hinner)
    · rw [if_neg hl0, if_neg hl0, run_difference]
  | neg e =>
    rw [simplifyNested, run_bind, hoperand e List.mem_cons_self, simplify_neg]
    exact run_negation fun inner hinner => h inner (.doubleNegation hinner)
  | mul l r =>
    rw [simplifyNested, run_bind, hoperand l List.mem_cons_self, run_bind,
      hoperand r (List.mem_cons_of_mem _ List.mem_cons_self), run_product, simplify_mul]
  | function params body =>
    rw [simplifyNested, run_bind, hoperand body List.mem_cons_self, simplify_function, run_pure]
  | _ => exact (simplify_of_isAtom options rfl).symm

theorem run_simplifyNested {options : Options} {depth : Nat} {e : Expr}
    (h : e.nodeCount ≤ depth) :
    (simplifyNested options.likeTerms depth e).run options.overflow =
      IntCalculus.simplify options e := by
  induction depth generalizing e with
  | zero => exact absurd e.nodeCount_pos (Nat.not_lt.mpr h)
  | succ depth ih =>
    refine run_simplifyNested_succ fun e' hcall => ih ?_
    exact Nat.le_of_lt_succ (Nat.lt_of_lt_of_le hcall.nodeCount_lt h)

/-- Under every policy the folding computation gives what the pass gives. -/
theorem run_simplify (options : Options) (e : Expr) :
    (simplify options.likeTerms e).run options.overflow = IntCalculus.simplify options e :=
  run_simplifyNested (Nat.le_refl _)

/-! ## Derivatives of higher order -/

/-- The derivative of the given order, with a pass after every step. -/
def deriveNth (mode : LikeTerms) (x : String) : Nat → Expr → Folding (Except Error Expr)
  | 0, e => return .ok e
  | order + 1, e =>
    match derive x e with
    | .ok d => do
      let d' ← simplify mode d
      deriveNth mode x order d'
    | .error err => return .error err

theorem run_deriveNth (options : Options) (x : String) (order : Nat) (e : Expr) :
    (deriveNth options.likeTerms x order e).run options.overflow =
      IntCalculus.deriveNth options x order e := by
  induction order generalizing e with
  | zero => rfl
  | succ order ih =>
    rw [deriveNth, IntCalculus.deriveNth, deriveSimplified]
    cases derive x e with
    | error err => rfl
    | ok d =>
      rw [run_bind, run_simplify]
      exact ih _

end Folding

/-- Where no fold of the passes under the checked policy leaves the range, a simplification
and a derivative of any order are the same under all policies. -/
theorem policies_agree (mode : LikeTerms) (policy : OverflowPolicy) :
    (∀ e, (Folding.simplify mode e).NoOverflow →
      simplify ⟨policy, mode⟩ e = simplify ⟨.checked, mode⟩ e) ∧
    ∀ x order e, (Folding.deriveNth mode x order e).NoOverflow →
      deriveNth ⟨policy, mode⟩ x order e = deriveNth ⟨.checked, mode⟩ x order e := by
  refine ⟨fun e h => ?_, fun x order e h => ?_⟩
  · rw [← Folding.run_simplify ⟨policy, mode⟩, ← Folding.run_simplify ⟨.checked, mode⟩]
    exact Folding.run_of_noOverflow h policy
  · rw [← Folding.run_deriveNth ⟨policy, mode⟩, ← Folding.run_deriveNth ⟨.checked, mode⟩]
    exact Folding.run_of_noOverflow h policy

/-- The sum `-(-(2147483646 * x + x)) + (y + 4)`. -/
def largeSum : Expr :=
  .add (.neg (.neg (.add (.mul (.constant 2147483646) (.var "x")) (.var "x"))))
    (.add (.var "y") (.constant 4))

/-- The product `x * (x * (357913941 * x))`. -/
def steepCube : Expr :=
  .mul (.var "x") (.mul (.var "x") (.mul (.constant 357913941) (.var "x")))

theorem policies_agree_largeSum :
    (Folding.simplify .extended largeSum).NoOverflow ∧
      (Folding.deriveNth .extended "x" 2 steepCube).NoOverflow ∧
      simplify ⟨.saturating, .extended⟩ largeSum = simplify ⟨.checked, .extended⟩ largeSum ∧
      deriveNth ⟨.saturating, .extended⟩ "x" 2 steepCube =
        deriveNth ⟨.checked, .extended⟩ "x" 2 steepCube := by
  have hsum : (Folding.simplify .extended largeSum).NoOverflow := by decide +kernel
  have hcube : (Folding.deriveNth .extended "x" 2 steepCube).NoOverflow := by decide +kernel
  obtain ⟨hsimplify, hderive⟩ := policies_agree .extended .saturating
  exact ⟨hsum, hcube, hsimplify largeSum hsum, hderive "x" 2 steepCube hcube⟩

end IntCalculus
