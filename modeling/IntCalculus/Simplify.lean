/-
Simplification of expressions.

One pass from the leaves up: operands are simplified first, then the rule of the
node fires.  There is one place where a result is simplified again: a negation
whose operand has become a negation is replaced by the simplified inner operand,
and `0 - e` counts as such a negation.  That second run is on a part of a result
and not on a part of the input, so the recursion is not on the tree.  It ends
because no rule makes a tree larger, and the pass carries that bound with it:
`simplifyWithin` returns an expression together with the proof that it has no
more nodes than its input.

The equations `simplify_add` to `simplify_gradient` say what the pass does at
each kind of node, and the other files use those.
-/
import IntCalculus.Simplify.Rules

namespace IntCalculus

/-! ## Results no larger than their input -/

/-- An expression with at most as many nodes as `e`. -/
abbrev Within (e : Expr) := { r : Expr // r.nodeCount ≤ e.nodeCount }

namespace Within

theorem nodeCount_add_le {l r : Expr} (l' : Within l) (r' : Within r) :
    1 + l'.1.nodeCount + r'.1.nodeCount ≤ 1 + l.nodeCount + r.nodeCount := by
  have := l'.2
  have := r'.2
  omega

theorem nodeCount_lt_of_eq_neg {e inner : Expr} {e' : Within e} (h : e'.1 = .neg inner) :
    inner.nodeCount < e.nodeCount := by
  have hle := e'.2
  rw [h] at hle
  simp only [Expr.nodeCount] at hle
  omega

def self (e : Expr) : Within e := ⟨e, Nat.le_refl _⟩

def sum (options : Options) {l r : Expr} (l' : Within l) (r' : Within r) : Within (.add l r) :=
  ⟨IntCalculus.sum options l'.1 r'.1,
    Nat.le_trans (nodeCount_sum_le options l'.1 r'.1) (nodeCount_add_le l' r')⟩

def difference (policy : OverflowPolicy) {l r : Expr} (l' : Within l) (r' : Within r) :
    Within (.sub l r) :=
  ⟨IntCalculus.difference policy l'.1 r'.1,
    Nat.le_trans (nodeCount_difference_le policy l'.1 r'.1) (nodeCount_add_le l' r')⟩

def product (policy : OverflowPolicy) {l r : Expr} (l' : Within l) (r' : Within r) :
    Within (.mul l r) :=
  ⟨IntCalculus.product policy l'.1 r'.1,
    Nat.le_trans (nodeCount_product_le policy l'.1 r'.1) (nodeCount_add_le l' r')⟩

/-- The minuend alone, when the subtrahend is 0. -/
def minuend {l : Expr} (r : Expr) (l' : Within l) : Within (.sub l r) :=
  ⟨l'.1, Nat.le_trans l'.2 (Nat.le_trans (Nat.le_add_left _ 1) (Nat.le_add_right _ _))⟩

/-- The negated subtrahend, when the minuend is 0. -/
def subtrahend (l : Expr) {r : Expr} (negated : Within (.neg r)) : Within (.sub l r) :=
  ⟨negated.1, Nat.le_trans negated.2 (Nat.add_le_add_right (Nat.le_add_right 1 _) _)⟩

/-- The negation of a result, where `again` simplifies smaller expressions. -/
def negation {e : Expr} (again : (inner : Expr) → inner.nodeCount < e.nodeCount → Within inner)
    (e' : Within e) : Within (.neg e) :=
  match h : e'.1 with
  | .neg inner =>
    let simplified := again inner (nodeCount_lt_of_eq_neg h)
    ⟨simplified.1, Nat.le_trans simplified.2
      (Nat.le_trans (Nat.le_of_lt (nodeCount_lt_of_eq_neg h)) (Nat.le_add_left _ 1))⟩
  | _ =>
    if e'.1.isZero then ⟨.constant 0, Nat.le_add_right 1 _⟩
    else ⟨.neg e'.1, Nat.add_le_add_left e'.2 1⟩

def function (params : List String) {body : Expr} (body' : Within body) :
    Within (.function params body) :=
  ⟨.function params body'.1, Nat.add_le_add_left body'.2 1⟩

end Within

/-! ## The pass -/

/-- Simplify an expression, into one with no more nodes. -/
@[simp]
def simplifyWithin (options : Options) : (e : Expr) → Within e
  | .add l r => Within.sum options (simplifyWithin options l) (simplifyWithin options r)
  | .sub l r =>
    let l' := simplifyWithin options l
    let r' := simplifyWithin options r
    if r'.1.isZero then Within.minuend r l'
    else if l'.1.isZero then
      Within.subtrahend l (Within.negation (fun inner _ => simplifyWithin options inner) r')
    else Within.difference options.overflow l' r'
  | .neg e =>
    Within.negation (fun inner _ => simplifyWithin options inner) (simplifyWithin options e)
  | .mul l r =>
    Within.product options.overflow (simplifyWithin options l) (simplifyWithin options r)
  | .function params body => Within.function params (simplifyWithin options body)
  | .constant c => Within.self (.constant c)
  | .bool b => Within.self (.bool b)
  | .str s => Within.self (.str s)
  | .var x => Within.self (.var x)
  | .vector elements => Within.self (.vector elements)
  | .derivative f x own => Within.self (.derivative f x own)
  | .gradient f xs own => Within.self (.gradient f xs own)
termination_by e => e.nodeCount
decreasing_by all_goals simp only [Expr.nodeCount]; omega

def simplify (options : Options) (e : Expr) : Expr := (simplifyWithin options e).1

theorem nodeCount_simplify_le (options : Options) (e : Expr) :
    (simplify options e).nodeCount ≤ e.nodeCount := (simplifyWithin options e).2

/-- The negation of a simplified expression: the constant 0 stays, a double
negation is undone and its operand simplified again, and any other operand,
another constant included, is negated as it is. -/
def negation (options : Options) : Expr → Expr
  | .neg inner => simplify options inner
  | e => if e.isZero then .constant 0 else .neg e

/-! ## The pass at each kind of node -/

theorem val_negation (options : Options) {e : Expr} (e' : Within e) :
    (Within.negation (fun inner _ => simplifyWithin options inner) e').1 =
      negation options e'.1 := by
  obtain ⟨e', h⟩ := e'
  cases e' with
  | neg inner => rfl
  | constant c =>
    simp only [Within.negation, negation]
    split <;> rfl
  | _ => rfl

theorem simplify_add (options : Options) (l r : Expr) :
    simplify options (.add l r) = sum options (simplify options l) (simplify options r) := by
  simp only [simplify, simplifyWithin, Within.sum]

theorem simplify_sub (options : Options) (l r : Expr) :
    simplify options (.sub l r) =
      if (simplify options r).isZero then simplify options l
      else if (simplify options l).isZero then negation options (simplify options r)
      else difference options.overflow (simplify options l) (simplify options r) := by
  simp only [simplify, simplifyWithin]
  by_cases hr : (simplifyWithin options r).1.isZero = true
  · simp only [hr, if_true, Within.minuend]
  · by_cases hl : (simplifyWithin options l).1.isZero = true
    · simp only [hr, hl, if_true, if_false, Bool.false_eq_true]
      exact val_negation options _
    · simp only [hr, hl, if_false, Bool.false_eq_true, Within.difference]

theorem simplify_neg (options : Options) (e : Expr) :
    simplify options (.neg e) = negation options (simplify options e) := by
  simp only [simplify, simplifyWithin]
  exact val_negation options _

theorem simplify_mul (options : Options) (l r : Expr) :
    simplify options (.mul l r) =
      product options.overflow (simplify options l) (simplify options r) := by
  simp only [simplify, simplifyWithin, Within.product]

theorem simplify_function (options : Options) (params : List String) (body : Expr) :
    simplify options (.function params body) = .function params (simplify options body) := by
  simp only [simplify, simplifyWithin, Within.function]

theorem simplify_constant (options : Options) (c : Int32) :
    simplify options (.constant c) = .constant c := by
  simp only [simplify, simplifyWithin, Within.self]

theorem simplify_bool (options : Options) (b : Bool) :
    simplify options (.bool b) = .bool b := by
  simp only [simplify, simplifyWithin, Within.self]

theorem simplify_str (options : Options) (s : String) :
    simplify options (.str s) = .str s := by
  simp only [simplify, simplifyWithin, Within.self]

theorem simplify_var (options : Options) (x : String) :
    simplify options (.var x) = .var x := by
  simp only [simplify, simplifyWithin, Within.self]

theorem simplify_vector (options : Options) (elements : List Value) :
    simplify options (.vector elements) = .vector elements := by
  simp only [simplify, simplifyWithin, Within.self]

theorem simplify_derivative (options : Options) (f : Expr) (x : String) (own : Option Options) :
    simplify options (.derivative f x own) = .derivative f x own := by
  simp only [simplify, simplifyWithin, Within.self]

theorem simplify_gradient (options : Options) (f : Expr) (xs : List String)
    (own : Option Options) :
    simplify options (.gradient f xs own) = .gradient f xs own := by
  simp only [simplify, simplifyWithin, Within.self]

/-! ## Reports -/

structure SimplifyReport where
  initialSize : Nat
  finalSize : Nat
  changed : Bool
  deriving DecidableEq, Repr

def simplifyWithReport (options : Options) (e : Expr) : Expr × SimplifyReport :=
  let result := simplify options e
  (result, ⟨e.nodeCount, result.nodeCount, !(result == e)⟩)

end IntCalculus
