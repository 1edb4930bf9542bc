/-
Folding of two 32-bit constants into one, under an overflow policy.

The operators act exactly on `Int`.  A policy decides what becomes of an exact
result outside the 32-bit range: `checked` declines, `wrapping` reduces modulo
`2 ^ 32` and `saturating` clamps to the nearer end of the range.  The statement
the other files use is `fit_of_inRange`: on a result inside the range the three
policies agree, so they differ only where an overflow happens.
-/
namespace IntCalculus

/-- The exact integers a 32-bit constant can hold. -/
def InRange (n : Int) : Prop := -2147483648 ≤ n ∧ n ≤ 2147483647

instance (n : Int) : Decidable (InRange n) :=
  inferInstanceAs (Decidable (_ ∧ _))

theorem inRange_toInt (c : Int32) : InRange c.toInt := by
  have h := Int32.le_toInt c
  have h' := Int32.toInt_lt c
  exact ⟨by omega, by omega⟩

/-- What becomes of an exact result that no 32-bit constant holds. -/
inductive OverflowPolicy where
  /-- The operation is left as it is written. -/
  | checked
  /-- Two's complement wrap-around. -/
  | wrapping
  /-- The nearer end of the range. -/
  | saturating
  deriving DecidableEq, Repr, Inhabited

/-- The arithmetic operators.  Negation is written with `minus`. -/
inductive Operator where
  | plus
  | minus
  | times
  deriving DecidableEq, Repr

namespace Operator

def symbol : Operator → String
  | plus => "+"
  | minus => "-"
  | times => "*"

/-- The operator on unbounded integers. -/
def exact : Operator → Int → Int → Int
  | plus, a, b => a + b
  | minus, a, b => a - b
  | times, a, b => a * b

end Operator

namespace OverflowPolicy

/-- The constant that stands for the exact result `n`, or none when the policy
declines to fold. -/
def fit : OverflowPolicy → Int → Option Int32
  | checked, n => if InRange n then some (Int32.ofInt n) else none
  | wrapping, n => some (Int32.ofInt n)
  | saturating, n => some (Int32.ofInt (max (-2147483648) (min n 2147483647)))

def fold (policy : OverflowPolicy) (operator : Operator) (a b : Int32) : Option Int32 :=
  policy.fit (operator.exact a.toInt b.toInt)

/-- Inside the range the three policies agree. -/
theorem fit_of_inRange {n : Int} (h : InRange n) (policy : OverflowPolicy) :
    policy.fit n = some (Int32.ofInt n) := by
  cases policy with
  | checked => simp only [fit, h, if_true]
  | wrapping => rfl
  | saturating =>
    have hn : max (-2147483648) (min n 2147483647) = n := by
      obtain ⟨_, _⟩ := h
      omega
    simp only [fit, hn]

/-- A checked fold is exact whenever it happens. -/
theorem toInt_of_fit_checked {n : Int} {c : Int32} (h : checked.fit n = some c) :
    c.toInt = n := by
  by_cases hn : InRange n
  · simp only [fit, hn, if_true, Option.some.injEq] at h
    obtain ⟨hl, hr⟩ := hn
    rw [← h, Int32.toInt_ofInt_of_le (by omega) (by omega)]
  · simp only [fit, hn, if_false] at h
    cases h

/-- Only the checked policy declines, and only outside the range. -/
theorem fit_eq_none_iff {policy : OverflowPolicy} {n : Int} :
    policy.fit n = none ↔ policy = .checked ∧ ¬ InRange n := by
  cases policy with
  | checked => simp only [fit, ite_eq_right_iff, reduceCtorEq, imp_false, true_and]
  | wrapping => simp only [fit, reduceCtorEq, false_and]
  | saturating => simp only [fit, reduceCtorEq, false_and]

end OverflowPolicy

/-- How far the combination of like terms reaches inside a sum. -/
inductive LikeTerms where
  /-- The two direct operands of one addition. -/
  | pairwise
  /-- Every summand of a whole addition chain. -/
  | extended
  deriving DecidableEq, Repr, Inhabited

structure Options where
  overflow : OverflowPolicy := .checked
  likeTerms : LikeTerms := .pairwise
  deriving DecidableEq, Repr, Inhabited

end IntCalculus
