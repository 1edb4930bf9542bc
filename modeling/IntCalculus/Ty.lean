/-
The static types and their texts.

A type's text is what a type check reports: `int`, `bool`, `string`, `vector`,
`unknown`, and `(int, int) -> int` for a function, with the result written
without parentheses.
-/
namespace IntCalculus

inductive Ty where
  | int
  | bool
  | string
  | function (params : List Ty) (returns : Ty)
  /-- An ordered aggregate, such as a gradient. -/
  | vector
  /-- The result of a stored function, which nothing has inferred. -/
  | unknown

namespace Ty

/-- The type of a derivative: a function of the one derivation variable. -/
def intToInt : Ty := .function [.int] .int

def isInt : Ty → Bool
  | .int => true
  | _ => false

def isVector : Ty → Bool
  | .vector => true
  | _ => false

/-- Whether the type is `int` or a function whose result is `int`. -/
def yieldsInt : Ty → Bool
  | .int => true
  | .function _ returns => returns.isInt
  | _ => false

/-! ## Text -/

mutual
def text : Ty → String
  | .int => "int"
  | .bool => "bool"
  | .string => "string"
  | .function params returns => "(" ++ paramsText params ++ ") -> " ++ text returns
  | .vector => "vector"
  | .unknown => "unknown"

def paramsText : List Ty → String
  | [] => ""
  | [t] => text t
  | t :: u :: rest => text t ++ ", " ++ paramsText (u :: rest)
end

/-! ## Equality

The check of a vector literal compares the types of its elements. -/

mutual
def same : Ty → Ty → Bool
  | .int, .int => true
  | .bool, .bool => true
  | .string, .string => true
  | .function ps r, .function qs s => sameAll ps qs && same r s
  | .vector, .vector => true
  | .unknown, .unknown => true
  | _, _ => false

def sameAll : List Ty → List Ty → Bool
  | [], [] => true
  | t :: ts, u :: us => same t u && sameAll ts us
  | _, _ => false
end

mutual
theorem same_iff (t u : Ty) : same t u = true ↔ t = u := by
  cases t with
  | function ps r =>
    cases u with
    | function qs s =>
      simp only [same, Bool.and_eq_true, sameAll_iff ps qs, same_iff r s, function.injEq]
    | _ => simp [same]
  | _ => cases u <;> simp [same]

theorem sameAll_iff (ts us : List Ty) : sameAll ts us = true ↔ ts = us := by
  cases ts with
  | nil => cases us <;> simp [sameAll]
  | cons t ts =>
    cases us with
    | nil => simp [sameAll]
    | cons u us =>
      simp only [sameAll, Bool.and_eq_true, same_iff t u, sameAll_iff ts us, List.cons.injEq]
end

instance : DecidableEq Ty := fun t u => decidable_of_iff _ (same_iff t u)

end Ty
end IntCalculus
