/-
The worked examples of the program.

Each example is a label and the result computed for it: a raw and a simplified
derivative, a derivative and a gradient at a point, and a derivative whose sum
has like terms.
-/
import IntCalculus.Command.Input
import IntCalculus.Command.Output
import IntCalculus.Evaluate

namespace IntCalculus
namespace Command

structure Example where
  label : String
  result : String

/-- `2 * (x * x) + x + 1`. -/
def Example.polynomial : Expr :=
  .add (.add (.mul (.constant 2) (.mul (.var "x") (.var "x"))) (.var "x")) (.constant 1)

/-- `x * x + 3`. -/
def Example.square : Expr := .add (.mul (.var "x") (.var "x")) (.constant 3)

/-- `x * x + x * x + 3`. -/
def Example.doubled : Expr :=
  .add (.add (.mul (.var "x") (.var "x")) (.mul (.var "x") (.var "x"))) (.constant 3)

def examples (options : Options) : Except Error (List Example) := do
  let raw ← derive "x" Example.polynomial
  let env ← ScopeStack.empty.declare "x" (Value.int 2)
  let derivative : Derivative := ⟨Example.square, "x", some options⟩
  let slope ← derivative.evaluate env
  let gradient : Gradient := ⟨Example.square, ["x"], some options⟩
  let slopes ← gradient.evaluate env
  let doubled ← derive "x" Example.doubled
  .ok [
    ⟨"d/dx " ++ Example.polynomial.text ++ " (raw)", raw.text⟩,
    ⟨"d/dx " ++ Example.polynomial.text, (simplify options raw).text⟩,
    ⟨derivative.toExpr.text ++ " at x = 2", slope.text⟩,
    ⟨gradient.toExpr.text ++ " at x = 2", slopes.text⟩,
    ⟨"d/dx " ++ Example.doubled.text, (simplify options doubled).text⟩]

def printedExamples (format : OutputFormat) (examples : List Example) : String :=
  match format with
  | .text => String.join (examples.map fun line => line.label ++ " = " ++ line.result ++ "\n")
  | .json =>
    (Json.array (examples.map fun line =>
      .object [("label", .string line.label), ("result", .string line.result)])).pretty ++ "\n"

end Command
end IntCalculus
