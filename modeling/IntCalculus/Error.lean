/-
What can go wrong when an expression is evaluated, checked or differentiated.

An error holds its cause; `Error.message` gives its wording.  The two errors
about names belong to the environment, and a best-effort reduction forgives
those and no others.
-/
import IntCalculus.Render

namespace IntCalculus

inductive Error where
  | undeclared (name : String)
  | alreadyDeclared (name : String)
  /-- A node of this kind has no derivative. -/
  | unsupportedDerivative (kind : Kind)
  | nonIntegerOperand (operator : Operator) (found : Ty)
  /-- The result of evaluating the expression with this text leaves the 32-bit
  range. -/
  | overflow (text : String)
  deriving DecidableEq

namespace Error

def message : Error → String
  | undeclared name => String.join ["undeclared variable: ", name]
  | alreadyDeclared name => String.join ["variable already declared in this scope: ", name]
  | unsupportedDerivative kind =>
    String.join ["derivative not defined for ", kind.name, " expressions"]
  | nonIntegerOperand operator found =>
    String.join ["operator `", operator.symbol, "` expects integer operands, found ", found.text]
  | overflow text => String.join ["integer overflow evaluating ", text]

/-- Whether the error is about the names an environment binds. -/
def isEnvironment : Error → Bool
  | undeclared _ | alreadyDeclared _ => true
  | _ => false

end Error
end IntCalculus
