/-
The calculus nodes, which ask for a derivative or for several.

What a node differentiates is its body: the body of a function value, the body
of a function that an environment binds to the variable it names, and otherwise
the subject itself.  The derivative is simplified with the options of the node,
or with the default ones.  A gradient is one derivative per variable, in the
order of its variables, and fails with the first of them that fails.
-/
import IntCalculus.Derive
import IntCalculus.Scope

namespace IntCalculus

/-- The variables of a run, each bound to a value. -/
abbrev Environment := ScopeStack Value

/-- `derive(subject by x)`. -/
structure Derivative where
  subject : Expr
  wrt : String
  options : Option Options := none

/-- `gradient(subject by [x, y])`. -/
structure Gradient where
  subject : Expr
  wrt : List String
  options : Option Options := none

namespace Derivative

def toExpr (d : Derivative) : Expr := .derivative d.subject d.wrt d.options

def effectiveOptions (d : Derivative) : Options := d.options.getD {}

/-- The expression that is differentiated, as seen without an environment. -/
def body (d : Derivative) : Expr :=
  match d.subject with
  | .function _ body => body
  | e => e

/-- The expression that is differentiated, as seen in an environment. -/
def bodyIn (env : Environment) (d : Derivative) : Expr :=
  match d.subject with
  | .function _ body => body
  | .var name =>
    match env.find? name with
    | some (.function _ body) => body
    | _ => .var name
  | e => e

/-- The simplified derivative, without an environment. -/
def symbolic (d : Derivative) : Except Error Expr :=
  deriveSimplified d.effectiveOptions d.wrt d.body

/-- The simplified derivative, with a function named by a variable resolved. -/
def symbolicIn (env : Environment) (d : Derivative) : Except Error Expr :=
  deriveSimplified d.effectiveOptions d.wrt (d.bodyIn env)

/-- The derivative as a function of the derivation variable. -/
def toFunction (env : Environment) (d : Derivative) : Except Error Value :=
  (d.symbolicIn env).map (.function [d.wrt])

end Derivative

namespace Gradient

def toExpr (g : Gradient) : Expr := .gradient g.subject g.wrt g.options

def effectiveOptions (g : Gradient) : Options := g.options.getD {}

def partials (g : Gradient) : List Derivative :=
  g.wrt.map fun x => ⟨g.subject, x, g.options⟩

def symbolic (g : Gradient) : Except Error (List Expr) :=
  g.partials.mapM Derivative.symbolic

def symbolicIn (env : Environment) (g : Gradient) : Except Error (List Expr) :=
  g.partials.mapM (Derivative.symbolicIn env)

end Gradient
end IntCalculus
