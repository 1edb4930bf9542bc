/-
Formal differentiation.

`derive` works on the arithmetic fragment by the sum, negation and product
rules; it looks at no environment and simplifies nothing.  Any other node has no
derivative, and the error names the kind of the first one in reading order.  A
derivative of higher order is taken either with a simplification after every
step, by `deriveNth`, or without any, by `deriveRawNth`.
-/
import IntCalculus.Error
import IntCalculus.Simplify

namespace IntCalculus

def derive (x : String) : Expr → Except Error Expr
  | .constant _ => .ok (.constant 0)
  | .var name => .ok (.constant (if name = x then 1 else 0))
  | .add l r => do
    let l' ← derive x l
    let r' ← derive x r
    .ok (.add l' r')
  | .sub l r => do
    let l' ← derive x l
    let r' ← derive x r
    .ok (.sub l' r')
  | .neg e => do
    let e' ← derive x e
    .ok (.neg e')
  | .mul u v => do
    let u' ← derive x u
    let v' ← derive x v
    .ok (.add (.mul u' v) (.mul u v'))
  | e => .error (.unsupportedDerivative e.kind)

def deriveSimplified (options : Options) (x : String) (e : Expr) : Except Error Expr :=
  (derive x e).map (simplify options)

/-- The derivative of the given order, simplified after every step.  Order 0 is
the expression itself. -/
def deriveNth (options : Options) (x : String) : Nat → Expr → Except Error Expr
  | 0, e => .ok e
  | order + 1, e => do deriveNth options x order (← deriveSimplified options x e)

/-- The derivative of the given order, never simplified. -/
def deriveRawNth (x : String) : Nat → Expr → Except Error Expr
  | 0, e => .ok e
  | order + 1, e => do deriveRawNth x order (← derive x e)

end IntCalculus
