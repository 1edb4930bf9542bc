/-
Best-effort reduction to normal form.

A reduction substitutes the scalars an environment binds, folds constants whose
exact result is in range, and evaluates derivative nodes.  It looks only at
nodes reached through arithmetic; function values, vectors and gradients stay as
they are.  When a name is missing, the whole reduction is given up and the input
is returned; only an error that is not about names escapes.  A derivative node
whose evaluation misses a name stays in place, and the rest is still reduced.
-/
import IntCalculus.Evaluate

namespace IntCalculus

/-- Evaluate a derivative; a missing name leaves the node as it is. -/
def Derivative.reduce (env : Environment) (d : Derivative) : Except Error Expr :=
  match d.evaluate env with
  | .ok value => .ok value.toExpr
  | .error err => if err.isEnvironment then .ok d.toExpr else .error err

/-- Rebuild a node from two reduced operands, folded when they are constants
with a result in range. -/
def Expr.foldOr (node : Expr → Expr → Expr) (operator : Operator) (l r : Expr) : Expr :=
  match l.constant?, r.constant? with
  | some a, some b => ((OverflowPolicy.checked.fold operator a b).map .constant).getD (node l r)
  | _, _ => node l r

/-- The negation of a reduced operand, folded when it is a constant other than
the least one. -/
def Expr.foldNeg (e : Expr) : Expr :=
  match e.constant? with
  | some c => ((OverflowPolicy.checked.fit (-c.toInt)).map .constant).getD (.neg e)
  | none => .neg e

/-- Reduce an expression; a missing name is an error. -/
def Expr.tryReduce (env : Environment) : Expr → Except Error Expr
  | .var name => do
    let value ← env.lookup name
    .ok (if value.isScalar then value.toExpr else .var name)
  | .add l r => do
    let l' ← l.tryReduce env
    let r' ← r.tryReduce env
    .ok (foldOr .add .plus l' r')
  | .sub l r => do
    let l' ← l.tryReduce env
    let r' ← r.tryReduce env
    .ok (foldOr .sub .minus l' r')
  | .mul l r => do
    let l' ← l.tryReduce env
    let r' ← r.tryReduce env
    .ok (foldOr .mul .times l' r')
  | .neg e => do
    let e' ← e.tryReduce env
    .ok e'.foldNeg
  | .derivative f x options => (Derivative.mk f x options).reduce env
  | e => .ok e

/-- Reduce an expression; a missing name leaves all of it as it is. -/
def Expr.reduce (env : Environment) (e : Expr) : Except Error Expr :=
  match e.tryReduce env with
  | .ok reduced => .ok reduced
  | .error err => if err.isEnvironment then .ok e else .error err

end IntCalculus
