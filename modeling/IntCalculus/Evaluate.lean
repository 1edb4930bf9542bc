/-
Evaluation with checked 32-bit arithmetic.

Operands are evaluated from left to right, and each has to be an integer before
the next is looked at.  A result outside the 32-bit range is an error that
carries the text of the node.  A calculus node is differentiated first and the
derivative is evaluated in its place.

The recursion is on the tree, with the meaning of calculus nodes given from
outside.  That is enough, because a derivative has no calculus nodes:
`evaluateWith_congr` says that on the arithmetic fragment the outside meaning is
never asked for.
-/
import IntCalculus.Calculus

namespace IntCalculus

/-- The integer an arithmetic operator was given, or the type it found instead. -/
def Value.operand (operator : Operator) : Value → Except Error Int32
  | .int n => .ok n
  | v => .error (.nonIntegerOperand operator v.typeOf)

/-- The exact result `n` of evaluating a node, if it is in range. -/
def Expr.checkedResult (node : Expr) (n : Int) : Except Error Value :=
  match OverflowPolicy.checked.fit n with
  | some c => .ok (.int c)
  | none => .error (.overflow node.text)

/-- Apply an operator to two evaluated operands of a node. -/
def Expr.apply (node : Expr) (operator : Operator) (left right : Except Error Value) :
    Except Error Value := do
  let a ← (← left).operand operator
  let b ← (← right).operand operator
  node.checkedResult (operator.exact a.toInt b.toInt)

/-- Evaluate an expression, given what its calculus nodes evaluate to. -/
def Expr.evaluateWith (calculus : Expr → Except Error Value) (env : Environment) :
    Expr → Except Error Value
  | .constant c => .ok (.int c)
  | .bool b => .ok (.bool b)
  | .str s => .ok (.string s)
  | .var name => env.lookup name
  | .add l r => (Expr.add l r).apply .plus (l.evaluateWith calculus env)
      (r.evaluateWith calculus env)
  | .sub l r => (Expr.sub l r).apply .minus (l.evaluateWith calculus env)
      (r.evaluateWith calculus env)
  | .mul l r => (Expr.mul l r).apply .times (l.evaluateWith calculus env)
      (r.evaluateWith calculus env)
  | .neg e => do
    let a ← (← e.evaluateWith calculus env).operand .minus
    (Expr.neg e).checkedResult (-a.toInt)
  | .function params body => .ok (.function params body)
  | .vector elements => .ok (.vector elements)
  | .derivative f x options => calculus (.derivative f x options)
  | .gradient f xs options => calculus (.gradient f xs options)

/-- The value of a derivative at the point an environment gives. -/
def Derivative.evaluate (env : Environment) (d : Derivative) : Except Error Value := do
  (← d.symbolicIn env).evaluateWith (fun e => .error (.unsupportedDerivative e.kind)) env

/-- The vector of the partial derivatives at the point an environment gives. -/
def Gradient.evaluate (env : Environment) (g : Gradient) : Except Error Value :=
  (g.partials.mapM (Derivative.evaluate env)).map .vector

def Expr.evaluateCalculus (env : Environment) : Expr → Except Error Value
  | .derivative f x options => (Derivative.mk f x options).evaluate env
  | .gradient f xs options => (Gradient.mk f xs options).evaluate env
  | e => .error (.unsupportedDerivative e.kind)

def Expr.evaluate (env : Environment) (e : Expr) : Except Error Value :=
  e.evaluateWith (Expr.evaluateCalculus env) env

/-! ## The arithmetic fragment -/

/-- Constants, variables, sums, differences, negations and products of such. -/
def Expr.isArithmetic : Expr → Bool
  | .constant _ | .var _ => true
  | .add l r | .sub l r | .mul l r => l.isArithmetic && r.isArithmetic
  | .neg e => e.isArithmetic
  | _ => false

/-- On the arithmetic fragment the meaning of calculus nodes does not matter. -/
theorem Expr.evaluateWith_congr {e : Expr} (h : e.isArithmetic = true) (env : Environment)
    (calculus calculus' : Expr → Except Error Value) :
    e.evaluateWith calculus env = e.evaluateWith calculus' env := by
  induction e using Expr.isArithmetic.induct with
  | case1 c => rfl
  | case2 x => rfl
  | case3 l r ihl ihr | case4 l r ihl ihr | case5 l r ihl ihr =>
    simp only [isArithmetic, Bool.and_eq_true] at h
    simp only [evaluateWith, ihl h.1, ihr h.2]
  | case6 e ih => simp only [evaluateWith, ih h]
  | case7 e h1 h2 h3 h4 h5 h6 =>
    cases e <;> simp_all [isArithmetic]

end IntCalculus
