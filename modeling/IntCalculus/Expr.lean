/-
Integer expressions and the values they evaluate to.

An expression of the arithmetic fragment is built from constants, variables,
addition, subtraction, negation and multiplication.  The other kinds stand
beside the fragment: literals of other types, function values, vectors, and the
two calculus nodes, which ask for a derivative or a gradient of an expression.
Expressions and values are defined together, since a vector literal holds values
and a function value holds an expression.
-/
import IntCalculus.Overflow
import IntCalculus.Ty

namespace IntCalculus

mutual
inductive Expr where
  | constant (value : Int32)
  | bool (value : Bool)
  | str (content : String)
  | var (name : String)
  | add (left right : Expr)
  | sub (left right : Expr)
  | neg (operand : Expr)
  | mul (left right : Expr)
  | function (params : List String) (body : Expr)
  | vector (elements : List Value)
  /-- The derivative of an expression by a variable.  Without options of its own
  it is taken with the default ones. -/
  | derivative (subject : Expr) (wrt : String) (options : Option Options)
  /-- The partial derivatives of an expression by several variables, in order. -/
  | gradient (subject : Expr) (wrt : List String) (options : Option Options)

inductive Value where
  | int (value : Int32)
  | bool (value : Bool)
  | string (content : String)
  /-- Named parameters and a body, without a captured environment. -/
  | function (params : List String) (body : Expr)
  | vector (elements : List Value)
end

instance : Inhabited Expr := ⟨.constant 0⟩
instance : Inhabited Value := ⟨.int 0⟩

/-! ## Kinds -/

inductive Kind where
  | constant
  | boolean
  | string
  | variableName
  | addition
  | subtraction
  | negation
  | multiplication
  | functionValue
  | vector
  | derivative
  | gradient
  deriving DecidableEq, Repr

def Kind.name : Kind → String
  | constant => "constant"
  | boolean => "boolean"
  | string => "string"
  | variableName => "variable"
  | addition => "addition"
  | subtraction => "subtraction"
  | negation => "negation"
  | multiplication => "multiplication"
  | functionValue => "function value"
  | vector => "vector"
  | derivative => "derivative"
  | gradient => "gradient"

namespace Expr

def kind : Expr → Kind
  | constant _ => .constant
  | bool _ => .boolean
  | str _ => .string
  | var _ => .variableName
  | add _ _ => .addition
  | sub _ _ => .subtraction
  | neg _ => .negation
  | mul _ _ => .multiplication
  | function _ _ => .functionValue
  | vector _ => .vector
  | derivative _ _ _ => .derivative
  | gradient _ _ _ => .gradient

def constant? : Expr → Option Int32
  | constant c => some c
  | _ => none

@[simp] theorem constant?_constant (c : Int32) : (constant c).constant? = some c := rfl

theorem constant?_eq_some {e : Expr} {c : Int32} : e.constant? = some c ↔ e = constant c := by
  cases e <;> simp [constant?]

def isZero (e : Expr) : Bool := e.constant? == some 0

def isOne (e : Expr) : Bool := e.constant? == some 1

theorem isZero_iff {e : Expr} : e.isZero = true ↔ e = constant 0 := by
  simp [isZero, constant?_eq_some]

theorem isOne_iff {e : Expr} : e.isOne = true ↔ e = constant 1 := by
  simp [isOne, constant?_eq_some]

/-! ## Size -/

/-- The number of nodes of the tree, the subjects of calculus nodes included.
The values of a vector literal are not nodes. -/
def nodeCount : Expr → Nat
  | constant _ | bool _ | str _ | var _ | vector _ => 1
  | add l r | sub l r | mul l r => 1 + l.nodeCount + r.nodeCount
  | neg e => 1 + e.nodeCount
  | function _ body => 1 + body.nodeCount
  | derivative f _ _ => 1 + f.nodeCount
  | gradient f _ _ => 1 + f.nodeCount

theorem nodeCount_pos (e : Expr) : 0 < e.nodeCount := by
  cases e <;> simp only [nodeCount] <;> omega

/-! ## Free variables -/

/-- The names an expression refers to and no enclosing function value binds, in
the order they are met and as often as they are met.  The variable a calculus
node differentiates by is no reference. -/
def freeNames : Expr → List String
  | var name => [name]
  | add l r | sub l r | mul l r => l.freeNames ++ r.freeNames
  | neg e => e.freeNames
  | function params body => body.freeNames.filter (· ∉ params)
  | derivative f _ _ => f.freeNames
  | gradient f _ _ => f.freeNames
  | constant _ | bool _ | str _ | vector _ => []

/-- The free names, each once, in code point order. -/
def freeVars (e : Expr) : List String :=
  e.freeNames.eraseDups.mergeSort (· ≤ ·)

theorem mem_freeVars {e : Expr} {name : String} :
    name ∈ e.freeVars ↔ name ∈ e.freeNames := by
  simp [freeVars]

/-! ## Options of calculus nodes -/

/-- Give every calculus node without options the ones supplied, nodes nested in
other nodes included.  The values of vector literals are left alone. -/
def withDefaultOptions (options : Options) : Expr → Expr
  | add l r => add (l.withDefaultOptions options) (r.withDefaultOptions options)
  | sub l r => sub (l.withDefaultOptions options) (r.withDefaultOptions options)
  | mul l r => mul (l.withDefaultOptions options) (r.withDefaultOptions options)
  | neg e => neg (e.withDefaultOptions options)
  | function params body => function params (body.withDefaultOptions options)
  | derivative f x own => derivative (f.withDefaultOptions options) x (own <|> some options)
  | gradient f xs own => gradient (f.withDefaultOptions options) xs (own <|> some options)
  | constant c => constant c
  | bool b => bool b
  | str s => str s
  | var name => var name
  | vector elements => vector elements

/-! ## Equality

A simplification reports whether it changed anything, which compares two
trees. -/

mutual
def same : Expr → Expr → Bool
  | constant a, constant b => a == b
  | bool a, bool b => a == b
  | str a, str b => a == b
  | var a, var b => a == b
  | add a b, add c d => same a c && same b d
  | sub a b, sub c d => same a c && same b d
  | neg a, neg b => same a b
  | mul a b, mul c d => same a c && same b d
  | function ps a, function qs b => ps == qs && same a b
  | vector vs, vector ws => sameElements vs ws
  | derivative f x o, derivative g y p => same f g && x == y && o == p
  | gradient f xs o, gradient g ys p => same f g && xs == ys && o == p
  | _, _ => false

def sameValue : Value → Value → Bool
  | .int a, .int b => a == b
  | .bool a, .bool b => a == b
  | .string a, .string b => a == b
  | .function ps a, .function qs b => ps == qs && same a b
  | .vector vs, .vector ws => sameElements vs ws
  | _, _ => false

def sameElements : List Value → List Value → Bool
  | [], [] => true
  | v :: vs, w :: ws => sameValue v w && sameElements vs ws
  | _, _ => false
end

mutual
theorem same_iff (e f : Expr) : same e f = true ↔ e = f := by
  cases e with
  | add a b => cases f <;> simp [same, same_iff a, same_iff b]
  | sub a b => cases f <;> simp [same, same_iff a, same_iff b]
  | mul a b => cases f <;> simp [same, same_iff a, same_iff b]
  | neg a => cases f <;> simp [same, same_iff a]
  | function ps a => cases f <;> simp [same, same_iff a]
  | vector vs => cases f <;> simp [same, sameElements_iff vs]
  | derivative a x o => cases f <;> simp [same, same_iff a, and_assoc]
  | gradient a xs o => cases f <;> simp [same, same_iff a, and_assoc]
  | _ => cases f <;> simp [same]

theorem sameValue_iff (v w : Value) : sameValue v w = true ↔ v = w := by
  cases v with
  | function ps a => cases w <;> simp [sameValue, same_iff a]
  | vector vs => cases w <;> simp [sameValue, sameElements_iff vs]
  | _ => cases w <;> simp [sameValue]

theorem sameElements_iff (vs ws : List Value) : sameElements vs ws = true ↔ vs = ws := by
  cases vs with
  | nil => cases ws <;> simp [sameElements]
  | cons v vs =>
    cases ws with
    | nil => simp [sameElements]
    | cons w ws => simp [sameElements, sameValue_iff v w, sameElements_iff vs ws]
end

instance : DecidableEq Expr := fun e f => decidable_of_iff _ (same_iff e f)
instance : DecidableEq Value := fun v w => decidable_of_iff _ (sameValue_iff v w)

end Expr

/-! ## Values -/

namespace Value

def typeOf : Value → Ty
  | int _ => .int
  | bool _ => .bool
  | string _ => .string
  | function params _ => .function (params.map fun _ => .int) .unknown
  | vector _ => .vector

def int? : Value → Option Int32
  | int n => some n
  | _ => none

/-- Whether the value may take the place of a variable in a reduced tree.
Functions and vectors stay behind their names. -/
def isScalar : Value → Bool
  | int _ | bool _ | string _ => true
  | function _ _ | vector _ => false

def toExpr : Value → Expr
  | int n => .constant n
  | bool b => .bool b
  | string s => .str s
  | function params body => .function params body
  | vector elements => .vector elements

end Value
end IntCalculus
