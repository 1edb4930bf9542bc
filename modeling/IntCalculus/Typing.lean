/-
Type checking and type inference.

Both run over scopes of declared types and can fail on an undeclared name or a
repeated parameter.  A function value opens a scope in which its parameters are
integers; the scope is closed again whatever happens inside.  Arithmetic checks
when its operands check and takes the type of its left operand.
-/
import IntCalculus.Scope

namespace IntCalculus

/-- A computation over scopes of declared types that can fail.  What it did to
the scopes stays visible when it fails. -/
abbrev Checker (β : Type) := ExceptT Error (StateM (ScopeStack Ty)) β

namespace Checker

def lookup (name : String) : Checker Ty := do
  match (← get).lookup name with
  | .ok t => pure t
  | .error err => throw err

def declare (name : String) (t : Ty) : Checker Unit := do
  match (← get).declare name t with
  | .ok scopes => set scopes
  | .error err => throw err

/-- Declare parameters as integers. -/
def declareParams : List String → Checker Unit
  | [] => pure ()
  | p :: rest => do
    declare p .int
    declareParams rest

def inScope {β : Type} (action : Checker β) : Checker β :=
  ExceptT.mk (ScopeStack.withScope action.run)

end Checker

namespace Expr

open Checker

def infer : Expr → Checker Ty
  | constant _ => pure .int
  | bool _ => pure .bool
  | str _ => pure .string
  | var name => lookup name
  | add l _ | sub l _ | mul l _ => infer l
  | neg e => infer e
  | function params body => do
    let returns ← inScope do
      declareParams params
      infer body
    pure (.function (params.map fun _ => .int) returns)
  | vector _ => pure .vector
  | derivative _ _ _ => pure .intToInt
  | gradient _ _ _ => pure .vector

/-- Whether the elements of a vector are all of one type. -/
def uniform (elements : List Value) : Bool :=
  match elements.map Value.typeOf with
  | [] => true
  | first :: rest => rest.all (· == first)

/-- Whether an expression is well typed: a vector is when its elements are all of
one type, a derivative when its subject yields an integer, a gradient when its
subject is a vector, and every other node when its parts are. -/
def check : Expr → Checker Bool
  | constant _ | bool _ | str _ => pure true
  | var name => do
    let _ ← lookup name
    pure true
  | add l r | sub l r | mul l r => do
    let left ← check l
    let right ← check r
    pure (left && right)
  | neg e => check e
  | function params body => inScope do
    declareParams params
    check body
  | vector elements => pure (uniform elements)
  | derivative f _ _ => do
    if ← check f then
      let t ← infer f
      pure t.yieldsInt
    else
      pure false
  | gradient f _ _ => do
    if ← check f then
      let t ← infer f
      pure t.isVector
    else
      pure false

end Expr
end IntCalculus
