/-
Nested scopes of declared names.

A scope stack always has a bottom scope, so a declaration always has a place to
land: it goes into the innermost scope, and fails only when that scope declares
the name already.  A lookup walks from the innermost scope outwards.  Popping
the bottom scope does nothing.  `withScope` runs an action inside a fresh scope
and closes every scope the action left open, whether the action succeeded or
not; `depth_shrinkTo` says that closing never goes below the bottom scope.
-/
import IntCalculus.Error

namespace IntCalculus

/-- The declarations of one scope, the latest first. -/
abbrev Scope (α : Type) := List (String × α)

/-- Scopes nested in a bottom scope, the innermost first. -/
structure ScopeStack (α : Type) where
  inner : List (Scope α)
  bottom : Scope α
  deriving DecidableEq

namespace ScopeStack

variable {α : Type}

def empty : ScopeStack α := ⟨[], []⟩

/-- The number of scopes, the bottom one included. -/
def depth (s : ScopeStack α) : Nat := s.inner.length + 1

def scopes (s : ScopeStack α) : List (Scope α) := s.inner ++ [s.bottom]

def push (s : ScopeStack α) : ScopeStack α := { s with inner := [] :: s.inner }

/-- Close the innermost scope, unless it is the bottom one. -/
def pop (s : ScopeStack α) : ScopeStack α := { s with inner := s.inner.tail }

/-- Close scopes until at most `depth` of them are open. -/
def shrinkTo (s : ScopeStack α) (depth : Nat) : ScopeStack α :=
  { s with inner := s.inner.drop (s.depth - depth) }

/-- What the innermost scope that declares a name binds it to. -/
def find? (s : ScopeStack α) (name : String) : Option α :=
  s.scopes.findSome? (·.lookup name)

def lookup (s : ScopeStack α) (name : String) : Except Error α :=
  match s.find? name with
  | some a => .ok a
  | none => .error (.undeclared name)

def contains (s : ScopeStack α) (name : String) : Bool :=
  s.scopes.any fun scope => (scope.lookup name).isSome

def declare (s : ScopeStack α) (name : String) (a : α) : Except Error (ScopeStack α) :=
  match s.inner with
  | [] =>
    if (s.bottom.lookup name).isSome then .error (.alreadyDeclared name)
    else .ok { s with bottom := (name, a) :: s.bottom }
  | scope :: rest =>
    if (scope.lookup name).isSome then .error (.alreadyDeclared name)
    else .ok { s with inner := ((name, a) :: scope) :: rest }

/-- Declare several names in turn, up to the first that fails. -/
def declareAll (s : ScopeStack α) : List (String × α) → Except Error (ScopeStack α)
  | [] => .ok s
  | (name, a) :: rest => do (← s.declare name a).declareAll rest

/-! ## Small laws -/

@[simp] theorem depth_push (s : ScopeStack α) : s.push.depth = s.depth + 1 := rfl

@[simp] theorem pop_push (s : ScopeStack α) : s.push.pop = s := rfl

theorem depth_pos (s : ScopeStack α) : 1 ≤ s.depth := Nat.le_add_left 1 _

theorem depth_shrinkTo (s : ScopeStack α) {n : Nat} (hn : 1 ≤ n) :
    (s.shrinkTo n).depth = min s.depth n := by
  simp only [shrinkTo, depth, List.length_drop]
  omega

theorem contains_eq_isSome_find? (s : ScopeStack α) (name : String) :
    s.contains name = (s.find? name).isSome := by
  simp only [contains, find?]
  induction s.scopes with
  | nil => rfl
  | cons scope rest ih =>
    simp only [List.any_cons, List.findSome?_cons, ih]
    cases scope.lookup name <;> simp

/-- A lookup fails only on a name that is not bound. -/
theorem lookup_eq_error_iff {s : ScopeStack α} {name : String} {err : Error} :
    s.lookup name = .error err ↔ s.contains name = false ∧ err = .undeclared name := by
  rw [lookup, contains_eq_isSome_find?]
  cases s.find? name with
  | none => simp [eq_comm]
  | some a => simp

/-! ## Running inside a scope -/

/-- Run an action inside a fresh scope, then close that scope and every one the
action left open inside it. -/
def withScope {β : Type} (action : StateM (ScopeStack α) β) : StateM (ScopeStack α) β :=
  fun s =>
    let (result, after) := action s.push
    (result, after.shrinkTo s.depth)

end ScopeStack
end IntCalculus
