/-
The type inferred for an expression and the type of its value.

Inference goes down the left operands and asks the declared types for that one leaf;
evaluation asks the environment for every leaf and wants an integer of each operand.  That
an evaluation succeeds makes up for the difference: where an operator stands at the root,
the leftmost leaf and the whole are both integers.  A leaf with a value has the type of
that value, save two kinds.  The result of a function value is inferred from its body, and
no value tells of it; and a derivative counts as a function of the variable it is taken by,
while it evaluates to a value of its own.

The statement this file exists for is `infer_of_evaluate`.
-/
import IntCalculus.Proofs.Evaluate
import IntCalculus.Proofs.Typing.Scoping

namespace IntCalculus

/-- Every name the environment binds is declared with the type of its value. -/
def Declares (types : ScopeStack Ty) (env : Environment) : Prop :=
  ∀ x v, env.lookup x = .ok v → types.lookup x = .ok v.typeOf

namespace Value

/-- The result of a function value is unknown, so no value has the type of a derivative. -/
theorem typeOf_ne_intToInt (v : Value) : v.typeOf ≠ .intToInt := by
  intro h
  cases v with
  | function params body => cases (Ty.function.inj h).2
  | _ => cases h

theorem ne_function_of_typeOf_eq {v w : Value} (h : v.typeOf = w.typeOf)
    (hw : ∀ params body, w ≠ .function params body) (params : List String) (body : Expr) :
    v ≠ .function params body := by
  rintro rfl
  cases w with
  | function params body => exact hw params body rfl
  | _ => cases h

end Value

namespace Expr

variable {types : ScopeStack Ty} {env : Environment} {e leaf : Expr} {v : Value}

/-! ## The leftmost leaf -/

/-- The leaf to which the left operands lead. -/
def leftmost : Expr → Expr
  | add l _ | sub l _ | mul l _ => l.leftmost
  | neg e => e.leftmost
  | e => e

theorem leftmost_node (operator : Operator) (l r : Expr) :
    (operator.node l r).leftmost = l.leftmost := by
  cases operator <;> rfl

theorem leftmost_of_isLeaf (h : e.isLeaf = true) : e.leftmost = e := by
  cases e with
  | add | sub | mul | neg => cases h
  | _ => rfl

theorem leftmost_mem_leaves (e : Expr) : e.leftmost ∈ e.leaves := by
  induction e using operator_induction with
  | leaf e hleaf =>
    rw [leftmost_of_isLeaf hleaf, leaves_of_isLeaf hleaf]
    exact List.mem_cons_self
  | node operator l r ihl _ =>
    rw [leftmost_node, leaves_node]
    exact List.mem_append_left _ ihl
  | neg e ih => exact ih

theorem infer_leftmost (e : Expr) : e.leftmost.infer = e.infer := by
  induction e using operator_induction with
  | leaf e hleaf => rw [leftmost_of_isLeaf hleaf]
  | node operator l r ihl _ => rw [leftmost_node, infer_node, ihl]
  | neg e ih => exact ih

/-- What has a value has a leftmost leaf of the same type, since below an operator both are
integers. -/
theorem evaluate_leftmost (h : e.evaluate env = .ok v) :
    ∃ u, e.leftmost.evaluate env = .ok u ∧ u.typeOf = v.typeOf := by
  induction e using operator_induction generalizing v with
  | leaf e hleaf =>
    rw [leftmost_of_isLeaf hleaf]
    exact ⟨v, h, rfl⟩
  | node operator l r ihl _ =>
    obtain ⟨a, b, c, hl, _, _, rfl⟩ := evaluate_node_eq_ok.mp h
    obtain ⟨u, hu, htype⟩ := ihl hl
    rw [leftmost_node]
    exact ⟨u, hu, htype⟩
  | neg e ih =>
    obtain ⟨a, c, he, _, rfl⟩ := evaluate_neg_eq_ok.mp h
    obtain ⟨u, hu, htype⟩ := ih he
    exact ⟨u, hu, htype⟩

/-! ## Leaves -/

theorem outcome_infer_leaf (hleaf : leaf.isLeaf = true) (hkind : leaf.kind ≠ .derivative)
    (htypes : Declares types env) (h : leaf.evaluate env = .ok v)
    (hv : ∀ params body, v ≠ .function params body) :
    leaf.infer.outcome types = .ok v.typeOf := by
  cases leaf with
  | var x =>
    show ((Checker.lookup x).run.run types).1 = .ok v.typeOf
    rw [Checker.run_lookup]
    exact htypes x v h
  | function params body =>
    cases h
    exact absurd rfl (hv params body)
  | gradient f xs options =>
    obtain ⟨values, _, rfl⟩ := map_eq_ok h
    rfl
  | derivative => exact absurd rfl hkind
  | add | sub | mul | neg => cases hleaf
  | _ =>
    cases h
    rfl

theorem outcome_infer_derivative (h : leaf.kind = .derivative) :
    leaf.infer.outcome types = .ok .intToInt := by
  cases leaf with
  | derivative => rfl
  | _ => cases h

/-! ## Expressions -/

/-- The inferred type is the type of the value just where no derivative is leftmost. -/
theorem infer_eq_typeOf_iff (htypes : Declares types env) (h : e.evaluate env = .ok v)
    (hv : ∀ params body, v ≠ .function params body) :
    e.infer.outcome types = .ok v.typeOf ↔ e.leftmost.kind ≠ .derivative := by
  obtain ⟨u, hu, htype⟩ := evaluate_leftmost h
  rw [← infer_leftmost, ← htype]
  constructor
  · intro hinfer hkind
    rw [outcome_infer_derivative hkind] at hinfer
    exact u.typeOf_ne_intToInt (Except.ok.inj hinfer).symm
  · intro hkind
    have hleaf := (mem_leaves.mp (leftmost_mem_leaves e)).2
    exact outcome_infer_leaf hleaf hkind htypes hu (Value.ne_function_of_typeOf_eq htype hv)

/-- Where operators reach no derivative, an expression is inferred to have the type that its
value has, if that is no function. -/
theorem infer_of_evaluate {types : ScopeStack Ty} {env : Environment} {e : Expr} {v : Value}
    (hreached : ∀ node ∈ e.reached, node.kind ≠ .derivative) (htypes : Declares types env)
    (h : e.evaluate env = .ok v) (hv : ∀ params body, v ≠ .function params body) :
    e.infer.outcome types = .ok v.typeOf := by
  refine (infer_eq_typeOf_iff htypes h hv).mpr (hreached e.leftmost ?_)
  exact (mem_leaves.mp (leftmost_mem_leaves e)).1

/-- The environment that binds `x` to 3 above another `x`, and below both `y` and a function
`f`. -/
def nestedPoint : Environment :=
  ⟨[[("x", .int 3)], [("x", .string "hidden")]],
    [("y", .int 4), ("f", .function ["x"] (.var "x"))]⟩

/-- The types of what is visible there, declared in one scope beside one name more. -/
def flatTypes : ScopeStack Ty :=
  ⟨[], [("f", .function [.int] .unknown), ("b", .bool), ("x", .int), ("y", .int)]⟩

theorem declares_flatTypes : Declares flatTypes nestedPoint := by
  intro x v h
  by_cases hx : x = "x"
  · subst hx
    cases h
    rfl
  by_cases hy : x = "y"
  · subst hy
    cases h
    rfl
  by_cases hf : x = "f"
  · subst hf
    cases h
    rfl
  · have hnone : nestedPoint.find? x = none := by
      simp only [ScopeStack.find?, ScopeStack.scopes, nestedPoint, List.cons_append,
        List.nil_append, List.findSome?_cons, List.findSome?_nil, List.lookup_cons,
        List.lookup_nil, beq_false_of_ne hx, beq_false_of_ne hy, beq_false_of_ne hf]
    rw [ScopeStack.lookup, hnone] at h
    cases h

/-- The expression `-x * (y - 2)`. -/
def offsetProduct : Expr := mul (neg (var "x")) (sub (var "y") (constant 2))

/-- The expression `gradient(f by [x, y])`. -/
def namedGradient : Expr := gradient (var "f") ["x", "y"] none

theorem infer_of_evaluate_nestedPoint :
    Declares flatTypes nestedPoint ∧
      offsetProduct.evaluate nestedPoint = .ok (.int (-6)) ∧
      offsetProduct.infer.outcome flatTypes = .ok .int ∧
      namedGradient.evaluate nestedPoint = .ok (.vector [.int 1, .int 0]) ∧
      namedGradient.infer.outcome flatTypes = .ok .vector := by
  have hproduct : offsetProduct.evaluate nestedPoint = .ok (.int (-6)) := by decide +kernel
  have hgradient : namedGradient.evaluate nestedPoint = .ok (.vector [.int 1, .int 0]) := by
    decide +kernel
  refine ⟨declares_flatTypes, hproduct, ?_, hgradient, ?_⟩
  · refine infer_of_evaluate ?_ declares_flatTypes hproduct ?_
    · decide
    · intro _ _ hfunction
      cases hfunction
  · refine infer_of_evaluate ?_ declares_flatTypes hgradient ?_
    · decide
    · intro _ _ hfunction
      cases hfunction

end Expr
end IntCalculus
