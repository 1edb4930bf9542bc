/-
How a reduction fails.

A reduction goes through the leaves that operators reach, from left to right, and the
first of them that cannot be reduced decides.  There are two such obstacles.  At a
variable that is not bound the whole reduction is given up, and the expression comes back
as it was.  A derivative whose evaluation fails for another reason than a missing name
makes the reduction fail with its error.  So a derivative of something outside the
fragment makes a reduction fail wherever it stands, unless the reduction is given up
before it comes to the derivative.

The statements this file exists for are `reduce_allOrNothing` and `reduce_unsupported`.
-/
import IntCalculus.Proofs.Derive.Domain
import IntCalculus.Proofs.Reduce.Relation

namespace IntCalculus

variable {env : Environment}

/-! ## Derivatives outside the fragment -/

theorem Derivative.evaluate_of_unsupported {d : Derivative}
    (h : (d.bodyIn env).isArithmetic = false) :
    ∃ kind, d.evaluate env = .error (.unsupportedDerivative kind) := by
  obtain ⟨p, hp⟩ := Expr.exists_foreign h
  refine ⟨p.kind, ?_⟩
  rw [evaluate, symbolicIn, deriveSimplified, derive_of_foreign d.wrt hp]
  rfl

/-! ## Obstacles -/

/-- `Obstacle env leaf err`: the leaf cannot be reduced, and fails with `err`. -/
inductive Obstacle (env : Environment) : Expr → Error → Prop where
  | unbound {x : String} (h : env.contains x = false) : Obstacle env (.var x) (.undeclared x)
  | fatal {d : Derivative} {err : Error} (h : d.evaluate env = .error err)
      (herr : err.isEnvironment = false) : Obstacle env d.toExpr err

namespace Expr

theorem tryReduce_of_obstacle {leaf : Expr} {err : Error} (h : Obstacle env leaf err) :
    leaf.tryReduce env = .error err := by
  cases h with
  | unbound h =>
    rw [tryReduce_var, ScopeStack.lookup_eq_error_iff.mpr ⟨h, rfl⟩]
    rfl
  | fatal h herr => exact Derivative.reduce_of_fatal h (Bool.eq_false_iff.mp herr)

theorem obstacle_of_tryReduce {leaf : Expr} {err : Error} (hleaf : leaf.isLeaf = true)
    (h : leaf.tryReduce env = .error err) : Obstacle env leaf err := by
  cases leaf with
  | var x =>
    rw [tryReduce_var] at h
    cases hlookup : env.lookup x with
    | error err' =>
      obtain ⟨hunbound, rfl⟩ := ScopeStack.lookup_eq_error_iff.mp hlookup
      rw [hlookup] at h
      cases h
      exact .unbound hunbound
    | ok v =>
      rw [hlookup] at h
      cases h
  | derivative f x options =>
    rcases Derivative.reduce_outcome env ⟨f, x, options⟩ with
      ⟨_, _, hr⟩ | ⟨_, _, _, hr⟩ | ⟨err', hvalue, herr, hr⟩
    · cases hr.symm.trans h
    · cases hr.symm.trans h
    · cases hr.symm.trans h
      exact Obstacle.fatal hvalue (Bool.eq_false_iff.mpr herr)
  | add | sub | mul | neg => cases hleaf
  | _ => cases h

/-- The error of a reduction is the error of the first leaf that cannot be reduced. -/
theorem failure?_tryReduce (env : Environment) (e : Expr) :
    failure? (e.tryReduce env) =
      e.leaves.findSome? fun leaf => failure? (leaf.tryReduce env) := by
  induction e using operator_induction with
  | leaf e hleaf => rw [leaves_of_isLeaf hleaf, List.findSome?_singleton]
  | node operator l r ihl ihr =>
    rw [tryReduce_node, failure?_combine, ihl, ihr, leaves_node, List.findSome?_append]
  | neg e ih => rw [tryReduce_neg, failure?_bind_ok, ih, leaves_neg]

/-- `FirstObstacle env e leaf err`: of the leaves that operators reach in `e`, the first
that cannot be reduced is `leaf`, and it fails with `err`. -/
def FirstObstacle (env : Environment) (e leaf : Expr) (err : Error) : Prop :=
  ∃ before after, e.leaves = before ++ leaf :: after ∧ Obstacle env leaf err ∧
    ∀ other ∈ before, ∀ err', ¬ Obstacle env other err'

variable {e : Expr}

theorem FirstObstacle.mem_leaves {leaf : Expr} {err : Error} (h : e.FirstObstacle env leaf err) :
    leaf ∈ e.leaves := by
  obtain ⟨before, after, hsplit, _⟩ := h
  exact List.mem_iff_append.mpr ⟨before, after, hsplit⟩

theorem FirstObstacle.obstacle {leaf : Expr} {err : Error} (h : e.FirstObstacle env leaf err) :
    Obstacle env leaf err := by
  obtain ⟨_, _, _, hobstacle, _⟩ := h
  exact hobstacle

theorem tryReduce_eq_error_iff {err : Error} :
    e.tryReduce env = .error err ↔ ∃ leaf, FirstObstacle env e leaf err := by
  rw [← failure?_eq_some, failure?_tryReduce, List.findSome?_eq_some_iff]
  constructor
  · rintro ⟨before, leaf, after, hsplit, hleaf, hbefore⟩
    have hmem : leaf ∈ e.leaves := List.mem_iff_append.mpr ⟨before, after, hsplit⟩
    have hobstacle := obstacle_of_tryReduce (mem_leaves.mp hmem).2 (failure?_eq_some.mp hleaf)
    refine ⟨leaf, before, after, hsplit, hobstacle, fun other hother err' hearlier => ?_⟩
    have hnone := hbefore other hother
    rw [tryReduce_of_obstacle hearlier] at hnone
    cases hnone
  · rintro ⟨leaf, before, after, hsplit, hobstacle, hbefore⟩
    refine ⟨before, leaf, after, hsplit, failure?_eq_some.mpr (tryReduce_of_obstacle hobstacle),
      fun other hother => failure?_eq_none.mpr ?_⟩
    have hmem : other ∈ e.leaves := by
      rw [hsplit]
      exact List.mem_append_left _ hother
    cases htry : other.tryReduce env with
    | ok r => exact ⟨r, rfl⟩
    | error err' =>
      exact absurd (obstacle_of_tryReduce (mem_leaves.mp hmem).2 htry) (hbefore other hother err')

theorem exists_obstacle {err : Error} (h : e.tryReduce env = .error err) :
    ∃ leaf ∈ e.leaves, Obstacle env leaf err := by
  obtain ⟨leaf, hfirst⟩ := tryReduce_eq_error_iff.mp h
  exact ⟨leaf, hfirst.mem_leaves, hfirst.obstacle⟩

theorem exists_tryReduce_error {leaf : Expr} {err : Error} (hmem : leaf ∈ e.leaves)
    (h : Obstacle env leaf err) : ∃ err', e.tryReduce env = .error err' := by
  cases htry : e.tryReduce env with
  | error err' => exact ⟨err', rfl⟩
  | ok r =>
    have hnone := failure?_tryReduce env e
    rw [failure?_eq_none.mpr ⟨r, htry⟩] at hnone
    have hleaf := List.findSome?_eq_none_iff.mp hnone.symm leaf hmem
    rw [tryReduce_of_obstacle h] at hleaf
    cases hleaf

/-! ## A missing name -/

theorem var_mem_leaves {x : String} (h : var x ∈ e.reached) : var x ∈ e.leaves :=
  mem_leaves.mpr ⟨h, rfl⟩

/-- Where an unbound variable is reached, a reduction gives the expression back or fails.
It fails only as a derivative that is reached fails, and never about a name. -/
theorem reduce_allOrNothing (env : Environment) (e : Expr) :
    (∀ x, var x ∈ e.reached → env.contains x = false → ∀ r, e.reduce env = .ok r → r = e) ∧
      ∀ err, e.reduce env = .error err → err.isEnvironment = false ∧
        ∃ d : Derivative, d.toExpr ∈ e.reached ∧ d.evaluate env = .error err := by
  constructor
  · intro x hx hunbound r hr
    obtain ⟨err, htry⟩ := exists_tryReduce_error (var_mem_leaves hx) (.unbound hunbound)
    rcases tryReduce_of_reduce hr with hcarried | ⟨hback, _⟩
    · cases htry.symm.trans hcarried
    · exact hback
  · intro err hfails
    obtain ⟨htry, herr⟩ := tryReduce_of_reduce_eq_error hfails
    obtain ⟨leaf, hmem, hobstacle⟩ := exists_obstacle htry
    refine ⟨Bool.eq_false_iff.mpr herr, ?_⟩
    cases hobstacle with
    | unbound => exact absurd rfl herr
    | @fatal d _ hvalue _ => exact ⟨d, (mem_leaves.mp hmem).1, hvalue⟩

/-- The derivative `derive(true by x)`, which is not defined. -/
def undefinedSlope : Derivative := ⟨.bool true, "x", none⟩

/-- The expression `derive(true by x) + y`. -/
def slopeThenName : Expr := .add undefinedSlope.toExpr (.var "y")

/-- The expression `2 * 3 + (derive(x * x by x) - y)`. -/
def partlyBound : Expr :=
  .add (.mul (.constant 2) (.constant 3))
    (.sub (.derivative (.mul (.var "x") (.var "x")) "x" none) (.var "y"))

/-- The environment that binds `x` to 3. -/
def atThree : Environment := ⟨[], [("x", .int 3)]⟩

theorem reduce_allOrNothing_partlyBound :
    (∃ r, partlyBound.reduce atThree = .ok r) ∧
      (∀ r, partlyBound.reduce atThree = .ok r → r = partlyBound) ∧
      slopeThenName.reduce atThree = .error (.unsupportedDerivative .boolean) ∧
      ∃ d : Derivative, d.toExpr ∈ slopeThenName.reached ∧
        d.evaluate atThree = .error (.unsupportedDerivative .boolean) := by
  have hback : partlyBound.reduce atThree = .ok partlyBound := by decide +kernel
  have hfails : slopeThenName.reduce atThree = .error (.unsupportedDerivative .boolean) := by
    decide +kernel
  have hreached : var "y" ∈ partlyBound.reached := by decide +kernel
  exact ⟨⟨_, hback⟩, (reduce_allOrNothing atThree partlyBound).1 "y" hreached rfl, hfails,
    ((reduce_allOrNothing atThree slopeThenName).2 _ hfails).2⟩

/-! ## Unsupported derivatives -/

/-- An unbound variable is reached, and no derivative before it fails for another reason
than a missing name. -/
def GivesUp (env : Environment) (e : Expr) : Prop :=
  ∃ before x after, e.leaves = before ++ var x :: after ∧ env.contains x = false ∧
    ∀ d : Derivative, d.toExpr ∈ before → ∀ err, d.evaluate env = .error err →
      err.isEnvironment = true

theorem reduce_of_givesUp (h : e.GivesUp env) : e.reduce env = .ok e := by
  obtain ⟨before, x, after, hsplit, hunbound, hbefore⟩ := h
  have hfirst := failure?_tryReduce env e
  rw [hsplit, List.findSome?_append] at hfirst
  cases hfound : before.findSome? fun leaf => failure? (leaf.tryReduce env) with
  | none =>
    have hx := tryReduce_of_obstacle (Obstacle.unbound hunbound)
    rw [hfound, Option.none_or, List.findSome?_cons, hx] at hfirst
    exact reduce_of_missing (failure?_eq_some.mp hfirst) rfl
  | some err =>
    rw [hfound, Option.some_or] at hfirst
    obtain ⟨leaf, hmem, hleaf⟩ := List.exists_of_findSome?_eq_some hfound
    have hmem' : leaf ∈ e.leaves := by
      rw [hsplit]
      exact List.mem_append_left _ hmem
    have hobstacle := obstacle_of_tryReduce (mem_leaves.mp hmem').2 (failure?_eq_some.mp hleaf)
    refine reduce_of_missing (failure?_eq_some.mp hfirst) ?_
    cases hobstacle with
    | unbound => rfl
    | @fatal d _ hvalue _ => exact hbefore d hmem err hvalue

theorem givesUp_of_tryReduce {err : Error} (h : e.tryReduce env = .error err)
    (herr : err.isEnvironment = true) : e.GivesUp env := by
  obtain ⟨leaf, before, after, hsplit, hobstacle, hbefore⟩ := tryReduce_eq_error_iff.mp h
  cases hobstacle with
  | fatal _ hother =>
    rw [herr] at hother
    cases hother
  | @unbound x hunbound =>
    refine ⟨before, x, after, hsplit, hunbound, fun d hd err' hvalue => ?_⟩
    by_contra hother
    exact hbefore _ hd err' (.fatal hvalue (Bool.eq_false_iff.mpr hother))

/-- Where a derivative is reached whose body lies outside the fragment, a reduction fails
unless it is given up at a variable, and then the expression comes back as it was. -/
theorem reduce_unsupported {env : Environment} {e : Expr} {d : Derivative}
    (hreached : d.toExpr ∈ e.reached) (hbody : (d.bodyIn env).isArithmetic = false) :
    ((∃ err, e.reduce env = .error err) ↔ ¬ e.GivesUp env) ∧
      (e.GivesUp env → e.reduce env = .ok e) := by
  refine ⟨⟨?_, fun hgoes => ?_⟩, reduce_of_givesUp⟩
  · rintro ⟨err, hfails⟩ hgives
    cases hfails.symm.trans (reduce_of_givesUp hgives)
  · obtain ⟨kind, hvalue⟩ := Derivative.evaluate_of_unsupported hbody
    obtain ⟨err, htry⟩ := exists_tryReduce_error (mem_leaves.mpr ⟨hreached, rfl⟩)
      (Obstacle.fatal hvalue rfl)
    have herr : ¬ err.isEnvironment = true := fun herr => hgoes (givesUp_of_tryReduce htry herr)
    exact ⟨err, reduce_of_fatal htry herr⟩

theorem reduce_unsupported_slopeThenName :
    undefinedSlope.toExpr ∈ slopeThenName.reached ∧
      (undefinedSlope.bodyIn atThree).isArithmetic = false ∧ ¬ slopeThenName.GivesUp atThree ∧
      ∃ err, slopeThenName.reduce atThree = .error err := by
  have hreached : undefinedSlope.toExpr ∈ slopeThenName.reached := by decide +kernel
  have hvalue : undefinedSlope.evaluate atThree = .error (.unsupportedDerivative .boolean) := by
    decide +kernel
  have hgoes : ¬ slopeThenName.GivesUp atThree := by
    rintro ⟨before, x, after, hsplit, _, hbefore⟩
    have hleaves : slopeThenName.leaves = [undefinedSlope.toExpr, var "y"] := rfl
    rw [hleaves] at hsplit
    cases before with
    | nil => cases hsplit
    | cons first rest =>
      obtain ⟨rfl, _⟩ := List.cons_eq_cons.mp hsplit
      cases hbefore undefinedSlope List.mem_cons_self _ hvalue
  exact ⟨hreached, rfl, hgoes, (reduce_unsupported hreached rfl).1.mpr hgoes⟩

/-- The expression `y + derive(true by x)`. -/
def nameThenSlope : Expr := .add (.var "y") undefinedSlope.toExpr

/-- A derivative that is not defined is passed over behind an unbound variable. -/
theorem reduce_nameThenSlope :
    undefinedSlope.toExpr ∈ nameThenSlope.reached ∧
      (undefinedSlope.bodyIn atThree).isArithmetic = false ∧
      nameThenSlope.reduce atThree = .ok nameThenSlope := by
  decide +kernel

end Expr
end IntCalculus
