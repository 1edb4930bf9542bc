/-
What can be differentiated.

An expression is differentiated exactly when all its nodes are of the kinds the fragment
is built from, whatever the variable.  Otherwise it fails with the kind of the first node
in reading order that is not, and a factor 0 beside that node does not help.  A derivative
lies in the fragment and brings in no name, and so does its simplification.  So a
derivative of higher order fails at the first order or at none.

The statement this file exists for is `derive_domain`.
-/
import IntCalculus.Proofs.Derive.Order

namespace IntCalculus

/-- The kinds of node the arithmetic fragment is built from. -/
def Kind.isArithmetic : Kind → Bool
  | constant | variableName | addition | subtraction | negation | multiplication => true
  | _ => false

namespace Expr

/-! ## The first foreign node -/

/-- Whether the node at the root is of no kind of the fragment. -/
def isForeign (e : Expr) : Bool := !e.kind.isArithmetic

/-- The first foreign node in reading order.  A calculus node is one itself and stands
before all that is in it. -/
def foreign? (e : Expr) : Option Expr := e.parts.find? isForeign

theorem foreign?_node (operator : Operator) (l r : Expr) :
    (operator.node l r).foreign? = l.foreign?.or r.foreign? := by
  have hnode : ¬ (operator.node l r).isForeign = true := by
    cases operator <;> exact Bool.false_ne_true
  rw [foreign?, parts_node, List.find?_cons_of_neg hnode, List.find?_append]
  rfl

theorem foreign?_neg (e : Expr) : (neg e).foreign? = e.foreign? := rfl

/-- The fragment consists of the expressions all of whose nodes are of its kinds. -/
theorem foreign?_eq_none {e : Expr} : e.foreign? = none ↔ e.isArithmetic = true := by
  induction e using operator_induction with
  | leaf e hleaf =>
    cases e with
    | constant | var => exact ⟨fun _ => rfl, fun _ => rfl⟩
    | add | sub | mul | neg => cases hleaf
    | _ =>
      constructor
      · intro h
        cases h
      · intro h
        cases h
  | node operator l r ihl ihr =>
    rw [foreign?_node, Option.or_eq_none_iff, ihl, ihr, isArithmetic_node]
  | neg e ih => exact ih

theorem exists_foreign {e : Expr} (h : e.isArithmetic = false) : ∃ p, e.foreign? = some p := by
  cases hforeign : e.foreign? with
  | none => cases (foreign?_eq_none.mp hforeign).symm.trans h
  | some p => exact ⟨p, rfl⟩

end Expr

/-! ## One derivative -/

theorem derive_node (x : String) (operator : Operator) (l r : Expr) :
    ∃ combine : Expr → Expr → Expr, derive x (operator.node l r) =
      (derive x l >>= fun l' => derive x r >>= fun r' => .ok (combine l' r')) := by
  cases operator <;> exact ⟨_, rfl⟩

theorem derive_neg (x : String) (e : Expr) :
    derive x (.neg e) = (derive x e >>= fun e' => .ok (.neg e')) := rfl

/-- A derivative fails at the first foreign node, and at nothing else. -/
theorem failure?_derive (x : String) (e : Expr) :
    failure? (derive x e) = e.foreign?.map fun p => .unsupportedDerivative p.kind := by
  induction e using Expr.operator_induction with
  | leaf e hleaf =>
    cases e with
    | add | sub | mul | neg => cases hleaf
    | _ => rfl
  | node operator l r ihl ihr =>
    obtain ⟨combine, hderive⟩ := derive_node x operator l r
    rw [hderive, failure?_combine, ihl, ihr, Expr.foreign?_node, Option.map_or]
  | neg e ih => rw [derive_neg, failure?_bind_ok, ih, Expr.foreign?_neg]

variable {e p : Expr}

theorem derive_of_foreign (x : String) (h : e.foreign? = some p) :
    derive x e = .error (.unsupportedDerivative p.kind) := by
  refine failure?_eq_some.mp ?_
  rw [failure?_derive, h]
  rfl

/-! ## Derivatives of higher order -/

theorem deriveNth_of_foreign (options : Options) (x : String) (order : Nat)
    (h : e.foreign? = some p) :
    deriveNth options x (order + 1) e = .error (.unsupportedDerivative p.kind) := by
  rw [deriveNth, deriveSimplified, derive_of_foreign x h]
  rfl

/-- In the fragment all orders succeed, and none leaves it or brings in a name. -/
theorem deriveNth_of_isArithmetic (options : Options) (x : String) (order : Nat)
    (h : e.isArithmetic = true) :
    ∃ d, deriveNth options x order e = .ok d ∧ d.isArithmetic = true ∧
      d.freeNames ⊆ e.freeNames := by
  induction order generalizing e with
  | zero => exact ⟨e, rfl, h, List.Subset.refl _⟩
  | succ order ih =>
    obtain ⟨first, hfirst⟩ := exists_derives x h
    obtain ⟨d, hd, harithmetic, hnames⟩ := ih (isArithmetic_simplify options hfirst.isArithmetic.2)
    refine ⟨d, ?_, harithmetic, ?_⟩
    · rw [deriveNth, deriveSimplified_of_derives options hfirst]
      exact hd
    · have hsimplified := freeNames_simplify_subset options first
      exact List.Subset.trans hnames (List.Subset.trans hsimplified hfirst.freeNames_subset)

/-- Derivatives of every order from the first on exist for the expressions of the fragment
and for no others.  What is outside fails with the kind of its first foreign node, and what
is inside has derivatives in the fragment and in its own free variables. -/
theorem derive_domain (options : Options) (x : String) (order : Nat) (e : Expr) :
    ((∃ d, derive x e = .ok d) ↔ e.isArithmetic = true) ∧
    ((∃ d, deriveNth options x (order + 1) e = .ok d) ↔ e.isArithmetic = true) ∧
    (e.isArithmetic = false → ∃ p, e.foreign? = some p ∧
      derive x e = .error (.unsupportedDerivative p.kind) ∧
        deriveNth options x (order + 1) e = .error (.unsupportedDerivative p.kind)) ∧
    ∀ d, derive x e = .ok d ∨ deriveNth options x (order + 1) e = .ok d →
      d.isArithmetic = true ∧ ∀ y ∈ d.freeVars, y ∈ e.freeVars := by
  have hnames : ∀ {d : Expr}, d.freeNames ⊆ e.freeNames → ∀ y ∈ d.freeVars, y ∈ e.freeVars :=
    fun hsubset y hy => Expr.mem_freeVars.mpr (hsubset (Expr.mem_freeVars.mp hy))
  cases hforeign : e.foreign? with
  | none =>
    have he : e.isArithmetic = true := Expr.foreign?_eq_none.mp hforeign
    obtain ⟨first, hfirst⟩ := exists_derives x he
    have hderive := derive_of_derives hfirst
    obtain ⟨nth, hnth, harithmetic, hsubset⟩ := deriveNth_of_isArithmetic options x (order + 1) he
    refine ⟨⟨fun _ => he, fun _ => ⟨first, hderive⟩⟩, ⟨fun _ => he, fun _ => ⟨nth, hnth⟩⟩, ?_, ?_⟩
    · intro hout
      cases he.symm.trans hout
    · rintro d (hd | hd)
      · cases hderive.symm.trans hd
        exact ⟨hfirst.isArithmetic.2, hnames hfirst.freeNames_subset⟩
      · cases hnth.symm.trans hd
        exact ⟨harithmetic, hnames hsubset⟩
  | some p =>
    have he : ¬ e.isArithmetic = true := fun he => by
      cases hforeign.symm.trans (Expr.foreign?_eq_none.mpr he)
    have hderive := derive_of_foreign x hforeign
    have hnth := deriveNth_of_foreign options x order hforeign
    rw [hderive, hnth]
    refine ⟨⟨?_, fun h => absurd h he⟩, ⟨?_, fun h => absurd h he⟩, ?_, ?_⟩
    · rintro ⟨d, hd⟩
      cases hd
    · rintro ⟨d, hd⟩
      cases hd
    · exact fun _ => ⟨p, rfl, rfl, rfl⟩
    · rintro d (hd | hd) <;> cases hd

end IntCalculus
