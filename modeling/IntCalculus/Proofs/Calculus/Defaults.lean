/-
Default options for calculus nodes.

Filling in default options touches nothing but options.  What an expression looks like
without options stays the same, options that a node has stay where they are, and only a
node without any gets the ones supplied.  A filled expression is one that filling leaves as
it is, whatever is supplied.

A node without options is taken with the default ones, so filling in these should not be
seen.  An evaluation shows it in one place: the value of a function is the function, with
the options in its body.  Below an operator that does no harm, since an operator looks at
the type of what is no integer.  Nor does it below a calculus node, where a body in the
fragment has no options and any other fails by the kind of a node.

The statement this file exists for is `withDefaultOptions_onlyOptions`.
-/
import IntCalculus.Proofs.Derive.Domain
import IntCalculus.Proofs.Evaluate

namespace IntCalculus

/-! ## Options in an expression -/

mutual
/-- The expression with no options on any calculus node, the stored values included. -/
def Expr.withoutOptions : Expr → Expr
  | .add l r => .add l.withoutOptions r.withoutOptions
  | .sub l r => .sub l.withoutOptions r.withoutOptions
  | .mul l r => .mul l.withoutOptions r.withoutOptions
  | .neg e => .neg e.withoutOptions
  | .function params body => .function params body.withoutOptions
  | .vector elements => .vector (Value.elementsWithoutOptions elements)
  | .derivative f x _ => .derivative f.withoutOptions x none
  | .gradient f xs _ => .gradient f.withoutOptions xs none
  | .constant c => .constant c
  | .bool b => .bool b
  | .str s => .str s
  | .var name => .var name

def Value.withoutOptions : Value → Value
  | .function params body => .function params body.withoutOptions
  | .vector elements => .vector (Value.elementsWithoutOptions elements)
  | .int n => .int n
  | .bool b => .bool b
  | .string s => .string s

def Value.elementsWithoutOptions : List Value → List Value
  | [] => []
  | v :: rest => v.withoutOptions :: Value.elementsWithoutOptions rest
end

mutual
/-- What the calculus nodes have for options, in reading order and the stored values
included. -/
def Expr.ownOptions : Expr → List (Option Options)
  | .add l r | .sub l r | .mul l r => l.ownOptions ++ r.ownOptions
  | .neg e => e.ownOptions
  | .function _ body => body.ownOptions
  | .vector elements => Value.elementsOwnOptions elements
  | .derivative f _ own => own :: f.ownOptions
  | .gradient f _ own => own :: f.ownOptions
  | .constant _ | .bool _ | .str _ | .var _ => []

def Value.ownOptions : Value → List (Option Options)
  | .function _ body => body.ownOptions
  | .vector elements => Value.elementsOwnOptions elements
  | .int _ | .bool _ | .string _ => []

def Value.elementsOwnOptions : List Value → List (Option Options)
  | [] => []
  | v :: rest => v.ownOptions ++ Value.elementsOwnOptions rest
end

/-- Options that were there are kept, and the supplied ones come only where none were. -/
def FilledWith (supplied : Options) (before after : Option Options) : Prop :=
  after = before ∨ before = none ∧ after = some supplied

namespace Expr

/-- Every calculus node has options of its own.  The values of vector literals are not
looked into. -/
def Pinned : Expr → Prop
  | add l r | sub l r | mul l r => l.Pinned ∧ r.Pinned
  | neg e => e.Pinned
  | function _ body => body.Pinned
  | derivative f _ own | gradient f _ own => own.isSome = true ∧ f.Pinned
  | constant _ | bool _ | str _ | var _ | vector _ => True

variable {env : Environment} {e : Expr} (o : Options)

theorem withDefaultOptions_node (operator : Operator) (l r : Expr) :
    (operator.node l r).withDefaultOptions o =
      operator.node (l.withDefaultOptions o) (r.withDefaultOptions o) := by
  cases operator <;> rfl

theorem withoutOptions_node (operator : Operator) (l r : Expr) :
    (operator.node l r).withoutOptions = operator.node l.withoutOptions r.withoutOptions := by
  cases operator <;> simp only [Operator.node, withoutOptions]

theorem ownOptions_node (operator : Operator) (l r : Expr) :
    (operator.node l r).ownOptions = l.ownOptions ++ r.ownOptions := by
  cases operator <;> simp only [Operator.node, ownOptions]

theorem pinned_node {operator : Operator} {l r : Expr} :
    (operator.node l r).Pinned ↔ l.Pinned ∧ r.Pinned := by
  cases operator <;> exact Iff.rfl

/-! ## Filling -/

theorem withoutOptions_withDefaultOptions (e : Expr) :
    (e.withDefaultOptions o).withoutOptions = e.withoutOptions := by
  induction e using node_induction with
  | node operator l r ihl ihr =>
    rw [withDefaultOptions_node, withoutOptions_node, withoutOptions_node, ihl, ihr]
  | neg e ih | function _ e ih | derivative e _ _ ih | gradient e _ _ ih =>
    simp only [withDefaultOptions, withoutOptions, ih]
  | constant | bool | str | var | vector => rfl

theorem filledWith_or (own : Option Options) : FilledWith o own (own <|> some o) := by
  cases own with
  | none => exact Or.inr ⟨rfl, rfl⟩
  | some own => exact Or.inl rfl

theorem ownOptions_withDefaultOptions (e : Expr) :
    List.Forall₂ (FilledWith o) e.ownOptions (e.withDefaultOptions o).ownOptions := by
  induction e using node_induction with
  | node operator l r ihl ihr =>
    rw [withDefaultOptions_node, ownOptions_node, ownOptions_node]
    exact List.rel_append ihl ihr
  | neg e ih | function _ e ih =>
    simp only [withDefaultOptions, ownOptions]
    exact ih
  | derivative f _ own ih | gradient f _ own ih =>
    simp only [withDefaultOptions, ownOptions]
    exact .cons (filledWith_or o own) ih
  | constant | bool | str | var =>
    simp only [withDefaultOptions, ownOptions]
    exact .nil
  | vector elements => exact List.forall₂_same.mpr fun _ _ => Or.inl rfl

theorem pinned_withDefaultOptions (e : Expr) : (e.withDefaultOptions o).Pinned := by
  induction e using node_induction with
  | node operator l r ihl ihr =>
    rw [withDefaultOptions_node]
    exact pinned_node.mpr ⟨ihl, ihr⟩
  | neg e ih | function _ e ih => exact ih
  | derivative f _ own ih | gradient f _ own ih =>
    refine ⟨?_, ih⟩
    cases own <;> rfl
  | constant | bool | str | var | vector => trivial

theorem withDefaultOptions_of_pinned (h : e.Pinned) : e.withDefaultOptions o = e := by
  induction e using node_induction with
  | node operator l r ihl ihr =>
    obtain ⟨hl, hr⟩ := pinned_node.mp h
    rw [withDefaultOptions_node, ihl hl, ihr hr]
  | neg e ih | function _ e ih => rw [withDefaultOptions, ih h]
  | derivative f _ own ih | gradient f _ own ih =>
    obtain ⟨own, rfl⟩ := Option.isSome_iff_exists.mp h.1
    rw [withDefaultOptions, ih h.2]
    rfl
  | constant | bool | str | var | vector => rfl

theorem pinned_of_isArithmetic (h : e.isArithmetic = true) : e.Pinned := by
  induction e, h using isArithmetic_node_induction with
  | constant | var => trivial
  | node operator l r _ _ ihl ihr => exact pinned_node.mpr ⟨ihl, ihr⟩
  | neg e _ ih => exact ih

/-! ## Texts -/

theorem precedence_withDefaultOptions (e : Expr) :
    (e.withDefaultOptions o).precedence = e.precedence := by
  cases e <;> rfl

/-- A text does not show options. -/
theorem text_withDefaultOptions (e : Expr) : (e.withDefaultOptions o).text = e.text := by
  induction e using node_induction with
  | node operator l r ihl ihr =>
    cases operator <;>
      simp only [Operator.node, withDefaultOptions, text, precedence_withDefaultOptions, ihl, ihr]
  | neg e ih => simp only [withDefaultOptions, text, precedence_withDefaultOptions, ih]
  | function _ e ih | derivative e _ _ ih | gradient e _ _ ih =>
    simp only [withDefaultOptions, text, ih]
  | constant | bool | str | var | vector => rfl

/-! ## Derivatives -/

theorem kind_foreign?_withDefaultOptions (e : Expr) :
    (e.withDefaultOptions o).foreign?.map kind = e.foreign?.map kind := by
  induction e using operator_induction with
  | leaf e hleaf =>
    cases e with
    | add | sub | mul | neg => cases hleaf
    | _ => rfl
  | node operator l r ihl ihr =>
    rw [withDefaultOptions_node, foreign?_node, foreign?_node, Option.map_or, Option.map_or, ihl,
      ihr]
  | neg e ih => exact ih

theorem derive_withDefaultOptions (x : String) (e : Expr) :
    derive x (e.withDefaultOptions o) = derive x e := by
  have hkind := kind_foreign?_withDefaultOptions o e
  cases hforeign : e.foreign? with
  | none =>
    have hpinned : e.Pinned := pinned_of_isArithmetic (foreign?_eq_none.mp hforeign)
    rw [withDefaultOptions_of_pinned o hpinned]
  | some p =>
    rw [hforeign] at hkind
    obtain ⟨q, hq, hqp⟩ := Option.map_eq_some_iff.mp hkind
    rw [derive_of_foreign x hq, derive_of_foreign x hforeign, hqp]

end Expr

/-! ## Calculus nodes -/

/-- A node without options that is given the default ones is taken with the same as before. -/
theorem getD_or_default (own : Option Options) :
    (own <|> some ({} : Options)).getD {} = own.getD {} := by
  cases own <;> rfl

namespace Derivative

variable (env : Environment) (f : Expr) (x : String) (own : Option Options)

theorem derive_bodyIn_withDefaultOptions (o : Options) (own' : Option Options) :
    derive x ((Derivative.mk (f.withDefaultOptions o) x own').bodyIn env) =
      derive x ((Derivative.mk f x own).bodyIn env) := by
  cases f with
  | function params body => exact Expr.derive_withDefaultOptions o x body
  | var name => rfl
  | _ => exact Expr.derive_withDefaultOptions o x _

theorem evaluate_withDefaultOptions :
    (Derivative.mk (f.withDefaultOptions {}) x (own <|> some ({} : Options))).evaluate env =
      (Derivative.mk f x own).evaluate env := by
  unfold evaluate symbolicIn deriveSimplified effectiveOptions
  rw [derive_bodyIn_withDefaultOptions env f x own, getD_or_default]

end Derivative

theorem Gradient.evaluate_withDefaultOptions (env : Environment) (f : Expr) (xs : List String)
    (own : Option Options) :
    (Gradient.mk (f.withDefaultOptions {}) xs (own <|> some ({} : Options))).evaluate env =
      (Gradient.mk f xs own).evaluate env := by
  unfold evaluate partials
  rw [List.mapM_map, List.mapM_map]
  refine congrArg _ (mapM_congr fun x _ => ?_)
  exact Derivative.evaluate_withDefaultOptions env f x own

namespace Expr

variable {env : Environment} {e : Expr}

/-! ## Evaluation -/

theorem apply_eq_bind (node : Expr) (operator : Operator) (left right : Except Error Value) :
    node.apply operator left right =
      (left >>= Value.operand operator) >>= fun a => (right >>= Value.operand operator) >>= fun b =>
        node.checkedResult (operator.exact a.toInt b.toInt) := by
  simp only [apply, bind_assoc]

theorem checkedResult_of_text_eq {node node' : Expr} (h : node.text = node'.text) (n : ℤ) :
    node.checkedResult n = node'.checkedResult n := by
  unfold checkedResult
  rw [h]

/-- Filling in the default options changes neither the value nor the error, but for a function
value, which is its own value. -/
def Neutral (env : Environment) (e : Expr) : Prop :=
  (e.withDefaultOptions {}).evaluate env = e.evaluate env ∨ e.kind = .functionValue

/-- An operator gets the same from a filled operand, since a function value is none. -/
theorem Neutral.operand_eq (h : e.Neutral env) (operator : Operator) :
    ((e.withDefaultOptions {}).evaluate env >>= Value.operand operator) =
      (e.evaluate env >>= Value.operand operator) := by
  rcases h with heq | hkind
  · rw [heq]
  · cases e with
    | function params body => rfl
    | _ => cases hkind

theorem neutral (env : Environment) (e : Expr) : e.Neutral env := by
  induction e using operator_induction with
  | leaf e hleaf =>
    cases e with
    | function params body => exact Or.inr rfl
    | derivative f x own => exact Or.inl (Derivative.evaluate_withDefaultOptions env f x own)
    | gradient f xs own => exact Or.inl (Gradient.evaluate_withDefaultOptions env f xs own)
    | add | sub | mul | neg => cases hleaf
    | _ => exact Or.inl rfl
  | node operator l r ihl ihr =>
    have htext := text_withDefaultOptions {} (operator.node l r)
    left
    rw [evaluate_node, apply_eq_bind, ← ihl.operand_eq, ← ihr.operand_eq]
    simp only [← checkedResult_of_text_eq htext]
    rw [withDefaultOptions_node, evaluate_node, apply_eq_bind]
  | neg e ih =>
    have htext := text_withDefaultOptions {} (neg e)
    left
    rw [evaluate_neg, ← bind_assoc, ← ih.operand_eq, bind_assoc]
    simp only [← checkedResult_of_text_eq htext]
    rfl

/-- Filling in options changes options only.  Those that nodes have are kept, the others are
the supplied ones, and then no node is without, so that filling again changes nothing.  With
the default options the value or the error of anything but a function value is the same. -/
theorem withDefaultOptions_onlyOptions (e : Expr) (o o' : Options) :
    (e.withDefaultOptions o).withoutOptions = e.withoutOptions ∧
      List.Forall₂ (FilledWith o) e.ownOptions (e.withDefaultOptions o).ownOptions ∧
      (e.withDefaultOptions o).Pinned ∧
      (e.withDefaultOptions o).withDefaultOptions o' = e.withDefaultOptions o ∧
      (o = {} → e.kind ≠ .functionValue → ∀ env : Environment,
        (e.withDefaultOptions o).evaluate env = e.evaluate env) := by
  have hpinned := pinned_withDefaultOptions o e
  refine ⟨withoutOptions_withDefaultOptions o e, ownOptions_withDefaultOptions o e, hpinned,
    withDefaultOptions_of_pinned o' hpinned, ?_⟩
  rintro rfl hkind env
  exact (neutral env e).resolve_right hkind

/-- The product `derive(x * x by x) * derive(fn(x) = 2147483647 * x by x)`, the second factor
with options of its own. -/
def steepProduct : Expr :=
  .mul (.derivative (.mul (.var "x") (.var "x")) "x" none)
    (.derivative (.function ["x"] (.mul (.constant 2147483647) (.var "x"))) "x"
      (some ⟨.saturating, .extended⟩))

theorem withDefaultOptions_onlyOptions_steepProduct :
    steepProduct.ownOptions = [none, some ⟨.saturating, .extended⟩] ∧
      (steepProduct.withDefaultOptions ⟨.wrapping, .pairwise⟩).ownOptions =
        [some ⟨.wrapping, .pairwise⟩, some ⟨.saturating, .extended⟩] ∧
      (steepProduct.withDefaultOptions ⟨.wrapping, .pairwise⟩).Pinned ∧
      steepProduct.kind ≠ .functionValue ∧
      (steepProduct.withDefaultOptions {}).evaluate ⟨[], [("x", .int 2)]⟩ =
        .error (.overflow
          "derive(x * x by x) * derive(fn(x) = 2147483647 * x by x)") := by
  obtain ⟨_, _, hpinned, _, _⟩ :=
    withDefaultOptions_onlyOptions steepProduct ⟨.wrapping, .pairwise⟩ {}
  obtain ⟨_, _, _, _, hneutral⟩ := withDefaultOptions_onlyOptions steepProduct {} {}
  have hkind : steepProduct.kind ≠ .functionValue := by decide
  have hvalue : steepProduct.evaluate ⟨[], [("x", .int 2)]⟩ =
      .error (.overflow "derive(x * x by x) * derive(fn(x) = 2147483647 * x by x)") := by
    decide +kernel
  refine ⟨by decide +kernel, by decide +kernel, hpinned, hkind, ?_⟩
  exact (hneutral rfl hkind _).trans hvalue

end Expr
end IntCalculus
