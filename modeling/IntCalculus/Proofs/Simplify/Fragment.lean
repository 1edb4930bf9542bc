/-
A simplification brings in nothing that was not there.

A rule puts together its result from parts of its operands, from constants and from
variables that stood in its operands.  A property is compositional when constants have
it, and an operator has it exactly when its operands have it.  Every rule keeps such a
property, whichever way it goes.  Two of them matter: to lie in the arithmetic fragment,
and to refer to no other names than those of a list.

The statements this file exists for are `isArithmetic_simplify` and
`freeNames_simplify_subset`.
-/
import IntCalculus.Proofs.Simplify.Collected
import IntCalculus.Proofs.Simplify.Relation
import IntCalculus.Proofs.Value

namespace IntCalculus
namespace Expr

/-- A property that constants have, and that an operator has when all its operands have
it and only then. -/
structure Compositional (holds : Expr → Prop) : Prop where
  constant (c : Int32) : holds (.constant c)
  add (l r : Expr) : holds (.add l r) ↔ holds l ∧ holds r
  sub (l r : Expr) : holds (.sub l r) ↔ holds l ∧ holds r
  neg (e : Expr) : holds (.neg e) ↔ holds e
  mul (l r : Expr) : holds (.mul l r) ↔ holds l ∧ holds r

theorem compositional_isArithmetic : Compositional fun e => e.isArithmetic = true where
  constant _ := rfl
  add _ _ := isArithmetic_add
  sub _ _ := isArithmetic_sub
  neg _ := Iff.rfl
  mul _ _ := isArithmetic_mul

theorem compositional_freeNames (names : List String) :
    Compositional fun e => e.freeNames ⊆ names where
  constant _ := List.nil_subset names
  add _ _ := List.append_subset
  sub _ _ := List.append_subset
  neg _ := Iff.rfl
  mul _ _ := List.append_subset

namespace Compositional

variable {holds : Expr → Prop}

/-! ## Coefficients and chains -/

theorem scaled (h : Compositional holds) (c : Int32) {e : Expr} (he : holds e) :
    holds (.scaled c e) := by
  unfold Expr.scaled
  split
  · exact h.constant 0
  split
  · exact he
  · exact (h.mul _ _).mpr ⟨h.constant c, he⟩

theorem of_linear? (h : Compositional holds) {e : Expr} {c : Int32} {x : String}
    (hlinear : e.linear? = some (c, x)) (he : holds e) : holds (.var x) := by
  rcases linear?_eq_some.mp hlinear with ⟨_, rfl⟩ | rfl | rfl
  · exact he
  · exact ((h.mul _ _).mp he).2
  · exact ((h.mul _ _).mp he).1

theorem of_coefficient? (h : Compositional holds) {e rest : Expr} {c : Int32}
    (hcoefficient : e.coefficient? = some (c, rest)) (he : holds e) : holds rest := by
  obtain ⟨rfl | rfl, _, _⟩ := coefficient?_eq_some.mp hcoefficient
  · exact ((h.mul _ _).mp he).2
  · exact ((h.mul _ _).mp he).1

theorem of_mem_summands (h : Compositional holds) {e t : Expr} (he : holds e)
    (ht : t ∈ e.summands) : holds t := by
  induction e using Expr.summands.induct with
  | case1 l r ihl ihr =>
    obtain ⟨hl, hr⟩ := (h.add _ _).mp he
    rw [summands, List.mem_append] at ht
    exact ht.elim (ihl hl) (ihr hr)
  | case2 e hne =>
    rw [summands_eq_singleton hne, List.mem_singleton] at ht
    exact ht ▸ he

theorem chain (h : Compositional holds) {terms : List Expr} (hterms : ∀ t ∈ terms, holds t) :
    holds (.chain terms) := by
  induction terms using List.reverseRecOn with
  | nil => exact h.constant 0
  | append_singleton terms t ih =>
    have ht : holds t := hterms t (List.mem_append_right _ List.mem_cons_self)
    rw [chain_append_singleton]
    split
    · exact ht
    · exact (h.add _ _).mpr ⟨ih fun u hu => hterms u (List.mem_append_left _ hu), ht⟩

theorem of_origin (h : Compositional holds) {read : List Expr} {t : Expr}
    (horigin : Collected.Origin read t) (hread : ∀ u ∈ read, holds u) : holds t := by
  cases horigin with
  | other ht _ _ => exact hread t ht
  | linear hu hlinear _ => exact h.scaled _ (h.of_linear? hlinear (hread _ hu))
  | constant _ => exact h.constant _

/-! ## The rules -/

variable {options : Options} {policy : OverflowPolicy} {l r s : Expr}

theorem of_sumRule (h : Compositional holds) (hrule : SumRule options l r s) (hl : holds l)
    (hr : holds r) : holds s := by
  cases hrule with
  | zeroLeft => exact hr
  | zeroRight => exact hl
  | fold _ => exact h.constant _
  | merge hlinear _ _ => exact h.scaled _ (h.of_linear? hlinear hl)
  | collect _ hcollected =>
    refine h.chain fun t ht => ?_
    have horigin := Collected.origin_of_mem_terms (Collected.reads_of_insertAll hcollected) ht
    refine h.of_origin horigin fun u hu => ?_
    rcases List.mem_append.mp hu with hu | hu
    · exact h.of_mem_summands hl hu
    · exact h.of_mem_summands hr hu
  | keep _ => exact (h.add _ _).mpr ⟨hl, hr⟩

theorem of_differenceRule (h : Compositional holds) (hrule : DifferenceRule policy l r s)
    (hl : holds l) (hr : holds r) : holds s := by
  cases hrule with
  | fold _ => exact h.constant _
  | keep _ => exact (h.sub _ _).mpr ⟨hl, hr⟩

theorem of_productRule (h : Compositional holds) (hrule : ProductRule policy l r s)
    (hl : holds l) (hr : holds r) : holds s := by
  cases hrule with
  | zeroLeft | zeroRight => exact h.constant 0
  | oneLeft => exact hr
  | oneRight => exact hl
  | fold _ => exact h.constant _
  | scaleRight hcoefficient _ => exact h.scaled _ (h.of_coefficient? hcoefficient hr)
  | scaleLeft hcoefficient _ => exact h.scaled _ (h.of_coefficient? hcoefficient hl)
  | keep _ => exact (h.mul _ _).mpr ⟨hl, hr⟩

end Compositional
end Expr

/-! ## The pass -/

variable {options : Options} {e s : Expr}

theorem Simplifies.isArithmetic (h : Simplifies options e s) (he : e.isArithmetic = true) :
    s.isArithmetic = true := by
  have harithmetic := Expr.compositional_isArithmetic
  induction h with
  | atom _ => exact he
  | function _ _ => cases he
  | sum _ _ hrule ihl ihr =>
    obtain ⟨hl, hr⟩ := Expr.isArithmetic_add.mp he
    exact harithmetic.of_sumRule hrule (ihl hl) (ihr hr)
  | minuend _ _ ihl _ => exact ihl (Expr.isArithmetic_sub.mp he).1
  | subtrahend _ _ _ ihr => exact ihr (Expr.isArithmetic_sub.mp he).2
  | difference _ _ _ _ hrule ihl ihr =>
    obtain ⟨hl, hr⟩ := Expr.isArithmetic_sub.mp he
    exact harithmetic.of_differenceRule hrule (ihl hl) (ihr hr)
  | negatedZero _ _ => rfl
  | doubleNegation _ _ ihe ih => exact ih (ihe he)
  | negation _ _ _ ih => exact ih he
  | product _ _ hrule ihl ihr =>
    obtain ⟨hl, hr⟩ := Expr.isArithmetic_mul.mp he
    exact harithmetic.of_productRule hrule (ihl hl) (ihr hr)

/-- A simplified expression of the fragment is in the fragment. -/
theorem isArithmetic_simplify (options : Options) {e : Expr} (h : e.isArithmetic = true) :
    (simplify options e).isArithmetic = true :=
  (simplifies_simplify options e).isArithmetic h

theorem Simplifies.freeNames_subset (h : Simplifies options e s) :
    s.freeNames ⊆ e.freeNames := by
  induction h with
  | atom _ => exact List.Subset.refl _
  | function _ ih => exact List.filter_subset _ ih
  | @sum l r l' r' s _ _ hrule ihl ihr =>
    exact (Expr.compositional_freeNames (l.freeNames ++ r.freeNames)).of_sumRule hrule
      (List.subset_append_of_subset_left _ ihl) (List.subset_append_of_subset_right _ ihr)
  | minuend _ _ ihl _ => exact List.subset_append_of_subset_left _ ihl
  | subtrahend _ _ _ ihr => exact List.subset_append_of_subset_right _ ihr
  | @difference l r l' r' s _ _ _ _ hrule ihl ihr =>
    exact (Expr.compositional_freeNames (l.freeNames ++ r.freeNames)).of_differenceRule hrule
      (List.subset_append_of_subset_left _ ihl) (List.subset_append_of_subset_right _ ihr)
  | negatedZero _ _ => exact List.nil_subset _
  | doubleNegation _ _ ihe ih => exact List.Subset.trans ih ihe
  | negation _ _ _ ih => exact ih
  | @product l r l' r' s _ _ hrule ihl ihr =>
    exact (Expr.compositional_freeNames (l.freeNames ++ r.freeNames)).of_productRule hrule
      (List.subset_append_of_subset_left _ ihl) (List.subset_append_of_subset_right _ ihr)

/-- A simplified expression refers to no name that the expression does not refer to. -/
theorem freeNames_simplify_subset (options : Options) (e : Expr) :
    (simplify options e).freeNames ⊆ e.freeNames :=
  (simplifies_simplify options e).freeNames_subset

end IntCalculus
