/-
A simplified expression is settled: simplifying it again changes nothing.

`Settled` says that the rule of every node gives that node back.  The pass runs
once, from the leaves up, so each rule has to yield a settled result from
settled operands.  The rules that leave their node alone do so by definition.
A coefficient that is written back stands before a factor without one.  The
long case is a collected chain, every initial part of which has to be settled
before its next term is added.

The statement this file exists for is `simplify_simplify`.
-/
import IntCalculus.Proofs.Node
import IntCalculus.Proofs.Simplify.Canonical
import IntCalculus.Proofs.Simplify.Relation

namespace IntCalculus

/-- No rule changes a node of the expression. -/
def Expr.Settled (options : Options) : Expr → Prop
  | .add l r => l.Settled options ∧ r.Settled options ∧ sum options l r = .add l r
  | .sub l r => l.Settled options ∧ r.Settled options ∧ l.isZero = false ∧ r.isZero = false ∧
      difference options.overflow l r = .sub l r
  | .neg e => e.Settled options ∧ e.isZero = false ∧ ∀ inner, e ≠ .neg inner
  | .mul l r => l.Settled options ∧ r.Settled options ∧
      product options.overflow l r = .mul l r
  | .function _ body => body.Settled options
  | _ => True

/-- A settled expression is simplified to itself. -/
theorem simplify_of_settled {options : Options} :
    ∀ {e : Expr}, e.Settled options → simplify options e = e
  | .add l r, h => by
    obtain ⟨hl, hr, hrule⟩ := h
    rw [simplify_add, simplify_of_settled hl, simplify_of_settled hr, hrule]
  | .sub l r, h => by
    obtain ⟨hl, hr, hl0, hr0, hrule⟩ := h
    rw [simplify_sub, simplify_of_settled hl, simplify_of_settled hr, hl0, hr0, hrule]
    rfl
  | .neg e, h => by
    obtain ⟨he, hzero, hneg⟩ := h
    rw [simplify_neg, simplify_of_settled he, negation_of_ne_neg hneg, hzero]
    rfl
  | .mul l r, h => by
    obtain ⟨hl, hr, hrule⟩ := h
    rw [simplify_mul, simplify_of_settled hl, simplify_of_settled hr, hrule]
  | .function params body, h => by
    have hbody : body.Settled options := h
    rw [simplify_function, simplify_of_settled hbody]
  | .constant c, _ => simplify_constant options c
  | .bool b, _ => simplify_bool options b
  | .str s, _ => simplify_str options s
  | .var x, _ => simplify_var options x
  | .vector elements, _ => simplify_vector options elements
  | .derivative f x own, _ => simplify_derivative options f x own
  | .gradient f xs own, _ => simplify_gradient options f xs own

namespace Expr

variable {options : Options}

/-! ## Coefficients -/

theorem coefficient?_eq_none {e : Expr} (h : e.hasConstantFactor = false) :
    e.coefficient? = none := by
  rw [Option.eq_none_iff_forall_not_mem]
  rintro ⟨c, rest⟩ hmem
  obtain ⟨rfl | rfl, _, _⟩ := coefficient?_eq_some.mp hmem
  · simp [hasConstantFactor] at h
  · simp [hasConstantFactor] at h

theorem product_constant {policy : OverflowPolicy} {c : Int32} {e : Expr} (h0 : c ≠ 0)
    (h1 : c ≠ 1) (hconstant : e.constant? = none) (hfactor : e.hasConstantFactor = false) :
    product policy (constant c) e = mul (constant c) e := by
  have he0 : e.isZero = false := by rw [isZero, hconstant]; rfl
  have he1 : e.isOne = false := by rw [isOne, hconstant]; rfl
  simp only [product, isZero, isOne, constant?_constant, hconstant, scaleProduct?,
    coefficient?_eq_none hfactor]
  simp [h0, h1]

theorem settled_scaled {c : Int32} {e : Expr} (he : e.Settled options)
    (hconstant : e.constant? = none) (hfactor : e.hasConstantFactor = false) :
    (scaled c e).Settled options := by
  unfold scaled
  by_cases h0 : c = 0
  · rw [if_pos h0]
    trivial
  by_cases h1 : c = 1
  · rw [if_neg h0, if_pos h1]
    exact he
  · rw [if_neg h0, if_neg h1]
    exact ⟨trivial, he, product_constant h0 h1 hconstant hfactor⟩

theorem settled_scaled_var (c : Int32) (x : String) : (scaled c (var x)).Settled options :=
  settled_scaled trivial rfl rfl

theorem settled_of_coefficient? {e rest : Expr} {b c : Int32}
    (h : e.coefficient? = some (b, rest)) (he : e.Settled options) :
    (scaled c rest).Settled options := by
  obtain ⟨hproduct, hconstant, hfactor⟩ := coefficient?_eq_some.mp h
  rcases hproduct with rfl | rfl
  · exact settled_scaled he.2.1 hconstant hfactor
  · exact settled_scaled he.1 hconstant hfactor

theorem settled_of_mem_summands {e t : Expr} (he : e.Settled options) (ht : t ∈ e.summands) :
    t.Settled options := by
  induction e using Expr.summands.induct with
  | case1 l r ihl ihr =>
    rw [summands, List.mem_append] at ht
    exact ht.elim (ihl he.1) (ihr he.2.1)
  | case2 e hne =>
    rw [summands_eq_singleton hne, List.mem_singleton] at ht
    exact ht ▸ he

theorem settled_of_mem_parts {e t : Expr} (he : e.Settled options) (ht : t ∈ e.parts) :
    t.Settled options := by
  induction e using Expr.parts.induct with
  | case1 l r ihl ihr | case2 l r ihl ihr | case4 l r ihl ihr =>
    rw [parts, List.mem_cons, List.mem_append] at ht
    rcases ht with rfl | ht | ht
    · exact he
    · exact ihl he.1 ht
    · exact ihr he.2.1 ht
  | case3 e ih =>
    rw [parts, List.mem_cons] at ht
    rcases ht with rfl | ht
    · exact he
    · exact ih he.1 ht
  | case5 params body ih =>
    rw [parts, List.mem_cons] at ht
    rcases ht with rfl | ht
    · exact he
    · exact ih he ht
  | case6 e =>
    have ht' : t = e := by
      cases e <;> simp_all [parts]
    exact ht' ▸ he

end Expr

/-! ## Chains -/

theorem sum_of_extended {options : Options} {l r : Expr} (hmode : options.likeTerms = .extended)
    (hl : l.constant? = none) (hr : r.isZero = false) :
    sum options l r = collectSum options.overflow l r := by
  have hl0 : l.isZero = false := by rw [Expr.isZero, hl]; rfl
  simp only [sum, hl0, hr, hl, hmode, if_false, Bool.false_eq_true]

/-- A settled chain and a next term that is collected with nothing before it. -/
theorem settled_chain_append {options : Options} (hmode : options.likeTerms = .extended)
    {terms : List Expr} {t : Expr} {collected : Collected}
    (hsettled : (Expr.chain terms).Settled options) (ht : t.Settled options)
    (hconstant : ∀ u ∈ terms, u.constant? = none) (ht0 : t.isZero = false)
    (hsingle : ∀ u ∈ terms, u.summands = [u]) (htsingle : t.summands = [t])
    (h : Collected.empty.insertAll options.overflow (terms ++ [t]) = some collected)
    (hterms : collected.terms = terms ++ [t]) :
    (Expr.chain (terms ++ [t])).Settled options := by
  rw [Expr.chain_append_singleton]
  by_cases hne : terms = []
  · rw [if_pos hne]
    exact ht
  · rw [if_neg hne]
    refine ⟨hsettled, ht, ?_⟩
    rw [sum_of_extended hmode (Collected.constant?_chain hne hconstant) ht0]
    exact Collected.collectSum_chain hne hsingle htsingle h hterms

namespace Collected

theorem settled_chain_canonical {options : Options} (hmode : options.likeTerms = .extended)
    {summands : List Summand} (h : Canonical summands)
    (hsettled : ∀ s ∈ summands, (term s).Settled options) :
    (Expr.chain (summands.map term)).Settled options := by
  induction summands using List.reverseRecOn with
  | nil => trivial
  | append_singleton summands s ih =>
    have hs : s ∈ summands ++ [s] := List.mem_append_right _ List.mem_cons_self
    have hbefore := h.of_append
    have hchain := ih hbefore fun s' hs' => hsettled s' (List.mem_append_left _ hs')
    have hcollect : empty.insertAll options.overflow ((summands ++ [s]).map term) =
        some ⟨summands ++ [s], 0⟩ := insertAll_canonical h
    have hterms := terms_of_canonical h 0
    rw [List.map_append, List.map_singleton] at hcollect hterms ⊢
    rw [if_pos rfl, List.append_nil] at hterms
    have hzero : (term s).isZero = false := by
      rw [Expr.isZero, h.constant?_term hs]
      rfl
    exact settled_chain_append hmode hchain (hsettled s hs)
      (List.forall_mem_map.mpr fun _ => hbefore.constant?_term) hzero
      (List.forall_mem_map.mpr hbefore.single) (h.single s hs) hcollect hterms

/-- A collected chain of settled summands is settled. -/
theorem settled_chain_terms {options : Options} (hmode : options.likeTerms = .extended)
    {read : List Expr} {collected : Collected} (h : Reads read collected)
    (hsingle : ∀ t ∈ read, t.summands = [t]) (hsettled : ∀ t ∈ read, t.Settled options) :
    (Expr.chain collected.terms).Settled options := by
  have hlive := canonical_live h hsingle
  have hliveSettled : ∀ s ∈ live collected.summands, (term s).Settled options := by
    intro s hs
    cases s with
    | linear c x => exact Expr.settled_scaled_var c x
    | other t => exact hsettled t (h.other t (List.mem_filter.mp hs).1).1
  have hchain := settled_chain_canonical hmode hlive hliveSettled
  rw [terms_eq_live h hsingle]
  by_cases hk : collected.constant = 0
  · rw [if_pos hk, List.append_nil]
    exact hchain
  · rw [if_neg hk]
    have hzero : (Expr.constant collected.constant).isZero = false := by
      rw [← Bool.not_eq_true, Expr.isZero_iff]
      exact fun heq => hk (Expr.constant.inj heq)
    have hterms := terms_of_canonical hlive collected.constant
    rw [if_neg hk] at hterms
    exact settled_chain_append hmode hchain trivial
      (List.forall_mem_map.mpr fun _ => hlive.constant?_term) hzero
      (List.forall_mem_map.mpr hlive.single) rfl
      (insertAll_canonical_constant hlive collected.constant) hterms

end Collected

/-! ## The rules -/

variable {options : Options} {l r s : Expr}

theorem SumRule.settled (h : SumRule options l r s) (hl : l.Settled options)
    (hr : r.Settled options) : s.Settled options := by
  cases h with
  | zeroLeft => exact hr
  | zeroRight => exact hl
  | fold _ => trivial
  | merge _ _ _ => exact Expr.settled_scaled_var _ _
  | collect hmode hcollected =>
    refine Collected.settled_chain_terms hmode (Collected.reads_of_insertAll hcollected)
      (fun t ht => ?_) (fun t ht => ?_)
    · rcases List.mem_append.mp ht with ht | ht
      · exact Expr.summands_of_mem_summands ht
      · exact Expr.summands_of_mem_summands ht
    · rcases List.mem_append.mp ht with ht | ht
      · exact Expr.settled_of_mem_summands hl ht
      · exact Expr.settled_of_mem_summands hr ht
  | keep hkeep => exact ⟨hl, hr, hkeep⟩

theorem DifferenceRule.settled (h : DifferenceRule options.overflow l r s)
    (hl : l.Settled options) (hr : r.Settled options) (hl0 : l.isZero = false)
    (hr0 : r.isZero = false) : s.Settled options := by
  cases h with
  | fold _ => trivial
  | keep hkeep => exact ⟨hl, hr, hl0, hr0, hkeep⟩

theorem ProductRule.settled (h : ProductRule options.overflow l r s) (hl : l.Settled options)
    (hr : r.Settled options) : s.Settled options := by
  cases h with
  | zeroLeft | zeroRight => trivial
  | oneLeft => exact hr
  | oneRight => exact hl
  | fold _ => trivial
  | scaleRight hcoefficient _ => exact Expr.settled_of_coefficient? hcoefficient hr
  | scaleLeft hcoefficient _ => exact Expr.settled_of_coefficient? hcoefficient hl
  | keep hkeep => exact ⟨hl, hr, hkeep⟩

/-! ## The pass -/

theorem Simplifies.settled {e : Expr} (h : Simplifies options e s) : s.Settled options := by
  induction h with
  | @atom e hatom => cases e <;> trivial
  | function _ ih => exact ih
  | sum _ _ hrule ihl ihr => exact hrule.settled ihl ihr
  | minuend _ _ ihl _ => exact ihl
  | subtrahend _ _ _ ihr => exact ihr
  | difference _ _ hl0 hr0 hrule ihl ihr => exact hrule.settled ihl ihr hl0 hr0
  | negatedZero _ _ => trivial
  | doubleNegation _ _ _ ih => exact ih
  | negation _ hzero hneg ih => exact ⟨ih, hzero, hneg⟩
  | product _ _ hrule ihl ihr => exact hrule.settled ihl ihr

theorem settled_simplify (options : Options) (e : Expr) : (simplify options e).Settled options :=
  (simplifies_simplify options e).settled

/-- Simplifying twice is simplifying once, for every expression and all options. -/
theorem simplify_simplify (options : Options) (e : Expr) :
    simplify options (simplify options e) = simplify options e :=
  simplify_of_settled (settled_simplify options e)

end IntCalculus
