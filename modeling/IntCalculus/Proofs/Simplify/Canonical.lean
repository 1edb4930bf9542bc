/-
Chains that collect to themselves.

A list of summands is canonical when no two of them can be collected into one
and each is written with a term of its own.  Collecting the terms of such a list
gives the list back, for every initial part of it, and a constant may follow.
What a collection writes back is of this form: `canonical_live` says so for the
summands with a coefficient other than 0, and `collectSum_chain` that the sum of
such a chain and its next term is left as it is.
-/
import IntCalculus.Proofs.Simplify.Collected

namespace IntCalculus
namespace Collected

variable {policy : OverflowPolicy}

/-- The term a summand is written with. -/
def term : Summand → Expr
  | .linear c x => .scaled c (.var x)
  | .other t => t

/-- No two summands can be collected into one, and none is 0 or a sum. -/
structure Canonical (summands : List Summand) : Prop where
  nodup : (names summands).Nodup
  linear : ∀ c x, .linear c x ∈ summands → c ≠ 0
  other : ∀ t, .other t ∈ summands → t.constant? = none ∧ t.linear? = none
  single : ∀ s ∈ summands, (term s).summands = [term s]

theorem Canonical.of_append {summands more : List Summand} (h : Canonical (summands ++ more)) :
    Canonical summands where
  nodup := by
    have hnodup := h.nodup
    rw [names_append] at hnodup
    exact hnodup.of_append_left
  linear c x hmem := h.linear c x (List.mem_append_left _ hmem)
  other t hmem := h.other t (List.mem_append_left _ hmem)
  single s hmem := h.single s (List.mem_append_left _ hmem)

theorem constant?_scaled_var {c : Int32} (hc : c ≠ 0) (x : String) :
    (Expr.scaled c (.var x)).constant? = none := by
  unfold Expr.scaled
  rw [if_neg hc]
  split <;> rfl

theorem linear?_scaled_var {c : Int32} (hc : c ≠ 0) (x : String) :
    (Expr.scaled c (.var x)).linear? = some (c, x) := by
  unfold Expr.scaled
  rw [if_neg hc]
  split
  · rename_i h1
    rw [h1]
    rfl
  · rfl

theorem Canonical.constant?_term {summands : List Summand} (h : Canonical summands)
    {s : Summand} (hs : s ∈ summands) : (term s).constant? = none := by
  cases s with
  | linear c x => exact constant?_scaled_var (h.linear c x hs) x
  | other t => exact (h.other t hs).1

theorem insertLinear_of_notMem {c : Int32} {x : String} {summands : List Summand}
    (h : x ∉ names summands) :
    insertLinear policy c x summands = some (summands ++ [.linear c x]) := by
  induction summands with
  | nil => rfl
  | cons s rest ih =>
    cases s with
    | linear d y =>
      simp only [names, List.mem_cons, not_or] at h
      simp only [insertLinear, if_neg (Ne.symm h.1), ih h.2, List.cons_append]
    | other t =>
      simp only [insertLinear, ih h, List.cons_append]

/-- A summand that nothing read before can be collected with is put last. -/
theorem insert_term {done rest : List Summand} {s : Summand} {k : Int32}
    (h : Canonical (done ++ s :: rest)) :
    insert policy ⟨done, k⟩ (term s) = some ⟨done ++ [s], k⟩ := by
  have hs : s ∈ done ++ s :: rest := List.mem_append_right _ List.mem_cons_self
  cases s with
  | linear c x =>
    have hc := h.linear c x hs
    have hx : x ∉ names done := by
      have hnodup := h.nodup
      rw [names_append] at hnodup
      exact fun hmem => List.disjoint_of_nodup_append hnodup hmem List.mem_cons_self
    simp only [insert, term, constant?_scaled_var hc, linear?_scaled_var hc,
      insertLinear_of_notMem hx]
  | other t =>
    obtain ⟨hconstant, hlinear⟩ := h.other t hs
    simp only [insert, term, hconstant, hlinear]

theorem insertAll_terms {rest : List Summand} : ∀ {done : List Summand} {k : Int32},
    Canonical (done ++ rest) →
      insertAll policy ⟨done, k⟩ (rest.map term) = some ⟨done ++ rest, k⟩ := by
  induction rest with
  | nil =>
    intro done k _
    rw [List.append_nil]
    rfl
  | cons s rest ih =>
    intro done k h
    have hrest : Canonical ((done ++ [s]) ++ rest) := by
      rw [List.append_assoc]
      exact h
    rw [List.map_cons, insertAll, insert_term h]
    show insertAll policy ⟨done ++ [s], k⟩ (rest.map term) = _
    rw [ih hrest, List.append_assoc]
    rfl

theorem filterMap_term? {summands : List Summand} (h : Canonical summands) :
    summands.filterMap term? = summands.map term := by
  rw [← List.filterMap_eq_map]
  refine List.filterMap_congr fun s hs => ?_
  cases s with
  | linear c x => exact if_neg (h.linear c x hs)
  | other t => rfl

/-! ## Several terms, and a constant after them -/

theorem insertAll_append {terms more : List Expr} {sofar next : Collected}
    (h : sofar.insertAll policy terms = some next) :
    sofar.insertAll policy (terms ++ more) = next.insertAll policy more := by
  induction terms generalizing sofar with
  | nil =>
    simp only [insertAll, Option.some.injEq] at h
    rw [List.nil_append, h]
  | cons t rest ih =>
    rw [List.cons_append]
    simp only [insertAll] at h ⊢
    cases hmid : sofar.insert policy t with
    | none =>
      rw [hmid] at h
      cases h
    | some mid =>
      rw [hmid] at h
      exact ih h

theorem fold_zero_plus (policy : OverflowPolicy) (k : Int32) :
    policy.fold .plus 0 k = some k := by
  have hexact : Operator.plus.exact (0 : Int32).toInt k.toInt = k.toInt := by
    rw [Operator.exact, Int32.toInt_zero, Int.zero_add]
  rw [OverflowPolicy.fold, hexact, OverflowPolicy.fit_of_inRange (inRange_toInt k),
    Int32.ofInt_toInt]

theorem insertAll_canonical {summands : List Summand} (h : Canonical summands) :
    empty.insertAll policy (summands.map term) = some ⟨summands, 0⟩ := by
  have hall : Canonical ([] ++ summands) := h
  exact insertAll_terms hall

theorem insertAll_canonical_constant {summands : List Summand} (h : Canonical summands)
    (k : Int32) :
    empty.insertAll policy (summands.map term ++ [.constant k]) = some ⟨summands, k⟩ := by
  rw [insertAll_append (insertAll_canonical h)]
  simp only [insertAll, insert, Expr.constant?_constant, fold_zero_plus]

theorem terms_of_canonical {summands : List Summand} (h : Canonical summands) (k : Int32) :
    terms ⟨summands, k⟩ = summands.map term ++ if k = 0 then [] else [.constant k] := by
  rw [terms_eq, filterMap_term? h]

theorem constant?_chain {terms : List Expr} (hne : terms ≠ [])
    (h : ∀ t ∈ terms, t.constant? = none) : (Expr.chain terms).constant? = none := by
  induction terms using List.reverseRecOn with
  | nil => exact absurd rfl hne
  | append_singleton terms t _ =>
    rw [Expr.chain_append_singleton]
    split
    · exact h t (List.mem_append_right _ List.mem_cons_self)
    · rfl

/-- The next term of a chain that collects to itself. -/
theorem collectSum_chain {terms : List Expr} {t : Expr} {collected : Collected}
    (hne : terms ≠ []) (hsingle : ∀ u ∈ terms, u.summands = [u]) (ht : t.summands = [t])
    (h : empty.insertAll policy (terms ++ [t]) = some collected)
    (hterms : collected.terms = terms ++ [t]) :
    collectSum policy (Expr.chain terms) t = .add (Expr.chain terms) t := by
  unfold collectSum
  rw [Expr.summands_chain hne hsingle, ht, h]
  show Expr.chain collected.terms = _
  rw [hterms, Expr.chain_append_singleton, if_neg hne]

/-! ## What is written back -/

/-- The summands that are written back. -/
def live (summands : List Summand) : List Summand :=
  summands.filter fun s => (term? s).isSome

theorem names_sublist {summands more : List Summand} (h : summands.Sublist more) :
    (names summands).Sublist (names more) := by
  induction h with
  | slnil => exact List.Sublist.refl _
  | @cons _ _ s _ ih =>
    cases s with
    | linear c x => exact ih.cons x
    | other t => exact ih
  | @cons_cons _ _ s _ ih =>
    cases s with
    | linear c x => exact ih.cons_cons x
    | other t => exact ih

theorem ne_zero_of_mem_live {summands : List Summand} {c : Int32} {x : String}
    (h : .linear c x ∈ live summands) : c ≠ 0 := by
  intro hc
  have hsome := (List.mem_filter.mp h).2
  rw [term?, if_pos hc] at hsome
  cases hsome

theorem summands_scaled_var {c : Int32} (hc : c ≠ 0) (x : String) :
    (Expr.scaled c (.var x)).summands = [.scaled c (.var x)] := by
  refine Expr.summands_eq_singleton fun l r h => ?_
  have hlinear := linear?_scaled_var hc x
  rw [h] at hlinear
  cases hlinear

theorem canonical_live {read : List Expr} {collected : Collected}
    (h : Reads read collected) (hread : ∀ t ∈ read, t.summands = [t]) :
    Canonical (live collected.summands) where
  nodup := h.nodup.sublist (names_sublist List.filter_sublist)
  linear _ _ hmem := ne_zero_of_mem_live hmem
  other t hmem := (h.other t (List.mem_filter.mp hmem).1).2
  single s hmem := by
    cases s with
    | linear c x => exact summands_scaled_var (ne_zero_of_mem_live hmem) x
    | other t => exact hread t (h.other t (List.mem_filter.mp hmem).1).1

theorem terms_eq_live {read : List Expr} {collected : Collected}
    (h : Reads read collected) (hread : ∀ t ∈ read, t.summands = [t]) :
    collected.terms = (live collected.summands).map term ++
      if collected.constant = 0 then [] else [.constant collected.constant] := by
  have hlive : (live collected.summands).filterMap term? =
      collected.summands.filterMap term? := by
    rw [live, List.filterMap_filter]
    refine List.filterMap_congr fun s _ => ?_
    cases hs : term? s <;> rfl
  rw [terms_eq, ← hlive, filterMap_term? (canonical_live h hread)]

end Collected
end IntCalculus
