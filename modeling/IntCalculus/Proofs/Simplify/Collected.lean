/-
What the collection of an addition chain keeps of the summands it reads.

The invariant of a collection is `Reads`: every variable has one linear term at
most, and every collected summand goes back to a summand that was read.
`origin_of_mem_terms` says the same of the terms that are written back, and is
what a property of terms is carried through a collection with.
-/
import Mathlib.Data.List.Induction
import Mathlib.Data.List.Nodup
import IntCalculus.Simplify.Chain

namespace IntCalculus

/-! ## Chains and their summands -/

theorem Expr.chain_append_singleton (terms : List Expr) (t : Expr) :
    Expr.chain (terms ++ [t]) = if terms = [] then t else .add (Expr.chain terms) t := by
  cases terms with
  | nil => rfl
  | cons first rest =>
    rw [if_neg (List.cons_ne_nil first rest)]
    show (rest ++ [t]).foldl Expr.add first = _
    rw [List.foldl_append]
    rfl

theorem Expr.summands_eq_singleton {e : Expr} (h : ∀ l r, e ≠ .add l r) : e.summands = [e] := by
  cases e with
  | add l r => exact absurd rfl (h l r)
  | _ => rfl

/-- No summand of a chain is a sum. -/
theorem Expr.summands_of_mem_summands {e t : Expr} (h : t ∈ e.summands) : t.summands = [t] := by
  induction e using Expr.summands.induct with
  | case1 l r ihl ihr =>
    rw [summands, List.mem_append] at h
    exact h.elim ihl ihr
  | case2 e hne =>
    have he : e.summands = [e] := summands_eq_singleton hne
    rw [he, List.mem_singleton] at h
    rw [h, he]

theorem Expr.summands_chain {terms : List Expr} (hne : terms ≠ [])
    (h : ∀ t ∈ terms, t.summands = [t]) : (Expr.chain terms).summands = terms := by
  induction terms using List.reverseRecOn with
  | nil => exact absurd rfl hne
  | append_singleton terms t ih =>
    have ht : t.summands = [t] := h t (List.mem_append_right _ List.mem_cons_self)
    rw [chain_append_singleton]
    by_cases hterms : terms = []
    · rw [if_pos hterms, ht, hterms]
      rfl
    · rw [if_neg hterms, summands,
        ih hterms (fun u hu => h u (List.mem_append_left _ hu)), ht]

namespace Collected

variable {policy : OverflowPolicy}

/-! ## What has been collected -/

/-- The variables of the linear terms, in order. -/
def names : List Summand → List String
  | [] => []
  | .linear _ x :: rest => x :: names rest
  | .other _ :: rest => names rest

theorem names_append (summands more : List Summand) :
    names (summands ++ more) = names summands ++ names more := by
  induction summands with
  | nil => rfl
  | cons s rest ih => cases s <;> simp only [List.cons_append, names, ih]

/-- A variable that has a linear term already gets no second one. -/
theorem names_of_inserted {c : Int32} {x : String} {summands summands' : List Summand}
    (h : Inserted policy c x summands summands') :
    names summands' = if x ∈ names summands then names summands else names summands ++ [x] := by
  induction h with
  | new => rfl
  | merge htotal => simp only [names, List.mem_cons, true_or, if_true]
  | @pass s rest rest' hs hinserted ih =>
    cases s with
    | linear d y =>
      have hy : x ≠ y := fun hxy => hs d (by rw [hxy])
      simp only [names, ih, List.mem_cons, hy, false_or]
      split <;> rfl
    | other t => exact ih

theorem mem_of_inserted {c : Int32} {x : String} {summands summands' : List Summand}
    (h : Inserted policy c x summands summands') {s : Summand} (hs : s ∈ summands') :
    s ∈ summands ∨ ∃ d, s = .linear d x := by
  induction h with
  | new => exact Or.inr ⟨c, List.mem_singleton.mp hs⟩
  | @merge d total rest htotal =>
    rcases List.mem_cons.mp hs with rfl | hrest
    · exact Or.inr ⟨total, rfl⟩
    · exact Or.inl (List.mem_cons_of_mem _ hrest)
  | pass _ _ ih =>
    rcases List.mem_cons.mp hs with rfl | hrest
    · exact Or.inl List.mem_cons_self
    · exact (ih hrest).imp_left (List.mem_cons_of_mem _)

/-- What has been collected goes back to the summands that have been read, and no
variable is collected twice. -/
structure Reads (read : List Expr) (collected : Collected) : Prop where
  nodup : (names collected.summands).Nodup
  linear : ∀ c x, .linear c x ∈ collected.summands → ∃ t ∈ read, ∃ d, t.linear? = some (d, x)
  other : ∀ t, .other t ∈ collected.summands →
    t ∈ read ∧ t.constant? = none ∧ t.linear? = none

theorem reads_empty : Reads [] empty where
  nodup := List.nodup_nil
  linear _ _ h := absurd h List.not_mem_nil
  other _ h := absurd h List.not_mem_nil

theorem Reads.mono {read more : List Expr} {collected : Collected}
    (h : Reads read collected) : Reads (read ++ more) collected where
  nodup := h.nodup
  linear c x hmem := by
    obtain ⟨t, ht, hlinear⟩ := h.linear c x hmem
    exact ⟨t, List.mem_append_left _ ht, hlinear⟩
  other t hmem := (h.other t hmem).imp_left (List.mem_append_left _)

theorem reads_step {read : List Expr} {sofar next : Collected} {term : Expr}
    (h : Reads read sofar) (hstep : Step policy term sofar next) :
    Reads (read ++ [term]) next := by
  have hmore : Reads (read ++ [term]) sofar := h.mono
  have hterm : term ∈ read ++ [term] := List.mem_append_right _ List.mem_cons_self
  cases hstep with
  | constant _ => exact ⟨hmore.nodup, hmore.linear, hmore.other⟩
  | @linear _ _ c x summands hlinear hinserted =>
    refine ⟨?_, fun d y hmem => ?_, fun t hmem => ?_⟩
    · rw [names_of_inserted hinserted]
      split
      · exact h.nodup
      · rename_i hx
        exact h.nodup.append (List.nodup_singleton x) (List.disjoint_singleton.mpr hx)
    · rcases mem_of_inserted hinserted hmem with hold | ⟨d', hnew⟩
      · exact hmore.linear d y hold
      · injection hnew with _ hy
        exact ⟨term, hterm, c, by rw [hy, hlinear]⟩
    · rcases mem_of_inserted hinserted hmem with hold | ⟨d, hnew⟩
      · exact hmore.other t hold
      · cases hnew
  | other hconstant hlinear =>
    refine ⟨?_, fun d y hmem => ?_, fun t hmem => ?_⟩
    · rw [names_append]
      exact (List.append_nil _).symm ▸ h.nodup
    · rcases List.mem_append.mp hmem with hold | hnew
      · exact hmore.linear d y hold
      · cases List.mem_singleton.mp hnew
    · rcases List.mem_append.mp hmem with hold | hnew
      · exact hmore.other t hold
      · injection List.mem_singleton.mp hnew with ht
        exact ⟨ht ▸ hterm, ht ▸ hconstant, ht ▸ hlinear⟩

theorem reads_of_insertAll {terms : List Expr} {collected : Collected}
    (h : empty.insertAll policy terms = some collected) : Reads terms collected :=
  invariant_of_insertAll (fun _ _ _ _ => reads_step) reads_empty h

/-! ## What is written back -/

/-- The term a summand is written with, if it is not 0. -/
def term? : Summand → Option Expr
  | .linear c x => if c = 0 then none else some (.scaled c (.var x))
  | .other t => some t

theorem terms_eq (collected : Collected) :
    collected.terms = collected.summands.filterMap term? ++
      if collected.constant = 0 then [] else [.constant collected.constant] := by
  have hterm : term? = fun
      | .linear c x => if c = 0 then none else some (.scaled c (.var x))
      | .other t => some t := by
    funext s
    cases s <;> rfl
  rw [hterm]
  rfl

/-- Where a term of a collected chain comes from. -/
inductive Origin (read : List Expr) : Expr → Prop where
  | other {t : Expr} (hread : t ∈ read) (hconstant : t.constant? = none)
      (hlinear : t.linear? = none) : Origin read t
  | linear {t : Expr} {c d : Int32} {x : String} (hread : t ∈ read)
      (hlinear : t.linear? = some (d, x)) (hc : c ≠ 0) : Origin read (.scaled c (.var x))
  | constant {c : Int32} (hc : c ≠ 0) : Origin read (.constant c)

theorem origin_of_mem_terms {read : List Expr} {collected : Collected}
    (h : Reads read collected) {t : Expr} (ht : t ∈ collected.terms) : Origin read t := by
  rw [terms_eq, List.mem_append, List.mem_filterMap] at ht
  rcases ht with ⟨s, hs, hterm⟩ | hconstant
  · cases s with
    | linear c x =>
      obtain ⟨u, hu, d, hlinear⟩ := h.linear c x hs
      by_cases hc : c = 0
      · simp only [term?, hc, if_true] at hterm
        cases hterm
      · simp only [term?, hc, if_false, Option.some.injEq] at hterm
        rw [← hterm]
        exact .linear hu hlinear hc
    | other u =>
      obtain ⟨hu, hconstant, hlinear⟩ := h.other u hs
      simp only [term?, Option.some.injEq] at hterm
      rw [← hterm]
      exact .other hu hconstant hlinear
  · by_cases hc : collected.constant = 0
    · rw [if_pos hc] at hconstant
      cases hconstant
    · rw [if_neg hc, List.mem_singleton] at hconstant
      rw [hconstant]
      exact .constant hc

end Collected
end IntCalculus
