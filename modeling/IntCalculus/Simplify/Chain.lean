/-
Collecting the like terms of a whole addition chain.

A chain is read as the list of its summands.  Constants add up to one constant,
linear terms in one variable to one coefficient at the place where the variable
first appears, and every other summand stays as it is.  The collected chain is
written back nested to the left, with the constant last.  When the overflow
policy declines one of the additions, nothing is collected.

`nodeCount_collected_le` is the statement this file exists for: collecting a
chain never makes it larger.  A coefficient other than 1 costs two nodes, and a
variable that was bare has one only after two of its occurrences have merged,
which pays for it.
-/
import IntCalculus.Simplify.Coefficient

namespace IntCalculus

/-- The summands of an addition chain, from left to right. -/
def Expr.summands : Expr → List Expr
  | .add l r => l.summands ++ r.summands
  | e => [e]

/-- The chain of some expressions, nested to the left; 0 if there are none. -/
def Expr.chain : List Expr → Expr
  | [] => .constant 0
  | first :: rest => rest.foldl .add first

/-- A summand of a collected chain. -/
inductive Summand where
  | linear (coefficient : Int32) (name : String)
  /-- Neither a constant nor a linear term. -/
  | other (term : Expr)

/-- What a chain has been collected into so far. -/
structure Collected where
  summands : List Summand
  constant : Int32

namespace Collected

def empty : Collected := ⟨[], 0⟩

/-- Add a linear term to the one in the same variable, or put it last if there
is none. -/
def insertLinear (policy : OverflowPolicy) (c : Int32) (x : String) :
    List Summand → Option (List Summand)
  | [] => some [.linear c x]
  | .linear d y :: rest =>
    if y = x then
      match policy.fold .plus d c with
      | some sum => some (.linear sum y :: rest)
      | none => none
    else
      match insertLinear policy c x rest with
      | some rest' => some (.linear d y :: rest')
      | none => none
  | .other t :: rest =>
    match insertLinear policy c x rest with
    | some rest' => some (.other t :: rest')
    | none => none

/-- Add one summand of the chain; none if the policy declines the addition. -/
def insert (policy : OverflowPolicy) (sofar : Collected) (term : Expr) : Option Collected :=
  match term.constant? with
  | some c =>
    match policy.fold .plus sofar.constant c with
    | some sum => some { sofar with constant := sum }
    | none => none
  | none =>
    match term.linear? with
    | some (c, x) =>
      match insertLinear policy c x sofar.summands with
      | some summands => some { sofar with summands := summands }
      | none => none
    | none => some { sofar with summands := sofar.summands ++ [.other term] }

def insertAll (policy : OverflowPolicy) (sofar : Collected) : List Expr → Option Collected
  | [] => some sofar
  | term :: rest =>
    match sofar.insert policy term with
    | some next => next.insertAll policy rest
    | none => none

/-- The terms a collected chain is written with: a coefficient 0 is left out, and
so is a constant 0. -/
def terms (collected : Collected) : List Expr :=
  collected.summands.filterMap (fun
    | .linear c x => if c = 0 then none else some (.scaled c (.var x))
    | .other t => some t) ++
  (if collected.constant = 0 then [] else [.constant collected.constant])

end Collected

/-- The sum of two expressions with the like terms of both chains collected. -/
def collectSum (policy : OverflowPolicy) (l r : Expr) : Expr :=
  match Collected.empty.insertAll policy (l.summands ++ r.summands) with
  | some collected => .chain collected.terms
  | none => .add l r

namespace Collected

/-! ## One step of the collection -/

variable {policy : OverflowPolicy}

/-- Adding `c * x` to a list of summands turns the first list into the second. -/
inductive Inserted (policy : OverflowPolicy) (c : Int32) (x : String) :
    List Summand → List Summand → Prop where
  | new : Inserted policy c x [] [.linear c x]
  | merge {d total : Int32} {rest : List Summand} (h : policy.fold .plus d c = some total) :
      Inserted policy c x (.linear d x :: rest) (.linear total x :: rest)
  | pass {s : Summand} {rest rest' : List Summand} (hs : ∀ d, s ≠ .linear d x)
      (h : Inserted policy c x rest rest') : Inserted policy c x (s :: rest) (s :: rest')

theorem inserted_of_insertLinear {c : Int32} {x : String} {summands summands' : List Summand}
    (h : insertLinear policy c x summands = some summands') :
    Inserted policy c x summands summands' := by
  induction summands generalizing summands' with
  | nil =>
    simp only [insertLinear, Option.some.injEq] at h
    rw [← h]
    exact .new
  | cons s rest ih =>
    cases s with
    | linear d y =>
      simp only [insertLinear] at h
      by_cases hy : y = x
      · rw [if_pos hy] at h
        subst hy
        split at h
        · rename_i total htotal
          simp only [Option.some.injEq] at h
          rw [← h]
          exact .merge htotal
        · cases h
      · rw [if_neg hy] at h
        split at h
        · rename_i rest' hrest
          simp only [Option.some.injEq] at h
          rw [← h]
          refine .pass (fun d' hd => hy ?_) (ih hrest)
          injection hd
        · cases h
    | other t =>
      simp only [insertLinear] at h
      split at h
      · rename_i rest' hrest
        simp only [Option.some.injEq] at h
        rw [← h]
        exact .pass (fun d hd => Summand.noConfusion hd) (ih hrest)
      · cases h

/-- Reading one summand of the chain turns what has been collected so far, the
first, into the second. -/
inductive Step (policy : OverflowPolicy) : Expr → Collected → Collected → Prop where
  | constant {sofar : Collected} {c total : Int32}
      (h : policy.fold .plus sofar.constant c = some total) :
      Step policy (.constant c) sofar ⟨sofar.summands, total⟩
  | linear {sofar : Collected} {term : Expr} {c : Int32} {x : String}
      {summands : List Summand} (hterm : term.linear? = some (c, x))
      (h : Inserted policy c x sofar.summands summands) :
      Step policy term sofar ⟨summands, sofar.constant⟩
  | other {sofar : Collected} {term : Expr} (hconstant : term.constant? = none)
      (hlinear : term.linear? = none) :
      Step policy term sofar ⟨sofar.summands ++ [.other term], sofar.constant⟩

theorem step_of_insert {sofar next : Collected} {term : Expr}
    (h : sofar.insert policy term = some next) : Step policy term sofar next := by
  unfold insert at h
  split at h
  · rename_i c hc
    rw [Expr.constant?_eq_some] at hc
    subst hc
    split at h
    · rename_i total htotal
      simp only [Option.some.injEq] at h
      rw [← h]
      exact .constant htotal
    · cases h
  · rename_i hconstant
    split at h
    · rename_i c x hterm
      split at h
      · rename_i summands hinsert
        simp only [Option.some.injEq] at h
        rw [← h]
        exact .linear hterm (inserted_of_insertLinear hinsert)
      · cases h
    · rename_i hlinear
      simp only [Option.some.injEq] at h
      rw [← h]
      exact .other hconstant hlinear

/-- What every step keeps holds after a run.  The invariant may speak of the
summands that have been read. -/
theorem invariant_of_insertAll {motive : List Expr → Collected → Prop}
    (hstep : ∀ read sofar term next, motive read sofar → Step policy term sofar next →
      motive (read ++ [term]) next)
    {read terms : List Expr} {sofar collected : Collected} (hstart : motive read sofar)
    (h : sofar.insertAll policy terms = some collected) :
    motive (read ++ terms) collected := by
  induction terms generalizing read sofar with
  | nil =>
    simp only [insertAll, Option.some.injEq] at h
    rw [List.append_nil, ← h]
    exact hstart
  | cons term rest ih =>
    simp only [insertAll] at h
    split at h
    · rename_i next hnext
      have hrest := ih (hstep read sofar term next hstart (step_of_insert hnext)) h
      rw [List.append_assoc] at hrest
      exact hrest
    · cases h

end Collected

/-! ## Size

A chain of `k` terms has one node less than the sum of `1 + nodeCount` over its
terms, its weight.  Each step of the collection keeps the weight of what is
collected within the weight of the summands read. -/

/-- The nodes of the terms of a chain, and one node more for each. -/
def Expr.weight : List Expr → Nat
  | [] => 0
  | t :: rest => 1 + t.nodeCount + weight rest

theorem Expr.weight_append (ts us : List Expr) :
    Expr.weight (ts ++ us) = Expr.weight ts + Expr.weight us := by
  induction ts with
  | nil => simp only [List.nil_append, weight, Nat.zero_add]
  | cons t rest ih =>
    simp only [List.cons_append, weight, ih]
    omega

theorem Expr.weight_summands (e : Expr) : Expr.weight e.summands = 1 + e.nodeCount := by
  induction e using Expr.summands.induct with
  | case1 l r ihl ihr =>
    simp only [summands, weight_append, ihl, ihr, nodeCount]
    omega
  | case2 e h =>
    simp only [summands, weight]
    omega

theorem Expr.nodeCount_foldl_add (terms : List Expr) (first : Expr) :
    (terms.foldl Expr.add first).nodeCount = first.nodeCount + Expr.weight terms := by
  induction terms generalizing first with
  | nil => rfl
  | cons t rest ih =>
    simp only [List.foldl_cons, ih, nodeCount, weight]
    omega

theorem Expr.nodeCount_chain_le (terms : List Expr) {bound : Nat}
    (h : Expr.weight terms ≤ bound + 1) (hb : 1 ≤ bound) :
    (Expr.chain terms).nodeCount ≤ bound := by
  cases terms with
  | nil => exact hb
  | cons t rest =>
    simp only [chain, nodeCount_foldl_add]
    simp only [weight] at h ⊢
    omega

namespace Collected

variable {policy : OverflowPolicy}

/-- What a collected summand is charged: the weight of the least term that could
have brought it in. -/
def charge : Summand → Nat
  | .linear c _ => if c = 1 then 2 else 4
  | .other t => 1 + t.nodeCount

def chargeAll : List Summand → Nat
  | [] => 0
  | s :: rest => charge s + chargeAll rest

theorem chargeAll_append (summands more : List Summand) :
    chargeAll (summands ++ more) = chargeAll summands + chargeAll more := by
  induction summands with
  | nil => simp only [List.nil_append, chargeAll, Nat.zero_add]
  | cons s rest ih =>
    simp only [List.cons_append, chargeAll, ih]
    omega

theorem charge_linear_bounds (c : Int32) (x : String) :
    2 ≤ charge (.linear c x) ∧ charge (.linear c x) ≤ 4 := by
  simp only [charge]
  split <;> omega

theorem charge_of_linear? {e : Expr} {c : Int32} {x : String}
    (h : e.linear? = some (c, x)) : charge (.linear c x) ≤ 1 + e.nodeCount := by
  rcases Expr.nodeCount_of_linear? h with ⟨hc, he⟩ | he
  · simp only [charge, hc, if_true]; omega
  · have := (charge_linear_bounds c x).2
    omega

theorem chargeAll_of_inserted {c : Int32} {x : String} {summands summands' : List Summand}
    (h : Inserted policy c x summands summands') :
    chargeAll summands' ≤ chargeAll summands + charge (.linear c x) := by
  induction h with
  | new => simp only [chargeAll]; omega
  | @merge d total rest _ =>
    have h1 := (charge_linear_bounds d x).1
    have h2 := (charge_linear_bounds c x).1
    have h3 := (charge_linear_bounds total x).2
    simp only [chargeAll]
    omega
  | pass _ _ ih =>
    simp only [chargeAll]
    omega

/-- The charge of the summands and of the constant together. -/
def total (collected : Collected) : Nat :=
  chargeAll collected.summands + if collected.constant = 0 then 0 else 2

theorem total_of_step {sofar next : Collected} {term : Expr} (h : Step policy term sofar next) :
    next.total ≤ sofar.total + (1 + term.nodeCount) := by
  cases h with
  | constant _ =>
    simp only [total, Expr.nodeCount]
    split <;> split <;> omega
  | linear hterm hinserted =>
    have h1 := chargeAll_of_inserted hinserted
    have h2 := charge_of_linear? hterm
    simp only [total]
    omega
  | other _ _ =>
    simp only [total, chargeAll_append, chargeAll, charge]
    omega

theorem total_of_insertAll {terms : List Expr} {collected : Collected}
    (h : empty.insertAll policy terms = some collected) :
    collected.total ≤ Expr.weight terms := by
  have hstart : empty.total ≤ Expr.weight [] := Nat.le_refl 0
  have hstep : ∀ read sofar term next, sofar.total ≤ Expr.weight read →
      Step policy term sofar next → next.total ≤ Expr.weight (read ++ [term]) := by
    intro read sofar term next hsofar hterm
    have hcharged := total_of_step hterm
    rw [Expr.weight_append]
    simp only [Expr.weight]
    omega
  exact invariant_of_insertAll (motive := fun read sofar => sofar.total ≤ Expr.weight read)
    hstep hstart h

theorem weight_terms_le (collected : Collected) :
    Expr.weight collected.terms ≤ collected.total := by
  obtain ⟨summands, constant⟩ := collected
  simp only [terms, total, Expr.weight_append]
  refine Nat.add_le_add ?_ ?_
  · induction summands with
    | nil => exact Nat.le_refl 0
    | cons s rest ih =>
      cases s with
      | linear c x =>
        by_cases hc : c = 0
        · simp only [List.filterMap_cons, hc, if_true, chargeAll]
          exact Nat.le_trans ih (Nat.le_add_left _ _)
        · simp only [List.filterMap_cons, hc, if_false, chargeAll, Expr.weight]
          refine Nat.add_le_add ?_ ih
          simp only [charge, Expr.scaled, hc, if_false]
          split <;> simp [Expr.nodeCount]
      | other t =>
        simp only [List.filterMap_cons, chargeAll, Expr.weight, charge]
        exact Nat.add_le_add (Nat.le_refl _) ih
  · split <;> simp [Expr.weight, Expr.nodeCount]

end Collected

/-- Collecting two sums and rebuilding them makes no node more than the sum of the
two had. -/
theorem nodeCount_collected_le {policy : OverflowPolicy} {l r : Expr} {collected : Collected}
    (h : Collected.empty.insertAll policy (l.summands ++ r.summands) = some collected) :
    (Expr.chain collected.terms).nodeCount ≤ 1 + l.nodeCount + r.nodeCount := by
  have htotal := Collected.total_of_insertAll h
  have hterms := Collected.weight_terms_le collected
  rw [Expr.weight_append, Expr.weight_summands, Expr.weight_summands] at htotal
  refine Expr.nodeCount_chain_le _ ?_ ?_
  · omega
  · omega

end IntCalculus
