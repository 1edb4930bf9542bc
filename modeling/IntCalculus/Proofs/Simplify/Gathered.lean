/-
What a collection comes to.

A collection goes through the summands of a chain once and changes a list as it goes.
Here its result is said directly, one summand after the other: a constant contributes
nothing, the first linear term in a variable the multiple of that variable with the total
of all its coefficients, a later one nothing, and any other summand itself.  The total of
the constants comes last.

`Gathers` is the invariant of the collection.  The coefficients collected so far are the
totals over what has been read, and the places of the summands are those of what has been
read.  A place is known before its total is, so that part of the invariant is said for any
coefficients.

A total exists unless the policy declines one of its additions, and then nothing is
collected.  The statement this file exists for is `collectSum_eq_gathered`.
-/
import IntCalculus.Proofs.Simplify.Sums

namespace IntCalculus

/-! ## Totals under a policy -/

/-- The constants added up from left to right, if the policy folds every addition. -/
def OverflowPolicy.total? (policy : OverflowPolicy) : List Int32 → Option Int32
  | [] => some 0
  | c :: rest => rest.foldlM (policy.fold .plus) c

namespace OverflowPolicy

variable {policy : OverflowPolicy} {cs : List Int32}

theorem total?_append_singleton {total : Int32} (h : policy.total? cs = some total) (c : Int32) :
    policy.total? (cs ++ [c]) = policy.fold .plus total c := by
  cases cs with
  | nil =>
    rw [total?, Option.some.injEq] at h
    rw [← h]
    exact (Collected.fold_zero_plus policy c).symm
  | cons first rest =>
    rw [total?] at h
    rw [List.cons_append, total?, List.foldlM_append, h]
    simp only [List.foldlM_cons, List.foldlM_nil, bind_pure]
    rfl

theorem total?_append_of_eq_none (h : policy.total? cs = none) (more : List Int32) :
    policy.total? (cs ++ more) = none := by
  cases cs with
  | nil => cases h
  | cons first rest =>
    rw [total?] at h
    rw [List.cons_append, total?, List.foldlM_append, h]
    rfl

end OverflowPolicy

namespace Expr

/-! ## What the summands contribute -/

/-- The constants among the summands. -/
def constants (terms : List Expr) : List Int32 := terms.filterMap constant?

/-- The coefficients of the linear terms in `x`. -/
def coefficients (x : String) (terms : List Expr) : List Int32 :=
  ((terms.filterMap linear?).filter fun linear => linear.2 = x).map Prod.fst

/-- The term for `c * x` in a sum, which has none if `c` is 0. -/
def multiple (c : Int32) (x : String) : List Expr :=
  if c = 0 then [] else if c = 1 then [var x] else [mul (constant c) (var x)]

/-- What a summand contributes behind the summands `passed`, if the total of the
coefficients of `x` is `coefficient x`. -/
def contribution (coefficient : String → Int32) (passed : List Expr) (t : Expr) : List Expr :=
  match t.constant?, t.linear? with
  | some _, _ => []
  | none, some (_, x) => if coefficients x passed = [] then multiple (coefficient x) x else []
  | none, none => [t]

def contributions (coefficient : String → Int32) (passed : List Expr) : List Expr → List Expr
  | [] => []
  | t :: rest =>
    contribution coefficient passed t ++ contributions coefficient (passed ++ [t]) rest

theorem constants_append (terms more : List Expr) :
    constants (terms ++ more) = constants terms ++ constants more := List.filterMap_append

theorem constants_append_of_constant?_eq_none (terms : List Expr) {t : Expr}
    (h : t.constant? = none) : constants (terms ++ [t]) = constants terms := by
  have ht : constants [t] = [] := List.filterMap_cons_none h
  rw [constants_append, ht, List.append_nil]

theorem coefficients_append (x : String) (terms more : List Expr) :
    coefficients x (terms ++ more) = coefficients x terms ++ coefficients x more := by
  rw [coefficients, List.filterMap_append, List.filter_append, List.map_append]
  rfl

theorem coefficients_append_of_linear? (terms : List Expr) {t : Expr} {c : Int32} {x : String}
    (h : t.linear? = some (c, x)) (y : String) :
    coefficients y (terms ++ [t]) = coefficients y terms ++ if x = y then [c] else [] := by
  have ht : coefficients y [t] = if x = y then [c] else [] := by
    rw [coefficients, List.filterMap_cons_some h]
    by_cases hxy : x = y <;> simp [hxy]
  rw [coefficients_append, ht]

theorem coefficients_append_of_linear?_eq_none (terms : List Expr) {t : Expr}
    (h : t.linear? = none) (x : String) :
    coefficients x (terms ++ [t]) = coefficients x terms := by
  have ht : coefficients x [t] = [] := by
    rw [coefficients, List.filterMap_cons_none h]
    rfl
  rw [coefficients_append, ht, List.append_nil]

theorem contributions_append (coefficient : String → Int32) (passed terms more : List Expr) :
    contributions coefficient passed (terms ++ more) = contributions coefficient passed terms ++
      contributions coefficient (passed ++ terms) more := by
  induction terms generalizing passed with
  | nil =>
    rw [List.append_nil]
    rfl
  | cons t rest ih =>
    rw [List.cons_append, contributions, contributions, ih, List.append_assoc, List.append_assoc]
    rfl

/-- The first linear term in a variable stands for all of them. -/
theorem contributions_of_linear? (coefficient : String → Int32) (passed : List Expr) {t : Expr}
    {c : Int32} {x : String} (h : t.linear? = some (c, x)) :
    contributions coefficient passed [t] =
      if coefficients x passed = [] then multiple (coefficient x) x else [] := by
  simp only [contributions, contribution, constant?_of_linear? h, h, List.append_nil]

theorem contributions_of_other (coefficient : String → Int32) (passed : List Expr) {t : Expr}
    (hconstant : t.constant? = none) (hlinear : t.linear? = none) :
    contributions coefficient passed [t] = [t] := by
  simp only [contributions, contribution, hconstant, hlinear, List.append_nil]

end Expr

namespace Collected

open IntCalculus.Expr (constants coefficients multiple contributions)

variable {policy : OverflowPolicy}

/-! ## The invariant of a collection -/

/-- The term of a summand, if the total of the coefficients of `x` is `coefficient x`. -/
def written (coefficient : String → Int32) : Summand → List Expr
  | .linear _ x => multiple (coefficient x) x
  | .other t => [t]

structure Gathers (policy : OverflowPolicy) (read : List Expr) (collected : Collected) :
    Prop where
  constant : policy.total? (constants read) = some collected.constant
  coefficient : ∀ x, ∃ c, policy.total? (coefficients x read) = some c ∧
    coefficientIn x collected.summands = c.toInt
  names : ∀ x, x ∈ names collected.summands ↔ coefficients x read ≠ []
  contributions : ∀ coefficient,
    contributions coefficient [] read = collected.summands.flatMap (written coefficient)

theorem gathers_empty : Gathers policy [] empty where
  constant := rfl
  coefficient _ := ⟨0, rfl, rfl⟩
  names _ := ⟨fun h => absurd h List.not_mem_nil, fun h => absurd rfl h⟩
  contributions _ := rfl

theorem mem_names_of_inserted {c : Int32} {x : String} {summands summands' : List Summand}
    (h : Inserted policy c x summands summands') (y : String) :
    y ∈ names summands' ↔ y ∈ names summands ∨ x = y := by
  rw [names_of_inserted h]
  split
  · rename_i hx
    exact ⟨Or.inl, fun hy => hy.elim id fun hxy => hxy ▸ hx⟩
  · rw [List.mem_append, List.mem_singleton]
    exact or_congr_right eq_comm

/-- A variable that has a place already gets no other one. -/
theorem flatMap_written_of_inserted (coefficient : String → Int32) {c : Int32} {x : String}
    {summands summands' : List Summand} (h : Inserted policy c x summands summands') :
    summands'.flatMap (written coefficient) = summands.flatMap (written coefficient) ++
      if x ∈ names summands then [] else multiple (coefficient x) x := by
  induction h with
  | new => exact List.append_nil _
  | @merge d total rest _ =>
    have hx : x ∈ names (.linear d x :: rest) := List.mem_cons_self
    rw [if_pos hx, List.append_nil]
    rfl
  | @pass s rest rest' hs _ ih =>
    rw [List.flatMap_cons, List.flatMap_cons, ih, List.append_assoc]
    cases s with
    | linear d y =>
      have hy : x ≠ y := fun hxy => hs d (by rw [hxy])
      simp only [names, List.mem_cons, hy, false_or]
    | other t => rfl

namespace Gathers

variable {read : List Expr} {sofar : Collected}

theorem constant_step (h : Gathers policy read sofar) {c total : Int32}
    (hfold : policy.fold .plus sofar.constant c = some total) :
    Gathers policy (read ++ [.constant c]) ⟨sofar.summands, total⟩ := by
  have hcoefficients : ∀ x, coefficients x (read ++ [.constant c]) = coefficients x read :=
    Expr.coefficients_append_of_linear?_eq_none read rfl
  refine ⟨?_, fun x => ?_, fun x => ?_, fun coefficient => ?_⟩
  · rw [Expr.constants_append]
    exact (OverflowPolicy.total?_append_singleton h.constant c).trans hfold
  · rw [hcoefficients]
    exact h.coefficient x
  · rw [hcoefficients]
    exact h.names x
  · rw [Expr.contributions_append, h.contributions]
    exact List.append_nil _

theorem linear_step (h : Gathers policy read sofar) {term : Expr} {c : Int32} {x : String}
    {summands : List Summand} (hlinear : term.linear? = some (c, x))
    (hinserted : Inserted policy c x sofar.summands summands) :
    Gathers policy (read ++ [term]) ⟨summands, sofar.constant⟩ := by
  have hconstants : constants (read ++ [term]) = constants read :=
    Expr.constants_append_of_constant?_eq_none read (Expr.constant?_of_linear? hlinear)
  have hcoefficients : ∀ y, coefficients y (read ++ [term]) =
      coefficients y read ++ if x = y then [c] else [] :=
    Expr.coefficients_append_of_linear? read hlinear
  refine ⟨?_, fun y => ?_, fun y => ?_, fun coefficient => ?_⟩
  · rw [hconstants]
    exact h.constant
  · obtain ⟨d, hd, hin⟩ := h.coefficient y
    rw [hcoefficients]
    by_cases hxy : x = y
    · subst hxy
      obtain ⟨d', total, hfold, hd', htotal⟩ := fold_of_inserted hinserted
      have hdd' : d = d' := Int32.toInt_inj.mp (hin.symm.trans hd')
      refine ⟨total, ?_, htotal⟩
      rw [if_pos rfl, OverflowPolicy.total?_append_singleton hd, hdd']
      exact hfold
    · rw [if_neg hxy, List.append_nil]
      exact ⟨d, hd, (coefficientIn_of_inserted_of_ne hinserted hxy).trans hin⟩
  · rw [mem_names_of_inserted hinserted, h.names, hcoefficients]
    by_cases hxy : x = y
    · rw [if_pos hxy]
      exact iff_of_true (Or.inr hxy)
        (List.append_ne_nil_of_right_ne_nil _ (List.cons_ne_nil c []))
    · rw [if_neg hxy, List.append_nil]
      exact or_iff_left hxy
  · rw [Expr.contributions_append, h.contributions, flatMap_written_of_inserted _ hinserted,
      List.nil_append, Expr.contributions_of_linear? _ _ hlinear]
    -- The variable has a place exactly where a linear term in it has been read before.
    by_cases hx : coefficients x read = []
    · rw [if_pos hx, if_neg fun hmem => (h.names x).mp hmem hx]
    · rw [if_neg hx, if_pos ((h.names x).mpr hx)]

theorem other_step (h : Gathers policy read sofar) {term : Expr}
    (hconstant : term.constant? = none) (hlinear : term.linear? = none) :
    Gathers policy (read ++ [term]) ⟨sofar.summands ++ [.other term], sofar.constant⟩ := by
  have hconstants : constants (read ++ [term]) = constants read :=
    Expr.constants_append_of_constant?_eq_none read hconstant
  have hcoefficients : ∀ x, coefficients x (read ++ [term]) = coefficients x read :=
    Expr.coefficients_append_of_linear?_eq_none read hlinear
  have hnames : Collected.names (sofar.summands ++ [.other term]) =
      Collected.names sofar.summands := by
    rw [names_append]
    exact List.append_nil _
  refine ⟨?_, fun x => ?_, fun x => ?_, fun coefficient => ?_⟩
  · rw [hconstants]
    exact h.constant
  · obtain ⟨c, hc, hin⟩ := h.coefficient x
    rw [hcoefficients]
    exact ⟨c, hc, (coefficientIn_append_other x _ term).trans hin⟩
  · rw [hcoefficients, hnames]
    exact h.names x
  · rw [Expr.contributions_append, h.contributions, List.flatMap_append,
      Expr.contributions_of_other _ _ hconstant hlinear]
    rfl

end Gathers

theorem gathers_of_insertAll {terms : List Expr} {collected : Collected}
    (h : empty.insertAll policy terms = some collected) : Gathers policy terms collected := by
  refine invariant_of_insertAll (fun read sofar term next hread hstep => ?_) gathers_empty h
  cases hstep with
  | constant hfold => exact hread.constant_step hfold
  | linear hlinear hinserted => exact hread.linear_step hlinear hinserted
  | other hconstant hlinear => exact hread.other_step hconstant hlinear

/-! ## Where an addition is declined -/

/-- The policy declines one of the additions, of the constants or of the coefficients of
the variable of a linear term. -/
def Declined (policy : OverflowPolicy) (terms : List Expr) : Prop :=
  policy.total? (constants terms) = none ∨
    ∃ linear ∈ terms.filterMap Expr.linear?, policy.total? (coefficients linear.2 terms) = none

instance (policy : OverflowPolicy) (terms : List Expr) : Decidable (Declined policy terms) :=
  inferInstanceAs (Decidable (_ ∨ _))

theorem Declined.append {terms : List Expr} (h : Declined policy terms) (more : List Expr) :
    Declined policy (terms ++ more) := by
  rcases h with hconstants | ⟨linear, hlinear, hcoefficients⟩
  · refine Or.inl ?_
    rw [Expr.constants_append]
    exact OverflowPolicy.total?_append_of_eq_none hconstants _
  · refine Or.inr ⟨linear, ?_, ?_⟩
    · rw [List.filterMap_append]
      exact List.mem_append_left _ hlinear
    · rw [Expr.coefficients_append]
      exact OverflowPolicy.total?_append_of_eq_none hcoefficients _

/-- The addition that ends a collection is one of the totals'. -/
theorem Gathers.declined {read : List Expr} {sofar : Collected} {term : Expr}
    (h : Gathers policy read sofar) (hterm : sofar.insert policy term = none) :
    Declined policy (read ++ [term]) := by
  obtain ⟨a, b, hfold, hcause⟩ := insert_eq_none hterm
  rcases hcause with ⟨rfl, rfl⟩ | ⟨x, hlinear, ha⟩
  · refine Or.inl ?_
    rw [Expr.constants_append]
    exact (OverflowPolicy.total?_append_singleton h.constant b).trans hfold
  · obtain ⟨c, hc, hin⟩ := h.coefficient x
    have hca : c = a := Int32.toInt_inj.mp (hin.symm.trans ha)
    refine Or.inr ⟨(b, x), ?_, ?_⟩
    · exact List.mem_filterMap.mpr ⟨term, List.mem_append_right _ List.mem_cons_self, hlinear⟩
    · rw [Expr.coefficients_append_of_linear? read hlinear, if_pos rfl,
        OverflowPolicy.total?_append_singleton hc, hca]
      exact hfold

/-- A collection is given up exactly where one of its additions is declined. -/
theorem declined_iff {terms : List Expr} :
    Declined policy terms ↔ empty.insertAll policy terms = none := by
  constructor
  · intro h
    cases hcollected : empty.insertAll policy terms with
    | none => rfl
    | some collected =>
      have hgathers := gathers_of_insertAll hcollected
      rcases h with hconstants | ⟨linear, _, hcoefficients⟩
      · cases hgathers.constant.symm.trans hconstants
      · obtain ⟨c, hc, _⟩ := hgathers.coefficient linear.2
        cases hc.symm.trans hcoefficients
  · intro h
    obtain ⟨before, term, after, mid, rfl, hmid, hterm⟩ := insertAll_eq_none h
    rw [List.append_cons]
    exact ((gathers_of_insertAll hmid).declined hterm).append after

/-! ## The collected chain -/

/-- The totals of a chain none of whose additions is declined. -/
structure Totals (policy : OverflowPolicy) (terms : List Expr) where
  coefficient : String → Int32
  constant : Int32
  coefficient_eq : ∀ x, policy.total? (coefficients x terms) = some (coefficient x)
  constant_eq : policy.total? (constants terms) = some constant

/-- What the summands contribute, and the total of the constants if it is not 0. -/
def Totals.gathered {terms : List Expr} (totals : Totals policy terms) : List Expr :=
  contributions totals.coefficient [] terms ++
    if totals.constant = 0 then [] else [.constant totals.constant]

theorem coefficientIn_of_mem {c : Int32} {x : String} {summands : List Summand}
    (hnodup : (names summands).Nodup) (h : .linear c x ∈ summands) :
    coefficientIn x summands = c.toInt := by
  induction summands with
  | nil => cases h
  | cons s rest ih =>
    cases s with
    | linear d y =>
      obtain ⟨hy, hrest⟩ := List.nodup_cons.mp hnodup
      rcases List.mem_cons.mp h with hfirst | hmem
      · cases hfirst
        exact if_pos rfl
      · have hyx : y ≠ x := fun hyx => hy (hyx ▸ mem_names hmem)
        exact (if_neg hyx).trans (ih hrest hmem)
    | other t =>
      rcases List.mem_cons.mp h with hfirst | hmem
      · cases hfirst
      · exact ih hnodup hmem

/-- With the totals for its coefficients, a collection is written as it has collected. -/
theorem terms_eq_gathered {terms : List Expr} {collected : Collected}
    (hreads : Reads terms collected) (h : Gathers policy terms collected)
    (totals : Totals policy terms) : collected.terms = totals.gathered := by
  have hconstant : collected.constant = totals.constant :=
    Option.some.inj (h.constant.symm.trans totals.constant_eq)
  have hwritten : ∀ s ∈ collected.summands, (term? s).toList = written totals.coefficient s := by
    intro s hs
    cases s with
    | linear c x =>
      obtain ⟨d, hd, hin⟩ := h.coefficient x
      have hdtotal : d = totals.coefficient x :=
        Option.some.inj (hd.symm.trans (totals.coefficient_eq x))
      have hcd : c = d :=
        Int32.toInt_inj.mp ((coefficientIn_of_mem hreads.nodup hs).symm.trans hin)
      rw [written, ← hdtotal, ← hcd, term?, multiple, Expr.scaled]
      split_ifs <;> rfl
    | other t => rfl
  rw [terms_eq, Totals.gathered, h.contributions, hconstant, List.filterMap_eq_flatMap_toList,
    List.flatMap_congr hwritten]

end Collected

/-- A chain is its terms added up from left to right, and 0 if there are none. -/
theorem Expr.eq_chain_iff {terms : List Expr} {e : Expr} :
    e = chain terms ↔ (terms = [] → e = constant 0) ∧
      ∀ first rest, terms = first :: rest → e = rest.foldl add first := by
  cases terms with
  | nil =>
    constructor
    · intro h
      refine ⟨fun _ => h, fun first rest hterms => ?_⟩
      cases hterms
    · exact fun h => h.1 rfl
  | cons first rest =>
    constructor
    · intro h
      refine ⟨fun hterms => ?_, fun first' rest' hterms => ?_⟩
      · cases hterms
      · cases hterms
        exact h
    · exact fun h => h.2 first rest rfl

/-- The sum of two expressions with the like terms collected adds up from left to right what
the summands of both contribute, with the totals of the coefficients and of the constants,
and is 0 if they contribute nothing.  Where the policy declines an addition of these, which
only the checked one does, it is the plain sum. -/
theorem collectSum_eq_gathered (policy : OverflowPolicy) (l r : Expr) :
    (¬ Collected.Declined policy (l.summands ++ r.summands) →
      ∃ totals : Collected.Totals policy (l.summands ++ r.summands),
        (totals.gathered = [] → collectSum policy l r = .constant 0) ∧
          ∀ first rest, totals.gathered = first :: rest →
            collectSum policy l r = rest.foldl .add first) ∧
    (Collected.Declined policy (l.summands ++ r.summands) →
      policy = .checked ∧ collectSum policy l r = .add l r) := by
  constructor
  · intro h
    rw [Collected.declined_iff] at h
    obtain ⟨collected, hcollected⟩ := Option.ne_none_iff_exists'.mp h
    have hgathers := Collected.gathers_of_insertAll hcollected
    choose coefficient hcoefficient _ using hgathers.coefficient
    refine ⟨⟨coefficient, collected.constant, hcoefficient, hgathers.constant⟩, ?_⟩
    rw [← Expr.eq_chain_iff, collectSum, hcollected, ← Collected.terms_eq_gathered
      (Collected.reads_of_insertAll hcollected) hgathers]
  · intro h
    rw [Collected.declined_iff] at h
    refine ⟨(Collected.totalsOverflow_of_insertAll h).1, ?_⟩
    rw [collectSum, h]

namespace Expr

/-- The sum `x * y + 3 * x + y + 5`. -/
def crowdedSum : Expr :=
  .add (.add (.add (.mul (.var "x") (.var "y")) (.mul (.constant 3) (.var "x"))) (.var "y"))
    (.constant 5)

/-- The sum `x * -3 + (x * y + (z + (z + -2)))`. -/
def cancellingSum : Expr :=
  .add (.mul (.var "x") (.constant (-3))) (.add (.mul (.var "x") (.var "y"))
    (.add (.var "z") (.add (.var "z") (.constant (-2)))))

end Expr

open IntCalculus.Expr (crowdedSum cancellingSum)

/-- In the two sums the linear terms in `x` cancel, and the products `x * y` are no linear
terms and stay apart.  With the greatest constant the first sum is not collected, since 5 more
is out of range. -/
theorem collectSum_eq_gathered_crowdedSum :
    ¬ Collected.Declined .checked (crowdedSum.summands ++ cancellingSum.summands) ∧
      (∃ totals : Collected.Totals .checked (crowdedSum.summands ++ cancellingSum.summands),
        totals.gathered = [.mul (.var "x") (.var "y"), .var "y", .mul (.var "x") (.var "y"),
          .mul (.constant 2) (.var "z"), .constant 3]) ∧
      collectSum .checked crowdedSum cancellingSum =
        .add (.add (.add (.add (.mul (.var "x") (.var "y")) (.var "y"))
          (.mul (.var "x") (.var "y"))) (.mul (.constant 2) (.var "z"))) (.constant 3) ∧
      Collected.Declined .checked (crowdedSum.summands ++ (Expr.constant 2147483647).summands) ∧
      collectSum .checked crowdedSum (.constant 2147483647) =
        .add crowdedSum (.constant 2147483647) := by
  have hfolds : ¬ Collected.Declined .checked (crowdedSum.summands ++ cancellingSum.summands) := by
    decide +kernel
  have hdeclined : Collected.Declined .checked
      (crowdedSum.summands ++ (Expr.constant 2147483647).summands) := by decide +kernel
  obtain ⟨totals, _, hsum⟩ := (collectSum_eq_gathered .checked crowdedSum cancellingSum).1 hfolds
  have hcoefficient : ∀ {x : String} {c : Int32},
      OverflowPolicy.total? .checked
        (Expr.coefficients x (crowdedSum.summands ++ cancellingSum.summands)) = some c →
      totals.coefficient x = c :=
    fun h => Option.some.inj ((totals.coefficient_eq _).symm.trans h)
  have hx : totals.coefficient "x" = 0 := hcoefficient (by decide +kernel)
  have hy : totals.coefficient "y" = 1 := hcoefficient (by decide +kernel)
  have hz : totals.coefficient "z" = 2 := hcoefficient (by decide +kernel)
  have hconstant : totals.constant = 3 :=
    Option.some.inj (totals.constant_eq.symm.trans (by decide +kernel))
  have hgathered : totals.gathered = [.mul (.var "x") (.var "y"), .var "y",
      .mul (.var "x") (.var "y"), .mul (.constant 2) (.var "z"), .constant 3] := by
    simp [Collected.Totals.gathered, crowdedSum, cancellingSum, Expr.summands,
      Expr.contributions, Expr.contribution, Expr.constant?, Expr.linear?, Expr.coefficients,
      List.filterMap_cons, Expr.multiple, hx, hy, hz, hconstant]
  exact ⟨hfolds, ⟨totals, hgathered⟩, hsum _ _ hgathered, hdeclined,
    ((collectSum_eq_gathered .checked crowdedSum (.constant 2147483647)).2 hdeclined).2⟩

end IntCalculus
