/-
Runs of calls on a scope stack.

`perform` says what one call answers and leaves behind, `run` what a sequence of calls
leaves behind.  Two numbers sum up what a run does to the scopes: `closes` counts the
scopes, of those open before the run, that it pops, and `openPushes` the scopes that it
pushes and leaves open.  A run is sheltered when at no point it has popped more scopes
than it has pushed, which is when it pops none that was open before it.

A column is what the scopes bind one name to, from the innermost outwards.
`column_run` follows the column of a name through a run that leaves no declaration of
the name in force, and `exists_latest` finds the declaration behind which the rest of
a run is of that kind.
-/
import IntCalculus.Scope
import Mathlib

namespace IntCalculus
namespace ScopeStack

variable {α : Type}

/-! ## Calls -/

inductive Call (α : Type) where
  | push
  | pop
  | declare (name : String) (a : α)
  | lookup (name : String)
  | contains (name : String)
  | depth

inductive Answer (α : Type) where
  | done
  | count (n : Nat)
  | found (a : α)
  | holds (b : Bool)
  | failed (err : Error)

/-- What a call answers, and the scopes after it. -/
def perform (s : ScopeStack α) : Call α → Answer α × ScopeStack α
  | .push => (.count s.depth, s.push)
  | .pop => (.done, s.pop)
  | .declare name a =>
    match s.declare name a with
    | .ok t => (.done, t)
    | .error err => (.failed err, s)
  | .lookup name =>
    match s.lookup name with
    | .ok a => (.found a, s)
    | .error err => (.failed err, s)
  | .contains name => (.holds (s.contains name), s)
  | .depth => (.count s.depth, s)

def run (s : ScopeStack α) (calls : List (Call α)) : ScopeStack α :=
  calls.foldl (fun s call => (s.perform call).2) s

theorem run_cons (s : ScopeStack α) (call : Call α) (calls : List (Call α)) :
    s.run (call :: calls) = (s.perform call).2.run calls := rfl

theorem run_append (s : ScopeStack α) (calls later : List (Call α)) :
    s.run (calls ++ later) = (s.run calls).run later := List.foldl_append

theorem scopes_perform_lookup (s : ScopeStack α) (name : String) :
    (s.perform (.lookup name)).2 = s := by
  simp only [perform]
  cases s.lookup name <;> rfl

/-! ## Declarations -/

def innermost (s : ScopeStack α) : Scope α := s.inner.headD s.bottom

/-- The scopes with one more binding in the innermost one. -/
def extend (s : ScopeStack α) (name : String) (a : α) : ScopeStack α :=
  match s.inner with
  | [] => { s with bottom := (name, a) :: s.bottom }
  | scope :: rest => { s with inner := ((name, a) :: scope) :: rest }

theorem declare_eq (s : ScopeStack α) (name : String) (a : α) :
    s.declare name a = if (s.innermost.lookup name).isSome then .error (.alreadyDeclared name)
      else .ok (s.extend name a) := by
  obtain ⟨inner, bottom⟩ := s
  cases inner <;> rfl

theorem perform_declare_of_eq_some {s : ScopeStack α} {name : String} {b : α}
    (h : s.innermost.lookup name = some b) (a : α) :
    s.perform (.declare name a) = (.failed (.alreadyDeclared name), s) := by
  have hsome : (s.innermost.lookup name).isSome := by simp [h]
  simp only [perform]
  rw [declare_eq, if_pos hsome]

theorem perform_declare_of_eq_none {s : ScopeStack α} {name : String}
    (h : s.innermost.lookup name = none) (a : α) :
    s.perform (.declare name a) = (.done, s.extend name a) := by
  have hsome : ¬ (s.innermost.lookup name).isSome := by simp [h]
  simp only [perform]
  rw [declare_eq, if_neg hsome]

@[simp] theorem depth_extend (s : ScopeStack α) (name : String) (a : α) :
    (s.extend name a).depth = s.depth := by
  obtain ⟨inner, bottom⟩ := s
  cases inner <;> rfl

theorem innermost_extend (s : ScopeStack α) (name : String) (a : α) :
    (s.extend name a).innermost = (name, a) :: s.innermost := by
  obtain ⟨inner, bottom⟩ := s
  cases inner <;> rfl

theorem pop_of_depth_eq_one {s : ScopeStack α} (h : s.depth = 1) : s.pop = s := by
  obtain ⟨inner, bottom⟩ := s
  cases inner with
  | nil => rfl
  | cons scope rest => simp [depth] at h

theorem pop_extend {s : ScopeStack α} (h : s.depth ≠ 1) (name : String) (a : α) :
    (s.extend name a).pop = s.pop := by
  obtain ⟨inner, bottom⟩ := s
  cases inner with
  | nil => exact absurd rfl h
  | cons scope rest => rfl

/-! ## Columns -/

/-- What each scope binds a name to, from the innermost scope outwards. -/
def column (s : ScopeStack α) (name : String) : List (Option α) :=
  s.scopes.map (·.lookup name)

theorem find?_eq_findSome?_column (s : ScopeStack α) (name : String) :
    s.find? name = (s.column name).findSome? id := by
  simp only [find?, column, List.findSome?_map]
  rfl

theorem head?_column (s : ScopeStack α) (name : String) :
    (s.column name).head? = some (s.innermost.lookup name) := by
  obtain ⟨inner, bottom⟩ := s
  cases inner <;> rfl

theorem column_push (s : ScopeStack α) (name : String) :
    s.push.column name = none :: s.column name := rfl

theorem column_extend_self (s : ScopeStack α) (name : String) (a : α) :
    (s.extend name a).column name = some a :: (s.column name).tail := by
  obtain ⟨inner, bottom⟩ := s
  cases inner <;> simp [extend, column, scopes]

theorem column_extend_of_ne {name other : String} (h : other ≠ name) (s : ScopeStack α) (a : α) :
    (s.extend name a).column other = s.column other := by
  have hbeq : (other == name) = false := beq_false_of_ne h
  obtain ⟨inner, bottom⟩ := s
  cases inner <;> simp [extend, column, scopes, List.lookup_cons, hbeq]

theorem contains_push (s : ScopeStack α) (name : String) : s.push.contains name = s.contains name :=
  rfl

theorem contains_extend {s : ScopeStack α} {name other : String} {a : α} :
    (s.extend name a).contains other = true ↔ other = name ∨ s.contains other = true := by
  simp only [contains_eq_isSome_find?, find?_eq_findSome?_column]
  by_cases h : other = name
  · rw [h, column_extend_self]
    simp
  · rw [column_extend_of_ne h]
    simp [h]

/-- A binding in the bottom scope outlives every pop. -/
theorem iterate_pop_extend_of_depth_eq_one {s : ScopeStack α} (h : s.depth = 1) (name : String)
    (a : α) (k : Nat) : pop^[k] (s.extend name a) = (pop^[k] s).extend name a := by
  have hextend : (s.extend name a).depth = 1 := (depth_extend s name a).trans h
  rw [Function.iterate_fixed (pop_of_depth_eq_one h),
    Function.iterate_fixed (pop_of_depth_eq_one hextend)]

/-- A binding in any other scope is gone with the first pop. -/
theorem iterate_pop_extend_of_ne_zero {s : ScopeStack α} (h : s.depth ≠ 1) (name : String)
    (a : α) {k : Nat} (hk : k ≠ 0) : pop^[k] (s.extend name a) = pop^[k] s := by
  obtain ⟨k, rfl⟩ := Nat.exists_eq_succ_of_ne_zero hk
  rw [Function.iterate_succ_apply, Function.iterate_succ_apply, pop_extend h]

theorem column_iterate_pop_extend_of_ne {name other : String} (h : other ≠ name)
    (s : ScopeStack α) (a : α) (k : Nat) :
    (pop^[k] (s.extend name a)).column other = (pop^[k] s).column other := by
  by_cases hdepth : s.depth = 1
  · rw [iterate_pop_extend_of_depth_eq_one hdepth, column_extend_of_ne h]
  · by_cases hk : k = 0
    · rw [hk]
      exact column_extend_of_ne h s a
    · rw [iterate_pop_extend_of_ne_zero hdepth name a hk]

/-! ## Pushes and pops -/

def Call.isPush : Call α → Bool
  | .push => true
  | _ => false

def Call.isPop : Call α → Bool
  | .pop => true
  | _ => false

def pushes (calls : List (Call α)) : Nat := calls.countP Call.isPush

def pops (calls : List (Call α)) : Nat := calls.countP Call.isPop

/-- At no point of the run there have been more pops than pushes. -/
def Sheltered (calls : List (Call α)) : Prop :=
  ∀ made, made <+: calls → pops made ≤ pushes made

instance (calls : List (Call α)) : Decidable (Sheltered calls) :=
  decidable_of_iff (∀ made ∈ calls.inits, pops made ≤ pushes made)
    (by simp only [List.mem_inits, Sheltered])

/-- The number of pushes that no pop has undone.  A push is undone by the first pop
with which the calls after the push have popped more than they pushed. -/
def openPushes : List (Call α) → Nat
  | .push :: later => openPushes later + if Sheltered later then 1 else 0
  | _ :: later => openPushes later
  | [] => 0

/-- The number of scopes, of those open before the run, that it pops. -/
def closes : List (Call α) → Nat
  | .push :: later => closes later - 1
  | .pop :: later => closes later + 1
  | _ :: later => closes later
  | [] => 0

theorem forall_prefix_cons {call : Call α} {calls : List (Call α)} {k : Nat} :
    (∀ made, made <+: call :: calls → pops made ≤ pushes made + k) ↔
      ∀ made, made <+: calls → pops (call :: made) ≤ pushes (call :: made) + k := by
  constructor
  · intro h made hmade
    exact h _ (List.cons_prefix_cons.mpr ⟨rfl, hmade⟩)
  · intro h made hmade
    cases List.prefix_cons_iff.mp hmade with
    | inl hnil =>
      rw [hnil]
      exact Nat.zero_le _
    | inr hcons =>
      obtain ⟨rest, hrest, hprefix⟩ := hcons
      rw [hrest]
      exact h rest hprefix

theorem closes_le_iff {calls : List (Call α)} {k : Nat} :
    closes calls ≤ k ↔ ∀ made, made <+: calls → pops made ≤ pushes made + k := by
  induction calls generalizing k with
  | nil => simp [closes, pops]
  | cons call calls ih =>
    rw [forall_prefix_cons]
    cases call with
    | push =>
      have hcount : ∀ made : List (Call α), pops (.push :: made) ≤ pushes (.push :: made) + k ↔
          pops made ≤ pushes made + (k + 1) := by
        intro made
        simp only [pops, pushes, List.countP_cons, Call.isPush, Call.isPop, if_true,
          Bool.false_eq_true, if_false]
        omega
      have hcloses : closes (.push :: calls) ≤ k ↔ closes calls ≤ k + 1 := by
        simp only [closes]
        omega
      simp only [hcount, hcloses, ih]
    | pop =>
      have hcount : ∀ made : List (Call α), pops (.pop :: made) ≤ pushes (.pop :: made) + k ↔
          pops made + 1 ≤ pushes made + k := by
        intro made
        simp only [pops, pushes, List.countP_cons, Call.isPush, Call.isPop, if_true,
          Bool.false_eq_true, if_false, Nat.add_zero]
      simp only [hcount]
      cases k with
      | zero =>
        have hempty : ¬ ∀ made, made <+: calls → pops made + 1 ≤ pushes made + 0 := by
          intro h
          exact absurd (h [] List.nil_prefix) (by simp [pops, pushes])
        exact iff_of_false (Nat.not_succ_le_zero _) hempty
      | succ k =>
        have hshift : ∀ made : List (Call α), pops made + 1 ≤ pushes made + (k + 1) ↔
            pops made ≤ pushes made + k := by
          intro made
          omega
        simp only [hshift, ← ih]
        exact Nat.succ_le_succ_iff
    | declare | lookup | contains | depth => exact ih

theorem sheltered_iff {calls : List (Call α)} : Sheltered calls ↔ closes calls = 0 := by
  rw [← Nat.le_zero, closes_le_iff]
  exact Iff.rfl

theorem openPushes_le_append (made later : List (Call α)) :
    openPushes later ≤ openPushes (made ++ later) := by
  induction made with
  | nil => exact Nat.le_refl _
  | cons call made ih =>
    cases call with
    | push => exact Nat.le_trans ih (Nat.le_add_right _ _)
    | pop | declare | lookup | contains | depth => exact ih

/-! ## What a run leaves open -/

/-- Before the calls that follow, a push is worth one scope, unless they pop it. -/
theorem iterate_pop_push (s : ScopeStack α) (k : Nat) :
    pop^[k] s.push = if k = 0 then s.push else pop^[k - 1] s := by
  cases k with
  | zero => rfl
  | succ k =>
    rw [Function.iterate_succ_apply, pop_push]
    rfl

theorem depth_iterate_pop (s : ScopeStack α) (k : Nat) :
    (pop^[k] s).depth = max 1 (s.depth - k) := by
  induction k generalizing s with
  | zero => exact (Nat.max_eq_right s.depth_pos).symm
  | succ k ih =>
    have hpop : s.pop.depth = max 1 (s.depth - 1) := by
      simp only [pop, depth, List.length_tail]
      omega
    rw [Function.iterate_succ_apply, ih, hpop]
    omega

theorem depth_run (s : ScopeStack α) (calls : List (Call α)) :
    (s.run calls).depth = (pop^[closes calls] s).depth + openPushes calls := by
  induction calls generalizing s with
  | nil => rfl
  | cons call calls ih =>
    rw [run_cons, ih]
    cases call with
    | push =>
      simp only [perform, openPushes, closes, iterate_pop_push, sheltered_iff]
      by_cases h : closes calls = 0
      · simp only [h, if_true, depth_push]
        show s.depth + 1 + openPushes calls = s.depth + (openPushes calls + 1)
        omega
      · simp only [h, if_false]
        rfl
    | pop => rfl
    | declare name a =>
      cases h : s.innermost.lookup name with
      | none =>
        rw [perform_declare_of_eq_none h, depth_iterate_pop, depth_extend, ← depth_iterate_pop]
        rfl
      | some b =>
        rw [perform_declare_of_eq_some h]
        rfl
    | lookup name =>
      rw [scopes_perform_lookup]
      rfl
    | contains | depth => rfl

/-! ## Declarations in force -/

/-- The declaration between two parts of a run succeeds, and no later call pops its
scope, which may be the bottom one. -/
def InForce (s : ScopeStack α) (made : List (Call α)) (name : String) (a : α)
    (later : List (Call α)) : Prop :=
  ((s.run made).perform (.declare name a)).1 = .done ∧
    ((s.run made).depth = 1 ∨ Sheltered later)

/-- The run leaves no declaration of the name in force. -/
def NoneInForce (s : ScopeStack α) (name : String) (calls : List (Call α)) : Prop :=
  ∀ made a later, calls = made ++ .declare name a :: later → ¬ s.InForce made name a later

theorem NoneInForce.tail {s : ScopeStack α} {name : String} {call : Call α}
    {calls : List (Call α)} (h : s.NoneInForce name (call :: calls)) :
    (s.perform call).2.NoneInForce name calls := by
  intro made a later hsplit
  have hcalls : call :: calls = (call :: made) ++ .declare name a :: later := by
    rw [hsplit, List.cons_append]
  exact h (call :: made) a later hcalls

/-- A run that leaves no declaration of a name in force binds it in none of the scopes
that it opens, and changes nothing in those that it leaves. -/
theorem column_run {s : ScopeStack α} {name : String} {calls : List (Call α)}
    (h : s.NoneInForce name calls) :
    (s.run calls).column name =
      List.replicate (openPushes calls) none ++ (pop^[closes calls] s).column name := by
  induction calls generalizing s with
  | nil => rfl
  | cons call calls ih =>
    rw [run_cons, ih h.tail]
    cases call with
    | push =>
      simp only [perform, openPushes, closes, iterate_pop_push, sheltered_iff]
      by_cases hcloses : closes calls = 0
      · simp only [hcloses, if_true, column_push, List.replicate_succ', List.append_assoc]
        rfl
      · simp only [hcloses, if_false]
        rfl
    | pop => rfl
    | declare other a =>
      cases hlookup : s.innermost.lookup other with
      | none =>
        rw [perform_declare_of_eq_none hlookup]
        by_cases hname : name = other
        · -- The binding is not in force, so it goes with a scope that the calls close.
          subst hname
          have hforce := h [] a calls rfl
          have hdone : (s.perform (.declare name a)).1 = .done := by
            rw [perform_declare_of_eq_none hlookup]
          have hdepth : s.depth ≠ 1 := fun hdepth => hforce ⟨hdone, Or.inl hdepth⟩
          have hcloses : closes calls ≠ 0 := fun hcloses =>
            hforce ⟨hdone, Or.inr (sheltered_iff.mpr hcloses)⟩
          rw [iterate_pop_extend_of_ne_zero hdepth name a hcloses]
          rfl
        · rw [column_iterate_pop_extend_of_ne hname]
          rfl
      | some b =>
        rw [perform_declare_of_eq_some hlookup]
        rfl
    | lookup other =>
      rw [scopes_perform_lookup]
      rfl
    | contains | depth => rfl

/-- Behind the latest declaration of a name that a run leaves in force, the scopes that
were opened since bind the name to nothing. -/
theorem column_run_of_inForce {s : ScopeStack α} {name : String} {a : α}
    {made later : List (Call α)} (h : s.InForce made name a later)
    (hlater : (s.run (made ++ [.declare name a])).NoneInForce name later) :
    ∃ outer, (s.run (made ++ .declare name a :: later)).column name =
      List.replicate (openPushes later) none ++ some a :: outer := by
  obtain ⟨hdone, hkept⟩ := h
  have hnew : (s.run made).innermost.lookup name = none := by
    cases hlookup : (s.run made).innermost.lookup name with
    | none => rfl
    | some b =>
      rw [perform_declare_of_eq_some hlookup] at hdone
      cases hdone
  have hrun : s.run (made ++ [.declare name a]) = (s.run made).extend name a := by
    rw [run_append, run_cons, perform_declare_of_eq_none hnew]
    rfl
  have hall : made ++ .declare name a :: later = (made ++ [.declare name a]) ++ later := by
    simp
  have hcolumn : ((pop^[closes later] ((s.run made).extend name a)).column name).head? =
      some (some a) := by
    cases hkept with
    | inl hbottom =>
      rw [iterate_pop_extend_of_depth_eq_one hbottom, column_extend_self]
      rfl
    | inr hsheltered =>
      rw [sheltered_iff.mp hsheltered]
      exact congrArg List.head? (column_extend_self _ name a)
  obtain ⟨outer, houter⟩ := List.head?_eq_some_iff.mp hcolumn
  refine ⟨outer, ?_⟩
  rw [hall, run_append, column_run hlater, hrun, houter]

/-- Among the declarations of a name that are in force there is a latest one. -/
theorem exists_latest {s : ScopeStack α} {name : String} {made later : List (Call α)} {a : α}
    (h : s.InForce made name a later) :
    ∃ made' a' later', made ++ .declare name a :: later = made' ++ .declare name a' :: later' ∧
      s.InForce made' name a' later' ∧
        (s.run (made' ++ [.declare name a'])).NoneInForce name later' ∧ later' <:+ later := by
  induction hn : later.length using Nat.strong_induction_on generalizing made a later with
  | _ n ih =>
    by_cases hlast : (s.run (made ++ [.declare name a])).NoneInForce name later
    · exact ⟨made, a, later, rfl, h, hlast, List.suffix_refl later⟩
    · simp only [NoneInForce, not_forall, not_not] at hlast
      obtain ⟨between, b, rest, hsplit, hforce⟩ := hlast
      have hforce' : s.InForce (made ++ .declare name a :: between) name b rest := by
        have hrun : s.run (made ++ .declare name a :: between) =
            (s.run (made ++ [.declare name a])).run between := by
          rw [← run_append, List.append_assoc, List.singleton_append]
        unfold InForce at hforce ⊢
        rw [hrun]
        exact hforce
      have hlength : rest.length < n := by
        rw [← hn, hsplit, List.length_append, List.length_cons]
        omega
      obtain ⟨made', a', later', hcalls, hlatest, hnone, hsuffix⟩ := ih _ hlength hforce' rfl
      refine ⟨made', a', later', ?_, hlatest, hnone, ?_⟩
      · rw [← hcalls, hsplit, List.append_assoc, List.cons_append]
      · rw [hsplit]
        exact hsuffix.trans ((List.suffix_cons _ _).trans (List.suffix_append _ _))

end ScopeStack
end IntCalculus
