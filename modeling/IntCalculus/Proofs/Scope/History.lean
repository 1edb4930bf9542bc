/-
What a scope stack answers, told from the calls made on it.

A history is the sequence of calls made on a stack that was empty at first.  The
statement this file exists for is `answer_history`: every answer can be read off the
history.  The depth is one more than the number of pushes that no pop has undone; a
lookup finds the latest declaration of the name that is in force; and a name can be
declared unless the innermost scope holds a declaration of it.
-/
import IntCalculus.Proofs.Scope.Call

namespace IntCalculus
namespace ScopeStack

variable {α : Type}

/-- What a call answers after a history. -/
def answer (history : List (Call α)) (call : Call α) : Answer α :=
  ((empty.run history).perform call).1

/-- The latest declaration of the name that is in force binds it to `a`. -/
def LatestInForce (history : List (Call α)) (name : String) (a : α) : Prop :=
  ∃ made later, history = made ++ .declare name a :: later ∧ empty.InForce made name a later ∧
    (empty.run (made ++ [.declare name a])).NoneInForce name later

/-- A declaration of the name is in force, and its scope is the innermost one: the
scopes pushed since have been popped. -/
def DeclaredInnermost (history : List (Call α)) (name : String) : Prop :=
  ∃ made a later, history = made ++ .declare name a :: later ∧ empty.InForce made name a later ∧
    openPushes later = 0

/-! ## The scopes after a history -/

theorem iterate_pop_empty (k : Nat) : pop^[k] (empty : ScopeStack α) = empty :=
  Function.iterate_fixed (pop_of_depth_eq_one rfl) k

theorem depth_history (history : List (Call α)) :
    (empty.run history).depth = 1 + openPushes history := by
  rw [depth_run, iterate_pop_empty]
  rfl

theorem column_of_noneInForce {history : List (Call α)} {name : String}
    (h : empty.NoneInForce name history) :
    (empty.run history).column name = List.replicate (openPushes history + 1) none := by
  rw [column_run h, iterate_pop_empty, List.replicate_succ']
  rfl

theorem find?_of_column {s : ScopeStack α} {name : String} {n : Nat} {a : α}
    {outer : List (Option α)} (h : s.column name = List.replicate n none ++ some a :: outer) :
    s.find? name = some a := by
  have hskip : ∀ n : Nat, (List.replicate n (none : Option α)).findSome? id = none := by
    intro n
    simp
  rw [find?_eq_findSome?_column, h, List.findSome?_append, hskip]
  rfl

theorem innermost_of_column {s : ScopeStack α} {name : String} {n : Nat} {a : α}
    {outer : List (Option α)} (h : s.column name = List.replicate n none ++ some a :: outer) :
    (s.innermost.lookup name).isSome ↔ n = 0 := by
  have hhead := head?_column s name
  rw [h] at hhead
  cases n with
  | zero => simp [← Option.some.inj hhead]
  | succ n => simp [← Option.some.inj hhead]

/-- Either no declaration of the name is in force, or a latest one is. -/
theorem noneInForce_or_exists_latest (history : List (Call α)) (name : String) :
    empty.NoneInForce name history ∨ ∃ a, LatestInForce history name a := by
  by_cases h : empty.NoneInForce name history
  · exact Or.inl h
  · simp only [NoneInForce, not_forall, not_not] at h
    obtain ⟨made, a, later, hsplit, hforce⟩ := h
    obtain ⟨made', a', later', hsplit', hforce', hlatest, _⟩ := exists_latest hforce
    exact Or.inr ⟨a', made', later', hsplit.trans hsplit', hforce', hlatest⟩

theorem find?_history {history : List (Call α)} {name : String} {a : α} :
    (empty.run history).find? name = some a ↔ LatestInForce history name a := by
  have hlatest : ∀ {b}, LatestInForce history name b →
      (empty.run history).find? name = some b := by
    intro b h
    obtain ⟨made, later, hsplit, hforce, hnone⟩ := h
    obtain ⟨outer, hcolumn⟩ := column_run_of_inForce hforce hnone
    rw [hsplit]
    exact find?_of_column hcolumn
  constructor
  · intro hfind
    cases noneInForce_or_exists_latest history name with
    | inl hnone =>
      have hcolumn := column_of_noneInForce hnone
      rw [find?_eq_findSome?_column, hcolumn] at hfind
      simp at hfind
    | inr h =>
      obtain ⟨b, hb⟩ := h
      have hab : a = b := Option.some.inj (hfind.symm.trans (hlatest hb))
      rw [hab]
      exact hb
  · exact hlatest

theorem innermost_history {history : List (Call α)} {name : String} :
    ((empty.run history).innermost.lookup name).isSome ↔ DeclaredInnermost history name := by
  constructor
  · intro hsome
    cases noneInForce_or_exists_latest history name with
    | inl hnone =>
      have hhead := head?_column (empty.run history) name
      rw [column_of_noneInForce hnone] at hhead
      have hlookup : (empty.run history).innermost.lookup name = none :=
        (Option.some.inj hhead).symm
      rw [hlookup] at hsome
      cases hsome
    | inr h =>
      obtain ⟨a, made, later, hsplit, hforce, hnone⟩ := h
      obtain ⟨outer, hcolumn⟩ := column_run_of_inForce hforce hnone
      rw [hsplit] at hsome
      exact ⟨made, a, later, hsplit, hforce, (innermost_of_column hcolumn).mp hsome⟩
  · intro h
    obtain ⟨made, a, later, hsplit, hforce, hopen⟩ := h
    obtain ⟨made', a', later', hsplit', hforce', hnone, hsuffix⟩ := exists_latest hforce
    obtain ⟨outer, hcolumn⟩ := column_run_of_inForce hforce' hnone
    -- What follows the latest declaration is the end of what follows this one.
    have hopen' : openPushes later' = 0 := by
      obtain ⟨between, hbetween⟩ := hsuffix
      have hle := openPushes_le_append between later'
      rw [hbetween] at hle
      omega
    rw [hsplit, hsplit']
    exact (innermost_of_column hcolumn).mpr hopen'

/-! ## Answers -/

theorem answer_lookup_eq_found {history : List (Call α)} {name : String} {a : α} :
    answer history (.lookup name) = .found a ↔ LatestInForce history name a := by
  rw [← find?_history]
  simp only [answer, perform, lookup]
  cases (empty.run history).find? name <;> simp

theorem answer_lookup_eq_failed {history : List (Call α)} {name : String} :
    answer history (.lookup name) = .failed (.undeclared name) ↔
      ¬ ∃ a, LatestInForce history name a := by
  simp only [← find?_history, answer, perform, lookup]
  cases (empty.run history).find? name <;> simp

theorem answer_contains (history : List (Call α)) (name : String) :
    ∃ b, answer history (.contains name) = .holds b ∧
      (b = true ↔ ∃ a, answer history (.lookup name) = .found a) := by
  refine ⟨_, rfl, ?_⟩
  simp only [answer_lookup_eq_found, ← find?_history, contains_eq_isSome_find?,
    Option.isSome_iff_exists]

theorem perform_declare_of_declaredInnermost {history : List (Call α)} {name : String}
    (h : DeclaredInnermost history name) (a : α) :
    (empty.run history).perform (.declare name a) =
      (.failed (.alreadyDeclared name), empty.run history) := by
  obtain ⟨b, hb⟩ := Option.isSome_iff_exists.mp (innermost_history.mpr h)
  exact perform_declare_of_eq_some hb a

theorem answer_declare (history : List (Call α)) (name : String) (a : α) :
    (answer history (.declare name a) = .failed (.alreadyDeclared name) ↔
        DeclaredInnermost history name) ∧
      (answer history (.declare name a) = .done ↔ ¬ DeclaredInnermost history name) := by
  rw [← innermost_history]
  cases h : (empty.run history).innermost.lookup name with
  | none => simp [answer, perform_declare_of_eq_none h]
  | some b => simp [answer, perform_declare_of_eq_some h]

/-- Every answer after a history is told by the history, and a declaration that fails
leaves no trace in any later answer. -/
theorem answer_history (history : List (Call α)) :
    answer history .depth = .count (1 + openPushes history) ∧
    (∀ name a, answer history (.lookup name) = .found a ↔ LatestInForce history name a) ∧
    (∀ name, answer history (.lookup name) = .failed (.undeclared name) ↔
      ¬ ∃ a, LatestInForce history name a) ∧
    (∀ name, ∃ b, answer history (.contains name) = .holds b ∧
      (b = true ↔ ∃ a, answer history (.lookup name) = .found a)) ∧
    ∀ name a,
      (answer history (.declare name a) = .failed (.alreadyDeclared name) ↔
        DeclaredInnermost history name) ∧
      (answer history (.declare name a) = .done ↔ ¬ DeclaredInnermost history name) ∧
      (DeclaredInnermost history name → ∀ later call,
        answer (history ++ .declare name a :: later) call = answer (history ++ later) call) := by
  refine ⟨?_, fun name a => answer_lookup_eq_found, fun name => answer_lookup_eq_failed,
    answer_contains history, fun name a => ?_⟩
  · exact congrArg Answer.count (depth_history history)
  · obtain ⟨hfailed, hdone⟩ := answer_declare history name a
    refine ⟨hfailed, hdone, fun h later call => ?_⟩
    unfold answer
    rw [run_append, run_cons, perform_declare_of_declaredInnermost h, ← run_append]

/-- The first pop finds the bottom scope alone, the third declaration fails, and the
last scope is gone again. -/
def shadowingHistory : List (Call Nat) :=
  [.pop, .declare "x" 1, .push, .declare "x" 2, .declare "x" 3, .push, .declare "x" 4, .pop]

theorem answer_history_shadowing :
    answer shadowingHistory .depth = .count 2 ∧ LatestInForce shadowingHistory "x" 2 ∧
      DeclaredInnermost shadowingHistory "x" ∧
      answer (shadowingHistory ++ [.declare "x" 5, .pop]) (.lookup "x") =
        answer (shadowingHistory ++ [.pop]) (.lookup "x") := by
  obtain ⟨hdepth, hlookup, _, _, hdeclare⟩ := answer_history shadowingHistory
  have hfound : answer shadowingHistory (.lookup "x") = .found 2 := rfl
  have hfailed : answer shadowingHistory (.declare "x" 5) = .failed (.alreadyDeclared "x") := rfl
  obtain ⟨hiff, _, htrace⟩ := hdeclare "x" 5
  have hdeclared : DeclaredInnermost shadowingHistory "x" := hiff.mp hfailed
  exact ⟨hdepth, (hlookup "x" 2).mp hfound, hdeclared, htrace hdeclared [.pop] (.lookup "x")⟩

end ScopeStack
end IntCalculus
