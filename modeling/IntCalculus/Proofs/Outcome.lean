/-
Computations that end with a result or with an error.

A computation made of several steps ends with the error of the first step that
fails.  `bind_eq_ok` and `map_eq_ok` take such a computation apart when it succeeds,
and `mapM_outcome` says how one step for each element of a list ends.  `failure?` keeps
the error alone, and `failure?_combine` says which of two errors is kept.
-/
import Mathlib.Data.List.Forall2

namespace IntCalculus

variable {ε α β γ : Type}

theorem bind_eq_ok {result : Except ε α} {next : α → Except ε β} {b : β}
    (h : (result >>= next) = .ok b) : ∃ a, result = .ok a ∧ next a = .ok b := by
  cases result with
  | error err => cases h
  | ok a => exact ⟨a, rfl, h⟩

theorem map_eq_ok {result : Except ε α} {f : α → β} {b : β} (h : result.map f = .ok b) :
    ∃ a, result = .ok a ∧ b = f a := by
  cases result with
  | error err => cases h
  | ok a =>
    cases h
    exact ⟨a, rfl, rfl⟩

theorem bind_eq_error {result : Except ε α} {next : α → Except ε β} {err : ε}
    (h : (result >>= next) = .error err) :
    result = .error err ∨ ∃ a, result = .ok a ∧ next a = .error err := by
  cases result with
  | error err' =>
    cases h
    exact Or.inl rfl
  | ok a => exact Or.inr ⟨a, rfl, h⟩

theorem map_eq_error {result : Except ε α} {f : α → β} {err : ε}
    (h : result.map f = .error err) : result = .error err := by
  cases result with
  | error err' =>
    cases h
    rfl
  | ok a => cases h

/-- The error a computation ends with. -/
def failure? : Except ε α → Option ε
  | .ok _ => none
  | .error err => some err

theorem failure?_eq_none {result : Except ε α} :
    failure? result = none ↔ ∃ a, result = .ok a := by
  cases result <;> simp [failure?]

theorem failure?_eq_some {result : Except ε α} {err : ε} :
    failure? result = some err ↔ result = .error err := by
  cases result <;> simp [failure?]

theorem failure?_bind_ok (result : Except ε α) (f : α → β) :
    failure? (result >>= fun a => .ok (f a)) = failure? result := by
  cases result <;> rfl

/-- Of two computations, the first that fails decides. -/
theorem failure?_combine (left : Except ε α) (right : Except ε β) (combine : α → β → γ) :
    failure? (left >>= fun a => right >>= fun b => .ok (combine a b)) =
      (failure? left).or (failure? right) := by
  cases left with
  | error err => rfl
  | ok a => exact failure?_bind_ok right (combine a)

/-- Either every step succeeds, or the first that fails decides. -/
theorem mapM_outcome (step : α → Except ε β) (elements : List α) :
    (∃ results, elements.mapM step = .ok results ∧
      List.Forall₂ (fun a b => step a = .ok b) elements results) ∨
    ∃ before a after err, elements = before ++ a :: after ∧
      (∀ a' ∈ before, ∃ b, step a' = .ok b) ∧ step a = .error err ∧
        elements.mapM step = .error err := by
  induction elements with
  | nil => exact Or.inl ⟨[], rfl, .nil⟩
  | cons first rest ih =>
    rw [List.mapM_cons]
    cases hfirst : step first with
    | error err =>
      refine Or.inr ⟨[], first, rest, err, rfl, fun a' ha' => ?_, hfirst, rfl⟩
      exact absurd ha' List.not_mem_nil
    | ok b =>
      rcases ih with ⟨results, hrest, hall⟩ | ⟨before, a, after, err, hsplit, hbefore, ha, hrest⟩
      · refine Or.inl ⟨b :: results, ?_, .cons hfirst hall⟩
        rw [hrest]
        rfl
      · refine Or.inr ⟨first :: before, a, after, err, ?_, fun a' ha' => ?_, ha, ?_⟩
        · rw [hsplit, List.cons_append]
        · rcases List.mem_cons.mp ha' with rfl | hmem
          · exact ⟨b, hfirst⟩
          · exact hbefore a' hmem
        · rw [hrest]
          rfl

theorem mapM_congr {step step' : α → Except ε β} {elements : List α}
    (h : ∀ a ∈ elements, step a = step' a) : elements.mapM step = elements.mapM step' := by
  induction elements with
  | nil => rfl
  | cons first rest ih =>
    rw [List.mapM_cons, List.mapM_cons, h first List.mem_cons_self,
      ih fun a ha => h a (List.mem_cons_of_mem _ ha)]

end IntCalculus
