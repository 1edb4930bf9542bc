/-
What running in a fresh scope leaves of the scopes around it.

A script is a computation over scopes, given by the calls it makes.  Each answer
decides how it goes on, so it may stop at a failure or pass over it, and it may run
another script in a fresh scope.  As long as a script has made no more pops than
pushes, the scopes around it stand unchanged behind the ones it has opened, and
closing those gives the scopes back as they were.

The statement this file exists for is `withScope_restores`.
-/
import IntCalculus.Proofs.Scope.Call

namespace IntCalculus

open ScopeStack

/-- A computation over scopes that ends with a result or with an error. -/
inductive Script (α : Type) : Type → Type 1 where
  | finish {ρ : Type} (result : Except Error ρ) : Script α ρ
  | call {ρ : Type} (call : Call α) (next : Answer α → Script α ρ) : Script α ρ
  /-- Another script is run in a fresh scope first. -/
  | inScope {σ ρ : Type} (body : Script α σ) (next : Except Error σ → Script α ρ) : Script α ρ

variable {α : Type}

namespace Script

def run {ρ : Type} : Script α ρ → StateM (ScopeStack α) (Except Error ρ)
  | finish result, s => (result, s)
  | call c next, s => (next (s.perform c).1).run (s.perform c).2
  | inScope body next, s => (next (withScope body.run s).1).run (withScope body.run s).2

/-- From `s` on, after the calls it has made, the script never comes to more pops than
pushes, and neither does a script it runs, which counts its own calls. -/
def Sheltered {ρ : Type} (made : List (Call α)) : Script α ρ → ScopeStack α → Prop
  | finish _, _ => True
  | call c next, s => pops (made ++ [c]) ≤ pushes (made ++ [c]) ∧
      (next (s.perform c).1).Sheltered (made ++ [c]) (s.perform c).2
  | inScope body next, s => body.Sheltered [] s.push ∧
      (next (withScope body.run s).1).Sheltered made (withScope body.run s).2

end Script

namespace ScopeStack

/-! ## Scopes in front of others -/

/-- The scopes are those of `base`, with `n` more in front. -/
def Extends (base : ScopeStack α) (n : Nat) (s : ScopeStack α) : Prop :=
  ∃ opened : List (Scope α), opened.length = n ∧ s = ⟨opened ++ base.inner, base.bottom⟩

theorem extends_push (s : ScopeStack α) : Extends s 1 s.push := ⟨[[]], rfl, rfl⟩

theorem Extends.depth {base s : ScopeStack α} {n : Nat} (h : Extends base n s) :
    s.depth = base.depth + n := by
  obtain ⟨opened, hn, hs⟩ := h
  simp only [hs, ScopeStack.depth, List.length_append, hn]
  omega

theorem Extends.push {base s : ScopeStack α} {n : Nat} (h : Extends base n s) :
    Extends base (n + 1) s.push := by
  obtain ⟨opened, hn, hs⟩ := h
  exact ⟨[] :: opened, congrArg (· + 1) hn, by rw [hs]; rfl⟩

theorem Extends.pop {base s : ScopeStack α} {n : Nat} (h : Extends base (n + 1) s) :
    Extends base n s.pop := by
  obtain ⟨opened, hn, hs⟩ := h
  cases opened with
  | nil => cases hn
  | cons scope rest => exact ⟨rest, Nat.succ.inj hn, by rw [hs]; rfl⟩

theorem Extends.extend {base s : ScopeStack α} {n : Nat} (h : Extends base (n + 1) s)
    (name : String) (a : α) : Extends base (n + 1) (s.extend name a) := by
  obtain ⟨opened, hn, hs⟩ := h
  cases opened with
  | nil => cases hn
  | cons scope rest => exact ⟨((name, a) :: scope) :: rest, hn, by rw [hs]; rfl⟩

/-- A call that pops only what is in front leaves the scopes behind it alone. -/
theorem Extends.perform {base s : ScopeStack α} {n m : Nat} {c : Call α}
    (h : Extends base (n + 1) s) (hm : m + pops [c] = n + pushes [c]) :
    Extends base (m + 1) (s.perform c).2 := by
  cases c with
  | push =>
    have hn : m = n + 1 := hm
    rw [hn]
    exact h.push
  | pop =>
    have hn : n = m + 1 := hm.symm
    rw [hn] at h
    exact h.pop
  | declare name a =>
    have hn : m = n := hm
    rw [hn]
    cases hlookup : s.innermost.lookup name with
    | none =>
      rw [perform_declare_of_eq_none hlookup]
      exact h.extend name a
    | some b =>
      rw [perform_declare_of_eq_some hlookup]
      exact h
  | lookup name =>
    have hn : m = n := hm
    rw [hn, scopes_perform_lookup]
    exact h
  | contains | depth =>
    have hn : m = n := hm
    rw [hn]
    exact h

/-! ## Closing what was opened -/

/-- Closing down to a depth is a loop that pops while the stack is too deep. -/
theorem shrinkTo_eq_ite (s : ScopeStack α) {n : Nat} (hn : 1 ≤ n) :
    s.shrinkTo n = if n < s.depth then s.pop.shrinkTo n else s := by
  by_cases h : n < s.depth
  · have hdepth : s.depth - n = (s.pop.depth - n) + 1 := by
      simp only [pop, depth, List.length_tail] at h ⊢
      omega
    rw [if_pos h]
    simp only [shrinkTo, hdepth]
    show _ = ScopeStack.mk (s.inner.tail.drop (s.pop.depth - n)) s.bottom
    rw [List.drop_tail]
  · have hzero : s.depth - n = 0 := by omega
    rw [if_neg h]
    simp only [shrinkTo, hzero, List.drop_zero]

theorem Extends.shrinkTo {base s : ScopeStack α} {n : Nat} (h : Extends base n s) :
    s.shrinkTo base.depth = base := by
  induction n generalizing s with
  | zero =>
    obtain ⟨opened, hn, hs⟩ := h
    have hbase : s = base := by rw [hs, List.eq_nil_of_length_eq_zero hn]; rfl
    rw [shrinkTo_eq_ite s base.depth_pos, hbase, if_neg (Nat.lt_irrefl _)]
  | succ n ih =>
    have hdeep : base.depth < s.depth := by
      rw [h.depth]
      omega
    rw [shrinkTo_eq_ite s base.depth_pos, if_pos hdeep]
    exact ih h.pop

theorem withScope_of_extends {β : Type} {action : StateM (ScopeStack α) β} {s : ScopeStack α}
    {n : Nat} (h : Extends s n (action s.push).2) :
    withScope action s = ((action s.push).1, s) :=
  Prod.ext rfl h.shrinkTo

theorem depth_withScope {β : Type} (action : StateM (ScopeStack α) β) (s : ScopeStack α) :
    (withScope action s).2.depth = min (action s.push).2.depth s.depth :=
  depth_shrinkTo _ s.depth_pos

end ScopeStack

/-! ## Scripts -/

theorem Script.run_extends {ρ : Type} (p : Script α ρ) {made : List (Call α)}
    {s base : ScopeStack α} {n : Nat} (h : p.Sheltered made s) (hs : Extends base (n + 1) s)
    (hn : n + pops made = pushes made) : ∃ m, Extends base (m + 1) (p.run s).2 := by
  induction p generalizing made s base n with
  | finish result => exact ⟨n, hs⟩
  | call c next ih =>
    obtain ⟨hle, hnext⟩ := h
    have hpops : pops (made ++ [c]) = pops made + pops [c] := List.countP_append
    have hpushes : pushes (made ++ [c]) = pushes made + pushes [c] := List.countP_append
    have hc : Extends base (n + pushes [c] - pops [c] + 1) (s.perform c).2 :=
      hs.perform (by omega)
    exact ih _ hnext hc (by omega)
  | inScope body next ihbody ihnext =>
    obtain ⟨hbody, hnext⟩ := h
    -- The script in the scope has all scopes it finds for its base.
    obtain ⟨m, hm⟩ := ihbody hbody (extends_push s) rfl
    rw [withScope_of_extends hm] at hnext
    show ∃ m, Extends base (m + 1) ((next (withScope body.run s).1).run (withScope body.run s).2).2
    rw [withScope_of_extends hm]
    exact ihnext _ hnext hs hn

/-- A script that never makes more pops than pushes has the scopes restored after it,
however it ends.  Whatever is run, its result is handed on, and at least one scope is
left and no more than there were. -/
theorem withScope_restores {ρ : Type} (s : ScopeStack α) :
    (∀ p : Script α ρ, p.Sheltered [] s.push → withScope p.run s = ((p.run s.push).1, s)) ∧
      ∀ action : StateM (ScopeStack α) (Except Error ρ),
        (withScope action s).1 = (action s.push).1 ∧
          1 ≤ (withScope action s).2.depth ∧ (withScope action s).2.depth ≤ s.depth := by
  refine ⟨fun p h => ?_, fun action => ⟨rfl, depth_pos _, ?_⟩⟩
  · obtain ⟨m, hm⟩ := p.run_extends h (extends_push s) rfl
    exact withScope_of_extends hm
  · rw [depth_withScope]
    exact Nat.min_le_right _ _

/-- A declaration, an open scope, and a script in a scope of its own that leaves two
open and fails, at which this one stops. -/
def failingScript : Script Nat Unit :=
  .call (.declare "t" 1) fun _ => .call .push fun _ =>
    .inScope (.call .push fun _ => .call (.declare "t" 2) fun _ => .call (.lookup "u") fun
        | .failed err => .finish (.error err)
        | _ => .finish (.ok ()))
      fun
        | .error err => .finish (.error err)
        | .ok () => .call .pop fun _ => .finish (.ok ())

theorem withScope_failingScript :
    failingScript.Sheltered [] (push ⟨[], [("t", 0)]⟩) ∧
      withScope failingScript.run ⟨[], [("t", 0)]⟩ =
        (.error (.undeclared "u"), ⟨[], [("t", 0)]⟩) := by
  have hsheltered : failingScript.Sheltered [] (push ⟨[], [("t", 0)]⟩) := by
    refine ⟨?_, ?_, ⟨?_, ?_, ?_, trivial⟩, trivial⟩ <;> decide
  have hresult : (failingScript.run (push ⟨[], [("t", 0)]⟩)).1 = .error (.undeclared "u") := rfl
  refine ⟨hsheltered, ?_⟩
  rw [(withScope_restores _).1 failingScript hsheltered, hresult]

end IntCalculus
