/-
When an expression is well scoped.

An expression is well scoped where all its free names are bound and none of its
function values repeats a parameter.  A type check fails just where that is not so,
with an error that names what is at fault, and it hands on the scopes it was given;
where it does not fail, type inference does not fail either.

The statements this file exists for are `scopesAfter_check_infer` and `check_scoping`.
-/
import IntCalculus.Typing
import IntCalculus.Proofs.Node
import IntCalculus.Proofs.Outcome
import IntCalculus.Proofs.Scope.Restore

namespace IntCalculus

open ScopeStack (Extends)

/-! ## Running a checker -/

namespace Checker

variable {β γ : Type}

/-- How a check ends. -/
def outcome (c : Checker β) (env : ScopeStack Ty) : Except Error β := (c.run.run env).1

/-- The scopes a check leaves behind. -/
def scopesAfter (c : Checker β) (env : ScopeStack Ty) : ScopeStack Ty := (c.run.run env).2

/-- The check leaves the scopes as they were, whether it fails or not. -/
def Steady (c : Checker β) : Prop := ∀ env, c.scopesAfter env = env

theorem run_bind (c : Checker β) (next : β → Checker γ) (env : ScopeStack Ty) :
    (c >>= next).run.run env =
      match c.outcome env with
      | .ok b => (next b).run.run (c.scopesAfter env)
      | .error err => (.error err, c.scopesAfter env) := by
  show (ExceptT.bindCont next (c.run.run env).1).run (c.run.run env).2 = _
  unfold outcome scopesAfter
  cases (c.run.run env).1 <;> rfl

theorem Steady.bind {c : Checker β} {next : β → Checker γ} (h : c.Steady)
    (hnext : ∀ b, (next b).Steady) : (c >>= next).Steady := by
  intro env
  show ((c >>= next).run.run env).2 = env
  rw [run_bind, h env]
  cases c.outcome env with
  | ok b => exact hnext b env
  | error err => rfl

theorem Steady.outcome_bind {c : Checker β} (h : c.Steady) (next : β → Checker γ)
    (env : ScopeStack Ty) :
    (c >>= next).outcome env = c.outcome env >>= fun b => (next b).outcome env := by
  show ((c >>= next).run.run env).1 = _
  rw [run_bind, h env]
  cases c.outcome env <;> rfl

theorem steady_pure (b : β) : Steady (pure b) := fun _ => rfl

theorem run_get_bind (next : ScopeStack Ty → Checker β) (env : ScopeStack Ty) :
    (get >>= next).run.run env = (next env).run.run env := rfl

theorem run_lookup (x : String) (env : ScopeStack Ty) :
    (lookup x).run.run env = (env.lookup x, env) := by
  rw [lookup, run_get_bind]
  cases env.lookup x <;> rfl

theorem steady_lookup (x : String) : (lookup x).Steady := fun env =>
  congrArg Prod.snd (run_lookup x env)

/-! ## Parameters -/

theorem run_declare_of_eq_none {s : ScopeStack Ty} {x : String}
    (h : s.innermost.lookup x = none) (t : Ty) :
    (declare x t).run.run s = (.ok (), s.extend x t) := by
  have hnew : s.declare x t = .ok (s.extend x t) := by simp [ScopeStack.declare_eq, h]
  rw [declare, run_get_bind, hnew]
  rfl

theorem run_declare_of_eq_some {s : ScopeStack Ty} {x : String} {u : Ty}
    (h : s.innermost.lookup x = some u) (t : Ty) :
    (declare x t).run.run s = (.error (.alreadyDeclared x), s) := by
  have hold : s.declare x t = .error (.alreadyDeclared x) := by simp [ScopeStack.declare_eq, h]
  rw [declare, run_get_bind, hold]
  rfl

/-- The scopes with parameters bound in the innermost one. -/
def withParams (s : ScopeStack Ty) (params : List String) : ScopeStack Ty :=
  params.foldl (fun s p => s.extend p .int) s

theorem extends_withParams {base s : ScopeStack Ty} {n : Nat} (h : Extends base (n + 1) s)
    (params : List String) : Extends base (n + 1) (withParams s params) := by
  induction params generalizing s with
  | nil => exact h
  | cons p rest ih => exact ih (h.extend p .int)

theorem contains_withParams {s : ScopeStack Ty} {params : List String} {x : String} :
    (withParams s params).contains x = true ↔ x ∈ params ∨ s.contains x = true := by
  induction params generalizing s with
  | nil => simp [withParams]
  | cons p rest ih =>
    show (withParams (s.extend p .int) rest).contains x = true ↔ _
    rw [ih, ScopeStack.contains_extend, List.mem_cons, or_left_comm, or_assoc]

/-- Either the parameters are new and distinct, or one of them fails that is neither. -/
theorem run_declareParams (params : List String) (s : ScopeStack Ty) :
    ((declareParams params).run.run s = (.ok (), withParams s params) ∧ params.Nodup ∧
      ∀ p ∈ params, s.innermost.lookup p = none) ∨
    ∃ p declared, p ∈ params ∧
      (declareParams params).run.run s = (.error (.alreadyDeclared p), withParams s declared) ∧
        (s.innermost.lookup p = none → List.Duplicate p params) := by
  induction params generalizing s with
  | nil => exact Or.inl ⟨rfl, List.nodup_nil, by simp⟩
  | cons p rest ih =>
    have hrun : (declareParams (p :: rest)).run.run s =
      (declare p .int >>= fun _ => declareParams rest).run.run s := rfl
    cases hlookup : s.innermost.lookup p with
    | some t =>
      refine Or.inr ⟨p, [], List.mem_cons_self, ?_, fun hnone => ?_⟩
      · rw [hrun, run_bind, outcome, scopesAfter, run_declare_of_eq_some hlookup]
        rfl
      · rw [hlookup] at hnone
        cases hnone
    | none =>
      have hstep : (declareParams (p :: rest)).run.run s =
          (declareParams rest).run.run (s.extend p .int) := by
        rw [hrun, run_bind, outcome, scopesAfter, run_declare_of_eq_none hlookup]
      have hfresh : ∀ q, q ≠ p →
          (s.extend p .int).innermost.lookup q = s.innermost.lookup q := by
        intro q hq
        rw [ScopeStack.innermost_extend, List.lookup_cons, beq_false_of_ne hq]
      rw [hstep]
      cases ih (s.extend p .int) with
      | inl hok =>
        obtain ⟨hrest, hnodup, hnew⟩ := hok
        have hp : p ∉ rest := by
          intro hmem
          have hbound := hnew p hmem
          rw [ScopeStack.innermost_extend, List.lookup_cons_self] at hbound
          cases hbound
        refine Or.inl ⟨hrest, List.nodup_cons.mpr ⟨hp, hnodup⟩, fun q hq => ?_⟩
        cases List.mem_cons.mp hq with
        | inl hqp => rw [hqp, hlookup]
        | inr hmem =>
          have hqp : q ≠ p := fun hqp => hp (hqp ▸ hmem)
          rw [← hfresh q hqp]
          exact hnew q hmem
      | inr herr =>
        obtain ⟨q, declared, hmem, hrest, hrepeated⟩ := herr
        refine Or.inr ⟨q, p :: declared, List.mem_cons_of_mem p hmem, hrest, fun hnone => ?_⟩
        by_cases hqp : q = p
        · rw [hqp] at hmem ⊢
          exact hmem.duplicate_cons_self
        · rw [← hfresh q hqp] at hnone
          exact (hrepeated hnone).duplicate_cons p

/-! ## Function values -/

section

variable {body : Checker β} {params : List String}

theorem steady_inScope_declareParams (h : body.Steady) (params : List String) :
    (inScope (declareParams params >>= fun _ => body)).Steady := by
  intro env
  have hparams : ∀ declared, Extends env 1 (withParams env.push declared) := fun declared =>
    extends_withParams (ScopeStack.extends_push env) declared
  show ((declareParams params >>= fun _ => body).run.run env.push).2.shrinkTo env.depth = env
  rw [run_bind, outcome, scopesAfter]
  cases run_declareParams params env.push with
  | inl hok =>
    rw [hok.1]
    show (body.scopesAfter (withParams env.push params)).shrinkTo env.depth = env
    rw [h]
    exact (hparams params).shrinkTo
  | inr herr =>
    obtain ⟨p, declared, _, hrun, _⟩ := herr
    rw [hrun]
    exact (hparams declared).shrinkTo

theorem outcome_inScope_declareParams (body : Checker β) (params : List String)
    (env : ScopeStack Ty) :
    (params.Nodup ∧ (inScope (declareParams params >>= fun _ => body)).outcome env =
      body.outcome (withParams env.push params)) ∨
    ∃ p, List.Duplicate p params ∧
      (inScope (declareParams params >>= fun _ => body)).outcome env =
        .error (.alreadyDeclared p) := by
  have hscope : (inScope (declareParams params >>= fun _ => body)).outcome env =
    ((declareParams params >>= fun _ => body).run.run env.push).1 := rfl
  rw [hscope, run_bind, outcome, scopesAfter]
  cases run_declareParams params env.push with
  | inl hok =>
    rw [hok.1]
    exact Or.inl ⟨hok.2.1, rfl⟩
  | inr herr =>
    obtain ⟨p, declared, _, hrun, hrepeated⟩ := herr
    rw [hrun]
    exact Or.inr ⟨p, hrepeated rfl, rfl⟩

end

end Checker

/-! ## Well scoped expressions -/

namespace Expr

open Checker

/-- The parameter lists of the function values in an expression.  The values of a vector
literal are not looked into. -/
def parameterLists : Expr → List (List String)
  | add l r | sub l r | mul l r => l.parameterLists ++ r.parameterLists
  | neg e => e.parameterLists
  | function params body => params :: body.parameterLists
  | derivative f _ _ => f.parameterLists
  | gradient f _ _ => f.parameterLists
  | constant _ | bool _ | str _ | var _ | vector _ => []

/-- All free names are bound, and no function value repeats a parameter. -/
structure WellScoped (env : ScopeStack Ty) (e : Expr) : Prop where
  bound : ∀ x ∈ e.freeVars, env.contains x = true
  distinct : ∀ params ∈ e.parameterLists, params.Nodup

/-- The error is about a free name that is not bound, or about a parameter that a
function value repeats. -/
inductive Fault (env : ScopeStack Ty) (e : Expr) : Error → Prop where
  | undeclared {x : String} (free : x ∈ e.freeVars) (unbound : env.contains x = false) :
      Fault env e (.undeclared x)
  | alreadyDeclared {params : List String} {p : String} (mem : params ∈ e.parameterLists)
      (repeated : List.Duplicate p params) : Fault env e (.alreadyDeclared p)

variable {env : ScopeStack Ty}

theorem Fault.not_wellScoped {e : Expr} {err : Error} (h : Fault env e err) :
    ¬ e.WellScoped env := by
  intro hscoped
  cases h with
  | undeclared free unbound =>
    rw [hscoped.bound _ free] at unbound
    cases unbound
  | alreadyDeclared mem repeated => exact repeated.not_nodup (hscoped.distinct _ mem)

/-- A fault in a part that binds no more names is one in the whole. -/
theorem Fault.of_subset {e e' : Expr} {err : Error} (h : Fault env e err)
    (hnames : e.freeNames ⊆ e'.freeNames) (hparams : e.parameterLists ⊆ e'.parameterLists) :
    Fault env e' err := by
  cases h with
  | undeclared free unbound =>
    exact .undeclared (mem_freeVars.mpr (hnames (mem_freeVars.mp free))) unbound
  | alreadyDeclared mem repeated => exact .alreadyDeclared (hparams mem) repeated

theorem WellScoped.of_subset {e e' : Expr} (h : e'.WellScoped env)
    (hnames : e.freeNames ⊆ e'.freeNames) (hparams : e.parameterLists ⊆ e'.parameterLists) :
    e.WellScoped env where
  bound x hx := h.bound x (mem_freeVars.mpr (hnames (mem_freeVars.mp hx)))
  distinct params hmem := h.distinct params (hparams hmem)

theorem parameterLists_node (operator : Operator) (l r : Expr) :
    (operator.node l r).parameterLists = l.parameterLists ++ r.parameterLists := by
  cases operator <;> rfl

theorem mem_freeNames_function {params : List String} {body : Expr} {x : String} :
    x ∈ (function params body).freeNames ↔ x ∈ body.freeNames ∧ x ∉ params := by
  simp [freeNames]

theorem wellScoped_node {operator : Operator} {l r : Expr} (hl : l.WellScoped env)
    (hr : r.WellScoped env) : (operator.node l r).WellScoped env where
  bound x hx := by
    rw [mem_freeVars, freeNames_node, List.mem_append] at hx
    exact hx.elim (fun hx => hl.bound x (mem_freeVars.mpr hx))
      (fun hx => hr.bound x (mem_freeVars.mpr hx))
  distinct params hmem := by
    rw [parameterLists_node, List.mem_append] at hmem
    exact hmem.elim (hl.distinct params) (hr.distinct params)

theorem contains_inFunction {params : List String} {x : String} :
    (withParams env.push params).contains x = true ↔ x ∈ params ∨ env.contains x = true := by
  rw [contains_withParams, ScopeStack.contains_push]

theorem wellScoped_function {params : List String} {body : Expr} (hparams : params.Nodup)
    (hbody : body.WellScoped (withParams env.push params)) :
    (function params body).WellScoped env where
  bound x hx := by
    obtain ⟨hfree, hout⟩ := mem_freeNames_function.mp (mem_freeVars.mp hx)
    cases contains_inFunction.mp (hbody.bound x (mem_freeVars.mpr hfree)) with
    | inl hin => exact absurd hin hout
    | inr hbound => exact hbound
  distinct ps hmem := by
    cases List.mem_cons.mp hmem with
    | inl heq =>
      rw [heq]
      exact hparams
    | inr hmem => exact hbody.distinct ps hmem

theorem WellScoped.body {params : List String} {body : Expr}
    (h : (function params body).WellScoped env) :
    body.WellScoped (withParams env.push params) where
  bound x hx := by
    rw [contains_inFunction]
    by_cases hmem : x ∈ params
    · exact Or.inl hmem
    · have hfree : x ∈ (function params body).freeNames :=
        mem_freeNames_function.mpr ⟨mem_freeVars.mp hx, hmem⟩
      exact Or.inr (h.bound x (mem_freeVars.mpr hfree))
  distinct ps hmem := h.distinct ps (List.mem_cons_of_mem params hmem)

theorem Fault.function {params : List String} {body : Expr} {err : Error}
    (h : Fault (withParams env.push params) body err) : Fault env (.function params body) err := by
  cases h with
  | @undeclared x free unbound =>
    have hout : ¬ (x ∈ params ∨ env.contains x = true) := by
      rw [← contains_inFunction, unbound]
      exact Bool.false_ne_true
    have hfree : x ∈ (Expr.function params body).freeNames :=
      mem_freeNames_function.mpr ⟨mem_freeVars.mp free, fun hmem => hout (Or.inl hmem)⟩
    refine .undeclared (mem_freeVars.mpr hfree) ?_
    exact Bool.eq_false_iff.mpr fun hbound => hout (Or.inr hbound)
  | alreadyDeclared mem repeated => exact .alreadyDeclared (List.mem_cons_of_mem _ mem) repeated

/-! ## Inference -/

theorem infer_node (operator : Operator) (l r : Expr) : (operator.node l r).infer = l.infer := by
  cases operator <;> rfl

theorem infer_function (params : List String) (body : Expr) :
    (function params body).infer =
      inScope (declareParams params >>= fun _ => body.infer) >>= fun returns =>
        pure (.function (params.map fun _ => .int) returns) := rfl

theorem steady_infer (e : Expr) : e.infer.Steady := by
  induction e using node_induction with
  | var x => exact steady_lookup x
  | node operator l r ihl _ =>
    rw [infer_node]
    exact ihl
  | neg e ih => exact ih
  | function params body ih =>
    rw [infer_function]
    exact (steady_inScope_declareParams ih params).bind fun _ => steady_pure _
  | constant | bool | str | vector | derivative | gradient => exact steady_pure _

/-- Where all names are bound, type inference succeeds. -/
theorem outcome_infer {e : Expr} (h : e.WellScoped env) : ∃ t, e.infer.outcome env = .ok t := by
  induction e using node_induction generalizing env with
  | var x =>
    have hbound : (env.find? x).isSome = true := by
      rw [← ScopeStack.contains_eq_isSome_find?]
      exact h.bound x (mem_freeVars.mpr List.mem_cons_self)
    obtain ⟨t, ht⟩ := Option.isSome_iff_exists.mp hbound
    refine ⟨t, ?_⟩
    show ((lookup x).run.run env).1 = .ok t
    rw [run_lookup, ScopeStack.lookup, ht]
  | node operator l r ihl _ =>
    rw [infer_node]
    refine ihl (h.of_subset ?_ ?_)
    · rw [freeNames_node]
      exact List.subset_append_left _ _
    · rw [parameterLists_node]
      exact List.subset_append_left _ _
  | neg e ih => exact ih ⟨h.bound, h.distinct⟩
  | function params body ih =>
    have hsteady := steady_inScope_declareParams (steady_infer body) params
    rw [infer_function, hsteady.outcome_bind]
    cases outcome_inScope_declareParams body.infer params env with
    | inl hok =>
      obtain ⟨t, ht⟩ := ih h.body
      rw [hok.2, ht]
      exact ⟨_, rfl⟩
    | inr herr =>
      obtain ⟨p, hrepeated, _⟩ := herr
      exact absurd (h.distinct params List.mem_cons_self) hrepeated.not_nodup
  | constant | bool | str | vector | derivative | gradient => exact ⟨_, rfl⟩

/-! ## Checking -/

theorem check_node (operator : Operator) (l r : Expr) :
    (operator.node l r).check = l.check >>= fun left => r.check >>= fun right =>
      pure (left && right) := by
  cases operator <;> rfl

/-- The check of a calculus node, which asks something of the type of its subject. -/
def checkSubject (accepts : Ty → Bool) (f : Expr) : Checker Bool :=
  f.check >>= fun checked => if checked then f.infer >>= fun t => pure (accepts t) else pure false

theorem steady_checkSubject {f : Expr} (h : f.check.Steady) (accepts : Ty → Bool) :
    (checkSubject accepts f).Steady := by
  refine h.bind fun checked => ?_
  cases checked with
  | true => exact (steady_infer f).bind fun _ => steady_pure _
  | false => exact steady_pure _

theorem steady_check (e : Expr) : e.check.Steady := by
  induction e using node_induction with
  | var x => exact (steady_lookup x).bind fun _ => steady_pure _
  | node operator l r ihl ihr =>
    rw [check_node]
    exact ihl.bind fun _ => ihr.bind fun _ => steady_pure _
  | neg e ih => exact ih
  | function params body ih => exact steady_inScope_declareParams ih params
  | derivative f x options ih => exact steady_checkSubject ih _
  | gradient f xs options ih => exact steady_checkSubject ih _
  | constant | bool | str | vector => exact steady_pure _

/-- A check and an inference hand on the very scopes they were given, on whichever path they
end. -/
theorem scopesAfter_check_infer (e : Expr) (env : ScopeStack Ty) :
    e.check.scopesAfter env = env ∧ e.infer.scopesAfter env = env :=
  ⟨steady_check e env, steady_infer e env⟩

-- Two scopes are open, and a parameter is declared in each, where the second `y` is met.
example : (derivative (.function ["x"] (.function ["y", "y"] (.var "x"))) "x" none).check.run.run
    ⟨[[("z", .int)]], []⟩ = (.error (.alreadyDeclared "y"), ⟨[[("z", .int)]], []⟩) := rfl

/-- How the check of an expression ends: without an error where the expression is well
scoped, and else with one that names what is at fault. -/
def Decides (env : ScopeStack Ty) (e : Expr) (outcome : Except Error Bool) : Prop :=
  (∃ b, outcome = .ok b) ∧ e.WellScoped env ∨ ∃ err, outcome = .error err ∧ Fault env e err

theorem Decides.of_eq {e e' : Expr} {outcome : Except Error Bool} (h : e.Decides env outcome)
    (hnames : e.freeNames = e'.freeNames) (hparams : e.parameterLists = e'.parameterLists) :
    e'.Decides env outcome := by
  cases h with
  | inl hok =>
    refine Or.inl ⟨hok.1, hok.2.of_subset ?_ ?_⟩
    · rw [hnames]
      exact List.Subset.refl _
    · rw [hparams]
      exact List.Subset.refl _
  | inr herr =>
    obtain ⟨err, herr, hfault⟩ := herr
    refine Or.inr ⟨err, herr, hfault.of_subset ?_ ?_⟩
    · rw [hnames]
      exact List.Subset.refl _
    · rw [hparams]
      exact List.Subset.refl _

theorem decides_checkSubject {f : Expr} (h : f.Decides env (f.check.outcome env))
    (accepts : Ty → Bool) : f.Decides env ((checkSubject accepts f).outcome env) := by
  unfold checkSubject
  rw [(steady_check f).outcome_bind]
  cases h with
  | inl hok =>
    obtain ⟨⟨b, hb⟩, hscoped⟩ := hok
    refine Or.inl ⟨?_, hscoped⟩
    rw [hb]
    cases b with
    | true =>
      obtain ⟨t, ht⟩ := outcome_infer hscoped
      show ∃ b, (f.infer >>= fun t => pure (accepts t) : Checker Bool).outcome env = .ok b
      rw [(steady_infer f).outcome_bind, ht]
      exact ⟨_, rfl⟩
    | false => exact ⟨_, rfl⟩
  | inr herr =>
    obtain ⟨err, herr, hfault⟩ := herr
    rw [herr]
    exact Or.inr ⟨err, rfl, hfault⟩

theorem decides_of_no_names {e : Expr} (hnames : e.freeNames = [])
    (hparams : e.parameterLists = []) (b : Bool) : e.Decides env (.ok b) := by
  refine Or.inl ⟨⟨b, rfl⟩, fun x hx => ?_, fun params hmem => ?_⟩
  · rw [mem_freeVars, hnames] at hx
    cases hx
  · rw [hparams] at hmem
    cases hmem

theorem decides_check (env : ScopeStack Ty) (e : Expr) : e.Decides env (e.check.outcome env) := by
  induction e using node_induction generalizing env with
  | var x =>
    have hcheck : (var x).check = lookup x >>= fun _ => pure true := rfl
    have hlookup : (lookup x).outcome env = env.lookup x := congrArg Prod.fst (run_lookup x env)
    have hcontains := ScopeStack.contains_eq_isSome_find? env x
    have hfree : ∀ {y}, y ∈ (var x).freeVars ↔ y = x := by
      intro y
      rw [mem_freeVars]
      exact List.mem_singleton
    rw [hcheck, (steady_lookup x).outcome_bind, hlookup, ScopeStack.lookup]
    cases hfind : env.find? x with
    | some t =>
      rw [hfind] at hcontains
      refine Or.inl ⟨⟨true, rfl⟩, fun y hy => ?_, fun params hmem => ?_⟩
      · rw [hfree.mp hy]
        exact hcontains
      · cases hmem
    | none =>
      rw [hfind] at hcontains
      exact Or.inr ⟨_, rfl, .undeclared (hfree.mpr rfl) hcontains⟩
  | node operator l r ihl ihr =>
    have hleft : ∀ {err}, Fault env l err → Fault env (operator.node l r) err := fun h =>
      h.of_subset (freeNames_node operator l r ▸ List.subset_append_left _ _)
        (parameterLists_node operator l r ▸ List.subset_append_left _ _)
    have hright : ∀ {err}, Fault env r err → Fault env (operator.node l r) err := fun h =>
      h.of_subset (freeNames_node operator l r ▸ List.subset_append_right _ _)
        (parameterLists_node operator l r ▸ List.subset_append_right _ _)
    rw [check_node, (steady_check l).outcome_bind]
    cases ihl env with
    | inr herr =>
      obtain ⟨err, herr, hfault⟩ := herr
      rw [herr]
      exact Or.inr ⟨err, rfl, hleft hfault⟩
    | inl hok =>
      obtain ⟨⟨a, ha⟩, hl⟩ := hok
      rw [ha]
      show Decides env _ ((r.check >>= fun right => pure (a && right) : Checker Bool).outcome env)
      rw [(steady_check r).outcome_bind]
      cases ihr env with
      | inr herr =>
        obtain ⟨err, herr, hfault⟩ := herr
        rw [herr]
        exact Or.inr ⟨err, rfl, hright hfault⟩
      | inl hok =>
        obtain ⟨⟨b, hb⟩, hr⟩ := hok
        rw [hb]
        exact Or.inl ⟨⟨a && b, rfl⟩, wellScoped_node hl hr⟩
  | neg e ih => exact (ih env).of_eq rfl rfl
  | function params body ih =>
    have hcheck : (function params body).check =
      inScope (declareParams params >>= fun _ => body.check) := rfl
    rw [hcheck]
    cases outcome_inScope_declareParams body.check params env with
    | inl hok =>
      obtain ⟨hnodup, hbody⟩ := hok
      rw [hbody]
      cases ih (withParams env.push params) with
      | inl hok => exact Or.inl ⟨hok.1, wellScoped_function hnodup hok.2⟩
      | inr herr =>
        obtain ⟨err, herr, hfault⟩ := herr
        exact Or.inr ⟨err, herr, hfault.function⟩
    | inr herr =>
      obtain ⟨p, hrepeated, herr⟩ := herr
      exact Or.inr ⟨_, herr, .alreadyDeclared List.mem_cons_self hrepeated⟩
  | derivative f x options ih => exact (decides_checkSubject (ih env) Ty.yieldsInt).of_eq rfl rfl
  | gradient f xs options ih => exact (decides_checkSubject (ih env) Ty.isVector).of_eq rfl rfl
  | constant | bool | str | vector => exact decides_of_no_names rfl rfl _

/-- A check succeeds where the expression is well scoped and nowhere else, an error of it
names what is at fault, and behind a check that succeeds type inference does too. -/
theorem check_scoping (e : Expr) (env : ScopeStack Ty) :
    ((∃ b, e.check.outcome env = .ok b) ↔ e.WellScoped env) ∧
      (∀ err, e.check.outcome env = .error err → Fault env e err) ∧
      ∀ b, e.check.outcome env = .ok b →
        ∃ t, e.infer.outcome env = .ok t ∧ e.infer.outcome (e.check.scopesAfter env) = .ok t := by
  have hinfer : e.WellScoped env →
      ∃ t, e.infer.outcome env = .ok t ∧ e.infer.outcome (e.check.scopesAfter env) = .ok t := by
    intro hscoped
    obtain ⟨t, ht⟩ := outcome_infer hscoped
    rw [steady_check e env]
    exact ⟨t, ht, ht⟩
  cases decides_check env e with
  | inl hok =>
    obtain ⟨hb, hscoped⟩ := hok
    refine ⟨iff_of_true hb hscoped, fun err herr => ?_, fun _ _ => hinfer hscoped⟩
    obtain ⟨b, hb⟩ := hb
    cases hb.symm.trans herr
  | inr herr =>
    obtain ⟨err, herr, hfault⟩ := herr
    have hnone : ∀ b, e.check.outcome env ≠ .ok b := fun b hb => by cases hb.symm.trans herr
    refine ⟨iff_of_false (fun h => ?_) hfault.not_wellScoped, fun err' herr' => ?_, fun b hb => ?_⟩
    · obtain ⟨b, hb⟩ := h
      exact hnone b hb
    · have heq : err' = err := Except.error.inj (herr'.symm.trans herr)
      rw [heq]
      exact hfault
    · exact absurd hb (hnone b)

/-- `derive(fn(x) = x * y by x) + x`, where the last `x` alone is free. -/
def shadowingSum : Expr :=
  .add (.derivative (.function ["x"] (.mul (.var "x") (.var "y"))) "x" none) (.var "x")

theorem check_scoping_shadowingSum :
    Fault ⟨[], [("y", .int)]⟩ shadowingSum (.undeclared "x") ∧
      shadowingSum.WellScoped ⟨[], [("y", .int), ("x", .string)]⟩ ∧
      ∃ t, shadowingSum.infer.outcome ⟨[], [("y", .int), ("x", .string)]⟩ = .ok t := by
  obtain ⟨_, hfault, _⟩ := check_scoping shadowingSum ⟨[], [("y", .int)]⟩
  obtain ⟨hscoped, _, hinfer⟩ := check_scoping shadowingSum ⟨[], [("y", .int), ("x", .string)]⟩
  have hok : shadowingSum.check.outcome ⟨[], [("y", .int), ("x", .string)]⟩ = .ok true := rfl
  obtain ⟨t, ht, _⟩ := hinfer true hok
  exact ⟨hfault _ rfl, hscoped.mp ⟨true, hok⟩, t, ht⟩

end Expr
end IntCalculus
