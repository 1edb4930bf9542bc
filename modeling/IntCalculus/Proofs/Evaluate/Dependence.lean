/-
What an evaluation and a reduction ask of the environment.

Both are decided by the leaves that operators reach, and a leaf looks up its free
variables and nothing else.  A calculus node is no exception: its derivative is an
expression in the names of the body, and so is what the simplification makes of it.  Two
things would be: a function value as a subject, whose parameters are looked up where its
body is evaluated although they are not free, and a name bound to a function, whose body
has names of its own.  Where neither occurs, two environments that answer alike about the
free variables cannot be told apart.

The statement this file exists for is `outcomes_of_agreeOn`.
-/
import IntCalculus.Proofs.Derive.Domain
import IntCalculus.Proofs.Reduce.Relation

namespace IntCalculus

variable {env env' : Environment}

/-- No name of the list is bound to a function. -/
def NoFunction (names : List String) (env : Environment) : Prop :=
  ∀ x ∈ names, ∀ params body, env.lookup x ≠ .ok (.function params body)

/-- The environments answer alike about every name of the list, and the answer is no
function. -/
structure AgreeOn (names : List String) (env env' : Environment) : Prop where
  lookup_eq : ∀ x ∈ names, env.lookup x = env'.lookup x
  noFunction : NoFunction names env

namespace AgreeOn

variable {names : List String}

theorem symm (h : AgreeOn names env env') : AgreeOn names env' env where
  lookup_eq x hx := (h.lookup_eq x hx).symm
  noFunction x hx params body := by
    rw [← h.lookup_eq x hx]
    exact h.noFunction x hx params body

theorem of_subset {fewer : List String} (h : AgreeOn names env env') (hsubset : fewer ⊆ names) :
    AgreeOn fewer env env' where
  lookup_eq x hx := h.lookup_eq x (hsubset hx)
  noFunction x hx := h.noFunction x (hsubset hx)

end AgreeOn

/-! ## Leaves decide -/

namespace Expr

section

variable {calculus calculus' : Expr → Except Error Value}

theorem evaluateWith_node (operator : Operator) (l r : Expr) :
    (operator.node l r).evaluateWith calculus env =
      (operator.node l r).apply operator (l.evaluateWith calculus env)
        (r.evaluateWith calculus env) := by
  cases operator <;> rfl

theorem evaluateWith_neg (e : Expr) :
    (neg e).evaluateWith calculus env = (e.evaluateWith calculus env >>= fun v =>
      v.operand .minus >>= fun a => (neg e).checkedResult (-a.toInt)) := rfl

theorem evaluateWith_of_leaves {e : Expr}
    (h : ∀ leaf ∈ e.leaves, leaf.evaluateWith calculus env = leaf.evaluateWith calculus' env') :
    e.evaluateWith calculus env = e.evaluateWith calculus' env' := by
  induction e using operator_induction with
  | leaf e hleaf =>
    refine h e ?_
    rw [leaves_of_isLeaf hleaf]
    exact List.mem_cons_self
  | node operator l r ihl ihr =>
    rw [leaves_node] at h
    rw [evaluateWith_node, evaluateWith_node,
      ihl fun leaf hleaf => h leaf (List.mem_append_left _ hleaf),
      ihr fun leaf hleaf => h leaf (List.mem_append_right _ hleaf)]
  | neg e ih => rw [evaluateWith_neg, evaluateWith_neg, ih h]

theorem tryReduce_of_leaves {e : Expr}
    (h : ∀ leaf ∈ e.leaves, leaf.tryReduce env = leaf.tryReduce env') :
    e.tryReduce env = e.tryReduce env' := by
  induction e using operator_induction with
  | leaf e hleaf =>
    refine h e ?_
    rw [leaves_of_isLeaf hleaf]
    exact List.mem_cons_self
  | node operator l r ihl ihr =>
    rw [leaves_node] at h
    rw [tryReduce_node, tryReduce_node,
      ihl fun leaf hleaf => h leaf (List.mem_append_left _ hleaf),
      ihr fun leaf hleaf => h leaf (List.mem_append_right _ hleaf)]
  | neg e ih => rw [tryReduce_neg, tryReduce_neg, ih h]

/-! ## Names that are missing -/

theorem operand_ne_undeclared {v : Value} {operator : Operator} {x : String} :
    v.operand operator ≠ .error (.undeclared x) := by
  intro h
  cases v <;> cases h

theorem checkedResult_ne_undeclared {node : Expr} {n : ℤ} {x : String} :
    node.checkedResult n ≠ .error (.undeclared x) := by
  intro h
  unfold checkedResult at h
  cases hfit : OverflowPolicy.checked.fit n <;> rw [hfit] at h <;> cases h

theorem apply_eq_undeclared {node : Expr} {operator : Operator} {left right : Except Error Value}
    {x : String} (h : node.apply operator left right = .error (.undeclared x)) :
    left = .error (.undeclared x) ∨ right = .error (.undeclared x) := by
  rcases bind_eq_error h with hleft | ⟨v, _, h⟩
  · exact Or.inl hleft
  rcases bind_eq_error h with hoperand | ⟨a, _, h⟩
  · exact absurd hoperand operand_ne_undeclared
  rcases bind_eq_error h with hright | ⟨w, _, h⟩
  · exact Or.inr hright
  rcases bind_eq_error h with hoperand | ⟨b, _, h⟩
  · exact absurd hoperand operand_ne_undeclared
  · exact absurd h checkedResult_ne_undeclared

/-- A name that an evaluation misses is missed at a leaf. -/
theorem exists_leaf_of_undeclared {e : Expr} {x : String}
    (h : e.evaluateWith calculus env = .error (.undeclared x)) :
    ∃ leaf ∈ e.leaves, leaf.evaluateWith calculus env = .error (.undeclared x) := by
  induction e using operator_induction with
  | leaf e hleaf =>
    rw [leaves_of_isLeaf hleaf]
    exact ⟨e, List.mem_cons_self, h⟩
  | node operator l r ihl ihr =>
    rw [leaves_node]
    rw [evaluateWith_node] at h
    rcases apply_eq_undeclared h with hl | hr
    · obtain ⟨leaf, hmem, hleaf⟩ := ihl hl
      exact ⟨leaf, List.mem_append_left _ hmem, hleaf⟩
    · obtain ⟨leaf, hmem, hleaf⟩ := ihr hr
      exact ⟨leaf, List.mem_append_right _ hmem, hleaf⟩
  | neg e ih =>
    rw [evaluateWith_neg] at h
    rcases bind_eq_error h with he | ⟨v, _, h⟩
    · exact ih he
    rcases bind_eq_error h with hoperand | ⟨a, _, h⟩
    · exact absurd hoperand operand_ne_undeclared
    · exact absurd h checkedResult_ne_undeclared

end

theorem undeclared_of_lookup {x y : String} (h : env.lookup x = .error (.undeclared y)) :
    y = x ∧ env.contains y = false := by
  obtain ⟨hunbound, herr⟩ := ScopeStack.lookup_eq_error_iff.mp h
  obtain rfl := Error.undeclared.inj herr
  exact ⟨rfl, hunbound⟩

end Expr

/-! ## Derivatives and gradients -/

namespace Derivative

variable {d : Derivative}

/-- What a derivative is taken of is its subject, unless a function comes in. -/
theorem bodyIn_eq_subject (hsubject : ∀ params body, d.subject ≠ .function params body)
    (hnames : NoFunction d.subject.freeNames env) : d.bodyIn env = d.subject := by
  obtain ⟨subject, x, options⟩ := d
  cases subject with
  | function params body => exact absurd rfl (hsubject params body)
  | var name =>
    have hname := hnames name List.mem_cons_self
    unfold ScopeStack.lookup at hname
    cases hfind : env.find? name with
    | none => simp only [bodyIn, hfind]
    | some v =>
      rw [hfind] at hname
      cases v with
      | function params body => exact absurd rfl (hname params body)
      | _ => simp only [bodyIn, hfind]
  | _ => rfl

/-- A simplified derivative is an expression in the names of its body. -/
theorem freeNames_symbolicIn_subset {s : Expr} (h : d.symbolicIn env = .ok s) :
    s.freeNames ⊆ (d.bodyIn env).freeNames := by
  obtain ⟨d', hderive, rfl⟩ := map_eq_ok h
  have hsimplified := freeNames_simplify_subset d.effectiveOptions d'
  exact List.Subset.trans hsimplified (derives_of_derive hderive).freeNames_subset

theorem symbolicIn_ne_undeclared {x : String} : d.symbolicIn env ≠ .error (.undeclared x) := by
  intro h
  have hfails := failure?_eq_some.mpr (map_eq_error h)
  rw [failure?_derive] at hfails
  obtain ⟨p, _, hp⟩ := Option.map_eq_some_iff.mp hfails
  cases hp

variable (hsubject : ∀ params body, d.subject ≠ .function params body)
include hsubject

theorem evaluate_of_agreeOn (h : AgreeOn d.subject.freeNames env env') :
    d.evaluate env = d.evaluate env' := by
  have hbody : d.bodyIn env = d.subject := bodyIn_eq_subject hsubject h.noFunction
  have hbody' : d.bodyIn env' = d.subject := bodyIn_eq_subject hsubject h.symm.noFunction
  have hsymbolic : d.symbolicIn env = d.symbolicIn env' := by
    rw [symbolicIn, symbolicIn, hbody, hbody']
  unfold evaluate
  rw [hsymbolic]
  cases hs : d.symbolicIn env' with
  | error err => rfl
  | ok s =>
    refine Expr.evaluateWith_of_leaves fun leaf hleaf => ?_
    cases leaf with
    | var x =>
      have hx : x ∈ s.freeNames :=
        Expr.freeNames_subset_of_mem_reached (Expr.mem_leaves.mp hleaf).1 List.mem_cons_self
      exact h.lookup_eq x (hbody' ▸ freeNames_symbolicIn_subset hs hx)
    | add | sub | mul | neg => cases (Expr.mem_leaves.mp hleaf).2
    | _ => rfl

theorem undeclared_of_evaluate {x : String} (hnames : NoFunction d.subject.freeNames env)
    (h : d.evaluate env = .error (.undeclared x)) :
    x ∈ d.subject.freeNames ∧ env.contains x = false := by
  rcases bind_eq_error h with hsymbolic | ⟨s, hs, h⟩
  · exact absurd hsymbolic symbolicIn_ne_undeclared
  obtain ⟨leaf, hmem, hleaf⟩ := Expr.exists_leaf_of_undeclared h
  obtain ⟨hreached, hisLeaf⟩ := Expr.mem_leaves.mp hmem
  cases leaf with
  | var y =>
    obtain ⟨rfl, hunbound⟩ := Expr.undeclared_of_lookup hleaf
    have hx : x ∈ s.freeNames :=
      Expr.freeNames_subset_of_mem_reached hreached List.mem_cons_self
    rw [← bodyIn_eq_subject hsubject hnames]
    exact ⟨freeNames_symbolicIn_subset hs hx, hunbound⟩
  | add | sub | mul | neg => cases hisLeaf
  | _ => cases hleaf

end Derivative

namespace Gradient

variable {g : Gradient} (hsubject : ∀ params body, g.subject ≠ .function params body)
include hsubject

theorem evaluate_of_agreeOn (h : AgreeOn g.subject.freeNames env env') :
    g.evaluate env = g.evaluate env' := by
  unfold evaluate
  rw [mapM_congr fun d hd => ?_]
  obtain ⟨x, _, rfl⟩ := List.mem_map.mp hd
  exact Derivative.evaluate_of_agreeOn hsubject h

theorem undeclared_of_evaluate {x : String} (hnames : NoFunction g.subject.freeNames env)
    (h : g.evaluate env = .error (.undeclared x)) :
    x ∈ g.subject.freeNames ∧ env.contains x = false := by
  have hpartials := map_eq_error h
  rcases mapM_outcome (Derivative.evaluate env) g.partials with
    ⟨values, hvalues, _⟩ | ⟨before, d, after, err, hsplit, _, hd, herr⟩
  · cases hvalues.symm.trans hpartials
  · obtain rfl := Except.error.inj (herr.symm.trans hpartials)
    have hmem : d ∈ g.partials := by
      rw [hsplit]
      exact List.mem_append_right _ List.mem_cons_self
    obtain ⟨y, _, rfl⟩ := List.mem_map.mp hmem
    exact Derivative.undeclared_of_evaluate hsubject hnames hd

end Gradient

/-! ## Expressions -/

namespace Expr

/-- Whether the node is a calculus node with a function value for its subject. -/
def hasFunctionSubject : Expr → Bool
  | derivative (function _ _) _ _ | gradient (function _ _) _ _ => true
  | _ => false

/-- No calculus node that operators reach has a function value for its subject. -/
def OpenSubjects (e : Expr) : Prop := ∀ node ∈ e.reached, node.hasFunctionSubject = false

theorem ne_function_of_derivative {f : Expr} {x : String} {options : Option Options}
    (h : (derivative f x options).hasFunctionSubject = false) :
    ∀ params body, f ≠ function params body := by
  rintro params body rfl
  cases h

theorem ne_function_of_gradient {f : Expr} {xs : List String} {options : Option Options}
    (h : (gradient f xs options).hasFunctionSubject = false) :
    ∀ params body, f ≠ function params body := by
  rintro params body rfl
  cases h

variable {e leaf : Expr}

theorem evaluate_leaf_of_agreeOn (hsubjects : e.OpenSubjects) (h : AgreeOn e.freeNames env env')
    (hleaf : leaf ∈ e.leaves) : leaf.evaluate env = leaf.evaluate env' := by
  obtain ⟨hreached, hisLeaf⟩ := mem_leaves.mp hleaf
  have hnames : AgreeOn leaf.freeNames env env' :=
    h.of_subset (freeNames_subset_of_mem_reached hreached)
  cases leaf with
  | var x => exact hnames.lookup_eq x List.mem_cons_self
  | derivative f x options =>
    exact Derivative.evaluate_of_agreeOn (ne_function_of_derivative (hsubjects _ hreached)) hnames
  | gradient f xs options =>
    exact Gradient.evaluate_of_agreeOn (ne_function_of_gradient (hsubjects _ hreached)) hnames
  | add | sub | mul | neg => cases hisLeaf
  | _ => rfl

theorem tryReduce_leaf_of_agreeOn (hsubjects : e.OpenSubjects) (h : AgreeOn e.freeNames env env')
    (hleaf : leaf ∈ e.leaves) : leaf.tryReduce env = leaf.tryReduce env' := by
  obtain ⟨hreached, hisLeaf⟩ := mem_leaves.mp hleaf
  cases leaf with
  | var x =>
    have hx : x ∈ e.freeNames := freeNames_subset_of_mem_reached hreached List.mem_cons_self
    rw [tryReduce_var, tryReduce_var, h.lookup_eq x hx]
  | derivative f x options =>
    have hvalue : (Derivative.mk f x options).evaluate env =
        (Derivative.mk f x options).evaluate env' :=
      evaluate_leaf_of_agreeOn hsubjects h hleaf
    show (Derivative.mk f x options).reduce env = (Derivative.mk f x options).reduce env'
    rw [Derivative.reduce, Derivative.reduce, hvalue]
  | add | sub | mul | neg => cases hisLeaf
  | _ => rfl

theorem undeclared_leaf (hsubjects : e.OpenSubjects) {x : String}
    (hnames : NoFunction e.freeNames env)
    (hleaf : leaf ∈ e.leaves) (h : leaf.evaluate env = .error (.undeclared x)) :
    x ∈ leaf.freeNames ∧ env.contains x = false := by
  obtain ⟨hreached, hisLeaf⟩ := mem_leaves.mp hleaf
  have hleafNames : NoFunction leaf.freeNames env := fun x hx =>
    hnames x (freeNames_subset_of_mem_reached hreached hx)
  cases leaf with
  | var y =>
    obtain ⟨rfl, hunbound⟩ := undeclared_of_lookup h
    exact ⟨List.mem_cons_self, hunbound⟩
  | derivative f y options =>
    exact Derivative.undeclared_of_evaluate (ne_function_of_derivative (hsubjects _ hreached))
      hleafNames h
  | gradient f ys options =>
    exact Gradient.undeclared_of_evaluate (ne_function_of_gradient (hsubjects _ hreached))
      hleafNames h
  | add | sub | mul | neg => cases hisLeaf
  | _ => cases h

/-- Where no subject and no free variable is a function, an evaluation and a reduction end
alike in all environments that answer alike about the free variables, and a name that an
evaluation misses is a free variable that is not bound. -/
theorem outcomes_of_agreeOn {e : Expr} {env env' : Environment} (hsubjects : e.OpenSubjects)
    (h : AgreeOn e.freeVars env env') :
    e.evaluate env = e.evaluate env' ∧ e.reduce env = e.reduce env' ∧
      ∀ x, e.evaluate env = .error (.undeclared x) → x ∈ e.freeVars ∧ env.contains x = false := by
  have hnames : AgreeOn e.freeNames env env' := h.of_subset fun x hx => mem_freeVars.mpr hx
  have htryReduce : e.tryReduce env = e.tryReduce env' :=
    tryReduce_of_leaves fun leaf hleaf => tryReduce_leaf_of_agreeOn hsubjects hnames hleaf
  refine ⟨?_, ?_, fun x hx => ?_⟩
  · exact evaluateWith_of_leaves fun leaf hleaf => evaluate_leaf_of_agreeOn hsubjects hnames hleaf
  · rw [reduce, reduce, htryReduce]
  · obtain ⟨leaf, hleaf, hmissed⟩ := exists_leaf_of_undeclared hx
    obtain ⟨hfree, hunbound⟩ := undeclared_leaf hsubjects hnames.noFunction hleaf hmissed
    have hreached := (mem_leaves.mp hleaf).1
    exact ⟨mem_freeVars.mpr (freeNames_subset_of_mem_reached hreached hfree), hunbound⟩

/-- The product `derive(x * x by x) * z`. -/
def slopeTimesName : Expr :=
  .mul (.derivative (.mul (.var "x") (.var "x")) "x" none) (.var "z")

/-- The environment that binds `x` to 3 above another `x`, and `f` to a function. -/
def shadowedPoint : Environment :=
  ⟨[[("x", .int 3)], [("x", .string "hidden"), ("f", .function ["x"] (.var "z"))]], []⟩

theorem outcomes_of_agreeOn_slopeTimesName :
    slopeTimesName.OpenSubjects ∧
      AgreeOn slopeTimesName.freeVars shadowedPoint ⟨[], [("x", .int 3)]⟩ ∧
      slopeTimesName.evaluate ⟨[], [("x", .int 3)]⟩ = .error (.undeclared "z") ∧
      slopeTimesName.evaluate shadowedPoint = .error (.undeclared "z") ∧
      slopeTimesName.reduce shadowedPoint = slopeTimesName.reduce ⟨[], [("x", .int 3)]⟩ ∧
      "z" ∈ slopeTimesName.freeVars ∧ shadowedPoint.contains "z" = false := by
  have hsubjects : slopeTimesName.OpenSubjects := by
    unfold OpenSubjects
    decide
  have hnames : ∀ x ∈ slopeTimesName.freeVars, x = "x" ∨ x = "z" := by
    intro x hx
    have hmem : x ∈ ["x", "x", "z"] := mem_freeVars.mp hx
    simpa using hmem
  have hagree : AgreeOn slopeTimesName.freeVars shadowedPoint ⟨[], [("x", .int 3)]⟩ := by
    constructor
    · intro x hx
      rcases hnames x hx with rfl | rfl <;> rfl
    · intro x hx params body hfunction
      rcases hnames x hx with rfl | rfl <;> cases hfunction
  have hmissed : slopeTimesName.evaluate ⟨[], [("x", .int 3)]⟩ = .error (.undeclared "z") := by
    decide +kernel
  obtain ⟨hevaluate, hreduce, hundeclared⟩ := outcomes_of_agreeOn hsubjects hagree
  rw [hmissed] at hevaluate
  exact ⟨hsubjects, hagree, hmissed, hevaluate, hreduce, hundeclared "z" hevaluate⟩

end Expr
end IntCalculus
