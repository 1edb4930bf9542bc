/-
Overflow of checked evaluation.

Where the free variables are bound to integers, an expression of the fragment has an exact
value and so have all its parts.  Evaluation goes through the parts in post-order.  It
fails at the first whose exact value is out of range, with the text of that part, and
where there is none it ends with the exact value.

The statement this file exists for is `evaluate_exact`.
-/
import IntCalculus.Proofs.Calculus

namespace IntCalculus
namespace Expr

variable {point : String → ℤ}

/-! ## The first part out of range -/

/-- Whether the exact value at a point is out of the 32-bit range. -/
def overflows (point : String → ℤ) (e : Expr) : Bool := !decide (InRange (e.valueIn point))

theorem overflows_eq_true {e : Expr} : e.overflows point = true ↔ ¬ InRange (e.valueIn point) := by
  rw [overflows, Bool.not_eq_true', decide_eq_false_iff_not]

theorem overflows_eq_false {e : Expr} : e.overflows point = false ↔ InRange (e.valueIn point) := by
  rw [overflows, Bool.not_eq_false', decide_eq_true_iff]

/-- The first part in post-order whose exact value is out of range. -/
def firstOverflow? (point : String → ℤ) (e : Expr) : Option Expr :=
  e.postorder.find? (overflows point)

/-- What an operator or a negation adds to the overflows of its operands. -/
def ownOverflow? (point : String → ℤ) (e : Expr) : Option Expr :=
  if e.overflows point then some e else none

theorem find?_singleton_overflows (point : String → ℤ) (e : Expr) :
    [e].find? (overflows point) = e.ownOverflow? point := by
  rw [List.find?_singleton, ownOverflow?]

theorem firstOverflow?_leaf {e : Expr} {c : Int32} (hparts : e.postorder = [e])
    (hvalue : e.valueIn point = c.toInt) : e.firstOverflow? point = none := by
  rw [firstOverflow?, hparts, find?_singleton_overflows, ownOverflow?,
    overflows_eq_false.mpr (hvalue ▸ inRange_toInt c)]
  rfl

theorem firstOverflow?_node (point : String → ℤ) (operator : Operator) (l r : Expr) :
    (operator.node l r).firstOverflow? point =
      (l.firstOverflow? point).or
        ((r.firstOverflow? point).or ((operator.node l r).ownOverflow? point)) := by
  rw [firstOverflow?, postorder_node, List.find?_append, List.find?_append,
    find?_singleton_overflows]
  rfl

theorem firstOverflow?_neg (point : String → ℤ) (e : Expr) :
    (neg e).firstOverflow? point = (e.firstOverflow? point).or ((neg e).ownOverflow? point) := by
  rw [firstOverflow?, postorder_neg, List.find?_append, find?_singleton_overflows]
  rfl

/-- `e.FirstOverflow point part`: of the parts of `e` in post-order, the first whose exact
value is out of range is `part`. -/
def FirstOverflow (point : String → ℤ) (e part : Expr) : Prop :=
  ∃ before after, e.postorder = before ++ part :: after ∧ ¬ InRange (part.valueIn point) ∧
    ∀ earlier ∈ before, InRange (earlier.valueIn point)

theorem firstOverflow?_eq_some {e part : Expr} :
    e.firstOverflow? point = some part ↔ e.FirstOverflow point part := by
  rw [firstOverflow?, List.find?_eq_some_iff_append, overflows_eq_true]
  constructor
  · rintro ⟨hout, before, after, hsplit, hbefore⟩
    refine ⟨before, after, hsplit, hout, fun earlier hearlier => overflows_eq_false.mp ?_⟩
    exact (Bool.not_eq_true' _).mp (hbefore earlier hearlier)
  · rintro ⟨before, after, hsplit, hout, hbefore⟩
    refine ⟨hout, before, after, hsplit, fun earlier hearlier => (Bool.not_eq_true' _).mpr ?_⟩
    exact overflows_eq_false.mpr (hbefore earlier hearlier)

theorem firstOverflow?_eq_none {e : Expr} :
    e.firstOverflow? point = none ↔ ∀ part ∈ e.parts, InRange (part.valueIn point) := by
  rw [firstOverflow?, List.find?_eq_none]
  refine forall_congr' fun part => ?_
  rw [mem_postorder, Bool.not_eq_true, overflows_eq_false]

/-! ## Evaluation -/

variable {env : Environment}

theorem failure?_checkedResult {node : Expr} {n : ℤ} (h : node.valueIn point = n) :
    failure? (node.checkedResult n) =
      (node.ownOverflow? point).map fun part => .overflow part.text := by
  subst h
  rcases checkedResult_outcome node (node.valueIn point) with ⟨c, hc, hvalue⟩ | ⟨hout, herr⟩
  · rw [hc, ownOverflow?, overflows_eq_false.mpr (hvalue ▸ inRange_toInt c)]
    rfl
  · rw [herr, ownOverflow?, overflows_eq_true.mpr hout]
    rfl

theorem evaluate_outcome {e : Expr} (h : e.isArithmetic = true)
    (hbound : ∀ x ∈ e.freeNames, ∃ c, env.lookup x = .ok (.int c)) :
    (∃ c, e.evaluate env = .ok (.int c) ∧ c.toInt = e.valueIn env.point) ∨
      ∃ text, e.evaluate env = .error (.overflow text) := by
  rw [← exactAt_eq_valueIn env h]
  exact evaluate_or_overflow (computes_of_isArithmetic h hbound)

/-- An evaluation fails at the first part out of range, and at nothing else. -/
theorem failure?_evaluate {e : Expr} (h : e.isArithmetic = true)
    (hbound : ∀ x ∈ e.freeNames, ∃ c, env.lookup x = .ok (.int c)) :
    failure? (e.evaluate env) =
      (e.firstOverflow? env.point).map fun part => .overflow part.text := by
  induction e using operator_induction with
  | leaf e hleaf =>
    cases e with
    | constant c =>
      rw [firstOverflow?_leaf rfl (show (constant c).valueIn env.point = c.toInt from rfl)]
      rfl
    | var x =>
      obtain ⟨c, hc⟩ := hbound x List.mem_cons_self
      have hvalue : (var x).valueIn env.point = c.toInt := by
        rw [valueIn, Environment.point, hc]
      rw [firstOverflow?_leaf rfl hvalue]
      exact congrArg failure? hc
    | add | sub | mul | neg => cases hleaf
    | _ => cases h
  | node operator l r ihl ihr =>
    obtain ⟨hl, hr⟩ := isArithmetic_node.mp h
    rw [freeNames_node] at hbound
    have hboundl := fun x hx => hbound x (List.mem_append_left _ hx)
    have hboundr := fun x hx => hbound x (List.mem_append_right _ hx)
    rw [firstOverflow?_node, Option.map_or, Option.map_or, ← ihl hl hboundl, ← ihr hr hboundr,
      evaluate_node]
    rcases evaluate_outcome hl hboundl with ⟨a, ha, hal⟩ | ⟨text, ha⟩
    · rcases evaluate_outcome hr hboundr with ⟨b, hb, hbr⟩ | ⟨text, hb⟩
      · rw [ha, hb]
        refine failure?_checkedResult ?_
        rw [hal, hbr, valueIn_node]
      · rw [ha, hb]
        rfl
    · rw [ha]
      rfl
  | neg e ih =>
    have he : e.isArithmetic = true := h
    rw [firstOverflow?_neg, Option.map_or, ← ih he hbound, evaluate_neg]
    rcases evaluate_outcome he hbound with ⟨a, ha, hae⟩ | ⟨text, ha⟩
    · rw [ha]
      refine failure?_checkedResult ?_
      rw [hae]
      rfl
    · rw [ha]
      rfl

/-- At a point where all names are bound to integers, an expression of the fragment
evaluates to an integer when the exact values of all its parts are in range and at no other
time, and the integer is its exact value.  Otherwise it overflows at the first part in
post-order that is out of range. -/
theorem evaluate_exact {env : Environment} {e : Expr} (h : e.isArithmetic = true)
    (hbound : ∀ x ∈ e.freeVars, ∃ c, env.lookup x = .ok (.int c)) :
    ((∃ c, e.evaluate env = .ok (.int c)) ↔ ∀ part ∈ e.parts, InRange (part.valueIn env.point)) ∧
    (∀ v, e.evaluate env = .ok v → ∃ c, v = .int c ∧ c.toInt = e.valueIn env.point) ∧
    ((∃ part ∈ e.parts, ¬ InRange (part.valueIn env.point)) →
      ∃ part, e.FirstOverflow env.point part ∧
        e.evaluate env = .error (.overflow part.text)) := by
  have hnames : ∀ x ∈ e.freeNames, ∃ c, env.lookup x = .ok (.int c) :=
    fun x hx => hbound x (mem_freeVars.mpr hx)
  have hfailure := failure?_evaluate h hnames
  have hvalue : ∀ v, e.evaluate env = .ok v → ∃ c, v = .int c ∧ c.toInt = e.valueIn env.point := by
    intro v hv
    rcases evaluate_outcome h hnames with ⟨c, hc, hexact⟩ | ⟨text, htext⟩
    · exact ⟨c, Except.ok.inj (hv.symm.trans hc), hexact⟩
    · cases hv.symm.trans htext
  refine ⟨⟨?_, fun hrange => ?_⟩, hvalue, ?_⟩
  · rintro ⟨c, hc⟩
    rw [failure?_eq_none.mpr ⟨_, hc⟩] at hfailure
    exact firstOverflow?_eq_none.mp (Option.map_eq_none_iff.mp hfailure.symm)
  · rw [firstOverflow?_eq_none.mpr hrange] at hfailure
    obtain ⟨v, hv⟩ := failure?_eq_none.mp hfailure
    obtain ⟨c, rfl, _⟩ := hvalue v hv
    exact ⟨c, hv⟩
  · rintro ⟨part, hpart, hout⟩
    cases hfirst : e.firstOverflow? env.point with
    | none => exact absurd (firstOverflow?_eq_none.mp hfirst part hpart) hout
    | some first =>
      rw [hfirst] at hfailure
      exact ⟨first, firstOverflow?_eq_some.mp hfirst, failure?_eq_some.mp hfailure⟩

/-- The expression `65536 * k - -m`. -/
def mixedSigns : Expr := .sub (.mul (.constant 65536) (.var "k")) (.neg (.var "m"))

/-- The environment that binds `k` to -32768 and `m` to the least integer there is. -/
def lowerEdge : Environment := ⟨[], [("k", .int (-32768)), ("m", .int (-2147483648))]⟩

/-- The product is the least integer, the negation is out of range and so is the
difference.  The negation comes first. -/
theorem evaluate_exact_mixedSigns :
    mixedSigns.isArithmetic = true ∧
      (∀ x ∈ mixedSigns.freeVars, ∃ c, lowerEdge.lookup x = .ok (.int c)) ∧
      (∃ part ∈ mixedSigns.parts, ¬ InRange (part.valueIn lowerEdge.point)) ∧
      (∃ part, mixedSigns.FirstOverflow lowerEdge.point part ∧
        mixedSigns.evaluate lowerEdge = .error (.overflow part.text)) ∧
      mixedSigns.evaluate lowerEdge = .error (.overflow "-m") := by
  have hbound : ∀ x ∈ mixedSigns.freeVars, ∃ c, lowerEdge.lookup x = .ok (.int c) := by
    intro x hx
    have hmem : x ∈ ["k", "m"] := mem_freeVars.mp hx
    have hnames : x = "k" ∨ x = "m" := by simpa using hmem
    rcases hnames with rfl | rfl
    · exact ⟨-32768, rfl⟩
    · exact ⟨-2147483648, rfl⟩
  have hout : ∃ part ∈ mixedSigns.parts, ¬ InRange (part.valueIn lowerEdge.point) :=
    ⟨mixedSigns, List.mem_cons_self, by decide +kernel⟩
  exact ⟨rfl, hbound, hout, (evaluate_exact rfl hbound).2.2 hout, by decide +kernel⟩

end Expr
end IntCalculus
