/-
Reading a tree back from its text.

The reader goes through the lexemes once, with a stack of what it has begun: operators
that have their left operand, negations and parentheses.  It either expects an operand or
holds one.  An operand goes to the negations on top of the stack at once; an operator
first closes those before it that bind as tightly, so operators of one strength group to
the left.

What the reader finds depends on what stands around the lexemes: the top of the stack must
not ask for more than they bind, and what comes behind must not reach into them.
`Yields` says at which strength that is harmless.  Parentheses raise it to the highest, and
the printer writes them exactly where it would not do, so the reader finds the tree of
every expression it is given the text of.

A negative constant is read as the negation of a number, since its text is one.  The
statement this file exists for is `written_eq_of_text_eq`: beyond that, different trees
have different texts.
-/
import IntCalculus.Proofs.Render.Lexeme

namespace IntCalculus

open Text (isIdentifier)

/-! ## What is written -/

/-- A tree as it is written.  Numbers have no sign. -/
inductive Written where
  | number (n : Nat)
  | leaf (e : Expr)
  | node (operator : Operator) (left right : Written)
  | neg (operand : Written)
  deriving DecidableEq

namespace Expr

/-- The tree with every negative constant read as the negation of a number. -/
def written : Expr → Written
  | constant c =>
    if c.toInt < 0 then .neg (.number c.toInt.natAbs) else .number c.toInt.natAbs
  | add l r => .node .plus l.written r.written
  | sub l r => .node .minus l.written r.written
  | mul l r => .node .times l.written r.written
  | neg e => .neg e.written
  | e => .leaf e

theorem written_node (operator : Operator) (l r : Expr) :
    (operator.node l r).written = .node operator l.written r.written := by
  cases operator <;> rfl

end Expr

/-- The expression with the numbers as its constants. -/
def Written.toExpr : Written → Expr
  | number n => .constant (Int32.ofInt n)
  | leaf e => e
  | node operator l r => operator.node l.toExpr r.toExpr
  | neg w => .neg w.toExpr

/-- Where no constant is negative, nothing is read as something else. -/
theorem Expr.toExpr_written {e : Expr} (h : ∀ c, .constant c ∈ e.leaves → 0 ≤ c.toInt) :
    e.written.toExpr = e := by
  induction e using operator_induction with
  | leaf e hleaf =>
    cases e with
    | constant c =>
      have hc : 0 ≤ c.toInt := h c List.mem_cons_self
      rw [written, if_neg (Int.not_lt.mpr hc), Written.toExpr, Int.natAbs_of_nonneg hc,
        Int32.ofInt_toInt]
    | add | sub | mul | neg => cases hleaf
    | _ => rfl
  | node operator l r ihl ihr =>
    rw [leaves_node] at h
    rw [written_node, Written.toExpr, ihl fun c hc => h c (List.mem_append_left _ hc),
      ihr fun c hc => h c (List.mem_append_right _ hc)]
  | neg e ih => rw [written, Written.toExpr, ih h]

/-! ## The reader -/

/-- What the reader has begun and not ended. -/
inductive Reader.Frame where
  | awaiting (operator : Operator) (left : Written)
  | minus
  | group

inductive Reader where
  | expecting (stack : List Reader.Frame)
  | holding (stack : List Reader.Frame) (operand : Written)

namespace Reader

/-- The reader after an operand, with the negations on top of the stack applied to it. -/
def supply : List Frame → Written → Reader
  | .minus :: stack, w => supply stack (.neg w)
  | .awaiting operator left :: stack, w => holding (.awaiting operator left :: stack) w
  | .group :: stack, w => holding (.group :: stack) w
  | [], w => holding [] w

/-- Apply the operators on top of the stack that bind at least as tightly. -/
def settle (binding : Nat) : List Frame → Written → List Frame × Written
  | .awaiting operator left :: stack, w =>
    if binding ≤ operator.binding then settle binding stack (.node operator left w)
    else (.awaiting operator left :: stack, w)
  | .minus :: stack, w => (.minus :: stack, w)
  | .group :: stack, w => (.group :: stack, w)
  | [], w => ([], w)

def step : Reader → Lexeme → Option Reader
  | expecting stack, .number n => some (supply stack (.number n))
  | expecting stack, .name x => some (supply stack (.leaf (.var x)))
  | expecting stack, .operator .minus => some (expecting (.minus :: stack))
  | expecting stack, .opening => some (expecting (.group :: stack))
  | holding stack w, .operator operator =>
    let settled := settle operator.binding stack w
    some (expecting (.awaiting operator settled.2 :: settled.1))
  | holding stack w, .closing =>
    match settle 0 stack w with
    | (.group :: stack, w) => some (supply stack w)
    | _ => none
  | _, _ => none

/-- The tree at the end of the text, if the text may end here. -/
def finish : Reader → Option Written
  | expecting _ => none
  | holding stack w =>
    match settle 0 stack w with
    | ([], w) => some w
    | _ => none

def answer (reader : Reader) : List Lexeme → Option Written
  | [] => reader.finish
  | lexeme :: rest => (reader.step lexeme).bind fun next => next.answer rest

/-! ## What stands around -/

/-- How tightly an operand has to bind for the top of the stack to take all of it. -/
def demand : List Frame → Nat
  | .awaiting operator _ :: _ => operator.binding + 1
  | .minus :: _ => 4
  | .group :: _ => 0
  | [] => 0

/-- How tightly the lexemes bind what stands before them. -/
def reach : List Lexeme → Nat
  | .operator operator :: _ => operator.binding
  | _ => 0

theorem supply_of_demand {stack : List Frame} (h : demand stack < 4) (w : Written) :
    supply stack w = holding stack w := by
  cases stack with
  | nil => rfl
  | cons frame stack =>
    cases frame with
    | minus => exact absurd h (Nat.lt_irrefl 4)
    | awaiting | group => rfl

theorem settle_of_demand {stack : List Frame} {binding : Nat} (h : demand stack ≤ binding)
    (w : Written) : settle binding stack w = (stack, w) := by
  cases stack with
  | nil => rfl
  | cons frame stack =>
    cases frame with
    | awaiting operator left => exact if_neg (Nat.not_le.mpr h)
    | minus | group => rfl

/-- An operator takes its right operand when nothing behind binds that more tightly. -/
theorem answer_awaiting {operator : Operator} {rest : List Lexeme}
    (h : reach rest ≤ operator.binding) (stack : List Frame) (left right : Written) :
    (holding (.awaiting operator left :: stack) right).answer rest =
      (holding stack (.node operator left right)).answer rest := by
  have hsettle : ∀ binding ≤ operator.binding,
      settle binding (.awaiting operator left :: stack) right =
        settle binding stack (.node operator left right) := fun _ hle => if_pos hle
  cases rest with
  | nil => rw [answer, answer, finish, finish, hsettle 0 (Nat.zero_le _)]
  | cons lexeme rest =>
    rw [answer, answer]
    cases lexeme with
    | operator next => rw [step, step, hsettle next.binding h]
    | closing => rw [step, step, hsettle 0 (Nat.zero_le _)]
    | number | name | opening => rfl

/-! ## What the reader finds -/

/-- The reader finds the tree in the lexemes, wherever what stands around binds them no
more tightly than they bind themselves. -/
def Yields (lexemes : List Lexeme) (w : Written) (precedence : Nat) : Prop :=
  ∀ stack rest, demand stack ≤ precedence → reach rest ≤ precedence →
    (expecting stack).answer (lexemes ++ rest) = (supply stack w).answer rest

namespace Yields

variable {lexemes lexemes' : List Lexeme} {w w' : Written} {precedence : Nat}

theorem number (n : Nat) : Yields [.number n] (.number n) 4 := fun _ _ _ _ => rfl

theorem name (x : String) : Yields [.name x] (.leaf (.var x)) 4 := fun _ _ _ _ => rfl

theorem mono (h : Yields lexemes w precedence) {precedence' : Nat}
    (hle : precedence' ≤ precedence) : Yields lexemes w precedence' :=
  fun stack rest hstack hrest =>
    h stack rest (Nat.le_trans hstack hle) (Nat.le_trans hrest hle)

/-- Between parentheses nothing of what stands around matters. -/
theorem grouped (h : Yields lexemes w precedence) {wrap : Bool} {precedence' : Nat}
    (hwrap : wrap = false → precedence' ≤ precedence) :
    Yields (Lexeme.grouped wrap lexemes) w precedence' := by
  intro stack rest hstack hrest
  cases wrap with
  | false => exact h.mono (hwrap rfl) stack rest hstack hrest
  | true =>
    have hinner := h (.group :: stack) (.closing :: rest) (Nat.zero_le _) (Nat.zero_le _)
    show (expecting (.group :: stack)).answer (lexemes ++ [.closing] ++ rest) = _
    rw [List.append_assoc]
    exact hinner

theorem neg (h : Yields lexemes w 4) : Yields (.operator .minus :: lexemes) (.neg w) 4 :=
  fun stack rest _ hrest => h (.minus :: stack) rest (Nat.le_refl 4) hrest

theorem node {operator : Operator} (hl : Yields lexemes w operator.binding)
    (hr : Yields lexemes' w' (operator.binding + 1)) :
    Yields (lexemes ++ .operator operator :: lexemes') (.node operator w w')
      operator.binding := by
  intro stack rest hstack hrest
  have hbinding : operator.binding < 4 := by cases operator <;> decide
  have hsupply := supply_of_demand (Nat.lt_of_le_of_lt hstack hbinding)
  -- The stack does not take the left operand for itself, nor the lexemes behind the right one.
  calc (expecting stack).answer (lexemes ++ .operator operator :: lexemes' ++ rest)
      = (expecting stack).answer (lexemes ++ .operator operator :: (lexemes' ++ rest)) := by
        rw [List.append_assoc, List.cons_append]
    _ = (holding stack w).answer (.operator operator :: (lexemes' ++ rest)) := by
        rw [hl stack _ hstack (Nat.le_refl _), hsupply]
    _ = (expecting (.awaiting operator w :: stack)).answer (lexemes' ++ rest) := by
        rw [answer, step, settle_of_demand hstack, Option.bind_some]
    _ = (holding (.awaiting operator w :: stack) w').answer rest := by
        rw [hr _ rest (Nat.le_refl _) (Nat.le_succ_of_le hrest)]
        rfl
    _ = (supply stack (.node operator w w')).answer rest := by
        rw [answer_awaiting hrest, hsupply]

end Yields

/-- The tree a text writes, if it writes one. -/
def read (text : String) : Option Written := (expecting []).answer (Lexeme.lex [] text.toList)

end Reader

namespace Expr

open Reader

theorem yields_lexemes {e : Expr} (h : e.isArithmetic = true) :
    Yields e.lexemes e.written e.precedence := by
  induction e, h using isArithmetic_node_induction with
  | constant c =>
    rw [lexemes, written]
    split
    · exact (Yields.number _).neg
    · exact Yields.number _
  | var x => exact Yields.name x
  | node operator l r _ _ ihl ihr =>
    rw [lexemes_node, written_node, precedence_node]
    refine Yields.node (ihl.grouped fun hwrap => ?_) (ihr.grouped fun hwrap => ?_)
    · exact Nat.not_lt.mp (of_decide_eq_false hwrap)
    · exact Nat.not_le.mp (of_decide_eq_false hwrap)
  | neg e _ ih =>
    have he : Yields (Lexeme.grouped (e.precedence < 4) e.lexemes) e.written 4 :=
      ih.grouped fun hwrap => Nat.not_lt.mp (of_decide_eq_false hwrap)
    -- A negation is read like a leaf, although the printer takes it to bind less.
    exact he.neg.mono (Nat.le_succ 3)

/-- What is written is read back. -/
theorem read_text {e : Expr} (h : e.isArithmetic = true)
    (hnames : ∀ x ∈ e.freeNames, isIdentifier x = true) :
    Reader.read e.text = some e.written := by
  have hread := yields_lexemes h [] [] (Nat.zero_le _) (Nat.zero_le _)
  rw [List.append_nil] at hread
  rw [Reader.read, (spells_text h hnames).lex_eq, hread]
  rfl

-- Operators of one strength group to the left.
example : Reader.read "x - y - 1" = some (.node .minus
    (.node .minus (.leaf (.var "x")) (.leaf (.var "y"))) (.number 1)) := by decide

/-- A negative constant has the text of the negation of the positive one. -/
theorem text_constant_of_neg {c c' : Int32} (hc : c.toInt < 0) (hc' : c'.toInt = -c.toInt) :
    (constant c).text = (neg (constant c')).text := by
  have hpos : ¬ c'.toInt < 0 := by omega
  have habs : c'.toInt.natAbs = c.toInt.natAbs := by rw [hc', Int.natAbs_neg]
  apply String.toList_inj.mp
  show (decimalText c).toList = ("-" ++ decimalText c').toList
  rw [String.toList_append, toList_decimalText, toList_decimalText, if_pos hc, if_neg hpos, habs]
  rfl

/-- Two arithmetic expressions over identifiers have one text only if they are one tree,
once negative constants are read as negations; and a negative constant does have the text
of a negation. -/
theorem written_eq_of_text_eq :
    (∀ e e' : Expr, e.isArithmetic = true → e'.isArithmetic = true →
      (∀ x ∈ e.freeNames ++ e'.freeNames, isIdentifier x = true) → e.text = e'.text →
        e.written = e'.written ∧
          ((∀ c, .constant c ∈ e.leaves ++ e'.leaves → 0 ≤ c.toInt) → e = e')) ∧
      ∀ c c' : Int32, c.toInt < 0 → c'.toInt = -c.toInt →
        (constant c).text = (neg (constant c')).text := by
  refine ⟨fun e e' he he' hnames htext => ?_, fun _ _ => text_constant_of_neg⟩
  have hread := read_text he fun x hx => hnames x (List.mem_append_left _ hx)
  have hread' := read_text he' fun x hx => hnames x (List.mem_append_right _ hx)
  have hwritten : e.written = e'.written := by
    rw [htext, hread'] at hread
    exact (Option.some.inj hread).symm
  refine ⟨hwritten, fun h => ?_⟩
  calc e = e.written.toExpr := (toExpr_written fun c hc => h c (List.mem_append_left _ hc)).symm
    _ = e'.written.toExpr := by rw [hwritten]
    _ = e' := toExpr_written fun c hc => h c (List.mem_append_right _ hc)

/-- `x - (y_1 - -5)`, with a negative constant or with a negation. -/
def signedDifference (five : Expr) : Expr := .sub (.var "x") (.sub (.var "y_1") five)

theorem written_eq_of_text_eq_signedDifference :
    signedDifference (constant (-5)) ≠ signedDifference (neg (constant 5)) ∧
      (signedDifference (constant (-5))).text = (signedDifference (neg (constant 5))).text ∧
      (signedDifference (constant (-5))).written = (signedDifference (neg (constant 5))).written ∧
      (constant (-5)).text = (neg (constant 5)).text := by
  obtain ⟨hsame, hcollide⟩ := written_eq_of_text_eq
  have htext : (signedDifference (constant (-5))).text =
    (signedDifference (neg (constant 5))).text := by decide
  exact ⟨by decide, htext, (hsame _ _ rfl rfl (by decide) htext).1,
    hcollide _ _ (by decide) (by decide)⟩

end Expr
end IntCalculus
