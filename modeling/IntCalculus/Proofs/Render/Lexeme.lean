/-
The lexemes of a text.

A text falls into words and marks.  A word is a run of letters, digits and underscores,
as long as there are more of them, and it is a number when it begins with a digit.  The
marks are the operators and the parentheses; whatever else is met ends a word, as a blank
does, and leaves nothing behind.  A minus is the same lexeme whether it stands between
two operands, before an operand or before the digits of a negative constant.

A text spells lexemes when these are what is read of it, with any further text behind it
that does not continue its last word.  The statement this file exists for is
`spells_text`: the text of an arithmetic expression over identifiers spells the lexemes
of the tree.
-/
import IntCalculus.Render
import IntCalculus.Text.Decimal
import IntCalculus.Proofs.Value

namespace IntCalculus

/-! ## Words and marks -/

namespace Text

/-- The characters of words: letters and digits of ASCII, and the underscore. -/
def isWordChar (c : Char) : Bool := c.isAlphanum || c == '_'

/-- A letter or an underscore, and behind it letters, digits and underscores. -/
def isIdentifier (s : String) : Bool :=
  match s.toList with
  | [] => false
  | c :: rest => (c.isAlpha || c == '_') && rest.all isWordChar

theorem isWordChar_of_isDigit {c : Char} (h : c.isDigit = true) : isWordChar c = true := by
  simp [isWordChar, Char.isAlphanum, h]

/-- What an identifier may begin with is no digit. -/
theorem isDigit_eq_false {c : Char} (h : (c.isAlpha || c == '_') = true) : c.isDigit = false := by
  have hupper : c.isUpper = true → 65 ≤ c.toNat := fun hc => (of_decide_eq_true hc).1
  have hlower : c.isLower = true → 97 ≤ c.toNat := fun hc =>
    of_decide_eq_true (Bool.and_eq_true_iff.mp hc).1
  rw [Bool.eq_false_iff]
  intro hdigit
  have hnine : c.toNat ≤ 57 := (Char.isDigit_iff_toNat.mp hdigit).2
  rcases Bool.or_eq_true_iff.mp h with halpha | hscore
  · rcases Bool.or_eq_true_iff.mp halpha with hc | hc
    · exact absurd (hupper hc) (by omega)
    · exact absurd (hlower hc) (by omega)
  · rw [eq_of_beq hscore] at hdigit
    cases hdigit

theorem digitsValue_toDigits (n : Nat) : digitsValue (Nat.toDigits 10 n) = n :=
  Nat.ofDigitChars_ten_toDigits

end Text

open Text (isWordChar isIdentifier)

inductive Lexeme where
  | number (n : Nat)
  | name (x : String)
  | operator (operator : Operator)
  | opening
  | closing
  deriving DecidableEq, Repr

namespace Lexeme

/-- What a word is.  Where there are no characters there is no word. -/
def ofWord : List Char → List Lexeme
  | [] => []
  | c :: rest =>
    [if c.isDigit then number (Text.digitsValue (c :: rest)) else name (String.ofList (c :: rest))]

def ofMark : Char → List Lexeme
  | '+' => [operator .plus]
  | '-' => [operator .minus]
  | '*' => [operator .times]
  | '(' => [opening]
  | ')' => [closing]
  | _ => []

/-- The lexemes of a text, behind the characters of a word that has not ended yet. -/
def lex (word : List Char) : List Char → List Lexeme
  | [] => ofWord word
  | c :: rest =>
    if isWordChar c then lex (word ++ [c]) rest else ofWord word ++ (ofMark c ++ lex [] rest)

/-- Whether a word that stands before the text ends there. -/
def endsWord : List Char → Bool
  | [] => true
  | c :: _ => !isWordChar c

theorem endsWord_append {chars rest : List Char} (h : endsWord chars = true)
    (hrest : endsWord rest = true) : endsWord (chars ++ rest) = true := by
  cases chars with
  | nil => exact hrest
  | cons c chars => exact h

theorem lex_mark {c : Char} (h : isWordChar c = false) (rest : List Char) :
    lex [] (c :: rest) = ofMark c ++ lex [] rest := by
  rw [lex, if_neg (Bool.eq_false_iff.mp h)]
  rfl

theorem lex_of_endsWord (word : List Char) {rest : List Char} (h : endsWord rest = true) :
    lex word rest = ofWord word ++ lex [] rest := by
  cases rest with
  | nil => exact (List.append_nil _).symm
  | cons c rest =>
    have hc : isWordChar c = false := by simpa [endsWord] using h
    rw [lex_mark hc, lex, if_neg (Bool.eq_false_iff.mp hc)]

/-! ## What a text spells -/

/-- The lexemes of the characters, whatever stands behind them and does not continue their
last word. -/
def Spells (chars : List Char) (lexemes : List Lexeme) : Prop :=
  ∀ rest, endsWord rest = true → lex [] (chars ++ rest) = lexemes ++ lex [] rest

theorem Spells.lex_eq {chars : List Char} {lexemes : List Lexeme} (h : Spells chars lexemes) :
    lex [] chars = lexemes := by
  have hall := h [] rfl
  rw [List.append_nil] at hall
  exact hall.trans (List.append_nil _)

theorem Spells.append {chars chars' : List Char} {lexemes lexemes' : List Lexeme}
    (h : Spells chars lexemes) (h' : Spells chars' lexemes') (hends : endsWord chars' = true) :
    Spells (chars ++ chars') (lexemes ++ lexemes') := by
  intro rest hrest
  rw [List.append_assoc, h _ (endsWord_append hends hrest), h' rest hrest, List.append_assoc]

theorem Spells.mark {chars : List Char} {lexemes : List Lexeme} (h : Spells chars lexemes)
    {c : Char} (hc : isWordChar c = false) : Spells (c :: chars) (ofMark c ++ lexemes) := by
  intro rest hrest
  rw [List.cons_append, lex_mark hc, h rest hrest, List.append_assoc]

theorem spells_nil : Spells [] [] := fun _ _ => rfl

/-- A word is read to its end. -/
theorem spells_word {word : List Char} (hword : word.all isWordChar = true) :
    Spells word (ofWord word) := by
  intro rest hrest
  -- The word is read behind the part of it that has been read already.
  have hread : ∀ sofar, lex sofar (word ++ rest) = ofWord (sofar ++ word) ++ lex [] rest := by
    induction word with
    | nil =>
      intro sofar
      rw [List.append_nil]
      exact lex_of_endsWord sofar hrest
    | cons c word ih =>
      intro sofar
      obtain ⟨hc, hword⟩ := Bool.and_eq_true_iff.mp hword
      rw [List.cons_append, lex, if_pos hc, ih hword, List.append_assoc]
      rfl
  exact hread []

theorem spells_digits (n : Nat) : Spells (Nat.toDigits 10 n) [number n] := by
  have hdigit : ∀ c ∈ Nat.toDigits 10 n, c.isDigit = true := fun _ =>
    Nat.isDigit_of_mem_toDigits (by decide) (by decide)
  have hword : ofWord (Nat.toDigits 10 n) = [number n] := by
    cases hdigits : Nat.toDigits 10 n with
    | nil => exact absurd hdigits Nat.toDigits_ne_nil
    | cons c digits =>
      rw [ofWord, if_pos (hdigit c (hdigits ▸ List.mem_cons_self)), ← hdigits,
        Text.digitsValue_toDigits]
  rw [← hword]
  exact spells_word (List.all_eq_true.mpr fun c hc => Text.isWordChar_of_isDigit (hdigit c hc))

theorem spells_identifier {x : String} (hx : isIdentifier x = true) :
    Spells x.toList [name x] := by
  unfold isIdentifier at hx
  cases hchars : x.toList with
  | nil =>
    rw [hchars] at hx
    cases hx
  | cons c chars =>
    rw [hchars] at hx
    obtain ⟨hc, htail⟩ := Bool.and_eq_true_iff.mp hx
    have hletter : isWordChar c = true := by
      rw [isWordChar, Char.isAlphanum, Bool.or_right_comm, hc]
      rfl
    have hname : ofWord (c :: chars) = [name x] := by
      rw [ofWord, if_neg (Bool.eq_false_iff.mp (Text.isDigit_eq_false hc)), ← hchars,
        String.ofList_toList]
    rw [← hname]
    exact spells_word (Bool.and_eq_true_iff.mpr ⟨hletter, htail⟩)

/-- Lexemes, between parentheses where these are asked for. -/
def grouped (wrap : Bool) (lexemes : List Lexeme) : List Lexeme :=
  if wrap then opening :: (lexemes ++ [closing]) else lexemes

theorem spells_parenthesised {text : String} {lexemes : List Lexeme}
    (h : Spells text.toList lexemes) (wrap : Bool) :
    Spells (parenthesised wrap text).toList (grouped wrap lexemes) := by
  cases wrap with
  | false => exact h
  | true =>
    have htext : (parenthesised true text).toList = '(' :: (text.toList ++ [')']) := by
      simp [parenthesised]
    rw [htext]
    exact (h.append (spells_nil.mark rfl) rfl).mark rfl

/-- An operator between two operands, with the blanks around it. -/
theorem Spells.operator {left right : String} {lexemes lexemes' : List Lexeme}
    (hl : Spells left.toList lexemes) (hr : Spells right.toList lexemes') (operator : Operator) :
    Spells (left ++ (" " ++ operator.symbol ++ " ") ++ right).toList
      (lexemes ++ Lexeme.operator operator :: lexemes') := by
  have htext : (left ++ (" " ++ operator.symbol ++ " ") ++ right).toList =
      left.toList ++ ((" " ++ operator.symbol ++ " ").toList ++ right.toList) := by
    rw [String.toList_append, String.toList_append, List.append_assoc]
  rw [htext]
  cases operator with
  | plus => exact hl.append (((hr.mark rfl).mark rfl).mark rfl) rfl
  | minus => exact hl.append (((hr.mark rfl).mark rfl).mark rfl) rfl
  | times => exact hl.append (((hr.mark rfl).mark rfl).mark rfl) rfl

end Lexeme

/-! ## The text of a tree -/

/-- How tightly an operator binds its operands. -/
def Operator.binding : Operator → Nat
  | plus | minus => 1
  | times => 2

namespace Expr

open Lexeme

theorem precedence_node (operator : Operator) (l r : Expr) :
    (operator.node l r).precedence = operator.binding := by
  cases operator <;> rfl

/-- The lexemes an arithmetic expression is written with.  Other leaves have none. -/
def lexemes : Expr → List Lexeme
  | constant c =>
    if c.toInt < 0 then [operator .minus, number c.toInt.natAbs] else [number c.toInt.natAbs]
  | var x => [name x]
  | add l r => grouped (l.precedence < 1) l.lexemes ++
      operator .plus :: grouped (r.precedence ≤ 1) r.lexemes
  | sub l r => grouped (l.precedence < 1) l.lexemes ++
      operator .minus :: grouped (r.precedence ≤ 1) r.lexemes
  | mul l r => grouped (l.precedence < 2) l.lexemes ++
      operator .times :: grouped (r.precedence ≤ 2) r.lexemes
  | neg e => operator .minus :: grouped (e.precedence < 4) e.lexemes
  | _ => []

theorem lexemes_node (operator : Operator) (l r : Expr) :
    (operator.node l r).lexemes = grouped (l.precedence < operator.binding) l.lexemes ++
      Lexeme.operator operator :: grouped (r.precedence ≤ operator.binding) r.lexemes := by
  cases operator <;> rfl

theorem text_node (operator : Operator) (l r : Expr) :
    (operator.node l r).text = parenthesised (l.precedence < operator.binding) l.text ++
      (" " ++ operator.symbol ++ " ") ++ parenthesised (r.precedence ≤ operator.binding) r.text := by
  cases operator <;> rfl

theorem toList_decimalText (c : Int32) : (decimalText c).toList =
    if c.toInt < 0 then '-' :: Nat.toDigits 10 c.toInt.natAbs
    else Nat.toDigits 10 c.toInt.natAbs := by
  unfold decimalText
  cases c.toInt with
  | ofNat n =>
    have htext : toString (Int.ofNat n) = n.repr := rfl
    have hn : ¬ Int.ofNat n < 0 := Int.not_lt.mpr (Int.natCast_nonneg n)
    rw [htext, if_neg hn, Nat.toList_repr]
    rfl
  | negSucc n =>
    have htext : toString (Int.negSucc n) = "-" ++ (n + 1).repr := rfl
    rw [htext, if_pos (Int.negSucc_lt_zero n), String.toList_append, Nat.toList_repr]
    rfl

theorem spells_decimalText (c : Int32) : Spells (decimalText c).toList (constant c).lexemes := by
  rw [toList_decimalText, lexemes]
  split
  · exact (spells_digits _).mark rfl
  · exact spells_digits _

/-- The text of a tree spells its lexemes. -/
theorem spells_text {e : Expr} (h : e.isArithmetic = true)
    (hnames : ∀ x ∈ e.freeNames, isIdentifier x = true) : Spells e.text.toList e.lexemes := by
  induction e, h using isArithmetic_node_induction with
  | constant c => exact spells_decimalText c
  | var x => exact spells_identifier (hnames x List.mem_cons_self)
  | node operator l r _ _ ihl ihr =>
    rw [freeNames_node] at hnames
    have hl := ihl fun x hx => hnames x (List.mem_append_left _ hx)
    have hr := ihr fun x hx => hnames x (List.mem_append_right _ hx)
    rw [text_node, lexemes_node]
    exact (spells_parenthesised hl _).operator (spells_parenthesised hr _) operator
  | neg e _ ih =>
    have htext : (neg e).text.toList = '-' :: (parenthesised (e.precedence < 4) e.text).toList := by
      rw [text, String.toList_append]
      rfl
    rw [htext]
    exact (spells_parenthesised (ih hnames) _).mark rfl

end Expr
end IntCalculus
