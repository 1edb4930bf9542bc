/-
The infix text of expressions and values.

Parentheses are written where the tree needs them and nowhere else.  A left
operand keeps its parentheses when it binds more loosely than its operator, a
right operand also when it binds equally, so `x - (x - 1)` and `x - x - 1` stay
apart.  A negated operand is parenthesised unless it is a leaf.  The content of
a string literal stands between quotes as it is.
-/
import IntCalculus.Expr

namespace IntCalculus

/-- The decimal text of a constant, with a leading minus when it is negative. -/
def decimalText (c : Int32) : String := toString c.toInt

def parenthesised (wrap : Bool) (text : String) : String :=
  if wrap then "(" ++ text ++ ")" else text

/-- How tightly a node binds its operands: a function value least, a leaf
most. -/
def Expr.precedence : Expr → Nat
  | .function _ _ => 0
  | .add _ _ | .sub _ _ => 1
  | .mul _ _ => 2
  | .neg _ => 3
  | _ => 4

mutual
def Expr.text : Expr → String
  | .constant c => decimalText c
  | .bool b => if b then "true" else "false"
  | .str s => "\"" ++ s ++ "\""
  | .var name => name
  | .add l r => parenthesised (l.precedence < 1) l.text ++ " + " ++
      parenthesised (r.precedence ≤ 1) r.text
  | .sub l r => parenthesised (l.precedence < 1) l.text ++ " - " ++
      parenthesised (r.precedence ≤ 1) r.text
  | .mul l r => parenthesised (l.precedence < 2) l.text ++ " * " ++
      parenthesised (r.precedence ≤ 2) r.text
  | .neg e => "-" ++ parenthesised (e.precedence < 4) e.text
  | .function params body => "fn(" ++ ", ".intercalate params ++ ") = " ++ body.text
  | .vector elements => "[" ++ Value.elementsText elements ++ "]"
  | .derivative f x _ => "derive(" ++ f.text ++ " by " ++ x ++ ")"
  | .gradient f xs _ => "gradient(" ++ f.text ++ " by [" ++ ", ".intercalate xs ++ "])"

def Value.text : Value → String
  | .int n => decimalText n
  | .bool b => if b then "true" else "false"
  | .string s => "\"" ++ s ++ "\""
  | .function params body => "fn(" ++ ", ".intercalate params ++ ") = " ++ body.text
  | .vector elements => "[" ++ Value.elementsText elements ++ "]"

def Value.elementsText : List Value → String
  | [] => ""
  | [v] => v.text
  | v :: w :: rest => v.text ++ ", " ++ Value.elementsText (w :: rest)
end

/-- The integer a value holds, or why it holds none. -/
def Value.toInt (v : Value) : Except String Int32 :=
  match v.int? with
  | some n => .ok n
  | none => .error ("cannot convert " ++ v.text ++ " to int")

end IntCalculus
