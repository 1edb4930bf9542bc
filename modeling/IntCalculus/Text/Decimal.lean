/-
Decimal numerals, and which of them are too large for a binary64 number.

A numeral is a coefficient and a power of ten.  Rounding takes a value to infinity
from `2 ^ 1024 - 2 ^ 970` on, the middle between the largest finite number and the
power of two above it.  The coefficient's length settles all but the numerals of
one magnitude, so that no huge power is ever computed.
-/
namespace IntCalculus
namespace Text

def digitsValue (digits : List Char) : Nat :=
  digits.foldl (fun n d => 10 * n + (d.toNat - '0'.toNat)) 0

/-- The number `coefficient * 10 ^ exponent`. -/
structure Decimal where
  coefficient : Nat
  exponent : Int
  deriving DecidableEq, Repr

namespace Decimal

/-- The exponent that stands after the letter `e`. -/
def exponentOf : List Char → Int
  | '-' :: digits => -(digitsValue digits : Int)
  | '+' :: digits => digitsValue digits
  | digits => digitsValue digits

/-- The number that an unsigned numeral writes: digits, then possibly a point and
more digits, then possibly an exponent. -/
def ofNumeral (chars : List Char) : Decimal :=
  let whole := chars.takeWhile Char.isDigit
  let (fraction, rest) :=
    match chars.dropWhile Char.isDigit with
    | '.' :: rest => rest.span Char.isDigit
    | rest => ([], rest)
  ⟨digitsValue (whole ++ fraction), exponentOf rest.tail - fraction.length⟩

/-- How many digits the coefficient has. -/
def length (d : Decimal) : Nat := (Nat.toDigits 10 d.coefficient).length

/-- Whether the number is rounded to infinity. -/
def overflows (d : Decimal) : Bool :=
  if d.coefficient = 0 then false
  else if 309 < d.length + d.exponent then true
  else if d.length + d.exponent < 309 then false
  else
    Nat.pow 2 1024 - Nat.pow 2 970 ≤
      d.coefficient * Nat.pow 10 d.exponent.toNat / Nat.pow 10 (-d.exponent).toNat

/-- Nothing overflows that has a coefficient of zero. -/
theorem overflows_zero (exponent : Int) : overflows ⟨0, exponent⟩ = false := rfl

end Decimal
end Text
end IntCalculus
