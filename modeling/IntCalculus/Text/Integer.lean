/-
Reading decimal integers of a bounded range.

A text is an optional sign and at least one digit.  Digits are taken from left to
right, and the first fault decides: a character that is no digit, or a value that
has left the range.
-/
namespace IntCalculus
namespace Text

/-- Why a text is no integer of the range. -/
inductive IntegerFault where
  | empty
  | invalidDigit
  | tooLarge
  | tooSmall
  deriving DecidableEq, Repr

def IntegerFault.message : IntegerFault → String
  | empty => "cannot parse integer from empty string"
  | invalidDigit => "invalid digit found in string"
  | tooLarge => "number too large to fit in target type"
  | tooSmall => "number too small to fit in target type"

/-- Continue a number with digits, as long as it does not exceed `bound`. -/
def boundedDigits (bound : Nat) (fault : IntegerFault) (sofar : Nat) :
    List Char → Except IntegerFault Nat
  | [] => .ok sofar
  | c :: rest =>
    if c.isDigit then
      let next := 10 * sofar + (c.toNat - '0'.toNat)
      if next ≤ bound then boundedDigits bound fault next rest else .error fault
    else .error .invalidDigit

/-- The integer a text writes, from `-(bound + 1)` to `bound`. -/
def boundedInteger (bound : Nat) (s : String) : Except IntegerFault Int :=
  match s.toList with
  | [] => .error .empty
  | ['-'] => .error .invalidDigit
  | ['+'] => .error .invalidDigit
  | '-' :: digits => (boundedDigits (bound + 1) .tooSmall 0 digits).map fun n => -(n : Int)
  | '+' :: digits => (boundedDigits bound .tooLarge 0 digits).map fun n => (n : Int)
  | digits => (boundedDigits bound .tooLarge 0 digits).map fun n => (n : Int)

end Text
end IntCalculus
