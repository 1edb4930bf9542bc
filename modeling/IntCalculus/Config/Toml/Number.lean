/-
Numbers, dates and times of TOML.

No setting is a number or a date, so of these values only their form is looked at:
signs, single underscores between digits, no needless leading zero, integers within
64 bits, floats that are not rounded to positive infinity, days that exist.
-/
import IntCalculus.Json.Token
import IntCalculus.Text.Decimal

namespace IntCalculus
namespace Toml

/-! ## Numbers -/

/-- The digits of a numeral in which single underscores may stand between
digits. -/
def digits? (isDigit : Char → Bool) (chars : List Char) : Option (List Char) :=
  let groups := chars.splitOnP (· == '_')
  if groups.all fun group => !group.isEmpty && group.all isDigit then some groups.flatten
  else none

/-- Whether a numeral has an optional sign, and what follows it. -/
def signed (chars : List Char) : Bool × List Char :=
  match chars with
  | '-' :: rest => (true, rest)
  | '+' :: rest => (false, rest)
  | rest => (false, rest)

/-- Whether digits in a base write a number of 63 bits. -/
def isBasedInteger (base : Nat) (chars : List Char) : Bool :=
  let value := fun c => (Json.hexValue c).getD base
  match digits? (fun c => value c < base) chars with
  | some digits => digits.foldl (fun n c => base * n + value c) 0 < Nat.pow 2 63
  | none => false

def isInteger : List Char → Bool
  | '0' :: 'x' :: rest => isBasedInteger 16 rest
  | '0' :: 'o' :: rest => isBasedInteger 8 rest
  | '0' :: 'b' :: rest => isBasedInteger 2 rest
  | chars =>
    let (negative, unsigned) := signed chars
    match digits? Char.isDigit unsigned with
    | some digits =>
      Json.isWhole digits &&
        Text.digitsValue digits < if negative then Nat.pow 2 63 + 1 else Nat.pow 2 63
    | none => false

/-- Whether what follows the whole part of a float is an exponent, or nothing. -/
def isExponent : List Char → Bool
  | [] => true
  | e :: rest => (e == 'e' || e == 'E') && (digits? Char.isDigit (signed rest).2).isSome

/-- Whether what follows the whole part of a float is a fraction and an
exponent, of which one is there. -/
def isFraction : List Char → Bool
  | '.' :: rest =>
    let isPart := fun c => c.isDigit || c == '_'
    (digits? Char.isDigit (rest.takeWhile isPart)).isSome && isExponent (rest.dropWhile isPart)
  | rest => !rest.isEmpty && isExponent rest

def isFloat (chars : List Char) : Bool :=
  let (negative, unsigned) := signed chars
  let isPart := fun c => c.isDigit || c == '_'
  let whole := digits? Char.isDigit (unsigned.takeWhile isPart)
  whole.any Json.isWhole && isFraction (unsigned.dropWhile isPart) &&
    (negative || !(Text.Decimal.ofNumeral (unsigned.filter (· != '_'))).overflows)

def isNamedNumber (chars : List Char) : Bool :=
  ["inf", "nan"].contains (String.ofList (signed chars).2)

def isNumber (chars : List Char) : Bool := isInteger chars || isFloat chars || isNamedNumber chars

/-! ## Dates and times -/

/-- The number that so many digits write, and what follows them. -/
def fixedDigits? (count : Nat) (chars : List Char) : Option (Nat × List Char) :=
  let digits := chars.take count
  if digits.length = count && digits.all Char.isDigit then
    some (Text.digitsValue digits, chars.drop count)
  else none

def daysOf (year month : Nat) : Nat :=
  if month = 2 then
    if year % 4 = 0 && (year % 100 != 0 || year % 400 = 0) then 29 else 28
  else if [4, 6, 9, 11].contains month then 30
  else 31

def afterDate? (chars : List Char) : Option (List Char) := do
  let (year, rest) ← fixedDigits? 4 chars
  let (month, rest) ← fixedDigits? 2 (← afterChar? '-' rest)
  let (day, rest) ← fixedDigits? 2 (← afterChar? '-' rest)
  if 1 ≤ month && month ≤ 12 && 1 ≤ day && day ≤ daysOf year month then some rest else none
where
  afterChar? (expected : Char) : List Char → Option (List Char)
    | c :: rest => if c = expected then some rest else none
    | [] => none

def afterMinute? (chars : List Char) : Option (List Char) := do
  let (hour, rest) ← fixedDigits? 2 chars
  match rest with
  | ':' :: rest =>
    let (minute, rest) ← fixedDigits? 2 rest
    if hour ≤ 23 && minute ≤ 59 then some rest else none
  | _ => none

/-- What follows a time of day, in which a minute may have a leap second. -/
def afterTime? (chars : List Char) : Option (List Char) := do
  match ← afterMinute? chars with
  | ':' :: rest =>
    let (second, rest) ← fixedDigits? 2 rest
    if second ≤ 60 then
      match rest with
      | '.' :: rest => if (rest.head?.any Char.isDigit) then some (rest.dropWhile Char.isDigit) else none
      | rest => some rest
    else none
  | _ => none

/-- Whether a text is the offset of a time zone, or nothing. -/
def isOffset : List Char → Bool
  | [] => true
  | [c] => c == 'Z' || c == 'z'
  | c :: rest => (c == '+' || c == '-') && afterMinute? rest == some []

/-- Whether a text is a time of day, or a date that a time of day may follow after
a separator, which may have an offset. -/
def isDateTime (chars : List Char) : Bool :=
  match afterDate? chars with
  | some [] => true
  | some (c :: rest) => ['T', 't', ' '].contains c && (afterTime? rest).any isOffset
  | none => afterTime? chars == some []

/-! ## Words -/

/-- Characters of a key that needs no quotes. -/
def isBare (c : Char) : Bool := c.isAlphanum || c == '_' || c == '-'

/-- Characters of a value that is no string and no collection. -/
def isWordPart (c : Char) : Bool := isBare c || c == '+' || c == '.' || c == ':'

/-- The longest word at the beginning of a text, and what follows it.  A date and a
time that one space separates make up one word. -/
def word (cs : List Char) : List Char × List Char :=
  let (first, rest) := cs.span isWordPart
  match rest with
  | ' ' :: after =>
    if (afterDate? first) == some [] && (afterMinute? after).isSome then
      let (second, rest) := after.span isWordPart
      (first ++ ' ' :: second, rest)
    else (first, rest)
  | _ => (first, rest)

end Toml
end IntCalculus
