/-
The tokens of a JSON text.

The text is read one character at a time by a machine with a few modes: between
tokens, inside a string, inside a number, inside a word.  A string is collected
as the code points it was written with, where an escape may give half of a
surrogate pair; `ofUnits` joins the halves when the string ends, and a half that
stands alone leaves the token without a content.
-/
import IntCalculus.Json
import IntCalculus.Text.Decimal

namespace IntCalculus
namespace Json

inductive Token where
  | openArray
  | closeArray
  | openObject
  | closeObject
  | colon
  | comma
  /-- A string, with its content if that is well formed. -/
  | text (content : Option String)
  /-- A number, a truth value or null. -/
  | scalar (value : Json)

/-! ## Numbers -/

/-- Whether the digits can stand before the point: no needless leading zero. -/
def isWhole : List Char → Bool
  | [] => false
  | '0' :: rest => rest.isEmpty
  | digits => digits.all Char.isDigit

/-- Whether what follows the whole part is an exponent, or nothing. -/
def isExponent : List Char → Bool
  | [] => true
  | e :: rest =>
    let digits :=
      match rest with
      | '+' :: digits => digits
      | '-' :: digits => digits
      | digits => digits
    (e == 'e' || e == 'E') && !digits.isEmpty && digits.all Char.isDigit

/-- Whether what follows the whole part is a fraction and an exponent. -/
def isFraction : List Char → Bool
  | '.' :: rest => !(rest.takeWhile Char.isDigit).isEmpty && isExponent (rest.dropWhile Char.isDigit)
  | rest => isExponent rest

def number? (chars : List Char) : Option Json :=
  let (negative, unsigned) :=
    match chars with
    | '-' :: rest => (true, rest)
    | rest => (false, rest)
  let whole := unsigned.takeWhile Char.isDigit
  let after := unsigned.dropWhile Char.isDigit
  if isWhole whole && isFraction after then
    if after.isEmpty && !(negative && Text.digitsValue whole == 0) then
      some (integer (if negative then -(Text.digitsValue whole : Int) else Text.digitsValue whole))
    else some (decimal (String.ofList chars))
  else none

/-! ## Strings -/

/-- The text of a list of code points and surrogate halves. -/
def ofUnits : List Nat → Option (List Char)
  | [] => some []
  | [n] => if 0xd800 ≤ n ∧ n < 0xe000 then none else some [Char.ofNat n]
  | n :: m :: rest =>
    if 0xd800 ≤ n ∧ n < 0xdc00 then
      if 0xdc00 ≤ m ∧ m < 0xe000 then
        (ofUnits rest).map (Char.ofNat (0x10000 + (n - 0xd800) * 0x400 + (m - 0xdc00)) :: ·)
      else none
    else if 0xdc00 ≤ n ∧ n < 0xe000 then none
    else (ofUnits (m :: rest)).map (Char.ofNat n :: ·)

/-- The character a single letter after a backslash stands for. -/
def unescape : Char → Option Char
  | '"' => some '"'
  | '\\' => some '\\'
  | '/' => some '/'
  | 'b' => some '\x08'
  | 'f' => some '\x0c'
  | 'n' => some '\n'
  | 'r' => some '\r'
  | 't' => some '\t'
  | _ => none

def hexValue (c : Char) : Option Nat :=
  if c.isDigit then some (c.toNat - '0'.toNat)
  else if 'a' ≤ c ∧ c ≤ 'f' then some (c.toNat - 'a'.toNat + 10)
  else if 'A' ≤ c ∧ c ≤ 'F' then some (c.toNat - 'A'.toNat + 10)
  else none

/-! ## The machine -/

/-- Where the machine stands.  What a mode collects is kept in reverse. -/
inductive Mode where
  | between
  | inString (units : List Nat)
  | afterBackslash (units : List Nat)
  /-- Inside a numbered escape, with so many digits still to come. -/
  | inEscape (units : List Nat) (missing : Nat) (value : Nat)
  | inNumber (chars : List Char)
  | inWord (chars : List Char)

/-- A mode and the tokens read so far, in reverse. -/
structure Lexer where
  mode : Mode
  tokens : List Token

namespace Lexer

def start : Lexer := ⟨.between, []⟩

def isBlank (c : Char) : Bool := c == ' ' || c == '\t' || c == '\n' || c == '\r'

def isNumeric (c : Char) : Bool :=
  c.isDigit || c == '-' || c == '+' || c == '.' || c == 'e' || c == 'E'

/-- End the number or word the machine stands in, if it stands in one. -/
def finishScalar (lexer : Lexer) : Option Lexer :=
  match lexer.mode with
  | .inNumber chars => do
    let value ← number? chars.reverse
    some ⟨.between, .scalar value :: lexer.tokens⟩
  | .inWord chars =>
    match String.ofList chars.reverse with
    | "null" => some ⟨.between, .scalar .null :: lexer.tokens⟩
    | "true" => some ⟨.between, .scalar (.bool true) :: lexer.tokens⟩
    | "false" => some ⟨.between, .scalar (.bool false) :: lexer.tokens⟩
    | _ => none
  | _ => some lexer

def stepBetween (tokens : List Token) (c : Char) : Option Lexer :=
  if isBlank c then some ⟨.between, tokens⟩
  else if c.isDigit || c == '-' then some ⟨.inNumber [c], tokens⟩
  else if c.isLower then some ⟨.inWord [c], tokens⟩
  else
    match c with
    | '"' => some ⟨.inString [], tokens⟩
    | '[' => some ⟨.between, .openArray :: tokens⟩
    | ']' => some ⟨.between, .closeArray :: tokens⟩
    | '\x7b' => some ⟨.between, .openObject :: tokens⟩
    | '\x7d' => some ⟨.between, .closeObject :: tokens⟩
    | ':' => some ⟨.between, .colon :: tokens⟩
    | ',' => some ⟨.between, .comma :: tokens⟩
    | _ => none

def step (lexer : Lexer) (c : Char) : Option Lexer :=
  match lexer.mode with
  | .between => stepBetween lexer.tokens c
  | .inString units =>
    if c = '"' then
      some ⟨.between, .text ((ofUnits units.reverse).map String.ofList) :: lexer.tokens⟩
    else if c = '\\' then some { lexer with mode := .afterBackslash units }
    else if c.toNat < 0x20 then none
    else some { lexer with mode := .inString (c.toNat :: units) }
  | .afterBackslash units =>
    if c = 'u' then some { lexer with mode := .inEscape units 4 0 }
    else do
      let meant ← unescape c
      some { lexer with mode := .inString (meant.toNat :: units) }
  | .inEscape units missing value => do
    let digit ← hexValue c
    let value := 16 * value + digit
    if missing ≤ 1 then some { lexer with mode := .inString (value :: units) }
    else some { lexer with mode := .inEscape units (missing - 1) value }
  | .inNumber chars =>
    if isNumeric c then some { lexer with mode := .inNumber (c :: chars) }
    else do
      let lexer ← lexer.finishScalar
      stepBetween lexer.tokens c
  | .inWord chars =>
    if c.isLower then some { lexer with mode := .inWord (c :: chars) }
    else do
      let lexer ← lexer.finishScalar
      stepBetween lexer.tokens c

end Lexer

def tokens? (text : String) : Option (List Token) := do
  let lexer ← text.toList.foldlM Lexer.step Lexer.start
  let lexer ← lexer.finishScalar
  match lexer.mode with
  | .between => some lexer.tokens.reverse
  | _ => none

end Json
end IntCalculus
