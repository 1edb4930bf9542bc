/-
Classes of characters in regular expressions.

A class is given by a test, which is right for the characters of ASCII.
-/
namespace IntCalculus
namespace Text

abbrev Class := Char → Bool

namespace Class

def not (class₁ : Class) : Class := fun c => !class₁ c

def digit : Class := Char.isDigit

def word : Class := fun c => c.isAlphanum || c == '_'

def space : Class := fun c => c == ' ' || (0x09 ≤ c.toNat && c.toNat ≤ 0x0d)

def range (first last : Char) : Class := fun c => first ≤ c && c ≤ last

def punctuation : Class := fun c => 0x21 ≤ c.toNat && c.toNat ≤ 0x7e && !c.isAlphanum

/-- Whether a class has no character that is one byte, but not one of ASCII. -/
def isAscii (class₁ : Class) : Bool := (List.range 0x80).all fun n => !class₁ (Char.ofNat (0x80 + n))

/-- The class without regard to the case of the letters A to Z. -/
def ignoringCase (class₁ : Class) : Class := fun c => class₁ c || class₁ c.toLower || class₁ c.toUpper

/-- The classes that have names inside brackets. -/
def named? : String → Option Class
  | "alnum" => some Char.isAlphanum
  | "alpha" => some Char.isAlpha
  | "ascii" => some fun c => c.toNat < 0x80
  | "blank" => some fun c => c == ' ' || c == '\t'
  | "cntrl" => some fun c => c.toNat < 0x20 || c.toNat == 0x7f
  | "digit" => some digit
  | "graph" => some fun c => 0x21 ≤ c.toNat && c.toNat ≤ 0x7e
  | "lower" => some Char.isLower
  | "print" => some fun c => 0x20 ≤ c.toNat && c.toNat ≤ 0x7e
  | "punct" => some punctuation
  | "space" => some space
  | "upper" => some Char.isUpper
  | "word" => some word
  | "xdigit" => some fun c => c.isDigit || range 'a' 'f' c || range 'A' 'F' c
  | _ => none

/-- Characters of ASCII that are symbols and no punctuation. -/
def symbols : List Char := ['$', '+', '<', '=', '>', '^', '\x60', '|', '~']

/-- The classes that have Unicode names, which are written without blanks, hyphens and
underscores. -/
def category? : String → Option Class
  | "any" | "assigned" | "ascii" => some fun _ => true
  | "l" | "letter" | "alphabetic" | "alpha" | "latin" => some Char.isAlpha
  | "lu" | "uppercaseletter" | "uppercase" | "upper" => some Char.isUpper
  | "ll" | "lowercaseletter" | "lowercase" | "lower" => some Char.isLower
  | "n" | "number" | "nd" | "decimalnumber" | "digit" => some digit
  | "p" | "punctuation" | "punct" => some fun c => punctuation c && !symbols.contains c
  | "s" | "symbol" => some symbols.contains
  | "z" | "separator" | "zs" | "spaceseparator" => some (· == ' ')
  | "whitespace" | "space" => some space
  | "greek" | "cyrillic" | "han" | "hebrew" | "arabic" | "lt" | "lm" | "lo" | "m" | "mark" =>
    some fun _ => false
  | _ => none

end Class
end Text
end IntCalculus
