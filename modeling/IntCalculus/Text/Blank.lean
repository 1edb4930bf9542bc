/-
White space, in the sense of the Unicode property, and ASCII case.

Words in the environment and on the command line are trimmed of white space at
both ends and compared without regard to the case of the letters A to Z.  Letters
outside ASCII keep their case, so they match nothing.
-/
namespace IntCalculus
namespace Text

/-- The ranges of code points with the property `White_Space`. -/
def blankRanges : List (Nat × Nat) :=
  [(0x09, 0x0d), (0x20, 0x20), (0x85, 0x85), (0xa0, 0xa0), (0x1680, 0x1680), (0x2000, 0x200a),
    (0x2028, 0x2029), (0x202f, 0x202f), (0x205f, 0x205f), (0x3000, 0x3000)]

def isBlank (c : Char) : Bool :=
  blankRanges.any fun range => range.1 ≤ c.toNat && c.toNat ≤ range.2

/-- Everything ASCII counts as white space does here. -/
theorem isBlank_of_isWhitespace {c : Char} (h : c.isWhitespace = true) : isBlank c = true := by
  simp only [Char.isWhitespace, Bool.or_eq_true, decide_eq_true_eq] at h
  rcases h with ((h | h) | h) | h <;> subst h <;> decide

def trimRight (s : String) : String :=
  String.ofList (s.toList.reverse.dropWhile isBlank).reverse

def trim (s : String) : String :=
  trimRight (String.ofList (s.toList.dropWhile isBlank))

/-- The text with the letters A to Z in lower case. -/
def lower (s : String) : String := s.map Char.toLower

/-- What stands before the first `separator` and after it. -/
def splitAtFirst (separator : Char) (s : String) : Option (String × String) :=
  match s.toList.span (· != separator) with
  | (_, []) => none
  | (before, _ :: after) => some (String.ofList before, String.ofList after)

def splitOnChar (separator : Char) (s : String) : List String :=
  (s.toList.splitOnP (· == separator)).map String.ofList

end Text
end IntCalculus
