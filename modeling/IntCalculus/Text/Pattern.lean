/-
Regular expressions, and the texts in which they match somewhere.

The places of a text are before its first character, between any two and after its last.
A set of places is kept as a number: bit `i` is set when place `i` belongs to it.
`Pattern.ends` takes the set of places where a match may begin to the set of those where
it may end, so a pattern occurs in a text when the set is not empty that it takes all
places to.  Which of several matches is preferred does not matter for that.
-/
namespace IntCalculus
namespace Text

inductive Pattern where
  | empty
  | one (accepts : Char → Bool)
  /-- A place between two characters, of which either may be missing. -/
  | place (admits : Option Char → Option Char → Bool)
  | both (first second : Pattern)
  | either (first second : Pattern)
  /-- A pattern so many times, at least and at most. -/
  | times (body : Pattern) (least : Nat) (most : Option Nat)

namespace Pattern

/-! ## Sets of places -/

/-- The places where a list says so. -/
def placesOf (flags : List Bool) : Nat := flags.foldr (fun flag places => 2 * places + flag.toNat) 0

/-- A place is in the set when the list says so there. -/
theorem testBit_placesOf (flags : List Bool) (i : Nat) :
    (placesOf flags).testBit i = flags.getD i false := by
  induction flags generalizing i with
  | nil => simp [placesOf]
  | cons flag rest ih =>
    have hcons : placesOf (flag :: rest) = 2 * placesOf rest + flag.toNat := rfl
    have hflag : flag.toNat < 2 := by cases flag <;> decide
    cases i with
    | zero =>
      rw [hcons, Nat.testBit_zero]
      cases flag <;> simp
    | succ i =>
      have hhalf : (2 * placesOf rest + flag.toNat) / 2 = placesOf rest := by omega
      rw [hcons, Nat.testBit_succ, hhalf, ih i]
      simp

/-- The characters before and after every place of a text. -/
def neighbours (before : Option Char) : List Char → List (Option Char × Option Char)
  | [] => [(before, none)]
  | c :: rest => (before, some c) :: neighbours (some c) rest

/-- A set of places with those that a step reaches, taken again and again until nothing is
added or the steps are used up. -/
def closure (step : Nat → Nat) : (steps : Nat) → Nat → Nat
  | 0, places => places
  | steps + 1, places =>
    let more := places ||| step places
    if more = places then places else closure step steps more

def iterate (step : Nat → Nat) : (count : Nat) → Nat → Nat
  | 0, places => places
  | count + 1, places => iterate step count (step places)

/-! ## Matching -/

/-- The places of a text where a match may end that begins in a set of places.  A match
passes a text's places at most once in each round that makes progress. -/
def ends (text : List Char) : Pattern → Nat → Nat
  | empty, places => places
  | one accepts, places => (places &&& placesOf (text.map accepts)) <<< 1
  | place admits, places =>
    places &&& placesOf ((neighbours none text).map fun (before, after) => admits before after)
  | both first second, places => ends text second (ends text first places)
  | either first second, places => ends text first places ||| ends text second places
  | times body least most, places =>
    let step := ends text body
    let rounds := text.length + 1
    let optional := (most.map (min rounds <| · - least)).getD rounds
    closure step optional (iterate step least places)

def occursIn (pattern : Pattern) (text : List Char) : Bool :=
  pattern.ends text (Nat.pow 2 (text.length + 1) - 1) != 0

theorem occursIn_empty (text : List Char) : occursIn empty text = true := by
  have : 2 ≤ Nat.pow 2 (text.length + 1) := by
    show 2 ≤ 2 ^ (text.length + 1)
    rw [Nat.pow_succ]
    have := Nat.two_pow_pos text.length
    omega
  simp only [occursIn, ends, bne_iff_ne, ne_eq]
  omega

/-- How long a pattern is when all repetitions are written out. -/
def size : Pattern → Nat
  | empty => 0
  | one _ => 1
  | place _ => 1
  | both first second => size first + size second
  | either first second => size first + size second
  | times body least most => size body * max 1 (most.getD least)

/-! ## Parts -/

def sequence (patterns : List Pattern) : Pattern := patterns.foldr both empty

def anyOf : List Pattern → Pattern
  | [] => empty
  | [pattern] => pattern
  | pattern :: rest => either pattern (anyOf rest)

end Pattern
end Text
end IntCalculus
