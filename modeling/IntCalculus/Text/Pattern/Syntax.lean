/-
Reading regular expressions.

The syntax has classes in brackets with their set operations, groups with and without
names, switches for the case of letters, for line ends and for blanks, counted
repetitions, and escapes; it has no references to groups and no conditions on what stands
around.  A text that does not follow it is no pattern, and neither is one that would be
too long with its repetitions written out.
-/
import IntCalculus.Json.Token
import IntCalculus.Text.Pattern
import IntCalculus.Text.Pattern.Class

namespace IntCalculus
namespace Text
namespace Pattern

/-! ## Switches -/

/-- What the switches of a group are set to. -/
structure Switches where
  ignoreCase : Bool := false
  multiLine : Bool := false
  dotAll : Bool := false
  /-- Whether blanks and comments do not count. -/
  spaced : Bool := false
  /-- Whether classes go beyond ASCII. -/
  unicode : Bool := true

namespace Switches

/-- Turn a switch on or off.  Two more switches are about which match is preferred and
about carriage returns, which no message has. -/
def set? (switches : Switches) (value : Bool) : Char → Option Switches
  | 'i' => some { switches with ignoreCase := value }
  | 'm' => some { switches with multiLine := value }
  | 's' => some { switches with dotAll := value }
  | 'x' => some { switches with spaced := value }
  | 'u' => some { switches with unicode := value }
  | 'U' => some switches
  | 'R' => some switches
  | _ => none

/-- Read switches up to a colon or a closing parenthesis, each at most once.  After a
minus sign they are turned off. -/
def read? (switches : Switches) (seen : List Char) (value : Bool) :
    List Char → Option (Switches × Char × List Char)
  | [] => none
  | c :: rest =>
    if c = ':' || c = ')' then
      if seen.head? == some '-' then none else some (switches, c, rest)
    else if seen.contains c then none
    else if c = '-' then read? switches (c :: seen) false rest
    else do
      let switches ← switches.set? value c
      read? switches (c :: seen) value rest

def apply (switches : Switches) (accepts : Class) : Class :=
  if switches.ignoreCase then Class.ignoringCase accepts else accepts

/-- A class, unless it would have to go beyond ASCII and may not. -/
def allow? (switches : Switches) (accepts : Class) : Option Class :=
  if switches.unicode || Class.isAscii accepts then some accepts else none

/-- The text after blanks and comments, which begin with a number sign. -/
def afterSpace (inComment : Bool) : List Char → List Char
  | [] => []
  | c :: rest =>
    if inComment then afterSpace (c != '\n') rest
    else if Class.space c then afterSpace false rest
    else if c = '#' then afterSpace true rest
    else c :: rest

def skipSpace (switches : Switches) (cs : List Char) : List Char :=
  if switches.spaced then afterSpace false cs else cs

end Switches

/-! ## Escapes -/

inductive Escape where
  | char (c : Char)
  | chars (accepts : Class)
  | category (accepts : Class)
  | condition (admits : Option Char → Option Char → Bool)

def hexChar? (digits : List Char) : Option Char := do
  if digits.isEmpty then none
  else
    let value ← digits.foldlM (fun n d => (Json.hexValue d).map (16 * n + ·)) 0
    if value.isValidChar then some (Char.ofNat value) else none

/-- A character by its number, of so many digits or in braces. -/
def numbered? (count : Nat) : List Char → Option (Char × List Char)
  | '\x7b' :: rest =>
    match rest.span (· != '\x7d') with
    | (digits, _ :: rest) => (hexChar? digits).map (·, rest)
    | _ => none
  | rest =>
    if rest.length < count then none else (hexChar? (rest.take count)).map (·, rest.drop count)

/-- The class with a Unicode name, which is one letter or stands in braces. -/
def category? : List Char → Option (Class × List Char)
  | '\x7b' :: rest =>
    match rest.span (· != '\x7d') with
    | ('^' :: name, _ :: rest) => (Class.category? (plain name)).map (Class.not ·, rest)
    | (name, _ :: rest) => (Class.category? (plain name)).map (·, rest)
    | _ => none
  | c :: rest => (Class.category? (plain [c])).map (·, rest)
  | [] => none
where
  plain (name : List Char) : String :=
    String.ofList ((name.filter fun c => !(Class.space c || c == '-' || c == '_')).map Char.toLower)

def isWord (c : Option Char) : Bool := c.any Class.word

/-- A condition on words: that one begins, that one ends, or either. -/
def wordCondition? (name : List Char) : Option (Option Char → Option Char → Bool) :=
  match String.ofList name with
  | "start" => some fun before after => !isWord before && isWord after
  | "end" => some fun before after => isWord before && !isWord after
  | "start-half" => some fun before _ => !isWord before
  | "end-half" => some fun _ after => !isWord after
  | _ => none

def escape? : List Char → Option (Escape × List Char)
  | [] => none
  | c :: rest =>
    match c with
    | 'x' => (numbered? 2 rest).map fun (c, rest) => (.char c, rest)
    | 'u' => (numbered? 4 rest).map fun (c, rest) => (.char c, rest)
    | 'U' => (numbered? 8 rest).map fun (c, rest) => (.char c, rest)
    | 'p' => (category? rest).map fun (accepts, rest) => (.category accepts, rest)
    | 'P' => (category? rest).map fun (accepts, rest) => (.category (Class.not accepts), rest)
    | 'd' => some (.chars Class.digit, rest)
    | 'D' => some (.chars (Class.not Class.digit), rest)
    | 's' => some (.chars Class.space, rest)
    | 'S' => some (.chars (Class.not Class.space), rest)
    | 'w' => some (.chars Class.word, rest)
    | 'W' => some (.chars (Class.not Class.word), rest)
    | 'a' => some (.char '\x07', rest)
    | 'f' => some (.char '\x0c', rest)
    | 't' => some (.char '\t', rest)
    | 'n' => some (.char '\n', rest)
    | 'r' => some (.char '\r', rest)
    | 'v' => some (.char '\x0b', rest)
    | 'A' => some (.condition fun before _ => before.isNone, rest)
    | 'z' => some (.condition fun _ after => after.isNone, rest)
    | 'B' => some (.condition fun before after => isWord before == isWord after, rest)
    | '<' => (wordCondition? "start".toList).map fun admits => (.condition admits, rest)
    | '>' => (wordCondition? "end".toList).map fun admits => (.condition admits, rest)
    | 'b' =>
      match rest with
      | '\x7b' :: named =>
        match named.span (· != '\x7d') with
        | (name, _ :: rest) => (wordCondition? name).map fun admits => (.condition admits, rest)
        | _ => none
      | rest => some (.condition fun before after => isWord before != isWord after, rest)
    | c => if c.isAlphanum || 0x80 ≤ c.toNat then none else some (.char c, rest)

/-! ## Classes in brackets -/

def Escape.class? (switches : Switches) : Escape → Option Class
  | .char c => switches.allow? (switches.apply (· == c))
  | .chars accepts => switches.allow? (switches.apply accepts)
  | .category accepts => if switches.unicode then some (switches.apply accepts) else none
  | .condition _ => none

def classItem? : List Char → Option (Escape × List Char)
  | '\\' :: rest => escape? rest
  | c :: rest => some (.char c, rest)
  | [] => none

def afterHyphen? (switches : Switches) : List Char → Option (List Char)
  | '-' :: rest =>
    match switches.skipSpace rest with
    | [] => none
    | c :: rest => if c = ']' || c = '-' then none else some (c :: rest)
  | _ => none

/-- A character, a range of them or a class, as a part of a class. -/
def classRange? (switches : Switches) (cs : List Char) : Option (Class × List Char) := do
  let (first, rest) ← classItem? cs
  let rest := switches.skipSpace rest
  match afterHyphen? switches rest with
  | none => (first.class? switches).map (·, rest)
  | some rest =>
    match first, ← classItem? rest with
    | .char c, (.char last, rest) =>
      if c ≤ last then
        (switches.allow? (switches.apply (Class.range c last))).map (·, rest)
      else none
    | _, _ => none

/-- A class by its name between colons, after the bracket. -/
def namedClass? : List Char → Option (Class × List Char)
  | ':' :: rest =>
    let (negated, rest) :=
      match rest with
      | '^' :: rest => (true, rest)
      | rest => (false, rest)
    match rest.span (· != ':') with
    | (name, ':' :: ']' :: rest) =>
      (Class.named? (String.ofList name)).map fun accepts =>
        (if negated then Class.not accepts else accepts, rest)
    | _ => none
  | _ => none

inductive SetOperation where
  | intersection
  | difference
  | symmetricDifference

def SetOperation.apply : SetOperation → Class → Class → Class
  | intersection, left, right => fun c => left c && right c
  | difference, left, right => fun c => left c && !right c
  | symmetricDifference, left, right => fun c => left c != right c

/-- A class that is being read: what stands before the last operation, with that, and
what stands after it. -/
structure OpenClass where
  left : Option (Class × SetOperation) := none
  right : Class := fun _ => false

namespace OpenClass

def close (open₁ : OpenClass) : Class :=
  match open₁.left with
  | some (left, operation) => operation.apply left open₁.right
  | none => open₁.right

def add (open₁ : OpenClass) (accepts : Class) : OpenClass :=
  { open₁ with right := fun c => open₁.right c || accepts c }

def operate (open₁ : OpenClass) (operation : SetOperation) : OpenClass :=
  { left := some (open₁.close, operation) }

end OpenClass

/-- The beginning of a class after its bracket: whether it is negated, and the hyphens
and the bracket that stand for themselves there. -/
def classStart (switches : Switches) (cs : List Char) : Bool × OpenClass × List Char :=
  let (negated, cs) :=
    match switches.skipSpace cs with
    | '^' :: rest => (true, switches.skipSpace rest)
    | cs => (false, cs)
  let (hyphens, rest) := cs.span (· == '-')
  let started : OpenClass := if hyphens.isEmpty then {} else OpenClass.add {} (· == '-')
  match hyphens, rest with
  | [], ']' :: rest => (negated, started.add (· == ']'), rest)
  | _, rest => (negated, started, rest)

def finish? (switches : Switches) (negated : Bool) (accepts : Class) : Option Class :=
  switches.allow? (if negated then Class.not accepts else accepts)

/-- The rest of a class up to its closing bracket, in `steps` steps at most. -/
def class? (switches : Switches) (open₁ : OpenClass) : (steps : Nat) → List Char →
    Option (Class × List Char)
  | 0, _ => none
  | steps + 1, cs =>
    match switches.skipSpace cs with
    | [] => none
    | ']' :: rest => some (open₁.close, rest)
    | '&' :: '&' :: rest => class? switches (open₁.operate .intersection) steps rest
    | '-' :: '-' :: rest => class? switches (open₁.operate .difference) steps rest
    | '~' :: '~' :: rest => class? switches (open₁.operate .symmetricDifference) steps rest
    | '[' :: rest =>
      match namedClass? rest with
      | some (accepts, rest) => do
        let accepts ← switches.allow? (switches.apply accepts)
        class? switches (open₁.add accepts) steps rest
      | none => do
        let (negated, inner, rest) := classStart switches rest
        let (accepts, rest) ← class? switches inner steps rest
        let accepts ← finish? switches negated accepts
        class? switches (open₁.add accepts) steps rest
    | cs => do
      let (accepts, rest) ← classRange? switches cs
      class? switches (open₁.add accepts) steps rest

/-! ## Repetitions -/

/-- A decimal number of 32 bits with blanks around it. -/
def count? (cs : List Char) : Option (Nat × List Char) :=
  let (digits, rest) := (cs.dropWhile Class.space).span Char.isDigit
  if digits.isEmpty || Nat.pow 2 32 ≤ Text.digitsValue digits then none
  else some (Text.digitsValue digits, rest.dropWhile Class.space)

def counts? (cs : List Char) : Option (Nat × Option Nat × List Char) := do
  let (least, rest) ← count? cs
  match rest with
  | '\x7d' :: rest => some (least, some least, rest)
  | ',' :: rest =>
    match rest.dropWhile Class.space with
    | '\x7d' :: rest => some (least, none, rest)
    | rest => do
      let (most, rest) ← count? rest
      match rest with
      | '\x7d' :: rest => if least ≤ most then some (least, some most, rest) else none
      | _ => none
  | _ => none

/-- The repetition at the beginning of a text, if there is one, which has to be well
formed.  A question mark may follow it. -/
def repetition? (switches : Switches) :
    List Char → Option (Option (Nat × Option Nat) × List Char)
  | '*' :: rest => some (some (0, none), lazily rest)
  | '+' :: rest => some (some (1, none), lazily rest)
  | '?' :: rest => some (some (0, some 1), lazily rest)
  | '\x7b' :: rest => do
    let (least, most, rest) ← counts? rest
    some (some (least, most), lazily (switches.skipSpace rest))
  | cs => some (none, cs)
where
  lazily : List Char → List Char
    | '?' :: rest => rest
    | rest => rest

/-! ## Patterns -/

def groupName? (cs : List Char) : Option (List Char × List Char) :=
  match cs.span (· != '>') with
  | (c :: name, _ :: rest) =>
    let isPart := fun c => Class.word c || c == '.' || c == '[' || c == ']'
    if (c.isAlpha || c == '_') && name.all isPart then some (c :: name, rest) else none
  | _ => none

def point? (switches : Switches) : Option Pattern :=
  (switches.allow? fun c => switches.dotAll || c != '\n').map .one

def lineStart (switches : Switches) : Pattern :=
  .place fun before _ => before.all fun c => switches.multiLine && c == '\n'

def lineEnd (switches : Switches) : Pattern :=
  .place fun _ after => after.all fun c => switches.multiLine && c == '\n'

def Escape.pattern? (switches : Switches) : Escape → Option Pattern
  | .condition admits => some (.place admits)
  | escape => (escape.class? switches).map .one

structure Group where
  switches : Switches
  /-- The finished alternatives, in reverse. -/
  alternatives : List Pattern := []
  /-- The parts of the last alternative, in reverse.  Switches are a part without a
  pattern. -/
  parts : List (Option Pattern) := []
  names : List (List Char)

namespace Group

def alternative (group : Group) : Pattern := sequence (group.parts.filterMap id).reverse

def close (group : Group) : Pattern := anyOf (group.alternative :: group.alternatives).reverse

def add (group : Group) (pattern : Pattern) : Group :=
  { group with parts := some pattern :: group.parts }

mutual
/-- Read the rest of a group up to its closing parenthesis or the end of the text, in
`steps` steps at most. -/
def read? (group : Group) : (steps : Nat) → List Char → Option (Group × List Char)
  | 0, _ => none
  | steps + 1, cs => do
    let (repetition, rest) ← repetition? group.switches (group.switches.skipSpace cs)
    match repetition, group.parts with
    | some (least, most), some body :: parts =>
      read? { group with parts := some (.times body least most) :: parts } steps rest
    | some _, _ => none
    | none, _ =>
      match rest with
      | [] => some (group, [])
      | ')' :: _ => some (group, rest)
      | '|' :: rest =>
        read? { group with alternatives := group.alternative :: group.alternatives, parts := [] }
          steps rest
      | '.' :: rest => do
        let point ← point? group.switches
        read? (group.add point) steps rest
      | '^' :: rest => read? (group.add (lineStart group.switches)) steps rest
      | '$' :: rest => read? (group.add (lineEnd group.switches)) steps rest
      | '\\' :: rest => do
        let (escape, rest) ← escape? rest
        let pattern ← escape.pattern? group.switches
        read? (group.add pattern) steps rest
      | '[' :: rest => do
        let (negated, started, rest) := classStart group.switches rest
        let (accepts, rest) ← class? group.switches started steps rest
        let accepts ← finish? group.switches negated accepts
        read? (group.add (.one accepts)) steps rest
      | '(' :: rest =>
        match group.switches.skipSpace rest with
        | '?' :: 'P' :: '<' :: rest | '?' :: '<' :: rest => do
          let (name, rest) ← groupName? rest
          if group.names.contains name then none
          else enter? { group with names := name :: group.names } group.switches steps rest
        | '?' :: rest => do
          let (switches, last, after) ← group.switches.read? [] true rest
          if last = ':' then enter? group switches steps after
          else if rest.head? == some ')' then none
          else read? { group with switches := switches, parts := none :: group.parts } steps after
        | rest => enter? group group.switches steps rest
      | c :: rest => read? (group.add (.one (group.switches.apply (· == c)))) steps rest

def enter? (group : Group) (switches : Switches) : (steps : Nat) → List Char →
    Option (Group × List Char)
  | 0, _ => none
  | steps + 1, cs => do
    let (inner, rest) ← read? { switches := switches, names := group.names } steps cs
    match rest with
    | ')' :: rest => read? { group.add inner.close with names := inner.names } steps rest
    | _ => none
end

end Group

def maxSize : Nat := 250000

/-- The pattern that a text writes.  Reading takes two steps for each character at
most. -/
def parse? (text : String) : Option Pattern := do
  let cs := text.toList
  let (group, rest) ← Group.read? { switches := {}, names := [] } (2 * cs.length + 1) cs
  if rest.isEmpty && group.close.size ≤ maxSize then some group.close else none

end Pattern
end Text
end IntCalculus
