/-
Reading TOML keys and values.

Every reader takes the text from the place where it stands and gives what it has read
with the text that follows.  Collections may stand inside each other up to a depth,
which is what the recursion goes by; keys have fewer parts than that.  Inside brackets
lines may end, inside braces they may not.
-/
import IntCalculus.Config.Toml.Number
import IntCalculus.Config.Toml.Quoted
import IntCalculus.Config.Toml.Table

namespace IntCalculus
namespace Toml

/-- How many collections may stand inside each other, and how many parts a key may
have. -/
def maxDepth : Nat := 79

/-! ## Keys -/

def simpleKey (cs : List Char) : Option (String × List Char) :=
  match shortString? cs with
  | some found => some found
  | none =>
    let (name, rest) := cs.span isBare
    if name.isEmpty then none else some (String.ofList name, rest)

/-- A dotted key of at most `parts` parts, and the text after the blanks that follow
it. -/
def dottedKey : (parts : Nat) → List Char → Option (List String × List Char)
  | 0, _ => none
  | parts + 1, cs => do
    let (name, rest) ← simpleKey (skipBlanks cs)
    match skipBlanks rest with
    | '.' :: rest => do
      let (names, rest) ← dottedKey parts rest
      some (name :: names, rest)
    | rest => some ([name], rest)

def key (cs : List Char) : Option (List String × List Char) := dottedKey maxDepth cs

/-! ## Values -/

abbrev Reader (α : Type) := List Char → Option (α × List Char)

/-- The items of an array after its opening bracket, `steps` of them at most. -/
def arrayItems (value : Reader Node) : (steps : Nat) → Reader (List Node)
  | 0, _ => none
  | steps + 1, cs =>
    match skipLines cs.length cs with
    | ']' :: rest => some ([], rest)
    | cs => do
      let (item, rest) ← value cs
      match skipLines rest.length rest with
      | ',' :: rest => do
        let (items, rest) ← arrayItems value steps rest
        some (item :: items, rest)
      | ']' :: rest => some ([item], rest)
      | _ => none

/-- The entries of a table in braces from one of its keys on, `steps` of them at most,
put into the table that is there so far. -/
def inlineEntries (value : Reader Node) (sofar : Entries) : (steps : Nat) → Reader Entries
  | 0, _ => none
  | steps + 1, cs => do
    let (key, rest) ← key cs
    match rest with
    | '=' :: rest => do
      let (node, rest) ← value (skipBlanks rest)
      let sofar ← sofar.assign key node .inline
      match skipBlanks rest with
      | ',' :: rest => inlineEntries value sofar steps rest
      | '\x7d' :: rest => some (sofar, rest)
      | _ => none
    | _ => none

/-- A value without parts. -/
def scalar : Reader Node := fun cs =>
  match string? cs with
  | some (content, rest) => some (.string content, rest)
  | none =>
    let (chars, rest) := word cs
    match String.ofList chars with
    | "true" => some (.bool true, rest)
    | "false" => some (.bool false, rest)
    | _ =>
      if isNumber chars then some (.number, rest)
      else if isDateTime chars then some (.date, rest)
      else none

/-- A value in which at most `depth` collections stand inside each other. -/
def value : (depth : Nat) → Reader Node
  | 0, cs =>
    match cs with
    | '[' :: _ => none
    | '\x7b' :: _ => none
    | cs => scalar cs
  | depth + 1, cs =>
    match cs with
    | '[' :: rest => do
      let (items, rest) ← arrayItems (value depth) rest.length rest
      some (.array items, rest)
    | '\x7b' :: rest =>
      match skipBlanks rest with
      | '\x7d' :: rest => some (.table .inline [], rest)
      | rest => do
        let (entries, rest) ← inlineEntries (value depth) [] rest.length rest
        some (.table .inline entries, rest)
    | cs => scalar cs

end Toml
end IntCalculus
