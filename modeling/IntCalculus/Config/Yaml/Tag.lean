/-
The names of YAML: anchors, tags and the two directives.

A tag is written with a handle, which a directive may give a meaning, or in full inside
angle brackets.  Octets that a percent sign announces stand for the characters they
encode.
-/
import IntCalculus.Config.Yaml.Text
import IntCalculus.Json.Token

namespace IntCalculus
namespace Yaml

/-! ## Anchors -/

def anchor? (cs : List Char) : Option (String × List Char) :=
  let (name, rest) := cs.span isWord
  let ends := beginsBlank rest ||
    rest.head?.any ['?', ':', ',', ']', '\x7d', '%', '@', '\x60'].contains
  if name.isEmpty || !ends then none else some (String.ofList name, rest)

/-! ## Tags -/

/-- Characters of the part of a tag after its handle.  Some flow indicators are admitted
in tags that are written in full. -/
def isTagPart (full : Bool) (c : Char) : Bool :=
  isWord c || [';', '/', '?', ':', '@', '&', '=', '+', '$', '.', '!', '~', '*', '\'', '(', ')',
    '%'].contains c || (full && [',', '[', ']'].contains c)

/-- How many octets encode a character that begins with this one, and what the octet adds
to its code point. -/
def leadingOctet (octet : Nat) : Option (Nat × Nat) :=
  if octet < 0x80 then some (0, octet)
  else if octet / 0x20 = 6 then some (1, octet % 0x20)
  else if octet / 0x10 = 0xe then some (2, octet % 0x10)
  else if octet / 8 = 0x1e then some (3, octet % 8)
  else none

/-- The text with characters in place of the octets that percent signs announce.
`missing` octets are still to come for the code point that has reached `value`. -/
def decoded? (missing value : Nat) : List Char → Option (List Char)
  | [] => if missing = 0 then some [] else none
  | '%' :: a :: b :: rest => do
    let octet := 16 * (← Json.hexValue a) + (← Json.hexValue b)
    let (missing, value) ←
      if missing = 0 then leadingOctet octet
      else if octet / 0x40 = 2 then some (missing - 1, 0x40 * value + octet % 0x40)
      else none
    let decoded ← decoded? missing value rest
    some (if missing = 0 then Char.ofNat value :: decoded else decoded)
  | c :: rest => if missing = 0 && c != '%' then (decoded? 0 0 rest).map (c :: ·) else none

def tagPart? (full : Bool) (cs : List Char) : Option (String × List Char) := do
  let (part, rest) := cs.span (isTagPart full)
  some (String.ofList (← decoded? 0 0 part), rest)

/-- A tag as it is written: its handle, which is empty if the rest is all of the tag, and
the rest. -/
structure Tag where
  handle : String
  suffix : String
  deriving DecidableEq, Repr

namespace Tag

def read? (flow : Bool) (cs : List Char) : Option (Tag × List Char) := do
  let (tag, rest) ←
    match cs with
    | '<' :: rest => do
      let (suffix, rest) ← tagPart? true rest
      match rest with
      | '>' :: rest => if suffix = "" then none else some ((⟨"", suffix⟩ : Tag), rest)
      | _ => none
    | cs => do
      let (name, rest) := cs.span isWord
      match rest with
      | '!' :: rest => do
        let (suffix, rest) ← tagPart? false rest
        if suffix = "" then none else some (⟨"!" ++ String.ofList name ++ "!", suffix⟩, rest)
      | rest => do
        let (suffix, rest) ← tagPart? false rest
        let suffix := String.ofList name ++ suffix
        some (if suffix = "" then ⟨"", "!"⟩ else ⟨"!", suffix⟩, rest)
  if beginsBlank rest || (flow && rest.head? == some ',') then some (tag, rest) else none

/-- The handles that every document knows. -/
def knownHandles : List (String × String) := [("!", "!"), ("!!", "tag:yaml.org,2002:")]

/-- All of a tag, if its handle has a meaning. -/
def resolve? (handles : List (String × String)) (tag : Tag) : Option String :=
  if tag.handle = "" then some tag.suffix
  else (handles.lookup tag.handle).map (· ++ tag.suffix)

end Tag

/-! ## Directives -/

inductive Directive where
  | version (supported : Bool)
  | handle (name : String) (meaning : String)
  deriving DecidableEq, Repr

namespace Directive

/-- One of the two numbers of a version, of at most nine digits. -/
def number? (cs : List Char) : Option (Nat × List Char) :=
  let (digits, rest) := cs.span Char.isDigit
  if digits.isEmpty || 9 < digits.length then none else some (Text.digitsValue digits, rest)

/-- The version after the name of its directive. -/
def version? (cs : List Char) : Option (Directive × List Char) := do
  let (major, rest) ← number? (cs.dropWhile isBlank)
  match rest with
  | '.' :: rest => do
    let (minor, rest) ← number? rest
    some (.version (major = 1 && (minor = 1 || minor = 2)), rest)
  | _ => none

/-- The handle and its meaning after the name of their directive. -/
def handle? (cs : List Char) : Option (Directive × List Char) :=
  match cs.dropWhile isBlank with
  | '!' :: rest => do
    let (name, rest) := rest.span isWord
    let (written, rest) ←
      match rest with
      | '!' :: rest => some ("!" ++ String.ofList name ++ "!", rest)
      | rest => if name.isEmpty then some ("!", rest) else none
    if !rest.head?.any isBlank then none
    else do
      let (meaning, rest) ← tagPart? true (rest.dropWhile isBlank)
      if meaning = "" || !beginsBlank rest then none else some (.handle written meaning, rest)
  | _ => none

def read? (cs : List Char) : Option (Directive × List Char) :=
  let (name, rest) := cs.span isWord
  if !beginsBlank rest then none
  else
    match String.ofList name with
    | "YAML" => version? rest
    | "TAG" => handle? rest
    | _ => none

end Directive
end Yaml
end IntCalculus
