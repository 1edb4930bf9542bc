/-
The JSON document of a text.

The tokens are read by a machine with a stack of the containers that are open.  How
deep they nest does not matter to it.
-/
import IntCalculus.Json.Token

namespace IntCalculus
namespace Json

/-- An open container with what it holds so far, in reverse.  An open object
remembers the name of the field whose value is being read, and holds no fields once a
name is not well formed. -/
inductive Frame where
  | inArray (items : List Json)
  | inObject (fields : Option (List (String × Json))) (name : String)

/-- The object that fields in reverse make up. -/
def objectOf : Option (List (String × Json)) → Json
  | some fields => .object fields.reverse
  | none => .illFormed

inductive Expecting where
  | value
  | firstItem
  | firstName
  | name
  | colon
  /-- A comma or the end of the innermost container. -/
  | separator
  /-- Nothing: the document is complete. -/
  | nothing (document : Json)

/-- The open containers, the innermost first, and what may come next. -/
structure Parser where
  stack : List Frame
  expecting : Expecting

namespace Parser

def start : Parser := ⟨[], .value⟩

/-- Put a finished value where it belongs. -/
def finish (value : Json) : List Frame → Parser
  | [] => ⟨[], .nothing value⟩
  | .inArray items :: rest => ⟨.inArray (value :: items) :: rest, .separator⟩
  | .inObject fields name :: rest =>
    ⟨.inObject (fields.map ((name, value) :: ·)) "" :: rest, .separator⟩

def beginValue (stack : List Frame) : Token → Option Parser
  | .text (some s) => some (finish (.string s) stack)
  | .text none => some (finish .illFormed stack)
  | .scalar value => some (finish value stack)
  | .openArray => some ⟨.inArray [] :: stack, .firstItem⟩
  | .openObject => some ⟨.inObject (some []) "" :: stack, .firstName⟩
  | _ => none

def named (fields : Option (List (String × Json))) (stack : List Frame) : Option String → Parser
  | some name => ⟨.inObject fields name :: stack, .colon⟩
  | none => ⟨.inObject none "" :: stack, .colon⟩

def step (parser : Parser) (token : Token) : Option Parser :=
  match parser.expecting, parser.stack, token with
  | .value, stack, token => beginValue stack token
  | .firstItem, .inArray _ :: rest, .closeArray => some (finish (.array []) rest)
  | .firstItem, stack, token => beginValue stack token
  | .firstName, .inObject _ _ :: rest, .closeObject => some (finish (.object []) rest)
  | .firstName, .inObject fields _ :: rest, .text name => some (named fields rest name)
  | .name, .inObject fields _ :: rest, .text name => some (named fields rest name)
  | .colon, stack, .colon => some ⟨stack, .value⟩
  | .separator, .inArray items :: rest, .comma => some ⟨.inArray items :: rest, .value⟩
  | .separator, .inArray items :: rest, .closeArray => some (finish (.array items.reverse) rest)
  | .separator, .inObject fields name :: rest, .comma =>
    some ⟨.inObject fields name :: rest, .name⟩
  | .separator, .inObject fields _ :: rest, .closeObject => some (finish (objectOf fields) rest)
  | _, _, _ => none

end Parser

def assemble? (tokens : List Token) : Option Json := do
  let parser ← tokens.foldlM Parser.step Parser.start
  match parser.expecting with
  | .nothing document => some document
  | _ => none

def parse? (text : String) : Option Json := do
  assemble? (← tokens? text)

/-! ## Documents that can be held as values -/

mutual
/-- Whether every string of a document is well formed and every number is one that
binary64 holds, if it is not an integer of 64 bits. -/
def isProper : Json → Bool
  | .illFormed => false
  | .integer n => (-2 ^ 63 ≤ n && n < 2 ^ 64) || !(⟨n.natAbs, 0⟩ : Text.Decimal).overflows
  | .decimal text =>
    let unsigned :=
      match text.toList with
      | '-' :: rest => rest
      | rest => rest
    !(Text.Decimal.ofNumeral unsigned).overflows
  | .array items => areProper items
  | .object fields => fieldsAreProper fields
  | _ => true

def areProper : List Json → Bool
  | [] => true
  | item :: rest => isProper item && areProper rest

def fieldsAreProper : List (String × Json) → Bool
  | [] => true
  | (_, value) :: rest => isProper value && fieldsAreProper rest
end

end Json
end IntCalculus
