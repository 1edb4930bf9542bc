/-
JSON documents and their text.

The fields of an object keep their order and may repeat, so a document holds all
that its text said and the reader of a format decides what a repeated field
means.  An integer is kept as one.  A number written with a fraction, an exponent
or as `-0` is no integer, and only its text is kept.  A string may be written with
half of a surrogate pair, which stands for no character; such a string, and an object
with such a name, can be passed over but not read.

Two layouts are written: `compact` without spaces, and `pretty` with one field or
item to a line, indented by two spaces.
-/
namespace IntCalculus

inductive Json where
  | null
  | bool (value : Bool)
  | integer (value : Int)
  /-- A number that is not written as an integer. -/
  | decimal (text : String)
  | string (content : String)
  /-- A string with half of a surrogate pair, or an object with such a name. -/
  | illFormed
  | array (items : List Json)
  | object (fields : List (String × Json))

namespace Json

instance : Inhabited Json := ⟨.null⟩

def hexDigit (n : Nat) : Char :=
  if n < 10 then Char.ofNat (0x30 + n) else Char.ofNat (0x57 + n)

/-- How one character is written inside quotes.  Control characters without a
letter of their own are written by number, and nothing else is. -/
def escaped (c : Char) : String :=
  if c = '"' then "\\\""
  else if c = '\\' then "\\\\"
  else if c = '\n' then "\\n"
  else if c = '\r' then "\\r"
  else if c = '\t' then "\\t"
  else if c = '\x08' then "\\b"
  else if c = '\x0c' then "\\f"
  else if c.toNat < 0x20 then
    String.ofList ['\\', 'u', '0', '0', hexDigit (c.toNat / 16), hexDigit (c.toNat % 16)]
  else String.singleton c

def quoted (s : String) : String :=
  "\"" ++ String.join (s.toList.map escaped) ++ "\""

/-! ## One line -/

mutual
/-- The text of a document without spaces. -/
def compact : Json → String
  | null => "null"
  | bool b => if b then "true" else "false"
  | integer n => toString n
  | decimal text => text
  | string s => quoted s
  | illFormed => "null"
  | array items => "[" ++ compactItems items ++ "]"
  | object fields => "\x7b" ++ compactFields fields ++ "\x7d"

def compactItems : List Json → String
  | [] => ""
  | [item] => compact item
  | item :: next :: rest => compact item ++ "," ++ compactItems (next :: rest)

def compactFields : List (String × Json) → String
  | [] => ""
  | [(name, value)] => quoted name ++ ":" ++ compact value
  | (name, value) :: next :: rest =>
    quoted name ++ ":" ++ compact value ++ "," ++ compactFields (next :: rest)
end

/-! ## One item to a line -/

/-- A new line indented by `depth` steps. -/
def lineAt (depth : Nat) : String :=
  "\n" ++ String.ofList (List.replicate (2 * depth) ' ')

mutual
/-- The text of a document that starts at the given depth. -/
def prettyAt (depth : Nat) : Json → String
  | null => "null"
  | bool b => if b then "true" else "false"
  | integer n => toString n
  | decimal text => text
  | string s => quoted s
  | illFormed => "null"
  | array [] => "[]"
  | array (item :: rest) =>
    "[" ++ prettyItems (depth + 1) (item :: rest) ++ lineAt depth ++ "]"
  | object [] => "\x7b\x7d"
  | object (field :: rest) =>
    "\x7b" ++ prettyFields (depth + 1) (field :: rest) ++ lineAt depth ++ "\x7d"

def prettyItems (depth : Nat) : List Json → String
  | [] => ""
  | [item] => lineAt depth ++ prettyAt depth item
  | item :: next :: rest =>
    lineAt depth ++ prettyAt depth item ++ "," ++ prettyItems depth (next :: rest)

def prettyFields (depth : Nat) : List (String × Json) → String
  | [] => ""
  | [(name, value)] => lineAt depth ++ quoted name ++ ": " ++ prettyAt depth value
  | (name, value) :: next :: rest =>
    lineAt depth ++ quoted name ++ ": " ++ prettyAt depth value ++ "," ++
      prettyFields depth (next :: rest)
end

/-- The text of a document with one field or item to a line. -/
def pretty (document : Json) : String := prettyAt 0 document

end Json
end IntCalculus
