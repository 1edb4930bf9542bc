/-
What a configuration file says, whatever its format.

A file is a tree of settings.  All formats have scalars, collections with names and
collections without; they differ in what they take for a word, for a truth value and
for nothing at all, and that is settled when a `Setting` is made.  A configuration is
two levels of names deep, so what lies deeper is not looked at.
-/
import IntCalculus.Format.Record

namespace IntCalculus

inductive Setting where
  /-- A setting without parts: the word it is, the truth value it is, and whether it is
  nothing, which stands for a collection without entries. -/
  | scalar (word : Option String) (flag : Option Bool) (empty : Bool)
  /-- Settings with names, which may also be a way to write a word. -/
  | named (entries : List (String × Setting)) (word : Option String)
  /-- Settings without names.  More of them than there are names may be `spare`. -/
  | listed (items : List Setting) (spare : Bool)

namespace Setting

def unusable : Setting := .scalar none none false

/-- The entries of a record with these names. -/
def entries? (names : List String) : Setting → Option (List (String × Setting))
  | .scalar _ _ empty => if empty then some [] else none
  | .named entries _ => if Json.distinctFields names entries then some entries else none
  | .listed items spare =>
    if spare || items.length ≤ names.length then some (names.zip items) else none

def word? : Setting → Option String
  | .scalar word _ _ => word
  | .named _ word => word
  | .listed _ _ => none

def flag? : Setting → Option Bool
  | .scalar _ flag _ => flag
  | _ => none

/-- How many levels of a file are looked at: the sections, their fields, and what the
fields are set to. -/
def levels : Nat := 3

/-- The setting that a JSON document is, down to some depth. -/
def ofJson : (depth : Nat) → Json → Setting
  | 0, _ => unusable
  | _, .string s => .scalar (some s) none false
  | _, .bool b => .scalar none (some b) false
  | depth + 1, .array items => .listed (items.map (ofJson depth)) false
  | depth + 1, .object fields =>
    let entries := fields.map fun field => (field.1, ofJson depth field.2)
    match fields with
    | [(word, .null)] => .named entries (some word)
    | _ => .named entries none
  | _, _ => unusable

end Setting
end IntCalculus
