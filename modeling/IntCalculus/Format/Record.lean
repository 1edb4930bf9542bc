/-
Reading records and words from JSON.

A record is an object whose known fields appear at most once; fields nobody
asked for are ignored.  Where a record may also be written as an array, the
array lists its fields in their order.  A word is a string, or an object with
that word as its only name and null as its value.

How much may be read is a `Reading`: containers that are read may stand inside each
other up to its limit, while those that are ignored may nest as they like.
-/
import IntCalculus.Json

namespace IntCalculus

structure Reading where
  /-- Whether the fields of a function literal and of a function type may be listed in
  an array. -/
  positional : Bool
  /-- How many containers may still be entered, if that is limited. -/
  room : Option Nat
  deriving DecidableEq, Repr

namespace Reading

/-- A document that is at hand as a value. -/
def document : Reading := ⟨false, none⟩

/-- A document that is read from a text. -/
def text : Reading := ⟨true, some 127⟩

/-- The reading of what is inside a container. -/
def inner? (reading : Reading) : Option Reading :=
  match reading.room with
  | none => some reading
  | some 0 => none
  | some (n + 1) => some { reading with room := some n }

/-- A value at hand may be entered at any depth. -/
@[simp] theorem inner?_document : inner? document = some document := rfl

end Reading

namespace Json

/-- Whether no field of these names is repeated. -/
def distinctFields {α : Type} (names : List String) (fields : List (String × α)) : Bool :=
  names.all fun name => (fields.filter fun field => field.1 == name).length ≤ 1

/-- The fields of a record with these names, in either written form. -/
def record? (names : List String) : Json → Option (List (String × Json))
  | .object fields => if distinctFields names fields then some fields else none
  | .array items => if items.length ≤ names.length then some (names.zip items) else none
  | _ => none

/-- The value of a field, or what a missing field stands for. -/
def fieldOr {α β : Type} (fields : List (String × β)) (name : String) (missing : Option α)
    (read : β → Option α) : Option α :=
  match fields.lookup name with
  | some value => read value
  | none => missing

def string? : Json → Option String
  | .string s => some s
  | _ => none

def bool? : Json → Option Bool
  | .bool b => some b
  | _ => none

def int32? : Json → Option Int32
  | .integer n => if -2147483648 ≤ n ∧ n ≤ 2147483647 then some (Int32.ofInt n) else none
  | _ => none

def strings? : Json → Option (List String)
  | .array items => items.mapM string?
  | _ => none

/-- An array of strings, if it may be entered. -/
def names? (reading : Reading) (json : Json) : Option (List String) :=
  reading.inner?.bind fun _ => json.strings?

/-- A word, if its object may be entered. -/
def word? (reading : Reading) : Json → Option String
  | .string s => some s
  | .object [(s, .null)] => reading.inner?.map fun _ => s
  | _ => none

end Json
end IntCalculus
