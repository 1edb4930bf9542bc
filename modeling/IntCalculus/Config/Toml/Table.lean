/-
TOML tables as they grow while a text is read.

A table remembers how it came about, because that decides who may add to it.  One
with a header of its own is complete but for its header's lines and for deeper
headers; one that only deeper headers made may still get a header; one that dotted
keys made may be extended by dotted keys alone; one written in braces is closed.
A name is bound at most once: `lookup_put_of_ne` says that binding one name leaves
the others alone.
-/
namespace IntCalculus
namespace Toml

/-- How a table came about. -/
inductive Origin where
  | headed
  /-- By a header of a table inside it. -/
  | implied
  | dotted
  | inline
  deriving DecidableEq, Repr

inductive Node where
  | string (content : String)
  | bool (value : Bool)
  | number
  | date
  | array (items : List Node)
  | table (origin : Origin) (entries : List (String × Node))
  /-- Tables whose headers stand in double brackets. -/
  | tables (items : List (List (String × Node)))

abbrev Entries := List (String × Node)

namespace Entries

/-- Bind a name to a node, whatever it was bound to. -/
def put (name : String) (node : Node) : Entries → Entries
  | [] => [(name, node)]
  | (other, old) :: rest =>
    if other = name then (name, node) :: rest else (other, old) :: put name node rest

theorem lookup_put (name : String) (node : Node) (entries : Entries) :
    (put name node entries).lookup name = some node := by
  induction entries with
  | nil => simp [put]
  | cons entry rest ih =>
    obtain ⟨other, old⟩ := entry
    by_cases h : other = name
    · simp [put, h]
    · have hne : (name == other) = false := beq_false_of_ne (Ne.symm h)
      simp [put, h, List.lookup_cons, hne, ih]

theorem lookup_put_of_ne {name other : String} (h : other ≠ name) (node : Node)
    (entries : Entries) : (put name node entries).lookup other = entries.lookup other := by
  have hne : (other == name) = false := beq_false_of_ne h
  induction entries with
  | nil => simp [put, List.lookup_cons, hne]
  | cons entry rest ih =>
    obtain ⟨first, old⟩ := entry
    by_cases hf : first = name
    · subst hf
      simp [put, List.lookup_cons, hne]
    · simp [put, hf, List.lookup_cons, ih]

/-- Change the table to which a path of names leads.  Tables that are missing on the
way are made.  The last one stands for tables in double brackets.  A dotted key may
not lead through a table with a header. -/
def updateAt (dotted : Bool) (change : Origin → Entries → Option Entries) :
    List String → Origin → Entries → Option Entries
  | [], origin, entries => change origin entries
  | name :: path, _, entries =>
    match entries.lookup name with
    | none => do
      let origin := if dotted then .dotted else .implied
      let inner ← updateAt dotted change path origin []
      some (put name (.table origin inner) entries)
    | some (.table origin inner) =>
      if origin = .inline || (dotted && origin = .headed) then none
      else do
        let inner ← updateAt dotted change path origin inner
        some (put name (.table origin inner) entries)
    | some (.tables items) =>
      match items.getLast? with
      | some last => do
        let last ← updateAt dotted change path .headed last
        some (put name (.tables (items.dropLast ++ [last])) entries)
      | none => none
    | some _ => none

/-- Give a table the header that ends in a name. -/
def openTable (name : String) (_ : Origin) (entries : Entries) : Option Entries :=
  match entries.lookup name with
  | none => some (put name (.table .headed []) entries)
  | some (.table .implied inner) => some (put name (.table .headed inner) entries)
  | some _ => none

/-- Begin another table under a header in double brackets. -/
def openItem (name : String) (_ : Origin) (entries : Entries) : Option Entries :=
  match entries.lookup name with
  | none => some (put name (.tables [[]]) entries)
  | some (.tables items) => some (put name (.tables (items ++ [[]])) entries)
  | some _ => none

/-- Bind a name that is not bound yet in a table that dotted keys made, or not, as
the key requires. -/
def bind (dotted : Bool) (name : String) (node : Node) (origin : Origin) (entries : Entries) :
    Option Entries :=
  if (origin == .dotted) != dotted || (entries.lookup name).isSome then none
  else some (put name node entries)

/-- Bind a key, which may be dotted. -/
def assign (key : List String) (node : Node) (origin : Origin) (entries : Entries) :
    Option Entries := do
  let name ← key.getLast?
  let path := key.dropLast
  updateAt true (bind (!path.isEmpty) name node) path origin entries

end Entries
end Toml
end IntCalculus
