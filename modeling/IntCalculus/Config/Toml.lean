/-
Reading TOML.

A text is a sequence of lines: headers, in single brackets for a table and in double
ones for another item of a list of tables, assignments to keys of the table whose
header came last, and lines with nothing but a comment.  A byte order mark may begin
it.
-/
import IntCalculus.Config.Setting
import IntCalculus.Config.Toml.Value

namespace IntCalculus
namespace Toml

/-! ## Documents -/

/-- A text that has been read up to some line. -/
structure Document where
  entries : Entries
  /-- The table that assignments go into. -/
  current : List String

namespace Document

/-- Read the header of a table, whose last name says what to do there. -/
def header? (document : Document) (path : List String)
    (begin : String → Origin → Entries → Option Entries) : Option Document := do
  let name ← path.getLast?
  let entries ← document.entries.updateAt false (begin name) path.dropLast .headed
  some ⟨entries, path⟩

/-- Give a value to a key of the current table. -/
def assign? (document : Document) (key : List String) (node : Node) : Option Document := do
  let entries ←
    document.entries.updateAt false
      (fun origin entries => entries.assign key node origin) document.current .headed
  some { document with entries := entries }

/-- Read one line, which is not blank, and give what follows it. -/
def line? (document : Document) (cs : List Char) : Option (Document × List Char) :=
  match cs with
  | '[' :: '[' :: rest => do
    let (path, rest) ← key rest
    match rest with
    | ']' :: ']' :: rest => do
      let document ← document.header? path Entries.openItem
      some (document, ← afterLine? rest)
    | _ => none
  | '[' :: rest => do
    let (path, rest) ← key rest
    match rest with
    | ']' :: rest => do
      let document ← document.header? path Entries.openTable
      some (document, ← afterLine? rest)
    | _ => none
  | cs => do
    let (key, rest) ← key cs
    match rest with
    | '=' :: rest => do
      let (node, rest) ← value maxDepth (skipBlanks rest)
      let document ← document.assign? key node
      some (document, ← afterLine? rest)
    | _ => none

/-- Read lines, `steps` of them at most. -/
def lines? (document : Document) : (steps : Nat) → List Char → Option Document
  | 0, _ => none
  | steps + 1, cs =>
    match skipLines cs.length cs with
    | [] => some document
    | '#' :: rest => if (rest.dropWhile isPrintable).isEmpty then some document else none
    | cs => do
      let (document, rest) ← document.line? cs
      lines? document steps rest

end Document

def withoutMark (cs : List Char) : List Char :=
  match cs with
  | '\ufeff' :: rest => rest
  | cs => cs

/-- The table that a text is.  Every line takes up at least one character. -/
def entries? (text : String) : Option Entries := do
  let cs := withoutMark text.toList
  let document ← Document.lines? ⟨[], []⟩ (cs.length + 1) cs
  some document.entries

/-! ## Settings -/

/-- The word that a table with one entry may stand for: the name of that entry, if its
collection is empty. -/
def wordOf? : Entries → Option String
  | [(name, .table _ [])] => some name
  | [(name, .array [])] => some name
  | _ => none

/-- The setting that a node is, down to some depth.  A date has parts, but none that
anybody knows. -/
def Node.setting : (depth : Nat) → Node → Setting
  | 0, _ => .unusable
  | _, .string s => .scalar (some s) none false
  | _, .bool b => .scalar none (some b) false
  | _, .number => .unusable
  | _, .date => .named [] none
  | depth + 1, .array items => .listed (items.map (setting depth)) true
  | depth + 1, .table _ entries =>
    .named (entries.map fun entry => (entry.1, setting depth entry.2)) (wordOf? entries)
  | depth + 1, .tables items =>
    .listed (items.map fun entries => setting depth (.table .headed entries)) true

def parse? (text : String) : Option Setting := do
  some ((Node.table .headed (← entries? text)).setting Setting.levels)

end Toml
end IntCalculus
