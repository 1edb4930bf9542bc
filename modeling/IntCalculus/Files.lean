/-
What the program sees of a file system.

`Files` says what stands at each path; it is all that reading needs.  A file may
be there and not be read all the same, because it holds no text or because the
program has no right to it.  A `FileTree` is a file system as a value: it resolves
paths from a current directory the way a system does, part by part, where every
part but the last has to lead to a directory.
-/
import IntCalculus.Files.Path

namespace IntCalculus

inductive FileError where
  | notFound
  | notDirectory
  | isDirectory
  | nameTooLong
  /-- The path holds a character that no path may hold. -/
  | holdsNul
  /-- What stands there is not open to the program. -/
  | denied
  /-- The bytes of the file are no text. -/
  | notText
  deriving DecidableEq, Repr

def FileError.message : FileError → String
  | notFound => "No such file or directory (os error 2)"
  | notDirectory => "Not a directory (os error 20)"
  | isDirectory => "Is a directory (os error 21)"
  | nameTooLong => "File name too long (os error 36)"
  | holdsNul => "file name contained an unexpected NUL byte"
  | denied => "Permission denied (os error 13)"
  | notText => "stream did not contain valid UTF-8"

inductive Entry where
  | file (text : String)
  /-- A file that cannot be read. -/
  | unreadable (reason : FileError)
  /-- Something that can be read like a file and is none. -/
  | device (text : String)
  | directory
  | missing (reason : FileError)
  deriving DecidableEq, Repr

namespace Entry

def isFile : Entry → Bool
  | file _ | unreadable _ => true
  | _ => false

def isDirectory : Entry → Bool
  | directory => true
  | _ => false

def found : Entry → Bool
  | missing _ => false
  | _ => true

def read : Entry → Except FileError String
  | file text => .ok text
  | unreadable reason => .error reason
  | device text => .ok text
  | directory => .error .isDirectory
  | missing reason => .error reason

end Entry

abbrev Files := String → Entry

/-- What stands below a root, by the names that lead there.  The directories above an entry
are there too. -/
structure FileTree where
  entries : List (List String × Entry)

namespace FileTree

/-- How many bytes a part of a path may have. -/
def maxPart : Nat := 255

/-- How many bytes a path may have. -/
def maxPath : Nat := 4095

/-- What stands where a list of names leads. -/
def at? (tree : FileTree) (names : List String) : Entry :=
  match tree.entries.lookup names with
  | some entry => entry
  | none =>
    if names.isEmpty || tree.entries.any (fun entry => names.isPrefixOf entry.1) then .directory
    else .missing .notFound

def put (tree : FileTree) (names : List String) (text : String) : FileTree :=
  ⟨(names, .file text) :: tree.entries⟩

/-- Where the parts of a path lead from a directory. -/
def walk (tree : FileTree) (names : List String) : List String → Except FileError (List String)
  | [] => .ok names
  | part :: rest =>
    match tree.at? names with
    | .file _ | .unreadable _ | .device _ => .error .notDirectory
    | .missing reason => .error reason
    | .directory =>
      if part = "" || part = "." then walk tree names rest
      else if part = ".." then walk tree names.dropLast rest
      else if maxPart < part.utf8ByteSize then .error .nameTooLong
      else walk tree (names ++ [part]) rest

def resolve (tree : FileTree) (current : List String) (path : String) :
    Except FileError (List String) :=
  if path.toList.contains '\x00' then .error .holdsNul
  else if path = "" then .error .notFound
  else if maxPath < path.utf8ByteSize then .error .nameTooLong
  else tree.walk (if Path.isAbsolute path then [] else current) (Text.splitOnChar '/' path)

/-- What a program sees that runs in a current directory. -/
def seenFrom (tree : FileTree) (current : List String) : Files := fun path =>
  match tree.resolve current path with
  | .ok names => tree.at? names
  | .error reason => .missing reason

/-- Write a file.  Its directory has to exist.  What is no text is written over, and what is
closed to reading is closed to writing. -/
def write (tree : FileTree) (current : List String) (path text : String) :
    Except FileError FileTree := do
  let names ← tree.resolve current path
  match tree.at? names with
  | .directory => .error .isDirectory
  | .file _ | .unreadable .notText => .ok (tree.put names text)
  | .unreadable reason => .error reason
  | .device _ => .ok tree
  | .missing reason =>
    if (tree.at? names.dropLast).isDirectory && !path.endsWith "/" then
      .ok (tree.put names text)
    else .error reason

end FileTree
end IntCalculus
