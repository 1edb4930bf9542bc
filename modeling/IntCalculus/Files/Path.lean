/-
Paths.

A path is a text whose parts are separated by slashes.  Empty parts and parts `.`
lead nowhere, save that two relative paths differ when one of them begins with
`.`.  The extension is what follows the last point of the last part, unless that
point begins the part.
-/
import IntCalculus.Text.Blank

namespace IntCalculus
namespace Path

/-- The parts of a path that lead somewhere. -/
def parts (path : String) : List String :=
  (Text.splitOnChar '/' path).filter fun part => part != "" && part != "."

def isAbsolute (path : String) : Bool := path.startsWith "/"

def beginsHere (path : String) : Bool :=
  (Text.splitOnChar '/' path).head? == some "."

/-- Whether two paths are written alike but for parts that lead nowhere. -/
def equivalent (p q : String) : Bool :=
  isAbsolute p == isAbsolute q && beginsHere p == beginsHere q && parts p == parts q

/-- The path of a relative path below a directory. -/
def join (directory below : String) : String :=
  if directory.endsWith "/" then directory ++ below else directory ++ "/" ++ below

def extension? (path : String) : Option String :=
  match (parts path).getLast? with
  | none => none
  | some ".." => none
  | some part =>
    match (part.toList.reverse.span (· != '.')) with
    | (_, []) => none
    | (_, [_]) => none
    | (extension, _ :: _) => some (String.ofList extension.reverse)

end Path
end IntCalculus
