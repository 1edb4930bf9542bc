/-
What a subcommand is given: expressions, bindings and declarations.

An expression is JSON on the command line, or `@` and the path of a file that
holds it.  Its calculus nodes without options get the configured ones.  A binding
is `NAME=INT` and a declaration `NAME=TYPE`, with white space around either part
ignored.
-/
import IntCalculus.Calculus
import IntCalculus.Config.Load
import IntCalculus.Text.Integer

namespace IntCalculus
namespace Command

def failure (err : Error) : Failure := ⟨err.message, none⟩

/-- The text of an expression argument, and where it is from. -/
def expressionText (files : Files) (argument : String) : Except Failure (String × String) :=
  match argument.toList with
  | '@' :: path =>
    let path := String.ofList path
    match (files path).read with
    | .ok text => .ok (path, text)
    | .error reason =>
      .error ⟨"Failed to read expression file: " ++ path, some reason.message⟩
  | _ => .ok ("<inline>", argument)

def expression (files : Files) (options : Options) (argument : String) : Except Failure Expr := do
  let (source, text) ← expressionText files argument
  match (Json.parse? text).bind (Expr.ofJson? .text) with
  | some e => .ok (e.withDefaultOptions options)
  | none => .error ⟨"Failed to parse expression JSON from " ++ source, none⟩

def assignment (what argument : String) : Except Failure (String × String) :=
  let malformed : Failure :=
    ⟨"Invalid " ++ what ++ " '" ++ argument ++ "', expected NAME=VALUE", none⟩
  match Text.splitAtFirst '=' argument with
  | some (name, value) =>
    if Text.trim name = "" then .error malformed else .ok (Text.trim name, Text.trim value)
  | none => .error malformed

/-- Declare what each argument assigns, in turn. -/
def declareEach {α : Type} (what : String) (read : String → String → Except Failure α) :
    ScopeStack α → List String → Except Failure (ScopeStack α)
  | env, [] => .ok env
  | env, argument :: rest => do
    let (name, text) ← assignment what argument
    let a ← read argument text
    match env.declare name a with
    | .ok env => declareEach what read env rest
    | .error err => .error (failure err)

def boundValue (binding text : String) : Except Failure Value :=
  match Text.boundedInteger 2147483647 text with
  | .ok n => .ok (.int (Int32.ofInt n))
  | .error fault =>
    .error ⟨"Binding '" ++ binding ++ "' is not a 32-bit integer", some fault.message⟩

def declaredType (declaration text : String) : Except Failure Ty :=
  match Text.lower text with
  | "int" => .ok .int
  | "bool" => .ok .bool
  | "string" => .ok .string
  | "vector" => .ok .vector
  | "fn" => .ok .intToInt
  | "function" => .ok .intToInt
  | other =>
    .error ⟨"Unknown type '" ++ other ++ "' in declaration '" ++ declaration ++ "'", none⟩

def environment (bindings : List String) : Except Failure Environment :=
  declareEach "binding" boundValue .empty bindings

def declarations (arguments : List String) : Except Failure (ScopeStack Ty) :=
  declareEach "declaration" declaredType .empty arguments

end Command
end IntCalculus
