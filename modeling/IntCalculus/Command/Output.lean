/-
What the program prints.

A result stands beside its input: on one line as text, or in one JSON document
whose fields are in alphabetical order.  A failure is its message, followed by
its cause if that is known.
-/
import IntCalculus.Config.Load
import IntCalculus.Format.Encode
import IntCalculus.Render

namespace IntCalculus
namespace Command

inductive Result where
  | expr (e : Expr)
  | value (v : Value)
  | exprs (es : List Expr)
  | typeCheck (wellTyped : Bool) (inferred : Ty)

namespace Result

def text : Result → String
  | expr e => e.text
  | value v => v.text
  | exprs es => "[" ++ ", ".intercalate (es.map Expr.text) ++ "]"
  | typeCheck wellTyped inferred =>
    (if wellTyped then "well typed" else "ill typed") ++ ": " ++ inferred.text

def toJson : Result → Json
  | expr e => .object [("expr", e.toJson)]
  | value v => .object [("value", v.toJson)]
  | exprs es => .object [("exprs", .array (es.map Expr.toJson))]
  | typeCheck wellTyped inferred =>
    .object [("type_check", .object [("inferred", inferred.toJson),
      ("well_typed", .bool wellTyped)])]

def printed (format : OutputFormat) (input : Expr) (result : Result) : String :=
  match format with
  | .text => input.text ++ " => " ++ result.text ++ "\n"
  | .json =>
    (Json.object [("display", .string result.text), ("input", input.toJson),
      ("input_display", .string input.text), ("output", result.toJson)]).pretty ++ "\n"

end Result

/-! ## Failures -/

/-- A text with every line indented by four spaces. -/
def indented (text : String) : String :=
  "\n".intercalate ((Text.splitOnChar '\n' text).map ("    " ++ ·))

/-- A failure as it is reported, without white space at its end. -/
def report (failure : Failure) : String :=
  Text.trimRight <|
    match failure.cause with
    | some cause => failure.message ++ "\n\nCaused by:\n" ++ indented cause
    | none => failure.message

end Command
end IntCalculus
