/-
The JSON form of expressions, values, types and options.

A node is an object with the name of its kind as the only field.  Fields are
written in alphabetical order.  A calculus node without options of its own has
no `options` field.
-/
import IntCalculus.Expr
import IntCalculus.Json

namespace IntCalculus

def OverflowPolicy.word : OverflowPolicy → String
  | .checked => "checked"
  | .wrapping => "wrapping"
  | .saturating => "saturating"

def LikeTerms.word : LikeTerms → String
  | .pairwise => "pairwise"
  | .extended => "extended"

def Options.toJson (options : Options) : Json :=
  .object [("like_terms", .string options.likeTerms.word),
    ("overflow", .string options.overflow.word)]

/-- An `options` field, if there is something to write. -/
def Options.field (options : Option Options) : List (String × Json) :=
  match options with
  | some options => [("options", options.toJson)]
  | none => []

def Json.ofNames (names : List String) : Json := .array (names.map .string)

mutual
def Ty.toJson : Ty → Json
  | .int => .string "Int"
  | .bool => .string "Bool"
  | .string => .string "String"
  | .vector => .string "Vector"
  | .unknown => .string "Unknown"
  | .function params returns =>
    .object [("Function", .object [("params", .array (Ty.listToJson params)),
      ("returns", returns.toJson)])]

def Ty.listToJson : List Ty → List Json
  | [] => []
  | t :: rest => t.toJson :: Ty.listToJson rest
end

mutual
def Expr.toJson : Expr → Json
  | .constant c => .object [("Constant", .integer c.toInt)]
  | .bool b => .object [("Bool", .bool b)]
  | .str s => .object [("Str", .string s)]
  | .var name => .object [("Variable", .string name)]
  | .add l r => .object [("Add", .array [l.toJson, r.toJson])]
  | .sub l r => .object [("Sub", .array [l.toJson, r.toJson])]
  | .neg e => .object [("Negate", e.toJson)]
  | .mul l r => .object [("Multiply", .array [l.toJson, r.toJson])]
  | .function params body =>
    .object [("Function", .object [("body", body.toJson), ("params", .ofNames params)])]
  | .vector elements => .object [("Vector", .array (Value.listToJson elements))]
  | .derivative f x options =>
    .object [("Derivative", .object (("function", f.toJson) ::
      (Options.field options ++ [("variable", .string x)])))]
  | .gradient f xs options =>
    .object [("Gradient", .object (("function", f.toJson) ::
      (Options.field options ++ [("variables", .ofNames xs)])))]

def Value.toJson : Value → Json
  | .int n => .object [("Int", .integer n.toInt)]
  | .bool b => .object [("Bool", .bool b)]
  | .string s => .object [("String", .string s)]
  | .function params body =>
    .object [("Function", .object [("body", body.toJson), ("params", .ofNames params)])]
  | .vector elements => .object [("Vector", .array (Value.listToJson elements))]

def Value.listToJson : List Value → List Json
  | [] => []
  | v :: rest => v.toJson :: Value.listToJson rest
end

end IntCalculus
