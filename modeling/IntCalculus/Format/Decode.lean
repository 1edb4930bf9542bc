/-
Reading expressions, values, types and options from JSON.

Reading is strict: a node is an object with exactly one name, an integer must be
written as one and lie in the 32-bit range, and every required field must be
there.  The fields of a calculus node, of a stored function and of options may
also be listed in an array.  Whether those of a function literal and of a
function type may be is a matter of the `Reading`, which also counts the containers
that are entered.
-/
import IntCalculus.Format.Encode
import IntCalculus.Format.Record

namespace IntCalculus

def OverflowPolicy.ofWord? : String → Option OverflowPolicy
  | "checked" => some .checked
  | "wrapping" => some .wrapping
  | "saturating" => some .saturating
  | _ => none

def LikeTerms.ofWord? : String → Option LikeTerms
  | "pairwise" => some .pairwise
  | "extended" => some .extended
  | _ => none

/-- Options; a missing field takes its default. -/
def Options.ofJson? (reading : Reading) (json : Json) : Option Options := do
  let reading ← reading.inner?
  let fields ← json.record? ["overflow", "like_terms"]
  let overflow ← Json.fieldOr fields "overflow" (some .checked)
    fun j => (j.word? reading).bind OverflowPolicy.ofWord?
  let likeTerms ← Json.fieldOr fields "like_terms" (some .pairwise)
    fun j => (j.word? reading).bind LikeTerms.ofWord?
  some ⟨overflow, likeTerms⟩

/-- Options that may be left out or null. -/
def Options.optional? (reading : Reading) : Option Json → Option (Option Options)
  | none => some none
  | some .null => some none
  | some json => (Options.ofJson? reading json).map some

def Ty.ofWord? : String → Option Ty
  | "Int" => some .int
  | "Bool" => some .bool
  | "String" => some .string
  | "Vector" => some .vector
  | "Unknown" => some .unknown
  | _ => none

mutual
def Ty.ofJson? (reading : Reading) : Json → Option Ty
  | .string word => Ty.ofWord? word
  | .object [(kind, payload)] => do
    let reading ← reading.inner?
    match kind, payload with
    | "Function", .object fields =>
      if Json.distinctFields ["params", "returns"] fields then do
        let reading ← reading.inner?
        let params ← Ty.listOfField? reading fields
        let returns ← Ty.ofField? reading fields
        some (.function params returns)
      else none
    | "Function", .array [.array params, returns] =>
      if reading.positional then do
        let reading ← reading.inner?
        let params ← Ty.listOfJson? reading params
        let returns ← Ty.ofJson? reading returns
        some (.function params returns)
      else none
    | word, .null => Ty.ofWord? word
    | _, _ => none
  | _ => none

/-- Several types, if their array may be entered. -/
def Ty.listOfJson? (reading : Reading) : List Json → Option (List Ty)
  | [] => reading.inner?.map fun _ => []
  | j :: rest => do
    let inside ← reading.inner?
    let t ← Ty.ofJson? inside j
    let ts ← Ty.listOfJson? reading rest
    some (t :: ts)

/-- The parameters among the fields of a function type. -/
def Ty.listOfField? (reading : Reading) : List (String × Json) → Option (List Ty)
  | [] => none
  | ("params", .array params) :: _ => Ty.listOfJson? reading params
  | (name, _) :: rest => if name = "params" then none else Ty.listOfField? reading rest

/-- The result among the fields of a function type. -/
def Ty.ofField? (reading : Reading) : List (String × Json) → Option Ty
  | [] => none
  | (name, j) :: rest =>
    if name = "returns" then Ty.ofJson? reading j else Ty.ofField? reading rest
end

mutual
def Expr.ofJson? (reading : Reading) : Json → Option Expr
  | .object [(kind, payload)] => do
    let reading ← reading.inner?
    match kind, payload with
    | "Constant", j => j.int32?.map .constant
    | "Bool", j => j.bool?.map .bool
    | "Str", j => j.string?.map .str
    | "Variable", j => j.string?.map .var
    | "Add", .array [l, r] => do
      let reading ← reading.inner?
      let l ← Expr.ofJson? reading l
      let r ← Expr.ofJson? reading r
      some (.add l r)
    | "Sub", .array [l, r] => do
      let reading ← reading.inner?
      let l ← Expr.ofJson? reading l
      let r ← Expr.ofJson? reading r
      some (.sub l r)
    | "Negate", j => (Expr.ofJson? reading j).map .neg
    | "Multiply", .array [l, r] => do
      let reading ← reading.inner?
      let l ← Expr.ofJson? reading l
      let r ← Expr.ofJson? reading r
      some (.mul l r)
    | "Function", .object fields =>
      if Json.distinctFields ["params", "body"] fields then do
        let reading ← reading.inner?
        let params ← (fields.lookup "params").bind (Json.names? reading)
        let body ← Expr.ofField? reading "body" fields
        some (.function params body)
      else none
    | "Function", .array [params, body] =>
      if reading.positional then do
        let reading ← reading.inner?
        let params ← params.names? reading
        let body ← Expr.ofJson? reading body
        some (.function params body)
      else none
    | "Vector", .array elements => (Value.listOfJson? reading elements).map .vector
    | "Derivative", .object fields =>
      if Json.distinctFields ["function", "variable", "options"] fields then do
        let reading ← reading.inner?
        let f ← Expr.ofField? reading "function" fields
        let x ← (fields.lookup "variable").bind Json.string?
        let options ← Options.optional? reading (fields.lookup "options")
        some (.derivative f x options)
      else none
    | "Derivative", .array (f :: x :: rest) => do
      let reading ← reading.inner?
      let f ← Expr.ofJson? reading f
      let x ← x.string?
      let options ← if rest.length ≤ 1 then Options.optional? reading rest.head? else none
      some (.derivative f x options)
    | "Gradient", .object fields =>
      if Json.distinctFields ["function", "variables", "options"] fields then do
        let reading ← reading.inner?
        let f ← Expr.ofField? reading "function" fields
        let xs ← (fields.lookup "variables").bind (Json.names? reading)
        let options ← Options.optional? reading (fields.lookup "options")
        some (.gradient f xs options)
      else none
    | "Gradient", .array (f :: xs :: rest) => do
      let reading ← reading.inner?
      let f ← Expr.ofJson? reading f
      let xs ← xs.names? reading
      let options ← if rest.length ≤ 1 then Options.optional? reading rest.head? else none
      some (.gradient f xs options)
    | _, _ => none
  | _ => none

def Expr.ofField? (reading : Reading) (name : String) : List (String × Json) → Option Expr
  | [] => none
  | (n, j) :: rest =>
    if n = name then Expr.ofJson? reading j else Expr.ofField? reading name rest

def Value.ofJson? (reading : Reading) : Json → Option Value
  | .object [(kind, payload)] => do
    let reading ← reading.inner?
    match kind, payload with
    | "Int", j => j.int32?.map .int
    | "Bool", j => j.bool?.map .bool
    | "String", j => j.string?.map .string
    | "Function", .object fields =>
      if Json.distinctFields ["params", "body"] fields then do
        let reading ← reading.inner?
        let params ← (fields.lookup "params").bind (Json.names? reading)
        let body ← Expr.ofField? reading "body" fields
        some (.function params body)
      else none
    | "Function", .array [params, body] => do
      let reading ← reading.inner?
      let params ← params.names? reading
      let body ← Expr.ofJson? reading body
      some (.function params body)
    | "Vector", .array elements => (Value.listOfJson? reading elements).map .vector
    | _, _ => none
  | _ => none

/-- Several values, if their array may be entered. -/
def Value.listOfJson? (reading : Reading) : List Json → Option (List Value)
  | [] => reading.inner?.map fun _ => []
  | j :: rest => do
    let inside ← reading.inner?
    let v ← Value.ofJson? inside j
    let vs ← Value.listOfJson? reading rest
    some (v :: vs)
end

end IntCalculus
