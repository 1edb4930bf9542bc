/-
The nodes of YAML.

A node is a scalar, a sequence, a mapping, or an alias of a node that an anchor names.
What is left out in a collection is an empty plain scalar.  Anchors get numbers as they
are met: the number of names that were known before.  A name that is used again gets
another number, so two anchors may have the same one; the later of them counts.
-/
import IntCalculus.Config.Yaml.Token

namespace IntCalculus
namespace Yaml

/-- What stands before a node: the number of its anchor, and its tag. -/
structure Properties where
  anchor : Option Nat := none
  tag : Option String := none
  deriving DecidableEq, Repr

inductive Node where
  | scalar (properties : Properties) (style : Style) (content : String)
  | sequence (properties : Properties) (items : List Node)
  | mapping (properties : Properties) (entries : List (Node × Node))
  | alias (anchor : Nat)

namespace Node

/-- What is left out. -/
def empty : Node := .scalar {} .plain ""

/-! ## Reading -/

/-- The tokens that are left, with what they may refer to. -/
structure Source where
  tokens : List Token
  handles : List (String × String)
  /-- The names of anchors, each once, with their numbers. -/
  anchors : List (String × Nat)

abbrev Read := StateT Source Option

def next : Read (Option Token) := do return (← get).tokens.head?

def skip : Read Unit := modify fun source => { source with tokens := source.tokens.tail }

def bindAnchor (name : String) : Read Nat := do
  let source ← get
  let number := source.anchors.length
  set { source with
    anchors := (name, number) :: source.anchors.filter fun known => known.1 != name }
  return number

def anchorName : Read (Option String) := do
  match ← next with
  | some (.anchor name) =>
    skip
    return some name
  | _ => return none

/-- A tag, if one comes next.  Its handle has to be known. -/
def tagText : Read (Option String) := do
  match ← next with
  | some (.tag tag) =>
    skip
    match tag.resolve? (← get).handles with
    | some text => return some text
    | none => failure
  | _ => return none

def properties : Read Properties := do
  let before ← anchorName
  let tag ← tagText
  let after ← if before.isNone && tag.isSome then anchorName else pure none
  match before <|> after with
  | some name => return ⟨some (← bindAnchor name), tag⟩
  | none => return ⟨none, tag⟩

mutual
/-- A node.  Block collections may come where `block` allows them, and a sequence that
is not indented where `unindented` does. -/
def read (block unindented : Bool) : (steps : Nat) → Read Node
  | 0 => failure
  | steps + 1 => do
    match ← next with
    | some (.alias name) =>
      skip
      match (← get).anchors.lookup name with
      | some number => return .alias number
      | none => failure
    | _ =>
      let found ← properties
      match ← next with
      | some (.scalar style content) =>
        skip
        return .scalar found style content
      | some .flowSequence =>
        skip
        return .sequence found (← readFlowItems true steps)
      | some .flowMapping =>
        skip
        return .mapping found (← readFlowEntries true steps)
      | token =>
        if unindented && token == some .item then
          return .sequence found (← readUnindentedItems steps)
        else if block && token == some .blockSequence then
          skip
          return .sequence found (← readItems steps)
        else if block && token == some .blockMapping then
          skip
          return .mapping found (← readEntries steps)
        else if found == {} then failure
        else return .scalar found .plain ""

/-- A node, unless one of these tokens shows that it is left out. -/
def readUnless (ends : List Token) (block unindented : Bool) : (steps : Nat) → Read Node
  | 0 => failure
  | steps + 1 => do
    if (← next).any ends.contains then return empty
    else read block unindented steps

def readItems : (steps : Nat) → Read (List Node)
  | 0 => failure
  | steps + 1 => do
    match ← next with
    | some .item =>
      skip
      let item ← readUnless [.item, .blockEnd] true false steps
      return item :: (← readItems steps)
    | some .blockEnd =>
      skip
      return []
    | _ => failure

/-- The items of a sequence that is not indented. -/
def readUnindentedItems : (steps : Nat) → Read (List Node)
  | 0 => failure
  | steps + 1 => do
    if (← next) == some .item then
      skip
      let item ← readUnless [.item, .key, .value, .blockEnd] true false steps
      return item :: (← readUnindentedItems steps)
    else return []

def readEntries : (steps : Nat) → Read (List (Node × Node))
  | 0 => failure
  | steps + 1 => do
    match ← next with
    | some .key =>
      skip
      let key ← readUnless [.key, .value, .blockEnd] true true steps
      let value ← readValue [.key, .value, .blockEnd] true steps
      return (key, value) :: (← readEntries steps)
    | some .blockEnd =>
      skip
      return []
    | _ => failure

def readValue (ends : List Token) (block : Bool) : (steps : Nat) → Read Node
  | 0 => failure
  | steps + 1 => do
    if (← next) == some .value then
      skip
      readUnless ends block block steps
    else return empty

/-- The items of a sequence in brackets.  One that begins like an entry of a mapping is a
mapping with that entry; if its name is left out, the token that shows it is passed
over. -/
def readFlowItems (first : Bool) : (steps : Nat) → Read (List Node)
  | 0 => failure
  | steps + 1 => do
    if (← next) != some .flowSequenceEnd && !first then
      if (← next) == some .comma then skip else failure
    match ← next with
    | some .flowSequenceEnd =>
      skip
      return []
    | some .key =>
      skip
      let ends := [Token.comma, .flowSequenceEnd]
      let missing := (← next).any (Token.value :: ends).contains
      let key ← readUnless (.value :: ends) false false steps
      if missing then skip
      let value ← readValue ends false steps
      return .mapping {} [(key, value)] :: (← readFlowItems false steps)
    | _ =>
      let item ← read false false steps
      return item :: (← readFlowItems false steps)

def readFlowEntries (first : Bool) : (steps : Nat) → Read (List (Node × Node))
  | 0 => failure
  | steps + 1 => do
    if (← next) != some .flowMappingEnd && !first then
      if (← next) == some .comma then skip else failure
    match ← next with
    | some .flowMappingEnd =>
      skip
      return []
    | some .key =>
      skip
      let ends := [Token.comma, .flowMappingEnd]
      let key ← readUnless (.value :: ends) false false steps
      let value ← readValue ends false steps
      return (key, value) :: (← readFlowEntries false steps)
    | _ =>
      let key ← read false false steps
      return (key, empty) :: (← readFlowEntries false steps)
end

/-! ## Documents -/

/-- The handles that directives add to those that are known anyway.  There is one version
at most, and one meaning at most for each handle. -/
def handles? : List Directive → Option (List (String × String))
  | [] => some []
  | .version supported :: rest => do
    let others := rest.filter fun directive =>
      match directive with
      | .version _ => true
      | .handle _ _ => false
    if supported && others.isEmpty then handles? rest else none
  | .handle name meaning :: rest => do
    let handles ← handles? rest
    if (handles.lookup name).isSome then none else some ((name, meaning) :: handles)

def directives : List Token → List Directive × List Token
  | .directive directive :: rest =>
    let (others, rest) := directives rest
    (directive :: others, rest)
  | rest => ([], rest)

/-- The node of a document whose beginning is behind, and the tokens after it.  Every
token is looked at in three steps at most. -/
def content? (handles : List (String × String)) (tokens : List Token) :
    Option (Node × List Token) :=
  match tokens with
  | [] => some (empty, [])
  | .documentStart :: _ | .documentEnd :: _ | .directive _ :: _ => some (empty, tokens)
  | _ => do
    let source : Source := ⟨tokens, handles ++ Tag.knownHandles, []⟩
    let (node, source) ← (read true false (3 * tokens.length + 3)).run source
    some (node, source.tokens)

/-- The node of the only document that tokens make up; none if there is no document.
Marks may end it. -/
def ofTokens? (tokens : List Token) : Option (Option Node) := do
  if tokens.isEmpty then some none
  else
    let (node, rest) ←
      match directives tokens with
      | (found, .documentStart :: rest) => do content? (← handles? found) rest
      | ([], .documentEnd :: _) => none
      | ([], rest) => content? [] rest
      | _ => none
    if rest.all (· == .documentEnd) then some (some node) else none

/-! ## Aliases -/

mutual
/-- The nodes with anchors inside a node, with the numbers of those, in their order. -/
def anchored : Node → List (Nat × Node)
  | .scalar properties style content =>
    properties.anchor.toList.map fun number => (number, .scalar properties style content)
  | .sequence properties items =>
    (properties.anchor.toList.map fun number => (number, .sequence properties items)) ++
      anchoredItems items
  | .mapping properties entries =>
    (properties.anchor.toList.map fun number => (number, .mapping properties entries)) ++
      anchoredEntries entries
  | .alias _ => []

def anchoredItems : List Node → List (Nat × Node)
  | [] => []
  | item :: rest => anchored item ++ anchoredItems rest

def anchoredEntries : List (Node × Node) → List (Nat × Node)
  | [] => []
  | (key, value) :: rest => anchored key ++ (anchored value ++ anchoredEntries rest)
end

/-- The node that an alias stands for, or the node itself. -/
def target (anchors : List (Nat × Node)) (node : Node) : Node :=
  match node with
  | .alias number => (anchors.reverse.lookup number).getD node
  | node => node

end Node
end Yaml
end IntCalculus
