/-
Reading YAML.

A text holds one document.  A text with no document at all, or with an empty one, stands
for a map without entries.  Scalars of any style are words; only plain ones are truth
values, save for literal ones whose tag says so.  A local tag is a word too, for a node
with nothing else in it.
-/
import IntCalculus.Config.Setting
import IntCalculus.Config.Yaml.Node

namespace IntCalculus
namespace Yaml

def truth? (word : String) : Option Bool :=
  if ["true", "True", "TRUE"].contains word then some true
  else if ["false", "False", "FALSE"].contains word then some false
  else none

/-- Whether a plain scalar is nothing. -/
def isNull (word : String) : Bool := ["", "null", "Null", "NULL", "~"].contains word

/-- The word that a local tag is. -/
def localTag? (tag : String) : Option String :=
  match tag.toList with
  | '!' :: rest => some (String.ofList rest)
  | _ => none

def scalarSetting (tag : Option String) (style : Style) (content : String) : Setting :=
  let plain := style == .plain
  let isTruth := plain || (style == .literal && tag == some "tag:yaml.org,2002:bool")
  let word :=
    match tag.bind localTag? with
    | some word => if plain && isNull content then some word else none
    | none => some content
  .scalar word (if isTruth then truth? content else none) (plain && content == "")

namespace Node

def name? (anchors : List (Nat × Node)) (node : Node) : Option String :=
  match node.target anchors with
  | .scalar _ _ content => some content
  | _ => none

/-- The setting that a node is, down to some depth. -/
def setting (anchors : List (Nat × Node)) : (depth : Nat) → Node → Setting
  | 0, _ => .unusable
  | depth + 1, node =>
    match node.target anchors with
    | .scalar properties style content => scalarSetting properties.tag style content
    | .sequence _ items => .listed (items.map (setting anchors depth)) false
    | .mapping _ entries =>
      let named := entries.mapM fun entry => do
        some ((← entry.1.name? anchors), setting anchors depth entry.2)
      match named with
      | some named => .named named none
      | none => .unusable
    | .alias _ => .unusable

end Node

def parse? (text : String) : Option Setting := do
  match ← Node.ofTokens? (← tokens? text) with
  | some node => some (node.setting node.anchored Setting.levels)
  | none => some (.named [] none)

end Yaml
end IntCalculus
