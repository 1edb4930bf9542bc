/-
Configuration files: which format a path names, and the text in each format.

The extension of a path decides.  A path with another extension, or with none, is
written as TOML; when it is read, TOML is tried first, then YAML, then JSON.
-/
import IntCalculus.Config
import IntCalculus.Config.Toml
import IntCalculus.Config.Yaml
import IntCalculus.Json.Parse

namespace IntCalculus

inductive ConfigFormat where
  | toml
  | yaml
  | json
  deriving DecidableEq, Repr

namespace ConfigFormat

def name : ConfigFormat → String
  | toml => "TOML"
  | yaml => "YAML"
  | json => "JSON"

def ofExtension? : Option String → Option ConfigFormat
  | some "toml" => some toml
  | some "yaml" => some yaml
  | some "yml" => some yaml
  | some "json" => some json
  | _ => none

def read? (format : ConfigFormat) (text : String) : Option Config :=
  match format with
  | toml => (Toml.parse? text).bind Config.ofSetting?
  | yaml => (Yaml.parse? text).bind Config.ofSetting?
  | json => (Json.parse? text).bind Config.ofJson?

end ConfigFormat

namespace Config

def flag (b : Bool) : String := if b then "true" else "false"

/-- The configuration as TOML, one table for each section. -/
def tomlText (config : Config) : String :=
  String.join [
    "[simplify]\noverflow = \"", config.simplify.overflow.word,
    "\"\nlike_terms = \"", config.simplify.likeTerms.word,
    "\"\n\n[logging]\nlevel = \"", config.level.word,
    "\"\ndebug = ", flag config.debug,
    "\n\n[output]\nformat = \"", config.format.word, "\"\n"]

/-- The configuration as YAML, one block map for each section. -/
def yamlText (config : Config) : String :=
  String.join [
    "simplify:\n  overflow: ", config.simplify.overflow.word,
    "\n  like_terms: ", config.simplify.likeTerms.word,
    "\nlogging:\n  level: ", config.level.word,
    "\n  debug: ", flag config.debug,
    "\noutput:\n  format: ", config.format.word, "\n"]

def fileText (config : Config) : ConfigFormat → String
  | .toml => config.tomlText
  | .yaml => config.yamlText
  | .json => config.toJson.pretty

/-- The configuration file a user may start from: the defaults, as TOML. -/
def sample : String := Config.tomlText {}

end Config
end IntCalculus
