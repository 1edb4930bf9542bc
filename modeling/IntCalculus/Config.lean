/-
The configuration of the program.

A configuration chooses how expressions are simplified, what is logged and how
results are printed.  Each choice has words for it, and here is where the words
are: the strict ones of the configuration files, and the lenient ones of the
environment and the command line, which forgive surrounding white space and
case and know a few synonyms.
-/
import IntCalculus.Config.Setting
import IntCalculus.Format.Decode
import IntCalculus.Text.Blank

namespace IntCalculus

inductive LogLevel where
  | error
  | warn
  | info
  | debug
  | trace
  deriving DecidableEq, Repr, Inhabited

inductive OutputFormat where
  /-- Infix texts, one result to a line. -/
  | text
  /-- Trees and values as JSON. -/
  | json
  deriving DecidableEq, Repr, Inhabited

structure Config where
  simplify : Options := {}
  level : LogLevel := .warn
  /-- Log at the debug level whatever `level` says. -/
  debug : Bool := false
  format : OutputFormat := .text
  deriving DecidableEq, Repr

/-! ## Words -/

namespace LogLevel

def all : List LogLevel := [error, warn, info, debug, trace]

def word : LogLevel → String
  | error => "error"
  | warn => "warn"
  | info => "info"
  | debug => "debug"
  | trace => "trace"

def ofWord? (s : String) : Option LogLevel := all.find? (·.word == s)

def rank : LogLevel → Nat
  | error => 0
  | warn => 1
  | info => 2
  | debug => 3
  | trace => 4

theorem ofWord?_word (level : LogLevel) : ofWord? level.word = some level := by
  cases level <;> rfl

end LogLevel

namespace OutputFormat

def all : List OutputFormat := [text, json]

def word : OutputFormat → String
  | text => "text"
  | json => "json"

def ofWord? (s : String) : Option OutputFormat := all.find? (·.word == s)

theorem ofWord?_word (format : OutputFormat) : ofWord? format.word = some format := by
  cases format <;> rfl

end OutputFormat

/-- A truth value, in one of several spellings.  The empty text is false. -/
def lenientBool? (s : String) : Option Bool :=
  let word := Text.lower s
  if ["1", "true", "yes", "on", "enable", "enabled"].contains word then some true
  else if ["0", "false", "no", "off", "disable", "disabled", ""].contains word then some false
  else none

/-- An overflow policy, by its word or by the word for what it does. -/
def OverflowPolicy.lenient? (s : String) : Option OverflowPolicy :=
  let word := Text.lower (Text.trim s)
  if word = "fail" then some .checked
  else if word = "wrap" then some .wrapping
  else if word = "saturate" then some .saturating
  else OverflowPolicy.ofWord? word

def LikeTerms.lenient? (s : String) : Option LikeTerms :=
  LikeTerms.ofWord? (Text.lower (Text.trim s))

def LogLevel.lenient? (s : String) : Option LogLevel :=
  LogLevel.ofWord? (Text.lower (Text.trim s))

def OutputFormat.lenient? (s : String) : Option OutputFormat :=
  OutputFormat.ofWord? (Text.lower (Text.trim s))

/-! ## Reading -/

namespace Config

/-- The word that a setting is, read in the way of its field. -/
def wordOf? {α : Type} (ofWord? : String → Option α) (setting : Setting) : Option α :=
  setting.word?.bind ofWord?

open Json in
/-- The configuration that a file describes.  Every section and every field may be
missing and then keeps its default; sections and fields nobody knows are
ignored. -/
def ofSetting? (file : Setting) : Option Config := do
  let sections ← file.entries? ["simplify", "logging", "output"]
  let simplify ← fieldOr sections "simplify" (some {}) fun options => do
    let fields ← options.entries? ["overflow", "like_terms"]
    let overflow ← fieldOr fields "overflow" (some .checked) (wordOf? OverflowPolicy.ofWord?)
    let likeTerms ← fieldOr fields "like_terms" (some .pairwise) (wordOf? LikeTerms.ofWord?)
    some ⟨overflow, likeTerms⟩
  let (level, debug) ← fieldOr sections "logging" (some (.warn, false)) fun logging => do
    let fields ← logging.entries? ["level", "debug"]
    let level ← fieldOr fields "level" (some .warn) (wordOf? LogLevel.ofWord?)
    let debug ← fieldOr fields "debug" (some false) Setting.flag?
    some (level, debug)
  let format ← fieldOr sections "output" (some .text) fun output => do
    let fields ← output.entries? ["format"]
    fieldOr fields "format" (some .text) (wordOf? OutputFormat.ofWord?)
  some ⟨simplify, level, debug, format⟩

def ofJson? (json : Json) : Option Config := ofSetting? (Setting.ofJson Setting.levels json)

/-! ## Writing -/

/-- The configuration as a document, its sections and fields in the order in which
files list them. -/
def toJson (config : Config) : Json :=
  .object [
    ("simplify", .object [
      ("overflow", .string config.simplify.overflow.word),
      ("like_terms", .string config.simplify.likeTerms.word)]),
    ("logging", .object [
      ("level", .string config.level.word),
      ("debug", .bool config.debug)]),
    ("output", .object [("format", .string config.format.word)])]

/-- The name of a choice in the log: its word with a capital letter. -/
def capitalised (word : String) : String := word.capitalize

def logText (config : Config) : String :=
  String.join [
    "SymdiffConfig \x7b simplify: SimplifyConfig \x7b overflow: ",
    capitalised config.simplify.overflow.word,
    ", like_terms: ", capitalised config.simplify.likeTerms.word,
    " \x7d, logging: LoggingConfig \x7b level: ", capitalised config.level.word,
    ", debug: ", if config.debug then "true" else "false",
    " \x7d, output: OutputConfig \x7b format: ", capitalised config.format.word, " \x7d \x7d"]

end Config
end IntCalculus
