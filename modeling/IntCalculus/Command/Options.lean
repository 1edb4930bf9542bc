/-
Options of a command line.

A command declares the options it takes.  Arguments are read from left to right
and cut into options with their values until the first argument that is no
option, or until `--`.  A long option is written `--name value` or
`--name=value`, a short one `-n value`, `-nvalue` or `-n=value`, and short options
without values may share one dash.  A value that stands by itself must not look
like an option.  Everything that does not fit is a usage error, and reading stops
at the first one; asking for help or for the version stops it as well.

A value that stands by itself is held back: it is looked at when the next option comes,
or when all is read.  So a subcommand that is asked for help answers, whatever the value
before it.
-/
import IntCalculus.Text.Blank

namespace IntCalculus
namespace Command

structure OptionSpec where
  name : String
  short : Option Char := none
  takesValue : Bool := true
  repeatable : Bool := false
  admits : String → Bool := fun _ => true

/-- Why reading stopped before the end. -/
inductive Stop where
  | usage
  /-- The long form of the option asks for help in detail. -/
  | help (detailed : Bool)
  | version
  deriving DecidableEq, Repr

/-- The options read so far with their values, in order; an option without a
value has an empty one. -/
abbrev Given := List (String × String)

namespace Given

/-- Add an option, unless it may not be given again or does not admit the
value. -/
def add (given : Given) (spec : OptionSpec) (value : String) : Except Stop Given :=
  if !spec.repeatable && (given.lookup spec.name).isSome then .error .usage
  else if !spec.admits value then .error .usage
  else .ok (given ++ [(spec.name, value)])

def has (given : Given) (name : String) : Bool := (given.lookup name).isSome

def value? (given : Given) (name : String) : Option String := given.lookup name

def values (given : Given) (name : String) : List String :=
  (given.filter fun option => option.1 == name).map (·.2)

end Given

inductive Argument where
  | word (text : String)
  /-- The mark after which no options come. -/
  | endOfOptions
  | long (name : String) (value : Option String)
  | short (letters : List Char)

/-- Read the form of an argument.  A single dash is a word. -/
def Argument.of (text : String) : Argument :=
  match text.toList with
  | ['-', '-'] => .endOfOptions
  | '-' :: '-' :: rest =>
    match Text.splitAtFirst '=' (String.ofList rest) with
    | some (name, value) => .long name (some value)
    | none => .long (String.ofList rest) none
  | '-' :: c :: rest => .short (c :: rest)
  | _ => .word text

/-- What stopped being options: the arguments from the first word on, or those
after the mark. -/
inductive Rest where
  | words (arguments : List String)
  | marked (arguments : List String)

/-- What has been read: the options, and one more with a value that nobody has looked at
yet. -/
structure Progress where
  given : Given := []
  held : Option (OptionSpec × String) := none

def Progress.settle (progress : Progress) : Except Stop Given :=
  match progress.held with
  | some (spec, value) => progress.given.add spec value
  | none => .ok progress.given

/-- Where reading one argument with options ends. -/
inductive Step where
  | finished (given : Given)
  /-- The next argument is the value of an option. -/
  | wantsValue (given : Given) (spec : OptionSpec)

def readLong (specs : List OptionSpec) (given : Given) (name : String) (value : Option String) :
    Except Stop Step :=
  if name = "help" && value.isNone then .error (.help true)
  else if name = "version" && value.isNone then .error .version
  else
    match specs.find? (·.name == name) with
    | none => .error .usage
    | some spec =>
      match spec.takesValue, value with
      | true, some value => (given.add spec value).map .finished
      | true, none => .ok (.wantsValue given spec)
      | false, some _ => .error .usage
      | false, none => (given.add spec "").map .finished

/-- Read short options that share a dash. -/
def readLetters (specs : List OptionSpec) (given : Given) : List Char → Except Stop Step
  | [] => .ok (.finished given)
  | c :: rest =>
    if c = 'h' then .error (.help false)
    else if c = 'V' then .error .version
    else
      match specs.find? (·.short == some c) with
      | none => .error .usage
      | some spec =>
        if spec.takesValue then
          match rest with
          | [] => .ok (.wantsValue given spec)
          | '=' :: value => (given.add spec (String.ofList value)).map .finished
          | value => (given.add spec (String.ofList value)).map .finished
        else do
          let given ← given.add spec ""
          readLetters specs given rest

/-- Read options, where `pending` waits for its value. -/
def readOptions (specs : List OptionSpec) (progress : Progress) (pending : Option OptionSpec) :
    List String → Except Stop (Progress × Rest)
  | [] => if pending.isSome then .error .usage else .ok (progress, .words [])
  | argument :: rest =>
    match pending, Argument.of argument with
    | some spec, .word value => readOptions specs ⟨progress.given, some (spec, value)⟩ none rest
    | some _, _ => .error .usage
    | none, .word _ => .ok (progress, .words (argument :: rest))
    | none, .endOfOptions => .ok (progress, .marked rest)
    | none, .short letters => do
      match ← readLetters specs (← progress.settle) letters with
      | .finished given => readOptions specs ⟨given, none⟩ none rest
      | .wantsValue given spec => readOptions specs ⟨given, none⟩ (some spec) rest
    | none, .long name value => do
      match ← readLong specs (← progress.settle) name value with
      | .finished given => readOptions specs ⟨given, none⟩ none rest
      | .wantsValue given spec => readOptions specs ⟨given, none⟩ (some spec) rest

end Command
end IntCalculus
