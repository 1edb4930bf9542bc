/-
Where the configuration comes from.

Without a file named on the command line, the first of a list of candidate files
that exists is read, and the environment then overrides single fields.  The
candidates are the file that `SYMDIFF_CONFIG` names, then eight names in the
current directory, then eight in the home directory if there is one; a directory
of such a name is passed over.  A file named on the command line is read instead
of all that.  If it does not exist, that is an error, except when the environment
names the same path.
-/
import IntCalculus.Config.Save
import IntCalculus.Files

namespace IntCalculus

/-- A failure of the program: what failed, and why if that is known. -/
structure Failure where
  message : String
  cause : Option String := none
  deriving DecidableEq, Repr

/-- What the program finds when it starts. -/
structure Surroundings where
  environment : List (String × String)
  /-- The current directory, as an absolute path. -/
  directory : String
  /-- The home directory, if there is one. -/
  home : Option String
  files : Files

namespace Surroundings

def valueOf? (s : Surroundings) (name : String) : Option String := s.environment.lookup name

end Surroundings

namespace Config

/-! ## Files -/

def ofText (path text : String) : Except Failure Config :=
  match ConfigFormat.ofExtension? (Path.extension? path) with
  | some format =>
    match format.read? text with
    | some config => .ok config
    | none => .error ⟨"Failed to parse " ++ format.name ++ " config: " ++ path, none⟩
  | none =>
    match [ConfigFormat.toml, .yaml, .json].findSome? fun format => format.read? text with
    | some config => .ok config
    | none =>
      .error ⟨"Could not parse config file " ++ path ++ " (tried TOML, YAML, JSON)", none⟩

def ofFile (files : Files) (path : String) : Except Failure Config :=
  match (files path).read with
  | .ok text => ofText path text
  | .error reason => .error ⟨"Failed to read config file: " ++ path, some reason.message⟩

def formatFor (path : String) : ConfigFormat :=
  (ConfigFormat.ofExtension? (Path.extension? path)).getD .toml

def save (config : Config) (tree : FileTree) (current : List String) (path : String) :
    Except Failure FileTree :=
  match tree.write current path (config.fileText (formatFor path)) with
  | .ok tree => .ok tree
  | .error reason => .error ⟨"Failed to write config file: " ++ path, some reason.message⟩

/-! ## Candidates -/

/-- The extensions of configuration files, the preferred ones first. -/
def extensions : List String := ["toml", "yaml", "yml", "json"]

/-- The paths where a configuration file may be, the preferred ones first. -/
def candidates (s : Surroundings) : List String :=
  let named :=
    match s.valueOf? "SYMDIFF_CONFIG" with
    | some path => if path = "" then [] else [path]
    | none => []
  let below := fun directory stem =>
    extensions.map fun ext => Path.join directory (stem ++ "." ++ ext)
  let here := below s.directory ".symdiff" ++ below s.directory "symdiff.config"
  let home :=
    match s.home with
    | some home => below home ".symdiff" ++ below home ".config/symdiff/config"
    | none => []
  named ++ here ++ home

/-- The candidate that is read, if there is one. -/
def candidate? (s : Surroundings) : Option String :=
  (candidates s).find? fun path => (s.files path).found && !(s.files path).isDirectory

def ofCandidates (s : Surroundings) : Except Failure Config :=
  match candidate? s with
  | some path => ofFile s.files path
  | none => .ok {}

/-! ## Environment -/

/-- The value of a variable that is set to a word of its kind. -/
def setting {α : Type} (s : Surroundings) (name : String) (read : String → Option α) :
    Option α :=
  (s.valueOf? name).bind read

/-- The configuration with the fields replaced that the environment sets.  A
variable that is not set to a word of its kind changes nothing, but for the debug
flag, which any text that is no word for truth turns off. -/
def override (s : Surroundings) (config : Config) : Config where
  simplify :=
    { overflow := (setting s "SYMDIFF_OVERFLOW" OverflowPolicy.lenient?).getD
        config.simplify.overflow
      likeTerms := (setting s "SYMDIFF_LIKE_TERMS" LikeTerms.lenient?).getD
        config.simplify.likeTerms }
  level := (setting s "SYMDIFF_LOG_LEVEL" LogLevel.lenient?).getD config.level
  debug :=
    match s.valueOf? "SYMDIFF_DEBUG" with
    | some text => (lenientBool? text).getD false
    | none => config.debug
  format := (setting s "SYMDIFF_OUTPUT" OutputFormat.lenient?).getD config.format

def load (s : Surroundings) : Except Failure Config :=
  (ofCandidates s).map (override s)

/-- The configuration when a file may be named. -/
def loadNamed (s : Surroundings) (named : Option String) : Except Failure Config :=
  match named with
  | none => load s
  | some path =>
    let fromEnvironment := (s.valueOf? "SYMDIFF_CONFIG").any (Path.equivalent path)
    if (s.files path).isFile then ofFile s.files path
    else if !(s.files path).found && !fromEnvironment then
      .error ⟨"Specified config file does not exist: " ++ path, none⟩
    else load s

end Config
end IntCalculus
