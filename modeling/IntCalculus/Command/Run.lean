/-
Running a command line.

A run is a function of the arguments and the surroundings: it gives an exit code,
what is printed, a failure if there is one, and the log.  Everything logged
before a failure stays in the log.  A run that shows a page of help prints nothing
else.
-/
import IntCalculus.Command.Arguments
import IntCalculus.Command.Demo
import IntCalculus.Log
import IntCalculus.Reduce
import IntCalculus.Typing

namespace IntCalculus
namespace Command

/-- What a run leaves behind. -/
structure Run where
  exitCode : Nat
  stdout : String := ""
  /-- The page of help that is shown, if there is one. -/
  help : Option HelpPage := none
  failure : Option Failure := none
  log : List LogRecord := []
  /-- Whether the arguments could not be read. -/
  usageError : Bool := false

def version : String := "0.1.0"

def override (invocation : Invocation) (config : Config) : Config where
  simplify :=
    { overflow := invocation.overflow.getD config.simplify.overflow
      likeTerms := invocation.likeTerms.getD config.simplify.likeTerms }
  level := invocation.level.getD config.level
  debug := invocation.debug || config.debug
  format := invocation.format.getD config.format

def configuration (s : Surroundings) (invocation : Invocation) : Except Failure Config :=
  (Config.loadNamed s invocation.config).map (override invocation)

def logLevel (config : Config) : LogLevel := if config.debug then .debug else config.level

/-- What a run writes of its log: the environment may set other levels for the targets
that it names, and a pattern. -/
def logFilter (s : Surroundings) (config : Config) : Log.Filter :=
  (Log.Filter.ofText ((s.valueOf? "RUST_LOG").getD "")).withLimit (logLevel config)

/-! ## Subcommands -/

/-- What a subcommand computes: the log it writes, and what it prints or why it
fails. -/
abbrev Work := List LogRecord × Except Failure String

def quietly (printed : Except Failure String) : Work := ([], printed)

def orFail {α : Type} : Except Error α → Except Failure α
  | .ok a => .ok a
  | .error err => .error (failure err)

def derivative (options : Options) (x : String) (raw : Bool) (order : Nat) (e : Expr) :
    Except Error Expr :=
  if raw then deriveRawNth x order e else deriveNth options x order e

def work (files : Files) (config : Config) : Subcommand → Work
  | .derive argument x raw order => quietly do
    let e ← expression files config.simplify argument
    let d ← orFail (derivative config.simplify x raw order e)
    .ok (Result.printed config.format e (.expr d))
  | .simplify argument =>
    match expression files config.simplify argument with
    | .error failure => ([], .error failure)
    | .ok e =>
      let (result, report) := simplifyWithReport config.simplify e
      let message := "simplified " ++ toString report.initialSize ++ " -> " ++
        toString report.finalSize ++ " nodes"
      ([⟨.info, message⟩], .ok (Result.printed config.format e (.expr result)))
  | .eval argument bindings => quietly do
    let e ← expression files config.simplify argument
    let env ← environment bindings
    match e.evaluate env with
    | .ok v => .ok (Result.printed config.format e (.value v))
    | .error err => .error ⟨"Failed to evaluate " ++ e.text, some err.message⟩
  | .reduce argument bindings => quietly do
    let e ← expression files config.simplify argument
    let env ← environment bindings
    let reduced ← orFail (e.reduce env)
    .ok (Result.printed config.format e (.expr reduced))
  | .check argument arguments => quietly do
    let e ← expression files config.simplify argument
    let types ← declarations arguments
    let (checked, types) := e.check.run.run types
    let wellTyped ← orFail checked
    let inferred ← orFail (e.infer.run.run types).1
    .ok (Result.printed config.format e (.typeCheck wellTyped inferred))
  | .gradient argument xs bindings => quietly do
    let e ← expression files config.simplify argument
    let gradient : Gradient := ⟨e, xs, some config.simplify⟩
    let result ←
      if bindings.isEmpty then (orFail gradient.symbolic).map Result.exprs
      else do
        let env ← environment bindings
        (orFail (gradient.evaluate env)).map Result.value
    .ok (Result.printed config.format gradient.toExpr result)
  | .demo => quietly do
    let lines ← orFail (examples config.simplify)
    .ok (printedExamples config.format lines)

/-! ## Runs -/

/-- The run of an invocation that has found its configuration. -/
def runWith (s : Surroundings) (config : Config) (subcommand : Option Subcommand) : Run :=
  let started : List LogRecord :=
    [⟨.info, programName ++ " v" ++ version ++ " starting"⟩,
      ⟨.debug, "Configuration loaded: " ++ config.logText⟩]
  let written := List.filter ((logFilter s config).admits programName)
  match subcommand with
  | none => { exitCode := 0, help := some (HelpPage.program false), log := written started }
  | some subcommand =>
    let (logged, printed) := work s.files config subcommand
    let log := written (started ++ logged)
    match printed with
    | .ok text => { exitCode := 0, stdout := text, log := log }
    | .error failure => { exitCode := 1, failure := some failure, log := log }

def run (s : Surroundings) (arguments : List String) : Run :=
  match read (s.valueOf? "SYMDIFF_CONFIG") arguments with
  | .usage => { exitCode := 2, usageError := true }
  | .help page => { exitCode := 0, help := some page }
  | .version program => { exitCode := 0, stdout := program ++ " " ++ version ++ "\n" }
  | .run invocation =>
    if invocation.generateConfig then { exitCode := 0, stdout := Config.sample ++ "\n" }
    else
      match configuration s invocation with
      | .error failure => { exitCode := 1, failure := some failure }
      | .ok config => runWith s config invocation.subcommand

/-- The paths a run may look at. -/
def pathsRead (s : Surroundings) (arguments : List String) : List String :=
  match read (s.valueOf? "SYMDIFF_CONFIG") arguments with
  | .run invocation =>
    let expressions :=
      match invocation.subcommand with
      | some (.derive expr _ _ _) | some (.simplify expr) | some (.eval expr _)
      | some (.reduce expr _) | some (.check expr _) | some (.gradient expr _ _) => [expr]
      | some .demo | none => []
    let named := expressions.filterMap fun expr =>
      match expr.toList with
      | '@' :: path => some (String.ofList path)
      | _ => none
    invocation.config.toList ++ Config.candidates s ++ named
  | _ => []

end Command
end IntCalculus
