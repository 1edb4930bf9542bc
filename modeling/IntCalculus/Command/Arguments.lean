/-
The command line of the program.

General options come first, then the name of a subcommand, then the options of
the subcommand; there are no other arguments.  The configuration file may be
named by `--config` or by the variable `SYMDIFF_CONFIG`, and its name must not be
empty in either.
-/
import IntCalculus.Command.Help
import IntCalculus.Command.Options
import IntCalculus.Config
import IntCalculus.Text.Integer

namespace IntCalculus
namespace Command

inductive Subcommand where
  | derive (expr var : String) (raw : Bool) (order : Nat)
  | simplify (expr : String)
  | eval (expr : String) (bindings : List String)
  | reduce (expr : String) (bindings : List String)
  | check (expr : String) (declarations : List String)
  | gradient (expr : String) (vars bindings : List String)
  | demo
  deriving DecidableEq, Repr

structure Invocation where
  debug : Bool
  level : Option LogLevel
  config : Option String
  overflow : Option OverflowPolicy
  likeTerms : Option LikeTerms
  format : Option OutputFormat
  generateConfig : Bool
  subcommand : Option Subcommand
  deriving DecidableEq, Repr

/-- How reading a command line ends.  The version is asked of the program or of
one of its subcommands. -/
inductive Outcome where
  | run (invocation : Invocation)
  | usage
  | help (page : HelpPage)
  | version (program : String)

def programName : String := "symdiff"

/-! ## Options -/

def generalOptions : List OptionSpec :=
  [{ name := "debug", short := some 'd', takesValue := false },
    { name := "log-level", admits := fun s => (LogLevel.ofWord? s).isSome },
    { name := "config", admits := fun s => s != "" },
    { name := "overflow", admits := fun s => (OverflowPolicy.lenient? s).isSome },
    { name := "like-terms", admits := fun s => (LikeTerms.lenient? s).isSome },
    { name := "output", admits := fun s => (OutputFormat.ofWord? s).isSome },
    { name := "generate-config", takesValue := false }]

/-- An order of differentiation: an integer from 0 to `2 ^ 32 - 1`. -/
def order? (s : String) : Option Nat :=
  match Text.boundedInteger 9223372036854775807 s with
  | .ok n => if 0 ≤ n ∧ n < 4294967296 then some n.toNat else none
  | .error _ => none

def exprOption : OptionSpec := { name := "expr", short := some 'e' }

def bindOption : OptionSpec := { name := "bind", short := some 'b', repeatable := true }

/-- What a subcommand declares: what it is for, and the options it takes. -/
structure SubcommandSpec where
  about : String
  options : List OptionSpec

def SubcommandSpec.page (spec : SubcommandSpec) : HelpPage := { about := spec.about }

/-- The declaration of a subcommand; none if there is no such subcommand. -/
def subcommandSpec? : String → Option SubcommandSpec
  | "derive" => some ⟨"Differentiate an expression",
      [exprOption, { name := "var", short := some 'v' }, { name := "raw", takesValue := false },
        { name := "order", admits := fun s => (order? s).isSome }]⟩
  | "simplify" => some ⟨"Simplify an expression", [exprOption]⟩
  | "eval" => some ⟨"Evaluate an expression", [exprOption, bindOption]⟩
  | "reduce" => some ⟨"Best-effort reduction to normal form", [exprOption, bindOption]⟩
  | "check" => some ⟨"Type-check an expression and report its inferred type",
      [exprOption, { name := "declare", repeatable := true }]⟩
  | "gradient" => some ⟨"Partial derivatives with respect to several variables",
      [exprOption, { name := "var", short := some 'v', repeatable := true }, bindOption]⟩
  | "demo" => some ⟨"Run the worked examples", []⟩
  | _ => none

/-- The subcommand that its options describe; none if a required one is
missing. -/
def subcommand? (name : String) (given : Given) : Option Subcommand :=
  match name, given.value? "expr" with
  | "derive", some expr =>
    some (.derive expr ((given.value? "var").getD "x") (given.has "raw")
      (((given.value? "order").bind order?).getD 1))
  | "simplify", some expr => some (.simplify expr)
  | "eval", some expr => some (.eval expr (given.values "bind"))
  | "reduce", some expr => some (.reduce expr (given.values "bind"))
  | "check", some expr => some (.check expr (given.values "declare"))
  | "gradient", some expr =>
    if given.has "var" then some (.gradient expr (given.values "var") (given.values "bind"))
    else none
  | "demo", _ => some .demo
  | _, _ => none

/-! ## Reading -/

/-- What the word `help` asks for, with the arguments after it: the page of the
program in detail, or that of one of its subcommands. -/
def helpAbout : List String → Outcome
  | [] => .help (HelpPage.program true)
  | [name] =>
    match subcommandSpec? name with
    | some spec => .help spec.page
    | none => if name = "help" then .help HelpPage.ofHelp else .usage
  | _ => .usage

def readSubcommand (name : String) (arguments : List String) :
    Except Outcome Subcommand :=
  match subcommandSpec? name with
  | none => .error (if name = "help" then helpAbout arguments else .usage)
  | some spec =>
    match readOptions spec.options {} none arguments with
    | .error .usage => .error .usage
    | .error (.help _) => .error (.help spec.page)
    | .error .version => .error (.version (programName ++ "-" ++ name))
    | .ok (progress, .words []) | .ok (progress, .marked []) =>
      match progress.settle.toOption.bind (subcommand? name) with
      | some subcommand => .ok subcommand
      | none => .error .usage
    | .ok _ => .error .usage

/-- The invocation that general options describe.  Without a `--config` option
the environment may name the configuration file. -/
def invocation? (given : Given) (subcommand : Option Subcommand) (fromEnvironment : Option String) :
    Option Invocation :=
  match given.value? "config" <|> fromEnvironment with
  | some "" => none
  | config => some
      { debug := given.has "debug"
        level := (given.value? "log-level").bind LogLevel.ofWord?
        config := config
        overflow := (given.value? "overflow").bind OverflowPolicy.lenient?
        likeTerms := (given.value? "like-terms").bind LikeTerms.lenient?
        format := (given.value? "output").bind OutputFormat.ofWord?
        generateConfig := given.has "generate-config"
        subcommand := subcommand }

def read (fromEnvironment : Option String) (arguments : List String) : Outcome :=
  let finish := fun (progress : Progress) subcommand =>
    match progress.settle.toOption.bind (invocation? · subcommand fromEnvironment) with
    | some invocation => Outcome.run invocation
    | none => .usage
  match readOptions generalOptions {} none arguments with
  | .error .usage => .usage
  | .error (.help detailed) => .help (HelpPage.program detailed)
  | .error .version => .version programName
  | .ok (progress, .words []) | .ok (progress, .marked []) => finish progress none
  | .ok (_, .marked _) => .usage
  | .ok (progress, .words (name :: rest)) =>
    match readSubcommand name rest with
    | .ok subcommand => finish progress (some subcommand)
    | .error outcome => outcome

end Command
end IntCalculus
