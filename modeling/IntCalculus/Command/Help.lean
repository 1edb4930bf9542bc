/-
Pages of help.

The program has a page of its own, which says more when it is asked for in detail, and one
for each of its subcommands.  Here is what is said on a page.  The layout, and the options
that are listed between the two texts, are left to what shows the page.
-/
namespace IntCalculus
namespace Command

structure HelpPage where
  about : String
  /-- What stands below the options. -/
  notes : String := ""
  deriving DecidableEq, Repr

namespace HelpPage

def summary : String := "Symbolic differentiation and simplification of integer expressions"

def details : String :=
  String.join ["\n",
    "symdiff evaluates, type-checks, simplifies and symbolically differentiates\n",
    "expressions over 32-bit integers.\n\n",
    "Expressions are JSON trees, for example x * x + 3 is written\n\n",
    "  \x7b\"Add\":[\x7b\"Multiply\":[\x7b\"Variable\":\"x\"\x7d,\x7b\"Variable\":\"x\"\x7d]\x7d,",
    "\x7b\"Constant\":3\x7d]\x7d\n\n",
    "Examples:\n",
    "  symdiff derive --expr @f.json --var x          # simplified derivative\n",
    "  symdiff derive --expr @f.json --var x --raw    # raw product-rule output\n",
    "  symdiff eval --expr @f.json --bind x=2         # evaluate at x = 2\n",
    "  symdiff gradient --expr @f.json --var x --var y --bind x=1 --bind y=2\n",
    "  symdiff demo                                   # worked examples\n"]

/-- What the program reads in its environment. -/
def environmentNotes : String :=
  String.join ["\n",
    "Environment Variables:\n",
    "  SYMDIFF_CONFIG=<path>        Path to configuration file\n",
    "  SYMDIFF_OVERFLOW=checked     Constant folding overflow (checked, wrapping, saturating)\n",
    "  SYMDIFF_LIKE_TERMS=pairwise  Like-term combination (pairwise, extended)\n",
    "  SYMDIFF_LOG_LEVEL=warn       Set log level (error, warn, info, debug, trace)\n",
    "  SYMDIFF_DEBUG=1              Enable debug logging\n",
    "  SYMDIFF_OUTPUT=text          Output format (text, json)\n"]

/-- The page of the program. -/
def program (detailed : Bool) : HelpPage :=
  ⟨if detailed then details else summary, environmentNotes⟩

/-- The page of the word `help`, which stands where a subcommand may. -/
def ofHelp : HelpPage := { about := "Print this message or the help of the given subcommand(s)" }

end HelpPage
end Command
end IntCalculus
