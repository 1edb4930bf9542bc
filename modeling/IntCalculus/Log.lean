/-
The log, and which of its records are written.

A filter is written as a list of directives between commas: a level, a target, or both
with an equality sign between them.  After a slash may follow a pattern that has to occur
in a record's message.  Of the directives whose target begins the target of a record the
one with the longest target counts, and of two of the same length the later one.  What
does not follow this form is passed over.
-/
import IntCalculus.Config
import IntCalculus.Text.Pattern.Syntax

namespace IntCalculus

structure LogRecord where
  level : LogLevel
  message : String
  deriving DecidableEq, Repr

namespace Log

structure Directive where
  /-- What the targets begin with for which it is made; every target if it is missing. -/
  target : Option String
  /-- The last level that is written; none at all if it is missing. -/
  limit : Option LogLevel
  deriving DecidableEq, Repr

namespace Directive

def length (directive : Directive) : Nat := (directive.target.map String.utf8ByteSize).getD 0

def concerns (directive : Directive) (target : String) : Bool :=
  directive.target.all fun start => start.toList.isPrefixOf target.toList

def admits (directive : Directive) (level : LogLevel) : Bool :=
  directive.limit.any fun limit => level.rank ≤ limit.rank

end Directive

/-- The limit that a word sets, in either case. -/
def limit? (word : String) : Option (Option LogLevel) :=
  let word := Text.lower word
  if word = "off" then some none else (LogLevel.ofWord? word).map some

def directive? (text : String) : Option Directive :=
  match Text.splitOnChar '=' text with
  | [word] =>
    match limit? word with
    | some limit => some ⟨none, limit⟩
    | none => some ⟨some word, some .trace⟩
  | [target, word] =>
    if Text.trim word = "" then some ⟨some target, some .trace⟩
    else (limit? (Text.trim word)).map fun limit => ⟨some target, limit⟩
  | _ => none

/-- Directives with one more, which takes the place of the one for the same target. -/
def insert (directive : Directive) : List Directive → List Directive
  | [] => [directive]
  | first :: rest =>
    if first.target = directive.target then directive :: rest else first :: insert directive rest

structure Filter where
  directives : List Directive
  /-- What has to occur in a message. -/
  pattern : Option Text.Pattern

namespace Filter

def ofText (text : String) : Filter :=
  let ofParts := fun (list : String) pattern =>
    let texts := ((Text.splitOnChar ',' list).map Text.trim).filter (· != "")
    (⟨(texts.filterMap directive?).foldl (fun sofar directive => insert directive sofar) [],
      pattern⟩ : Filter)
  match Text.splitOnChar '/' text with
  | [list] => ofParts list none
  | [list, pattern] => ofParts list (Text.Pattern.parse? pattern)
  | _ => ⟨[], none⟩

/-- The filter with a limit for targets that no directive is made for. -/
def withLimit (filter : Filter) (level : LogLevel) : Filter :=
  { filter with directives := insert ⟨none, some level⟩ filter.directives }

/-- The directive that counts for a target: of those with the longest targets the
last. -/
def directiveFor? (filter : Filter) (target : String) : Option Directive :=
  let concerned := filter.directives.filter (·.concerns target)
  concerned.foldl (fun best directive =>
    if best.all fun known => known.length ≤ directive.length then some directive else best) none

def admits (filter : Filter) (target : String) (record : LogRecord) : Bool :=
  (filter.directiveFor? target).any (·.admits record.level) &&
    filter.pattern.all (·.occursIn record.message.toList)

/-- A filter with nothing but a limit admits the levels up to it. -/
theorem admits_withLimit (level : LogLevel) (target : String) (record : LogRecord) :
    (withLimit ⟨[], none⟩ level).admits target record = decide (record.level.rank ≤ level.rank) := by
  simp [withLimit, insert, admits, directiveFor?, Directive.concerns, Directive.admits]

end Filter
end Log
end IntCalculus
