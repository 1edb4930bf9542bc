/-
The tokens of YAML.

Indentation opens and closes block collections, so tokens stand for that as well.  A
name in a map is known for one only when its colon comes: what may turn out to be a name
is a `Candidate`, of which there is one at most for each flow collection that is open and
one outside, and when the colon comes the tokens that mark the name, and the map if it
begins there, are put in where the candidate stands.  A name has to stand on one line,
and its colon at most 1024 characters further on.
-/
import IntCalculus.Config.Yaml.Scalar
import IntCalculus.Config.Yaml.Tag

namespace IntCalculus
namespace Yaml

inductive Style where
  | plain
  | singleQuoted
  | doubleQuoted
  | literal
  | folded
  deriving DecidableEq, Repr

inductive Token where
  | directive (directive : Directive)
  | documentStart
  | documentEnd
  | blockSequence
  | blockMapping
  | blockEnd
  | flowSequence
  | flowSequenceEnd
  | flowMapping
  | flowMappingEnd
  | comma
  /-- The dash before an item. -/
  | item
  /-- The beginning of a name. -/
  | key
  /-- The colon before a value. -/
  | value
  | alias (name : String)
  | anchor (name : String)
  | tag (tag : Tag)
  | scalar (style : Style) (content : String)
  deriving DecidableEq, Repr

/-- A place where a name may have begun. -/
structure Candidate where
  /-- Whether nothing but a name may stand there. -/
  required : Bool
  /-- How many tokens stand before it. -/
  place : Nat
  line : Nat
  column : Nat

def Candidate.isPast (candidate : Candidate) (cursor : Cursor) : Bool :=
  candidate.line < cursor.line || candidate.column + 1024 < cursor.column

structure Scanner where
  cursor : Cursor
  /-- The tokens, in reverse. -/
  tokens : List Token := []
  /-- The columns of the block collections that are open, the innermost first. -/
  indents : List Nat := []
  nameAllowed : Bool := true
  /-- The candidate of the innermost flow collection, or the one outside all of them. -/
  candidate : Option Candidate := none
  /-- The candidates of what the innermost flow collection stands in. -/
  outer : List (Option Candidate) := []

namespace Scanner

/-! ## Indentation -/

def inFlow (s : Scanner) : Bool := !s.outer.isEmpty

/-- The least column of what stands inside the innermost block collection. -/
def floor (s : Scanner) : Nat := (s.indents.head?.map (· + 1)).getD 0

def emit (s : Scanner) (token : Token) : Scanner := { s with tokens := token :: s.tokens }

def insertAt (s : Scanner) (place : Nat) (token : Token) : Scanner :=
  let (after, before) := s.tokens.splitAt (s.tokens.length - place)
  { s with tokens := after ++ token :: before }

/-- Open a block collection at a column, unless it is open. -/
def openBlock (s : Scanner) (column place : Nat) (token : Token) : Scanner :=
  if s.inFlow || column < s.floor then s
  else { s.insertAt place token with indents := column :: s.indents }

def closeBlocks (s : Scanner) (isClosed : Nat → Bool) : Scanner :=
  if s.inFlow then s
  else
    let closed := s.indents.takeWhile isClosed
    { s with
      tokens := closed.map (fun _ => Token.blockEnd) ++ s.tokens
      indents := s.indents.dropWhile isClosed }

/-! ## Candidates -/

/-- Give up the candidate, unless it is required. -/
def dropCandidate? (s : Scanner) : Option Scanner :=
  if s.candidate.any (·.required) then none else some { s with candidate := none }

def noteCandidate? (s : Scanner) : Option Scanner :=
  if s.nameAllowed then do
    let required := !s.inFlow && s.indents.head? == some s.cursor.column
    let s ← s.dropCandidate?
    some { s with
      candidate := some ⟨required, s.tokens.length, s.cursor.line, s.cursor.column⟩ }
  else some s

/-- A candidate that is not past, which one that is required must not be. -/
def keep? (cursor : Cursor) : Option Candidate → Option (Option Candidate)
  | none => some none
  | some candidate =>
    if !candidate.isPast cursor then some (some candidate)
    else if candidate.required then none
    else some none

/-- Go on to the next token: pass over what stands in between, give up the candidates
that are past, and close the block collections that the column ends. -/
def settle? (s : Scanner) : Option Scanner := do
  let (cursor, nameAllowed) :=
    Cursor.nextToken s.inFlow s.nameAllowed false s.cursor.line s.cursor.column s.cursor.rest
  let candidate ← keep? cursor s.candidate
  let outer ← s.outer.mapM (keep? cursor)
  let s := { s with
    cursor := cursor, nameAllowed := nameAllowed, candidate := candidate, outer := outer }
  some (s.closeBlocks (cursor.column < ·))

/-! ## Tokens -/

/-- Go on after a token of so many characters. -/
def skip (s : Scanner) (count : Nat) (token : Token) (nameAllowed : Bool) : Scanner :=
  { s.emit token with cursor := s.cursor.advance count, nameAllowed := nameAllowed }

/-- Go on after a token before an end of the text. -/
def before (s : Scanner) (rest : List Char) (token : Token) (nameAllowed : Bool) : Scanner :=
  { s.emit token with cursor := s.cursor.before rest, nameAllowed := nameAllowed }

def markOrDirective? (s : Scanner) : Option Scanner := do
  let s ← (s.closeBlocks fun _ => true).dropCandidate?
  match s.cursor.rest with
  | '%' :: rest => do
    let (directive, rest) ← Directive.read? rest
    some (s.before (← afterLine? rest) (.directive directive) false)
  | '-' :: _ => some (s.skip 3 .documentStart false)
  | _ => some (s.skip 3 .documentEnd false)

def openFlow? (s : Scanner) (token : Token) : Option Scanner := do
  let s ← s.noteCandidate?
  some { s.skip 1 token true with candidate := none, outer := s.candidate :: s.outer }

def closeFlow? (s : Scanner) (token : Token) : Option Scanner := do
  let s ← s.dropCandidate?
  match s.outer with
  | [] => some (s.skip 1 token false)
  | candidate :: outer =>
    some { s.skip 1 token false with candidate := candidate, outer := outer }

/-- Read the indicator of an item, of a name or of a value that has no name before it.
Outside flow collections it needs a place where a name may begin, and may begin a
collection. -/
def indicator? (s : Scanner) (collection token : Token) : Option Scanner :=
  if s.inFlow then some (s.skip 1 token false)
  else if !s.nameAllowed then none
  else some ((s.openBlock s.cursor.column s.tokens.length collection).skip 1 token true)

def value? (s : Scanner) : Option Scanner :=
  match s.candidate with
  | some candidate =>
    let s := s.insertAt candidate.place .key
    let s := s.openBlock candidate.column candidate.place .blockMapping
    some { s.skip 1 .value false with candidate := none }
  | none => s.indicator? .blockMapping .value

def block? (s : Scanner) (style : Style) (rest : List Char) : Option Scanner := do
  let s ← s.dropCandidate?
  let (content, rest) ← Yaml.block? (style == .folded) s.floor rest
  some (s.before rest (.scalar style content) true)

/-- Read a plain scalar.  A name may begin after it if its line has ended. -/
def plain? (s : Scanner) : Option Scanner := do
  let s ← s.noteCandidate?
  let plain ← Yaml.plain? s.inFlow s.floor [] {} s.cursor.column s.cursor.rest
  some (s.before plain.rest (.scalar .plain plain.content) plain.endsLine)

def beginsPlain (flow : Bool) : List Char → Bool
  | [] => false
  | c :: rest =>
    if c = '-' then !rest.head?.any isBlank
    else if c = '?' || c = ':' then !flow && !beginsBlank rest
    else
      !(isFlowIndicator c || isBlank c ||
        ['#', '&', '*', '!', '|', '>', '\'', '"', '%', '@', '\x60'].contains c)

def token? (s : Scanner) : Option Scanner :=
  match s.cursor.rest with
  | [] => none
  | c :: rest =>
    let marks := s.cursor.column = 0
    if marks && (c = '%' || beginsAnyMark (c :: rest)) then s.markOrDirective?
    else if c = '[' then s.openFlow? .flowSequence
    else if c = '\x7b' then s.openFlow? .flowMapping
    else if c = ']' then s.closeFlow? .flowSequenceEnd
    else if c = '\x7d' then s.closeFlow? .flowMappingEnd
    else if c = ',' then do some ((← s.dropCandidate?).skip 1 .comma true)
    else if c = '-' && beginsBlank rest then do
      let s ← s.indicator? .blockSequence .item
      some { (← s.dropCandidate?) with nameAllowed := true }
    else if c = '?' && (s.inFlow || beginsBlank rest) then do
      (← s.indicator? .blockMapping .key).dropCandidate?
    else if c = ':' && (s.inFlow || beginsBlank rest) then s.value?
    else if c = '*' then do
      let s ← s.noteCandidate?
      let (name, rest) ← anchor? rest
      some (s.before rest (.alias name) false)
    else if c = '&' then do
      let s ← s.noteCandidate?
      let (name, rest) ← anchor? rest
      some (s.before rest (.anchor name) false)
    else if c = '!' then do
      let s ← s.noteCandidate?
      let (tag, rest) ← Tag.read? s.inFlow rest
      some (s.before rest (.tag tag) false)
    else if c = '|' && !s.inFlow then s.block? .literal rest
    else if c = '>' && !s.inFlow then s.block? .folded rest
    else if c = '\'' then do
      let s ← s.noteCandidate?
      let (content, rest) ← singleQuoted [] {} false false rest
      some (s.before rest (.scalar .singleQuoted content) false)
    else if c = '"' then do
      let s ← s.noteCandidate?
      let (content, rest) ← doubleQuoted [] {} false .inText rest
      some (s.before rest (.scalar .doubleQuoted content) false)
    else if beginsPlain s.inFlow (c :: rest) then s.plain?
    else none

def run? : (steps : Nat) → Scanner → Option (List Token)
  | 0, _ => none
  | steps + 1, s => do
    let s ← s.settle?
    if s.cursor.rest.isEmpty then
      let s ← (s.closeBlocks fun _ => true).dropCandidate?
      some s.tokens.reverse
    else run? steps (← s.token?)

end Scanner

/-- The tokens of a text.  Each of them that is no mark of indentation takes up at least one
character. -/
def tokens? (text : String) : Option (List Token) := do
  let cs ← admitted? text
  Scanner.run? (cs.length + 1) ⟨⟨cs, 0, 0⟩, [], [], true, none, []⟩

end Yaml
end IntCalculus
