/-
The scalars of YAML.

A scalar is plain, quoted, or a block.  In the first two, line ends are folded: one of
them counts as a space, and of several all but the first count.  A block keeps its
lines, or folds those that do not begin with a blank, and a sign after its indicator
says what becomes of the line ends at its end.

Every reader takes the text from the place where it stands and gives the content of the
scalar with the text that follows.
-/
import IntCalculus.Config.Yaml.Text
import IntCalculus.Json.Token

namespace IntCalculus
namespace Yaml

/-! ## White space between words -/

/-- The white space since the last word of a scalar, in reverse. -/
structure Gap where
  blanks : List Char := []
  breaks : List Char := []
  /-- Whether a line end went before that does not count. -/
  escaped : Bool := false

namespace Gap

def hasBreak (gap : Gap) : Bool := gap.escaped || !gap.breaks.isEmpty

def isEmpty (gap : Gap) : Bool := gap.blanks.isEmpty && !gap.hasBreak

/-- The gap with one more blank, which counts only on the line of the last word. -/
def addBlank (gap : Gap) (c : Char) : Gap :=
  if gap.hasBreak then gap else { gap with blanks := c :: gap.blanks }

def addBreak (gap : Gap) (c : Char) : Gap := { gap with breaks := c :: gap.breaks }

/-- What line ends in their order count for. -/
def folded : List Char → List Char
  | ['\n'] => [' ']
  | '\n' :: rest => rest
  | breaks => breaks

/-- The content, in reverse, with what the gap counts for. -/
def close (gap : Gap) (content : List Char) : List Char :=
  if gap.escaped then gap.breaks ++ content
  else if gap.breaks.isEmpty then gap.blanks ++ content
  else (folded gap.breaks.reverse).reverse ++ content

end Gap

/-! ## Quoted scalars -/

def unescape : Char → Option Char
  | '0' => some '\x00'
  | 'a' => some '\x07'
  | 'v' => some '\x0b'
  | 'e' => some '\x1b'
  | ' ' => some ' '
  | '\t' => some '\t'
  | 'N' => some '\u0085'
  | '_' => some '\u00a0'
  | 'L' => some '\u2028'
  | 'P' => some '\u2029'
  | c => Json.unescape c

/-- How many digits follow a letter after a backslash. -/
def escapeDigits : Char → Option Nat
  | 'x' => some 2
  | 'u' => some 4
  | 'U' => some 8
  | _ => none

inductive Mode where
  | inText
  | afterBackslash
  /-- Inside a numbered escape, with so many digits still to come. -/
  | inEscape (missing : Nat) (value : Nat)
  deriving DecidableEq, Repr

/-- The rest of a scalar after its opening double quote.  No line of it may begin with a
mark of documents. -/
def doubleQuoted (content : List Char) (gap : Gap) (atLineStart : Bool) (mode : Mode) :
    List Char → Option (String × List Char)
  | [] => none
  | c :: rest =>
    match mode with
    | .inText =>
      if atLineStart && beginsAnyMark (c :: rest) then none
      else if isBreak c then doubleQuoted content (gap.addBreak c) true .inText rest
      else if isBlank c then doubleQuoted content (gap.addBlank c) false .inText rest
      else if c = '"' then some (String.ofList (gap.close content).reverse, rest)
      else if c = '\\' then doubleQuoted (gap.close content) {} false .afterBackslash rest
      else doubleQuoted (c :: gap.close content) {} false .inText rest
    | .afterBackslash =>
      if isBreak c then doubleQuoted content { escaped := true } true .inText rest
      else
        match escapeDigits c with
        | some digits => doubleQuoted content {} false (.inEscape digits 0) rest
        | none => do
          let meant ← unescape c
          doubleQuoted (meant :: content) {} false .inText rest
    | .inEscape missing value => do
      let value := 16 * value + (← Json.hexValue c)
      if missing ≤ 1 then
        if value.isValidChar then doubleQuoted (Char.ofNat value :: content) {} false .inText rest
        else none
      else doubleQuoted content {} false (.inEscape (missing - 1) value) rest

/-- The rest of a scalar after its opening single quote, in which a quote is written
twice.  `quote` says whether the character before is a quote that may be the first of
two. -/
def singleQuoted (content : List Char) (gap : Gap) (atLineStart quote : Bool) :
    List Char → Option (String × List Char)
  | [] => if quote then some (String.ofList content.reverse, []) else none
  | c :: rest =>
    if quote then
      if c = '\'' then singleQuoted (c :: content) {} false false rest
      else some (String.ofList content.reverse, c :: rest)
    else if atLineStart && beginsAnyMark (c :: rest) then none
    else if isBreak c then singleQuoted content (gap.addBreak c) true false rest
    else if isBlank c then singleQuoted content (gap.addBlank c) false false rest
    else if c = '\'' then singleQuoted (gap.close content) {} false true rest
    else singleQuoted (c :: gap.close content) {} false false rest

/-! ## Plain scalars -/

structure Plain where
  content : String
  /-- Whether the line of its last word has ended. -/
  endsLine : Bool
  rest : List Char

/-- A plain scalar, from some column on.  Outside flow collections its lines have to be
indented to `floor` at least.  It ends before a colon that white space follows, before a
comment, before a mark of documents, and in flow collections before their indicators,
which must not follow a colon. -/
def plain? (flow : Bool) (floor : Nat) (content : List Char) (gap : Gap) (column : Nat) :
    List Char → Option Plain
  | [] => some ⟨String.ofList content.reverse, gap.hasBreak, []⟩
  | c :: rest =>
    let stop := some ⟨String.ofList content.reverse, gap.hasBreak, c :: rest⟩
    if isBreak c then plain? flow floor content (gap.addBreak c) 0 rest
    else if isBlank c then
      if c = '\t' && gap.hasBreak && column < floor then none
      else plain? flow floor content (gap.addBlank c) (column + 1) rest
    else if !gap.isEmpty &&
        (c = '#' || (!flow && column < floor) || (column = 0 && beginsAnyMark (c :: rest))) then
      stop
    else if flow && c = ':' && rest.head?.any (fun d => d = '?' || isFlowIndicator d) then none
    else if (c = ':' && beginsBlank rest) || (flow && isFlowIndicator c) then stop
    else plain? flow floor (c :: gap.close content) {} (column + 1) rest

/-! ## Blocks -/

structure BlockHead where
  /-- How much the block is indented against what it stands in, if that is said. -/
  indent : Option Nat := none
  /-- What becomes of the line ends at its end: all of them stay, or none, or the
  first. -/
  keep : Option Bool := none

/-- What follows the blanks and the comment that may end a line, if the line ends
there. -/
def afterLine? (cs : List Char) : Option (List Char) :=
  let rest :=
    match cs.dropWhile isBlank with
    | '#' :: rest => rest.dropWhile fun c => !isBreak c
    | rest => rest
  if isLineEnd rest then some rest.tail else none

def chomping : List Char → Option Bool × List Char
  | '+' :: rest => (some true, rest)
  | '-' :: rest => (some false, rest)
  | rest => (none, rest)

/-- The digit after the indicator of a block scalar, which must not be zero. -/
def indentation? : List Char → Option (Option Nat × List Char)
  | c :: rest =>
    if c = '0' then none
    else if c.isDigit then some (some (c.toNat - '0'.toNat), rest)
    else some (none, c :: rest)
  | [] => some (none, [])

/-- The head of a block scalar after its indicator, and the lines that follow.  The
sign and the digit may stand in either order. -/
def BlockHead.read? (cs : List Char) : Option (BlockHead × List Char) := do
  let (before, rest) := chomping cs
  let (indent, rest) ← indentation? rest
  let (after, rest) := if before.isNone && indent.isSome then chomping rest else (none, rest)
  some (⟨indent, before <|> after⟩, ← afterLine? rest)

structure BlockStart where
  /-- The line ends, in reverse. -/
  breaks : List Char
  deepest : Nat
  column : Nat
  rest : List Char

/-- Pass over blank lines and the indentation of the line after them.  An indentation of
zero is not known yet.  No tab may stand in it. -/
def blankLines? (indent : Nat) (breaks : List Char) (deepest column : Nat) :
    List Char → Option BlockStart
  | [] => some ⟨breaks, max deepest column, column, []⟩
  | c :: rest =>
    let inside := indent = 0 || column < indent
    if inside && c = ' ' then blankLines? indent breaks deepest (column + 1) rest
    else if inside && c = '\t' then none
    else if isBreak c then blankLines? indent (c :: breaks) (max deepest column) 0 rest
    else some ⟨breaks, max deepest column, column, c :: rest⟩

/-- What the line ends between two lines of a block count for, in reverse.  Between two
lines that do not begin with a blank a folded block has a space in place of a single
line end, and of several the first does not count. -/
def between (fold : Bool) (lineEnd breaks : List Char) : List Char :=
  if fold && lineEnd == ['\n'] then
    if breaks.isEmpty then [' '] else breaks
  else breaks ++ lineEnd

/-- The lines of a block scalar, `steps` of them at most, after some content, the end of
the line before and the blank lines after it.  All that is kept is in reverse. -/
def blockLines? (fold : Bool) (keep : Option Bool) (indent : Nat) (content lineEnd : List Char)
    (blankBefore : Bool) : (steps : Nat) → BlockStart → Option (String × List Char)
  | 0, _ => none
  | steps + 1, start =>
    if start.column = indent && !start.rest.isEmpty then do
      let beginsBlank := start.rest.head?.any isBlank
      let gap := between (fold && !blankBefore && !beginsBlank) lineEnd start.breaks
      let (line, rest) := start.rest.span fun c => !isBreak c
      let next ← blankLines? indent [] 0 0 rest.tail
      blockLines? fold keep indent (line.reverse ++ (gap ++ content)) (rest.take 1) beginsBlank
        steps next
    else
      let content :=
        match keep with
        | some true => start.breaks ++ (lineEnd ++ content)
        | some false => content
        | none => lineEnd ++ content
      some (String.ofList content.reverse, start.rest)

/-- A block scalar after its indicator, inside something that is indented to
`floor - 1`, or in nothing if `floor` is zero. -/
def block? (fold : Bool) (floor : Nat) (cs : List Char) : Option (String × List Char) := do
  let (head, rest) ← BlockHead.read? cs
  let start ← blankLines? ((head.indent.map (floor - 1 + ·)).getD 0) [] 0 0 rest
  let indent := (head.indent.map (floor - 1 + ·)).getD (max (max start.deepest floor) 1)
  blockLines? fold head.keep indent [] [] false (rest.length + 1) start

end Yaml
end IntCalculus
