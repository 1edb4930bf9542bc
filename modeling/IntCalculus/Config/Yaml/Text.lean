/-
The characters of YAML, and places in a text.

Newlines, carriage returns, both together and next lines all end a line in the same
way, so a text is read with newlines in their place; the line and paragraph separators
end lines too and stay what they are.  A `Cursor` is the rest of a text with the line
and the column where it stands.
-/
namespace IntCalculus
namespace Yaml

/-! ## Characters -/

/-- The ranges of the code points that may stand in a text. -/
def admittedRanges : List (Nat × Nat) :=
  [(0x09, 0x0a), (0x0d, 0x0d), (0x20, 0x7e), (0x85, 0x85), (0xa0, 0xd7ff), (0xe000, 0xfffd),
    (0x10000, 0x10ffff)]

def isAdmitted (c : Char) : Bool :=
  admittedRanges.any fun range => range.1 ≤ c.toNat && c.toNat ≤ range.2

/-- The text with one character for each line end. -/
def withLineEnds : List Char → List Char
  | [] => []
  | c :: rest =>
    if c = '\r' then
      if rest.head? == some '\n' then withLineEnds rest else '\n' :: withLineEnds rest
    else if c = '\u0085' then '\n' :: withLineEnds rest
    else c :: withLineEnds rest

def isBreak (c : Char) : Bool := c == '\n' || c == '\u2028' || c == '\u2029'

def isBlank (c : Char) : Bool := c == ' ' || c == '\t'

/-- Characters of names: of anchors, of directives and of tag handles. -/
def isWord (c : Char) : Bool := c.isAlphanum || c == '_' || c == '-'

/-- Characters with a meaning inside flow collections. -/
def isFlowIndicator (c : Char) : Bool := [',', '[', ']', '\x7b', '\x7d'].contains c

/-- Whether a text begins with white space or has ended. -/
def beginsBlank (cs : List Char) : Bool := cs.head?.all fun c => isBlank c || isBreak c

/-- Whether a line has ended. -/
def isLineEnd (cs : List Char) : Bool := cs.head?.all isBreak

/-- Whether a line begins with the mark of a document's beginning or end. -/
def beginsMark (mark : Char) (cs : List Char) : Bool :=
  cs.take 3 == [mark, mark, mark] && beginsBlank (cs.drop 3)

def beginsAnyMark (cs : List Char) : Bool := beginsMark '-' cs || beginsMark '.' cs

/-- A text of admitted characters, with one character for each line end. -/
def admitted? (text : String) : Option (List Char) :=
  if text.toList.all isAdmitted then some (withLineEnds text.toList) else none

/-! ## Places -/

structure Cursor where
  rest : List Char
  line : Nat := 0
  column : Nat := 0

namespace Cursor

/-- The cursor after some of the characters that follow. -/
def advance (cursor : Cursor) : (count : Nat) → Cursor
  | 0 => cursor
  | count + 1 =>
    match cursor.rest with
    | [] => cursor
    | c :: rest =>
      if isBreak c then advance ⟨rest, cursor.line + 1, 0⟩ count
      else advance ⟨rest, cursor.line, cursor.column + 1⟩ count

def before (cursor : Cursor) (rest : List Char) : Cursor :=
  cursor.advance (cursor.rest.length - rest.length)

/-- The next token after a cursor, and whether it may be a name.  In between stand
blanks, comments and line ends, and a byte order mark may begin a line.  Outside flow
collections a tab is no blank where a name may stand, and a name may stand on a new
line. -/
def nextToken (flow : Bool) (nameAllowed inComment : Bool) (line column : Nat) :
    List Char → Cursor × Bool
  | [] => (⟨[], line, column⟩, nameAllowed)
  | c :: rest =>
    if isBreak c then nextToken flow (nameAllowed || !flow) false (line + 1) 0 rest
    else if inComment || c = ' ' || (c = '\t' && (flow || !nameAllowed)) ||
        (c = '\ufeff' && column = 0) then
      nextToken flow nameAllowed inComment line (column + 1) rest
    else if c = '#' then nextToken flow nameAllowed true line (column + 1) rest
    else (⟨c :: rest, line, column⟩, nameAllowed)

end Cursor
end Yaml
end IntCalculus
