/-
Line ends and strings of TOML.

A string stands in double quotes, with escapes, or in single quotes, with none; three
quotes on either side let it span lines.  In a string that spans lines a first line
end does not count, every line end is read as `\n`, and a backslash before a line
end takes away the white space that follows.  Up to two quotes may stand before the
closing three.
-/
import IntCalculus.Json.Token

namespace IntCalculus
namespace Toml

/-! ## Blanks, comments and line ends -/

def isBlank (c : Char) : Bool := c == ' ' || c == '\t'

def skipBlanks (cs : List Char) : List Char := cs.dropWhile isBlank

/-- What follows a line end, which is a newline or a carriage return with a
newline. -/
def afterNewline? : List Char → Option (List Char)
  | '\n' :: rest => some rest
  | '\r' :: '\n' :: rest => some rest
  | _ => none

/-- Characters that may stand in a text: no control characters but the tab. -/
def isPrintable (c : Char) : Bool := c == '\t' || (0x20 ≤ c.toNat && c.toNat != 0x7f)

/-- What follows the blanks and the comment that may end a line. -/
def skipComment (cs : List Char) : List Char :=
  match skipBlanks cs with
  | '#' :: rest => rest.dropWhile isPrintable
  | rest => rest

/-- What follows the end of a line on which nothing is left but a comment. -/
def afterLine? (cs : List Char) : Option (List Char) :=
  match skipComment cs with
  | [] => some []
  | rest => afterNewline? rest

/-- What follows blanks, comments and line ends, of which there are `steps` at
most. -/
def skipLines : (steps : Nat) → List Char → List Char
  | 0, cs => cs
  | steps + 1, cs =>
    match afterNewline? (skipComment cs) with
    | some rest => skipLines steps rest
    | none => skipBlanks cs

/-! ## Escapes -/

def charOf? (n : Nat) : Option Char := if n.isValidChar then some (Char.ofNat n) else none

inductive Mode where
  | inText
  | afterBackslash
  /-- Inside a numbered escape, with so many digits still to come. -/
  | inEscape (missing : Nat) (value : Nat)
  /-- In the blanks between a backslash and the line end that it takes away. -/
  | beforeNewline
  /-- In the white space after such a line end. -/
  | afterNewline
  deriving DecidableEq, Repr

/-- The character that a letter after a backslash stands for. -/
def unescape (c : Char) : Option Char := if c = '/' then none else Json.unescape c

/-- One character after a backslash, inside an escape: the mode that follows and the
character that is complete, if one is. -/
def escapeStep : Mode → Char → Option (Mode × List Char)
  | .afterBackslash, c =>
    if c = 'u' then some (.inEscape 4 0, [])
    else if c = 'U' then some (.inEscape 8 0, [])
    else (unescape c).map fun meant => (.inText, [meant])
  | .inEscape missing value, c => do
    let value := 16 * value + (← Json.hexValue c)
    if missing ≤ 1 then (charOf? value).map fun meant => (.inText, [meant])
    else some (.inEscape (missing - 1) value, [])
  | _, _ => none

/-! ## Strings on one line -/

/-- The rest of a string after its opening double quote: its content, and what
follows the closing quote. -/
def basicString (content : List Char) (mode : Mode) : List Char → Option (String × List Char)
  | [] => none
  | c :: rest =>
    if mode = .inText then
      if c = '"' then some (String.ofList content.reverse, rest)
      else if c = '\\' then basicString content .afterBackslash rest
      else if isPrintable c then basicString (c :: content) .inText rest
      else none
    else do
      let (mode, meant) ← escapeStep mode c
      basicString (meant ++ content) mode rest

/-- The rest of a string after its opening single quote. -/
def literalString (cs : List Char) : Option (String × List Char) :=
  match cs.span fun c => c != '\'' && isPrintable c with
  | (content, '\'' :: rest) => some (String.ofList content, rest)
  | _ => none

/-! ## Strings that span lines -/

def beginsClosing (quote : Char) (cs : List Char) : Bool :=
  (cs.take 3) == [quote, quote, quote]

/-- The end of a string at its closing quotes: the two quotes at most that still
belong to it, and what follows. -/
def closing (quote : Char) (content : List Char) (cs : List Char) : String × List Char :=
  let extra := min 2 ((cs.takeWhile (· == quote)).length - 3)
  (String.ofList (content.reverse ++ List.replicate extra quote), cs.drop (extra + 3))

def withoutFirstNewline (cs : List Char) : List Char := (afterNewline? cs).getD cs

/-- The rest of a string after three double quotes. -/
def longBasicString (content : List Char) (mode : Mode) :
    List Char → Option (String × List Char)
  | [] => none
  | c :: rest =>
    let newline := c = '\n' || (c = '\r' && rest.head? == some '\n')
    match mode with
    | .beforeNewline =>
      if isBlank c || c = '\r' && newline then longBasicString content .beforeNewline rest
      else if newline then longBasicString content .afterNewline rest
      else none
    | .afterBackslash =>
      if isBlank c || c = '\r' && newline then longBasicString content .beforeNewline rest
      else if newline then longBasicString content .afterNewline rest
      else do
        let (mode, meant) ← escapeStep mode c
        longBasicString (meant ++ content) mode rest
    | .inEscape _ _ => do
      let (mode, meant) ← escapeStep mode c
      longBasicString (meant ++ content) mode rest
    | .inText | .afterNewline =>
      if mode = .afterNewline && (isBlank c || newline) then
        longBasicString content .afterNewline rest
      else if beginsClosing '"' (c :: rest) then some (closing '"' content (c :: rest))
      else if c = '\\' then longBasicString content .afterBackslash rest
      else if c = '\r' && newline then longBasicString content .inText rest
      else if newline || isPrintable c then longBasicString (c :: content) .inText rest
      else none

/-- The rest of a string after three single quotes. -/
def longLiteralString (content : List Char) : List Char → Option (String × List Char)
  | [] => none
  | c :: rest =>
    if beginsClosing '\'' (c :: rest) then some (closing '\'' content (c :: rest))
    else if c = '\r' then
      if rest.head? == some '\n' then longLiteralString content rest else none
    else if c = '\n' || isPrintable c then longLiteralString (c :: content) rest
    else none

def shortString? : List Char → Option (String × List Char)
  | '"' :: rest => basicString [] .inText rest
  | '\'' :: rest => literalString rest
  | _ => none

def string? (cs : List Char) : Option (String × List Char) :=
  if beginsClosing '"' cs then longBasicString [] .inText (withoutFirstNewline (cs.drop 3))
  else if beginsClosing '\'' cs then longLiteralString [] (withoutFirstNewline (cs.drop 3))
  else shortString? cs

end Toml
end IntCalculus
