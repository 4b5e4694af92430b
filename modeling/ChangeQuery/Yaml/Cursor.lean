/-!
## Walking through a document

A `Cursor` is a place in the text of a YAML document: the characters that follow, and how far and on
which line and column they are.  Line breaks come in several forms; all but the line and paragraph
separators are read as a line feed.
-/

namespace ChangeQuery.Yaml

/-- The characters that a document may hold: tabs, line breaks and everything with a shape. -/
def isAllowed (c : Char) : Bool :=
  let n := c.toNat
  n == 0x09 || n == 0x0A || n == 0x0D || (0x20 ≤ n && n ≤ 0x7E) || n == 0x85 ||
    (0xA0 ≤ n && n ≤ 0xFFFD) || 0x10000 ≤ n

/-- A space or a tab. -/
def isSpaceOrTab (c : Char) : Bool :=
  c == ' ' || c == '\t'

/-- The character ends a line. -/
def isBreak (c : Char) : Bool :=
  c == '\n' || c == '\r' || c == '\u0085' || c == '\u2028' || c == '\u2029'

/-- The character may be part of the name of an anchor, a tag or a directive. -/
def isWordChar (c : Char) : Bool :=
  c.isAlphanum || c == '_' || c == '-'

/-- A place in a text. -/
structure Cursor where
  rest : List Char
  index : Nat := 0
  line : Nat := 0
  column : Nat := 0

namespace Cursor

/-- The character at the place. -/
def current? (c : Cursor) : Option Char :=
  c.rest.head?

/-- The character some places further on. -/
def ahead? (c : Cursor) (distance : Nat) : Option Char :=
  c.rest[distance]?

/-- The text is at its end. -/
def isEnd (c : Cursor) : Bool :=
  c.rest.isEmpty

/-- The given character follows. -/
def isAt (c : Cursor) (char : Char) : Bool :=
  c.current? == some char

/-- A space or a tab follows. -/
def isAtSpace (c : Cursor) : Bool :=
  c.current?.any isSpaceOrTab

/-- A line break follows. -/
def isAtBreak (c : Cursor) : Bool :=
  c.current?.any isBreak

/-- At some distance, a space, a tab, a line break or the end follows. -/
def isGapAhead (c : Cursor) (distance : Nat) : Bool :=
  (c.ahead? distance).all fun char => isSpaceOrTab char || isBreak char

/-- A space, a tab, a line break or the end follows. -/
def isAtGap (c : Cursor) : Bool :=
  c.isGapAhead 0

/-- The text follows. -/
def startsWith (c : Cursor) (text : String) : Bool :=
  text.toList.isPrefixOf c.rest

/-- At the start of a line, a mark between documents follows. -/
def isAtDocumentMark (c : Cursor) : Bool :=
  c.column == 0 && (c.startsWith "---" || c.startsWith "...") && c.isGapAhead 3

/-- The place after the next character. -/
def skip (c : Cursor) : Cursor :=
  ⟨c.rest.drop 1, c.index + 1, c.line, c.column + 1⟩

/-- The place after some characters of one line. -/
def skipMany (c : Cursor) : Nat → Cursor
  | 0 => c
  | count + 1 => c.skip.skipMany count

/-- Reads a line break: the text it stands for, and the place on the next line. -/
def readBreak (c : Cursor) : List Char × Cursor :=
  match c.rest with
  | '\r' :: '\n' :: rest => (['\n'], ⟨rest, c.index + 2, c.line + 1, 0⟩)
  | char :: rest =>
    let text := if char == '\u2028' || char == '\u2029' then char else '\n'
    ([text], ⟨rest, c.index + 1, c.line + 1, 0⟩)
  | [] => ([], c)

/-- The place behind the characters that satisfy a condition, with these characters.  The
characters must not be line breaks. -/
def takeWhile (p : Char → Bool) (c : Cursor) : List Char × Cursor :=
  let taken := c.rest.takeWhile p
  (taken, ⟨c.rest.dropWhile p, c.index + taken.length, c.line, c.column + taken.length⟩)

/-- The place behind spaces and tabs. -/
def skipSpaces (c : Cursor) : Cursor :=
  (c.takeWhile isSpaceOrTab).2

/-- The place at the end of the line if a comment follows, and else the same place. -/
def skipComment (c : Cursor) : Cursor :=
  if c.isAt '#' then (c.takeWhile fun char => !isBreak char).2 else c

/-- The place on the next line, if nothing but spaces and a comment follow on this one. -/
def finishLine? (c : Cursor) : Option Cursor :=
  let c := c.skipSpaces.skipComment
  if c.isEnd then some c else if c.isAtBreak then some c.readBreak.2 else none

end Cursor

end ChangeQuery.Yaml
