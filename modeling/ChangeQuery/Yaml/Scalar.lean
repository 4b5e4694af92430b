import ChangeQuery.Text.Digits
import ChangeQuery.Yaml.Cursor

/-!
## Reading scalars

A scalar is a piece of text: plain, in single or double quotes, or a block of lines after `|` or `>`.
Line breaks within plain and quoted scalars are folded: a single one becomes a space, and of several
the first is dropped.  The functions take a `Cursor` at the start of the scalar and give the text and
the place behind it; they refuse what cannot be a scalar.

All loops are bounded by the number of characters that follow.
-/

namespace ChangeQuery.Yaml

/-- How a scalar was written. -/
inductive ScalarStyle where
  | plain
  | singleQuoted
  | doubleQuoted
  | literal
  | folded
  deriving DecidableEq, Repr

/-- Spaces and line breaks between two parts of a scalar. -/
structure Gap where
  /-- The spaces, if there is no line break. -/
  spaces : List Char := []
  /-- The first line break. -/
  firstBreak : List Char := []
  /-- The line breaks after the first one. -/
  laterBreaks : List Char := []
  /-- There was a line break. -/
  broken : Bool := false

/-- What a gap within a scalar stands for. -/
def Gap.fold (g : Gap) : List Char :=
  if g.broken then
    if g.firstBreak == ['\n'] then if g.laterBreaks.isEmpty then [' '] else g.laterBreaks
    else g.firstBreak ++ g.laterBreaks
  else g.spaces

/-- Reads spaces, tabs and line breaks.  After a line break, a tab before column `indent` is
refused. -/
def readGap? (indent : Nat) : Nat → Gap → Cursor → Option (Gap × Cursor)
  | 0, g, c => some (g, c)
  | bound + 1, g, c =>
    match c.current? with
    | none => some (g, c)
    | some char =>
      if isSpaceOrTab char then
        if g.broken && c.column < indent && char == '\t' then none
        else if g.broken then readGap? indent bound g c.skip
        else readGap? indent bound { g with spaces := g.spaces ++ [char] } c.skip
      else if isBreak char then
        let (text, c) := c.readBreak
        if g.broken then
          readGap? indent bound { g with laterBreaks := g.laterBreaks ++ text } c
        else readGap? indent bound { g with spaces := [], firstBreak := text, broken := true } c
      else some (g, c)

/-! ### Plain scalars -/

/-- The characters that end a plain scalar within brackets. -/
def isFlowMark (c : Char) : Bool :=
  c == ',' || c == '[' || c == ']' || c == '\x7b' || c == '\x7d'

/-- A plain scalar ends here. -/
def endsPlain (inFlow : Bool) (c : Cursor) : Bool :=
  c.isAtGap || (c.isAt ':' && c.isGapAhead 1) || (inFlow && c.current?.any isFlowMark)

/-- A colon that is followed by a bracket or comma within brackets cannot be read. -/
def isBadColon (inFlow : Bool) (c : Cursor) : Bool :=
  inFlow && c.isAt ':' && (c.ahead? 1).any fun char => isFlowMark char || char == '?'

/-- Reads the characters of a plain scalar up to the next gap or to its end. -/
def readPlainWord? (inFlow : Bool) : Nat → List Char → Cursor → Option (List Char × Cursor)
  | 0, word, c => some (word.reverse, c)
  | bound + 1, word, c =>
    if c.isAtGap then some (word.reverse, c)
    else if isBadColon inFlow c then none
    else if endsPlain inFlow c then some (word.reverse, c)
    else readPlainWord? inFlow bound ((c.current?.getD ' ') :: word) c.skip

/-- Reads a plain scalar from the gap before its next word on; the answer also tells whether the
scalar was left on a new line. -/
def readPlainFrom? (inFlow : Bool) (indent : Nat) :
    Nat → List Char → Gap → Cursor → Option (List Char × Bool × Cursor)
  | 0, text, g, c => some (text, g.broken, c)
  | bound + 1, text, g, c =>
    if c.isAtDocumentMark || c.isAt '#' then some (text, g.broken, c)
    else do
      let (word, next) ← readPlainWord? inFlow c.rest.length [] c
      let (text, g) := if word.isEmpty then (text, g) else (text ++ g.fold ++ word, {})
      if next.current?.any fun char => isSpaceOrTab char || isBreak char then
        let (g, next) ← readGap? indent next.rest.length g next
        if !inFlow && next.column < indent then some (text, g.broken, next)
        else readPlainFrom? inFlow indent bound text g next
      else some (text, g.broken, next)

/-- Reads a plain scalar.  Outside brackets, its further lines are indented by at least `indent`. -/
def readPlain? (inFlow : Bool) (indent : Nat) (c : Cursor) : Option (List Char × Bool × Cursor) :=
  readPlainFrom? inFlow indent (c.rest.length + 1) [] {} c

/-! ### Quoted scalars -/

/-- The characters that stand for one character after a backslash. -/
def escapes : List (Char × Char) :=
  [('0', '\x00'), ('a', '\x07'), ('b', '\x08'), ('t', '\t'), ('\t', '\t'), ('n', '\n'),
   ('v', '\x0b'), ('f', '\x0c'), ('r', '\r'), ('e', '\x1b'), (' ', ' '), ('"', '"'), ('/', '/'),
   ('\\', '\\'), ('N', '\u0085'), ('_', '\u00a0'), ('L', '\u2028'), ('P', '\u2029')]

/-- The number of digits of a code point after a backslash and this character. -/
def escapeLength? : Char → Option Nat
  | 'x' => some 2
  | 'u' => some 4
  | 'U' => some 8
  | _ => none

/-- Reads what stands after a backslash. -/
def readEscape? (c : Cursor) : Option (Char × Cursor) := do
  let char ← c.current?
  match escapes.lookup char with
  | some meaning => some (meaning, c.skip)
  | none =>
    let length ← escapeLength? char
    let digits := c.skip.rest.take length
    if digits.length < length then none
    else
      let n ← Text.numberOfDigits? 16 digits
      if n.isValidChar then some (Char.ofNat n, c.skipMany (length + 1)) else none

/-- Reads the characters of a quoted scalar up to the next gap or to the closing quote.  An escaped
line break ends the word and begins a gap of its own. -/
def readQuotedWord? (single : Bool) :
    Nat → List Char → Cursor → Option (List Char × Bool × Cursor)
  | 0, word, c => some (word.reverse, false, c)
  | bound + 1, word, c =>
    match c.current? with
    | none => some (word.reverse, false, c)
    | some char =>
      if isSpaceOrTab char || isBreak char then some (word.reverse, false, c)
      else if single && char == '\'' then
        if c.ahead? 1 == some '\'' then readQuotedWord? single bound ('\'' :: word) (c.skipMany 2)
        else some (word.reverse, false, c)
      else if !single && char == '"' then some (word.reverse, false, c)
      else if !single && char == '\\' then
        if (c.ahead? 1).any isBreak then some (word.reverse, true, c.skip.readBreak.2)
        else do
          let (meaning, next) ← readEscape? c.skip
          readQuotedWord? single bound (meaning :: word) next
      else readQuotedWord? single bound (char :: word) c.skip

/-- Reads a quoted scalar after its opening quote. -/
def readQuotedFrom? (single : Bool) : Nat → List Char → Cursor → Option (List Char × Cursor)
  | 0, _, _ => none
  | bound + 1, text, c =>
    if c.isAtDocumentMark || c.isEnd then none
    else do
      let (word, joined, next) ← readQuotedWord? single c.rest.length [] c
      let text := text ++ word
      if next.isAt (if single then '\'' else '"') then some (text, next.skip)
      else
        let (g, next) ← readGap? 0 next.rest.length { broken := joined } next
        readQuotedFrom? single bound (text ++ g.fold) next

/-- Reads a scalar in quotes. -/
def readQuoted? (single : Bool) (c : Cursor) : Option (List Char × Cursor) :=
  readQuotedFrom? single (c.rest.length + 1) [] c.skip

/-! ### Blocks of lines -/

/-- What happens to the line breaks at the end of a block. -/
inductive Chomping where
  | strip
  | clip
  | keep
  deriving DecidableEq, Repr

/-- What `+` and `-` behind the mark of a block ask for. -/
def chomping? (c : Cursor) : Option Chomping :=
  if c.isAt '+' then some .keep else if c.isAt '-' then some .strip else none

/-- Reads a digit for the indentation of a block; 0 is refused. -/
def readIndentDigit? (c : Cursor) : Option (Option Nat × Cursor) :=
  match c.current? with
  | none => some (none, c)
  | some char =>
    if char == '0' then none
    else if char.isDigit then some (some (char.toNat - 48), c.skip)
    else some (none, c)

/-- Reads what may stand behind the mark of a block, in either order. -/
def readBlockHeader? (c : Cursor) : Option (Chomping × Option Nat × Cursor) :=
  match chomping? c with
  | some chomping => do
    let (digit?, c) ← readIndentDigit? c.skip
    some (chomping, digit?, c)
  | none => do
    let (digit?, c) ← readIndentDigit? c
    match digit?, chomping? c with
    | some digit, some chomping => some (chomping, some digit, c.skip)
    | _, _ => some (.clip, digit?, c)

/-- Reads empty lines of a block and the indentation of the line after them.  As long as the
indentation is not known, all spaces count; the greatest column met is returned. -/
def readBlockBreaks? (indent? : Option Nat) :
    Nat → List Char → Nat → Cursor → Option (List Char × Nat × Cursor)
  | 0, breaks, greatest, c => some (breaks, greatest, c)
  | bound + 1, breaks, greatest, c =>
    let inIndent := indent?.all fun indent => c.column < indent
    if inIndent && c.isAt ' ' then readBlockBreaks? indent? bound breaks greatest c.skip
    else if inIndent && c.isAt '\t' then none
    else
      let greatest := max greatest c.column
      if c.isAtBreak then
        let (text, c) := c.readBreak
        readBlockBreaks? indent? bound (breaks ++ text) greatest c
      else some (breaks, greatest, c)

/-- A block as far as it was read. -/
structure BlockText where
  text : List Char := []
  /-- The line break behind the last line. -/
  lastBreak : List Char := []
  /-- The empty lines behind it. -/
  emptyLines : List Char := []
  /-- The last line begins with a space. -/
  spaced : Bool := false

/-- Joins the next line of a block; in a folded block, lines that do not begin with a space are
joined by one. -/
def BlockText.join (b : BlockText) (isFolded nextSpaced : Bool) : List Char :=
  let middle :=
    if isFolded && b.lastBreak == ['\n'] && !b.spaced && !nextSpaced then
      if b.emptyLines.isEmpty then [' '] else []
    else b.lastBreak
  b.text ++ middle ++ b.emptyLines

/-- Reads the lines of a block with known indentation. -/
def readBlockLines? (isFolded : Bool) (indent : Nat) :
    Nat → BlockText → Cursor → Option (BlockText × Cursor)
  | 0, b, c => some (b, c)
  | bound + 1, b, c =>
    if c.column ≠ indent ∨ c.isEnd then some (b, c)
    else do
      let spaced := c.isAtSpace
      let (line, c) := c.takeWhile fun char => !isBreak char
      let (lastBreak, c) := c.readBreak
      let (emptyLines, _, c) ← readBlockBreaks? (some indent) c.rest.length [] 0 c
      readBlockLines? isFolded indent bound
        ⟨b.join isFolded spaced ++ line, lastBreak, emptyLines, spaced⟩ c

/-- Reads a block of lines below a construct that is indented by `parentIndent`. -/
def readBlock? (isFolded : Bool) (parentIndent : Int) (c : Cursor) :
    Option (List Char × Cursor) := do
  let (chomping, digit?, c) ← readBlockHeader? c.skip
  let c ← c.finishLine?
  let given? := digit?.map fun digit => (max parentIndent 0).toNat + digit
  let (emptyLines, greatest, c) ← readBlockBreaks? given? (c.rest.length + 1) [] 0 c
  let indent := given?.getD (max (max greatest (parentIndent + 1).toNat) 1)
  let (b, c) ← readBlockLines? isFolded indent (c.rest.length + 1) { emptyLines } c
  let tail := match chomping with
    | .strip => []
    | .clip => b.lastBreak
    | .keep => b.lastBreak ++ b.emptyLines
  some (b.text ++ tail, c)

end ChangeQuery.Yaml
