import ChangeQuery.Text.Utf8
import ChangeQuery.Yaml.Scalar

/-!
## Tokens

`Token.readAll?` takes a document apart into tokens.  The structure that a document shows by
indentation becomes tokens as well: a block of entries is opened when its first entry is met further
right than the construct around it, and closed when a token stands further left.

Whether a scalar is the key of a mapping is known only at the colon behind it.  The place of the last
token that may be a key is therefore remembered, and the tokens that open the mapping and the key are
inserted there.  Outside brackets, a key must stand on one line, and a token that continues a mapping
has to be a key.
-/

namespace ChangeQuery.Yaml

/-- The smallest parts of a document. -/
inductive Token where
  | version (major minor : Nat)
  /-- A short form of tags, and what it stands for. -/
  | tagHandle (handle stem : String)
  | documentStart
  | documentEnd
  | blockSequenceStart
  | blockMappingStart
  | blockEnd
  | flowSequenceStart
  | flowSequenceEnd
  | flowMappingStart
  | flowMappingEnd
  /-- A dash in front of an element. -/
  | entry
  | comma
  | key
  | value
  /-- A name for the node that follows. -/
  | anchor (name : String)
  /-- The node of that name once more. -/
  | reference (name : String)
  | tag (handle suffix : String)
  | scalar (style : ScalarStyle) (text : String)
  deriving DecidableEq, Repr

/-! ### Names, tags and directives -/

/-- The characters that may follow the name of an anchor without a gap. -/
def isAnchorEnd (c : Char) : Bool :=
  ['?', ':', ',', ']', '\x7d', '%', '@', '\x60'].contains c

/-- Reads the name of an anchor behind its mark. -/
def readAnchorName? (c : Cursor) : Option (String × Cursor) :=
  let (name, c) := c.skip.takeWhile isWordChar
  if name.isEmpty || !(c.isAtGap || c.current?.any isAnchorEnd) then none
  else some (String.ofList name, c)

/-- The character may be part of a tag; some only if the tag stands in angle brackets. -/
def isTagChar (bracketed : Bool) (c : Char) : Bool :=
  isWordChar c ||
    [';', '/', '?', ':', '@', '&', '=', '+', '$', '.', '!', '~', '*', '\'', '(', ')'].contains c ||
    (bracketed && [',', '[', ']'].contains c)

/-- The number of bytes of a character, told by its first byte. -/
def encodedLength? (first : Nat) : Option Nat :=
  if first < 0x80 then some 1
  else if first / 0x20 = 6 then some 2
  else if first / 0x10 = 14 then some 3
  else if first / 0x08 = 30 then some 4
  else none

/-- Reads a byte written as a percent sign and two hexadecimal digits. -/
def readPercentByte? (c : Cursor) : Option (Nat × Cursor) :=
  match c.rest with
  | '%' :: high :: low :: _ => do some (← Text.numberOfDigits? 16 [high, low], c.skipMany 3)
  | _ => none

/-- Reads further bytes of a character. -/
def readContinuation? : Nat → Cursor → Option (List Nat × Cursor)
  | 0, c => some ([], c)
  | missing + 1, c => do
    let (byte, c) ← readPercentByte? c
    if byte / 0x40 ≠ 2 then none
    else
      let (bytes, c) ← readContinuation? missing c
      some (byte :: bytes, c)

/-- Reads a character whose bytes are all written with percent signs. -/
def readPercentChar? (c : Cursor) : Option (List Char × Cursor) := do
  let (first, c) ← readPercentByte? c
  let length ← encodedLength? first
  let (more, c) ← readContinuation? (length - 1) c
  some (Text.Utf8.decode ((first :: more).map UInt8.ofNat), c)

/-- Reads the characters of a tag. -/
def readTagText? (bracketed : Bool) : Nat → Cursor → Option (List Char × Cursor)
  | 0, c => some ([], c)
  | bound + 1, c =>
    match c.current? with
    | none => some ([], c)
    | some char =>
      if char == '%' then do
        let (read, c) ← readPercentChar? c
        let (text, c) ← readTagText? bracketed bound c
        some (read ++ text, c)
      else if isTagChar bracketed char then do
        let (text, c) ← readTagText? bracketed bound c.skip
        some (char :: text, c)
      else some ([], c)

/-- Reads an exclamation mark, a name, and another exclamation mark if there is one. -/
def readTagHandle? (c : Cursor) : Option (List Char × Cursor) :=
  if !c.isAt '!' then none
  else
    let (name, c) := c.skip.takeWhile isWordChar
    if c.isAt '!' then some ('!' :: name ++ ['!'], c.skip) else some ('!' :: name, c)

/-- Reads the handle and the suffix of a tag. -/
def readTagParts? (c : Cursor) : Option (List Char × List Char × Cursor) := do
  if c.ahead? 1 == some '<' then
    let (suffix, c) ← readTagText? true c.rest.length (c.skipMany 2)
    if suffix.isEmpty || !c.isAt '>' then none else some ([], suffix, c.skip)
  else
    let (handle, c) ← readTagHandle? c
    let (text, c) ← readTagText? false c.rest.length c
    if 2 ≤ handle.length && handle.getLast? == some '!' then
      if text.isEmpty then none else some (handle, text, c)
    else
      let suffix := handle.drop 1 ++ text
      if suffix.isEmpty then some ([], ['!'], c) else some (['!'], suffix, c)

/-- Reads a tag.  A gap follows it, or within brackets a comma. -/
def readTag? (inFlow : Bool) (c : Cursor) : Option (Token × Cursor) := do
  let (handle, suffix, c) ← readTagParts? c
  if (inFlow && c.isAt ',') || c.isAtGap then
    some (.tag (String.ofList handle) (String.ofList suffix), c)
  else none

/-- Reads a number of at most nine digits. -/
def readVersionNumber? (c : Cursor) : Option (Nat × Cursor) :=
  let (digits, c) := c.takeWhile Char.isDigit
  if 9 < digits.length then none else (Text.numberOfDigits? 10 digits).map fun n => (n, c)

/-- Reads what follows the name of a directive. -/
def readDirectiveValue? (name : String) (c : Cursor) : Option (Token × Cursor) := do
  if name == "YAML" then
    let (major, c) ← readVersionNumber? c
    if !c.isAt '.' then none
    else
      let (minor, c) ← readVersionNumber? c.skip
      some (.version major minor, c)
  else if name == "TAG" then
    let (handle, c) ← readTagHandle? c
    if (handle.length != 1 && handle.getLast? != some '!') || !c.isAtSpace then none
    else
      let (stem, c) ← readTagText? true c.rest.length c.skipSpaces
      if stem.isEmpty || !c.isAtGap then none
      else some (.tagHandle (String.ofList handle) (String.ofList stem), c)
  else none

/-- Reads a directive with its line. -/
def readDirective? (c : Cursor) : Option (Token × Cursor) := do
  let (name, c) := c.skip.takeWhile isWordChar
  if name.isEmpty || !c.isAtGap then none
  else
    let (token, c) ← readDirectiveValue? (String.ofList name) c.skipSpaces
    some (token, ← c.finishLine?)

/-! ### The state of reading -/

/-- The place of a token that may turn out to be a key. -/
structure PossibleKey where
  /-- How many tokens stand before it. -/
  position : Nat
  /-- The token continues a mapping, so that it must be a key. -/
  required : Bool
  index : Nat
  line : Nat
  column : Nat

/-- A key stands on one line and has at most 1024 characters. -/
def PossibleKey.isStale (k : PossibleKey) (c : Cursor) : Bool :=
  k.line < c.line || k.index + 1024 < c.index

/-- How far a document was read. -/
structure TokenReader where
  cursor : Cursor
  tokens : Array Token := #[]
  /-- The column of the innermost block; -1 outside of all. -/
  indent : Int := -1
  /-- The columns of the blocks around it. -/
  outerIndents : List Int := []
  /-- A key may begin here. -/
  keyAllowed : Bool := true
  /-- What may be a key within the innermost brackets. -/
  key? : Option PossibleKey := none
  /-- The same for each pair of brackets around them, and for the block around all brackets. -/
  outerKeys : List (Option PossibleKey) := []

namespace TokenReader

/-- The place is within brackets. -/
def inFlow (r : TokenReader) : Bool :=
  !r.outerKeys.isEmpty

/-- Adds a token. -/
def push (r : TokenReader) (t : Token) : TokenReader :=
  { r with tokens := r.tokens.push t }

/-- Adds a token of some characters. -/
def pushMark (r : TokenReader) (t : Token) (length : Nat) : TokenReader :=
  { r.push t with cursor := r.cursor.skipMany length }

/-- The last token is no key; refused if it has to be one. -/
def dropKey? (r : TokenReader) : Option TokenReader :=
  if r.key?.any PossibleKey.required then none else some { r with key? := none }

/-- The next token may be a key, if one is allowed here. -/
def saveKey? (r : TokenReader) : Option TokenReader :=
  if r.keyAllowed then
    let c := r.cursor
    let required := !r.inFlow && r.indent == c.column
    r.dropKey?.map fun r => { r with key? := some ⟨r.tokens.size, required, c.index, c.line, c.column⟩ }
  else some r

/-- Gives up the tokens that cannot be keys any more. -/
def dropStaleKeys? (r : TokenReader) : Option TokenReader :=
  let isStale (k : PossibleKey) := k.isStale r.cursor
  if (r.key? :: r.outerKeys).any fun k? => k?.any fun k => isStale k && k.required then none
  else
    let refresh (k? : Option PossibleKey) := k?.filter fun k => !isStale k
    some { r with key? := refresh r.key?, outerKeys := r.outerKeys.map refresh }

/-- Opens a block at a column if it is further right than the innermost block; its first token is
inserted at a position. -/
def openBlock (r : TokenReader) (column position : Nat) (start : Token) : TokenReader :=
  if !r.inFlow && r.indent < column then
    { r with
      indent := column
      outerIndents := r.indent :: r.outerIndents
      tokens := r.tokens.insertIdxIfInBounds position start }
  else r

/-- Closes the given blocks as far as they are further right than a column. -/
def closeBlocksOf (column : Int) : List Int → TokenReader → TokenReader
  | outer :: others, r =>
    if column < r.indent then
      closeBlocksOf column others { r.push .blockEnd with indent := outer, outerIndents := others }
    else r
  | [], r => r

/-- Closes the blocks that are further right than a column. -/
def closeBlocks (r : TokenReader) (column : Int) : TokenReader :=
  if r.inFlow then r else closeBlocksOf column r.outerIndents r

/-- Skips spaces, comments and line breaks.  Tabs are skipped only where no key may begin. -/
def skipGaps : Nat → TokenReader → TokenReader
  | 0, r => r
  | bound + 1, r =>
    let c := if r.cursor.index == 0 && r.cursor.isAt '\uFEFF' then r.cursor.skip else r.cursor
    let tabs := r.inFlow || !r.keyAllowed
    let c := (c.takeWhile fun char => char == ' ' || (tabs && char == '\t')).2.skipComment
    if c.isAtBreak then
      skipGaps bound { r with cursor := c.readBreak.2, keyAllowed := r.keyAllowed || !r.inFlow }
    else { r with cursor := c }

/-! ### Reading single tokens -/

/-- Reads something at the start of a line that ends all blocks. -/
def endBlocks? (r : TokenReader) : Option TokenReader :=
  (r.closeBlocks (-1)).dropKey?.map fun r => { r with keyAllowed := false }

/-- Reads an opening bracket. -/
def openFlow? (r : TokenReader) (start : Token) : Option TokenReader :=
  r.saveKey?.map fun r =>
    { r.pushMark start 1 with keyAllowed := true, key? := none, outerKeys := r.key? :: r.outerKeys }

/-- Reads a closing bracket. -/
def closeFlow? (r : TokenReader) (stop : Token) : Option TokenReader :=
  r.dropKey?.map fun r =>
    { r.pushMark stop 1 with
      keyAllowed := false
      key? := (r.outerKeys.head?.getD none)
      outerKeys := r.outerKeys.drop 1 }

/-- Opens a block at a mark, where outside brackets a key must be allowed. -/
def markBlock? (r : TokenReader) (start : Token) : Option TokenReader :=
  if r.inFlow then some r
  else if !r.keyAllowed then none
  else some (r.openBlock r.cursor.column r.tokens.size start)

/-- Reads the dash in front of an element. -/
def readEntry? (r : TokenReader) : Option TokenReader := do
  let r ← (← r.markBlock? .blockSequenceStart).dropKey?
  some { r.pushMark .entry 1 with keyAllowed := true }

/-- Reads a question mark in front of a key. -/
def readKeyMark? (r : TokenReader) : Option TokenReader := do
  let r ← (← r.markBlock? .blockMappingStart).dropKey?
  some { r.pushMark .key 1 with keyAllowed := !r.inFlow }

/-- Reads the colon between a key and its value. -/
def readValueMark? (r : TokenReader) : Option TokenReader :=
  match r.key? with
  | some k =>
    let r := { r with
      tokens := r.tokens.insertIdxIfInBounds k.position .key
      key? := none
      keyAllowed := false }
    some ((r.openBlock k.column k.position .blockMappingStart).pushMark .value 1)
  | none =>
    (r.markBlock? .blockMappingStart).map fun r =>
      { r.pushMark .value 1 with keyAllowed := !r.inFlow }

/-- Reads a token that may be a key. -/
def readPossibleKey? (r : TokenReader) (read : Cursor → Option (Token × Cursor)) :
    Option TokenReader := do
  let r ← r.saveKey?
  let (token, cursor) ← read r.cursor
  some { r.push token with cursor, keyAllowed := false }

/-- Reads a block of lines. -/
def readBlockScalar? (r : TokenReader) (style : ScalarStyle) : Option TokenReader := do
  let r ← r.dropKey?
  let (text, cursor) ← readBlock? (style == .folded) r.indent r.cursor
  some { r.push (.scalar style (String.ofList text)) with cursor, keyAllowed := true }

/-- Reads a plain scalar. -/
def readPlainScalar? (r : TokenReader) : Option TokenReader := do
  let r ← r.saveKey?
  let (text, broken, cursor) ← readPlain? r.inFlow (r.indent + 1).toNat r.cursor
  some { r.push (.scalar .plain (String.ofList text)) with cursor, keyAllowed := broken }

/-- The characters that do not begin a plain scalar. -/
def isIndicator (c : Char) : Bool :=
  ['-', '?', ':', ',', '[', ']', '\x7b', '\x7d', '#', '&', '*', '!', '|', '>', '\'', '"', '%', '@',
    '\x60'].contains c

/-- A plain scalar begins here. -/
def startsPlain (inFlow : Bool) (c : Cursor) : Bool :=
  c.current?.any fun char =>
    !(isSpaceOrTab char || isBreak char || isIndicator char) ||
      (char == '-' && !(c.ahead? 1).any isSpaceOrTab) ||
      (!inFlow && (char == '?' || char == ':') && !c.isGapAhead 1)

/-- Reads a scalar in quotes as a token. -/
def quotedToken? (single : Bool) (c : Cursor) : Option (Token × Cursor) :=
  (readQuoted? single c).map fun (text, c) =>
    (.scalar (if single then .singleQuoted else .doubleQuoted) (String.ofList text), c)

/-- Reads the token that begins with the character. -/
def readToken? (r : TokenReader) (char : Char) : Option TokenReader :=
  let marked := r.inFlow || r.cursor.isGapAhead 1
  match char with
  | '[' => r.openFlow? .flowSequenceStart
  | '\x7b' => r.openFlow? .flowMappingStart
  | ']' => r.closeFlow? .flowSequenceEnd
  | '\x7d' => r.closeFlow? .flowMappingEnd
  | ',' => r.dropKey?.map fun r => { r.pushMark .comma 1 with keyAllowed := true }
  | '*' => r.readPossibleKey? fun c => (readAnchorName? c).map fun (name, c) => (.reference name, c)
  | '&' => r.readPossibleKey? fun c => (readAnchorName? c).map fun (name, c) => (.anchor name, c)
  | '!' => r.readPossibleKey? (readTag? r.inFlow)
  | '\'' => r.readPossibleKey? (quotedToken? true)
  | '"' => r.readPossibleKey? (quotedToken? false)
  | _ =>
    if char == '-' && r.cursor.isGapAhead 1 then r.readEntry?
    else if char == '?' && marked then r.readKeyMark?
    else if char == ':' && marked then r.readValueMark?
    else if char == '|' && !r.inFlow then r.readBlockScalar? .literal
    else if char == '>' && !r.inFlow then r.readBlockScalar? .folded
    else if startsPlain r.inFlow r.cursor then r.readPlainScalar?
    else none

/-- Reads a directive, a mark between documents or another token. -/
def readNext? (r : TokenReader) (char : Char) : Option TokenReader :=
  let c := r.cursor
  if c.column == 0 && char == '%' then do
    let (token, cursor) ← readDirective? c
    some { (← r.endBlocks?).push token with cursor }
  else if c.isAtDocumentMark then
    r.endBlocks?.map fun r => r.pushMark (if char == '-' then .documentStart else .documentEnd) 3
  else r.readToken? char

/-- Reads all tokens that follow. -/
def readAll? : Nat → TokenReader → Option (List Token)
  | 0, _ => none
  | bound + 1, r => do
    let r ← (skipGaps (r.cursor.rest.length + 1) r).dropStaleKeys?
    let r := r.closeBlocks r.cursor.column
    match r.cursor.current? with
    | none => (← r.endBlocks?).tokens.toList
    | some char => readAll? bound (← r.readNext? char)

end TokenReader

/-- The tokens of a document. -/
def Token.readAll? (text : List Char) : Option (List Token) :=
  if text.all isAllowed then
    let text := if text.head? == some '\uFEFF' then text.drop 1 else text
    TokenReader.readAll? (text.length + 1) { cursor := { rest := text } }
  else none

end ChangeQuery.Yaml
