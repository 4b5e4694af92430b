import ChangeQuery.Yaml.Meaning

/-!
## Writing documents

`Value.write` lays a value out in blocks: an entry of a mapping or an element of a sequence per line,
mappings within mappings indented by two columns, and sequences within mappings not indented.  Empty
collections are written in brackets.  Tags are not written.

A scalar is written in the style it asks for if its text allows that, and else in the plainest style
that is read back as the same text: in single quotes, or in double quotes with escapes.
-/

namespace ChangeQuery.Yaml

/-- How far a construct is indented within another one. -/
def indentStep : Nat := 2

/-- Spaces at the start of a line. -/
def spaces (count : Nat) : List Char :=
  List.replicate count ' '

/-! ### Which styles a text allows -/

/-- The character can be written as it is. -/
def isWritable (c : Char) : Bool :=
  let n := c.toNat
  n == 0x0A || (0x20 ≤ n && n ≤ 0x7E) || (0xA0 ≤ n && n ≤ 0xFFFD && n != 0xFEFF) || 0x10000 ≤ n

/-- The end of the text, a space, a tab or a line break. -/
def isGapOrEnd (c? : Option Char) : Bool :=
  c?.all fun c => isSpaceOrTab c || isBreak c

/-- The text, behind the given character, has a colon before a gap or a number sign behind one. -/
def hasMark : Option Char → List Char → Bool
  | _, [] => false
  | before?, c :: text =>
    (c == ':' && isGapOrEnd text.head?) || (c == '#' && isGapOrEnd before?) || hasMark (some c) text

/-- The text begins like something else than a plain scalar. -/
def beginsWithMark (text : List Char) : Bool :=
  "---".toList.isPrefixOf text || "...".toList.isPrefixOf text ||
    match text with
    | [] => false
    | c :: rest =>
      [',', '[', ']', '\x7b', '\x7d', '#', '&', '*', '!', '|', '>', '\'', '"', '%', '@',
        '\x60'].contains c || ((c == '-' || c == '?') && isGapOrEnd rest.head?)

/-- Two neighbours in the text satisfy the conditions. -/
def hasNeighbours (first second : Char → Bool) : List Char → Bool
  | a :: b :: text => (first a && second b) || hasNeighbours first second (b :: text)
  | _ => false

/-- The text has a space right before the end of a line. -/
def hasSpaceBeforeBreak (text : List Char) : Bool :=
  hasNeighbours (· == ' ') isBreak text

/-- The text can be written plain. -/
def allowsPlain (text : List Char) : Bool :=
  text.all (fun c => isWritable c && !isBreak c) && text.head? != some ' ' &&
    text.getLast? != some ' ' && !beginsWithMark text && !hasMark none text

/-- The text can be written in single quotes. -/
def allowsQuotes (text : List Char) : Bool :=
  text.all isWritable && !hasSpaceBeforeBreak text && !hasNeighbours isBreak (· == ' ') text

/-- The text can be written as a block of lines. -/
def allowsBlock (text : List Char) : Bool :=
  !text.isEmpty && text.all isWritable && !hasSpaceBeforeBreak text && text.getLast? != some ' '

/-- The style in which a text is written that asks for a style. -/
def ScalarStyle.fitTo (text : List Char) : ScalarStyle → ScalarStyle
  | plain => if allowsPlain text then plain else if allowsQuotes text then singleQuoted else doubleQuoted
  | singleQuoted => if allowsQuotes text then singleQuoted else doubleQuoted
  | doubleQuoted => doubleQuoted
  | literal | folded => if allowsBlock text then literal else doubleQuoted

/-! ### Writing scalars -/

/-- The digits of a code point, filled up with zeros. -/
def codePointDigits (width : Nat) (c : Char) : List Char :=
  let digits := (Nat.toDigits 16 c.toNat).map Char.toUpper
  List.replicate (width - digits.length) '0' ++ digits

/-- How a character is written behind a backslash. -/
def escapeOf (c : Char) : List Char :=
  match escapes.find? (·.2 == c) with
  | some (mark, _) => [mark]
  | none =>
    if c.toNat ≤ 0xFF then 'x' :: codePointDigits 2 c
    else if c.toNat ≤ 0xFFFF then 'u' :: codePointDigits 4 c
    else 'U' :: codePointDigits 8 c

/-- How a character is written between double quotes. -/
def spellQuoted (c : Char) : List Char :=
  if !isWritable c || isBreak c || c == '"' || c == '\\' then '\\' :: escapeOf c else [c]

/-- Writes a text, with an indentation in front of each line; `atStart` tells whether it begins
there. -/
def writeLines (indent : Nat) (spell : Char → List Char) : Bool → List Char → List Char
  | _, [] => []
  | atStart, c :: text =>
    if isBreak c then c :: writeLines indent spell true text
    else (if atStart then spaces indent else []) ++ spell c ++ writeLines indent spell false text

/-- The mark of a block: how far it is indented if that cannot be seen, and what happens to the line
breaks at its end. -/
def blockHeader (text : List Char) : List Char :=
  let unclear := text.head?.any fun c => c == ' ' || isBreak c
  let breaks := (text.reverse.takeWhile isBreak).length
  '|' :: (if unclear then (toString indentStep).toList else []) ++
    (if breaks = 0 then ['-'] else if breaks = 1 ∧ 1 < text.length then [] else ['+']) ++ ['\n']

/-- Writes a text in a style that it allows. -/
def writeScalar (indent : Nat) (text : List Char) : ScalarStyle → List Char
  | .plain => text
  | .singleQuoted =>
    let spell (c : Char) : List Char := if c == '\'' then [c, c] else [c]
    '\'' :: writeLines indent spell false text ++
      (if text.getLast?.any isBreak then spaces indent else []) ++ ['\'']
  | .doubleQuoted => '"' :: text.flatMap spellQuoted ++ ['"']
  | .literal | .folded => blockHeader text ++ writeLines indent (fun c => [c]) true text

/-! ### Writing values -/

/-- Ends the line. -/
def endLine (text : List Char) : List Char :=
  if text.getLast?.any isBreak then text else text ++ ['\n']

/-- A key that can stand on one line with its colon: it has no line breaks and at most 128 bytes. -/
def isShortKey : Value → Bool
  | .scalar _ _ text => text.toList.all (!isBreak ·) && text.utf8ByteSize ≤ 128
  | _ => false

/-- Writes a short key. -/
def writeShortKey (indent : Nat) : Value → List Char
  | .scalar _ style text =>
    let asked := if text.isEmpty then .singleQuoted else style
    writeScalar (indent + indentStep) text.toList (asked.fitTo text.toList)
  | _ => []

mutual

/-- Writes a value behind a mark that is indented by `indent`.  With `hanging`, a block begins on the
line of the mark. -/
def writeAfterMark (indent : Nat) (hanging : Bool) : Value → List Char
  | .scalar _ style text =>
    let written := writeScalar (indent + indentStep) text.toList (style.fitTo text.toList)
    if written.isEmpty then ['\n'] else ' ' :: endLine written
  | .sequence _ items =>
    if items.isEmpty then " []\n".toList
    else if hanging then ' ' :: (writeItems (indent + indentStep) items).drop (indent + indentStep)
    else '\n' :: writeItems indent items
  | .mapping _ entries =>
    if entries.isEmpty then " \x7b\x7d\n".toList
    else
      let written := writeEntries (indent + indentStep) entries
      if hanging then ' ' :: written.drop (indent + indentStep) else '\n' :: written
  | .endless => ['\n']

/-- Writes the elements of a sequence. -/
def writeItems (indent : Nat) : List Value → List Char
  | [] => []
  | item :: items =>
    spaces indent ++ '-' :: writeAfterMark indent true item ++ writeItems indent items

/-- Writes the entries of a mapping. -/
def writeEntries (indent : Nat) : List (Value × Value) → List Char
  | [] => []
  | entry :: entries => writeEntry indent entry ++ writeEntries indent entries

/-- Writes an entry of a mapping. -/
def writeEntry (indent : Nat) : Value × Value → List Char
  | (key, item) =>
    if isShortKey key then
      spaces indent ++ writeShortKey indent key ++ ':' :: writeAfterMark indent false item
    else
      spaces indent ++ '?' :: writeAfterMark indent true key ++
        spaces indent ++ ':' :: writeAfterMark indent true item

end

/-- Ends a document.  Where its last block keeps empty lines, a mark shows that they are part of it. -/
def endDocument (text : List Char) : List Char :=
  if (text.reverse.take 2).length = 2 ∧ (text.reverse.take 2).all isBreak then text ++ "...\n".toList
  else text

/-- Writes a document. -/
def Value.write : Value → List Char
  | .mapping _ entries =>
    if entries.isEmpty then "\x7b\x7d\n".toList else endDocument (writeEntries 0 entries)
  | v => endDocument ((writeAfterMark 0 false v).drop 1)

/-- The value of a text.  It asks for quotes where it would stand for something else than itself, and
for a block of lines if it has several. -/
def Value.ofString (text : String) : Value :=
  let cs := text.toList
  .scalar none
    (if cs.contains '\n' then .literal
      else if Meaning.ofText cs == .text && !isPaddedNumber cs then .plain
      else .singleQuoted)
    text

/-- The value that is written plain, such as a number. -/
def Value.ofPlain (text : String) : Value :=
  .scalar none .plain text

/-- A mapping with texts as its keys. -/
def Value.record (fields : List (String × Value)) : Value :=
  .mapping none (fields.map fun field => (.ofString field.1, field.2))

/-- A sequence of texts. -/
def Value.ofStrings (texts : List String) : Value :=
  .sequence none (texts.map .ofString)

end ChangeQuery.Yaml
