import ChangeQuery.Tree

/-!
## S-expressions

The written form of a tree of labels: `(call (name foo) "(" ")")` is a `call` construct above a
`name` construct and two tokens.  An atom is a bare word or stands in double quotes, where a
backslash takes the next character as it is.

Reading goes in two steps: `lex` cuts the text into brackets and atoms, `assemble` builds the tree.
Exactly one tree must be written, and every group starts with the atom that names its construct.

`write` quotes an atom when it is empty or holds a blank, a bracket, a quote or a backslash.  Tokens
are written without what hangs below them.
-/

namespace ChangeQuery.SExpr

/-- The pieces of a written tree. -/
inductive Lexeme where
  | opening
  | closing
  | atom (text : List Char)
  deriving DecidableEq, Repr

/-- Where a reader stands within the text.  Collected characters are in reverse order. -/
inductive Position where
  /-- Outside quotes, with the bare word read so far. -/
  | outside (word : List Char)
  /-- Between quotes, with the text read so far. -/
  | quoted (text : List Char)
  /-- Directly after a backslash between quotes. -/
  | escaped (text : List Char)
  deriving DecidableEq, Repr

/-- The characters that may stand between two pieces. -/
def isGap (c : Char) : Bool :=
  c == ' ' || c == '\t' || c == '\r' || c == '\n'

/-- Puts a finished bare word in front of the pieces that follow it. -/
def closeWord (word : List Char) (lexemes : List Lexeme) : List Lexeme :=
  if word.isEmpty then lexemes else .atom word.reverse :: lexemes

/-- Cuts a text into brackets and atoms; a quote that is left open is refused. -/
def lexFrom : Position → List Char → Option (List Lexeme)
  | .outside word, [] => some (closeWord word [])
  | .quoted _, [] => none
  | .escaped _, [] => none
  | .outside word, c :: cs =>
    if isGap c then (lexFrom (.outside []) cs).map (closeWord word)
    else if c = '(' then (lexFrom (.outside []) cs).map fun rest => closeWord word (.opening :: rest)
    else if c = ')' then (lexFrom (.outside []) cs).map fun rest => closeWord word (.closing :: rest)
    else if c = '"' then (lexFrom (.quoted []) cs).map (closeWord word)
    else lexFrom (.outside (c :: word)) cs
  | .quoted text, c :: cs =>
    if c = '"' then (lexFrom (.outside []) cs).map (.atom text.reverse :: ·)
    else if c = '\\' then lexFrom (.escaped text) cs
    else lexFrom (.quoted (c :: text)) cs
  | .escaped text, c :: cs => lexFrom (.quoted (c :: text)) cs

/-- The brackets and atoms of a text. -/
def lex (cs : List Char) : Option (List Lexeme) :=
  lexFrom (.outside []) cs

/-- A group whose closing bracket is still to come, with the children so far in reverse order. -/
structure OpenGroup where
  name : List Char
  children : List (Rose Label)

namespace OpenGroup

/-- Adds a child at the end. -/
def push (g : OpenGroup) (child : Rose Label) : OpenGroup :=
  { g with children := child :: g.children }

/-- The construct that the group stands for. -/
def close (g : OpenGroup) : Rose Label :=
  .node (.construct (String.ofList g.name)) g.children.reverse

end OpenGroup

/-- The token that an atom stands for. -/
def tokenOf (text : List Char) : Rose Label :=
  .leaf (.token (String.ofList text))

/-- Builds a tree from pieces; the groups still open are given from the innermost outwards. -/
def assemble : List OpenGroup → List Lexeme → Option (Rose Label)
  | groups, .opening :: .atom name :: rest => assemble (⟨name, []⟩ :: groups) rest
  | [], [.atom text] => some (tokenOf text)
  | group :: groups, .atom text :: rest => assemble (group.push (tokenOf text) :: groups) rest
  | [group], [.closing] => some group.close
  | inner :: outer :: groups, .closing :: rest => assemble (outer.push inner.close :: groups) rest
  | _, _ => none

/-- The tree that a text writes, if it writes exactly one. -/
def read? (text : String) : Option (Rose Label) :=
  (lex text.toList).bind (assemble [])

/-! ### Writing -/

/-- The text can stand as a bare word. -/
def isBare (text : List Char) : Bool :=
  !text.isEmpty &&
    text.all fun c => !(Text.isBlank c || c == '(' || c == ')' || c == '"' || c == '\\')

/-- Puts a backslash in front of quotes and backslashes. -/
def escape : List Char → List Char
  | [] => []
  | c :: cs => if c = '"' ∨ c = '\\' then '\\' :: c :: escape cs else c :: escape cs

/-- An atom, in quotes where it needs them. -/
def writeAtom (text : String) : List Char :=
  if isBare text.toList then text.toList else '"' :: escape text.toList ++ ['"']

mutual
/-- The characters of a written tree. -/
def writeChars : Rose Label → List Char
  | .node (.token text) _ => writeAtom text
  | .node (.construct name) children => '(' :: writeAtom name ++ writeEach children ++ [')']
/-- The characters of trees written one after another, a space before each. -/
def writeEach : List (Rose Label) → List Char
  | [] => []
  | child :: children => ' ' :: writeChars child ++ writeEach children
end

/-- The written form of a tree of labels. -/
def write (t : Rose Label) : String :=
  String.ofList (writeChars t)

end ChangeQuery.SExpr

namespace ChangeQuery

/-- The written form of a syntax tree; the empty tree has the empty text. -/
def Tree.toSExpr (t : Tree) : String :=
  match t.root? with
  | none => ""
  | some root => SExpr.write root.labels

end ChangeQuery
