import ChangeQuery.Tree
import ChangeQuery.Text.Split

/-!
## Kinds of query tokens

A token of a query is the wildcard `<...>`, the marker `_` of an empty side, a placeholder, or plain
code.  A placeholder is one of the configured names, bare (`ID`) or numbered (`ID<1>`).

A numbered placeholder takes the longest configured name that the text starts with before its first
`<`; what stands between that `<` and the final `>` is its variant.
-/

namespace ChangeQuery.Placeholder

/-- The query text that stands for any candidate. -/
def wildcardText : String := "<...>"

/-- The query token that stands for an empty side. -/
def emptyText : String := "_"

/-- What a query token stands for. -/
inductive Kind where
  | wildcard
  | empty
  | bare (name : String)
  | numbered (name variant : String)
  | plain
  deriving DecidableEq, Repr

/-- The name of a placeholder, bare or numbered. -/
def Kind.name? : Kind → Option String
  | bare name => some name
  | numbered name _ => some name
  | _ => none

/-- The order in which names are tried: more bytes first, then by code points. -/
def namePrecedes (a b : String) : Bool :=
  b.utf8ByteSize < a.utf8ByteSize || (a.utf8ByteSize == b.utf8ByteSize && a < b)

/-- The names of placeholders, each once, longer names first. -/
structure Names where
  toList : List String
  deriving DecidableEq, Repr

namespace Names

/-- Puts a name in its place, unless it is there already. -/
def insertName (name : String) : List String → List String
  | [] => [name]
  | other :: names =>
    if name = other then other :: names
    else if namePrecedes name other then name :: other :: names
    else other :: insertName name names

/-- The given names in the order they are tried, without repetitions. -/
def ofList (names : List String) : Names :=
  ⟨names.foldr insertName []⟩

/-- The number of names. -/
def size (names : Names) : Nat :=
  names.toList.length

/-- The names of the built-in placeholders. -/
def default : Names :=
  ofList ["LT", "ID", "binOP", "OP", "EXPR"]

end Names

/-- The kind of a token that is no wildcard, marker or bare name. -/
def numberedKind (names : Names) (text : List Char) : Kind :=
  match Text.splitFirst? ['<'] text with
  | none => .plain
  | some (before, after) =>
    if after.getLast? = some '>' then
      match names.toList.find? fun name => name.toList.isPrefixOf before with
      | some name => .numbered name (String.ofList after.dropLast)
      | none => .plain
    else .plain

/-- The kind of a token with the given text. -/
def kindOfText (names : Names) (text : String) : Kind :=
  if text = wildcardText then .wildcard
  else if text = emptyText then .empty
  else if text ∈ names.toList then .bare text
  else numberedKind names text.toList

/-- The kind of a query node.  Any node whose tokens make up `<...>` is a wildcard; apart from that,
only a childless token is more than plain code. -/
def kindOfNode (names : Names) (n : Node) : Kind :=
  if n.textIs wildcardText then .wildcard
  else if n.isLeaf && n.isToken then kindOfText names n.label
  else .plain

example : Names.default.toList = ["binOP", "EXPR", "ID", "LT", "OP"] := by decide
example : kindOfText .default "binOP<x>" = .numbered "binOP" "x" := by decide

end ChangeQuery.Placeholder
