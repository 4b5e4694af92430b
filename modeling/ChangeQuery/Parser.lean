import ChangeQuery.Change
import ChangeQuery.ChangeGrammar
import ChangeQuery.SExpr

/-!
## Parsers

A `Parser` turns a text into a tree of labels, or into no tree at all.  It also says which language
it reads and which token separates the sides of its changes.

`Parser.tree` numbers the tree and enters its constructs into a vocabulary; `Parser.change` splits it
into two sides as well.  A text that is refused leaves the vocabulary as it was.
-/

namespace ChangeQuery

/-- What reads texts of one language. -/
structure Parser where
  language : String
  delimiter : String
  /-- The tree of a text.  A text can also be read without giving a tree. -/
  read : String → Except ParseError (Option (Rose Label))

namespace Parser

/-- Reads changes of statements in a Java-like language. -/
def java : Parser where
  language := "java"
  delimiter := defaultDelimiter
  read source :=
    match ChangeGrammar.read? source with
    | some labels => .ok (some labels)
    | none => .error .malformed

/-- Reads s-expressions, with a delimiter of one's choice. -/
def sexpr (delimiter : String) : Parser where
  language := "sexpr"
  delimiter := delimiter
  read source :=
    match SExpr.read? source with
    | some labels => .ok (some labels)
    | none => .error .malformed

/-- Reads every text and gives no tree. -/
def empty : Parser where
  language := "empty"
  delimiter := defaultDelimiter
  read _ := .ok none

/-- The syntax tree of a text, over a vocabulary that grows with it. -/
def tree (p : Parser) (v : Vocabulary) (source : String) : Except ParseError (Vocabulary × Tree) :=
  (p.read source).map fun
    | none => (v, Tree.empty)
    | some labels => Tree.ofLabels v labels

/-- The change that a text is, split at `delimiter`. -/
def change (p : Parser) (v : Vocabulary) (source delimiter : String) :
    Except ParseError (Vocabulary × Change) :=
  match p.tree v source with
  | .error e => .error e
  | .ok (v, tree) => (Change.ofTree tree delimiter).map fun change => (v, change)

end Parser

end ChangeQuery
