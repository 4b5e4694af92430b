import ChangeQuery.Tree

/-!
## Changes

A change is a syntax tree whose root has the old side, a delimiter token and the new side among its
children.  Children that only carry layout are passed over.

The tokens of a change are split in a second way, without regard to the tree: `TokenSides` takes all
tokens of the root that are not layout and cuts the list at the first delimiter.
-/

namespace ChangeQuery

/-- The delimiter that stands between the sides unless another one is configured. -/
def defaultDelimiter : String := "->"

/-- The two sides of a change. -/
inductive Side where
  | old
  | new
  deriving DecidableEq, Repr

/-- The name of a side in messages. -/
def Side.name : Side → String
  | old => "old"
  | new => "new"

/-- Why a text is not a change. -/
inductive ParseError where
  /-- The text does not follow the grammar. -/
  | malformed
  /-- The tree has no root. -/
  | noTree
  /-- No child of the root is the delimiter token. -/
  | missingDelimiter (delimiter : String)
  /-- The delimiter has nothing before or nothing after it. -/
  | missingSide (side : Side)
  deriving DecidableEq, Repr

/-- The wording of the cause; a malformed text has none of its own. -/
def ParseError.message? : ParseError → Option String
  | malformed => none
  | noTree => some "parser produced no tree"
  | missingDelimiter delimiter => some ("change has no \x60" ++ delimiter ++ "\x60 delimiter")
  | missingSide side => some ("change has no " ++ side.name ++ " side")

/-- A syntax tree with the two sides found in it. -/
structure Change where
  tree : Tree
  old : Site
  new : Site

namespace Change

/-- Finds the sides around the first delimiter among the children of the root: the child before it
is the old side, the child after it the new side. -/
def ofTree (tree : Tree) (delimiter : String) : Except ParseError Change :=
  match tree.root? with
  | none => .error .noTree
  | some root =>
    let significant := (Site.mk root none).children.filter fun site => !site.node.isFormatting
    let isDelimiter := fun site : Site => site.node.isToken && site.node.label == delimiter
    match significant.span fun site => !isDelimiter site with
    | (_, []) => .error (.missingDelimiter delimiter)
    | (before, _ :: after) =>
      match before.getLast?, after.head? with
      | none, _ => .error (.missingSide .old)
      | some _, none => .error (.missingSide .new)
      | some old, some new => .ok ⟨tree, old, new⟩

end Change

/-- The token texts of the two sides of a change. -/
structure TokenSides where
  old : List String
  new : List String
  deriving DecidableEq, Repr

namespace TokenSides

/-- Cuts a list of token texts at the first delimiter; without one, all tokens are old. -/
def ofTexts (delimiter : String) (texts : List String) : TokenSides :=
  let (before, rest) := texts.span fun text => text != delimiter
  ⟨before, rest.drop 1⟩

/-- The texts of the tokens of a tree that are not layout, in order. -/
def significantTexts (tree : Tree) : List String :=
  match tree.root? with
  | none => []
  | some root => (root.tokens.filter fun token => !token.isFormatting).map Node.label

/-- The token texts of a tree, cut at the first delimiter. -/
def ofTree (tree : Tree) (delimiter : String) : TokenSides :=
  ofTexts delimiter (significantTexts tree)

/-- Both sides have the same tokens. -/
def unchanged (sides : TokenSides) : Bool :=
  sides.old == sides.new

end TokenSides

end ChangeQuery
