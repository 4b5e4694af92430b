import ChangeQuery.Rose
import ChangeQuery.Vocabulary
import ChangeQuery.Text.Blank

/-!
## Syntax trees

A syntax tree is a rose tree whose nodes carry a number and a category.  The category is a construct
of the grammar, held as a symbol of a vocabulary, or a token, held as its text.

Trees come about in two ways.  `Tree.ofLabels` numbers a whole tree of labels in pre-order.
`Tree.add` appends one node at a time and refuses a second root and a parent that does not exist
yet; a refused node leaves the tree as it was.

A `Site` is a node together with the node above it, because a placeholder may ask for the construct
that its candidate stands in.
-/

namespace ChangeQuery

/-- What a node says: the name of a construct or the text of a token. -/
inductive Label where
  | construct (name : String)
  | token (text : String)
  deriving DecidableEq, Repr, Inhabited

/-- What a node is: a construct of the grammar or a token of the text. -/
inductive Category where
  | construct (symbol : Symbol)
  | token (text : String)
  deriving DecidableEq, Repr

/-- What is stored at a node of a syntax tree. -/
structure Entry where
  id : Nat
  category : Category
  deriving DecidableEq, Repr

/-- A node of a syntax tree with everything below it. -/
abbrev Node := Rose Entry

namespace Label

/-- The name of a construct or the text of a token. -/
def text : Label → String
  | construct name => name
  | token text => text

/-- The name of a construct. -/
def construct? : Label → Option String
  | construct name => some name
  | token _ => none

end Label

namespace Category

/-- The label of a category, without the vocabulary that its symbol belongs to. -/
def label : Category → Label
  | construct symbol => .construct symbol.name
  | token text => .token text

/-- The category is a token. -/
def isToken : Category → Bool
  | construct _ => false
  | token _ => true

/-- Constructs agree when their symbols do; all tokens count as one category. -/
def same : Category → Category → Bool
  | construct a, construct b => a.same b
  | token _, token _ => true
  | _, _ => false

end Category

namespace Vocabulary

/-- The category of a label. -/
def category (v : Vocabulary) : Label → Category
  | .construct name => .construct (v.symbol name)
  | .token text => .token text

end Vocabulary

/-! ### Nodes -/

namespace Node

/-- The number of a node within its tree. -/
def id (n : Node) : Nat :=
  n.value.id

/-- The category of a node. -/
def category (n : Node) : Category :=
  n.value.category

/-- The name of the construct or the text of the token. -/
def label (n : Node) : String :=
  n.category.label.text

/-- The node is a token. -/
def isToken (n : Node) : Bool :=
  n.category.isToken

/-- The nodes agree in construct, or are both tokens. -/
def sameCategory (a b : Node) : Bool :=
  a.category.same b.category

/-- The node is a token that only carries layout, such as a line break. -/
def isFormatting (n : Node) : Bool :=
  n.isToken && n.label.toList.all Text.isBlank

/-- The tree of labels below and at a node. -/
def labels (n : Node) : Rose Label :=
  n.map fun entry => entry.category.label

/-- The tokens at and below a node, in the order of the text. -/
def tokens (n : Node) : List Node :=
  n.preorder.filter isToken

/-- The texts of the tokens, one after another without separators. -/
def text (n : Node) : String :=
  String.join (n.tokens.map label)

/-- Takes texts off the front of `rest`, one after another. -/
def dropTexts? : List String → List Char → Option (List Char)
  | [], rest => some rest
  | text :: texts, rest => (text.toList.isPrefixOf? rest).bind (dropTexts? texts)

/-- The texts of the tokens make up `expected`.  They are compared one token at a time. -/
def textIs (n : Node) (expected : String) : Bool :=
  dropTexts? (n.tokens.map label) expected.toList == some []

mutual
/-- Puts `new` below the node with number `parent`, after the children it has. -/
def graft (parent : Nat) (new : Node) : Node → Node
  | .node entry children =>
    let children := graftAll parent new children
    .node entry (if entry.id = parent then children ++ [new] else children)
/-- Puts `new` below the node with number `parent` in every tree of the list. -/
def graftAll (parent : Nat) (new : Node) : List Node → List Node
  | [] => []
  | child :: children => graft parent new child :: graftAll parent new children
end

end Node

/-! ### Sites -/

/-- A node and the node above it; a root has none above it. -/
structure Site where
  node : Node
  parent? : Option Node := none

namespace Site

/-- The sites of the children. -/
def children (s : Site) : List Site :=
  s.node.children.map fun child => ⟨child, some s.node⟩

mutual
/-- The sites of a node below `parent?` and of everything below it, in pre-order. -/
def below (parent? : Option Node) : Node → List Site
  | .node entry children =>
    ⟨.node entry children, parent?⟩ :: belowAll (some (.node entry children)) children
/-- The sites of nodes with the common parent `parent?` and of everything below them. -/
def belowAll (parent? : Option Node) : List Node → List Site
  | [] => []
  | child :: children => below parent? child ++ belowAll parent? children
end

end Site

/-! ### Trees -/

/-- A syntax tree: its root, unless it is empty, and the number of its nodes. -/
structure Tree where
  root? : Option Node := none
  size : Nat := 0

/-- Why a node could not be appended. -/
inductive TreeError where
  /-- The parent asked for is not a node of a tree of `size` nodes. -/
  | unknownParent (parent size : Nat)
  /-- The tree has the root `root` already. -/
  | duplicateRoot (root : Nat)
  deriving DecidableEq, Repr

/-- The wording of the cause. -/
def TreeError.message : TreeError → String
  | unknownParent parent size => s!"parent node {parent} does not exist in a tree of {size} nodes"
  | duplicateRoot root => s!"tree already has a root (node {root})"

namespace Tree

/-- The tree without nodes. -/
def empty : Tree := {}

/-- The tree has no nodes. -/
def isEmpty (t : Tree) : Bool :=
  t.size == 0

/-- The sites of all nodes in pre-order. -/
def sites (t : Tree) : List Site :=
  match t.root? with
  | none => []
  | some root => Site.below none root

/-- The site of the node with number `id`. -/
def site? (t : Tree) (id : Nat) : Option Site :=
  t.sites.find? fun site => site.node.id == id

/-- Appends a childless node with the next free number: below `parent?`, or as the root. -/
def add (t : Tree) (category : Category) (parent? : Option Nat) : Except TreeError Tree :=
  let new : Node := .leaf ⟨t.size, category⟩
  match parent?, t.root? with
  | some parent, root? =>
    if parent < t.size then .ok ⟨root?.map (Node.graft parent new), t.size + 1⟩
    else .error (.unknownParent parent t.size)
  | none, some root => .error (.duplicateRoot root.id)
  | none, none => .ok ⟨some new, t.size + 1⟩

/-- Appends a token. -/
def addToken (t : Tree) (text : String) (parent? : Option Nat) : Except TreeError Tree :=
  t.add (.token text) parent?

/-- Appends a construct.  Its name enters the vocabulary whether the node is accepted or not. -/
def addConstruct (t : Tree) (v : Vocabulary) (name : String) (parent? : Option Nat) :
    Vocabulary × Except TreeError Tree :=
  let v := v.insert name
  (v, t.add (.construct (v.symbol name)) parent?)

/-- The names of the constructs of a tree of labels, in pre-order. -/
def constructNames (labels : Rose Label) : List String :=
  labels.values.filterMap Label.construct?

/-- Numbers a tree of labels in pre-order; the names of its constructs enter the vocabulary. -/
def ofLabels (v : Vocabulary) (labels : Rose Label) : Vocabulary × Tree :=
  let v := v.insertMany (constructNames labels)
  let root := (labels.number 0).map fun numbered => Entry.mk numbered.1 (v.category numbered.2)
  (v, ⟨some root, labels.size⟩)

end Tree

end ChangeQuery
