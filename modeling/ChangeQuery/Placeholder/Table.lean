import ChangeQuery.Placeholder.Kind

/-!
## Placeholder tables

Each placeholder name has a `Rule`: a condition on the candidate node that the placeholder is
compared with, and how many tokens it may stand for.  A `Table` holds the names, one rule for each of
them, and the construct that the marker of an empty side stands for.

`Table.build` refuses names that could not be told apart from variants or layout, and names without
a rule; the first such name in the given order is reported.
-/

namespace ChangeQuery.Placeholder

/-- What a candidate node must fulfil to match a placeholder. -/
inductive Condition where
  /-- The node stands directly below a node with one of the labels. -/
  | below (labels : List String)
  /-- The node has no children. -/
  | childless
  /-- The node has one of the labels. -/
  | labelled (labels : List String)
  deriving DecidableEq, Repr

/-- The condition holds of the node at a site. -/
def Condition.holds : Condition → Site → Bool
  | below labels, site => site.parent?.any fun parent => labels.contains (Node.label parent)
  | childless, site => site.node.isLeaf
  | labelled labels, site => labels.contains site.node.label

/-- How many tokens of the candidate a placeholder covers. -/
inductive Span where
  /-- Exactly one token. -/
  | single
  /-- One token or more. -/
  | subtree
  deriving DecidableEq, Repr

/-- What a placeholder stands for. -/
structure Rule where
  condition : Condition
  span : Span := .single
  deriving DecidableEq, Repr

/-- Rules by name, in ascending order of the names, each name once. -/
structure RuleBook where
  entries : List (String × Rule) := []
  deriving DecidableEq, Repr

namespace RuleBook

/-- Puts a rule in its place among entries in ascending order; an earlier rule for the name goes. -/
def insertEntry (name : String) (rule : Rule) : List (String × Rule) → List (String × Rule)
  | [] => [(name, rule)]
  | (other, otherRule) :: entries =>
    if name < other then (name, rule) :: (other, otherRule) :: entries
    else if name = other then (name, rule) :: entries
    else (other, otherRule) :: insertEntry name rule entries

/-- Adds a rule, or replaces the rule that the name has. -/
def insert (book : RuleBook) (name : String) (rule : Rule) : RuleBook :=
  ⟨insertEntry name rule book.entries⟩

/-- Adds rules in the given order. -/
def ofList (rules : List (String × Rule)) : RuleBook :=
  rules.foldl (fun book entry => book.insert entry.1 entry.2) {}

/-- The rule of a name. -/
def rule? (book : RuleBook) (name : String) : Option Rule :=
  book.entries.lookup name

/-- The rules of the built-in placeholders: `LT` stands for the token of a literal, `ID` for any
childless node, `binOP` and `OP` for an operator node, `EXPR` for an expression. -/
def default : RuleBook :=
  ofList
    [("LT", ⟨.below ["literal"], .single⟩),
     ("ID", ⟨.childless, .single⟩),
     ("binOP", ⟨.labelled ["binary_operators"], .single⟩),
     ("OP", ⟨.labelled ["binary_operators", "assign_operators"], .single⟩),
     ("EXPR", ⟨.labelled ["expression"], .subtree⟩)]

end RuleBook

/-- Why a list of names is refused. -/
inductive TableError where
  /-- The name is empty or holds `<`, `>` or a blank. -/
  | invalidName (name : String)
  /-- The name has no rule. -/
  | unknownName (name : String)
  deriving DecidableEq, Repr

/-- The wording of the cause. -/
def TableError.message : TableError → String
  | invalidName name => "invalid placeholder name \x60" ++ name ++ "\x60"
  | unknownName name =>
    "unknown placeholder kind \x60" ++ name ++ "\x60: no matching rule is configured"

/-- The construct that the marker of an empty side stands for unless configured otherwise. -/
def defaultEmptyLabel : String := "multipleStatements"

/-- Names of placeholders with a rule for each of them. -/
structure Table where
  names : Names
  rules : RuleBook
  emptyLabel : String
  deriving DecidableEq, Repr

namespace Table

/-- The name can be used for a placeholder. -/
def isValidName (name : String) : Bool :=
  name ≠ "" && name.toList.all fun c => c != '<' && c != '>' && !Text.isBlank c

/-- Looks up the rules of the names in order and stops at the first that is refused. -/
def selectRules (book : RuleBook) : List String → Except TableError (List (String × Rule))
  | [] => .ok []
  | name :: names =>
    if !isValidName name then .error (.invalidName name)
    else match book.rule? name with
      | none => .error (.unknownName name)
      | some rule => (selectRules book names).map fun rules => (name, rule) :: rules

/-- The table for the given names.  Rules for other names are left out. -/
def build (names : List String) (book : RuleBook) (emptyLabel : String) : Except TableError Table :=
  (selectRules book names).map fun rules => ⟨Names.ofList names, RuleBook.ofList rules, emptyLabel⟩

/-- The table of the built-in placeholders. -/
def default : Table :=
  ⟨Names.default, RuleBook.default, defaultEmptyLabel⟩

/-- The rule of a name. -/
def rule? (table : Table) (name : String) : Option Rule :=
  table.rules.rule? name

/-- The kind of a query node. -/
def kind (table : Table) (query : Node) : Kind :=
  kindOfNode table.names query

/-- The candidate fulfils the rule of the name. -/
def ruleHolds (table : Table) (name : String) (candidate : Site) : Bool :=
  (table.rule? name).any fun rule => rule.condition.holds candidate

/-- The query node is a placeholder and the candidate fulfils its rule. -/
def matchesPlaceholder (table : Table) (query : Node) (candidate : Site) : Bool :=
  (table.kind query).name?.any fun name => table.ruleHolds name candidate

/-- The candidate is what the marker of an empty side stands for. -/
def isEmptySide (table : Table) (candidate : Site) : Bool :=
  candidate.node.isLeaf && candidate.node.label == table.emptyLabel

/-- The query node is the marker of an empty side and the candidate is such a side. -/
def matchesEmpty (table : Table) (query : Node) (candidate : Site) : Bool :=
  table.kind query == .empty && table.isEmptySide candidate

example :
    (build Names.default.toList RuleBook.default defaultEmptyLabel).toOption = some default := by
  decide

end Table

end ChangeQuery.Placeholder
