import ChangeQuery.Change
import ChangeQuery.Placeholder.Table
import ChangeQuery.Text.Quoted

/-!
## Comparing trees

A query tree is compared with a candidate tree from the root down, in one pass and without going
back.  The kind of the query node decides each step:

* a wildcard matches any candidate;
* the marker of an empty side and the placeholders are decided by the placeholder table;
* a childless plain node must be repeated by a childless candidate;
* any other node needs a candidate of the same category with as many children, and every child must
  match its counterpart; the first child that does not match decides.

Every decision is recorded in a `Trace` after the decisions it rests on.
-/

namespace ChangeQuery

/-- Why two nodes match or do not match. -/
inductive Reason where
  | wildcard
  | empty
  | placeholder
  /-- Childless nodes were compared by their labels. -/
  | literal
  | categoryMismatch
  | arityMismatch
  /-- The child at this position did not match. -/
  | childMismatch (index : Nat)
  /-- All children matched. -/
  | matched
  deriving DecidableEq, Repr

/-- The outcome of comparing the query node `query` with the candidate node `candidate`. -/
structure Decision where
  query : Nat
  candidate : Nat
  outcome : Bool
  reason : Reason
  deriving DecidableEq, Repr

/-- Decisions in the order in which they were made. -/
structure Trace where
  decisions : Array Decision := #[]
  deriving DecidableEq, Repr

namespace Trace

/-- Adds a decision at the end. -/
def record (t : Trace) (d : Decision) : Trace :=
  ⟨t.decisions.push d⟩

/-- The number of decisions. -/
def size (t : Trace) : Nat :=
  t.decisions.size

/-- The decisions that went against a match. -/
def failures (t : Trace) : List Decision :=
  t.decisions.toList.filter fun d => !d.outcome

end Trace

namespace Comparison

open Placeholder (Table)

mutual
/-- Whether the candidate matches the query, and the trace with the decisions added. -/
def compare (table : Table) : Node → Site → Trace → Bool × Trace
  | .node entry children, candidate, trace =>
    let query : Node := .node entry children
    let answer : (Bool × Reason) × Trace :=
      match table.kind query with
      | .wildcard => ((true, .wildcard), trace)
      | .empty => ((table.isEmptySide candidate, .empty), trace)
      | .bare name => ((table.ruleHolds name candidate, .placeholder), trace)
      | .numbered name _ => ((table.ruleHolds name candidate, .placeholder), trace)
      | .plain =>
        if children.isEmpty then
          ((candidate.node.isLeaf && query.sameCategory candidate.node &&
            query.label == candidate.node.label, .literal), trace)
        else if !query.sameCategory candidate.node then ((false, .categoryMismatch), trace)
        else if children.length ≠ candidate.node.children.length then
          ((false, .arityMismatch), trace)
        else
          match compareEach table 0 children candidate.children trace with
          | (none, trace) => ((true, .matched), trace)
          | (some index, trace) => ((false, .childMismatch index), trace)
    let ((outcome, reason), trace) := answer
    (outcome, trace.record ⟨query.id, candidate.node.id, outcome, reason⟩)
/-- Compares children with their counterparts until one does not match; `index` counts the children
passed so far.  The position of the child that does not match is returned. -/
def compareEach (table : Table) (index : Nat) :
    List Node → List Site → Trace → Option Nat × Trace
  | query :: queries, candidate :: candidates, trace =>
    match compare table query candidate trace with
    | (true, trace) => compareEach table (index + 1) queries candidates trace
    | (false, trace) => (some index, trace)
  | _, _, trace => (none, trace)
end

/-- Compares the old sides of two changes and, if they match, the new sides. -/
def compareChanges (table : Table) (query candidate : Change) (trace : Trace) : Bool × Trace :=
  match compare table query.old.node candidate.old trace with
  | (true, trace) => compare table query.new.node candidate.new trace
  | (false, trace) => (false, trace)

/-- The two changes match on both sides. -/
def changesMatch (table : Table) (query candidate : Change) : Bool :=
  (compareChanges table query candidate {}).1

end Comparison

/-! ### Reports -/

/-- The name of a reason in reports. -/
def Reason.name : Reason → String
  | wildcard => "Wildcard"
  | empty => "Empty"
  | placeholder => "Placeholder"
  | literal => "Literal"
  | categoryMismatch => "CategoryMismatch"
  | arityMismatch => "ArityMismatch"
  | childMismatch _ => "ChildMismatch"
  | matched => "Matched"

/-- A reason with the position it refers to. -/
def Reason.describe : Reason → String
  | childMismatch index => "ChildMismatch(" ++ toString index ++ ")"
  | reason => reason.name

namespace Trace

/-- The quoted label of a numbered node; a number that is not in the tree has the empty label. -/
def quotedLabel (tree : Tree) (id : Nat) : String :=
  Text.quote (((tree.site? id).map fun site => site.node.label).getD "")

/-- The line of a report on one decision. -/
def line (query candidate : Tree) (d : Decision) : String :=
  (if d.outcome then "ok   " else "FAIL ") ++ d.reason.describe ++ " query#" ++ toString d.query ++
    " " ++ quotedLabel query d.query ++ " ~ candidate#" ++ toString d.candidate ++ " " ++
    quotedLabel candidate d.candidate ++ "\n"

/-- A line for each decision, with the labels of the nodes in both trees. -/
def report (t : Trace) (query candidate : Tree) : String :=
  String.join (t.decisions.toList.map (line query candidate))

end Trace

end ChangeQuery
