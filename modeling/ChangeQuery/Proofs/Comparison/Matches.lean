import ChangeQuery.Comparison
import ChangeQuery.Proofs.Tree.Labels

/-!
## When a candidate matches

The answer of a comparison does not depend on what was recorded before.  `Comparison.Matches` is the
answer alone, and `matches_iff` says what it rests on, one query node at a time: the condition of a
placeholder, or the comparison of the children with their counterparts.

* `fst_compare`: the trace does not influence the answer.
* `matches_iff`: the answer at a node, from the answers at its children.
* `changesMatch_iff`: two changes match if their old sides and their new sides do.
-/

namespace ChangeQuery.Comparison

open Placeholder (Table)

variable {table : Table}

/-- The candidate matches the query. -/
def Matches (table : Table) (query : Node) (candidate : Site) : Prop :=
  (compare table query candidate {}).1 = true

/-- Comparing children one by one, with the answers that the comparisons give. -/
theorem fst_compareEach {answer : Node → Site → Bool} {queries : List Node}
    (h : ∀ q ∈ queries, ∀ candidate trace,
      (compare table q candidate trace).1 = answer q candidate) :
    ∀ (index : ℕ) (candidates : List Site) (trace : Trace),
      (compareEach table index queries candidates trace).1.isNone =
        (queries.zip candidates).all fun pair => answer pair.1 pair.2 := by
  induction queries with
  | nil =>
    intro index candidates trace
    rw [compareEach]
    · rfl
    · exact fun _ _ _ _ h => nomatch h
  | cons q queries ih =>
    intro index candidates trace
    cases candidates with
    | nil =>
      rw [compareEach]
      · rfl
      · exact fun _ _ _ _ _ h => nomatch h
    | cons candidate candidates =>
      have hq := h q List.mem_cons_self candidate trace
      have hrest := ih (fun q hq => h q (List.mem_cons_of_mem _ hq))
      rw [compareEach, List.zip_cons_cons, List.all_cons, ← hq]
      -- A child that does not match decides, and the others are not looked at.
      cases compare table q candidate trace with
      | mk outcome trace =>
        cases outcome with
        | false => rfl
        | true =>
          rw [Bool.true_and]
          exact hrest _ _ _

/-- The answer at a node, from the answers of the children. -/
def answerAt (table : Table) (answer : Node → Site → Bool) : Node → Site → Bool
  | .node entry children, candidate =>
    match table.kind (.node entry children) with
    | .wildcard => true
    | .empty => table.isEmptySide candidate
    | .bare name | .numbered name _ => table.ruleHolds name candidate
    | .plain =>
      if children.isEmpty then
        candidate.node.isLeaf && Node.sameCategory (.node entry children) candidate.node &&
          Node.label (.node entry children) == candidate.node.label
      else
        Node.sameCategory (.node entry children) candidate.node &&
          (children.length == candidate.node.children.length &&
            (children.zip candidate.children).all fun pair => answer pair.1 pair.2)

theorem fst_compare_node {answer : Node → Site → Bool} {entry : Entry} {children : List Node}
    (h : ∀ q ∈ children, ∀ candidate trace,
      (compare table q candidate trace).1 = answer q candidate) (candidate : Site)
    (trace : Trace) : (compare table (.node entry children) candidate trace).1 =
      answerAt table answer (.node entry children) candidate := by
  rw [compare, answerAt]
  cases table.kind (.node entry children) with
  | wildcard => rfl
  | empty => rfl
  | bare name => rfl
  | numbered name variant => rfl
  | plain =>
    by_cases hempty : children.isEmpty = true
    · rw [if_pos hempty, if_pos hempty]
    rw [if_neg hempty, if_neg hempty]
    cases hsame : Node.sameCategory (.node entry children) candidate.node with
    | false => rfl
    | true =>
      have heach := fst_compareEach h 0 candidate.children trace
      by_cases hlength : children.length = candidate.node.children.length
      · rw [← heach]
        simp only [Bool.false_eq_true, if_false, Bool.not_true, hlength, ne_eq,
          not_true_eq_false, BEq.rfl, Bool.true_and]
        cases compareEach table 0 children candidate.children trace with
        | mk index? trace => cases index? <;> rfl
      · simp [hlength]

/-- **The trace does not influence the answer**. -/
theorem fst_compare (query : Node) : ∀ (candidate : Site) (trace : Trace),
    (compare table query candidate trace).1 = (compare table query candidate {}).1 := by
  induction query using Rose.induct with
  | node entry children ih =>
    intro candidate trace
    rw [fst_compare_node ih, fst_compare_node ih]

/-- **When a candidate matches**: the kind of the query node decides, and at plain nodes with
children, the children do. -/
theorem matches_iff {query : Node} {candidate : Site} :
    Matches table query candidate ↔
      match table.kind query with
      | .wildcard => True
      | .empty => table.isEmptySide candidate = true
      | .bare name | .numbered name _ => table.ruleHolds name candidate = true
      | .plain =>
        if query.children = [] then
          candidate.node.children = [] ∧ query.sameCategory candidate.node = true ∧
            query.label = candidate.node.label
        else
          query.sameCategory candidate.node = true ∧
            query.children.length = candidate.node.children.length ∧
            ∀ pair ∈ query.children.zip candidate.node.children,
              Matches table pair.1 ⟨pair.2, some candidate.node⟩ := by
  obtain ⟨entry, children⟩ := query
  have hanswer : Matches table (.node entry children) candidate ↔
      answerAt table (fun q c => (compare table q c {}).1) (.node entry children) candidate =
        true := by
    rw [Matches, fst_compare_node fun q _ => fst_compare q]
  rw [hanswer, answerAt]
  -- The kinds are the cases of both sides.
  cases table.kind (.node entry children) with
  | wildcard => exact ⟨fun _ => trivial, fun _ => rfl⟩
  | empty => exact Iff.rfl
  | bare name => exact Iff.rfl
  | numbered name variant => exact Iff.rfl
  | plain =>
    have heach : ((children.zip candidate.children).all fun pair =>
        (compare table pair.1 pair.2 {}).1) = true ↔
        ∀ pair ∈ children.zip candidate.node.children,
          Matches table pair.1 ⟨pair.2, some candidate.node⟩ := by
      rw [Site.children, List.zip_map_right, List.all_map, List.all_eq_true]
      exact Iff.rfl
    by_cases hnil : children = []
    · simp [hnil, Rose.isLeaf, and_assoc]
    · rw [Rose.children_node]
      rw [if_neg (by rw [List.isEmpty_iff]; exact hnil), if_neg hnil, Bool.and_eq_true,
        Bool.and_eq_true, beq_iff_eq, heach]

/-- **Two changes match** if their old sides and their new sides do. -/
theorem changesMatch_iff {query candidate : Change} :
    changesMatch table query candidate = true ↔
      Matches table query.old.node candidate.old ∧
        Matches table query.new.node candidate.new := by
  unfold changesMatch compareChanges Matches
  cases hold : compare table query.old.node candidate.old {} with
  | mk outcome trace =>
    cases outcome with
    | false => exact ⟨nofun, nofun⟩
    | true =>
      dsimp only
      rw [fst_compare]
      exact ⟨fun h => ⟨rfl, h⟩, fun h => h.2⟩

end ChangeQuery.Comparison
