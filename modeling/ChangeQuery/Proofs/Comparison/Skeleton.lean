import ChangeQuery.Proofs.Change.Outline
import ChangeQuery.Proofs.Comparison.PlainQuery
import ChangeQuery.Proofs.Fingerprint.Labels

/-!
## Plain queries and fingerprints

The search drops candidates by their fingerprints before it compares them.  This cannot cost a match
of a query without placeholders: wherever the comparison goes down, both nodes are constructs of the
same name or both are tokens and they have as many children, so a candidate that matches has the
skeleton of the query and with it the same fingerprint.

Unlike equality of labels (`matches_iff_labels_eq`), equality of skeletons asks nothing about what
stands below the tokens.

* `skeleton_eq_of_matches`: the statement for nodes.
* `equal_structure_same_fingerprint`: trees of the same skeleton have the same fingerprint, and so
  do changes that match.
-/

namespace ChangeQuery

open Placeholder (Table)

theorem Label.construct?_eq_of_same {a b : Label} (h : a.same b = true) :
    a.construct? = b.construct? := by
  cases a <;> cases b <;> simp_all [same, construct?]

/-- The sides of a change from a tree are nodes over the vocabulary of the tree. -/
theorem Tree.Over.of_change {v : Vocabulary} {t : Tree} {delimiter : String} {c : Change}
    (h : t.Over v) (hof : Change.ofTree t delimiter = .ok c) :
    c.old.node.Over v ∧ c.new.node.Over v := by
  obtain ⟨root, hroot, hold, hnew⟩ := Change.mem_children_of_ofTree hof
  have hover : root.Over v := h root hroot
  exact ⟨hover.child hold, hover.child hnew⟩

/-- The sides of a change hold no placeholder. -/
def Change.IsPlain (table : Table) (c : Change) : Prop :=
  ∀ n ∈ c.old.node.preorder ++ c.new.node.preorder, table.kind n = .plain

instance (table : Table) (c : Change) : Decidable (c.IsPlain table) :=
  inferInstanceAs (Decidable (∀ n ∈ _, _))

namespace Comparison

variable {table : Table} {v w : Vocabulary}

/-- **What matches a plain query** has its skeleton. -/
theorem skeleton_eq_of_matches (hcompatible : v.Compatible w) (query : Node) :
    ∀ candidate : Site, query.Over v → candidate.node.Over w →
      (∀ n ∈ query.preorder, table.kind n = .plain) → Matches table query candidate →
        query.skeleton = candidate.node.skeleton := by
  induction query using Rose.induct with
  | node entry children ih =>
    intro candidate hquery hcandidate hplain hmatches
    rw [matches_iff, hplain _ (Rose.mem_preorder_self _)] at hmatches
    dsimp only at hmatches
    rw [Node.sameCategory_eq hcompatible hquery hcandidate, Rose.children_node] at hmatches
    rw [Node.skeleton_eq_iff, Rose.children_node]
    split_ifs at hmatches with hnil
    · obtain ⟨hnil', hsame, -⟩ := hmatches
      rw [hnil, hnil']
      exact ⟨Label.construct?_eq_of_same hsame, rfl⟩
    · obtain ⟨hsame, hlength, hall⟩ := hmatches
      refine ⟨Label.construct?_eq_of_same hsame, map_eq_map_iff_zip.mpr ⟨hlength, ?_⟩⟩
      intro pair hpair
      obtain ⟨hq, hc⟩ := List.of_mem_zip hpair
      exact ih pair.1 hq ⟨pair.2, some candidate.node⟩ (hquery.child hq) (hcandidate.child hc)
        (fun n hn => hplain n (Rose.mem_preorder_child hq hn)) (hall pair hpair)

/-- Changes that match have the same fingerprint if the query is plain. -/
theorem ofChange_eq_of_changesMatch (hcompatible : v.Compatible w) {query candidate : Change}
    (hquery : query.old.node.Over v ∧ query.new.node.Over v)
    (hcandidate : candidate.old.node.Over w ∧ candidate.new.node.Over w)
    (hplain : query.IsPlain table) (hmatch : changesMatch table query candidate = true)
    (b : Buckets) : Fingerprint.ofChange b query = Fingerprint.ofChange b candidate := by
  obtain ⟨hold, hnew⟩ := changesMatch_iff.mp hmatch
  refine Fingerprint.ofChange_eq_of_skeleton_eq b ?_ ?_
  · exact skeleton_eq_of_matches hcompatible _ candidate.old hquery.1 hcandidate.1
      (fun n hn => hplain n (List.mem_append_left _ hn)) hold
  · exact skeleton_eq_of_matches hcompatible _ candidate.new hquery.2 hcandidate.2
      (fun n hn => hplain n (List.mem_append_right _ hn)) hnew

/-- **Fingerprints cannot separate equal structure**.  Nodes with the same names of constructs in
the same places have the same hash and the same fingerprint, whatever their tokens, numbers and
vocabularies are.  So a change that matches a change without placeholders has its fingerprint, for
every table of placeholders and however both trees have grown. -/
theorem equal_structure_same_fingerprint :
    (∀ m n : Node, m.skeleton = n.skeleton →
      Fingerprint.subtreeHash m = Fingerprint.subtreeHash n ∧
      ∀ b, Fingerprint.ofNode b m = Fingerprint.ofNode b n) ∧
    ∀ (table : Table) (v w : Vocabulary) (t u : Tree) (delimiter delimiter' : String)
      (query candidate : Change), t.Grown v → u.Grown w → v.Compatible w →
      Change.ofTree t delimiter = .ok query → Change.ofTree u delimiter' = .ok candidate →
      query.IsPlain table → changesMatch table query candidate = true →
        ∀ b, Fingerprint.ofChange b query = Fingerprint.ofChange b candidate := by
  constructor
  · intro m n h
    exact ⟨Fingerprint.subtreeHash_eq_of_skeleton_eq m n h,
      fun b => Fingerprint.ofNode_eq_of_skeleton_eq b h⟩
  · intro table v w t u _ _ query candidate ht hu hcompatible hquery hcandidate hplain hmatch
    exact ofChange_eq_of_changesMatch hcompatible (ht.over.of_change hquery)
      (hu.over.of_change hcandidate) hplain hmatch

/-- A call that is taken away, with layout in front of the delimiter or without. -/
def removedCall (layout : List (Rose Label)) : Rose Label :=
  .node (.construct "change")
    (plainCall :: layout ++ [.leaf (.token "->"), .leaf (.construct "args")])

/-- The same call with other texts, in the middle of a tree. -/
def renamedCall : Node :=
  .node ⟨4, .construct ⟨1, 7, "call"⟩⟩
    [.leaf ⟨9, .token "g"⟩, .leaf ⟨3, .construct ⟨1, 2, "args"⟩⟩, .leaf ⟨5, .token "-"⟩]

/-- A change and its copy over another vocabulary, with other numbers, and a call that only differs
in its texts from the one taken away. -/
theorem removedCall_fingerprints :
    ∃ query candidate,
      Change.ofTree (Tree.ofLabels ⟨0, []⟩ (removedCall [])).2 "->" = .ok query ∧
      Change.ofTree (Tree.ofLabels ⟨1, ["args"]⟩ (removedCall [.leaf (.token " ")])).2 "->" =
        .ok candidate ∧
      query.new.node.id = 6 ∧ candidate.new.node.id = 7 ∧
      changesMatch .default query candidate = true ∧
      (∀ b, Fingerprint.ofChange b query = Fingerprint.ofChange b candidate) ∧
      Fingerprint.subtreeHash query.old.node = Fingerprint.subtreeHash renamedCall ∧
      ∀ b, Fingerprint.ofNode b query.old.node = Fingerprint.ofNode b renamedCall := by
  have ht := Tree.grown_ofLabels ⟨0, []⟩ (removedCall [])
  have hu := Tree.grown_ofLabels ⟨1, ["args"]⟩ (removedCall [.leaf (.token " ")])
  have hcompatible : (Tree.ofLabels ⟨0, []⟩ (removedCall [])).1.Compatible
      (Tree.ofLabels ⟨1, ["args"]⟩ (removedCall [.leaf (.token " ")])).1 :=
    fun howner => absurd howner (by decide)
  have hquery : Change.ofTree (Tree.ofLabels ⟨0, []⟩ (removedCall [])).2 "->" = .ok _ := rfl
  have hcandidate : Change.ofTree
    (Tree.ofLabels ⟨1, ["args"]⟩ (removedCall [.leaf (.token " ")])).2 "->" = .ok _ := rfl
  obtain ⟨hskeleton, hchanges⟩ := equal_structure_same_fingerprint
  refine ⟨_, _, hquery, hcandidate, rfl, rfl, rfl, ?_, hskeleton _ _ rfl⟩
  exact hchanges .default _ _ _ _ "->" "->" _ _ ht hu hcompatible hquery hcandidate
    (by decide) rfl

end Comparison

end ChangeQuery
