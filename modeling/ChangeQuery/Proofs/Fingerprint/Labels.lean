import ChangeQuery.Fingerprint.Basic
import ChangeQuery.Proofs.Tree.Outline

/-!
## Fingerprints and labels

A fingerprint is known from the skeleton of a tree: the names of the constructs and the places of
the tokens.  Neither the texts of tokens, nor the numbers of the nodes, nor the vocabularies of
their constructs enter a hash.  The labels of a tree say more than its skeleton, so they determine
its fingerprint as well.

* `subtreeHash_eq_of_skeleton_eq`, `ofNode_eq_of_skeleton_eq`: trees with the same skeleton have the
  same hash and the same fingerprint.
* `subtreeHash_congr`, `ofNode_congr`: so do trees with the same labels.
-/

namespace ChangeQuery

/-! ### Skeletons -/

namespace Node

/-- The names of the constructs below and at a node; a token is a place without a name. -/
def skeleton (n : Node) : Rose (Option String) :=
  n.map fun entry => entry.category.label.construct?

theorem skeleton_eq_node (n : Node) :
    n.skeleton = .node n.category.label.construct? (n.children.map skeleton) := by
  cases n
  rw [skeleton, Rose.map_node]
  rfl

/-- **Equal skeletons**: constructs of the same name or two tokens, and equal skeletons below. -/
theorem skeleton_eq_iff {a b : Node} : a.skeleton = b.skeleton ↔
    a.category.label.construct? = b.category.label.construct? ∧
      a.children.map skeleton = b.children.map skeleton := by
  rw [skeleton_eq_node a, skeleton_eq_node b, Rose.node.injEq]

theorem length_children_of_skeleton {a b : Node} (h : a.skeleton = b.skeleton) :
    a.children.length = b.children.length := by
  have hlength := congrArg List.length (skeleton_eq_iff.mp h).2
  rwa [List.length_map, List.length_map] at hlength

theorem map_construct?_labels (n : Node) : n.labels.map Label.construct? = n.skeleton :=
  Rose.map_map _ _ n

/-- The labels of a node say what its skeleton is. -/
theorem skeleton_congr {a b : Node} (h : a.labels = b.labels) : a.skeleton = b.skeleton := by
  rw [← map_construct?_labels, ← map_construct?_labels, h]

end Node

namespace Fingerprint

/-! ### Hashes -/

/-- Adds the name of a construct, or that there is none, to the state of a hash. -/
def absorbConstruct? (state : UInt64) : Option String → UInt64
  | some name => Hash.absorbName (Hash.absorb state 0) name
  | none => Hash.absorb state 1

theorem absorbCategory_eq (state : UInt64) (n : Node) :
    absorbCategory state n = absorbConstruct? state n.category.label.construct? := by
  unfold absorbCategory
  cases n.category <;> rfl

theorem startState_eq_of_skeleton_eq {a b : Node} (h : a.skeleton = b.skeleton) :
    startState a = startState b := by
  rw [startState, startState, absorbCategory_eq, absorbCategory_eq, (Node.skeleton_eq_iff.mp h).1,
    Node.length_children_of_skeleton h]

mutual
/-- **The hash of a subtree** is known from its skeleton. -/
theorem subtreeHash_eq_of_skeleton_eq : ∀ a b : Node, a.skeleton = b.skeleton →
    subtreeHash a = subtreeHash b
  | .node entry cs, .node entry' cs', h => by
    have hcs : cs.map Node.skeleton = cs'.map Node.skeleton := (Node.skeleton_eq_iff.mp h).2
    rw [subtreeHash, subtreeHash, startState_eq_of_skeleton_eq h,
      absorbHashes_eq_of_skeleton_eq _ cs cs' hcs]
/-- The hashes of subtrees are known from their skeletons. -/
theorem absorbHashes_eq_of_skeleton_eq : ∀ (state : UInt64) (cs cs' : List Node),
    cs.map Node.skeleton = cs'.map Node.skeleton → absorbHashes state cs = absorbHashes state cs'
  | _, [], [], _ => rfl
  | state, c :: cs, c' :: cs', h => by
    obtain ⟨hc, hcs⟩ := List.cons.inj h
    rw [absorbHashes, absorbHashes, subtreeHash_eq_of_skeleton_eq c c' hc,
      absorbHashes_eq_of_skeleton_eq _ cs cs' hcs]
end

mutual
/-- Counting the subtrees of a tree is known from its skeleton. -/
theorem tally_eq_of_skeleton_eq : ∀ (histogram : FeatureVector) (a b : Node),
    a.skeleton = b.skeleton → tally histogram a = tally histogram b
  | histogram, .node entry cs, .node entry' cs', h => by
    have hcs : cs.map Node.skeleton = cs'.map Node.skeleton := (Node.skeleton_eq_iff.mp h).2
    rw [tally, tally, startState_eq_of_skeleton_eq h,
      tallyEach_eq_of_skeleton_eq _ histogram cs cs' hcs]
/-- Counting the subtrees of several trees is known from their skeletons. -/
theorem tallyEach_eq_of_skeleton_eq : ∀ (state : UInt64) (histogram : FeatureVector)
    (cs cs' : List Node), cs.map Node.skeleton = cs'.map Node.skeleton →
      tallyEach state histogram cs = tallyEach state histogram cs'
  | _, _, [], [], _ => rfl
  | state, histogram, c :: cs, c' :: cs', h => by
    obtain ⟨hc, hcs⟩ := List.cons.inj h
    rw [tallyEach, tallyEach, tally_eq_of_skeleton_eq histogram c c' hc]
    exact tallyEach_eq_of_skeleton_eq _ _ cs cs' hcs
end

/-! ### Pairs of a parent and a child -/

theorem edgeHashes_node (entry : Entry) (cs : List Node) :
    edgeHashes (.node entry cs) =
      cs.map (edgeHash (.node entry cs)) ++ cs.flatMap edgeHashes := by
  rw [edgeHashes, Rose.preorder_node, List.flatMap_cons, List.flatMap_assoc]
  rfl

theorem map_edgeHash_eq_of_skeleton_eq {a b : Node} (h : a.skeleton = b.skeleton) :
    a.children.map (edgeHash a) = b.children.map (edgeHash b) := by
  have hedge : ∀ n : Node, n.children.map (edgeHash n) = (n.children.map Node.skeleton).map
      fun child => Hash.finish
        (absorbConstruct? (absorbConstruct? 0 n.category.label.construct?) child.value) := by
    intro n
    rw [List.map_map]
    refine List.map_congr_left fun c _ => ?_
    rw [edgeHash, absorbCategory_eq, absorbCategory_eq, Function.comp, Node.skeleton_eq_node c,
      Rose.value_node]
  rw [hedge, hedge, (Node.skeleton_eq_iff.mp h).1, (Node.skeleton_eq_iff.mp h).2]

mutual
/-- The hashes of the pairs of a parent and a child are known from the skeleton. -/
theorem edgeHashes_eq_of_skeleton_eq : ∀ a b : Node, a.skeleton = b.skeleton →
    edgeHashes a = edgeHashes b
  | .node entry cs, .node entry' cs', h => by
    have hcs : cs.map Node.skeleton = cs'.map Node.skeleton := (Node.skeleton_eq_iff.mp h).2
    have hedges := map_edgeHash_eq_of_skeleton_eq h
    rw [Rose.children_node, Rose.children_node] at hedges
    rw [edgeHashes_node, edgeHashes_node, hedges, flatMap_edgeHashes_eq_of_skeleton_eq cs cs' hcs]
/-- The hashes of the pairs in several trees are known from the skeletons. -/
theorem flatMap_edgeHashes_eq_of_skeleton_eq : ∀ cs cs' : List Node,
    cs.map Node.skeleton = cs'.map Node.skeleton → cs.flatMap edgeHashes = cs'.flatMap edgeHashes
  | [], [], _ => rfl
  | c :: cs, c' :: cs', h => by
    obtain ⟨hc, hcs⟩ := List.cons.inj h
    rw [List.flatMap_cons, List.flatMap_cons, edgeHashes_eq_of_skeleton_eq c c' hc,
      flatMap_edgeHashes_eq_of_skeleton_eq cs cs' hcs]
end

/-! ### Fingerprints -/

section

variable (b : Buckets) {m n : Node} {c d : Change}

theorem subtreeHistogram_eq_of_skeleton_eq (buckets : ℕ) (h : m.skeleton = n.skeleton) :
    subtreeHistogram buckets m = subtreeHistogram buckets n := by
  rw [subtreeHistogram, subtreeHistogram, tally_eq_of_skeleton_eq _ m n h]

theorem edgeHistogram_eq_of_skeleton_eq (buckets : ℕ) (h : m.skeleton = n.skeleton) :
    edgeHistogram buckets m = edgeHistogram buckets n := by
  rw [edgeHistogram, edgeHistogram, edgeHashes_eq_of_skeleton_eq m n h]

/-- **The fingerprint of a tree** is known from its skeleton. -/
theorem ofNode_eq_of_skeleton_eq (h : m.skeleton = n.skeleton) : ofNode b m = ofNode b n := by
  rw [ofNode, ofNode, subtreeHistogram_eq_of_skeleton_eq _ h, edgeHistogram_eq_of_skeleton_eq _ h]

/-- The fingerprint of a change is known from the skeletons of its sides. -/
theorem ofChange_eq_of_skeleton_eq (hold : c.old.node.skeleton = d.old.node.skeleton)
    (hnew : c.new.node.skeleton = d.new.node.skeleton) : ofChange b c = ofChange b d := by
  rw [ofChange, ofChange, subtreeHistogram_eq_of_skeleton_eq _ hold,
    subtreeHistogram_eq_of_skeleton_eq _ hnew, edgeHistogram_eq_of_skeleton_eq _ hold,
    edgeHistogram_eq_of_skeleton_eq _ hnew]

theorem subtreeHash_congr (m n : Node) (h : m.labels = n.labels) : subtreeHash m = subtreeHash n :=
  subtreeHash_eq_of_skeleton_eq m n (Node.skeleton_congr h)

theorem ofNode_congr (h : m.labels = n.labels) : ofNode b m = ofNode b n :=
  ofNode_eq_of_skeleton_eq b (Node.skeleton_congr h)

theorem ofChange_congr (hold : c.old.node.labels = d.old.node.labels)
    (hnew : c.new.node.labels = d.new.node.labels) : ofChange b c = ofChange b d :=
  ofChange_eq_of_skeleton_eq b (Node.skeleton_congr hold) (Node.skeleton_congr hnew)

end

end Fingerprint

end ChangeQuery
