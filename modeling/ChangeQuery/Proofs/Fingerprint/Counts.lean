import ChangeQuery.Proofs.Fingerprint.Dimension
import ChangeQuery.Proofs.Fingerprint.Repetition
import ChangeQuery.Proofs.Tree.Postorder
import Mathlib.Algebra.BigOperators.Intervals
import Mathlib.Data.UInt
import Mathlib.Tactic.Common

/-!
## Fingerprints are histograms

A fingerprint is made by passing through a tree and adding one to a counter at each step.  Here it is
told by what is counted.  Counting at some positions (`FeatureVector.bumpAll`) adds to each counter how
often its position occurs, modulo 2^32.  The pass over the subtrees counts the bucket of every subtree
once, in post-order, and the hash that it returns does not depend on the counters
(`Fingerprint.tally_eq`).  The pass over the pairs counts each pair of a parent and a child once.

* `getElem?_subtreeHistogram`, `getElem?_edgeHistogram`: the counters of any tree.
* `Rose.length_edges`: a tree has one pair less than nodes.
* `ofNode_counts`: below 2^32 nodes the counters are the exact numbers.
* `callOf_overflows`: at 2^32 nodes they need not be.
-/

namespace ChangeQuery

/-! ### Counting at positions -/

namespace FeatureVector

/-- Adds one at each of the positions. -/
def bumpAll (v : FeatureVector) (positions : List ℕ) : FeatureVector :=
  positions.foldl bump v

@[simp] theorem bumpAll_nil (v : FeatureVector) : v.bumpAll [] = v := rfl

theorem bumpAll_append (v : FeatureVector) (ps qs : List ℕ) :
    v.bumpAll (ps ++ qs) = (v.bumpAll ps).bumpAll qs :=
  List.foldl_append

@[simp] theorem dimension_bumpAll (v : FeatureVector) (positions : List ℕ) :
    (v.bumpAll positions).dimension = v.dimension := by
  induction positions generalizing v with
  | nil => rfl
  | cons p ps ih => exact (ih (v.bump p)).trans (dimension_bump v p)

/-- One step changes the counter at its position only. -/
theorem getElem?_bump (v : FeatureVector) (i k : ℕ) :
    (v.bump i).toList[k]? = if i = k then v.toList[k]?.map (· + 1) else v.toList[k]? := by
  rw [bump, toList, toList, Array.getElem?_toList, Array.getElem?_modify, Array.getElem?_toList]

/-- **Counting** adds to a counter how often its position occurs, modulo 2^32. -/
theorem getElem?_bumpAll (positions : List ℕ) (k : ℕ) : ∀ v : FeatureVector,
    (v.bumpAll positions).toList[k]? =
      v.toList[k]?.map (· + UInt32.ofNat (positions.count k)) := by
  induction positions with
  | nil =>
    intro v
    simp
  | cons i positions ih =>
    intro v
    have hstep : v.bumpAll (i :: positions) = (v.bump i).bumpAll positions := rfl
    rw [hstep, ih, getElem?_bump, List.count_cons]
    by_cases hi : i = k
    · rw [if_pos hi, if_pos (by simpa using hi), Option.map_map]
      congr 1
      funext count
      simp [add_assoc, add_comm]
    · rw [if_neg hi, if_neg (by simpa using hi), Nat.add_zero]

variable {positions : List ℕ} {n k : ℕ}

theorem getElem?_zeros (n k : ℕ) : (zeros n).toList[k]? = if k < n then some 0 else none := by
  rw [zeros, toList, Array.toList_replicate, List.getElem?_replicate]

/-- Fewer than 2^32 positions do not bring any counter to its limit. -/
theorem getElem?_bumpAll_zeros (hlength : positions.length < 2 ^ 32) (hk : k < n) :
    ((zeros n).bumpAll positions).toList[k]?.map UInt32.toNat = some (positions.count k) := by
  have hcount : positions.count k < 2 ^ 32 := lt_of_le_of_lt List.count_le_length hlength
  rw [getElem?_bumpAll, getElem?_zeros, if_pos hk, Option.map_some, Option.map_some, UInt32.zero_add,
    UInt32.toNat_ofNat', Nat.mod_eq_of_lt hcount]

theorem total_eq_sum (v : FeatureVector) : v.total = (v.toList.map UInt32.toNat).sum := by
  rw [total, List.sum, List.foldr_map]

/-- **The counters sum to the number of positions.** -/
theorem total_bumpAll_zeros (hlength : positions.length < 2 ^ 32) (hlt : ∀ p ∈ positions, p < n) :
    ((zeros n).bumpAll positions).total = positions.length := by
  have hcounts : ((zeros n).bumpAll positions).toList.map UInt32.toNat =
      (List.range n).map fun k => positions.count k := by
    refine List.ext_getElem? fun k => ?_
    rw [List.getElem?_map, List.getElem?_map]
    by_cases hk : k < n
    · rw [getElem?_bumpAll_zeros hlength hk, List.getElem?_range hk, Option.map_some]
    · rw [getElem?_bumpAll, getElem?_zeros, if_neg hk,
        List.getElem?_eq_none (by simpa using Nat.le_of_not_lt hk)]
      rfl
  calc
    _ = ∑ k ∈ Finset.range n, Multiset.count k ↑positions := by
      rw [total_eq_sum, hcounts]
      simp only [Multiset.coe_count]
      rfl
    _ = positions.length :=
      Multiset.sum_count_eq_card fun p hp => Finset.mem_range.mpr (hlt p hp)

/-- The first of two rows that stand one behind the other. -/
theorem slice_append_left (v w : FeatureVector) : (v ++ w).slice 0 v.dimension = v := by
  have hcounts : (v.counts ++ w.counts).extract 0 v.counts.size = v.counts := by
    rw [Array.extract_append_left, Array.extract_size]
  exact congrArg FeatureVector.mk hcounts

/-- The second of two rows that stand one behind the other. -/
theorem slice_append_right (v w : FeatureVector) :
    (v ++ w).slice v.dimension (v ++ w).dimension = w := by
  have hcounts : (v.counts ++ w.counts).extract v.counts.size (v.counts.size + w.counts.size) =
      w.counts := by
    rw [Array.extract_append_right, Array.extract_size]
  rw [dimension_append]
  exact congrArg FeatureVector.mk hcounts

end FeatureVector

/-! ### Pairs of a parent and a child -/

namespace Rose

variable {α : Type}

/-- The pairs of a parent and a child in a tree. -/
def edges (t : Rose α) : List (Rose α × Rose α) :=
  t.preorder.flatMap fun parent => parent.children.map fun child => (parent, child)

theorem edges_node (v : α) (cs : List (Rose α)) :
    (node v cs).edges = cs.map (fun child => (node v cs, child)) ++ cs.flatMap edges := by
  rw [edges, preorder_node, List.flatMap_cons, List.flatMap_assoc]
  rfl

/-- **A tree has one pair less than nodes.** -/
theorem length_edges (t : Rose α) : t.edges.length + 1 = t.size := by
  induction t using induct with
  | node v cs ih =>
    have hcs : ∀ cs : List (Rose α), (∀ c ∈ cs, c.edges.length + 1 = c.size) →
        cs.length + (cs.flatMap edges).length = sizeAll cs := by
      intro cs
      induction cs with
      | nil => exact fun _ => rfl
      | cons c cs ihcs =>
        intro h
        obtain ⟨hc, hrest⟩ := List.forall_mem_cons.mp h
        have hsum := ihcs hrest
        rw [List.flatMap_cons, List.length_append, List.length_cons, sizeAll]
        omega
    rw [edges_node, List.length_append, List.length_map, size, hcs cs ih, Nat.add_comm]

end Rose

namespace Fingerprint

/-! ### The pass over the subtrees -/

mutual
/-- **One pass** gives the hash of a tree, whatever the counters are, and counts the bucket of every
subtree. -/
theorem tally_eq : ∀ (histogram : FeatureVector) (n : Node),
    tally histogram n = (subtreeHash n,
      histogram.bumpAll (n.postorder.map fun m => bucket (subtreeHash m) histogram.dimension))
  | histogram, .node entry cs => by
    have hcs := tallyEach_eq (startState (.node entry cs)) histogram cs
    rw [tally, hcs, subtreeHash, Rose.postorder_node, List.map_append, FeatureVector.bumpAll_append]
    simp only [FeatureVector.dimension_bumpAll]
    rfl
/-- The pass over several trees adds their hashes to the state and counts the subtrees. -/
theorem tallyEach_eq : ∀ (state : UInt64) (histogram : FeatureVector) (cs : List Node),
    tallyEach state histogram cs = (absorbHashes state cs,
      histogram.bumpAll
        ((cs.flatMap Rose.postorder).map fun m => bucket (subtreeHash m) histogram.dimension))
  | _, _, [] => rfl
  | state, histogram, c :: cs => by
    have hc := tally_eq histogram c
    rw [tallyEach, hc]
    dsimp only
    rw [tallyEach_eq, absorbHashes, List.flatMap_cons, List.map_append,
      FeatureVector.bumpAll_append, FeatureVector.dimension_bumpAll]
end

theorem subtreeHistogram_eq (buckets : ℕ) (root : Node) :
    subtreeHistogram buckets root = (FeatureVector.zeros buckets).bumpAll
      (root.postorder.map fun n => bucket (subtreeHash n) buckets) := by
  rw [subtreeHistogram, tally_eq, FeatureVector.dimension_zeros]

theorem edgeHashes_eq (root : Node) :
    edgeHashes root = root.edges.map fun edge => edgeHash edge.1 edge.2 := by
  rw [edgeHashes, Rose.edges, List.map_flatMap]
  simp only [List.map_map]
  rfl

theorem edgeHistogram_eq (buckets : ℕ) (root : Node) :
    edgeHistogram buckets root = (FeatureVector.zeros buckets).bumpAll
      (root.edges.map fun edge => bucket (edgeHash edge.1 edge.2) buckets) := by
  rw [edgeHistogram, edgeHashes_eq, FeatureVector.bumpAll, List.foldl_map, List.foldl_map]

/-! ### Histograms -/

section

variable {buckets k : ℕ} (root : Node)

/-- How many values fall into a bucket is known from the values themselves. -/
theorem count_map_eq_countP {α : Type} (f : α → ℕ) (l : List α) :
    (l.map f).count k = l.countP fun a => f a = k := by
  rw [List.count, List.countP_map]
  refine List.countP_congr fun a _ => ?_
  rw [Function.comp_apply, beq_iff_eq, decide_eq_true_iff]

/-- **The counters of the subtrees** of any tree, modulo 2^32. -/
theorem getElem?_subtreeHistogram (hk : k < buckets) :
    (subtreeHistogram buckets root).toList[k]? =
      some (.ofNat (root.preorder.countP fun n => bucket (subtreeHash n) buckets = k)) := by
  rw [subtreeHistogram_eq, FeatureVector.getElem?_bumpAll, FeatureVector.getElem?_zeros, if_pos hk,
    count_map_eq_countP, root.perm_postorder.countP_eq, Option.map_some, UInt32.zero_add]

/-- **The counters of the pairs** of a parent and a child in any tree, modulo 2^32. -/
theorem getElem?_edgeHistogram (hk : k < buckets) :
    (edgeHistogram buckets root).toList[k]? =
      some (.ofNat (root.edges.countP fun edge =>
        bucket (edgeHash edge.1 edge.2) buckets = k)) := by
  rw [edgeHistogram_eq, FeatureVector.getElem?_bumpAll, FeatureVector.getElem?_zeros, if_pos hk,
    count_map_eq_countP, Option.map_some, UInt32.zero_add]

theorem bucket_lt (hash : UInt64) (hpos : 0 < buckets) : bucket hash buckets < buckets :=
  Nat.mod_lt _ hpos

/-- Every node is counted once. -/
theorem total_subtreeHistogram (hpos : 0 < buckets) (hsize : root.size < 2 ^ 32) :
    (subtreeHistogram buckets root).total = root.size := by
  have hlength : (root.postorder.map fun n => bucket (subtreeHash n) buckets).length = root.size := by
    rw [List.length_map, root.perm_postorder.length_eq, Rose.length_preorder]
  rw [subtreeHistogram_eq, FeatureVector.total_bumpAll_zeros (hlength ▸ hsize), hlength]
  intro p hp
  obtain ⟨n, -, rfl⟩ := List.mem_map.mp hp
  exact bucket_lt _ hpos

/-- Every pair of a parent and a child is counted once. -/
theorem total_edgeHistogram (hpos : 0 < buckets) (hsize : root.size < 2 ^ 32) :
    (edgeHistogram buckets root).total = root.size - 1 := by
  have hedges := root.length_edges
  have hlength : (root.edges.map fun edge =>
      bucket (edgeHash edge.1 edge.2) buckets).length = root.size - 1 := by
    rw [List.length_map]
    omega
  rw [edgeHistogram_eq, FeatureVector.total_bumpAll_zeros (by omega), hlength]
  intro p hp
  obtain ⟨edge, -, rfl⟩ := List.mem_map.mp hp
  exact bucket_lt _ hpos

end

/-! ### Fingerprints -/

section

variable (b : Buckets) (root : Node) {k : ℕ}

theorem length_subtreeHistogram : (subtreeHistogram b.count root).toList.length = b.count :=
  Array.length_toList.trans (dimension_subtreeHistogram b.count root)

theorem toList_ofNode : (ofNode b root).toList =
    (subtreeHistogram b.count root).toList ++ (edgeHistogram b.count root).toList :=
  Array.toList_append

/-- The first half of a fingerprint counts the subtrees. -/
theorem getElem?_ofNode_subtrees (hk : k < b.count) :
    (ofNode b root).toList[k]? =
      some (.ofNat (root.preorder.countP fun n => bucket (subtreeHash n) b.count = k)) := by
  have hlength := length_subtreeHistogram b root
  rw [toList_ofNode, List.getElem?_append_left (by omega), getElem?_subtreeHistogram root hk]

/-- The second half of a fingerprint counts the pairs of a parent and a child. -/
theorem getElem?_ofNode_edges (hk : k < b.count) :
    (ofNode b root).toList[b.count + k]? =
      some (.ofNat (root.edges.countP fun edge =>
        bucket (edgeHash edge.1 edge.2) b.count = k)) := by
  have hlength := length_subtreeHistogram b root
  rw [toList_ofNode, List.getElem?_append_right (by omega), hlength, Nat.add_sub_cancel_left,
    getElem?_edgeHistogram root hk]

theorem slice_ofNode_subtrees : (ofNode b root).slice 0 b.count = subtreeHistogram b.count root := by
  have hslice := FeatureVector.slice_append_left (subtreeHistogram b.count root)
    (edgeHistogram b.count root)
  rwa [dimension_subtreeHistogram] at hslice

theorem slice_ofNode_edges :
    (ofNode b root).slice b.count b.dimension = edgeHistogram b.count root := by
  have hslice := FeatureVector.slice_append_right (subtreeHistogram b.count root)
    (edgeHistogram b.count root)
  rwa [dimension_subtreeHistogram, ← ofNode, dimension_ofNode] at hslice

end

/-- **The fingerprint of a tree is the histogram of its definition.**  In a tree of less than 2^32
nodes, the root among them, no counter comes to its limit: each is the number of subtrees, or of pairs
of a parent and a child, whose hash falls into its bucket.  So the two halves sum to the number of nodes
and to one less. -/
theorem ofNode_counts (b : Buckets) (root : Node) (hsize : root.size < 2 ^ 32) :
    (∀ k < b.count,
      (ofNode b root).toList[k]?.map UInt32.toNat = some
        (root.preorder.countP fun n => (Hash.spread (subtreeHash n)).toNat % b.count = k) ∧
      (ofNode b root).toList[b.count + k]?.map UInt32.toNat = some
        (root.edges.countP fun edge => bucket (edgeHash edge.1 edge.2) b.count = k)) ∧
    ((ofNode b root).slice 0 b.count).total = root.size ∧
    ((ofNode b root).slice b.count b.dimension).total = root.size - 1 := by
  have hpos : 0 < b.count := Nat.lt_of_lt_of_le Nat.zero_lt_two b.two_le
  have hedges := root.length_edges
  refine ⟨fun k hk => ⟨?_, ?_⟩, ?_, ?_⟩
  · have hcount : (root.preorder.countP fun n => bucket (subtreeHash n) b.count = k) < 2 ^ 32 := by
      refine lt_of_le_of_lt List.countP_le_length ?_
      rwa [Rose.length_preorder]
    rw [getElem?_ofNode_subtrees b root hk, Option.map_some, UInt32.toNat_ofNat',
      Nat.mod_eq_of_lt hcount]
    rfl
  · have hcount : (root.edges.countP fun edge =>
        bucket (edgeHash edge.1 edge.2) b.count = k) < 2 ^ 32 :=
      lt_of_le_of_lt List.countP_le_length (by omega)
    rw [getElem?_ofNode_edges b root hk, Option.map_some, UInt32.toNat_ofNat',
      Nat.mod_eq_of_lt hcount]
  · rw [slice_ofNode_subtrees, total_subtreeHistogram root hpos hsize]
  · rw [slice_ofNode_edges, total_edgeHistogram root hpos hsize]

/-- A call with two tokens below it. -/
def sampleCall : Node :=
  .node ⟨0, .construct ⟨0, 0, "call"⟩⟩ [.leaf ⟨1, .token "f"⟩, .leaf ⟨2, .token "x"⟩]

theorem sampleCall_counts : sampleCall.size < 2 ^ 32 ∧ ∀ b : Buckets,
    ((ofNode b sampleCall).slice 0 b.count).total = 3 ∧
    ((ofNode b sampleCall).slice b.count b.dimension).total = 2 := by
  have hsize : sampleCall.size < 2 ^ 32 := by decide
  exact ⟨hsize, fun b => (ofNode_counts b sampleCall hsize).2⟩

/-- **2^32 nodes are too many**, also if one of them is the root and the others are its 2^32 - 1
descendants: all of them can fall into the same bucket, and then its counter stands at 0 again. -/
theorem callOf_overflows : ∃ b root, Buckets.ofNat? 2 = some b ∧
    (Tree.ofLabels ⟨0, []⟩ (callOf (2 ^ 32 - 1))).2.root? = some root ∧
    root.preorder.tail.length < 2 ^ 32 ∧
    (root.preorder.countP fun n => (Hash.spread (subtreeHash n)).toNat % b.count = 1) = 2 ^ 32 ∧
    (ofNode b root).toList[1]? = some 0 := by
  obtain ⟨root, hroot, hlabels⟩ := exists_root_callOf (2 ^ 32 - 1)
  have hsize : root.preorder.length = 2 ^ 32 := by
    rw [Rose.length_preorder, size_of_callOf hlabels, Nat.sub_add_cancel Nat.one_le_two_pow]
  have hbuckets : ∀ n ∈ root.preorder, bucket (subtreeHash n) 2 = 1 := by
    intro n hn
    rcases subtreeHash_of_mem_callOf hlabels hn with hhash | hhash
    · rw [hhash, subtreeHash_of_callOf hlabels rfl]
      decide +kernel
    · rw [hhash]
      decide
  have hcount : (root.preorder.countP fun n => bucket (subtreeHash n) 2 = 1) = 2 ^ 32 := by
    rw [← hsize, List.countP_eq_length]
    exact fun n hn => decide_eq_true (hbuckets n hn)
  refine ⟨⟨2, le_rfl, rfl⟩, root, rfl, hroot, ?_, hcount, ?_⟩
  · rw [List.length_tail, hsize]
    decide
  · rw [getElem?_ofNode_subtrees _ _ (by decide), hcount]
    rfl

end Fingerprint

end ChangeQuery
