import ChangeQuery.Fingerprint.Basic
import ChangeQuery.Similarity
import Mathlib.Tactic.Common

/-!
## The length of fingerprints

Counting never changes the length of a histogram, so the fingerprints made with the same buckets all
have the same length and can be compared.

* `dimension_ofNode`, `dimension_ofChange`: the length is twice the number of buckets.
* `exists_cosine_ofChange`: the similarity of two changes is always defined.
-/

namespace ChangeQuery

namespace FeatureVector

@[simp] theorem dimension_zeros (n : ℕ) : (zeros n).dimension = n :=
  Array.size_replicate

@[simp] theorem dimension_bump (v : FeatureVector) (i : ℕ) :
    (v.bump i).dimension = v.dimension :=
  Array.size_modify

@[simp] theorem dimension_append (v w : FeatureVector) :
    (v ++ w).dimension = v.dimension + w.dimension :=
  Array.size_append

end FeatureVector

namespace Fingerprint

mutual
/-- Counting the subtrees of a tree keeps the length of the histogram. -/
theorem dimension_tally : ∀ (histogram : FeatureVector) (n : Node),
    (tally histogram n).2.dimension = histogram.dimension
  | histogram, .node entry children => by
    rw [tally, FeatureVector.dimension_bump, dimension_tallyEach]
/-- Counting the subtrees of several trees keeps the length of the histogram. -/
theorem dimension_tallyEach : ∀ (state : UInt64) (histogram : FeatureVector) (cs : List Node),
    (tallyEach state histogram cs).2.dimension = histogram.dimension
  | _, _, [] => rfl
  | state, histogram, c :: cs => by
    rw [tallyEach, dimension_tallyEach, dimension_tally]
end

@[simp] theorem dimension_subtreeHistogram (buckets : ℕ) (root : Node) :
    (subtreeHistogram buckets root).dimension = buckets := by
  rw [subtreeHistogram, dimension_tally, FeatureVector.dimension_zeros]

@[simp] theorem dimension_edgeHistogram (buckets : ℕ) (root : Node) :
    (edgeHistogram buckets root).dimension = buckets := by
  have key : ∀ (hashes : List UInt64) (histogram : FeatureVector),
      (hashes.foldl (fun histogram hash => histogram.bump (bucket hash buckets))
        histogram).dimension = histogram.dimension := by
    intro hashes
    induction hashes with
    | nil => intro histogram; rfl
    | cons hash hashes ih =>
      intro histogram
      rw [List.foldl_cons, ih, FeatureVector.dimension_bump]
  rw [edgeHistogram, key, FeatureVector.dimension_zeros]

theorem dimension_ofNode (b : Buckets) (root : Node) : (ofNode b root).dimension = b.dimension := by
  rw [ofNode, FeatureVector.dimension_append, dimension_subtreeHistogram, dimension_edgeHistogram,
    Buckets.dimension, Nat.two_mul]

/-- **The length of a fingerprint** depends on the number of buckets alone: the halves of an even
number make up the whole. -/
theorem dimension_ofChange (b : Buckets) (c : Change) : (ofChange b c).dimension = b.dimension := by
  have heven := b.even
  simp only [ofChange, FeatureVector.dimension_append, dimension_subtreeHistogram,
    dimension_edgeHistogram, Buckets.half, Buckets.dimension]
  omega

/-- Fingerprints made with the same buckets can be compared. -/
theorem exists_cosine_ofChange (b : Buckets) (c d : Change) :
    ∃ similarity, Similarity.cosine (ofChange b c) (ofChange b d) = .ok similarity := by
  refine ⟨_, if_pos ?_⟩
  rw [dimension_ofChange, dimension_ofChange]

end Fingerprint

end ChangeQuery
