import ChangeQuery.Proofs.Change.Outline
import ChangeQuery.Proofs.Fingerprint.Sections
import ChangeQuery.Proofs.Index.Nearest
import ChangeQuery.Proofs.Tree.Planting
import Mathlib.Algebra.Order.BigOperators.Group.List

/-!
## Distances that fit into words

A distance is summed up in a word of 64 bits, over as many counters of 32 bits as the rows have.  Two
counters at their limits are already too much, so what keeps the sum small is not the size of the
counters but that of their totals: a sum of squares is at most the square of the sum, and the differences
of the counters sum to at most the totals of both rows.

The totals of fingerprints are known from the numbers of nodes, as both sides of a change are parts of one
tree.

* `sumOfSquares_le`: the bound by the totals.
* `Fingerprint.total_ofChange_lt`: the total of the fingerprint of a change.
* `Fingerprint.distances_fit`: no step of the sum overflows.
-/

namespace ChangeQuery

/-! ### Sums of squares -/

/-- The square of a difference of counters fits into a word. -/
theorem gapBetween_mul_self_lt (x y : UInt32) :
    (gapBetween x y).toNat * (gapBetween x y).toNat < 2 ^ 64 := by
  rw [toNat_gapBetween, ← Nat.pow_two, ← toNat_gapBetween_mul_self]
  exact UInt64.toNat_lt _

/-- A sum of squares of differences is at most the square of the sum of all counters. -/
theorem sumOfSquares_le (pairs : List (UInt32 × UInt32)) :
    sumOfSquares pairs ≤ (pairs.map fun pair => pair.1.toNat + pair.2.toNat).sum ^ 2 := by
  induction pairs with
  | nil => exact Nat.zero_le _
  | cons pair pairs ih =>
    obtain ⟨x, y⟩ := pair
    have hgap : ((x.toNat : ℤ) - y.toNat).natAbs ≤ x.toNat + y.toNat := by omega
    rw [List.map_cons, List.sum_cons]
    generalize (pairs.map fun pair => pair.1.toNat + pair.2.toNat).sum = rest at ih ⊢
    calc
      sumOfSquares ((x, y) :: pairs) = ((x.toNat : ℤ) - y.toNat).natAbs ^ 2 + sumOfSquares pairs := rfl
      _ ≤ (x.toNat + y.toNat) ^ 2 + rest ^ 2 := Nat.add_le_add (Nat.pow_le_pow_left hgap 2) ih
      _ ≤ (x.toNat + y.toNat + rest) ^ 2 := by
        rw [add_sq (x.toNat + y.toNat) rest]
        omega

/-- Fewer squares do not sum to more. -/
theorem sumOfSquares_take_le (pairs : List (UInt32 × UInt32)) (k : ℕ) :
    sumOfSquares (pairs.take k) ≤ sumOfSquares pairs :=
  ((List.take_sublist k pairs).map _).sum_le_sum fun _ _ => Nat.zero_le _

namespace FeatureVector

variable {v w : FeatureVector}

/-- The sum after the squares of the first `k` differences. -/
def partialDistance (v w : FeatureVector) (k : ℕ) : UInt64 :=
  ((v.toList.zip w.toList).take k).foldl
    (fun sum pair => sum + gapBetween pair.1 pair.2 * gapBetween pair.1 pair.2) 0

theorem take_dimension (v w : FeatureVector) :
    (v.toList.zip w.toList).take v.dimension = v.toList.zip w.toList := by
  refine List.take_of_length_le ?_
  rw [List.length_zip]
  exact Nat.min_le_left _ _

/-- After all of them, the sum is the distance. -/
theorem partialDistance_dimension (v w : FeatureVector) :
    partialDistance v w v.dimension = squaredDistance v w := by
  rw [partialDistance, take_dimension]
  rfl

/-- Nothing overflows when the distance between the rows is computed. -/
structure DistanceFits (v w : FeatureVector) : Prop where
  /-- Each square is below 2^64. -/
  square_lt : ∀ pair ∈ v.toList.zip w.toList,
    (gapBetween pair.1 pair.2).toNat * (gapBetween pair.1 pair.2).toNat < 2 ^ 64
  /-- Each sum of the first squares is below 2^64. -/
  sumOfSquares_lt : ∀ k, sumOfSquares ((v.toList.zip w.toList).take k) < 2 ^ 64
  /-- Each word on the way is the sum of the first squares. -/
  toNat_partialDistance : ∀ k,
    (partialDistance v w k).toNat = sumOfSquares ((v.toList.zip w.toList).take k)
  /-- The result is the square of the Euclidean distance. -/
  toNat_squaredDistance : ((squaredDistance v w).toNat : ℤ) = v.euclideanSquared w

/-- The counters of two rows of one length sum to the totals of both. -/
theorem sum_zip (hdimension : v.dimension = w.dimension) :
    ((v.toList.zip w.toList).map fun pair => pair.1.toNat + pair.2.toNat).sum =
      v.total + w.total := by
  have hlists : ∀ {xs ys : List UInt32}, xs.length = ys.length →
      ((xs.zip ys).map fun pair => pair.1.toNat + pair.2.toNat).sum =
        (xs.map UInt32.toNat).sum + (ys.map UInt32.toNat).sum := by
    intro xs
    induction xs with
    | nil =>
      intro ys hlength
      rw [List.eq_nil_of_length_eq_zero hlength.symm]
      rfl
    | cons x xs ih =>
      rintro (_ | ⟨y, ys⟩) hlength
      · cases hlength
      · have hrest := ih (Nat.succ.inj hlength)
        simp only [List.zip_cons_cons, List.map_cons, List.sum_cons, hrest]
        omega
  rw [total_eq_sum, total_eq_sum]
  exact hlists hdimension

/-- **Small totals keep the distance exact**, however many counters there are. -/
theorem distanceFits_of_total (hdimension : v.dimension = w.dimension)
    (htotal : v.total + w.total < 2 ^ 32) : v.DistanceFits w := by
  have hall : sumOfSquares (v.toList.zip w.toList) < 2 ^ 64 := calc
    _ ≤ (v.total + w.total) ^ 2 := sum_zip hdimension ▸ sumOfSquares_le _
    _ < (2 ^ 32) ^ 2 := Nat.pow_lt_pow_left htotal two_ne_zero
    _ = 2 ^ 64 := by norm_num
  have hfits : ∀ k, sumOfSquares ((v.toList.zip w.toList).take k) < 2 ^ 64 :=
    fun k => (sumOfSquares_take_le _ k).trans_lt hall
  have hwords : ∀ k,
      (partialDistance v w k).toNat = sumOfSquares ((v.toList.zip w.toList).take k) := by
    intro k
    rw [partialDistance, toNat_foldl_gapBetween, UInt64.toNat_zero, Nat.zero_add,
      Nat.mod_eq_of_lt (hfits k)]
  refine ⟨fun pair _ => gapBetween_mul_self_lt pair.1 pair.2, hfits, hwords, ?_⟩
  rw [← partialDistance_dimension, hwords, take_dimension, intCast_sumOfSquares hdimension]

/-- Two counters at their limits are already too much. -/
example : ¬ (ofList [4294967295, 4294967295]).DistanceFits (zeros 2) :=
  fun h => absurd (h.sumOfSquares_lt 2) (by decide)

theorem total_append (v w : FeatureVector) : (v ++ w).total = v.total + w.total := by
  have htoList : (v ++ w).toList = v.toList ++ w.toList := Array.toList_append
  rw [total_eq_sum, total_eq_sum, total_eq_sum, htoList, List.map_append, List.sum_append]

end FeatureVector

/-! ### The totals of fingerprints -/

theorem Rose.sizeAll_eq_sum {α : Type} (cs : List (Rose α)) : sizeAll cs = (cs.map size).sum := by
  induction cs with
  | nil => rfl
  | cons c cs ih => rw [sizeAll, ih, List.map_cons, List.sum_cons]

/-- The sides of a change have fewer nodes than its tree: the root is in none of them. -/
theorem Change.size_add_size_lt {v : Vocabulary} {t : Tree} {delimiter : String} {c : Change}
    (h : t.Grown v) (hof : ofTree t delimiter = .ok c) :
    c.old.node.size + c.new.node.size < t.size := by
  obtain ⟨root, hroot, hsides⟩ := sublist_children_of_ofTree hof
  have hsize := h.size_root hroot
  have hchildren : c.old.node.size + c.new.node.size ≤ Rose.sizeAll root.children := calc
    _ = ([c.old.node, c.new.node].map Rose.size).sum := rfl
    _ ≤ (root.children.map Rose.size).sum := (hsides.map _).sum_le_sum fun _ _ => Nat.zero_le _
    _ = Rose.sizeAll root.children := (Rose.sizeAll_eq_sum _).symm
  have hnode : root.size = 1 + Rose.sizeAll root.children := by
    rw [← root.node_value_children]
    rfl
  omega

namespace Fingerprint

/-- The fingerprint of a change counts the nodes of both sides, and the pairs of a parent and a child. -/
theorem total_ofChange (b : Buckets) (c : Change) (hold : c.old.node.size < 2 ^ 32)
    (hnew : c.new.node.size < 2 ^ 32) : (ofChange b c).total =
      c.old.node.size + c.new.node.size + (c.old.node.size - 1 + (c.new.node.size - 1)) := by
  have hpos : 0 < b.half := Nat.div_pos b.two_le Nat.zero_lt_two
  rw [ofChange, FeatureVector.total_append, FeatureVector.total_append, FeatureVector.total_append,
    total_subtreeHistogram _ hpos hold, total_subtreeHistogram _ hpos hnew,
    total_edgeHistogram _ hpos hold, total_edgeHistogram _ hpos hnew]

/-- A change of fewer than 2^30 nodes has a fingerprint with a total below 2^31. -/
theorem total_ofChange_lt (b : Buckets) {v : Vocabulary} {t : Tree} {delimiter : String} {c : Change}
    (h : t.Grown v) (hof : Change.ofTree t delimiter = .ok c) (hsize : t.size < 2 ^ 30) :
    (ofChange b c).total < 2 ^ 31 := by
  have hsides := Change.size_add_size_lt h hof
  rw [total_ofChange b c (by omega) (by omega)]
  omega

/-- **Distances between fingerprints do not overflow.**  Between two rows of one length whose totals are
below 2^32 together, every square and every sum on the way fits into a word, so the distance is exact.
The fingerprints of two changes of fewer than 2^30 nodes each are such rows, whatever the number of
buckets. -/
theorem distances_fit :
    (∀ v w : FeatureVector, v.dimension = w.dimension → v.total + w.total < 2 ^ 32 →
      v.DistanceFits w) ∧
    ∀ (b : Buckets) (v w : Vocabulary) (t u : Tree) (delimiter delimiter' : String) (c d : Change),
      t.Grown v → Change.ofTree t delimiter = .ok c → t.size < 2 ^ 30 →
      u.Grown w → Change.ofTree u delimiter' = .ok d → u.size < 2 ^ 30 →
        (ofChange b c).dimension = (ofChange b d).dimension ∧
        (ofChange b c).total + (ofChange b d).total < 2 ^ 32 ∧
        (ofChange b c).DistanceFits (ofChange b d) := by
  refine ⟨fun v w => FeatureVector.distanceFits_of_total, ?_⟩
  intro b v w t u delimiter delimiter' c d ht hc htsize hu hd husize
  have hdimension : (ofChange b c).dimension = (ofChange b d).dimension := by
    rw [dimension_ofChange, dimension_ofChange]
  have htotal : (ofChange b c).total + (ofChange b d).total < 2 ^ 32 := by
    have hct := total_ofChange_lt b ht hc htsize
    have hdt := total_ofChange_lt b hu hd husize
    omega
  exact ⟨hdimension, htotal, FeatureVector.distanceFits_of_total hdimension htotal⟩

/-- Two short rows, and two changes of the same call. -/
theorem changedCall_distances_fit :
    (FeatureVector.ofList [3, 0]).DistanceFits (.ofList [1, 5]) ∧
    ∃ c d,
      Change.ofTree (Tree.ofLabels ⟨0, []⟩
        (changedCall (.node (.construct "call") [.leaf (.token "f")]))).2 "->" = .ok c ∧
      Change.ofTree (Tree.ofLabels ⟨0, []⟩ (changedCall (.leaf (.construct "args")))).2 "->" = .ok d ∧
      ∀ b : Buckets, (ofChange b c).total + (ofChange b d).total < 2 ^ 32 ∧
        (ofChange b c).DistanceFits (ofChange b d) := by
  have hc : Change.ofTree (Tree.ofLabels ⟨0, []⟩
    (changedCall (.node (.construct "call") [.leaf (.token "f")]))).2 "->" = .ok _ := rfl
  have hd : Change.ofTree
    (Tree.ofLabels ⟨0, []⟩ (changedCall (.leaf (.construct "args")))).2 "->" = .ok _ := rfl
  refine ⟨distances_fit.1 _ _ rfl (by decide), _, _, hc, hd, fun b => ?_⟩
  exact (distances_fit.2 b _ _ _ _ _ _ _ _ (Tree.grown_ofLabels _ _) hc (by decide)
    (Tree.grown_ofLabels _ _) hd (by decide)).2

end Fingerprint

end ChangeQuery
