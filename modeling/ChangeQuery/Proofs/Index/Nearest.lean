import ChangeQuery.Index
import ChangeQuery.Proofs.Index.Selection
import Mathlib.Algebra.BigOperators.Group.Finset.Basic
import Mathlib.Algebra.Order.Group.Unbundled.Int
import Mathlib.Algebra.Order.Ring.Abs
import Mathlib.Tactic.Ring

/-!
## The nearest rows

A lookup is measured against the list of all rows in the order of their distances (`ranking`), the
distances being sums of squares over the integers.  As long as no sum reaches 2^64, the words that a
lookup compares are these sums.

* `intCast_squaredDistance`: the distance that is computed is the Euclidean one.
* `lookupBy_eq`: selecting before sorting makes no difference.
* `lookup_nearest`: a lookup answers with the first rows of the ranking, whatever selects by rank.
-/

namespace ChangeQuery

open Selection (Selects IsTotal)

/-! ### Distances -/

namespace FeatureVector

/-- The counter at a position. -/
def counter (v : FeatureVector) (i : ℕ) : ℕ :=
  (v.counts.getD i 0).toNat

/-- The square of the Euclidean distance from another row, over the integers. -/
def euclideanSquared (v w : FeatureVector) : ℤ :=
  ∑ i ∈ Finset.range v.dimension, ((v.counter i : ℤ) - w.counter i) ^ 2

end FeatureVector

theorem toNat_gapBetween (x y : UInt32) :
    (gapBetween x y).toNat = ((x.toNat : ℤ) - y.toNat).natAbs := by
  have hx := x.toNat_lt
  have hy := y.toNat_lt
  unfold gapBetween
  split_ifs with hle
  · rw [UInt32.le_iff_toNat_le] at hle
    rw [UInt64.toNat_sub_of_le _ _ (by rw [UInt64.le_iff_toNat_le]; simpa using hle)]
    simp only [UInt32.toNat_toUInt64]
    omega
  · rw [UInt32.le_iff_toNat_le] at hle
    rw [UInt64.toNat_sub_of_le _ _ (by rw [UInt64.le_iff_toNat_le]; simp; omega)]
    simp only [UInt32.toNat_toUInt64]
    omega

/-- The square of the distance between two counters fits into a word. -/
theorem toNat_gapBetween_mul_self (x y : UInt32) :
    (gapBetween x y * gapBetween x y).toNat = ((x.toNat : ℤ) - y.toNat).natAbs ^ 2 := by
  have hx := x.toNat_lt
  have hy := y.toNat_lt
  have hgap : ((x.toNat : ℤ) - y.toNat).natAbs < 2 ^ 32 := by omega
  rw [UInt64.toNat_mul, toNat_gapBetween, ← Nat.pow_two, Nat.mod_eq_of_lt]
  calc ((x.toNat : ℤ) - y.toNat).natAbs ^ 2 < (2 ^ 32) ^ 2 := Nat.pow_lt_pow_left hgap two_ne_zero
    _ = 2 ^ 64 := by norm_num

/-- The sum of squares that a list of pairs of counters gives. -/
def sumOfSquares (pairs : List (UInt32 × UInt32)) : ℕ :=
  (pairs.map fun pair => ((pair.1.toNat : ℤ) - pair.2.toNat).natAbs ^ 2).sum

/-- The sum is taken modulo 2^64. -/
theorem toNat_foldl_gapBetween (pairs : List (UInt32 × UInt32)) : ∀ start : UInt64,
    (pairs.foldl (fun sum pair => sum + gapBetween pair.1 pair.2 * gapBetween pair.1 pair.2)
      start).toNat = (start.toNat + sumOfSquares pairs) % 2 ^ 64 := by
  induction pairs with
  | nil =>
    intro start
    exact (Nat.mod_eq_of_lt start.toNat_lt).symm
  | cons pair pairs ih =>
    intro start
    rw [List.foldl_cons, ih, UInt64.toNat_add, toNat_gapBetween_mul_self, Nat.mod_add_mod,
      sumOfSquares, sumOfSquares, List.map_cons, List.sum_cons, Nat.add_assoc]

theorem sumOfSquares_zip (xs : List UInt32) : ∀ {ys : List UInt32}, xs.length = ys.length →
    (sumOfSquares (xs.zip ys) : ℤ) = ∑ i ∈ Finset.range xs.length,
      (((xs.getD i 0).toNat : ℤ) - (ys.getD i 0).toNat) ^ 2 := by
  induction xs with
  | nil =>
    intro ys _
    rfl
  | cons x xs ih =>
    rintro (_ | ⟨y, ys⟩) hlength
    · cases hlength
    have hrest : xs.length = ys.length := Nat.succ.inj hlength
    rw [List.zip_cons_cons, sumOfSquares, List.map_cons, List.sum_cons, Nat.cast_add,
      List.length_cons, Finset.sum_range_succ', add_comm]
    refine congrArg₂ (· + ·) (ih hrest) ?_
    rw [Nat.cast_pow, Int.natCast_natAbs, sq_abs]
    rfl

/-- The sum of squares that the counters of two rows give is their Euclidean distance. -/
theorem intCast_sumOfSquares {v w : FeatureVector} (hdimension : v.dimension = w.dimension) :
    (sumOfSquares (v.toList.zip w.toList) : ℤ) = v.euclideanSquared w := by
  have hcounter : ∀ (v : FeatureVector) i, v.counts.getD i 0 = v.toList.getD i 0 := by
    intro v i
    rw [FeatureVector.toList, Array.getD_eq_getD_getElem?, List.getD_eq_getElem?_getD,
      Array.getElem?_toList]
  rw [sumOfSquares_zip v.toList (show v.toList.length = w.toList.length from hdimension),
    FeatureVector.euclideanSquared]
  simp only [FeatureVector.counter, hcounter]
  rfl

/-- **The distance that is computed** is the Euclidean one, unless the sum does not fit into a word. -/
theorem intCast_squaredDistance {v w : FeatureVector} (hdimension : v.dimension = w.dimension)
    (hfits : v.euclideanSquared w < 2 ^ 64) :
    ((squaredDistance v w).toNat : ℤ) = v.euclideanSquared w := by
  rw [← intCast_sumOfSquares hdimension] at hfits ⊢
  rw [squaredDistance, toNat_foldl_gapBetween, UInt64.toNat_zero, Nat.zero_add,
    Nat.mod_eq_of_lt (by exact_mod_cast hfits)]

/-! ### The order of scores -/

namespace FlatIndex

theorem ranksBefore_iff {a b : UInt64 × ℕ} :
    ranksBefore a b = true ↔
      a.1.toNat < b.1.toNat ∨ a.1.toNat = b.1.toNat ∧ a.2 ≤ b.2 := by
  simp [ranksBefore, UInt64.lt_iff_toNat_lt, UInt64.toNat_inj]

theorem isTotal_ranksBefore : IsTotal ranksBefore where
  trans a b c hab hbc := by
    rw [ranksBefore_iff] at *
    omega
  total a b := by
    rw [Bool.or_eq_true, ranksBefore_iff, ranksBefore_iff]
    omega

theorem ranksBefore_antisymm (a b : UInt64 × ℕ) (hab : ranksBefore a b) (hba : ranksBefore b a) :
    a = b := by
  rw [ranksBefore_iff] at hab hba
  exact Prod.ext (UInt64.toNat_inj.mp (by omega)) (by omega)

/-- Scores are sorted in one way only. -/
theorem mergeSort_scores_congr {s s' : List (UInt64 × ℕ)} (h : s.Perm s') :
    s.mergeSort ranksBefore = s'.mergeSort ranksBefore :=
  List.Perm.eq_of_pairwise (fun a b _ _ => ranksBefore_antisymm a b)
    (List.pairwise_mergeSort isTotal_ranksBefore.trans isTotal_ranksBefore.total s)
    (List.pairwise_mergeSort isTotal_ranksBefore.trans isTotal_ranksBefore.total s')
    (((List.mergeSort_perm s _).trans h).trans (List.mergeSort_perm s' _).symm)

variable {selectAt : ℕ → List (UInt64 × ℕ) → List (UInt64 × ℕ)}

theorem leastScores_eq (hselects : Selects ranksBefore selectAt) {count : ℕ} (hcount : count ≠ 0)
    (s : List (UInt64 × ℕ)) :
    leastScores selectAt count s = (s.mergeSort ranksBefore).take count := by
  unfold leastScores
  obtain ⟨position, rfl⟩ := Nat.exists_eq_succ_of_ne_zero hcount
  split_ifs with hlt
  · exact hselects.mergeSort_take isTotal_ranksBefore ranksBefore_antisymm (by omega)
  · rw [List.take_of_length_le]
    rw [List.length_mergeSort]
    omega

/-- **Selecting makes no difference**: a lookup answers with the beginning of all scores in order. -/
theorem lookupBy_eq (hselects : Selects ranksBefore selectAt) {index : FlatIndex}
    {query : FeatureVector} (hquery : query.dimension = index.dimension) (count : ℕ) :
    index.lookupBy selectAt query count =
      .ok ((((index.scores query).mergeSort ranksBefore).take count).map Prod.snd) := by
  rw [lookupBy, if_pos hquery]
  split_ifs with hnone
  · rcases (Bool.or_eq_true _ _).mp hnone with hcount | hrows
    · rw [eq_of_beq hcount]
      rfl
    · rw [scores, List.isEmpty_iff.mp hrows]
      simp
  · rw [leastScores_eq hselects (fun hzero => hnone (by simp [hzero]))]

/-- Asking for all rows gives all numbers, each as often as it has rows. -/
theorem lookupBy_perm (hselects : Selects ranksBefore selectAt) {index : FlatIndex}
    {query : FeatureVector} (hquery : query.dimension = index.dimension) {count : ℕ}
    (hcount : index.size ≤ count) :
    ∃ ids, index.lookupBy selectAt query count = .ok ids ∧ ids.Perm (index.rows.map Prod.fst) := by
  refine ⟨_, lookupBy_eq hselects hquery count, ?_⟩
  have hlength : ((index.scores query).mergeSort ranksBefore).length ≤ count := by
    rw [List.length_mergeSort, scores, List.length_map]
    exact hcount
  have hnumbers : (index.scores query).map Prod.snd = index.rows.map Prod.fst := by
    rw [scores, List.map_map]
    rfl
  rw [List.take_of_length_le hlength, ← hnumbers]
  exact (List.mergeSort_perm _ _).map Prod.snd

/-! ### Rows -/

/-- The index with a row added, or as it was if the row has the wrong length. -/
def attempt (index : FlatIndex) (id : ℕ) (row : FeatureVector) : FlatIndex :=
  match index.add id row with
  | .ok index => index
  | .error _ => index

/-- The indices that can be made: empty ones, those of rows and of vectors, and what becomes of them
when rows are added or refused. -/
inductive Reached : FlatIndex → Prop
  | empty (dimension : ℕ) : Reached { dimension }
  | attempt {index : FlatIndex} (id : ℕ) (row : FeatureVector) :
    Reached index → Reached (index.attempt id row)
  | ofRows {dimension : ℕ} {rows : List (ℕ × FeatureVector)} {index : FlatIndex} :
    FlatIndex.ofRows dimension rows = .ok index → Reached index
  | ofVectors {dimension : ℕ} {rows : List FeatureVector} {index : FlatIndex} :
    FlatIndex.ofVectors dimension rows = .ok index → Reached index

/-- All rows are as long as the index says. -/
def IsUniform (index : FlatIndex) : Prop :=
  ∀ row ∈ index.rows, row.2.dimension = index.dimension

theorem add_eq_ok_iff {index index' : FlatIndex} {id : ℕ} {row : FeatureVector} :
    index.add id row = .ok index' ↔ row.dimension = index.dimension ∧
      index' = { index with rows := index.rows ++ [(id, row)] } := by
  unfold add
  split_ifs with hrow
  · exact ⟨fun h => ⟨hrow, (Except.ok.inj h).symm⟩, fun h => congrArg Except.ok h.2.symm⟩
  · exact iff_of_false (fun h => by cases h) fun h => hrow h.1

theorem IsUniform.add {index index' : FlatIndex} (h : index.IsUniform) {id : ℕ}
    {row : FeatureVector} (hadd : index.add id row = .ok index') : index'.IsUniform := by
  obtain ⟨hrow, rfl⟩ := add_eq_ok_iff.mp hadd
  intro entry hentry
  rcases List.mem_append.mp hentry with hentry | hentry
  · exact h entry hentry
  · obtain rfl := List.mem_singleton.mp hentry
    exact hrow

/-- Adding rows in order adds all of them, or fails at one of the wrong length. -/
theorem addMany_eq_ok_iff {rows : List (ℕ × FeatureVector)} : ∀ {index index' : FlatIndex},
    index.addMany rows = .ok index' ↔ (∀ row ∈ rows, row.2.dimension = index.dimension) ∧
      index' = { index with rows := index.rows ++ rows } := by
  induction rows with
  | nil =>
    intro index index'
    rw [addMany, List.append_nil]
    exact ⟨fun h => ⟨fun row hrow => absurd hrow List.not_mem_nil, (Except.ok.inj h).symm⟩,
      fun h => congrArg Except.ok h.2.symm⟩
  | cons entry rows ih =>
    intro index index'
    obtain ⟨id, row⟩ := entry
    rw [addMany, List.forall_mem_cons]
    cases hadd : index.add id row with
    | error cause =>
      refine iff_of_false (fun h => by cases h) fun h => ?_
      rw [add_eq_ok_iff.mpr ⟨h.1.1, rfl⟩] at hadd
      cases hadd
    | ok next =>
      obtain ⟨hrow, rfl⟩ := add_eq_ok_iff.mp hadd
      dsimp only
      rw [ih, List.append_assoc, List.singleton_append]
      exact ⟨fun h => ⟨⟨hrow, h.1⟩, h.2⟩, fun h => ⟨h.1.2, h.2⟩⟩

theorem ofRows_eq_ok_iff {dimension : ℕ} {rows : List (ℕ × FeatureVector)} {index : FlatIndex} :
    ofRows dimension rows = .ok index ↔ (∀ row ∈ rows, row.2.dimension = dimension) ∧
      index = ⟨dimension, rows⟩ :=
  addMany_eq_ok_iff

/-- **Rows of other lengths never get in.** -/
theorem Reached.isUniform {index : FlatIndex} (h : Reached index) : index.IsUniform := by
  have hrows : ∀ {dimension rows} {index : FlatIndex}, FlatIndex.ofRows dimension rows = .ok index →
      index.IsUniform := by
    intro dimension rows index hof
    obtain ⟨hrows, rfl⟩ := ofRows_eq_ok_iff.mp hof
    exact hrows
  induction h with
  | empty dimension => exact fun row hrow => absurd hrow List.not_mem_nil
  | @attempt index id row _ ih =>
    unfold FlatIndex.attempt
    cases hadd : index.add id row with
    | error cause => exact ih
    | ok index' => exact ih.add hadd
  | ofRows hof => exact hrows hof
  | ofVectors hof => exact hrows hof

/-! ### The ranking -/

/-- The distance of a row from a query. -/
def distance (query : FeatureVector) (row : ℕ × FeatureVector) : ℤ :=
  query.euclideanSquared row.2

/-- The row is nearer, or as near with a number that is not greater. -/
def isNearer (query : FeatureVector) (a b : ℕ × FeatureVector) : Bool :=
  distance query a < distance query b || (distance query a == distance query b && a.1 ≤ b.1)

/-- All rows, the nearest first. -/
def ranking (index : FlatIndex) (query : FeatureVector) : List (ℕ × FeatureVector) :=
  index.rows.mergeSort (isNearer query)

theorem isNearer_iff {query : FeatureVector} {a b : ℕ × FeatureVector} :
    isNearer query a b = true ↔ distance query a < distance query b ∨
      distance query a = distance query b ∧ a.1 ≤ b.1 := by
  simp [isNearer]

theorem isTotal_isNearer (query : FeatureVector) : IsTotal (isNearer query) where
  trans a b c hab hbc := by
    rw [isNearer_iff] at *
    omega
  total a b := by
    rw [Bool.or_eq_true, isNearer_iff, isNearer_iff]
    omega

variable {index : FlatIndex} {query : FeatureVector}

/-- The scores in order are those of the ranking. -/
theorem mergeSort_scores (huniform : index.IsUniform) (hquery : query.dimension = index.dimension)
    (hfits : ∀ row ∈ index.rows, distance query row < 2 ^ 64) :
    (index.scores query).mergeSort ranksBefore =
      (index.ranking query).map fun row => (squaredDistance query row.2, row.1) := by
  have hscore : ∀ row ∈ index.rows, ((squaredDistance query row.2).toNat : ℤ) =
      distance query row := fun row hrow =>
    intCast_squaredDistance (hquery.trans (huniform row hrow).symm) (hfits row hrow)
  refine (List.map_mergeSort fun a ha b hb => ?_).symm
  rw [Bool.eq_iff_iff, isNearer_iff, ranksBefore_iff, ← hscore a ha, ← hscore b hb]
  dsimp only
  omega

/-- **The nearest rows**: whatever selects by rank, a lookup answers with the numbers of the first rows
of the ranking.  So the answer does not depend on the order in which the rows were added, asking for
fewer rows gives a beginning of the answer, and no row that is left out is nearer than one that is
not. -/
theorem lookup_nearest (hselects : Selects ranksBefore selectAt) (hreached : Reached index)
    (hquery : query.dimension = index.dimension)
    (hfits : ∀ row ∈ index.rows, distance query row < 2 ^ 64) :
    (∀ count, index.lookupBy selectAt query count =
      .ok (((index.ranking query).take (min count index.size)).map Prod.fst)) ∧
    (∀ (index' : FlatIndex) count, index'.dimension = index.dimension → index'.rows.Perm index.rows →
      index'.lookupBy selectAt query count = index.lookupBy selectAt query count) ∧
    (∀ fewer count, fewer ≤ count → ∃ first ids, index.lookupBy selectAt query fewer = .ok first ∧
      index.lookupBy selectAt query count = .ok ids ∧ first <+: ids) ∧
    ∀ count, ∃ taken left, index.rows.Perm (taken ++ left) ∧
      index.lookupBy selectAt query count = .ok (taken.map Prod.fst) ∧
        ∀ a ∈ taken, ∀ b ∈ left, distance query a ≤ distance query b := by
  have hlength : (index.ranking query).length = index.size := List.length_mergeSort _
  have hlookup : ∀ count, index.lookupBy selectAt query count =
      .ok (((index.ranking query).take count).map Prod.fst) := by
    intro count
    rw [lookupBy_eq hselects hquery, mergeSort_scores hreached.isUniform hquery hfits,
      ← List.map_take, List.map_map]
    rfl
  refine ⟨fun count => ?_, fun index' count hdimension hperm => ?_,
    fun fewer count hle => ⟨_, _, hlookup fewer, hlookup count, ?_⟩,
    fun count => ⟨(index.ranking query).take count, (index.ranking query).drop count, ?_,
      hlookup count, ?_⟩⟩
  · rw [hlookup, ← hlength, ← List.take_eq_take_min]
  · rw [lookupBy_eq hselects (hquery.trans hdimension.symm), lookupBy_eq hselects hquery,
      mergeSort_scores_congr (show (index'.scores query).Perm (index.scores query) from hperm.map _)]
  · exact (List.take_prefix_take_left hle).map Prod.fst
  · rw [List.take_append_drop]
    exact (List.mergeSort_perm _ _).symm
  · -- In the ranking, what comes later is not nearer.
    have hsorted : (index.ranking query).Pairwise (isNearer query · ·) :=
      List.pairwise_mergeSort (isTotal_isNearer query).trans (isTotal_isNearer query).total _
    rw [← List.take_append_drop count (index.ranking query)] at hsorted
    intro a ha b hb
    have hnearer := (List.pairwise_append.mp hsorted).2.2 a ha b hb
    rw [isNearer_iff] at hnearer
    omega

/-- Three rows, two of them under one number and equally far from zero. -/
def sampleRows : List (ℕ × FeatureVector) :=
  [(3, .ofList [0, 1]), (1, .ofList [2, 2]), (3, .ofList [1, 0])]

/-- The index of these rows, when a row that is too short was refused. -/
def sample : FlatIndex :=
  attempt ⟨2, sampleRows⟩ 0 (.ofList [0])

theorem sample_lookup_nearest :
    Reached sample ∧ (∀ row ∈ sample.rows, distance (.ofList [0, 0]) row < 2 ^ 64) ∧
      sample.lookupBy (Selection.byPivot ranksBefore) (.ofList [0, 0]) 2 =
        .ok (((sample.ranking (.ofList [0, 0])).take (min 2 sample.size)).map Prod.fst) := by
  have hrows : ofRows 2 sampleRows = .ok ⟨2, sampleRows⟩ := rfl
  have hreached : Reached sample := .attempt 0 (.ofList [0]) (.ofRows hrows)
  have hfits : ∀ row ∈ sample.rows, distance (.ofList [0, 0]) row < 2 ^ 64 := by decide
  exact ⟨hreached, hfits, (lookup_nearest (Selection.selects_byPivot isTotal_ranksBefore) hreached
    rfl hfits).1 2⟩

end FlatIndex

end ChangeQuery
