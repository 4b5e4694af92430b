import ChangeQuery.Proofs.Fingerprint.Counts
import ChangeQuery.Proofs.Fingerprint.Labels

/-!
## Sections of a fingerprint

The fingerprint of a change is put together from four histograms in one place, and cut up by a layout
that is computed from the number of buckets in another.  Both agree because they follow the same
widths: a layout of the widths of some rows cuts these rows out of what they make up together
(`Layout.slice?_ofWidths`), and its sections lie one behind another without a gap
(`Layout.tiles_ofWidths`).  Positions are words, so this holds as long as the widths sum to less than
2^64, which 2^63 buckets exceed (`not_tiles_changeLayout`).

Each section is a histogram of one side, so what is read from the sections of a side is known from
that side.

* `slice?_ofChange`: the sections of the fingerprint of a change.
* `ofChange_sides_apart`: the sections cover the fingerprint, sum to the sizes of the sides, and those
  of one side do not change with the other side.
-/

namespace ChangeQuery

/-! ### Rows one behind another -/

namespace FeatureVector

/-- The rows one behind another. -/
def concat (rows : List FeatureVector) : FeatureVector :=
  rows.foldr (· ++ ·) (zeros 0)

theorem append_assoc (u v w : FeatureVector) : u ++ v ++ w = u ++ (v ++ w) :=
  congrArg FeatureVector.mk Array.append_assoc

theorem append_zeros (v : FeatureVector) : v ++ zeros 0 = v :=
  congrArg FeatureVector.mk Array.append_empty

/-- The row in the middle of three that stand one behind another. -/
theorem slice_append_middle (u v w : FeatureVector) :
    (u ++ (v ++ w)).slice u.dimension (u.dimension + v.dimension) = v := by
  have hcounts : (u.counts ++ (v.counts ++ w.counts)).extract u.counts.size
      (u.counts.size + v.counts.size) = v.counts := by
    rw [Array.extract_append_right, Array.extract_append_left, Array.extract_size]
  exact congrArg FeatureVector.mk hcounts

end FeatureVector

/-! ### Layouts of given widths -/

namespace Layout

/-- The sections lie one behind another and take up the first `n` positions. -/
structure Tiles (l : Layout) (n : ℕ) : Prop where
  /-- A section begins where the one before it ends. -/
  contiguous : l.sections.IsChain fun s t => s.stop = t.start
  /-- No position lies in two sections. -/
  disjoint : l.sections.Pairwise fun s t => s.stop ≤ t.start
  /-- The positions below `n`, and no others, lie in a section. -/
  covers : ∀ i, i < n ↔ ∃ s ∈ l.sections, s.start ≤ i ∧ i < s.stop
  dimension_eq : l.dimension = n

/-- The sum of the widths. -/
def totalWidth (widths : List (String × ℕ)) : ℕ :=
  (widths.map Prod.snd).sum

theorem totalWidth_cons (name : String) (width : ℕ) (widths : List (String × ℕ)) :
    totalWidth ((name, width) :: widths) = width + totalWidth widths := by
  rw [totalWidth, List.map_cons, List.sum_cons, totalWidth]

/-- A section that does not reach beyond the positions ends behind its width. -/
theorem sectionsFrom_cons {start width : ℕ} (h : start + width < 2 ^ 64) (name : String)
    (widths : List (String × ℕ)) :
    sectionsFrom start ((name, width) :: widths) =
      ⟨name, start, start + width⟩ :: sectionsFrom (start + width) widths := by
  have hstop : (start + width) % UInt64.size = start + width := Nat.mod_eq_of_lt h
  rw [sectionsFrom, hstop]

theorem le_start_of_mem_sectionsFrom {s : Section} {widths : List (String × ℕ)} :
    ∀ {start : ℕ}, start + totalWidth widths < 2 ^ 64 → s ∈ sectionsFrom start widths →
      start ≤ s.start := by
  induction widths with
  | nil => exact fun _ h => absurd h List.not_mem_nil
  | cons entry widths ih =>
    intro start hfits h
    obtain ⟨name, width⟩ := entry
    rw [totalWidth_cons] at hfits
    rw [sectionsFrom_cons (by omega)] at h
    rcases List.mem_cons.mp h with rfl | h
    · exact le_rfl
    · exact le_trans (Nat.le_add_right start width) (ih (by omega) h)

theorem isChain_sectionsFrom (widths : List (String × ℕ)) : ∀ start : ℕ,
    (sectionsFrom start widths).IsChain fun s t => s.stop = t.start := by
  induction widths with
  | nil => exact fun _ => List.isChain_nil
  | cons entry widths ih =>
    intro start
    rw [sectionsFrom, List.isChain_cons]
    refine ⟨fun t ht => ?_, ih _⟩
    cases widths with
    | nil => cases ht
    | cons next widths =>
      obtain rfl := Option.some.inj ht
      rfl

theorem pairwise_sectionsFrom (widths : List (String × ℕ)) : ∀ start : ℕ,
    start + totalWidth widths < 2 ^ 64 →
      (sectionsFrom start widths).Pairwise fun s t => s.stop ≤ t.start := by
  induction widths with
  | nil => exact fun _ _ => List.Pairwise.nil
  | cons entry widths ih =>
    intro start hfits
    obtain ⟨name, width⟩ := entry
    rw [totalWidth_cons] at hfits
    rw [sectionsFrom_cons (by omega)]
    have hrest : start + width + totalWidth widths < 2 ^ 64 := by omega
    exact List.pairwise_cons.mpr
      ⟨fun t ht => le_start_of_mem_sectionsFrom hrest ht, ih _ hrest⟩

/-- A position belongs to a section exactly if it lies between the start and the end of all. -/
theorem exists_mem_sectionsFrom_iff (i : ℕ) (widths : List (String × ℕ)) : ∀ start : ℕ,
    start + totalWidth widths < 2 ^ 64 →
      ((∃ s ∈ sectionsFrom start widths, s.start ≤ i ∧ i < s.stop) ↔
        start ≤ i ∧ i < start + totalWidth widths) := by
  induction widths with
  | nil =>
    intro start _
    refine iff_of_false ?_ ?_
    · rintro ⟨s, hs, -⟩
      exact absurd hs List.not_mem_nil
    · rintro ⟨hle, hlt⟩
      exact absurd hlt (Nat.not_lt.mpr hle)
  | cons entry widths ih =>
    intro start hfits
    obtain ⟨name, width⟩ := entry
    rw [totalWidth_cons] at hfits ⊢
    rw [sectionsFrom_cons (by omega), List.exists_mem_cons_iff, ih _ (by omega)]
    dsimp only
    omega

theorem getLast?_sectionsFrom (widths : List (String × ℕ)) : ∀ start : ℕ,
    start + totalWidth widths < 2 ^ 64 →
      ((sectionsFrom start widths).getLast?.map Section.stop).getD start =
        start + totalWidth widths := by
  induction widths with
  | nil => exact fun _ _ => rfl
  | cons entry widths ih =>
    intro start hfits
    obtain ⟨name, width⟩ := entry
    rw [totalWidth_cons] at hfits ⊢
    rw [sectionsFrom_cons (by omega), ← Nat.add_assoc, ← ih (start + width) (by omega),
      List.getLast?_cons]
    cases (sectionsFrom (start + width) widths).getLast? <;> rfl

/-- **Sections of given widths** lie one behind another, if all positions are words. -/
theorem tiles_ofWidths {widths : List (String × ℕ)} (h : totalWidth widths < 2 ^ 64) :
    (ofWidths widths).Tiles (totalWidth widths) := by
  have hfits : 0 + totalWidth widths < 2 ^ 64 := by rwa [Nat.zero_add]
  refine ⟨isChain_sectionsFrom widths 0, pairwise_sectionsFrom widths 0 hfits, fun i => ?_,
    (getLast?_sectionsFrom widths 0 hfits).trans (Nat.zero_add _)⟩
  have hcovers := exists_mem_sectionsFrom_iff i widths 0 hfits
  rw [Nat.zero_add] at hcovers
  exact (hcovers.trans (and_iff_right (Nat.zero_le i))).symm

/-- The names of rows and how long the rows are. -/
def widthsOf (parts : List (String × FeatureVector)) : List (String × ℕ) :=
  parts.map fun part => (part.1, part.2.dimension)

/-- Rows behind a first one are found at their names. -/
theorem exists_mem_sectionsFrom {name : String} {v : FeatureVector}
    {parts : List (String × FeatureVector)} (h : (name, v) ∈ parts)
    (hnodup : (parts.map Prod.fst).Nodup) : ∀ front : FeatureVector,
    front.dimension + totalWidth (widthsOf parts) < 2 ^ 64 →
    ∃ s, (sectionsFrom front.dimension (widthsOf parts)).find? (fun s => s.name == name) = some s ∧
      s.start ≤ s.stop ∧ s.stop ≤ (front ++ .concat (parts.map Prod.snd)).dimension ∧
      s.of (front ++ .concat (parts.map Prod.snd)) = v := by
  induction parts with
  | nil => exact absurd h List.not_mem_nil
  | cons part parts ih =>
    intro front hfits
    obtain ⟨hnotMem, hnodup⟩ := List.nodup_cons.mp hnodup
    have hrows : FeatureVector.concat ((part :: parts).map Prod.snd) =
        part.2 ++ .concat (parts.map Prod.snd) := rfl
    have hwidth : totalWidth (widthsOf (part :: parts)) =
        part.2.dimension + totalWidth (widthsOf parts) := totalWidth_cons _ _ _
    have hsections : sectionsFrom front.dimension (widthsOf (part :: parts)) =
        ⟨part.1, front.dimension, front.dimension + part.2.dimension⟩ ::
          sectionsFrom (front ++ part.2).dimension (widthsOf parts) := by
      rw [FeatureVector.dimension_append]
      exact sectionsFrom_cons (by omega) _ _
    rw [hrows, hsections]
    rcases List.mem_cons.mp h with rfl | h
    · -- The first row.
      refine ⟨_, List.find?_cons_of_pos (beq_self_eq_true name), Nat.le_add_right _ _, ?_, ?_⟩
      · rw [FeatureVector.dimension_append, FeatureVector.dimension_append]
        exact Nat.add_le_add_left (Nat.le_add_right _ _) _
      · exact FeatureVector.slice_append_middle _ _ _
    · have hne : part.1 ≠ name := fun heq => hnotMem (heq ▸ List.mem_map.mpr ⟨_, h, rfl⟩)
      rw [List.find?_cons_of_neg (by simpa using hne), ← FeatureVector.append_assoc]
      refine ih h hnodup (front ++ part.2) ?_
      rw [FeatureVector.dimension_append]
      omega

/-- **Rows are cut out again** by the layout of their widths, if all positions are words. -/
theorem slice?_ofWidths {name : String} {v : FeatureVector} {parts : List (String × FeatureVector)}
    (h : (name, v) ∈ parts) (hnodup : (parts.map Prod.fst).Nodup)
    (hfits : totalWidth (widthsOf parts) < 2 ^ 64) :
    (ofWidths (widthsOf parts)).slice? (.concat (parts.map Prod.snd)) name = some v := by
  have hzeros : (FeatureVector.zeros 0).dimension + totalWidth (widthsOf parts) < 2 ^ 64 := by
    rwa [FeatureVector.dimension_zeros, Nat.zero_add]
  obtain ⟨s, hfind, hstart, hstop, hof⟩ := exists_mem_sectionsFrom h hnodup (.zeros 0) hzeros
  have hfront : FeatureVector.zeros 0 ++ .concat (parts.map Prod.snd) =
      .concat (parts.map Prod.snd) := congrArg FeatureVector.mk Array.empty_append
  rw [hfront] at hstop hof
  have hfind : (ofWidths (widthsOf parts)).find? name = some s := hfind
  rw [slice?, hfind, Option.bind_some, if_pos ⟨hstart, hstop⟩, hof]

end Layout

namespace Fingerprint

/-! ### The sections of a change -/

/-- The histograms of a change, in the order of its layout. -/
def partsOfChange (b : Buckets) (c : Change) : List (String × FeatureVector) :=
  [("hash-sum [old]", subtreeHistogram b.half c.old.node),
   ("hash-sum [new]", subtreeHistogram b.half c.new.node),
   ("parent-child [old]", edgeHistogram b.half c.old.node),
   ("parent-child [new]", edgeHistogram b.half c.new.node)]

/-- The histograms are as long as the layout says. -/
theorem widthsOf_partsOfChange (b : Buckets) (c : Change) :
    Layout.widthsOf (partsOfChange b c) =
      [("hash-sum [old]", b.half), ("hash-sum [new]", b.half), ("parent-child [old]", b.half),
       ("parent-child [new]", b.half)] := by
  simp only [partsOfChange, Layout.widthsOf, List.map_cons, List.map_nil,
    dimension_subtreeHistogram, dimension_edgeHistogram]

theorem concat_partsOfChange (b : Buckets) (c : Change) :
    .concat ((partsOfChange b c).map Prod.snd) = ofChange b c := by
  simp only [partsOfChange, FeatureVector.concat, List.map_cons, List.map_nil, List.foldr_cons,
    List.foldr_nil, FeatureVector.append_zeros, ofChange, FeatureVector.append_assoc]

theorem two_mul_half (b : Buckets) : 2 * b.half = b.count :=
  Nat.mul_div_cancel' (Nat.dvd_of_mod_eq_zero b.even)

/-- Four halves of the buckets are as long as a fingerprint. -/
theorem totalWidth_halves (b : Buckets) :
    Layout.totalWidth [("hash-sum [old]", b.half), ("hash-sum [new]", b.half),
      ("parent-child [old]", b.half), ("parent-child [new]", b.half)] = 2 * b.count := by
  have hhalf := two_mul_half b
  simp only [Layout.totalWidth, List.map_cons, List.map_nil, List.sum_cons, List.sum_nil]
  omega

theorem tiles_changeLayout {b : Buckets} (hcount : b.count < 2 ^ 63) :
    b.changeLayout.Tiles (2 * b.count) := by
  rw [← totalWidth_halves b]
  exact Layout.tiles_ofWidths (by rw [totalWidth_halves]; omega)

/-- The layout of a change, as long as its positions are words. -/
theorem sections_changeLayout {b : Buckets} (hcount : b.count < 2 ^ 63) :
    b.changeLayout.sections =
      [⟨"hash-sum [old]", 0, 0 + b.half⟩, ⟨"hash-sum [new]", 0 + b.half, 0 + b.half + b.half⟩,
       ⟨"parent-child [old]", 0 + b.half + b.half, 0 + b.half + b.half + b.half⟩,
       ⟨"parent-child [new]", 0 + b.half + b.half + b.half,
        0 + b.half + b.half + b.half + b.half⟩] := by
  have hhalf := two_mul_half b
  rw [Buckets.changeLayout, Layout.ofWidths, Layout.sectionsFrom_cons (by omega),
    Layout.sectionsFrom_cons (by omega), Layout.sectionsFrom_cons (by omega),
    Layout.sectionsFrom_cons (by omega), Layout.sectionsFrom]

/-- **2^63 buckets are too many**: the fingerprint of a change would have 2^64 counters, and the last of
its four sections ends at position 0.  So the sections do not cover the fingerprint, and the last one
cannot be cut out of any row. -/
theorem not_tiles_changeLayout : ∃ b : Buckets, Buckets.ofNat? (2 ^ 63) = some b ∧
    b.changeLayout.sections.map (fun s => (s.start, s.stop)) =
      [(0, 2 ^ 62), (2 ^ 62, 2 ^ 63), (2 ^ 63, 3 * 2 ^ 62), (3 * 2 ^ 62, 0)] ∧
    ¬ b.changeLayout.Tiles (2 * b.count) ∧
    ∀ v, b.changeLayout.slice? v "parent-child [new]" = none := by
  refine ⟨⟨2 ^ 63, by decide, by decide⟩, rfl, rfl, fun h => ?_, fun v => ?_⟩
  · exact absurd h.dimension_eq (by decide)
  · have hfind : (Buckets.changeLayout ⟨2 ^ 63, by decide, by decide⟩).find? "parent-child [new]" =
        some ⟨"parent-child [new]", 3 * 2 ^ 62, 0⟩ := rfl
    rw [Layout.slice?, hfind, Option.bind_some]
    exact if_neg fun h => absurd h.1 (by decide)

/-- **The sections of the fingerprint of a change** are its histograms. -/
theorem slice?_ofChange {b : Buckets} {c : Change} {name : String} {v : FeatureVector}
    (hcount : b.count < 2 ^ 63) (h : (name, v) ∈ partsOfChange b c) :
    b.changeLayout.slice? (ofChange b c) name = some v := by
  have hnodup : ((partsOfChange b c).map Prod.fst).Nodup := by
    show ["hash-sum [old]", "hash-sum [new]", "parent-child [old]", "parent-child [new]"].Nodup
    decide
  have hfits : Layout.totalWidth (Layout.widthsOf (partsOfChange b c)) < 2 ^ 64 := by
    rw [widthsOf_partsOfChange, totalWidth_halves]
    omega
  have hslice := Layout.slice?_ofWidths h hnodup hfits
  rwa [widthsOf_partsOfChange, concat_partsOfChange] at hslice

/-- **The sides of a change do not interfere** in its fingerprint.  With less than 2^63 buckets, the four
sections lie one behind another and make up the whole fingerprint, with half of the buckets each.  They
hold the subtrees of the old side, those of the new side, the pairs of a parent and a child of the old
side and those of the new side, and if no side has 2^32 nodes, they sum to the numbers of nodes and to
one less.  What the sections of a side hold depends on the shape and the names of constructs of this side
alone. -/
theorem ofChange_sides_apart (b : Buckets) (hcount : b.count < 2 ^ 63) (c : Change)
    (hold : c.old.node.size < 2 ^ 32) (hnew : c.new.node.size < 2 ^ 32) :
    b.changeLayout.Tiles (2 * b.count) ∧
    (∀ s ∈ b.changeLayout.sections, s.stop = s.start + b.count / 2) ∧
    b.changeLayout.sections.map (fun s => (s.name, b.changeLayout.slice? (ofChange b c) s.name)) =
      [("hash-sum [old]", some (subtreeHistogram (b.count / 2) c.old.node)),
       ("hash-sum [new]", some (subtreeHistogram (b.count / 2) c.new.node)),
       ("parent-child [old]", some (edgeHistogram (b.count / 2) c.old.node)),
       ("parent-child [new]", some (edgeHistogram (b.count / 2) c.new.node))] ∧
    b.changeLayout.sections.map
        (fun s => (b.changeLayout.slice? (ofChange b c) s.name).map FeatureVector.total) =
      [some c.old.node.size, some c.new.node.size, some (c.old.node.size - 1),
       some (c.new.node.size - 1)] ∧
    ∀ d : Change,
      (d.old.node.skeleton = c.old.node.skeleton →
        ∀ name ∈ ["hash-sum [old]", "parent-child [old]"],
          b.changeLayout.slice? (ofChange b d) name = b.changeLayout.slice? (ofChange b c) name) ∧
      (d.new.node.skeleton = c.new.node.skeleton →
        ∀ name ∈ ["hash-sum [new]", "parent-child [new]"],
          b.changeLayout.slice? (ofChange b d) name = b.changeLayout.slice? (ofChange b c) name) := by
  have hpos : 0 < b.half := Nat.div_pos b.two_le Nat.zero_lt_two
  -- What stands at each of the four names, for any change.
  have holdSubtrees : ∀ d : Change, b.changeLayout.slice? (ofChange b d) "hash-sum [old]" =
      some (subtreeHistogram b.half d.old.node) := fun d => slice?_ofChange hcount (.head _)
  have hnewSubtrees : ∀ d : Change, b.changeLayout.slice? (ofChange b d) "hash-sum [new]" =
      some (subtreeHistogram b.half d.new.node) := fun d => slice?_ofChange hcount (.tail _ (.head _))
  have holdEdges : ∀ d : Change, b.changeLayout.slice? (ofChange b d) "parent-child [old]" =
      some (edgeHistogram b.half d.old.node) :=
    fun d => slice?_ofChange hcount (.tail _ (.tail _ (.head _)))
  have hnewEdges : ∀ d : Change, b.changeLayout.slice? (ofChange b d) "parent-child [new]" =
      some (edgeHistogram b.half d.new.node) :=
    fun d => slice?_ofChange hcount (.tail _ (.tail _ (.tail _ (.head _))))
  refine ⟨tiles_changeLayout hcount, ?_, ?_, ?_, fun d => ⟨fun h => ?_, fun h => ?_⟩⟩
  · rw [sections_changeLayout hcount]
    simp [Buckets.half]
  · rw [sections_changeLayout hcount]
    simp only [List.map_cons, List.map_nil, holdSubtrees, hnewSubtrees, holdEdges, hnewEdges]
    rfl
  · rw [sections_changeLayout hcount]
    simp only [List.map_cons, List.map_nil, holdSubtrees, hnewSubtrees, holdEdges, hnewEdges,
      Option.map_some, total_subtreeHistogram _ hpos hold, total_subtreeHistogram _ hpos hnew,
      total_edgeHistogram _ hpos hold, total_edgeHistogram _ hpos hnew]
  · refine List.forall_mem_cons.mpr ⟨?_, List.forall_mem_singleton.mpr ?_⟩
    · rw [holdSubtrees, holdSubtrees, subtreeHistogram_eq_of_skeleton_eq _ h]
    · rw [holdEdges, holdEdges, edgeHistogram_eq_of_skeleton_eq _ h]
  · refine List.forall_mem_cons.mpr ⟨?_, List.forall_mem_singleton.mpr ?_⟩
    · rw [hnewSubtrees, hnewSubtrees, subtreeHistogram_eq_of_skeleton_eq _ h]
    · rw [hnewEdges, hnewEdges, edgeHistogram_eq_of_skeleton_eq _ h]

/-- A call with an argument is changed into another tree. -/
def changedCall (new : Rose Label) : Rose Label :=
  .node (.construct "change")
    [.node (.construct "call") [.leaf (.token "f"), .leaf (.token "x")], .leaf (.token "->"), new]

/-- The call loses its argument, or everything.  The old side is counted alike in both changes. -/
theorem changedCall_sides_apart :
    ∃ c d,
      Change.ofTree (Tree.ofLabels ⟨0, []⟩
        (changedCall (.node (.construct "call") [.leaf (.token "f")]))).2 "->" = .ok c ∧
      Change.ofTree (Tree.ofLabels ⟨0, []⟩ (changedCall (.leaf (.construct "args")))).2 "->" = .ok d ∧
      c.old.node.size < 2 ^ 32 ∧ c.new.node.size < 2 ^ 32 ∧
      ∃ b : Buckets, b.count < 2 ^ 63 ∧ b.changeLayout.sections.map
          (fun s => (b.changeLayout.slice? (ofChange b c) s.name).map FeatureVector.total) =
        [some 3, some 2, some 2, some 1] ∧
        ∀ name ∈ ["hash-sum [old]", "parent-child [old]"],
          b.changeLayout.slice? (ofChange b d) name = b.changeLayout.slice? (ofChange b c) name := by
  have hc : Change.ofTree (Tree.ofLabels ⟨0, []⟩
    (changedCall (.node (.construct "call") [.leaf (.token "f")]))).2 "->" = .ok _ := rfl
  have hd : Change.ofTree
    (Tree.ofLabels ⟨0, []⟩ (changedCall (.leaf (.construct "args")))).2 "->" = .ok _ := rfl
  have hcount : 128 < 2 ^ 63 := by decide
  refine ⟨_, _, hc, hd, by decide, by decide, ⟨128, by decide, rfl⟩, hcount, ?_, ?_⟩
  · exact (ofChange_sides_apart _ hcount _ (by decide) (by decide)).2.2.2.1
  · exact ((ofChange_sides_apart _ hcount _ (by decide) (by decide)).2.2.2.2 _).1 rfl

end Fingerprint

end ChangeQuery
