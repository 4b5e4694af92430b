import ChangeQuery.Comparison
import ChangeQuery.Proofs.Change.Outline
import ChangeQuery.Proofs.Tree.Symbols

/-!
## Comparisons and vocabularies

A comparison looks at vocabularies in one place only, when it asks whether two nodes agree.  If the
nodes are symbols of vocabularies that can be told apart or grew from each other, the labels answer
that question (`Faithful`).  Then the whole comparison, with its trace, is known from the outlines.

* `compare_congr`: nodes of equal outlines are compared with the same outcome and the same trace.
* `report_congr`: the trace reads the same.
-/

namespace ChangeQuery.Comparison

open Placeholder (Table)

variable {table : Table}

/-- Whether nodes at and below `a` agree with nodes at and below `b` can be read off the labels. -/
def Faithful (a b : Node) : Prop :=
  ∀ n ∈ a.preorder, ∀ m ∈ b.preorder,
    Node.sameCategory n m = (Node.category n).label.same (Node.category m).label

theorem Faithful.self {a b : Node} (h : Faithful a b) :
    a.sameCategory b = a.category.label.same b.category.label :=
  h a a.mem_preorder_self b b.mem_preorder_self

theorem Faithful.child {a b c d : Node} (h : Faithful a b) (hc : c ∈ a.children)
    (hd : d ∈ b.children) : Faithful c d :=
  fun n hn m hm => h n (Rose.mem_preorder_child hc hn) m (Rose.mem_preorder_child hd hm)

/-- Symbols of compatible vocabularies agree if their labels do. -/
theorem faithful_of_over {v w : Vocabulary} (h : v.Compatible w) {a b : Node} (ha : a.Over v)
    (hb : b.Over w) : Faithful a b :=
  fun n hn m hm => Category.same_eq h (ha n hn) (hb m hm)

theorem sameCategory_congr {a a' b b' : Node} (h : Faithful a b) (h' : Faithful a' b')
    (ha : a.labels = a'.labels) (hb : b.labels = b'.labels) :
    a.sameCategory b = a'.sameCategory b' := by
  rw [h.self, h'.self, (Node.labels_eq_iff.mp ha).1, (Node.labels_eq_iff.mp hb).1]

/-- Every comparison of the query can be carried out with nodes of equal outlines instead. -/
def ComparesAlike (table : Table) (query : Node) : Prop :=
  ∀ (query' : Node) (candidate candidate' : Site) (trace : Trace),
    query.outline = query'.outline → candidate.outline = candidate'.outline →
      Faithful query candidate.node → Faithful query' candidate'.node →
        compare table query candidate trace = compare table query' candidate' trace

theorem compareEach_congr {queries : List Node} (h : ∀ q ∈ queries, ComparesAlike table q) :
    ∀ (index : ℕ) (queries' : List Node) (candidates candidates' : List Site) (trace : Trace),
      queries.map Node.outline = queries'.map Node.outline →
        candidates.map Site.outline = candidates'.map Site.outline →
          (∀ q ∈ queries, ∀ c ∈ candidates, Faithful q c.node) →
            (∀ q ∈ queries', ∀ c ∈ candidates', Faithful q c.node) →
              compareEach table index queries candidates trace =
                compareEach table index queries' candidates' trace := by
  induction queries with
  | nil =>
    intro index queries' candidates candidates' trace hqueries _ _ _
    rw [List.map_eq_nil_iff.mp hqueries.symm]
    rfl
  | cons q queries ih =>
    intro index queries' candidates candidates' trace hqueries hcandidates hfaithful hfaithful'
    cases queries' with
    | nil => cases hqueries
    | cons q' queries' =>
    cases candidates with
    | nil =>
      rw [List.map_eq_nil_iff.mp hcandidates.symm]
      rfl
    | cons c candidates =>
    cases candidates' with
    | nil => cases hcandidates
    | cons c' candidates' =>
    obtain ⟨hq, hqueries⟩ := List.cons.inj hqueries
    obtain ⟨hc, hcandidates⟩ := List.cons.inj hcandidates
    have hfirst := h q List.mem_cons_self q' c c' trace hq hc
      (hfaithful q List.mem_cons_self c List.mem_cons_self)
      (hfaithful' q' List.mem_cons_self c' List.mem_cons_self)
    have hrest := fun trace => ih (fun q hq => h q (List.mem_cons_of_mem _ hq)) (index + 1) queries'
      candidates candidates' trace hqueries hcandidates
      (fun q hq c hc => hfaithful q (List.mem_cons_of_mem _ hq) c (List.mem_cons_of_mem _ hc))
      (fun q hq c hc => hfaithful' q (List.mem_cons_of_mem _ hq) c (List.mem_cons_of_mem _ hc))
    rw [compareEach, compareEach, hfirst]
    cases compare table q' c' trace with
    | mk outcome trace =>
      cases outcome with
      | false => rfl
      | true => exact hrest trace

theorem comparesAlike (query : Node) : ComparesAlike table query := by
  induction query using Rose.induct with
  | node entry children ih =>
    rintro ⟨entry', children'⟩ candidate candidate' trace hquery hcandidate hfaithful hfaithful'
    have hlabels := Node.labels_congr hquery
    have hlabels' := Site.labels_congr hcandidate
    obtain ⟨hid, -, hchildren⟩ := Node.outline_eq_iff.mp hquery
    have hid' := (Node.outline_eq_iff.mp (Site.node_congr hcandidate)).1
    have hlength : children.length = children'.length := Node.length_children_congr hlabels
    have hempty : children.isEmpty = children'.isEmpty := Node.isLeaf_congr hlabels
    have heach := compareEach_congr ih 0 children' candidate.children candidate'.children trace
      hchildren (Site.children_congr hcandidate)
      (by
        intro q hq c hc
        obtain ⟨m, hm, rfl⟩ := List.mem_map.mp hc
        exact hfaithful.child hq hm)
      (by
        intro q hq c hc
        obtain ⟨m, hm, rfl⟩ := List.mem_map.mp hc
        exact hfaithful'.child hq hm)
    rw [compare, compare]
    dsimp only
    rw [table.kind_congr hlabels, sameCategory_congr hfaithful hfaithful' hlabels hlabels',
      Node.label_congr hlabels, Node.label_congr hlabels', Node.isLeaf_congr hlabels', hempty,
      hlength, Node.length_children_congr hlabels', heach, hid, hid',
      Table.isEmptySide_congr hcandidate]
    simp only [Table.ruleHolds_congr hcandidate]

/-- **Comparisons see outlines only**: nodes of equal outlines give the same outcome and the same
trace, as long as labels tell whether nodes agree. -/
theorem compare_congr {query query' : Node} {candidate candidate' : Site}
    (hquery : query.outline = query'.outline) (hcandidate : candidate.outline = candidate'.outline)
    (hfaithful : Faithful query candidate.node) (hfaithful' : Faithful query' candidate'.node)
    (trace : Trace) :
    compare table query candidate trace = compare table query' candidate' trace :=
  comparesAlike query query' candidate candidate' trace hquery hcandidate hfaithful hfaithful'

/-- Labels tell whether nodes of two changes agree. -/
structure FaithfulChanges (query candidate : Change) : Prop where
  old : Faithful query.old.node candidate.old.node
  new : Faithful query.new.node candidate.new.node

/-- **Comparing changes** sees outlines only. -/
theorem compareChanges_congr {query query' candidate candidate' : Change}
    (hquery : query.outline = query'.outline) (hcandidate : candidate.outline = candidate'.outline)
    (hfaithful : FaithfulChanges query candidate) (hfaithful' : FaithfulChanges query' candidate')
    (trace : Trace) :
    compareChanges table query candidate trace = compareChanges table query' candidate' trace := by
  obtain ⟨-, hsides⟩ := Prod.mk.inj hquery
  obtain ⟨hold, hnew⟩ := Prod.mk.inj hsides
  obtain ⟨-, hsides⟩ := Prod.mk.inj hcandidate
  obtain ⟨hold', hnew'⟩ := Prod.mk.inj hsides
  rw [compareChanges, compareChanges, compare_congr (Site.node_congr hold) hold' hfaithful.old
    hfaithful'.old]
  cases compare table query'.old.node candidate'.old trace with
  | mk outcome trace =>
    cases outcome with
    | false => rfl
    | true => exact compare_congr (Site.node_congr hnew) hnew' hfaithful.new hfaithful'.new trace

/-! ### Reports -/

theorem quotedLabel_congr {t t' : Tree} (h : t.outline = t'.outline) (i : ℕ) :
    Trace.quotedLabel t i = Trace.quotedLabel t' i := by
  rw [Trace.quotedLabel, Trace.quotedLabel]
  rcases option_cases_of_map_eq (Tree.map_outline_site? h i) with
    ⟨hs, hs'⟩ | ⟨s, s', hs, hs', houtline⟩
  · rw [hs, hs']
  · rw [hs, hs', Option.map_some, Option.map_some, Node.label_congr (Site.labels_congr houtline)]

/-- **A trace reads the same** with trees of equal outlines. -/
theorem report_congr {query query' candidate candidate' : Tree} (hquery : query.outline = query'.outline)
    (hcandidate : candidate.outline = candidate'.outline) (trace : Trace) :
    trace.report query candidate = trace.report query' candidate' := by
  have hline : Trace.line query candidate = Trace.line query' candidate' := by
    funext d
    rw [Trace.line, Trace.line, quotedLabel_congr hquery, quotedLabel_congr hcandidate]
  rw [Trace.report, Trace.report, hline]

end ChangeQuery.Comparison
