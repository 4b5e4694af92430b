import ChangeQuery.Proofs.Comparison.Outlines
import ChangeQuery.Proofs.Fingerprint.Labels
import ChangeQuery.Proofs.Tree.Together

/-!
## What can be observed of trees

An `Observation` collects everything that the program says about a query node and a candidate: the
kind of the node, whether the nodes agree, the placeholders, the comparison with its trace, the hash
and the fingerprint.  Trees of equal outline cannot be told apart by observations, over whatever
vocabularies they grew.

* `Tree.observation?_congr`: observations of trees of equal outlines.
* `Tree.changeFingerprint?_congr`: the fingerprint of the change that a tree is.
-/

namespace ChangeQuery

open Placeholder (Table Kind)

/-- What the program says about a query node and a candidate. -/
structure Observation where
  kind : Kind
  sameCategory : Bool
  matchesPlaceholder : Bool
  matchesEmpty : Bool
  /-- The outcome of the comparison, and the trace with its decisions added. -/
  comparison : Bool × Trace
  subtreeHash : UInt64
  fingerprint : FeatureVector

/-- The observation of a query node and a candidate. -/
def Site.observe (table : Table) (trace : Trace) (b : Buckets) (query candidate : Site) :
    Observation where
  kind := table.kind query.node
  sameCategory := query.node.sameCategory candidate.node
  matchesPlaceholder := table.matchesPlaceholder query.node candidate
  matchesEmpty := table.matchesEmpty query.node candidate
  comparison := Comparison.compare table query.node candidate trace
  subtreeHash := Fingerprint.subtreeHash query.node
  fingerprint := Fingerprint.ofNode b query.node

theorem Site.observe_congr {table : Table} {query query' candidate candidate' : Site}
    (hquery : query.outline = query'.outline) (hcandidate : candidate.outline = candidate'.outline)
    (hfaithful : Comparison.Faithful query.node candidate.node)
    (hfaithful' : Comparison.Faithful query'.node candidate'.node) (trace : Trace) (b : Buckets) :
    observe table trace b query candidate = observe table trace b query' candidate' := by
  have hnode := node_congr hquery
  have hlabels := labels_congr hquery
  rw [observe, observe, table.kind_congr hlabels,
    Comparison.sameCategory_congr hfaithful hfaithful' hlabels (labels_congr hcandidate),
    Table.matchesPlaceholder_congr hnode hcandidate, Table.matchesEmpty_congr hnode hcandidate,
    Comparison.compare_congr hnode hcandidate hfaithful hfaithful',
    Fingerprint.subtreeHash_congr _ _ hlabels, Fingerprint.ofNode_congr b hlabels]

namespace Tree

/-- The observation of the node with number `i` as a query and the node of `u` with number `j` as a
candidate. -/
def observation? (table : Table) (trace : Trace) (b : Buckets) (t u : Tree) (i j : ℕ) :
    Option Observation :=
  (t.site? i).bind fun query => (u.site? j).map (Site.observe table trace b query)

/-- **Trees of equal outlines** cannot be told apart, whatever vocabularies they grew over. -/
theorem observation?_congr {v w v' w' : Vocabulary} {t u t' u' : Tree} (ht : t.Over v)
    (hu : u.Over w) (hcompatible : v.Compatible w) (ht' : t'.Over v') (hu' : u'.Over w')
    (hcompatible' : v'.Compatible w') (houtline : t.outline = t'.outline)
    (houtline' : u.outline = u'.outline) (table : Table) (trace : Trace) (b : Buckets) (i j : ℕ) :
    observation? table trace b t u i j = observation? table trace b t' u' i j := by
  have hmem : ∀ {t : Tree} {i : ℕ} {s : Site}, t.site? i = some s → s ∈ t.sites :=
    fun h => List.mem_of_find?_eq_some h
  rw [observation?, observation?]
  rcases option_cases_of_map_eq (map_outline_site? houtline i) with
    ⟨hq, hq'⟩ | ⟨query, query', hq, hq', hquery⟩
  · rw [hq, hq']
    rfl
  rcases option_cases_of_map_eq (map_outline_site? houtline' j) with
    ⟨hc, hc'⟩ | ⟨candidate, candidate', hc, hc', hcandidate⟩
  · rw [hq, hq', hc, hc']
    rfl
  · have hfaithful := Comparison.faithful_of_over hcompatible (ht.of_mem_sites (hmem hq))
      (hu.of_mem_sites (hmem hc))
    have hfaithful' := Comparison.faithful_of_over hcompatible' (ht'.of_mem_sites (hmem hq'))
      (hu'.of_mem_sites (hmem hc'))
    rw [hq, hq', hc, hc', Option.bind_some, Option.bind_some, Option.map_some, Option.map_some,
      Site.observe_congr hquery hcandidate hfaithful hfaithful']

/-- The fingerprint of the change that a tree is. -/
def changeFingerprint? (b : Buckets) (delimiter : String) (t : Tree) :
    Except ParseError FeatureVector :=
  (Change.ofTree t delimiter).map (Fingerprint.ofChange b)

theorem changeFingerprint?_congr {t t' : Tree} (h : t.outline = t'.outline) (b : Buckets)
    (delimiter : String) :
    changeFingerprint? b delimiter t = changeFingerprint? b delimiter t' := by
  rw [changeFingerprint?, changeFingerprint?]
  rcases except_cases_of_map_eq (Change.ofTree_congr h delimiter) with
    ⟨cause, hof, hof'⟩ | ⟨change, change', hof, hof', houtline⟩
  · rw [hof, hof']
  · obtain ⟨-, hsides⟩ := Prod.mk.inj houtline
    obtain ⟨hold, hnew⟩ := Prod.mk.inj hsides
    rw [hof, hof']
    exact congrArg Except.ok
      (Fingerprint.ofChange_congr b (Site.labels_congr hold) (Site.labels_congr hnew))

end Tree

end ChangeQuery
