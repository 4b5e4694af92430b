import ChangeQuery.Proofs.Comparison.Pieces
import ChangeQuery.Proofs.Tree.Postorder
import ChangeQuery.Proofs.Tree.Traversal
import Mathlib.Data.List.Chain

/-!
## The decisions of a comparison

A comparison adds its decisions to a trace: at most one for each query node, after those for the nodes
below it.  The last decision is about the two nodes that were compared.

If they match, nothing failed, and there is a decision for every query node that does not stand below a
wildcard.  If they do not match, the decisions that failed are the last ones.  The first of them says
what went wrong, and each of the others says which child the one before is about.

* `compare_cases`: what a single step of the comparison adds.
* `IsRecord`: what the added decisions are; `exists_isRecord` says that they are this for every query
  node and every candidate, by induction on the query.
* `compare_record`: the statement for the nodes of two trees.
-/

namespace ChangeQuery

open Placeholder (Table)

/-! ### Traces -/

/-- Adds decisions at the end. -/
def Trace.extend (t : Trace) (ds : List Decision) : Trace :=
  ⟨t.decisions ++ ds.toArray⟩

theorem Trace.extend_nil (t : Trace) : t.extend [] = t := by
  simp [extend]

theorem Trace.extend_record (t : Trace) (ds : List Decision) (d : Decision) :
    (t.extend ds).record d = t.extend (ds ++ [d]) := by
  apply congrArg Trace.mk
  apply Array.toList_inj.mp
  simp [extend]

theorem Trace.extend_extend (t : Trace) (ds es : List Decision) :
    (t.extend ds).extend es = t.extend (ds ++ es) := by
  simp [extend]

/-- The number of the child at position `i` of the node with number `id`. -/
def Tree.child? (t : Tree) (id i : ℕ) : Option ℕ :=
  (t.link? id).bind fun l => l.children[i]?

theorem Tree.child?_eq_some {t : Tree} {root n c : Node} {i : ℕ}
    (h : t.ids.Perm (List.range t.size)) (hroot : t.root? = some root) (hn : n ∈ root.preorder)
    (hc : n.children[i]? = some c) : t.child? n.id i = some c.id := by
  obtain ⟨l, hl, hchildren⟩ := exists_link h hroot hn
  rw [child?, hl, Option.bind_some, hchildren, List.getElem?_map, hc]
  rfl

namespace Comparison

variable {table : Table} {t u : Tree}

/-! ### One step -/

/-- The node is a wildcard. -/
def isWildcard (table : Table) (n : Node) : Bool :=
  table.kind n == .wildcard

/-- **One step of a comparison**.  Either the nodes are decided by themselves; then a match is with a
wildcard or a node without children.  Or the children are compared, and their outcome decides. -/
theorem compare_cases (table : Table) (entry : Entry) (children : List Node) (candidate : Site)
    (trace : Trace) :
    (∃ outcome reason, (∀ i, reason ≠ .childMismatch i) ∧
      (outcome = true → isWildcard table (.node entry children) = true ∨ children = []) ∧
      compare table (.node entry children) candidate trace =
        (outcome, trace.record ⟨entry.id, candidate.node.id, outcome, reason⟩)) ∨
    isWildcard table (.node entry children) = false ∧
      children.length = candidate.children.length ∧
      compare table (.node entry children) candidate trace =
        match compareEach table 0 children candidate.children trace with
        | (none, trace) => (true, trace.record ⟨entry.id, candidate.node.id, true, .matched⟩)
        | (some i, trace) =>
          (false, trace.record ⟨entry.id, candidate.node.id, false, .childMismatch i⟩) := by
  have hnil : table.kind (.node entry children) ≠ .wildcard →
      table.kind (.node entry children) ≠ .plain → children = [] := by
    intro hwildcard hplain
    by_contra hne
    exact hplain (Placeholder.Table.kind_eq_plain hne hwildcard)
  rw [compare, isWildcard]
  cases hkind : table.kind (.node entry children) with
  | wildcard => exact .inl ⟨true, .wildcard, by simp, fun _ => .inl rfl, rfl⟩
  | empty =>
    have hchildren := hnil (by simp [hkind]) (by simp [hkind])
    exact .inl ⟨_, .empty, by simp, fun _ => .inr hchildren, rfl⟩
  | bare name =>
    have hchildren := hnil (by simp [hkind]) (by simp [hkind])
    exact .inl ⟨_, .placeholder, by simp, fun _ => .inr hchildren, rfl⟩
  | numbered name variant =>
    have hchildren := hnil (by simp [hkind]) (by simp [hkind])
    exact .inl ⟨_, .placeholder, by simp, fun _ => .inr hchildren, rfl⟩
  | plain =>
    dsimp only
    by_cases hempty : children.isEmpty = true
    · rw [if_pos hempty]
      exact .inl ⟨_, .literal, by simp, fun _ => .inr (List.isEmpty_iff.mp hempty), rfl⟩
    rw [if_neg hempty]
    by_cases hsame : Node.sameCategory (.node entry children) candidate.node = true
    · rw [hsame, Bool.not_true, if_neg Bool.false_ne_true]
      by_cases hlength : children.length = candidate.node.children.length
      · rw [if_neg (not_not.mpr hlength)]
        refine .inr ⟨rfl, ?_, ?_⟩
        · rw [Site.children, List.length_map, hlength]
        · cases compareEach table 0 children candidate.children trace with
          | mk index? trace => cases index? <;> rfl
      · rw [if_pos hlength]
        exact .inl ⟨false, .arityMismatch, by simp, by simp, rfl⟩
    · rw [Bool.not_eq_true] at hsame
      rw [hsame, Bool.not_false, if_pos rfl]
      exact .inl ⟨false, .categoryMismatch, by simp, by simp, rfl⟩

/-! ### What is recorded -/

/-- The decision `child` is about the children at position `i` of what `parent` is about. -/
def IsAboutChildren (t u : Tree) (i : ℕ) (child parent : Decision) : Prop :=
  t.child? parent.query i = some child.query ∧
    u.child? parent.candidate i = some child.candidate

/-- Why a comparison failed: the first decision says what went wrong, and each of the others which
child the one before it is about. -/
structure IsFailure (t u : Tree) (chain : List Decision) : Prop where
  ne_nil : chain ≠ []
  failed : ∀ d ∈ chain, d.outcome = false
  cause : ∀ d ∈ chain.head?, ∀ i, d.reason ≠ .childMismatch i
  isChain : chain.IsChain fun child parent =>
    ∃ i, parent.reason = .childMismatch i ∧ IsAboutChildren t u i child parent

/-- The decisions that comparing `query` with `candidate` adds, if the outcome is `outcome`. -/
structure IsRecord (table : Table) (t u : Tree) (query candidate : Node) (outcome : Bool)
    (added : List Decision) : Prop where
  last : ∃ reason, added.getLast? = some ⟨query.id, candidate.id, outcome, reason⟩
  inPostorder : (added.map Decision.query).Sublist (query.postorder.map Node.id)
  passed : outcome = true → (∀ d ∈ added, d.outcome = true) ∧
    added.map Decision.query = (query.prune (isWildcard table)).postorder.map Node.id
  failed : outcome = false → ∃ before chain, added = before ++ chain ∧
    (∀ d ∈ before, d.outcome = true) ∧ IsFailure t u chain

/-- The decisions that comparing the nodes `queries` with their counterparts `candidates` adds, if
`index?` is the position of the first pair that does not match. -/
structure AreRecords (table : Table) (t u : Tree) (queries : List Node) (candidates : List Site)
    (index? : Option ℕ) (added : List Decision) : Prop where
  inPostorder : (added.map Decision.query).Sublist ((queries.flatMap Rose.postorder).map Node.id)
  passed : index? = none → (∀ d ∈ added, d.outcome = true) ∧ added.map Decision.query =
    (queries.flatMap fun q => (q.prune (isWildcard table)).postorder).map Node.id
  failed : ∀ i, index? = some i → ∃ q c before chain d, queries[i]? = some q ∧
    candidates[i]? = some c ∧ added = before ++ chain ∧ (∀ e ∈ before, e.outcome = true) ∧
    IsFailure t u chain ∧ chain.getLast? = some d ∧ d.query = q.id ∧ d.candidate = c.node.id

/-- A decision that rests on no other one. -/
theorem isRecord_singleton {entry : Entry} {children : List Node} {candidate : Node}
    {outcome : Bool} {reason : Reason} (hreason : ∀ i, reason ≠ .childMismatch i)
    (houtcome : outcome = true →
      isWildcard table (.node entry children) = true ∨ children = []) :
    IsRecord table t u (.node entry children) candidate outcome
      [⟨entry.id, candidate.id, outcome, reason⟩] where
  last := ⟨reason, rfl⟩
  inPostorder := by
    rw [Rose.postorder_node, List.map_append]
    exact List.sublist_append_right _ _
  passed htrue := by
    have hprune : (Rose.node entry children).prune (isWildcard table) = .node entry [] := by
      rw [Rose.prune_node]
      rcases houtcome htrue with hwildcard | rfl
      · rw [if_pos hwildcard]
      · rw [List.map_nil, ite_self]
    refine ⟨fun d hd => ?_, ?_⟩
    · rw [List.mem_singleton.mp hd, htrue]
    · rw [hprune, Rose.postorder_node]
      rfl
  failed hfalse := by
    refine ⟨[], _, rfl, fun d hd => absurd hd List.not_mem_nil, ?_⟩
    refine ⟨List.cons_ne_nil _ _, fun d hd => ?_, fun d hd => ?_, .singleton _⟩
    · rw [List.mem_singleton.mp hd, hfalse]
    · obtain rfl := Option.mem_some.mp hd
      exact hreason

/-- **The first pair matches**: what is added for the others follows. -/
theorem AreRecords.cons {query : Node} {queries : List Node} {candidate : Site}
    {candidates : List Site} {index? : Option ℕ} {first rest : List Decision}
    (hfirst : IsRecord table t u query candidate.node true first)
    (hrest : AreRecords table t u queries candidates index? rest) :
    AreRecords table t u (query :: queries) (candidate :: candidates) (index?.map (1 + ·))
      (first ++ rest) where
  inPostorder := by
    rw [List.map_append, List.flatMap_cons, List.map_append]
    exact hfirst.inPostorder.append hrest.inPostorder
  passed hnone := by
    obtain ⟨hall, hids⟩ := hrest.passed (Option.map_eq_none_iff.mp hnone)
    refine ⟨fun d hd => ?_, ?_⟩
    · rcases List.mem_append.mp hd with hd | hd
      · exact (hfirst.passed rfl).1 d hd
      · exact hall d hd
    · rw [List.map_append, List.flatMap_cons, List.map_append, (hfirst.passed rfl).2, hids]
  failed i hi := by
    obtain ⟨j, hj, rfl⟩ := Option.map_eq_some_iff.mp hi
    obtain ⟨q, c, before, chain, d, hq, hc, rfl, hbefore, hchain⟩ := hrest.failed j hj
    refine ⟨q, c, first ++ before, chain, d, ?_, ?_, ?_, fun e he => ?_, hchain⟩
    · rw [Nat.add_comm, List.getElem?_cons_succ, hq]
    · rw [Nat.add_comm, List.getElem?_cons_succ, hc]
    · rw [List.append_assoc]
    · rcases List.mem_append.mp he with he | he
      · exact (hfirst.passed rfl).1 e he
      · exact hbefore e he

/-- **The first pair does not match**: the others are not compared. -/
theorem AreRecords.of_failed {query : Node} {candidate : Site} {added : List Decision}
    (queries : List Node) (candidates : List Site)
    (h : IsRecord table t u query candidate.node false added) :
    AreRecords table t u (query :: queries) (candidate :: candidates) (some 0) added where
  inPostorder := by
    rw [List.flatMap_cons, List.map_append]
    exact h.inPostorder.trans (List.sublist_append_left _ _)
  passed hnone := absurd hnone (Option.some_ne_none 0)
  failed i hi := by
    obtain rfl := Option.some.inj hi
    obtain ⟨before, chain, rfl, hbefore, hchain⟩ := h.failed rfl
    obtain ⟨reason, hlast⟩ := h.last
    rw [List.getLast?_append_of_ne_nil _ hchain.ne_nil] at hlast
    exact ⟨query, candidate, before, chain, _, rfl, rfl, rfl, hbefore, hchain, hlast, rfl, rfl⟩

/-- What is recorded for a list of pairs, if it is known for each pair. -/
theorem exists_areRecords {queries : List Node} {candidates : List Site}
    (hlength : queries.length = candidates.length)
    (h : ∀ pair ∈ queries.zip candidates, ∀ trace, ∃ outcome added,
      compare table pair.1 pair.2 trace = (outcome, trace.extend added) ∧
      IsRecord table t u pair.1 pair.2.node outcome added) (start : ℕ) (trace : Trace) :
    ∃ index? added, compareEach table start queries candidates trace =
        (index?.map (start + ·), trace.extend added) ∧
      AreRecords table t u queries candidates index? added := by
  induction queries generalizing candidates start trace with
  | nil =>
    refine ⟨none, [], ?_, List.Sublist.refl _, fun _ => ⟨?_, rfl⟩, by simp⟩
    · rw [compareEach, Trace.extend_nil]
      · rfl
      · simp
    · exact fun d hd => absurd hd List.not_mem_nil
  | cons query queries ih =>
    cases candidates with
    | nil => cases hlength
    | cons candidate candidates =>
      rw [List.zip_cons_cons, List.forall_mem_cons] at h
      obtain ⟨outcome, first, hcompare, hfirst⟩ := h.1 trace
      rw [compareEach, hcompare]
      cases outcome with
      | true =>
        obtain ⟨index?, rest, heach, hrest⟩ :=
          ih (Nat.succ.inj hlength) h.2 (start + 1) (trace.extend first)
        refine ⟨index?.map (1 + ·), first ++ rest, ?_, .cons hfirst hrest⟩
        dsimp only
        rw [heach, Trace.extend_extend, Option.map_map]
        simp only [Function.comp_def, Nat.add_assoc]
      | false => exact ⟨some 0, first, rfl, .of_failed queries candidates hfirst⟩

/-- **A failing child** goes on the chain of what failed, and its parent after it. -/
theorem IsFailure.append {chain : List Decision} {child parent : Decision} {i : ℕ}
    (h : IsFailure t u chain) (hlast : chain.getLast? = some child)
    (hparent : parent.outcome = false) (hreason : parent.reason = .childMismatch i)
    (habout : IsAboutChildren t u i child parent) : IsFailure t u (chain ++ [parent]) where
  ne_nil := List.append_ne_nil_of_left_ne_nil h.ne_nil _
  failed d hd := by
    rcases List.mem_append.mp hd with hd | hd
    · exact h.failed d hd
    · rw [List.mem_singleton.mp hd, hparent]
  cause := by
    rw [List.head?_append_of_ne_nil _ h.ne_nil]
    exact h.cause
  isChain := by
    refine h.isChain.append (.singleton _) fun d hd e he => ?_
    obtain rfl := Option.some.inj (hlast.symm.trans hd)
    obtain rfl := Option.mem_some.mp he
    exact ⟨i, hreason, habout⟩

/-- **All children match**, and so does the node. -/
theorem AreRecords.passes {entry : Entry} {children : List Node} {candidate : Site}
    {added : List Decision} (h : AreRecords table t u children candidate.children none added)
    (hwildcard : isWildcard table (.node entry children) = false) :
    IsRecord table t u (.node entry children) candidate.node true
      (added ++ [⟨entry.id, candidate.node.id, true, .matched⟩]) where
  last := ⟨.matched, List.getLast?_concat⟩
  inPostorder := by
    rw [Rose.postorder_node, List.map_append, List.map_append]
    exact h.inPostorder.append_right _
  passed _ := by
    obtain ⟨hall, hids⟩ := h.passed rfl
    refine ⟨fun d hd => ?_, ?_⟩
    · rcases List.mem_append.mp hd with hd | hd
      · exact hall d hd
      · rw [List.mem_singleton.mp hd]
    · rw [Rose.prune_node, hwildcard, if_neg Bool.false_ne_true, Rose.postorder_node,
        List.flatMap_map, List.map_append, List.map_append, hids]
      rfl
  failed h := absurd h.symm Bool.false_ne_true

/-- **A child does not match**, and so does not the node. -/
theorem AreRecords.fails {entry : Entry} {children : List Node} {candidate : Site}
    {added : List Decision} {i : ℕ}
    (h : AreRecords table t u children candidate.children (some i) added)
    (hquery : ∀ q, children[i]? = some q → t.child? entry.id i = some q.id)
    (hcandidate : ∀ c, candidate.node.children[i]? = some c →
      u.child? candidate.node.id i = some (Node.id c)) :
    IsRecord table t u (.node entry children) candidate.node false
      (added ++ [⟨entry.id, candidate.node.id, false, .childMismatch i⟩]) where
  last := ⟨.childMismatch i, List.getLast?_concat⟩
  inPostorder := by
    rw [Rose.postorder_node, List.map_append, List.map_append]
    exact h.inPostorder.append_right _
  passed h := absurd h Bool.false_ne_true
  failed _ := by
    obtain ⟨q, c, before, chain, d, hq, hc, rfl, hbefore, hchain, hlast, hdq, hdc⟩ :=
      h.failed i rfl
    have hchild : u.child? candidate.node.id i = some c.node.id := by
      rw [Site.children, List.getElem?_map, Option.map_eq_some_iff] at hc
      obtain ⟨n, hn, rfl⟩ := hc
      exact hcandidate n hn
    refine ⟨before, chain ++ [_], List.append_assoc _ _ _, hbefore,
      hchain.append hlast rfl rfl ⟨?_, ?_⟩⟩
    · rw [hdq]
      exact hquery q hq
    · rw [hdc]
      exact hchild

variable {root root' : Node}

/-- **The record of a comparison**, for a query node and a candidate of trees in which the numbers
tell the nodes apart. -/
theorem exists_isRecord (ht : t.ids.Perm (List.range t.size)) (hroot : t.root? = some root)
    (hu : u.ids.Perm (List.range u.size)) (hroot' : u.root? = some root') (query : Node) :
    query ∈ root.preorder → ∀ candidate : Site, candidate.node ∈ root'.preorder →
      ∀ trace, ∃ outcome added,
        compare table query candidate trace = (outcome, trace.extend added) ∧
        IsRecord table t u query candidate.node outcome added := by
  induction query using Rose.induct with
  | node entry children ih =>
    intro hquery candidate hcandidate trace
    have hchildren : ∀ pair ∈ children.zip candidate.children, ∀ trace, ∃ outcome added,
        compare table pair.1 pair.2 trace = (outcome, trace.extend added) ∧
        IsRecord table t u pair.1 pair.2.node outcome added := by
      intro pair hpair
      obtain ⟨hq, hc⟩ := List.of_mem_zip hpair
      obtain ⟨c, hc, heq⟩ := List.mem_map.mp hc
      refine ih pair.1 hq (Rose.mem_preorder_trans hquery
        (Rose.mem_preorder_child hq pair.1.mem_preorder_self)) pair.2 ?_
      rw [← heq]
      exact Rose.mem_preorder_trans hcandidate (Rose.mem_preorder_child hc c.mem_preorder_self)
    rcases compare_cases table entry children candidate trace with
      ⟨outcome, reason, hreason, houtcome, hcompare⟩ | ⟨hwildcard, hlength, hcompare⟩
    · refine ⟨outcome, _, ?_, isRecord_singleton hreason houtcome⟩
      rw [hcompare, ← Trace.extend_nil trace, Trace.extend_record, Trace.extend_nil]
      rfl
    · obtain ⟨index?, added, heach, hrecords⟩ := exists_areRecords hlength hchildren 0 trace
      rw [heach] at hcompare
      cases index? with
      | none =>
        refine ⟨true, _, ?_, hrecords.passes hwildcard⟩
        rw [← Trace.extend_record]
        exact hcompare
      | some i =>
        have hq : ∀ q, children[i]? = some q → t.child? entry.id i = some (Node.id q) :=
          fun q hq => Tree.child?_eq_some ht hroot hquery hq
        have hc : ∀ c, candidate.node.children[i]? = some c →
            u.child? candidate.node.id i = some (Node.id c) :=
          fun c hc => Tree.child?_eq_some hu hroot' hcandidate hc
        refine ⟨false, _, ?_, hrecords.fails hq hc⟩
        rw [← Trace.extend_record]
        rw [Option.map_some, Nat.zero_add] at hcompare
        exact hcompare

/-! ### Nodes of two trees -/

/-- **The decisions of a comparison**: comparing a query node with a candidate only adds decisions
at the end of the trace.  The last one is about the two nodes, and no decision is about a node at or
below what an earlier one is about. -/
theorem compare_record {v w : Vocabulary} (ht : t.Grown v) (hu : u.Grown w)
    {query candidate : Site} (hquery : query ∈ t.sites) (hcandidate : candidate ∈ u.sites)
    (trace : Trace) :
    ∃ outcome added,
      compare table query.node candidate trace = (outcome, trace.extend added) ∧
      IsRecord table t u query.node candidate.node outcome added ∧
      (added.map Decision.query).Nodup ∧
      added.Pairwise fun d e => e.query ∉ t.visits d.query := by
  obtain ⟨root, hroot, hquery⟩ := Tree.exists_root_of_mem_sites hquery
  obtain ⟨root', hroot', hcandidate⟩ := Tree.exists_root_of_mem_sites hcandidate
  obtain ⟨outcome, added, hcompare, hrecord⟩ := @exists_isRecord table t u root root' ht.perm_ids
    hroot hu.perm_ids hroot' query.node hquery candidate hcandidate trace
  have hnodup : query.node.ids.Nodup :=
    (ht.nodup_ids hroot).sublist ((Rose.preorder_sublist hquery).map Node.id)
  have hpairwise : (added.map Decision.query).Pairwise fun i j => j ∉ t.visits i := by
    refine List.Pairwise.sublist hrecord.inPostorder ?_
    rw [List.pairwise_map]
    refine (Node.pairwise_postorder hnodup).imp_of_mem fun {n m} hn _ hnm => ?_
    have hmem : n ∈ root.preorder :=
      Rose.mem_preorder_trans hquery (query.node.perm_postorder.mem_iff.mp hn)
    rw [Tree.visits_id ht.perm_ids hroot hmem]
    exact hnm
  refine ⟨outcome, added, hcompare, hrecord, ?_, List.pairwise_map.mp hpairwise⟩
  refine List.Nodup.sublist hrecord.inPostorder ?_
  exact (query.node.perm_postorder.map Node.id).nodup_iff.mpr hnodup

/-- A call with a list of arguments. -/
def callWith (arguments : List String) : Rose Label :=
  .node (.construct "call") [.leaf (.token "f"),
    .node (.construct "args") (arguments.map fun text => .leaf (.token text))]

/-- The second argument differs: the record of the failure starts there and goes up to the call. -/
theorem callWith_record :
    ∃ query ∈ (Tree.ofLabels ⟨0, []⟩ (callWith ["x", "y"])).2.sites,
      ∃ candidate ∈ (Tree.ofLabels ⟨1, []⟩ (callWith ["x", "z"])).2.sites, ∃ added,
        compare .default query.node candidate {} = (false, ({} : Trace).extend added) ∧
        added = [⟨1, 1, true, .literal⟩, ⟨3, 3, true, .literal⟩, ⟨4, 4, false, .literal⟩,
          ⟨2, 2, false, .childMismatch 1⟩, ⟨0, 0, false, .childMismatch 1⟩] ∧
        IsRecord .default (Tree.ofLabels ⟨0, []⟩ (callWith ["x", "y"])).2
          (Tree.ofLabels ⟨1, []⟩ (callWith ["x", "z"])).2 query.node candidate.node false added := by
  have ht := Tree.grown_ofLabels ⟨0, []⟩ (callWith ["x", "y"])
  have hu := Tree.grown_ofLabels ⟨1, []⟩ (callWith ["x", "z"])
  have hquery := List.mem_of_getElem?
    (rfl : (Tree.ofLabels ⟨0, []⟩ (callWith ["x", "y"])).2.sites[0]? = _)
  have hcandidate := List.mem_of_getElem?
    (rfl : (Tree.ofLabels ⟨1, []⟩ (callWith ["x", "z"])).2.sites[0]? = _)
  obtain ⟨outcome, added, hcompare, hrecord, -⟩ :=
    @compare_record .default _ _ _ _ ht hu _ _ hquery hcandidate {}
  have hrun := hcompare.symm.trans (rfl : _ = (false, Trace.mk #[⟨1, 1, true, .literal⟩,
    ⟨3, 3, true, .literal⟩, ⟨4, 4, false, .literal⟩, ⟨2, 2, false, .childMismatch 1⟩,
    ⟨0, 0, false, .childMismatch 1⟩]))
  obtain ⟨rfl, htrace⟩ := Prod.mk.inj hrun
  refine ⟨_, hquery, _, hcandidate, added, hcompare, ?_, hrecord⟩
  simpa [Trace.extend] using htrace

end Comparison

end ChangeQuery
