import ChangeQuery.Proofs.Abstraction.Replace
import ChangeQuery.Proofs.Comparison.Outlines

/-!
## Generalising a query

A query becomes more general when the wildcard takes the place of one of its subtrees.  This changes
the text of every node above, and nodes are classified by their texts.  Still no match is lost: a node
with children is either plain code or a wildcard, so the worst that can happen to a node above is that
it becomes a wildcard as well.

The other direction has to be excluded.  A node that was a wildcard may become plain code when
something below it is replaced, so nothing is replaced below a wildcard (`SparesWildcards`).

* `matches_of_replace`: a plan that puts wildcards in the place of any subtrees keeps every match.
* `compare_of_generalised`: the statement for one node of a tree, however the new tree has grown.
-/

namespace ChangeQuery

open Placeholder (Table wildcardText)

namespace Node

variable {plan : ℕ → Option String}

theorem replaceAll_eq_map (plan : ℕ → Option String) (nodes : List Node) :
    replaceAll plan nodes = nodes.map (replace plan) := by
  induction nodes with
  | nil => rfl
  | cons n nodes ih => rw [replaceAll, ih, List.map_cons]

theorem replace_of_some {entry : Entry} {text : String} (h : plan entry.id = some text)
    (children : List Node) :
    replace plan (.node entry children) = .leaf ⟨entry.id, .token text⟩ := by
  rw [replace, h]

theorem replace_of_none {entry : Entry} (h : plan entry.id = none) (children : List Node) :
    replace plan (.node entry children) = .node entry (children.map (replace plan)) := by
  rw [replace, h, replaceAll_eq_map]

/-- A plan that names no number of the tree replaces nothing. -/
theorem replace_eq_self {n : Node} (h : ∀ i ∈ n.ids, plan i = none) : n.replace plan = n := by
  induction n using Rose.induct with
  | node entry children ih =>
    rw [ids_node, List.forall_mem_cons] at h
    have hchildren : children.map (replace plan) = children :=
      (List.map_congr_left fun c hc =>
        ih c hc fun i hi => h.2 i (List.mem_flatMap.mpr ⟨c, hc, hi⟩)).trans children.map_id
    rw [replace_of_none h.1, hchildren]

end Node

namespace Comparison

variable {table : Table} {plan : ℕ → Option String}

/-- Nothing is replaced below a wildcard that is kept. -/
def SparesWildcards (table : Table) (plan : ℕ → Option String) (query : Node) : Prop :=
  ∀ m ∈ query.preorder, table.kind m = .wildcard → plan (Node.id m) = none →
    ∀ i ∈ Node.ids m, plan i = none

theorem SparesWildcards.child {query c : Node} (h : SparesWildcards table plan query)
    (hc : c ∈ query.children) : SparesWildcards table plan c :=
  fun m hm => h m (Rose.mem_preorder_child hc hm)

/-- A node with children that is no wildcard is compared child by child. -/
theorem matches_iff_of_inner {query : Node} {candidate : Site} (hne : query.children ≠ [])
    (hwildcard : table.kind query ≠ .wildcard) :
    Matches table query candidate ↔ query.sameCategory candidate.node = true ∧
      query.children.length = candidate.node.children.length ∧
      ∀ pair ∈ query.children.zip candidate.node.children,
        Matches table pair.1 ⟨pair.2, some candidate.node⟩ := by
  rw [matches_iff, table.kind_eq_plain hne hwildcard]
  dsimp only
  rw [if_neg hne]

/-- What faces an element of a list faces its counterpart in another list as well. -/
theorem exists_mem_zip_of_map_eq {α β γ δ : Type} {f : α → γ} {f' : β → γ} {as : List α}
    {bs : List β} {cs : List δ} (h : as.map f = bs.map f') {pair : α × δ}
    (hpair : pair ∈ as.zip cs) : ∃ b, (b, pair.2) ∈ bs.zip cs ∧ f pair.1 = f' b := by
  induction as generalizing bs cs with
  | nil => exact absurd hpair List.not_mem_nil
  | cons a as ih =>
    obtain ⟨b, bs, rfl, hb, hbs⟩ := List.map_eq_cons_iff.mp h.symm
    cases cs with
    | nil => exact absurd hpair List.not_mem_nil
    | cons c cs =>
      rw [List.zip_cons_cons, List.mem_cons] at hpair
      rcases hpair with rfl | hpair
      · exact ⟨b, List.mem_cons_self, hb.symm⟩
      · obtain ⟨b', hmem, heq⟩ := ih hbs.symm hpair
        exact ⟨b', List.mem_cons_of_mem _ hmem, heq⟩

/-- Childless nodes with the same labels match the same candidates. -/
theorem matches_congr_of_childless {query query' : Node} {candidate : Site}
    (hlabels : query.labels = query'.labels) (hnil : query.children = [])
    (hfaithful : Faithful query candidate.node) (hfaithful' : Faithful query' candidate.node) :
    Matches table query candidate ↔ Matches table query' candidate := by
  have hnil' : query'.children = [] := by
    rw [← List.length_eq_zero_iff, ← Node.length_children_congr hlabels, hnil]
    rfl
  rw [matches_iff, matches_iff, table.kind_congr hlabels, hnil, hnil', Node.label_congr hlabels,
    sameCategory_congr hfaithful hfaithful' hlabels rfl]

/-- **Wildcards keep matches**: whatever subtrees wildcards are put in the place of, if nothing is
replaced below a wildcard, then the new query matches all that the query matched. -/
theorem matches_of_replace (hplan : ∀ i, ∀ text ∈ plan i, text = wildcardText) (query : Node) :
    ∀ (query' : Node) (candidate : Site), query'.labels = (query.replace plan).labels →
      Faithful query candidate.node → Faithful query' candidate.node →
        SparesWildcards table plan query → Matches table query candidate →
          Matches table query' candidate := by
  induction query using Rose.induct with
  | node entry children ih =>
    intro query' candidate hlabels hfaithful hfaithful' hspares hmatches
    by_cases hwildcard' : table.kind query' = .wildcard
    · rw [matches_iff, hwildcard']
      trivial
    cases hentry : plan entry.id with
    | some text =>
      -- The node itself is replaced, by a wildcard.
      obtain rfl := hplan entry.id text hentry
      rw [Node.replace_of_some hentry] at hlabels
      have hleaf : query'.labels = .leaf (.token wildcardText) := hlabels
      rw [Placeholder.kind_of_token hleaf, Placeholder.kindOfText_wildcard] at hwildcard'
      exact absurd rfl hwildcard'
    | none =>
      -- The node is kept; as it is no wildcard now, it was none before.
      have hwildcard : table.kind (.node entry children) ≠ .wildcard := by
        intro h
        have hids := hspares _ (Rose.mem_preorder_self _) h hentry
        rw [Node.replace_eq_self hids] at hlabels
        rw [table.kind_congr hlabels] at hwildcard'
        exact hwildcard' h
      rw [Node.replace_of_none hentry] at hlabels
      by_cases hnil : children = []
      · subst hnil
        exact (matches_congr_of_childless hlabels.symm rfl hfaithful hfaithful').mp hmatches
      obtain ⟨hlabel, hchildren⟩ := Node.labels_eq_iff.mp hlabels
      rw [Rose.children_node, List.map_map] at hchildren
      have hlength := congrArg List.length hchildren
      rw [List.length_map, List.length_map] at hlength
      have hnil' : query'.children ≠ [] := by
        rw [← List.length_pos_iff, hlength]
        exact List.length_pos_iff.mpr hnil
      have hne : Rose.children (.node entry children) ≠ [] := hnil
      obtain ⟨hsame, harity, hall⟩ := (matches_iff_of_inner hne hwildcard).mp hmatches
      refine (matches_iff_of_inner hnil' hwildcard').mpr ⟨?_, hlength.trans harity, ?_⟩
      · rw [hfaithful.self] at hsame
        rw [hfaithful'.self, hlabel]
        exact hsame
      · -- The children face the same nodes as before.
        intro pair hpair
        obtain ⟨c, hmem, hchild⟩ := exists_mem_zip_of_map_eq hchildren hpair
        obtain ⟨hc, hfacing⟩ := List.of_mem_zip hmem
        have hc' := (List.of_mem_zip hpair).1
        exact ih c hc pair.1 ⟨pair.2, some candidate.node⟩ hchild (hfaithful.child hc hfacing)
          (hfaithful'.child hc' hfacing) (hspares.child hc) (hall _ hmem)

/-! ### One node of a tree -/

/-- The plan that puts the wildcard in the place of the subtree with one number. -/
def wildcardAt (id : ℕ) : ℕ → Option String :=
  fun i => if i = id then some wildcardText else none

/-- A node with no wildcard above it can be replaced without replacing anything below a wildcard. -/
theorem sparesWildcards_wildcardAt {root n : Node} (hnodup : root.ids.Nodup)
    (hn : n ∈ root.preorder)
    (habove : ∀ m ∈ root.preorder, n ∈ m.preorder → m ≠ n → table.kind m ≠ .wildcard) :
    SparesWildcards table (wildcardAt n.id) root := by
  intro m hm hkind hkept i hi
  obtain ⟨k, hk, rfl⟩ := List.mem_map.mp hi
  refine if_neg fun hid => ?_
  -- The node itself would stand below the wildcard.
  obtain rfl := Node.eq_of_id_eq hnodup (Rose.mem_preorder_trans hm hk) hn hid
  refine habove m hm hk ?_ hkind
  rintro rfl
  rw [wildcardAt, if_pos rfl] at hkept
  cases hkept

/-- **Generalising a query never loses a match**.  Let `n` be a node of a query tree with no wildcard
properly above it.  A tree that differs from the query tree in nothing but a wildcard token in the
place of `n` matches every candidate that the query tree matches, for every table of placeholders and
whatever vocabularies the trees have grown over. -/
theorem compare_of_generalised {v v' w : Vocabulary} {t t' u : Tree} (ht : t.Grown v)
    (ht' : t'.Grown v') (hu : u.Grown w) (hcompatible : v.Compatible w)
    (hcompatible' : v'.Compatible w) {root root' n : Node} (hroot : t.root? = some root)
    (hroot' : t'.root? = some root') (hn : n ∈ root.preorder)
    (habove : ∀ m ∈ root.preorder, n ∈ m.preorder → m ≠ n → table.kind m ≠ .wildcard)
    (hlabels : root'.labels = (root.replace (wildcardAt n.id)).labels) {candidate : Site}
    (hcandidate : candidate ∈ u.sites) (trace trace' : Trace)
    (hmatches : (compare table root candidate trace).1 = true) :
    (compare table root' candidate trace').1 = true := by
  have hplan : ∀ i, ∀ text ∈ wildcardAt n.id i, text = wildcardText := by
    intro i text htext
    rw [wildcardAt, Option.mem_def] at htext
    split_ifs at htext
    exact (Option.some.inj htext).symm
  have hover := hu.over.of_mem_sites hcandidate
  rw [fst_compare] at hmatches ⊢
  exact matches_of_replace hplan root root' candidate hlabels
    (faithful_of_over hcompatible (ht.over root hroot) hover)
    (faithful_of_over hcompatible' (ht'.over root' hroot') hover)
    (sparesWildcards_wildcardAt (ht.nodup_ids hroot) hn habove) hmatches

/-- A call with one argument and an empty token behind it. -/
def callOf (name : String) (argument : Label) : Rose Label :=
  .node (.construct "call")
    [.leaf (.token name), .node (.construct "args") [.leaf argument, .leaf (.token "")]]

/-- The query `ID(x)`, with a construct as its argument. -/
def callQuery : Rose Label := callOf "ID" (.construct "x")

/-- The query with the wildcard in the place of the argument. -/
def anyArgument : Rose Label := callOf "ID" (.token "<...>")

/-- A call below another construct. -/
def listedCall : Rose Label := .node (.construct "list") [callOf "f" (.construct "x")]

/-- With the wildcard in the place of the argument, the text of all arguments is that of a wildcard,
so there are two wildcards in the new query. -/
theorem anyArgument_generalised :
    ∃ (root root' n : Node) (candidate : Site),
      (Tree.ofLabels ⟨0, []⟩ callQuery).2.root? = some root ∧
      (Tree.ofLabels ⟨1, ["args"]⟩ anyArgument).2.root? = some root' ∧
      candidate ∈ (Tree.ofLabels ⟨2, []⟩ listedCall).2.sites ∧
      n ∈ root.preorder ∧ n.label = "x" ∧
      (∀ m ∈ root.preorder, n ∈ m.preorder → m ≠ n → Table.default.kind m ≠ .wildcard) ∧
      root'.labels = (root.replace (wildcardAt n.id)).labels ∧
      (root'.preorder.map Table.default.kind).count .wildcard = 2 ∧
      (compare .default root candidate {}).1 = true ∧
      (compare .default root' candidate {}).1 = true := by
  have ht := Tree.grown_ofLabels ⟨0, []⟩ callQuery
  have ht' := Tree.grown_ofLabels ⟨1, ["args"]⟩ anyArgument
  have hu := Tree.grown_ofLabels ⟨2, []⟩ listedCall
  have hcandidate := List.mem_of_getElem?
    (rfl : (Tree.ofLabels ⟨2, []⟩ listedCall).2.sites[1]? = _)
  have hn := List.mem_of_getElem?
    (rfl : (Node.numbered (Tree.ofLabels ⟨0, []⟩ callQuery).1 0 callQuery).preorder[3]? = _)
  have hplain : ∀ m ∈ (Node.numbered (Tree.ofLabels ⟨0, []⟩ callQuery).1 0 callQuery).preorder,
      Table.default.kind m ≠ .wildcard := by decide
  refine ⟨_, _, _, _, rfl, rfl, hcandidate, hn, rfl, fun m hm _ _ => hplain m hm, rfl, by decide,
    rfl, ?_⟩
  exact compare_of_generalised ht ht' hu nofun nofun rfl rfl hn (fun m hm _ _ => hplain m hm) rfl
    hcandidate {} {} rfl

end Comparison

end ChangeQuery
