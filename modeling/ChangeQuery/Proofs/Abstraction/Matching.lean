import ChangeQuery.Proofs.Abstraction.Basic

/-!
## Abstractions match what they were made from

A query that was made from plain code by putting placeholders in the place of subtrees matches this
code, node by node, and its tokens cover the tokens of the code.  A kept node is plain or, if nothing
but a wildcard is left of it, a wildcard itself; a placeholder fulfils its rule.

* `Abstracts.matches_of_mem_zip`: every query node matches the candidate it was made from.
* `Abstracts.covers`: the query tokens cover the candidate tokens, if numbered placeholders take what
  they were put in the place of.
-/

namespace ChangeQuery

open Placeholder (Table Kind Names wildcardText numberedText)
open ChangeQuery.Alignment (Admits IsNumbered Covers slotsOf spanOf spanAdmits)

/-! ### Placeholders -/

namespace StandsFor

variable {text : String} {q : Node} {c : Site}

/-- A placeholder matches what it stands for. -/
theorem matches_of_labels (h : StandsFor text c) (hside : OfSide c.node)
    (hquery : q.labels = .leaf (.token text)) : Comparison.Matches .default q c := by
  rw [Comparison.matches_iff, Placeholder.kind_of_token hquery]
  rcases h.eq_wildcard_or hside with rfl | ⟨name, variant, hname, rfl, hholds, -⟩
  · rw [Placeholder.kindOfText_wildcard]
    trivial
  · rw [Placeholder.kindOfText_numberedText hname]
    exact hholds

/-- A placeholder admits the tokens of what it stands for. -/
theorem admits (h : StandsFor text c) (hside : OfSide c.node) :
    Admits .default text c.node.labels.texts := by
  unfold Admits
  rcases h.eq_wildcard_or hside with rfl | ⟨name, variant, hname, rfl, -, hspan⟩
  · rw [Placeholder.kindOfText_wildcard]
    trivial
  · rw [Placeholder.kindOfText_numberedText hname]
    exact hspan

end StandsFor

/-! ### Kept nodes -/

/-- The tokens at and below a node are plain code. -/
def Node.IsPlain (n : Node) : Prop :=
  ∀ t ∈ n.labels.texts, Placeholder.kindOfText Table.default.names t = .plain

namespace Node

/-- The sites below a site. -/
theorem forall_mem_children {P : Node → Prop} {c : Site} (h : ∀ n ∈ c.node.children, P n) :
    ∀ d ∈ c.children, P d.node := by
  intro d hd
  obtain ⟨n, hn, rfl⟩ := List.mem_map.mp hd
  exact h n hn

theorem IsPlain.child {n m : Node} (h : n.IsPlain) (hm : m ∈ n.children) : m.IsPlain :=
  fun t ht => h t (texts_subset (Rose.mem_preorder_child hm (Rose.mem_preorder_self m)) ht)

end Node

namespace Abstracts

variable {allowed : Site → Prop} {qs : List Node} {cs : List Site} {rs : List Replacement}

/-- The labels of a construct that is kept. -/
theorem labels_of_kept_construct {q c : Node} (htoken : c.isToken = false)
    (hsame : q.sameCategory c = true) (hlabel : q.label = c.label) :
    ∃ name, q.labels = .node (.construct name) (q.children.map Node.labels) ∧
      c.labels = .node (.construct name) (c.children.map Node.labels) := by
  have heq := label_eq hsame hlabel
  rw [Node.isToken] at htoken
  cases hcategory : c.category with
  | construct symbol =>
    refine ⟨symbol.name, ?_, Node.labels_of_construct hcategory⟩
    rw [q.labels_eq_node, heq, hcategory]
    rfl
  | token text =>
    rw [hcategory] at htoken
    cases htoken

/-- **A kept node** is a token, or a construct above what is left of its children. -/
theorem kept_cases {q : Node} {c : Site} (hside : OfSide c.node)
    (hsame : q.sameCategory c.node = true) (hlabel : q.label = c.node.label)
    (hchildren : Abstracts allowed q.children c.children rs) :
    (∃ t, q.labels = .leaf (.token t) ∧ c.node.labels = .leaf (.token t)) ∨
      ∃ name, q.labels = .node (.construct name) (q.children.map Node.labels) ∧
        c.node.labels = .node (.construct name) (c.node.children.map Node.labels) := by
  cases htoken : c.node.isToken with
  | false => exact .inr (labels_of_kept_construct htoken hsame hlabel)
  | true =>
    have hlabels := hside.labels_of_isToken htoken
    have hvalue := congrArg Rose.value hlabels
    rw [Node.value_labels] at hvalue
    rw [Site.children, Node.children_eq_nil hlabels] at hchildren
    refine .inl ⟨c.node.label, ?_, hlabels⟩
    rw [q.labels_eq_node, label_eq hsame hlabel, hvalue, hchildren.eq_nil.1]
    rfl

/-- **A query matches** what it was made from: every query node matches its counterpart. -/
theorem matches_of_mem_zip (h : Abstracts allowed qs cs rs) (hside : ∀ c ∈ cs, OfSide c.node)
    (hplain : ∀ c ∈ cs, c.node.IsPlain) :
    ∀ pair ∈ qs.zip cs, Comparison.Matches .default pair.1 pair.2 := by
  induction h with
  | nil => exact fun _ h => nomatch h
  | @keep q qs c cs below rest hsame hlabel hchildren hrest ihBelow ihRest =>
    rw [List.forall_mem_cons] at hside hplain
    rw [List.zip_cons_cons, List.forall_mem_cons]
    refine ⟨?_, ihRest hside.2 hplain.2⟩
    rw [Comparison.matches_iff]
    rcases kept_cases hside.1 hsame hlabel hchildren with ⟨t, hq, hc⟩ | ⟨name, hq, -⟩
    · rw [Placeholder.kind_of_token hq, hplain.1 t (Node.mem_texts_of_leaf hc)]
      dsimp only
      rw [if_pos (Node.children_eq_nil hq)]
      exact ⟨Node.children_eq_nil hc, hsame, hlabel⟩
    · rw [Placeholder.kind_of_construct hq]
      -- What is left of the node may be no more than a wildcard.
      by_cases hwildcard : q.textIs wildcardText = true
      · rw [if_pos hwildcard]
        trivial
      rw [if_neg hwildcard]
      dsimp only
      have hlength := hchildren.length_eq
      rw [Site.children, List.length_map] at hlength
      split_ifs with hnil
      · rw [hnil] at hlength
        exact ⟨List.length_eq_zero_iff.mp hlength.symm, hsame, hlabel⟩
      · refine ⟨hsame, hlength, fun pair hpair => ?_⟩
        refine ihBelow (Node.forall_mem_children fun n hn => hside.1.child hn)
          (Node.forall_mem_children fun n hn => hplain.1.child hn)
          (pair.1, ⟨pair.2, some c.node⟩) ?_
        rw [Site.children, List.zip_map_right]
        exact List.mem_map.mpr ⟨pair, hpair, rfl⟩
  | @replace q qs c cs text rest hquery hallowed hstands hrest ih =>
    rw [List.forall_mem_cons] at hside hplain
    rw [List.zip_cons_cons, List.forall_mem_cons]
    exact ⟨hstands.matches_of_labels hside.1 hquery, ih hside.2 hplain.2⟩

/-- **The query tokens cover** what the query was made from, if the choice for numbered placeholders
is what they were put in the place of. -/
theorem covers (h : Abstracts allowed qs cs rs) (hside : ∀ c ∈ cs, OfSide c.node)
    (hplain : ∀ c ∈ cs, c.node.IsPlain) {choice : String → List String}
    (hchoice : ∀ r ∈ rs, IsNumbered .default r.1 → choice r.1 = r.2) :
    Covers choice (slotsOf .default (qs.flatMap fun q => q.labels.texts))
      (cs.flatMap fun c => c.node.labels.texts) := by
  induction h with
  | nil => exact .nil
  | @keep q qs c cs below rest hsame hlabel hchildren hrest ihBelow ihRest =>
    rw [List.forall_mem_cons] at hside hplain
    rw [List.flatMap_cons, List.flatMap_cons, slotsOf, List.map_append]
    -- The tokens of the node come first, then those of the nodes after it.
    refine Covers.append ?_ (ihRest hside.2 hplain.2 fun r hr =>
      hchoice r (List.mem_append_right _ hr))
    show Covers choice (slotsOf .default q.labels.texts) _
    rcases kept_cases hside.1 hsame hlabel hchildren with ⟨t, hq, hc⟩ | ⟨name, hq, hc⟩
    · have hkind := hplain.1 t (Node.mem_texts_of_leaf hc)
      rw [hq, hc, Rose.texts_leaf]
      refine Alignment.covers_singleton ?_ ?_
      · rw [Admits, hkind]
        rfl
      · rintro ⟨name, variant, hnumbered⟩
        rw [hkind] at hnumbered
        cases hnumbered
    · have hbelow := ihBelow (Node.forall_mem_children fun n hn => hside.1.child hn)
        (Node.forall_mem_children fun n hn => hplain.1.child hn)
        fun r hr => hchoice r (List.mem_append_left _ hr)
      rw [hq, hc, Rose.texts_construct, Rose.texts_construct, List.flatMap_map, List.flatMap_map]
      rwa [Site.children, List.flatMap_map] at hbelow
  | @replace q qs c cs text rest hquery hallowed hstands hrest ih =>
    rw [List.forall_mem_cons] at hside hplain hchoice
    rw [List.flatMap_cons, List.flatMap_cons, slotsOf, List.map_append]
    refine Covers.append ?_ (ih hside.2 hplain.2 hchoice.2)
    show Covers choice (slotsOf .default q.labels.texts) _
    rw [hquery, Rose.texts_leaf]
    exact Alignment.covers_singleton (hstands.admits hside.1) hchoice.1

/-- A query token was in the candidate, or was put in the place of a subtree. -/
theorem mem_texts_or (h : Abstracts allowed qs cs rs) (hside : ∀ c ∈ cs, OfSide c.node) {t : String}
    (ht : t ∈ qs.flatMap fun q => q.labels.texts) :
    (t ∈ cs.flatMap fun c => c.node.labels.texts) ∨
      ∃ c : Site, OfSide c.node ∧ StandsFor t c := by
  induction h with
  | nil => exact absurd ht List.not_mem_nil
  | @keep q qs c cs below rest hsame hlabel hchildren hrest ihBelow ihRest =>
    rw [List.forall_mem_cons] at hside
    rw [List.flatMap_cons, List.mem_append] at ht ⊢
    rcases ht with ht | ht
    · -- The tokens of a kept construct are those of what is left of its children.
      rcases kept_cases hside.1 hsame hlabel hchildren with ⟨text, hq, hc⟩ | ⟨name, hq, hc⟩
      · rw [hq, ← hc] at ht
        exact .inl (.inl ht)
      · rw [hq, Rose.texts_construct, List.flatMap_map] at ht
        rw [hc, Rose.texts_construct, List.flatMap_map]
        have hbelow := ihBelow (Node.forall_mem_children fun n hn => hside.1.child hn) ht
        rw [Site.children, List.flatMap_map] at hbelow
        exact hbelow.imp_left .inl
    · exact (ihRest hside.2 ht).imp_left .inr
  | @replace q qs c cs text rest hquery hallowed hstands hrest ih =>
    rw [List.forall_mem_cons] at hside
    rw [List.flatMap_cons, List.mem_append] at ht ⊢
    rcases ht with ht | ht
    · rw [hquery, Rose.texts_leaf, List.mem_singleton] at ht
      exact .inr ⟨c, hside.1, ht ▸ hstands⟩
    · exact (ih hside.2 ht).imp_left .inr

end Abstracts

end ChangeQuery
