import ChangeQuery.Proofs.Comparison.Matches
import ChangeQuery.Proofs.Tree.Symbols
import Mathlib.Data.List.Forall2

/-!
## Queries without placeholders

A query in which every node is plain code matches exactly the candidates that are the same tree: the
same constructs and the same texts in the same places.  Childless nodes are compared by their labels,
all others by their constructs and their children, so nothing but the numbers of the nodes and the
vocabularies can differ.

This needs that nothing stands below a token, because the text of a token with children is not
compared.

* `matches_iff_labels_eq`: the statement for nodes.
* `compare_iff_labels_eq`: the statement for the nodes of two trees; such a query matches itself.
-/

namespace ChangeQuery

theorem Label.eq_of_same {a b : Label} (ha : a.token? = none) (h : a.same b = true) : a = b := by
  cases a with
  | token text => cases ha
  | construct name =>
    cases b with
    | token text => cases h
    | construct other => rw [beq_iff_eq.mp h]

/-- Labels are equal if they agree and have the same text. -/
theorem Label.eq_iff_same {a b : Label} : a = b ↔ a.same b = true ∧ a.text = b.text := by
  cases a <;> cases b <;> simp [same, text]

theorem Label.same_self (a : Label) : a.same a = true :=
  (eq_iff_same.mp (Eq.refl a)).1

/-- Lists with the same images have their elements in pairs with the same image. -/
theorem map_eq_map_iff_zip {α β γ : Type} {f : α → γ} {g : β → γ} {as : List α} {bs : List β} :
    as.map f = bs.map g ↔ as.length = bs.length ∧ ∀ pair ∈ as.zip bs, f pair.1 = g pair.2 := by
  rw [← List.forall₂_eq_eq_eq, List.forall₂_map_left_iff, List.forall₂_map_right_iff,
    List.forall₂_iff_zip]
  exact and_congr_right fun _ => ⟨fun h pair hpair => h hpair, fun h a b hab => h (a, b) hab⟩

namespace Comparison

open Placeholder (Table)

variable {table : Table} {v w : Vocabulary}

/-- Nothing stands below the tokens at and below a node. -/
def BareBelow (n : Node) : Prop :=
  ∀ m ∈ n.preorder, Node.isToken m = true → m.children = []

theorem BareBelow.child {n c : Node} (h : BareBelow n) (hc : c ∈ n.children) : BareBelow c :=
  fun m hm => h m (Rose.mem_preorder_child hc hm)

/-- **Plain queries match what is equal to them**. -/
theorem matches_iff_labels_eq (hcompatible : v.Compatible w) (query : Node) :
    ∀ candidate : Site, query.Over v → candidate.node.Over w → BareBelow query →
      BareBelow candidate.node → (∀ n ∈ query.preorder, table.kind n = .plain) →
        (Matches table query candidate ↔ query.labels = candidate.node.labels) := by
  induction query using Rose.induct with
  | node entry children ih =>
    intro candidate hquery hcandidate hbare hbare' hplain
    have hsame := Node.sameCategory_eq hcompatible hquery hcandidate
    rw [matches_iff, hplain _ (Rose.mem_preorder_self _), Node.labels_eq_node,
      Node.labels_eq_node candidate.node, Rose.node.injEq]
    dsimp only
    rw [hsame, Rose.children_node]
    split_ifs with hnil
    · -- A childless node is compared by its label.
      rw [hnil, List.map_nil, eq_comm (a := []), List.map_eq_nil_iff, Label.eq_iff_same, and_comm]
      exact Iff.rfl
    · -- A node with children is a construct, so it is enough that the labels agree.
      have htoken : (Node.category (.node entry children)).label.token? = none := by
        have hfalse : ¬ Node.isToken (.node entry children) = true :=
          fun h => hnil (hbare _ (Rose.mem_preorder_self _) h)
        rwa [Node.isToken_of_labels (Node.labels_eq_node _), Bool.not_eq_true,
          Option.isSome_eq_false_iff, Option.isNone_iff_eq_none] at hfalse
      have hlabel : (Node.category (.node entry children)).label.same
          candidate.node.category.label = true ↔
            (Node.category (.node entry children)).label = candidate.node.category.label :=
        ⟨Label.eq_of_same htoken, fun h => h ▸ Label.same_self _⟩
      rw [hlabel, map_eq_map_iff_zip]
      refine and_congr_right fun _ => and_congr_right fun _ => forall₂_congr fun pair hpair => ?_
      obtain ⟨hq, hc⟩ := List.of_mem_zip hpair
      exact ih pair.1 hq ⟨pair.2, some candidate.node⟩ (hquery.child hq) (hcandidate.child hc)
        (hbare.child hq) (hbare'.child hc) fun n hn => hplain n (Rose.mem_preorder_child hq hn)

/-- **Plain queries and equality**: below a node of a tree where all is plain code, a candidate
matches exactly if the same constructs and texts stand below it in the same places; so the node
matches itself.  The trees may have grown over one vocabulary or over two. -/
theorem compare_iff_labels_eq {t u : Tree} (ht : t.Grown v) (hu : u.Grown w)
    (hcompatible : v.Compatible w) (hbare : t.TokensBare) (hbare' : u.TokensBare)
    {query candidate : Site} (hquery : query ∈ t.sites) (hcandidate : candidate ∈ u.sites)
    (hplain : ∀ n ∈ query.node.preorder, table.kind n = .plain) (trace : Trace) :
    ((compare table query.node candidate trace).1 = true ↔
      query.node.labels = candidate.node.labels) ∧
    (compare table query.node query trace).1 = true := by
  have hqueryBare : BareBelow query.node := by
    obtain ⟨root, hroot, hmem⟩ := Tree.exists_root_of_mem_sites hquery
    exact fun m hm => hbare root hroot m (Rose.mem_preorder_trans hmem hm)
  have hcandidateBare : BareBelow candidate.node := by
    obtain ⟨root, hroot, hmem⟩ := Tree.exists_root_of_mem_sites hcandidate
    exact fun m hm => hbare' root hroot m (Rose.mem_preorder_trans hmem hm)
  have hqueryOver := ht.over.of_mem_sites hquery
  have hself : v.Compatible v := fun _ => .inl List.prefix_rfl
  rw [fst_compare _ candidate, fst_compare _ query]
  exact ⟨matches_iff_labels_eq hcompatible query.node candidate hqueryOver
      (hu.over.of_mem_sites hcandidate) hqueryBare hcandidateBare hplain,
    (matches_iff_labels_eq hself query.node query hqueryOver hqueryOver hqueryBare hqueryBare
      hplain).mpr rfl⟩

/-- A construct without children between two tokens. -/
def plainCall : Rose Label :=
  .node (.construct "call") [.leaf (.token "f"), .leaf (.construct "args"), .leaf (.token "")]

/-- The same, below a construct that also has a token in the place of the construct. -/
def plainCalls : Rose Label :=
  .node (.construct "list")
    [.node (.construct "call") [.leaf (.token "f"), .leaf (.token "args"), .leaf (.token "")],
      plainCall]

/-- A call matches itself and its copy in a tree over another vocabulary, but no other call. -/
theorem plainCall_compare :
    ∃ query ∈ (Tree.ofLabels ⟨0, []⟩ plainCall).2.sites,
    ∃ copy ∈ (Tree.ofLabels ⟨1, ["args"]⟩ plainCalls).2.sites,
    ∃ other ∈ (Tree.ofLabels ⟨1, ["args"]⟩ plainCalls).2.sites,
      (∀ n ∈ query.node.preorder, Table.default.kind n = .plain) ∧
      copy.node.id = 5 ∧ (compare .default query.node copy {}).1 = true ∧
      other.node.id = 1 ∧ (compare .default query.node other {}).1 = false ∧
      (compare .default query.node query {}).1 = true := by
  have ht := Tree.grown_ofLabels ⟨0, []⟩ plainCall
  have hu := Tree.grown_ofLabels ⟨1, ["args"]⟩ plainCalls
  have hcompatible : (Tree.ofLabels ⟨0, []⟩ plainCall).1.Compatible
      (Tree.ofLabels ⟨1, ["args"]⟩ plainCalls).1 := nofun
  have hbare : (Tree.ofLabels ⟨0, []⟩ plainCall).2.TokensBare := by
    rintro _ ⟨rfl⟩
    decide
  have hbare' : (Tree.ofLabels ⟨1, ["args"]⟩ plainCalls).2.TokensBare := by
    rintro _ ⟨rfl⟩
    decide
  have hquery := List.mem_of_getElem? (rfl : (Tree.ofLabels ⟨0, []⟩ plainCall).2.sites[0]? = _)
  have hcopy := List.mem_of_getElem?
    (rfl : (Tree.ofLabels ⟨1, ["args"]⟩ plainCalls).2.sites[5]? = _)
  have hother := List.mem_of_getElem?
    (rfl : (Tree.ofLabels ⟨1, ["args"]⟩ plainCalls).2.sites[1]? = _)
  have hplain : ∀ n ∈ (Node.numbered (Tree.ofLabels ⟨0, []⟩ plainCall).1 0 plainCall).preorder,
      Table.default.kind n = .plain := by decide
  have hsame := compare_iff_labels_eq ht hu hcompatible hbare hbare' hquery hcopy hplain {}
  have hdiffers := compare_iff_labels_eq ht hu hcompatible hbare hbare' hquery hother hplain {}
  refine ⟨_, hquery, _, hcopy, _, hother, hplain, rfl, hsame.1.mpr rfl, rfl, ?_, hsame.2⟩
  exact Bool.eq_false_iff.mpr fun h => nomatch hdiffers.1.mp h

end Comparison

end ChangeQuery
