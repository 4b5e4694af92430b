import ChangeQuery.Proofs.ChangeGrammar.Nodes
import ChangeQuery.Proofs.Comparison.Pieces
import ChangeQuery.Proofs.Placeholder.Longest

/-!
## Abstractions of trees

A query can be made from a change by putting placeholders in the place of subtrees: an identifier
becomes `ID<1>`, an expression `EXPR<1>`, and anything may become the wildcard.  `StandsFor` says
which query tokens may stand for which nodes, and `Abstracts` says that a list of query nodes comes
from a list of candidate nodes in this way.  What was put where is recorded, because a numbered
placeholder may only stand for nodes with the same tokens.

* `StandsFor.eq_wildcard_or`: a query token that stands for a node fulfils its rule and spans its tokens.
* `Abstracts.exists_of_append`: abstractions of a list of nodes are made part by part.
-/

namespace ChangeQuery

open Placeholder (Table Kind Names Span wildcardText)
open ChangeQuery.Alignment (Admits IsNumbered spanOf spanAdmits)

namespace Placeholder

theorem kindOfText_wildcard (names : Names) : kindOfText names wildcardText = .wildcard :=
  if_pos rfl

end Placeholder

/-! ### What stands for a node -/

open Placeholder (numberedText)

/-- The query token may stand for the node at a site. -/
inductive StandsFor : String → Site → Prop
  | identifier {site : Site} (variant : String) (htoken : site.node.isToken = true)
      (hdelimiter : site.node.label ≠ "->") : StandsFor (numberedText "ID" variant) site
  | literal {site : Site} {parent : Node} (variant : String) (htoken : site.node.isToken = true)
      (hparent : site.parent? = some parent) (hlabel : parent.label = "literal") :
      StandsFor (numberedText "LT" variant) site
  | binaryOperator {site : Site} {name : String} (variant : String)
      (hname : name = "binOP" ∨ name = "OP") (hlabel : site.node.label = "binary_operators") :
      StandsFor (numberedText name variant) site
  | assignOperator {site : Site} (variant : String)
      (hlabel : site.node.label = "assign_operators") : StandsFor (numberedText "OP" variant) site
  | expression {site : Site} (variant : String) (hlabel : site.node.label = "expression") :
      StandsFor (numberedText "EXPR" variant) site
  | wildcard (site : Site) : StandsFor wildcardText site

/-- **A query token that stands for a node** is the wildcard, or a numbered placeholder whose rule
the node fulfils and that spans the tokens of the node. -/
theorem StandsFor.eq_wildcard_or {text : String} {site : Site} (h : StandsFor text site)
    (hside : OfSide site.node) :
    text = wildcardText ∨ ∃ name variant, name ∈ Names.default.toList ∧
      text = numberedText name variant ∧ Table.default.ruleHolds name site = true ∧
      spanAdmits (spanOf .default name) site.node.labels.texts := by
  -- A token is a single token.
  have hsingle : site.node.isToken = true → site.node.labels.texts.length = 1 := by
    intro htoken
    rw [hside.labels_of_isToken htoken, Rose.texts_leaf]
    rfl
  cases h with
  | identifier variant htoken hdelimiter =>
    refine .inr ⟨"ID", variant, by decide, rfl, ?_, hsingle htoken⟩
    show site.node.isLeaf = true
    rw [Rose.isLeaf, Node.children_eq_nil (hside.labels_of_isToken htoken)]
    rfl
  | literal variant htoken hparent hlabel =>
    refine .inr ⟨"LT", variant, by decide, rfl, ?_, hsingle htoken⟩
    show site.parent?.any (fun parent => ["literal"].contains parent.label) = true
    rw [hparent, Option.any_some, hlabel]
    rfl
  | @binaryOperator _ name variant hname hlabel =>
    refine .inr ⟨name, variant, ?_, rfl, ?_, ?_⟩
    · rcases hname with rfl | rfl <;> decide
    · rcases hname with rfl | rfl
      · show ["binary_operators"].contains site.node.label = true
        rw [hlabel]
        decide
      · show ["binary_operators", "assign_operators"].contains site.node.label = true
        rw [hlabel]
        decide
    · have hspan : spanOf .default name = .single := by
        rcases hname with rfl | rfl <;> decide
      rw [hspan]
      exact hside.length_texts_of_operator (.inl hlabel)
  | assignOperator variant hlabel =>
    refine .inr ⟨"OP", variant, by decide, rfl, ?_, hside.length_texts_of_operator (.inr hlabel)⟩
    show ["binary_operators", "assign_operators"].contains site.node.label = true
    rw [hlabel]
    decide
  | expression variant hlabel =>
    refine .inr ⟨"EXPR", variant, by decide, rfl, ?_, hside.length_texts_of_expression hlabel⟩
    show ["expression"].contains site.node.label = true
    rw [hlabel]
    decide
  | wildcard => exact .inl rfl

/-- The texts of placeholders are neither layout nor arrows. -/
theorem StandsFor.isLayout_eq_false {text : String} {site : Site} (h : StandsFor text site)
    (hside : OfSide site.node) : isLayout text = false ∧ text ≠ "->" := by
  rcases h.eq_wildcard_or hside with rfl | ⟨name, variant, hname, rfl, -⟩
  · exact ⟨by decide, by decide⟩
  have hall : ∀ name ∈ Names.default.toList, isLayout name = false ∧ '<' ∉ name.toList := by decide
  obtain ⟨hlayout, hbracket⟩ := hall name hname
  constructor
  · rw [isLayout] at hlayout ⊢
    simp [numberedText, hlayout]
  · intro heq
    have hsplit := Placeholder.splitFirst?_numberedText hbracket variant
    have hcut : Text.splitFirst? ['<'] "->".toList = none := by decide
    rw [heq, hcut] at hsplit
    cases hsplit

/-! ### Abstractions -/

/-- A query token and the tokens of the subtree that it was put in the place of. -/
abbrev Replacement := String × List String

/-- The query nodes are the nodes at the candidate sites with query tokens put in the place of some
subtrees.  Only subtrees at allowed sites may be replaced. -/
inductive Abstracts (allowed : Site → Prop) :
    List Node → List Site → List Replacement → Prop
  | nil : Abstracts allowed [] [] []
  /-- A node is kept; there may be replacements below it. -/
  | keep {q : Node} {qs : List Node} {c : Site} {cs : List Site} {below rest : List Replacement}
      (hsame : q.sameCategory c.node = true) (hlabel : q.label = c.node.label)
      (hchildren : Abstracts allowed q.children c.children below)
      (hrest : Abstracts allowed qs cs rest) : Abstracts allowed (q :: qs) (c :: cs) (below ++ rest)
  /-- A subtree is replaced. -/
  | replace {q : Node} {qs : List Node} {c : Site} {cs : List Site} {text : String}
      {rest : List Replacement} (hquery : q.labels = .leaf (.token text)) (hallowed : allowed c)
      (hstands : StandsFor text c) (hrest : Abstracts allowed qs cs rest) :
      Abstracts allowed (q :: qs) (c :: cs) ((text, c.node.labels.texts) :: rest)

namespace Abstracts

variable {allowed : Site → Prop} {qs : List Node} {cs : List Site} {rs : List Replacement}

theorem eq_nil (h : Abstracts allowed qs [] rs) : qs = [] ∧ rs = [] := by
  cases h
  exact ⟨rfl, rfl⟩

theorem length_eq (h : Abstracts allowed qs cs rs) : qs.length = cs.length := by
  induction h with
  | nil => rfl
  | keep _ _ _ _ _ ih => rw [List.length_cons, List.length_cons, ih]
  | replace _ _ _ _ ih => rw [List.length_cons, List.length_cons, ih]

theorem append {qs' : List Node} {cs' : List Site} {rs' : List Replacement}
    (h : Abstracts allowed qs cs rs) (h' : Abstracts allowed qs' cs' rs') :
    Abstracts allowed (qs ++ qs') (cs ++ cs') (rs ++ rs') := by
  induction h with
  | nil => exact h'
  | keep hsame hlabel hchildren _ _ ih =>
    rw [List.append_assoc]
    exact .keep hsame hlabel hchildren ih
  | replace hquery hallowed hstands _ ih => exact .replace hquery hallowed hstands ih

/-- **Abstractions are made part by part**. -/
theorem exists_of_append {cs₁ cs₂ : List Site} (h : Abstracts allowed qs (cs₁ ++ cs₂) rs) :
    ∃ qs₁ qs₂ rs₁ rs₂, qs = qs₁ ++ qs₂ ∧ rs = rs₁ ++ rs₂ ∧ Abstracts allowed qs₁ cs₁ rs₁ ∧
      Abstracts allowed qs₂ cs₂ rs₂ := by
  induction cs₁ generalizing qs rs with
  | nil => exact ⟨[], qs, [], rs, rfl, rfl, .nil, h⟩
  | cons c cs₁ ih =>
    -- The first node is kept or replaced; the parts after it are taken apart in the same way.
    cases h with
    | keep hsame hlabel hchildren hrest =>
      obtain ⟨qs₁, qs₂, rs₁, rs₂, rfl, rfl, h₁, h₂⟩ := ih hrest
      exact ⟨_ :: qs₁, qs₂, _ ++ rs₁, rs₂, rfl, (List.append_assoc _ _ _).symm,
        .keep hsame hlabel hchildren h₁, h₂⟩
    | replace hquery hallowed hstands hrest =>
      obtain ⟨qs₁, qs₂, rs₁, rs₂, rfl, rfl, h₁, h₂⟩ := ih hrest
      exact ⟨_ :: qs₁, qs₂, _ :: rs₁, rs₂, rfl, rfl, .replace hquery hallowed hstands h₁, h₂⟩

/-- The first node is abstracted by a single node. -/
theorem exists_of_cons {c : Site} (h : Abstracts allowed qs (c :: cs) rs) :
    ∃ q qs' rs₁ rs₂, qs = q :: qs' ∧ rs = rs₁ ++ rs₂ ∧ Abstracts allowed [q] [c] rs₁ ∧
      Abstracts allowed qs' cs rs₂ := by
  have happend : Abstracts allowed qs ([c] ++ cs) rs := h
  obtain ⟨_, qs', rs₁, rs₂, rfl, rfl, h₁, h₂⟩ := happend.exists_of_append
  obtain ⟨q, rfl⟩ := List.length_eq_one_iff.mp h₁.length_eq
  exact ⟨q, qs', rs₁, rs₂, rfl, rfl, h₁, h₂⟩

/-- The label of a kept node. -/
theorem label_eq {q c : Node} (hsame : q.sameCategory c = true) (hlabel : q.label = c.label) :
    q.category.label = c.category.label := by
  rw [Node.sameCategory] at hsame
  rw [Node.label, Node.label] at hlabel
  cases hq : q.category with
  | construct s =>
    cases hc : c.category with
    | construct t =>
      rw [hq, hc] at hlabel
      exact congrArg Label.construct hlabel
    | token text =>
      rw [hq, hc] at hsame
      cases hsame
  | token text =>
    cases hc : c.category with
    | construct t =>
      rw [hq, hc] at hsame
      cases hsame
    | token text' =>
      rw [hq, hc] at hlabel
      exact congrArg Label.token hlabel

/-- Tokens that must not be replaced are kept. -/
theorem map_labels (h : Abstracts allowed qs cs rs)
    (htoken : ∀ c ∈ cs, ∃ t, c.node.labels = .leaf (.token t)) (hkept : ∀ c ∈ cs, ¬ allowed c) :
    qs.map Node.labels = cs.map (fun c => c.node.labels) ∧ rs = [] := by
  induction cs generalizing qs rs with
  | nil =>
    obtain ⟨rfl, rfl⟩ := h.eq_nil
    exact ⟨rfl, rfl⟩
  | cons c cs ih =>
    rw [List.forall_mem_cons] at htoken hkept
    cases h with
    | @keep q _ _ _ _ _ hsame hlabel hchildren hrest =>
      obtain ⟨hmap, rfl⟩ := ih hrest htoken.2 hkept.2
      -- There is nothing below the token.
      obtain ⟨t, ht⟩ := htoken.1
      have hleaf := Node.children_eq_nil ht
      rw [Site.children, hleaf] at hchildren
      obtain ⟨hnil, rfl⟩ := hchildren.eq_nil
      have hlabels : q.labels = c.node.labels := by
        rw [q.labels_eq_node, label_eq hsame hlabel, hnil, c.node.labels_eq_node, hleaf]
      exact ⟨by rw [List.map_cons, List.map_cons, hmap, hlabels], rfl⟩
    | replace hquery hallowed hstands hrest => exact absurd hallowed hkept.1

end Abstracts

end ChangeQuery
