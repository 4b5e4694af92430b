import ChangeQuery.Proofs.ChangeGrammar.Nodes
import ChangeQuery.Proofs.Comparison.Pieces

/-!
## Trees that match have tokens that align

A query without numbered placeholders ties nothing together, so its tokens can be aligned one node at
a time.  If the trees of two changes match, then every query node covers the tokens of the candidate
node that it was compared with: a placeholder faces a node with as many tokens as its span allows,
and a wildcard is the only token of its node.

* `covers_of_matches`: a query node that matches covers its candidate.
* `aligns_of_matching`: if two parsed changes match, then their tokens align.
-/

namespace ChangeQuery

open Placeholder (Table Kind)
open ChangeQuery.Alignment
open ChangeGrammar (IsSideNode IsBody)

/-- What is known of a query node and the candidate node it is compared with, because of the nodes
above them. -/
structure Faces (query : Node) (candidate : Site) : Prop where
  /-- A childless candidate that faces a token is one, unless the token is the marker. -/
  token : ∀ t, query.labels.value = .token t → t ≠ "_" → candidate.node.children = [] →
    ∃ u, candidate.node.labels.value = .token u
  /-- The marker of an empty side faces a body. -/
  marker : query.labels.value = .token "_" → IsBody candidate.node.labels
  /-- Below a literal, there are only tokens. -/
  literal : ∀ parent, candidate.parent? = some parent → parent.label = "literal" →
    ∃ u, candidate.node.labels.value = .token u

namespace Faces

variable {query : Node} {candidate : Site} {text : String} {choice : String → List String}

/-- **Tokens that match**: a token of the query admits the tokens of the candidate it faces, unless
it is numbered. -/
theorem admits_of_matches (h : Faces query candidate) (hcandidate : OfSide candidate.node)
    (hquery : query.labels = .leaf (.token text))
    (hnumbered : ¬ IsNumbered .default text) (hmatches : Comparison.Matches .default query candidate)
    {v w : Vocabulary} (hcompatible : v.Compatible w) (hv : query.Over v)
    (hw : candidate.node.Over w) : Admits .default text candidate.node.labels.texts := by
  have hvalue : query.labels.value = .token text := by rw [hquery]; rfl
  -- A token of the candidate is a single token.
  have htexts : ∀ u, candidate.node.labels.value = .token u →
      candidate.node.labels.texts = [u] := by
    intro u hu
    rw [hcandidate.labels_of_token hu, Rose.texts_leaf]
  rw [Comparison.matches_iff, Placeholder.kind_of_token hquery] at hmatches
  unfold Admits
  cases hkind : Placeholder.kindOfText Placeholder.Table.default.names text with
  | wildcard => trivial
  | empty =>
    rw [hkind] at hmatches
    obtain ⟨hleaf, hlabel⟩ := Bool.and_eq_true_iff.mp hmatches
    rw [Placeholder.eq_of_kindOfText_empty hkind] at hvalue
    show candidate.node.labels.texts = []
    -- The marker faces a body, and a childless list of statements has no tokens.
    rcases h.marker hvalue with hbody | ⟨cs, hbody⟩
    · rw [Node.label_of_labels hbody] at hlabel
      exact absurd hlabel (by decide)
    · have hchildren := congrArg Rose.children hbody
      rw [Node.children_labels, List.isEmpty_iff.mp hleaf, Rose.children_node] at hchildren
      rw [hbody, ← hchildren, List.map_nil, Rose.texts_construct]
      rfl
  | numbered name variant => exact absurd ⟨name, variant, hkind⟩ hnumbered
  | bare name =>
    rw [hkind] at hmatches
    have hmarker : text ≠ "_" := by
      rintro rfl
      have hempty : Placeholder.kindOfText Placeholder.Table.default.names "_" = .empty := by decide
      rw [hempty] at hkind
      cases hkind
    show spanAdmits (spanOf .default name) candidate.node.labels.texts
    -- Every rule but that of expressions asks for a node with one token.
    rcases Placeholder.ruleHolds_default hmatches with ⟨-, hspan, parent, hparent, hlabel⟩ |
      ⟨-, hspan, hleaf⟩ | ⟨-, hspan, hlabel⟩ | ⟨-, hspan, hlabel⟩
    · obtain ⟨u, hu⟩ := h.literal parent hparent hlabel
      rw [hspan, htexts u hu]
      rfl
    · obtain ⟨u, hu⟩ := h.token text hvalue hmarker hleaf
      rw [hspan, htexts u hu]
      rfl
    · rw [hspan]
      exact hcandidate.length_texts_of_operator hlabel
    · rw [hspan]
      exact hcandidate.length_texts_of_expression hlabel
  | plain =>
    rw [hkind] at hmatches
    dsimp only at hmatches
    rw [if_pos (Node.children_eq_nil hquery)] at hmatches
    obtain ⟨-, hsame, hlabel⟩ := hmatches
    rw [Node.label_of_labels hquery] at hlabel
    show candidate.node.labels.texts = [text]
    -- Plain code is repeated.
    apply htexts
    rw [Node.value_labels] at hvalue ⊢
    rcases Node.label_eq_of_same hcompatible hv.self hw.self hsame with heq | ⟨-, htoken⟩
    · rw [← heq, hvalue]
    · rw [Node.label] at hlabel
      cases hcategory : candidate.node.category with
      | construct symbol =>
        rw [hcategory] at htoken
        cases htoken
      | token u =>
        rw [hcategory] at hlabel
        exact congrArg Label.token hlabel.symm

end Faces

/-! ### Nodes above others -/

/-- **Faces below**: the children of nodes that agree face each other. -/
theorem faces_of_mem_zip {query candidate : Node} {name : String} {qs cs : List (Rose Label)}
    (hquery : OfSide query) (hcandidate : OfSide candidate)
    (hqueryLabels : query.labels = .node (.construct name) qs)
    (hcandidateLabels : candidate.labels = .node (.construct name) cs) {pair : Node × Node}
    (hmem : pair ∈ query.children.zip candidate.children) :
    Faces pair.1 ⟨pair.2, some candidate⟩ := by
  have hqueryNode := hquery.self
  have hcandidateNode := hcandidate.self
  rw [hqueryLabels] at hqueryNode
  rw [hcandidateLabels] at hcandidateNode
  have hqs : query.children.map Node.labels = qs := by
    rw [← Node.children_labels, hqueryLabels]
    rfl
  have hcs : candidate.children.map Node.labels = cs := by
    rw [← Node.children_labels, hcandidateLabels]
    rfl
  have hmem' : (pair.1.labels, pair.2.labels) ∈ qs.zip cs := by
    rw [← hqs, ← hcs, List.zip_map]
    exact List.mem_map_of_mem hmem
  refine ⟨fun t ht hmarker hleaf => ?_, fun ht => ?_, ?_⟩
  · refine ChangeGrammar.token_of_mem_zip hqueryNode hcandidateNode ?_ hmem' ht hmarker ?_
    · rw [← hcs]
      intro n hn
      obtain ⟨c, hc, rfl⟩ := List.mem_map.mp hn
      exact (hcandidate.child hc).self
    · rw [Node.children_labels]
      exact List.map_eq_nil_iff.mpr hleaf
  · exact ChangeGrammar.isBody_of_mem_zip hqueryNode hcandidateNode hmem' ht
  · rintro _ ⟨⟩ hlabel
    rw [Node.label_of_labels hcandidateLabels] at hlabel
    obtain rfl : name = "literal" := hlabel
    obtain ⟨t, rfl⟩ := hcandidateNode.single (by decide)
    have hchild := (List.of_mem_zip hmem').2
    rw [List.mem_singleton.mp hchild]
    exact ⟨t, rfl⟩

/-- **Query nodes that match** cover the candidates they face. -/
theorem covers_of_matches {v w : Vocabulary} (hcompatible : v.Compatible w)
    {choice : String → List String} (query : Node) : ∀ candidate : Site,
    Faces query candidate → OfSide query → OfSide candidate.node → query.Over v →
      candidate.node.Over w → (∀ t ∈ query.labels.texts, ¬ IsNumbered .default t) →
      Comparison.Matches .default query candidate →
      Covers choice (slotsOf .default query.labels.texts) candidate.node.labels.texts := by
  -- The induction is on the query; the candidate goes down with it.
  induction query using Rose.induct with
  | node entry children ih =>
    intro candidate hfaces hquery hcandidate hv hw hnumbered hmatches
    have hlabels := Node.labels_eq_node (.node entry children)
    rw [Rose.children_node] at hlabels
    cases hlabel : Node.category (.node entry children) with
    | token text =>
      have htoken : (Node.labels (.node entry children)).value = .token text := by
        rw [Node.value_labels, hlabel]
        rfl
      have hleaf := hquery.labels_of_token htoken
      have htexts : (Node.labels (.node entry children)).texts = [text] := by
        rw [hleaf, Rose.texts_leaf]
      rw [htexts] at hnumbered ⊢
      have hnumbered := hnumbered text (List.mem_singleton_self text)
      exact covers_singleton
        (hfaces.admits_of_matches hcandidate hleaf hnumbered hmatches hcompatible hv hw)
        fun h => absurd h hnumbered
    | construct symbol =>
      rw [hlabel] at hlabels
      rw [Comparison.matches_iff, Placeholder.kind_of_construct hlabels] at hmatches
      -- A construct that reads like a wildcard matches anything, and its one token admits anything.
      by_cases hwildcard : Node.textIs (.node entry children) Placeholder.wildcardText = true
      · have htexts := ChangeGrammar.texts_eq_of_wildcard hquery (Node.textIs_iff.mp hwildcard)
        rw [htexts] at hnumbered ⊢
        refine covers_singleton ?_ fun h => absurd h (hnumbered _ (List.mem_singleton_self _))
        rw [Admits, Placeholder.kindOfText, if_pos rfl]
        trivial
      rw [if_neg hwildcard] at hmatches
      dsimp only at hmatches
      -- Constructs that agree have the same name, so their children face each other.
      have hcandidateLabels : Node.sameCategory (.node entry children) candidate.node = true →
          candidate.node.labels = .node (.construct symbol.name)
            (candidate.node.children.map Node.labels) := by
        intro hsame
        rcases Node.label_eq_of_same hcompatible hv.self hw.self hsame with heq | ⟨htoken, -⟩
        · rw [hlabel] at heq
          rw [Node.labels_eq_node, ← heq]
          rfl
        · rw [hlabel] at htoken
          cases htoken
      rw [hlabels]
      by_cases hnil : children = []
      · rw [Rose.children_node, if_pos hnil] at hmatches
        obtain ⟨hleaf, hsame, -⟩ := hmatches
        rw [hcandidateLabels hsame, hleaf, hnil]
        exact .nil
      · rw [Rose.children_node, if_neg hnil] at hmatches
        obtain ⟨hsame, hlength, hall⟩ := hmatches
        have hcandidateLabels := hcandidateLabels hsame
        rw [hcandidateLabels]
        show Covers choice (slotsOf .default (Rose.texts (.node (.construct symbol.name) _))) _
        rw [Rose.texts_construct, Rose.texts_construct, List.flatMap_map, List.flatMap_map]
        refine covers_flatMap hlength fun pair hpair => ?_
        obtain ⟨hq, hc⟩ := List.of_mem_zip hpair
        refine ih pair.1 hq ⟨pair.2, some candidate.node⟩ ?_ (hquery.child hq)
          (hcandidate.child hc) (hv.child hq) (hw.child hc) ?_ (hall pair hpair)
        · exact faces_of_mem_zip hquery hcandidate hlabels hcandidateLabels hpair
        · intro t ht
          refine hnumbered t ?_
          rw [hlabels]
          show t ∈ Rose.texts (.node (.construct symbol.name) _)
          rw [Rose.texts_construct]
          exact List.mem_flatMap.mpr ⟨_, List.mem_map_of_mem hq, ht⟩

/-! ### Whole changes -/

/-- No token of the change is a numbered placeholder. -/
def Change.isUnnumbered (table : Table) (change : Change) : Bool :=
  change.tree.root?.all fun root => root.tokens.all fun token =>
    match table.kind token with
    | .numbered _ _ => false
    | _ => true

/-- The texts of the tokens of a side are not those of numbered placeholders. -/
theorem not_isNumbered_of_mem_texts {change : Change} {root side : Node} {text : String}
    (hunnumbered : change.isUnnumbered .default = true) (hroot : change.tree.root? = some root)
    (hside : side ∈ root.children) (hnodes : OfSide side) (htext : text ∈ side.labels.texts) :
    ¬ IsNumbered .default text := by
  rintro ⟨name, variant, hkind⟩
  obtain ⟨n, htoken, hlabels⟩ := hnodes.exists_mem_tokens hside htext
  rw [Change.isUnnumbered, hroot] at hunnumbered
  have hthis := List.all_eq_true.mp hunnumbered n htoken
  rw [Placeholder.kind_of_token hlabels, hkind] at hthis
  cases hthis

/-- The sides of changes face each other. -/
theorem faces_of_isSide {query : Node} {candidate : Site} {root : Node}
    (hquery : ChangeGrammar.IsSide query.labels) (hparent : candidate.parent? = some root)
    (hroot : root.label = "change") : Faces query candidate where
  token t ht := by
    rw [hquery.1] at ht
    cases ht
  marker ht := by
    rw [hquery.1] at ht
    cases ht
  literal parent hparent' hlabel := by
    rw [hparent] at hparent'
    obtain rfl := Option.some.inj hparent'
    rw [hroot] at hlabel
    exact absurd hlabel (by decide)

/-- **Parsed changes that match align**, unless the query has a numbered placeholder. -/
theorem aligns_of_matching {v w v' w' : Vocabulary} {queryText candidateText : String}
    {query candidate : Change}
    (hquery : Parser.java.change v queryText "->" = .ok (w, query))
    (hunnumbered : query.isUnnumbered .default = true)
    (hcandidate : Parser.java.change v' candidateText "->" = .ok (w', candidate))
    (hcompatible : w.Compatible w')
    (hmatch : Comparison.changesMatch .default query candidate = true) :
    aligns .default (TokenSides.ofTree query.tree "->") (TokenSides.ofTree candidate.tree "->") =
      true := by
  obtain ⟨root, old, new, hroot, -, hold, hnew, hsplits, holdSide, hnewSide, holdOver,
    hnewOver⟩ := exists_splits_of_change hquery
  obtain ⟨root', old', new', hroot', hlabel, hold', hnew', hsplits', holdSide', hnewSide',
    holdOver', hnewOver'⟩ := exists_splits_of_change hcandidate
  rw [Comparison.changesMatch_iff, hold, hnew, hold', hnew'] at hmatch
  rw [hsplits.sides hroot, hsplits'.sides hroot', aligns_iff_exists_choice]
  -- Nothing is tied together, so any choice will do.
  refine ⟨fun _ => [], ?_, ?_⟩
  · exact covers_of_matches hcompatible old ⟨old', some root'⟩
      (faces_of_isSide holdSide rfl hlabel) (ofSide_of_isSide holdSide)
      (ofSide_of_isSide holdSide') holdOver holdOver'
      (fun t ht => not_isNumbered_of_mem_texts hunnumbered hroot hsplits.old_mem_children
        (ofSide_of_isSide holdSide) ht) hmatch.1
  · exact covers_of_matches hcompatible new ⟨new', some root'⟩
      (faces_of_isSide hnewSide rfl hlabel) (ofSide_of_isSide hnewSide)
      (ofSide_of_isSide hnewSide') hnewOver hnewOver'
      (fun t ht => not_isNumbered_of_mem_texts hunnumbered hroot hsplits.new_mem_children
        (ofSide_of_isSide hnewSide) ht) hmatch.2

end ChangeQuery
