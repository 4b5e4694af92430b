import ChangeQuery.Proofs.ChangeGrammar.PlaceholderTokens
import ChangeQuery.Proofs.SExpr.RoundTrip

/-!
## The shapes of constructs

Rules of placeholders ask for names of constructs, so they rely on what stands directly below the
constructs of these names.  Operands and operators alternate in a chain, arguments and commas in a list of
arguments, and names, literals and operators are constructs above a single token.

All of this is about constructs.  A token is labelled by its own text, which can be the name of a construct:
then the label of a node does not tell what stands below it.

* `Alternates`: items with separators in between.
* `IsSideNode.expression`, `IsSideNode.argumentList`: what stands below expressions and lists of arguments.
* `Parser.hasShape_of_tree`: the shapes of the nodes of every change that the parser accepts.
* `Parser.not_single_of_label`: a token that is labelled like an operator.
-/

namespace ChangeQuery

namespace ChangeGrammar

open Grammar
open Peg (many option)
open Placeholder (Names kindOfText)

/-! ### Items and separators -/

/-- Items and separators take turns, with an item at either end. -/
structure Alternates (item separator : Rose Label → Prop) (ts : List (Rose Label)) : Prop where
  odd : ts.length % 2 = 1
  items : ∀ i (h : i < ts.length), i % 2 = 0 → item ts[i]
  separators : ∀ i (h : i < ts.length), i % 2 = 1 → separator ts[i]

variable {item separator : Rose Label → Prop} {t s : Rose Label} {ts : List (Rose Label)}

theorem Alternates.single (h : item t) : Alternates item separator [t] where
  odd := rfl
  items i hi _ := by
    obtain rfl : i = 0 := by simpa using hi
    exact h
  separators i hi hodd := by
    obtain rfl : i = 0 := by simpa using hi
    cases hodd

theorem Alternates.cons (ht : item t) (hs : separator s) (h : Alternates item separator ts) :
    Alternates item separator (t :: s :: ts) where
  odd := by
    have hodd := h.odd
    simp only [List.length_cons]
    omega
  items i hi heven := by
    match i with
    | 0 => exact ht
    | 1 => cases heven
    | i + 2 => exact h.items i (by simpa using hi) (by omega)
  separators i hi hodd := by
    match i with
    | 0 => cases hodd
    | 1 => exact hs
    | i + 2 => exact h.separators i (by simpa using hi) (by omega)

/-- An item, and rounds of a separator and an item each. -/
theorem alternates_of_rounds {rounds : List (List (Rose Label))}
    (h : ∀ us ∈ rounds, ∃ s u, us = [s, u] ∧ separator s ∧ item u) (ht : item t) :
    Alternates item separator (t :: rounds.flatten) := by
  induction rounds generalizing t with
  | nil => exact .single ht
  | cons us rounds ih =>
    rw [List.forall_mem_cons] at h
    obtain ⟨⟨s, u, rfl, hs, hu⟩, hrounds⟩ := h
    exact .cons ht hs (ih hrounds hu)

/-! ### Operands and operators -/

/-- The node is a construct of the name. -/
def IsConstruct (name : String) (t : Rose Label) : Prop :=
  t.value = .construct name

/-- The node is a token that is read as a placeholder of the name. -/
def IsPlaceholderLeaf (name : String) (t : Rose Label) : Prop :=
  ∃ text, t = .leaf (.token text) ∧ (kindOfText .default text).name? = some name

/-- An expression, or a placeholder for one. -/
def IsOperand (t : Rose Label) : Prop :=
  IsConstruct "expression" t ∨ IsPlaceholderLeaf "EXPR" t

/-- An operator between operands, or a placeholder for one. -/
def IsBinary (t : Rose Label) : Prop :=
  IsConstruct "binary_operators" t ∨ IsPlaceholderLeaf "binOP" t ∨ IsPlaceholderLeaf "OP" t

/-- An operator of an assignment, or a placeholder for one. -/
def IsAssign (t : Rose Label) : Prop :=
  IsConstruct "assign_operators" t ∨ IsPlaceholderLeaf "OP" t

theorem isPlaceholderLeaf_of_leaves {name : String} (hname : name ∈ Names.default.toList)
    (h : grammar.Leaves (Peg.token (placeholder name)) ts) : ∃ t, ts = [t] ∧ IsPlaceholderLeaf name t := by
  obtain ⟨text, ⟨_, _, p, hp, rfl⟩, rfl⟩ := leaves_token_iff.mp h
  cases hp with
  | tight hp =>
    have hplaceholder := isPlaceholder_of_reads (placeholderName?_placeholder name) hp
    exact ⟨_, rfl, _, rfl, hplaceholder.name? hname⟩

theorem isConstruct_of_leaves {name : String} {body : Reader} (h : grammar.Leaves (.branch name body) ts) :
    ∃ t, ts = [t] ∧ IsConstruct name t := by
  obtain ⟨us, -, rfl⟩ := leaves_branch_iff.mp h
  exact ⟨_, rfl, rfl⟩

/-- A separator and an item behind it. -/
theorem exists_pair_of_leaves {first second : Reader}
    (hfirst : ∀ {us}, grammar.Leaves first us → ∃ s, us = [s] ∧ separator s)
    (hsecond : ∀ {us}, grammar.Leaves second us → ∃ u, us = [u] ∧ item u)
    (h : grammar.Leaves (first ++ second) ts) : ∃ s u, ts = [s, u] ∧ separator s ∧ item u := by
  obtain ⟨us, vs, rfl, hus, hvs⟩ := leaves_append_iff.mp h
  obtain ⟨s, rfl, hs⟩ := hfirst hus
  obtain ⟨u, rfl, hu⟩ := hsecond hvs
  exact ⟨s, u, rfl, hs, hu⟩

theorem isOperand_of_leaves_operandSlot (h : grammar.Leaves operandSlot ts) :
    ∃ t, ts = [t] ∧ IsOperand t := by
  rcases leaves_orElse_iff.mp h with h | h
  · obtain ⟨t, rfl, ht⟩ := isPlaceholderLeaf_of_leaves (by decide) h
    exact ⟨t, rfl, .inr ht⟩
  · obtain ⟨t, rfl, ht⟩ := isConstruct_of_leaves h
    exact ⟨t, rfl, .inl ht⟩

theorem isOperand_of_leaves_expressionSlot (h : grammar.Leaves expressionSlot ts) :
    ∃ t, ts = [t] ∧ IsOperand t := by
  rcases leaves_orElse_iff.mp h with h | h
  · obtain ⟨us, vs, rfl, hus, hvs⟩ := leaves_append_iff.mp h
    obtain ⟨t, rfl, ht⟩ := isPlaceholderLeaf_of_leaves (by decide) hus
    cases hvs
    exact ⟨t, rfl, .inr ht⟩
  · cases h with
    | call h =>
      obtain ⟨t, rfl, ht⟩ := isConstruct_of_leaves h
      exact ⟨t, rfl, .inl ht⟩

theorem isBinary_of_leaves (h : grammar.Leaves binarySlot ts) : ∃ t, ts = [t] ∧ IsBinary t := by
  rcases leaves_orElse_iff.mp h with h | h
  · obtain ⟨t, rfl, ht⟩ := isPlaceholderLeaf_of_leaves (by decide) h
    exact ⟨t, rfl, .inr (.inl ht)⟩
  rcases leaves_orElse_iff.mp h with h | h
  · obtain ⟨t, rfl, ht⟩ := isPlaceholderLeaf_of_leaves (by decide) h
    exact ⟨t, rfl, .inr (.inr ht)⟩
  · obtain ⟨t, rfl, ht⟩ := isConstruct_of_leaves h
    exact ⟨t, rfl, .inl ht⟩

theorem isAssign_of_leaves (h : grammar.Leaves assignSlot ts) : ∃ t, ts = [t] ∧ IsAssign t := by
  rcases leaves_orElse_iff.mp h with h | h
  · obtain ⟨t, rfl, ht⟩ := isPlaceholderLeaf_of_leaves (by decide) h
    exact ⟨t, rfl, .inr ht⟩
  · obtain ⟨t, rfl, ht⟩ := isConstruct_of_leaves h
    exact ⟨t, rfl, .inl ht⟩

/-! ### Expressions and lists of arguments -/

/-- What can stand below an expression: a value, a chain, or an assignment. -/
def IsExpression (ts : List (Rose Label)) : Prop :=
  (∃ value, ts = [value] ∧ IsConstruct "unary" value) ∨
    3 ≤ ts.length ∧ Alternates IsOperand IsBinary ts ∨
    ∃ left operator right, ts = [left, operator, right] ∧ IsOperand left ∧ IsAssign operator ∧
      IsOperand right

/-- **Expressions** are values, chains or assignments. -/
theorem isExpression_of_leaves (h : grammar.Leaves (operandSlot ++
      (Peg.many1 (binarySlot ++ operandSlot) <|> assignSlot ++ expressionSlot) <|> unary) ts) :
    IsExpression ts := by
  rcases leaves_orElse_iff.mp h with h | h
  · obtain ⟨us, vs, rfl, hus, hvs⟩ := leaves_append_iff.mp h
    obtain ⟨t, rfl, ht⟩ := isOperand_of_leaves_operandSlot hus
    right
    rcases leaves_orElse_iff.mp hvs with hchain | hassignment
    · left
      obtain ⟨first, others, rfl, hfirst, hothers⟩ := leaves_append_iff.mp hchain
      obtain ⟨rounds, rfl, hrounds⟩ := exists_rounds_of_leaves_many hothers
      have hpairs : ∀ us ∈ first :: rounds, ∃ s u, us = [s, u] ∧ IsBinary s ∧ IsOperand u := by
        intro us hus
        refine exists_pair_of_leaves isBinary_of_leaves isOperand_of_leaves_operandSlot ?_
        rcases List.mem_cons.mp hus with rfl | hus
        · exact hfirst
        · exact hrounds us hus
      refine ⟨?_, alternates_of_rounds hpairs ht⟩
      obtain ⟨s, u, rfl, -⟩ := hpairs first List.mem_cons_self
      simp
    · right
      obtain ⟨s, u, rfl, hs, hu⟩ :=
        exists_pair_of_leaves isAssign_of_leaves isOperand_of_leaves_expressionSlot hassignment
      exact ⟨t, s, u, rfl, ht, hs, hu⟩
  · exact .inl (isConstruct_of_leaves h)

theorem IsSideNode.expression (h : IsSideNode (.node (.construct "expression") ts)) : IsExpression ts := by
  obtain ⟨body, hbody, hleaves⟩ := h.exists_body
  -- Operands are expressions of their own, made of a value alone.
  have hnamed : named "expression" =
      [("expression", operandSlot ++
          (Peg.many1 (binarySlot ++ operandSlot) <|> assignSlot ++ expressionSlot) <|> unary),
        ("expression", unary), ("expression", unary), ("expression", unary)] := rfl
  have hmem : ("expression", body) ∈ named "expression" :=
    List.mem_filter.mpr ⟨hbody, decide_eq_true rfl⟩
  rw [hnamed] at hmem
  simp only [List.mem_cons, List.not_mem_nil, or_false, or_self, Prod.mk.injEq, true_and] at hmem
  rcases hmem with rfl | rfl
  · exact isExpression_of_leaves hleaves
  · exact .inl (isConstruct_of_leaves hleaves)

/-- **Lists of arguments** are empty, or have commas between the arguments. -/
theorem IsSideNode.argumentList (h : IsSideNode (.node (.construct "argument_list") ts)) :
    ts = [] ∨ Alternates IsOperand (fun t => t = .leaf (.token ",")) ts := by
  obtain ⟨reader, hreader, hleaves⟩ := h.exists_body
  obtain rfl := body_eq_of_named (option (commaSeparated expressionSlot)) rfl hreader
  cases hleaves with
  | option_nil => exact .inl rfl
  | option hleaves =>
    right
    obtain ⟨us, vs, rfl, hus, hvs⟩ := leaves_append_iff.mp hleaves
    obtain ⟨t, rfl, ht⟩ := isOperand_of_leaves_expressionSlot hus
    obtain ⟨rounds, rfl, hrounds⟩ := exists_rounds_of_leaves_many hvs
    refine alternates_of_rounds (fun us hus => ?_) ht
    refine exists_pair_of_leaves (fun hcomma => ?_) isOperand_of_leaves_expressionSlot (hrounds us hus)
    exact ⟨_, eq_of_leaves_mark hcomma, rfl⟩

/-! ### Whole trees -/

/-- What stands below a node, as far as its label tells. -/
structure HasShape (t : Rose Label) : Prop where
  token : ∀ text, t.value = .token text → t.children = []
  single : ∀ name ∈ singleNames, IsConstruct name t →
    ∃ text, t.children = [.leaf (.token text)] ∧ text ≠ ""
  expression : IsConstruct "expression" t → IsExpression t.children
  arguments : IsConstruct "arguments" t → ∃ list, IsConstruct "argument_list" list ∧
    t.children = [.leaf (.token "("), list, .leaf (.token ")")]
  argument_list : IsConstruct "argument_list" t →
    t.children = [] ∨ Alternates IsOperand (fun t => t = .leaf (.token ",")) t.children

/-- A leaf that is a token. -/
theorem hasShape_leaf (text : String) : HasShape (.leaf (.token text)) := by
  have hconstruct : ∀ name, ¬ IsConstruct name (.leaf (.token text)) := by
    intro name h
    cases h
  exact
    { token := fun _ _ => rfl
      single := fun name _ h => absurd h (hconstruct name)
      expression := fun h => absurd h (hconstruct _)
      arguments := fun h => absurd h (hconstruct _)
      argument_list := fun h => absurd h (hconstruct _) }

/-- A construct of which nothing is asked. -/
theorem hasShape_of_other {name : String} (ht : IsConstruct name t)
    (h : name ∉ "expression" :: "arguments" :: "argument_list" :: singleNames) : HasShape t := by
  have hother : ∀ other ∈ "expression" :: "arguments" :: "argument_list" :: singleNames,
      ¬ IsConstruct other t := by
    intro other hmem hconstruct
    obtain rfl := Label.construct.inj (ht.symm.trans hconstruct)
    exact h hmem
  exact
    { token := fun text htext => by
        rw [ht] at htext
        cases htext
      single := fun other hmem h => absurd h (hother other (by simp [hmem]))
      expression := fun h => absurd h (hother _ (by simp))
      arguments := fun h => absurd h (hother _ (by simp))
      argument_list := fun h => absurd h (hother _ (by simp)) }

end ChangeGrammar

open ChangeGrammar (IsSideNode HasShape IsConstruct singleNames)

/-- **The nodes of a side** have their shapes. -/
theorem OfSide.hasShape {n : Node} (h : OfSide n) : HasShape n.labels := by
  have hchildren : ∀ c ∈ n.labels.children, IsSideNode c := by
    intro c hc
    exact h c (Rose.mem_preorder_child hc (Rose.mem_preorder_self c))
  have hself : ∀ {name}, IsConstruct name n.labels →
      IsSideNode (.node (.construct name) n.labels.children) := by
    intro name hname
    have hnode := h.self
    rw [← n.labels.node_value_children, hname] at hnode
    exact hnode
  exact
    { token := fun text htext => by
        rw [h.labels_of_token htext]
        rfl
      single := fun name hname hconstruct => by
        obtain ⟨text, htext⟩ := (hself hconstruct).single hname
        refine ⟨text, htext, ?_⟩
        rintro rfl
        obtain ⟨-, -, c, hc, -⟩ := (hchildren (.leaf (.token "")) (by simp [htext])).token
        cases hc
      expression := fun hconstruct => (hself hconstruct).expression
      arguments := fun hconstruct => by
        obtain ⟨items, hitems⟩ := (hself hconstruct).arguments
        exact ⟨.node (.construct "argument_list") items, rfl, hitems⟩
      argument_list := fun hconstruct => (hself hconstruct).argumentList }

namespace Parser

variable {v w : Vocabulary} {source : String} {tree : Tree}

/-- **The shapes of the nodes**, in every change that the parser accepts: nodes are numbered in pre-order,
there is nothing below a token, and names, literals, operators, expressions and arguments have what
placeholders rely on directly below them. -/
theorem hasShape_of_tree (h : java.tree v source = .ok (w, tree)) :
    tree.InPreorder ∧ ∀ s ∈ tree.sites, HasShape s.node.labels := by
  refine ⟨Tree.inPreorder_tree h, fun s hs => ?_⟩
  rcases cases_of_mem_sites h hs with ⟨-, hchange⟩ | ⟨-, hbreak | harrow | hside⟩ |
    ⟨p, -, hside, hnode⟩
  · exact ChangeGrammar.hasShape_of_other hchange (by decide)
  · rw [hbreak]
    exact ChangeGrammar.hasShape_leaf _
  · rw [harrow]
    exact ChangeGrammar.hasShape_leaf _
  · exact (ofSide_of_isSide hside).hasShape
  · exact (hside.child hnode).hasShape

/-- The node is a list of two arguments. -/
def isPairOfArguments (n : Node) : Bool :=
  !n.isToken && n.label == "argument_list" && n.children.length == 3

/-- Two arguments have a comma in between. -/
theorem hasShape_of_tree_pair :
    ∃ w tree, java.tree ⟨0, []⟩ "f(EXPR, y); -> _" = .ok (w, tree) ∧ tree.InPreorder ∧
      ∃ s ∈ tree.sites, ∃ x y, s.node.labels.children = [x, .leaf (.token ","), y] ∧
        ChangeGrammar.IsOperand x ∧ ChangeGrammar.IsOperand y := by
  obtain ⟨w, tree, htree, s, hs, hcheck⟩ := exists_site_of_hasNode
    (by decide +kernel : hasNode "f(EXPR, y); -> _" isPairOfArguments = true)
  obtain ⟨hpreorder, hshapes⟩ := hasShape_of_tree htree
  refine ⟨w, tree, htree, hpreorder, s, hs, ?_⟩
  rw [isPairOfArguments, Bool.and_eq_true, Bool.and_eq_true, beq_iff_eq, beq_iff_eq] at hcheck
  obtain ⟨⟨hconstruct, hlabel⟩, hlength⟩ := hcheck
  have hlist : IsConstruct "argument_list" s.node.labels := by
    rw [IsConstruct, Node.value_labels_of_not_isToken (by simpa using hconstruct), hlabel]
  have hchildren : s.node.labels.children.length = 3 := by
    rw [Node.children_labels, List.length_map, hlength]
  rcases (hshapes s hs).argument_list hlist with hnil | halternates
  · rw [hnil] at hchildren
    cases hchildren
  · obtain ⟨x, comma, y, heq⟩ := List.length_eq_three.mp hchildren
    rw [heq] at halternates ⊢
    have hcomma : comma = .leaf (.token ",") := halternates.separators 1 (by simp) rfl
    rw [hcomma]
    exact ⟨x, y, rfl, halternates.items 0 (by simp) rfl, halternates.items 2 (by simp) rfl⟩

/-- **A token that is labelled like an operator** has nothing below it. -/
theorem not_single_of_label :
    ¬ ∀ (v w : Vocabulary) (source : String) (tree : Tree), java.tree v source = .ok (w, tree) →
      ∀ s ∈ tree.sites, s.node.label ∈ singleNames →
        ∃ c, s.node.children = [c] ∧ Node.isToken c = true ∧ Node.label c ≠ "" := by
  intro h
  obtain ⟨w, tree, htree, s, hs, htoken, hlabel⟩ := exists_site_of_hasToken
    (by decide +kernel :
      hasNode "binary_operators x; -> y;" (isTokenWith "binary_operators") = true)
  obtain ⟨c, hc, -⟩ := h _ _ _ _ htree s hs (by rw [hlabel]; decide)
  obtain ⟨root, hroot, hmem⟩ := Tree.exists_root_of_mem_sites hs
  rw [tokensBare_of_tree htree root hroot s.node hmem htoken] at hc
  cases hc

end Parser

end ChangeQuery
