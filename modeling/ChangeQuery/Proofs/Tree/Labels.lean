import ChangeQuery.Tree
import ChangeQuery.Text.Split
import Mathlib.Data.List.Basic
import Mathlib.Tactic.Common

/-!
## Trees and their labels

A node of a syntax tree differs from a tree of labels in the numbers of its nodes and in the
vocabulary of its constructs.  What is said about labels carries over to nodes by `Node.labels`.

* `Rose.texts`: the texts of the tokens of a tree of labels; `Node.map_label_tokens` says that they
  are those of the node.
* `Node.textIs_iff`: the comparison of texts one token at a time is a comparison of the whole texts.
* `Node.Over`: the constructs of a node are symbols of a vocabulary, and `Node.label_eq_of_same`
  says what it means that two such nodes agree.
* `Tree.labels_ofLabels`: the tree made from labels has these labels.
-/

namespace ChangeQuery

namespace Rose

variable {α β γ : Type}

theorem preorder_node (v : α) (cs : List (Rose α)) :
    (node v cs).preorder = node v cs :: cs.flatMap preorder := by
  rw [preorder, preorderAll_eq_flatMap]

theorem mem_preorder_self (t : Rose α) : t ∈ t.preorder := by
  cases t
  rw [preorder_node]
  exact List.mem_cons_self

theorem mem_preorder_child {t c n : Rose α} (hc : c ∈ t.children) (hn : n ∈ c.preorder) :
    n ∈ t.preorder := by
  cases t
  rw [preorder_node]
  exact List.mem_cons_of_mem _ (List.mem_flatMap.mpr ⟨c, hc, hn⟩)

theorem values_node (v : α) (cs : List (Rose α)) :
    (node v cs).values = v :: cs.flatMap values := by
  rw [values, preorder_node, List.map_cons, List.map_flatMap]
  rfl

theorem map_node (f : α → β) (v : α) (cs : List (Rose α)) :
    (node v cs).map f = node (f v) (cs.map (map f)) := by
  rw [map, mapAll_eq_map]

@[simp] theorem value_map (f : α → β) (t : Rose α) : (t.map f).value = f t.value := by
  cases t
  rw [map_node, value_node, value_node]

@[simp] theorem children_map (f : α → β) (t : Rose α) :
    (t.map f).children = t.children.map (map f) := by
  cases t
  rw [map_node, children_node, children_node]

theorem values_map (f : α → β) (t : Rose α) : (t.map f).values = t.values.map f := by
  induction t using induct with
  | node v cs ih =>
    rw [map_node, values_node, values_node, List.map_cons, List.flatMap_map, List.map_flatMap,
      List.flatMap_congr ih]

theorem preorder_map (f : α → β) (t : Rose α) : (t.map f).preorder = t.preorder.map (map f) := by
  induction t using induct with
  | node v cs ih =>
    rw [map_node, preorder_node, preorder_node, List.map_cons, List.flatMap_map,
      List.map_flatMap, List.flatMap_congr ih, map_node]

theorem map_id (t : Rose α) : t.map id = t := by
  induction t using induct with
  | node v cs ih =>
    have hcs : cs.map (map id) = cs := (List.map_congr_left ih).trans cs.map_id
    rw [map_node, hcs]
    rfl

theorem map_map (f : β → γ) (h : α → β) (t : Rose α) : (t.map h).map f = t.map (f ∘ h) := by
  induction t using induct with
  | node v cs ih =>
    have hcs : cs.map (map f ∘ map h) = cs.map (map (f ∘ h)) := List.map_congr_left ih
    rw [map_node, map_node, map_node, List.map_map, hcs]
    rfl

end Rose

/-! ### Tokens -/

/-- The text of a token. -/
def Label.token? : Label → Option String
  | .construct _ => none
  | .token text => some text

theorem Label.token?_token (text : String) : (Label.token text).token? = some text := rfl

namespace Rose

/-- The texts of the tokens of a tree of labels, in order. -/
def texts (t : Rose Label) : List String :=
  t.values.filterMap Label.token?

@[simp] theorem texts_construct (name : String) (cs : List (Rose Label)) :
    (node (.construct name) cs).texts = cs.flatMap texts := by
  rw [texts, values_node, List.filterMap_cons_none rfl, List.filterMap_flatMap]
  rfl

@[simp] theorem texts_token (text : String) (cs : List (Rose Label)) :
    (node (.token text) cs).texts = text :: cs.flatMap texts := by
  rw [texts, values_node, List.filterMap_cons_some (Label.token?_token text), List.filterMap_flatMap]
  rfl

@[simp] theorem texts_leaf (text : String) : (leaf (.token text)).texts = [text] := by
  rw [leaf, texts_token, List.flatMap_nil]

theorem mem_texts_iff {t : Rose Label} {text : String} :
    text ∈ t.texts ↔ ∃ n ∈ t.preorder, n.value = .token text := by
  rw [texts, List.mem_filterMap, values]
  constructor
  · rintro ⟨l, hl, htext⟩
    obtain ⟨n, hn, rfl⟩ := List.mem_map.mp hl
    refine ⟨n, hn, ?_⟩
    cases hvalue : n.value with
    | construct name =>
      rw [hvalue] at htext
      cases htext
    | token text' =>
      rw [hvalue] at htext
      exact congrArg Label.token (Option.some.inj htext)
  · rintro ⟨n, hn, hvalue⟩
    exact ⟨n.value, List.mem_map_of_mem hn, by rw [hvalue]; rfl⟩

/-- The tokens of a subtree are among those of the tree. -/
theorem texts_subset_of_mem_preorder {t n : Rose Label} (hn : n ∈ t.preorder) :
    n.texts ⊆ t.texts := by
  induction t using induct with
  | node v cs ih =>
    rw [preorder_node, List.mem_cons, List.mem_flatMap] at hn
    rcases hn with rfl | ⟨c, hc, hn⟩
    · exact fun _ h => h
    · have hsub : n.texts ⊆ cs.flatMap texts :=
        fun text htext => List.mem_flatMap.mpr ⟨c, hc, ih c hc hn htext⟩
      cases v with
      | construct name => rwa [texts_construct]
      | token text =>
        rw [texts_token]
        exact fun other hother => List.mem_cons_of_mem _ (hsub hother)

end Rose

namespace Node

@[simp] theorem value_labels (n : Node) : n.labels.value = n.category.label := by
  rw [labels, Rose.value_map]
  rfl

@[simp] theorem children_labels (n : Node) : n.labels.children = n.children.map labels := by
  rw [labels, Rose.children_map]
  rfl

theorem labels_eq_node (n : Node) :
    n.labels = .node n.category.label (n.children.map labels) := by
  rw [← n.labels.node_value_children, value_labels, children_labels]

theorem labels_of_construct {n : Node} {symbol : Symbol} (h : n.category = .construct symbol) :
    n.labels = .node (.construct symbol.name) (n.children.map labels) := by
  rw [labels_eq_node, h]
  rfl

theorem labels_of_isToken {n : Node} (h : n.isToken = true) :
    n.labels = .node (.token n.label) (n.children.map labels) := by
  rw [labels_eq_node, label]
  cases hcategory : n.category with
  | construct symbol =>
    rw [isToken, hcategory] at h
    cases h
  | token text => rfl

theorem value_labels_of_not_isToken {n : Node} (h : n.isToken = false) :
    n.labels.value = .construct n.label := by
  rw [value_labels, label]
  cases hcategory : n.category with
  | construct symbol => rfl
  | token text =>
    rw [isToken, hcategory] at h
    cases h

/-- A node with the labels of a leaf is one. -/
theorem children_eq_nil {n : Node} {l : Label} (h : n.labels = .leaf l) : n.children = [] := by
  have hchildren := congrArg Rose.children h
  rw [children_labels] at hchildren
  exact List.map_eq_nil_iff.mp hchildren

theorem mem_texts_of_leaf {n : Node} {text : String} (h : n.labels = .leaf (.token text)) :
    text ∈ n.labels.texts := by
  rw [h, Rose.texts_leaf]
  exact List.mem_singleton_self text

theorem label_of_labels {n : Node} {l : Label} {cs : List (Rose Label)}
    (h : n.labels = .node l cs) : n.label = l.text := by
  rw [label, ← value_labels, h]
  rfl

theorem isToken_of_labels {n : Node} {l : Label} {cs : List (Rose Label)}
    (h : n.labels = .node l cs) : n.isToken = l.token?.isSome := by
  have hlabel : n.category.label = l := by rw [← value_labels, h]; rfl
  rw [← hlabel, isToken]
  cases n.category <;> rfl

/-- **The tokens of a node** have the texts of its labels. -/
theorem map_label_tokens (n : Node) : n.tokens.map label = n.labels.texts := by
  have hfilter : ∀ nodes : List Node, (nodes.filter isToken).map label =
      (nodes.map fun m => m.category.label).filterMap Label.token? := by
    intro nodes
    induction nodes with
    | nil => rfl
    | cons m nodes ih =>
      rw [List.map_cons]
      cases hcategory : m.category with
      | construct symbol =>
        have hlabel : (Category.construct symbol).label.token? = none := rfl
        rw [List.filter_cons_of_neg (by rw [isToken, hcategory]; exact Bool.false_ne_true),
          List.filterMap_cons_none hlabel, ih]
      | token text =>
        have hlabel : (Category.token text).label.token? = some m.label := by
          rw [label, hcategory]; rfl
        rw [List.filter_cons_of_pos (by rw [isToken, hcategory]; rfl), List.map_cons,
          List.filterMap_cons_some hlabel, ih]
  rw [tokens, hfilter, Rose.texts, labels, Rose.values_map, Rose.values, List.map_map]
  rfl

/-- The tokens of a subtree are among those of the node. -/
theorem texts_subset {n m : Node} (hm : m ∈ n.preorder) : m.labels.texts ⊆ n.labels.texts := by
  refine Rose.texts_subset_of_mem_preorder ?_
  rw [labels, labels, Rose.preorder_map]
  exact List.mem_map_of_mem hm

/-! ### Comparing texts -/

theorem dropTexts?_eq_some_iff {texts : List String} {cs rest : List Char} :
    dropTexts? texts cs = some rest ↔ cs = texts.flatMap String.toList ++ rest := by
  induction texts generalizing cs with
  | nil =>
    rw [dropTexts?, Option.some_inj]
    exact Iff.rfl
  | cons text texts ih =>
    rw [dropTexts?, Option.bind_eq_some_iff, List.flatMap_cons, List.append_assoc]
    constructor
    · rintro ⟨cs', hcs, hrest⟩
      rw [Text.eq_append_of_isPrefixOf? hcs, ih.mp hrest]
    · rintro rfl
      exact ⟨_, Text.isPrefixOf?_append _ _, ih.mpr rfl⟩

/-- **The text of a node**: comparing one token at a time compares the whole text. -/
theorem textIs_iff {n : Node} {expected : String} :
    n.textIs expected = true ↔ n.labels.texts.flatMap String.toList = expected.toList := by
  rw [textIs, beq_iff_eq, dropTexts?_eq_some_iff, map_label_tokens, List.append_nil, eq_comm]

end Node

/-! ### Symbols of a vocabulary -/

/-- If both vocabularies are the same one at different times, then one of them has grown from the
other.  Names are only ever added (`Vocabulary.insert`), so this holds of all that come about. -/
def Vocabulary.Compatible (v w : Vocabulary) : Prop :=
  v.owner = w.owner → v.names <+: w.names ∨ w.names <+: v.names

theorem Vocabulary.eq_of_same_symbol {v w : Vocabulary} (h : v.Compatible w) {a b : String}
    (ha : a ∈ v.names) (hb : b ∈ w.names) (hsame : (v.symbol a).same (w.symbol b) = true) :
    a = b := by
  unfold Symbol.same symbol at hsame
  by_cases howner : v.owner = w.owner
  · rw [if_pos howner, beq_iff_eq] at hsame
    -- A listed name keeps its position, so both positions are positions in the longer list.
    have hlonger : ∀ {short long : List String} {x : String}, short <+: long → x ∈ short →
        short.idxOf x = long.idxOf x := by
      rintro short long x ⟨added, rfl⟩ hx
      rw [idxOf_append hx]
    rcases h howner with hfront | hfront
    · rw [hlonger hfront ha] at hsame
      exact (List.idxOf_inj (hfront.subset ha)).mp hsame
    · rw [hlonger hfront hb] at hsame
      exact (List.idxOf_inj ha).mp hsame
  · rwa [if_neg howner, beq_iff_eq] at hsame

/-- The category is a token, or a construct that the vocabulary lists. -/
def Vocabulary.Lists (v : Vocabulary) : Category → Prop
  | .construct symbol => symbol.name ∈ v.names ∧ symbol = v.symbol symbol.name
  | .token _ => True

/-- The constructs at and below a node are listed. -/
def Node.Over (v : Vocabulary) (n : Node) : Prop :=
  ∀ m ∈ n.preorder, v.Lists (Node.category m)

namespace Node

theorem Over.child {v : Vocabulary} {n c : Node} (h : n.Over v) (hc : c ∈ n.children) : c.Over v :=
  fun m hm => h m (Rose.mem_preorder_child hc hm)

theorem Over.self {v : Vocabulary} {n : Node} (h : n.Over v) : v.Lists n.category :=
  h n n.mem_preorder_self

/-- **Nodes that agree** are constructs of one name, or tokens. -/
theorem label_eq_of_same {v w : Vocabulary} (h : v.Compatible w) {a b : Category}
    (ha : v.Lists a) (hb : w.Lists b) (hsame : a.same b = true) :
    a.label = b.label ∨ a.isToken = true ∧ b.isToken = true := by
  cases a with
  | construct s =>
    cases b with
    | construct t =>
      obtain ⟨hs, hs'⟩ := ha
      obtain ⟨ht, ht'⟩ := hb
      left
      rw [Category.same, hs', ht'] at hsame
      exact congrArg Label.construct (Vocabulary.eq_of_same_symbol h hs ht hsame)
    | token text => cases hsame
  | token text =>
    cases b with
    | construct t => cases hsame
    | token text' => exact .inr ⟨rfl, rfl⟩

end Node

/-! ### Trees made from labels -/

theorem Vocabulary.label_category (v : Vocabulary) (l : Label) : (v.category l).label = l := by
  cases l <;> rfl

theorem Vocabulary.mem_names_insertMany {names : List String} {name : String} (h : name ∈ names) :
    ∀ v : Vocabulary, name ∈ (v.insertMany names).names := by
  induction names with
  | nil => exact absurd h List.not_mem_nil
  | cons first names ih =>
    intro v
    rcases List.mem_cons.mp h with rfl | h
    · obtain ⟨added, hadded⟩ := (v.insert name).names_insertMany_eq_append names
      show name ∈ ((v.insert name).insertMany names).names
      rw [hadded]
      exact List.mem_append_left _ (v.mem_insert_self name)
    · exact ih h (v.insert first)

namespace Tree

variable {v w : Vocabulary} {labels : Rose Label} {t : Tree}

/-- **The labels of a tree made from labels** are these labels. -/
theorem labels_ofLabels (h : ofLabels v labels = (w, t)) :
    ∃ root, t.root? = some root ∧ root.labels = labels ∧ root.Over w := by
  obtain ⟨rfl, rfl⟩ := Prod.mk.inj h
  refine ⟨_, rfl, ?_, ?_⟩
  · rw [Node.labels, Rose.map_map]
    have hlabel : ((fun entry => entry.category.label) ∘ fun numbered : ℕ × Label =>
        Entry.mk numbered.1
          ((v.insertMany (constructNames labels)).category numbered.2)) = Prod.snd := by
      ext numbered
      exact Vocabulary.label_category _ _
    rw [hlabel, Rose.map_snd_number]
  · intro m hm
    rw [Rose.preorder_map] at hm
    obtain ⟨numbered, hnumbered, rfl⟩ := List.mem_map.mp hm
    -- The label of the node is one of those whose constructs were added.
    have hmem : numbered.value.2 ∈ labels.values := by
      have hvalues := congrArg Rose.values (labels.map_snd_number 0)
      rw [Rose.values_map] at hvalues
      rw [← hvalues]
      exact List.mem_map_of_mem (List.mem_map_of_mem hnumbered)
    rw [Node.category, Rose.value_map]
    show Vocabulary.Lists _ (Vocabulary.category _ numbered.value.2)
    cases hlabel : numbered.value.2 with
    | construct name =>
      have hname : name ∈ constructNames labels := by
        rw [hlabel] at hmem
        exact List.mem_filterMap.mpr ⟨_, hmem, rfl⟩
      exact ⟨Vocabulary.mem_names_insertMany hname v, rfl⟩
    | token text => trivial

end Tree

end ChangeQuery
