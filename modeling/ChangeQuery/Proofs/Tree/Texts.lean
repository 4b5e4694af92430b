import ChangeQuery.Proofs.Comparison.Pieces
import ChangeQuery.Proofs.Tree.Traversal

/-!
## The text of a node

The text of a node is what its tokens say, one after another.  To compare it with another text, no
text is put together: a walk through the tree takes the texts of the tokens off the front of the other
text, and stops at the first token that does not stand there.  `Tree.Strips` is this walk along the
links of a tree, with a stack of numbers as in `Tree.Walks`.

A subtree is one piece of the walk: it takes its texts off the front and leaves the rest to the stack,
or it ends the walk (`Tree.strips_below`, by induction on the subtree).  The empty tokens and the
childless constructs in it take nothing.

* `Node.textIs_eq`: comparing one token at a time compares the whole text.
* `Placeholder.kindOfNode_eq_wildcard_iff`: a wildcard is known by its text.
* `Tree.textIs_iff_text_eq`: both together, and the walk that comes to the same.
-/

namespace ChangeQuery

namespace Node

theorem toList_text (n : Node) : n.text.toList = n.labels.texts.flatMap String.toList := by
  rw [text, String.toList_join, map_label_tokens]

/-- **The text of a node**: comparing one token at a time compares the whole text. -/
theorem textIs_eq {n : Node} {expected : String} : n.textIs expected = true ↔ n.text = expected := by
  rw [textIs_iff, ← toList_text, String.toList_inj]

/-- Texts that stand one behind the other are taken off one after the other. -/
theorem dropTexts?_append (texts others : List String) (rest : List Char) :
    dropTexts? (texts ++ others) rest = (dropTexts? texts rest).bind (dropTexts? others) := by
  induction texts generalizing rest with
  | nil => rfl
  | cons text texts ih =>
    rw [List.cons_append, dropTexts?, dropTexts?, Option.bind_assoc]
    exact congrArg _ (funext ih)

theorem textIs_eq_dropTexts? (n : Node) (expected : String) :
    n.textIs expected = (dropTexts? n.labels.texts expected.toList == some []) := by
  rw [textIs, map_label_tokens]

end Node

/-! ### Wildcards -/

namespace Placeholder

variable {names : Names} {text : String}

theorem eq_of_kindOfText_wildcard (h : kindOfText names text = .wildcard) : text = wildcardText := by
  unfold kindOfText at h
  split_ifs at h with hwildcard
  · exact hwildcard
  · rcases numberedKind_cases names text.toList with hkind | ⟨_, _, hkind⟩ <;>
      (rw [hkind] at h; cases h)

/-- **A wildcard** is a node with the text of the wildcard, whatever tokens it is made up of. -/
theorem kindOfNode_eq_wildcard_iff {n : Node} :
    kindOfNode names n = .wildcard ↔ n.text = wildcardText := by
  rw [← Node.textIs_eq, kindOfNode]
  split_ifs with htext hleaf
  · exact iff_of_true rfl htext
  · -- A childless token has its label for a text, so its label is not that of the wildcard.
    refine iff_of_false (fun hkind => htext ?_) htext
    obtain ⟨hchildren, htoken⟩ := Bool.and_eq_true_iff.mp hleaf
    rw [Node.textIs_iff, Node.labels_of_isToken htoken, List.isEmpty_iff.mp hchildren, List.map_nil,
      eq_of_kindOfText_wildcard hkind]
    exact congrArg _ (Rose.texts_leaf wildcardText)
  · exact iff_of_false (fun hkind => by cases hkind) htext

end Placeholder

/-! ### The walk -/

/-- What a node leaves of a text, if it can be taken off the front: a token takes its own text, and a
construct takes nothing. -/
def Link.strip? (l : Link) (rest : List Char) : Option (List Char) :=
  match l.label with
  | .construct _ => some rest
  | .token text => text.toList.isPrefixOf? rest

/-- A node takes its own text off the front, and then its children take theirs. -/
theorem Node.dropTexts?_labels {n : Node} {l : Link} (hlabel : l.label = n.category.label)
    (rest : List Char) : dropTexts? n.labels.texts rest =
      (l.strip? rest).bind (dropTexts? (n.children.flatMap fun c => (labels c).texts)) := by
  rw [labels_eq_node, Link.strip?, hlabel]
  cases n.category.label with
  | construct name => rw [Rose.texts_construct, List.flatMap_map, Option.bind_some]
  | token text => rw [Rose.texts_token, List.flatMap_map, dropTexts?]

namespace Tree

/-- A walk from the numbers on a stack, the topmost first, that takes the texts of the tokens off the
front of a text.  The answer tells whether nothing is left of the text in the end; it is known early if
a token does not stand at the front. -/
inductive Strips (t : Tree) : List ℕ → List Char → Bool → Prop
  | done (rest : List Char) : Strips t [] rest rest.isEmpty
  | visit {i : ℕ} {l : Link} {stack : List ℕ} {rest left : List Char} {answer : Bool}
      (hl : t.link? i = some l) (hstrip : l.strip? rest = some left)
      (h : Strips t (l.children ++ stack) left answer) : Strips t (i :: stack) rest answer
  | mismatch {i : ℕ} {l : Link} {stack : List ℕ} {rest : List Char}
      (hl : t.link? i = some l) (hstrip : l.strip? rest = none) : Strips t (i :: stack) rest false

variable {t : Tree} {root : Node} {stack : List ℕ} {rest : List Char} {answer answer' : Bool}

/-- There is no choice in a walk, so it has one answer. -/
theorem Strips.unique (h : t.Strips stack rest answer) (h' : t.Strips stack rest answer') :
    answer = answer' := by
  induction h generalizing answer' with
  | done rest =>
    cases h'
    rfl
  | visit hl hstrip _ ih =>
    cases h' with
    | visit hl' hstrip' h' =>
      obtain rfl := Option.some.inj (hl.symm.trans hl')
      obtain rfl := Option.some.inj (hstrip.symm.trans hstrip')
      exact ih h'
    | mismatch hl' hstrip' =>
      obtain rfl := Option.some.inj (hl.symm.trans hl')
      cases hstrip.symm.trans hstrip'
  | mismatch hl hstrip =>
    cases h' with
    | visit hl' hstrip' =>
      obtain rfl := Option.some.inj (hl.symm.trans hl')
      cases hstrip.symm.trans hstrip'
    | mismatch => rfl

/-- How the walk goes on behind some nodes: with what they left of the text, or not at all. -/
def StripsAfter (t : Tree) (stack : List ℕ) (left? : Option (List Char)) (answer : Bool) : Prop :=
  match left? with
  | none => answer = false
  | some left => t.Strips stack left answer

/-- **The walk below a node** takes the texts of its subtree off the front and goes on with the
stack. -/
theorem strips_below (h : t.ids.Perm (List.range t.size)) (hroot : t.root? = some root) (n : Node) :
    n ∈ root.preorder → ∀ {stack : List ℕ} {rest : List Char} {answer : Bool},
      t.StripsAfter stack (Node.dropTexts? n.labels.texts rest) answer →
        t.Strips (n.id :: stack) rest answer := by
  induction n using Rose.induct with
  | node entry cs ih =>
    intro hn stack rest answer hafter
    obtain ⟨s, hs, hnode⟩ := site?_of_mem_preorder h hroot hn
    have hl : t.link? entry.id = some s.link := by
      rw [link?, show t.site? entry.id = some s from hs, Option.map_some]
    have hchildren : s.link.children = cs.map Node.id := by
      rw [Site.link, hnode]
      rfl
    have hlabel : s.link.label = entry.category.label := by
      rw [Site.link, hnode]
      rfl
    -- The children stand on the stack, the first one on top.
    have hcs : ∀ nodes ⊆ cs, ∀ {rest : List Char},
        t.StripsAfter stack
          (Node.dropTexts? (nodes.flatMap fun c => (Node.labels c).texts) rest) answer →
            t.Strips (nodes.map Node.id ++ stack) rest answer := by
      intro nodes hnodes
      induction nodes with
      | nil => exact fun hrest => hrest
      | cons c nodes ihNodes =>
        intro rest hrest
        obtain ⟨hc, hnodes⟩ := List.cons_subset.mp hnodes
        have hmem : c ∈ root.preorder :=
          Rose.mem_preorder_trans hn (Rose.mem_preorder_child hc c.mem_preorder_self)
        rw [List.flatMap_cons, Node.dropTexts?_append] at hrest
        refine ih c hc hmem ?_
        generalize Node.dropTexts? (Node.labels c).texts rest = left? at hrest ⊢
        cases left? with
        | none => exact hrest
        | some left => exact ihNodes hnodes hrest
    rw [Node.dropTexts?_labels hlabel] at hafter
    cases hstrip : s.link.strip? rest with
    | none =>
      rw [hstrip] at hafter
      obtain rfl : answer = false := hafter
      exact .mismatch hl hstrip
    | some left =>
      rw [hstrip] at hafter
      refine .visit hl hstrip ?_
      rw [hchildren]
      exact hcs cs (List.Subset.refl cs) hafter

/-- **The walk from a node** answers whether the tokens of the node make up the text. -/
theorem Grown.strips_iff {v : Vocabulary} (hgrown : t.Grown v) {s : Site} (hs : s ∈ t.sites)
    (expected : String) :
    t.Strips [s.node.id] expected.toList answer ↔ answer = s.node.textIs expected := by
  have h := hgrown.perm_ids
  obtain ⟨root, hroot, hn⟩ : ∃ root, t.root? = some root ∧ s.node ∈ Rose.preorder root := by
    rw [sites] at hs
    cases hroot : t.root? with
    | none =>
      rw [hroot] at hs
      exact absurd hs List.not_mem_nil
    | some root =>
      rw [hroot] at hs
      exact ⟨root, rfl, Site.map_node_below root none ▸ List.mem_map_of_mem hs⟩
  have hstrips : t.Strips [s.node.id] expected.toList (s.node.textIs expected) := by
    refine strips_below h hroot s.node hn ?_
    rw [Node.textIs_eq_dropTexts?]
    cases Node.dropTexts? s.node.labels.texts expected.toList with
    | none => rfl
    | some left =>
      have hempty : (some left == some []) = left.isEmpty := by cases left <;> rfl
      rw [hempty]
      exact .done left
  exact ⟨fun hanswer => hanswer.unique hstrips, fun heq => heq ▸ hstrips⟩

/-- **Comparing texts without putting them together.**  The tokens of a node make up a text exactly if
the text of the node is this text, and a query node is a wildcard exactly if its text is that of the
wildcard.  In every tree that comes about by appending, with tokens that are empty or that have nodes
below them, the walk from a node along the links comes to an end and has the same answer. -/
theorem textIs_iff_text_eq (expected : String) :
    (∀ n : Node, n.textIs expected = true ↔ n.text = expected) ∧
    (∀ names (n : Node), Placeholder.kindOfNode names n = .wildcard ↔ n.text = "<...>") ∧
    ∀ v additions, ∀ s ∈ (ofAdditions v additions).sites, ∀ answer,
      (ofAdditions v additions).Strips [s.node.id] expected.toList answer ↔
        answer = s.node.textIs expected := by
  refine ⟨fun _ => Node.textIs_eq, fun _ _ => Placeholder.kindOfNode_eq_wildcard_iff, ?_⟩
  intro v additions s hs answer
  have hgrown : (ofAdditions v additions).Grown (attemptAll (v, .empty) additions).1 :=
    Grown.attemptAll additions (.empty v)
  exact hgrown.strips_iff hs expected

/-- A construct whose tokens make up the wildcard, with an empty token, a childless construct and a
token below another one among them. -/
def piecedWildcard : List Addition :=
  [⟨.construct "call", none⟩, ⟨.token "", some 0⟩, ⟨.construct "args", some 0⟩, ⟨.token "<..", some 0⟩,
   ⟨.token ".", some 3⟩, ⟨.token ">", some 0⟩]

theorem piecedWildcard_text : ∃ s ∈ (ofAdditions ⟨0, []⟩ piecedWildcard).sites,
    s.parent?.isNone ∧ s.node.text = "<...>" ∧ s.node.textIs "<...>" = true ∧
      (∀ names, Placeholder.kindOfNode names s.node = .wildcard) ∧
      (ofAdditions ⟨0, []⟩ piecedWildcard).Strips [s.node.id] "<...>".toList true := by
  obtain ⟨htextIs, hkind, hstrips⟩ := textIs_iff_text_eq "<...>"
  obtain ⟨s, hs, hroot, htext⟩ : ∃ s ∈ (ofAdditions ⟨0, []⟩ piecedWildcard).sites,
      s.parent?.isNone ∧ s.node.text = "<...>" := ⟨_, List.mem_cons_self, rfl, by decide⟩
  have htrue := (htextIs s.node).mpr htext
  exact ⟨s, hs, hroot, htext, htrue, fun names => (hkind names s.node).mpr htext,
    (hstrips _ _ s hs true).mpr htrue.symm⟩

end Tree

end ChangeQuery
