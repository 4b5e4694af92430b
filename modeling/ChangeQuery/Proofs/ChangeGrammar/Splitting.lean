import ChangeQuery.Proofs.ChangeGrammar.Nodes
import ChangeQuery.Proofs.Tree.Planting

/-!
## Both splits of a parsed change

A parsed change is split twice: the comparison of trees works on the children of the root around
the arrow, the check of tokens on the list of all tokens, cut at the first arrow.  No token within a
side is an arrow or a blank, and only line breaks stand around the sides, so both find the same
sides.

`splits_agree` says so of every text that the parser accepts: building its tree is never refused,
splitting it never fails, and the tokens of the sides are those of the cut list.
-/

namespace ChangeQuery

/-- The tokens of a side are more than layout, and none is an arrow. -/
theorem OfSide.of_mem_tokens {n token : Node} (h : OfSide n) (htoken : token ∈ n.tokens) :
    token.isFormatting = false ∧ token.label ≠ "->" := by
  have htext : token.label ∈ n.labels.texts := by
    rw [← Node.map_label_tokens]
    exact List.mem_map_of_mem htoken
  obtain ⟨hlayout, hne⟩ := h.of_mem_texts htext
  refine ⟨?_, hne⟩
  rw [Node.isFormatting, Node.isToken_of_mem_tokens htoken, Bool.true_and]
  exact hlayout

/-- **The splits agree**: every text that the parser accepts is a change, and the tokens below its
old and new side are the tokens in front of and behind the first arrow. -/
theorem splits_agree {v w : Vocabulary} {source : String} {tree : Tree}
    (h : Parser.java.tree v source = .ok (w, tree)) :
    (∃ labels, ChangeGrammar.read? source = some labels ∧
      Tree.plant v .empty none labels = (w, .ok tree)) ∧
    ∃ change, Parser.java.change v source "->" = .ok (w, change) ∧ change.tree = tree ∧
      (TokenSides.ofTree tree "->").old = change.old.node.tokens.map Node.label ∧
      (TokenSides.ofTree tree "->").new = change.new.node.tokens.map Node.label ∧
      ∀ token ∈ change.old.node.tokens ++ change.new.node.tokens,
        token.isFormatting = false ∧ token.label ≠ "->" := by
  obtain ⟨labels, hread, hlabels⟩ := Parser.exists_read?_of_tree h
  obtain ⟨root, old, new, hroot, -, hsplits, hold, hnew, -, -⟩ :=
    exists_splits_of_read? hread hlabels
  have hchange : Parser.java.change v source "->" =
      .ok (w, ⟨tree, ⟨old, some root⟩, ⟨new, some root⟩⟩) :=
    Parser.change_eq_ok_iff.mpr ⟨tree, h, hsplits.change hroot⟩
  have hsides := hsplits.sides hroot
  refine ⟨⟨labels, hread, ?_⟩, _, hchange, rfl, ?_, ?_, fun token htoken => ?_⟩
  · rw [Tree.plant_eq_ofLabels, hlabels]
  · rw [hsides, Node.map_label_tokens]
  · rw [hsides, Node.map_label_tokens]
  · rcases List.mem_append.mp htoken with htoken | htoken
    · exact (ofSide_of_isSide hold).of_mem_tokens htoken
    · exact (ofSide_of_isSide hnew).of_mem_tokens htoken

/-- An arrow in a literal and an arrow in a comment are no arrows between sides. -/
theorem splits_agree_arrows :
    ∃ w tree, Parser.java.tree ⟨0, []⟩ "s = \"->\"; // ->\n -> \n i = - 1;" = .ok (w, tree) ∧
      (∃ labels, ChangeGrammar.read? "s = \"->\"; // ->\n -> \n i = - 1;" = some labels ∧
        Tree.plant ⟨0, []⟩ .empty none labels = (w, .ok tree)) ∧
      ∃ change, Parser.java.change ⟨0, []⟩ "s = \"->\"; // ->\n -> \n i = - 1;" "->" =
          .ok (w, change) ∧ change.tree = tree ∧
        (TokenSides.ofTree tree "->").old = change.old.node.tokens.map Node.label ∧
        (TokenSides.ofTree tree "->").new = change.new.node.tokens.map Node.label ∧
        ∀ token ∈ change.old.node.tokens ++ change.new.node.tokens,
          token.isFormatting = false ∧ token.label ≠ "->" := by
  have hok : (Parser.java.tree ⟨0, []⟩ "s = \"->\"; // ->\n -> \n i = - 1;").isOk = true := by
    decide +kernel
  cases htree : Parser.java.tree ⟨0, []⟩ "s = \"->\"; // ->\n -> \n i = - 1;" with
  | error cause =>
    rw [htree] at hok
    cases hok
  | ok parsed => exact ⟨parsed.1, parsed.2, rfl, splits_agree htree⟩

end ChangeQuery
