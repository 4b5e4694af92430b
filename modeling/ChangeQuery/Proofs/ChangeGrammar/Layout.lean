import ChangeQuery.Proofs.ChangeGrammar.Nodes
import ChangeQuery.Proofs.Peg.Weaving
import ChangeQuery.Proofs.Tree.Sites

/-!
## The text of a change

A change is read without losing anything but blanks and comments: its text consists of the tokens of
its tree and of layout between them.

Within a side, whatever is read stands in a token or is layout between the parts of a sequence, and
this can be seen from the grammar.  Around the arrow layout is read by hand: line breaks become
tokens there, and the other blanks and the comments are layout.

* `Layout`: sequences of blanks and comments.
* `layout_yields`, `looseLayout_yields`: what the two readers of layout read.
* `Parser.tokens_and_layout`: the text of a change.
-/

namespace ChangeQuery

namespace ChangeGrammar

open Grammar
open Peg (text many one notFollowedBy)

/-- A sequence of blanks and comments with `rest` behind it.  A comment that starts with two slashes
goes on to the end of the line, and one between two marks ends at the first closing one. -/
inductive Layout : List Char → List Char → Prop
  | nil {rest : List Char} : Layout [] rest
  | blank {c : Char} {w rest : List Char} (hc : c ∈ [' ', '\t', '\r', '\n']) (h : Layout w rest) :
    Layout (c :: w) rest
  | lineComment {body w rest : List Char} (hbody : '\n' ∉ body)
      (hend : ∀ c ∈ (w ++ rest).head?, c = '\n') (h : Layout w rest) :
    Layout ("//".toList ++ (body ++ w)) rest
  | blockComment {body w rest : List Char} (hbody : ¬ "*/".toList <:+: body) (h : Layout w rest) :
    Layout ("/*".toList ++ (body ++ ("*/".toList ++ w))) rest

theorem joins_layout : Joins Layout where
  nil _ := .nil
  append {a b rest} ha hb := by
    generalize hrest : b ++ rest = rest' at ha
    induction ha with
    | nil => exact hb
    | blank hc _ ih => exact .blank hc (ih hrest)
    | @lineComment body w rest' hbody hend _ ih =>
      subst hrest
      rw [List.append_assoc, List.append_assoc]
      rw [← List.append_assoc] at hend
      exact .lineComment hbody hend (ih rfl)
    | blockComment hbody _ ih =>
      simp only [List.append_assoc]
      exact .blockComment hbody (ih hrest)

/-! ### Comments -/

variable {g : Grammar Rule} {s : Bool} {input : List Char} {p : Parsed}

theorem reads_text {word : String} (h : Reads g s (.expr (text word)) input (some p)) :
    p.consumed = word.toList := by
  change Reads g s (.expr (.chars word.toList)) input (some p) at h
  cases h
  rfl

/-- One character in front of the mark. -/
theorem reads_unless {mark : String}
    (h : Reads g false (.expr (notFollowedBy (text mark) ++ Peg.any)) input (some p)) :
    ∃ c, p.consumed = [c] ∧ ¬ mark.toList <+: input := by
  obtain ⟨a, b, ha, hb, rfl⟩ := reads_append_iff.mp h
  cases ha with
  | notFollowedBy ha =>
    rcases firstWord_text ha with ⟨_, _, _, _, ⟨⟩⟩ | ⟨-, hmark⟩
    cases hb with
    | one => exact ⟨_, rfl, hmark _ (List.mem_singleton_self _)⟩

theorem reads_unless_none {mark : String}
    (h : Reads g false (.expr (notFollowedBy (text mark) ++ Peg.any)) input none) :
    input = [] ∨ mark.toList <+: input := by
  rcases reads_append_none h with h | ⟨a, ha, h⟩
  · cases h with
    | notFollowedBy_none h =>
      rcases firstWord_text h with ⟨word, hword, rest, rfl, -⟩ | ⟨⟨⟩, -⟩
      obtain rfl := List.mem_singleton.mp hword
      exact .inr (List.prefix_append _ _)
  · cases ha with
    | notFollowedBy =>
      cases h with
      | one_none hfalse => cases hfalse
      | one_end => exact .inl rfl

/-- **Reading up to a mark**: the mark does not occur in what is read, and stands behind it unless
the text ends there. -/
theorem reads_until {mark : String} (hmark : mark.toList ≠ [])
    (h : Reads g false (.expr (many (notFollowedBy (text mark) ++ Peg.any))) input (some p)) :
    ¬ mark.toList <:+: p.consumed ∧ (p.rest = [] ∨ mark.toList <+: p.rest) := by
  induction h using Reads.many_induct with
  | nothing ha => exact ⟨fun h => hmark (List.infix_nil.mp h), reads_unless_none ha⟩
  | @andThen input a b ha hb h ih =>
    obtain ⟨c, hc, hinput⟩ := reads_unless ha
    refine ⟨fun hinfix => ?_, ih.2⟩
    rw [← h.append_rest] at hinput
    change mark.toList <:+: a.consumed ++ b.consumed at hinfix
    change ¬ mark.toList <+: (a.consumed ++ b.consumed) ++ b.rest at hinput
    rw [hc, List.singleton_append] at hinfix hinput
    rcases List.infix_cons_iff.mp hinfix with hfront | hlater
    · exact hinput (hfront.trans (List.prefix_append _ _))
    · exact ih.1 hlater

theorem comment_yields : g.Yields s comment (Parsed.IsGap Layout) := by
  refine .tight (.orElse ?_ ?_)
  · intro input p h
    obtain ⟨a, b, ha, hb, rfl⟩ := reads_append_iff.mp h
    obtain ⟨hbody, hend⟩ := reads_until (by decide) hb
    have hnewline : '\n' ∉ b.consumed :=
      fun hmem => hbody ((List.singleton_infix_iff _ _).mpr hmem)
    have hhead : ∀ c ∈ ([] ++ b.rest).head?, c = '\n' := by
      rcases hend with hnil | ⟨rest, hrest⟩
      · rw [hnil]
        exact fun _ hc => nomatch hc
      · rw [← hrest]
        exact fun _ hc => (Option.some.inj hc).symm
    have hcomment : Layout ("//".toList ++ (b.consumed ++ [])) b.rest :=
      .lineComment hnewline hhead .nil
    rw [List.append_nil, ← reads_text ha] at hcomment
    exact hcomment
  · intro input p h
    obtain ⟨ab, c, hab, hc, rfl⟩ := reads_append_iff.mp h
    obtain ⟨a, b, ha, hb, rfl⟩ := reads_append_iff.mp hab
    obtain ⟨hbody, -⟩ := reads_until (by decide) hb
    have hcomment : Layout ("/*".toList ++ (b.consumed ++ ("*/".toList ++ []))) c.rest :=
      .blockComment hbody .nil
    rw [List.append_nil, ← reads_text ha, ← reads_text hc, ← List.append_assoc] at hcomment
    exact hcomment

/-! ### Blanks and comments -/

/-- Reads a blank where all that is accepted are blanks. -/
theorem one_yields {accepts : Char → Bool}
    (haccepts : ∀ c, accepts c = true → c ∈ [' ', '\t', '\r', '\n']) :
    g.Yields s (.one accepts) (Parsed.IsGap Layout) := by
  intro input p h
  cases h with
  | one hc => exact .blank (haccepts _ hc) .nil

theorem layout_yields : g.Yields false layout (Parsed.IsGap Layout) := by
  refine .many joins_layout.composes_isGap (.orElse (one_yields fun c hc => ?_) comment_yields)
  simpa [or_assoc] using hc

/-! ### A whole change -/

theorem rules_accounted (rule : Rule) : (grammar.rule rule).accounted = true := by
  cases rule <;> decide

/-- What is accounted for in the grammar of changes is woven of tokens and layout. -/
theorem yields_isWoven {e : Reader} (he : e.accounted = true) :
    grammar.Yields s e (Parsed.IsWoven Layout) :=
  yields_isWoven_of_accounted joins_layout rules_accounted layout_yields he

theorem looseLayout_yields : grammar.Yields false looseLayout (Parsed.IsWoven Layout) := by
  have hblank : grammar.Yields false (.one fun c => c == ' ' || c == '\t' || c == '\r')
      (Parsed.IsGap Layout) := by
    refine one_yields fun c hc => ?_
    have hc : (c = ' ' ∨ c = '\t') ∨ c = '\r' := by simpa using hc
    rcases hc with (rfl | rfl) | rfl <;> decide
  refine .many joins_layout.composes_isWoven (.orElse (yields_isWoven rfl) (.orElse ?_ ?_))
  · exact hblank.isWoven rfl
  · exact comment_yields.isWoven rfl

theorem change_yields : grammar.Yields s change (Parsed.IsWoven Layout) := by
  have hwoven := joins_layout.composes_isWoven
  have hsnippet : grammar.Yields false snippet (Parsed.IsWoven Layout) :=
    yields_isWoven (by decide)
  have harrow : grammar.Yields false (mark "->") (Parsed.IsWoven Layout) := yields_isWoven rfl
  have hold := (looseLayout_yields.append hwoven hsnippet).append hwoven looseLayout_yields
  have hnew := (((hold.append hwoven harrow).append hwoven looseLayout_yields).append hwoven
    hsnippet).append hwoven looseLayout_yields
  exact .tight (.branch (hnew.append hwoven (yields_isWoven rfl)) _)

/-- A change is read to its end. -/
theorem rest_of_reads_change (h : Reads grammar s (.expr change) input (some p)) :
    p.rest = [] := by
  cases h with
  | tight h =>
    cases h with
    | branch h =>
      obtain ⟨a, b, -, hb, hp⟩ := reads_append_iff.mp h
      show Parsed.rest _ = []
      rw [hp]
      generalize hrest : a.rest = rest at hb
      cases hb
      rfl

/-- The text of a change is woven of the tokens of its tree and layout. -/
theorem woven_of_read? {source : String} {labels : Rose Label} (h : read? source = some labels) :
    Woven Layout labels.texts source.toList [] := by
  obtain ⟨consumed, rest, hreads⟩ := reads_of_read? h
  obtain rfl : rest = [] := rest_of_reads_change hreads
  have hwoven := change_yields hreads
  have hsource : consumed ++ [] = source.toList := hreads.append_rest
  rwa [Parsed.IsWoven, List.flatMap_singleton, ← List.append_nil consumed, hsource] at hwoven

end ChangeGrammar

namespace Parser

variable {v w : Vocabulary} {source : String} {tree : Tree}

/-- There is nothing below a token of the tree. -/
theorem tokensBare_of_tree (h : java.tree v source = .ok (w, tree)) : tree.TokensBare := by
  obtain ⟨labels, hread, hlabels⟩ := exists_read?_of_tree h
  obtain ⟨root, hroot, rfl, -⟩ := Tree.labels_ofLabels hlabels
  intro root' hroot' n hn htoken
  obtain rfl := Option.some.inj (hroot.symm.trans hroot')
  have hvalue : (Node.labels n).value = .token (Node.label n) := by
    rw [Node.labels_of_isToken htoken, Rose.value_node]
  have hmem : Node.labels n ∈ root.labels.preorder := by
    rw [Node.labels, Node.labels, Rose.preorder_map]
    exact List.mem_map_of_mem hn
  have hbare := ChangeGrammar.children_eq_nil_of_read? hread hmem hvalue
  rw [Node.children_labels] at hbare
  exact List.map_eq_nil_iff.mp hbare

/-- **Nothing is lost but layout**: the text of every change that the parser accepts is woven of the
tokens of its tree, which have nothing below them, and of blanks and comments.  That is, it starts
with layout, and behind each token comes layout again. -/
theorem tokens_and_layout (h : java.tree v source = .ok (w, tree)) :
    tree.TokensBare ∧ ∃ root, tree.root? = some root ∧
      Woven ChangeGrammar.Layout (root.tokens.map Node.label) source.toList [] ∧
      ∃ (first : List Char) (gaps : List (List Char)), gaps.length = root.tokens.length ∧
        source.toList = first ++
          (List.zipWith (fun token gap => token.label.toList ++ gap) root.tokens gaps).flatten ∧
        ∀ gap ∈ first :: gaps, ∃ following, ChangeGrammar.Layout gap following := by
  obtain ⟨labels, hread, hlabels⟩ := exists_read?_of_tree h
  obtain ⟨root, hroot, rfl, -⟩ := Tree.labels_ofLabels hlabels
  have hwoven := ChangeGrammar.woven_of_read? hread
  rw [← Node.map_label_tokens] at hwoven
  obtain ⟨first, gaps, hlength, htext, hgaps⟩ := hwoven.exists_gaps
  rw [List.length_map] at hlength
  rw [List.zipWith_map_left] at htext
  exact ⟨tokensBare_of_tree h, root, hroot, hwoven, first, gaps, hlength, htext, hgaps⟩

/-- Comments in front of the arrow and behind it, and a line break between two pieces of layout. -/
theorem tokens_and_layout_comments :
    ∃ w tree, java.tree ⟨0, []⟩ "x; /* y */ -> // z\n - 1;" = .ok (w, tree) ∧
      tree.TokensBare ∧ ∃ root, tree.root? = some root ∧
        Woven ChangeGrammar.Layout (root.tokens.map Node.label)
          "x; /* y */ -> // z\n - 1;".toList [] ∧
        ∃ (first : List Char) (gaps : List (List Char)), gaps.length = root.tokens.length ∧
          "x; /* y */ -> // z\n - 1;".toList = first ++
            (List.zipWith (fun token gap => token.label.toList ++ gap) root.tokens gaps).flatten ∧
          ∀ gap ∈ first :: gaps, ∃ following, ChangeGrammar.Layout gap following := by
  have hok : (java.tree ⟨0, []⟩ "x; /* y */ -> // z\n - 1;").isOk = true := by
    decide +kernel
  cases htree : java.tree ⟨0, []⟩ "x; /* y */ -> // z\n - 1;" with
  | error cause =>
    rw [htree] at hok
    cases hok
  | ok parsed => exact ⟨parsed.1, parsed.2, rfl, tokens_and_layout htree⟩

/-- The blank behind a sign belongs to its token. -/
example : (ChangeGrammar.read? "x; /* y */ -> // z\n - 1;").map Rose.texts =
    some ["x", ";", "->", "\n", "- ", "1", ";"] := by
  decide +kernel

end Parser

end ChangeQuery
