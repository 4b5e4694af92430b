import ChangeQuery.Proofs.ChangeGrammar.Layout
import ChangeQuery.Proofs.Peg.Characters

/-!
## Layout in the tokens of a change

Tokens should not depend on how a change is laid out, so there should be no blanks and no comments in
them.  Line breaks around the arrow are tokens by intention, and the text between quotes is free.
Whatever else is left is read tightly, with one exception: the layout behind a minus sign is read
before it is known whether the sign begins an arrow, and it belongs to the token.

* `IsSideNode.token_cases`: the tokens directly below a construct of a side.
* `Parser.cases_of_mem_sites`, `Parser.cases_of_isToken`: where the nodes and the tokens of a change stand.
* `Parser.tokens_lackLayout`: the tokens of every change that the parser accepts.
* `Parser.not_tokens_lackLayout`: a minus sign with a blank behind it.
-/

namespace ChangeQuery

namespace ChangeGrammar

open Grammar
open Peg (text many notFollowedBy)

/-- The text contains no blank and nothing that begins a comment. -/
def LacksLayout (t : String) : Prop :=
  (∀ c ∈ [' ', '\t', '\r', '\n'], c ∉ t.toList) ∧
    ¬ "//".toList <:+: t.toList ∧ ¬ "/*".toList <:+: t.toList

/-- The word stands somewhere in the text. -/
def containsWord (word w : List Char) : Bool :=
  w.tails.any word.isPrefixOf

theorem containsWord_iff {word w : List Char} : containsWord word w = true ↔ word <:+: w := by
  rw [containsWord, List.any_eq_true, List.infix_iff_prefix_suffix]
  simp [and_comm]

instance (t : String) : Decidable (LacksLayout t) :=
  decidable_of_iff (([' ', '\t', '\r', '\n'].all (fun c => !t.toList.contains c) &&
      !containsWord "//".toList t.toList && !containsWord "/*".toList t.toList) = true) <| by
    simp [LacksLayout, ← containsWord_iff, and_assoc]

/-- The text stands between quotation marks. -/
def IsQuoted (t : String) : Prop :=
  ∃ mark ∈ ["\"", "'"], ∃ inside, t.toList = mark.toList ++ (inside ++ mark.toList)

/-- A minus sign and layout behind it. -/
def IsSpacedMinus (t : String) : Prop :=
  ∃ w rest, Layout w rest ∧ t.toList = "-".toList ++ w

/-! ### Readers of tokens -/

/-- The blanks, and the character that all comments begin with. -/
def layoutChars : List Char :=
  [' ', '\t', '\r', '\n', '/']

theorem lacksLayout_of_notMem {t : String} (h : ∀ c ∈ layoutChars, c ∉ t.toList) :
    LacksLayout t := by
  have hslash : ∀ word : List Char, '/' ∈ word → ¬ word <:+: t.toList :=
    fun word hword hoccurs => h '/' (by decide) (hoccurs.subset hword)
  refine ⟨fun c hc => h c (List.mem_append_left ['/'] hc), hslash _ ?_, hslash _ ?_⟩
  · decide
  · decide

/-- It can be seen from the expression that no layout is read. -/
def readsNoLayout (s : Bool) (body : Reader) : Bool :=
  layoutChars.all (fun x => body.lacks x s) ||
    (body.words? s).any fun ws => ws.all fun w => decide (LacksLayout (String.ofList w))

variable {g : Grammar Rule} {s : Bool} {input : List Char} {p : Parsed}

theorem lacksLayout_of_reads {body : Reader} (h : Reads g s (.expr body) input (some p))
    (hbody : readsNoLayout s body = true) : LacksLayout (String.ofList p.consumed) := by
  rcases Bool.or_eq_true_iff.mp hbody with hlacks | hwords
  · apply lacksLayout_of_notMem
    intro c hc
    rw [String.toList_ofList]
    exact h.notMem_consumed (List.all_eq_true.mp hlacks c hc)
  · obtain ⟨ws, hws, hall⟩ := (Option.any_eq_true _ _).mp hwords
    exact of_decide_eq_true (List.all_eq_true.mp hall _ (h.consumed_mem_words hws))

theorem isQuoted_of_reads {mark : String} (hmark : mark ∈ ["\"", "'"])
    (h : Reads g false (.expr (quotedLiteral mark)) input (some p)) :
    IsQuoted (String.ofList p.consumed) := by
  obtain ⟨ab, c, hab, hc, rfl⟩ := reads_append_iff.mp h
  obtain ⟨a, b, ha, -, rfl⟩ := reads_append_iff.mp hab
  refine ⟨mark, hmark, b.consumed, ?_⟩
  rw [String.toList_ofList, ← List.append_assoc]
  show (a.consumed ++ b.consumed) ++ c.consumed = _
  rw [reads_text ha, reads_text hc]

/-- **A literal** contains no layout, or stands between quotation marks. -/
theorem spells_literal {t : String}
    (h : g.Spells (.tight (placeholder "LT" <|> floatLiteral <|> hexLiteral <|> intLiteral <|>
      quotedLiteral "\"" <|> quotedLiteral "'" <|> oneOf "true" ["false", "null"] ++ endOfName)) t) :
    LacksLayout t ∨ IsQuoted t := by
  obtain ⟨s, _, p, hp, rfl⟩ := h
  have hlacks : ∀ {e : Reader}, readsNoLayout false e = true → g.Yields false e fun p =>
      LacksLayout (String.ofList p.consumed) ∨ IsQuoted (String.ofList p.consumed) :=
    fun he _ _ hp => .inl (lacksLayout_of_reads hp he)
  have hquoted : ∀ {mark : String}, mark ∈ ["\"", "'"] → g.Yields false (quotedLiteral mark) fun p =>
      LacksLayout (String.ofList p.consumed) ∨ IsQuoted (String.ofList p.consumed) :=
    fun hmark _ _ hp => .inr (isQuoted_of_reads hmark hp)
  refine Yields.tight (.orElse (hlacks ?_) (.orElse (hlacks ?_) (.orElse (hlacks ?_)
    (.orElse (hlacks ?_) (.orElse (hquoted ?_) (.orElse (hquoted ?_) (hlacks ?_))))))) hp
  all_goals decide

/-- **A sign** contains no layout, or is a minus sign that took the layout behind it. -/
theorem spells_prefixOperator {t : String}
    (h : grammar.Spells (oneOf "++" ["--", "!", "~", "+"] <|>
      text "-" ++ notFollowedBy (text ">")) t) :
    LacksLayout t ∨ IsSpacedMinus t := by
  obtain ⟨s, _, p, hp, rfl⟩ := h
  rcases reads_orElse hp with ⟨hp, -⟩ | ⟨-, hp⟩
  · exact .inl (lacksLayout_of_reads hp (by cases s <;> decide))
  · right
    change Reads grammar s (.expr (.seq (text "-") (.notFollowedBy (text ">")))) _ (some p) at hp
    cases hp with
    | @seq _ _ _ _ a b c ha hb hc =>
      have hend : c.consumed = [] := by
        cases hc
        rfl
      have hgap : Layout b.consumed b.rest := by
        cases hb with
        | gap_tight => exact .nil
        | @gap_spaced _ d hd =>
          have hlayout : Layout d.consumed d.rest := layout_yields hd
          exact hlayout
      refine ⟨b.consumed, b.rest, hgap, ?_⟩
      rw [String.toList_ofList]
      show a.consumed ++ (b.consumed ++ c.consumed) = _
      rw [reads_text ha, hend, List.append_nil]

/-! ### The tokens of a side -/

/-- The constructs with a token in which there can be layout. -/
def spacedNames : List String :=
  ["literal", "prefix_operator"]

/-- No layout is read, whether or not it is allowed between the parts of a sequence. -/
def isTidy (body : Reader) : Bool :=
  [false, true].all fun s => readsNoLayout s body

set_option maxRecDepth 2000 in
theorem rules_tidy (rule : Rule) :
    (grammar.rule rule).roots isTidy (fun _ => true) true = true := by
  cases rule <;> decide

set_option maxRecDepth 2000 in
theorem sideBranches_tidy : ∀ b ∈ sideBranches, b.1 ∉ spacedNames →
    b.2.roots isTidy (fun _ => true) true = true := by
  decide

theorem lacksLayout_of_spells {body : Reader} {t : String} (hbody : isTidy body = true)
    (h : g.Spells body t) : LacksLayout t := by
  obtain ⟨s, _, p, hp, rfl⟩ := h
  exact lacksLayout_of_reads hp (List.all_eq_true.mp hbody s (by cases s <;> decide))

/-- **The tokens of a side** contain no layout, except for quoted literals and minus signs. -/
theorem IsSideNode.token_cases {name t : String} {cs items : List (Rose Label)}
    (h : IsSideNode (.node (.construct name) cs)) (hmem : .node (.token t) items ∈ cs) :
    LacksLayout t ∨ name = "literal" ∧ IsQuoted t ∨
      name = "prefix_operator" ∧ IsSpacedMinus t := by
  obtain ⟨reader, hreader, hleaves⟩ := h.exists_body
  by_cases hliteral : name = "literal"
  · subst hliteral
    obtain rfl := body_eq_of_named (Peg.token (placeholder "LT" <|> floatLiteral <|> hexLiteral <|>
      intLiteral <|> quotedLiteral "\"" <|> quotedLiteral "'" <|>
      oneOf "true" ["false", "null"] ++ endOfName)) rfl hreader
    obtain ⟨t', ht, rfl⟩ := leaves_token_iff.mp hleaves
    cases List.mem_singleton.mp hmem
    rcases spells_literal ht with hlacks | hquoted
    · exact .inl hlacks
    · exact .inr (.inl ⟨rfl, hquoted⟩)
  by_cases hprefix : name = "prefix_operator"
  · subst hprefix
    obtain rfl := body_eq_of_named (.leaf (oneOf "++" ["--", "!", "~", "+"] <|>
      text "-" ++ notFollowedBy (text ">"))) rfl hreader
    cases hleaves with
    | leaf ht =>
      cases List.mem_singleton.mp hmem
      rcases spells_prefixOperator ht with hlacks | hminus
      · exact .inl hlacks
      · exact .inr (.inr ⟨rfl, hminus⟩)
  have hname : name ∉ spacedNames := by simp [spacedNames, hliteral, hprefix]
  obtain ⟨-, body, hbody, hspells⟩ := hleaves.isRoot (fun _ => rules_tidy)
    (sideBranches_tidy _ hreader hname) _ hmem
  exact .inl (lacksLayout_of_spells hbody hspells)

/-! ### The tokens of a change -/

/-- What stands below the root of a change: line breaks, the arrow and two sides. -/
theorem child_cases {source : String} {labels c : Rose Label} (h : read? source = some labels)
    (hc : c ∈ labels.children) :
    c = .leaf (.token "\n") ∨ c = .leaf (.token "->") ∨ IsSide c := by
  obtain ⟨l₁, l₂, l₃, l₄, old, new, rfl, h₁, h₂, h₃, h₄, hold, hnew⟩ := exists_sides h
  simp only [Rose.children_node, List.mem_append, List.mem_cons] at hc
  rcases hc with hc | rfl | hc | rfl | hc | rfl | hc
  · exact .inl (h₁ c hc)
  · exact .inr (.inr hold)
  · exact .inl (h₂ c hc)
  · exact .inr (.inl rfl)
  · exact .inl (h₃ c hc)
  · exact .inr (.inr hnew)
  · exact .inl (h₄ c hc)

end ChangeGrammar

open ChangeGrammar (LacksLayout IsQuoted IsSpacedMinus IsSideNode)

namespace OfSide

variable {n c : Node}

theorem below (h : OfSide n) (hc : c ∈ n.preorder) : OfSide c := by
  have hlabels : c.labels ∈ n.labels.preorder := by
    rw [Node.labels, Node.labels, Rose.preorder_map]
    exact List.mem_map_of_mem hc
  exact fun m hm => h m (Rose.mem_preorder_trans hlabels hm)

/-- A token below a node is a token below a construct of the grammar. -/
theorem exists_token_below (h : OfSide n) (hc : c ∈ n.children) (htoken : c.isToken = true) :
    ∃ cs items, IsSideNode (.node (.construct n.label) cs) ∧ .node (.token c.label) items ∈ cs := by
  have hmem : c.labels ∈ n.children.map Node.labels := List.mem_map_of_mem hc
  rw [Node.labels_of_isToken htoken] at hmem
  have hself := h.self
  rw [Node.labels_eq_node] at hself
  cases hlabel : n.category.label with
  | token t =>
    rw [hlabel] at hself
    rw [hself.token.1] at hmem
    exact absurd hmem List.not_mem_nil
  | construct name =>
    rw [hlabel] at hself
    have hname : n.label = name := congrArg Label.text hlabel
    rw [hname]
    exact ⟨_, _, hself, hmem⟩

/-- **The tokens of a side**, as nodes below others. -/
theorem token_cases (h : OfSide n) (hc : c ∈ n.children) (htoken : c.isToken = true) :
    LacksLayout c.label ∨ n.label = "literal" ∧ IsQuoted c.label ∨
      n.label = "prefix_operator" ∧ IsSpacedMinus c.label := by
  obtain ⟨cs, items, hself, hmem⟩ := h.exists_token_below hc htoken
  exact hself.token_cases hmem

end OfSide

namespace Parser

variable {v w : Vocabulary} {source : String} {tree : Tree}

/-- **The nodes of a change** are the root, line breaks, the arrow and the two sides below the root, and
the nodes below those of a side. -/
theorem cases_of_mem_sites (h : java.tree v source = .ok (w, tree)) {s : Site} (hs : s ∈ tree.sites) :
    (s.parent? = none ∧ s.node.labels.value = .construct "change") ∨
      s.parent? = tree.root? ∧ (s.node.labels = .leaf (.token "\n") ∨
        s.node.labels = .leaf (.token "->") ∨ ChangeGrammar.IsSide s.node.labels) ∨
      ∃ p, s.parent? = some p ∧ OfSide p ∧ s.node ∈ p.children := by
  obtain ⟨labels, hread, hlabels⟩ := exists_read?_of_tree h
  obtain ⟨root, hroot, rfl, -⟩ := Tree.labels_ofLabels hlabels
  have hchild : ∀ c ∈ root.children, Node.labels c = .leaf (.token "\n") ∨
      Node.labels c = .leaf (.token "->") ∨ ChangeGrammar.IsSide (Node.labels c) := by
    intro c hc
    apply ChangeGrammar.child_cases hread
    rw [Node.children_labels]
    exact List.mem_map_of_mem hc
  rcases Tree.cases_of_mem_sites hroot hs with rfl | ⟨p, hp, hparent, hnode⟩
  · left
    obtain ⟨_, _, _, _, _, _, hchange, -⟩ := ChangeGrammar.exists_sides hread
    exact ⟨rfl, by rw [hchange, Rose.value_node]⟩
  right
  obtain ⟨entry, cs⟩ := root
  rw [Rose.preorder_node, List.mem_cons, List.mem_flatMap] at hp
  rcases hp with rfl | ⟨c, hc, hp⟩
  · exact .inl ⟨hparent.trans hroot.symm, hchild s.node hnode⟩
  · -- What has nodes below it stands at or below a side.
    have hbare : c.children ≠ [] := by
      obtain ⟨entry, items⟩ := c
      rintro rfl
      obtain rfl := List.mem_singleton.mp hp
      exact absurd hnode List.not_mem_nil
    rcases hchild c hc with hbreak | harrow | hside
    · exact absurd (Node.children_eq_nil hbreak) hbare
    · exact absurd (Node.children_eq_nil harrow) hbare
    · exact .inr ⟨p, hparent, (ofSide_of_isSide hside).below hp, hnode⟩

/-- **The tokens of a change** are line breaks and the arrow below the root, and the tokens of a side. -/
theorem cases_of_isToken (h : java.tree v source = .ok (w, tree)) {s : Site} (hs : s ∈ tree.sites)
    (htoken : s.node.isToken = true) :
    s.parent? = tree.root? ∧ (s.node.labels = .leaf (.token "\n") ∨ s.node.labels = .leaf (.token "->")) ∨
      ∃ p, s.parent? = some p ∧ OfSide p ∧ s.node ∈ p.children := by
  have hvalue : ∀ {name : String}, s.node.labels.value ≠ .construct name := by
    intro name hname
    rw [Node.labels_of_isToken htoken] at hname
    cases hname
  rcases cases_of_mem_sites h hs with ⟨-, hchange⟩ | ⟨hparent, hbreak | harrow | hside⟩ | hside
  · exact absurd hchange hvalue
  · exact .inl ⟨hparent, .inl hbreak⟩
  · exact .inl ⟨hparent, .inr harrow⟩
  · exact absurd hside.1 hvalue
  · exact .inr hside

/-- **Tokens contain no layout**, in every change that the parser accepts, with three exceptions: line
breaks below the root, literals between quotation marks, and minus signs with the layout that was read
behind them. -/
theorem tokens_lackLayout (h : java.tree v source = .ok (w, tree)) {s : Site} (hs : s ∈ tree.sites)
    (htoken : s.node.isToken = true) :
    LacksLayout s.node.label ∨ s.parent? = tree.root? ∧ s.node.label = "\n" ∨
      ∃ p, s.parent? = some p ∧ (p.label = "literal" ∧ IsQuoted s.node.label ∨
        p.label = "prefix_operator" ∧ IsSpacedMinus s.node.label) := by
  rcases cases_of_isToken h hs htoken with ⟨hparent, hbreak | harrow⟩ | ⟨p, hparent, hside, hnode⟩
  · exact .inr (.inl ⟨hparent, Node.label_of_labels hbreak⟩)
  · rw [Node.label_of_labels harrow]
    exact .inl (by decide)
  · rcases hside.token_cases hnode htoken with hlacks | hexception
    · exact .inl hlacks
    · exact .inr (.inr ⟨p, hparent, hexception⟩)

/-- The tree of the text has a node that the check accepts. -/
def hasNode (source : String) (check : Node → Bool) : Bool :=
  (java.tree ⟨0, []⟩ source).toOption.any fun parsed => parsed.2.sites.any fun s => check s.node

theorem exists_site_of_hasNode {check : Node → Bool} (h : hasNode source check = true) :
    ∃ w tree, java.tree ⟨0, []⟩ source = .ok (w, tree) ∧ ∃ s ∈ tree.sites, check s.node = true := by
  unfold hasNode at h
  cases htree : java.tree ⟨0, []⟩ source with
  | error cause =>
    rw [htree] at h
    cases h
  | ok parsed =>
    rw [htree] at h
    obtain ⟨s, hs, hsite⟩ := List.any_eq_true.mp h
    exact ⟨parsed.1, parsed.2, rfl, s, hs, hsite⟩

/-- The node is a token with the text. -/
def isTokenWith (text : String) (n : Node) : Bool :=
  n.isToken && n.label == text

theorem exists_site_of_hasToken {text : String} (h : hasNode source (isTokenWith text) = true) :
    ∃ w tree, java.tree ⟨0, []⟩ source = .ok (w, tree) ∧
      ∃ s ∈ tree.sites, s.node.isToken = true ∧ s.node.label = text := by
  obtain ⟨w, tree, htree, s, hs, hcheck⟩ := exists_site_of_hasNode h
  rw [isTokenWith, Bool.and_eq_true, beq_iff_eq] at hcheck
  exact ⟨w, tree, htree, s, hs, hcheck⟩

/-- A change with a blank behind its minus sign. -/
def spacedMinus : String := "- x; -> y;"

/-- The sign is read together with the blank. -/
theorem exists_spacedMinus : ∃ w tree, java.tree ⟨0, []⟩ spacedMinus = .ok (w, tree) ∧
    ∃ s ∈ tree.sites, s.node.isToken = true ∧ s.node.label = "- " :=
  exists_site_of_hasToken (by decide +kernel)

theorem tokens_lackLayout_spacedMinus :
    ∃ w tree, java.tree ⟨0, []⟩ spacedMinus = .ok (w, tree) ∧
      ∃ s ∈ tree.sites, s.node.isToken = true ∧ s.node.label = "- " ∧
        (LacksLayout s.node.label ∨ s.parent? = tree.root? ∧ s.node.label = "\n" ∨
          ∃ p, s.parent? = some p ∧ (p.label = "literal" ∧ IsQuoted s.node.label ∨
            p.label = "prefix_operator" ∧ IsSpacedMinus s.node.label)) := by
  obtain ⟨w, tree, htree, s, hs, htoken, hlabel⟩ := exists_spacedMinus
  exact ⟨w, tree, htree, s, hs, htoken, hlabel, tokens_lackLayout htree hs htoken⟩

/-- **Layout in a token**: the blank behind a minus sign is neither a line break below the root nor
between quotation marks. -/
theorem not_tokens_lackLayout :
    ¬ ∀ (v w : Vocabulary) (source : String) (tree : Tree), java.tree v source = .ok (w, tree) →
      ∀ s ∈ tree.sites, s.node.isToken = true →
        ¬ (s.parent? = tree.root? ∧ s.node.label = "\n") → ¬ IsQuoted s.node.label →
          LacksLayout s.node.label := by
  intro h
  obtain ⟨w, tree, htree, s, hs, htoken, hlabel⟩ := exists_spacedMinus
  have hbreak : ¬ (s.parent? = tree.root? ∧ s.node.label = "\n") := by
    rintro ⟨-, heq⟩
    exact absurd (hlabel.symm.trans heq) (by decide)
  have hquoted : ¬ IsQuoted s.node.label := by
    rintro ⟨mark, hmark, inside, heq⟩
    rw [hlabel] at heq
    simp only [List.mem_cons, List.not_mem_nil, or_false] at hmark
    rcases hmark with rfl | rfl <;> cases heq
  have hlacks := h _ _ _ _ htree s hs htoken hbreak hquoted
  rw [hlabel] at hlacks
  exact absurd hlacks (by decide)

end Parser

end ChangeQuery
