import ChangeQuery.Proofs.ChangeGrammar.Words
import ChangeQuery.Placeholder.Kind

/-!
## The trees of changes

What the constructs of a change have below them, as far as placeholders rely on it.  Most of it is
read off the expressions of the grammar; a fact about a tree then follows for each of its nodes from
the construct that the node came from.

* `isSideNode_of_leaves`: every node of a side is a construct or a token of the grammar.
* `IsSideNode.token`: tokens have nothing below them, do not start with a blank, and are no arrow.
* `IsSideNode.single`: literals, names and operators are constructs above a single token.
* `IsSideNode.texts_ne_nil`: only sides, lists of statements and lists of arguments can be without
  tokens.
* `texts_eq_of_wildcard`: a node whose text is that of the wildcard has no other token.
* `exists_sides`: a change has two sides around an arrow, with line breaks in between.
-/

namespace ChangeQuery.ChangeGrammar

open Grammar
open Peg (text many)

/-! ### The nodes of a side -/

/-- The constructs within a side, with their bodies. -/
def sideBranches : List (String × Reader) :=
  snippet.branches ++ (statement.branches ++ expression.branches)

/-- The bodies of the tokens within a side. -/
def sideTokens : List Reader :=
  snippet.tokens ++ (statement.tokens ++ expression.tokens)

/-- What the nodes of a side are. -/
def IsSideNode (n : Rose Label) : Prop :=
  grammar.Grows sideBranches sideTokens n

/-- The nodes of what an expression leaves are constructs and tokens of the expression itself or of the
rules. -/
theorem grows_of_leaves {e : Reader} {ts : List (Rose Label)} (h : grammar.Leaves e ts) :
    ∀ t ∈ ts, ∀ n ∈ t.preorder,
      grammar.Grows (e.branches ++ (statement.branches ++ expression.branches))
        (e.tokens ++ (statement.tokens ++ expression.tokens)) n := by
  refine h.grows (fun rule => ?_) (List.subset_append_left _ _) (List.subset_append_left _ _)
  cases rule with
  | statement =>
    exact ⟨List.subset_append_of_subset_right _ (List.subset_append_left _ _),
      List.subset_append_of_subset_right _ (List.subset_append_left _ _)⟩
  | expression =>
    exact ⟨List.subset_append_of_subset_right _ (List.subset_append_right _ _),
      List.subset_append_of_subset_right _ (List.subset_append_right _ _)⟩

/-- **The nodes of a side** are constructs and tokens of the grammar. -/
theorem isSideNode_of_leaves {ts : List (Rose Label)} (h : grammar.Leaves snippet ts) :
    ∀ t ∈ ts, ∀ n ∈ t.preorder, IsSideNode n :=
  grows_of_leaves h

/-- There is nothing below a token of a change. -/
theorem children_eq_nil_of_read? {source : String} {labels n : Rose Label}
    (h : read? source = some labels) (hn : n ∈ labels.preorder) {t : String}
    (ht : n.value = .token t) : n.children = [] := by
  obtain ⟨_, _, hreads⟩ := reads_of_read? h
  have hgrows := grows_of_leaves (leaves_of_reads hreads) labels (List.mem_singleton_self _) n hn
  rw [Grows, ht] at hgrows
  exact hgrows.1

theorem IsSideNode.exists_body {name : String} {cs : List (Rose Label)}
    (h : IsSideNode (.node (.construct name) cs)) :
    ∃ body, (name, body) ∈ sideBranches ∧ grammar.Leaves body cs := h

/-! ### Tokens -/

/-- The blank characters, one by one. -/
def blanks : List Char :=
  Text.blankRanges.flatMap fun range =>
    (List.range' range.1 (range.2 + 1 - range.1)).map Char.ofNat

theorem mem_blanks_of_isBlank {c : Char} (h : Text.isBlank c = true) : c ∈ blanks := by
  obtain ⟨range, hrange, hc⟩ := List.any_eq_true.mp h
  rw [Bool.and_eq_true, decide_eq_true_eq, decide_eq_true_eq] at hc
  refine List.mem_flatMap.mpr ⟨range, hrange, List.mem_map.mpr ⟨c.toNat, ?_, Char.ofNat_toNat c⟩⟩
  rw [List.mem_range'_1]
  omega

/-- What can remain of a text after layout. -/
def layoutRemainders (w : List Char) : List (List Char) :=
  layout.remainders List.tails false w

/-- The expression does not read the text, whatever stands around it. -/
def neverReads (expected : String) (body : Reader) : Bool :=
  [false, true].all fun s => !([] ∈ body.remainders layoutRemainders s expected.toList)

theorem ne_of_neverReads {expected t : String} {body : Reader}
    (hbody : neverReads expected body = true) (h : grammar.Spells body t) : t ≠ expected := by
  have hgap : ∀ w w', w' ∈ grammar.layout.remainders layoutRemainders false w →
      w' ∈ layoutRemainders w := fun _ _ h => h
  refine h.ne_of_remainders hgap fun s => ?_
  have hs := List.all_eq_true.mp hbody s (by cases s <;> decide)
  simpa using hs

set_option maxRecDepth 2000 in
theorem sideTokens_ne_arrow : ∀ body ∈ sideTokens, neverReads "->" body = true := by
  decide

set_option maxRecDepth 2000 in
theorem sideTokens_consume : ∀ body ∈ sideTokens, body.consumes = true := by
  decide

/-- The expression does not start with a blank, whatever stands around it. -/
def avoidsBlanks (body : Reader) : Bool :=
  blanks.all fun x => [false, true].all fun s => body.avoids x false s

set_option maxRecDepth 2000 in
theorem sideTokens_avoid_blanks : ∀ body ∈ sideTokens, avoidsBlanks body = true := by
  decide

/-- **The tokens of a side** have nothing below them, do not start with a blank, and are no arrow. -/
theorem IsSideNode.token {t : String} {cs : List (Rose Label)}
    (h : IsSideNode (.node (.token t) cs)) :
    cs = [] ∧ t ≠ "->" ∧ ∃ c ∈ t.toList.head?, Text.isBlank c = false := by
  obtain ⟨hnil, body, hbody, hspells⟩ := h
  refine ⟨hnil, ne_of_neverReads (sideTokens_ne_arrow body hbody) hspells, ?_⟩
  cases hchars : t.toList with
  | nil => exact absurd hchars (hspells.ne_nil bounds.rule_consumes (sideTokens_consume body hbody))
  | cons c rest =>
    refine ⟨c, rfl, Bool.eq_false_iff.mpr fun hblank => ?_⟩
    have havoids := List.all_eq_true.mp (sideTokens_avoid_blanks body hbody) c
      (mem_blanks_of_isBlank hblank)
    have hne := hspells.head_ne bounds.rule_consumes (nofun : false = true → _) fun s =>
      List.all_eq_true.mp havoids s (by cases s <;> decide)
    rw [hchars] at hne
    exact hne rfl

/-! ### Constructs above a single token -/

/-- Literals, names and operators. -/
def singleNames : List String :=
  ["literal", "identifier", "type_name", "binary_operators", "assign_operators", "prefix_operator",
   "postfix_operator"]

/-- The expression leaves one token. -/
def isToken : Reader → Bool
  | .leaf _ => true
  | _ => false

theorem sideBranches_single : ∀ b ∈ sideBranches, b.1 ∈ singleNames → isToken b.2 = true := by
  decide

/-- **Literals, names and operators** are constructs above a single token. -/
theorem IsSideNode.single {name : String} {cs : List (Rose Label)}
    (h : IsSideNode (.node (.construct name) cs)) (hname : name ∈ singleNames) :
    ∃ t, cs = [.leaf (.token t)] := by
  obtain ⟨body, hbody, hleaves⟩ := h.exists_body
  have htoken := sideBranches_single _ hbody hname
  cases hleaves with
  | leaf => exact ⟨_, rfl⟩
  | _ => cases htoken

/-! ### Tokens below a construct -/

/-- The constructs that can be without tokens. -/
def bareNames : List String :=
  ["snippet", "multipleStatements", "argument_list"]

theorem rules_worded (rule : Rule) : (grammar.rule rule).worded = true := by
  cases rule <;> decide

theorem sideBranches_worded : ∀ b ∈ sideBranches, b.1 ∉ bareNames → b.2.worded = true := by
  decide

/-- **Constructs hold tokens**, but for sides and the lists of statements and of arguments. -/
theorem IsSideNode.texts_ne_nil {name : String} {cs : List (Rose Label)}
    (h : IsSideNode (.node (.construct name) cs)) (hname : name ∉ bareNames) :
    cs.flatMap Rose.texts ≠ [] := by
  obtain ⟨body, hbody, hleaves⟩ := h.exists_body
  exact hleaves.texts_ne_nil rules_worded (sideBranches_worded _ hbody hname)

/-! ### The text of a wildcard -/

/-- The token does not start like a wildcard, or is one. -/
def opensPlain (body : Reader) : Bool :=
  ([false, true].all fun s => body.avoids '<' false s) ||
    body.word? == some Placeholder.wildcardText.toList

theorem rules_open (rule : Rule) : (grammar.rule rule).opens opensPlain = true := by
  cases rule <;> decide

theorem sideBranches_open : ∀ b ∈ sideBranches, b.1 ∉ singleNames →
    b.2.opens opensPlain = true := by
  decide

theorem IsSideNode.head_texts {name : String} {cs : List (Rose Label)}
    (h : IsSideNode (.node (.construct name) cs)) (hname : name ∉ singleNames) {t : String}
    (ht : t ∈ (cs.flatMap Rose.texts).head?) :
    t.toList.head? ≠ some '<' ∨ t = Placeholder.wildcardText := by
  obtain ⟨body, hbody, hleaves⟩ := h.exists_body
  obtain ⟨token, htoken, hspells⟩ := hleaves.head_texts
    (fun rule => ⟨rules_worded rule, rules_open rule⟩) (sideBranches_open _ hbody hname) t ht
  rcases Bool.or_eq_true_iff.mp htoken with havoids | hword
  · left
    refine hspells.head_ne bounds.rule_consumes (nofun : false = true → _) fun s => ?_
    exact List.all_eq_true.mp havoids s (by cases s <;> decide)
  · right
    rw [hspells.eq_of_word? (beq_iff_eq.mp hword), String.ofList_toList]

/-- **The text of a wildcard** belongs to the wildcard alone. -/
theorem texts_eq_of_wildcard {n : Rose Label} (hn : ∀ m ∈ n.preorder, IsSideNode m)
    (h : n.texts.flatMap String.toList = Placeholder.wildcardText.toList) :
    n.texts = [Placeholder.wildcardText] := by
  have hne : ∀ t ∈ n.texts, t.toList ≠ [] := by
    intro t ht hnil
    obtain ⟨⟨_, cs⟩, hm, rfl⟩ := Rose.mem_texts_iff.mp ht
    obtain ⟨-, -, c, hc, -⟩ := (hn _ hm).token
    rw [hnil] at hc
    cases hc
  -- If there is only one token, it is the whole text.
  have hone : ∀ t, n.texts = [t] → n.texts = [Placeholder.wildcardText] := by
    intro t ht
    rw [ht, List.flatMap_singleton, String.toList_inj] at h
    rw [ht, h]
  obtain ⟨v, cs⟩ := n
  have hself := hn _ (Rose.mem_preorder_self _)
  cases v with
  | token t =>
    apply hone t
    rw [Rose.texts_token, hself.token.1, List.flatMap_nil]
  | construct name =>
    by_cases hname : name ∈ singleNames
    · obtain ⟨t, rfl⟩ := hself.single hname
      apply hone t
      rw [Rose.texts_construct, List.flatMap_singleton, Rose.texts_leaf]
    · rw [Rose.texts_construct] at h hne ⊢
      cases htexts : cs.flatMap Rose.texts with
      | nil =>
        rw [htexts] at h
        cases h
      | cons t ts =>
        rw [htexts, List.flatMap_cons] at h
        -- The text starts with `<`, and so does its first token.
        have ht : t = Placeholder.wildcardText := by
          refine (hself.head_texts hname (htexts ▸ rfl)).resolve_left (not_not.mpr ?_)
          rw [← List.head?_append_of_ne_nil _ (hne t (htexts ▸ List.mem_cons_self)), h]
          rfl
        -- The first token is the whole text, so there is nothing left for others.
        rw [ht] at h
        have hrest := List.append_right_eq_self.mp h
        cases ts with
        | nil => rw [ht]
        | cons u ts =>
          rw [List.flatMap_cons, List.append_eq_nil_iff] at hrest
          exact absurd hrest.1 (hne u (htexts ▸ List.mem_cons_of_mem _ List.mem_cons_self))

/-! ### What stands between brackets -/

/-- The marker of an empty side, or a list of statements. -/
def IsBody (t : Rose Label) : Prop :=
  t = .leaf (.token "_") ∨ ∃ cs, t = .node (.construct "multipleStatements") cs

theorem isBody_of_leaves {ts : List (Rose Label)} (h : grammar.Leaves body ts) :
    ∃ t, ts = [t] ∧ IsBody t := by
  rcases leaves_orElse_iff.mp h with h | h
  · obtain ⟨t, ht, rfl⟩ := leaves_token_iff.mp h
    exact ⟨_, rfl, .inl (by rw [eq_of_spells_word ht])⟩
  · obtain ⟨cs, -, rfl⟩ := leaves_branch_iff.mp h
    exact ⟨_, rfl, .inr ⟨cs, rfl⟩⟩

theorem eq_of_leaves_mark {symbol : String} {ts : List (Rose Label)}
    (h : grammar.Leaves (mark symbol) ts) : ts = [.leaf (.token symbol)] := by
  obtain ⟨t, ht, rfl⟩ := leaves_token_iff.mp h
  rw [ht.eq_of_word? rfl, String.ofList_toList]

/-- The constructs of a name. -/
def named (name : String) : List (String × Reader) :=
  sideBranches.filter fun b => b.1 = name

/-- A name that stands for one reader only. -/
theorem body_eq_of_named {name : String} (reader : Reader) {body : Reader}
    (h : named name = List.replicate (named name).length (name, reader))
    (hbody : (name, body) ∈ sideBranches) : body = reader := by
  have hmem : (name, body) ∈ named name := List.mem_filter.mpr ⟨hbody, decide_eq_true rfl⟩
  rw [h] at hmem
  exact congrArg Prod.snd (List.eq_of_mem_replicate hmem)

theorem IsSideNode.snippet {cs : List (Rose Label)}
    (h : IsSideNode (.node (.construct "snippet") cs)) : ∃ t, cs = [t] ∧ IsBody t := by
  obtain ⟨reader, hreader, hleaves⟩ := h.exists_body
  obtain rfl := body_eq_of_named body rfl hreader
  exact isBody_of_leaves hleaves

theorem IsSideNode.block {cs : List (Rose Label)}
    (h : IsSideNode (.node (.construct "block") cs)) :
    ∃ t, cs = [.leaf (.token "\x7b"), t, .leaf (.token "\x7d")] ∧ IsBody t := by
  obtain ⟨reader, hreader, hleaves⟩ := h.exists_body
  obtain rfl := body_eq_of_named (mark "\x7b" ++ body ++ mark "\x7d") rfl hreader
  obtain ⟨us, vs, rfl, hus, hvs⟩ := leaves_append_iff.mp hleaves
  obtain ⟨ws, xs, rfl, hws, hxs⟩ := leaves_append_iff.mp hus
  obtain ⟨t, rfl, ht⟩ := isBody_of_leaves hxs
  rw [eq_of_leaves_mark hws, eq_of_leaves_mark hvs]
  exact ⟨t, rfl, ht⟩

theorem IsSideNode.arguments {cs : List (Rose Label)}
    (h : IsSideNode (.node (.construct "arguments") cs)) :
    ∃ items, cs = [.leaf (.token "("), .node (.construct "argument_list") items,
      .leaf (.token ")")] := by
  obtain ⟨reader, hreader, hleaves⟩ := h.exists_body
  obtain rfl := body_eq_of_named
    (mark "(" ++ .branch "argument_list" (.option (commaSeparated expressionSlot)) ++ mark ")")
    rfl hreader
  obtain ⟨us, vs, rfl, hus, hvs⟩ := leaves_append_iff.mp hleaves
  obtain ⟨ws, xs, rfl, hws, hxs⟩ := leaves_append_iff.mp hus
  obtain ⟨items, -, rfl⟩ := leaves_branch_iff.mp hxs
  rw [eq_of_leaves_mark hws, eq_of_leaves_mark hvs]
  exact ⟨items, rfl⟩

/-! ### What stands below other constructs -/

/-- The constructs with a body or a list of arguments directly below them. -/
def enclosingNames : List String :=
  ["snippet", "block", "arguments"]

theorem rules_root (rule : Rule) :
    (grammar.rule rule).roots (fun _ => true) (fun name => name ∉ bareNames) true = true := by
  cases rule <;> decide

theorem rules_root_marker (rule : Rule) :
    (grammar.rule rule).roots (neverReads "_") (fun _ => true) true = true := by
  cases rule <;> decide

theorem sideBranches_root : ∀ b ∈ sideBranches, b.1 ∉ enclosingNames →
    b.2.roots (fun _ => true) (fun name => name ∉ bareNames) true = true := by
  decide

theorem sideBranches_root_marker : ∀ b ∈ sideBranches,
    b.1 ∉ "identifier" :: "type_name" :: enclosingNames →
    b.2.roots (neverReads "_") (fun _ => true) true = true := by
  decide

/-- Below other constructs, no construct can be without tokens. -/
theorem IsSideNode.child_notMem_bareNames {name : String} {cs : List (Rose Label)}
    (h : IsSideNode (.node (.construct name) cs)) (hname : name ∉ enclosingNames)
    {childName : String} {items : List (Rose Label)}
    (hchild : .node (.construct childName) items ∈ cs) : childName ∉ bareNames := by
  obtain ⟨body, hbody, hleaves⟩ := h.exists_body
  exact of_decide_eq_true
    (hleaves.isRoot (fun _ => rules_root) (sideBranches_root _ hbody hname) _ hchild)

/-- Below other constructs, no token is the marker of an empty side. -/
theorem IsSideNode.child_ne_marker {name : String} {cs : List (Rose Label)}
    (h : IsSideNode (.node (.construct name) cs)) (hname : name ∉ enclosingNames)
    {items : List (Rose Label)} : .node (.token "_") items ∉ cs := by
  intro hchild
  obtain ⟨reader, hreader, hleaves⟩ := h.exists_body
  -- Names start like the marker does, so their readers are looked at more closely.
  by_cases hidentifier : name = "identifier"
  · subst hidentifier
    obtain rfl := body_eq_of_named (Peg.token (placeholder "ID" <|> ChangeGrammar.name)) rfl
      hreader
    obtain ⟨t, ht, rfl⟩ := leaves_token_iff.mp hleaves
    cases List.mem_singleton.mp hchild
    exact ne_marker_of_spells_identifier ht rfl
  by_cases htype : name = "type_name"
  · subst htype
    obtain rfl := body_eq_of_named
      (Peg.token ((placeholder "ID" <|> ChangeGrammar.name ++
        many (text "." ++ ChangeGrammar.name)) ++ many (text "[" ++ text "]"))) rfl hreader
    obtain ⟨t, ht, rfl⟩ := leaves_token_iff.mp hleaves
    cases List.mem_singleton.mp hchild
    exact ne_marker_of_spells_typeName ht rfl
  have hother : name ∉ "identifier" :: "type_name" :: enclosingNames := by
    rw [List.mem_cons, List.mem_cons, not_or, not_or]
    exact ⟨hidentifier, htype, hname⟩
  obtain ⟨-, token, htoken, hspells⟩ := hleaves.isRoot (fun _ => rules_root_marker)
    (sideBranches_root_marker _ hreader hother) _ hchild
  exact ne_of_neverReads htoken hspells rfl

/-! ### Nodes that face each other -/

section Faces

variable {name : String} {qs cs : List (Rose Label)} {q c : Rose Label}

/-- What faces each other below a side, a block or arguments: the same bracket twice, two bodies, or
two lists of arguments. -/
theorem cases_of_mem_zip (hname : name ∈ enclosingNames)
    (hq : IsSideNode (.node (.construct name) qs)) (hc : IsSideNode (.node (.construct name) cs))
    (hmem : (q, c) ∈ qs.zip cs) :
    (∃ symbol, symbol ≠ "_" ∧ q = .leaf (.token symbol) ∧ c = .leaf (.token symbol)) ∨
      (IsBody q ∧ IsBody c) ∨
      ∃ items items', q = .node (.construct "argument_list") items ∧
        c = .node (.construct "argument_list") items' := by
  simp only [enclosingNames, List.mem_cons, List.not_mem_nil, or_false] at hname
  rcases hname with rfl | rfl | rfl
  · obtain ⟨x, rfl, hx⟩ := hq.snippet
    obtain ⟨y, rfl, hy⟩ := hc.snippet
    obtain ⟨rfl, rfl⟩ := Prod.mk.inj (List.mem_singleton.mp hmem)
    exact .inr (.inl ⟨hx, hy⟩)
  · obtain ⟨x, rfl, hx⟩ := hq.block
    obtain ⟨y, rfl, hy⟩ := hc.block
    simp only [List.zip_cons_cons, List.zip_nil_right, List.mem_cons, List.not_mem_nil, or_false,
      Prod.mk.injEq] at hmem
    rcases hmem with ⟨rfl, rfl⟩ | ⟨rfl, rfl⟩ | ⟨rfl, rfl⟩
    · exact .inl ⟨_, by decide, rfl, rfl⟩
    · exact .inr (.inl ⟨hx, hy⟩)
    · exact .inl ⟨_, by decide, rfl, rfl⟩
  · obtain ⟨x, rfl⟩ := hq.arguments
    obtain ⟨y, rfl⟩ := hc.arguments
    simp only [List.zip_cons_cons, List.zip_nil_right, List.mem_cons, List.not_mem_nil, or_false,
      Prod.mk.injEq] at hmem
    rcases hmem with ⟨rfl, rfl⟩ | ⟨rfl, rfl⟩ | ⟨rfl, rfl⟩
    · exact .inl ⟨_, by decide, rfl, rfl⟩
    · exact .inr (.inr ⟨x, y, rfl, rfl⟩)
    · exact .inl ⟨_, by decide, rfl, rfl⟩

/-- Below constructs of one name, a childless construct is faced by no token but the marker of an
empty side. -/
theorem token_of_mem_zip (hq : IsSideNode (.node (.construct name) qs))
    (hc : IsSideNode (.node (.construct name) cs)) (hcs : ∀ n ∈ cs, IsSideNode n)
    (hmem : (q, c) ∈ qs.zip cs) {t : String} (ht : q.value = .token t) (hne : t ≠ "_")
    (hleaf : c.children = []) : ∃ u, c.value = .token u := by
  obtain ⟨v, items⟩ := c
  obtain rfl : items = [] := hleaf
  have hc' := hcs _ (List.of_mem_zip hmem).2
  cases v with
  | token u => exact ⟨u, rfl⟩
  | construct childName =>
    exfalso
    -- A childless construct is without tokens, so it stands in a construct with a body or arguments.
    have hbare : childName ∈ bareNames := by
      by_contra hbare
      exact hc'.texts_ne_nil hbare rfl
    have hname : name ∈ enclosingNames := by
      by_contra hname
      exact hc.child_notMem_bareNames hname (List.of_mem_zip hmem).2 hbare
    rcases cases_of_mem_zip hname hq hc hmem with ⟨symbol, -, -, hsymbol⟩ | ⟨hbody, -⟩ |
      ⟨_, _, rfl, -⟩
    · cases hsymbol
    · rcases hbody with rfl | ⟨_, rfl⟩
      · exact hne (Label.token.inj ht).symm
      · cases ht
    · cases ht

/-- The marker of an empty side is faced by a body. -/
theorem isBody_of_mem_zip (hq : IsSideNode (.node (.construct name) qs))
    (hc : IsSideNode (.node (.construct name) cs)) (hmem : (q, c) ∈ qs.zip cs)
    (ht : q.value = .token "_") : IsBody c := by
  have hname : name ∈ enclosingNames := by
    by_contra hname
    obtain ⟨v, items⟩ := q
    obtain rfl : v = .token "_" := ht
    exact hq.child_ne_marker hname (List.of_mem_zip hmem).1
  rcases cases_of_mem_zip hname hq hc hmem with ⟨symbol, hne, rfl, -⟩ | ⟨-, hbody⟩ |
    ⟨_, _, rfl, -⟩
  · exact absurd (Label.token.inj ht) hne
  · exact hbody
  · cases ht

end Faces

/-! ### Whole changes -/

/-- The tree of one side. -/
def IsSide (t : Rose Label) : Prop :=
  t.value = .construct "snippet" ∧ ∀ n ∈ t.preorder, IsSideNode n

/-- All trees are line breaks. -/
def AreBreaks (ts : List (Rose Label)) : Prop :=
  ∀ t ∈ ts, t = .leaf (.token "\n")

theorem areBreaks_of_leaves {ts : List (Rose Label)} (h : grammar.Leaves looseLayout ts) :
    AreBreaks ts := by
  have hroots : looseLayout.roots (fun body => body.word? == some ['\n']) (fun _ => false) false =
      true := by decide
  intro t ht
  have hroot := h.isRoot (fun hcalls => absurd hcalls Bool.false_ne_true) hroots t ht
  obtain ⟨v, cs⟩ := t
  cases v with
  | construct name => cases hroot
  | token text =>
    obtain ⟨hnil, body, hbody, hspells⟩ := hroot
    obtain rfl : cs = [] := hnil
    rw [hspells.eq_of_word? (beq_iff_eq.mp hbody)]
    rfl

theorem isSide_of_leaves {ts : List (Rose Label)} (h : grammar.Leaves snippet ts) :
    ∃ t, ts = [t] ∧ IsSide t := by
  have hnodes := isSideNode_of_leaves h
  change grammar.Leaves (.spaced (.branch "snippet" body)) ts at h
  cases h with
  | spaced h =>
    cases h with
    | branch h => exact ⟨_, rfl, rfl, hnodes _ (List.mem_singleton_self _)⟩

/-- **The tree of a change**: two sides around an arrow, and line breaks around them. -/
theorem exists_sides {source : String} {labels : Rose Label} (h : read? source = some labels) :
    ∃ l₁ l₂ l₃ l₄ old new, labels = .node (.construct "change")
        (l₁ ++ old :: (l₂ ++ .leaf (.token "->") :: (l₃ ++ new :: l₄))) ∧
      AreBreaks l₁ ∧ AreBreaks l₂ ∧ AreBreaks l₃ ∧ AreBreaks l₄ ∧ IsSide old ∧ IsSide new := by
  obtain ⟨consumed, rest, hreads⟩ := reads_of_read? h
  have hleaves : grammar.Leaves (.branch "change" (looseLayout ++ snippet ++ looseLayout ++
      mark "->" ++ looseLayout ++ snippet ++ looseLayout ++ .stop)) [labels] := by
    cases leaves_of_reads hreads with
    | tight h => exact h
  obtain ⟨cs, hcs, hlabels⟩ := leaves_branch_iff.mp hleaves
  -- The parts of the sequence, from the last to the first.
  obtain ⟨_, v₈, rfl, h, h₈⟩ := leaves_append_iff.mp hcs
  obtain ⟨_, l₄, rfl, h, h₇⟩ := leaves_append_iff.mp h
  obtain ⟨_, v₆, rfl, h, h₆⟩ := leaves_append_iff.mp h
  obtain ⟨_, l₃, rfl, h, h₅⟩ := leaves_append_iff.mp h
  obtain ⟨_, v₄, rfl, h, h₄⟩ := leaves_append_iff.mp h
  obtain ⟨_, l₂, rfl, h, h₃⟩ := leaves_append_iff.mp h
  obtain ⟨l₁, v₂, rfl, h₁, h₂⟩ := leaves_append_iff.mp h
  obtain ⟨old, rfl, hold⟩ := isSide_of_leaves h₂
  obtain ⟨new, rfl, hnew⟩ := isSide_of_leaves h₆
  obtain rfl := eq_of_leaves_mark h₄
  cases h₈
  refine ⟨l₁, l₂, l₃, l₄, old, new, ?_, areBreaks_of_leaves h₁, areBreaks_of_leaves h₃,
    areBreaks_of_leaves h₅, areBreaks_of_leaves h₇, hold, hnew⟩
  obtain rfl := List.singleton_inj.mp hlabels
  simp only [List.append_assoc, List.cons_append, List.nil_append, List.append_nil]

end ChangeQuery.ChangeGrammar
