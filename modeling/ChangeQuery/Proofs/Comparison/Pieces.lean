import ChangeQuery.Proofs.Alignment.Assignment
import ChangeQuery.Proofs.Comparison.Matches

/-!
## From nodes to tokens

What the placeholder table says about a node of a query and about the tokens of that node.  A query
node covers the tokens of a candidate node if its own tokens can be laid along them.

* `kind_of_token`, `kind_of_construct`: the kind of a query node, from its labels.
* `Table.kind_eq_plain`: placeholders have no children.
* `ruleHolds_default`: what the rules of the built-in placeholders ask of a candidate.
* `covers_flatMap`: children that cover their counterparts cover them together.
-/

namespace ChangeQuery

open Placeholder (Table Kind)

namespace Placeholder

variable {names : Names} {text : String}

theorem numberedKind_cases (names : Names) (text : List Char) :
    numberedKind names text = .plain ∨ ∃ name variant,
      numberedKind names text = .numbered name variant := by
  unfold numberedKind
  split
  · exact .inl rfl
  · split_ifs
    · split
      · exact .inr ⟨_, _, rfl⟩
      · exact .inl rfl
    · exact .inl rfl

theorem eq_of_kindOfText_empty (h : kindOfText names text = .empty) : text = emptyText := by
  unfold kindOfText at h
  split_ifs at h with _ hempty
  · exact hempty
  · rcases numberedKind_cases names text.toList with hkind | ⟨_, _, hkind⟩ <;>
      (rw [hkind] at h; cases h)

/-- **Plain code** is all that is no wildcard, no marker and no placeholder. -/
theorem kindOfText_eq_plain_iff : kindOfText names text = .plain ↔
    text ≠ wildcardText ∧ text ≠ emptyText ∧ (kindOfText names text).name? = none := by
  unfold kindOfText
  split_ifs with hwildcard hempty hlisted
  · simp [hwildcard]
  · simp [hempty]
  · simp [Kind.name?]
  · rcases numberedKind_cases names text.toList with hkind | ⟨name, variant, hkind⟩
    · simp [hkind, hwildcard, hempty, Kind.name?]
    · simp [hkind, Kind.name?]

/-! ### Kinds of nodes -/

/-- **The kind of a token** is that of its text. -/
theorem kind_of_token {table : Table} {n : Node} (h : n.labels = .leaf (.token text)) :
    table.kind n = kindOfText table.names text := by
  have hleaf : n.isLeaf = true := by
    rw [Rose.isLeaf, Node.children_eq_nil h]
    rfl
  have htoken : Node.isToken n = true := Node.isToken_of_labels h
  have htextIs : n.textIs wildcardText = true ↔ text = wildcardText := by
    rw [Node.textIs_iff, h, Rose.texts_leaf, List.flatMap_singleton, String.toList_inj]
  rw [Table.kind, kindOfNode, hleaf, htoken, Node.label_of_labels h, Label.text, Bool.and_self,
    if_pos rfl]
  by_cases hwildcard : text = wildcardText
  · rw [if_pos (htextIs.mpr hwildcard), kindOfText, if_pos hwildcard]
  · rw [if_neg (htextIs.not.mpr hwildcard)]

/-- **A construct** is a wildcard or plain. -/
theorem kind_of_construct {table : Table} {n : Node} {name : String} {cs : List (Rose Label)}
    (h : n.labels = .node (.construct name) cs) :
    table.kind n = if n.textIs wildcardText then .wildcard else .plain := by
  have htoken : Node.isToken n = false := Node.isToken_of_labels h
  rw [Table.kind, kindOfNode, htoken, Bool.and_false, if_neg Bool.false_ne_true]

/-- A node with children is a wildcard or plain code. -/
theorem Table.kind_eq_plain {table : Table} {n : Node} (hne : n.children ≠ [])
    (hwildcard : table.kind n ≠ .wildcard) : table.kind n = .plain := by
  have hleaf : Rose.isLeaf n = false := by
    rw [Rose.isLeaf, List.isEmpty_eq_false_iff]
    exact hne
  unfold Table.kind kindOfNode at hwildcard ⊢
  by_cases htext : n.textIs wildcardText = true
  · exact absurd (if_pos htext) hwildcard
  · rw [if_neg htext, hleaf, Bool.false_and, if_neg Bool.false_ne_true]

/-! ### Built-in placeholders -/

/-- What the rule of a built-in placeholder asks of a candidate. -/
theorem ruleHolds_default {name : String} {candidate : Site}
    (h : Table.default.ruleHolds name candidate = true) :
    name = "LT" ∧ Alignment.spanOf .default name = .single ∧
        (∃ parent, candidate.parent? = some parent ∧ parent.label = "literal") ∨
      name = "ID" ∧ Alignment.spanOf .default name = .single ∧ candidate.node.children = [] ∨
      (name = "binOP" ∨ name = "OP") ∧ Alignment.spanOf .default name = .single ∧
        (candidate.node.label = "binary_operators" ∨ candidate.node.label = "assign_operators") ∨
      name = "EXPR" ∧ Alignment.spanOf .default name = .subtree ∧
        candidate.node.label = "expression" := by
  obtain ⟨rule, hrule, hholds⟩ := (Option.any_eq_true _ _).mp h
  have hentries : RuleBook.default.entries =
      [("EXPR", ⟨.labelled ["expression"], .subtree⟩), ("ID", ⟨.childless, .single⟩),
       ("LT", ⟨.below ["literal"], .single⟩),
       ("OP", ⟨.labelled ["binary_operators", "assign_operators"], .single⟩),
       ("binOP", ⟨.labelled ["binary_operators"], .single⟩)] := by decide
  have hmem : (name, rule) ∈ RuleBook.default.entries := by
    obtain ⟨l₁, l₂, heq, -⟩ := List.lookup_eq_some_iff.mp hrule
    show (name, rule) ∈ Table.default.rules.entries
    rw [heq]
    exact List.mem_append_right _ List.mem_cons_self
  rw [hentries] at hmem
  simp only [List.mem_cons, List.not_mem_nil, or_false, Prod.mk.injEq] at hmem
  rcases hmem with ⟨rfl, rfl⟩ | ⟨rfl, rfl⟩ | ⟨rfl, rfl⟩ | ⟨rfl, rfl⟩ | ⟨rfl, rfl⟩
  · exact .inr (.inr (.inr ⟨rfl, by decide, by simpa [Condition.holds] using hholds⟩))
  · refine .inr (.inl ⟨rfl, by decide, ?_⟩)
    simpa [Condition.holds, Rose.isLeaf] using hholds
  · refine .inl ⟨rfl, by decide, ?_⟩
    simpa [Condition.holds, Option.any_eq_true] using hholds
  · refine .inr (.inr (.inl ⟨.inr rfl, by decide, ?_⟩))
    simpa [Condition.holds] using hholds
  · refine .inr (.inr (.inl ⟨.inl rfl, by decide, .inl ?_⟩))
    simpa [Condition.holds] using hholds

end Placeholder

namespace Alignment

variable {table : Table} {choice : String → List String}

/-- A single token of a query. -/
theorem covers_singleton {text : String} {taken : List String} (h : Admits table text taken)
    (hchoice : IsNumbered table text → choice text = taken) :
    Covers choice (slotsOf table [text]) taken := by
  rw [covers_slotsOf_iff]
  refine ⟨[taken], .cons h .nil, List.append_nil _, ?_⟩
  intro a ha
  obtain rfl := List.mem_singleton.mp ha
  exact hchoice

/-- **Children that cover their counterparts** cover them together. -/
theorem covers_flatMap {α β : Type} {f : α → List String} {g : β → List String} {qs : List α}
    {cs : List β} (hlength : qs.length = cs.length)
    (h : ∀ pair ∈ qs.zip cs, Covers choice (slotsOf table (f pair.1)) (g pair.2)) :
    Covers choice (slotsOf table (qs.flatMap f)) (cs.flatMap g) := by
  induction qs generalizing cs with
  | nil =>
    obtain rfl := List.length_eq_zero_iff.mp hlength.symm
    exact .nil
  | cons q qs ih =>
    cases cs with
    | nil => cases hlength
    | cons c cs =>
      rw [List.zip_cons_cons, List.forall_mem_cons] at h
      rw [List.flatMap_cons, List.flatMap_cons, slotsOf, List.map_append]
      exact h.1.append (ih (Nat.succ.inj hlength) h.2)

end Alignment

end ChangeQuery
