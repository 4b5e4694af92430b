import ChangeQuery.Proofs.Comparison.Pieces
import ChangeQuery.Proofs.Placeholder.Rules

/-!
## Bare placeholders

A token that is a listed name alone stands for what the rule of that name asks.  The wildcard and the
marker of an empty side are read before the names are looked at.  No list of names that makes a table
holds the wildcard, but a list may hold the marker, and the rule given for it is never asked.

* `Live`: the token of a name is read as the name, and answers with the given rule.
* `Table.live_iff_of_build`: the names of a table are live, except for the marker.
* `Table.not_all_live`: a table with the marker among its names.
-/

namespace ChangeQuery.Placeholder

open ChangeQuery.Alignment (Slot)

variable {book : RuleBook} {names : List String} {emptyLabel name : String} {rule : Rule}
  {table : Table}

/-! ### Names as tokens -/

/-- The wildcard cannot be used as a name. -/
theorem isUnusable_wildcardText : IsUnusable wildcardText :=
  .inr (.inl (by decide))

/-- **A listed name** that is neither the wildcard nor the marker is read as itself. -/
theorem kindOfText_eq_bare {names : Names} (hlisted : name ∈ names.toList)
    (hwildcard : name ≠ wildcardText) (hempty : name ≠ emptyText) :
    kindOfText names name = .bare name := by
  unfold kindOfText
  rw [if_neg hwildcard, if_neg hempty, if_pos hlisted]

/-- The marker of an empty side is read as such, whatever the names are. -/
theorem kindOfText_emptyText (names : Names) : kindOfText names emptyText = .empty := by
  unfold kindOfText
  rw [if_neg (by decide), if_pos rfl]

/-- A childless token is read like its text. -/
theorem kind_leaf (table : Table) (id : ℕ) (text : String) :
    table.kind (.leaf ⟨id, .token text⟩) = kindOfText table.names text :=
  kind_of_token rfl

/-! ### Live names -/

/-- The token of the name is read as the name, as a node and as a text; it is held against candidates by
the rule, and takes as many tokens as the rule says. -/
structure Live (table : Table) (name : String) (rule : Rule) : Prop where
  kind_of_node : ∀ id, table.kind (.leaf ⟨id, .token name⟩) = .bare name
  kind_of_text : kindOfText table.names name = .bare name
  matches_eq : ∀ id candidate,
    table.matchesPlaceholder (.leaf ⟨id, .token name⟩) candidate = rule.condition.holds candidate
  slot_eq : Slot.ofText table name = .ofSpan none rule.span

/-- A name that is read as itself answers with its rule. -/
theorem Live.of_kindOfText (hkind : kindOfText table.names name = .bare name)
    (hrule : table.rule? name = some rule) : Live table name rule := by
  have hnode : ∀ id, table.kind (.leaf ⟨id, .token name⟩) = .bare name :=
    fun id => (kind_leaf table id name).trans hkind
  refine ⟨hnode, hkind, fun id candidate => ?_, ?_⟩
  · simp [Table.matchesPlaceholder, hnode id, Kind.name?, Table.ruleHolds, hrule]
  · simp [Slot.ofText, hkind, hrule]

/-- The marker of an empty side is not live, even if it is listed. -/
theorem not_live_emptyText (table : Table) (rule : Rule) : ¬ Live table emptyText rule := by
  intro h
  have hkind := h.kind_of_text
  rw [kindOfText_emptyText] at hkind
  cases hkind

/-- The marker matches no candidate as a placeholder. -/
theorem matchesPlaceholder_emptyText (table : Table) (id : ℕ) (candidate : Site) :
    table.matchesPlaceholder (.leaf ⟨id, .token emptyText⟩) candidate = false := by
  simp [Table.matchesPlaceholder, kind_leaf, kindOfText_emptyText, Kind.name?]

/-! ### Names of tables -/

namespace Table

/-- A name of a table is no wildcard, and it has the rule that was given for it. -/
theorem rule?_of_mem_names (h : build names book emptyLabel = .ok table)
    (hname : name ∈ table.names.toList) : name ≠ wildcardText ∧
      ∃ rule, book.rule? name = some rule ∧ table.rule? name = some rule := by
  rw [names_of_build h, Names.mem_ofList] at hname
  refine ⟨?_, rule?_of_build h hname⟩
  rintro rfl
  have husable := (exists_build_eq_ok_iff.mp ⟨table, h⟩ _ hname).1
  exact husable isUnusable_wildcardText

/-- **Names are live.**  Every name of a table has the rule that was given for it, and the token of the
name answers with this rule exactly if the name is not the marker of an empty side.  The marker remains
what it is: it matches no candidate by its rule, and takes no tokens. -/
theorem live_iff_of_build (h : build names book emptyLabel = .ok table)
    (hname : name ∈ table.names.toList) : ∃ rule, book.rule? name = some rule ∧
      (Live table name rule ↔ name ≠ emptyText) ∧
      (name = emptyText → Slot.ofText table name = .hole none 0 (some 0) ∧
        ∀ id candidate,
          table.matchesPlaceholder (.leaf ⟨id, .token name⟩) candidate = false) := by
  obtain ⟨hwildcard, rule, hgiven, hrule⟩ := rule?_of_mem_names h hname
  refine ⟨rule, hgiven, ⟨?_, fun hempty => ?_⟩, ?_⟩
  · rintro hlive rfl
    exact not_live_emptyText table rule hlive
  · exact .of_kindOfText (kindOfText_eq_bare hname hwildcard hempty) hrule
  · rintro rfl
    refine ⟨?_, fun id => matchesPlaceholder_emptyText table id⟩
    simp [Slot.ofText, kindOfText_emptyText]

/-- One of two listed names is the marker of an empty side. -/
theorem sample_live : ∃ book table, build ["STR", "_"] book "block" = .ok table ∧
    Live table "STR" ⟨.below ["string"], .single⟩ ∧
    Slot.ofText table "_" = .hole none 0 (some 0) := by
  have hbuild : build ["STR", "_"]
      (.ofList [("STR", ⟨.below ["string"], .single⟩), ("_", ⟨.childless, .subtree⟩)]) "block" =
      .ok ⟨⟨["STR", "_"]⟩,
        ⟨[("STR", ⟨.below ["string"], .single⟩), ("_", ⟨.childless, .subtree⟩)]⟩, "block"⟩ := by
    decide
  have hSTR : "STR" ∈ ["STR", "_"] := by decide
  have hmarked : "_" ∈ ["STR", "_"] := by decide
  obtain ⟨rule, hrule, hlive, -⟩ := live_iff_of_build hbuild hSTR
  obtain ⟨-, -, -, hmarker⟩ := live_iff_of_build hbuild hmarked
  obtain rfl : rule = ⟨.below ["string"], .single⟩ := by
    have hgiven : RuleBook.rule? (.ofList [("STR", ⟨.below ["string"], .single⟩),
        ("_", ⟨.childless, .subtree⟩)]) "STR" = some ⟨.below ["string"], .single⟩ := by decide
    exact Option.some.inj (hrule.symm.trans hgiven)
  exact ⟨_, _, hbuild, hlive.mpr (by decide), (hmarker rfl).1⟩

/-- **Not every name is live**: a list of names with the marker on it makes a table. -/
theorem not_all_live : ¬ ∀ names book emptyLabel table, build names book emptyLabel = .ok table →
    ∀ name ∈ table.names.toList, ∃ rule, book.rule? name = some rule ∧ Live table name rule := by
  intro hall
  have hbuild : build ["_"] (.ofList [("_", ⟨.childless, .single⟩)]) "block" =
      .ok ⟨⟨["_"]⟩, ⟨[("_", ⟨.childless, .single⟩)]⟩, "block"⟩ := by decide
  obtain ⟨rule, -, hlive⟩ := hall _ _ _ _ hbuild "_" (by decide)
  exact not_live_emptyText _ rule hlive

end Table

end ChangeQuery.Placeholder
