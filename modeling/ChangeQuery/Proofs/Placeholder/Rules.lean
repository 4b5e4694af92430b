import ChangeQuery.Alignment
import ChangeQuery.Placeholder.Table
import Mathlib.Data.List.Basic
import Mathlib.Tactic.Common

/-!
## Names and their rules

The names of a table are kept in one place and the rules in another: a token is read with the names,
and the rule for what was read is looked up afterwards.  Both come from one list of names, so that
every name that a token can be read as has its rule.

* `selectRules_eq`: a list of names is refused for its first name that is refused.
* `Table.rule?_of_build`: a listed name has the rule that was given for it.
* `Table.build_refuses_or_serves`: which lists are refused and why, and that a table that was built
  has the given rule for whatever a token or a node is read as.
-/

namespace ChangeQuery.Placeholder

open ChangeQuery.Alignment (Slot)

variable {book : RuleBook} {names : List String} {emptyLabel : String} {cause : TableError}

/-! ### Names -/

namespace Names

theorem mem_insertName {name other : String} {names : List String} :
    other ∈ insertName name names ↔ other = name ∨ other ∈ names := by
  induction names with
  | nil => exact List.mem_singleton.trans (or_iff_left List.not_mem_nil).symm
  | cons first names ih =>
    rw [insertName]
    split_ifs with hname
    · -- The name stands here already.
      rw [List.mem_cons, hname, ← or_assoc, or_self]
    · rw [List.mem_cons]
    · rw [List.mem_cons, ih, List.mem_cons, or_left_comm]

/-- Sorting names and dropping repetitions keeps the names. -/
theorem mem_ofList {name : String} {names : List String} :
    name ∈ (ofList names).toList ↔ name ∈ names := by
  induction names with
  | nil => exact Iff.rfl
  | cons first names ih =>
    show name ∈ insertName first (ofList names).toList ↔ name ∈ first :: names
    rw [mem_insertName, ih, List.mem_cons]

end Names

/-- A token is read as one of the names. -/
theorem mem_of_kindOfText {names : Names} {text name : String}
    (h : (kindOfText names text).name? = some name) : name ∈ names.toList := by
  unfold kindOfText at h
  split_ifs at h with hwildcard hempty hbare
  · cases h
  · cases h
  · obtain rfl := Option.some.inj h
    exact hbare
  -- A numbered placeholder takes the first name that fits.
  unfold numberedKind at h
  split at h
  · cases h
  split_ifs at h
  · split at h
    · rename_i found hfound
      obtain rfl := Option.some.inj h
      exact List.mem_of_find?_eq_some hfound
    · cases h
  · cases h

/-- A node that is read as a placeholder is a token that is read so. -/
theorem name?_of_kindOfNode {names : Names} {n : Node} {name : String}
    (h : (kindOfNode names n).name? = some name) : (kindOfText names n.label).name? = some name := by
  unfold kindOfNode at h
  split_ifs at h
  · cases h
  · exact h
  · cases h

/-! ### Rules -/

namespace RuleBook

theorem lookup_cons_eq_ite {other key : String} {rule : Rule} {entries : List (String × Rule)} :
    ((other, rule) :: entries).lookup key =
      if key = other then some rule else entries.lookup key := by
  rw [List.lookup_cons]
  by_cases h : key = other
  · rw [if_pos h, beq_iff_eq.mpr h]
  · rw [if_neg h, beq_eq_false_iff_ne.mpr h]

/-- Adding a rule changes the rule of its name and no other. -/
theorem lookup_insertEntry {name key : String} {rule : Rule} {entries : List (String × Rule)} :
    (insertEntry name rule entries).lookup key =
      if key = name then some rule else entries.lookup key := by
  induction entries with
  | nil => exact lookup_cons_eq_ite
  | cons entry entries ih =>
    obtain ⟨other, otherRule⟩ := entry
    rw [insertEntry]
    by_cases hlt : name < other
    · rw [if_pos hlt, lookup_cons_eq_ite]
    rw [if_neg hlt, lookup_cons_eq_ite]
    by_cases hname : name = other
    · -- The rule that the name had goes.
      rw [if_pos hname, lookup_cons_eq_ite, hname]
      split_ifs <;> rfl
    · rw [if_neg hname, lookup_cons_eq_ite, ih]
      by_cases hkey : key = name
      · rw [if_pos hkey, if_neg (hkey ▸ hname), if_pos hkey]
      · rw [if_neg hkey, if_neg hkey]

theorem rule?_insert (book : RuleBook) (name key : String) (rule : Rule) :
    (book.insert name rule).rule? key = if key = name then some rule else book.rule? key :=
  lookup_insertEntry

/-- If every name is added with the same rule each time, it has that rule afterwards. -/
theorem rule?_foldl_insert {given : String → Option Rule} {key : String}
    {rules : List (String × Rule)} (h : ∀ entry ∈ rules, given entry.1 = some entry.2) :
    ∀ book : RuleBook, (rules.foldl (fun book entry => book.insert entry.1 entry.2) book).rule? key =
      if key ∈ rules.map Prod.fst then given key else book.rule? key := by
  induction rules with
  | nil => exact fun _ => rfl
  | cons entry rules ih =>
    intro book
    rw [List.foldl_cons, ih fun entry hentry => h entry (List.mem_cons_of_mem _ hentry),
      rule?_insert, List.map_cons]
    by_cases hkey : key = entry.1
    · rw [if_pos hkey, hkey, if_pos List.mem_cons_self, h entry List.mem_cons_self, ite_self]
    · simp only [List.mem_cons, hkey, false_or, if_false]

end RuleBook

/-! ### Names that are refused -/

/-- The name could not be told apart from a variant or from layout. -/
def IsUnusable (name : String) : Prop :=
  name = "" ∨ '<' ∈ name.toList ∨ '>' ∈ name.toList ∨ ∃ c ∈ name.toList, Text.isBlank c = true

/-- Why a name is refused under the given rules: for how it is written, and else because it has no
rule. -/
inductive Refuses (book : RuleBook) (name : String) : TableError → Prop where
  | invalidName (h : IsUnusable name) : Refuses book name (.invalidName name)
  | unknownName (h : ¬ IsUnusable name) (hrule : book.rule? name = none) :
    Refuses book name (.unknownName name)

/-- The cause for which a name is refused, if it is. -/
def refusal? (book : RuleBook) (name : String) : Option TableError :=
  if !Table.isValidName name then some (.invalidName name)
  else if (book.rule? name).isNone then some (.unknownName name)
  else none

theorem isValidName_eq_false_iff {name : String} :
    Table.isValidName name = false ↔ IsUnusable name := by
  rw [Table.isValidName, Bool.and_eq_false_iff, decide_eq_false_iff_not, not_not, List.all_eq_false]
  refine or_congr_right ⟨?_, ?_⟩
  · rintro ⟨c, hc, hbad⟩
    by_cases hopen : c = '<'
    · exact .inl (hopen ▸ hc)
    by_cases hclose : c = '>'
    · exact .inr (.inl (hclose ▸ hc))
    · exact .inr (.inr ⟨c, hc, by simpa [hopen, hclose] using hbad⟩)
  · rintro (hc | hc | ⟨c, hc, hblank⟩)
    · exact ⟨'<', hc, by simp⟩
    · exact ⟨'>', hc, by simp⟩
    · exact ⟨c, hc, by simp [hblank]⟩

theorem refusal?_eq_some_iff {name : String} :
    refusal? book name = some cause ↔ Refuses book name cause := by
  unfold refusal?
  cases hvalid : Table.isValidName name with
  | false =>
    have hunusable := isValidName_eq_false_iff.mp hvalid
    constructor
    · rintro ⟨rfl⟩
      exact .invalidName hunusable
    · rintro (⟨-⟩ | ⟨h, -⟩)
      · rfl
      · exact absurd hunusable h
  | true =>
    have husable : ¬ IsUnusable name := by
      rw [← isValidName_eq_false_iff, hvalid]
      exact Bool.noConfusion
    cases hrule : book.rule? name with
    | none =>
      constructor
      · rintro ⟨rfl⟩
        exact .unknownName husable hrule
      · rintro (⟨h⟩ | -)
        · exact absurd h husable
        · rfl
    | some rule =>
      refine iff_of_false (fun h => by cases h) ?_
      rintro (⟨h⟩ | ⟨-, h⟩)
      · exact husable h
      · rw [hrule] at h
        cases h

/-- A name that is not refused has a rule. -/
theorem exists_rule_of_refusal?_eq_none {name : String} (h : refusal? book name = none) :
    ∃ rule, book.rule? name = some rule := by
  unfold refusal? at h
  split_ifs at h with _ hrule
  rw [Option.isNone_iff_eq_none] at hrule
  exact Option.ne_none_iff_exists'.mp hrule

/-! ### Tables -/

/-- **The first name that is refused decides**; without one, every name is listed with its rule. -/
theorem selectRules_eq (book : RuleBook) (names : List String) :
    Table.selectRules book names =
      match names.findSome? (refusal? book) with
      | some cause => .error cause
      | none => .ok (names.filterMap fun name => (book.rule? name).map (name, ·)) := by
  induction names with
  | nil => rfl
  | cons name names ih =>
    rw [Table.selectRules, List.findSome?_cons, refusal?]
    cases Table.isValidName name with
    | false => rfl
    | true =>
      cases hrule : book.rule? name with
      | none => rfl
      | some rule =>
        simp only [Bool.not_true, Bool.false_eq_true, if_false, Option.isNone_some, ih,
          List.filterMap_cons, hrule, Option.map_some]
        cases names.findSome? (refusal? book) <;> rfl

namespace Table

theorem build_eq (names : List String) (book : RuleBook) (emptyLabel : String) :
    build names book emptyLabel =
      match names.findSome? (refusal? book) with
      | some cause => .error cause
      | none => .ok ⟨Names.ofList names,
          RuleBook.ofList (names.filterMap fun name => (book.rule? name).map (name, ·)),
          emptyLabel⟩ := by
  rw [build, selectRules_eq]
  cases names.findSome? (refusal? book) <;> rfl

/-- A list of names is refused for the first name that is refused. -/
theorem build_eq_error_iff : build names book emptyLabel = .error cause ↔
    ∃ before name after, names = before ++ name :: after ∧ Refuses book name cause ∧
      ∀ earlier ∈ before, ∀ cause, ¬ Refuses book earlier cause := by
  have herror : build names book emptyLabel = .error cause ↔
      names.findSome? (refusal? book) = some cause := by
    rw [build_eq]
    cases names.findSome? (refusal? book) <;> simp
  rw [herror, List.findSome?_eq_some_iff]
  simp only [Option.eq_none_iff_forall_ne_some, ne_eq, refusal?_eq_some_iff]

/-- A list of names is accepted if all names can be used and have rules. -/
theorem exists_build_eq_ok_iff : (∃ table, build names book emptyLabel = .ok table) ↔
    ∀ name ∈ names, ¬ IsUnusable name ∧ ∃ rule, book.rule? name = some rule := by
  have hnone : (∃ table, build names book emptyLabel = .ok table) ↔
      names.findSome? (refusal? book) = none := by
    rw [build_eq]
    cases names.findSome? (refusal? book) <;> simp
  rw [hnone, List.findSome?_eq_none_iff]
  refine forall₂_congr fun name _ => ⟨fun h => ⟨fun hunusable => ?_, ?_⟩, ?_⟩
  · rw [refusal?_eq_some_iff.mpr (.invalidName hunusable)] at h
    cases h
  · exact exists_rule_of_refusal?_eq_none h
  · rintro ⟨husable, rule, hrule⟩
    rw [Option.eq_none_iff_forall_ne_some]
    intro cause hcause
    cases refusal?_eq_some_iff.mp hcause with
    | invalidName hunusable => exact husable hunusable
    | unknownName _ hnone => rw [hrule] at hnone; cases hnone

variable {table : Table}

theorem names_of_build (h : build names book emptyLabel = .ok table) :
    table.names = Names.ofList names := by
  rw [build_eq] at h
  cases hrefused : names.findSome? (refusal? book) with
  | some cause => rw [hrefused] at h; cases h
  | none =>
    rw [hrefused] at h
    obtain rfl := Except.ok.inj h
    rfl

/-- **A listed name has the rule that was given for it**. -/
theorem rule?_of_build (h : build names book emptyLabel = .ok table) {name : String}
    (hname : name ∈ names) : ∃ rule, book.rule? name = some rule ∧ table.rule? name = some rule := by
  obtain ⟨-, rule, hrule⟩ := exists_build_eq_ok_iff.mp ⟨table, h⟩ name hname
  refine ⟨rule, hrule, ?_⟩
  rw [build_eq] at h
  cases hrefused : names.findSome? (refusal? book) with
  | some cause => rw [hrefused] at h; cases h
  | none =>
    rw [hrefused] at h
    obtain rfl := Except.ok.inj h
    -- Every entry repeats a given rule, and there is one for the name.
    have hgiven : ∀ entry ∈ names.filterMap (fun name => (book.rule? name).map (name, ·)),
        book.rule? entry.1 = some entry.2 := by
      intro entry hentry
      obtain ⟨other, -, hother⟩ := List.mem_filterMap.mp hentry
      obtain ⟨otherRule, hotherRule, rfl⟩ := Option.map_eq_some_iff.mp hother
      exact hotherRule
    have hmem : name ∈ (names.filterMap fun name => (book.rule? name).map (name, ·)).map Prod.fst := by
      have hentry : (book.rule? name).map (name, ·) = some (name, rule) := by
        rw [hrule, Option.map_some]
      exact List.mem_map.mpr ⟨(name, rule), List.mem_filterMap.mpr ⟨name, hname, hentry⟩, rfl⟩
    rw [Table.rule?, RuleBook.ofList, RuleBook.rule?_foldl_insert hgiven, if_pos hmem, hrule]

/-- The slot of a placeholder has the span of its rule. -/
theorem exists_ofText_eq_ofSpan {text name : String} {rule : Rule}
    (h : (kindOfText table.names text).name? = some name) (hrule : table.rule? name = some rule) :
    ∃ binding?, Slot.ofText table text = .ofSpan binding? rule.span := by
  unfold Slot.ofText
  cases hkind : kindOfText table.names text with
  | bare found =>
    rw [hkind] at h
    obtain rfl := Option.some.inj h
    exact ⟨none, by simp only [hrule, Option.map_some, Option.getD_some]⟩
  | numbered found variant =>
    rw [hkind] at h
    obtain rfl := Option.some.inj h
    exact ⟨some text, by simp only [hrule, Option.map_some, Option.getD_some]⟩
  | _ => rw [hkind] at h; cases h

/-- The table answers for the names of a list, with the given rules. -/
structure Serves (table : Table) (names : List String) (book : RuleBook) : Prop where
  /-- What a token is read as is listed, and its rule is the given one. -/
  rule_of_text : ∀ {text name}, (kindOfText table.names text).name? = some name →
    name ∈ names ∧ ∃ rule, book.rule? name = some rule ∧ table.rule? name = some rule
  /-- Candidates of a node are held against the given rule. -/
  holds_of_node : ∀ {query name}, (table.kind query).name? = some name →
    name ∈ names ∧ ∃ rule, book.rule? name = some rule ∧
      ∀ candidate, table.ruleHolds name candidate = rule.condition.holds candidate
  /-- Tokens are aligned by the span of the given rule. -/
  slot_of_text : ∀ {text name}, (kindOfText table.names text).name? = some name →
    ∃ rule binding?, book.rule? name = some rule ∧
      Slot.ofText table text = .ofSpan binding? rule.span

theorem serves_of_build (h : build names book emptyLabel = .ok table) :
    table.Serves names book := by
  have hrule : ∀ {text name}, (kindOfText table.names text).name? = some name →
      name ∈ names ∧ ∃ rule, book.rule? name = some rule ∧ table.rule? name = some rule := by
    intro text name hname
    have hmem : name ∈ names := by
      rw [← Names.mem_ofList, ← names_of_build h]
      exact mem_of_kindOfText hname
    exact ⟨hmem, rule?_of_build h hmem⟩
  refine ⟨hrule, fun hname => ?_, fun hname => ?_⟩
  · obtain ⟨hmem, rule, hgiven, hfound⟩ := hrule (name?_of_kindOfNode hname)
    refine ⟨hmem, rule, hgiven, fun candidate => ?_⟩
    rw [ruleHolds, hfound, Option.any_some]
  · obtain ⟨-, rule, hgiven, hfound⟩ := hrule hname
    obtain ⟨binding?, hslot⟩ := exists_ofText_eq_ofSpan hname hfound
    exact ⟨rule, binding?, hgiven, hslot⟩

/-- **Names and rules agree.**  A list of names is refused exactly if some name on it cannot be used
or has no rule, and the cause is that of the first such name.  Any other list gives a table that has
the given rule for whatever it reads a token or a node as. -/
theorem build_refuses_or_serves (names : List String) (book : RuleBook) (emptyLabel : String) :
    ((∃ cause, build names book emptyLabel = .error cause) ↔
      ∃ name ∈ names, IsUnusable name ∨ book.rule? name = none) ∧
    (∀ cause, build names book emptyLabel = .error cause ↔
      ∃ before name after, names = before ++ name :: after ∧ Refuses book name cause ∧
        ∀ earlier ∈ before, ∀ cause, ¬ Refuses book earlier cause) ∧
    ∀ table, build names book emptyLabel = .ok table → table.Serves names book := by
  refine ⟨?_, fun cause => build_eq_error_iff, fun table => serves_of_build⟩
  have herror : (∃ cause, build names book emptyLabel = .error cause) ↔
      ¬ ∃ table, build names book emptyLabel = .ok table := by
    cases build names book emptyLabel <;> simp
  rw [herror, exists_build_eq_ok_iff]
  simp only [not_forall, not_and_or, not_not, not_exists, ← ne_eq, ← Option.eq_none_iff_forall_ne_some,
    exists_prop]

/-- Of two names, one ends in the other, and one is listed twice; of two names that are refused, the
first is reported. -/
theorem sample_build :
    ∃ table, build ["OP", "binOP", "OP"] .default "block" = .ok table ∧
      (kindOfText table.names "binOP<OP<1>>").name? = some "binOP" ∧
      table.Serves ["OP", "binOP", "OP"] .default ∧
      build ["OP", "a b", "STR"] .default "block" = .error (.invalidName "a b") := by
  have hbuild : build ["OP", "binOP", "OP"] .default "block" =
      .ok ⟨⟨["binOP", "OP"]⟩, ⟨[("OP", ⟨.labelled ["binary_operators", "assign_operators"], .single⟩),
        ("binOP", ⟨.labelled ["binary_operators"], .single⟩)]⟩, "block"⟩ := by decide
  have hunusable : IsUnusable "a b" := .inr (.inr (.inr ⟨' ', by decide, by decide⟩))
  have husable : ¬ IsUnusable "OP" := by
    rw [← isValidName_eq_false_iff]
    decide
  refine ⟨_, hbuild, by decide, (build_refuses_or_serves _ _ _).2.2 _ hbuild, ?_⟩
  refine ((build_refuses_or_serves _ _ _).2.1 _).mpr ⟨["OP"], _, ["STR"], rfl, .invalidName hunusable, ?_⟩
  intro earlier hearlier cause hrefuses
  obtain rfl := List.mem_singleton.mp hearlier
  cases hrefuses with
  | invalidName h => exact husable h
  | unknownName _ h => exact absurd h (by decide)

end Table

end ChangeQuery.Placeholder
