import ChangeQuery.Proofs.Alignment.Search
import Mathlib.Data.List.Forall2

/-!
## Assignments of tokens

What it means that a query aligns with a candidate, in terms of the query tokens alone: every query
token is assigned a run of candidate tokens, the runs make up both sides of the candidate, each token
admits its run, and occurrences of one numbered placeholder are assigned the same run, wherever they
stand.

* `aligns_iff_exists_assignment`: `aligns` accepts exactly the pairs that have such an assignment.
-/

namespace ChangeQuery.Alignment

open Placeholder (Table Kind Span)

/-! ### What a query token admits -/

/-- The number of tokens that a placeholder may take: one if there is no rule for the name. -/
def spanOf (table : Table) (name : String) : Span :=
  ((table.rule? name).map Placeholder.Rule.span).getD .single

/-- The tokens agree with the span. -/
def spanAdmits : Span → List String → Prop
  | .single, taken => taken.length = 1
  | .subtree, taken => 1 ≤ taken.length

/-- A query token of this kind and text can be assigned the tokens. -/
def kindAdmits (table : Table) (text : String) : Kind → List String → Prop
  | .plain, taken => taken = [text]
  | .wildcard, _ => True
  | .empty, taken => taken = []
  | .bare name, taken => spanAdmits (spanOf table name) taken
  | .numbered name _, taken => spanAdmits (spanOf table name) taken

/-- The query token can be assigned the tokens: plain code its own text, the wildcard anything, the
marker of an empty side nothing, a placeholder what its span says. -/
def Admits (table : Table) (text : String) (taken : List String) : Prop :=
  kindAdmits table text (Placeholder.kindOfText table.names text) taken

/-- The text is that of a numbered placeholder. -/
def IsNumbered (table : Table) (text : String) : Prop :=
  ∃ name variant, Placeholder.kindOfText table.names text = .numbered name variant

theorem accepts_ofSpan {binding? : Option String} {span : Span} {taken : List String} :
    (Slot.ofSpan binding? span).Accepts taken ↔ spanAdmits span taken := by
  cases span with
  | single => simp [Slot.ofSpan, Slot.Accepts, spanAdmits]; omega
  | subtree => simp [Slot.ofSpan, Slot.Accepts, spanAdmits]

@[simp] theorem binding?_ofSpan (binding? : Option String) (span : Span) :
    (Slot.ofSpan binding? span).binding? = binding? := by
  cases span <;> rfl

/-- The slot of a query token accepts what the token admits. -/
theorem accepts_ofText {table : Table} {text : String} {taken : List String} :
    (Slot.ofText table text).Accepts taken ↔ Admits table text taken := by
  unfold Slot.ofText Admits
  cases Placeholder.kindOfText table.names text with
  | plain => exact Iff.rfl
  | wildcard => simp [Slot.Accepts, kindAdmits]
  | empty => simp [Slot.Accepts, kindAdmits]
  | bare name => exact accepts_ofSpan
  | numbered name variant => exact accepts_ofSpan

/-- The slot of a query token is tied by the full text, and only if the token is numbered. -/
theorem mem_binding?_ofText {table : Table} {text key : String} :
    key ∈ (Slot.ofText table text).binding? ↔ IsNumbered table text ∧ key = text := by
  unfold Slot.ofText IsNumbered
  cases Placeholder.kindOfText table.names text with
  | plain | wildcard | empty => simp [Slot.binding?]
  | bare name => simp
  | numbered name variant => simp [eq_comm]

/-! ### Assignments -/

/-- The runs `old` and `new` assigned to the query tokens of the two sides make up the candidate. -/
structure IsAssignment (table : Table) (query candidate : TokenSides)
    (old new : List (List String)) : Prop where
  old_admits : List.Forall₂ (Admits table) query.old old
  new_admits : List.Forall₂ (Admits table) query.new new
  old_flatten : old.flatten = candidate.old
  new_flatten : new.flatten = candidate.new
  /-- Occurrences of one numbered placeholder, on either side, are assigned the same run. -/
  numbered : ∀ a ∈ query.old.zip old ++ query.new.zip new,
    ∀ b ∈ query.old.zip old ++ query.new.zip new,
      IsNumbered table a.1 → a.1 = b.1 → a.2 = b.2

/-- Slots of query tokens cover tokens exactly when the tokens are made up of runs that the query
tokens admit and that are chosen for the numbered placeholders. -/
theorem covers_slotsOf_iff {table : Table} {choice : String → List String}
    {query tokens : List String} :
    Covers choice (slotsOf table query) tokens ↔
      ∃ runs, List.Forall₂ (Admits table) query runs ∧ runs.flatten = tokens ∧
        ∀ a ∈ query.zip runs, IsNumbered table a.1 → choice a.1 = a.2 := by
  induction query generalizing tokens with
  | nil =>
    constructor
    · intro h
      cases h
      exact ⟨[], .nil, rfl, by simp⟩
    · rintro ⟨runs, h, rfl, _⟩
      cases h
      exact .nil
  | cons text query ih =>
    constructor
    · intro h
      cases h with
      | cons haccepts hchoice hrest =>
        obtain ⟨runs, hadmits, hflatten, hnumbered⟩ := ih.mp hrest
        refine ⟨_ :: runs, .cons (accepts_ofText.mp haccepts) hadmits, ?_, ?_⟩
        · rw [List.flatten_cons, hflatten]
        · rw [List.zip_cons_cons, List.forall_mem_cons]
          exact ⟨fun h => hchoice text (mem_binding?_ofText.mpr ⟨h, rfl⟩), hnumbered⟩
    · rintro ⟨runs, h, rfl, hnumbered⟩
      cases h with
      | cons hadmits hrest =>
        rw [List.zip_cons_cons, List.forall_mem_cons] at hnumbered
        rw [List.flatten_cons]
        refine .cons (accepts_ofText.mpr hadmits) ?_ (ih.mpr ⟨_, hrest, rfl, hnumbered.2⟩)
        intro key hkey
        obtain ⟨htext, rfl⟩ := mem_binding?_ofText.mp hkey
        exact hnumbered.1 htext

/-- Pairs that agree wherever their first components do come from one choice. -/
theorem exists_choice {pairs : List (String × List String)} {P : String → Prop}
    (h : ∀ a ∈ pairs, ∀ b ∈ pairs, P a.1 → a.1 = b.1 → a.2 = b.2) :
    ∃ choice : String → List String, ∀ a ∈ pairs, P a.1 → choice a.1 = a.2 := by
  refine ⟨fun text => ((pairs.find? fun b => b.1 == text).map Prod.snd).getD [], ?_⟩
  intro a ha hP
  obtain ⟨b, hb⟩ : ∃ b, pairs.find? (fun b => b.1 == a.1) = some b :=
    Option.isSome_iff_exists.mp (List.find?_isSome.mpr ⟨a, ha, beq_self_eq_true a.1⟩)
  have heq : b.1 = a.1 := by simpa using List.find?_some hb
  show ((pairs.find? fun b => b.1 == a.1).map Prod.snd).getD [] = a.2
  rw [hb, Option.map_some, Option.getD_some]
  exact (h a ha b (List.mem_of_find?_eq_some hb) hP heq.symm).symm

/-- **Alignment is assignment**: a query aligns with a candidate if and only if the tokens of both
sides of the candidate can be assigned to the query tokens. -/
theorem aligns_iff_exists_assignment (table : Table) (query candidate : TokenSides) :
    aligns table query candidate = true ↔
      ∃ old new, IsAssignment table query candidate old new := by
  simp only [aligns_iff_exists_choice, covers_slotsOf_iff]
  -- Runs that agree for equal tokens are the same thing as runs that one choice gives.
  constructor
  · rintro ⟨choice, ⟨old, hold, holdFlat, holdChoice⟩, ⟨new, hnew, hnewFlat, hnewChoice⟩⟩
    have hchoice : ∀ a ∈ query.old.zip old ++ query.new.zip new,
        IsNumbered table a.1 → choice a.1 = a.2 := by
      intro a ha
      exact (List.mem_append.mp ha).elim (holdChoice a) (hnewChoice a)
    refine ⟨old, new, hold, hnew, holdFlat, hnewFlat, ?_⟩
    intro a ha b hb hnumbered heq
    rw [← hchoice a ha hnumbered, ← hchoice b hb (heq ▸ hnumbered), heq]
  · rintro ⟨old, new, h⟩
    obtain ⟨choice, hchoice⟩ := exists_choice h.numbered
    exact ⟨choice,
      ⟨old, h.old_admits, h.old_flatten, fun a ha => hchoice a (List.mem_append_left _ ha)⟩,
      ⟨new, h.new_admits, h.new_flatten, fun a ha => hchoice a (List.mem_append_right _ ha)⟩⟩

end ChangeQuery.Alignment
