import ChangeQuery.Alignment
import Mathlib.Algebra.Order.Group.Nat
import Mathlib.Tactic.SplitIfs

/-!
## The search for an alignment is exact

`walk` lays slots along tokens.  It tries the lengths of every hole in turn, goes back when the rest
cannot be laid, and never tries a length that leaves too few tokens for the later slots.  `Laid` says
without any search what it means that slots can be laid along tokens.

* `walk_iff_exists_laid`: the search succeeds exactly when the slots can be laid in a way that
  satisfies what comes after, so neither the bound nor going back loses an alignment.
* `exists_laid_iff_covers`: collecting bindings along the way comes to the same as choosing for every
  key, once and for all, what its holes take.
* `aligns_iff_exists_choice`: the same for both sides of a change.
-/

namespace ChangeQuery.Alignment

open Placeholder (Table)

namespace Slot

/-- The slot can take these tokens, as far as it alone is concerned. -/
def Accepts : Slot → List String → Prop
  | literal text, taken => taken = [text]
  | hole _ least most?, taken => least ≤ taken.length ∧ ∀ most ∈ most?, taken.length ≤ most

/-- The key that ties the slot to other slots. -/
def binding? : Slot → Option String
  | literal _ => none
  | hole binding? _ _ => binding?

theorem Accepts.least_le {slot : Slot} {taken : List String} (h : slot.Accepts taken) :
    slot.least ≤ taken.length := by
  cases slot with
  | literal text =>
    rw [show taken = [text] from h]
    rfl
  | hole binding? least most? => exact h.1

end Slot

/-! ### Laying slots -/

/-- The bindings after a slot with this key took `taken`, unless the key is bound to something
else. -/
def Bindings.bind? (bindings : Bindings) (key? : Option String) (taken : List String) :
    Option Bindings :=
  match key? with
  | none => some bindings
  | some key =>
    match bindings.lookup key with
    | some bound => if bound = taken then some bindings else none
    | none => some ((key, taken) :: bindings)

/-- The slots can be laid along the tokens, one after another and without a rest.  The bindings made
before lead to the bindings made in the end. -/
inductive Laid : List Slot → List String → Bindings → Bindings → Prop
  | nil (bindings : Bindings) : Laid [] [] bindings bindings
  | cons {slot slots taken rest bindings next last} (haccepts : slot.Accepts taken)
      (hbind : bindings.bind? slot.binding? taken = some next) (hrest : Laid slots rest next last) :
      Laid (slot :: slots) (taken ++ rest) bindings last

@[simp] theorem totalDemand_demands_cons (slot : Slot) (slots : List Slot) :
    totalDemand (demands (slot :: slots)) = slot.least + totalDemand (demands slots) := rfl

/-- The demands count the tokens that are taken at least. -/
theorem Laid.totalDemand_le {slots : List Slot} {tokens : List String} {bindings last : Bindings}
    (h : Laid slots tokens bindings last) : totalDemand (demands slots) ≤ tokens.length := by
  induction h with
  | nil => exact Nat.le_refl _
  | cons haccepts _ _ ih =>
    have hleast := haccepts.least_le
    rw [totalDemand_demands_cons, List.length_append]
    omega

/-! ### The search -/

/-- The lengths that are tried are those that the slot accepts and that leave enough tokens. -/
theorem mem_lengths_iff {least after total length : ℕ} {most? : Option ℕ}
    (henough : ¬ total < least + after) :
    length ∈ List.range' least
        ((most?.map fun most => min most (total - after)).getD (total - after) + 1 - least) ↔
      least ≤ length ∧ (∀ most ∈ most?, length ≤ most) ∧ length + after ≤ total := by
  rw [List.mem_range'_1]
  cases most? with
  | none => simp; omega
  | some most => simp; omega

/-- Going on with the search after a slot took `taken`, in the terms of `Bindings.bind?`. -/
theorem walk_bound_iff {key? : Option String} {ds : List Demand} {taken rest : List String}
    {bindings : Bindings} {next : Bindings → Bool} :
    (match key? with
      | none => walk ds rest bindings next
      | some key =>
        match bindings.lookup key with
        | some bound => bound == taken && walk ds rest bindings next
        | none => walk ds rest ((key, taken) :: bindings) next) = true ↔
      ∃ bindings', bindings.bind? key? taken = some bindings' ∧
        walk ds rest bindings' next = true := by
  cases key? with
  | none => simp [Bindings.bind?]
  | some key =>
    cases hlookup : bindings.lookup key with
    | none => simp [Bindings.bind?, hlookup]
    | some bound => by_cases hbound : bound = taken <;> simp [Bindings.bind?, hlookup, hbound]

/-- **One step of the search**: some tokens at the front are accepted by the slot and agree with the
bindings, enough tokens are left, and the search goes on with them. -/
theorem walk_cons_iff {slot : Slot} {slots : List Slot} {tokens : List String}
    {bindings : Bindings} {next : Bindings → Bool} :
    walk (demands (slot :: slots)) tokens bindings next = true ↔
      ∃ taken rest bindings', tokens = taken ++ rest ∧ slot.Accepts taken ∧
        bindings.bind? slot.binding? taken = some bindings' ∧ totalDemand (demands slots) ≤ rest.length ∧
        walk (demands slots) rest bindings' next = true := by
  rw [demands, walk]
  split_ifs with hshort
  · -- Too few tokens are there, whatever the slot takes.
    simp only [false_iff, not_exists, not_and]
    rintro taken rest _ rfl haccepts _ hrest _
    have hleast := haccepts.least_le
    simp only [List.length_append] at hshort
    omega
  · cases slot with
    | literal text =>
      cases tokens with
      | nil => simp [Slot.least] at hshort
      | cons token tokens =>
        simp only [Slot.least, List.length_cons] at hshort
        -- A literal takes the first token and nothing else.
        constructor
        · intro h
          rw [Bool.and_eq_true, beq_iff_eq] at h
          exact ⟨[token], tokens, bindings, rfl, by rw [h.1]; rfl, rfl, by omega, h.2⟩
        · rintro ⟨_, rest, _, heq, rfl, hbind, _, hwalk⟩
          obtain ⟨rfl, rfl⟩ := List.cons.inj heq
          obtain rfl := Option.some.inj hbind
          rw [Bool.and_eq_true]
          exact ⟨beq_self_eq_true _, hwalk⟩
    | hole binding? least most? =>
      simp only [Slot.least] at hshort
      simp only [List.any_eq_true, mem_lengths_iff hshort]
      -- A hole takes some of the tokens at the front, and their number says which.
      constructor
      · rintro ⟨length, ⟨hleast, hmost, hrest⟩, hstep⟩
        obtain ⟨bindings', hbind, hwalk⟩ := walk_bound_iff.mp hstep
        have hlength : (tokens.take length).length = length := by
          rw [List.length_take]; omega
        refine ⟨tokens.take length, tokens.drop length, bindings',
          (List.take_append_drop ..).symm, ⟨?_, ?_⟩, hbind, ?_, hwalk⟩
        · rw [hlength]; exact hleast
        · rw [hlength]; exact hmost
        · rw [List.length_drop]; omega
      · rintro ⟨taken, rest, bindings', rfl, ⟨hleast, hmost⟩, hbind, hrest, hwalk⟩
        refine ⟨taken.length, ⟨hleast, hmost, ?_⟩, walk_bound_iff.mpr ⟨bindings', ?_, ?_⟩⟩
        · rw [List.length_append]; omega
        · rw [List.take_left]; exact hbind
        · rw [List.drop_left]; exact hwalk

/-- **The search is exact**: it succeeds if and only if the slots can be laid along the tokens in a
way that satisfies what comes after. -/
theorem walk_iff_exists_laid {slots : List Slot} {tokens : List String} {bindings : Bindings}
    {next : Bindings → Bool} :
    walk (demands slots) tokens bindings next = true ↔
      ∃ last, Laid slots tokens bindings last ∧ next last = true := by
  induction slots generalizing tokens bindings with
  | nil =>
    rw [demands, walk, Bool.and_eq_true, List.isEmpty_iff]
    constructor
    · rintro ⟨rfl, hnext⟩
      exact ⟨bindings, .nil bindings, hnext⟩
    · rintro ⟨_, h, hnext⟩
      cases h
      exact ⟨rfl, hnext⟩
  | cons slot slots ih =>
    rw [walk_cons_iff]
    constructor
    · rintro ⟨taken, rest, bindings', rfl, haccepts, hbind, _, hwalk⟩
      obtain ⟨last, hlaid, hnext⟩ := ih.mp hwalk
      exact ⟨last, .cons haccepts hbind hlaid, hnext⟩
    · rintro ⟨last, h, hnext⟩
      cases h with
      | cons haccepts hbind hlaid =>
        exact ⟨_, _, _, rfl, haccepts, hbind, hlaid.totalDemand_le, ih.mpr ⟨last, hlaid, hnext⟩⟩

/-! ### Choosing for every key at once -/

/-- The choice is that of the bindings, wherever they bind a key. -/
def Bindings.Respects (bindings : Bindings) (choice : String → List String) : Prop :=
  ∀ key taken, bindings.lookup key = some taken → choice key = taken

/-- The slots can be laid along the tokens so that every slot with a key takes what is chosen for
its key. -/
inductive Covers (choice : String → List String) : List Slot → List String → Prop
  | nil : Covers choice [] []
  | cons {slot slots taken rest} (haccepts : slot.Accepts taken)
      (hchoice : ∀ key ∈ slot.binding?, choice key = taken) (hrest : Covers choice slots rest) :
      Covers choice (slot :: slots) (taken ++ rest)

theorem Covers.append {choice : String → List String} {slots slots' : List Slot}
    {tokens tokens' : List String} (h : Covers choice slots tokens)
    (h' : Covers choice slots' tokens') : Covers choice (slots ++ slots') (tokens ++ tokens') := by
  induction h with
  | nil => exact h'
  | cons haccepts hchoice _ ih =>
    rw [List.append_assoc]
    exact .cons haccepts hchoice ih

theorem respects_nil (choice : String → List String) : Bindings.Respects [] choice := by
  intro key taken h
  cases h

/-- A choice respects the bindings behind a slot exactly when it respects the bindings before the
slot and chooses what the slot took. -/
theorem respects_of_bind? {key? : Option String} {bindings next : Bindings} {taken : List String}
    {choice : String → List String} (hbind : bindings.bind? key? taken = some next) :
    next.Respects choice ↔ bindings.Respects choice ∧ ∀ key ∈ key?, choice key = taken := by
  cases key? with
  | none =>
    obtain rfl := Option.some.inj hbind
    simp
  | some key =>
    simp only [Option.mem_def, Option.some.injEq, forall_eq']
    cases hlookup : bindings.lookup key with
    | some bound =>
      simp only [Bindings.bind?, hlookup] at hbind
      split_ifs at hbind with heq
      obtain rfl := Option.some.inj hbind
      exact ⟨fun h => ⟨h, h key taken (heq ▸ hlookup)⟩, fun h => h.1⟩
    | none =>
      simp only [Bindings.bind?, hlookup, Option.some.injEq] at hbind
      subst hbind
      -- The key was not bound before, so the new binding hides no other.
      constructor
      · intro h
        refine ⟨fun k bound hk => h k bound ?_, h key taken ?_⟩
        · rw [List.lookup_cons]
          by_cases heq : k = key
          · rw [heq, hlookup] at hk
            cases hk
          · rw [beq_eq_false_iff_ne.mpr heq]
            exact hk
        · rw [List.lookup_cons, beq_self_eq_true]
      · rintro ⟨h, htaken⟩ k bound hk
        rw [List.lookup_cons] at hk
        by_cases heq : k = key
        · rw [heq, beq_self_eq_true] at hk
          rw [heq, htaken]
          exact Option.some.inj hk
        · rw [beq_eq_false_iff_ne.mpr heq] at hk
          exact h k bound hk

/-- A slot can take what is chosen for its key, whatever was bound before. -/
theorem exists_bind? {key? : Option String} {bindings : Bindings} {taken : List String}
    {choice : String → List String} (h : bindings.Respects choice)
    (htaken : ∀ key ∈ key?, choice key = taken) :
    ∃ next, bindings.bind? key? taken = some next := by
  cases key? with
  | none => exact ⟨bindings, rfl⟩
  | some key =>
    cases hlookup : bindings.lookup key with
    | none => exact ⟨(key, taken) :: bindings, by simp only [Bindings.bind?, hlookup]⟩
    | some bound =>
      have hbound : bound = taken := (h key bound hlookup).symm.trans (htaken key rfl)
      exact ⟨bindings, by simp only [Bindings.bind?, hlookup, if_pos hbound]⟩

/-- **Bindings and choices**: a choice respects the bindings of some way to lay the slots exactly
when it respects the bindings before and covers the tokens. -/
theorem exists_laid_iff_covers {slots : List Slot} {tokens : List String} {bindings : Bindings}
    {choice : String → List String} :
    (∃ last, Laid slots tokens bindings last ∧ last.Respects choice) ↔
      bindings.Respects choice ∧ Covers choice slots tokens := by
  constructor
  · rintro ⟨last, h, hchoice⟩
    induction h with
    | nil => exact ⟨hchoice, .nil⟩
    | cons haccepts hbind _ ih =>
      -- From the last slot back: the choice respects the bindings behind the slot.
      obtain ⟨hnext, hrest⟩ := ih hchoice
      obtain ⟨hbindings, htaken⟩ := (respects_of_bind? hbind).mp hnext
      exact ⟨hbindings, .cons haccepts htaken hrest⟩
  · rintro ⟨hbindings, h⟩
    induction h generalizing bindings with
    | nil => exact ⟨bindings, .nil bindings, hbindings⟩
    | cons haccepts htaken _ ih =>
      -- From the first slot on: what is chosen can be bound.
      obtain ⟨next, hbind⟩ := exists_bind? hbindings htaken
      obtain ⟨last, hlaid, hlast⟩ := ih ((respects_of_bind? hbind).mpr ⟨hbindings, htaken⟩)
      exact ⟨last, .cons haccepts hbind hlaid, hlast⟩

/-- Any bindings are respected by some choice. -/
theorem exists_respects (bindings : Bindings) : ∃ choice, bindings.Respects choice :=
  ⟨fun key => (bindings.lookup key).getD [], fun _ _ h => by simp only [h, Option.getD_some]⟩

/-- The slots of query tokens. -/
def slotsOf (table : Table) (query : List String) : List Slot :=
  query.map (Slot.ofText table)

/-- **Aligning both sides** succeeds exactly when one choice covers both sides. -/
theorem aligns_iff_exists_choice {table : Table} {query candidate : TokenSides} :
    aligns table query candidate = true ↔
      ∃ choice, Covers choice (slotsOf table query.old) candidate.old ∧
        Covers choice (slotsOf table query.new) candidate.new := by
  simp only [aligns, demandsOf, walk_iff_exists_laid, and_true]
  constructor
  · rintro ⟨middle, hold, last, hnew⟩
    -- Bindings only grow, so a choice that respects the last ones also respects those in the middle.
    obtain ⟨choice, hchoice⟩ := exists_respects last
    obtain ⟨hmiddle, hcovers⟩ := exists_laid_iff_covers.mp ⟨last, hnew, hchoice⟩
    exact ⟨choice, (exists_laid_iff_covers.mp ⟨middle, hold, hmiddle⟩).2, hcovers⟩
  · rintro ⟨choice, hold, hnew⟩
    obtain ⟨middle, hlaid, hmiddle⟩ := exists_laid_iff_covers.mpr ⟨respects_nil choice, hold⟩
    obtain ⟨last, hlaid', _⟩ := exists_laid_iff_covers.mpr ⟨hmiddle, hnew⟩
    exact ⟨middle, hlaid, last, hlaid'⟩

end ChangeQuery.Alignment
