import ChangeQuery.Proofs.Alignment.Search

/-!
## The search by positions

`walk` goes along lists of slots and tokens.  The same search can go along positions: a call stands at a
slot and at a token of a side, the least numbers of tokens for all slots from a position on are laid down
in a list beforehand, and the bindings are one list that grows at its end and is cut back after a
failure.  Then numbers are subtracted, elements are read and spans are taken all the time, and nothing in
the way this is written says that the numbers do not become negative and that the elements are there.

Here each of these operations is checked (`subtract`, `readAt`, `writeAt`, `spanAt`), the depth of calls is
limited, and every call is recorded when it returns.  The slots and tokens before a place belong to the
side as long as enough tokens are left for the slots behind it; each step keeps this.

* `stepAt_right`: what one call does if the calls that it makes do the right thing.
* `walkAt_right`: all calls do the right thing if they may be nested deeply enough.
* `exists_searchAt`: the search never fails, finds what `aligns` finds, and records only calls within the
  sides that leave the bindings alone unless they succeed.
-/

namespace ChangeQuery.Alignment

open Placeholder (Table)

/-! ### Checked operations -/

/-- Why the search cannot go on. -/
inductive Fault where
  /-- A number was subtracted from a smaller one. -/
  | underflow
  /-- Something was read or written behind the end of a list. -/
  | outOfRange
  /-- The calls were nested too deeply. -/
  | tooDeep
  deriving DecidableEq, Repr

/-- The difference of two numbers, unless it is negative. -/
def subtract (m n : ℕ) : Except Fault ℕ :=
  if n ≤ m then .ok (m - n) else .error .underflow

/-- The element at a position. -/
def readAt {α : Type} (l : List α) (i : ℕ) : Except Fault α :=
  match l[i]? with
  | some a => .ok a
  | none => .error .outOfRange

/-- The list with another element at a position. -/
def writeAt {α : Type} (l : List α) (i : ℕ) (a : α) : Except Fault (List α) :=
  if i < l.length then .ok (l.set i a) else .error .outOfRange

/-- The elements from `start` up to but not including `stop`. -/
def spanAt {α : Type} (l : List α) (start stop : ℕ) : Except Fault (List α) :=
  if start ≤ stop ∧ stop ≤ l.length then .ok ((l.drop start).take (stop - start))
  else .error .outOfRange

section

variable {α : Type} {l : List α} {a : α} {i m n : ℕ}

/-- What stands from a position on begins with the element at the position. -/
theorem drop_of_getElem? (h : l[i]? = some a) : l.drop i = a :: l.drop (i + 1) := by
  obtain ⟨hlt, rfl⟩ := List.getElem?_eq_some_iff.mp h
  exact List.drop_eq_getElem_cons hlt

theorem subtract_of_le (h : n ≤ m) : subtract m n = .ok (m - n) :=
  if_pos h

theorem readAt_of_getElem? (h : l[i]? = some a) : readAt l i = .ok a := by
  rw [readAt, h]

theorem writeAt_of_lt (h : i < l.length) : writeAt l i a = .ok (l.set i a) :=
  if_pos h

theorem spanAt_of_le (h : i + n ≤ l.length) : spanAt l i (i + n) = .ok ((l.drop i).take n) := by
  rw [spanAt, if_pos ⟨Nat.le_add_right i n, h⟩, Nat.add_sub_cancel_left]

end

/-! ### Sides -/

/-- A side of the query and the candidate.  `needs` holds the least number of tokens that the slots from
each position on take together. -/
structure Lane where
  slots : List Slot
  tokens : List String
  needs : List ℕ

/-- Lays down the numbers for the first `i` slots, from the last of these to the first. -/
def fillNeeds (slots : List Slot) : ℕ → List ℕ → Except Fault (List ℕ)
  | 0, needs => .ok needs
  | i + 1, needs => do
    let after ← readAt needs (i + 1)
    let slot ← readAt slots i
    let needs ← writeAt needs i (after + slot.least)
    fillNeeds slots i needs

/-- A side, with no slots behind the last. -/
def Lane.make (slots : List Slot) (tokens : List String) : Except Fault Lane := do
  let needs ← fillNeeds slots slots.length (List.replicate (slots.length + 1) 0)
  return ⟨slots, tokens, needs⟩

/-- What the slots from a position on need. -/
def needFrom (slots : List Slot) (i : ℕ) : ℕ :=
  totalDemand (demands (slots.drop i))

theorem needFrom_length (slots : List Slot) : needFrom slots slots.length = 0 := by
  rw [needFrom, List.drop_length]
  rfl

theorem demands_drop {slots : List Slot} {slot : Slot} {i : ℕ} (h : slots[i]? = some slot) :
    demands (slots.drop i) = ⟨slot, needFrom slots (i + 1)⟩ :: demands (slots.drop (i + 1)) := by
  rw [drop_of_getElem? h]
  rfl

theorem needFrom_of_getElem? {slots : List Slot} {slot : Slot} {i : ℕ} (h : slots[i]? = some slot) :
    needFrom slots i = slot.least + needFrom slots (i + 1) := by
  rw [needFrom, demands_drop h]
  rfl

/-- The numbers of a side are what its slots need. -/
def Lane.Ready (lane : Lane) : Prop :=
  ∀ i ≤ lane.slots.length, lane.needs[i]? = some (needFrom lane.slots i)

/-- **The loop**: if the numbers from position `i` on are right, then those before are filled in. -/
theorem exists_fillNeeds {slots : List Slot} : ∀ {i : ℕ} {needs : List ℕ}, i ≤ slots.length →
    needs.length = slots.length + 1 →
    (∀ j, i ≤ j → j ≤ slots.length → needs[j]? = some (needFrom slots j)) →
    ∃ filled, fillNeeds slots i needs = .ok filled ∧
      ∀ j ≤ slots.length, filled[j]? = some (needFrom slots j) := by
  intro i
  induction i with
  | zero => exact fun _ _ hneeds => ⟨_, rfl, fun j => hneeds j (Nat.zero_le j)⟩
  | succ i ih =>
    intro needs hi hlength hneeds
    have hlt : i < needs.length := by omega
    obtain ⟨slot, hslot⟩ : ∃ slot, slots[i]? = some slot := ⟨_, List.getElem?_eq_getElem hi⟩
    have hstep : fillNeeds slots (i + 1) needs =
        fillNeeds slots i (needs.set i (needFrom slots i)) := by
      rw [fillNeeds, readAt_of_getElem? (hneeds (i + 1) (Nat.le_refl _) hi), readAt_of_getElem? hslot,
        needFrom_of_getElem? hslot, Nat.add_comm slot.least]
      exact congrArg (· >>= fillNeeds slots i) (writeAt_of_lt hlt)
    rw [hstep]
    refine ih (by omega) (by rw [List.length_set, hlength]) fun j hij hj => ?_
    rw [List.getElem?_set]
    by_cases heq : i = j
    · rw [if_pos heq, if_pos hlt, heq]
    · rw [if_neg heq]
      exact hneeds j (by omega) hj

/-- **Sides can be made**, with the right numbers. -/
theorem exists_make (slots : List Slot) (tokens : List String) :
    ∃ needs, Lane.make slots tokens = .ok ⟨slots, tokens, needs⟩ ∧
      Lane.Ready ⟨slots, tokens, needs⟩ := by
  have hlast : ∀ j, slots.length ≤ j → j ≤ slots.length →
      (List.replicate (slots.length + 1) 0)[j]? = some (needFrom slots j) := by
    intro j hle hge
    obtain rfl := Nat.le_antisymm hge hle
    rw [needFrom_length, List.getElem?_replicate, if_pos (Nat.lt_succ_self _)]
  obtain ⟨needs, hfill, hready⟩ := exists_fillNeeds (Nat.le_refl _) List.length_replicate hlast
  exact ⟨needs, by rw [Lane.make, hfill]; rfl, hready⟩

/-! ### The search -/

/-- Where a call stands. -/
structure Place where
  side : ℕ
  slot : ℕ
  position : ℕ
  deriving DecidableEq, Repr

/-- Behind a slot that took `count` tokens. -/
def Place.next (p : Place) (count : ℕ) : Place :=
  ⟨p.side, p.slot + 1, p.position + count⟩

/-- At the beginning of the next side. -/
def Place.nextSide (p : Place) : Place :=
  ⟨p.side + 1, 0, 0⟩

/-- A call that returned, with the bindings before and after it. -/
structure Call where
  place : Place
  before : Bindings
  answer : Bool
  after : Bindings
  deriving DecidableEq, Repr

/-- What a call returns, with the calls that were made on the way. -/
structure Outcome where
  answer : Bool
  bindings : Bindings
  calls : List Call
  deriving DecidableEq, Repr

/-- The call fails at once. -/
def Outcome.no (bindings : Bindings) : Outcome :=
  ⟨false, bindings, []⟩

/-- Takes the last binding away, unless the call succeeded. -/
def Outcome.release (o : Outcome) : Outcome :=
  if o.answer then o else { o with bindings := o.bindings.dropLast }

/-- Adds the call itself. -/
def Outcome.record (p : Place) (before : Bindings) (o : Outcome) : Outcome :=
  { o with calls := o.calls ++ [⟨p, before, o.answer, o.bindings⟩] }

/-- Lets a hole take `count` tokens.  If its key is bound, these must be the same tokens; if not, it is
bound at the end of the bindings, and set free again after a failure. -/
def takeAt (go : Place → Bindings → Except Fault Outcome) (lane : Lane) (p : Place)
    (key? : Option String) (count : ℕ) (bindings : Bindings) : Except Fault Outcome := do
  let taken ← spanAt lane.tokens p.position (p.position + count)
  match key? with
  | none => go (p.next count) bindings
  | some key =>
    match bindings.lookup key with
    | some bound => if bound = taken then go (p.next count) bindings else return .no bindings
    | none => (go (p.next count) (bindings ++ [(key, taken)])).map Outcome.release

/-- Tries numbers of tokens in turn until one succeeds. -/
def tryEach (attempt : ℕ → Bindings → Except Fault Outcome) :
    List ℕ → Bindings → Except Fault Outcome
  | [], bindings => .ok (.no bindings)
  | count :: counts, bindings => do
    let first ← attempt count bindings
    if first.answer then return first
    else
      let rest ← tryEach attempt counts first.bindings
      return { rest with calls := first.calls ++ rest.calls }

/-- Lays the slot of a place, or goes on to the next side behind the last slot.  There are `left` tokens
from the place on, which are enough. -/
def layAt (go : Place → Bindings → Except Fault Outcome) (lane : Lane) (p : Place) (left : ℕ)
    (bindings : Bindings) : Option Slot → Except Fault Outcome
  | none =>
    if p.position = lane.tokens.length then go p.nextSide bindings else .ok (.no bindings)
  | some (.literal text) => do
    let token ← readAt lane.tokens p.position
    if token = text then go (p.next 1) bindings else .ok (.no bindings)
  | some (.hole key? least most?) => do
    let after ← readAt lane.needs (p.slot + 1)
    let available ← subtract left after
    let most := (most?.map fun most => min most available).getD available
    tryEach (takeAt go lane p key?) (List.range' least (most + 1 - least)) bindings

/-- What a call does.  It makes further calls with `go`. -/
def stepAt (go : Place → Bindings → Except Fault Outcome) (lanes : List Lane) (p : Place)
    (bindings : Bindings) : Except Fault Outcome :=
  match lanes[p.side]? with
  | none => .ok ⟨true, bindings, []⟩
  | some lane => do
    let left ← subtract lane.tokens.length p.position
    let need ← readAt lane.needs p.slot
    if left < need then .ok (.no bindings)
    else layAt go lane p left bindings lane.slots[p.slot]?

/-- Calls that are nested at most `depth` deep.  Every call is recorded when it returns. -/
def walkAt (lanes : List Lane) : ℕ → Place → Bindings → Except Fault Outcome
  | 0, _, _ => .error .tooDeep
  | depth + 1, p, bindings =>
    (stepAt (walkAt lanes depth) lanes p bindings).map (Outcome.record p bindings)

/-- Aligns both sides of a query with a candidate, by positions. -/
def searchAt (depth : ℕ) (table : Table) (query candidate : TokenSides) : Except Fault Outcome := do
  let old ← Lane.make (slotsOf table query.old) candidate.old
  let new ← Lane.make (slotsOf table query.new) candidate.new
  walkAt [old, new] depth ⟨0, 0, 0⟩ []

/-! ### What is expected of a call -/

/-- Aligns the sides one after another under common bindings. -/
def alignLanes : List Lane → Bindings → Bool
  | [], _ => true
  | lane :: lanes, bindings => walk (demands lane.slots) lane.tokens bindings (alignLanes lanes)

/-- What the search along lists finds from a place on. -/
def answerAt (lanes : List Lane) (p : Place) (bindings : Bindings) : Bool :=
  match lanes.drop p.side with
  | [] => true
  | lane :: later =>
    walk (demands (lane.slots.drop p.slot)) (lane.tokens.drop p.position) bindings (alignLanes later)

/-- The deepest nesting of calls along some sides. -/
def depthOf : List Lane → ℕ
  | [] => 1
  | lane :: lanes => lane.slots.length + 1 + depthOf lanes

/-- The deepest nesting of calls from a place on. -/
def depthAt (lanes : List Lane) (p : Place) : ℕ :=
  match lanes.drop p.side with
  | [] => 1
  | lane :: later => lane.slots.length - p.slot + 1 + depthOf later

/-- The place is on a side or behind all sides, and what is before it belongs to the side. -/
structure Place.Within (p : Place) (lanes : List Lane) : Prop where
  side_le : p.side ≤ lanes.length
  slot_le : ∀ lane, lanes[p.side]? = some lane → p.slot ≤ lane.slots.length
  position_le : ∀ lane, lanes[p.side]? = some lane → p.position ≤ lane.tokens.length

/-- A call at a place within the sides, which leaves the bindings alone if it fails. -/
structure Call.Sound (lanes : List Lane) (c : Call) : Prop where
  within : c.place.Within lanes
  after_eq : c.answer = false → c.after = c.before

/-- The outcome has the expected answer and leaves the bindings alone if it is negative; all calls on the
way were sound. -/
structure Outcome.Right (lanes : List Lane) (answer : Bool) (bindings : Bindings) (o : Outcome) :
    Prop where
  answer_eq : o.answer = answer
  bindings_eq : o.answer = false → o.bindings = bindings
  sound : ∀ c ∈ o.calls, c.Sound lanes

/-- Keys are bound alike. -/
def Bindings.Alike (bindings bindings' : Bindings) : Prop :=
  ∀ key, bindings.lookup key = bindings'.lookup key

/-- Calls at a place have the right outcome, whatever the bindings and in whatever order they are. -/
def RightAt (lanes : List Lane) (go : Place → Bindings → Except Fault Outcome) (p : Place) : Prop :=
  ∀ {bindings bindings' : Bindings}, bindings.Alike bindings' →
    ∃ o, go p bindings = .ok o ∧ o.Right lanes (answerAt lanes p bindings') bindings

section

variable {lanes : List Lane} {lane : Lane} {p : Place} {bindings bindings' : Bindings}
  {go : Place → Bindings → Except Fault Outcome}

theorem Outcome.right_no (bindings : Bindings) : (Outcome.no bindings).Right lanes false bindings :=
  ⟨rfl, fun _ => rfl, fun _ h => absurd h List.not_mem_nil⟩

/-- A binding that was made for a call is taken away again if the call fails. -/
theorem Outcome.Right.release {answer : Bool} {o : Outcome} {binding : String × List String}
    (h : o.Right lanes answer (bindings ++ [binding])) : o.release.Right lanes answer bindings := by
  unfold Outcome.release
  split_ifs with hanswer
  · exact ⟨h.answer_eq, fun hfalse => absurd (hanswer.symm.trans hfalse) (by decide), h.sound⟩
  · refine ⟨h.answer_eq, fun hfalse => ?_, h.sound⟩
    show o.bindings.dropLast = bindings
    rw [h.bindings_eq hfalse, List.dropLast_concat]

/-- A new binding may be put at either end. -/
theorem Bindings.Alike.concat {key : String} (taken : List String)
    (h : bindings.Alike bindings') (hnone : bindings.lookup key = none) :
    Bindings.Alike (bindings ++ [(key, taken)]) ((key, taken) :: bindings') := by
  intro k
  rw [List.lookup_append, List.lookup_cons, List.lookup_cons, ← h k]
  by_cases hk : k = key
  · rw [hk, hnone, beq_self_eq_true]
    rfl
  · rw [beq_eq_false_iff_ne.mpr hk]
    exact Option.or_none

theorem answerAt_of_lane (hlane : lanes[p.side]? = some lane) :
    answerAt lanes p bindings =
      walk (demands (lane.slots.drop p.slot)) (lane.tokens.drop p.position) bindings
        (alignLanes (lanes.drop (p.side + 1))) := by
  rw [answerAt, drop_of_getElem? hlane]

theorem answerAt_nextSide (p : Place) :
    answerAt lanes p.nextSide = alignLanes (lanes.drop (p.side + 1)) := by
  funext bindings
  rw [answerAt, Place.nextSide]
  cases lanes.drop (p.side + 1) <;> rfl

theorem answerAt_next {count : ℕ} (hlane : lanes[p.side]? = some lane) :
    answerAt lanes (p.next count) bindings =
      walk (demands (lane.slots.drop (p.slot + 1))) ((lane.tokens.drop p.position).drop count) bindings
        (alignLanes (lanes.drop (p.side + 1))) := by
  rw [List.drop_drop]
  exact answerAt_of_lane (p := p.next count) hlane

theorem depthAt_pos (lanes : List Lane) (p : Place) : 0 < depthAt lanes p := by
  unfold depthAt
  split <;> omega

theorem depthAt_nextSide_lt (hlane : lanes[p.side]? = some lane) :
    depthAt lanes p.nextSide < depthAt lanes p := by
  have hnext : depthAt lanes p.nextSide = depthOf (lanes.drop (p.side + 1)) := by
    rw [depthAt, Place.nextSide]
    cases lanes.drop (p.side + 1) <;> rfl
  rw [hnext, depthAt, drop_of_getElem? hlane]
  dsimp only
  omega

theorem depthAt_next_lt {slot : Slot} (hlane : lanes[p.side]? = some lane)
    (hslot : lane.slots[p.slot]? = some slot) (count : ℕ) :
    depthAt lanes (p.next count) < depthAt lanes p := by
  obtain ⟨hlt, -⟩ := List.getElem?_eq_some_iff.mp hslot
  rw [depthAt, depthAt, Place.next, drop_of_getElem? hlane]
  dsimp only
  omega

theorem Place.within_nextSide (hlane : lanes[p.side]? = some lane) : p.nextSide.Within lanes where
  side_le := (List.getElem?_eq_some_iff.mp hlane).1
  slot_le := fun _ _ => Nat.zero_le _
  position_le := fun _ _ => Nat.zero_le _

theorem Place.within_next {slot : Slot} {count : ℕ} (hlane : lanes[p.side]? = some lane)
    (hslot : lane.slots[p.slot]? = some slot) (hcount : p.position + count ≤ lane.tokens.length) :
    (p.next count).Within lanes where
  side_le := (List.getElem?_eq_some_iff.mp hlane).1.le
  slot_le := by
    intro lane' hlane'
    obtain rfl := Option.some.inj (hlane.symm.trans hlane')
    exact (List.getElem?_eq_some_iff.mp hslot).1
  position_le := by
    intro lane' hlane'
    obtain rfl := Option.some.inj (hlane.symm.trans hlane')
    exact hcount

/-! ### One call -/

/-- Too few tokens: the search along lists fails at once as well. -/
theorem walk_of_short {slots : List Slot} {tokens : List String} {next : Bindings → Bool}
    (h : tokens.length < totalDemand (demands slots)) :
    walk (demands slots) tokens bindings next = false := by
  cases slots with
  | nil => exact absurd h (Nat.not_lt_zero _)
  | cons slot slots =>
    rw [demands, walk]
    exact if_pos h

/-- A call that is made under a condition only. -/
theorem ite_right {condition : Prop} [Decidable condition] {test answer : Bool}
    {run : Except Fault Outcome} (htest : test = true ↔ condition)
    (hrun : ∃ o, run = .ok o ∧ o.Right lanes answer bindings) :
    ∃ o, (if condition then run else .ok (.no bindings)) = .ok o ∧
      o.Right lanes (test && answer) bindings := by
  by_cases hcondition : condition
  · rw [if_pos hcondition, htest.mpr hcondition, Bool.true_and]
    exact hrun
  · rw [if_neg hcondition, Bool.eq_false_iff.mpr (mt htest.mp hcondition), Bool.false_and]
    exact ⟨.no bindings, rfl, Outcome.right_no bindings⟩

/-- Attempts in turn find what any of them finds. -/
theorem tryEach_right {attempt : ℕ → Bindings → Except Fault Outcome} {answer : ℕ → Bool}
    {counts : List ℕ} (h : ∀ count ∈ counts,
      ∃ o, attempt count bindings = .ok o ∧ o.Right lanes (answer count) bindings) :
    ∃ o, tryEach attempt counts bindings = .ok o ∧ o.Right lanes (counts.any answer) bindings := by
  induction counts with
  | nil => exact ⟨_, rfl, Outcome.right_no bindings⟩
  | cons count counts ih =>
    obtain ⟨hcount, hcounts⟩ := List.forall_mem_cons.mp h
    obtain ⟨first, hfirst, hright⟩ := hcount
    rw [tryEach, hfirst, List.any_cons, ← hright.answer_eq]
    cases hanswer : first.answer with
    | true =>
      refine ⟨first, ?_, hanswer, hright.bindings_eq, hright.sound⟩
      exact if_pos hanswer
    | false =>
      -- The bindings are as before, so the next attempt starts from the same bindings.
      obtain ⟨rest, hrest, hrestRight⟩ := ih hcounts
      refine ⟨{ rest with calls := first.calls ++ rest.calls }, ?_, hrestRight.answer_eq,
        hrestRight.bindings_eq, List.forall_mem_append.mpr ⟨hright.sound, hrestRight.sound⟩⟩
      show (if first.answer = true then _ else _) = _
      rw [if_neg (by rw [hanswer]; exact Bool.false_ne_true), hright.bindings_eq hanswer, hrest]
      rfl

/-- **A hole that takes `count` tokens** finds what the search along lists finds. -/
theorem takeAt_right (key? : Option String) {count : ℕ} (halike : bindings.Alike bindings')
    (hcount : p.position + count ≤ lane.tokens.length) (hgo : RightAt lanes go (p.next count)) :
    ∃ o, takeAt go lane p key? count bindings = .ok o ∧ o.Right lanes
      (match key? with
        | none => answerAt lanes (p.next count) bindings'
        | some key =>
          match bindings'.lookup key with
          | some bound => bound == (lane.tokens.drop p.position).take count &&
              answerAt lanes (p.next count) bindings'
          | none => answerAt lanes (p.next count)
              ((key, (lane.tokens.drop p.position).take count) :: bindings')) bindings := by
  rw [takeAt, spanAt_of_le hcount]
  generalize (lane.tokens.drop p.position).take count = taken
  cases key? with
  | none => exact hgo halike
  | some key =>
    have hlookup' := halike key
    cases hlookup : bindings.lookup key with
    | some bound =>
      rw [hlookup] at hlookup'
      dsimp only
      rw [hlookup, ← hlookup']
      exact ite_right beq_iff_eq (hgo halike)
    | none =>
      rw [hlookup] at hlookup'
      dsimp only
      rw [hlookup, ← hlookup']
      obtain ⟨o, ho, hright⟩ := hgo (halike.concat taken hlookup)
      exact ⟨o.release, congrArg (Except.map Outcome.release) ho, hright.release⟩

/-- Behind the last slot, all tokens must have been taken. -/
theorem layAt_none_right {left : ℕ} (hlane : lanes[p.side]? = some lane)
    (hposition : p.position ≤ lane.tokens.length) (hslot : lane.slots[p.slot]? = none)
    (hgo : RightAt lanes go p.nextSide) (halike : bindings.Alike bindings') :
    ∃ o, layAt go lane p left bindings none = .ok o ∧
      o.Right lanes (answerAt lanes p bindings') bindings := by
  rw [answerAt_of_lane hlane, List.drop_of_length_le (List.getElem?_eq_none_iff.mp hslot), demands,
    walk, ← answerAt_nextSide]
  refine ite_right ?_ (hgo halike)
  rw [List.isEmpty_iff, List.drop_eq_nil_iff]
  omega

/-- A literal finds a token to compare with. -/
theorem layAt_literal_right {text : String} {left : ℕ} (hlane : lanes[p.side]? = some lane)
    (hslot : lane.slots[p.slot]? = some (.literal text))
    (henough : ¬ lane.tokens.length - p.position < needFrom lane.slots p.slot)
    (hgo : ∀ count, p.position + count ≤ lane.tokens.length → RightAt lanes go (p.next count))
    (halike : bindings.Alike bindings') :
    ∃ o, layAt go lane p left bindings (some (.literal text)) = .ok o ∧
      o.Right lanes (answerAt lanes p bindings') bindings := by
  have hneed := needFrom_of_getElem? hslot
  have hlt : p.position < lane.tokens.length := by
    rw [hneed, Slot.least] at henough
    omega
  have hshort : ¬ (lane.tokens.drop p.position).length <
      (Slot.literal text).least + needFrom lane.slots (p.slot + 1) := by
    rwa [List.length_drop, ← hneed]
  rw [layAt, readAt_of_getElem? (List.getElem?_eq_getElem hlt), answerAt_of_lane hlane,
    demands_drop hslot, walk]
  dsimp only
  rw [if_neg hshort, List.drop_eq_getElem_cons hlt]
  generalize lane.tokens[p.position] = token
  dsimp only
  have hnext : walk (demands (lane.slots.drop (p.slot + 1))) (lane.tokens.drop (p.position + 1))
      bindings' (alignLanes (lanes.drop (p.side + 1))) = answerAt lanes (p.next 1) bindings' :=
    (answerAt_of_lane (p := p.next 1) hlane).symm
  rw [hnext]
  exact ite_right beq_iff_eq (hgo 1 hlt halike)

/-- A hole takes spans within the tokens only, and leaves enough tokens for the later slots. -/
theorem layAt_hole_right {key? : Option String} {least : ℕ} {most? : Option ℕ}
    (hlane : lanes[p.side]? = some lane) (hready : lane.Ready)
    (hposition : p.position ≤ lane.tokens.length)
    (hslot : lane.slots[p.slot]? = some (.hole key? least most?))
    (henough : ¬ lane.tokens.length - p.position < needFrom lane.slots p.slot)
    (hgo : ∀ count, p.position + count ≤ lane.tokens.length → RightAt lanes go (p.next count))
    (halike : bindings.Alike bindings') :
    ∃ o, layAt go lane p (lane.tokens.length - p.position) bindings (some (.hole key? least most?)) =
        .ok o ∧
      o.Right lanes (answerAt lanes p bindings') bindings := by
  have hneed := needFrom_of_getElem? hslot
  rw [hneed, Slot.least] at henough
  have hshort : ¬ (lane.tokens.drop p.position).length <
      (Slot.hole key? least most?).least + needFrom lane.slots (p.slot + 1) := by
    rwa [List.length_drop]
  rw [layAt, readAt_of_getElem? (hready (p.slot + 1) (List.getElem?_eq_some_iff.mp hslot).1)]
  show ∃ o, (subtract _ _ >>= _) = _ ∧ _
  rw [subtract_of_le (by omega), answerAt_of_lane hlane, demands_drop hslot, walk]
  dsimp only
  rw [if_neg hshort, List.length_drop]
  refine tryEach_right fun count hcount => ?_
  obtain ⟨-, -, hafter⟩ := (mem_lengths_iff henough).mp hcount
  have hspan : p.position + count ≤ lane.tokens.length := by omega
  have hright := takeAt_right key? halike hspan (hgo count hspan)
  simp only [answerAt_next hlane] at hright
  exact hright

/-- **One call**: if the calls that it makes have the right outcome, then it has the right outcome
itself. -/
theorem stepAt_right (hready : ∀ lane ∈ lanes, lane.Ready) (hwithin : p.Within lanes)
    (hgo : ∀ q : Place, q.Within lanes → depthAt lanes q < depthAt lanes p → RightAt lanes go q) :
    RightAt lanes (stepAt go lanes) p := by
  intro bindings bindings' halike
  cases hlane : lanes[p.side]? with
  | none =>
    -- Both sides have been laid.
    refine ⟨⟨true, bindings, []⟩, by rw [stepAt, hlane], ?_, fun _ => rfl,
      fun _ h => absurd h List.not_mem_nil⟩
    rw [answerAt, List.drop_of_length_le (List.getElem?_eq_none_iff.mp hlane)]
  | some lane =>
    have hslots := hwithin.slot_le lane hlane
    have hposition := hwithin.position_le lane hlane
    have hlaneReady := hready lane (List.mem_of_getElem? hlane)
    have hstep : stepAt go lanes p bindings =
        if lane.tokens.length - p.position < needFrom lane.slots p.slot then .ok (.no bindings)
        else layAt go lane p (lane.tokens.length - p.position) bindings lane.slots[p.slot]? := by
      rw [stepAt, hlane]
      dsimp only
      rw [subtract_of_le hposition, readAt_of_getElem? (hlaneReady p.slot hslots)]
      rfl
    rw [hstep]
    split_ifs with henough
    · refine ⟨.no bindings, rfl, ?_⟩
      rw [answerAt_of_lane hlane, walk_of_short (by rwa [List.length_drop])]
      exact Outcome.right_no bindings
    · cases hslot : lane.slots[p.slot]? with
      | none =>
        exact layAt_none_right hlane hposition hslot
          (hgo _ (Place.within_nextSide hlane) (depthAt_nextSide_lt hlane)) halike
      | some slot =>
        have hnext : ∀ count, p.position + count ≤ lane.tokens.length →
            RightAt lanes go (p.next count) := fun count hcount =>
          hgo _ (Place.within_next hlane hslot hcount) (depthAt_next_lt hlane hslot count)
        cases slot with
        | literal text => exact layAt_literal_right hlane hslot henough hnext halike
        | hole key? least most? =>
          exact layAt_hole_right hlane hlaneReady hposition hslot henough hnext halike

/-! ### All calls -/

/-- The record of a sound call is added to those of the calls on the way. -/
theorem Outcome.Right.record {answer : Bool} {o : Outcome} (h : o.Right lanes answer bindings)
    (hwithin : p.Within lanes) : (o.record p bindings).Right lanes answer bindings where
  answer_eq := h.answer_eq
  bindings_eq := h.bindings_eq
  sound := List.forall_mem_append.mpr
    ⟨h.sound, List.forall_mem_singleton.mpr ⟨hwithin, h.bindings_eq⟩⟩

/-- The record of what a call made ends with the call itself. -/
theorem exists_calls_of_walkAt {depth : ℕ} {o : Outcome}
    (h : walkAt lanes depth p bindings = .ok o) :
    ∃ earlier, o.calls = earlier ++ [⟨p, bindings, o.answer, o.bindings⟩] := by
  cases depth with
  | zero => cases h
  | succ depth =>
    rw [walkAt] at h
    cases hstep : stepAt (walkAt lanes depth) lanes p bindings with
    | error fault =>
      rw [hstep] at h
      cases h
    | ok inner =>
      rw [hstep] at h
      obtain rfl := Except.ok.inj h
      exact ⟨inner.calls, rfl⟩

/-- **All calls** have the right outcome, if they may be nested as deeply as there are slots and sides to
go. -/
theorem walkAt_right (hready : ∀ lane ∈ lanes, lane.Ready) : ∀ {depth : ℕ} {p : Place},
    p.Within lanes → depthAt lanes p ≤ depth → RightAt lanes (walkAt lanes depth) p := by
  intro depth
  induction depth with
  | zero => exact fun _ hdepth => absurd hdepth (Nat.not_le_of_lt (depthAt_pos _ _))
  | succ depth ih =>
    intro p hwithin hdepth bindings bindings' halike
    have hgo : ∀ q : Place, q.Within lanes → depthAt lanes q < depthAt lanes p →
        RightAt lanes (walkAt lanes depth) q := fun q hq hlt => ih hq (by omega)
    obtain ⟨o, ho, hright⟩ := stepAt_right hready hwithin hgo halike
    exact ⟨o.record p bindings, congrArg (Except.map (Outcome.record p bindings)) ho,
      hright.record hwithin⟩

end

/-- The first attempt binds the key to too few tokens and sets it free again. -/
example : walkAt [⟨[.hole (some "ID<1>") 1 none, .literal "x"], ["a", "b", "x"], [2, 1, 0]⟩] 4
      ⟨0, 0, 0⟩ [] =
    .ok ⟨true, [("ID<1>", ["a", "b"])],
      [⟨⟨0, 1, 1⟩, [("ID<1>", ["a"])], false, [("ID<1>", ["a"])]⟩,
       ⟨⟨1, 0, 0⟩, [("ID<1>", ["a", "b"])], true, [("ID<1>", ["a", "b"])]⟩,
       ⟨⟨0, 2, 3⟩, [("ID<1>", ["a", "b"])], true, [("ID<1>", ["a", "b"])]⟩,
       ⟨⟨0, 1, 2⟩, [("ID<1>", ["a", "b"])], true, [("ID<1>", ["a", "b"])]⟩,
       ⟨⟨0, 0, 0⟩, [], true, [("ID<1>", ["a", "b"])]⟩]⟩ := rfl

/-! ### Both sides -/

/-- **The search by positions never fails.**  If calls may be nested as deeply as there are slots on both
sides, and three more for the ends of the sides and the call behind both, then no number becomes negative,
nothing is read or taken outside a list, and the answer is that of the search along lists.  The calls are
recorded, the first one at the end.  Every call stands within the slots and the tokens of its side, and a
call that fails leaves the bindings as they were. -/
theorem exists_searchAt (table : Table) (query candidate : TokenSides) (depth : ℕ)
    (hdepth : query.old.length + query.new.length + 3 ≤ depth) :
    ∃ bindings calls,
      searchAt depth table query candidate =
        .ok ⟨aligns table query candidate, bindings, calls⟩ ∧
      (∃ earlier, calls =
        earlier ++ [⟨⟨0, 0, 0⟩, [], aligns table query candidate, bindings⟩]) ∧
      ∀ call ∈ calls, call.place.side ≤ 2 ∧
        (call.place.side = 0 → call.place.slot ≤ query.old.length ∧
          call.place.position ≤ candidate.old.length) ∧
        (call.place.side = 1 → call.place.slot ≤ query.new.length ∧
          call.place.position ≤ candidate.new.length) ∧
        (call.answer = false → call.after = call.before) := by
  obtain ⟨oldNeeds, hold, holdReady⟩ := exists_make (slotsOf table query.old) candidate.old
  obtain ⟨newNeeds, hnew, hnewReady⟩ := exists_make (slotsOf table query.new) candidate.new
  have hlength : ∀ texts, (slotsOf table texts).length = texts.length := fun _ => List.length_map _
  generalize hlanes : [Lane.mk (slotsOf table query.old) candidate.old oldNeeds,
    Lane.mk (slotsOf table query.new) candidate.new newNeeds] = lanes
  have hready : ∀ lane ∈ lanes, lane.Ready := by
    rw [← hlanes]
    exact List.forall_mem_cons.mpr ⟨holdReady, List.forall_mem_singleton.mpr hnewReady⟩
  have hwithin : (Place.mk 0 0 0).Within lanes :=
    ⟨Nat.zero_le _, fun _ _ => Nat.zero_le _, fun _ _ => Nat.zero_le _⟩
  have hdepth' : depthAt lanes ⟨0, 0, 0⟩ ≤ depth := by
    rw [← hlanes]
    simp only [depthAt, depthOf, List.drop_zero, hlength]
    omega
  obtain ⟨⟨answer, bindings, calls⟩, ho, hright⟩ :=
    walkAt_right hready hwithin hdepth' (fun key => rfl : Bindings.Alike [] [])
  have hanswer : answer = aligns table query candidate :=
    hright.answer_eq.trans (by rw [← hlanes]; rfl)
  refine ⟨bindings, calls, ?_, hanswer ▸ exists_calls_of_walkAt ho, fun call hcall => ?_⟩
  · rw [searchAt, hold, hnew, ← hanswer, ← ho, ← hlanes]
    rfl
  · obtain ⟨hcallWithin, hafter⟩ := hright.sound call hcall
    have hlane : ∀ {side : ℕ} {lane : Lane}, lanes[side]? = some lane → call.place.side = side →
        call.place.slot ≤ lane.slots.length ∧ call.place.position ≤ lane.tokens.length := by
      rintro _ lane hlane rfl
      exact ⟨hcallWithin.slot_le lane hlane, hcallWithin.position_le lane hlane⟩
    rw [← hlength query.old, ← hlength query.new]
    have hfirst : lanes[0]? = some ⟨slotsOf table query.old, candidate.old, oldNeeds⟩ := by
      rw [← hlanes]; rfl
    have hsecond : lanes[1]? = some ⟨slotsOf table query.new, candidate.new, newNeeds⟩ := by
      rw [← hlanes]; rfl
    refine ⟨?_, hlane hfirst, hlane hsecond, hafter⟩
    rw [← hlanes] at hcallWithin
    exact hcallWithin.side_le

/-- A key that is bound on the old side and stands again on the new one. -/
theorem exists_searchAt_renamed : ∃ bindings calls,
    searchAt 6 .default ⟨["ID<1>", "<...>"], ["ID<1>"]⟩ ⟨["a", "b", "c"], ["a"]⟩ =
      .ok ⟨true, bindings, calls⟩ ∧
    ⟨⟨0, 0, 0⟩, [], true, bindings⟩ ∈ calls ∧
    ∀ call ∈ calls, call.answer = false → call.after = call.before := by
  obtain ⟨bindings, calls, hsearch, ⟨earlier, hlast⟩, hcalls⟩ := exists_searchAt .default
    ⟨["ID<1>", "<...>"], ["ID<1>"]⟩ ⟨["a", "b", "c"], ["a"]⟩ 6 (by decide)
  have haligns : aligns .default ⟨["ID<1>", "<...>"], ["ID<1>"]⟩ ⟨["a", "b", "c"], ["a"]⟩ = true := by
    decide
  rw [haligns] at hsearch hlast
  refine ⟨bindings, calls, hsearch, ?_, fun call hcall => (hcalls call hcall).2.2.2⟩
  rw [hlast]
  exact List.mem_append_right _ (List.mem_singleton.mpr rfl)

end ChangeQuery.Alignment
