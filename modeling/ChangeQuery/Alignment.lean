import ChangeQuery.Change
import ChangeQuery.Placeholder.Table

/-!
## Aligning tokens

The tokens of a query are laid along the tokens of a candidate.  A plain query token must meet its
own text.  Other query tokens are holes: the wildcard takes any number of tokens, the marker of an
empty side none, a placeholder one token or, if it stands for a subtree, one or more.  All tokens of
the candidate must be taken.

A numbered placeholder is bound to the tokens it takes first; wherever it stands again, on either
side, it must take the same tokens.

`walk` tries the possible lengths of every hole in ascending order and goes back when the rest cannot
be aligned.  It leaves enough tokens for the slots that follow, which `Demand.after` counts.
-/

namespace ChangeQuery.Alignment

open Placeholder (Table Kind Span)

/-- What a query token takes from the candidate. -/
inductive Slot where
  /-- One token with this text. -/
  | literal (text : String)
  /-- At least `least` and at most `most?` tokens.  Holes with the same `binding?` take the same
  tokens. -/
  | hole (binding? : Option String) (least : Nat) (most? : Option Nat)
  deriving DecidableEq, Repr

namespace Slot

/-- The least number of tokens that the slot takes. -/
def least : Slot → Nat
  | literal _ => 1
  | hole _ least _ => least

/-- The hole of a placeholder. -/
def ofSpan (binding? : Option String) : Span → Slot
  | .single => hole binding? 1 (some 1)
  | .subtree => hole binding? 1 none

/-- The slot of a query token.  A numbered placeholder is bound under its full text. -/
def ofText (table : Table) (text : String) : Slot :=
  let span (name : String) : Span := ((table.rule? name).map Placeholder.Rule.span).getD .single
  match Placeholder.kindOfText table.names text with
  | .plain => literal text
  | .wildcard => hole none 0 none
  | .empty => hole none 0 (some 0)
  | .bare name => ofSpan none (span name)
  | .numbered name _ => ofSpan (some text) (span name)

end Slot

/-- A slot together with the least number of tokens that the slots behind it take. -/
structure Demand where
  slot : Slot
  after : Nat
  deriving DecidableEq, Repr

/-- The least number of tokens that all slots take together. -/
def totalDemand : List Demand → Nat
  | [] => 0
  | d :: _ => d.slot.least + d.after

/-- Counts behind every slot what the later slots need. -/
def demands : List Slot → List Demand
  | [] => []
  | slot :: slots =>
    let rest := demands slots
    ⟨slot, totalDemand rest⟩ :: rest

/-- The tokens that numbered placeholders were bound to. -/
abbrev Bindings := List (String × List String)

/-- Aligns slots with tokens and hands the bindings on to `next`; the answer tells whether some
alignment satisfies `next`. -/
def walk : List Demand → List String → Bindings → (Bindings → Bool) → Bool
  | [], tokens, bindings, next => tokens.isEmpty && next bindings
  | d :: ds, tokens, bindings, next =>
    if tokens.length < d.slot.least + d.after then false
    else
      match d.slot with
      | .literal text =>
        match tokens with
        | [] => false
        | token :: rest => token == text && walk ds rest bindings next
      | .hole binding? least most? =>
        let available := tokens.length - d.after
        let most := (most?.map fun most => min most available).getD available
        (List.range' least (most + 1 - least)).any fun length =>
          let taken := tokens.take length
          let rest := tokens.drop length
          match binding? with
          | none => walk ds rest bindings next
          | some key =>
            match bindings.lookup key with
            | some bound => bound == taken && walk ds rest bindings next
            | none => walk ds rest ((key, taken) :: bindings) next

/-- The slots of query tokens with their demands. -/
def demandsOf (table : Table) (query : List String) : List Demand :=
  demands (query.map (Slot.ofText table))

/-- Both sides of the query can be aligned with the candidate under common bindings. -/
def aligns (table : Table) (query candidate : TokenSides) : Bool :=
  walk (demandsOf table query.old) candidate.old [] fun bindings =>
    walk (demandsOf table query.new) candidate.new bindings fun _ => true

/-- Both sides of the query repeat the candidate token by token. -/
def repeats (query candidate : TokenSides) : Bool :=
  query.old == candidate.old && query.new == candidate.new

end ChangeQuery.Alignment
