import ChangeQuery.Tree

/-!
## Parsing expressions

A parsing expression says how to read a piece of text: choices are ordered, repetitions take as much
as they can, and nothing once read is read differently later.  Expressions also say what they leave
behind: `leaf` a token with the text read, `branch` a construct above what its body left.

A sequence is read *tightly*, its parts directly after one another, or *spaced*, with layout allowed
in between.  Layout before a part that reads nothing stays read; layout after the last round of a
repetition is given back.

`Grammar.parse` runs an expression.  It takes a bound on the depth of its own recursion, which
`Grammar.read?` sets to a multiple of the length of the text.
-/

namespace ChangeQuery

/-- How to read a piece of text.  The rules of the grammar have names in `ρ`. -/
inductive Peg (ρ : Type) where
  /-- Exactly these characters. -/
  | chars (text : List Char)
  /-- One character that is accepted. -/
  | one (accepts : Char → Bool)
  /-- What the rule reads. -/
  | call (rule : ρ)
  /-- One part after the other. -/
  | seq (first second : Peg ρ)
  /-- The first part, or else the second. -/
  | choice (first second : Peg ρ)
  /-- The body as often as it can be read. -/
  | many (body : Peg ρ)
  /-- The body, or nothing. -/
  | option (body : Peg ρ)
  /-- Nothing, where the body could be read. -/
  | followedBy (body : Peg ρ)
  /-- Nothing, where the body could not be read. -/
  | notFollowedBy (body : Peg ρ)
  /-- Nothing, at the end of the text. -/
  | stop
  /-- The body; a token with the text read takes the place of what it left. -/
  | leaf (body : Peg ρ)
  /-- The body; what it left is put below a construct. -/
  | branch (name : String) (body : Peg ρ)
  /-- The body without layout between the parts of a sequence. -/
  | tight (body : Peg ρ)
  /-- The body with layout between the parts of a sequence. -/
  | spaced (body : Peg ρ)

namespace Peg

variable {ρ : Type}

instance : Append (Peg ρ) := ⟨seq⟩

instance : OrElse (Peg ρ) := ⟨fun first second => choice first (second ())⟩

/-- Exactly this text. -/
def text (s : String) : Peg ρ :=
  chars s.toList

/-- Any character. -/
def any : Peg ρ :=
  one fun _ => true

/-- The body at least once. -/
def many1 (body : Peg ρ) : Peg ρ :=
  seq body (many body)

/-- A token, read without layout in it. -/
def token (body : Peg ρ) : Peg ρ :=
  leaf (tight body)

end Peg

/-- What was read: the characters, the trees left behind, and the text that remains. -/
structure Parsed where
  consumed : List Char
  trees : List (Rose Label)
  rest : List Char

namespace Parsed

/-- Nothing was read. -/
def nothing (input : List Char) : Parsed :=
  ⟨[], [], input⟩

/-- One piece read after another. -/
def andThen (first second : Parsed) : Parsed :=
  ⟨first.consumed ++ second.consumed, first.trees ++ second.trees, second.rest⟩

end Parsed

/-- Rules, and the layout that may stand between the parts of a spaced sequence. -/
structure Grammar (ρ : Type) where
  rule : ρ → Peg ρ
  layout : Peg ρ

namespace Grammar

variable {ρ : Type}

mutual
/-- Reads an expression from the front of the input; `spaced` says whether layout may stand between
the parts of a sequence. -/
def parse (g : Grammar ρ) : Nat → Bool → Peg ρ → List Char → Option Parsed
  | 0, _, _, _ => none
  | _ + 1, _, .chars text, input =>
    (text.isPrefixOf? input).map fun rest => ⟨text, [], rest⟩
  | _ + 1, _, .one _, [] => none
  | _ + 1, _, .one accepts, c :: rest => if accepts c then some ⟨[c], [], rest⟩ else none
  | depth + 1, spaced, .call rule, input => parse g depth spaced (g.rule rule) input
  | depth + 1, spaced, .seq first second, input =>
    (parse g depth spaced first input).bind fun a =>
      (gap g depth spaced a.rest).bind fun b =>
        (parse g depth spaced second b.rest).map fun c => a.andThen (b.andThen c)
  | depth + 1, spaced, .choice first second, input =>
    match parse g depth spaced first input with
    | some a => some a
    | none => parse g depth spaced second input
  | depth + 1, spaced, .many body, input =>
    match parse g depth spaced body input with
    | some a => (again g depth spaced body a.rest).map a.andThen
    | none => some (.nothing input)
  | depth + 1, spaced, .option body, input =>
    match parse g depth spaced body input with
    | some a => some a
    | none => some (.nothing input)
  | depth + 1, spaced, .followedBy body, input =>
    (parse g depth spaced body input).map fun _ => .nothing input
  | depth + 1, spaced, .notFollowedBy body, input =>
    match parse g depth spaced body input with
    | some _ => none
    | none => some (.nothing input)
  | _ + 1, _, .stop, input => if input.isEmpty then some (.nothing input) else none
  | depth + 1, spaced, .leaf body, input =>
    (parse g depth spaced body input).map fun a =>
      ⟨a.consumed, [.leaf (.token (String.ofList a.consumed))], a.rest⟩
  | depth + 1, spaced, .branch name body, input =>
    (parse g depth spaced body input).map fun a =>
      ⟨a.consumed, [.node (.construct name) a.trees], a.rest⟩
  | depth + 1, _, .tight body, input => parse g depth false body input
  | depth + 1, _, .spaced body, input => parse g depth true body input

/-- Reads the layout between two parts of a sequence.  Trees left in it are dropped. -/
def gap (g : Grammar ρ) : Nat → Bool → List Char → Option Parsed
  | 0, _, _ => none
  | _ + 1, false, input => some (.nothing input)
  | depth + 1, true, input =>
    (parse g depth false g.layout input).map fun a => ⟨a.consumed, [], a.rest⟩

/-- Reads further rounds of a repetition.  Layout is read before each round, and given back when
the round fails. -/
def again (g : Grammar ρ) : Nat → Bool → Peg ρ → List Char → Option Parsed
  | 0, _, _, _ => none
  | depth + 1, spaced, body, input =>
    match (gap g depth spaced input).bind fun a => (parse g depth spaced body a.rest).map a.andThen with
    | some a => (again g depth spaced body a.rest).map a.andThen
    | none => some (.nothing input)
end

/-- How many steps of recursion are allowed for each character of the text.  No chain of rules that
reads nothing is longer. -/
def depthPerChar : Nat := 1000

/-- The tree that an expression leaves for a text, if it leaves exactly one. -/
def read? (g : Grammar ρ) (start : Peg ρ) (text : String) : Option (Rose Label) :=
  match g.parse (depthPerChar * (text.length + 1)) false start text.toList with
  | some ⟨_, [tree], _⟩ => some tree
  | _ => none

end Grammar

end ChangeQuery
