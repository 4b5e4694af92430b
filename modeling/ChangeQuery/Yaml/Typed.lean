import ChangeQuery.Yaml.Meaning

/-!
## Values of known types

Taking a value for one of a known type.  A value of another type is refused; a place where nothing is
written can be taken for an empty mapping and an empty sequence, and what must be a text can be any
scalar.
-/

namespace ChangeQuery.Yaml.Value

/-- The text of a scalar. -/
def text? : Value → Option String
  | .scalar _ _ text => some text
  | _ => none

/-- Nothing is written in this place. -/
def isEmpty : Value → Bool
  | .scalar _ .plain text => text.isEmpty
  | _ => false

/-- The elements of a sequence. -/
def items? (v : Value) : Option (List Value) :=
  match v with
  | .sequence _ items => some items
  | _ => if v.isEmpty then some [] else none

/-- The entries of a mapping. -/
def entries? (v : Value) : Option (List (Value × Value)) :=
  match v with
  | .mapping _ entries => some entries
  | _ => if v.isEmpty then some [] else none

/-- The entries of a mapping whose keys are texts. -/
def fields? (v : Value) : Option (List (String × Value)) := do
  (← v.entries?).mapM fun entry => entry.1.text?.map fun key => (key, entry.2)

/-- The entries of a mapping in which each of the known keys stands at most once. -/
def record? (known : List String) (v : Value) : Option (List (String × Value)) := do
  let fields ← v.fields?
  if known.all fun key => fields.countP (·.1 == key) ≤ 1 then some fields else none

/-- A truth value. -/
def truth? (v : Value) : Option Bool :=
  (textOfType? "bool" v).bind Yaml.truth?

/-- A natural number of 64 bits. -/
def natural? (v : Value) : Option Nat :=
  (textOfType? "int" v).bind (Yaml.natural? UInt64.size)

/-- A binary number. -/
def float? (v : Value) : Option Float :=
  (textOfType? "float" v).bind Yaml.float?

/-- The scalar stands for nothing; refused if its tag says so and its text does not. -/
def isNothing? : Value → Option Bool
  | .scalar tag? .plain text =>
    match tag? with
    | none => some (text.isEmpty || isNull text.toList)
    | some tag =>
      if tag == commonTag "null" then if isNull text.toList then some true else none
      else some false
  | _ => some false

/-- Takes a value for one of a type, unless it stands for nothing. -/
def optional? {α : Type} (read : Value → Option α) (v : Value) : Option (Option α) := do
  if ← v.isNothing? then some none else (read v).map some

/-- Takes the elements of a sequence for values of a type. -/
def list? {α : Type} (read : Value → Option α) (v : Value) : Option (List α) := do
  (← v.items?).mapM read

/-- The name of a choice: a text, or the tag of a value that stands for nothing. -/
def choice? : Value → Option String
  | .scalar tag? style text =>
    match ownTag? tag? with
    | none => some text
    | some name =>
      if style == .plain && (text.isEmpty || isNull text.toList) then some name else none
  | _ => none

/-- Everything in the value is a scalar, a sequence or a mapping of a common type, whole numbers have
64 bits, and the nesting is not deeper than the bound. -/
def isCommon : Nat → Value → Bool
  | _, .scalar tag? style text =>
    match Meaning.ofScalar? tag? style text.toList with
    | some (.whole n) => -(2 ^ 63) ≤ n && n < 2 ^ 64
    | some _ => true
    | none => false
  | depth + 1, .sequence tag? items => (ownTag? tag?).isNone && items.all (isCommon depth)
  | depth + 1, .mapping tag? entries =>
    (ownTag? tag?).isNone && entries.all fun e => isCommon depth e.1 && isCommon depth e.2
  | _, _ => false

/-- What a scalar of a common type stands for. -/
def meaning? : Value → Option Meaning
  | .scalar tag? style text => Meaning.ofScalar? tag? style text.toList
  | _ => none

/-- The text of a scalar that stands for its text. -/
def properText? (v : Value) : Option String :=
  if v.meaning? == some .text then v.text? else none

end ChangeQuery.Yaml.Value
