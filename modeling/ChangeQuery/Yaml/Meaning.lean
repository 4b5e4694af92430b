import ChangeQuery.Decimal.Notation
import ChangeQuery.Yaml.Value

/-!
## What plain text means

A plain scalar stands for nothing, a truth value or a number if it is written like one, and otherwise
for its text.  Texts in quotes and blocks stand for themselves, unless a tag says more.

Whole numbers are decimal, or have a base after `0x`, `0o` or `0b`; several digits that begin with
zero are no number.
-/

namespace ChangeQuery.Yaml

/-- The texts that stand for nothing. -/
def isNull (text : List Char) : Bool :=
  ["null".toList, "Null".toList, "NULL".toList, "~".toList].contains text

/-- The truth value that a text stands for. -/
def truth? (text : List Char) : Option Bool :=
  if ["true".toList, "True".toList, "TRUE".toList].contains text then some true
  else if ["false".toList, "False".toList, "FALSE".toList].contains text then some false
  else none

/-- Several digits that begin with zero, perhaps after a sign. -/
def isPaddedNumber (text : List Char) : Bool :=
  let digits := (Decimal.splitSign text).2
  2 ≤ digits.length && digits.head? == some '0' && digits.all Char.isDigit

/-- Takes a plus sign off a text. -/
def dropPlus (text : List Char) : List Char :=
  if text.head? == some '+' then text.drop 1 else text

/-- The number below `limit` that a text without sign writes, the base told by its first two
characters. -/
def magnitude? (limit : Nat) (text : List Char) : Option Nat :=
  let n? := match text with
    | '0' :: 'x' :: digits => Text.numberOfDigits? 16 digits
    | '0' :: 'o' :: digits => Text.numberOfDigits? 8 digits
    | '0' :: 'b' :: digits => Text.numberOfDigits? 2 digits
    | digits => if isPaddedNumber digits then none else Text.numberOfDigits? 10 digits
  n?.filter (· < limit)

/-- The natural number below `limit` that a text writes. -/
def natural? (limit : Nat) (text : List Char) : Option Nat :=
  magnitude? limit (dropPlus text)

/-- The whole number that a text writes, if 128 bits suffice for it. -/
def whole? (text : List Char) : Option Int :=
  match text with
  | '-' :: magnitude => (magnitude? ((1 <<< 127) + 1) magnitude).map fun n => -Int.ofNat n
  | _ => (natural? (1 <<< 128) text).map Int.ofNat

/-- The number that a text writes; besides finite numbers, there are infinite ones and the undefined
number. -/
def float? (text : List Char) : Option Float :=
  let unsigned := dropPlus text
  if unsigned.length < text.length && (unsigned.head? == some '+' || unsigned.head? == some '-') then
    none
  else if [".inf".toList, ".Inf".toList, ".INF".toList].contains unsigned then some (1 / 0)
  else if ["-.inf".toList, "-.Inf".toList, "-.INF".toList].contains text then some (-1 / 0)
  else if [".nan".toList, ".NaN".toList, ".NAN".toList].contains text then some (0 / 0)
  else floatOfNotation? unsigned

/-- What a scalar stands for. -/
inductive Meaning where
  | nothing
  | truth (b : Bool)
  | whole (n : Int)
  | real
  | text
  deriving DecidableEq, Repr

/-- What plain text stands for. -/
def Meaning.ofText (text : List Char) : Meaning :=
  if text.isEmpty || isNull text then .nothing
  else
    match truth? text, whole? text with
    | some b, _ => .truth b
    | none, some n => .whole n
    | none, none => if !isPaddedNumber text && (float? text).isSome then .real else .text

/-! ### Tags -/

/-- The tag of a common type. -/
def commonTag (name : String) : String :=
  "tag:yaml.org,2002:" ++ name

/-- The name of a tag of the document's own. -/
def ownTag? : Option String → Option String
  | some tag =>
    match tag.toList with
    | ['!'] => some "!"
    | '!' :: name => some (String.ofList name)
    | _ => none
  | none => none

/-- What a scalar stands for; refused if its tag asks for something else, or is not one of the common
types. -/
def Meaning.ofScalar? (tag? : Option String) (style : ScalarStyle) (text : List Char) :
    Option Meaning :=
  match tag? with
  | none => some (if style == .plain then ofText text else .text)
  | some tag =>
    if tag == commonTag "bool" then (truth? text).map .truth
    else if tag == commonTag "int" then (whole? text).map .whole
    else if tag == commonTag "float" then (float? text).map fun _ => .real
    else if tag == commonTag "null" then if isNull text then some .nothing else none
    else if (ownTag? tag).isSome then none
    else some .text

/-- The text of a scalar of which a value of a common type is expected: it is plain, or a block with
the tag of that type. -/
def textOfType? (name : String) : Value → Option (List Char)
  | .scalar tag? style text =>
    if style == .plain || (style == .literal && tag? == some (commonTag name)) then some text.toList
    else none
  | _ => none

example : Meaning.ofText "0x1F".toList = .whole 31 ∧ Meaning.ofText "017".toList = .text ∧
    Meaning.ofText "yes".toList = .text := by decide

end ChangeQuery.Yaml
