import ChangeQuery.Text.Printable
import ChangeQuery.Tree

/-!
## Quoted text

The written form of labels in reports: in double quotes, with a backslash before quotes and
backslashes, short escapes for the usual controls, and the code point in hexadecimal digits for every
other character that has no shape of its own.  Single quotes stand for themselves.
-/

namespace ChangeQuery.Text

/-- The digits of a number in base sixteen, lowercase and without leading zeros. -/
def hexDigits (n : Nat) : List Char :=
  Nat.toDigits 16 n

/-- How one character is written between double quotes. -/
def quoteChar (c : Char) : List Char :=
  if c = '"' ∨ c = '\\' then ['\\', c]
  else if c = '\n' then ['\\', 'n']
  else if c = '\r' then ['\\', 'r']
  else if c = '\t' then ['\\', 't']
  else if c.toNat = 0 then ['\\', '0']
  else if isPlain c then [c]
  else ['\\', 'u', '\x7b'] ++ hexDigits c.toNat ++ ['\x7d']

/-- The text between double quotes. -/
def quote (text : String) : String :=
  String.ofList ('"' :: text.toList.flatMap quoteChar ++ ['"'])

example : quote "a \"b\"\n" = "\"a \\\"b\\\"\\n\"" := by decide

end ChangeQuery.Text

namespace ChangeQuery

/-- A short account of a node: its number, its label, and how many children it has. -/
def Node.describe (n : Node) : String :=
  "NodeRef \x7b id: " ++ toString n.id ++ ", label: " ++ Text.quote n.label ++ ", children: " ++
    toString n.children.length ++ " \x7d"

end ChangeQuery
