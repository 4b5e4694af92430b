import ChangeQuery.Text.Split
import Mathlib.Tactic.Common

/-!
## Lines written and read

A text that is written line by line, a line feed behind every line, is read as the same number of
lines.  Each comes back as it was, except that a carriage return at its end is lost: reading takes it
for a part of the line end.

* `fields_flatMap_append`: cutting at the separators that stand between fields.
* `lines_flatMap`: the lines of a text that was written line by line.
-/

namespace ChangeQuery.Text

variable {separator : Char} {field : List Char}

/-- The fields are those of the general splitting of lists. -/
theorem fields_eq_splitOn (separator : Char) (cs : List Char) :
    fields separator cs = cs.splitOn separator := by
  induction cs with
  | nil => rw [fields, List.splitOn_nil]
  | cons c cs ih =>
    rw [List.splitOn_cons_eq_if_modifyHead, fields, ih]
    by_cases hc : c = separator
    · rw [if_pos hc, if_pos (by simpa using hc)]
    · rw [if_neg hc, if_neg (by simpa using hc)]
      cases h : cs.splitOn separator with
      | nil => exact absurd h (List.splitOn_ne_nil separator cs)
      | cons field others => rfl

/-- A text without the separator is a single field. -/
theorem fields_of_notMem (h : separator ∉ field) : fields separator field = [field] := by
  rw [fields_eq_splitOn, List.splitOn_eq_singleton h]

/-- The field in front of the first separator. -/
theorem fields_append_cons (h : separator ∉ field) (rest : List Char) :
    fields separator (field ++ separator :: rest) = field :: fields separator rest := by
  rw [fields_eq_splitOn, fields_eq_splitOn, List.splitOn_append_cons_self_of_not_mem h]

/-- Fields with a separator behind each of them but the last. -/
theorem fields_flatMap_append {parts : List (List Char)} (h : ∀ part ∈ parts, separator ∉ part)
    (hfield : separator ∉ field) :
    fields separator (parts.flatMap (· ++ [separator]) ++ field) = parts ++ [field] := by
  induction parts with
  | nil => exact fields_of_notMem hfield
  | cons part parts ih =>
    have hpart := h part List.mem_cons_self
    have hparts : ∀ part ∈ parts, separator ∉ part :=
      fun part hpart => h part (List.mem_cons_of_mem _ hpart)
    rw [List.flatMap_cons, List.append_assoc, List.append_assoc, List.singleton_append,
      fields_append_cons hpart, ih hparts, List.cons_append]

/-- **A text written line by line** is read as the same lines, less a carriage return at the end of
each. -/
theorem lines_flatMap {ls : List (List Char)} (h : ∀ line ∈ ls, '\n' ∉ line) :
    lines (ls.flatMap (· ++ ['\n'])) = ls.map dropReturn := by
  have hterminated : terminatedLines (ls.flatMap (· ++ ['\n'])) = (ls.map dropReturn, []) := by
    rw [terminatedLines, ← List.append_nil (ls.flatMap _), fields_flatMap_append h List.not_mem_nil]
    simp
  rw [lines, hterminated]
  rfl

/-- A line that does not end in a carriage return is read as it is. -/
theorem dropReturn_of_ne {line : List Char} (h : line.getLast? ≠ some '\r') :
    dropReturn line = line :=
  if_neg h

@[simp] theorem dropReturn_append_return (line : List Char) :
    dropReturn (line ++ ['\r']) = line := by
  simp [dropReturn]

end ChangeQuery.Text
