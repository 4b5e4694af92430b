/-!
## Splitting text

Cutting a text at a separator: at the first occurrence of a string (`splitFirst?`), at every
occurrence of a character (`fields`), and at line ends (`lines`).

A line ends at a line feed; one carriage return directly before the line feed belongs to the line
end, and an unterminated last line is kept as it is.

`append_of_splitFirst?` says that the two parts around the separator give the text back.
-/

namespace ChangeQuery.Text

/-- The text before and the text after the first occurrence of `separator`. -/
def splitFirst? (separator : List Char) : List Char → Option (List Char × List Char)
  | [] => (separator.isPrefixOf? []).map fun rest => ([], rest)
  | c :: cs =>
    match separator.isPrefixOf? (c :: cs) with
    | some rest => some ([], rest)
    | none => (splitFirst? separator cs).map fun parts => (c :: parts.1, parts.2)

/-- The texts between the occurrences of `separator`; there is always at least one. -/
def fields (separator : Char) : List Char → List (List Char)
  | [] => [[]]
  | c :: cs =>
    if c = separator then [] :: fields separator cs
    else match fields separator cs with
      | [] => [[c]]
      | field :: others => (c :: field) :: others

/-- The text without one carriage return at its end. -/
def dropReturn (line : List Char) : List Char :=
  if line.getLast? = some '\r' then line.dropLast else line

/-- The terminated lines of a text, line ends removed, and what follows the last line feed. -/
def terminatedLines (cs : List Char) : List (List Char) × List Char :=
  let parts := fields '\n' cs
  (parts.dropLast.map dropReturn, parts.getLast?.getD [])

/-- The lines of a text: the terminated ones and an unterminated last one, if any. -/
def lines (cs : List Char) : List (List Char) :=
  let (complete, rest) := terminatedLines cs
  if rest.isEmpty then complete else complete ++ [rest]

example : lines "a\r\nb\n\nc\r".toList = [['a'], ['b'], [], ['c', '\r']] := by decide

/-! ### Prefixes -/

section Prefixes

variable (c d : Char) (cs ds : List Char)

@[simp] theorem nil_isPrefixOf? : [].isPrefixOf? cs = some cs := by
  cases cs <;> rfl

@[simp] theorem cons_isPrefixOf?_nil : (c :: cs).isPrefixOf? [] = none := rfl

@[simp] theorem cons_isPrefixOf?_cons :
    (c :: cs).isPrefixOf? (d :: ds) = if c == d then cs.isPrefixOf? ds else none := rfl

end Prefixes

theorem isPrefixOf?_append (text rest : List Char) :
    text.isPrefixOf? (text ++ rest) = some rest := by
  induction text with
  | nil => exact nil_isPrefixOf? rest
  | cons c text ih => rw [List.cons_append, cons_isPrefixOf?_cons, if_pos BEq.rfl, ih]

/-! ### The parts give the text back -/

theorem eq_append_of_isPrefixOf? {separator cs rest : List Char}
    (h : separator.isPrefixOf? cs = some rest) : cs = separator ++ rest := by
  induction separator generalizing cs with
  | nil => simpa using h
  | cons s separator ih =>
    cases cs with
    | nil => simp at h
    | cons c cs =>
      rw [cons_isPrefixOf?_cons] at h
      split at h
      · rename_i heq
        rw [ih h, eq_of_beq heq, List.cons_append]
      · exact absurd h (by simp)

/-- **Splitting at the first occurrence loses nothing**: the parts around the separator give the
text back. -/
theorem append_of_splitFirst? {separator cs before after : List Char}
    (h : splitFirst? separator cs = some (before, after)) :
    before ++ separator ++ after = cs := by
  induction cs generalizing before after with
  | nil =>
    obtain ⟨rest, hrest, heq⟩ := Option.map_eq_some_iff.mp h
    obtain ⟨rfl, rfl⟩ := Prod.mk.inj heq
    simpa using (eq_append_of_isPrefixOf? hrest).symm
  | cons c cs ih =>
    simp only [splitFirst?] at h
    split at h
    · rename_i rest hrest
      obtain ⟨rfl, rfl⟩ := Prod.mk.inj (Option.some.inj h)
      simpa using (eq_append_of_isPrefixOf? hrest).symm
    · obtain ⟨⟨b, a⟩, hparts, heq⟩ := Option.map_eq_some_iff.mp h
      obtain ⟨rfl, rfl⟩ := Prod.mk.inj heq
      simpa using ih hparts

theorem fields_ne_nil (separator : Char) (cs : List Char) : fields separator cs ≠ [] := by
  cases cs with
  | nil => simp [fields]
  | cons c cs =>
    simp only [fields]
    split
    · simp
    · split <;> simp

end ChangeQuery.Text
