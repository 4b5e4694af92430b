/-!
## Blank characters

`isBlank` holds of the twenty-five code points with the Unicode property `White_Space`.  It decides
which tokens carry layout only, where a written atom needs quotes, and what `trim` and `words` take
away.  The zero-width space (U+200B), the byte order mark (U+FEFF) and the four information
separators (U+001C to U+001F) are not blank.

* `trim` removes blanks at both ends; `words` are the maximal runs without blanks.
* `flatten_words`: the words one after another are the text without its blanks.
-/

namespace ChangeQuery.Text

/-- The code points of `White_Space` as closed ranges in ascending order. -/
def blankRanges : List (Nat × Nat) :=
  [(0x0009, 0x000D), (0x0020, 0x0020), (0x0085, 0x0085), (0x00A0, 0x00A0), (0x1680, 0x1680),
   (0x2000, 0x200A), (0x2028, 0x2029), (0x202F, 0x202F), (0x205F, 0x205F), (0x3000, 0x3000)]

/-- The character separates words: it has the property `White_Space`. -/
def isBlank (c : Char) : Bool :=
  blankRanges.any fun range => range.1 ≤ c.toNat && c.toNat ≤ range.2

/-- The ranges hold twenty-five code points. -/
example : (blankRanges.map fun range => range.2 - range.1 + 1).sum = 25 := by decide

/-- The characters without the blanks at the front. -/
def trimLeft (cs : List Char) : List Char :=
  cs.dropWhile isBlank

/-- The characters without the blanks at either end. -/
def trim (cs : List Char) : List Char :=
  (trimLeft (trimLeft cs).reverse).reverse

/-- The maximal runs of characters that are not blank, together with the run that reaches to the
front of the text; that run is empty when the text starts with a blank. -/
private def wordsFrom : List Char → List Char × List (List Char)
  | [] => ([], [])
  | c :: cs =>
    let (first, others) := wordsFrom cs
    if isBlank c then ([], if first.isEmpty then others else first :: others)
    else (c :: first, others)

/-- The maximal runs of characters that are not blank, in order. -/
def words (cs : List Char) : List (List Char) :=
  let (first, others) := wordsFrom cs
  if first.isEmpty then others else first :: others

private theorem flatten_wordsFrom (cs : List Char) :
    (wordsFrom cs).1 ++ (wordsFrom cs).2.flatten = cs.filter fun c => !isBlank c := by
  induction cs with
  | nil => rfl
  | cons c cs ih =>
    rw [wordsFrom, List.filter_cons]
    cases hblank : isBlank c with
    | true =>
      -- The run in front of a blank is a word of its own, unless it is empty.
      by_cases hfirst : (wordsFrom cs).1 = []
      · simp [← ih, hfirst]
      · simp [← ih, hfirst]
    | false => simp [← ih]

/-- **Words** hold all characters of a text that are not blank, in their order. -/
theorem flatten_words (cs : List Char) : (words cs).flatten = cs.filter fun c => !isBlank c := by
  rw [← flatten_wordsFrom, words]
  by_cases hfirst : (wordsFrom cs).1 = []
  · simp [hfirst]
  · simp [hfirst]

example : words "  ab c ".toList = ["ab".toList, ['c']] := by decide
example : trim "\t a b\n".toList = "a b".toList := by decide

end ChangeQuery.Text
