import ChangeQuery.Text.Blank
import Mathlib.Data.List.Basic
import Mathlib.Tactic.Common

/-!
## Trimming

Trimming takes the blanks at both ends of a text and leaves what stands between them, blanks inside it
included.

* `trim_append`: a text with blanks around it.
* `trim_of_ends`: a text without blanks at its ends.
-/

namespace ChangeQuery.Text

variable {front cs back : List Char}

/-- Nothing is taken from the front of a text that does not begin with a blank. -/
theorem trimLeft_of_head (h : ∀ c ∈ cs.head?, isBlank c = false) : trimLeft cs = cs := by
  cases cs with
  | nil => rfl
  | cons c cs =>
    rw [trimLeft, List.dropWhile_cons_of_neg]
    rw [h c rfl]
    exact Bool.false_ne_true

theorem trimLeft_append (hfront : ∀ c ∈ front, isBlank c = true) (cs : List Char) :
    trimLeft (front ++ cs) = trimLeft cs :=
  List.dropWhile_append_of_pos hfront

/-- **Blanks around a text** are taken away. -/
theorem trim_append (hfront : ∀ c ∈ front, isBlank c = true) (hback : ∀ c ∈ back, isBlank c = true)
    (hhead : ∀ c ∈ cs.head?, isBlank c = false) (hlast : ∀ c ∈ cs.getLast?, isBlank c = false) :
    trim (front ++ cs ++ back) = cs := by
  have hreverse : ∀ c ∈ back.reverse, isBlank c = true := fun c hc => hback c (List.mem_reverse.mp hc)
  have hend : trimLeft cs.reverse = cs.reverse := trimLeft_of_head (by rwa [List.head?_reverse])
  rw [trim, List.append_assoc, trimLeft_append hfront]
  cases cs with
  | nil =>
    -- Nothing stands between the blanks.
    have hblank := trimLeft_append hback []
    rw [List.append_nil] at hblank
    rw [List.nil_append, hblank]
    rfl
  | cons c cs =>
    have hwhole : trimLeft (c :: cs ++ back) = c :: cs ++ back := trimLeft_of_head hhead
    rw [hwhole, List.reverse_append, trimLeft_append hreverse, hend, List.reverse_reverse]

/-- A text without blanks at its ends is not trimmed. -/
theorem trim_of_ends (hhead : ∀ c ∈ cs.head?, isBlank c = false)
    (hlast : ∀ c ∈ cs.getLast?, isBlank c = false) : trim cs = cs := by
  have htrim := @trim_append [] cs [] (by simp) (by simp) hhead hlast
  simpa using htrim

end ChangeQuery.Text
