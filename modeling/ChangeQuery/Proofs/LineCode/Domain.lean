import ChangeQuery.LineCode
import Mathlib.Data.List.Infix
import Mathlib.Tactic.Common

/-!
## The domain of the line code

Every line is what its own reading is written as, so reading takes no two lines to one change.  The
changes that come back from their lines are therefore exactly those that are read from some line.
Dollar signs are read in pairs from the left, so a dollar sign that is left over in a change has neither
another one nor a line feed behind it.  This is all that is asked of a change.

* `isReadable_decodeChars`: what is read from a line.
* `decodeChars_encodeChars`: a change that fulfils this comes back.
* `lineCode_domain`: both directions, for texts.
-/

namespace ChangeQuery.LineCode

variable {c : Char} {cs : List Char}

/-- No dollar sign stands directly in front of another one or of a line feed. -/
def IsReadable (cs : List Char) : Prop :=
  ¬ ['$', '$'] <:+: cs ∧ ¬ ['$', '\n'] <:+: cs

theorem isReadable_nil : IsReadable [] := by
  simp [IsReadable]

/-- The pairs of neighbours are the first two characters and those behind the first one. -/
theorem isReadable_cons_iff : IsReadable (c :: cs) ↔
    (c = '$' → ∀ d ∈ cs.head?, d ≠ '$' ∧ d ≠ '\n') ∧ IsReadable cs := by
  have hpair : ∀ d, ['$', d] <+: c :: cs ↔ c = '$' ∧ cs.head? = some d := by
    intro d
    cases cs with
    | nil => simp [List.cons_prefix_cons]
    | cons e es => simp [List.cons_prefix_cons, eq_comm]
  have hhead : (∀ d ∈ cs.head?, d ≠ '$' ∧ d ≠ '\n') ↔
      cs.head? ≠ some '$' ∧ cs.head? ≠ some '\n' := by
    cases cs <;> simp
  simp only [IsReadable, List.infix_cons_iff, hpair, hhead]
  tauto

/-! ### The first character -/

/-- What is read from a line begins as the line does, unless that is with a dollar sign. -/
theorem head?_decodeChars (h : cs.head? ≠ some '$') : (decodeChars cs).head? = cs.head? := by
  cases cs with
  | nil => rfl
  | cons c cs =>
    have hc : c ≠ '$' := by simpa using h
    rw [decodeChars_cons fun heq => absurd heq hc]
    rfl

/-- A change begins as its line does, unless that is with a line feed. -/
theorem head?_encodeChars (h : cs.head? ≠ some '\n') : (encodeChars cs).head? = cs.head? := by
  cases cs with
  | nil => rfl
  | cons c cs =>
    have hc : c ≠ '\n' := by simpa using h
    rw [encodeChars, if_neg hc]
    rfl

/-! ### Both directions -/

/-- **What is read from a line** has no dollar sign in front of another one, since those are read as a
pair, nor in front of a line feed, since that was read from a pair that begins further left. -/
theorem isReadable_decodeChars (h : '\n' ∉ cs) : IsReadable (decodeChars cs) := by
  fun_induction decodeChars cs with
  | case1 cs ih =>
    have hcs : '\n' ∉ cs := by simp_all
    exact isReadable_cons_iff.mpr ⟨fun heq => absurd heq (by decide), ih hcs⟩
  | case2 c cs hpair ih =>
    have hcs : '\n' ∉ cs := fun hmem => h (List.mem_cons_of_mem _ hmem)
    refine isReadable_cons_iff.mpr ⟨fun hdollar d hd => ?_, ih hcs⟩
    have hfirst : cs.head? ≠ some '$' := by
      intro hhead
      obtain ⟨ds, rfl⟩ := List.head?_eq_some_iff.mp hhead
      exact hpair ds hdollar rfl
    rw [head?_decodeChars hfirst] at hd
    constructor
    · rintro rfl
      exact hfirst hd
    · rintro rfl
      exact hcs (List.mem_of_mem_head? hd)
  | case3 => exact isReadable_nil

/-- **A readable change comes back**: no dollar sign of it is taken for the half of a pair. -/
theorem decodeChars_encodeChars (h : IsReadable cs) : decodeChars (encodeChars cs) = cs := by
  induction cs with
  | nil => rfl
  | cons c cs ih =>
    obtain ⟨hnext, hrest⟩ := isReadable_cons_iff.mp h
    by_cases hline : c = '\n'
    · rw [encodeChars, if_pos hline, decodeChars, ih hrest, hline]
    · have hfirst : c = '$' → (encodeChars cs).head? ≠ some '$' := by
        intro hdollar hhead
        have hbreak : cs.head? ≠ some '\n' := fun hd => (hnext hdollar _ hd).2 rfl
        rw [head?_encodeChars hbreak] at hhead
        exact (hnext hdollar _ hhead).1 rfl
      rw [encodeChars, if_neg hline, decodeChars_cons hfirst, ih hrest]

/-- The changes that come back from their lines. -/
theorem decodeChars_encodeChars_iff : decodeChars (encodeChars cs) = cs ↔ IsReadable cs := by
  constructor
  · intro h
    rw [← h]
    exact isReadable_decodeChars (newline_notMem_encodeChars cs)
  · exact decodeChars_encodeChars

/-- **The domain of the line code.**  A written change is one line.  It comes back exactly if it has
neither two dollar signs in a row nor a dollar sign in front of a line feed.  Every line is what its own
reading is written as. -/
theorem lineCode_domain (change line : String) :
    '\n' ∉ (encode change).toList ∧
      (decode (encode change) = change ↔
        ¬ "$$".toList <:+: change.toList ∧ ¬ "$\n".toList <:+: change.toList) ∧
      ('\n' ∉ line.toList → encode (decode line) = line) := by
  refine ⟨?_, ?_, fun hline => ?_⟩
  · rw [encode, String.toList_ofList]
    exact newline_notMem_encodeChars _
  · have hback : decode (encode change) = change ↔
        decodeChars (encodeChars change.toList) = change.toList := by
      rw [decode, encode, String.toList_ofList, ← String.toList_inj, String.toList_ofList]
    exact hback.trans decodeChars_encodeChars_iff
  · rw [encode, decode, String.toList_ofList, encodeChars_decodeChars hline, String.ofList_toList]

/-- The last of three dollar signs in a row is read as itself and written as itself. -/
theorem lineCode_domain_dollars :
    '\n' ∉ "$$ $$$".toList ∧ encode (decode "$$ $$$") = "$$ $$$" := by
  have hline : '\n' ∉ "$$ $$$".toList := by decide
  exact ⟨hline, (lineCode_domain "" "$$ $$$").2.2 hline⟩

end ChangeQuery.LineCode
