import ChangeQuery.Proofs.Text.Lines
import Mathlib.Data.List.Infix

/-!
## First occurrences of words

Splitting at a word takes its first occurrence, also where the word could begin in one part of a text
and end in the next.  Whether it can is seen from a single character: a word does not reach into a part
that lacks its last character, nor does it begin in a part that lacks its first.

* `infix_append_iff_of_last`, `infix_append_iff_of_first`: words that stay within one part.
* `splitFirst?_eq_some_iff_first`, `splitFirst?_eq_none_iff`: splitting at a word takes its first
  occurrence.
* `infix_terminated_iff`: a word in front of a separator stands at the end of a field.
-/

namespace ChangeQuery.Text

variable {word before after cs : List Char} {c separator : Char}

/-! ### Words within parts of a text -/

/-- A word does not reach into a part without its last character. -/
theorem infix_append_iff_of_last (h : c ∉ after) :
    word ++ [c] <:+: before ++ after ↔ word ++ [c] <:+: before := by
  refine ⟨fun hinfix => ?_, fun hinfix => hinfix.trans (List.prefix_append before after).isInfix⟩
  have hlast : c ∈ word ++ [c] := List.mem_append_right word List.mem_cons_self
  rcases List.infix_append_iff.mp hinfix with hbefore | hafter | ⟨front, back, heq, hfront, hback⟩
  · exact hbefore
  · exact absurd (hafter.subset hlast) h
  · -- What stands in the second part ends with the last character, so nothing does.
    cases List.eq_nil_or_concat back with
    | inl hnil =>
      rw [heq, hnil, List.append_nil]
      exact hfront.isInfix
    | inr hconcat =>
      obtain ⟨rest, d, rfl⟩ := hconcat
      rw [List.concat_eq_append, ← List.append_assoc] at heq
      obtain ⟨-, hd⟩ := List.append_inj' heq rfl
      obtain rfl := List.singleton_inj.mp hd
      have hmem : c ∈ after := hback.subset (by simp)
      exact absurd hmem h

/-- A word does not begin in a part without its first character. -/
theorem infix_append_iff_of_first (h : c ∉ before) :
    c :: word <:+: before ++ after ↔ c :: word <:+: after := by
  refine ⟨fun hinfix => ?_, fun hinfix => hinfix.trans (List.suffix_append before after).isInfix⟩
  rcases List.infix_append_iff.mp hinfix with hbefore | hafter | ⟨front, back, heq, hfront, hback⟩
  · exact absurd (hbefore.subset List.mem_cons_self) h
  · exact hafter
  · cases front with
    | nil =>
      rw [heq, List.nil_append]
      exact hback.isInfix
    | cons d front =>
      obtain ⟨rfl, -⟩ := List.cons.inj heq
      exact absurd (hfront.subset List.mem_cons_self) h

/-- A word without the separator stands on one side of it. -/
theorem infix_append_cons_iff (h : separator ∉ word) :
    word <:+: before ++ separator :: after ↔ word <:+: before ∨ word <:+: after := by
  constructor
  · intro hinfix
    rcases List.infix_append_iff.mp hinfix with hbefore | hafter | ⟨front, back, heq, hfront, hback⟩
    · exact .inl hbefore
    · rcases List.infix_cons_iff.mp hafter with hprefix | hinfix
      · cases word with
        | nil => exact .inl List.nil_infix
        | cons d word =>
          obtain ⟨rfl, -⟩ := List.cons_prefix_cons.mp hprefix
          exact absurd List.mem_cons_self h
      · exact .inr hinfix
    · cases back with
      | nil =>
        rw [heq, List.append_nil]
        exact .inl hfront.isInfix
      | cons d back =>
        obtain ⟨rfl, -⟩ := List.cons_prefix_cons.mp hback
        refine absurd ?_ h
        rw [heq]
        exact List.mem_append_right front List.mem_cons_self
  · rintro (hbefore | hafter)
    · exact hbefore.trans (List.prefix_append _ _).isInfix
    · exact hafter.trans ((List.suffix_cons _ _).trans (List.suffix_append _ _)).isInfix

/-! ### Splitting at a word -/

theorem isPrefixOf?_eq_none_iff : word.isPrefixOf? cs = none ↔ ¬ word <+: cs := by
  constructor
  · rintro h ⟨after, rfl⟩
    rw [isPrefixOf?_append] at h
    cases h
  · intro h
    rw [Option.eq_none_iff_forall_ne_some]
    rintro after hafter
    exact h ⟨after, (eq_append_of_isPrefixOf? hafter).symm⟩

/-- A word is split at where it does not occur before. -/
theorem splitFirst?_append_first (h : ¬ word ++ [c] <:+: before ++ word) (after : List Char) :
    splitFirst? (word ++ [c]) (before ++ (word ++ [c] ++ after)) = some (before, after) := by
  induction before with
  | nil =>
    have hprefix := isPrefixOf?_append (word ++ [c]) after
    cases hcs : word ++ [c] ++ after with
    | nil => simp at hcs
    | cons d cs =>
      rw [hcs] at hprefix
      rw [List.nil_append, splitFirst?, hprefix]
  | cons d before ih =>
    rw [List.cons_append, List.infix_cons_iff, not_or] at h
    have hnone : (word ++ [c]).isPrefixOf? (d :: (before ++ (word ++ [c] ++ after))) = none := by
      -- What begins here ends within the first occurrence at the latest.
      rw [isPrefixOf?_eq_none_iff]
      intro hprefix
      refine h.1 (List.prefix_of_prefix_length_le hprefix ⟨c :: after, ?_⟩ ?_)
      · simp
      · simp
    rw [List.cons_append, splitFirst?, hnone]
    simp only [ih h.2, Option.map_some]

/-- **Splitting at a word** takes its first occurrence. -/
theorem splitFirst?_eq_some_iff_first :
    splitFirst? (word ++ [c]) cs = some (before, after) ↔
      before ++ (word ++ [c] ++ after) = cs ∧ ¬ word ++ [c] <:+: before ++ word := by
  constructor
  · intro h
    refine ⟨?_, ?_⟩
    · rw [← List.append_assoc]
      exact append_of_splitFirst? h
    · induction cs generalizing before with
      | nil =>
        obtain ⟨rest, hrest, heq⟩ := Option.map_eq_some_iff.mp h
        have hnil := eq_append_of_isPrefixOf? hrest
        simp at hnil
      | cons d cs ih =>
        rw [splitFirst?] at h
        split at h
        · obtain ⟨rfl, rfl⟩ := Prod.mk.inj (Option.some.inj h)
          rw [List.nil_append]
          intro hinfix
          have hlength := hinfix.length_le
          simp only [List.length_append, List.length_singleton] at hlength
          omega
        · rename_i hnone
          obtain ⟨⟨front, rest⟩, hsplit, heq⟩ := Option.map_eq_some_iff.mp h
          obtain ⟨rfl, rfl⟩ := Prod.mk.inj heq
          have hparts := append_of_splitFirst? hsplit
          rw [List.cons_append, List.infix_cons_iff, not_or]
          refine ⟨fun hprefix => ?_, ih hsplit⟩
          rw [isPrefixOf?_eq_none_iff, ← hparts] at hnone
          refine hnone (List.IsPrefix.trans hprefix ⟨[c] ++ rest, ?_⟩)
          simp
  · rintro ⟨rfl, h⟩
    exact splitFirst?_append_first h after

/-- A text is not split exactly if the word does not occur in it. -/
theorem splitFirst?_eq_none_iff :
    splitFirst? (word ++ [c]) cs = none ↔ ¬ word ++ [c] <:+: cs := by
  induction cs with
  | nil =>
    have hnot : ¬ word ++ [c] <:+: [] := fun hinfix => absurd hinfix.length_le (by simp)
    rw [splitFirst?, Option.map_eq_none_iff, isPrefixOf?_eq_none_iff]
    exact iff_of_true (fun hword => hnot hword.isInfix) hnot
  | cons d cs ih =>
    rw [List.infix_cons_iff, not_or, ← ih, ← isPrefixOf?_eq_none_iff, splitFirst?]
    cases (word ++ [c]).isPrefixOf? (d :: cs) with
    | some rest => simp
    | none => simp

/-! ### Words at the ends of fields -/

/-- A word in front of the first separator is the first field. -/
theorem prefix_terminated_iff (h : separator ∉ word) :
    word ++ [separator] <+: cs ++ [separator] ↔ (fields separator cs).head? = some word := by
  induction cs generalizing word with
  | nil =>
    cases word with
    | nil => simp [fields]
    | cons d word => simp [fields]
  | cons c cs ih =>
    have hne := fields_ne_nil separator cs
    by_cases hc : c = separator
    · cases word with
      | nil => simp [fields, hc]
      | cons d word =>
        have hd : d ≠ c := fun hd => h (by rw [hd, hc]; exact List.mem_cons_self)
        simp [fields, hc, List.cons_prefix_cons, hc ▸ hd]
    · cases hfields : fields separator cs with
      | nil => exact absurd hfields hne
      | cons field others =>
        rw [hfields] at ih
        cases word with
        | nil => simp [fields, hc, hfields, Ne.symm hc]
        | cons d word =>
          rw [List.mem_cons, not_or] at h
          rw [List.cons_append, List.cons_append, List.cons_prefix_cons, ih h.2]
          simp [fields, hc, hfields, eq_comm]

/-- **Words at the ends of fields**: a word stands in front of a separator if some field ends with it. -/
theorem infix_terminated_iff (h : separator ∉ word) :
    word ++ [separator] <:+: cs ++ [separator] ↔ ∃ field ∈ fields separator cs, word <:+ field := by
  induction cs with
  | nil =>
    simp only [fields, List.nil_append, List.mem_singleton, exists_eq_left, List.suffix_nil]
    constructor
    · intro hinfix
      have hlength := hinfix.length_le
      simp at hlength
      exact hlength
    · rintro rfl
      exact List.infix_rfl
  | cons c cs ih =>
    rw [List.cons_append, List.infix_cons_iff, ih, ← List.cons_append, prefix_terminated_iff h]
    by_cases hc : c = separator
    · simp [fields, hc, eq_comm]
    · cases hfields : fields separator cs with
      | nil => exact absurd hfields (fields_ne_nil separator cs)
      | cons field others =>
        simp [fields, hc, hfields, List.suffix_cons_iff, eq_comm, or_assoc]

end ChangeQuery.Text
