import ChangeQuery.Proofs.Placeholder.Rules
import Mathlib.Data.List.Nodup
import Mathlib.Data.String.Basic

/-!
## The order of names

Names are tried in a fixed order, longer names first.  Any two names are in this order one way or the
other, so that a list of names can be sorted in one way only: the names of a table are known from what
is listed, in whatever order and however often.

* `eq_or_namePrecedes`: of two names, one is tried before the other.
* `Names.pairwise_ofList`: the names of a table stand in the order in which they are tried.
* `Names.ofList_eq_ofList_iff`: the names of a table depend on which names are listed and on nothing
  else.
-/

namespace ChangeQuery.Placeholder

variable {a b c name : String} {names names' : List String}

/-! ### The order -/

theorem namePrecedes_iff : namePrecedes a b = true ↔
    b.utf8ByteSize < a.utf8ByteSize ∨ a.utf8ByteSize = b.utf8ByteSize ∧ a < b := by
  rw [namePrecedes, Bool.or_eq_true, Bool.and_eq_true, decide_eq_true_iff, beq_iff_eq,
    decide_eq_true_iff]

/-- A name that is tried before another has no fewer bytes. -/
theorem utf8ByteSize_le_of_namePrecedes (h : namePrecedes a b = true) :
    b.utf8ByteSize ≤ a.utf8ByteSize := by
  rcases namePrecedes_iff.mp h with hlt | ⟨heq, -⟩
  · exact Nat.le_of_lt hlt
  · exact heq.ge

theorem not_namePrecedes_of_namePrecedes (h : namePrecedes a b = true) :
    ¬ namePrecedes b a = true := by
  rw [namePrecedes_iff] at h ⊢
  rintro (hlt | ⟨heq, hlt⟩)
  · rcases h with hlt' | ⟨heq', -⟩ <;> omega
  · rcases h with hlt' | ⟨-, hlt'⟩
    · omega
    · exact String.lt_asymm hlt hlt'

theorem namePrecedes_trans (hab : namePrecedes a b = true) (hbc : namePrecedes b c = true) :
    namePrecedes a c = true := by
  rw [namePrecedes_iff] at hab hbc ⊢
  rcases hab with hab | ⟨hab, hlt⟩
  · rcases hbc with hbc | ⟨hbc, -⟩ <;> exact .inl (by omega)
  · rcases hbc with hbc | ⟨hbc, hlt'⟩
    · exact .inl (by omega)
    · exact .inr ⟨hab.trans hbc, String.lt_trans hlt hlt'⟩

/-- **Of two names**, one is tried before the other. -/
theorem eq_or_namePrecedes (a b : String) :
    a = b ∨ namePrecedes a b = true ∨ namePrecedes b a = true := by
  rw [namePrecedes_iff, namePrecedes_iff]
  rcases lt_trichotomy a.utf8ByteSize b.utf8ByteSize with hlt | heq | hlt
  · exact .inr (.inr (.inl hlt))
  · -- Names of the same size are compared by their characters.
    rcases lt_trichotomy a b with hab | hab | hab
    · exact .inr (.inl (.inr ⟨heq, hab⟩))
    · exact .inl hab
    · exact .inr (.inr (.inr ⟨heq.symm, hab⟩))
  · exact .inr (.inl (.inl hlt))

/-! ### Names in order -/

namespace Names

theorem pairwise_insertName (name : String)
    (h : names.Pairwise fun a b => namePrecedes a b = true) :
    (insertName name names).Pairwise fun a b => namePrecedes a b = true := by
  induction names with
  | nil => exact List.pairwise_singleton _ name
  | cons first names ih =>
    obtain ⟨hfirst, hnames⟩ := List.pairwise_cons.mp h
    rw [insertName]
    split_ifs with hname hbefore
    · exact h
    · -- The name stands before the first one, and so before the others.
      refine List.pairwise_cons.mpr ⟨?_, h⟩
      intro other hother
      rcases List.mem_cons.mp hother with rfl | hother
      · exact hbefore
      · exact namePrecedes_trans hbefore (hfirst other hother)
    · refine List.pairwise_cons.mpr ⟨?_, ih hnames⟩
      intro other hother
      rcases mem_insertName.mp hother with rfl | hother
      · exact ((eq_or_namePrecedes other first).resolve_left hname).resolve_left hbefore
      · exact hfirst other hother

/-- **The names of a table** stand in the order in which they are tried. -/
theorem pairwise_ofList (names : List String) :
    (ofList names).toList.Pairwise fun a b => namePrecedes a b = true := by
  induction names with
  | nil => exact List.Pairwise.nil
  | cons name names ih => exact pairwise_insertName name ih

theorem nodup_ofList (names : List String) : (ofList names).toList.Nodup := by
  refine (pairwise_ofList names).imp fun hab heq => ?_
  rw [heq] at hab
  exact not_namePrecedes_of_namePrecedes hab hab

/-- **Two lists give the same names** if the same names are listed. -/
theorem ofList_eq_ofList_iff :
    ofList names = ofList names' ↔ ∀ name, name ∈ names ↔ name ∈ names' := by
  constructor
  · intro h name
    rw [← mem_ofList, h, mem_ofList]
  · intro h
    have hperm : (ofList names).toList.Perm (ofList names').toList := by
      rw [List.perm_ext_iff_of_nodup (nodup_ofList names) (nodup_ofList names')]
      intro name
      rw [mem_ofList, mem_ofList, h name]
    have hlists : (ofList names).toList = (ofList names').toList :=
      hperm.eq_of_pairwise (fun a b _ _ hab hba => absurd hba (not_namePrecedes_of_namePrecedes hab))
        (pairwise_ofList names) (pairwise_ofList names')
    exact congrArg Names.mk hlists

/-- The first name that fits is the longest one that does. -/
theorem utf8ByteSize_le_of_find? {fits : String → Bool}
    (h : (ofList names).toList.find? fits = some name) {other : String} (hother : other ∈ names)
    (hfits : fits other = true) : other.utf8ByteSize ≤ name.utf8ByteSize := by
  obtain ⟨-, before, after, hsplit, hbefore⟩ := List.find?_eq_some_iff_append.mp h
  have hmem : other ∈ before ++ name :: after := by
    rw [← hsplit, mem_ofList]
    exact hother
  rcases List.mem_append.mp hmem with hmem | hmem
  · -- A name that is tried earlier does not fit.
    have hnot := hbefore other hmem
    rw [hfits] at hnot
    cases hnot
  rcases List.mem_cons.mp hmem with rfl | hmem
  · exact Nat.le_refl _
  · have hpairwise := pairwise_ofList names
    rw [hsplit] at hpairwise
    have hlater := (List.pairwise_append.mp hpairwise).2.1
    exact utf8ByteSize_le_of_namePrecedes (List.rel_of_pairwise_cons hlater hmem)

end Names

end ChangeQuery.Placeholder
