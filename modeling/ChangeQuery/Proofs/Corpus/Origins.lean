import ChangeQuery.Corpus.File
import Mathlib.Data.List.Basic

/-!
## Changes and their origins

A corpus holds its changes and their lines of commit info in two lists, and only the positions say
which line belongs to which change.  Reading, attaching commit info and selecting keep the lists
together: either no change has a line or every change has one.

* `isAligned_of_built`: every corpus that can be made keeps its lists together.
* `IsAligned.select`: a selection of such a corpus has the changes asked for, each with its own line.
* `info_stays_with_changes`: both, for every corpus that can be made.
-/

namespace ChangeQuery.Corpus

/-- No change has a line of commit info, or every change has one. -/
def IsAligned (c : Corpus) : Prop :=
  c.info = [] ∨ c.info.length = c.size

/-- The corpora that can be made: from changes, lines, texts and files, by attaching commit info and
by selecting. -/
inductive Built : Corpus → Prop where
  | ofChanges (changes : List String) : Built (ofChanges changes)
  | ofLines (lines : List String) : Built (ofLines lines)
  | ofText (text : List Char) : Built (ofText text)
  | ofFile {c : Corpus} {f : File} (h : ofFile f = .ok c) : Built c
  | withInfo {c c' : Corpus} {info : List String} (hc : Built c) (h : c.withInfo info = .ok c') :
    Built c'
  | withInfoFile {c c' : Corpus} {f : File} (hc : Built c) (h : c.withInfoFile f = .ok c') :
    Built c'
  | select {c : Corpus} (hc : Built c) (ids : List ℕ) : Built (c.select ids)

variable {c c' : Corpus} {info : List String} {f : File}

/-! ### Making a corpus -/

/-- Commit info is attached exactly if there is a line for every change. -/
theorem withInfo_eq_ok_iff :
    c.withInfo info = .ok c' ↔ info.length = c.size ∧ c' = ⟨c.changes, info⟩ := by
  unfold withInfo
  by_cases hlength : info.length = c.changes.length
  · rw [if_pos hlength, Except.ok.injEq, eq_comm]
    exact (and_iff_right hlength).symm
  · rw [if_neg hlength]
    exact iff_of_false (fun h => by cases h) fun h => hlength h.1

/-- Commit info from a file is attached as its lines are. -/
theorem exists_withInfo_of_withInfoFile (h : c.withInfoFile f = .ok c') :
    ∃ info, f.lines = .ok info ∧ c.withInfo info = .ok c' := by
  unfold withInfoFile at h
  cases hlines : f.lines with
  | error cause => rw [hlines] at h; cases h
  | ok info =>
    rw [hlines] at h
    refine ⟨info, rfl, ?_⟩
    cases hattached : c.withInfo info with
    | error cause => simp only [hattached] at h; cases h
    | ok attached =>
      simp only [hattached] at h
      rw [← Except.ok.inj h]

theorem isAligned_ofChanges (changes : List String) : (ofChanges changes).IsAligned :=
  .inl rfl

theorem isAligned_ofFile (h : ofFile f = .ok c) : c.IsAligned := by
  unfold ofFile at h
  cases hlines : f.lines with
  | error cause => rw [hlines] at h; cases h
  | ok lines =>
    rw [hlines] at h
    obtain rfl := Except.ok.inj h
    exact isAligned_ofChanges _

theorem isAligned_withInfo (h : c.withInfo info = .ok c') : c'.IsAligned := by
  obtain ⟨hlength, rfl⟩ := withInfo_eq_ok_iff.mp h
  exact .inr hlength

/-! ### Selecting -/

/-- The numbers that belong to changes of the corpus. -/
def known (c : Corpus) (ids : List ℕ) : List ℕ :=
  ids.filter fun id => id < c.size

section Entries

variable {entries : List String} (h : entries.length = c.size) (ids : List ℕ)
include h

/-- A list with an entry for each change gives an entry for each number that is known, and none for
any other. -/
theorem map_some_filterMap :
    (ids.filterMap fun id => entries[id]?).map some = (c.known ids).map fun id => entries[id]? := by
  induction ids with
  | nil => rfl
  | cons id ids ih =>
    unfold known at ih ⊢
    by_cases hid : id < c.size
    · have hlt : id < entries.length := h ▸ hid
      have hentry : entries[id]? = some entries[id] := List.getElem?_eq_getElem hlt
      rw [List.filterMap_cons_some hentry, List.map_cons, ih,
        List.filter_cons_of_pos (by simpa using hid), List.map_cons, hentry]
    · have hentry : entries[id]? = none :=
        List.getElem?_eq_none_iff.mpr (h ▸ Nat.le_of_not_lt hid)
      rw [List.filterMap_cons_none hentry, ih, List.filter_cons_of_neg (by simpa using hid)]

theorem length_filterMap_eq_length_known :
    (ids.filterMap fun id => entries[id]?).length = (c.known ids).length := by
  have hlength := congrArg List.length (map_some_filterMap h ids)
  rwa [List.length_map, List.length_map] at hlength

theorem getElem?_filterMap_eq_bind (j : ℕ) :
    (ids.filterMap fun id => entries[id]?)[j]? = (c.known ids)[j]?.bind fun id => entries[id]? := by
  have hentry := congrArg (·[j]?) (map_some_filterMap h ids)
  simp only [List.getElem?_map] at hentry
  cases hid : (c.known ids)[j]? with
  | none =>
    rw [hid] at hentry
    exact Option.map_eq_none_iff.mp hentry
  | some id =>
    rw [hid] at hentry
    obtain ⟨entry, hselected, heq⟩ := Option.map_eq_some_iff.mp hentry
    rw [hselected, Option.bind_some, heq]

end Entries

/-- What a selection of a corpus must hold: the changes with the numbers that are known, in that
order, and with each of them its own line of commit info. -/
structure IsSelection (c : Corpus) (ids : List ℕ) (selected : Corpus) : Prop where
  size_eq : selected.size = (c.known ids).length
  change?_eq : ∀ j, selected.change? j = (c.known ids)[j]?.bind c.change?
  info?_eq : ∀ j, selected.info? j = (c.known ids)[j]?.bind c.info?

/-- Without commit info there is none to select. -/
theorem info_select_of_nil (h : c.info = []) (ids : List ℕ) : (c.select ids).info = [] := by
  refine List.filterMap_eq_nil_iff.mpr fun id _ => ?_
  rw [info?, h, List.getElem?_nil]

/-- **A selection keeps changes and origins together** if the corpus does. -/
theorem IsAligned.isSelection (h : c.IsAligned) (ids : List ℕ) :
    c.IsSelection ids (c.select ids) where
  size_eq := length_filterMap_eq_length_known rfl ids
  change?_eq := getElem?_filterMap_eq_bind rfl ids
  info?_eq := fun j => by
    rcases h with hnone | hall
    · have hinfo : c.info? = fun _ => none := funext fun id => by rw [info?, hnone, List.getElem?_nil]
      rw [info?, info_select_of_nil hnone, hinfo, List.getElem?_nil, Option.bind_fun_none]
    · exact getElem?_filterMap_eq_bind hall ids j

theorem IsAligned.select (h : c.IsAligned) (ids : List ℕ) : (c.select ids).IsAligned := by
  rcases h with hnone | hall
  · exact .inl (info_select_of_nil hnone ids)
  · refine .inr ?_
    rw [(IsAligned.isSelection (.inr hall) ids).size_eq]
    exact length_filterMap_eq_length_known hall ids

/-! ### All corpora -/

/-- **Every corpus that can be made** keeps its lists together. -/
theorem isAligned_of_built (h : Built c) : c.IsAligned := by
  induction h with
  | ofChanges changes => exact isAligned_ofChanges changes
  | ofLines lines => exact isAligned_ofChanges _
  | ofText text => exact isAligned_ofChanges _
  | ofFile h => exact isAligned_ofFile h
  | withInfo _ h _ => exact isAligned_withInfo h
  | withInfoFile _ h _ =>
    obtain ⟨info, -, h⟩ := exists_withInfo_of_withInfoFile h
    exact isAligned_withInfo h
  | select _ ids ih => exact ih.select ids

/-- **Commit info never comes apart from its change**: however a corpus was made, it has no commit
info or a line for each change, and a selection by any numbers holds the changes that are known, in
that order, each with its own line. -/
theorem info_stays_with_changes (h : Built c) :
    (c.info = [] ∨ c.info.length = c.changes.length) ∧
      ∀ ids, c.IsSelection ids (c.select ids) :=
  ⟨isAligned_of_built h, fun ids => (isAligned_of_built h).isSelection ids⟩

/-- A selection of a selection, with numbers out of order, twice and out of range. -/
theorem sample_selection : ∃ c, Built c ∧ c.changes = ["c", "a", "c"] ∧
    c.info = ["3", "1", "3"] ∧ (c.info = [] ∨ c.info.length = c.changes.length) ∧
    ∀ ids, c.IsSelection ids (c.select ids) := by
  have hattached : (ofChanges ["a", "b", "c"]).withInfo ["1", "2", "3"] =
      .ok ⟨["a", "b", "c"], ["1", "2", "3"]⟩ := rfl
  have hbuilt : Built ((Corpus.mk ["a", "b", "c"] ["1", "2", "3"]).select [2, 3, 0, 2]) :=
    .select (.withInfo (.ofChanges _) hattached) _
  obtain ⟨hinfo, hselect⟩ := info_stays_with_changes hbuilt
  exact ⟨_, hbuilt, rfl, rfl, hinfo, hselect⟩

end ChangeQuery.Corpus
