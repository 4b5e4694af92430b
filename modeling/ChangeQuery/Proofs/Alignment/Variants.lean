import ChangeQuery.Proofs.Alignment.Assignment

/-!
## Names and variants

A numbered placeholder has a name and a variant.  Occurrences of one name and variant should be
assigned the same run, but a placeholder is bound under its full text, and the text says more: between
the name and the first `<` there may be characters that belong neither to the name nor to the variant.

`leastRun` is the shortest run that a query token admits.  The candidate that is made up of these runs
can be assigned in no other way (`eq_leastRuns`), and it tells different texts apart.

* `aligns_bindsVariants_iff`: names and variants are bound in every candidate that aligns if and only
  if the query spells each of them in one way.
* `aligns_not_bindsVariants`: two spellings, and a candidate that aligns without binding them together.
-/

namespace ChangeQuery.Alignment

open Placeholder (Table Span kindOfText)

/-- Query tokens with one name and variant, on either side, are assigned the same run. -/
def BindsVariants (table : Table) (query : TokenSides) (old new : List (List String)) : Prop :=
  ∀ a ∈ query.old.zip old ++ query.new.zip new, ∀ b ∈ query.old.zip old ++ query.new.zip new,
    ∀ name variant, kindOfText table.names a.1 = .numbered name variant →
      kindOfText table.names b.1 = .numbered name variant → a.2 = b.2

/-- Each name and variant is spelled in one way on both sides. -/
def SpellsVariantsAlike (table : Table) (query : TokenSides) : Prop :=
  ∀ x ∈ query.old ++ query.new, ∀ y ∈ query.old ++ query.new, ∀ name variant,
    kindOfText table.names x = .numbered name variant →
      kindOfText table.names y = .numbered name variant → x = y

variable {table : Table} {text : String}

/-! ### The shortest runs -/

/-- The shortest run that a query token admits: its own text, unless it admits no tokens at all. -/
def leastRun (table : Table) (text : String) : List String :=
  match kindOfText table.names text with
  | .wildcard | .empty => []
  | _ => [text]

theorem spanAdmits_singleton (span : Span) (text : String) : spanAdmits span [text] := by
  cases span with
  | single => rfl
  | subtree => exact Nat.le_refl 1

theorem one_le_of_spanAdmits {span : Span} {taken : List String} (h : spanAdmits span taken) :
    1 ≤ taken.length := by
  cases span with
  | single => exact (show taken.length = 1 from h).ge
  | subtree => exact h

theorem admits_leastRun (table : Table) (text : String) :
    Admits table text (leastRun table text) := by
  unfold Admits leastRun
  cases kindOfText table.names text with
  | plain => rfl
  | wildcard => trivial
  | empty => rfl
  | bare name => exact spanAdmits_singleton _ text
  | numbered name variant => exact spanAdmits_singleton _ text

theorem length_leastRun_le {taken : List String} (h : Admits table text taken) :
    (leastRun table text).length ≤ taken.length := by
  unfold Admits at h
  unfold leastRun
  cases hkind : kindOfText table.names text with
  | plain =>
    rw [hkind] at h
    obtain rfl : taken = [text] := h
    exact Nat.le_refl 1
  | wildcard => exact Nat.zero_le _
  | empty => exact Nat.zero_le _
  | bare name =>
    rw [hkind] at h
    exact one_le_of_spanAdmits h
  | numbered name variant =>
    rw [hkind] at h
    exact one_le_of_spanAdmits h

theorem leastRun_of_numbered {name variant : String}
    (h : kindOfText table.names text = .numbered name variant) : leastRun table text = [text] := by
  rw [leastRun, h]

theorem length_leastRuns_le {query : List String} {runs : List (List String)}
    (h : List.Forall₂ (Admits table) query runs) :
    (query.flatMap (leastRun table)).length ≤ runs.flatten.length := by
  induction h with
  | nil => exact Nat.le_refl 0
  | cons hadmits _ ih =>
    have hfirst := length_leastRun_le hadmits
    rw [List.flatMap_cons, List.flatten_cons, List.length_append, List.length_append]
    omega

/-- **The shortest candidate** can be assigned in one way only. -/
theorem eq_leastRuns {query : List String} {runs : List (List String)}
    (h : List.Forall₂ (Admits table) query runs)
    (hflatten : runs.flatten = query.flatMap (leastRun table)) :
    runs = query.map (leastRun table) := by
  induction h with
  | nil => rfl
  | @cons text taken query runs hadmits hrest ih =>
    rw [List.flatMap_cons, List.flatten_cons] at hflatten
    -- No run is shorter than the shortest, so none can be longer.
    have hlength : taken.length = (leastRun table text).length := by
      have hfirst := length_leastRun_le hadmits
      have hothers := length_leastRuns_le hrest
      have htotal := congrArg List.length hflatten
      rw [List.length_append, List.length_append] at htotal
      omega
    obtain ⟨htaken, hflatten⟩ := List.append_inj hflatten hlength
    rw [List.map_cons, htaken, ih hflatten]

/-- The candidate that is made up of the shortest runs. -/
def leastCandidate (table : Table) (query : TokenSides) : TokenSides :=
  ⟨query.old.flatMap (leastRun table), query.new.flatMap (leastRun table)⟩

/-- The shortest runs, next to the query tokens they are assigned to. -/
theorem mem_zip_leastRuns {query : List String} {a : String × List String} :
    a ∈ query.zip (query.map (leastRun table)) ↔ a.1 ∈ query ∧ a.2 = leastRun table a.1 := by
  rw [← List.map_prod_left_eq_zip, List.mem_map]
  constructor
  · rintro ⟨x, hx, rfl⟩
    exact ⟨hx, rfl⟩
  · rintro ⟨hx, heq⟩
    exact ⟨a.1, hx, Prod.ext rfl heq.symm⟩

theorem aligns_leastCandidate (table : Table) (query : TokenSides) :
    aligns table query (leastCandidate table query) = true := by
  rw [aligns_iff_exists_assignment]
  have hadmits : ∀ tokens : List String,
      List.Forall₂ (Admits table) tokens (tokens.map (leastRun table)) := by
    intro tokens
    rw [List.forall₂_map_right_iff, List.forall₂_same]
    exact fun text _ => admits_leastRun table text
  refine ⟨_, _, hadmits query.old, hadmits query.new, rfl, rfl, ?_⟩
  intro a ha b hb _ heq
  rw [List.mem_append, mem_zip_leastRuns, mem_zip_leastRuns, ← or_and_right] at ha hb
  rw [ha.2, hb.2, heq]

/-! ### When variants are bound -/

theorem IsAssignment.bindsVariants {query candidate : TokenSides} {old new : List (List String)}
    (h : IsAssignment table query candidate old new) (hquery : SpellsVariantsAlike table query) :
    BindsVariants table query old new := by
  have hmem : ∀ a ∈ query.old.zip old ++ query.new.zip new, a.1 ∈ query.old ++ query.new := by
    intro a ha
    rcases List.mem_append.mp ha with ha | ha
    · exact List.mem_append_left _ (List.of_mem_zip ha).1
    · exact List.mem_append_right _ (List.of_mem_zip ha).1
  intro a ha b hb name variant hkind hkind'
  have heq := hquery a.1 (hmem a ha) b.1 (hmem b hb) name variant hkind hkind'
  exact h.numbered a ha b hb ⟨name, variant, hkind⟩ heq

/-- **When names and variants are bound**: every candidate that aligns can be assigned so that query
tokens with one name and variant are assigned the same run, if and only if the query spells each name
and variant in one way. -/
theorem aligns_bindsVariants_iff (table : Table) (query : TokenSides) :
    (∀ candidate, aligns table query candidate = true →
      ∃ old new, IsAssignment table query candidate old new ∧ BindsVariants table query old new) ↔
    SpellsVariantsAlike table query := by
  constructor
  · intro h x hx y hy name variant hkind hkind'
    obtain ⟨old, new, hassignment, hbinds⟩ := h _ (aligns_leastCandidate table query)
    obtain rfl := eq_leastRuns hassignment.old_admits hassignment.old_flatten
    obtain rfl := eq_leastRuns hassignment.new_admits hassignment.new_flatten
    have hmem : ∀ z ∈ query.old ++ query.new, (z, leastRun table z) ∈
        query.old.zip (query.old.map (leastRun table)) ++
          query.new.zip (query.new.map (leastRun table)) := by
      intro z hz
      rw [List.mem_append, mem_zip_leastRuns, mem_zip_leastRuns, ← or_and_right]
      exact ⟨List.mem_append.mp hz, rfl⟩
    have hruns := hbinds _ (hmem x hx) _ (hmem y hy) name variant hkind hkind'
    dsimp only at hruns
    rw [leastRun_of_numbered hkind, leastRun_of_numbered hkind'] at hruns
    exact List.head_eq_of_cons_eq hruns
  · intro h candidate haligns
    obtain ⟨old, new, hassignment⟩ := (aligns_iff_exists_assignment table query candidate).mp haligns
    exact ⟨old, new, hassignment, hassignment.bindsVariants h⟩

/-- `ID<1>` and `IDx<1>` have one name and one variant, but they align with two tokens that
differ. -/
theorem aligns_not_bindsVariants :
    kindOfText Table.default.names "ID<1>" = .numbered "ID" "1" ∧
    kindOfText Table.default.names "IDx<1>" = .numbered "ID" "1" ∧
    aligns .default ⟨["ID<1>", "IDx<1>"], []⟩ ⟨["a", "b"], []⟩ = true ∧
    ¬ ∃ old new, IsAssignment .default ⟨["ID<1>", "IDx<1>"], []⟩ ⟨["a", "b"], []⟩ old new ∧
      BindsVariants .default ⟨["ID<1>", "IDx<1>"], []⟩ old new := by
  have hkind : kindOfText Table.default.names "ID<1>" = .numbered "ID" "1" := by decide
  have hkind' : kindOfText Table.default.names "IDx<1>" = .numbered "ID" "1" := by decide
  refine ⟨hkind, hkind', by decide, ?_⟩
  rintro ⟨old, new, hassignment, hbinds⟩
  -- Both tokens take the same run, so the two tokens of the candidate are the same.
  obtain ⟨first, second, rfl⟩ : ∃ first second, old = [first, second] := by
    have hlength := hassignment.old_admits.length_eq
    exact List.length_eq_two.mp hlength.symm
  obtain rfl : first = second :=
    hbinds ("ID<1>", first) (by simp) ("IDx<1>", second) (by simp) "ID" "1" hkind hkind'
  have hflatten : first ++ first = ["a", "b"] := by
    simpa using hassignment.old_flatten
  obtain ⟨token, rfl⟩ : ∃ token, first = [token] := by
    have hlength := congrArg List.length hflatten
    rw [List.length_append, show ["a", "b"].length = 2 from rfl] at hlength
    exact List.length_eq_one_iff.mp (by omega)
  obtain ⟨rfl, heq⟩ : token = "a" ∧ token = "b" := by simpa using hflatten
  exact absurd heq (by decide)

end ChangeQuery.Alignment
