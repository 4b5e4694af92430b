import ChangeQuery.Proofs.Placeholder.Names
import ChangeQuery.Proofs.Text.Slices

/-!
## Numbered placeholders

A token such as `OPX<1>` is read as a name with a variant.  The names are tried in their order at the
text in front of the first `<`, and the first that fits is the longest one.  What a token is read as
can be told without the order and without the way the text is cut: `ReadsNumbered` says it for a list
of names and byte positions in the text.

* `Cut`: the ways a text can be cut at the first `<` and the final `>`.
* `kindOfText_eq_numbered_iff`: which tokens are numbered placeholders, and of which name.
* `kindOfSlices?_eq_some`: tokens can be read with slices between byte positions, because these
  slices always exist.
* `Table.build_reads_longest`: how the table of a list of names reads tokens.
-/

namespace ChangeQuery.Placeholder

open String (utf8Len)
open String.Pos.Raw (Valid)
open Text (position? slice? splitFirst? splitFirst?_append splitFirst?_eq_some_iff)

variable {cs before variant : List Char} {text name : String} {names : List String} {limit : ℕ}

/-! ### Brackets

The first `<` and the final `>` take a byte each, so that the variant lies between the position behind
the one and the position of the other. -/

/-- A text that is cut at its first `<`. -/
theorem position?_of_splitFirst? {c : Char} {after : List Char}
    (h : splitFirst? [c] cs = some (before, after)) : position? c cs = some (utf8Len before) := by
  rw [Text.position?_eq_map_splitFirst?, h, Option.map_some]

/-- A `<` somewhere in front does not matter for the end of a text. -/
theorem getLast?_append_cons_eq_iff (before after : List Char) :
    (before ++ '<' :: after).getLast? = some '>' ↔ after.getLast? = some '>' := by
  rw [List.getLast?_append, List.getLast?_cons, Option.some_or]
  cases after.getLast? with
  | none =>
    rw [Option.getD_none]
    decide
  | some c => rw [Option.getD_some]

/-- The slice between the first `<` and the final `>` is the variant. -/
theorem slice?_variant (before variant : List Char) :
    slice? (utf8Len before + 1) (utf8Len (before ++ '<' :: (variant ++ ['>'])) - 1)
      (before ++ '<' :: (variant ++ ['>'])) = some variant := by
  refine Text.slice?_eq_some_iff.mpr ⟨before ++ ['<'], ['>'], ?_, ?_, ?_⟩
  · simp only [List.append_assoc, List.cons_append, List.nil_append]
  · rw [String.utf8Len_append]
    rfl
  · have hopen : Char.utf8Size '<' = 1 := rfl
    have hclose : Char.utf8Size '>' = 1 := rfl
    simp only [String.utf8Len_append, String.utf8Len_cons, String.utf8Len_nil, hopen, hclose]
    omega

/-- How a text is cut at its first `<`, and what stands at its end. -/
inductive Cut (cs : List Char) : Prop
  /-- There is no `<` in the text. -/
  | unopened (hsplit : splitFirst? ['<'] cs = none) (hposition : position? '<' cs = none)
  /-- The text does not end with `>`. -/
  | unclosed {before after : List Char} (hsplit : splitFirst? ['<'] cs = some (before, after))
      (hafter : after.getLast? ≠ some '>') (hlast : cs.getLast? ≠ some '>')
  /-- The text ends with `>`, and the variant stands in front of it. -/
  | closed {before variant : List Char}
      (hsplit : splitFirst? ['<'] cs = some (before, variant ++ ['>']))
      (hbefore : before <+: cs) (hlast : cs.getLast? = some '>')
      (hposition : position? '<' cs = some (utf8Len before))
      (hslice : slice? (utf8Len before + 1) (utf8Len cs - 1) cs = some variant)

/-- A text with a `<` and, behind it, a `>` at the end. -/
theorem Cut.of_append (h : '<' ∉ before) (variant : List Char) :
    Cut (before ++ '<' :: (variant ++ ['>'])) := by
  have hsplit := splitFirst?_append h (variant ++ ['>'])
  refine .closed hsplit (List.prefix_append ..) ?_ (position?_of_splitFirst? hsplit)
    (slice?_variant before variant)
  exact (getLast?_append_cons_eq_iff _ _).mpr List.getLast?_concat

/-- **Every text is cut** in one of these ways. -/
theorem cut_cases (cs : List Char) : Cut cs := by
  cases hsplit : splitFirst? ['<'] cs with
  | none =>
    refine .unopened hsplit ?_
    rw [Text.position?_eq_map_splitFirst?, hsplit, Option.map_none]
  | some parts =>
    obtain ⟨before, after⟩ := parts
    obtain ⟨rfl, hbefore⟩ := splitFirst?_eq_some_iff.mp hsplit
    by_cases hafter : after.getLast? = some '>'
    · obtain ⟨variant, rfl⟩ := List.getLast?_eq_some_iff.mp hafter
      exact .of_append hbefore variant
    · exact .unclosed hsplit hafter (mt (getLast?_append_cons_eq_iff _ _).mp hafter)

/-- The first of the names that begins what stands in front of the first `<`. -/
def Names.firstFit? (names : Names) (before : List Char) : Option String :=
  names.toList.find? fun name => name.toList.isPrefixOf before

/-- The kind of a text that is cut: the first name that fits has the variant. -/
theorem numberedKind_of_closed {names : Names}
    (h : splitFirst? ['<'] cs = some (before, variant ++ ['>'])) :
    numberedKind names cs = (names.firstFit? before).elim .plain
      fun name => .numbered name (String.ofList variant) := by
  rw [numberedKind, h]
  dsimp only
  rw [if_pos List.getLast?_concat, List.dropLast_concat, Names.firstFit?]
  cases names.toList.find? fun name => name.toList.isPrefixOf before <;> rfl

theorem numberedKind_of_unopened {names : Names} (h : splitFirst? ['<'] cs = none) :
    numberedKind names cs = .plain := by
  rw [numberedKind, h]

theorem numberedKind_of_unclosed {names : Names} {after : List Char}
    (h : splitFirst? ['<'] cs = some (before, after)) (hafter : after.getLast? ≠ some '>') :
    numberedKind names cs = .plain := by
  rw [numberedKind, h]
  exact if_neg hafter

/-! ### The longest name -/

/-- The longest of the names that the text begins with and that have no more bytes than given. -/
structure IsLongest (names : List String) (text : String) (limit : ℕ) (name : String) : Prop where
  listed : name ∈ names
  begins : name.toList <+: text.toList
  fits : name.utf8ByteSize ≤ limit
  longest : ∀ other ∈ names, other.toList <+: text.toList → other.utf8ByteSize ≤ limit →
    other.utf8ByteSize ≤ name.utf8ByteSize

/-- There is at most one longest name. -/
theorem IsLongest.eq {other : String} (h : IsLongest names text limit name)
    (hother : IsLongest names text limit other) : name = other := by
  have hle := hother.longest name h.listed h.begins h.fits
  have hge := h.longest other hother.listed hother.begins hother.fits
  rw [← String.utf8Len_toList, ← String.utf8Len_toList] at hle hge
  -- Of two beginnings of the text with as many bytes, each is a beginning of the other.
  have hsub := (Text.prefix_iff_utf8Len_le hother.begins).mpr ⟨h.begins, hle⟩
  have hsup := (Text.prefix_iff_utf8Len_le h.begins).mpr ⟨hother.begins, hge⟩
  exact String.toList_injective (hsub.eq_of_length_le hsup.length_le)

/-- A name fits if the text begins with it and it has no more bytes than stand in front of the first
`<`. -/
theorem prefix_before_iff (h : before <+: text.toList) : name.toList <+: before ↔
    name.toList <+: text.toList ∧ name.utf8ByteSize ≤ utf8Len before := by
  rw [Text.prefix_iff_utf8Len_le h, String.utf8Len_toList]

namespace Names

theorem prefix_of_firstFit? {names : Names} (h : names.firstFit? before = some name) :
    name.toList <+: before := by
  have hfits := List.find?_some h
  exact List.isPrefixOf_iff_prefix.mp hfits

/-- **The first name that fits** is the longest one. -/
theorem firstFit?_eq_some_iff (h : before <+: text.toList) :
    (ofList names).firstFit? before = some name ↔
      IsLongest names text (utf8Len before) name := by
  have hfound : ∀ name, (ofList names).firstFit? before = some name →
      IsLongest names text (utf8Len before) name := by
    intro name hfit
    obtain ⟨hbegins, hfits⟩ := (prefix_before_iff h).mp (prefix_of_firstFit? hfit)
    refine ⟨mem_ofList.mp (List.mem_of_find?_eq_some hfit), hbegins, hfits, ?_⟩
    intro other hother hbegins' hfits'
    have hprefix := (prefix_before_iff h).mpr ⟨hbegins', hfits'⟩
    exact utf8ByteSize_le_of_find? hfit hother (List.isPrefixOf_iff_prefix.mpr hprefix)
  constructor
  · exact hfound name
  · intro hlongest
    -- Some name is found, because the longest one fits.
    have hsome : ((ofList names).firstFit? before).isSome := by
      have hprefix := (prefix_before_iff h).mpr ⟨hlongest.begins, hlongest.fits⟩
      rw [firstFit?, List.find?_isSome]
      exact ⟨name, mem_ofList.mpr hlongest.listed, List.isPrefixOf_iff_prefix.mpr hprefix⟩
    obtain ⟨found, hfit⟩ := Option.isSome_iff_exists.mp hsome
    rw [hfit, (hfound found hfit).eq hlongest]

end Names

/-! ### Tokens of a list of names -/

/-- The token is a numbered placeholder of the name with the variant. -/
structure ReadsNumbered (names : List String) (text name variant : String) : Prop where
  ne_wildcard : text ≠ wildcardText
  ne_empty : text ≠ emptyText
  /-- The text is no bare placeholder. -/
  not_listed : text ∉ names
  closed : text.toList.getLast? = some '>'
  /-- The name is the longest one in front of the first `<`, and the variant stands between that and
  the final `>`. -/
  opened : ∃ o, position? '<' text.toList = some o ∧ IsLongest names text o name ∧
    slice? (o + 1) (text.utf8ByteSize - 1) text.toList = some variant.toList

theorem kindOfText_eq_numbered_iff_numberedKind {names : Names} {variant : String} :
    kindOfText names text = .numbered name variant ↔
      text ≠ wildcardText ∧ text ≠ emptyText ∧ text ∉ names.toList ∧
        numberedKind names text.toList = .numbered name variant := by
  unfold kindOfText
  split_ifs with hwildcard hempty hlisted
  · exact iff_of_false (fun h => by cases h) fun h => h.1 hwildcard
  · exact iff_of_false (fun h => by cases h) fun h => h.2.1 hempty
  · exact iff_of_false (fun h => by cases h) fun h => h.2.2.1 hlisted
  · exact ⟨fun h => ⟨hwildcard, hempty, hlisted, h⟩, fun h => h.2.2.2⟩

/-- A bare placeholder is the name alone. -/
theorem eq_of_kindOfText_bare {names : Names} (h : kindOfText names text = .bare name) : text = name := by
  unfold kindOfText numberedKind at h
  split_ifs at h
  · exact Kind.bare.inj h
  · split at h
    · cases h
    · split_ifs at h
      split at h <;> cases h

/-- **A token is a numbered placeholder** of the longest name in front of its first `<`. -/
theorem kindOfText_eq_numbered_iff {variant : String} :
    kindOfText (Names.ofList names) text = .numbered name variant ↔
      ReadsNumbered names text name variant := by
  rw [kindOfText_eq_numbered_iff_numberedKind, Names.mem_ofList]
  constructor
  · rintro ⟨hwildcard, hempty, hlisted, hkind⟩
    cases cut_cases text.toList with
    | unopened hsplit =>
      rw [numberedKind_of_unopened hsplit] at hkind
      cases hkind
    | unclosed hsplit hafter =>
      rw [numberedKind_of_unclosed hsplit hafter] at hkind
      cases hkind
    | closed hsplit hbefore hlast hposition hslice =>
      rw [numberedKind_of_closed hsplit] at hkind
      cases hfit : (Names.ofList names).firstFit? _ with
      | none =>
        rw [hfit] at hkind
        cases hkind
      | some found =>
        rw [hfit, Option.elim_some] at hkind
        obtain ⟨rfl, rfl⟩ := Kind.numbered.inj hkind
        rw [String.utf8Len_toList] at hslice
        exact ⟨hwildcard, hempty, hlisted, hlast, _, hposition,
          (Names.firstFit?_eq_some_iff hbefore).mp hfit, by rw [String.toList_ofList, hslice]⟩
  · rintro ⟨hwildcard, hempty, hlisted, hclosed, o, hopened, hlongest, hvariant⟩
    refine ⟨hwildcard, hempty, hlisted, ?_⟩
    cases cut_cases text.toList with
    | unopened _ hposition =>
      rw [hposition] at hopened
      cases hopened
    | unclosed _ _ hlast => exact absurd hclosed hlast
    | closed hsplit hbefore _ hposition hslice =>
      obtain rfl := Option.some.inj (hposition.symm.trans hopened)
      rw [String.utf8Len_toList, hvariant] at hslice
      obtain rfl := Option.some.inj hslice
      rw [numberedKind_of_closed hsplit, (Names.firstFit?_eq_some_iff hbefore).mpr hlongest,
        Option.elim_some, String.ofList_toList]

/-- **A token that is read as a placeholder** is the name alone, or begins with it and ends with `>` behind
a `<`. -/
theorem cases_of_name? (h : (kindOfText (Names.ofList names) text).name? = some name) :
    text = name ∨ name.toList <+: text.toList ∧ '<' ∈ text.toList ∧ text.toList.getLast? = some '>' := by
  cases hkind : kindOfText (Names.ofList names) text with
  | bare found =>
    rw [hkind] at h
    obtain rfl := Option.some.inj h
    exact .inl (eq_of_kindOfText_bare hkind)
  | numbered found variant =>
    rw [hkind] at h
    obtain rfl := Option.some.inj h
    obtain ⟨-, -, -, hclosed, o, hopened, hlongest, -⟩ := kindOfText_eq_numbered_iff.mp hkind
    refine .inr ⟨hlongest.begins, ?_, hclosed⟩
    rw [Text.position?_eq_map_splitFirst?] at hopened
    obtain ⟨⟨before, after⟩, hsplit, -⟩ := Option.map_eq_some_iff.mp hopened
    rw [← Text.append_of_splitFirst? hsplit]
    simp
  | _ =>
    rw [hkind] at h
    cases h

/-- The bounds of the name and of the variant lie between characters, and the variant does not end
before it begins. -/
theorem ReadsNumbered.valid {variant : String} (h : ReadsNumbered names text name variant) {o : ℕ}
    (ho : position? '<' text.toList = some o) :
    Valid text ⟨name.utf8ByteSize⟩ ∧ Valid text ⟨o + 1⟩ ∧ Valid text ⟨text.utf8ByteSize - 1⟩ ∧
      o + 1 ≤ text.utf8ByteSize - 1 := by
  obtain ⟨o', ho', hlongest, hslice⟩ := h.opened
  obtain rfl := Option.some.inj (ho.symm.trans ho')
  have hname := Text.slice?_zero_of_prefix hlongest.begins
  rw [String.utf8Len_toList] at hname
  obtain ⟨-, hend, -⟩ := Text.isSome_slice?_iff.mp (Option.isSome_of_eq_some hname)
  exact ⟨hend, Text.isSome_slice?_iff.mp (Option.isSome_of_eq_some hslice)⟩

/-! ### Reading with byte positions -/

/-- The kind of a token, read with slices between byte positions: nothing if such a slice does not
exist. -/
def kindOfSlices? (names : Names) (text : String) : Option Kind :=
  if text = wildcardText then some .wildcard
  else if text = emptyText then some .empty
  else if text ∈ names.toList then some (.bare text)
  else if text.toList.getLast? = some '>' then
    (position? '<' text.toList).elim (some .plain) fun o =>
      (names.toList.find? fun name =>
        name.toList.isPrefixOf text.toList && decide (name.utf8ByteSize ≤ o)).elim (some .plain)
          fun name =>
            (slice? 0 name.utf8ByteSize text.toList).bind fun front =>
              (slice? (o + 1) (text.utf8ByteSize - 1) text.toList).map fun variant =>
                .numbered (String.ofList front) (String.ofList variant)
  else some .plain

/-- The same name is found when the bytes in front of the first `<` are counted. -/
theorem find?_bytes_eq_firstFit? (names : Names) (h : before <+: text.toList) :
    (names.toList.find? fun name =>
      name.toList.isPrefixOf text.toList && decide (name.utf8ByteSize ≤ utf8Len before)) =
        names.firstFit? before := by
  rw [Names.firstFit?]
  congr 1
  funext name
  rw [Bool.eq_iff_iff, Bool.and_eq_true, List.isPrefixOf_iff_prefix, decide_eq_true_iff,
    List.isPrefixOf_iff_prefix, prefix_before_iff h]

/-- **All slices exist**: reading with byte positions gives the kind of every token. -/
theorem kindOfSlices?_eq_some (names : Names) (text : String) :
    kindOfSlices? names text = some (kindOfText names text) := by
  unfold kindOfSlices? kindOfText
  split_ifs with hwildcard hempty hlisted hclosed
  · rfl
  · rfl
  · rfl
  · cases cut_cases text.toList with
    | unopened hsplit hposition => rw [hposition, numberedKind_of_unopened hsplit, Option.elim_none]
    | unclosed _ _ hlast => exact absurd hclosed hlast
    | closed hsplit hbefore _ hposition hslice =>
      rw [hposition, Option.elim_some, find?_bytes_eq_firstFit? names hbefore,
        numberedKind_of_closed hsplit]
      cases hfit : names.firstFit? _ with
      | none => rfl
      | some name =>
        have hbegins := (Names.prefix_of_firstFit? hfit).trans hbefore
        have hname := Text.slice?_zero_of_prefix hbegins
        rw [String.utf8Len_toList] at hname hslice
        rw [Option.elim_some, Option.elim_some, hname, hslice, Option.bind_some, Option.map_some,
          String.ofList_toList]
  · cases cut_cases text.toList with
    | unopened hsplit => rw [numberedKind_of_unopened hsplit]
    | unclosed hsplit hafter => rw [numberedKind_of_unclosed hsplit hafter]
    | closed _ _ hlast => exact absurd hlast hclosed

/-! ### Names with a variant -/

/-- The text of a numbered placeholder. -/
def numberedText (name variant : String) : String :=
  name ++ "<" ++ variant ++ ">"

theorem toList_numberedText (name variant : String) :
    (numberedText name variant).toList = name.toList ++ '<' :: (variant.toList ++ ['>']) := by
  simp [numberedText]

theorem splitFirst?_numberedText (h : '<' ∉ name.toList) (variant : String) :
    splitFirst? ['<'] (numberedText name variant).toList =
      some (name.toList, variant.toList ++ ['>']) := by
  rw [toList_numberedText, splitFirst?_append h]

/-- **A name with a variant** is read as such, if every name can be used. -/
theorem readsNumbered_numberedText (h : ∀ name ∈ names, ¬ IsUnusable name) (hname : name ∈ names)
    (variant : String) : ReadsNumbered names (numberedText name variant) name variant := by
  have hopen : ∀ name ∈ names, '<' ∉ name.toList := fun name hname hmem =>
    h name hname (.inr (.inl hmem))
  have hsplit := splitFirst?_numberedText (hopen name hname) variant
  have hchars := toList_numberedText name variant
  refine ⟨?_, ?_, ?_, ?_, utf8Len name.toList, position?_of_splitFirst? hsplit, ?_, ?_⟩
  · -- The wildcard has no name in front of its brackets.
    intro heq
    have hcut : splitFirst? ['<'] wildcardText.toList = some ([], "...>".toList) := by decide
    rw [heq, hcut] at hsplit
    have hnil := (Prod.mk.inj (Option.some.inj hsplit)).1
    exact h name hname (.inl (String.toList_eq_nil_iff.mp hnil.symm))
  · intro heq
    have hcut : splitFirst? ['<'] emptyText.toList = none := by decide
    rw [heq, hcut] at hsplit
    cases hsplit
  · intro hlisted
    refine hopen _ hlisted ?_
    rw [hchars]
    exact List.mem_append_right _ List.mem_cons_self
  · rw [hchars, getLast?_append_cons_eq_iff]
    exact List.getLast?_concat
  · refine ⟨hname, ?_, (String.utf8Len_toList name).ge, fun other _ _ hle => ?_⟩
    · rw [hchars]
      exact List.prefix_append ..
    · rw [← String.utf8Len_toList name]
      exact hle
  · rw [← String.utf8Len_toList (numberedText name variant), hchars]
    exact slice?_variant name.toList variant.toList

/-- A name with a variant is a numbered placeholder, whatever the variant. -/
theorem kindOfText_ofList_numberedText (h : ∀ name ∈ names, ¬ IsUnusable name)
    (hname : name ∈ names) (variant : String) :
    kindOfText (Names.ofList names) (numberedText name variant) = .numbered name variant :=
  kindOfText_eq_numbered_iff.mpr (readsNumbered_numberedText h hname variant)

/-- A built-in name with a variant is a numbered placeholder. -/
theorem kindOfText_numberedText {name : String} (h : name ∈ Names.default.toList)
    (variant : String) :
    kindOfText Table.default.names (numberedText name variant) = .numbered name variant := by
  have husable : ∀ name ∈ ["LT", "ID", "binOP", "OP", "EXPR"], ¬ IsUnusable name := by
    intro name hname
    rw [← isValidName_eq_false_iff, Bool.not_eq_false]
    exact (by decide : ∀ name ∈ ["LT", "ID", "binOP", "OP", "EXPR"], Table.isValidName name = true)
      name hname
  exact kindOfText_ofList_numberedText husable (Names.mem_ofList.mp h) variant

/-! ### Tables -/

namespace Table

variable {book : RuleBook} {emptyLabel : String} {table : Table}

/-- **Tokens are read by the longest name.**  For a list of names that makes a table, what a token is
read as depends on the names that are listed and not on their order or on repetitions.  A token is a
numbered placeholder exactly if it has the longest name in front of its first `<` and ends with `>`;
the slices that it is taken apart with lie within it and between its characters.  Every listed name
with a variant in brackets is such a token, whatever the variant. -/
theorem build_reads_longest (h : build names book emptyLabel = .ok table) :
    (∀ names' book' emptyLabel' table', build names' book' emptyLabel' = .ok table' →
      (∀ name, name ∈ names' ↔ name ∈ names) →
        ∀ text, kindOfText table'.names text = kindOfText table.names text) ∧
    (∀ text name variant, kindOfText table.names text = .numbered name variant ↔
      ReadsNumbered names text name variant) ∧
    (∀ text, kindOfSlices? table.names text = some (kindOfText table.names text)) ∧
    (∀ text name variant, kindOfText table.names text = .numbered name variant →
      ∀ o, position? '<' text.toList = some o →
        Valid text ⟨name.utf8ByteSize⟩ ∧ Valid text ⟨o + 1⟩ ∧
          Valid text ⟨text.utf8ByteSize - 1⟩ ∧ o + 1 ≤ text.utf8ByteSize - 1) ∧
    ∀ name ∈ names, ∀ variant,
      kindOfText table.names (name ++ "<" ++ variant ++ ">") = .numbered name variant := by
  have hnames := names_of_build h
  have husable : ∀ name ∈ names, ¬ IsUnusable name := fun name hname =>
    (exists_build_eq_ok_iff.mp ⟨table, h⟩ name hname).1
  refine ⟨?_, ?_, kindOfSlices?_eq_some table.names, ?_, ?_⟩
  · intro names' book' emptyLabel' table' h' hsame text
    rw [names_of_build h', hnames, Names.ofList_eq_ofList_iff.mpr hsame]
  · intro text name variant
    rw [hnames, kindOfText_eq_numbered_iff]
  · intro text name variant hkind o ho
    rw [hnames, kindOfText_eq_numbered_iff] at hkind
    exact hkind.valid ho
  · intro name hname variant
    rw [hnames]
    exact kindOfText_ofList_numberedText husable hname variant

/-- One name begins another, the variant holds brackets and a character of two bytes, and the same
names are listed in another order. -/
theorem sample_reads_longest :
    ∃ book table table', build ["OP", "OPX", "OP"] book "block" = .ok table ∧
      build ["OPX", "OP"] book "block" = .ok table' ∧
      kindOfText table.names "OPX<é<1>>" = .numbered "OPX" "é<1>" ∧
      kindOfText table'.names "OPX<é<1>>" = .numbered "OPX" "é<1>" ∧
      ReadsNumbered ["OP", "OPX", "OP"] "OPX<é<1>>" "OPX" "é<1>" := by
  have hbuild : build ["OP", "OPX", "OP"] (RuleBook.default.insert "OPX" ⟨.childless, .single⟩) "block" =
      .ok ⟨⟨["OPX", "OP"]⟩, ⟨[("OP", ⟨.labelled ["binary_operators", "assign_operators"], .single⟩),
        ("OPX", ⟨.childless, .single⟩)]⟩, "block"⟩ := by decide
  have hbuild' : build ["OPX", "OP"] (RuleBook.default.insert "OPX" ⟨.childless, .single⟩) "block" =
      .ok ⟨⟨["OPX", "OP"]⟩, ⟨[("OP", ⟨.labelled ["binary_operators", "assign_operators"], .single⟩),
        ("OPX", ⟨.childless, .single⟩)]⟩, "block"⟩ := by decide
  obtain ⟨hsame, hnumbered, -, -, hlisted⟩ := build_reads_longest hbuild
  have hkind := hlisted "OPX" (by decide) "é<1>"
  have htext : "OPX" ++ "<" ++ "é<1>" ++ ">" = "OPX<é<1>>" := by decide
  rw [htext] at hkind
  refine ⟨_, _, _, hbuild, hbuild', hkind, ?_, (hnumbered ..).mp hkind⟩
  rw [hsame _ _ _ _ hbuild' (by simp [or_comm]) "OPX<é<1>>"]
  exact hkind

end Table

end ChangeQuery.Placeholder
