import ChangeQuery.ChangeGrammar
import ChangeQuery.Proofs.Peg.Depth
import ChangeQuery.Proofs.Peg.Texts

/-!
## Words and names in changes

The depth of reading a change stays below the bound, so the trees of changes are what the grammar
leaves.  Names are read to their end, and they are not reserved words: a name that starts like a
reserved word goes on after it.

* `reads_of_read?`: every tree of a change was left by the grammar.
* `name_notMem_reservedWords`: a name is no reserved word.
* `ne_marker_of_spells_identifier`, `ne_marker_of_spells_typeName`: no identifier and no type name is
  the marker of an empty side.
-/

namespace ChangeQuery.ChangeGrammar

open Grammar
open Peg (text many one notFollowedBy)

/-! ### Depth -/

/-- How deep reading goes before the first character is read. -/
def depths : Depths Rule where
  rule
    | .statement => 300
    | .expression => 60
  layout := 10

set_option maxRecDepth 2000 in
theorem bounds : depths.Bounds grammar where
  rule_consumes rule := by cases rule <;> decide
  rule_le rule s := by cases rule <;> cases s <;> decide
  rule_fits rule s := by cases rule <;> cases s <;> decide
  layout_le := by decide
  layout_fits := by decide

/-- **The tree of a change** was left by the grammar, whatever the length of the text. -/
theorem reads_of_read? {source : String} {labels : Rose Label} (h : read? source = some labels) :
    ∃ consumed rest,
      Reads grammar false (.expr change) source.toList (some ⟨consumed, [labels], rest⟩) :=
  bounds.reads_of_read? (by decide) (by decide) h

/-! ### Single characters -/

variable {g : Grammar Rule} {s : Bool} {input : List Char}

theorem reads_one_none {accepts : Char → Bool}
    (h : Reads g s (.expr (.one accepts)) input none) : ∀ c ∈ input.head?, accepts c = false := by
  cases h with
  | one_none h =>
    intro c hc
    obtain rfl := Option.some.inj hc
    exact h
  | one_end => exact fun _ hc => nomatch hc

/-- A repetition of single characters stops where the next one is refused. -/
theorem reads_many_one {accepts : Char → Bool} {p : Parsed}
    (h : Reads g false (.expr (.many (.one accepts))) input (some p)) :
    (∀ c ∈ p.consumed, accepts c = true) ∧ ∀ c ∈ p.rest.head?, accepts c = false := by
  induction h using Reads.many_induct with
  | nothing ha => exact ⟨fun _ hc => absurd hc List.not_mem_nil, reads_one_none ha⟩
  | andThen ha _ _ ih =>
    cases ha with
    | one hx => exact ⟨List.forall_mem_cons.mpr ⟨hx, ih.1⟩, ih.2⟩

/-! ### Words -/

/-- One of the words was read from the front of the input, or none of them stands there. -/
def FirstWord (words : List String) (input : List Char) (o : Option Parsed) : Prop :=
  (∃ w ∈ words, ∃ rest, input = w.toList ++ rest ∧ o = some ⟨w.toList, [], rest⟩) ∨
    o = none ∧ ∀ w ∈ words, ¬ w.toList <+: input

theorem firstWord_text {w : String} {o : Option Parsed} (h : Reads g s (.expr (text w)) input o) :
    FirstWord [w] input o := by
  change Reads g s (.expr (.chars w.toList)) input o at h
  cases h with
  | chars h => exact .inl ⟨w, List.mem_singleton_self w, _, Text.eq_append_of_isPrefixOf? h, rfl⟩
  | chars_none h =>
    refine .inr ⟨rfl, fun w' hw' => ?_⟩
    obtain rfl := List.mem_singleton.mp hw'
    rintro ⟨rest, rfl⟩
    rw [Text.isPrefixOf?_append] at h
    cases h

theorem firstWord_orElse {seen : List String} {reader : Reader} {w : String} {o : Option Parsed}
    (hreader : ∀ o, Reads g s (.expr reader) input o → FirstWord seen input o)
    (h : Reads g s (.expr (reader <|> text w)) input o) : FirstWord (seen ++ [w]) input o := by
  rcases reads_orElse h with ⟨h, hne⟩ | ⟨hnone, h⟩
  · rcases hreader o h with ⟨w', hw', hread⟩ | ⟨rfl, -⟩
    · exact .inl ⟨w', List.mem_append_left _ hw', hread⟩
    · exact absurd rfl hne
  · -- The new word is tried only where none of those before it stands.
    have hseen : ∀ w' ∈ seen, ¬ w'.toList <+: input := by
      rcases hreader none hnone with ⟨_, _, _, _, ⟨⟩⟩ | ⟨-, hseen⟩
      exact hseen
    rcases firstWord_text h with ⟨w', hw', hread⟩ | ⟨rfl, hw⟩
    · exact .inl ⟨w', List.mem_append_right _ hw', hread⟩
    · refine .inr ⟨rfl, fun w' hw' => ?_⟩
      rcases List.mem_append.mp hw' with hw' | hw'
      · exact hseen w' hw'
      · exact hw w' hw'

/-- **The first of some words**: reading one of them finds a word at the front of the input, and
fails only if there is none. -/
theorem firstWord_oneOf {first : String} {others : List String} {o : Option Parsed}
    (h : Reads g s (.expr (oneOf first others)) input o) : FirstWord (first :: others) input o := by
  -- The induction is on the words still to come; those already seen are read by `reader`.
  have hfold : ∀ (others seen : List String) (reader : Reader),
      (∀ o, Reads g s (.expr reader) input o → FirstWord seen input o) →
      ∀ o, Reads g s (.expr (others.foldl (fun reader other => reader <|> text other) reader))
        input o → FirstWord (seen ++ others) input o := by
    intro others
    induction others with
    | nil =>
      intro seen reader hreader o h
      rw [List.append_nil]
      exact hreader o h
    | cons w others ih =>
      intro seen reader hreader o h
      have hnext := ih (seen ++ [w]) (reader <|> text w) (fun _ => firstWord_orElse hreader) o h
      rwa [List.append_assoc] at hnext
  exact hfold others [first] (text first) (fun _ => firstWord_text) o h

/-- A word is read exactly where it stands and the name does not go on. -/
theorem reads_endOfName {p : Parsed} (h : Reads g false (.expr endOfName) input (some p)) :
    p = .nothing input := by
  change Reads g false (.expr (.notFollowedBy _)) input (some p) at h
  cases h
  rfl

theorem reads_endOfName_none (h : Reads g false (.expr endOfName) input none) :
    ∃ c ∈ input.head?, isNameChar c = true := by
  change Reads g false (.expr (.notFollowedBy (.one isNameChar))) input none at h
  cases h with
  | notFollowedBy_none ha =>
    cases ha with
    | one hc => exact ⟨_, rfl, hc⟩

/-- The token of a word of the language, or of the marker of an empty side. -/
theorem eq_of_spells_word {w t : String} (h : g.Spells (.tight (text w ++ endOfName)) t) :
    t = w := by
  obtain ⟨_, _, p, hp, rfl⟩ := h
  cases hp with
  | tight hp =>
    obtain ⟨a, b, ha, hb, rfl⟩ := reads_append_iff.mp hp
    obtain rfl := reads_endOfName hb
    change Reads g false (.expr (.chars w.toList)) _ _ at ha
    cases ha
    show String.ofList (w.toList ++ []) = w
    rw [List.append_nil, String.ofList_toList]

/-! ### Names -/

/-- The words that are no names. -/
def reservedWords : List String :=
  ["if", "else", "while", "for", "do", "return", "break", "continue", "new", "this", "throw", "true",
   "false", "null", "EXPR", "binOP", "OP", "LT", "ID", "_"]

theorem reserved_eq : reserved = oneOf "if" reservedWords.tail ++ endOfName := rfl

/-- If a reserved word begins another one, it is the same word. -/
theorem eq_of_reservedWords : ∀ w ∈ reservedWords, ∀ w' ∈ reservedWords,
    w'.toList <+: w.toList → w' = w := by
  decide

/-- Where a reserved word stands and the name does not go on, it is found. -/
theorem not_reads_reserved_none {w : String} {rest : List Char} (hw : w ∈ reservedWords)
    (hrest : ∀ c ∈ rest.head?, isNameChar c = false) :
    ¬ Reads g false (.expr reserved) (w.toList ++ rest) none := by
  intro h
  rw [reserved_eq] at h
  rcases reads_append_none h with h | ⟨a, ha, hend⟩
  · rcases firstWord_oneOf h with ⟨_, _, _, _, ⟨⟩⟩ | ⟨-, hnone⟩
    exact hnone w hw (List.prefix_append _ _)
  · obtain ⟨c, hc, hname⟩ := reads_endOfName_none hend
    rcases firstWord_oneOf ha with ⟨w', hw', rest', heq, ⟨⟩⟩ | ⟨⟨⟩, -⟩
    -- Both words stand at the front, so one of them begins the other.
    have hsame : w' = w := by
      rcases List.prefix_or_prefix_of_prefix (List.prefix_append w.toList rest)
        (heq ▸ List.prefix_append w'.toList rest') with hfront | hfront
      · exact (eq_of_reservedWords w' hw' w hw hfront).symm
      · exact eq_of_reservedWords w hw w' hw' hfront
    rw [hsame] at heq
    rw [hrest c (List.append_cancel_left heq ▸ hc)] at hname
    cases hname

/-- A name is read to its end. -/
theorem reads_name {p : Parsed} (h : Reads g false (.expr name) input (some p)) :
    p.consumed ≠ [] ∧ (∀ c ∈ p.rest.head?, isNameChar c = false) ∧
      Reads g false (.expr reserved) input none := by
  obtain ⟨a, b, ha, hb, rfl⟩ := reads_append_iff.mp h
  obtain ⟨c, d, hc, hd, rfl⟩ := reads_append_iff.mp ha
  obtain ⟨-, hhead⟩ := reads_many_one hb
  change Reads g false (.expr (.notFollowedBy _)) _ _ at hc
  cases hc with
  | notFollowedBy hreserved =>
    cases hd with
    | one => exact ⟨List.cons_ne_nil _ _, hhead, hreserved⟩

/-- A name is made up of the characters that may continue one. -/
theorem isNameChar_of_reads_name {p : Parsed} (h : Reads g false (.expr name) input (some p)) :
    ∀ c ∈ p.consumed, isNameChar c = true := by
  obtain ⟨a, b, ha, hb, rfl⟩ := reads_append_iff.mp h
  obtain ⟨c, d, hc, hd, rfl⟩ := reads_append_iff.mp ha
  obtain ⟨hrest, -⟩ := reads_many_one hb
  change Reads g false (.expr (.notFollowedBy _)) _ _ at hc
  cases hc with
  | notFollowedBy =>
    cases hd with
    | @one _ _ x _ hstart =>
      have hx : isNameChar x = true := by
        simp only [isNameStart, isNameChar, Char.isAlphanum, Bool.or_eq_true] at hstart ⊢
        tauto
      intro y hy
      change y ∈ x :: b.consumed at hy
      rcases List.mem_cons.mp hy with rfl | hy
      · exact hx
      · exact hrest y hy

/-- **A name is no reserved word**. -/
theorem name_notMem_reservedWords {p : Parsed} (h : Reads g false (.expr name) input (some p)) :
    String.ofList p.consumed ∉ reservedWords := by
  intro hw
  obtain ⟨-, hhead, hreserved⟩ := reads_name h
  have hnone : ¬ Reads g false (.expr reserved) _ none := not_reads_reserved_none hw hhead
  rw [String.toList_ofList, h.append_rest] at hnone
  exact hnone hreserved

/-- Texts that start like a placeholder are no marker. -/
theorem head_of_reads_placeholder {p : Parsed}
    (h : Reads grammar false (.expr (placeholder "ID")) input (some p)) :
    p.consumed.head? ≠ some '_' :=
  h.head_consumed_ne bounds.rule_consumes (nofun : false = true → _) (by decide)

theorem ne_marker_of_spells_identifier {t : String}
    (h : grammar.Spells (.tight (placeholder "ID" <|> name)) t) : t ≠ "_" := by
  obtain ⟨_, _, p, hp, rfl⟩ := h
  intro ht
  cases hp with
  | tight hp =>
    rcases reads_orElse hp with ⟨hp, -⟩ | ⟨-, hp⟩
    · apply head_of_reads_placeholder hp
      rw [← String.toList_ofList (l := p.consumed), ht]
      rfl
    · apply name_notMem_reservedWords hp
      rw [ht]
      decide

theorem ne_marker_of_spells_typeName {t : String}
    (h : grammar.Spells (.tight ((placeholder "ID" <|> name ++ many (text "." ++ name)) ++
      many (text "[" ++ text "]"))) t) : t ≠ "_" := by
  obtain ⟨_, _, p, hp, rfl⟩ := h
  intro ht
  have hchars : p.consumed = ['_'] := by
    rw [← String.toList_ofList (l := p.consumed), ht]
    rfl
  cases hp with
  | tight hp =>
    obtain ⟨a, b, ha, hb, rfl⟩ := reads_append_iff.mp hp
    rcases reads_orElse ha with ⟨ha, -⟩ | ⟨-, ha⟩
    · have hne := ha.consumed_ne_nil bounds.rule_consumes rfl
      apply head_of_reads_placeholder ha
      rw [← List.head?_append_of_ne_nil _ hne]
      exact congrArg List.head? hchars
    · obtain ⟨c, d, hc, hd, rfl⟩ := reads_append_iff.mp ha
      -- The first name is all of the text.
      have hc' : c.consumed = ['_'] := by
        have hne := (reads_name hc).1
        change (c.consumed ++ d.consumed) ++ b.consumed = ['_'] at hchars
        rw [List.append_assoc] at hchars
        cases hconsumed : c.consumed with
        | nil => exact absurd hconsumed hne
        | cons x xs =>
          rw [hconsumed, List.cons_append, List.cons.injEq, List.append_eq_nil_iff] at hchars
          rw [hchars.1, hchars.2.1]
      apply name_notMem_reservedWords hc
      rw [hc']
      decide

end ChangeQuery.ChangeGrammar
