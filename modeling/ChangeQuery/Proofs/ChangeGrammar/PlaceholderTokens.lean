import ChangeQuery.Proofs.ChangeGrammar.Tokens
import ChangeQuery.Proofs.Comparison.Pieces
import ChangeQuery.Proofs.Placeholder.Longest

/-!
## Placeholders among the tokens of a change

The grammar says where placeholders may stand, and keeps their names from being read as anything else.
Afterwards a token is known by its text alone.  Both ways lead to the same placeholders, with one
exception: the brackets of an array type belong to the token of the type, and a placeholder with brackets
behind it is plain code.

* `Begins`: a text begins with a name that ends there.
* `cases_of_spells_identifier`, `cases_of_spells_typeName`, `cases_of_spells_literal`: the tokens of names
  and literals.
* `IsSideNode.agrees`: the tokens directly below a construct of a side.
* `Parser.kind_of_tokens`: the tokens of every change that the parser accepts.
* `Parser.not_kind_of_tokens`: a placeholder with brackets.
-/

namespace ChangeQuery

namespace ChangeGrammar

open Grammar
open Peg (text one many option notFollowedBy)
open Placeholder (Names Table kindOfText numberedText wildcardText emptyText)

/-! ### Texts that begin with a name -/

/-- The text begins with the name, and the name ends there. -/
def Begins (name t : String) : Prop :=
  ∃ rest, t.toList = name.toList ++ rest ∧ ∀ c ∈ rest.head?, isNameChar c = false

variable {name t : String}

/-- A name goes on up to the first character that cannot stand in one. -/
theorem takeWhile_isNameChar {word rest : List Char} (hword : ∀ c ∈ word, isNameChar c = true)
    (hrest : ∀ c ∈ rest.head?, isNameChar c = false) : (word ++ rest).takeWhile isNameChar = word := by
  have hnil : rest.takeWhile isNameChar = [] := by
    cases rest with
    | nil => rfl
    | cons c rest => exact List.takeWhile_cons_of_neg (by simp [hrest c rfl])
  rw [List.takeWhile_append_of_pos hword, hnil, List.append_nil]

/-- The name is all that can be read as one. -/
theorem begins_iff (h : ∀ c ∈ name.toList, isNameChar c = true) :
    Begins name t ↔ t.toList.takeWhile isNameChar = name.toList := by
  constructor
  · rintro ⟨rest, heq, hrest⟩
    rw [heq, takeWhile_isNameChar h hrest]
  · intro heq
    refine ⟨t.toList.dropWhile isNameChar, ?_, ?_⟩
    · rw [← heq, List.takeWhile_append_dropWhile]
    · intro c hc
      have hnot := List.head?_dropWhile_not isNameChar t.toList
      rw [Option.mem_def.mp hc] at hnot
      simpa using hnot

theorem isNameChar_of_default :
    ∀ name ∈ Names.default.toList, ∀ c ∈ name.toList, isNameChar c = true := by
  have hall : (Names.default.toList.all fun name => name.toList.all isNameChar) = true := by decide
  intro name hname
  exact List.all_eq_true.mp (List.all_eq_true.mp hall name hname)

/-- A text begins with at most one of the built-in names. -/
theorem Begins.unique {other : String} (hname : name ∈ Names.default.toList)
    (hother : other ∈ Names.default.toList) (h : Begins name t) (h' : Begins other t) : name = other := by
  rw [begins_iff (isNameChar_of_default name hname)] at h
  rw [begins_iff (isNameChar_of_default other hother)] at h'
  exact String.toList_inj.mp (h.symm.trans h')

/-! ### Placeholders and other texts -/

/-- The text of a placeholder, bare or numbered. -/
def IsPlaceholder (name t : String) : Prop :=
  t = name ∨ ∃ variant, t = numberedText name variant

/-- The text is not read as a placeholder, and begins with no name of one. -/
def IsUnnamed (t : String) : Prop :=
  (kindOfText .default t).name? = none ∧ ∀ name ∈ Names.default.toList, ¬ Begins name t

theorem isUnnamed_iff : IsUnnamed t ↔ (kindOfText .default t).name? = none ∧
    ∀ name ∈ Names.default.toList, t.toList.takeWhile isNameChar ≠ name.toList :=
  and_congr_right' (forall₂_congr fun name hname =>
    not_congr (begins_iff (isNameChar_of_default name hname)))

instance (t : String) : Decidable (IsUnnamed t) :=
  decidable_of_iff _ isUnnamed_iff.symm

theorem IsPlaceholder.begins (h : IsPlaceholder name t) : Begins name t := by
  rcases h with rfl | ⟨variant, rfl⟩
  · exact ⟨[], (List.append_nil _).symm, by simp⟩
  · refine ⟨_, Placeholder.toList_numberedText name variant, fun c hc => ?_⟩
    obtain rfl := Option.some.inj hc
    decide

/-- **A placeholder is read as what it is**. -/
theorem IsPlaceholder.name? (h : IsPlaceholder name t) (hname : name ∈ Names.default.toList) :
    (kindOfText .default t).name? = some name := by
  rcases h with rfl | ⟨variant, rfl⟩
  · exact (by decide : ∀ t ∈ Names.default.toList, (kindOfText .default t).name? = some t) t hname
  · have hkind : kindOfText .default (numberedText name variant) = .numbered name variant :=
      Placeholder.kindOfText_numberedText hname variant
    rw [hkind]
    rfl

theorem IsPlaceholder.last_ne (h : IsPlaceholder name t) (hname : name ∈ Names.default.toList) :
    t.toList.getLast? ≠ some ']' := by
  rcases h with rfl | ⟨variant, rfl⟩
  · exact (by decide : ∀ t ∈ Names.default.toList, t.toList.getLast? ≠ some ']') t hname
  · rw [Placeholder.toList_numberedText, ← List.cons_append, ← List.append_assoc, List.getLast?_concat]
    decide

/-- **A text that ends with a bracket** is not read as a placeholder. -/
theorem name?_eq_none_of_last (h : t.toList.getLast? = some ']') :
    (kindOfText .default t).name? = none := by
  rw [Option.eq_none_iff_forall_ne_some]
  intro name hname
  rcases Placeholder.cases_of_name? hname with rfl | ⟨-, -, hclosed⟩
  · exact IsPlaceholder.last_ne (.inl rfl) (Placeholder.mem_of_kindOfText hname) h
  · rw [h] at hclosed
    exact absurd hclosed (by decide)

/-- The first letters of the built-in names. -/
def firstLetters : List Char :=
  ['b', 'E', 'I', 'L', 'O']

/-- A text that begins with a built-in name begins with one of the letters. -/
theorem head?_of_prefix (hname : name ∈ Names.default.toList) (h : name.toList <+: t.toList) :
    ∃ x ∈ firstLetters, t.toList.head? = some x := by
  have hall : (Names.default.toList.all fun name => name.toList.head?.any firstLetters.contains) = true := by
    decide
  obtain ⟨x, hhead, hx⟩ := (Option.any_eq_true _ _).mp (List.all_eq_true.mp hall name hname)
  refine ⟨x, List.contains_iff_mem.mp hx, ?_⟩
  obtain ⟨rest, heq⟩ := h
  rw [← heq, List.head?_append, hhead, Option.some_or]

/-- A text that begins with another letter. -/
theorem isUnnamed_of_head (h : ∀ x ∈ firstLetters, t.toList.head? ≠ some x) : IsUnnamed t := by
  have hnone : ∀ name ∈ Names.default.toList, ¬ name.toList <+: t.toList := by
    intro name hname hbegins
    obtain ⟨x, hx, hhead⟩ := head?_of_prefix hname hbegins
    exact h x hx hhead
  constructor
  · rw [Option.eq_none_iff_forall_ne_some]
    intro name hname
    refine hnone name (Placeholder.mem_of_kindOfText hname) ?_
    rcases Placeholder.cases_of_name? hname with rfl | ⟨hbegins, -, -⟩
    · exact List.prefix_refl _
    · exact hbegins
  · rintro name hname ⟨rest, heq, -⟩
    exact hnone name hname ⟨rest, heq.symm⟩

/-- A text that begins with a name of the language and holds no `<`. -/
theorem isUnnamed_of_reserved (h : String.ofList (t.toList.takeWhile isNameChar) ∉ reservedWords)
    (hopen : '<' ∉ t.toList) : IsUnnamed t := by
  have hreserved : ∀ name ∈ Names.default.toList, name ∈ reservedWords := by decide
  rw [isUnnamed_iff]
  have hname : ∀ name ∈ Names.default.toList, t.toList.takeWhile isNameChar ≠ name.toList := by
    intro name hname heq
    rw [heq, String.ofList_toList] at h
    exact h (hreserved name hname)
  refine ⟨?_, hname⟩
  rw [Option.eq_none_iff_forall_ne_some]
  intro name hread
  have hmem := Placeholder.mem_of_kindOfText hread
  rcases Placeholder.cases_of_name? hread with rfl | ⟨-, hmark, -⟩
  · have hwhole := @takeWhile_isNameChar t.toList [] (isNameChar_of_default t hmem) (by simp)
    rw [List.append_nil] at hwhole
    exact hname t hmem hwhole
  · exact hopen hmark

/-! ### Readers of tokens -/

variable {g : Grammar Rule} {s : Bool} {input : List Char} {p : Parsed}

/-- The name of the placeholder that the expression reads, if it reads one.  What stands between the
brackets of a variant makes no difference. -/
def placeholderName? : Reader → Option String
  | .seq (.seq (.chars name) (.option (.seq (.seq (.chars opening) _) (.chars closing))))
      (.notFollowedBy _) =>
    if opening = "<".toList ∧ closing = ">".toList then some (String.ofList name) else none
  | _ => none

theorem placeholderName?_placeholder (name : String) : placeholderName? (placeholder name) = some name :=
  congrArg some String.ofList_toList

/-- **A placeholder** is its name, or the name with a variant. -/
theorem isPlaceholder_of_reads {body : Reader} (hbody : placeholderName? body = some name)
    (h : Reads g false (.expr body) input (some p)) : IsPlaceholder name (String.ofList p.consumed) := by
  unfold placeholderName? at hbody
  split at hbody
  · rename_i word opening inner closing ahead
    split_ifs at hbody with hbrackets
    obtain ⟨rfl, rfl⟩ := hbrackets
    obtain rfl := Option.some.inj hbody
    obtain ⟨ab, c, hab, hc, rfl⟩ := reads_append_iff.mp h
    obtain ⟨a, b, ha, hb, rfl⟩ := reads_append_iff.mp hab
    have hend : c.consumed = [] := by
      cases hc
      rfl
    have hword : a.consumed = word := by
      cases ha
      rfl
    show IsPlaceholder _ (String.ofList ((a.consumed ++ b.consumed) ++ c.consumed))
    rw [hend, hword, List.append_nil]
    cases hb with
    | option_nothing =>
      left
      show String.ofList (word ++ []) = String.ofList word
      rw [List.append_nil]
    | option hb =>
      right
      obtain ⟨de, f, hde, hf, rfl⟩ := reads_append_iff.mp hb
      obtain ⟨d, e, hd, -, rfl⟩ := reads_append_iff.mp hde
      refine ⟨String.ofList e.consumed, String.toList_inj.mp ?_⟩
      have hvariant : ((d.andThen e).andThen f).consumed = '<' :: (e.consumed ++ ['>']) := by
        show (d.consumed ++ e.consumed) ++ f.consumed = _
        rw [reads_text hd, reads_text hf]
        simp
      rw [hvariant, Placeholder.toList_numberedText]
      simp only [String.toList_ofList]
  · cases hbody

/-- **Names** are not read as placeholders. -/
theorem isUnnamed_of_reads_name {more : List Char}
    (h : Reads g false (.expr ChangeGrammar.name) input (some p))
    (hmore : ∀ c ∈ more.head?, isNameChar c = false) (hopen : '<' ∉ more) :
    IsUnnamed (String.ofList (p.consumed ++ more)) := by
  have hchars := isNameChar_of_reads_name h
  apply isUnnamed_of_reserved
  · rw [String.toList_ofList, takeWhile_isNameChar hchars hmore]
    exact name_notMem_reservedWords h
  · rw [String.toList_ofList, List.mem_append, not_or]
    refine ⟨fun hmem => ?_, hopen⟩
    exact absurd (hchars _ hmem) (by decide)

/-- **An identifier** is a placeholder, or is not read as one. -/
theorem cases_of_spells_identifier (h : g.Spells (.tight (placeholder "ID" <|> ChangeGrammar.name)) t) :
    IsPlaceholder "ID" t ∨ IsUnnamed t := by
  obtain ⟨_, _, p, hp, rfl⟩ := h
  cases hp with
  | tight hp =>
    rcases reads_orElse hp with ⟨hp, -⟩ | ⟨-, hp⟩
    · exact .inl (isPlaceholder_of_reads (placeholderName?_placeholder _) hp)
    · have hname := @isUnnamed_of_reads_name g _ p [] hp (by simp) List.not_mem_nil
      rw [List.append_nil] at hname
      exact .inr hname

/-- The brackets of an array type. -/
def arrayBrackets : Reader :=
  many (text "[" ++ text "]")

/-- Brackets stand at both ends of what is read, if anything is. -/
theorem ends_of_reads_arrayBrackets (h : Reads g false (.expr arrayBrackets) input (some p)) :
    p.consumed = [] ∨ p.consumed.head? = some '[' ∧ p.consumed.getLast? = some ']' := by
  unfold arrayBrackets at h
  induction h using Reads.many_induct with
  | nothing => exact .inl rfl
  | @andThen _ a b ha _ _ ih =>
    right
    have hround : a.consumed = ['[', ']'] := by
      obtain ⟨c, d, hc, hd, rfl⟩ := reads_append_iff.mp ha
      show c.consumed ++ d.consumed = _
      rw [reads_text hc, reads_text hd]
      rfl
    show (a.consumed ++ b.consumed).head? = _ ∧ (a.consumed ++ b.consumed).getLast? = _
    rw [hround]
    refine ⟨rfl, ?_⟩
    rcases ih with hnil | ⟨-, hlast⟩
    · rw [hnil]
      rfl
    · rw [List.getLast?_append, hlast, Option.some_or]

/-- What can follow the first name of a type: further names behind points, and brackets. -/
theorem isUnnamed_of_reads_typeName
    (h : Reads g false (.expr (ChangeGrammar.name ++ many (text "." ++ ChangeGrammar.name))) input (some p))
    {q : Parsed} (hq : Reads g false (.expr arrayBrackets) p.rest (some q)) :
    IsUnnamed (String.ofList (p.consumed ++ q.consumed)) := by
  obtain ⟨a, b, ha, hb, rfl⟩ := reads_append_iff.mp h
  show IsUnnamed (String.ofList ((a.consumed ++ b.consumed) ++ q.consumed))
  rw [List.append_assoc]
  apply isUnnamed_of_reads_name ha
  · -- What is read next is what remains behind the name.
    intro c hc
    obtain ⟨-, hrest, -⟩ := reads_name ha
    apply hrest c
    have hinput : b.consumed ++ q.consumed ++ q.rest = a.rest := by
      have hbehind := hq.append_rest
      change q.consumed ++ q.rest = b.rest at hbehind
      rw [List.append_assoc, hbehind, hb.append_rest]
    rw [← hinput, List.head?_append, Option.mem_def.mp hc, Option.some_or]
    rfl
  · rw [List.mem_append, not_or]
    exact ⟨hb.notMem_consumed (by decide), hq.notMem_consumed (by decide)⟩

/-- **The name of a type** is a placeholder, possibly with brackets behind it, or is not read as one. -/
theorem cases_of_spells_typeName (h : g.Spells (.tight ((placeholder "ID" <|>
      ChangeGrammar.name ++ many (text "." ++ ChangeGrammar.name)) ++ many (text "[" ++ text "]"))) t) :
    IsPlaceholder "ID" t ∨ IsUnnamed t ∨ Begins "ID" t ∧ t.toList.getLast? = some ']' := by
  obtain ⟨_, _, p, hp, rfl⟩ := h
  cases hp with
  | tight hp =>
    obtain ⟨a, b, ha, hb, rfl⟩ := reads_append_iff.mp hp
    rcases reads_orElse ha with ⟨ha, -⟩ | ⟨-, ha⟩
    · have hplaceholder := isPlaceholder_of_reads (placeholderName?_placeholder _) ha
      show IsPlaceholder "ID" (String.ofList (a.consumed ++ b.consumed)) ∨ _
      rcases ends_of_reads_arrayBrackets hb with hnil | ⟨hfirst, hlast⟩
      · rw [hnil, List.append_nil]
        exact .inl hplaceholder
      · refine .inr (.inr ⟨?_, ?_⟩)
        · obtain ⟨rest, heq, hrest⟩ := hplaceholder.begins
          refine ⟨rest ++ b.consumed, ?_, ?_⟩
          · rw [String.toList_ofList] at heq ⊢
            show a.consumed ++ b.consumed = _
            rw [heq, List.append_assoc]
          · intro c hc
            cases rest with
            | nil =>
              rw [List.nil_append, hfirst] at hc
              obtain rfl := Option.some.inj hc
              decide
            | cons d rest => exact hrest c hc
        · rw [String.toList_ofList]
          show (a.consumed ++ b.consumed).getLast? = _
          rw [List.getLast?_append, hlast, Option.some_or]
    · exact .inr (.inl (isUnnamed_of_reads_typeName ha hb))

/-- The expression does not begin with a letter of the built-in names, or reads words that are not read as
placeholders. -/
def readsUnnamed (s : Bool) (body : Reader) : Bool :=
  firstLetters.all (fun x => body.avoids x false s) ||
    (body.words? s).any fun ws => ws.all fun w => decide (IsUnnamed (String.ofList w))

theorem isUnnamed_of_reads {body : Reader} (h : Reads grammar s (.expr body) input (some p))
    (hbody : readsUnnamed s body = true) : IsUnnamed (String.ofList p.consumed) := by
  rcases Bool.or_eq_true_iff.mp hbody with havoids | hwords
  · apply isUnnamed_of_head
    intro x hx
    rw [String.toList_ofList]
    refine h.head_consumed_ne bounds.rule_consumes ?_ (List.all_eq_true.mp havoids x hx)
    exact fun hgap => absurd hgap Bool.false_ne_true
  · obtain ⟨ws, hws, hall⟩ := (Option.any_eq_true _ _).mp hwords
    exact of_decide_eq_true (List.all_eq_true.mp hall _ (h.consumed_mem_words hws))

/-- **A literal** is a placeholder, or is not read as one. -/
theorem cases_of_spells_literal (h : grammar.Spells (.tight (placeholder "LT" <|> floatLiteral <|>
      hexLiteral <|> intLiteral <|> quotedLiteral "\"" <|> quotedLiteral "'" <|>
      oneOf "true" ["false", "null"] ++ endOfName)) t) :
    IsPlaceholder "LT" t ∨ IsUnnamed t := by
  obtain ⟨_, _, p, hp, rfl⟩ := h
  cases hp with
  | tight hp =>
    rcases reads_orElse hp with ⟨hp, -⟩ | ⟨-, hp⟩
    · exact .inl (isPlaceholder_of_reads (placeholderName?_placeholder _) hp)
    · exact .inr (isUnnamed_of_reads hp (by decide))

/-! ### The tokens of a side -/

/-- What is known of a token below a construct: it is a placeholder, it is not read as one, or it is a
placeholder for a type with brackets behind it. -/
def Agrees (construct t : String) : Prop :=
  (∃ name ∈ Names.default.toList, IsPlaceholder name t) ∨ IsUnnamed t ∨
    construct = "type_name" ∧ Begins "ID" t ∧ t.toList.getLast? = some ']'

/-- The token is that of a built-in placeholder. -/
def isPlaceholderToken : Reader → Bool
  | .tight body => (placeholderName? body).any fun name => Names.default.toList.contains name
  | _ => false

/-- The token is that of a built-in placeholder, or is not read as one. -/
def agreesToken (body : Reader) : Bool :=
  isPlaceholderToken body || [false, true].all fun s => readsUnnamed s body

/-- The constructs with tokens that are not seen to agree from their expressions alone. -/
def nameConstructs : List String :=
  ["literal", "identifier", "type_name"]

set_option maxRecDepth 2000 in
theorem rules_agree (rule : Rule) :
    (grammar.rule rule).roots agreesToken (fun _ => true) true = true := by
  cases rule <;> decide

set_option maxRecDepth 2000 in
theorem sideBranches_agree : ∀ b ∈ sideBranches, b.1 ∉ nameConstructs →
    b.2.roots agreesToken (fun _ => true) true = true := by
  decide

theorem agrees_of_spells {construct : String} {body : Reader} (hbody : agreesToken body = true)
    (h : grammar.Spells body t) : Agrees construct t := by
  obtain ⟨s, _, p, hp, rfl⟩ := h
  rcases Bool.or_eq_true_iff.mp hbody with hplaceholder | hunnamed
  · left
    unfold isPlaceholderToken at hplaceholder
    split at hplaceholder
    · obtain ⟨name, hname, hlisted⟩ := (Option.any_eq_true _ _).mp hplaceholder
      cases hp with
      | tight hp => exact ⟨name, List.contains_iff_mem.mp hlisted, isPlaceholder_of_reads hname hp⟩
    · cases hplaceholder
  · exact .inr (.inl (isUnnamed_of_reads hp (List.all_eq_true.mp hunnamed s (by cases s <;> decide))))

/-- **The tokens of a side** are read as the grammar has it, except for placeholders with brackets. -/
theorem IsSideNode.agrees {construct : String} {cs items : List (Rose Label)}
    (h : IsSideNode (.node (.construct construct) cs)) (hmem : .node (.token t) items ∈ cs) :
    Agrees construct t := by
  obtain ⟨reader, hreader, hleaves⟩ := h.exists_body
  by_cases hconstruct : construct ∈ nameConstructs
  · simp only [nameConstructs, List.mem_cons, List.not_mem_nil, or_false] at hconstruct
    rcases hconstruct with rfl | rfl | rfl
    · obtain rfl := body_eq_of_named (Peg.token (placeholder "LT" <|> floatLiteral <|> hexLiteral <|>
        intLiteral <|> quotedLiteral "\"" <|> quotedLiteral "'" <|>
        oneOf "true" ["false", "null"] ++ endOfName)) rfl hreader
      obtain ⟨t', ht, rfl⟩ := leaves_token_iff.mp hleaves
      cases List.mem_singleton.mp hmem
      rcases cases_of_spells_literal ht with hplaceholder | hunnamed
      · exact .inl ⟨"LT", by decide, hplaceholder⟩
      · exact .inr (.inl hunnamed)
    · obtain rfl := body_eq_of_named (Peg.token (placeholder "ID" <|> ChangeGrammar.name)) rfl hreader
      obtain ⟨t', ht, rfl⟩ := leaves_token_iff.mp hleaves
      cases List.mem_singleton.mp hmem
      rcases cases_of_spells_identifier ht with hplaceholder | hunnamed
      · exact .inl ⟨"ID", by decide, hplaceholder⟩
      · exact .inr (.inl hunnamed)
    · obtain rfl := body_eq_of_named (Peg.token ((placeholder "ID" <|>
        ChangeGrammar.name ++ many (text "." ++ ChangeGrammar.name)) ++ many (text "[" ++ text "]")))
        rfl hreader
      obtain ⟨t', ht, rfl⟩ := leaves_token_iff.mp hleaves
      cases List.mem_singleton.mp hmem
      rcases cases_of_spells_typeName ht with hplaceholder | hunnamed | hbrackets
      · exact .inl ⟨"ID", by decide, hplaceholder⟩
      · exact .inr (.inl hunnamed)
      · exact .inr (.inr ⟨rfl, hbrackets⟩)
  · obtain ⟨-, body, hbody, hspells⟩ := hleaves.isRoot (fun _ => rules_agree)
      (sideBranches_agree _ hreader hconstruct) _ hmem
    exact agrees_of_spells hbody hspells

namespace Agrees

variable {construct : String}

/-- **Placeholders are known by their texts**, but for those with brackets behind them. -/
theorem name?_eq_some_iff (h : Agrees construct t) : (kindOfText .default t).name? = some name ↔
    name ∈ Names.default.toList ∧ Begins name t ∧ t.toList.getLast? ≠ some ']' := by
  constructor
  · intro hname
    have hmem := Placeholder.mem_of_kindOfText hname
    rcases h with ⟨other, hother, hplaceholder⟩ | hunnamed | ⟨-, -, hlast⟩
    · rw [hplaceholder.name? hother] at hname
      obtain rfl := Option.some.inj hname
      exact ⟨hmem, hplaceholder.begins, hplaceholder.last_ne hmem⟩
    · rw [hunnamed.1] at hname
      cases hname
    · rw [name?_eq_none_of_last hlast] at hname
      cases hname
  · rintro ⟨hmem, hbegins, hlast⟩
    rcases h with ⟨other, hother, hplaceholder⟩ | hunnamed | ⟨-, -, hbracket⟩
    · obtain rfl := hbegins.unique hmem hother hplaceholder.begins
      exact hplaceholder.name? hmem
    · exact absurd hbegins (hunnamed.2 name hmem)
    · exact absurd hbracket hlast

/-- Only a placeholder for a type can have brackets behind it. -/
theorem of_brackets (h : Agrees construct t) (hname : name ∈ Names.default.toList) (hbegins : Begins name t)
    (hlast : t.toList.getLast? = some ']') : name = "ID" ∧ construct = "type_name" := by
  rcases h with ⟨other, hother, hplaceholder⟩ | hunnamed | ⟨rfl, hID, -⟩
  · exact absurd hlast (hplaceholder.last_ne hother)
  · exact absurd hbegins (hunnamed.2 name hname)
  · exact ⟨hbegins.unique hname (by decide) hID, rfl⟩

end Agrees

end ChangeGrammar

/-- The same of the tokens of a side, as nodes below others. -/
theorem OfSide.agrees {n c : Node} (h : OfSide n) (hc : c ∈ n.children) (htoken : c.isToken = true) :
    ChangeGrammar.Agrees n.label c.label := by
  obtain ⟨cs, items, hself, hmem⟩ := h.exists_token_below hc htoken
  exact hself.agrees hmem

open ChangeGrammar (Begins Agrees)
open Placeholder (Names Table kindOfText wildcardText emptyText)

namespace Parser

variable {v w : Vocabulary} {source : String} {tree : Tree}

/-- Every token of a change is read as the grammar has it, except for placeholders of types with brackets. -/
theorem exists_agrees (h : java.tree v source = .ok (w, tree)) {s : Site} (hs : s ∈ tree.sites)
    (htoken : s.node.isToken = true) :
    s.node.labels = .leaf (.token s.node.label) ∧ ∃ construct, Agrees construct s.node.label ∧
      (construct = "type_name" → ∃ p, s.parent? = some p ∧ p.label = "type_name") := by
  have hroot : ∀ t, s.node.labels = .leaf (.token t) → ChangeGrammar.IsUnnamed t →
      s.node.labels = .leaf (.token s.node.label) ∧ ∃ construct, Agrees construct s.node.label ∧
        (construct = "type_name" → ∃ p, s.parent? = some p ∧ p.label = "type_name") := by
    intro t hlabels hunnamed
    have hlabel : s.node.label = t := Node.label_of_labels hlabels
    rw [hlabel]
    exact ⟨hlabels, "change", .inr (.inl hunnamed), fun heq => absurd heq (by decide)⟩
  rcases cases_of_isToken h hs htoken with ⟨-, hbreak | harrow⟩ | ⟨p, hparent, hside, hnode⟩
  · exact hroot _ hbreak (by decide)
  · exact hroot _ harrow (by decide)
  · refine ⟨(hside.child hnode).labels_of_isToken htoken, p.label, ?_, fun hp => ⟨p, hparent, hp⟩⟩
    exact hside.agrees hnode htoken

/-- **Placeholders among the tokens**: a token of a change that the parser accepts is read as a
placeholder exactly if it begins with the name, unless it ends with a bracket; then the name is that of a
placeholder for a type.  Every other token is plain code, apart from the wildcard and the marker of an
empty side. -/
theorem kind_of_tokens (h : java.tree v source = .ok (w, tree)) {s : Site} (hs : s ∈ tree.sites)
    (htoken : s.node.isToken = true) :
    Table.default.kind s.node = kindOfText .default s.node.label ∧
    (∀ name, (Table.default.kind s.node).name? = some name ↔ name ∈ Names.default.toList ∧
      Begins name s.node.label ∧ s.node.label.toList.getLast? ≠ some ']') ∧
    (Table.default.kind s.node = .plain ↔ s.node.label ≠ wildcardText ∧ s.node.label ≠ emptyText ∧
      ∀ name ∈ Names.default.toList, Begins name s.node.label →
        s.node.label.toList.getLast? = some ']') ∧
    ∀ name ∈ Names.default.toList, Begins name s.node.label →
      s.node.label.toList.getLast? = some ']' →
        name = "ID" ∧ ∃ p, s.parent? = some p ∧ p.label = "type_name" := by
  obtain ⟨hlabels, construct, hagrees, hparent⟩ := exists_agrees h hs htoken
  have hkind : Table.default.kind s.node = kindOfText .default s.node.label :=
    Placeholder.kind_of_token hlabels
  rw [hkind]
  refine ⟨rfl, fun name => hagrees.name?_eq_some_iff, ?_, ?_⟩
  · rw [Placeholder.kindOfText_eq_plain_iff, Option.eq_none_iff_forall_ne_some]
    refine and_congr_right' (and_congr_right' ⟨fun hnone name hname hbegins => ?_,
      fun hlast name hname => ?_⟩)
    · by_contra hlast
      exact hnone name (hagrees.name?_eq_some_iff.mpr ⟨hname, hbegins, hlast⟩)
    · obtain ⟨hmem, hbegins, hne⟩ := hagrees.name?_eq_some_iff.mp hname
      exact hne (hlast name hmem hbegins)
  · intro name hname hbegins hlast
    obtain ⟨hID, hconstruct⟩ := hagrees.of_brackets hname hbegins hlast
    exact ⟨hID, hparent hconstruct⟩

/-- A placeholder next to an identifier that begins with the same letters. -/
theorem kind_of_tokens_numbered :
    ∃ w tree, java.tree ⟨0, []⟩ "IDs(ID<1>); -> _" = .ok (w, tree) ∧
      ∃ s ∈ tree.sites, s.node.isToken = true ∧ s.node.label = "ID<1>" ∧
        (Table.default.kind s.node).name? = some "ID" := by
  obtain ⟨w, tree, htree, s, hs, htoken, hlabel⟩ := exists_site_of_hasToken
    (by decide +kernel : hasNode "IDs(ID<1>); -> _" (isTokenWith "ID<1>") = true)
  obtain ⟨-, hname, -, -⟩ := kind_of_tokens htree hs htoken
  refine ⟨w, tree, htree, s, hs, htoken, hlabel, (hname "ID").mpr ⟨by decide, ?_, ?_⟩⟩
  · refine ⟨"<1>".toList, by rw [hlabel]; rfl, fun c hc => ?_⟩
    obtain rfl := Option.some.inj hc
    decide
  · rw [hlabel]
    decide

/-- **A placeholder with brackets** is not read as one, although it begins with the name. -/
theorem not_kind_of_tokens :
    ¬ ∀ (v w : Vocabulary) (source : String) (tree : Tree), java.tree v source = .ok (w, tree) →
      ∀ s ∈ tree.sites, s.node.isToken = true → ∀ name, (Table.default.kind s.node).name? = some name ↔
        name ∈ Names.default.toList ∧ Begins name s.node.label := by
  intro h
  obtain ⟨w, tree, htree, s, hs, htoken, hlabel⟩ := exists_site_of_hasToken
    (by decide +kernel : hasNode "ID[] x; -> y;" (isTokenWith "ID[]") = true)
  obtain ⟨hlabels, -⟩ := exists_agrees htree hs htoken
  have hbegins : Begins "ID" s.node.label := by
    refine ⟨"[]".toList, by rw [hlabel]; rfl, fun c hc => ?_⟩
    obtain rfl := Option.some.inj hc
    decide
  have hname := (h _ _ _ _ htree s hs htoken "ID").mpr ⟨by decide, hbegins⟩
  rw [Placeholder.kind_of_token hlabels, hlabel] at hname
  exact absurd hname (by decide)

end Parser

end ChangeQuery
