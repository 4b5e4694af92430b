import ChangeQuery.Proofs.Tree.Labels
import ChangeQuery.SExpr

/-!
## Reading what was written

A written tree is cut into the brackets and atoms that it was put together from, and these are
assembled to the same tree.

* `lex_writeAtom`: an atom is read back as one piece, whether it stands in quotes or not.
* `cuts`: a written tree is cut into the pieces of the tree.
* `TokensBare.assembles`: the pieces of a tree become the next child of the group around them.
* `read?_write`: a tree with nothing below its tokens is read back.

All statements have more text or more pieces behind what is read.  Behind an atom there is a gap, a
closing bracket or nothing, because a bare word goes on otherwise.
-/

namespace ChangeQuery.SExpr

/-! ### Atoms -/

/-- A bare word ends in front of this text. -/
def EndsWord (rest : List Char) : Prop :=
  ∀ c ∈ rest.head?, isGap c = true ∨ c = ')'

/-- The character can stand in a bare word. -/
def isBareChar (c : Char) : Bool :=
  !(Text.isBlank c || c == '(' || c == ')' || c == '"' || c == '\\')

theorem isBare_iff {text : List Char} :
    isBare text = true ↔ text ≠ [] ∧ ∀ c ∈ text, isBareChar c = true := by
  simp [isBare, isBareChar]

/-- Gaps are blanks, so no bare word holds one. -/
theorem isGap_eq_false {c : Char} (h : isBareChar c = true) : isGap c = false := by
  rw [Bool.eq_false_iff]
  intro hgap
  simp only [isGap, Bool.or_eq_true, beq_iff_eq] at hgap
  rcases hgap with ((rfl | rfl) | rfl) | rfl <;> exact absurd h (by decide)

theorem lexFrom_bare {text : List Char} (h : ∀ c ∈ text, isBareChar c = true) (rest : List Char) :
    ∀ word, lexFrom (.outside word) (text ++ rest) =
      lexFrom (.outside (text.reverse ++ word)) rest := by
  induction text with
  | nil => exact fun _ => rfl
  | cons c text ih =>
    intro word
    have hc := h c List.mem_cons_self
    have hgap := isGap_eq_false hc
    simp only [isBareChar, Bool.not_eq_true', Bool.or_eq_false_iff, beq_eq_false_iff_ne] at hc
    obtain ⟨⟨⟨⟨-, hopen⟩, hclose⟩, hquote⟩, -⟩ := hc
    rw [List.cons_append, lexFrom, if_neg (by rw [hgap]; exact Bool.false_ne_true), if_neg hopen,
      if_neg hclose, if_neg hquote, ih fun c' hc' => h c' (List.mem_cons_of_mem c hc')]
    simp

theorem closeWord_nil : closeWord [] = id := rfl

/-- A bare word ends where it must. -/
theorem lexFrom_endsWord {word rest : List Char} (hword : word ≠ []) (hrest : EndsWord rest) :
    lexFrom (.outside word) rest =
      (lexFrom (.outside []) rest).map (.atom word.reverse :: ·) := by
  have hclose : closeWord word = (.atom word.reverse :: ·) := by
    funext lexemes
    rw [closeWord, if_neg (by simpa [List.isEmpty_iff] using hword)]
  cases rest with
  | nil => rw [lexFrom, lexFrom, hclose, closeWord_nil]; rfl
  | cons c rest =>
    rcases hrest c rfl with hgap | rfl
    · rw [lexFrom, lexFrom, if_pos hgap, if_pos hgap, hclose, closeWord_nil, Option.map_id]
      rfl
    · have hgap : ¬ isGap ')' = true := by decide
      have hopen : ¬ (')' : Char) = '(' := by decide
      rw [lexFrom, lexFrom, if_neg hgap, if_neg hgap, if_neg hopen, if_neg hopen, if_pos rfl,
        if_pos rfl, Option.map_map, hclose, closeWord_nil]
      rfl

/-- Every text is read back from between quotes. -/
theorem lexFrom_escape (text rest : List Char) : ∀ read,
    lexFrom (.quoted read) (escape text ++ '"' :: rest) =
      (lexFrom (.outside []) rest).map (.atom (read.reverse ++ text) :: ·) := by
  induction text with
  | nil =>
    intro read
    rw [escape, List.nil_append, lexFrom, if_pos rfl, List.append_nil]
  | cons c text ih =>
    intro read
    have hnext := ih (c :: read)
    rw [List.reverse_cons, List.append_assoc, List.singleton_append] at hnext
    by_cases hc : c = '"' ∨ c = '\\'
    · have hbackslash : ¬ ('\\' : Char) = '"' := by decide
      rw [escape, if_pos hc, List.cons_append, List.cons_append, lexFrom, if_neg hbackslash,
        if_pos rfl, lexFrom, hnext]
    · rw [not_or] at hc
      rw [escape, if_neg (not_or.mpr hc), List.cons_append, lexFrom, if_neg hc.1, if_neg hc.2,
        hnext]

/-- **An atom is one piece**, in quotes or not. -/
theorem lex_writeAtom (text : String) {rest : List Char} (hrest : EndsWord rest) :
    lexFrom (.outside []) (writeAtom text ++ rest) =
      (lexFrom (.outside []) rest).map (.atom text.toList :: ·) := by
  by_cases hbare : isBare text.toList = true
  · obtain ⟨hne, hchars⟩ := isBare_iff.mp hbare
    have hword : text.toList.reverse ++ [] ≠ [] := by simpa using hne
    rw [writeAtom, if_pos hbare, lexFrom_bare hchars, lexFrom_endsWord hword hrest,
      List.append_nil, List.reverse_reverse]
  · have hgap : ¬ isGap '"' = true := by decide
    have hopen : ¬ ('"' : Char) = '(' := by decide
    have hclose : ¬ ('"' : Char) = ')' := by decide
    rw [writeAtom, if_neg hbare, List.append_assoc, List.singleton_append, List.cons_append,
      lexFrom, if_neg hgap, if_neg hopen, if_neg hclose, if_pos rfl, lexFrom_escape, closeWord_nil,
      Option.map_id]
    rfl

/-! ### Pieces -/

mutual
/-- The pieces that a tree is written with. -/
def lexemes : Rose Label → List Lexeme
  | .node (.token text) _ => [.atom text.toList]
  | .node (.construct name) children =>
    .opening :: .atom name.toList :: (lexemesEach children ++ [.closing])
/-- The pieces of trees written one after another. -/
def lexemesEach : List (Rose Label) → List Lexeme
  | [] => []
  | child :: children => lexemes child ++ lexemesEach children
end

theorem endsWord_writeEach {rest : List Char} (hrest : EndsWord rest) (cs : List (Rose Label)) :
    EndsWord (writeEach cs ++ rest) := by
  cases cs with
  | nil => exact hrest
  | cons c cs =>
    intro d hd
    rw [writeEach] at hd
    obtain rfl := Option.some.inj hd
    exact .inl (by decide)

/-- The tree as it is written is cut into its pieces. -/
def Cuts (t : Rose Label) : Prop :=
  ∀ {rest : List Char}, EndsWord rest →
    lexFrom (.outside []) (writeChars t ++ rest) =
      (lexFrom (.outside []) rest).map (lexemes t ++ ·)

/-- Trees one after another are cut into their pieces, because each has a space in front. -/
theorem lex_writeEach {cs : List (Rose Label)} (h : ∀ c ∈ cs, Cuts c) {rest : List Char}
    (hrest : EndsWord rest) :
    lexFrom (.outside []) (writeEach cs ++ rest) =
      (lexFrom (.outside []) rest).map (lexemesEach cs ++ ·) := by
  induction cs with
  | nil => exact (congrFun Option.map_id _).symm
  | cons c cs ih =>
    have hspace : isGap ' ' = true := by decide
    have hchild := h c List.mem_cons_self (endsWord_writeEach hrest cs)
    have hchildren := ih fun c' hc' => h c' (List.mem_cons_of_mem c hc')
    rw [writeEach, List.cons_append, List.cons_append, List.append_assoc, lexFrom, if_pos hspace,
      closeWord_nil, Option.map_id, id, hchild, hchildren, Option.map_map, lexemesEach]
    simp only [Function.comp_def, List.append_assoc]

/-- **A written tree is cut into its pieces.** -/
theorem cuts (t : Rose Label) : Cuts t := by
  induction t using Rose.induct with
  | node label cs ih =>
    intro rest hrest
    cases label with
    | token text =>
      rw [writeChars, lexemes, lex_writeAtom text hrest]
      rfl
    | construct name =>
      have hgapOpen : ¬ isGap '(' = true := by decide
      have hgap : ¬ isGap ')' = true := by decide
      have hopen : ¬ (')' : Char) = '(' := by decide
      have hends : EndsWord (')' :: rest) := by
        intro d hd
        obtain rfl := Option.some.inj hd
        exact .inr rfl
      rw [writeChars, List.append_assoc, List.append_assoc, List.cons_append,
        List.singleton_append, lexFrom, if_neg hgapOpen, if_pos rfl,
        lex_writeAtom name (endsWord_writeEach hends cs), lex_writeEach ih hends, lexFrom,
        if_neg hgap, if_neg hopen, if_pos rfl, closeWord_nil, lexemes]
      simp only [Option.map_map, Function.comp_def, id, List.cons_append, List.append_assoc,
        List.nil_append]

/-! ### Assembling -/

/-- There is nothing below a token. -/
def TokensBare (t : Rose Label) : Prop :=
  ∀ n ∈ t.preorder, n.value.token?.isSome = true → n.children = []

theorem TokensBare.child {t c : Rose Label} (h : TokensBare t) (hc : c ∈ t.children) :
    TokensBare c :=
  fun n hn => h n (Rose.mem_preorder_child hc hn)

/-- A token with nothing below it is the token of its text. -/
theorem TokensBare.eq_tokenOf {text : String} {cs : List (Rose Label)}
    (h : TokensBare (.node (.token text) cs)) :
    .node (.token text) cs = tokenOf text.toList := by
  obtain rfl : cs = [] := h _ (Rose.mem_preorder_self _) rfl
  rw [tokenOf, String.ofList_toList]
  rfl

/-- The pieces of the tree become the next child of the innermost open group. -/
def Assembles (t : Rose Label) : Prop :=
  ∀ (group : OpenGroup) (groups : List OpenGroup) (rest : List Lexeme),
    assemble (group :: groups) (lexemes t ++ rest) = assemble (group.push t :: groups) rest

/-- Trees one after another become the last children of the group, where the last one is first. -/
theorem assemble_lexemesEach {cs : List (Rose Label)} (h : ∀ c ∈ cs, Assembles c)
    (name : List Char) (groups : List OpenGroup) (rest : List Lexeme) : ∀ read,
    assemble (⟨name, read⟩ :: groups) (lexemesEach cs ++ rest) =
      assemble (⟨name, cs.reverse ++ read⟩ :: groups) rest := by
  induction cs with
  | nil => exact fun _ => rfl
  | cons c cs ih =>
    intro read
    have hchild := h c List.mem_cons_self ⟨name, read⟩ groups (lexemesEach cs ++ rest)
    have hchildren := ih (fun c' hc' => h c' (List.mem_cons_of_mem c hc')) (c :: read)
    rw [lexemesEach, List.append_assoc, hchild, OpenGroup.push, hchildren, List.reverse_cons,
      List.append_assoc, List.singleton_append]

/-- The group of a construct closes to the construct. -/
theorem close_reverse (name : String) (cs : List (Rose Label)) :
    (OpenGroup.mk name.toList (cs.reverse ++ [])).close = .node (.construct name) cs := by
  rw [OpenGroup.close, String.ofList_toList, List.append_nil, List.reverse_reverse]

/-- **Trees are assembled** from their pieces. -/
theorem TokensBare.assembles {t : Rose Label} (h : TokensBare t) : Assembles t := by
  induction t using Rose.induct with
  | node label cs ih =>
    intro group groups rest
    cases label with
    | token text =>
      rw [lexemes, List.singleton_append, assemble, h.eq_tokenOf]
    | construct name =>
      have hchildren := assemble_lexemesEach (fun c hc => ih c hc (h.child hc))
        name.toList (group :: groups) (.closing :: rest) []
      rw [lexemes, List.cons_append, List.cons_append, List.append_assoc, List.singleton_append,
        assemble, hchildren, assemble, close_reverse]

/-- **A written tree is read back** if there is nothing below its tokens. -/
theorem read?_write {t : Rose Label} (h : TokensBare t) : read? (write t) = some t := by
  have hends : EndsWord [] := fun _ hd => nomatch hd
  have hlex : lex (writeChars t) = some (lexemes t) := by
    have hwritten := cuts t hends
    rw [List.append_nil] at hwritten
    rw [lex, hwritten, lexFrom]
    simp [closeWord]
  rw [read?, write, String.toList_ofList, hlex, Option.bind_some]
  obtain ⟨label, cs⟩ := t
  cases label with
  | token text => rw [lexemes, assemble, h.eq_tokenOf]
  | construct name =>
    have hcs : ∀ c ∈ cs, Assembles c := fun c hc => (h.child hc).assembles
    have hchildren := assemble_lexemesEach hcs name.toList [] [.closing] []
    rw [lexemes, assemble, hchildren, assemble, close_reverse]

end ChangeQuery.SExpr
