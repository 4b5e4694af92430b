import ChangeQuery.Proofs.Peg.Trees
import Mathlib.Data.List.Infix

/-!
## The texts that parsing expressions read

Two questions about the texts that an expression can read are answered by looking at the expression
alone, without regard to the order of choices and to what is looked ahead at: which characters cannot
be the first one (`Peg.avoids`), and what can remain of a given text (`Peg.remainders`).

* `Grammar.Reads.head_consumed_ne`: an avoided character is not the first one.
* `Grammar.Reads.mem_remainders`: what remains of a text is among its remainders.
* `Grammar.Spells.ne_of_remainders`: a text that cannot be read to its end is not read at all.
-/

namespace ChangeQuery

variable {ρ : Type}

namespace Peg

/-- No text read starts with the character; `gap` says that this is known of the layout between two
parts. -/
def avoids (x : Char) (gap : Bool) : Bool → Peg ρ → Bool
  | _, chars text => text.head? != some x
  | _, one accepts => !accepts x
  | _, call _ => false
  | s, seq first second =>
    first.avoids x gap s && (first.consumes || (!s || gap) && second.avoids x gap s)
  | s, choice first second => first.avoids x gap s && second.avoids x gap s
  | s, many body => body.consumes && body.avoids x gap s
  | s, option body | s, leaf body | s, branch _ body => body.avoids x gap s
  | _, tight body => body.avoids x gap false
  | _, spaced body => body.avoids x gap true
  | _, followedBy _ | _, notFollowedBy _ | _, stop => true

/-- What can remain of a text when the expression reads the front of it; `gap` says this of the
layout between two parts.  A repetition that can read anything can read everything. -/
def remainders (gap : List Char → List (List Char)) :
    Bool → Peg ρ → List Char → List (List Char)
  | _, chars text, w => (text.isPrefixOf? w).toList
  | _, one accepts, w =>
    match w with
    | [] => []
    | c :: w => if accepts c then [w] else []
  | _, call _, w => w.tails
  | s, seq first second, w =>
    (first.remainders gap s w).flatMap fun w =>
      (if s then gap w else [w]).flatMap (second.remainders gap s)
  | s, choice first second, w => first.remainders gap s w ++ second.remainders gap s w
  | s, many body, w =>
    if (body.remainders gap s w).all (· == w) && (!s || (gap w).all (· == w)) then [w]
    else w.tails
  | s, option body, w => w :: body.remainders gap s w
  | s, leaf body, w | s, branch _ body, w => body.remainders gap s w
  | _, tight body, w => body.remainders gap false w
  | _, spaced body, w => body.remainders gap true w
  | _, followedBy _, w | _, notFollowedBy _, w | _, stop, w => [w]

/-- The only text that the expression reads, if it is a fixed one. -/
def word? : Peg ρ → Option (List Char)
  | chars text => some text
  | tight body | spaced body => body.word?
  | _ => none

end Peg

namespace Grammar

variable {g : Grammar ρ} {s : Bool} {e body : Peg ρ} {input : List Char} {p : Parsed}

/-! ### The first character -/

/-- What it means for anything there is to read that it avoids a character. -/
def AvoidsTask (x : Char) (gap s : Bool) : Task ρ → Prop
  | .expr e => e.avoids x gap s = true
  | .gap => (!s || gap) = true
  | .rounds _ => False

theorem Reads.head_task_consumed_ne (hrules : ∀ rule, (g.rule rule).consumes = true) {x : Char}
    {gap : Bool} (hgap : gap = true → g.layout.avoids x gap false = true) {t : Task ρ}
    (h : Reads g s t input (some p)) : AvoidsTask x gap s t → p.consumed.head? ≠ some x := by
  induction h using Reads.induct with
  | chars h => exact fun he => bne_iff_ne.mp he
  | @one _ accepts c rest h =>
    intro he hhead
    obtain rfl := Option.some.inj hhead
    rw [AvoidsTask, Peg.avoids, h] at he
    cases he
  | @seq _ first second _ a b c ha hb hc iha ihb ihc =>
    intro he
    rw [AvoidsTask, Peg.avoids, Bool.and_eq_true, Bool.or_eq_true, Bool.and_eq_true] at he
    obtain ⟨hfirst, hrest⟩ := he
    show (a.consumed ++ (b.consumed ++ c.consumed)).head? ≠ some x
    rw [List.head?_append, List.head?_append]
    -- If the first part has read nothing, the layout and the second part decide.
    cases hhead : a.consumed.head? with
    | some y =>
      rw [Option.some_or, ← hhead]
      exact iha hfirst
    | none =>
      have hnil := List.head?_eq_none_iff.mp hhead
      obtain ⟨hgap, hsecond⟩ := hrest.resolve_left fun hconsumes =>
        ha.consumed_ne_nil hrules hconsumes hnil
      rw [Option.none_or]
      cases hhead : b.consumed.head? with
      | some y =>
        rw [Option.some_or, ← hhead]
        exact ihb hgap
      | none =>
        rw [Option.none_or]
        exact ihc hsecond
  | choice_first _ ih => exact fun he => ih (Bool.and_eq_true_iff.mp he).1
  | choice_second _ _ ih => exact fun he => ih (Bool.and_eq_true_iff.mp he).2
  | @many _ body _ a b ha hb iha ihb =>
    intro he
    rw [AvoidsTask, Peg.avoids, Bool.and_eq_true] at he
    show (a.consumed ++ b.consumed).head? ≠ some x
    rw [List.head?_append_of_ne_nil _ (ha.consumed_ne_nil hrules he.1)]
    exact iha he.2
  | option _ ih | leaf _ ih | branch _ ih | tight _ ih | spaced _ ih => exact ih
  | gap_spaced _ ih => exact fun he => ih (hgap he)
  | call | rounds => exact fun he => nomatch he
  | _ => exact fun _ => nofun

/-- **The first character**: no text that is read starts with a character that is avoided. -/
theorem Reads.head_consumed_ne (hrules : ∀ rule, (g.rule rule).consumes = true) {x : Char}
    {gap : Bool} (hgap : gap = true → g.layout.avoids x gap false = true)
    (h : Reads g s (.expr e) input (some p)) (he : e.avoids x gap s = true) :
    p.consumed.head? ≠ some x :=
  h.head_task_consumed_ne hrules hgap he

/-- The first character of a token. -/
theorem Spells.head_ne (hrules : ∀ rule, (g.rule rule).consumes = true) {x : Char} {gap : Bool}
    (hgap : gap = true → g.layout.avoids x gap false = true)
    (hbody : ∀ s, body.avoids x gap s = true) {text : String} (h : g.Spells body text) :
    text.toList.head? ≠ some x := by
  obtain ⟨s, input, p, hp, rfl⟩ := h
  rw [String.toList_ofList]
  exact hp.head_consumed_ne hrules hgap (hbody s)

/-- A token of an expression that reads something is not empty. -/
theorem Spells.ne_nil (hrules : ∀ rule, (g.rule rule).consumes = true)
    (hbody : body.consumes = true) {text : String} (h : g.Spells body text) :
    text.toList ≠ [] := by
  obtain ⟨s, input, p, hp, rfl⟩ := h
  rw [String.toList_ofList]
  exact hp.consumed_ne_nil hrules hbody

/-! ### Whole texts -/

/-- The repetition can read nothing of this text. -/
def Idle (gap : List Char → List (List Char)) (s : Bool) (body : Peg ρ) (w : List Char) : Prop :=
  (∀ w' ∈ body.remainders gap s w, w' = w) ∧ (s = true → ∀ w' ∈ gap w, w' = w)

/-- What can remain when anything there is to read is read. -/
def RemainsTask (gap : List Char → List (List Char)) (s : Bool) (w w' : List Char) :
    Task ρ → Prop
  | .expr e => w' ∈ e.remainders gap s w
  | .gap => w' ∈ if s then gap w else [w]
  | .rounds body => Idle gap s body w → w' = w

theorem mem_remainders_many {gap : List Char → List (List Char)} {w w' : List Char}
    (hsuffix : w' <:+ w) (hidle : Idle gap s body w → w' = w) :
    w' ∈ (Peg.many body).remainders gap s w := by
  rw [Peg.remainders]
  split_ifs with hall
  · -- Neither the body nor the layout reads anything of this text.
    rw [Bool.and_eq_true, List.all_eq_true, Bool.or_eq_true, List.all_eq_true] at hall
    rw [List.mem_singleton]
    refine hidle ⟨fun w' hw' => beq_iff_eq.mp (hall.1 w' hw'), ?_⟩
    rintro rfl w' hw'
    exact beq_iff_eq.mp (hall.2.resolve_left (by decide) w' hw')
  · exact (List.mem_tails _ _).mpr hsuffix

theorem Reads.remainsTask {gap : List Char → List (List Char)}
    (hgap : ∀ w w', w' ∈ g.layout.remainders gap false w → w' ∈ gap w) {t : Task ρ}
    (h : Reads g s t input (some p)) :
    ∀ w', RemainsTask gap s (p.consumed ++ w') w' t := by
  induction h using Reads.induct with
  | @chars _ text _ _ h =>
    intro w'
    show w' ∈ (text.isPrefixOf? (text ++ w')).toList
    rw [Text.isPrefixOf?_append]
    exact List.mem_singleton_self _
  | @one _ accepts c _ h =>
    intro w'
    show w' ∈ if accepts c then [w'] else []
    rw [h, if_pos rfl]
    exact List.mem_singleton_self _
  | call => exact fun w' => (List.mem_tails _ _).mpr (List.suffix_append _ _)
  | @seq _ _ _ _ a b c _ _ _ iha ihb ihc =>
    intro w'
    show w' ∈ Peg.remainders _ _ _ (a.consumed ++ (b.consumed ++ c.consumed) ++ w')
    rw [List.append_assoc, List.append_assoc]
    exact List.mem_flatMap.mpr ⟨_, iha _, List.mem_flatMap.mpr ⟨_, ihb _, ihc _⟩⟩
  | choice_first _ ih => exact fun w' => List.mem_append_left _ (ih w')
  | choice_second _ _ ih => exact fun w' => List.mem_append_right _ (ih w')
  | many_nothing => exact fun w' => mem_remainders_many (List.suffix_refl _) fun _ => rfl
  | @many _ _ _ a b _ _ iha ihb =>
    intro w'
    refine mem_remainders_many (List.suffix_append _ _) fun hidle => ?_
    -- The first round reads nothing, so the others start with the same text.
    show w' = a.consumed ++ b.consumed ++ w'
    rw [List.append_assoc]
    have hfirst : b.consumed ++ w' = a.consumed ++ b.consumed ++ w' := by
      refine hidle.1 _ ?_
      show _ ∈ Peg.remainders _ _ _ (a.consumed ++ b.consumed ++ w')
      rw [List.append_assoc]
      exact iha _
    rw [← List.append_assoc, ← hfirst]
    refine ihb w' ?_
    rw [hfirst]
    exact hidle
  | option_nothing => exact fun w' => List.mem_cons_self
  | option _ ih => exact fun w' => List.mem_cons_of_mem _ (ih w')
  | leaf _ ih | branch _ ih | tight _ ih | spaced _ ih => exact ih
  | gap_tight => exact fun w' => List.mem_singleton_self _
  | gap_spaced _ ih => exact fun w' => hgap _ _ (ih w')
  | rounds_none_gap | rounds_none => exact fun w' _ => rfl
  | @rounds _ _ _ a b c _ _ _ iha ihb ihc =>
    intro w' hidle
    have hw : (a.consumed ++ b.consumed ++ c.consumed) ++ w' =
        a.consumed ++ (b.consumed ++ (c.consumed ++ w')) := by
      simp only [List.append_assoc]
    change Idle gap _ _ ((a.consumed ++ b.consumed ++ c.consumed) ++ w') at hidle
    show w' = (a.consumed ++ b.consumed ++ c.consumed) ++ w'
    rw [hw] at hidle ⊢
    -- Neither the layout nor the body reads anything, so the next round starts with the same text.
    have hlayout : b.consumed ++ (c.consumed ++ w') =
        a.consumed ++ (b.consumed ++ (c.consumed ++ w')) := by
      have hmem := iha (b.consumed ++ (c.consumed ++ w'))
      rw [RemainsTask] at hmem
      split_ifs at hmem with hs
      · exact hidle.2 hs _ hmem
      · exact List.mem_singleton.mp hmem
    have hbody : c.consumed ++ w' = a.consumed ++ (b.consumed ++ (c.consumed ++ w')) := by
      refine hidle.1 _ ?_
      rw [← hlayout]
      exact ihb _
    rw [← hbody] at hidle ⊢
    exact ihc w' hidle
  | _ => exact fun w' => List.mem_singleton_self _

/-- **Remainders**: if what was read is the front of a text, then the rest of that text is among its
remainders. -/
theorem Reads.mem_remainders {gap : List Char → List (List Char)}
    (hgap : ∀ w w', w' ∈ g.layout.remainders gap false w → w' ∈ gap w)
    (h : Reads g s (.expr e) input (some p)) (w' : List Char) :
    w' ∈ e.remainders gap s (p.consumed ++ w') :=
  h.remainsTask hgap w'

/-- **Texts that are not read**: a text is not a token of an expression that cannot read it to its
end. -/
theorem Spells.ne_of_remainders {gap : List Char → List (List Char)}
    (hgap : ∀ w w', w' ∈ g.layout.remainders gap false w → w' ∈ gap w) {expected : String}
    (hbody : ∀ s, [] ∉ body.remainders gap s expected.toList) {text : String}
    (h : g.Spells body text) : text ≠ expected := by
  obtain ⟨s, input, p, hp, rfl⟩ := h
  rintro rfl
  rw [String.toList_ofList] at hbody
  have hmem := hp.mem_remainders hgap []
  rw [List.append_nil] at hmem
  exact hbody s hmem

/-- **Fixed texts**: an expression with a fixed text reads no other. -/
theorem Spells.eq_of_word? {word : List Char} {text : String} (h : g.Spells body text)
    (hbody : body.word? = some word) : text = String.ofList word := by
  obtain ⟨s, input, p, hp, rfl⟩ := h
  -- Only characters have a fixed text, and whether layout is allowed around them makes no difference.
  have hall : ∀ {t : Task ρ}, Reads g s t input (some p) →
      ∀ e, t = .expr e → e.word? = some word → p.consumed = word := by
    clear hp hbody
    intro t hp
    induction hp using Reads.induct with
    | chars =>
      rintro _ ⟨⟩ hword
      exact Option.some.inj hword
    | tight _ ih | spaced _ ih =>
      rintro _ ⟨⟩ hword
      exact ih _ rfl hword
    | _ => rintro _ ⟨⟩ ⟨⟩
  rw [hall hp body rfl hbody]

end Grammar

end ChangeQuery
