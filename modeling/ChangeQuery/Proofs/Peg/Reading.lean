import ChangeQuery.Peg
import ChangeQuery.Text.Split
import Mathlib.Tactic.Common

/-!
## What parsing expressions read

`Grammar.Reads` says what an expression does to an input, without a bound on the depth: what it reads
and leaves, or that it reads nothing at all.  A failure counts as much as a success, since choices,
repetitions and looking ahead depend on failures.

* `Reads.induct`: induction over what was read, for statements that failures do not concern.
* `Reads.append_rest`: what was read and what remains make up the input.
* `Reads.consumed_ne_nil`: an expression that must read something does.
-/

namespace ChangeQuery

variable {ρ : Type}

/-- What there is to read. -/
inductive Task (ρ : Type) where
  | expr (e : Peg ρ)
  /-- The layout between two parts of a sequence. -/
  | gap
  /-- Further rounds of a repetition. -/
  | rounds (body : Peg ρ)

namespace Grammar

/-- What comes of reading: what was read, or `none` if the input does not fit. -/
inductive Reads (g : Grammar ρ) : Bool → Task ρ → List Char → Option Parsed → Prop
  | chars {s text input rest} (h : text.isPrefixOf? input = some rest) :
    Reads g s (.expr (.chars text)) input (some ⟨text, [], rest⟩)
  | chars_none {s text input} (h : text.isPrefixOf? input = none) :
    Reads g s (.expr (.chars text)) input none
  | one {s accepts c rest} (h : accepts c = true) :
    Reads g s (.expr (.one accepts)) (c :: rest) (some ⟨[c], [], rest⟩)
  | one_none {s accepts c rest} (h : accepts c = false) :
    Reads g s (.expr (.one accepts)) (c :: rest) none
  | one_end {s accepts} : Reads g s (.expr (.one accepts)) [] none
  | call {s rule input o} (h : Reads g s (.expr (g.rule rule)) input o) :
    Reads g s (.expr (.call rule)) input o
  | seq {s first second input a b c} (ha : Reads g s (.expr first) input (some a))
      (hb : Reads g s .gap a.rest (some b)) (hc : Reads g s (.expr second) b.rest (some c)) :
    Reads g s (.expr (.seq first second)) input (some (a.andThen (b.andThen c)))
  | seq_none_first {s first second input} (ha : Reads g s (.expr first) input none) :
    Reads g s (.expr (.seq first second)) input none
  | seq_none_gap {s first second input a} (ha : Reads g s (.expr first) input (some a))
      (hb : Reads g s .gap a.rest none) :
    Reads g s (.expr (.seq first second)) input none
  | seq_none_second {s first second input a b} (ha : Reads g s (.expr first) input (some a))
      (hb : Reads g s .gap a.rest (some b)) (hc : Reads g s (.expr second) b.rest none) :
    Reads g s (.expr (.seq first second)) input none
  | choice_first {s first second input a} (ha : Reads g s (.expr first) input (some a)) :
    Reads g s (.expr (.choice first second)) input (some a)
  | choice_second {s first second input o} (ha : Reads g s (.expr first) input none)
      (hb : Reads g s (.expr second) input o) :
    Reads g s (.expr (.choice first second)) input o
  | many_nothing {s body input} (ha : Reads g s (.expr body) input none) :
    Reads g s (.expr (.many body)) input (some (.nothing input))
  | many {s body input a b} (ha : Reads g s (.expr body) input (some a))
      (hb : Reads g s (.rounds body) a.rest (some b)) :
    Reads g s (.expr (.many body)) input (some (a.andThen b))
  | option_nothing {s body input} (ha : Reads g s (.expr body) input none) :
    Reads g s (.expr (.option body)) input (some (.nothing input))
  | option {s body input a} (ha : Reads g s (.expr body) input (some a)) :
    Reads g s (.expr (.option body)) input (some a)
  | followedBy {s body input a} (ha : Reads g s (.expr body) input (some a)) :
    Reads g s (.expr (.followedBy body)) input (some (.nothing input))
  | followedBy_none {s body input} (ha : Reads g s (.expr body) input none) :
    Reads g s (.expr (.followedBy body)) input none
  | notFollowedBy {s body input} (ha : Reads g s (.expr body) input none) :
    Reads g s (.expr (.notFollowedBy body)) input (some (.nothing input))
  | notFollowedBy_none {s body input a} (ha : Reads g s (.expr body) input (some a)) :
    Reads g s (.expr (.notFollowedBy body)) input none
  | stop {s} : Reads g s (.expr .stop) [] (some (.nothing []))
  | stop_none {s c rest} : Reads g s (.expr .stop) (c :: rest) none
  | leaf {s body input a} (ha : Reads g s (.expr body) input (some a)) :
    Reads g s (.expr (.leaf body)) input
      (some ⟨a.consumed, [.leaf (.token (String.ofList a.consumed))], a.rest⟩)
  | leaf_none {s body input} (ha : Reads g s (.expr body) input none) :
    Reads g s (.expr (.leaf body)) input none
  | branch {s name body input a} (ha : Reads g s (.expr body) input (some a)) :
    Reads g s (.expr (.branch name body)) input
      (some ⟨a.consumed, [.node (.construct name) a.trees], a.rest⟩)
  | branch_none {s name body input} (ha : Reads g s (.expr body) input none) :
    Reads g s (.expr (.branch name body)) input none
  | tight {s body input o} (h : Reads g false (.expr body) input o) :
    Reads g s (.expr (.tight body)) input o
  | spaced {s body input o} (h : Reads g true (.expr body) input o) :
    Reads g s (.expr (.spaced body)) input o
  | gap_tight {input} : Reads g false .gap input (some (.nothing input))
  | gap_spaced {input a} (ha : Reads g false (.expr g.layout) input (some a)) :
    Reads g true .gap input (some ⟨a.consumed, [], a.rest⟩)
  | gap_none {input} (ha : Reads g false (.expr g.layout) input none) :
    Reads g true .gap input none
  | rounds_none_gap {s body input} (ha : Reads g s .gap input none) :
    Reads g s (.rounds body) input (some (.nothing input))
  | rounds_none {s body input a} (ha : Reads g s .gap input (some a))
      (hb : Reads g s (.expr body) a.rest none) :
    Reads g s (.rounds body) input (some (.nothing input))
  | rounds {s body input a b c} (ha : Reads g s .gap input (some a))
      (hb : Reads g s (.expr body) a.rest (some b))
      (hc : Reads g s (.rounds body) b.rest (some c)) :
    Reads g s (.rounds body) input (some ((a.andThen b).andThen c))

variable {g : Grammar ρ}

/-- Further rounds do not fail. -/
theorem Reads.rounds_ne_none {s : Bool} {body : Peg ρ} {input : List Char} {o : Option Parsed}
    (h : Reads g s (.rounds body) input o) : o ≠ none := by
  cases h <;> exact Option.some_ne_none _

/-! ### Induction over what was read -/

/-- **Induction over what was read**: the cases are the ways in which something is read; that
something else was not read before is known in each case but not part of the induction. -/
theorem Reads.induct
    {motive : ∀ {s : Bool} {t : Task ρ} {input : List Char} {p : Parsed},
      Reads g s t input (some p) → Prop}
    (chars : ∀ {s} {text input rest : List Char} (h : text.isPrefixOf? input = some rest),
      motive (.chars h : Reads g s _ _ _))
    (one : ∀ {s} {accepts : Char → Bool} {c rest} (h : accepts c = true),
      motive (.one h : Reads g s (.expr (.one accepts)) (c :: rest) _))
    (call : ∀ {s rule input a} (h : Reads g s (.expr (g.rule rule)) input (some a)),
      motive h → motive (.call h))
    (seq : ∀ {s first second input a b c} (ha : Reads g s (.expr first) input (some a))
      (hb : Reads g s .gap a.rest (some b)) (hc : Reads g s (.expr second) b.rest (some c)),
      motive ha → motive hb → motive hc → motive (.seq ha hb hc))
    (choice_first : ∀ {s first second input a} (ha : Reads g s (.expr first) input (some a)),
      motive ha → motive (.choice_first ha : Reads g s (.expr (.choice first second)) input _))
    (choice_second : ∀ {s first second input a} (ha : Reads g s (.expr first) input none)
      (hb : Reads g s (.expr second) input (some a)), motive hb → motive (.choice_second ha hb))
    (many_nothing : ∀ {s body input} (ha : Reads g s (.expr body) input none),
      motive (.many_nothing ha))
    (many : ∀ {s body input a b} (ha : Reads g s (.expr body) input (some a))
      (hb : Reads g s (.rounds body) a.rest (some b)), motive ha → motive hb →
      motive (.many ha hb))
    (option_nothing : ∀ {s body input} (ha : Reads g s (.expr body) input none),
      motive (.option_nothing ha))
    (option : ∀ {s body input a} (ha : Reads g s (.expr body) input (some a)),
      motive ha → motive (.option ha))
    (followedBy : ∀ {s body input a} (ha : Reads g s (.expr body) input (some a)),
      motive (.followedBy ha))
    (notFollowedBy : ∀ {s body input} (ha : Reads g s (.expr body) input none),
      motive (.notFollowedBy ha))
    (stop : ∀ {s}, motive (.stop : Reads g s _ _ _))
    (leaf : ∀ {s body input a} (ha : Reads g s (.expr body) input (some a)),
      motive ha → motive (.leaf ha))
    (branch : ∀ {s name body input a} (ha : Reads g s (.expr body) input (some a)),
      motive ha → motive (.branch ha : Reads g s (.expr (.branch name body)) input _))
    (tight : ∀ {s body input a} (h : Reads g false (.expr body) input (some a)),
      motive h → motive (.tight h : Reads g s _ _ _))
    (spaced : ∀ {s body input a} (h : Reads g true (.expr body) input (some a)),
      motive h → motive (.spaced h : Reads g s _ _ _))
    (gap_tight : ∀ {input}, motive (.gap_tight : Reads g false .gap input _))
    (gap_spaced : ∀ {input a} (ha : Reads g false (.expr g.layout) input (some a)),
      motive ha → motive (.gap_spaced ha))
    (rounds_none_gap : ∀ {s body input} (ha : Reads g s .gap input none),
      motive (.rounds_none_gap ha : Reads g s (.rounds body) input _))
    (rounds_none : ∀ {s body input a} (ha : Reads g s .gap input (some a))
      (hb : Reads g s (.expr body) a.rest none), motive (.rounds_none ha hb))
    (rounds : ∀ {s body input a b c} (ha : Reads g s .gap input (some a))
      (hb : Reads g s (.expr body) a.rest (some b))
      (hc : Reads g s (.rounds body) b.rest (some c)), motive ha → motive hb → motive hc →
      motive (.rounds ha hb hc))
    {s : Bool} {t : Task ρ} {input : List Char} {p : Parsed} (h : Reads g s t input (some p)) :
    motive h := by
  -- The outcome is a variable for the induction; the cases of a failure contradict `hp`.
  have hall : ∀ {o} (h : Reads g s t input o) p (hp : o = some p), motive (hp ▸ h) := by
    clear h p
    intro o h
    induction h with
    | chars h => rintro p ⟨⟩; exact chars h
    | one h => rintro p ⟨⟩; exact one h
    | call h ih => rintro p rfl; exact call h (ih p rfl)
    | seq ha hb hc iha ihb ihc =>
      rintro p ⟨⟩; exact seq ha hb hc (iha _ rfl) (ihb _ rfl) (ihc _ rfl)
    | choice_first ha iha => rintro p ⟨⟩; exact choice_first ha (iha _ rfl)
    | choice_second ha hb iha ihb => rintro p rfl; exact choice_second ha hb (ihb p rfl)
    | many_nothing ha => rintro p ⟨⟩; exact many_nothing ha
    | many ha hb iha ihb => rintro p ⟨⟩; exact many ha hb (iha _ rfl) (ihb _ rfl)
    | option_nothing ha => rintro p ⟨⟩; exact option_nothing ha
    | option ha iha => rintro p ⟨⟩; exact option ha (iha _ rfl)
    | followedBy ha => rintro p ⟨⟩; exact followedBy ha
    | notFollowedBy ha => rintro p ⟨⟩; exact notFollowedBy ha
    | stop => rintro p ⟨⟩; exact stop
    | leaf ha iha => rintro p ⟨⟩; exact leaf ha (iha _ rfl)
    | branch ha iha => rintro p ⟨⟩; exact branch ha (iha _ rfl)
    | tight h ih => rintro p rfl; exact tight h (ih p rfl)
    | spaced h ih => rintro p rfl; exact spaced h (ih p rfl)
    | gap_tight => rintro p ⟨⟩; exact gap_tight
    | gap_spaced ha iha => rintro p ⟨⟩; exact gap_spaced ha (iha _ rfl)
    | rounds_none_gap ha => rintro p ⟨⟩; exact rounds_none_gap ha
    | rounds_none ha hb => rintro p ⟨⟩; exact rounds_none ha hb
    | rounds ha hb hc iha ihb ihc =>
      rintro p ⟨⟩; exact rounds ha hb hc (iha _ rfl) (ihb _ rfl) (ihc _ rfl)
    | _ => rintro p ⟨⟩
  exact hall h p rfl

/-! ### Taking tight sequences and choices apart -/

/-- Nothing lies between the parts of a tight sequence. -/
theorem reads_append_iff {first second : Peg ρ} {input : List Char} {p : Parsed} :
    Reads g false (.expr (first ++ second)) input (some p) ↔
      ∃ a b, Reads g false (.expr first) input (some a) ∧
        Reads g false (.expr second) a.rest (some b) ∧ p = a.andThen b := by
  constructor
  · intro h
    change Reads g false (.expr (.seq first second)) input (some p) at h
    cases h with
    | seq ha hb hc =>
      cases hb with
      | gap_tight => exact ⟨_, _, ha, hc, rfl⟩
  · rintro ⟨a, b, ha, hb, rfl⟩
    exact .seq ha .gap_tight hb

theorem reads_append_none {first second : Peg ρ} {input : List Char}
    (h : Reads g false (.expr (first ++ second)) input none) :
    Reads g false (.expr first) input none ∨
      ∃ a, Reads g false (.expr first) input (some a) ∧
        Reads g false (.expr second) a.rest none := by
  change Reads g false (.expr (.seq first second)) input none at h
  cases h with
  | seq_none_first ha => exact .inl ha
  | seq_none_gap ha hb => cases hb
  | seq_none_second ha hb hc =>
    cases hb with
    | gap_tight => exact .inr ⟨_, ha, hc⟩

theorem reads_orElse {s : Bool} {first second : Peg ρ} {input : List Char} {o : Option Parsed}
    (h : Reads g s (.expr (first <|> second)) input o) :
    Reads g s (.expr first) input o ∧ o ≠ none ∨
      Reads g s (.expr first) input none ∧ Reads g s (.expr second) input o := by
  change Reads g s (.expr (.choice first second)) input o at h
  cases h with
  | choice_first ha => exact .inl ⟨ha, Option.some_ne_none _⟩
  | choice_second ha hb => exact .inr ⟨ha, hb⟩

/-! ### Tight repetitions -/

/-- Read tightly, further rounds are the repetition once more. -/
theorem Reads.many_of_rounds {body : Peg ρ} {input : List Char} {p : Parsed}
    (h : Reads g false (.rounds body) input (some p)) :
    Reads g false (.expr (.many body)) input (some p) := by
  cases h with
  | rounds_none_gap ha => cases ha
  | rounds_none ha hb =>
    cases ha with
    | gap_tight => exact .many_nothing hb
  | rounds ha hb hc =>
    cases ha with
    | gap_tight => exact .many hb hc

/-- **Induction over a tight repetition**: it ends where its body reads nothing, and goes on behind
what the body has read. -/
theorem Reads.many_induct {body : Peg ρ}
    {motive : ∀ {input : List Char} {p : Parsed},
      Reads g false (.expr (.many body)) input (some p) → Prop}
    (nothing : ∀ {input} (ha : Reads g false (.expr body) input none),
      motive (.many_nothing ha : Reads g false (.expr (.many body)) input _))
    (andThen : ∀ {input a b} (_ : Reads g false (.expr body) input (some a))
      (hb : Reads g false (.expr (.many body)) a.rest (some b))
      (h : Reads g false (.expr (.many body)) input (some (a.andThen b))), motive hb → motive h)
    {input : List Char} {p : Parsed} (h : Reads g false (.expr (.many body)) input (some p)) :
    motive h := by
  -- The rounds after the first one are the repetition that the induction is about.
  have hrounds : ∀ {s : Bool} {t : Task ρ} {input p} (h : Reads g s t input (some p)),
      s = false → t = .rounds body →
        ∀ h : Reads g false (.expr (.many body)) input (some p), motive h := by
    intro s t input p h
    induction h using Reads.induct with
    | rounds_none_gap ha =>
      rintro rfl ⟨⟩
      cases ha
    | rounds_none ha hb =>
      rintro rfl ⟨⟩
      cases ha with
      | gap_tight => exact fun _ => nothing hb
    | rounds ha hb hc _ _ ih =>
      rintro rfl ⟨⟩
      cases ha with
      | gap_tight => exact fun h => andThen hb hc.many_of_rounds h (ih rfl rfl _)
    | _ => exact fun _ ht => nomatch ht
  cases h with
  | many_nothing ha => exact nothing ha
  | many ha hb => exact andThen ha hb.many_of_rounds _ (hrounds hb rfl rfl _)

/-! ### How much is read -/

/-- **Nothing is lost**: what was read and what remains make up the input. -/
theorem Reads.append_rest {s : Bool} {t : Task ρ} {input : List Char} {p : Parsed}
    (h : Reads g s t input (some p)) : p.consumed ++ p.rest = input := by
  induction h using Reads.induct with
  | chars h => exact (Text.eq_append_of_isPrefixOf? h).symm
  | seq ha hb hc iha ihb ihc =>
    simp only [Parsed.andThen, List.append_assoc]
    rw [ihc, ihb, iha]
  | many ha hb iha ihb =>
    simp only [Parsed.andThen, List.append_assoc]
    rw [ihb, iha]
  | rounds ha hb hc iha ihb ihc =>
    simp only [Parsed.andThen, List.append_assoc]
    rw [ihc, ihb, iha]
  | choice_second _ _ ih => exact ih
  | call _ ih | choice_first _ ih | option _ ih | leaf _ ih | branch _ ih | tight _ ih
  | spaced _ ih | gap_spaced _ ih => exact ih
  | _ => rfl

theorem Reads.length_rest_le {s : Bool} {t : Task ρ} {input : List Char} {p : Parsed}
    (h : Reads g s t input (some p)) : p.rest.length ≤ input.length := by
  have happend := congrArg List.length h.append_rest
  rw [List.length_append] at happend
  omega

end Grammar

namespace Peg

/-- The expression reads at least one character.  A rule counts as reading one. -/
def consumes : Peg ρ → Bool
  | chars text => !text.isEmpty
  | one _ => true
  | call _ => true
  | seq first second => first.consumes || second.consumes
  | choice first second => first.consumes && second.consumes
  | leaf body => body.consumes
  | branch _ body => body.consumes
  | tight body => body.consumes
  | spaced body => body.consumes
  | many _ | option _ | followedBy _ | notFollowedBy _ | stop => false

end Peg

/-- The same of anything there is to read. -/
def Task.consumes : Task ρ → Bool
  | .expr e => e.consumes
  | .gap | .rounds _ => false

namespace Grammar

variable {g : Grammar ρ}

theorem Reads.task_consumed_ne_nil (hrules : ∀ rule, (g.rule rule).consumes = true) {s : Bool}
    {t : Task ρ} {input : List Char} {p : Parsed} (h : Reads g s t input (some p)) :
    t.consumes = true → p.consumed ≠ [] := by
  induction h using Reads.induct with
  | chars h =>
    rintro he rfl
    cases he
  | one => exact fun _ => List.cons_ne_nil _ _
  | call _ ih => exact fun _ => ih (hrules _)
  | seq ha hb hc iha ihb ihc =>
    -- One of the two parts reads something, whichever it is.
    intro he hnil
    obtain ⟨ha, hbc⟩ := List.append_eq_nil_iff.mp hnil
    rcases Bool.or_eq_true_iff.mp he with hfirst | hsecond
    · exact iha hfirst ha
    · exact ihc hsecond (List.append_eq_nil_iff.mp hbc).2
  | choice_first _ ih => exact fun he => ih (Bool.and_eq_true_iff.mp he).1
  | choice_second _ _ ih => exact fun he => ih (Bool.and_eq_true_iff.mp he).2
  | leaf _ ih | branch _ ih | tight _ ih | spaced _ ih => exact ih
  | _ => exact fun he => absurd he Bool.false_ne_true

/-- **Reading something**: if the rules read at least one character each, then so does every
expression that says so. -/
theorem Reads.consumed_ne_nil (hrules : ∀ rule, (g.rule rule).consumes = true) {s : Bool}
    {e : Peg ρ} {input : List Char} {p : Parsed} (h : Reads g s (.expr e) input (some p))
    (he : e.consumes = true) : p.consumed ≠ [] :=
  h.task_consumed_ne_nil hrules he

/-- An expression that must read something leaves a shorter text. -/
theorem Reads.length_rest_lt (hrules : ∀ rule, (g.rule rule).consumes = true) {s : Bool}
    {e : Peg ρ} {input : List Char} {p : Parsed} (h : Reads g s (.expr e) input (some p))
    (he : e.consumes = true) : p.rest.length < input.length := by
  have happend := congrArg List.length h.append_rest
  have hpos := List.length_pos_iff.mpr (h.consumed_ne_nil hrules he)
  rw [List.length_append] at happend
  omega

end Grammar

end ChangeQuery
