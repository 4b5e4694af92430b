import ChangeQuery.Proofs.Peg.Reading

/-!
## The bound on the depth is never reached

`Grammar.parse` stops at a depth that grows with the length of the text.  `Depths` bounds how deep
reading can go before the first character is read: a number for each rule and one for the layout,
from which the depth of every expression follows.  If the numbers are right and none of them exceeds
`depthPerChar` (`Depths.Bounds`), then each character read makes up for the depth used since the one
before.

* `Depths.Bounds.suffices`: with enough depth, a parser does what `Reads` says.
* `Depths.Bounds.reads_of_read?`: so does `Grammar.read?`, on every text.
-/

namespace ChangeQuery

variable {ρ : Type}

/-- Bounds on the depth of reading before the first character is read. -/
structure Depths (ρ : Type) where
  rule : ρ → ℕ
  layout : ℕ

namespace Depths

/-- The depth of the layout between two parts. -/
def gap (b : Depths ρ) : Bool → ℕ
  | false => 1
  | true => b.layout + 1

/-- The depth of an expression, up to the first character. -/
def expr (b : Depths ρ) : Bool → Peg ρ → ℕ
  | _, .chars _ | _, .one _ | _, .stop => 1
  | _, .call rule => b.rule rule + 1
  | s, .seq first second =>
    1 + max (b.expr s first) (max (b.gap s) (if first.consumes then 0 else b.expr s second))
  | s, .choice first second => 1 + max (b.expr s first) (b.expr s second)
  | s, .many body => 2 + max (b.gap s) (b.expr s body)
  | s, .option body | s, .followedBy body | s, .notFollowedBy body | s, .leaf body
  | s, .branch _ body => 1 + b.expr s body
  | _, .tight body => 1 + b.expr false body
  | _, .spaced body => 1 + b.expr true body

/-- What is read after the first character starts no deeper than a character pays for, and every
round of a repetition reads a character. -/
def fits (b : Depths ρ) : Bool → Peg ρ → Bool
  | _, .chars _ | _, .one _ | _, .stop | _, .call _ => true
  | s, .seq first second =>
    b.fits s first && b.fits s second &&
      (!first.consumes || b.expr s second ≤ Grammar.depthPerChar)
  | s, .choice first second => b.fits s first && b.fits s second
  | s, .many body => b.fits s body && body.consumes
  | s, .option body | s, .followedBy body | s, .notFollowedBy body | s, .leaf body
  | s, .branch _ body => b.fits s body
  | _, .tight body => b.fits false body
  | _, .spaced body => b.fits true body

/-- The depth of anything there is to read. -/
def task (b : Depths ρ) (s : Bool) : Task ρ → ℕ
  | .expr e => b.expr s e
  | .gap => b.gap s
  | .rounds body => 1 + max (b.gap s) (b.expr s body)

/-- Anything there is to read fits. -/
def Fits (b : Depths ρ) (s : Bool) : Task ρ → Prop
  | .expr e => b.fits s e = true
  | .gap => True
  | .rounds body => b.fits s body = true ∧ body.consumes = true

theorem expr_pos (b : Depths ρ) (s : Bool) (e : Peg ρ) : 0 < b.expr s e := by
  cases e <;> (rw [expr]; omega)

theorem gap_pos (b : Depths ρ) (s : Bool) : 0 < b.gap s := by
  cases s <;> (rw [gap]; omega)

theorem task_pos (b : Depths ρ) (s : Bool) (t : Task ρ) : 0 < b.task s t := by
  cases t with
  | expr e => exact b.expr_pos s e
  | gap => exact b.gap_pos s
  | rounds body => rw [task]; omega

/-- The numbers bound the rules and the layout of a grammar. -/
structure Bounds (b : Depths ρ) (g : Grammar ρ) : Prop where
  rule_consumes : ∀ rule, (g.rule rule).consumes = true
  rule_le : ∀ rule s, b.expr s (g.rule rule) ≤ b.rule rule
  rule_fits : ∀ rule s, b.fits s (g.rule rule) = true
  layout_le : b.expr false g.layout ≤ b.layout
  layout_fits : b.fits false g.layout = true

end Depths

namespace Grammar

/-- What the parser does, whatever there is to read. -/
def run (g : Grammar ρ) (depth : ℕ) (s : Bool) : Task ρ → List Char → Option Parsed
  | .expr e, input => g.parse depth s e input
  | .gap, input => g.gap depth s input
  | .rounds body, input => g.again depth s body input

variable {g : Grammar ρ} {s : Bool} {input : List Char}

/-! ### Outcomes put together -/

theorem reads_seq {first second : Peg ρ} {oa : Option Parsed} {ob oc : Parsed → Option Parsed}
    (ha : Reads g s (.expr first) input oa)
    (hb : ∀ a, oa = some a → Reads g s .gap a.rest (ob a))
    (hc : ∀ a b, oa = some a → ob a = some b → Reads g s (.expr second) b.rest (oc b)) :
    Reads g s (.expr (.seq first second)) input
      (oa.bind fun a => (ob a).bind fun b => (oc b).map fun c => a.andThen (b.andThen c)) := by
  cases oa with
  | none => exact .seq_none_first ha
  | some a =>
    have hb := hb a rfl
    have hc := fun b => hc a b rfl
    show Reads _ _ _ _ ((ob a).bind fun b => (oc b).map fun c => a.andThen (b.andThen c))
    cases hob : ob a with
    | none => exact .seq_none_gap ha (hob ▸ hb)
    | some b =>
      have hc := hc b hob
      show Reads _ _ _ _ ((oc b).map fun c => a.andThen (b.andThen c))
      cases hoc : oc b with
      | none => exact .seq_none_second ha (hob ▸ hb) (hoc ▸ hc)
      | some c => exact .seq ha (hob ▸ hb) (hoc ▸ hc)

theorem reads_choice {first second : Peg ρ} {oa ob : Option Parsed} :
    Reads g s (.expr first) input oa → Reads g s (.expr second) input ob →
    Reads g s (.expr (.choice first second)) input
      (match oa with
      | some a => some a
      | none => ob) := by
  intro ha hb
  cases oa with
  | none => exact .choice_second ha hb
  | some a => exact .choice_first ha

theorem reads_many {body : Peg ρ} {oa : Option Parsed} {ob : Parsed → Option Parsed} :
    Reads g s (.expr body) input oa →
    (∀ a, oa = some a → Reads g s (.rounds body) a.rest (ob a)) →
    Reads g s (.expr (.many body)) input
      (match oa with
      | some a => (ob a).map a.andThen
      | none => some (.nothing input)) := by
  intro ha hb
  cases oa with
  | none => exact .many_nothing ha
  | some a =>
    have hb := hb a rfl
    -- Further rounds always come to an end.
    obtain ⟨b, hob⟩ := Option.ne_none_iff_exists'.mp hb.rounds_ne_none
    show Reads _ _ _ _ ((ob a).map a.andThen)
    rw [hob] at hb ⊢
    exact .many ha hb

theorem reads_option {body : Peg ρ} {oa : Option Parsed} :
    Reads g s (.expr body) input oa →
    Reads g s (.expr (.option body)) input
      (match oa with
      | some a => some a
      | none => some (.nothing input)) := by
  intro ha
  cases oa with
  | none => exact .option_nothing ha
  | some a => exact .option ha

theorem reads_followedBy {body : Peg ρ} {oa : Option Parsed}
    (ha : Reads g s (.expr body) input oa) :
    Reads g s (.expr (.followedBy body)) input (oa.map fun _ => .nothing input) := by
  cases oa with
  | none => exact .followedBy_none ha
  | some a => exact .followedBy ha

theorem reads_notFollowedBy {body : Peg ρ} {oa : Option Parsed} :
    Reads g s (.expr body) input oa →
    Reads g s (.expr (.notFollowedBy body)) input
      (match oa with
      | some _ => none
      | none => some (.nothing input)) := by
  intro ha
  cases oa with
  | none => exact .notFollowedBy ha
  | some a => exact .notFollowedBy_none ha

theorem reads_leaf {body : Peg ρ} {oa : Option Parsed} (ha : Reads g s (.expr body) input oa) :
    Reads g s (.expr (.leaf body)) input
      (oa.map fun a => ⟨a.consumed, [.leaf (.token (String.ofList a.consumed))], a.rest⟩) := by
  cases oa with
  | none => exact .leaf_none ha
  | some a => exact .leaf ha

theorem reads_branch {name : String} {body : Peg ρ} {oa : Option Parsed}
    (ha : Reads g s (.expr body) input oa) :
    Reads g s (.expr (.branch name body)) input
      (oa.map fun a => ⟨a.consumed, [.node (.construct name) a.trees], a.rest⟩) := by
  cases oa with
  | none => exact .branch_none ha
  | some a => exact .branch ha

theorem reads_rounds {body : Peg ρ} {oa : Option Parsed} {ob : Parsed → Option Parsed}
    {oc : List Char → Option Parsed} (ha : Reads g s .gap input oa)
    (hb : ∀ a, oa = some a → Reads g s (.expr body) a.rest (ob a))
    (hc : ∀ a b, oa = some a → ob a = some b → Reads g s (.rounds body) b.rest (oc b.rest)) :
    Reads g s (.rounds body) input
      (match oa.bind fun a => (ob a).map a.andThen with
      | some a => (oc a.rest).map a.andThen
      | none => some (.nothing input)) := by
  cases oa with
  | none => exact .rounds_none_gap ha
  | some a =>
    have hb := hb a rfl
    have hc := fun b => hc a b rfl
    cases hob : ob a with
    | none =>
      simp only [Option.bind_some, hob, Option.map_none]
      exact .rounds_none ha (hob ▸ hb)
    | some b =>
      have hc := hc b hob
      obtain ⟨c, hoc⟩ := Option.ne_none_iff_exists'.mp hc.rounds_ne_none
      have hrest : (a.andThen b).rest = b.rest := rfl
      simp only [Option.bind_some, hob, Option.map_some, hrest, hoc]
      exact .rounds ha (hob ▸ hb) (hoc ▸ hc)

end Grammar

/-! ### The parser -/

namespace Depths

open Grammar

/-- With this depth, a parser does what `Reads` says wherever the depth is enough. -/
def Suffices (b : Depths ρ) (g : Grammar ρ) (depth : ℕ) : Prop :=
  ∀ (s : Bool) (t : Task ρ) (input : List Char), b.Fits s t →
    depthPerChar * input.length + b.task s t ≤ depth → Reads g s t input (g.run depth s t input)

variable {b : Depths ρ} {g : Grammar ρ} {depth : ℕ} {s : Bool} {input : List Char}

/-- The same for an expression. -/
theorem Suffices.parse (h : b.Suffices g depth) {e : Peg ρ} (hfits : b.fits s e = true)
    (hdepth : depthPerChar * input.length + b.expr s e ≤ depth) :
    Reads g s (.expr e) input (g.parse depth s e input) :=
  h s (.expr e) input hfits hdepth

theorem Suffices.gap (h : b.Suffices g depth)
    (hdepth : depthPerChar * input.length + b.gap s ≤ depth) :
    Reads g s .gap input (g.gap depth s input) :=
  h s .gap input trivial hdepth

theorem Suffices.again (h : b.Suffices g depth) {body : Peg ρ} (hfits : b.fits s body = true)
    (hconsumes : body.consumes = true)
    (hdepth : depthPerChar * input.length + (1 + max (b.gap s) (b.expr s body)) ≤ depth) :
    Reads g s (.rounds body) input (g.again depth s body input) :=
  h s (.rounds body) input ⟨hfits, hconsumes⟩ hdepth

/-- A text that is no longer needs no more depth. -/
theorem depth_le {rest : List Char} (h : rest.length ≤ input.length) :
    depthPerChar * rest.length ≤ depthPerChar * input.length :=
  Nat.mul_le_mul_left _ h

/-- A character less gives back the depth for one character. -/
theorem depth_lt {rest : List Char} (h : rest.length < input.length) :
    depthPerChar * rest.length + depthPerChar ≤ depthPerChar * input.length :=
  Nat.mul_le_mul_left depthPerChar h

theorem depthPerChar_pos : 0 < depthPerChar := by decide

/-- One step further for the layout. -/
theorem Bounds.reads_gap_succ (hb : b.Bounds g) (h : b.Suffices g depth)
    (hdepth : depthPerChar * input.length + b.gap s ≤ depth + 1) :
    Reads g s .gap input (g.gap (depth + 1) s input) := by
  cases s with
  | false => exact .gap_tight
  | true =>
    have hle := hb.layout_le
    change _ + (b.layout + 1) ≤ _ at hdepth
    have ha : Reads g false (.expr g.layout) input (g.parse depth false g.layout input) :=
      h.parse hb.layout_fits (by omega)
    show Reads g true .gap input ((g.parse depth false g.layout input).map _)
    cases hoa : g.parse depth false g.layout input with
    | none => exact .gap_none (hoa ▸ ha)
    | some a => exact .gap_spaced (hoa ▸ ha)

/-- One step further for the rounds of a repetition: each round reads a character, which pays for
the next one. -/
theorem Bounds.reads_again_succ (hb : b.Bounds g) (h : b.Suffices g depth) {body : Peg ρ}
    (hfits : b.fits s body = true) (hconsumes : body.consumes = true)
    (hdepth : depthPerChar * input.length + (1 + max (b.gap s) (b.expr s body)) ≤ depth + 1) :
    Reads g s (.rounds body) input (g.again (depth + 1) s body input) := by
  have hpos := depthPerChar_pos
  have ha : Reads g s .gap input (g.gap depth s input) := h.gap (by omega)
  have hbody : ∀ a, g.gap depth s input = some a →
      Reads g s (.expr body) a.rest (g.parse depth s body a.rest) := by
    intro a hoa
    have hle := depth_le (hoa ▸ ha).length_rest_le
    exact h.parse hfits (by omega)
  rw [Grammar.again]
  refine reads_rounds ha hbody ?_
  intro a a' hoa hob
  have hle := depth_le (hoa ▸ ha).length_rest_le
  have hlt := depth_lt ((hob ▸ hbody a hoa).length_rest_lt hb.rule_consumes hconsumes)
  exact h.again hfits hconsumes (by omega)

/-- One step further for a sequence: if the first part has read a character, that pays for the
second part, and else the second part is as deep as accounted for. -/
theorem Bounds.reads_seq_succ (hb : b.Bounds g) (h : b.Suffices g depth) {first second : Peg ρ}
    (hfits : b.fits s (.seq first second) = true)
    (hdepth : depthPerChar * input.length + b.expr s (.seq first second) ≤ depth + 1) :
    Reads g s (.expr (.seq first second)) input
      (g.parse (depth + 1) s (.seq first second) input) := by
  simp only [Depths.fits, Bool.and_eq_true, Bool.or_eq_true, Bool.not_eq_true',
    decide_eq_true_eq] at hfits
  obtain ⟨⟨hfirst, hsecond⟩, hroom⟩ := hfits
  rw [Depths.expr] at hdepth
  rw [Grammar.parse]
  have ha : Reads g s (.expr first) input (g.parse depth s first input) :=
    h.parse hfirst (by omega)
  have hgap : ∀ a, g.parse depth s first input = some a →
      Reads g s .gap a.rest (g.gap depth s a.rest) := by
    intro a hoa
    have hle := depth_le (hoa ▸ ha).length_rest_le
    exact h.gap (by omega)
  refine reads_seq ha hgap ?_
  intro a a' hoa hob
  have hle := depth_le (hoa ▸ ha).length_rest_le
  have hle' := depth_le (hob ▸ hgap a hoa).length_rest_le
  cases hconsumes : first.consumes with
  | false =>
    rw [hconsumes] at hdepth
    exact h.parse hsecond (by simp only [Bool.false_eq_true, if_false] at hdepth; omega)
  | true =>
    have hlt := depth_lt ((hoa ▸ ha).length_rest_lt hb.rule_consumes hconsumes)
    have hmost := hroom.resolve_left (by rw [hconsumes]; decide)
    exact h.parse hsecond (by omega)

/-- One step further for an expression. -/
theorem Bounds.reads_parse_succ (hb : b.Bounds g) (h : b.Suffices g depth) {e : Peg ρ}
    (hfits : b.fits s e = true)
    (hdepth : depthPerChar * input.length + b.expr s e ≤ depth + 1) :
    Reads g s (.expr e) input (g.parse (depth + 1) s e input) := by
  have hpos := depthPerChar_pos
  cases e with
  | chars text =>
    rw [Grammar.parse]
    cases htext : text.isPrefixOf? input with
    | none => exact .chars_none htext
    | some rest => exact .chars htext
  | one accepts =>
    cases input with
    | nil => exact .one_end
    | cons c rest =>
      rw [Grammar.parse]
      cases hc : accepts c with
      | false => exact .one_none hc
      | true => exact .one hc
  | stop =>
    cases input with
    | nil => exact .stop
    | cons c rest => exact .stop_none
  | call rule =>
    have hle := hb.rule_le rule s
    rw [Depths.expr] at hdepth
    rw [Grammar.parse]
    exact .call (h.parse (hb.rule_fits rule s) (by omega))
  | seq first second => exact hb.reads_seq_succ h hfits hdepth
  | choice first second =>
    rw [Depths.fits, Bool.and_eq_true] at hfits
    rw [Depths.expr] at hdepth
    rw [Grammar.parse]
    apply reads_choice
    · exact h.parse hfits.1 (by omega)
    · exact h.parse hfits.2 (by omega)
  | many body =>
    rw [Depths.fits, Bool.and_eq_true] at hfits
    rw [Depths.expr] at hdepth
    rw [Grammar.parse]
    have ha : Reads g s (.expr body) input (g.parse depth s body input) :=
      h.parse hfits.1 (by omega)
    refine reads_many ha fun a hoa => ?_
    have hlt := depth_lt ((hoa ▸ ha).length_rest_lt hb.rule_consumes hfits.2)
    exact h.again hfits.1 hfits.2 (by omega)
  | option body =>
    rw [Depths.expr] at hdepth
    rw [Grammar.parse]
    apply reads_option
    exact h.parse hfits (by omega)
  | followedBy body =>
    rw [Depths.expr] at hdepth
    rw [Grammar.parse]
    apply reads_followedBy
    exact h.parse hfits (by omega)
  | notFollowedBy body =>
    rw [Depths.expr] at hdepth
    rw [Grammar.parse]
    apply reads_notFollowedBy
    exact h.parse hfits (by omega)
  | leaf body =>
    rw [Depths.expr] at hdepth
    rw [Grammar.parse]
    apply reads_leaf
    exact h.parse hfits (by omega)
  | branch name body =>
    rw [Depths.expr] at hdepth
    rw [Grammar.parse]
    apply reads_branch
    exact h.parse hfits (by omega)
  | tight body =>
    rw [Depths.expr] at hdepth
    rw [Grammar.parse]
    apply Reads.tight
    exact h.parse hfits (by omega)
  | spaced body =>
    rw [Depths.expr] at hdepth
    rw [Grammar.parse]
    apply Reads.spaced
    exact h.parse hfits (by omega)

/-- **The bound is never reached**: a parser does what `Reads` says wherever the depth is enough for
what is left of the text. -/
theorem Bounds.suffices (hb : b.Bounds g) (depth : ℕ) : b.Suffices g depth := by
  induction depth with
  | zero =>
    intro s t input _ hdepth
    have hpos := b.task_pos s t
    omega
  | succ depth ih =>
    intro s t input hfits hdepth
    cases t with
    | expr e => exact hb.reads_parse_succ ih hfits hdepth
    | gap => exact hb.reads_gap_succ ih hdepth
    | rounds body => exact hb.reads_again_succ ih hfits.1 hfits.2 hdepth

/-- **What a grammar reads** from a whole text. -/
theorem Bounds.reads_of_read? (hb : b.Bounds g) {start : Peg ρ} (hfits : b.fits false start = true)
    (hstart : b.expr false start ≤ depthPerChar) {text : String} {tree : Rose Label}
    (h : g.read? start text = some tree) :
    ∃ consumed rest,
      Reads g false (.expr start) text.toList (some ⟨consumed, [tree], rest⟩) := by
  have hreads : Reads g false (.expr start) text.toList
      (g.parse (depthPerChar * (text.length + 1)) false start text.toList) :=
    (hb.suffices _).parse hfits (by rw [String.length_toList, Nat.mul_succ]; omega)
  unfold read? at h
  split at h
  · next consumed tree' rest hparse =>
    obtain rfl := Option.some.inj h
    exact ⟨consumed, rest, hparse ▸ hreads⟩
  · cases h

end Depths

end ChangeQuery
