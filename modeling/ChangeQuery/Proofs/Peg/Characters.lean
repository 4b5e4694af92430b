import ChangeQuery.Proofs.Peg.Trees

/-!
## The characters that parsing expressions read

Which characters can stand anywhere in what an expression reads, and not only in front, is answered by
looking at the expression in two ways.  `Peg.lacks` says that a character does not occur, and
`Peg.words?` lists all texts of an expression that is made up of fixed ones.

Layout between the parts of a sequence can be any text, so spaced sequences lack no character and have
no list of texts.

* `Grammar.Reads.notMem_consumed`: a character that is lacking is not read.
* `Grammar.Reads.consumed_mem_words`: what is read is one of the texts.
-/

namespace ChangeQuery

variable {ρ : Type}

namespace Peg

/-- No text read contains the character. -/
def lacks (x : Char) : Bool → Peg ρ → Bool
  | _, chars text => text.all (· != x)
  | _, one accepts => !accepts x
  | _, call _ => false
  | s, seq first second => !s && first.lacks x s && second.lacks x s
  | s, choice first second => first.lacks x s && second.lacks x s
  | s, many body => !s && body.lacks x s
  | s, option body | s, leaf body | s, branch _ body => body.lacks x s
  | _, tight body => body.lacks x false
  | _, spaced body => body.lacks x true
  | _, followedBy _ | _, notFollowedBy _ | _, stop => true

/-- All texts that are read, if the expression is made up of fixed texts.  What is looked ahead at is
not taken into account. -/
def words? : Bool → Peg ρ → Option (List (List Char))
  | _, chars text => some [text]
  | _, one _ | _, call _ | _, many _ => none
  | s, seq first second =>
    if s then none
    else (first.words? s).bind fun us => (second.words? s).map fun vs =>
      us.flatMap fun u => vs.map (u ++ ·)
  | s, choice first second =>
    (first.words? s).bind fun us => (second.words? s).map fun vs => us ++ vs
  | s, option body => (body.words? s).map ([] :: ·)
  | s, leaf body | s, branch _ body => body.words? s
  | _, tight body => body.words? false
  | _, spaced body => body.words? true
  | _, followedBy _ | _, notFollowedBy _ | _, stop => some [[]]

end Peg

namespace Grammar

variable {g : Grammar ρ} {s : Bool} {e : Peg ρ} {input : List Char} {p : Parsed}

/-! ### Lacking characters -/

/-- The same of anything there is to read. -/
def LacksTask (x : Char) (s : Bool) : Task ρ → Prop
  | .expr e => e.lacks x s = true
  | .gap => s = false
  | .rounds body => s = false ∧ body.lacks x s = true

theorem Reads.notMem_task_consumed {x : Char} {t : Task ρ} (h : Reads g s t input (some p)) :
    LacksTask x s t → x ∉ p.consumed := by
  induction h using Reads.induct with
  | chars =>
    intro he hmem
    exact absurd rfl (bne_iff_ne.mp (List.all_eq_true.mp he x hmem))
  | @one _ accepts c _ hc =>
    intro he hmem
    obtain rfl := List.mem_singleton.mp hmem
    rw [LacksTask, Peg.lacks, hc] at he
    cases he
  | call => exact fun he => absurd he Bool.false_ne_true
  | @seq s _ _ _ a b c _ _ _ iha ihb ihc =>
    intro he hmem
    rw [LacksTask, Peg.lacks, Bool.and_eq_true, Bool.and_eq_true, Bool.not_eq_true'] at he
    obtain ⟨⟨hs, hfirst⟩, hsecond⟩ := he
    change x ∈ a.consumed ++ (b.consumed ++ c.consumed) at hmem
    rw [List.mem_append, List.mem_append] at hmem
    rcases hmem with hmem | hmem | hmem
    · exact iha hfirst hmem
    · exact ihb hs hmem
    · exact ihc hsecond hmem
  | choice_first _ ih => exact fun he => ih (Bool.and_eq_true_iff.mp he).1
  | choice_second _ _ ih => exact fun he => ih (Bool.and_eq_true_iff.mp he).2
  | @many s body _ a b _ _ iha ihb =>
    intro he hmem
    rw [LacksTask, Peg.lacks, Bool.and_eq_true, Bool.not_eq_true'] at he
    rcases List.mem_append.mp hmem with hmem | hmem
    · exact iha he.2 hmem
    · exact ihb he hmem
  | option _ ih | leaf _ ih | branch _ ih | tight _ ih | spaced _ ih => exact ih
  | gap_spaced => exact fun hs => absurd hs.symm Bool.false_ne_true
  | @rounds s body _ a b c _ _ _ iha ihb ihc =>
    intro he hmem
    change x ∈ (a.consumed ++ b.consumed) ++ c.consumed at hmem
    rw [List.mem_append, List.mem_append] at hmem
    rcases hmem with (hmem | hmem) | hmem
    · exact iha he.1 hmem
    · exact ihb he.2 hmem
    · exact ihc he hmem
  | _ => exact fun _ => List.not_mem_nil

/-- **Lacking characters** are not read. -/
theorem Reads.notMem_consumed {x : Char} (h : Reads g s (.expr e) input (some p))
    (he : e.lacks x s = true) : x ∉ p.consumed :=
  h.notMem_task_consumed he

/-! ### Fixed texts -/

/-- What was read is one of the texts of anything there is to read. -/
def WordsTask (s : Bool) (w : List Char) : Task ρ → Prop
  | .expr e => ∀ ws, e.words? s = some ws → w ∈ ws
  | .gap => s = false → w = []
  | .rounds _ => True

theorem Reads.wordsTask {t : Task ρ} (h : Reads g s t input (some p)) :
    WordsTask s p.consumed t := by
  induction h using Reads.induct with
  | chars =>
    rintro ws ⟨⟩
    exact List.mem_singleton_self _
  | @seq s first second _ a b c _ _ _ iha ihb ihc =>
    intro ws hws
    rw [Peg.words?] at hws
    split_ifs at hws with hs
    obtain ⟨us, hus, hws⟩ := Option.bind_eq_some_iff.mp hws
    obtain ⟨vs, hvs, rfl⟩ := Option.map_eq_some_iff.mp hws
    have hgap : b.consumed = [] := ihb (Bool.not_eq_true _ ▸ hs)
    show a.consumed ++ (b.consumed ++ c.consumed) ∈ _
    rw [hgap, List.nil_append]
    exact List.mem_flatMap.mpr ⟨_, iha us hus, List.mem_map_of_mem (ihc vs hvs)⟩
  | choice_first _ ih =>
    intro ws hws
    obtain ⟨us, hus, hws⟩ := Option.bind_eq_some_iff.mp hws
    obtain ⟨vs, hvs, rfl⟩ := Option.map_eq_some_iff.mp hws
    exact List.mem_append_left _ (ih us hus)
  | choice_second _ _ ih =>
    intro ws hws
    obtain ⟨us, hus, hws⟩ := Option.bind_eq_some_iff.mp hws
    obtain ⟨vs, hvs, rfl⟩ := Option.map_eq_some_iff.mp hws
    exact List.mem_append_right _ (ih vs hvs)
  | option_nothing =>
    intro ws hws
    obtain ⟨us, hus, rfl⟩ := Option.map_eq_some_iff.mp hws
    exact List.mem_cons_self
  | option _ ih =>
    intro ws hws
    obtain ⟨us, hus, rfl⟩ := Option.map_eq_some_iff.mp hws
    exact List.mem_cons_of_mem _ (ih us hus)
  | leaf _ ih | branch _ ih | tight _ ih | spaced _ ih => exact ih
  | followedBy | notFollowedBy | stop =>
    rintro ws ⟨⟩
    exact List.mem_singleton_self _
  | gap_tight => exact fun _ => rfl
  | gap_spaced => exact fun hs => absurd hs.symm Bool.false_ne_true
  | rounds_none_gap | rounds_none | rounds => trivial
  | one | call | many_nothing | many => rintro ws ⟨⟩

/-- **Fixed texts**: what is read is one of the texts of the expression. -/
theorem Reads.consumed_mem_words {ws : List (List Char)}
    (h : Reads g s (.expr e) input (some p)) (he : e.words? s = some ws) : p.consumed ∈ ws :=
  h.wordsTask ws he

end Grammar

end ChangeQuery
