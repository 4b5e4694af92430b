import ChangeQuery.Proofs.Peg.Trees

/-!
## Tokens and the gaps between them

What an expression reads is woven of the texts of the tokens that it leaves and of gaps between them.
The gaps are texts of a kind that the grammar decides on; `Joins` says that gaps next to each other are
one gap.

Whether all that an expression reads is accounted for in this way can be seen from the expression
(`Peg.accounted`): what does not stand in a token must be layout between the parts of a sequence.

* `Woven`: a text made of tokens and gaps; `Woven.exists_gaps` writes it out.
* `Grammar.yields_isWoven_of_accounted`: reading an expression that is accounted for.
* `Grammar.Yields`: everything that an expression reads has a property, as it follows from the parts of
  the expression where gaps are read by hand.
-/

namespace ChangeQuery

variable {ρ : Type} {Gap : List Char → List Char → Prop}

/-- A text with `rest` behind it is a gap, the first token, a gap, the next token and so on, up to a
gap at the end.  Whether a text is a gap may depend on what stands behind it. -/
inductive Woven (Gap : List Char → List Char → Prop) :
    List String → List Char → List Char → Prop
  | gap {w rest : List Char} (h : Gap w rest) : Woven Gap [] w rest
  | token {w text rest : List Char} {t : String} {ts : List String}
      (h : Gap w (t.toList ++ text ++ rest)) (htext : Woven Gap ts text rest) :
    Woven Gap (t :: ts) (w ++ (t.toList ++ text)) rest

/-- Nothing is a gap, and two gaps next to each other are one. -/
structure Joins (Gap : List Char → List Char → Prop) : Prop where
  nil : ∀ rest, Gap [] rest
  append : ∀ {a b rest}, Gap a (b ++ rest) → Gap b rest → Gap (a ++ b) rest

namespace Woven

variable {ts us : List String} {a b text rest : List Char}

/-- **Two woven texts** next to each other are one: the gaps between them become one gap. -/
theorem append (hgap : Joins Gap) (ha : Woven Gap ts a (b ++ rest)) (hb : Woven Gap us b rest) :
    Woven Gap (ts ++ us) (a ++ b) rest := by
  generalize hrest : b ++ rest = rest' at ha
  induction ha with
  | gap h =>
    subst hrest
    cases hb with
    | gap hb => exact .gap (hgap.append h hb)
    | @token w text rest t us hb htext =>
      rw [List.nil_append, ← List.append_assoc]
      refine .token (hgap.append ?_ hb) htext
      rwa [List.append_assoc] at h
  | @token w text rest' t ts h _ ih =>
    subst hrest
    rw [List.append_assoc, List.append_assoc]
    refine .token ?_ (ih rfl)
    rwa [← List.append_assoc] at h ⊢

/-- A token with nothing around it. -/
theorem single (hgap : Joins Gap) (t rest : List Char) : Woven Gap [String.ofList t] t rest := by
  have htoken : Woven Gap [String.ofList t] ([] ++ ((String.ofList t).toList ++ [])) rest :=
    .token (hgap.nil _) (.gap (hgap.nil rest))
  rwa [List.nil_append, List.append_nil, String.toList_ofList] at htoken

/-- **A woven text written out**: a gap, and behind each token another one. -/
theorem exists_gaps (h : Woven Gap ts text rest) :
    ∃ (first : List Char) (gaps : List (List Char)), gaps.length = ts.length ∧
      text = first ++ (List.zipWith (fun t gap => t.toList ++ gap) ts gaps).flatten ∧
      ∀ w ∈ first :: gaps, ∃ following, Gap w following := by
  induction h with
  | @gap w rest h =>
    refine ⟨w, [], rfl, by simp, ?_⟩
    rintro _ (_ | ⟨_, ⟨⟩⟩)
    exact ⟨rest, h⟩
  | @token w text rest t ts h _ ih =>
    obtain ⟨first, gaps, hlength, htext, hgaps⟩ := ih
    refine ⟨w, first :: gaps, by rw [List.length_cons, List.length_cons, hlength], ?_, ?_⟩
    · rw [List.zipWith_cons_cons, List.flatten_cons, List.append_assoc, ← htext]
    · exact List.forall_mem_cons.mpr ⟨⟨_, h⟩, hgaps⟩

end Woven

/-! ### What is read -/

namespace Parsed

/-- What was read is a gap. -/
def IsGap (Gap : List Char → List Char → Prop) (p : Parsed) : Prop :=
  Gap p.consumed p.rest

/-- What was read is woven of the tokens that were left. -/
def IsWoven (Gap : List Char → List Char → Prop) (p : Parsed) : Prop :=
  Woven Gap (p.trees.flatMap Rose.texts) p.consumed p.rest

/-- Nothing has the property, and two pieces read one after another have it if both do. -/
structure Composes (P : Parsed → Prop) : Prop where
  nothing : ∀ input, P (.nothing input)
  andThen : ∀ {a b}, P a → P b → b.consumed ++ b.rest = a.rest → P (a.andThen b)

/-- A gap that left no token is woven. -/
theorem IsGap.isWoven {p : Parsed} (h : p.IsGap Gap) (htrees : p.trees = []) : p.IsWoven Gap := by
  rw [IsWoven, htrees]
  exact .gap h

end Parsed

namespace Joins

variable (hgap : Joins Gap)
include hgap

theorem composes_isGap : Parsed.Composes (Parsed.IsGap Gap) where
  nothing := hgap.nil
  andThen ha hb hrest := by
    rw [Parsed.IsGap, ← hrest] at ha
    exact hgap.append ha hb

/-- **What is read piece by piece** is woven if every piece is. -/
theorem composes_isWoven : Parsed.Composes (Parsed.IsWoven Gap) where
  nothing input := .gap (hgap.nil input)
  andThen ha hb hrest := by
    rw [Parsed.IsWoven, ← hrest] at ha
    have happend := ha.append hgap hb
    rwa [← List.flatMap_append] at happend

end Joins

/-! ### What an expression reads -/

namespace Grammar

variable {g : Grammar ρ} {s : Bool} {P : Parsed → Prop}

/-- Everything that the expression reads has the property. -/
def Yields (g : Grammar ρ) (s : Bool) (e : Peg ρ) (P : Parsed → Prop) : Prop :=
  ∀ ⦃input p⦄, Reads g s (.expr e) input (some p) → P p

namespace Yields

variable {first second body : Peg ρ}

theorem append (hP : Parsed.Composes P) (hfirst : g.Yields false first P)
    (hsecond : g.Yields false second P) : g.Yields false (first ++ second) P := by
  intro input p h
  obtain ⟨a, b, ha, hb, rfl⟩ := reads_append_iff.mp h
  exact hP.andThen (hfirst ha) (hsecond hb) hb.append_rest

theorem orElse (hfirst : g.Yields s first P) (hsecond : g.Yields s second P) :
    g.Yields s (first <|> second) P := by
  intro input p h
  rcases reads_orElse h with ⟨h, -⟩ | ⟨-, h⟩
  · exact hfirst h
  · exact hsecond h

theorem many (hP : Parsed.Composes P) (hbody : g.Yields false body P) :
    g.Yields false (.many body) P := by
  intro input p h
  induction h using Reads.many_induct with
  | nothing => exact hP.nothing _
  | andThen ha hb _ ih => exact hP.andThen (hbody ha) ih hb.append_rest

theorem tight (hbody : g.Yields false body P) : g.Yields s (.tight body) P := by
  intro input p h
  cases h with
  | tight h => exact hbody h

/-- A construct above what is woven is woven of the same tokens. -/
theorem branch (hbody : g.Yields s body (Parsed.IsWoven Gap)) (name : String) :
    g.Yields s (.branch name body) (Parsed.IsWoven Gap) := by
  intro input p h
  cases h with
  | branch h =>
    rw [Parsed.IsWoven, List.flatMap_singleton, Rose.texts_construct]
    exact hbody h

/-- Gaps are woven where the expression leaves nothing. -/
theorem isWoven (hbody : g.Yields s body (Parsed.IsGap Gap))
    (hroots : body.roots (fun _ => false) (fun _ => false) false = true) :
    g.Yields s body (Parsed.IsWoven Gap) := by
  intro input p h
  refine (hbody h).isWoven (List.eq_nil_iff_forall_not_mem.mpr fun t ht => ?_)
  have hroot := (leaves_of_reads h).isRoot nofun hroots t ht
  unfold IsRoot at hroot
  split at hroot
  · cases hroot
  · obtain ⟨-, _, hnone, -⟩ := hroot
    cases hnone

end Yields

end Grammar

/-! ### Expressions that are accounted for -/

/-- All characters that are read stand in tokens, but for the layout between the parts of a
sequence.  Rules count as reading in this way. -/
def Peg.accounted : Peg ρ → Bool
  | chars text => text.isEmpty
  | one _ => false
  | seq first second | choice first second => first.accounted && second.accounted
  | many body | option body | branch _ body | tight body | spaced body => body.accounted
  | leaf _ | call _ | followedBy _ | notFollowedBy _ | stop => true

/-- The same of anything there is to read. -/
def Task.accounted : Task ρ → Bool
  | .expr e | .rounds e => e.accounted
  | .gap => true

namespace Grammar

variable {g : Grammar ρ} {s : Bool}

theorem Reads.isWoven (hgap : Joins Gap) (hrules : ∀ rule, (g.rule rule).accounted = true)
    (hlayout : g.Yields false g.layout (Parsed.IsGap Gap)) {t : Task ρ} {input : List Char}
    {p : Parsed} (h : Reads g s t input (some p)) : t.accounted = true → p.IsWoven Gap := by
  have hwoven := hgap.composes_isWoven
  induction h using Reads.induct with
  | @chars _ text _ rest _ =>
    intro he
    rw [List.isEmpty_iff.mp he]
    exact hwoven.nothing rest
  | one => exact fun he => absurd he Bool.false_ne_true
  | call _ ih => exact fun _ => ih (hrules _)
  | @seq _ _ _ _ a b c ha hb hc iha ihb ihc =>
    intro he
    obtain ⟨hfirst, hsecond⟩ := Bool.and_eq_true_iff.mp he
    have hrest := hwoven.andThen (ihb rfl) (ihc hsecond) hc.append_rest
    refine hwoven.andThen (iha hfirst) hrest ?_
    show b.consumed ++ c.consumed ++ c.rest = a.rest
    rw [List.append_assoc, hc.append_rest, hb.append_rest]
  | choice_first _ ih => exact fun he => ih (Bool.and_eq_true_iff.mp he).1
  | choice_second _ _ ih => exact fun he => ih (Bool.and_eq_true_iff.mp he).2
  | many _ hb iha ihb => exact fun he => hwoven.andThen (iha he) (ihb he) hb.append_rest
  | option _ ih | tight _ ih | spaced _ ih => exact ih
  | @leaf _ _ _ a _ _ =>
    intro _
    rw [Parsed.IsWoven, List.flatMap_singleton, Rose.texts_leaf]
    exact .single hgap a.consumed a.rest
  | branch _ ih =>
    intro he
    rw [Parsed.IsWoven, List.flatMap_singleton, Rose.texts_construct]
    exact ih he
  | gap_spaced ha =>
    have h := hlayout ha
    exact fun _ => .gap h
  | rounds ha hb hc iha ihb ihc =>
    intro he
    have hround := hwoven.andThen (iha rfl) (ihb he) hb.append_rest
    exact hwoven.andThen hround (ihc he) hc.append_rest
  | _ => exact fun _ => hwoven.nothing _

/-- **Nothing is lost but layout**: an expression that is accounted for reads the tokens that it
leaves, and layout. -/
theorem yields_isWoven_of_accounted (hgap : Joins Gap)
    (hrules : ∀ rule, (g.rule rule).accounted = true)
    (hlayout : g.Yields false g.layout (Parsed.IsGap Gap)) {e : Peg ρ}
    (he : e.accounted = true) : g.Yields s e (Parsed.IsWoven Gap) :=
  fun _ _ h => h.isWoven hgap hrules hlayout he

end Grammar

end ChangeQuery
