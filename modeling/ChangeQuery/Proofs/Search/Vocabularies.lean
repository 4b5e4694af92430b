import ChangeQuery.Proofs.Comparison.Observation
import ChangeQuery.Proofs.Search.TokenRejects
import ChangeQuery.Search.Explanation

/-!
## Searches and vocabularies

The parser of an engine enters every construct that it meets into one vocabulary, so what it read
before decides on the symbols of a query and its candidates.  None of this shows in an answer.

A query prepared over one vocabulary and the same query prepared over another have the same outline,
fingerprint and tokens (`Query.Alike`).  They get the same verdict on every candidate, and it does not
matter either what the parser reads between the query and the candidate (`Engine.judgeOver_congr`).

* `Engine.search_withVocabulary`: a search gives the same answer over every vocabulary.
* `Tree.vocabularies_unobservable`: trees that share a vocabulary, or have their own, cannot be told
  apart, and neither can searches.
-/

namespace ChangeQuery

open Comparison (FaithfulChanges)
open Placeholder (Table)

variable {σ : Type}

/-! ### Parsed changes -/

/-- The sides of a parsed change are nodes over the vocabulary that the parser is left with. -/
theorem Parser.over_change {p : Parser} {v w : Vocabulary} {source delimiter : String} {c : Change}
    (h : p.change v source delimiter = .ok (w, c)) : c.old.node.Over w ∧ c.new.node.Over w := by
  obtain ⟨tree, htree, hof⟩ := Parser.change_eq_ok_iff.mp h
  obtain ⟨root, hroot, hold, hnew⟩ := Change.mem_children_of_ofTree hof
  unfold Parser.tree at htree
  cases hread : p.read source with
  | error cause =>
    rw [hread] at htree
    cases htree
  | ok labels? =>
    rw [hread] at htree
    cases labels? with
    | none =>
      obtain ⟨-, rfl⟩ := Prod.mk.inj (Except.ok.inj htree)
      cases hroot
    | some labels =>
      obtain ⟨root', hroot', -, hover⟩ := Tree.labels_ofLabels (Except.ok.inj htree)
      obtain rfl := Option.some.inj (hroot.symm.trans hroot')
      exact ⟨hover.child hold, hover.child hnew⟩

/-- The vocabulary `u` is `v` at a later time, or not the same one. -/
def Vocabulary.Precedes (v u : Vocabulary) : Prop :=
  v.owner = u.owner → v.names <+: u.names

/-- Labels tell whether the nodes of a query and a candidate agree, whatever the parser read between
them. -/
theorem Parser.faithfulChanges {p : Parser} {v w u u' : Vocabulary} {text text' delimiter : String}
    {query candidate : Change} (hquery : p.change v text delimiter = .ok (w, query))
    (hprecedes : w.Precedes u) (hcandidate : p.change u text' delimiter = .ok (u', candidate)) :
    FaithfulChanges query candidate := by
  obtain ⟨howner, hnames⟩ := Parser.vocabulary_change hcandidate
  have hcompatible : w.Compatible u' := by
    intro hsame
    exact .inl ((hprecedes (hsame.trans howner)).trans hnames)
  obtain ⟨hold, hnew⟩ := Parser.over_change hquery
  obtain ⟨hold', hnew'⟩ := Parser.over_change hcandidate
  exact ⟨Comparison.faithful_of_over hcompatible hold hold',
    Comparison.faithful_of_over hcompatible hnew hnew'⟩

/-! ### Verdicts -/

/-- The queries differ at most in their vocabularies. -/
structure Query.Alike (q q' : Query) : Prop where
  outline_eq : q.change.outline = q'.change.outline
  fingerprint_eq : q.fingerprint = q'.fingerprint
  tokens_eq : q.tokens = q'.tokens

namespace Engine

/-- The engine with another vocabulary. -/
def withVocabulary (e : Engine σ) (w : Vocabulary) : Engine σ :=
  { e with vocabulary := w }

@[simp] theorem settings_withVocabulary (e : Engine σ) (w : Vocabulary) :
    (e.withVocabulary w).settings = e.settings := rfl

@[simp] theorem lookup_withVocabulary (e : Engine σ) (w : Vocabulary) :
    (e.withVocabulary w).lookup = e.lookup := rfl

/-- Takes a candidate that was parsed through the remaining stages. -/
def judgeChange (e : Engine σ) (q : Query) (state : σ) (text : String) (candidate : Change) :
    Verdict × σ :=
  match e.similarity q candidate with
  | .error _ => (.dimensionMismatch, state)
  | .ok similarity =>
    if similarity < e.settings.config.similarityThreshold then (.dissimilar, state)
    else if !Comparison.changesMatch e.settings.table q.change candidate then
      (.structureDiffers, state)
    else e.judgeTokens q state text candidate similarity

/-- Takes one candidate through the stages, parsed over the vocabulary `u`. -/
def judgeOver (e : Engine σ) (q : Query) (u : Vocabulary) (state : σ) (id : ℕ) : Verdict × σ :=
  match e.corpus.change? id with
  | none => (.missing, state)
  | some text =>
    match e.parser.change u text e.settings.config.delimiter with
    | .error _ => (.unparsable, state)
    | .ok (_, candidate) => e.judgeChange q state text candidate

variable {e : Engine σ} {q q' : Query} {text : String} {w : Vocabulary}

theorem judge_eq_judgeOver (e : Engine σ) (q : Query) (state : σ) (id : ℕ) :
    e.judge q state id = e.judgeOver q (e.candidateVocabulary q) state id := by
  rw [judge, judgeOver]
  cases e.corpus.change? id with
  | none => rfl
  | some text =>
    dsimp only
    rw [parseCandidate]
    cases e.parser.change (e.candidateVocabulary q) text e.settings.config.delimiter <;> rfl

/-- The vocabulary of a query precedes the one that its candidates are parsed over. -/
theorem precedes_candidateVocabulary (e : Engine σ) (q : Query) :
    q.vocabulary.Precedes (e.candidateVocabulary q) := by
  unfold candidateVocabulary
  split_ifs with howner
  · exact fun _ => List.prefix_rfl
  · exact fun hsame => absurd hsame howner

theorem similarity_congr (halike : q.Alike q') {candidate candidate' : Change}
    (hcandidate : candidate.outline = candidate'.outline) :
    e.similarity q candidate = e.similarity q' candidate' := by
  obtain ⟨-, hsides⟩ := Prod.mk.inj hcandidate
  obtain ⟨hold, hnew⟩ := Prod.mk.inj hsides
  rw [similarity, similarity, halike.fingerprint_eq,
    Fingerprint.ofChange_congr _ (Site.labels_congr hold) (Site.labels_congr hnew)]

/-- The remaining stages see outlines only. -/
theorem judgeChange_congr (halike : q.Alike q') {candidate candidate' : Change}
    (hcandidate : candidate.outline = candidate'.outline)
    (hfaithful : FaithfulChanges q.change candidate)
    (hfaithful' : FaithfulChanges q'.change candidate') (state : σ) (text : String) :
    e.judgeChange q state text candidate = e.judgeChange q' state text candidate' := by
  obtain ⟨htree, -⟩ := Prod.mk.inj hcandidate
  have hmatch : Comparison.changesMatch e.settings.table q.change candidate =
      Comparison.changesMatch e.settings.table q'.change candidate' :=
    congrArg Prod.fst
      (Comparison.compareChanges_congr halike.outline_eq hcandidate hfaithful hfaithful' {})
  have htokens : ∀ similarity : Float, e.judgeTokens q state text candidate similarity =
      e.judgeTokens q' state text candidate' similarity := by
    intro similarity
    rw [judgeTokens, judgeTokens, halike.tokens_eq, TokenSides.ofTree_congr htree]
  rw [judgeChange, judgeChange, similarity_congr halike hcandidate, hmatch]
  simp only [htokens]

/-! ### Preparing a query -/

/-- Makes a query of a parsed change that is large enough. -/
def queryOf (e : Engine σ) (parsed : Vocabulary × Change) : Except SearchError Query :=
  if parsed.2.tree.size < e.settings.config.minQueryNodes then
    .error (.tooSmallQuery parsed.2.tree.size e.settings.config.minQueryNodes)
  else
    .ok ⟨parsed.2, Fingerprint.ofChange e.settings.buckets parsed.2,
      TokenSides.ofTree parsed.2.tree e.settings.config.delimiter, parsed.1⟩

theorem prepare_withVocabulary (e : Engine σ) (w : Vocabulary) (text : String) :
    (e.withVocabulary w).prepare text =
      match e.parser.change w text e.settings.config.delimiter with
      | .error cause => .error (.queryParse cause)
      | .ok parsed => e.queryOf parsed := by
  unfold prepare withVocabulary
  dsimp only
  cases e.parser.change w text e.settings.config.delimiter <;> rfl

theorem queryOf_cases (e : Engine σ) {parsed parsed' : Vocabulary × Change}
    (h : parsed.2.outline = parsed'.2.outline) :
    (∃ cause, e.queryOf parsed = .error cause ∧ e.queryOf parsed' = .error cause) ∨
    ∃ q q', e.queryOf parsed = .ok q ∧ e.queryOf parsed' = .ok q' ∧ q.Alike q' := by
  obtain ⟨htree, hsides⟩ := Prod.mk.inj h
  obtain ⟨hold, hnew⟩ := Prod.mk.inj hsides
  rw [queryOf, queryOf, Tree.size_congr htree]
  split_ifs
  · exact .inl ⟨_, rfl, rfl⟩
  · exact .inr ⟨_, _, rfl, rfl, h, Fingerprint.ofChange_congr _ (Site.labels_congr hold)
      (Site.labels_congr hnew), TokenSides.ofTree_congr htree _⟩

/-- **Preparing a query** over two vocabularies gives queries that are alike, or fails for the same
reason. -/
theorem prepare_cases (e : Engine σ) (w : Vocabulary) (text : String) :
    (∃ cause, e.prepare text = .error cause ∧
      (e.withVocabulary w).prepare text = .error cause) ∨
    ∃ q q', e.prepare text = .ok q ∧ (e.withVocabulary w).prepare text = .ok q' ∧ q.Alike q' := by
  have hself : e.prepare text = (e.withVocabulary e.vocabulary).prepare text := rfl
  rw [hself, prepare_withVocabulary, prepare_withVocabulary]
  rcases except_cases_of_map_eq (e.parser.change_congr e.vocabulary w text
    e.settings.config.delimiter) with
      ⟨cause, hchange, hchange'⟩ | ⟨parsed, parsed', hchange, hchange', houtline⟩
  · rw [hchange, hchange']
    exact .inl ⟨_, rfl, rfl⟩
  · rw [hchange, hchange']
    exact e.queryOf_cases houtline

/-- **Verdicts do not depend on vocabularies**, neither on the one that the query was parsed over nor
on those that the candidates are parsed over later. -/
theorem judgeOver_congr (hq : e.prepare text = .ok q)
    (hq' : (e.withVocabulary w).prepare text = .ok q') (halike : q.Alike q') {u u' : Vocabulary}
    (hu : q.vocabulary.Precedes u) (hu' : q'.vocabulary.Precedes u') (state : σ) (id : ℕ) :
    e.judgeOver q u state id = e.judgeOver q' u' state id := by
  rw [judgeOver, judgeOver]
  cases e.corpus.change? id with
  | none => rfl
  | some candidateText =>
    dsimp only
    rcases except_cases_of_map_eq (e.parser.change_congr u u' candidateText
      e.settings.config.delimiter) with
        ⟨cause, hchange, hchange'⟩ | ⟨⟨v, candidate⟩, ⟨v', candidate'⟩, hchange, hchange', houtline⟩
    · rw [hchange, hchange']
    · rw [hchange, hchange']
      exact judgeChange_congr halike houtline
        (Parser.faithfulChanges (of_prepare hq).1 hu hchange)
        (Parser.faithfulChanges (of_prepare hq').1 hu' hchange') state candidateText

/-! ### Searching -/

/-- What a step does, it does because of the verdict. -/
theorem step_congr (h : ∀ state id, e.judge q state id = (e.withVocabulary w).judge q' state id)
    (isCancelled : σ → Bool) (p : Progress σ) (rank id : ℕ) :
    e.step q isCancelled p rank id = (e.withVocabulary w).step q' isCancelled p rank id := by
  rw [step, step, h]
  rfl

theorem runFrom_congr (h : ∀ state id, e.judge q state id = (e.withVocabulary w).judge q' state id)
    (isCancelled : σ → Bool) (ids : List ℕ) : ∀ (rank : ℕ) (p : Progress σ),
      e.runFrom q isCancelled rank p ids =
        (e.withVocabulary w).runFrom q' isCancelled rank p ids := by
  induction ids with
  | nil => exact fun _ _ => rfl
  | cons id ids ih =>
    intro rank p
    rw [runFrom, runFrom, step_congr h, ih]

/-- **The answer to a search** does not depend on what its parser read before. -/
theorem search_withVocabulary (e : Engine σ) (w : Vocabulary) (text : String)
    (isCancelled : σ → Bool) (state : σ) :
    (e.withVocabulary w).search text isCancelled state = e.search text isCancelled state := by
  rw [search, search]
  rcases e.prepare_cases w text with ⟨cause, hq, hq'⟩ | ⟨q, q', hq, hq', halike⟩
  · rw [hq, hq']
  · have hjudge : ∀ state id, e.judge q state id = (e.withVocabulary w).judge q' state id := by
      intro state id
      rw [judge_eq_judgeOver, judge_eq_judgeOver]
      exact judgeOver_congr hq hq' halike (e.precedes_candidateVocabulary q)
        ((e.withVocabulary w).precedes_candidateVocabulary q') state id
    have hrun : ∀ shortlist, (e.withVocabulary w).run q' isCancelled state shortlist =
        e.run q isCancelled state shortlist := by
      intro shortlist
      rw [run, run, runFrom_congr hjudge]
      rfl
    rw [hq, hq']
    dsimp only
    rw [searchQuery, searchQuery, halike.fingerprint_eq, lookup_withVocabulary,
      settings_withVocabulary]
    simp only [hrun]

/-! ### Explaining -/

theorem explainChange_congr (halike : q.Alike q') {candidate candidate' : Change}
    (hcandidate : candidate.outline = candidate'.outline)
    (hfaithful : FaithfulChanges q.change candidate)
    (hfaithful' : FaithfulChanges q'.change candidate') (state : σ) (similarity : Float) :
    e.explainChange q state candidate similarity =
      e.explainChange q' state candidate' similarity := by
  obtain ⟨hquery, -⟩ := Prod.mk.inj halike.outline_eq
  obtain ⟨htree, -⟩ := Prod.mk.inj hcandidate
  rw [explainChange, explainChange,
    Comparison.compareChanges_congr halike.outline_eq hcandidate hfaithful hfaithful',
    halike.tokens_eq, TokenSides.ofTree_congr htree]
  simp only [Comparison.report_congr hquery htree]

/-- Explains a candidate of the corpus, parsed over the vocabulary `u`. -/
def explainOver (e : Engine σ) (q : Query) (u : Vocabulary) (id : ℕ) (state : σ) :
    Except SearchError Explanation × σ :=
  match e.corpus.change? id with
  | none => (.error (.missingCandidate id), state)
  | some text =>
    match e.parser.change u text e.settings.config.delimiter with
    | .error cause => (.error (.candidateParse id cause), state)
    | .ok (_, candidate) =>
      match e.similarity q candidate with
      | .error cause => (.error (.dimension cause), state)
      | .ok similarity =>
        let (explanation, state) := e.explainChange q state candidate similarity
        (.ok explanation, state)

theorem explain_eq (e : Engine σ) (text : String) (id : ℕ) (state : σ) :
    e.explain text id state =
      match e.prepare text with
      | .error cause => (.error cause, state)
      | .ok q => e.explainOver q (e.candidateVocabulary q) id state := by
  rw [explain]
  cases e.prepare text with
  | error cause => rfl
  | ok q =>
    dsimp only
    rw [explainOver]
    cases e.corpus.change? id with
    | none => rfl
    | some text =>
      dsimp only
      rw [parseCandidate]
      cases e.parser.change (e.candidateVocabulary q) text e.settings.config.delimiter <;> rfl

theorem explainOver_congr (hq : e.prepare text = .ok q)
    (hq' : (e.withVocabulary w).prepare text = .ok q') (halike : q.Alike q') {u u' : Vocabulary}
    (hu : q.vocabulary.Precedes u) (hu' : q'.vocabulary.Precedes u') (id : ℕ) (state : σ) :
    e.explainOver q u id state = e.explainOver q' u' id state := by
  rw [explainOver, explainOver]
  cases e.corpus.change? id with
  | none => rfl
  | some candidateText =>
    dsimp only
    rcases except_cases_of_map_eq (e.parser.change_congr u u' candidateText
      e.settings.config.delimiter) with
        ⟨cause, hchange, hchange'⟩ | ⟨⟨v, candidate⟩, ⟨v', candidate'⟩, hchange, hchange', houtline⟩
    · rw [hchange, hchange']
    · have hexplain := explainChange_congr (e := e) halike houtline
        (Parser.faithfulChanges (of_prepare hq).1 hu hchange)
        (Parser.faithfulChanges (of_prepare hq').1 hu' hchange') state
      rw [hchange, hchange']
      dsimp only
      rw [similarity_congr halike houtline]
      simp only [hexplain]

/-- **The explanation of a candidate** does not depend on what the parser read before. -/
theorem explain_withVocabulary (e : Engine σ) (w : Vocabulary) (text : String) (id : ℕ) (state : σ) :
    (e.withVocabulary w).explain text id state = e.explain text id state := by
  rw [explain_eq, explain_eq]
  rcases e.prepare_cases w text with ⟨cause, hq, hq'⟩ | ⟨q, q', hq, hq', halike⟩
  · rw [hq, hq']
  · rw [hq, hq']
    exact (explainOver_congr hq hq' halike (e.precedes_candidateVocabulary q)
      ((e.withVocabulary w).precedes_candidateVocabulary q') id state).symm

/-- Nothing that the engine answers depends on vocabularies: neither on the one that the parser has
when a query comes, nor on what it reads between the query and a candidate. -/
structure IgnoresVocabulary (e : Engine σ) : Prop where
  search_eq : ∀ w text isCancelled state,
    (e.withVocabulary w).search text isCancelled state = e.search text isCancelled state
  explain_eq : ∀ w text id state,
    (e.withVocabulary w).explain text id state = e.explain text id state
  judge_eq : ∀ text q, e.prepare text = .ok q → ∀ u, q.vocabulary.Precedes u → ∀ state id,
    e.judgeOver q u state id = e.judge q state id

/-- **Vocabularies do not show in answers**. -/
theorem ignoresVocabulary (e : Engine σ) : e.IgnoresVocabulary where
  search_eq := e.search_withVocabulary
  explain_eq := e.explain_withVocabulary
  judge_eq text q hq u hu state id := by
    rw [judge_eq_judgeOver]
    exact judgeOver_congr hq hq ⟨rfl, rfl, rfl⟩ hu (e.precedes_candidateVocabulary q) state id

end Engine

/-! ### Trees that share a vocabulary -/

namespace Tree

variable {ι : Type}

/-- Nothing that the program says about nodes, pairs of nodes or whole trees tells two families of
trees apart. -/
structure Indistinguishable (t u : ι → Tree) : Prop where
  outline_eq : ∀ k, (t k).outline = (u k).outline
  link?_eq : ∀ k i, (t k).link? i = (u k).link? i
  observation?_eq : ∀ j k table trace b i i',
    observation? table trace b (t j) (t k) i i' = observation? table trace b (u j) (u k) i i'
  changeFingerprint?_eq : ∀ k b delimiter,
    changeFingerprint? b delimiter (t k) = changeFingerprint? b delimiter (u k)

/-- **Vocabularies cannot be observed**: trees that grow in turns over a shared vocabulary cannot be
told from the same trees over vocabularies of their own, whatever names all these list before.  Nor
can it be told from the answers of an engine what its parser read before. -/
theorem vocabularies_unobservable [DecidableEq ι] (shared : Vocabulary) {own : ι → Vocabulary}
    (howner : Function.Injective fun k => (own k).owner) (turns : List (ι × Addition)) :
    Indistinguishable (together shared turns).2 (fun k => ofAdditions (own k) (turnsOf k turns)) ∧
    ∀ (σ : Type) (e : Engine σ), e.IgnoresVocabulary := by
  refine ⟨?_, fun σ e => e.ignoresVocabulary⟩
  have houtline := fun k => outline_together shared (own k) turns k
  have hcompatible : ∀ j k,
      (attemptAll (own j, .empty) (turnsOf j turns)).1.Compatible
        (attemptAll (own k, .empty) (turnsOf k turns)).1 := by
    intro j k hsame
    rw [owner_attemptAll, owner_attemptAll] at hsame
    obtain rfl := howner hsame
    exact .inl List.prefix_rfl
  have hover : ∀ k, (ofAdditions (own k) (turnsOf k turns)).Over
      (attemptAll (own k, .empty) (turnsOf k turns)).1 :=
    fun k => (Grown.attemptAll (turnsOf k turns) (.empty (own k))).over
  refine ⟨houtline, fun k i => link?_congr (houtline k) i, fun j k table trace b i i' => ?_,
    fun k b delimiter => changeFingerprint?_congr (houtline k) b delimiter⟩
  exact observation?_congr (grown_together shared turns j).over (grown_together shared turns k).over
    (fun _ => .inl List.prefix_rfl) (hover j) (hover k) (hcompatible j k) (houtline j) (houtline k)
    table trace b i i'

/-- Two trees in turns.  The construct `lost` is refused, but its name is entered. -/
def sampleTurns : List (Bool × Addition) :=
  [(false, ⟨.construct "call", none⟩), (true, ⟨.construct "args", none⟩),
    (true, ⟨.construct "call", some 0⟩), (false, ⟨.construct "lost", some 5⟩),
    (false, ⟨.token "f", some 0⟩), (true, ⟨.token "f", some 1⟩)]

/-- A vocabulary for each of the two trees. -/
def sampleOwn : Bool → Vocabulary
  | false => ⟨1, ["x", "call"]⟩
  | true => ⟨2, []⟩

/-- A call matches the call below the other root, with the same trace whether both are symbols of one
vocabulary or not, and searching goes on as before. -/
theorem sample_unobservable :
    (together ⟨0, []⟩ sampleTurns).1.names = ["call", "args", "lost"] ∧
    ((together ⟨0, []⟩ sampleTurns).2 false).root?.map Node.category =
      some (.construct ⟨0, 0, "call"⟩) ∧
    (ofAdditions (sampleOwn false) (turnsOf false sampleTurns)).root?.map Node.category =
      some (.construct ⟨1, 1, "call"⟩) ∧
    (observation? .default {} Engine.sample.settings.buckets
      ((together ⟨0, []⟩ sampleTurns).2 false) ((together ⟨0, []⟩ sampleTurns).2 true)
      0 1).map Observation.comparison =
        some (true, ⟨#[⟨1, 2, true, .literal⟩, ⟨0, 1, true, .matched⟩]⟩) ∧
    (Engine.sample.withVocabulary (together ⟨0, []⟩ sampleTurns).1).search "ID = 1; -> ID = 2;"
      (fun _ => false) () = Engine.sample.search "ID = 1; -> ID = 2;" (fun _ => false) () := by
  have howner : Function.Injective fun k => (sampleOwn k).owner := by
    intro j k h
    cases j <;> cases k <;> simp_all [sampleOwn]
  obtain ⟨htrees, hengines⟩ := vocabularies_unobservable ⟨0, []⟩ howner sampleTurns
  refine ⟨rfl, rfl, rfl, ?_, (hengines Unit Engine.sample).search_eq _ _ _ _⟩
  rw [htrees.observation?_eq]
  rfl

end Tree

end ChangeQuery
