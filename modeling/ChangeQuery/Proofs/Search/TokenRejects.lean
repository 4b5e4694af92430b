import ChangeQuery.Proofs.Comparison.Unnumbered
import ChangeQuery.Proofs.Search.Agreement

/-!
## Searches that reject nothing for its tokens

If the trees of a query and a candidate match and the query has no numbered placeholder, then their
tokens align.  So the last check of a search never refuses a candidate of such a query, however many
candidates there are and wherever the search stops.

* `leafRejects_runFrom`: a count that no verdict changes stays as it is along a whole run.
* `aligns_of_changesMatch`: matching trees have tokens that align, and no search with such a query
  counts a candidate as rejected for its tokens.
-/

namespace ChangeQuery

variable {σ : Type}

/-! ### Vocabularies of a search -/

/-- A parsed change leaves a vocabulary that goes on from the one it was parsed over. -/
theorem Parser.vocabulary_change {p : Parser} {v w : Vocabulary} {source delimiter : String}
    {change : Change} (h : p.change v source delimiter = .ok (w, change)) :
    w.owner = v.owner ∧ v.names <+: w.names := by
  -- The vocabulary is the one that the tree was made over.
  obtain ⟨tree, htree, -⟩ := Parser.change_eq_ok_iff.mp h
  unfold Parser.tree at htree
  cases hread : p.read source with
  | error cause =>
    rw [hread] at htree
    cases htree
  | ok labels? =>
    rw [hread] at htree
    cases labels? with
    | none =>
      obtain ⟨rfl, -⟩ := Prod.mk.inj (Except.ok.inj htree)
      exact ⟨rfl, List.prefix_rfl⟩
    | some labels =>
      obtain ⟨rfl, -⟩ := Prod.mk.inj (Except.ok.inj htree)
      obtain ⟨added, hadded⟩ := v.names_insertMany_eq_append (Tree.constructNames labels)
      exact ⟨v.owner_insertMany _, added, hadded.symm⟩

namespace Engine

variable {e : Engine σ} {q : Query} {isCancelled : σ → Bool}

/-- What a query holds that was prepared. -/
theorem of_prepare {text : String} (h : e.prepare text = .ok q) :
    e.parser.change e.vocabulary text e.settings.config.delimiter = .ok (q.vocabulary, q.change) ∧
      q.tokens = TokenSides.ofTree q.change.tree e.settings.config.delimiter := by
  unfold prepare at h
  dsimp only at h
  cases hchange : e.parser.change e.vocabulary text e.settings.config.delimiter with
  | error cause =>
    rw [hchange] at h
    cases h
  | ok parsed =>
    rw [hchange] at h
    dsimp only at h
    split_ifs at h
    obtain rfl := Except.ok.inj h
    exact ⟨rfl, rfl⟩

/-! ### A count along a run -/

/-- **A whole run** keeps the count, from any position on and wherever it stops. -/
theorem leafRejects_runFrom (h : ∀ state id, (e.judge q state id).1 ≠ .tokensDiffer)
    (ids : List ℕ) (rank : ℕ) {p : Progress σ} (hp : e.Bounded p) :
    (e.runFrom q isCancelled rank p ids).stats.leafRejects = p.stats.leafRejects := by
  obtain ⟨judged, -, hstats, -⟩ :=
    exists_judged (e := e) (q := q) (turnsFrom isCancelled rank ids) hp
  rw [runFrom_eq_runShared, hstats]
  refine congrArg (p.stats.leafRejects + ·) (countP_verdictAt_eq_zero (fun state id => ?_) judged)
  have hverdict := h state id
  cases hv : (e.judge q state id).1 with
  | tokensDiffer => exact absurd hv hverdict
  | _ => rfl

/-- A search all of whose verdicts accept the tokens counts no candidate that fails for them. -/
theorem leafRejects_search {text : String} {state : σ} {result : SearchResult}
    (h : ∀ q, e.prepare text = .ok q → ∀ state id, (e.judge q state id).1 ≠ .tokensDiffer)
    (hresult : (e.search text isCancelled state).1 = .ok result) :
    result.stats.leafRejects = 0 := by
  unfold search at hresult
  cases hprepare : e.prepare text with
  | error cause =>
    rw [hprepare] at hresult
    cases hresult
  | ok q =>
    rw [hprepare] at hresult
    dsimp only [searchQuery] at hresult
    cases hlookup : e.lookup q.fingerprint e.settings.config.topK with
    | error cause =>
      rw [hlookup] at hresult
      cases hresult
    | ok shortlist =>
      rw [hlookup] at hresult
      obtain rfl := Except.ok.inj hresult
      exact leafRejects_runFrom (h q hprepare) shortlist 0 (e.bounded_start state shortlist)

/-! ### Searches among parsed changes -/

/-- A search among changes of statements that checks tokens by alignment, with the default table. -/
structure IsDefault (e : Engine σ) : Prop where
  parser : e.parser = .java
  delimiter : e.settings.config.delimiter = "->"
  table : e.settings.table = .default
  tokenCheck : e.tokenCheck = .aligning .default

/-- A candidate of a query without numbered placeholders never fails for its tokens. -/
theorem judge_ne_tokensDiffer (h : e.IsDefault) {text : String} (hq : e.prepare text = .ok q)
    (hunnumbered : q.change.isUnnumbered .default = true) (state : σ) (id : ℕ) :
    (e.judge q state id).1 ≠ .tokensDiffer := by
  obtain ⟨hchange, htokens⟩ := of_prepare hq
  obtain ⟨howner, -⟩ := Parser.vocabulary_change hchange
  rw [h.parser, h.delimiter] at hchange
  unfold judge
  split
  · exact fun h => nomatch h
  rename_i candidateText _
  cases hparse : e.parseCandidate q candidateText with
  | error cause => exact fun h => nomatch h
  | ok candidate =>
    dsimp only
    split
    · exact fun h => nomatch h
    split_ifs with hthreshold hmatch
    · exact fun h => nomatch h
    · exact fun h => nomatch h
    -- The trees match, so the check of the tokens succeeds.
    rw [Bool.not_eq_true', Bool.not_eq_false, h.table] at hmatch
    unfold parseCandidate candidateVocabulary at hparse
    rw [if_pos howner, h.parser, h.delimiter] at hparse
    cases hcandidate : Parser.java.change q.vocabulary candidateText "->" with
    | error cause =>
      rw [hcandidate] at hparse
      cases hparse
    | ok parsed =>
      rw [hcandidate] at hparse
      obtain rfl := Except.ok.inj hparse
      have hcompatible : q.vocabulary.Compatible parsed.1 :=
        fun _ => .inl (Parser.vocabulary_change hcandidate).2
      have haligns := aligns_of_matching hchange hunnumbered hcandidate hcompatible hmatch
      have hcheck : e.tokenCheck state q.tokens (TokenSides.ofTree parsed.2.tree "->") =
          (true, state) := by
        rw [h.tokenCheck, htokens, h.delimiter]
        exact congrArg (fun answer => (answer, state)) haligns
      unfold judgeTokens
      dsimp only
      rw [h.delimiter, hcheck]
      split_ifs <;> exact fun h => nomatch h

end Engine

/-- **Matching trees have tokens that align**: if a parsed query without numbered placeholders
matches a parsed candidate, then its tokens align with those of the candidate.  So no search with
such a query counts a candidate as rejected for its tokens.  Vocabularies with one owner are one list
at two times, and lists only grow, so the vocabularies of any two changes are compatible. -/
theorem aligns_of_changesMatch {v w : Vocabulary} {queryText : String} {query : Change}
    (hquery : Parser.java.change v queryText "->" = .ok (w, query))
    (hunnumbered : query.isUnnumbered .default = true) :
    (∀ {v' w' : Vocabulary} {candidateText : String} {candidate : Change},
      Parser.java.change v' candidateText "->" = .ok (w', candidate) → w.Compatible w' →
      Comparison.changesMatch .default query candidate = true →
      Alignment.aligns .default (TokenSides.ofTree query.tree "->")
        (TokenSides.ofTree candidate.tree "->") = true) ∧
    ∀ {σ : Type} (e : Engine σ) (isCancelled : σ → Bool) (state : σ) (result : SearchResult),
      e.IsDefault → e.vocabulary = v →
      (e.search queryText isCancelled state).1 = .ok result → result.stats.leafRejects = 0 := by
  refine ⟨fun hcandidate hcompatible hmatch =>
    aligns_of_matching hquery hunnumbered hcandidate hcompatible hmatch, ?_⟩
  intro σ e isCancelled state result hdefault hvocabulary hresult
  refine Engine.leafRejects_search (fun q hq => ?_) hresult
  refine Engine.judge_ne_tokensDiffer hdefault hq ?_
  -- The search parses the query as it was parsed here.
  obtain ⟨hchange, -⟩ := Engine.of_prepare hq
  rw [hdefault.parser, hdefault.delimiter, hvocabulary, hquery] at hchange
  rw [← (Prod.mk.inj (Except.ok.inj hchange)).2]
  exact hunnumbered

/-- A search for a query with a placeholder that may face any identifier. -/
theorem aligns_sample :
    ∃ w query, Parser.java.change ⟨0, []⟩ "ID = 1; -> ID = 2;" "->" = .ok (w, query) ∧
      query.isUnnumbered .default = true ∧
      (∃ w' candidate, Parser.java.change w "a = 1; -> a = 2;" "->" = .ok (w', candidate) ∧
        Alignment.aligns .default (TokenSides.ofTree query.tree "->")
          (TokenSides.ofTree candidate.tree "->") = true) ∧
      ∃ result, (Engine.sample.search "ID = 1; -> ID = 2;" (fun _ => false) ()).1 = .ok result ∧
        result.stats.leafRejects = 0 := by
  have hpair : (Parser.java.change ⟨0, []⟩ "ID = 1; -> ID = 2;" "->").toOption.any (fun q =>
      q.2.isUnnumbered .default &&
        (Parser.java.change q.1 "a = 1; -> a = 2;" "->").toOption.any fun c =>
          Comparison.changesMatch .default q.2 c.2) = true := by decide +kernel
  have hok : (Engine.sample.search "ID = 1; -> ID = 2;" (fun _ => false) ()).1.isOk = true := by
    decide +kernel
  obtain ⟨w, query, hquery, hpair⟩ := Parser.exists_change_of_any hpair
  obtain ⟨hunnumbered, hpair⟩ := Bool.and_eq_true_iff.mp hpair
  obtain ⟨w', candidate, hcandidate, hmatch⟩ := Parser.exists_change_of_any hpair
  obtain ⟨haligns, hrejects⟩ := aligns_of_changesMatch hquery hunnumbered
  refine ⟨w, query, hquery, hunnumbered, ⟨w', candidate, hcandidate, ?_⟩, ?_⟩
  · exact haligns hcandidate (fun _ => .inl (Parser.vocabulary_change hcandidate).2) hmatch
  · cases hresult : (Engine.sample.search "ID = 1; -> ID = 2;" (fun _ => false) ()).1 with
    | error cause =>
      rw [hresult] at hok
      cases hok
    | ok result =>
      exact ⟨result, rfl, hrejects Engine.sample (fun _ => false) () result
        ⟨rfl, rfl, rfl, rfl⟩ rfl hresult⟩

end ChangeQuery
