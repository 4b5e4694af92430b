import ChangeQuery.Proofs.Config.Settings
import ChangeQuery.Proofs.Corpus.Features
import ChangeQuery.Proofs.Index.Nearest
import ChangeQuery.Proofs.Search.Agreement
import ChangeQuery.Proofs.Similarity.Cosine

/-!
## Searches that lose no candidate

An index over the fingerprints of a corpus knows every change that parses, and a search that may ask
for all of them judges each once.  The index was made over another vocabulary than the one that the
search parses over, and the candidates may be judged in any order; neither makes a difference.

* `exists_indexed`: every corpus has such an index, if the configuration is valid.
* `finds_runTurns`: whatever the order, the candidates that match are found.
* `search_finds`: a search finds exactly the candidates whose explanation is a match and that change
  something, each once.
-/

namespace ChangeQuery

open Selection (Selects)

variable {σ : Type}

/-! ### Verdicts -/

/-- The candidate was compared with the query. -/
def Verdict.isCompared : Verdict → Bool
  | missing => false
  | unparsable => false
  | dimensionMismatch => false
  | _ => true

/-- Candidates that were compared count for none of the reasons not to compare them. -/
theorem countP_of_isCompared {verdicts : List Verdict} (h : ∀ v ∈ verdicts, v.isCompared = true) :
    verdicts.countP (· matches .missing) = 0 ∧ verdicts.countP (· matches .unparsable) = 0 ∧
      verdicts.countP (· matches .dimensionMismatch) = 0 := by
  refine ⟨?_, ?_, ?_⟩
  all_goals
    rw [List.countP_eq_zero]
    intro v hv
    have hcompared := h v hv
    cases v <;> simp [Verdict.isCompared] at hcompared ⊢

theorem Verdict.isAccepted_iff (e : Engine σ) (rank id : ℕ) {v : Verdict} :
    v.isAccepted = true ↔ ∃ m, v.match? e rank id = some m := by
  cases v with
  | accepted similarity text => exact iff_of_true rfl ⟨_, rfl⟩
  | _ => exact iff_of_false Bool.false_ne_true fun ⟨m, h⟩ => by cases h

/-- The matches, the earliest first, and the statistics. -/
def Progress.result (p : Progress σ) : SearchResult :=
  ⟨p.found.reverse, p.stats⟩

namespace Engine

variable {e : Engine σ} {text : String} {q : Query} {isCancelled : σ → Bool} {state : σ}

/-- A change that parses is compared. -/
theorem isCompared_judge (hq : e.prepare text = .ok q) {id : ℕ} {candidateText : String}
    {candidate : Change} (htext : e.corpus.change? id = some candidateText)
    (hparse : e.parseCandidate q candidateText = .ok candidate) :
    (e.judge q state id).1.isCompared = true := by
  obtain ⟨similarity, hsimilarity⟩ := similarity_of_prepare hq candidate
  unfold judge
  rw [htext]
  dsimp only
  rw [hparse]
  dsimp only
  rw [hsimilarity]
  dsimp only
  split_ifs
  · rfl
  · rfl
  · unfold judgeTokens
    dsimp only
    generalize e.tokenCheck state q.tokens _ = outcome
    obtain ⟨answer, state'⟩ := outcome
    cases answer with
    | false => rfl
    | true =>
      dsimp only
      split_ifs <;> rfl

/-- The similarity of an explanation is a number. -/
theorem isNaN_similarity_of_explain {id : ℕ} {x : Explanation}
    (hx : (e.explain text id state).1 = .ok x) : x.similarity.isNaN = false := by
  obtain ⟨q, candidate, similarity, hsimilarity, rfl⟩ := exists_explainChange_of_explain hx
  exact Similarity.isNaN_cosine hsimilarity

/-! ### The index of a corpus -/

/-- The engine asks an index over the fingerprints of its own corpus. -/
structure Indexed (e : Engine σ) (table : FeatureTable) : Prop where
  settings_eq : checkedSettings e.settings.config e.parser = .ok e.settings
  /-- The fingerprints were made over a vocabulary that may be any. -/
  features_eq : ∃ v, e.corpus.features e.settings.config e.parser v = .ok table
  lookup_eq : ∃ index selectAt, table.toIndex = .ok index ∧
    Selects FlatIndex.ranksBefore selectAt ∧ e.lookup = index.lookupBy selectAt

/-- **Every corpus can be indexed** under a valid configuration. -/
theorem exists_indexed {config : Config} {p : Parser} {s : Settings}
    (h : checkedSettings config p = .ok s) (corpus : Corpus) (v w : Vocabulary)
    (check : TokenCheck σ) :
    ∃ table index, corpus.features config p v = .ok table ∧ table.toIndex = .ok index ∧
      (⟨s, p, w, index.lookup, corpus, check⟩ : Engine σ).Indexed table := by
  obtain ⟨hsettings, hparser⟩ := checkedSettings_eq_ok_iff.mp h
  obtain ⟨rfl, -, hbuckets, -⟩ := Config.settings_eq_ok_iff.mp hsettings
  obtain ⟨table, htable⟩ : ∃ table, corpus.features s.config p v = .ok table :=
    ⟨_, Corpus.features_eq_ok_iff.mpr ⟨s.buckets, hbuckets, hparser, rfl⟩⟩
  have hindex : table.toIndex = .ok ⟨table.dimension, table.rows⟩ := by
    refine FlatIndex.ofRows_eq_ok_iff.mpr ⟨?_, rfl⟩
    rw [Corpus.dimension_of_features htable hbuckets]
    exact Corpus.dimension_of_mem_rows htable hbuckets
  exact ⟨table, _, htable, hindex, h, ⟨v, htable⟩, _, _, hindex,
    Selection.selects_byPivot FlatIndex.isTotal_ranksBefore, rfl⟩

namespace Indexed

variable {table : FeatureTable}

theorem settings (h : e.Indexed table) : e.settings.config.settings = .ok e.settings :=
  (checkedSettings_eq_ok_iff.mp h.settings_eq).1

theorem isNaN_threshold (h : e.Indexed table) :
    e.settings.config.similarityThreshold.isNaN = false :=
  Config.isNaN_threshold_of_settings h.settings

/-- Every change that has a row is compared. -/
theorem isCompared (h : e.Indexed table) (hq : e.prepare text = .ok q) {id : ℕ}
    (hid : id ∈ table.ids) : (e.judge q state id).1.isCompared = true := by
  obtain ⟨v, hfeatures⟩ := h.features_eq
  obtain ⟨candidateText, htext, -, ⟨w, candidate⟩, hchange⟩ :=
    (Corpus.mem_ids_of_features hfeatures (e.candidateVocabulary q)).mp hid
  have hparse : e.parseCandidate q candidateText = .ok candidate := by
    rw [parseCandidate, hchange]
    rfl
  exact isCompared_judge hq htext hparse

/-- The index is asked for as many candidates as it has, and gives each of them once. -/
theorem exists_shortlist (h : e.Indexed table) (hq : e.prepare text = .ok q)
    (htopK : table.size ≤ e.settings.config.topK) :
    ∃ shortlist, e.lookup q.fingerprint e.settings.config.topK = .ok shortlist ∧
      shortlist.Perm table.ids := by
  obtain ⟨v, hfeatures⟩ := h.features_eq
  obtain ⟨index, selectAt, hindex, hselects, hlookup⟩ := h.lookup_eq
  obtain ⟨-, -, hbuckets, -⟩ := Config.settings_eq_ok_iff.mp h.settings
  obtain ⟨-, rfl⟩ := FlatIndex.ofRows_eq_ok_iff.mp hindex
  rw [hlookup]
  refine FlatIndex.lookupBy_perm hselects ?_ htopK
  show q.fingerprint.dimension = table.dimension
  rw [fingerprint_of_prepare hq, Fingerprint.dimension_ofChange,
    Corpus.dimension_of_features hfeatures hbuckets]

end Indexed

/-! ### All candidates in any order -/

/-- What a search over the candidates of a table should give. -/
structure Finds (e : Engine σ) (text : String) (q : Query) (state : σ) (table : FeatureTable)
    (result : SearchResult) : Prop where
  shortlisted_eq : result.stats.shortlisted = table.size
  missing_eq : result.stats.missing = 0
  parseFailures_eq : result.stats.parseFailures = 0
  dimensionMismatches_eq : result.stats.dimensionMismatches = 0
  cancelled_eq : result.stats.cancelled = 0
  /-- No candidate is reported twice. -/
  nodup : (result.found.map Match.id).Nodup
  /-- The candidates that are reported have an explanation that is a match, and change something. -/
  mem_iff : ∀ id, id ∈ result.found.map Match.id ↔ id ∈ table.ids ∧
    (∃ x, (e.explain text id state).1 = .ok x ∧ x.isMatch = true) ∧ e.drops q id = false

/-- The numbers of the matches are those of the candidates that are accepted. -/
theorem map_id_filterMap_matchOf? (turns : List (ℕ × ℕ)) :
    (turns.filterMap (e.matchOf? q state)).map Match.id =
      (turns.map Prod.fst).filter fun id => (e.judge q state id).1.isAccepted := by
  induction turns with
  | nil => rfl
  | cons turn turns ih =>
    rw [List.filterMap_cons, List.map_cons, List.filter_cons, matchOf?]
    cases (e.judge q state turn.1).1 with
    | accepted similarity text => exact congrArg (turn.1 :: ·) ih
    | _ => exact ih

/-- A candidate is accepted if its explanation is a match and it changes something. -/
theorem isAccepted_judge_iff (hq : e.prepare text = .ok q) (hstateless : e.tokenCheck.Stateless)
    (hthreshold : e.settings.config.similarityThreshold.isNaN = false) {id : ℕ} :
    (e.judge q state id).1.isAccepted = true ↔
      (∃ x, (e.explain text id state).1 = .ok x ∧ x.isMatch = true) ∧ e.drops q id = false := by
  rw [judge_eq_shown hq hstateless hthreshold fun _ => isNaN_similarity_of_explain,
    Verdict.isAccepted_iff e 0 id]
  simp only [match?_shown_iff hstateless]
  constructor
  · rintro ⟨_, x, hx, hmatch, hdrops, -⟩
    exact ⟨⟨x, hx, hmatch⟩, hdrops⟩
  · rintro ⟨⟨x, hx, hmatch⟩, hdrops⟩
    exact ⟨_, x, hx, hmatch, hdrops, rfl⟩

/-- **In any order** in which all candidates of a table are judged, nothing is lost. -/
theorem finds_runTurns {table : FeatureTable} (h : e.Indexed table)
    (hrun : Unstopped e isCancelled state) (hq : e.prepare text = .ok q) {shortlist : List ℕ}
    (hshortlist : shortlist.Perm table.ids) {turns : List (ℕ × ℕ)}
    (hturns : (turns.map Prod.fst).Perm shortlist) :
    e.Finds text q state table (e.runTurns q isCancelled (e.start state shortlist) turns).result := by
  have hids : (turns.map Prod.fst).Perm table.ids := hturns.trans hshortlist
  have hresult : (e.runTurns q isCancelled (e.start state shortlist) turns).result =
      ⟨turns.filterMap (e.matchOf? q state), ({ shortlisted := shortlist.length } : Stats).addVerdicts
        (turns.map fun turn => (e.judge q state turn.1).1)⟩ := by
    rw [runTurns_of_unstopped hrun turns _ rfl (hrun.full_start shortlist), Progress.result]
    simp [start]
  have hcompared : ∀ v ∈ turns.map fun turn => (e.judge q state turn.1).1,
      v.isCompared = true := by
    intro v hv
    obtain ⟨turn, hturn, rfl⟩ := List.mem_map.mp hv
    exact h.isCompared hq (hids.mem_iff.mp (List.mem_map_of_mem hturn))
  obtain ⟨hmissing, hunparsable, hmismatch⟩ := countP_of_isCompared hcompared
  rw [hresult]
  constructor
  · show shortlist.length = table.size
    rw [hshortlist.length_eq, FeatureTable.ids, List.length_map, FeatureTable.size]
  · exact (Nat.zero_add _).trans hmissing
  · exact (Nat.zero_add _).trans hunparsable
  · exact (Nat.zero_add _).trans hmismatch
  · rfl
  · obtain ⟨v, hfeatures⟩ := h.features_eq
    have hnodup : table.ids.Nodup :=
      (Corpus.ids_increasing_of_features hfeatures).imp Nat.ne_of_lt
    rw [map_id_filterMap_matchOf?]
    exact (hids.nodup_iff.mpr hnodup).filter _
  · intro id
    rw [map_id_filterMap_matchOf?, List.mem_filter, hids.mem_iff,
      isAccepted_judge_iff hq hrun.stateless h.isNaN_threshold]

/-- **A search over an index of the corpus loses no candidate**: if it asks for all rows and nothing
stops it, it reports exactly the candidates that have a row, whose explanation is a match and that
change something, each once.  The same would come out if the candidates were judged in another
order. -/
theorem search_finds {table : FeatureTable} (h : e.Indexed table)
    (hrun : Unstopped e isCancelled state) (hq : e.prepare text = .ok q)
    (htopK : table.size ≤ e.settings.config.topK) :
    ∃ shortlist result, e.lookup q.fingerprint e.settings.config.topK = .ok shortlist ∧
      e.search text isCancelled state = (.ok result, state) ∧ e.Finds text q state table result ∧
        ∀ turns, turns.Perm shortlist.zipIdx → e.Finds text q state table
          (e.runTurns q isCancelled (e.start state shortlist) turns).result := by
  obtain ⟨shortlist, hlookup, hshortlist⟩ := h.exists_shortlist hq htopK
  have hfinds : ∀ turns, turns.Perm shortlist.zipIdx → e.Finds text q state table
      (e.runTurns q isCancelled (e.start state shortlist) turns).result := by
    intro turns hturns
    have hfst := hturns.map Prod.fst
    rw [List.zipIdx_map_fst] at hfst
    exact finds_runTurns h hrun hq hshortlist hfst
  refine ⟨shortlist, _, hlookup, ?_, hfinds _ (List.Perm.refl _), hfinds⟩
  have hstate : (e.runTurns q isCancelled (e.start state shortlist) shortlist.zipIdx).state =
      state := by
    rw [runTurns_of_unstopped hrun _ _ rfl (hrun.full_start shortlist)]
    rfl
  rw [search, hq]
  dsimp only
  rw [searchQuery, hlookup]
  dsimp only
  rw [run, runFrom_eq_runShared]
  exact congrArg (Prod.mk _) hstate

/-- Settings that allow small queries. -/
def smallQueries : Settings :=
  ⟨{ minQueryNodes := 1 }, .default, ⟨128, by decide, rfl⟩⟩

/-- Two changes of the same kind, one that is not in the language, and one of another kind. -/
def sampleCorpus : Corpus :=
  .ofChanges ["a = 1; -> a = 2;", "a = (", "b = 3; -> b = 4;", "c(); -> d();"]

/-- An engine over the sample corpus and an index. -/
def overSample (index : FlatIndex) : Engine Unit :=
  ⟨smallQueries, .java, ⟨0, []⟩, index.lookup, sampleCorpus, .aligning .default⟩

/-- Preparing a query does not involve the index. -/
theorem prepare_with_lookup (e : Engine σ)
    (lookup : FeatureVector → ℕ → Except IndexError (List ℕ)) (text : String) :
    { e with lookup }.prepare text = e.prepare text := rfl

/-- The settings pass all checks. -/
theorem settings_smallQueries : smallQueries.config.settings = .ok smallQueries := by
  have hbuild : Placeholder.Table.build Placeholder.Names.default.toList .default
      Placeholder.defaultEmptyLabel = .ok .default := by decide
  have htable : smallQueries.config.table = .ok smallQueries.table :=
    congrArg (Except.mapError ConfigError.placeholders) hbuild
  exact Config.settings_eq_ok_iff.mpr
    ⟨rfl, htable, rfl, by decide +kernel, by decide +kernel, by decide +kernel⟩

theorem sample_search_finds :
    ∃ table index q, sampleCorpus.features smallQueries.config .java ⟨1, ["x"]⟩ = .ok table ∧
      table.ids = [0, 2, 3] ∧ table.toIndex = .ok index ∧
      (overSample index).prepare "ID = 1; -> ID = 2;" = .ok q ∧
      ∃ shortlist result,
        (overSample index).lookup q.fingerprint smallQueries.config.topK = .ok shortlist ∧
        (overSample index).search "ID = 1; -> ID = 2;" (fun _ => false) () = (.ok result, ()) ∧
        (overSample index).Finds "ID = 1; -> ID = 2;" q () table result := by
  have hsettings : checkedSettings smallQueries.config .java = .ok smallQueries :=
    checkedSettings_eq_ok_iff.mpr ⟨settings_smallQueries, rfl⟩
  have hids : ((sampleCorpus.features smallQueries.config .java ⟨1, ["x"]⟩).toOption.map
      FeatureTable.ids) = some [0, 2, 3] := by decide +kernel
  have hok : ((overSample ⟨0, []⟩).prepare "ID = 1; -> ID = 2;").isOk = true := by decide +kernel
  obtain ⟨table, index, htable, hindex, hindexed⟩ :=
    exists_indexed hsettings sampleCorpus ⟨1, ["x"]⟩ ⟨0, []⟩
      (TokenCheck.aligning .default : TokenCheck Unit)
  rw [htable] at hids
  have hsize : table.size = 3 := by
    have hlength := congrArg List.length (Option.some.inj hids)
    rwa [FeatureTable.ids, List.length_map] at hlength
  rw [← prepare_with_lookup _ index.lookup] at hok
  change ((overSample index).prepare "ID = 1; -> ID = 2;").isOk = true at hok
  cases hq : (overSample index).prepare "ID = 1; -> ID = 2;" with
  | error cause =>
    rw [hq] at hok
    cases hok
  | ok q =>
    have hrun : Unstopped (overSample index) (fun _ => false) () :=
      ⟨rfl, rfl, TokenCheck.stateless_aligning _⟩
    have htopK : table.size ≤ (overSample index).settings.config.topK := by
      rw [hsize]
      exact Nat.le_of_ble_eq_true rfl
    obtain ⟨shortlist, result, hlookup, hsearch, hfinds, -⟩ :=
      search_finds (show (overSample index).Indexed table from hindexed) hrun hq htopK
    exact ⟨table, index, q, htable, Option.some.inj hids, hindex, hq, shortlist, result, hlookup,
      hsearch, hfinds⟩

end Engine

end ChangeQuery
