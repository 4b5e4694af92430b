import ChangeQuery.Proofs.Search.Accounting
import ChangeQuery.Proofs.Search.Completeness

/-!
## Errors after the start

The settings of an engine are checked once, together with its parser, when the engine is made.  No
check is repeated later, and none has to be: the table, the buckets and the delimiter stay what they
were, so that all checks would pass again (`Started.checks_pass`).  A search has no cause that
concerns the configuration, and the one for fingerprints of different lengths never arises, because
fingerprints made with the same buckets always have the same length.

A query can also come from another engine.  If that one has another number of buckets, then the
fingerprint of the query cannot be compared with that of any candidate.  Such a query is not
refused, but no candidate gets further than the comparison, so it finds nothing (`Mismatched`).

The candidates may be taken in any order, and a search may be cancelled at any time.

* `exists_checkedSettings_iff`: which engines can be made.
* `mismatched_runShared`: the run for a query with a fingerprint of another length.
* `dependable_of_started`: what can go wrong with an engine that was made, and what cannot.
-/

namespace ChangeQuery

variable {σ τ : Type}

/-! ### The start -/

theorem Config.checkParser_eq_ok_iff {c : Config} {p : Parser} :
    c.checkParser p = .ok () ↔ p.delimiter = c.delimiter := by
  rw [checkParser, require_eq_ok_iff, beq_iff_eq]

/-- The query is refused: it is no change, or it is too small. -/
def SearchError.isOfQuery : SearchError → Bool
  | queryParse _ => true
  | tooSmallQuery .. => true
  | _ => false

namespace Engine

variable {e : Engine σ} {q : Query} {text : String} {isCancelled : σ → Bool} {state : σ}

/-- The engine was made of a configuration that passed all checks together with the parser. -/
def Started (e : Engine σ) : Prop :=
  ∃ config, checkedSettings config e.parser = .ok e.settings

/-- **An engine can be made** exactly if the configuration is valid and the parser splits changes at
the configured delimiter. -/
theorem exists_checkedSettings_iff {config : Config} {p : Parser} :
    (∃ s, checkedSettings config p = .ok s) ↔
      (∃ s, config.settings = .ok s) ∧ p.delimiter = config.delimiter := by
  simp only [checkedSettings_eq_ok_iff, Config.checkParser_eq_ok_iff, exists_and_right]

theorem Started.checkedSettings_eq (h : e.Started) :
    checkedSettings e.settings.config e.parser = .ok e.settings := by
  obtain ⟨config, hchecked⟩ := h
  obtain ⟨hconfig, -⟩ := Config.settings_eq_ok_iff.mp (checkedSettings_eq_ok_iff.mp hchecked).1
  rwa [hconfig]

/-- The checks would pass again, with the same table and the same buckets. -/
theorem Started.checks_pass (h : e.Started) :
    e.settings.config.table = .ok e.settings.table ∧
      e.settings.config.checkedBuckets = .ok e.settings.buckets ∧
        e.settings.config.checkParser e.parser = .ok () := by
  obtain ⟨hsettings, hparser⟩ := checkedSettings_eq_ok_iff.mp h.checkedSettings_eq
  obtain ⟨-, htable, hbuckets, -⟩ := Config.settings_eq_ok_iff.mp hsettings
  exact ⟨htable, hbuckets, hparser⟩

theorem Started.count_buckets (h : e.Started) :
    e.settings.buckets.count = e.settings.config.buckets :=
  Config.checkedBuckets_eq_ok h.checks_pass.2.1

/-! ### Causes -/

theorem isOfQuery_of_prepare {cause : SearchError} (h : e.prepare text = .error cause) :
    cause.isOfQuery = true := by
  unfold prepare at h
  dsimp only at h
  split at h
  · obtain rfl := Except.error.inj h
    rfl
  · split_ifs at h
    obtain rfl := Except.error.inj h
    rfl

/-- **A search with a query** fails only if the index does; else it takes the shortlist in order. -/
theorem searchQuery_cases (e : Engine σ) (q : Query) (isCancelled : σ → Bool) (state : σ) :
    (∃ cause, e.lookup q.fingerprint e.settings.config.topK = .error cause ∧
      e.searchQuery q isCancelled state = (.error (.index cause), state)) ∨
    ∃ shortlist, e.lookup q.fingerprint e.settings.config.topK = .ok shortlist ∧
      e.searchQuery q isCancelled state =
        let p := e.runShared q (e.start state shortlist) (turnsFrom isCancelled 0 shortlist)
        (.ok p.result, p.state) := by
  unfold searchQuery
  cases e.lookup q.fingerprint e.settings.config.topK with
  | error cause => exact .inl ⟨cause, rfl, rfl⟩
  | ok shortlist =>
    refine .inr ⟨shortlist, rfl, ?_⟩
    dsimp only
    rw [run, runFrom_eq_runShared]
    rfl

theorem cause_of_search {cause : SearchError}
    (h : (e.search text isCancelled state).1 = .error cause) :
    cause.isOfQuery = true ∨ ∃ lookupCause, cause = .index lookupCause := by
  unfold search at h
  cases hprepare : e.prepare text with
  | error prepareCause =>
    rw [hprepare] at h
    obtain rfl := Except.error.inj h
    exact .inl (isOfQuery_of_prepare hprepare)
  | ok q =>
    rw [hprepare] at h
    dsimp only at h
    rcases e.searchQuery_cases q isCancelled state with ⟨lookupCause, -, hsearch⟩ |
      ⟨shortlist, -, hsearch⟩
    · rw [hsearch] at h
      exact .inr ⟨lookupCause, (Except.error.inj h).symm⟩
    · rw [hsearch] at h
      cases h

/-- An explanation fails for the query or for the candidate; the comparison of the fingerprints
cannot fail. -/
theorem cause_of_explain {id : ℕ} {cause : SearchError}
    (h : (e.explain text id state).1 = .error cause) :
    cause.isOfQuery = true ∨ cause = .missingCandidate id ∨
      ∃ parseCause, cause = .candidateParse id parseCause := by
  cases hprepare : e.prepare text with
  | error prepareCause =>
    rw [explain, hprepare] at h
    obtain rfl := Except.error.inj h
    exact .inl (isOfQuery_of_prepare hprepare)
  | ok q =>
    rcases explain_cases hprepare state id with ⟨-, hexplain⟩ | ⟨parseCause, hexplain⟩ |
      ⟨-, candidate, similarity, -, -, -, hexplain⟩
    · rw [hexplain] at h
      exact .inr (.inl (Except.error.inj h).symm)
    · rw [hexplain] at h
      exact .inr (.inr ⟨parseCause, (Except.error.inj h).symm⟩)
    · rw [hexplain] at h
      cases h

/-! ### Queries of the engine itself -/

theorem judge_ne_dimensionMismatch (hq : e.prepare text = .ok q) (state : σ) (id : ℕ) :
    ((e.judge q state id).1 matches .dimensionMismatch) = false := by
  cases hchange : e.corpus.change? id with
  | none =>
    rw [judge, hchange]
  | some candidateText =>
    cases hparse : e.parseCandidate q candidateText with
    | error parseCause =>
      rw [judge, hchange]
      dsimp only
      rw [hparse]
    | ok candidate =>
      have hcompared : (e.judge q state id).1.isCompared = true :=
        isCompared_judge hq hchange hparse
      cases hverdict : (e.judge q state id).1 with
      | dimensionMismatch =>
        rw [hverdict] at hcompared
        cases hcompared
      | _ => rfl

/-- **Queries of the engine itself** can be compared with every candidate, in every turn. -/
theorem dimensionMismatches_runShared (hq : e.prepare text = .ok q) (shortlist : List ℕ)
    (turns : List (Turn σ)) :
    (e.runShared q (e.start state shortlist) turns).stats.dimensionMismatches = 0 := by
  obtain ⟨judged, -, hstats, -⟩ := exists_judged (q := q) turns (e.bounded_start state shortlist)
  rw [hstats]
  exact (Nat.zero_add _).trans
    (countP_verdictAt_eq_zero (judge_ne_dimensionMismatch hq) judged)

/-! ### Queries with a fingerprint of another length -/

/-- The candidate is in the corpus. -/
def isListed (e : Engine σ) (id : ℕ) : Bool :=
  (e.corpus.change? id).isSome

/-- The candidate is in the corpus and parses. -/
def isReadable (e : Engine σ) (q : Query) (id : ℕ) : Bool :=
  (e.corpus.change? id).any fun text => (e.parseCandidate q text).isOk

/-- What a search among these candidates must give if the query cannot be compared with any of them:
no match, and every candidate that was judged is counted as missing, as unparsable or as a
mismatch. -/
structure Mismatched (e : Engine σ) (q : Query) (ids : List ℕ) (r : SearchResult) : Prop where
  found_eq : r.found = []
  stats_eq : ∃ evaluated : List ℕ, evaluated.Sublist ids ∧ r.stats =
    { shortlisted := ids.length
      evaluated := evaluated.length
      missing := evaluated.countP fun id => !e.isListed id
      parseFailures := evaluated.countP fun id => e.isListed id && !e.isReadable q id
      dimensionMismatches := evaluated.countP (e.isReadable q)
      cancelled := ids.length - evaluated.length }

/-- The verdict on a candidate with which the query cannot be compared. -/
def uncomparedVerdict (e : Engine σ) (q : Query) (id : ℕ) : Verdict :=
  match e.corpus.change? id with
  | none => .missing
  | some text =>
    match e.parseCandidate q text with
    | .error _ => .unparsable
    | .ok _ => .dimensionMismatch

/-- The stages before the comparison tell which verdict it is. -/
theorem uncomparedVerdict_cases (e : Engine σ) (q : Query) (id : ℕ) :
    (e.uncomparedVerdict q id = .missing ∧ e.isListed id = false ∧ e.isReadable q id = false) ∨
    (e.uncomparedVerdict q id = .unparsable ∧ e.isListed id = true ∧ e.isReadable q id = false) ∨
    e.uncomparedVerdict q id = .dimensionMismatch ∧ e.isListed id = true ∧
      e.isReadable q id = true := by
  unfold uncomparedVerdict isReadable isListed
  cases e.corpus.change? id with
  | none => exact .inl ⟨rfl, rfl, rfl⟩
  | some text =>
    rw [Option.any_some]
    dsimp only
    cases e.parseCandidate q text with
    | error cause => exact .inr (.inl ⟨rfl, rfl, rfl⟩)
    | ok candidate => exact .inr (.inr ⟨rfl, rfl, rfl⟩)

theorem match?_uncomparedVerdict (rank id : ℕ) :
    (e.uncomparedVerdict q id).match? e rank id = none := by
  rcases e.uncomparedVerdict_cases q id with ⟨h, -⟩ | ⟨h, -⟩ | ⟨h, -⟩ <;> rw [h] <;> rfl

/-- A query with a fingerprint of another length is judged before the tokens are looked at. -/
theorem judge_of_dimension_ne (h : q.fingerprint.dimension ≠ e.settings.buckets.dimension)
    (state : σ) (id : ℕ) : e.judge q state id = (e.uncomparedVerdict q id, state) := by
  unfold judge uncomparedVerdict
  cases e.corpus.change? id with
  | none => rfl
  | some text =>
    dsimp only
    cases e.parseCandidate q text with
    | error cause => rfl
    | ok candidate =>
      have hne : ¬ q.fingerprint.dimension =
          (Fingerprint.ofChange e.settings.buckets candidate).dimension := by
        rwa [Fingerprint.dimension_ofChange]
      dsimp only
      rw [similarity, Similarity.cosine, if_neg hne]

/-- Counting the verdicts on candidates with which the query cannot be compared. -/
theorem addVerdicts_uncompared (s : Stats) (ids : List ℕ) :
    s.addVerdicts (ids.map (e.uncomparedVerdict q)) =
      { s with
        evaluated := s.evaluated + ids.length
        missing := s.missing + ids.countP fun id => !e.isListed id
        parseFailures := s.parseFailures + ids.countP fun id => e.isListed id && !e.isReadable q id
        dimensionMismatches := s.dimensionMismatches + ids.countP (e.isReadable q) } := by
  induction ids generalizing s with
  | nil => rfl
  | cons id ids ih =>
    have hcons : s.addVerdicts ((id :: ids).map (e.uncomparedVerdict q)) =
        (s.addVerdicts [e.uncomparedVerdict q id]).addVerdicts
          (ids.map (e.uncomparedVerdict q)) := s.addVerdicts_append [_] _
    rw [hcons, ih]
    simp only [List.countP_cons, List.length_cons]
    rcases e.uncomparedVerdict_cases q id with ⟨h, hlisted, hreadable⟩ | ⟨h, hlisted, hreadable⟩ |
      ⟨h, hlisted, hreadable⟩ <;>
      simp [h, hlisted, hreadable, Stats.addVerdicts, Verdict.isAccepted] <;> omega

/-- **The run for such a query**, in any order and cancelled at any time. -/
theorem mismatched_runShared (h : q.fingerprint.dimension ≠ e.settings.buckets.dimension)
    {shortlist : List ℕ} {turns : List (Turn σ)} (hturns : turns.length = shortlist.length) :
    e.Mismatched q (turns.map Turn.id) (e.runShared q (e.start state shortlist) turns).result := by
  obtain ⟨judged, hsublist, hstats, hfound⟩ :=
    exists_judged (q := q) turns (e.bounded_start state shortlist)
  have hverdict : ∀ j : σ × Turn σ, e.verdictAt q j = e.uncomparedVerdict q j.2.id :=
    fun j => congrArg Prod.fst (judge_of_dimension_ne h j.1 j.2.id)
  have hverdicts : judged.map (e.verdictAt q) =
      (judged.map fun j => j.2.id).map (e.uncomparedVerdict q) := by
    rw [List.map_map]
    exact List.map_congr_left fun j _ => hverdict j
  have hmatch : judged.filterMap (e.matchAt? q) = [] := by
    refine List.filterMap_eq_nil_iff.mpr fun j _ => ?_
    rw [matchAt?, hverdict]
    exact match?_uncomparedVerdict j.2.rank j.2.id
  constructor
  · show (e.runShared q (e.start state shortlist) turns).found.reverse = []
    rw [hfound, hmatch]
    rfl
  · refine ⟨judged.map fun j => j.2.id, ?_, ?_⟩
    · have hids := hsublist.map Turn.id
      rwa [List.map_map] at hids
    · show (e.runShared q (e.start state shortlist) turns).stats = _
      rw [hstats, hverdicts, addVerdicts_uncompared]
      simp only [start, List.length_map, hturns, Nat.zero_add]

/-- Engines with different numbers of buckets make fingerprints of different lengths. -/
theorem dimension_ne_of_foreign (he : e.Started) {other : Engine τ} (hother : other.Started)
    (hbuckets : other.settings.config.buckets ≠ e.settings.config.buckets)
    (hq : other.prepare text = .ok q) : q.fingerprint.dimension ≠ e.settings.buckets.dimension := by
  have hcount := he.count_buckets
  have hcount' := hother.count_buckets
  rw [fingerprint_of_prepare hq, Fingerprint.dimension_ofChange, Buckets.dimension,
    Buckets.dimension]
  omega

/-! ### What can go wrong -/

/-- Which errors an engine gives, and what becomes of queries that cannot be compared.  A search can
be cancelled by its own check of tokens (`search_own`, `search_foreign`), or from outside between
any two turns and with the candidates in any order (`run_own`, `run_foreign`). -/
structure Dependable (e : Engine σ) : Prop where
  checks_pass : e.settings.config.table = .ok e.settings.table ∧
    e.settings.config.checkedBuckets = .ok e.settings.buckets ∧
    e.settings.config.checkParser e.parser = .ok ()
  prepare_error : ∀ {text cause}, e.prepare text = .error cause → cause.isOfQuery = true
  search_error : ∀ {text isCancelled state cause},
    (e.search text isCancelled state).1 = .error cause →
      cause.isOfQuery = true ∨ ∃ lookupCause, cause = .index lookupCause
  explain_error : ∀ {text id state cause}, (e.explain text id state).1 = .error cause →
    cause.isOfQuery = true ∨ cause = .missingCandidate id ∨
      ∃ parseCause, cause = .candidateParse id parseCause
  /-- Its own queries can be compared with every candidate. -/
  search_own : ∀ {text q}, e.prepare text = .ok q → ∀ isCancelled state,
    (∃ cause, e.searchQuery q isCancelled state = (.error (.index cause), state)) ∨
    ∃ result state', e.searchQuery q isCancelled state = (.ok result, state') ∧
      result.stats.dimensionMismatches = 0
  run_own : ∀ {text q}, e.prepare text = .ok q → ∀ state shortlist turns,
    (e.runShared q (e.start state shortlist) turns).result.stats.dimensionMismatches = 0
  /-- Queries of an engine with another number of buckets match nothing. -/
  search_foreign : ∀ {τ : Type} {other : Engine τ} {text q}, other.Started →
    other.settings.config.buckets ≠ e.settings.config.buckets → other.prepare text = .ok q →
    ∀ isCancelled state,
      (∃ cause, e.searchQuery q isCancelled state = (.error (.index cause), state)) ∨
      ∃ shortlist result, e.lookup q.fingerprint e.settings.config.topK = .ok shortlist ∧
        e.searchQuery q isCancelled state = (.ok result, state) ∧ e.Mismatched q shortlist result
  run_foreign : ∀ {τ : Type} {other : Engine τ} {text q}, other.Started →
    other.settings.config.buckets ≠ e.settings.config.buckets → other.prepare text = .ok q →
    ∀ state shortlist turns, (turns.map Turn.id).Perm shortlist →
      e.Mismatched q (turns.map Turn.id) (e.runShared q (e.start state shortlist) turns).result

theorem search_own_of_prepare (hq : e.prepare text = .ok q) (isCancelled : σ → Bool) (state : σ) :
    (∃ cause, e.searchQuery q isCancelled state = (.error (.index cause), state)) ∨
    ∃ result state', e.searchQuery q isCancelled state = (.ok result, state') ∧
      result.stats.dimensionMismatches = 0 := by
  rcases e.searchQuery_cases q isCancelled state with ⟨cause, -, hsearch⟩ | ⟨shortlist, -, hsearch⟩
  · exact .inl ⟨cause, hsearch⟩
  · exact .inr ⟨_, _, hsearch, dimensionMismatches_runShared hq shortlist _⟩

theorem search_foreign_of_dimension_ne
    (h : q.fingerprint.dimension ≠ e.settings.buckets.dimension) (isCancelled : σ → Bool)
    (state : σ) :
    (∃ cause, e.searchQuery q isCancelled state = (.error (.index cause), state)) ∨
    ∃ shortlist result, e.lookup q.fingerprint e.settings.config.topK = .ok shortlist ∧
      e.searchQuery q isCancelled state = (.ok result, state) ∧ e.Mismatched q shortlist result := by
  rcases e.searchQuery_cases q isCancelled state with
    ⟨cause, -, hsearch⟩ | ⟨shortlist, hlookup, hsearch⟩
  · exact .inl ⟨cause, hsearch⟩
  · have hmismatched : e.Mismatched q ((turnsFrom isCancelled 0 shortlist).map Turn.id)
        (e.runShared q (e.start state shortlist) (turnsFrom isCancelled 0 shortlist)).result :=
      mismatched_runShared h (length_turnsFrom 0 shortlist)
    rw [map_id_turnsFrom] at hmismatched
    have hstate := state_runShared (q := q)
      (fun state id => congrArg Prod.snd (judge_of_dimension_ne h state id))
      (turnsFrom isCancelled 0 shortlist) (e.bounded_start state shortlist)
    dsimp only at hsearch
    rw [hstate] at hsearch
    exact .inr ⟨shortlist, _, hlookup, hsearch, hmismatched⟩

/-- **Configuration and dimension errors never surface after the start**.  An engine can be made
exactly if its configuration is valid and its parser splits changes at the configured delimiter.  Of
every engine that was made, queries, searches and explanations fail only for the query, the index or
the candidate. -/
theorem dependable_of_started :
    (∀ config p, (∃ s, checkedSettings config p = .ok s) ↔
      (∃ s, config.settings = .ok s) ∧ p.delimiter = config.delimiter) ∧
    ∀ {σ : Type} (e : Engine σ), e.Started → e.Dependable := by
  refine ⟨fun _ _ => exists_checkedSettings_iff, fun e h => ?_⟩
  exact
    { checks_pass := h.checks_pass
      prepare_error := isOfQuery_of_prepare
      search_error := cause_of_search
      explain_error := cause_of_explain
      search_own := search_own_of_prepare
      run_own := fun hq _ => dimensionMismatches_runShared hq
      search_foreign := fun hother hbuckets hq =>
        search_foreign_of_dimension_ne (dimension_ne_of_foreign h hother hbuckets hq)
      run_foreign := fun hother hbuckets hq _ _ _ hturns => by
        refine mismatched_runShared (dimension_ne_of_foreign h hother hbuckets hq) ?_
        rw [← hturns.length_eq, List.length_map] }

/-- An engine whose index proposes a change that parses, one that does not, and one that is not in
the corpus. -/
def proposing (s : Settings) : Engine Unit :=
  ⟨s, .java, ⟨0, []⟩, fun _ _ => .ok [0, 1, 9], sampleCorpus, .aligning .default⟩

/-- The settings of `smallQueries` with half as many buckets. -/
def fewBuckets : Settings :=
  ⟨{ minQueryNodes := 1, buckets := 64 }, .default, ⟨64, by decide, rfl⟩⟩

theorem started_smallQueries : (proposing smallQueries).Started :=
  ⟨_, checkedSettings_eq_ok_iff.mpr ⟨settings_smallQueries, rfl⟩⟩

theorem started_fewBuckets : (proposing fewBuckets).Started := by
  obtain ⟨-, htable, -, hthreshold, htopK, hdelimiter⟩ :=
    Config.settings_eq_ok_iff.mp settings_smallQueries
  have hsettings : fewBuckets.config.settings = .ok fewBuckets :=
    Config.settings_eq_ok_iff.mpr ⟨rfl, htable, rfl, hthreshold, htopK, hdelimiter⟩
  exact ⟨_, checkedSettings_eq_ok_iff.mpr ⟨hsettings, rfl⟩⟩

/-- Of the three candidates for a query with half as many buckets, one is missing, one does not
parse and one is a mismatch. -/
theorem proposing_dependable :
    (proposing smallQueries).Dependable ∧
    ∃ q, (proposing fewBuckets).prepare "ID = 1; -> ID = 2;" = .ok q ∧
      ∃ result, (proposing smallQueries).searchQuery q (fun _ => false) () = (.ok result, ()) ∧
        (proposing smallQueries).Mismatched q [0, 1, 9] result ∧
        result.stats.dimensionMismatches = 1 := by
  have h := dependable_of_started.2 (proposing smallQueries) started_smallQueries
  have hprepare : ((proposing fewBuckets).prepare "ID = 1; -> ID = 2;").toOption.any (fun q =>
      ((proposing smallQueries).searchQuery q (fun _ => false) ()).1.toOption.any fun result =>
        result.stats.dimensionMismatches == 1) = true := by decide +kernel
  obtain ⟨q, hq, hcount⟩ := exists_prepare_of_any hprepare
  refine ⟨h, q, hq, ?_⟩
  have hbuckets : (64 : ℕ) ≠ 128 := by decide
  rcases h.search_foreign started_fewBuckets hbuckets hq (fun _ => false) () with
    ⟨cause, hsearch⟩ | ⟨shortlist, result, hlookup, hsearch, hmismatched⟩
  · rw [hsearch] at hcount
    cases hcount
  · obtain rfl := Except.ok.inj hlookup
    rw [hsearch] at hcount
    exact ⟨result, hsearch, hmismatched, beq_iff_eq.mp hcount⟩

end Engine

end ChangeQuery
