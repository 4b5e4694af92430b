import ChangeQuery.Proofs.Fingerprint.Dimension
import ChangeQuery.Proofs.Search.Run
import ChangeQuery.Proofs.Similarity.Order
import ChangeQuery.Search.Explanation

/-!
## Searches and explanations agree

A search takes a candidate through the stages and stops at the first that refuses it; an explanation
goes on and shows them all.  `Explanation.verdict` reads off an explanation at which stage a search
leaves the candidate.

* `judge_eq_shown`: the verdict of a search is the one that an explanation shows.
* `search_agrees_with_explain`: a search that is not stopped reports exactly the candidates whose
  explanation is a match and that change something, and counts every other candidate where its
  explanation shows that it fails.
-/

namespace ChangeQuery

variable {σ : Type}

/-- The stage at which a search leaves a candidate with this explanation.  `dropped` says that the
candidate is left out because it changes nothing. -/
def Explanation.verdict (x : Explanation) (dropped : Bool) (text : String) : Verdict :=
  if !x.passesPrefilter then .dissimilar
  else if !x.structural then .structureDiffers
  else if x.leaves? == some false then .tokensDiffer
  else if dropped then .unchanged
  else .accepted x.similarity text

namespace Engine

/-- The candidate has the same tokens on both sides. -/
def keepsTokens (e : Engine σ) (q : Query) (id : ℕ) : Bool :=
  match e.corpus.change? id with
  | none => false
  | some text =>
    match e.parseCandidate q text with
    | .error _ => false
    | .ok candidate =>
      (TokenSides.ofTree candidate.tree e.settings.config.delimiter).unchanged

/-- The candidate is left out because it changes nothing. -/
def drops (e : Engine σ) (q : Query) (id : ℕ) : Bool :=
  e.settings.config.skipUnchanged && e.keepsTokens q id

/-- The verdict that the explanation of a candidate shows.  Causes that concern the query are no
verdict on a candidate; of the others, the last is that the fingerprints differ in length. -/
def shown (e : Engine σ) (text : String) (q : Query) (state : σ) (id : ℕ) : Verdict :=
  match (e.explain text id state).1 with
  | .ok x => x.verdict (e.drops q id) ((e.corpus.change? id).getD "")
  | .error (.missingCandidate _) => .missing
  | .error (.candidateParse _ _) => .unparsable
  | .error _ => .dimensionMismatch

variable {e : Engine σ} {text : String} {q : Query} {state : σ}

theorem fingerprint_of_prepare (hq : e.prepare text = .ok q) :
    q.fingerprint = Fingerprint.ofChange e.settings.buckets q.change := by
  unfold prepare at hq
  dsimp only at hq
  split at hq
  · cases hq
  · split_ifs at hq
    cases hq
    rfl

theorem similarity_of_prepare (hq : e.prepare text = .ok q) (candidate : Change) :
    ∃ similarity, e.similarity q candidate = .ok similarity := by
  rw [similarity, fingerprint_of_prepare hq]
  exact Fingerprint.exists_cosine_ofChange _ _ _

/-- **How an explanation ends** for a query that is ready: without a candidate, with one that does
not parse, or with the explanation. -/
theorem explain_cases (hq : e.prepare text = .ok q) (state : σ) (id : ℕ) :
    (e.corpus.change? id = none ∧
      e.explain text id state = (.error (.missingCandidate id), state)) ∨
    (∃ cause, e.explain text id state = (.error (.candidateParse id cause), state)) ∨
    ∃ candidateText candidate similarity, e.corpus.change? id = some candidateText ∧
      e.parseCandidate q candidateText = .ok candidate ∧
      e.similarity q candidate = .ok similarity ∧
      e.explain text id state =
        let (x, state) := e.explainChange q state candidate similarity
        (.ok x, state) := by
  unfold explain
  rw [hq]
  dsimp only
  cases htext : e.corpus.change? id with
  | none => exact .inl ⟨rfl, rfl⟩
  | some candidateText =>
    dsimp only
    cases hparse : e.parseCandidate q candidateText with
    | error cause => exact .inr (.inl ⟨cause, rfl⟩)
    | ok candidate =>
      obtain ⟨similarity, hsimilarity⟩ := similarity_of_prepare hq candidate
      dsimp only
      rw [hsimilarity]
      exact .inr (.inr ⟨candidateText, candidate, similarity, rfl, hparse, hsimilarity, rfl⟩)

/-- The comparison that keeps a trace and the one that does not come to the same. -/
theorem structural_explainChange (candidate : Change) (similarity : Float) :
    (e.explainChange q state candidate similarity).1.structural =
      Comparison.changesMatch e.settings.table q.change candidate := rfl

/-- The tokens are checked exactly when the trees match. -/
theorem leaves?_explainChange {answer : TokenSides → TokenSides → Bool}
    (hanswer : ∀ state query candidate,
      e.tokenCheck state query candidate = (answer query candidate, state))
    (candidate : Change) (similarity : Float) :
    (e.explainChange q state candidate similarity).1.leaves? =
      if Comparison.changesMatch e.settings.table q.change candidate then
        some (answer q.tokens (TokenSides.ofTree candidate.tree e.settings.config.delimiter))
      else none := by
  unfold explainChange Comparison.changesMatch
  cases Comparison.compareChanges e.settings.table q.change candidate {} with
  | mk structural trace =>
    cases structural with
    | false => rfl
    | true => simp only [if_true, hanswer]

/-- **The verdict on a parsed candidate** is the one that its explanation shows: a number that does
not lie below the threshold reaches it. -/
theorem verdict_explainChange (hstateless : e.tokenCheck.Stateless) (candidate : Change)
    {similarity : Float} (hthreshold : e.settings.config.similarityThreshold.isNaN = false)
    (hsimilarity : similarity.isNaN = false) (text : String) :
    (e.explainChange q state candidate similarity).1.verdict
        (e.settings.config.skipUnchanged &&
          (TokenSides.ofTree candidate.tree e.settings.config.delimiter).unchanged) text =
      (if similarity < e.settings.config.similarityThreshold then (.dissimilar, state)
        else if !Comparison.changesMatch e.settings.table q.change candidate then
          (.structureDiffers, state)
        else e.judgeTokens q state text candidate similarity).1 := by
  obtain ⟨answer, hanswer⟩ := hstateless
  -- The search asks whether the similarity lies below the threshold, the explanation whether it
  -- reaches it.
  have hprefilter : (e.explainChange q state candidate similarity).1.passesPrefilter =
      !decide (similarity < e.settings.config.similarityThreshold) := by
    show decide (similarity ≥ e.settings.config.similarityThreshold) = _
    rw [← decide_not, decide_eq_decide, Similarity.lt_iff_not_ge hsimilarity hthreshold, not_not]
  unfold Explanation.verdict
  rw [hprefilter, structural_explainChange, leaves?_explainChange hanswer,
    judgeTokens_of_stateless hanswer]
  by_cases hlt : similarity < e.settings.config.similarityThreshold
  · rw [if_pos hlt, decide_eq_true hlt]
    rfl
  rw [if_neg hlt, decide_eq_false hlt]
  dsimp only
  cases Comparison.changesMatch e.settings.table q.change candidate with
  | false => rfl
  | true =>
    cases answer q.tokens (TokenSides.ofTree candidate.tree e.settings.config.delimiter) with
    | false => rfl
    | true => rfl

/-- **Judging and explaining agree** on every candidate, whatever the stage at which it stops. -/
theorem judge_eq_shown (hq : e.prepare text = .ok q) (hstateless : e.tokenCheck.Stateless)
    (hthreshold : e.settings.config.similarityThreshold.isNaN = false) {id : ℕ}
    (hsimilarity : ∀ x, (e.explain text id state).1 = .ok x → x.similarity.isNaN = false) :
    (e.judge q state id).1 = e.shown text q state id := by
  unfold shown drops keepsTokens judge
  -- Both go through the same stages; they are taken in turn.
  unfold explain at hsimilarity ⊢
  rw [hq] at hsimilarity ⊢
  dsimp only at hsimilarity ⊢
  cases htext : e.corpus.change? id with
  | none => rfl
  | some candidateText =>
    rw [htext] at hsimilarity
    dsimp only at hsimilarity ⊢
    cases hparse : e.parseCandidate q candidateText with
    | error cause => rfl
    | ok candidate =>
      obtain ⟨similarity, hsim⟩ := similarity_of_prepare hq candidate
      rw [hparse] at hsimilarity
      dsimp only at hsimilarity ⊢
      rw [hsim] at hsimilarity ⊢
      dsimp only at hsimilarity ⊢
      exact (verdict_explainChange hstateless candidate hthreshold
        (hsimilarity _ rfl) candidateText).symm

/-! ### Matches -/

/-- What an explanation comes from: a query that is ready, and a candidate that parses. -/
theorem exists_explainChange_of_explain {id : ℕ} {x : Explanation}
    (hx : (e.explain text id state).1 = .ok x) :
    ∃ q candidate similarity, e.similarity q candidate = .ok similarity ∧
      x = (e.explainChange q state candidate similarity).1 := by
  cases hq : e.prepare text with
  | error cause =>
    rw [explain, hq] at hx
    cases hx
  | ok q =>
    rcases explain_cases hq state id with ⟨-, hexplain⟩ | ⟨cause, hexplain⟩ |
      ⟨-, candidate, similarity, -, -, hsimilarity, hexplain⟩
    · rw [hexplain] at hx
      cases hx
    · rw [hexplain] at hx
      cases hx
    · rw [hexplain] at hx
      exact ⟨q, candidate, similarity, hsimilarity, (Except.ok.inj hx).symm⟩

/-- An explanation whose trees match says what the check of tokens answered. -/
theorem leaves?_of_explain (hstateless : e.tokenCheck.Stateless) {id : ℕ} {x : Explanation}
    (hx : (e.explain text id state).1 = .ok x) (hstructural : x.structural = true) :
    x.leaves? ≠ none := by
  obtain ⟨answer, hanswer⟩ := hstateless
  obtain ⟨q, candidate, similarity, -, rfl⟩ := exists_explainChange_of_explain hx
  rw [structural_explainChange] at hstructural
  rw [leaves?_explainChange hanswer, hstructural, if_pos rfl]
  exact Option.some_ne_none _

/-- The verdict that an explanation shows is a match exactly if the explanation is one and the
candidate changes something. -/
theorem match?_shown_iff (hstateless : e.tokenCheck.Stateless) {rank id : ℕ} {m : Match} :
    (e.shown text q state id).match? e rank id = some m ↔
      ∃ x, (e.explain text id state).1 = .ok x ∧ x.isMatch = true ∧ e.drops q id = false ∧
        m = ⟨id, rank, x.similarity, (e.corpus.change? id).getD "",
          (e.corpus.info? id).bind CommitInfo.ofLine?⟩ := by
  unfold shown
  cases hx : (e.explain text id state).1 with
  | error cause => cases cause <;> simp [Verdict.match?]
  | ok x =>
    have hleaves := leaves?_of_explain hstateless hx
    simp only [Except.ok.injEq, exists_eq_left', Explanation.verdict, Explanation.isMatch]
    cases hprefilter : x.passesPrefilter with
    | false => simp [Verdict.match?]
    | true =>
      cases hstructural : x.structural with
      | false => simp [Verdict.match?]
      | true =>
        obtain ⟨answer, hanswer⟩ := Option.ne_none_iff_exists'.mp (hleaves hstructural)
        rw [hanswer]
        cases answer <;> cases e.drops q id <;> simp [Verdict.match?, eq_comm]

/-- No explanation shows that fingerprints differ in length: those of the query and of the candidate
are made with the same buckets. -/
theorem shown_ne_dimensionMismatch (hq : e.prepare text = .ok q) (id : ℕ) :
    (e.shown text q state id matches .dimensionMismatch) = false := by
  rw [shown]
  rcases explain_cases hq state id with ⟨-, hexplain⟩ | ⟨cause, hexplain⟩ |
    ⟨-, candidate, similarity, -, -, -, hexplain⟩
  · rw [hexplain]
  · rw [hexplain]
  · rw [hexplain]
    dsimp only [Explanation.verdict]
    split_ifs <;> rfl

/-- **A search agrees with the explanations**: if nothing stops it and all numbers are numbers, the
candidate at a position is reported exactly if its explanation is a match and it changes something,
with the similarity of the explanation; and the statistics count every candidate where its
explanation shows that it ends. -/
theorem search_agrees_with_explain (e : Engine σ) (isCancelled : σ → Bool) (state : σ)
    (text : String) {q : Query} {shortlist : List ℕ} (hrun : Unstopped e isCancelled state)
    (hq : e.prepare text = .ok q)
    (hshortlist : e.lookup q.fingerprint e.settings.config.topK = .ok shortlist)
    (hthreshold : e.settings.config.similarityThreshold.isNaN = false)
    (hsimilarity : ∀ id ∈ shortlist, ∀ x, (e.explain text id state).1 = .ok x →
      x.similarity.isNaN = false) :
    ∃ result, e.search text isCancelled state = (.ok result, state) ∧
      (∀ rank id, shortlist[rank]? = some id →
        ((∃ m ∈ result.found, m.rank = rank) ↔
          ∃ x, (e.explain text id state).1 = .ok x ∧ x.isMatch = true ∧ e.drops q id = false) ∧
        ∀ m ∈ result.found, m.rank = rank →
          m.id = id ∧ ∃ x, (e.explain text id state).1 = .ok x ∧ m.similarity = x.similarity) ∧
      result.stats = ({ shortlisted := shortlist.length } : Stats).addVerdicts
        (shortlist.map (e.shown text q state)) ∧
      result.stats.dimensionMismatches = 0 := by
  have hshown : ∀ id ∈ shortlist, (e.judge q state id).1 = e.shown text q state id :=
    fun id hid => judge_eq_shown hq hrun.stateless hthreshold (hsimilarity id hid)
  -- What is proved of the verdicts holds of what is shown.
  have hverdicts : (shortlist.map fun id => (e.judge q state id).1) =
      shortlist.map (e.shown text q state) := List.map_congr_left hshown
  refine ⟨⟨matchesFrom e q state 0 shortlist,
    ({ shortlisted := shortlist.length } : Stats).addVerdicts
      (shortlist.map (e.shown text q state))⟩, ?_, ?_, rfl, ?_⟩
  · rw [search, hq]
    dsimp only
    rw [searchQuery, hshortlist]
    dsimp only
    rw [run_of_unstopped hrun, hverdicts]
  · intro rank id hid
    have hmem : ∀ m, m ∈ matchesFrom e q state 0 shortlist ∧ m.rank = rank ↔
        (e.shown text q state id).match? e rank id = some m :=
      fun m => by rw [mem_matchesFrom_at hid, hshown id (List.mem_of_getElem? hid)]
    constructor
    · constructor
      · rintro ⟨m, hm⟩
        obtain ⟨x, hx, hmatch, hdrops, -⟩ :=
          (match?_shown_iff hrun.stateless).mp ((hmem m).mp hm)
        exact ⟨x, hx, hmatch, hdrops⟩
      · rintro ⟨x, hx, hmatch, hdrops⟩
        exact ⟨_, (hmem _).mpr ((match?_shown_iff hrun.stateless).mpr
          ⟨x, hx, hmatch, hdrops, rfl⟩)⟩
    · intro m hm hrank
      obtain ⟨x, hx, -, -, rfl⟩ :=
        (match?_shown_iff hrun.stateless).mp ((hmem m).mp ⟨hm, hrank⟩)
      exact ⟨rfl, x, hx, rfl⟩
  · -- No candidate is counted for a mismatch of lengths.
    show 0 + (shortlist.map (e.shown text q state)).countP (· matches .dimensionMismatch) = 0
    rw [Nat.zero_add, List.countP_eq_zero]
    intro v hv
    obtain ⟨id, -, rfl⟩ := List.mem_map.mp hv
    rw [shown_ne_dimensionMismatch hq id]
    exact Bool.false_ne_true

/-- A search among three candidates, of which one is a change, one is not in the language and one is
not in the corpus. -/
def sample : Engine Unit where
  settings := ⟨{ minQueryNodes := 1 }, .default, ⟨16, by decide, rfl⟩⟩
  parser := .java
  vocabulary := ⟨0, []⟩
  lookup := fun _ _ => .ok [1, 0, 2]
  corpus := .ofChanges ["a = 1; -> a = 2;", "a = ("]
  tokenCheck := .aligning .default

/-- The similarities in the sample are numbers. -/
theorem similarity_explain_sample {id : ℕ} (hid : id ∈ [1, 0, 2]) {x : Explanation}
    (hx : (sample.explain "ID = 1; -> ID = 2;" id ()).1 = .ok x) : x.similarity.isNaN = false := by
  have hall : ∀ id ∈ [1, 0, 2], (sample.explain "ID = 1; -> ID = 2;" id ()).1.toOption.all
      (fun x => !x.similarity.isNaN) = true := by decide +kernel
  have hthis := hall id hid
  rw [hx] at hthis
  simpa [Except.toOption] using hthis

theorem sample_search_agrees :
    ∃ q, sample.prepare "ID = 1; -> ID = 2;" = .ok q ∧
      ∃ result, sample.search "ID = 1; -> ID = 2;" (fun _ => false) () = (.ok result, ()) ∧
        (∀ rank id, [1, 0, 2][rank]? = some id →
          ((∃ m ∈ result.found, m.rank = rank) ↔
            ∃ x, (sample.explain "ID = 1; -> ID = 2;" id ()).1 = .ok x ∧ x.isMatch = true ∧
              sample.drops q id = false) ∧
          ∀ m ∈ result.found, m.rank = rank →
            m.id = id ∧ ∃ x, (sample.explain "ID = 1; -> ID = 2;" id ()).1 = .ok x ∧
              m.similarity = x.similarity) ∧
        result.stats = ({ shortlisted := 3 } : Stats).addVerdicts
          ([1, 0, 2].map (sample.shown "ID = 1; -> ID = 2;" q ())) ∧
        result.stats.dimensionMismatches = 0 := by
  have hok : (sample.prepare "ID = 1; -> ID = 2;").isOk = true := by decide +kernel
  obtain ⟨q, hq⟩ : ∃ q, sample.prepare "ID = 1; -> ID = 2;" = .ok q := by
    cases hprepare : sample.prepare "ID = 1; -> ID = 2;" with
    | error cause => rw [hprepare] at hok; cases hok
    | ok q => exact ⟨q, rfl⟩
  exact ⟨q, hq, search_agrees_with_explain sample (fun _ => false) () "ID = 1; -> ID = 2;"
    ⟨rfl, rfl, TokenCheck.stateless_aligning _⟩ hq rfl (by decide +kernel)
    fun _ hid _ hx => similarity_explain_sample hid hx⟩

end Engine

end ChangeQuery
