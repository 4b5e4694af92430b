import ChangeQuery.Proofs.Search.Accounting
import Mathlib.Tactic.IntervalCases

/-!
## Searches that stop early

A search stops when it has as many matches as it may have, or when it is cancelled.  If the answers
of the token check do not depend on its state, then stopping only cuts the search off: candidates
that were judged before are judged as in a whole search, and the others are counted as passed over.

The only thing that differs from run to run is the number of candidates that were judged.
`StopsAfter` says what it is, `run_of_stopsAfter` that it determines the whole result, and
`StopsAfter.min` that of two reasons to stop the earlier one counts.  `search_stopped_early` puts
this together for a bound on the matches, for a cancellation, and for both.
-/

namespace ChangeQuery

variable {σ : Type}

/-- The answers of the check do not depend on its state.  The state itself may change. -/
def TokenCheck.Memoryless (check : TokenCheck σ) : Prop :=
  ∃ answer : TokenSides → TokenSides → Bool,
    ∀ state query candidate, (check state query candidate).1 = answer query candidate

namespace Engine

variable {e : Engine σ} {q : Query} {isCancelled : σ → Bool} {state : σ} {shortlist : List ℕ}

/-! ### Verdicts and matches -/

/-- The verdict of the last stages hangs on the answer of the check alone. -/
theorem fst_judgeTokens (state : σ) (text : String) (candidate : Change) (similarity : Float) :
    (e.judgeTokens q state text candidate similarity).1 =
      let tokens := TokenSides.ofTree candidate.tree e.settings.config.delimiter
      if (e.tokenCheck state q.tokens tokens).1 = false then .tokensDiffer
      else if e.settings.config.skipUnchanged && tokens.unchanged then .unchanged
      else .accepted similarity text := by
  unfold judgeTokens
  dsimp only
  split <;> rename_i hanswer <;> rw [hanswer]
  · rfl
  · simp only [Bool.true_eq_false, if_false]
    split_ifs <;> rfl

/-- Every state gives a candidate the same verdict. -/
theorem fst_judge (h : e.tokenCheck.Memoryless) (state state' : σ) (id : ℕ) :
    (e.judge q state id).1 = (e.judge q state' id).1 := by
  obtain ⟨answer, hanswer⟩ := h
  unfold judge
  split
  · rfl
  split
  · rfl
  split
  · rfl
  split_ifs
  · rfl
  · rfl
  · rw [fst_judgeTokens, fst_judgeTokens]
    dsimp only
    rw [hanswer, hanswer]

/-- There is one match for each accepting verdict. -/
theorem length_matchesFrom (ids : List ℕ) : ∀ rank : ℕ,
    (matchesFrom e q state rank ids).length =
      (ids.map fun id => (e.judge q state id).1).countP Verdict.isAccepted := by
  induction ids with
  | nil => exact fun _ => rfl
  | cons id ids ih =>
    intro rank
    have hone : ((e.judge q state id).1.match? e rank id).toList.length =
        if (e.judge q state id).1.isAccepted then 1 else 0 := by
      cases (e.judge q state id).1 <;> rfl
    rw [matchesFrom, List.length_append, ih, hone, List.map_cons, List.countP_cons, Nat.add_comm]

theorem matchesFrom_append (ids ids' : List ℕ) : ∀ rank : ℕ,
    matchesFrom e q state rank (ids ++ ids') =
      matchesFrom e q state rank ids ++ matchesFrom e q state (rank + ids.length) ids' := by
  induction ids with
  | nil => exact fun _ => rfl
  | cons id ids ih =>
    intro rank
    rw [List.cons_append, matchesFrom, matchesFrom, ih, List.append_assoc, List.length_cons,
      Nat.add_right_comm, Nat.add_assoc]

/-- The matches of candidates from position `rank` on stand from there on. -/
theorem rank_of_mem_matchesFrom {m : Match} {ids : List ℕ} {rank : ℕ}
    (h : m ∈ matchesFrom e q state rank ids) : rank ≤ m.rank ∧ m.rank < rank + ids.length := by
  obtain ⟨i, id, hid, hm⟩ := mem_matchesFrom_iff.mp h
  obtain ⟨hi, -⟩ := List.getElem?_eq_some_iff.mp hid
  have hrank := rank_of_match? hm
  omega

/-- Matches come in the order of the shortlist. -/
theorem pairwise_matchesFrom (ids : List ℕ) : ∀ rank : ℕ,
    (matchesFrom e q state rank ids).Pairwise fun earlier later => earlier.rank < later.rank := by
  induction ids with
  | nil => exact fun _ => List.Pairwise.nil
  | cons id ids ih =>
    intro rank
    refine List.pairwise_append.mpr ⟨?_, ih (rank + 1), fun m hm later hlater => ?_⟩
    · cases (e.judge q state id).1.match? e rank id <;> simp
    · have hrank := rank_of_match? (Option.mem_toList.mp hm)
      have hlater := rank_of_mem_matchesFrom hlater
      omega

/-- Where the ranks pass a bound, filtering by the bound cuts a list off. -/
theorem filter_rank_lt {before after : List Match} {bound : ℕ}
    (hbefore : ∀ m ∈ before, m.rank < bound) (hafter : ∀ m ∈ after, bound ≤ m.rank) :
    (before ++ after).filter (·.rank < bound) = before := by
  have hkept : before.filter (·.rank < bound) = before :=
    List.filter_eq_self.mpr fun m hm => decide_eq_true (hbefore m hm)
  have hdropped : after.filter (·.rank < bound) = [] := by
    refine List.filter_eq_nil_iff.mpr fun m hm => ?_
    have hle := hafter m hm
    simpa using hle
  rw [List.filter_append, hkept, hdropped, List.append_nil]

/-- The matches among the first candidates are those of small rank. -/
theorem matchesFrom_take (count : ℕ) :
    matchesFrom e q state 0 (shortlist.take count) =
      (matchesFrom e q state 0 shortlist).filter (·.rank < count) := by
  have hsplit : matchesFrom e q state 0 shortlist =
      matchesFrom e q state 0 (shortlist.take count) ++
        matchesFrom e q state (0 + (shortlist.take count).length) (shortlist.drop count) := by
    rw [← matchesFrom_append, List.take_append_drop]
  rw [hsplit, filter_rank_lt]
  · intro m hm
    have hrank := rank_of_mem_matchesFrom hm
    rw [List.length_take] at hrank
    omega
  · intro m hm
    have hrank := rank_of_mem_matchesFrom hm
    rw [List.length_take, List.length_drop] at hrank
    omega

/-! ### The number of candidates judged -/

/-- The state after judging candidates, whatever else the search does. -/
def stateAfter (e : Engine σ) (q : Query) (state : σ) (ids : List ℕ) : σ :=
  ids.foldl (fun state id => (e.judge q state id).2) state

/-- A search judges the first `count` candidates of a shortlist and no others. -/
structure StopsAfter (e : Engine σ) (q : Query) (isCancelled : σ → Bool) (state : σ)
    (shortlist : List ℕ) (count : ℕ) : Prop where
  le_length : count ≤ shortlist.length
  running : ∀ i < count, isCancelled (e.stateAfter q state (shortlist.take i)) = false ∧
    e.settings.config.maxMatches? ≠
      some (matchesFrom e q state 0 (shortlist.take i)).length
  stopped : count < shortlist.length →
    isCancelled (e.stateAfter q state (shortlist.take count)) = true ∨
      e.settings.config.maxMatches? =
        some (matchesFrom e q state 0 (shortlist.take count)).length

/-- The progress of a search that went on for the first `count` candidates. -/
def progressAfter (e : Engine σ) (q : Query) (state : σ) (shortlist : List ℕ) (count : ℕ) :
    Progress σ where
  state := e.stateAfter q state (shortlist.take count)
  stats := ({ shortlisted := shortlist.length } : Stats).addVerdicts
    ((shortlist.take count).map fun id => (e.judge q state id).1)
  found := (matchesFrom e q state 0 (shortlist.take count)).reverse
  full := e.settings.config.maxMatches? ==
    some (matchesFrom e q state 0 (shortlist.take count)).length

/-- The result of a search that judges the first `count` candidates and passes over the others. -/
def resultAfter (e : Engine σ) (q : Query) (state : σ) (shortlist : List ℕ) (count : ℕ) :
    SearchResult where
  found := matchesFrom e q state 0 (shortlist.take count)
  stats :=
    { ({ shortlisted := shortlist.length } : Stats).addVerdicts
        ((shortlist.take count).map fun id => (e.judge q state id).1) with
      cancelled := shortlist.length - count }

theorem evaluated_resultAfter {count : ℕ} (h : count ≤ shortlist.length) :
    (e.resultAfter q state shortlist count).stats.evaluated = count := by
  simp [resultAfter, Stats.addVerdicts, h]

theorem matched_progressAfter (count : ℕ) :
    (e.progressAfter q state shortlist count).stats.matched =
      (matchesFrom e q state 0 (shortlist.take count)).length := by
  rw [length_matchesFrom]
  simp [progressAfter, Stats.addVerdicts]

theorem runFrom_append (ids ids' : List ℕ) : ∀ (rank : ℕ) (p : Progress σ),
    e.runFrom q isCancelled rank p (ids ++ ids') =
      e.runFrom q isCancelled (rank + ids.length) (e.runFrom q isCancelled rank p ids) ids' := by
  induction ids with
  | nil => exact fun _ _ => rfl
  | cons id ids ih =>
    intro rank p
    rw [List.cons_append, runFrom, ih, List.length_cons, runFrom, Nat.add_right_comm, Nat.add_assoc]

/-- A search that has stopped passes over all that is left. -/
theorem runFrom_of_stopped (ids : List ℕ) : ∀ (rank : ℕ) (p : Progress σ),
    (isCancelled p.state || p.full) = true →
      e.runFrom q isCancelled rank p ids =
        { p with stats := { p.stats with cancelled := p.stats.cancelled + ids.length } } := by
  induction ids with
  | nil => exact fun _ _ _ => rfl
  | cons id ids ih =>
    intro rank p h
    rw [runFrom, step_of_stopped h, ih _ _ (by exact h)]
    simp only [List.length_cons, Nat.add_assoc, Nat.add_comm 1]

/-- **One more candidate**: the candidate at position `i` gets the verdict that it would get in
front of the search. -/
theorem step_progressAfter (hcheck : e.tokenCheck.Memoryless) {i : ℕ} (hi : i < shortlist.length)
    (hbounded : e.Bounded (e.progressAfter q state shortlist i))
    (hcancelled : isCancelled (e.stateAfter q state (shortlist.take i)) = false)
    (hmost : e.settings.config.maxMatches? ≠
      some (matchesFrom e q state 0 (shortlist.take i)).length) :
    e.step q isCancelled (e.progressAfter q state shortlist i) i shortlist[i] =
      e.progressAfter q state shortlist (i + 1) := by
  have htake : shortlist.take (i + 1) = shortlist.take i ++ [shortlist[i]] :=
    List.take_succ_eq_append_getElem hi
  have hfull : (e.progressAfter q state shortlist i).full = false := by
    simpa [progressAfter] using hmost
  have hmatches : matchesFrom e q state 0 (shortlist.take (i + 1)) =
      matchesFrom e q state 0 (shortlist.take i) ++
        ((e.judge q state shortlist[i]).1.match? e i shortlist[i]).toList := by
    rw [htake, matchesFrom_append, matchesFrom, matchesFrom, List.append_nil,
      List.length_take_of_le hi.le, Nat.zero_add]
  have hstats : (e.progressAfter q state shortlist (i + 1)).stats =
      (e.progressAfter q state shortlist i).stats.addVerdicts
        [(e.judge q state shortlist[i]).1] := by
    rw [progressAfter, progressAfter, htake, List.map_append, Stats.addVerdicts_append]
    rfl
  have hstate : (e.progressAfter q state shortlist (i + 1)).state =
      (e.judge q (e.progressAfter q state shortlist i).state shortlist[i]).2 := by
    rw [progressAfter, progressAfter, htake, stateAfter, List.foldl_append]
    rfl
  rw [step_of_running hbounded hcancelled hfull,
    fst_judge hcheck (e.progressAfter q state shortlist i).state state, ← hstats, ← hstate,
    matched_progressAfter]
  simp only [progressAfter, hmatches, List.reverse_append]
  cases (e.judge q state shortlist[i]).1.match? e i shortlist[i] <;> rfl

/-- **A search that goes on** has judged all candidates so far, each like every other search. -/
theorem runFrom_take (hcheck : e.tokenCheck.Memoryless) {count : ℕ}
    (h : e.StopsAfter q isCancelled state shortlist count) : ∀ i ≤ count,
      e.runFrom q isCancelled 0 (e.start state shortlist) (shortlist.take i) =
          e.progressAfter q state shortlist i ∧
        e.Bounded (e.progressAfter q state shortlist i) := by
  intro i
  induction i with
  | zero => exact fun _ => ⟨rfl, rfl, fun most _ => Nat.zero_le most⟩
  | succ i ih =>
    intro hi
    obtain ⟨hrun, hbounded⟩ := ih (by omega)
    obtain ⟨hcancelled, hmost⟩ := h.running i (by omega)
    have hlt : i < shortlist.length := by
      have hle := h.le_length
      omega
    have hstep := step_progressAfter hcheck hlt hbounded hcancelled hmost
    refine ⟨?_, ?_⟩
    · rw [List.take_succ_eq_append_getElem hlt, runFrom_append, hrun,
        List.length_take_of_le hlt.le, Nat.zero_add]
      exact hstep
    · rw [← hstep]
      exact bounded_step hbounded i _

/-- **The result hangs on the number of candidates judged** and on nothing else. -/
theorem run_of_stopsAfter (hcheck : e.tokenCheck.Memoryless) {count : ℕ}
    (h : e.StopsAfter q isCancelled state shortlist count) :
    (e.run q isCancelled state shortlist).1 = e.resultAfter q state shortlist count := by
  have hsplit : e.runFrom q isCancelled 0 (e.start state shortlist) shortlist =
      e.runFrom q isCancelled (0 + (shortlist.take count).length)
        (e.progressAfter q state shortlist count) (shortlist.drop count) := by
    rw [← (runFrom_take hcheck h count le_rfl).1, ← runFrom_append, List.take_append_drop]
  have hrest : e.runFrom q isCancelled (0 + (shortlist.take count).length)
      (e.progressAfter q state shortlist count) (shortlist.drop count) =
      { e.progressAfter q state shortlist count with
        stats := { (e.progressAfter q state shortlist count).stats with
          cancelled := shortlist.length - count } } := by
    rcases h.le_length.lt_or_eq with hlt | rfl
    · have hstopped : (isCancelled (e.progressAfter q state shortlist count).state ||
          (e.progressAfter q state shortlist count).full) = true := by
        rcases h.stopped hlt with hcancelled | hfull
        · simp [progressAfter, hcancelled]
        · simp [progressAfter, hfull]
      rw [runFrom_of_stopped _ _ _ hstopped, List.length_drop]
      simp [progressAfter, Stats.addVerdicts]
    · rw [List.drop_length, runFrom, Nat.sub_self]
      rfl
  rw [run, hsplit, hrest]
  simp [progressAfter, resultAfter]

/-! ### Bounds and cancellations -/

/-- The same search with another bound on the matches. -/
def withBound (e : Engine σ) (most? : Option ℕ) : Engine σ :=
  { e with settings :=
    { e.settings with config := { e.settings.config with maxMatches? := most? } } }

@[simp] theorem matchesFrom_withBound (most? : Option ℕ) (ids : List ℕ) : ∀ rank : ℕ,
    matchesFrom (e.withBound most?) q state rank ids = matchesFrom e q state rank ids := by
  induction ids with
  | nil => exact fun _ => rfl
  | cons id ids ih =>
    intro rank
    rw [matchesFrom, matchesFrom, ih]
    rfl

@[simp] theorem resultAfter_withBound (most? : Option ℕ) (count : ℕ) :
    (e.withBound most?).resultAfter q state shortlist count =
      e.resultAfter q state shortlist count := by
  rw [resultAfter, matchesFrom_withBound]
  rfl

/-- **Of two reasons to stop** the earlier one counts. -/
theorem StopsAfter.min {most : ℕ} {count count' : ℕ}
    (h : (e.withBound (some most)).StopsAfter q (fun _ => false) state shortlist count)
    (h' : (e.withBound none).StopsAfter q isCancelled state shortlist count') :
    (e.withBound (some most)).StopsAfter q isCancelled state shortlist (min count count') where
  le_length := (min_le_left _ _).trans h.le_length
  running i hi := ⟨(h'.running i (by omega)).1, (h.running i (by omega)).2⟩
  stopped hlt := by
    rcases le_total count count' with hle | hle
    · rw [min_eq_left hle] at hlt ⊢
      exact .inr ((h.stopped hlt).resolve_left Bool.false_ne_true)
    · rw [min_eq_right hle] at hlt ⊢
      exact .inl ((h'.stopped hlt).resolve_right nofun)

/-- A search that nothing stops judges all candidates. -/
theorem stopsAfter_length :
    (e.withBound none).StopsAfter q (fun _ => false) state shortlist shortlist.length where
  le_length := le_rfl
  running _ _ := ⟨rfl, nofun⟩
  stopped hlt := absurd hlt (lt_irrefl _)

/-- A bound that is not reached stops nothing. -/
theorem stopsAfter_of_length_lt {most : ℕ}
    (h : (matchesFrom e q state 0 shortlist).length < most) :
    (e.withBound (some most)).StopsAfter q (fun _ => false) state shortlist shortlist.length where
  le_length := le_rfl
  running i _ := by
    refine ⟨rfl, fun heq => ?_⟩
    have hlength := Option.some.inj heq
    rw [matchesFrom_withBound, matchesFrom_take] at hlength
    have hfilter := List.length_filter_le (fun m => decide (m.rank < i))
      (matchesFrom e q state 0 shortlist)
    omega
  stopped hlt := absurd hlt (lt_irrefl _)

/-- The bound zero stops a search in front of the first candidate. -/
theorem stopsAfter_zero :
    (e.withBound (some 0)).StopsAfter q (fun _ => false) state shortlist 0 where
  le_length := Nat.zero_le _
  running _ hi := absurd hi (Nat.not_lt_zero _)
  stopped _ := .inr rfl

/-- In a list with rising ranks, the matches up to a match are those of no higher rank. -/
theorem filter_rank_lt_of_getElem? {found : List Match} {k : ℕ} {m : Match}
    (h : found.Pairwise fun earlier later => earlier.rank < later.rank) (hm : found[k]? = some m) :
    found.filter (·.rank < m.rank) = found.take k ∧
      found.filter (·.rank < m.rank + 1) = found.take (k + 1) := by
  obtain ⟨hk, hget⟩ := List.getElem?_eq_some_iff.mp hm
  have htake : found.take (k + 1) = found.take k ++ [m] := by
    rw [List.take_succ_eq_append_getElem hk, hget]
  have hdrop : found.drop k = m :: found.drop (k + 1) := by
    rw [List.drop_eq_getElem_cons hk, hget]
  have hpairs := List.pairwise_append.mp (found.take_append_drop k ▸ h)
  rw [hdrop] at hpairs
  have hbefore : ∀ m' ∈ found.take k, m'.rank < m.rank :=
    fun m' hm' => hpairs.2.2 m' hm' m List.mem_cons_self
  have hafter : ∀ m' ∈ found.drop (k + 1), m.rank < m'.rank :=
    fun m' hm' => List.rel_of_pairwise_cons hpairs.2.1 hm'
  constructor
  · have hcut : (found.take k ++ found.drop k).filter (·.rank < m.rank) = found.take k := by
      refine filter_rank_lt hbefore fun m' hm' => ?_
      rcases List.mem_cons.mp (hdrop ▸ hm') with rfl | hm'
      · exact le_rfl
      · exact (hafter m' hm').le
    rwa [List.take_append_drop] at hcut
  · have hcut : (found.take (k + 1) ++ found.drop (k + 1)).filter (·.rank < m.rank + 1) =
        found.take (k + 1) := by
      refine filter_rank_lt (fun m' hm' => ?_) hafter
      rcases List.mem_append.mp (htake ▸ hm') with hm' | hm'
      · exact Nat.lt_succ_of_lt (hbefore m' hm')
      · rw [List.mem_singleton.mp hm']
        exact Nat.lt_succ_self _
    rwa [List.take_append_drop] at hcut

/-- A bound that is reached stops a search behind the last match that it allows. -/
theorem stopsAfter_of_getElem? {k : ℕ} {m : Match}
    (hm : (matchesFrom e q state 0 shortlist)[k]? = some m) :
    (e.withBound (some (k + 1))).StopsAfter q (fun _ => false) state shortlist (m.rank + 1) := by
  have hmem := List.mem_of_getElem? hm
  obtain ⟨hk, -⟩ := List.getElem?_eq_some_iff.mp hm
  obtain ⟨hbefore, hthrough⟩ := filter_rank_lt_of_getElem? (pairwise_matchesFrom shortlist 0) hm
  have hrank := rank_of_mem_matchesFrom hmem
  refine ⟨by omega, fun i hi => ⟨rfl, fun heq => ?_⟩, fun _ => .inr ?_⟩
  · -- Up to the match only `k` others were found.
    have hlength := Option.some.inj heq
    rw [matchesFrom_withBound, matchesFrom_take] at hlength
    have hsub : ((matchesFrom e q state 0 shortlist).filter (·.rank < i)).length ≤
        ((matchesFrom e q state 0 shortlist).filter (·.rank < m.rank)).length := by
      rw [← List.countP_eq_length_filter, ← List.countP_eq_length_filter]
      refine List.countP_mono_left fun m' _ hm' => ?_
      simp only [decide_eq_true_eq] at hm' ⊢
      omega
    rw [hbefore, List.length_take] at hsub
    omega
  · show some (k + 1) = _
    rw [matchesFrom_withBound, matchesFrom_take, hthrough, List.length_take]
    congr 1
    omega

/-- The search is cancelled while the candidate at position `rank` is judged. -/
structure CancelledDuring (e : Engine σ) (q : Query) (isCancelled : σ → Bool) (state : σ)
    (shortlist : List ℕ) (rank : ℕ) : Prop where
  rank_lt : rank < shortlist.length
  running : ∀ i ≤ rank, isCancelled (e.stateAfter q state (shortlist.take i)) = false
  raised : isCancelled (e.stateAfter q state (shortlist.take (rank + 1))) = true

/-- A cancellation stops a search behind the candidate during which it comes. -/
theorem CancelledDuring.stopsAfter {rank : ℕ}
    (h : e.CancelledDuring q isCancelled state shortlist rank) :
    (e.withBound none).StopsAfter q isCancelled state shortlist (rank + 1) where
  le_length := h.rank_lt
  running i hi := ⟨h.running i (by omega), nofun⟩
  stopped _ := .inl h.raised

/-! ### Results of searches that stop early -/

/-- What a bound of `most` makes of a whole search. -/
structure IsBounded (shortlist : List ℕ) (whole : SearchResult) (most : ℕ)
    (bounded : SearchResult) : Prop where
  found_eq : bounded.found = whole.found.take most
  of_zero : most = 0 → bounded.stats.evaluated = 0 ∧ bounded.stats.cancelled = shortlist.length
  of_reached : ∀ m, 1 ≤ most → whole.found[most - 1]? = some m →
    bounded.stats.evaluated = m.rank + 1 ∧
      bounded.stats.cancelled = shortlist.length - (m.rank + 1)
  of_length_lt : whole.found.length < most → bounded = whole

/-- What a cancellation at position `rank` makes of a whole search. -/
structure IsCutOff (shortlist : List ℕ) (whole : SearchResult) (rank : ℕ)
    (cancelled : SearchResult) : Prop where
  found_eq : cancelled.found = whole.found.filter (·.rank ≤ rank)
  evaluated_eq : cancelled.stats.evaluated = rank + 1
  cancelled_eq : cancelled.stats.cancelled = shortlist.length - rank - 1

theorem found_resultAfter_length :
    (e.resultAfter q state shortlist shortlist.length).found =
      matchesFrom e q state 0 shortlist := by
  rw [resultAfter, List.take_length]

/-- Every bound stops the search somewhere, and cuts the whole search off there. -/
theorem exists_stopsAfter_withBound (e : Engine σ) (q : Query) (state : σ) (shortlist : List ℕ)
    (most : ℕ) : ∃ count,
      (e.withBound (some most)).StopsAfter q (fun _ => false) state shortlist count ∧
      IsBounded shortlist (e.resultAfter q state shortlist shortlist.length) most
        (e.resultAfter q state shortlist count) := by
  cases most with
  | zero =>
    exact ⟨0, stopsAfter_zero,
      { found_eq := rfl
        of_zero := fun _ => ⟨rfl, rfl⟩
        of_reached := fun _ h => absurd h (by omega)
        of_length_lt := fun h => absurd h (Nat.not_lt_zero _) }⟩
  | succ k =>
    cases hm : (matchesFrom e q state 0 shortlist)[k]? with
    | none =>
      -- There are at most `k` matches, so the bound stops nothing.
      have hlength := List.getElem?_eq_none_iff.mp hm
      refine ⟨shortlist.length, stopsAfter_of_length_lt (by omega),
        { found_eq := ?_
          of_zero := nofun
          of_reached := fun m _ hreached => ?_
          of_length_lt := fun _ => rfl }⟩
      · rw [found_resultAfter_length, List.take_of_length_le (by omega)]
      · rw [found_resultAfter_length, Nat.add_sub_cancel, hm] at hreached
        cases hreached
    | some m =>
      have hstops := stopsAfter_of_getElem? hm
      obtain ⟨hk, -⟩ := List.getElem?_eq_some_iff.mp hm
      refine ⟨m.rank + 1, hstops,
        { found_eq := ?_
          of_zero := nofun
          of_reached := fun m' _ hreached => ?_
          of_length_lt := fun hlt => ?_ }⟩
      · rw [found_resultAfter_length, resultAfter, matchesFrom_take,
          (filter_rank_lt_of_getElem? (pairwise_matchesFrom shortlist 0) hm).2]
      · rw [found_resultAfter_length, Nat.add_sub_cancel, hm] at hreached
        obtain rfl := Option.some.inj hreached
        exact ⟨evaluated_resultAfter hstops.le_length, rfl⟩
      · rw [found_resultAfter_length] at hlt
        omega

theorem isCutOff_resultAfter {rank : ℕ} (h : rank < shortlist.length) :
    IsCutOff shortlist (e.resultAfter q state shortlist shortlist.length) rank
      (e.resultAfter q state shortlist (rank + 1)) where
  found_eq := by
    rw [found_resultAfter_length, resultAfter, matchesFrom_take]
    simp only [Nat.lt_succ_iff]
  evaluated_eq := evaluated_resultAfter h
  cancelled_eq := by rw [resultAfter, Nat.sub_sub]

/-- A search with a shortlist gives the result of its run. -/
theorem fst_searchQuery_withBound
    (hshortlist : e.lookup q.fingerprint e.settings.config.topK = .ok shortlist)
    (hcheck : e.tokenCheck.Memoryless) {most? : Option ℕ} {count : ℕ}
    (h : (e.withBound most?).StopsAfter q isCancelled state shortlist count) :
    ((e.withBound most?).searchQuery q isCancelled state).1 =
      .ok (e.resultAfter q state shortlist count) := by
  have hlookup : (e.withBound most?).lookup q.fingerprint
      (e.withBound most?).settings.config.topK = .ok shortlist := hshortlist
  have hcheck' : (e.withBound most?).tokenCheck.Memoryless := hcheck
  rw [searchQuery, hlookup]
  dsimp only
  rw [run_of_stopsAfter hcheck' h, resultAfter_withBound]

/-- **Stopping early cuts a search off.**  A bound on the matches keeps the first matches of the
whole search, and a cancellation keeps those up to the candidate during which it comes; all
candidates behind are counted as passed over.  With both, the search ends where the first of them
ends it. -/
theorem search_stopped_early (e : Engine σ) (hcheck : e.tokenCheck.Memoryless) (q : Query)
    (state : σ) {shortlist : List ℕ}
    (hshortlist : e.lookup q.fingerprint e.settings.config.topK = .ok shortlist) :
    ∃ whole, ((e.withBound none).searchQuery q (fun _ => false) state).1 = .ok whole ∧
      (∀ most, ∃ bounded,
        ((e.withBound (some most)).searchQuery q (fun _ => false) state).1 = .ok bounded ∧
          IsBounded shortlist whole most bounded) ∧
      ∀ isCancelled rank, e.CancelledDuring q isCancelled state shortlist rank →
        ∃ cancelled, ((e.withBound none).searchQuery q isCancelled state).1 = .ok cancelled ∧
          IsCutOff shortlist whole rank cancelled ∧
          ∀ most bounded,
            ((e.withBound (some most)).searchQuery q (fun _ => false) state).1 = .ok bounded →
              ((e.withBound (some most)).searchQuery q isCancelled state).1 =
                .ok (if bounded.stats.evaluated ≤ cancelled.stats.evaluated then bounded
                  else cancelled) := by
  refine ⟨e.resultAfter q state shortlist shortlist.length,
    fst_searchQuery_withBound hshortlist hcheck stopsAfter_length, fun most => ?_,
    fun isCancelled rank hcancelled => ?_⟩
  · obtain ⟨count, hstops, hbounded⟩ := exists_stopsAfter_withBound e q state shortlist most
    exact ⟨_, fst_searchQuery_withBound hshortlist hcheck hstops, hbounded⟩
  · have hcut := hcancelled.stopsAfter
    refine ⟨_, fst_searchQuery_withBound hshortlist hcheck hcut,
      isCutOff_resultAfter hcancelled.rank_lt, fun most bounded hbounded => ?_⟩
    obtain ⟨count, hstops, -⟩ := exists_stopsAfter_withBound e q state shortlist most
    rw [fst_searchQuery_withBound hshortlist hcheck hstops] at hbounded
    obtain rfl := Except.ok.inj hbounded
    -- Each result tells how many candidates were judged.
    rw [fst_searchQuery_withBound hshortlist hcheck (hstops.min hcut),
      evaluated_resultAfter hstops.le_length, evaluated_resultAfter hcut.le_length, min_def]
    split_ifs <;> rfl

/-- A bound of one match, a cancellation during the third candidate, and both. -/
theorem sampleCounting_stopped_early :
    ∃ q, sampleCounting.prepare "ID = 1; -> ID = 2;" = .ok q ∧
      sampleCounting.CancelledDuring q (fun calls => 2 ≤ calls) 0 [1, 7, 0, 1] 2 ∧
      ∃ whole bounded cancelled,
        ((sampleCounting.withBound none).searchQuery q (fun _ => false) 0).1 = .ok whole ∧
        ((sampleCounting.withBound (some 1)).searchQuery q (fun _ => false) 0).1 = .ok bounded ∧
        IsBounded [1, 7, 0, 1] whole 1 bounded ∧
        ((sampleCounting.withBound none).searchQuery q (fun calls => 2 ≤ calls) 0).1 =
          .ok cancelled ∧
        IsCutOff [1, 7, 0, 1] whole 2 cancelled ∧
        ((sampleCounting.withBound (some 1)).searchQuery q (fun calls => 2 ≤ calls) 0).1 =
          .ok (if bounded.stats.evaluated ≤ cancelled.stats.evaluated then bounded
            else cancelled) := by
  have hcalls : (sampleCounting.prepare "ID = 1; -> ID = 2;").toOption.any (fun q =>
      (List.range 4).map (fun i => sampleCounting.stateAfter q 0 ([1, 7, 0, 1].take i)) ==
        [0, 1, 1, 2]) = true := by decide +kernel
  obtain ⟨q, hq, hcalls⟩ := exists_prepare_of_any hcalls
  have hcancelled : sampleCounting.CancelledDuring q (fun calls => 2 ≤ calls) 0 [1, 7, 0, 1] 2 := by
    obtain ⟨h₀, h₁, h₂, h₃⟩ : sampleCounting.stateAfter q 0 [] = 0 ∧
        sampleCounting.stateAfter q 0 [1] = 1 ∧ sampleCounting.stateAfter q 0 [1, 7] = 1 ∧
        sampleCounting.stateAfter q 0 [1, 7, 0] = 2 := by
      simpa [List.range_succ] using hcalls
    refine ⟨by decide, fun i hi => ?_, by simp [h₃]⟩
    interval_cases i <;> simp [h₀, h₁, h₂]
  have hcheck : sampleCounting.tokenCheck.Memoryless :=
    ⟨Alignment.aligns .default, fun _ _ _ => rfl⟩
  have hlookup : sampleCounting.lookup q.fingerprint sampleCounting.settings.config.topK =
      .ok [1, 7, 0, 1] := rfl
  obtain ⟨whole, hwhole, hbounds, hcuts⟩ :=
    search_stopped_early sampleCounting hcheck q 0 hlookup
  obtain ⟨bounded, hbounded, hisBounded⟩ := hbounds 1
  obtain ⟨cancelled, hresult, hcut, hboth⟩ := hcuts _ 2 hcancelled
  exact ⟨q, hq, hcancelled, whole, bounded, cancelled, hwhole, hbounded, hisBounded, hresult, hcut,
    hboth 1 bounded hbounded⟩

end Engine

end ChangeQuery
