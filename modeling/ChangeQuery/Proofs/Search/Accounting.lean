import ChangeQuery.Proofs.Search.Agreement
import Mathlib.Data.List.Sort

/-!
## Where the candidates of a search went

Whatever the query, the shortlist, the bound on the matches and the check of tokens, every candidate
of the shortlist is counted once: as passed over, as a match, or at the stage that refused it.  The
check may have a memory and may stop the search from inside a call.

A search goes through a `Ledger` for each position of the shortlist.  `ledger_step` is the account
of one candidate, `ledger_runFrom` that of a whole run from any position on, and
`searchQuery_accounts` closes the books: `SearchResult.Accounts` says what the statistics and the
matches of a finished search have to do with each other, with the shortlist and with the corpus.
-/

namespace ChangeQuery

variable {σ : Type}

/-- The candidates that were counted at the stage where they ended, matches among them. -/
def Stats.settled (s : Stats) : ℕ :=
  s.missing + s.parseFailures + s.dimensionMismatches + s.prefilterRejects + s.structuralRejects +
    s.leafRejects + s.unchanged + s.matched

/-- Every verdict ends a candidate at exactly one stage. -/
theorem Stats.settled_addVerdicts_singleton (s : Stats) (v : Verdict) :
    (s.addVerdicts [v]).settled = s.settled + 1 := by
  cases v <;> simp [settled, addVerdicts, Verdict.isAccepted] <;> omega

namespace Engine

variable {e : Engine σ} {q : Query} {isCancelled : σ → Bool} {shortlist : List ℕ}

/-- A match repeats the text that the corpus has under its number. -/
theorem change?_of_match? {state : σ} {rank id : ℕ} {m : Match}
    (h : (e.judge q state id).1.match? e rank id = some m) :
    m.rank = rank ∧ m.id = id ∧ e.corpus.change? id = some m.change := by
  refine ⟨rank_of_match? h, ?_⟩
  unfold judge at h
  split at h
  · cases h
  rename_i text htext
  split at h
  · cases h
  split at h
  · cases h
  split_ifs at h
  · cases h
  · cases h
  -- Only the last stage accepts, and it accepts the text of the candidate.
  unfold judgeTokens at h
  dsimp only at h
  split at h
  · cases h
  split_ifs at h
  · cases h
  · obtain rfl := Option.some.inj h
    exact ⟨rfl, htext⟩

/-- The books of a search in front of position `rank` of its shortlist. -/
structure Ledger (e : Engine σ) (shortlist : List ℕ) (rank : ℕ) (p : Progress σ) : Prop where
  bounded : e.Bounded p
  shortlisted : p.stats.shortlisted = shortlist.length
  evaluated_add_cancelled : p.stats.evaluated + p.stats.cancelled = rank
  evaluated_eq : p.stats.evaluated = p.stats.settled
  length_found : p.found.length = p.stats.matched
  descending : p.found.Pairwise fun later earlier => earlier.rank < later.rank
  entries : ∀ m ∈ p.found, m.rank < rank ∧ shortlist[m.rank]? = some m.id ∧
    e.corpus.change? m.id = some m.change

/-- Nothing is counted before the first candidate. -/
theorem ledger_start (state : σ) : e.Ledger shortlist 0 (e.start state shortlist) where
  bounded := e.bounded_start state shortlist
  shortlisted := rfl
  evaluated_add_cancelled := rfl
  evaluated_eq := rfl
  length_found := rfl
  descending := List.Pairwise.nil
  entries := fun _ hm => absurd hm List.not_mem_nil

/-- **One candidate** is passed over, or it is judged and counted where it ends. -/
theorem ledger_step {rank id : ℕ} {p : Progress σ} (h : e.Ledger shortlist rank p)
    (hid : shortlist[rank]? = some id) :
    e.Ledger shortlist (rank + 1) (e.step q isCancelled p rank id) := by
  have hentries : ∀ m ∈ p.found, m.rank < rank + 1 ∧ shortlist[m.rank]? = some m.id ∧
      e.corpus.change? m.id = some m.change := fun m hm => by
    obtain ⟨hlt, hentry⟩ := h.entries m hm
    exact ⟨by omega, hentry⟩
  have hbounded : e.Bounded (e.step q isCancelled p rank id) := bounded_step h.bounded rank id
  by_cases hstopped : (isCancelled p.state || p.full) = true
  · rw [step_of_stopped hstopped] at hbounded ⊢
    have hsum := h.evaluated_add_cancelled
    exact
      { bounded := hbounded
        shortlisted := h.shortlisted
        evaluated_add_cancelled := by dsimp only; omega
        evaluated_eq := h.evaluated_eq
        length_found := h.length_found
        descending := h.descending
        entries := hentries }
  · obtain ⟨hcancelled, hfull⟩ : isCancelled p.state = false ∧ p.full = false := by
      simpa using hstopped
    rw [step_of_running h.bounded hcancelled hfull] at hbounded ⊢
    generalize hv : (e.judge q p.state id).1 = v at hbounded ⊢
    have hmatched := matched_addVerdicts_singleton (e := e) p.stats v rank id
    have hsettled := p.stats.settled_addVerdicts_singleton v
    have hevaluated : (p.stats.addVerdicts [v]).evaluated = p.stats.evaluated + 1 := rfl
    -- The new match stands at this position, and all matches before stand further ahead.
    have hnew : ∀ m ∈ (v.match? e rank id).toList, m.rank = rank ∧ m.id = id ∧
        e.corpus.change? id = some m.change := fun m hm =>
      change?_of_match? (hv ▸ Option.mem_toList.mp hm)
    refine
      { bounded := hbounded
        shortlisted := h.shortlisted
        evaluated_add_cancelled := ?_
        evaluated_eq := ?_
        length_found := ?_
        descending := ?_
        entries := ?_ }
    · have hsum := h.evaluated_add_cancelled
      show p.stats.evaluated + 1 + p.stats.cancelled = rank + 1
      omega
    · have heq := h.evaluated_eq
      dsimp only
      omega
    · have hlength := h.length_found
      rw [List.length_append]
      dsimp only
      omega
    · refine List.pairwise_append.mpr ⟨?_, h.descending, fun m hm earlier hearlier => ?_⟩
      · cases v.match? e rank id <;> simp
      · rw [(hnew m hm).1]
        exact (h.entries earlier hearlier).1
    · intro m hm
      rcases List.mem_append.mp hm with hm | hm
      · obtain ⟨hrank, hmid, hchange⟩ := hnew m hm
        exact ⟨by omega, by rw [hrank, hmid, hid], by rw [hmid, hchange]⟩
      · exact hentries m hm

/-- **A whole run** from position `rank` on, wherever it stops. -/
theorem ledger_runFrom (ids : List ℕ) : ∀ (rank : ℕ) (p : Progress σ),
    e.Ledger shortlist rank p → shortlist.drop rank = ids →
      e.Ledger shortlist (rank + ids.length) (e.runFrom q isCancelled rank p ids) := by
  induction ids with
  | nil => exact fun _ _ h _ => h
  | cons id ids ih =>
    -- The books after the first candidate are those that the rest of the run starts from.
    intro rank p h hdrop
    have hid : shortlist[rank]? = some id := by
      rw [← List.head?_drop, hdrop, List.head?_cons]
    have hrest : shortlist.drop (rank + 1) = ids := by
      rw [← List.tail_drop, hdrop, List.tail_cons]
    have hstep : e.Ledger shortlist (rank + 1) (e.step q isCancelled p rank id) :=
      ledger_step h hid
    have hrun := ih (rank + 1) _ hstep hrest
    rwa [List.length_cons, ← Nat.add_assoc, Nat.add_right_comm]

end Engine

/-- What the statistics and the matches of a search have to do with each other, with the shortlist
and with the corpus. -/
structure SearchResult.Accounts (e : Engine σ) (shortlist : List ℕ) (r : SearchResult) : Prop where
  shortlisted : r.stats.shortlisted = shortlist.length
  shortlisted_eq : r.stats.shortlisted = r.stats.evaluated + r.stats.cancelled
  evaluated_eq : r.stats.evaluated = r.stats.missing + r.stats.parseFailures +
    r.stats.dimensionMismatches + r.stats.prefilterRejects + r.stats.structuralRejects +
    r.stats.leafRejects + r.stats.unchanged + r.stats.matched
  length_found : r.found.length = r.stats.matched
  matched_le : ∀ most, e.settings.config.maxMatches? = some most → r.stats.matched ≤ most
  ascending : r.found.Pairwise fun earlier later => earlier.rank < later.rank
  rank_lt : ∀ m ∈ r.found, m.rank < r.stats.shortlisted
  id_eq : ∀ m ∈ r.found, shortlist[m.rank]? = some m.id
  change_eq : ∀ m ∈ r.found, e.corpus.change? m.id = some m.change
  /-- Listing the matches in the order of the candidates changes nothing. -/
  ordered_eq : (if e.settings.config.ordered then
    r.found.mergeSort (fun m m' => m.rank ≤ m'.rank) else r.found) = r.found

namespace Engine

/-- Matches with rising ranks are sorted. -/
theorem mergeSort_eq_of_ascending {found : List Match}
    (h : found.Pairwise fun earlier later => earlier.rank < later.rank) :
    found.mergeSort (fun m m' => m.rank ≤ m'.rank) = found := by
  refine List.mergeSort_of_pairwise (h.imp fun {m m'} hlt => ?_)
  exact decide_eq_true (Nat.le_of_lt hlt)

theorem accounts_run (e : Engine σ) (q : Query) (isCancelled : σ → Bool) (state : σ)
    (shortlist : List ℕ) : (e.run q isCancelled state shortlist).1.Accounts e shortlist := by
  have h : e.Ledger shortlist (0 + shortlist.length)
      (e.runFrom q isCancelled 0 (e.start state shortlist) shortlist) :=
    ledger_runFrom shortlist 0 _ (e.ledger_start state) shortlist.drop_zero
  rw [Nat.zero_add] at h
  have hascending := List.pairwise_reverse.mpr h.descending
  unfold run
  dsimp only
  exact
    { shortlisted := h.shortlisted
      shortlisted_eq := h.shortlisted.trans h.evaluated_add_cancelled.symm
      evaluated_eq := h.evaluated_eq
      length_found := by rw [List.length_reverse, h.length_found]
      matched_le := h.bounded.matched_le
      ascending := hascending
      rank_lt := fun m hm => by
        rw [h.shortlisted]
        exact (h.entries m (List.mem_reverse.mp hm)).1
      id_eq := fun m hm => (h.entries m (List.mem_reverse.mp hm)).2.1
      change_eq := fun m hm => (h.entries m (List.mem_reverse.mp hm)).2.2
      ordered_eq := by rw [mergeSort_eq_of_ascending hascending, ite_self] }

/-- **The account of a search**: every candidate that the index proposes is counted once, and every
match belongs to a candidate. -/
theorem searchQuery_accounts (e : Engine σ) (q : Query) (isCancelled : σ → Bool) (state : σ)
    {shortlist : List ℕ}
    (hshortlist : e.lookup q.fingerprint e.settings.config.topK = .ok shortlist) :
    ∃ result state', e.searchQuery q isCancelled state = (.ok result, state') ∧
      result.Accounts e shortlist := by
  refine ⟨(e.run q isCancelled state shortlist).1, (e.run q isCancelled state shortlist).2, ?_,
    e.accounts_run q isCancelled state shortlist⟩
  rw [searchQuery, hshortlist]

/-- What a check accepts is a query. -/
theorem exists_prepare_of_any {e : Engine σ} {text : String} {check : Query → Bool}
    (h : (e.prepare text).toOption.any check = true) :
    ∃ q, e.prepare text = .ok q ∧ check q = true := by
  cases hprepare : e.prepare text with
  | error cause => rw [hprepare] at h; cases h
  | ok q => rw [hprepare] at h; exact ⟨q, rfl, h⟩

/-- A search in which one candidate comes twice and one is not in the corpus, with a bound on the
matches and a check that counts its calls. -/
def sampleCounting : Engine ℕ where
  settings := { sample.settings with config := { minQueryNodes := 1, maxMatches? := some 3 } }
  parser := .java
  vocabulary := ⟨0, []⟩
  lookup := fun _ _ => .ok [1, 7, 0, 1]
  corpus := .ofChanges ["a = 1; -> a = 2;", "b = 1; -> b = 2;"]
  tokenCheck := fun calls query candidate =>
    (Alignment.aligns .default query candidate, calls + 1)

/-- The second call of the check stops the search. -/
theorem accounts_sampleCounting :
    ∃ q, sampleCounting.prepare "ID = 1; -> ID = 2;" = .ok q ∧
      sampleCounting.lookup q.fingerprint 1000 = .ok [1, 7, 0, 1] ∧
      ∃ result calls,
        sampleCounting.searchQuery q (fun calls => 2 ≤ calls) 0 = (.ok result, calls) ∧
        result.Accounts sampleCounting [1, 7, 0, 1] := by
  have hprepare : (sampleCounting.prepare "ID = 1; -> ID = 2;").toOption.any (fun _ => true) =
      true := by decide +kernel
  obtain ⟨q, hq, -⟩ := exists_prepare_of_any hprepare
  exact ⟨q, hq, rfl, searchQuery_accounts sampleCounting q _ 0 rfl⟩

end Engine

end ChangeQuery
