import ChangeQuery.Search.Engine
import Mathlib.Tactic.Common

/-!
## The run of a search

A search takes the candidates of a shortlist one after another.  A step either passes over the
candidate, because the search has stopped (`step_of_stopped`), or judges and counts it
(`step_of_running`).  So a run is known from the turns in which a candidate was judged, also if the
turns come in another order and each sees the cancellation in its own way (`exists_judged`).

With no bound on the matches and without cancellation, a search judges every candidate, whatever
became of the others.  A check of tokens without memory gives every candidate the same verdict at
every position, so `run_of_unstopped` tells the whole search by the list of verdicts.
-/

namespace ChangeQuery

variable {σ : Type}

/-- The check has no memory: it hands the state on and does not look at it. -/
def TokenCheck.Stateless (check : TokenCheck σ) : Prop :=
  ∃ answer : TokenSides → TokenSides → Bool,
    ∀ state query candidate, check state query candidate = (answer query candidate, state)

theorem TokenCheck.stateless_aligning (table : Placeholder.Table) :
    (aligning table : TokenCheck σ).Stateless :=
  ⟨Alignment.aligns table, fun _ _ _ => rfl⟩

/-! ### Counting verdicts -/

namespace Verdict

/-- The candidate matches. -/
def isAccepted : Verdict → Bool
  | accepted .. => true
  | _ => false

/-- The match that a verdict gives for the candidate at a position. -/
def match? (e : Engine σ) (rank id : ℕ) : Verdict → Option Match
  | accepted similarity text =>
    some ⟨id, rank, similarity, text, (e.corpus.info? id).bind CommitInfo.ofLine?⟩
  | _ => none

end Verdict

/-- The statistics with the verdicts of further candidates counted. -/
def Stats.addVerdicts (s : Stats) (verdicts : List Verdict) : Stats :=
  { s with
    evaluated := s.evaluated + verdicts.length
    missing := s.missing + verdicts.countP (· matches .missing)
    parseFailures := s.parseFailures + verdicts.countP (· matches .unparsable)
    dimensionMismatches := s.dimensionMismatches + verdicts.countP (· matches .dimensionMismatch)
    prefilterRejects := s.prefilterRejects + verdicts.countP (· matches .dissimilar)
    structuralRejects := s.structuralRejects + verdicts.countP (· matches .structureDiffers)
    leafRejects := s.leafRejects + verdicts.countP (· matches .tokensDiffer)
    unchanged := s.unchanged + verdicts.countP (· matches .unchanged)
    matched := s.matched + verdicts.countP Verdict.isAccepted }

theorem Stats.addVerdicts_append (s : Stats) (vs ws : List Verdict) :
    s.addVerdicts (vs ++ ws) = (s.addVerdicts vs).addVerdicts ws := by
  simp only [addVerdicts, List.length_append, List.countP_append, Nat.add_assoc]

/-- The turn of a candidate at a position of the shortlist, with the sign that the search is
cancelled as it is seen at that time. -/
structure Turn (σ : Type) where
  id : ℕ
  rank : ℕ
  isCancelled : σ → Bool

namespace Engine

/-! ### The run -/

/-- Nothing makes the search stop before the end. -/
structure Unstopped (e : Engine σ) (isCancelled : σ → Bool) (state : σ) : Prop where
  uncapped : e.settings.config.maxMatches? = none
  running : isCancelled state = false
  stateless : e.tokenCheck.Stateless

variable {e : Engine σ} {q : Query} {isCancelled : σ → Bool} {state : σ}

/-- The last stages with a check without memory. -/
theorem judgeTokens_of_stateless {answer : TokenSides → TokenSides → Bool}
    (hanswer : ∀ state query candidate,
      e.tokenCheck state query candidate = (answer query candidate, state))
    (text : String) (candidate : Change) (similarity : Float) :
    e.judgeTokens q state text candidate similarity =
      let tokens := TokenSides.ofTree candidate.tree e.settings.config.delimiter
      (if answer q.tokens tokens = false then .tokensDiffer
        else if e.settings.config.skipUnchanged && tokens.unchanged then .unchanged
        else .accepted similarity text, state) := by
  unfold judgeTokens
  dsimp only
  rw [hanswer]
  cases answer q.tokens (TokenSides.ofTree candidate.tree e.settings.config.delimiter) with
  | false => rfl
  | true =>
    simp only [Bool.true_eq_false, if_false]
    split_ifs <;> rfl

/-- A check without memory leaves the state as it was. -/
theorem judge_snd (h : e.tokenCheck.Stateless) (id : ℕ) : (e.judge q state id).2 = state := by
  obtain ⟨answer, hanswer⟩ := h
  unfold judge
  split
  · rfl
  · split
    · rfl
    · split
      · rfl
      · split_ifs
        · rfl
        · rfl
        · rw [judgeTokens_of_stateless hanswer]

/-! ### One step -/

/-- The flag says whether as many matches as allowed were found, and no more were found. -/
structure Bounded (e : Engine σ) (p : Progress σ) : Prop where
  full_eq : p.full = (e.settings.config.maxMatches? == some p.stats.matched)
  matched_le : ∀ most, e.settings.config.maxMatches? = some most → p.stats.matched ≤ most

/-- A search that has stopped counts the candidate and does nothing else. -/
theorem step_of_stopped {p : Progress σ} (h : (isCancelled p.state || p.full) = true)
    (rank id : ℕ) :
    e.step q isCancelled p rank id =
      { p with stats := { p.stats with cancelled := p.stats.cancelled + 1 } } := by
  rw [step, if_pos h]

/-- **One step** of a search that goes on: the verdict is counted, a match is added, and the flag is
raised when the bound is reached. -/
theorem step_of_running {p : Progress σ} (hp : e.Bounded p)
    (hcancelled : isCancelled p.state = false) (hfull : p.full = false) (rank id : ℕ) :
    e.step q isCancelled p rank id =
      { state := (e.judge q p.state id).2
        stats := p.stats.addVerdicts [(e.judge q p.state id).1]
        found := ((e.judge q p.state id).1.match? e rank id).toList ++ p.found
        full := e.settings.config.maxMatches? ==
          some (p.stats.addVerdicts [(e.judge q p.state id).1]).matched } := by
  have hbound : (e.settings.config.maxMatches? == some p.stats.matched) = false := by
    rw [← hp.full_eq, hfull]
  have hgo : ¬ (isCancelled p.state || p.full) = true := by simp [hcancelled, hfull]
  rw [step, if_neg hgo]
  cases hjudge : e.judge q p.state id with
  | mk verdict state' =>
    cases verdict with
    | accepted similarity text =>
      cases hmost : e.settings.config.maxMatches? with
      | none =>
        simp [take, hmost, hfull, Stats.addVerdicts, Verdict.match?, Verdict.isAccepted]
      | some most =>
        -- The flag is down, so there is room for one more match.
        have hlt : p.stats.matched < most := by
          have hle := hp.matched_le most hmost
          have hne : most ≠ p.stats.matched := by simpa [hmost] using hbound
          omega
        simp [take, hmost, hfull, hlt, Stats.addVerdicts, Verdict.match?, Verdict.isAccepted,
          Bool.beq_eq_decide_eq, eq_comm]
    | _ =>
      simp [Stats.addVerdicts, Stats.count, Verdict.match?, Verdict.isAccepted, hfull, hbound]

/-- A verdict adds a match exactly when it counts one. -/
theorem matched_addVerdicts_singleton (s : Stats) (v : Verdict) (rank id : ℕ) :
    (s.addVerdicts [v]).matched = s.matched + (v.match? e rank id).toList.length := by
  cases v <;> simp [Stats.addVerdicts, Verdict.match?, Verdict.isAccepted]

/-- No step passes the bound on the matches. -/
theorem bounded_step {p : Progress σ} (hp : e.Bounded p) (rank id : ℕ) :
    e.Bounded (e.step q isCancelled p rank id) := by
  by_cases hstopped : (isCancelled p.state || p.full) = true
  · rw [step_of_stopped hstopped]
    exact ⟨hp.full_eq, hp.matched_le⟩
  · obtain ⟨hcancelled, hfull⟩ : isCancelled p.state = false ∧ p.full = false := by
      simpa using hstopped
    rw [step_of_running hp hcancelled hfull]
    refine ⟨rfl, fun most hmost => ?_⟩
    -- The flag was down, so the bound was not reached, and at most one match is added.
    have hle := hp.matched_le most hmost
    have hne : most ≠ p.stats.matched := by
      have hflag := hp.full_eq
      rw [hfull, hmost] at hflag
      simpa using hflag.symm
    have hmatched := matched_addVerdicts_singleton (e := e) p.stats (e.judge q p.state id).1 rank id
    have hone : ((e.judge q p.state id).1.match? e rank id).toList.length ≤ 1 := by
      cases (e.judge q p.state id).1.match? e rank id <;> simp
    dsimp only
    omega

/-- Nothing was found before the first candidate, and nothing may be found if the bound is 0. -/
theorem bounded_start (e : Engine σ) (state : σ) (shortlist : List ℕ) :
    e.Bounded (e.start state shortlist) :=
  ⟨rfl, fun most _ => Nat.zero_le most⟩

/-! ### Any turns -/

/-- Takes candidates in any order, each in its turn. -/
def runShared (e : Engine σ) (q : Query) (p : Progress σ) (turns : List (Turn σ)) : Progress σ :=
  turns.foldl (fun p turn => e.step q turn.isCancelled p turn.rank turn.id) p

/-- The verdict on a candidate whose turn came in a state. -/
def verdictAt (e : Engine σ) (q : Query) (judged : σ × Turn σ) : Verdict :=
  (e.judge q judged.1 judged.2.id).1

/-- The match of the verdict, if it accepts the candidate. -/
def matchAt? (e : Engine σ) (q : Query) (judged : σ × Turn σ) : Option Match :=
  (e.verdictAt q judged).match? e judged.2.rank judged.2.id

/-- **A run is known from the turns that were judged**: some of them in their order, each in the
state that the search had then.  The others were passed over. -/
theorem exists_judged (turns : List (Turn σ)) : ∀ {p : Progress σ}, e.Bounded p →
    ∃ judged : List (σ × Turn σ), (judged.map Prod.snd).Sublist turns ∧
      (e.runShared q p turns).stats =
        { p.stats.addVerdicts (judged.map (e.verdictAt q)) with
          cancelled := p.stats.cancelled + (turns.length - judged.length) } ∧
      (e.runShared q p turns).found = (judged.filterMap (e.matchAt? q)).reverse ++ p.found := by
  induction turns with
  | nil => exact fun _ => ⟨[], List.Sublist.slnil, rfl, rfl⟩
  | cons turn turns ih =>
    intro p hp
    have hbounded : e.Bounded (e.step q turn.isCancelled p turn.rank turn.id) :=
      bounded_step hp turn.rank turn.id
    obtain ⟨judged, hsublist, hstats, hfound⟩ := ih hbounded
    have hlength : judged.length ≤ turns.length := by
      simpa using hsublist.length_le
    have hrun : e.runShared q p (turn :: turns) =
        e.runShared q (e.step q turn.isCancelled p turn.rank turn.id) turns := rfl
    rw [hrun, hstats, hfound]
    by_cases hstopped : (turn.isCancelled p.state || p.full) = true
    · -- The turn is passed over.
      refine ⟨judged, hsublist.cons turn, ?_, ?_⟩
      · rw [step_of_stopped hstopped, List.length_cons, Nat.succ_sub hlength]
        simp only [Stats.addVerdicts, Nat.add_assoc, Nat.add_comm 1]
      · rw [step_of_stopped hstopped]
    · obtain ⟨hcancelled, hfull⟩ : turn.isCancelled p.state = false ∧ p.full = false := by
        simpa using hstopped
      refine ⟨(p.state, turn) :: judged, hsublist.cons_cons turn, ?_, ?_⟩
      · have hverdicts : p.stats.addVerdicts (((p.state, turn) :: judged).map (e.verdictAt q)) =
            (p.stats.addVerdicts [e.verdictAt q (p.state, turn)]).addVerdicts
              (judged.map (e.verdictAt q)) := p.stats.addVerdicts_append [_] _
        rw [step_of_running hp hcancelled hfull, hverdicts, List.length_cons, List.length_cons,
          Nat.add_sub_add_right]
        rfl
      · rw [step_of_running hp hcancelled hfull, List.filterMap_cons, matchAt?, verdictAt]
        cases (e.judge q p.state turn.id).1.match? e turn.rank turn.id with
        | none => rfl
        | some m =>
          dsimp only
          rw [List.reverse_cons, List.append_assoc]
          rfl

/-- What no verdict is, none of those in a run is. -/
theorem countP_verdictAt_eq_zero {given : Verdict → Bool}
    (h : ∀ state id, given (e.judge q state id).1 = false) (judged : List (σ × Turn σ)) :
    (judged.map (e.verdictAt q)).countP given = 0 := by
  refine List.countP_eq_zero.mpr fun v hv => ?_
  obtain ⟨j, -, rfl⟩ := List.mem_map.mp hv
  exact Bool.eq_false_iff.mp (h j.1 j.2.id)

/-- A run of verdicts that hand the state on keeps it. -/
theorem state_runShared (h : ∀ state id, (e.judge q state id).2 = state) (turns : List (Turn σ)) :
    ∀ {p : Progress σ}, e.Bounded p → (e.runShared q p turns).state = p.state := by
  induction turns with
  | nil => exact fun _ => rfl
  | cons turn turns ih =>
    intro p hp
    have hstep : (e.step q turn.isCancelled p turn.rank turn.id).state = p.state := by
      by_cases hstopped : (turn.isCancelled p.state || p.full) = true
      · rw [step_of_stopped hstopped]
      · obtain ⟨hcancelled, hfull⟩ : turn.isCancelled p.state = false ∧ p.full = false := by
          simpa using hstopped
        rw [step_of_running hp hcancelled hfull]
        exact h p.state turn.id
    exact (ih (bounded_step hp turn.rank turn.id)).trans hstep

/-- Turns of candidates at positions, all with the same sign. -/
def turnsWith (isCancelled : σ → Bool) (turns : List (ℕ × ℕ)) : List (Turn σ) :=
  turns.map fun turn => ⟨turn.1, turn.2, isCancelled⟩

/-- The turns of a shortlist from position `rank` on, in order and all with the same sign. -/
def turnsFrom (isCancelled : σ → Bool) (rank : ℕ) (ids : List ℕ) : List (Turn σ) :=
  turnsWith isCancelled (ids.zipIdx rank)

/-- A search takes the candidates of its shortlist in order. -/
theorem runFrom_eq_runShared (ids : List ℕ) : ∀ (rank : ℕ) (p : Progress σ),
    e.runFrom q isCancelled rank p ids =
      e.runShared q p (turnsFrom isCancelled rank ids) := by
  induction ids with
  | nil => exact fun _ _ => rfl
  | cons id ids ih => exact fun rank p => ih (rank + 1) _

theorem length_turnsFrom (rank : ℕ) (ids : List ℕ) :
    (turnsFrom isCancelled rank ids).length = ids.length := by
  rw [turnsFrom, turnsWith, List.length_map, List.length_zipIdx]

theorem map_id_turnsFrom (rank : ℕ) (ids : List ℕ) :
    (turnsFrom isCancelled rank ids).map Turn.id = ids := by
  rw [turnsFrom, turnsWith, List.map_map]
  exact List.zipIdx_map_fst rank ids

/-! ### Runs that nothing stops -/

/-- One step of a search that nothing stops. -/
theorem step_of_unstopped (h : Unstopped e isCancelled state) {p : Progress σ}
    (hstate : p.state = state) (hfull : p.full = false) (rank id : ℕ) :
    e.step q isCancelled p rank id =
      { p with
        stats := p.stats.addVerdicts [(e.judge q state id).1]
        found := (((e.judge q state id).1.match? e rank id).toList) ++ p.found } := by
  have hp : e.Bounded p :=
    ⟨by rw [h.uncapped, hfull]; rfl, fun most hmost => by rw [h.uncapped] at hmost; cases hmost⟩
  rw [step_of_running hp (hstate ▸ h.running) hfull, hstate, judge_snd h.stateless, h.uncapped,
    ← hstate]
  simp [hfull]

/-- **A run that nothing stops** judges every turn, in the state of its start. -/
theorem runShared_of_unstopped {turns : List (Turn σ)}
    (h : ∀ turn ∈ turns, Unstopped e turn.isCancelled state) :
    ∀ p : Progress σ, p.state = state → p.full = false →
      e.runShared q p turns =
        { p with
          stats := p.stats.addVerdicts (turns.map fun turn => e.verdictAt q (state, turn))
          found := (turns.filterMap fun turn => e.matchAt? q (state, turn)).reverse ++ p.found } := by
  -- The state and the flag stay as they are, so each step starts like the one before.
  induction turns with
  | nil => exact fun _ _ _ => rfl
  | cons turn turns ih =>
    intro p hstate hfull
    obtain ⟨hturn, hturns⟩ := List.forall_mem_cons.mp h
    have hstats : p.stats.addVerdicts
          ((turn :: turns).map fun turn => e.verdictAt q (state, turn)) =
        (p.stats.addVerdicts [e.verdictAt q (state, turn)]).addVerdicts
          (turns.map fun turn => e.verdictAt q (state, turn)) :=
      p.stats.addVerdicts_append [_] _
    rw [runShared, List.foldl_cons, step_of_unstopped hturn hstate hfull]
    refine (ih hturns _ (by exact hstate) (by exact hfull)).trans ?_
    rw [hstats, List.filterMap_cons, matchAt?, verdictAt]
    cases (e.judge q state turn.id).1.match? e turn.rank turn.id with
    | none => rfl
    | some m =>
      dsimp only
      rw [List.reverse_cons, List.append_assoc]
      rfl

/-- Judges candidates one after another, each with the position that it has in the shortlist. -/
def runTurns (e : Engine σ) (q : Query) (isCancelled : σ → Bool) (p : Progress σ)
    (turns : List (ℕ × ℕ)) : Progress σ :=
  e.runShared q p (turnsWith isCancelled turns)

/-- The match of the candidate whose turn it is. -/
def matchOf? (e : Engine σ) (q : Query) (state : σ) (turn : ℕ × ℕ) : Option Match :=
  (e.judge q state turn.1).1.match? e turn.2 turn.1

/-- The run over any turns with the same sign. -/
theorem runTurns_of_unstopped (h : Unstopped e isCancelled state) (turns : List (ℕ × ℕ))
    (p : Progress σ) (hstate : p.state = state) (hfull : p.full = false) :
    e.runTurns q isCancelled p turns =
      { p with
        stats := p.stats.addVerdicts (turns.map fun turn => (e.judge q state turn.1).1)
        found := (turns.filterMap (e.matchOf? q state)).reverse ++ p.found } := by
  have hturns : ∀ turn ∈ turnsWith isCancelled turns, Unstopped e turn.isCancelled state := by
    intro turn hturn
    obtain ⟨_, -, rfl⟩ := List.mem_map.mp hturn
    exact h
  rw [runTurns, runShared_of_unstopped hturns p hstate hfull, turnsWith, List.map_map,
    List.filterMap_map]
  rfl

/-- The matches of a list of verdicts on candidates from position `rank` on. -/
def matchesFrom (e : Engine σ) (q : Query) (state : σ) (rank : ℕ) : List ℕ → List Match
  | [] => []
  | id :: ids =>
    ((e.judge q state id).1.match? e rank id).toList ++ matchesFrom e q state (rank + 1) ids

theorem matchesFrom_eq_filterMap (ids : List ℕ) : ∀ rank : ℕ,
    matchesFrom e q state rank ids = (ids.zipIdx rank).filterMap (e.matchOf? q state) := by
  induction ids with
  | nil => exact fun _ => rfl
  | cons id ids ih =>
    intro rank
    rw [matchesFrom, ih, List.zipIdx_cons, List.filterMap_cons, matchOf?]
    cases (e.judge q state id).1.match? e rank id <;> rfl

/-- The run from any position on. -/
theorem runFrom_of_unstopped (h : Unstopped e isCancelled state) (ids : List ℕ) (rank : ℕ)
    (p : Progress σ) (hstate : p.state = state) (hfull : p.full = false) :
    e.runFrom q isCancelled rank p ids =
      { p with
        stats := p.stats.addVerdicts (ids.map fun id => (e.judge q state id).1)
        found := (matchesFrom e q state rank ids).reverse ++ p.found } := by
  have hids : ((ids.zipIdx rank).map fun turn => (e.judge q state turn.1).1) =
      ids.map fun id => (e.judge q state id).1 := by
    show (ids.zipIdx rank).map ((fun id => (e.judge q state id).1) ∘ Prod.fst) = _
    rw [← List.map_map, List.zipIdx_map_fst]
  rw [runFrom_eq_runShared, turnsFrom, ← runTurns, runTurns_of_unstopped h _ p hstate hfull, hids,
    matchesFrom_eq_filterMap]

theorem Unstopped.full_start (h : Unstopped e isCancelled state) (shortlist : List ℕ) :
    (e.start state shortlist).full = false := by
  rw [start, h.uncapped]
  rfl

/-- **The whole search**: all candidates are judged and counted, and the matches come in the order
of the shortlist. -/
theorem run_of_unstopped (h : Unstopped e isCancelled state) (shortlist : List ℕ) :
    e.run q isCancelled state shortlist =
      (⟨matchesFrom e q state 0 shortlist,
        ({ shortlisted := shortlist.length } : Stats).addVerdicts
          (shortlist.map fun id => (e.judge q state id).1)⟩, state) := by
  rw [run, runFrom_of_unstopped h shortlist 0 _ rfl (h.full_start shortlist)]
  simp [start]

/-- A match belongs to a position, and is the match of the verdict on the candidate there. -/
theorem mem_matchesFrom_iff {m : Match} {ids : List ℕ} :
    ∀ {rank : ℕ}, m ∈ matchesFrom e q state rank ids ↔
      ∃ i id, ids[i]? = some id ∧ (e.judge q state id).1.match? e (rank + i) id = some m := by
  induction ids with
  | nil => simp [matchesFrom]
  | cons id ids ih =>
    intro rank
    rw [matchesFrom, List.mem_append, Option.mem_toList, ih]
    constructor
    · rintro (hhead | ⟨i, id', hid', hm⟩)
      · exact ⟨0, id, rfl, hhead⟩
      · exact ⟨i + 1, id', hid', by rw [← hm, Nat.add_assoc, Nat.add_comm 1]⟩
    · rintro ⟨i, id', hid', hm⟩
      cases i with
      | zero =>
        obtain rfl := Option.some.inj hid'
        exact .inl hm
      | succ i => exact .inr ⟨i, id', hid', by rw [← hm, Nat.add_assoc, Nat.add_comm 1]⟩

/-- The match of a verdict stands at the position of the candidate. -/
theorem rank_of_match? {v : Verdict} {rank id : ℕ} {m : Match}
    (h : v.match? e rank id = some m) : m.rank = rank := by
  cases v with
  | accepted similarity text =>
    obtain rfl := Option.some.inj h
    rfl
  | _ => cases h

/-- The matches at a position are those of the verdict on the candidate there. -/
theorem mem_matchesFrom_at {m : Match} {ids : List ℕ} {rank id : ℕ}
    (hid : ids[rank]? = some id) :
    m ∈ matchesFrom e q state 0 ids ∧ m.rank = rank ↔
      (e.judge q state id).1.match? e rank id = some m := by
  rw [mem_matchesFrom_iff]
  constructor
  · rintro ⟨⟨i, id', hid', hm⟩, hrank⟩
    have hi : i = rank := by
      rw [← hrank, rank_of_match? hm, Nat.zero_add]
    subst hi
    obtain rfl := Option.some.inj (hid'.symm.trans hid)
    rw [← hm, Nat.zero_add]
  · intro hm
    exact ⟨⟨rank, id, hid, by rw [← hm, Nat.zero_add]⟩, rank_of_match? hm⟩

end Engine

end ChangeQuery
