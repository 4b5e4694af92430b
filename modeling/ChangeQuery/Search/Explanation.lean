import ChangeQuery.Search.Engine

/-!
## Explaining a candidate

An `Explanation` shows what each stage of a search says about one candidate.  The comparison of trees
is carried out even if the candidate is not similar enough; tokens are checked only if it succeeds.
-/

namespace ChangeQuery

/-- What each stage says about a candidate. -/
structure Explanation where
  similarity : Float
  passesPrefilter : Bool
  structural : Bool
  /-- The check of tokens, if it took place. -/
  leaves? : Option Bool
  trace : Trace
  report : String

/-- Every stage accepts the candidate.  Whether it changes anything is not asked. -/
def Explanation.isMatch (x : Explanation) : Bool :=
  x.passesPrefilter && x.structural && x.leaves? == some true

namespace Engine

variable {σ : Type}

/-- Explains a candidate that was parsed. -/
def explainChange (e : Engine σ) (q : Query) (state : σ) (candidate : Change) (similarity : Float) :
    Explanation × σ :=
  let (structural, trace) := Comparison.compareChanges e.settings.table q.change candidate {}
  let (leaves?, state) : Option Bool × σ :=
    if structural then
      let tokens := TokenSides.ofTree candidate.tree e.settings.config.delimiter
      let (answer, state) := e.tokenCheck state q.tokens tokens
      (some answer, state)
    else (none, state)
  ({ similarity
     passesPrefilter := similarity ≥ e.settings.config.similarityThreshold
     structural
     leaves?
     trace
     report := trace.report q.change.tree candidate.tree }, state)

/-- Explains a candidate of the corpus for a query text. -/
def explain (e : Engine σ) (text : String) (id : Nat) (state : σ) :
    Except SearchError Explanation × σ :=
  match e.prepare text with
  | .error cause => (.error cause, state)
  | .ok q =>
    match e.corpus.change? id with
    | none => (.error (.missingCandidate id), state)
    | some text =>
      match e.parseCandidate q text with
      | .error cause => (.error (.candidateParse id cause), state)
      | .ok candidate =>
        match e.similarity q candidate with
        | .error cause => (.error (.dimension cause), state)
        | .ok similarity =>
          let (explanation, state) := e.explainChange q state candidate similarity
          (.ok explanation, state)

end Engine

end ChangeQuery
