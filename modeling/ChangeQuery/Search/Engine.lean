import ChangeQuery.Alignment
import ChangeQuery.Comparison
import ChangeQuery.Corpus.CommitInfo
import ChangeQuery.Corpus.Features
import ChangeQuery.Similarity

/-!
## Searching a corpus

An `Engine` holds a corpus, an index over it, a parser and checked settings.  A query text is turned
into a `Query` once; then the index proposes candidates, and each of them goes through the same
stages: it must be in the corpus, parse, be similar enough, match the query node by node and token by
token, and, if so configured, change something.  `Verdict` names the stage at which a candidate left.

The check of tokens may keep a state of type `σ`, for instance to count its calls.  A search reads
from that state whether it was told to stop.

* `Engine.judge` takes one candidate through the stages.
* `Engine.run` takes the candidates of a shortlist one after another and counts the verdicts.
-/

namespace ChangeQuery

/-- Why a search did not take place. -/
inductive SearchError where
  /-- The query is not a change. -/
  | queryParse (cause : ParseError)
  /-- The query has too few nodes. -/
  | tooSmallQuery (nodes least : Nat)
  /-- The index gave no candidates. -/
  | index (cause : IndexError)
  /-- Fingerprints of different lengths were compared. -/
  | dimension (cause : Similarity.DimensionMismatch)
  /-- The candidate is not in the corpus. -/
  | missingCandidate (id : Nat)
  /-- The candidate is not a change. -/
  | candidateParse (id : Nat) (cause : ParseError)

/-- The wording of the cause, unless it rests on one without a wording. -/
def SearchError.message? : SearchError → Option String
  | queryParse cause => cause.message?.map fun message => "query rejected: " ++ message
  | tooSmallQuery nodes least =>
    some s!"query rejected: {nodes} nodes is below the minimum of {least}"
  | index cause => some ("candidate lookup failed: " ++ cause.message)
  | dimension cause => some cause.message
  | missingCandidate id => some s!"candidate {id} is not in the corpus"
  | candidateParse id cause =>
    cause.message?.map fun message => s!"candidate {id} failed to parse: " ++ message

/-- A query that was parsed and found large enough. -/
structure Query where
  change : Change
  fingerprint : FeatureVector
  tokens : TokenSides
  /-- The vocabulary that the query was parsed over, with the names of the query in it. -/
  vocabulary : Vocabulary

/-- A candidate that matches. -/
structure Match where
  id : Nat
  /-- The position in the shortlist. -/
  rank : Nat
  similarity : Float
  change : String
  info? : Option CommitInfo

/-- Where the candidates of a search ended up. -/
structure Stats where
  shortlisted : Nat := 0
  evaluated : Nat := 0
  missing : Nat := 0
  parseFailures : Nat := 0
  dimensionMismatches : Nat := 0
  prefilterRejects : Nat := 0
  structuralRejects : Nat := 0
  leafRejects : Nat := 0
  unchanged : Nat := 0
  matched : Nat := 0
  /-- Candidates that were not looked at because the search had stopped. -/
  cancelled : Nat := 0
  deriving DecidableEq, Repr

/-- The matches of a search, and where the other candidates went. -/
structure SearchResult where
  found : List Match
  stats : Stats

/-- The stage at which a candidate left, or what is known of it at the end. -/
inductive Verdict where
  | missing
  | unparsable
  | dimensionMismatch
  | dissimilar
  | structureDiffers
  | tokensDiffer
  | unchanged
  | accepted (similarity : Float) (text : String)

/-- A check of the tokens of a query and a candidate.  It may change a state. -/
abbrev TokenCheck (σ : Type) := σ → TokenSides → TokenSides → Bool × σ

/-- What a search works with. -/
structure Engine (σ : Type) where
  settings : Settings
  parser : Parser
  /-- The vocabulary of the trees that the parser made before. -/
  vocabulary : Vocabulary
  /-- The numbers of the candidates nearest to a fingerprint, at most as many as asked for. -/
  lookup : FeatureVector → Nat → Except IndexError (List Nat)
  corpus : Corpus
  tokenCheck : TokenCheck σ

/-- The alignment of tokens as a check without state. -/
def TokenCheck.aligning {σ : Type} (table : Placeholder.Table) : TokenCheck σ :=
  fun state query candidate => (Alignment.aligns table query candidate, state)

/-- The literal comparison of tokens as a check without state. -/
def TokenCheck.repeating {σ : Type} : TokenCheck σ :=
  fun state query candidate => (Alignment.repeats query candidate, state)

namespace Engine

variable {σ : Type}

/-- Checks a configuration and that the parser fits it. -/
def checkedSettings (config : Config) (p : Parser) : Except ConfigError Settings := do
  let settings ← config.settings
  config.checkParser p
  return settings

/-- Parses a query and checks its size. -/
def prepare (e : Engine σ) (text : String) : Except SearchError Query :=
  let config := e.settings.config
  match e.parser.change e.vocabulary text config.delimiter with
  | .error cause => .error (.queryParse cause)
  | .ok (vocabulary, change) =>
    if change.tree.size < config.minQueryNodes then
      .error (.tooSmallQuery change.tree.size config.minQueryNodes)
    else
      .ok
        { change
          fingerprint := Fingerprint.ofChange e.settings.buckets change
          tokens := TokenSides.ofTree change.tree config.delimiter
          vocabulary }

/-- The vocabulary that candidates are parsed over: that of the query if it belongs to the same
parser, and else the engine's own. -/
def candidateVocabulary (e : Engine σ) (q : Query) : Vocabulary :=
  if q.vocabulary.owner = e.vocabulary.owner then q.vocabulary else e.vocabulary

/-- Parses a candidate for a query. -/
def parseCandidate (e : Engine σ) (q : Query) (text : String) : Except ParseError Change :=
  (e.parser.change (e.candidateVocabulary q) text e.settings.config.delimiter).map Prod.snd

/-- The similarity of a query and a candidate. -/
def similarity (e : Engine σ) (q : Query) (candidate : Change) :
    Except Similarity.DimensionMismatch Float :=
  Similarity.cosine q.fingerprint (Fingerprint.ofChange e.settings.buckets candidate)

/-- The last stages, on tokens: the check, and whether the candidate changes anything. -/
def judgeTokens (e : Engine σ) (q : Query) (state : σ) (text : String) (candidate : Change)
    (similarity : Float) : Verdict × σ :=
  let tokens := TokenSides.ofTree candidate.tree e.settings.config.delimiter
  match e.tokenCheck state q.tokens tokens with
  | (false, state) => (.tokensDiffer, state)
  | (true, state) =>
    if e.settings.config.skipUnchanged && tokens.unchanged then (.unchanged, state)
    else (.accepted similarity text, state)

/-- Takes one candidate through the stages. -/
def judge (e : Engine σ) (q : Query) (state : σ) (id : Nat) : Verdict × σ :=
  match e.corpus.change? id with
  | none => (.missing, state)
  | some text =>
    match e.parseCandidate q text with
    | .error _ => (.unparsable, state)
    | .ok candidate =>
      match e.similarity q candidate with
      | .error _ => (.dimensionMismatch, state)
      | .ok similarity =>
        if similarity < e.settings.config.similarityThreshold then (.dissimilar, state)
        else if !Comparison.changesMatch e.settings.table q.change candidate then
          (.structureDiffers, state)
        else e.judgeTokens q state text candidate similarity

end Engine

/-- Counts a verdict.  A match is counted when it is taken. -/
def Stats.count (s : Stats) : Verdict → Stats
  | .missing => { s with missing := s.missing + 1 }
  | .unparsable => { s with parseFailures := s.parseFailures + 1 }
  | .dimensionMismatch => { s with dimensionMismatches := s.dimensionMismatches + 1 }
  | .dissimilar => { s with prefilterRejects := s.prefilterRejects + 1 }
  | .structureDiffers => { s with structuralRejects := s.structuralRejects + 1 }
  | .tokensDiffer => { s with leafRejects := s.leafRejects + 1 }
  | .unchanged => { s with unchanged := s.unchanged + 1 }
  | .accepted .. => s

/-- The state of a search between two candidates. -/
structure Progress (σ : Type) where
  state : σ
  stats : Stats
  /-- The matches so far, the latest first. -/
  found : List Match := []
  /-- As many matches as allowed were found. -/
  full : Bool

namespace Engine

variable {σ : Type}

/-- Takes a match, unless as many as allowed were taken. -/
def take (e : Engine σ) (p : Progress σ) (m : Match) : Progress σ :=
  match e.settings.config.maxMatches? with
  | none =>
    { p with stats := { p.stats with matched := p.stats.matched + 1 }, found := m :: p.found }
  | some most =>
    if p.stats.matched < most then
      { p with
        stats := { p.stats with matched := p.stats.matched + 1 }
        found := m :: p.found
        full := p.full || p.stats.matched + 1 == most }
    else { p with full := true }

/-- Judges the candidate at a position of the shortlist, unless the search has stopped. -/
def step (e : Engine σ) (q : Query) (isCancelled : σ → Bool) (p : Progress σ) (rank id : Nat) :
    Progress σ :=
  if isCancelled p.state || p.full then
    { p with stats := { p.stats with cancelled := p.stats.cancelled + 1 } }
  else
    let stats := { p.stats with evaluated := p.stats.evaluated + 1 }
    match e.judge q p.state id with
    | (.accepted similarity text, state) =>
      e.take { p with state, stats }
        ⟨id, rank, similarity, text, (e.corpus.info? id).bind CommitInfo.ofLine?⟩
    | (verdict, state) => { p with state, stats := stats.count verdict }

/-- Judges the candidates from position `rank` on. -/
def runFrom (e : Engine σ) (q : Query) (isCancelled : σ → Bool) (rank : Nat) (p : Progress σ) :
    List Nat → Progress σ
  | [] => p
  | id :: ids => e.runFrom q isCancelled (rank + 1) (e.step q isCancelled p rank id) ids

/-- The state before the first candidate of a shortlist. -/
def start (e : Engine σ) (state : σ) (shortlist : List Nat) : Progress σ where
  state := state
  stats := { shortlisted := shortlist.length }
  full := e.settings.config.maxMatches? == some 0

/-- Judges all candidates of a shortlist.  They are taken in order, so the matches are in the order
of the shortlist. -/
def run (e : Engine σ) (q : Query) (isCancelled : σ → Bool) (state : σ) (shortlist : List Nat) :
    SearchResult × σ :=
  let p := e.runFrom q isCancelled 0 (e.start state shortlist) shortlist
  (⟨p.found.reverse, p.stats⟩, p.state)

/-- Searches with a query that is ready. -/
def searchQuery (e : Engine σ) (q : Query) (isCancelled : σ → Bool) (state : σ) :
    Except SearchError SearchResult × σ :=
  match e.lookup q.fingerprint e.settings.config.topK with
  | .error cause => (.error (.index cause), state)
  | .ok shortlist =>
    let (result, state) := e.run q isCancelled state shortlist
    (.ok result, state)

/-- Searches with a query text. -/
def search (e : Engine σ) (text : String) (isCancelled : σ → Bool) (state : σ) :
    Except SearchError SearchResult × σ :=
  match e.prepare text with
  | .error cause => (.error cause, state)
  | .ok q => e.searchQuery q isCancelled state

end Engine

end ChangeQuery
