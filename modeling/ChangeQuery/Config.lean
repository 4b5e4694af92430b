import ChangeQuery.Decimal.Style
import ChangeQuery.Fingerprint.Basic
import ChangeQuery.Parser
import ChangeQuery.Placeholder.Table

/-!
## Configuration

Everything about a search that can be chosen, with defaults.  `Config.settings` checks a
configuration and builds what a search needs from it, so that no setting is found wrong later.  Of
several faults, the first in the order of the checks is reported: placeholders, buckets, threshold,
number of candidates, delimiter.
-/

namespace ChangeQuery

/-- What can be chosen. -/
structure Config where
  placeholderNames : List String := Placeholder.Names.default.toList
  placeholderRules : Placeholder.RuleBook := .default
  /-- The construct that the marker of an empty side stands for. -/
  emptyLabel : String := Placeholder.defaultEmptyLabel
  /-- The number of buckets per histogram. -/
  buckets : Nat := 128
  /-- The least similarity of a candidate that is compared in depth. -/
  similarityThreshold : Float := 0.8
  /-- How many candidates the index is asked for. -/
  topK : Nat := 1000
  /-- Queries with fewer nodes are refused. -/
  minQueryNodes : Nat := 5
  /-- A search stops after so many matches. -/
  maxMatches? : Option Nat := none
  /-- The number of workers; 0 for one per processor. -/
  workers : Nat := 0
  /-- Matches are listed in the order of the candidates. -/
  ordered : Bool := true
  /-- Candidates with the same tokens on both sides are left out. -/
  skipUnchanged : Bool := true
  /-- Longer changes are not entered into an index. -/
  maxChangeChars : Nat := 500
  /-- The token between the sides of a change. -/
  delimiter : String := defaultDelimiter
  deriving BEq

/-- Why a configuration is refused. -/
inductive ConfigError where
  | placeholders (cause : Placeholder.TableError)
  | invalidBuckets (count : Nat)
  | invalidThreshold (threshold : Float)
  | zeroTopK
  | emptyDelimiter
  | delimiterMismatch (configured parser language : String)
  /-- The file could not be read. -/
  | unreadable
  /-- The document does not describe a configuration. -/
  | malformed

/-- The wording of the cause; files and documents have none of their own. -/
def ConfigError.message? : ConfigError → Option String
  | placeholders cause => some cause.message
  | invalidBuckets count =>
    some s!"fingerprint bucket count must be even and at least 2, got {count}"
  | invalidThreshold threshold =>
    some ("similarity threshold must lie in [0, 1], got " ++ FloatStyle.message.write threshold)
  | zeroTopK => some "top_k must be at least 1"
  | emptyDelimiter => some "change delimiter must not be empty"
  | delimiterMismatch configured parser language =>
    some ("configured delimiter \x60" ++ configured ++ "\x60 differs from the " ++ language ++
      " parser's \x60" ++ parser ++ "\x60")
  | unreadable => none
  | malformed => none

/-- What a search needs of a configuration that was checked. -/
structure Settings where
  config : Config
  table : Placeholder.Table
  buckets : Buckets

namespace Config

/-- Stops with a cause unless the condition holds. -/
def require (condition : Bool) (cause : ConfigError) : Except ConfigError Unit :=
  if condition then .ok () else .error cause

/-- The table of the configured placeholders. -/
def table (c : Config) : Except ConfigError Placeholder.Table :=
  (Placeholder.Table.build c.placeholderNames c.placeholderRules c.emptyLabel).mapError
    .placeholders

/-- The configured buckets. -/
def checkedBuckets (c : Config) : Except ConfigError Buckets :=
  match Buckets.ofNat? c.buckets with
  | some b => .ok b
  | none => .error (.invalidBuckets c.buckets)

/-- Checks every setting. -/
def settings (c : Config) : Except ConfigError Settings := do
  let table ← c.table
  let buckets ← c.checkedBuckets
  require (0 ≤ c.similarityThreshold && c.similarityThreshold ≤ 1)
    (.invalidThreshold c.similarityThreshold)
  require (c.topK != 0) .zeroTopK
  require (c.delimiter != "") .emptyDelimiter
  return ⟨c, table, buckets⟩

/-- The parser splits changes at the configured delimiter. -/
def checkParser (c : Config) (p : Parser) : Except ConfigError Unit :=
  require (p.delimiter == c.delimiter) (.delimiterMismatch c.delimiter p.delimiter p.language)

end Config

end ChangeQuery
