import ChangeQuery.Config
import ChangeQuery.Corpus.Basic
import ChangeQuery.FeatureRows
import ChangeQuery.Index

/-!
## Fingerprints of a corpus

Every change of a corpus that is not too long and that parses gets a row in a `FeatureTable`, under
its number in the corpus; the numbers of all others are listed as skipped.  The rows can be written
as text or put into an index.
-/

namespace ChangeQuery

/-- The fingerprints of the changes of a corpus. -/
structure FeatureTable where
  dimension : Nat
  /-- Number and fingerprint of each change that has one, in ascending order. -/
  rows : List (Nat × FeatureVector) := []
  /-- The numbers of the other changes, in ascending order. -/
  skipped : List Nat := []

namespace FeatureTable

/-- The number of rows. -/
def size (t : FeatureTable) : Nat :=
  t.rows.length

/-- The numbers of the changes that have a row. -/
def ids (t : FeatureTable) : List Nat :=
  t.rows.map Prod.fst

/-- The fingerprints. -/
def vectors (t : FeatureTable) : List FeatureVector :=
  t.rows.map Prod.snd

/-- The row of a change. -/
def row? (t : FeatureTable) (id : Nat) : Option FeatureVector :=
  t.rows.lookup id

/-- The rows as text. -/
def toText (t : FeatureTable) : String :=
  FeatureRows.write t.vectors

/-- The rows as an index. -/
def toIndex (t : FeatureTable) : Except IndexError FlatIndex :=
  FlatIndex.ofRows t.dimension t.rows

end FeatureTable

namespace Corpus

/-- The fingerprint of a change text that is not too long and that parses. -/
def fingerprint? (config : Config) (b : Buckets) (p : Parser) (v : Vocabulary) (text : String) :
    Option FeatureVector :=
  if config.maxChangeChars < text.length then none
  else
    match p.change v text config.delimiter with
    | .ok (_, change) => some (Fingerprint.ofChange b change)
    | .error _ => none

/-- Sorts numbered texts into rows and skipped numbers. -/
def featuresFrom (fingerprint? : String → Option FeatureVector) (dimension : Nat) :
    List (String × Nat) → FeatureTable
  | [] => { dimension }
  | (text, id) :: texts =>
    let table := featuresFrom fingerprint? dimension texts
    match fingerprint? text with
    | some vector => { table with rows := (id, vector) :: table.rows }
    | none => { table with skipped := id :: table.skipped }

/-- The fingerprints of a corpus. -/
def features (c : Corpus) (config : Config) (p : Parser) (v : Vocabulary) :
    Except ConfigError FeatureTable := do
  let b ← config.checkedBuckets
  config.checkParser p
  return featuresFrom (fingerprint? config b p v) b.dimension c.changes.zipIdx

end Corpus

end ChangeQuery
