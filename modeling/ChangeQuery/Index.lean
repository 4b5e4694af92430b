import ChangeQuery.Fingerprint.Vector
import ChangeQuery.Selection

/-!
## Looking up near rows

A `FlatIndex` holds numbered feature vectors of one dimension.  `lookup` returns the numbers of the
rows nearest to a query by squared Euclidean distance, the nearest first and, at equal distance, the
smaller number first.  Where not all rows are asked for, the nearest ones are selected before they are
sorted.
-/

namespace ChangeQuery

/-- Why an index could not be built or asked. -/
inductive IndexError where
  /-- The index holds rows of another length. -/
  | dimensionMismatch (expected found : Nat)
  /-- The index failed for a reason of its own. -/
  | backend (message : String)
  deriving DecidableEq, Repr

/-- The wording of the cause. -/
def IndexError.message : IndexError → String
  | dimensionMismatch expected found =>
    s!"index holds {expected}-dimensional vectors, got {found}"
  | backend message => "index backend failed: " ++ message

/-- The distance between two counters. -/
def gapBetween (x y : UInt32) : UInt64 :=
  if x ≤ y then y.toUInt64 - x.toUInt64 else x.toUInt64 - y.toUInt64

/-- The square of the Euclidean distance, modulo 2^64. -/
def squaredDistance (v w : FeatureVector) : UInt64 :=
  (v.toList.zip w.toList).foldl
    (fun sum pair => sum + gapBetween pair.1 pair.2 * gapBetween pair.1 pair.2) 0

/-- Numbered rows of one dimension, in the order they were added. -/
structure FlatIndex where
  dimension : Nat
  rows : List (Nat × FeatureVector) := []

namespace FlatIndex

/-- The number of rows. -/
def size (index : FlatIndex) : Nat :=
  index.rows.length

/-- Adds a row of the right length at the end. -/
def add (index : FlatIndex) (id : Nat) (row : FeatureVector) : Except IndexError FlatIndex :=
  if row.dimension = index.dimension then
    .ok { index with rows := index.rows ++ [(id, row)] }
  else .error (.dimensionMismatch index.dimension row.dimension)

/-- Adds rows in order and stops at the first that has the wrong length. -/
def addMany (index : FlatIndex) : List (Nat × FeatureVector) → Except IndexError FlatIndex
  | [] => .ok index
  | (id, row) :: rows =>
    match index.add id row with
    | .ok index => index.addMany rows
    | .error e => .error e

/-- The index of numbered rows. -/
def ofRows (dimension : Nat) (rows : List (Nat × FeatureVector)) : Except IndexError FlatIndex :=
  addMany { dimension } rows

/-- The index of rows numbered by their positions. -/
def ofVectors (dimension : Nat) (rows : List FeatureVector) : Except IndexError FlatIndex :=
  ofRows dimension (rows.zipIdx.map fun entry => (entry.2, entry.1))

/-- Nearer, or as near with a number that is not greater. -/
def ranksBefore (a b : UInt64 × Nat) : Bool :=
  a.1 < b.1 || (a.1 == b.1 && a.2 ≤ b.2)

/-- The distances of all rows from a query, with the numbers of the rows. -/
def scores (index : FlatIndex) (query : FeatureVector) : List (UInt64 × Nat) :=
  index.rows.map fun row => (squaredDistance query row.2, row.1)

/-- The `count` least of some scores in ascending order.  `selectAt` puts the score of a rank at its
position. -/
def leastScores (selectAt : Nat → List (UInt64 × Nat) → List (UInt64 × Nat)) (count : Nat)
    (scores : List (UInt64 × Nat)) : List (UInt64 × Nat) :=
  let candidates :=
    if count < scores.length then (selectAt (count - 1) scores).take count else scores
  candidates.mergeSort ranksBefore

/-- The numbers of the `count` nearest rows, the nearest first, where `selectAt` selects by rank. -/
def lookupBy (selectAt : Nat → List (UInt64 × Nat) → List (UInt64 × Nat)) (index : FlatIndex)
    (query : FeatureVector) (count : Nat) : Except IndexError (List Nat) :=
  if query.dimension = index.dimension then
    if count == 0 || index.rows.isEmpty then .ok []
    else .ok ((leastScores selectAt count (index.scores query)).map Prod.snd)
  else .error (.dimensionMismatch index.dimension query.dimension)

/-- The numbers of the `count` nearest rows, the nearest first. -/
def lookup (index : FlatIndex) (query : FeatureVector) (count : Nat) :
    Except IndexError (List Nat) :=
  index.lookupBy (Selection.byPivot ranksBefore) query count

end FlatIndex

end ChangeQuery
