import ChangeQuery.Fingerprint.Vector

/-!
## Similarity of feature vectors

The cosine of the angle between two rows of counters, as a number in binary64.  The three sums run
over the rows from left to right.  A row of zeros is similar to nothing, and the cosine never exceeds
one.
-/

namespace ChangeQuery.Similarity

/-- Two rows of different lengths were compared. -/
structure DimensionMismatch where
  left : Nat
  right : Nat
  deriving DecidableEq, Repr

/-- The wording of the cause. -/
def DimensionMismatch.message (e : DimensionMismatch) : String :=
  s!"feature vectors differ in length ({e.left} vs {e.right})"

/-- The product of two rows and the squares of both. -/
structure Sums where
  product : Float := 0
  leftSquare : Float := 0
  rightSquare : Float := 0

/-- Adds a pair of counters to the sums. -/
def Sums.add (s : Sums) (pair : UInt32 × UInt32) : Sums :=
  let x := pair.1.toFloat
  let y := pair.2.toFloat
  ⟨s.product + x * y, s.leftSquare + x * x, s.rightSquare + y * y⟩

/-- The sums over two rows, from left to right. -/
def sums (v w : FeatureVector) : Sums :=
  (v.toList.zip w.toList).foldl Sums.add {}

/-- The cosine for given sums. -/
def Sums.cosine (s : Sums) : Float :=
  if s.leftSquare == 0 || s.rightSquare == 0 then 0
  else
    let quotient := s.product / (s.leftSquare.sqrt * s.rightSquare.sqrt)
    if quotient > 1 then 1 else quotient

/-- The cosine of two rows of the same length. -/
def cosine (v w : FeatureVector) : Except DimensionMismatch Float :=
  if v.dimension = w.dimension then .ok (sums v w).cosine
  else .error ⟨v.dimension, w.dimension⟩

/-- The two rows are similar enough to be compared in depth. -/
def passes (v w : FeatureVector) (threshold : Float) : Except DimensionMismatch Bool :=
  (cosine v w).map fun similarity => similarity ≥ threshold

end ChangeQuery.Similarity
