/-!
## Feature vectors

A feature vector is a row of counters of 32 bits.  A `Layout` names contiguous sections of a row.

Positions in a row are words of 64 bits.  Where sections are laid one behind another, the positions are
added up modulo 2^64, so widths that sum to 2^64 or more give sections that end before they start.
-/

namespace ChangeQuery

/-- A row of counters. -/
structure FeatureVector where
  counts : Array UInt32
  deriving DecidableEq, Repr

namespace FeatureVector

/-- The row of a list of counters. -/
def ofList (counts : List UInt32) : FeatureVector :=
  ⟨counts.toArray⟩

/-- The counters in order. -/
def toList (v : FeatureVector) : List UInt32 :=
  v.counts.toList

/-- A row of counters that are all 0. -/
def zeros (dimension : Nat) : FeatureVector :=
  ⟨Array.replicate dimension 0⟩

/-- The number of counters. -/
def dimension (v : FeatureVector) : Nat :=
  v.counts.size

/-- One row behind another. -/
def append (v w : FeatureVector) : FeatureVector :=
  ⟨v.counts ++ w.counts⟩

instance : Append FeatureVector := ⟨append⟩

/-- All counters are 0. -/
def isZero (v : FeatureVector) : Bool :=
  v.counts.all (· == 0)

/-- The sum of all counters. -/
def total (v : FeatureVector) : Nat :=
  v.toList.foldr (fun count rest => count.toNat + rest) 0

/-- The counters from `start` up to but not including `stop`. -/
def slice (v : FeatureVector) (start stop : Nat) : FeatureVector :=
  ⟨v.counts.extract start stop⟩

/-- Adds one to the counter at `i`. -/
def bump (v : FeatureVector) (i : Nat) : FeatureVector :=
  ⟨v.counts.modify i (· + 1)⟩

/-- The positions of the counters that are not 0, with their values. -/
def support (v : FeatureVector) : List (Nat × UInt32) :=
  (v.toList.zipIdx.filter fun entry => entry.1 != 0).map fun entry => (entry.2, entry.1)

end FeatureVector

/-- A named part of a feature vector, from `start` up to but not including `stop`. -/
structure Section where
  name : String
  start : Nat
  stop : Nat
  deriving DecidableEq, Repr

/-- Names of contiguous sections. -/
structure Layout where
  sections : List Section
  deriving DecidableEq, Repr

namespace Layout

/-- Sections of the given widths, one behind another from `start`. -/
def sectionsFrom (start : Nat) : List (String × Nat) → List Section
  | [] => []
  | (name, width) :: widths =>
    let stop := (start + width) % UInt64.size
    ⟨name, start, stop⟩ :: sectionsFrom stop widths

/-- Sections of the given widths, one behind another. -/
def ofWidths (widths : List (String × Nat)) : Layout :=
  ⟨sectionsFrom 0 widths⟩

/-- Where the last section ends. -/
def dimension (l : Layout) : Nat :=
  (l.sections.getLast?.map Section.stop).getD 0

/-- The first section with the given name. -/
def find? (l : Layout) (name : String) : Option Section :=
  l.sections.find? fun s => s.name == name

end Layout

/-- The counters of a section. -/
def Section.of (s : Section) (v : FeatureVector) : FeatureVector :=
  v.slice s.start s.stop

/-- The counters of the section with the given name, if there is one, it does not end before it starts,
and the row reaches to its end. -/
def Layout.slice? (l : Layout) (v : FeatureVector) (name : String) : Option FeatureVector :=
  (l.find? name).bind fun s =>
    if s.start ≤ s.stop ∧ s.stop ≤ v.dimension then some (s.of v) else none

end ChangeQuery
