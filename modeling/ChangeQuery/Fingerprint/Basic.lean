import ChangeQuery.Change
import ChangeQuery.Fingerprint.Hash
import ChangeQuery.Fingerprint.Vector

/-!
## Fingerprints

The fingerprint of a tree counts its structural features in two histograms: one counter per hashed
subtree and one per hashed pair of a parent and a child.  Only construct names and shape enter the
hashes; all tokens look alike, so renamed identifiers do not change a fingerprint.

The fingerprint of a change has each histogram in two halves, one for each side.

* `subtreeHash` combines the category of a node with the number and the hashes of its children.
* `tally` computes the hashes of all subtrees in one pass and counts them on the way.
-/

namespace ChangeQuery

/-- The number of buckets per histogram: even, because changes halve it, and not zero. -/
structure Buckets where
  count : Nat
  two_le : 2 ≤ count
  even : count % 2 = 0
  deriving DecidableEq, Repr

namespace Buckets

/-- A number of buckets, if it is even and at least 2. -/
def ofNat? (count : Nat) : Option Buckets :=
  if h : 2 ≤ count ∧ count % 2 = 0 then some ⟨count, h.1, h.2⟩ else none

/-- The length of the fingerprints with these buckets. -/
def dimension (b : Buckets) : Nat :=
  2 * b.count

/-- The buckets that one side of a change has in each histogram. -/
def half (b : Buckets) : Nat :=
  b.count / 2

/-- The sections of the fingerprint of a tree. -/
def treeLayout (b : Buckets) : Layout :=
  .ofWidths [("hash-sum", b.count), ("parent-child", b.count)]

/-- The sections of the fingerprint of a change. -/
def changeLayout (b : Buckets) : Layout :=
  .ofWidths
    [("hash-sum [old]", b.half), ("hash-sum [new]", b.half),
     ("parent-child [old]", b.half), ("parent-child [new]", b.half)]

end Buckets

namespace Fingerprint

/-- The bucket of a hash. -/
def bucket (hash : UInt64) (buckets : Nat) : Nat :=
  (Hash.spread hash).toNat % buckets

/-- Adds the category of a node to the state of a hash: the name of a construct, or that it is a
token. -/
def absorbCategory (state : UInt64) (n : Node) : UInt64 :=
  match n.category with
  | .construct symbol => Hash.absorbName (Hash.absorb state 0) symbol.name
  | .token _ => Hash.absorb state 1

/-- The state for a node before its children are taken in. -/
def startState (n : Node) : UInt64 :=
  Hash.absorb (absorbCategory 0 n) (UInt64.ofNat n.children.length)

mutual
/-- The hash of a subtree: its category, the number of its children and their hashes in order. -/
def subtreeHash : Node → UInt64
  | .node entry children =>
    Hash.finish (absorbHashes (startState (.node entry children)) children)
/-- Adds the hashes of subtrees to a state. -/
def absorbHashes (state : UInt64) : List Node → UInt64
  | [] => state
  | child :: children => absorbHashes (Hash.absorb state (subtreeHash child)) children
end

mutual
/-- The hash of a subtree, and a histogram with the subtree and all subtrees in it counted. -/
def tally (histogram : FeatureVector) : Node → UInt64 × FeatureVector
  | .node entry children =>
    let (state, histogram) := tallyEach (startState (.node entry children)) histogram children
    let hash := Hash.finish state
    (hash, histogram.bump (bucket hash histogram.dimension))
/-- Adds the hashes of subtrees to a state and counts the subtrees. -/
def tallyEach (state : UInt64) (histogram : FeatureVector) : List Node → UInt64 × FeatureVector
  | [] => (state, histogram)
  | child :: children =>
    let (hash, histogram) := tally histogram child
    tallyEach (Hash.absorb state hash) histogram children
end

/-- How many subtrees of a tree fall into each bucket. -/
def subtreeHistogram (buckets : Nat) (root : Node) : FeatureVector :=
  (tally (.zeros buckets) root).2

/-- The hash of a parent and a child, by their categories alone. -/
def edgeHash (parent child : Node) : UInt64 :=
  Hash.finish (absorbCategory (absorbCategory 0 parent) child)

/-- The hashes of all pairs of a parent and a child in a tree. -/
def edgeHashes (root : Node) : List UInt64 :=
  root.preorder.flatMap fun (parent : Node) => parent.children.map (edgeHash parent)

/-- How many pairs of a parent and a child fall into each bucket. -/
def edgeHistogram (buckets : Nat) (root : Node) : FeatureVector :=
  (edgeHashes root).foldl (fun histogram hash => histogram.bump (bucket hash buckets))
    (.zeros buckets)

/-- The fingerprint of a tree. -/
def ofNode (b : Buckets) (root : Node) : FeatureVector :=
  subtreeHistogram b.count root ++ edgeHistogram b.count root

/-- The fingerprint of a change: each histogram for the old side and then for the new one. -/
def ofChange (b : Buckets) (c : Change) : FeatureVector :=
  subtreeHistogram b.half c.old.node ++ subtreeHistogram b.half c.new.node ++
    (edgeHistogram b.half c.old.node ++ edgeHistogram b.half c.new.node)

end Fingerprint

end ChangeQuery
