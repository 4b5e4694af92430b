import ChangeQuery.Proofs.Fingerprint.Labels
import Mathlib.Data.UInt
import Mathlib.Logic.Function.Iterate
import Mathlib.Tactic.Ring

/-!
## Hashes of nodes with many equal children

Taking in a word is an affine map of the state of a hash: it multiplies by one word and adds another,
modulo 2^64.  Two such maps one after the other are a third, so the map for 2^k words is known from that
for half as many, and `k` steps of this kind tell what a node with 2^k - 1 equal children hashes to
(`Fingerprint.subtreeHash_of_equal_children`), however many these are.

A call with the same argument over and over (`callOf`) is such a node.
-/

namespace ChangeQuery

/-! ### Equal words -/

namespace Hash

/-- The map of words that multiplies by `scale` and adds `shift`. -/
structure Affine where
  scale : UInt64
  shift : UInt64

namespace Affine

/-- The value of the map. -/
def apply (f : Affine) (state : UInt64) : UInt64 :=
  f.scale * state + f.shift

/-- The map `g` behind the map `f`. -/
def comp (g f : Affine) : Affine :=
  ⟨g.scale * f.scale, g.scale * f.shift + g.shift⟩

/-- The maps for 2^k - 1 times and for 2^k times the same map. -/
def powers (f : Affine) : ℕ → Affine × Affine
  | 0 => (⟨1, 0⟩, f)
  | k + 1 => ((powers f k).2.comp (powers f k).1, (powers f k).2.comp (powers f k).2)

/-- The map that takes a word in. -/
def ofWord (word : UInt64) : Affine :=
  ⟨multiplier, word * multiplier⟩

open scoped UInt64.CommRing in
theorem apply_comp (g f : Affine) : (g.comp f).apply = g.apply ∘ f.apply := by
  funext state
  simp only [apply, comp, Function.comp_apply]
  ring

open scoped UInt64.CommRing in
theorem apply_ofWord (word : UInt64) : (ofWord word).apply = fun state => absorb state word := by
  funext state
  simp only [apply, ofWord, absorb]
  ring

/-- **Doubling** gives the map for as many steps as it says. -/
theorem apply_powers (f : Affine) (k : ℕ) :
    (f.powers k).1.apply = f.apply^[2 ^ k - 1] ∧ (f.powers k).2.apply = f.apply^[2 ^ k] := by
  induction k with
  | zero =>
    refine ⟨?_, rfl⟩
    funext state
    simp [powers, apply]
  | succ k ih =>
    obtain ⟨hfirst, hsecond⟩ := ih
    have hsteps : 2 ^ (k + 1) - 1 = 2 ^ k + (2 ^ k - 1) := by
      have hpos : 0 < 2 ^ k := Nat.two_pow_pos k
      omega
    constructor
    · rw [powers, apply_comp, hfirst, hsecond, hsteps, Function.iterate_add]
    · rw [powers, apply_comp, hsecond, Nat.pow_succ, Nat.mul_two, Function.iterate_add]

end Affine

end Hash

namespace Fingerprint

/-! ### Equal children -/

theorem absorbHashes_of_equal {word : UInt64} {cs : List Node} (h : ∀ c ∈ cs, subtreeHash c = word) :
    ∀ state, absorbHashes state cs = (fun state => Hash.absorb state word)^[cs.length] state := by
  induction cs with
  | nil => exact fun _ => rfl
  | cons c cs ih =>
    intro state
    obtain ⟨hc, hcs⟩ := List.forall_mem_cons.mp h
    rw [absorbHashes, hc, ih hcs, List.length_cons, Function.iterate_succ_apply]

/-- **The hash of a node with 2^k - 1 equal children** takes `k` doublings. -/
theorem subtreeHash_of_equal_children {n : Node} {word : UInt64} {k : ℕ}
    (h : ∀ c ∈ n.children, subtreeHash c = word) (hlength : n.children.length = 2 ^ k - 1) :
    subtreeHash n =
      Hash.finish (((Hash.Affine.ofWord word).powers k).1.apply (startState n)) := by
  cases n with
  | node entry cs =>
    rw [Rose.children_node] at h hlength
    rw [subtreeHash, absorbHashes_of_equal h, hlength, ← Hash.Affine.apply_ofWord,
      (Hash.Affine.apply_powers _ k).1]

/-! ### Calls with equal arguments -/

/-- A call with the same token `n` times below it. -/
def callOf (n : ℕ) : Rose Label :=
  .node (.construct "call") (List.replicate n (.leaf (.token "x")))

theorem exists_root_callOf (n : ℕ) : ∃ root,
    (Tree.ofLabels ⟨0, []⟩ (callOf n)).2.root? = some root ∧ root.labels = callOf n := by
  have hofLabels : Tree.ofLabels ⟨0, []⟩ (callOf n) = (_, (Tree.ofLabels ⟨0, []⟩ (callOf n)).2) := rfl
  obtain ⟨root, hroot, hlabels, -⟩ := Tree.labels_ofLabels hofLabels
  exact ⟨root, hroot, hlabels⟩

/-- The hash of every token. -/
def tokenHash : UInt64 :=
  Hash.finish (Hash.absorb (Hash.absorb 0 1) 0)

/-- The state for a call before its children are taken in. -/
def callState (n : ℕ) : UInt64 :=
  Hash.absorb (Hash.absorbName (Hash.absorb 0 0) "call") (UInt64.ofNat n)

theorem preorder_callOf (n : ℕ) :
    (callOf n).preorder = callOf n :: List.replicate n (.leaf (.token "x")) := by
  have hleaf : (Rose.leaf (Label.token "x")).preorder = [.leaf (.token "x")] := rfl
  rw [callOf, Rose.preorder_node, List.flatMap_replicate, hleaf, List.flatten_replicate_singleton]

theorem subtreeHash_of_token {n : Node} {text : String} (h : n.labels = .leaf (.token text)) :
    subtreeHash n = tokenHash :=
  subtreeHash_congr n (.leaf ⟨0, .token text⟩) h

section

variable {root : Node} {n : ℕ} (h : root.labels = callOf n)

include h

theorem label_of_callOf : root.category.label = .construct "call" := by
  rw [Node.labels_eq_node, callOf] at h
  exact (Rose.node.inj h).1

theorem labels_children_of_callOf :
    root.children.map Node.labels = List.replicate n (.leaf (.token "x")) := by
  rw [Node.labels_eq_node, callOf] at h
  exact (Rose.node.inj h).2

theorem length_children_of_callOf : root.children.length = n := by
  have hlength := congrArg List.length (labels_children_of_callOf h)
  rwa [List.length_map, List.length_replicate] at hlength

theorem startState_of_callOf : startState root = callState n := by
  rw [startState, absorbCategory_eq, label_of_callOf h, length_children_of_callOf h]
  rfl

/-- **The hash of a call with 2^k - 1 equal arguments.** -/
theorem subtreeHash_of_callOf {k : ℕ} (hn : n = 2 ^ k - 1) :
    subtreeHash root =
      Hash.finish (((Hash.Affine.ofWord tokenHash).powers k).1.apply (callState n)) := by
  have htokens : ∀ c ∈ root.children, subtreeHash c = tokenHash := by
    intro c hc
    have hlabels : Node.labels c ∈ root.children.map Node.labels := List.mem_map_of_mem hc
    rw [labels_children_of_callOf h] at hlabels
    exact subtreeHash_of_token (List.eq_of_mem_replicate hlabels)
  have hlength : root.children.length = 2 ^ k - 1 := (length_children_of_callOf h).trans hn
  rw [subtreeHash_of_equal_children htokens hlength, startState_of_callOf h]

/-- In a call with equal arguments there are only two hashes. -/
theorem subtreeHash_of_mem_callOf {m : Node} (hm : m ∈ root.preorder) :
    subtreeHash m = subtreeHash root ∨ subtreeHash m = tokenHash := by
  have hlabels : m.labels ∈ root.labels.preorder := by
    rw [Node.labels, Node.labels, Rose.preorder_map]
    exact List.mem_map_of_mem hm
  rw [h, preorder_callOf] at hlabels
  rcases List.mem_cons.mp hlabels with hroot | htoken
  · exact .inl (subtreeHash_congr m root (hroot.trans h.symm))
  · exact .inr (subtreeHash_of_token (List.eq_of_mem_replicate htoken))

theorem size_of_callOf : root.size = n + 1 := by
  have hlength : root.labels.preorder.length = root.preorder.length := by
    rw [Node.labels, Rose.preorder_map, List.length_map]
  rw [← Rose.length_preorder, ← hlength, h, preorder_callOf, List.length_cons, List.length_replicate]

end

end Fingerprint

end ChangeQuery
