import ChangeQuery.Proofs.Tree.Paths
import Mathlib.Data.Nat.ModEq
import Mathlib.Data.Nat.Prime.Basic
import Mathlib.Tactic.Ring

/-!
## Hashing trees word by word

A `WordHash` hashes a tree as the fingerprints do, with any multiplier: the hashes of the children
are added to a state one after another, and the state is multiplied each time.  If the multiplier is odd
and no information is lost at the end, then each step can be taken back.  Whatever comes after it, a
word that is replaced by another one leads to another state, and so on up to the root
(`hash_replaceAt_eq_iff`).

The order of the words enters less reliably.  Two neighbours `a` and `c` that change places move the
state by `(a - c) * (K - 1) * K`, and `K - 1` is even.  For a multiplier with the remainder 5 modulo 8
two bits are lost, so the hash stays the same exactly if `a` and `c` agree in their lower 62 bits
(`hash_swap_eq_iff`).
-/

namespace ChangeQuery

/-! ### Words -/

namespace Hash

theorem eq_iff_modEq {a c : UInt64} : a = c ↔ a.toNat ≡ c.toNat [MOD 2 ^ 64] := by
  refine ⟨fun h => h ▸ Nat.ModEq.refl _, fun h => ?_⟩
  exact UInt64.toNat_inj.mp (h.eq_of_lt_of_lt a.toNat_lt c.toNat_lt)

theorem toNat_add_modEq (a c : UInt64) : (a + c).toNat ≡ a.toNat + c.toNat [MOD 2 ^ 64] := by
  rw [UInt64.toNat_add]
  exact Nat.mod_modEq _ _

theorem toNat_mul_modEq (a c : UInt64) : (a * c).toNat ≡ a.toNat * c.toNat [MOD 2 ^ 64] := by
  rw [UInt64.toNat_mul]
  exact Nat.mod_modEq _ _

/-- **Multiplying by an odd word** loses nothing. -/
theorem mul_eq_mul_iff {k : UInt64} (hodd : Odd k.toNat) {a c : UInt64} :
    a * k = c * k ↔ a = c := by
  refine ⟨fun h => ?_, fun h => h ▸ rfl⟩
  have hcoprime : Nat.gcd (2 ^ 64) k.toNat = 1 :=
    Nat.Coprime.pow_left 64 (Nat.coprime_two_left.mpr hodd)
  have hproducts : a.toNat * k.toNat ≡ c.toNat * k.toNat [MOD 2 ^ 64] :=
    calc
      _ ≡ (a * k).toNat [MOD 2 ^ 64] := (toNat_mul_modEq a k).symm
      _ ≡ (c * k).toNat [MOD 2 ^ 64] := eq_iff_modEq.mp h
      _ ≡ _ [MOD 2 ^ 64] := toNat_mul_modEq c k
  exact eq_iff_modEq.mpr (Nat.ModEq.cancel_right_of_coprime hcoprime hproducts)

/-- Two words count the same with the multiplier on one as with the multiplier on the other, if they
agree in their lower 62 bits. -/
theorem mul_add_eq_mul_add_iff {k : UInt64} (hfour : 4 ∣ k.toNat - 1) (height : ¬ 8 ∣ k.toNat - 1)
    {a c : UInt64} : a * k + c = c * k + a ↔ a.toNat ≡ c.toNat [MOD 2 ^ 62] := by
  obtain ⟨m, hm⟩ := hfour
  have hk : k.toNat = 4 * m + 1 := by omega
  have hodd : Nat.gcd (2 ^ 62) m = 1 := by
    refine Nat.Coprime.pow_left 62 (Nat.coprime_two_left.mpr (Nat.odd_iff.mpr ?_))
    omega
  have hsum : ∀ a c : UInt64,
      (a * k + c).toNat ≡ (a.toNat + c.toNat) + 4 * (a.toNat * m) [MOD 2 ^ 64] := by
    intro a c
    calc
      _ ≡ (a * k).toNat + c.toNat [MOD 2 ^ 64] := toNat_add_modEq _ _
      _ ≡ a.toNat * k.toNat + c.toNat [MOD 2 ^ 64] := (toNat_mul_modEq a k).add_right _
      _ = (a.toNat + c.toNat) + 4 * (a.toNat * m) := by rw [hk]; ring
  have hswap : (c * k + a).toNat ≡ (a.toNat + c.toNat) + 4 * (c.toNat * m) [MOD 2 ^ 64] := by
    rw [Nat.add_comm a.toNat]
    exact hsum c a
  have hcancel : a * k + c = c * k + a ↔ 4 * (a.toNat * m) ≡ 4 * (c.toNat * m) [MOD 4 * 2 ^ 62] := by
    rw [eq_iff_modEq]
    constructor
    · intro h
      exact Nat.ModEq.add_left_cancel' _ ((hsum a c).symm.trans (h.trans hswap))
    · intro h
      exact (hsum a c).trans ((h.add_left _).trans hswap.symm)
  rw [hcancel, Nat.ModEq.mul_left_cancel_iff' (by decide)]
  exact ⟨Nat.ModEq.cancel_right_of_coprime hodd, fun h => h.mul_right m⟩

end Hash

/-! ### Hashes of trees -/

/-- A hash of trees that adds the hashes of the children to a state, one after another. -/
structure WordHash (α : Type) where
  /-- The state for a value and a number of children, before the children are taken in. -/
  start : α → ℕ → UInt64
  /-- The number that the state is multiplied by after each word. -/
  multiplier : UInt64
  /-- The hash for the state behind the last child. -/
  finish : UInt64 → UInt64

namespace WordHash

variable {α : Type} (H : WordHash α)

/-- Adds a word to a state. -/
def absorb (state word : UInt64) : UInt64 :=
  (state + word) * H.multiplier

mutual
/-- The hash of a tree. -/
def hash : Rose α → UInt64
  | .node v cs => H.finish (absorbHashes (H.start v cs.length) cs)
/-- Adds the hashes of trees to a state. -/
def absorbHashes (state : UInt64) : List (Rose α) → UInt64
  | [] => state
  | c :: cs => absorbHashes (H.absorb state (hash c)) cs
end

/-- No step loses information. -/
structure IsReversible : Prop where
  odd : Odd H.multiplier.toNat
  injective : Function.Injective H.finish

theorem absorbHashes_eq (cs : List (Rose α)) : ∀ state,
    H.absorbHashes state cs = (cs.map H.hash).foldl H.absorb state := by
  induction cs with
  | nil => exact fun _ => by rw [absorbHashes]; rfl
  | cons c cs ih => exact fun state => by rw [absorbHashes, ih]; rfl

theorem hash_node (v : α) (cs : List (Rose α)) :
    H.hash (.node v cs) = H.finish ((cs.map H.hash).foldl H.absorb (H.start v cs.length)) := by
  rw [hash, absorbHashes_eq]

variable {H}

/-- A step can be taken back up to the sum of the state and the word. -/
theorem IsReversible.absorb_eq_iff (h : H.IsReversible) {state state' word word' : UInt64} :
    H.absorb state word = H.absorb state' word' ↔ state + word = state' + word' :=
  Hash.mul_eq_mul_iff h.odd

/-- **Later words** keep states apart. -/
theorem IsReversible.foldl_absorb_eq_iff (h : H.IsReversible) (words : List UInt64) :
    ∀ state state', words.foldl H.absorb state = words.foldl H.absorb state' ↔ state = state' := by
  induction words with
  | nil => exact fun _ _ => Iff.rfl
  | cons word words ih =>
    intro state state'
    rw [List.foldl_cons, List.foldl_cons, ih, h.absorb_eq_iff, UInt64.add_left_inj]

/-- **One child in another's place**: the hash of the node tells them apart as their hashes do. -/
theorem IsReversible.hash_node_eq_iff (h : H.IsReversible) (v : α) (before after : List (Rose α))
    (c d : Rose α) :
    H.hash (.node v (before ++ c :: after)) = H.hash (.node v (before ++ d :: after)) ↔
      H.hash c = H.hash d := by
  have hlength : (before ++ c :: after).length = (before ++ d :: after).length := by
    rw [List.length_append, List.length_append, List.length_cons, List.length_cons]
  rw [hash_node, hash_node, h.injective.eq_iff, hlength]
  simp only [List.map_append, List.map_cons, List.foldl_append, List.foldl_cons]
  rw [h.foldl_absorb_eq_iff, h.absorb_eq_iff, UInt64.add_right_inj]

/-- **A subtree in another's place**: the hash of the whole tree tells them apart as their hashes do,
however deep the place lies. -/
theorem IsReversible.hash_replaceAt_eq_iff (h : H.IsReversible) (new : Rose α) {old : Rose α}
    {path : List ℕ} : ∀ {t : Rose α}, t.subtreeAt? path = some old →
      (H.hash (t.replaceAt path new) = H.hash t ↔ H.hash new = H.hash old) := by
  induction path with
  | nil =>
    intro t hold
    obtain rfl := Option.some.inj hold
    exact Iff.rfl
  | cons i path ih =>
    intro t hold
    obtain ⟨v, before, c, after, rfl, hold, hreplace⟩ := Rose.exists_child_of_subtreeAt? hold
    rw [hreplace, h.hash_node_eq_iff]
    exact ih hold

/-- **Two neighbours that change places** leave the hash of the node as it is exactly if their hashes
agree in their lower 62 bits. -/
theorem IsReversible.hash_swap_eq_iff (h : H.IsReversible) (hfour : 4 ∣ H.multiplier.toNat - 1)
    (height : ¬ 8 ∣ H.multiplier.toNat - 1) (v : α) (before after : List (Rose α)) (c d : Rose α) :
    H.hash (.node v (before ++ d :: c :: after)) = H.hash (.node v (before ++ c :: d :: after)) ↔
      (H.hash c).toNat ≡ (H.hash d).toNat [MOD 2 ^ 62] := by
  have hlength : (before ++ d :: c :: after).length = (before ++ c :: d :: after).length := by
    simp only [List.length_append, List.length_cons]
  rw [hash_node, hash_node, h.injective.eq_iff, hlength]
  simp only [List.map_append, List.map_cons, List.foldl_append, List.foldl_cons]
  rw [h.foldl_absorb_eq_iff, h.absorb_eq_iff, absorb, absorb, UInt64.add_mul, UInt64.add_mul,
    UInt64.add_assoc, UInt64.add_assoc, UInt64.add_right_inj,
    Hash.mul_add_eq_mul_add_iff hfour height]
  exact Nat.ModEq.comm

end WordHash

end ChangeQuery
