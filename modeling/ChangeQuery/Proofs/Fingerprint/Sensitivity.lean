import ChangeQuery.Proofs.Fingerprint.Labels
import ChangeQuery.Proofs.Fingerprint.WordHash

/-!
## What moves a hash

The hash of a subtree is made word by word (`wordHash`): the multiplier is odd, and the rotation at the
end can be turned back.  So a subtree with another hash always reaches the root, at whatever depth and
among however many other nodes it stands: no hash above it can stay as it was.

Two neighbours that change places are less certain to be noticed.  The multiplier is one more than an
odd multiple of 4, so two bits of the difference of their hashes are lost, and exactly those.

* `replacement_reaches_root`: another subtree in the place of one.
* `neighbours_swapped_iff`: two children of a node in each other's place.
-/

namespace ChangeQuery

/-! ### Rotation -/

namespace Hash

/-- Rotating puts the lower 38 bits of a word above the upper 26. -/
theorem toNat_finish (state : UInt64) :
    (finish state).toNat = state.toNat % 2 ^ 38 * 2 ^ 26 + state.toNat / 2 ^ 38 := by
  have hlow : (state <<< 26).toNat = (state.toNat % 2 ^ 38) <<< 26 := by
    rw [UInt64.toNat_shiftLeft]
    show state.toNat <<< 26 % 2 ^ 64 = _
    rw [Nat.shiftLeft_eq, Nat.shiftLeft_eq]
    omega
  have hhigh : (state >>> 38).toNat = state.toNat / 2 ^ 38 := by
    rw [UInt64.toNat_shiftRight]
    exact Nat.shiftRight_eq_div_pow _ _
  have hlt : state.toNat / 2 ^ 38 < 2 ^ 26 := by
    have hstate := state.toNat_lt
    omega
  rw [finish, UInt64.toNat_or, hlow, hhigh, ← Nat.shiftLeft_add_eq_or_of_lt hlt, Nat.shiftLeft_eq]

theorem finish_injective : Function.Injective finish := by
  intro a c h
  have hparts : a.toNat % 2 ^ 38 * 2 ^ 26 + a.toNat / 2 ^ 38 =
      c.toNat % 2 ^ 38 * 2 ^ 26 + c.toNat / 2 ^ 38 := by
    rw [← toNat_finish, ← toNat_finish, h]
  have ha := a.toNat_lt
  have hc := c.toNat_lt
  apply UInt64.toNat_inj.mp
  omega

end Hash

/-! ### Along a path -/

/-- The nodes on the way down a path, with the root and the end of the path, have the same hashes in
both trees if the condition holds, and all have other ones if it does not. -/
def Rose.AgreeAlong {α : Type} (hash : Rose α → UInt64) (t t' : Rose α) (path : List ℕ)
    (condition : Prop) : Prop :=
  ∀ above, above <+: path → ∃ n n', t.subtreeAt? above = some n ∧ t'.subtreeAt? above = some n' ∧
    (hash n' = hash n ↔ condition)

/-- The roots have the same hash if the condition holds, and other ones if it does not. -/
theorem Rose.AgreeAlong.root {α : Type} {hash : Rose α → UInt64} {t t' : Rose α} {path : List ℕ}
    {condition : Prop} (h : Rose.AgreeAlong hash t t' path condition) :
    hash t' = hash t ↔ condition := by
  -- The root is at the end of the empty path.
  obtain ⟨n, n', hn, hn', hiff⟩ := h [] List.nil_prefix
  obtain rfl := Option.some.inj hn
  obtain rfl := Option.some.inj hn'
  exact hiff

theorem WordHash.IsReversible.agreeAlong {α : Type} {H : WordHash α} (h : H.IsReversible)
    {t old : Rose α} {path : List ℕ} (hold : t.subtreeAt? path = some old) (new : Rose α) :
    Rose.AgreeAlong H.hash t (t.replaceAt path new) path (H.hash new = H.hash old) := by
  rintro above ⟨below, rfl⟩
  rw [Rose.subtreeAt?_append] at hold
  obtain ⟨n, hn, hold⟩ := Option.bind_eq_some_iff.mp hold
  refine ⟨n, n.replaceAt below new, hn, ?_, h.hash_replaceAt_eq_iff new hold⟩
  rw [Rose.subtreeAt?_replaceAt, hn, Option.map_some]

namespace Fingerprint

/-- The hash of subtrees, as one that is made word by word. -/
def wordHash : WordHash Entry where
  start entry count := Hash.absorb (absorbCategory 0 (.leaf entry)) (UInt64.ofNat count)
  multiplier := Hash.multiplier
  finish := Hash.finish

theorem isReversible_wordHash : wordHash.IsReversible where
  odd := by decide
  injective := Hash.finish_injective

mutual
theorem subtreeHash_eq_hash : ∀ n : Node, subtreeHash n = wordHash.hash n
  | .node entry cs => by
    rw [subtreeHash, WordHash.hash, absorbHashes_eq_absorbHashes _ cs]
    rfl
theorem absorbHashes_eq_absorbHashes : ∀ (state : UInt64) (cs : List Node),
    absorbHashes state cs = wordHash.absorbHashes state cs
  | _, [] => by rw [absorbHashes, WordHash.absorbHashes]
  | state, c :: cs => by
    rw [absorbHashes, WordHash.absorbHashes, subtreeHash_eq_hash c,
      absorbHashes_eq_absorbHashes _ cs]
    rfl
end

/-- **A subtree in another's place** changes all hashes above it or none, whatever the numbers, texts
and vocabularies of the new tree are. -/
theorem agreeAlong_of_skeleton {root root' old new : Node} {path : List ℕ}
    (hold : root.subtreeAt? path = some old)
    (hskeleton : root'.skeleton = Node.skeleton (root.replaceAt path new)) :
    Rose.AgreeAlong subtreeHash root root' path (subtreeHash new = subtreeHash old) := by
  intro above habove
  obtain ⟨n, m, hn, hm, hiff⟩ := isReversible_wordHash.agreeAlong hold new above habove
  -- The node of the new tree with the path of `m`.
  have hpath : (root'.subtreeAt? above).map Node.skeleton = some (Node.skeleton m) := by
    have hmap := congrArg (fun t => Rose.subtreeAt? t above) hskeleton
    simp only [Node.skeleton, Rose.subtreeAt?_map, hm, Option.map_some] at hmap
    exact hmap
  obtain ⟨n', hn', hsame⟩ := Option.map_eq_some_iff.mp hpath
  refine ⟨n, n', hn, hn', ?_⟩
  rw [subtreeHash_eq_of_skeleton_eq n' m hsame, subtreeHash_eq_hash, subtreeHash_eq_hash n,
    subtreeHash_eq_hash new, subtreeHash_eq_hash old]
  exact hiff

/-- **A local change reaches the root.**  If a hash of trees adds the hashes of the children word by
word, with any odd multiplier and with a last step that loses nothing, as a rotation, then a subtree
that is put in the place of another one with another hash changes the hashes of all nodes above.  The
hash of subtrees is made this way.  Every subtree has a path, and the new tree may have any numbers,
texts of tokens and vocabularies. -/
theorem replacement_reaches_root :
    (∀ {α : Type} (H : WordHash α), H.IsReversible →
      ∀ (t old new : Rose α) (path : List ℕ), t.subtreeAt? path = some old →
        Rose.AgreeAlong H.hash t (t.replaceAt path new) path (H.hash new = H.hash old)) ∧
    ∀ root old : Node, old ∈ root.preorder →
      (∃ path, root.subtreeAt? path = some old) ∧
      ∀ path, root.subtreeAt? path = some old →
        ∀ new root' : Node, root'.skeleton = Node.skeleton (root.replaceAt path new) →
          Rose.AgreeAlong subtreeHash root root' path (subtreeHash new = subtreeHash old) ∧
          (subtreeHash new ≠ subtreeHash old → subtreeHash root' ≠ subtreeHash root) := by
  refine ⟨fun H h t old new path hold => h.agreeAlong hold new, fun root old hmem => ?_⟩
  refine ⟨Rose.exists_subtreeAt? hmem, fun path hold new root' hskeleton => ?_⟩
  have hagree := agreeAlong_of_skeleton hold hskeleton
  exact ⟨hagree, hagree.root.not.mpr⟩

/-- A hash of numbers that starts from the number itself. -/
def numberHash (multiplier : UInt64) : WordHash ℕ where
  start v _ := .ofNat v
  multiplier := multiplier
  finish state := state

/-- A call of a function with an argument, two levels below. -/
def callWithArgument (id : ℕ) (argument : Node) : Node :=
  .node ⟨id, .construct ⟨0, 0, "call"⟩⟩
    [.leaf ⟨id + 1, .token "f"⟩,
     .node ⟨id + 2, .construct ⟨0, 1, "args"⟩⟩ [argument, .leaf ⟨id + 4, .token "y"⟩]]

/-- A construct in the place of a token, in a tree with other numbers, and a number in the place of
another one. -/
theorem callWithArgument_replacement :
    (callWithArgument 0 (.leaf ⟨3, .token "x"⟩)).subtreeAt? [1, 0] = some (.leaf ⟨3, .token "x"⟩) ∧
    subtreeHash (.leaf ⟨9, .construct ⟨5, 2, "lambda"⟩⟩) ≠ subtreeHash (.leaf ⟨3, .token "x"⟩) ∧
    subtreeHash (callWithArgument 6 (.leaf ⟨9, .construct ⟨5, 2, "lambda"⟩⟩)) ≠
      subtreeHash (callWithArgument 0 (.leaf ⟨3, .token "x"⟩)) ∧
    (numberHash 3).IsReversible ∧
    Rose.AgreeAlong (numberHash 3).hash (.node 1 [.leaf 2, .leaf 7]) (.node 1 [.leaf 2, .leaf 8]) [1]
      ((numberHash 3).hash (.leaf 8) = (numberHash 3).hash (.leaf 7)) := by
  have hreversible : (numberHash 3).IsReversible := ⟨by decide, fun _ _ h => h⟩
  have hne : subtreeHash (.leaf ⟨9, .construct ⟨5, 2, "lambda"⟩⟩) ≠
      subtreeHash (.leaf ⟨3, .token "x"⟩) := by decide
  have hmem : (.leaf ⟨3, .token "x"⟩ : Node) ∈
      (callWithArgument 0 (.leaf ⟨3, .token "x"⟩)).preorder :=
    .tail _ (.tail _ (.tail _ (.head _)))
  refine ⟨rfl, hne, ?_, hreversible, ?_⟩
  · exact ((replacement_reaches_root.2 _ _ hmem).2 [1, 0] rfl _ _ rfl).2 hne
  · exact replacement_reaches_root.1 (numberHash 3) hreversible (.node 1 [.leaf 2, .leaf 7]) _ _ [1] rfl

/-- **Neighbours that change places** are noticed up to two bits.  If the multiplier is one more than an
odd multiple of 4, then the hash of a node stays the same when two of its children change places, with
any others before and behind them, exactly if the hashes of both agree in their lower 62 bits; and if it
changes, so do all hashes above.  The hash of subtrees has such a multiplier. -/
theorem neighbours_swapped_iff :
    (∀ {α : Type} (H : WordHash α), H.IsReversible → 4 ∣ H.multiplier.toNat - 1 →
      ¬ 8 ∣ H.multiplier.toNat - 1 →
      ∀ (t : Rose α) (path : List ℕ) (v : α) (before after : List (Rose α)) (c d : Rose α),
        t.subtreeAt? path = some (.node v (before ++ c :: d :: after)) →
          Rose.AgreeAlong H.hash t (t.replaceAt path (.node v (before ++ d :: c :: after))) path
            ((H.hash c).toNat ≡ (H.hash d).toNat [MOD 2 ^ 62])) ∧
    ∀ (root root' : Node) (path : List ℕ) (entry : Entry) (before after : List Node) (c d : Node),
      root.subtreeAt? path = some (.node entry (before ++ c :: d :: after)) →
      root'.skeleton = Node.skeleton (root.replaceAt path (.node entry (before ++ d :: c :: after))) →
        Rose.AgreeAlong subtreeHash root root' path
          ((subtreeHash c).toNat ≡ (subtreeHash d).toNat [MOD 2 ^ 62]) := by
  constructor
  · intro α H h hfour height t path v before after c d hnode
    rw [← h.hash_swap_eq_iff hfour height v before after c d]
    exact h.agreeAlong hnode _
  · intro root root' path entry before after c d hnode hskeleton
    have hswap := isReversible_wordHash.hash_swap_eq_iff (by decide) (by decide) entry before after c d
    simp only [← subtreeHash_eq_hash] at hswap
    rw [← hswap]
    exact agreeAlong_of_skeleton hnode hskeleton

/-- A token and a construct change places below a call.  Two numbers that differ in a bit that is lost
have different hashes, and still no hash above them changes. -/
theorem swapped_argument :
    subtreeHash (callWithArgument 0 (.leaf ⟨3, .construct ⟨0, 2, "lambda"⟩⟩)) ≠
      subtreeHash (.node ⟨0, .construct ⟨0, 0, "call"⟩⟩
        [.leaf ⟨1, .token "f"⟩, .node ⟨2, .construct ⟨0, 1, "args"⟩⟩
          [.leaf ⟨3, .token "y"⟩, .leaf ⟨4, .construct ⟨0, 2, "lambda"⟩⟩]]) ∧
    (numberHash 5).IsReversible ∧ 4 ∣ (numberHash 5).multiplier.toNat - 1 ∧
    ¬ 8 ∣ (numberHash 5).multiplier.toNat - 1 ∧
    (numberHash 5).hash (.leaf (2 ^ 62)) ≠ (numberHash 5).hash (.leaf 0) ∧
    (numberHash 5).hash (.node 1 [.leaf 0, .leaf (2 ^ 62)]) =
      (numberHash 5).hash (.node 1 [.leaf (2 ^ 62), .leaf 0]) := by
  have hreversible : (numberHash 5).IsReversible := ⟨by decide, fun _ _ h => h⟩
  refine ⟨?_, hreversible, by decide, by decide, by decide, ?_⟩
  · have hagree := neighbours_swapped_iff.2
      (.node ⟨0, .construct ⟨0, 0, "call"⟩⟩
        [.leaf ⟨1, .token "f"⟩, .node ⟨2, .construct ⟨0, 1, "args"⟩⟩
          [.leaf ⟨3, .token "y"⟩, .leaf ⟨4, .construct ⟨0, 2, "lambda"⟩⟩]])
      (callWithArgument 0 (.leaf ⟨3, .construct ⟨0, 2, "lambda"⟩⟩)) [1] _ [] [] _ _ rfl rfl
    exact hagree.root.not.mpr (by decide)
  · have hagree := neighbours_swapped_iff.1 (numberHash 5) hreversible (by decide) (by decide)
      (.node 1 [.leaf (2 ^ 62), .leaf 0]) [] 1 [] [] _ _ rfl
    exact hagree.root.mpr (by decide)

end Fingerprint

end ChangeQuery
