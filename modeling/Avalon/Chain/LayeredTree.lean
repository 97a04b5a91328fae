/-
The tree built level by level (`naive_layers`, `naive_inclusion_proof` of `crates/chain/src/merkle.rs`) against the
recursive one: the reference the crate tests its audit paths with, here for every size.

`LayeredFold` has the argument, over any operation; the tree's hashes are one (`mth_eq_splitFold`, `path_eq_splitSiblings`).
A result of none is a place behind a layer's end, where the source would panic.
-/
import Mathlib.Tactic
import Avalon.Chain.Merkle
import Avalon.Core.LayeredFold

namespace Avalon.Merkle

open Avalon.SigningBytes LayeredFold

/-! ## Model -/

/-- prev and the layers above it, up to a layer of at most one node -/
def layersFrom (algo : HashAlgo) (prev : List Hash) : List (List Hash) :=
  if _h : prev.length > 1 then prev :: layersFrom algo (pairUp (nodeHash algo) prev) else [prev]
termination_by prev.length
decreasing_by rw [length_pairUp]; omega

/-- all layers, the leaf hashes first -/
def naiveLayers (algo : HashAlgo) (leaves : List Bytes) : List (List Hash) :=
  layersFrom algo (leaves.map (leafHash algo))

/-- the siblings on the way up; n is the size of the layer, idx the place in it -/
def naiveClimb : List (List Hash) → ℕ → ℕ → Option (List Hash)
  | [], _, _ => some []
  | layer :: layers, n, idx => do
    let sibling := idx ^^^ 1
    let above ← naiveClimb layers ((n + 1) / 2) (idx / 2)
    if sibling < n then layer[sibling]?.map fun s => s :: above else some above

def naiveInclusionProof (algo : HashAlgo) (leafIndex : ℕ) (leaves : List Bytes) : Option (List Hash) :=
  let layers := naiveLayers algo leaves
  naiveClimb (layers.take (layers.length - 1)) leaves.length leafIndex

/-! ## The recursive tree as a split of the leaf hashes -/

theorem mth_eq_splitFold (algo : HashAlgo) (leaves : List Bytes) :
    mth algo leaves = splitFold (nodeHash algo) (emptyRoot algo) (leaves.map (leafHash algo)) := by
  fun_induction mth algo leaves with
  | case1 => simp [splitFold]
  | case2 d => simp
  | case3 d0 d1 rest n k ihl ihr =>
    rw [splitFold_split _ _ (by simp), ← List.map_take, ← List.map_drop, List.length_map, ← splitPoint_eq, ihl, ihr]

theorem path_eq_splitSiblings (algo : HashAlgo) (m : ℕ) (leaves : List Bytes) :
    path algo m leaves = splitSiblings (nodeHash algo) (emptyRoot algo) m (leaves.map (leafHash algo)) := by
  fun_induction path algo m leaves with
  | case1 m d h => rw [splitSiblings_of_le_one _ _ _ (by simpa using h)]
  | case2 m d h k hside ih =>
    rw [splitSiblings_split _ _ _ (by simp; omega), List.length_map, ← splitPoint_eq, if_pos hside, ih, List.map_take,
      ← List.map_drop, mth_eq_splitFold]
  | case3 m d h k hside ih =>
    rw [splitSiblings_split _ _ _ (by simp; omega), List.length_map, ← splitPoint_eq, if_neg hside, ih, List.map_drop,
      ← List.map_take, mth_eq_splitFold]

/-! ## The layers -/

theorem layersFrom_ne_nil (algo : HashAlgo) (prev : List Hash) : layersFrom algo prev ≠ [] := by
  rw [layersFrom]
  split <;> simp

/-- the last layer is the root alone -/
theorem getLast?_layersFrom (algo : HashAlgo) (e : Hash) (prev : List Hash) (h : prev ≠ []) :
    (layersFrom algo prev).getLast? = some [splitFold (nodeHash algo) e prev] := by
  fun_induction layersFrom algo prev with
  | case1 prev hmany ih =>
    have hnext : pairUp (nodeHash algo) prev ≠ [] := by
      rw [← List.length_pos_iff, length_pairUp]; omega
    rw [List.getLast?_cons_of_ne_nil (layersFrom_ne_nil _ _), ih hnext, splitFold_pairUp]
  | case2 prev hone =>
    have hpos := List.length_pos_iff.2 h
    obtain ⟨a, rfl⟩ := List.length_eq_one_iff.1 (show prev.length = 1 by omega)
    simp

theorem naiveClimb_layersFrom (algo : HashAlgo) (e : Hash) (prev : List Hash) {idx : ℕ} (h : idx < prev.length) :
    naiveClimb (layersFrom algo prev).dropLast prev.length idx =
      some (splitSiblings (nodeHash algo) e idx prev) := by
  fun_induction layersFrom algo prev generalizing idx with
  | case1 prev hmany ih =>
    have habove : idx / 2 < (pairUp (nodeHash algo) prev).length := by rw [length_pairUp]; omega
    rw [List.dropLast_cons_of_ne_nil (layersFrom_ne_nil _ _), naiveClimb, ← length_pairUp (nodeHash algo), ih habove,
      splitSiblings_pairUp _ _ _ h, sibling]
    simp only [Option.bind_eq_bind, Option.bind_some]
    split
    · rename_i hlt
      rw [List.getElem?_eq_getElem hlt]; rfl
    · rename_i hge
      rw [List.getElem?_eq_none (by omega)]; rfl
  | case2 prev hone =>
    rw [splitSiblings_of_le_one _ _ _ (by omega)]
    rfl

theorem naiveInclusionProof_eq (algo : HashAlgo) {leafIndex : ℕ} {leaves : List Bytes} (h : leafIndex < leaves.length) :
    naiveInclusionProof algo leafIndex leaves = some (path algo leafIndex leaves) := by
  have hindex : leafIndex < (leaves.map (leafHash algo)).length := by rwa [List.length_map]
  have hclimb := naiveClimb_layersFrom algo (emptyRoot algo) (leaves.map (leafHash algo)) hindex
  rw [List.dropLast_eq_take, List.length_map] at hclimb
  rw [naiveInclusionProof, path_eq_splitSiblings]
  exact hclimb

/-- **Both trees are one**: the last layer is the recursive root alone, and the siblings met on the way up are the audit
path, for every index of a leaf; for any other there is no path. -/
theorem layered_agrees (algo : HashAlgo) (leaves : List Bytes) (h : leaves ≠ []) :
    (naiveLayers algo leaves).getLast? = some [mth algo leaves] ∧
      ∀ leafIndex, if leafIndex < leaves.length then
          ∃ siblings, naiveInclusionProof algo leafIndex leaves = some siblings ∧
            inclusionProof algo leafIndex leaves = .ok siblings
        else ∃ error, inclusionProof algo leafIndex leaves = .error error := by
  refine ⟨?_, fun leafIndex => ?_⟩
  · rw [naiveLayers, getLast?_layersFrom algo (emptyRoot algo) _ (by simpa), mth_eq_splitFold]
  · split
    · rename_i hlt
      exact ⟨_, naiveInclusionProof_eq algo hlt, by rw [inclusionProof, if_neg (by omega)]⟩
    · rename_i hge
      exact ⟨_, by rw [inclusionProof, if_pos (by omega)]⟩

theorem layered_agrees_three :
    (naiveLayers .sha256 [[], [0x00], [0x10]]).getLast? = some [mth .sha256 [[], [0x00], [0x10]]] :=
  (layered_agrees .sha256 [[], [0x00], [0x10]] (by simp)).1

end Avalon.Merkle
