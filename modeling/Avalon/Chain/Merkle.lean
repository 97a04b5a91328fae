/-
RFC 6962 Merkle tree hashing, audit paths and consistency proofs (`crates/chain/src/merkle.rs`).

The model is the source's recursions: `mth`, `path`, `verifyPath`, `subproof`, `verifySubproof`, each splitting n leaves
at `splitPoint n`. A proof is a list of hashes, last element first consumed (`split_last`). `none` is the source's
`None`; error texts are the source's.

Results, for every leaf list and every list of proof hashes:
- `inclusion_complete`, `consistency_complete`: generated proofs verify, and no proof of another length does.
- `inclusion_sound`, `consistency_sound`: an accepted proof shows the leaf at its position, or the prefix, unless an
  explicit collision of the digest is extracted. The extractors (`inclusionCollision`, `consistencyCollision`) search
  the byte strings hashed by the honest trees (`mthInputs`) and by the verifier (`verifyPathInputs`,
  `verifySubproofInputs`) on exactly these inputs.
-/
import Mathlib.Tactic
import Avalon.Core.Bytes
import Avalon.Core.Collision
import Avalon.Core.Pow2Split
import Avalon.Protocol.SigningBytes

namespace Avalon.Merkle

open Avalon.SigningBytes Collision

abbrev Hash := FixedBytes 32

/-! ## Model -/

def leafHashPrefix : UInt8 := 0x00

def nodeHashPrefix : UInt8 := 0x01

/-- the root of a tree without leaves: the digest of the empty string -/
def emptyRoot (algo : HashAlgo) : Hash := algo.digest []

/-- the bytes a leaf hash digests -/
def leafInput (data : Bytes) : Bytes := leafHashPrefix :: data

/-- the bytes a node hash digests -/
def nodeInput (left right : Hash) : Bytes := nodeHashPrefix :: (left.toList ++ right.toList)

def leafHash (algo : HashAlgo) (data : Bytes) : Hash := algo.digest (leafInput data)

def nodeHash (algo : HashAlgo) (left right : Hash) : Hash := algo.digest (nodeInput left right)

/-- `1 << (BITS - 1 - (n - 1).leading_zeros())`: the shift is the base-2 logarithm of n - 1 -/
def splitPoint (n : ℕ) : ℕ := 1 <<< Nat.log2 (n - 1)

theorem splitPoint_eq (n : ℕ) : splitPoint n = pow2Below n := by
  simp [splitPoint, pow2Below, Nat.shiftLeft_eq]

theorem splitPoint_pos (n : ℕ) : 0 < splitPoint n := splitPoint_eq n ▸ pow2Below_pos n

theorem splitPoint_lt {n : ℕ} (h : ¬ n ≤ 1) : splitPoint n < n := splitPoint_eq n ▸ pow2Below_lt (by omega)

/-- the Merkle tree hash of the leaf data, in order -/
def mth (algo : HashAlgo) (leaves : List Bytes) : Hash :=
  match leaves with
  | [] => emptyRoot algo
  | [d] => leafHash algo d
  | d0 :: d1 :: rest =>
    let n := (d0 :: d1 :: rest).length
    let k := splitPoint n
    nodeHash algo (mth algo ((d0 :: d1 :: rest).take k)) (mth algo ((d0 :: d1 :: rest).drop k))
termination_by leaves.length
decreasing_by
  · have := splitPoint_lt (n := (d0 :: d1 :: rest).length) (by simp)
    simp only [List.length_take]; omega
  · have := splitPoint_pos (d0 :: d1 :: rest).length
    simp only [List.length_drop, List.length_cons] at this ⊢; omega

/-- the audit path of leaf m, from the leaf to the root -/
def path (algo : HashAlgo) (m : ℕ) (d : List Bytes) : List Hash :=
  if _h : d.length ≤ 1 then []
  else
    let k := splitPoint d.length
    if m < k then path algo m (d.take k) ++ [mth algo (d.drop k)]
    else path algo (m - k) (d.drop k) ++ [mth algo (d.take k)]
termination_by d.length
decreasing_by
  · have := splitPoint_lt _h; simp only [List.length_take]; omega
  · have := splitPoint_pos d.length; simp only [List.length_drop]; omega

def inclusionProof (algo : HashAlgo) (leafIndex : ℕ) (leaves : List Bytes) : Except String (List Hash) :=
  let n := leaves.length
  if leafIndex ≥ n then .error s!"leaf_index {leafIndex} out of range for tree size {n}"
  else .ok (path algo leafIndex leaves)

/-- the root an audit path rebuilds; `none` when the path has the wrong length for the shape -/
def verifyPath (algo : HashAlgo) (m n : ℕ) (leaf : Hash) (proof : List Hash) : Option Hash :=
  if _h : n ≤ 1 then (if proof.isEmpty then some leaf else none)
  else
    let k := splitPoint n
    match proof.getLast? with
    | none => none
    | some last =>
      let rest := proof.dropLast
      if m < k then
        match verifyPath algo m k leaf rest with
        | none => none
        | some left => some (nodeHash algo left last)
      else
        match verifyPath algo (m - k) (n - k) leaf rest with
        | none => none
        | some right => some (nodeHash algo last right)
termination_by n
decreasing_by
  · exact splitPoint_lt _h
  · have := splitPoint_pos n; omega

def verifyInclusionProof (algo : HashAlgo) (leafData : Bytes) (leafIndex treeSize : ℕ) (proof : List Hash)
    (root : Hash) : Bool :=
  if leafIndex ≥ treeSize then false
  else
    match verifyPath algo leafIndex treeSize (leafHash algo leafData) proof with
    | some reconstructed => reconstructed == root
    | none => false

/-- the consistency proof of the first m of the leaves d; b says whether the verifier already knows the subtree -/
def subproof (algo : HashAlgo) (m : ℕ) (d : List Bytes) (b : Bool) : List Hash :=
  if m = d.length then (if b then [] else [mth algo d])
  else if _h : d.length ≤ 1 then [] -- no split point: the callers keep 1 ≤ m ≤ d.length
  else
    let k := splitPoint d.length
    if m ≤ k then subproof algo m (d.take k) b ++ [mth algo (d.drop k)]
    else subproof algo (m - k) (d.drop k) false ++ [mth algo (d.take k)]
termination_by d.length
decreasing_by
  · have := splitPoint_lt _h; simp only [List.length_take]; omega
  · have := splitPoint_pos d.length; simp only [List.length_drop]; omega

def consistencyProof (algo : HashAlgo) (first : ℕ) (leaves : List Bytes) : Except String (List Hash) :=
  let n := leaves.length
  if first = 0 then .ok []
  else if first > n then .error s!"first {first} exceeds tree size {n}"
  else if first = n then .ok []
  else .ok (subproof algo first leaves true)

/-- the pair (old root, new root) a consistency proof rebuilds, seeded with the trusted old root -/
def verifySubproof (algo : HashAlgo) (m n : ℕ) (proof : List Hash) (b : Bool) (oldRoot : Hash) :
    Option (Hash × Hash) :=
  if m = n then
    if b then (if !proof.isEmpty then none else some (oldRoot, oldRoot))
    else
      match proof with
      | [only] => some (only, only)
      | _ => none
  else if m < n then
    if _h : n ≤ 1 then none -- no split point: the callers keep 1 ≤ m
    else
      let k := splitPoint n
      match proof.getLast? with
      | none => none
      | some last =>
        let rest := proof.dropLast
        if m ≤ k then
          match verifySubproof algo m k rest b oldRoot with
          | none => none
          | some (oldL, newL) => some (oldL, nodeHash algo newL last)
        else
          match verifySubproof algo (m - k) (n - k) rest false oldRoot with
          | none => none
          | some (oldR, newR) => some (nodeHash algo last oldR, nodeHash algo last newR)
  else none
termination_by n
decreasing_by
  · exact splitPoint_lt _h
  · have := splitPoint_pos n; omega

def verifyConsistencyProof (algo : HashAlgo) (first second : ℕ) (proof : List Hash) (oldRoot newRoot : Hash) : Bool :=
  if first > second then false
  else if first = 0 then true
  else if first = second then proof.isEmpty && oldRoot == newRoot
  else
    match verifySubproof algo first second proof true oldRoot with
    | some (oldH, newH) => oldH == oldRoot && newH == newRoot
    | none => false

/-! ## Equations at a split -/

theorem mth_nil (algo : HashAlgo) : mth algo [] = emptyRoot algo := by rw [mth]

theorem mth_singleton (algo : HashAlgo) (d : Bytes) : mth algo [d] = leafHash algo d := by rw [mth]

example : hexEncode (mth .sha256 [[], [0x00]]).toList =
    "fac54203e7cc696cf0dfcb42c92a1d9dbaf70ad9e621f4bd8d98662f00e3c125" := by
  decide +kernel

theorem mth_split (algo : HashAlgo) (l : List Bytes) (h : 2 ≤ l.length) :
    mth algo l = nodeHash algo (mth algo (l.take (splitPoint l.length))) (mth algo (l.drop (splitPoint l.length))) := by
  match l, h with
  | d0 :: d1 :: rest, _ => rw [mth]

theorem path_split (algo : HashAlgo) (m : ℕ) {d : List Bytes} (h : 2 ≤ d.length) :
    path algo m d =
      if m < splitPoint d.length then
        path algo m (d.take (splitPoint d.length)) ++ [mth algo (d.drop (splitPoint d.length))]
      else path algo (m - splitPoint d.length) (d.drop (splitPoint d.length)) ++
        [mth algo (d.take (splitPoint d.length))] := by
  rw [path, dif_neg (by omega)]

theorem verifyPath_one (algo : HashAlgo) (m : ℕ) (leaf : Hash) (proof : List Hash) :
    verifyPath algo m 1 leaf proof = if proof.isEmpty then some leaf else none := by
  rw [verifyPath, dif_pos le_rfl]

theorem verifyPath_nil (algo : HashAlgo) (m : ℕ) {n : ℕ} (leaf : Hash) (h : 2 ≤ n) :
    verifyPath algo m n leaf [] = none := by
  rw [verifyPath, dif_neg (by omega)]; rfl

theorem verifyPath_concat (algo : HashAlgo) (m : ℕ) {n : ℕ} (leaf last : Hash) (rest : List Hash) (h : 2 ≤ n) :
    verifyPath algo m n leaf (rest ++ [last]) =
      if m < splitPoint n then (verifyPath algo m (splitPoint n) leaf rest).map fun left => nodeHash algo left last
      else (verifyPath algo (m - splitPoint n) (n - splitPoint n) leaf rest).map fun right =>
        nodeHash algo last right := by
  rw [verifyPath, dif_neg (by omega)]
  simp only [List.getLast?_concat, List.dropLast_concat]
  split_ifs
  · cases verifyPath algo m (splitPoint n) leaf rest <;> rfl
  · cases verifyPath algo (m - splitPoint n) (n - splitPoint n) leaf rest <;> rfl

theorem subproof_self (algo : HashAlgo) (d : List Bytes) (b : Bool) :
    subproof algo d.length d b = if b then [] else [mth algo d] := by
  rw [subproof, if_pos rfl]

theorem subproof_split (algo : HashAlgo) {m : ℕ} {d : List Bytes} (b : Bool) (hm : m ≠ d.length) (h : 2 ≤ d.length) :
    subproof algo m d b =
      if m ≤ splitPoint d.length then
        subproof algo m (d.take (splitPoint d.length)) b ++ [mth algo (d.drop (splitPoint d.length))]
      else subproof algo (m - splitPoint d.length) (d.drop (splitPoint d.length)) false ++
        [mth algo (d.take (splitPoint d.length))] := by
  rw [subproof, if_neg hm, dif_neg (by omega)]

theorem verifySubproof_self_true (algo : HashAlgo) (n : ℕ) (proof : List Hash) (oldRoot : Hash) :
    verifySubproof algo n n proof true oldRoot = if proof = [] then some (oldRoot, oldRoot) else none := by
  unfold verifySubproof
  cases proof <;> simp

theorem verifySubproof_self_false (algo : HashAlgo) (n : ℕ) (proof : List Hash) (oldRoot : Hash) :
    verifySubproof algo n n proof false oldRoot =
      match proof with
      | [only] => some (only, only)
      | _ => none := by
  unfold verifySubproof
  simp

theorem verifySubproof_nil (algo : HashAlgo) {m n : ℕ} (b : Bool) (oldRoot : Hash) (h : m < n) :
    verifySubproof algo m n [] b oldRoot = none := by
  unfold verifySubproof
  rw [if_neg (by omega), if_pos h]
  split_ifs <;> rfl

theorem verifySubproof_concat (algo : HashAlgo) {m n : ℕ} (last : Hash) (rest : List Hash) (b : Bool) (oldRoot : Hash)
    (hm : 1 ≤ m) (h : m < n) :
    verifySubproof algo m n (rest ++ [last]) b oldRoot =
      if m ≤ splitPoint n then
        (verifySubproof algo m (splitPoint n) rest b oldRoot).map fun p => (p.1, nodeHash algo p.2 last)
      else (verifySubproof algo (m - splitPoint n) (n - splitPoint n) rest false oldRoot).map fun p =>
        (nodeHash algo last p.1, nodeHash algo last p.2) := by
  conv_lhs => unfold verifySubproof
  rw [if_neg (by omega), if_pos h, dif_neg (by omega)]
  simp only [List.getLast?_concat, List.dropLast_concat]
  split_ifs
  · cases verifySubproof algo m (splitPoint n) rest b oldRoot <;> rfl
  · cases verifySubproof algo (m - splitPoint n) (n - splitPoint n) rest false oldRoot <;> rfl

/-! ## Completeness -/

/-- the verifier rebuilds the root from a generated path -/
theorem verifyPath_path (algo : HashAlgo) (n : ℕ) (hn : 1 ≤ n) :
    ∀ (l : List Bytes) (m : ℕ) (hm : m < l.length), l.length = n →
      verifyPath algo m n (leafHash algo l[m]) (path algo m l) = some (mth algo l) := by
  induction n, hn using pow2_induction with
  | one =>
    intro l m hm hl
    obtain ⟨d, rfl⟩ := List.length_eq_one_iff.1 hl
    have hm0 : m = 0 := by simpa using hm
    subst hm0
    rw [verifyPath_one, path, dif_pos (by simp), mth_singleton]
    rfl
  | split n hn ihl ihr =>
    intro l m hm hl
    have hk := splitPoint_lt (n := n) (by omega)
    rw [← splitPoint_eq] at ihl ihr
    rw [path_split algo m (by omega), mth_split algo l (by omega), hl]
    split_ifs with hmk
    · have ih := ihl (l.take (splitPoint n)) m (by simp; omega) (by simp; omega)
      simp only [List.getElem_take] at ih
      rw [verifyPath_concat algo m _ _ _ hn, if_pos hmk, ih]
      rfl
    · have ih := ihr (l.drop (splitPoint n)) (m - splitPoint n) (by simp; omega) (by simp; omega)
      simp only [List.getElem_drop, Nat.add_sub_cancel' (not_lt.1 hmk)] at ih
      rw [verifyPath_concat algo m _ _ _ hn, if_neg hmk, ih]
      rfl

/-- the number of hashes a consistency proof from m to n has -/
def subproofLength (m n : ℕ) (b : Bool) : ℕ :=
  if m = n then (if b then 0 else 1)
  else if _h : n ≤ 1 then 0
  else if m ≤ splitPoint n then subproofLength m (splitPoint n) b + 1
  else subproofLength (m - splitPoint n) (n - splitPoint n) false + 1
termination_by n
decreasing_by
  · exact splitPoint_lt _h
  · have := splitPoint_pos n; omega

/-- **The verifier consumes exactly its proof**: a proof of any other length is refused -/
theorem length_of_verifySubproof (algo : HashAlgo) (n : ℕ) (hn : 1 ≤ n) :
    ∀ (m : ℕ) (b : Bool) (proof : List Hash) (oldRoot : Hash) (r : Hash × Hash), 1 ≤ m → m ≤ n →
      verifySubproof algo m n proof b oldRoot = some r → proof.length = subproofLength m n b := by
  have base : ∀ (n : ℕ) (b : Bool) (proof : List Hash) (oldRoot : Hash) (r : Hash × Hash),
      verifySubproof algo n n proof b oldRoot = some r → proof.length = subproofLength n n b := by
    intro n b proof oldRoot r h
    rw [subproofLength, if_pos rfl]
    cases b with
    | true =>
      rw [verifySubproof_self_true] at h
      split_ifs at h with hp
      simp [hp]
    | false =>
      rw [verifySubproof_self_false] at h
      split at h
      · rfl
      · cases h
  induction n, hn using pow2_induction with
  | one =>
    intro m b proof oldRoot r hm1 hm h
    have : m = 1 := by omega
    subst this
    exact base 1 b proof oldRoot r h
  | split n hn ihl ihr =>
    intro m b proof oldRoot r hm1 hm h
    rw [← splitPoint_eq] at ihl ihr
    have hk := splitPoint_lt (n := n) (by omega)
    rcases Nat.eq_or_lt_of_le hm with rfl | hlt
    · exact base m b proof oldRoot r h
    · rcases List.eq_nil_or_concat' proof with rfl | ⟨rest, last, rfl⟩
      · rw [verifySubproof_nil algo b oldRoot hlt] at h; cases h
      · rw [verifySubproof_concat algo last rest b oldRoot hm1 hlt] at h
        rw [subproofLength, if_neg (by omega), dif_neg (by omega)]
        split_ifs at h ⊢ with hmk
        · obtain ⟨p, hp, -⟩ := Option.map_eq_some_iff.1 h
          simp [ihl m b rest oldRoot p hm1 hmk hp]
        · obtain ⟨p, hp, -⟩ := Option.map_eq_some_iff.1 h
          simp [ihr (m - splitPoint n) false rest oldRoot p (by omega) (by omega) hp]

/-- the verifier rebuilds both roots from a generated consistency proof -/
theorem verifySubproof_subproof (algo : HashAlgo) (n : ℕ) (hn : 1 ≤ n) :
    ∀ (l : List Bytes) (m : ℕ) (b : Bool) (oldRoot : Hash), l.length = n → 1 ≤ m → m ≤ n →
      (b = true → oldRoot = mth algo (l.take m)) →
      verifySubproof algo m n (subproof algo m l b) b oldRoot = some (mth algo (l.take m), mth algo l) := by
  have base : ∀ (l : List Bytes) (b : Bool) (oldRoot : Hash), (b = true → oldRoot = mth algo (l.take l.length)) →
      verifySubproof algo l.length l.length (subproof algo l.length l b) b oldRoot =
        some (mth algo (l.take l.length), mth algo l) := by
    intro l b oldRoot hb
    rw [subproof_self, List.take_length]
    cases b with
    | true => rw [verifySubproof_self_true, hb rfl, List.take_length]; simp
    | false => rw [verifySubproof_self_false]; simp
  induction n, hn using pow2_induction with
  | one =>
    intro l m b oldRoot hl hm1 hm hb
    have : m = l.length := by omega
    subst this
    rw [← hl]
    exact base l b oldRoot hb
  | split n hn ihl ihr =>
    intro l m b oldRoot hl hm1 hm hb
    rw [← splitPoint_eq] at ihl ihr
    have hk := splitPoint_lt (n := n) (by omega)
    rcases Nat.eq_or_lt_of_le hm with rfl | hlt
    · subst hl; exact base l b oldRoot hb
    · rw [subproof_split algo b (by omega) (by omega), mth_split algo l (by omega), hl]
      split_ifs with hmk
      · have htake : (l.take (splitPoint n)).take m = l.take m := by rw [List.take_take, min_eq_left hmk]
        have ih := ihl (l.take (splitPoint n)) m b oldRoot (by simp; omega) hm1 hmk (by rw [htake]; exact hb)
        rw [verifySubproof_concat algo _ _ b oldRoot hm1 hlt, if_pos hmk, ih, htake]
        rfl
      · -- the old tree reaches past the split, so it splits at the same point
        have hsame : splitPoint m = splitPoint n := by
          rw [splitPoint_eq, splitPoint_eq]
          exact pow2Below_of_lt (by rw [← splitPoint_eq]; omega) hm
        have ih := ihr (l.drop (splitPoint n)) (m - splitPoint n) false oldRoot (by simp; omega) (by omega) (by omega)
          (by simp)
        have hml : (l.take m).length = m := by simp; omega
        have hpos := splitPoint_pos n
        rw [verifySubproof_concat algo _ _ b oldRoot hm1 hlt, if_neg hmk, ih, mth_split algo (l.take m) (by omega),
          hml, hsame, List.take_take, min_eq_left (by omega), List.drop_take]
        rfl

/-! ## What the trees and the verifiers hash -/

/-- every byte string `mth` digests -/
def mthInputs (algo : HashAlgo) (leaves : List Bytes) : List Bytes :=
  match leaves with
  | [] => [[]]
  | [d] => [leafInput d]
  | d0 :: d1 :: rest =>
    let k := splitPoint (d0 :: d1 :: rest).length
    let left := (d0 :: d1 :: rest).take k
    let right := (d0 :: d1 :: rest).drop k
    nodeInput (mth algo left) (mth algo right) :: (mthInputs algo left ++ mthInputs algo right)
termination_by leaves.length
decreasing_by
  · have := splitPoint_lt (n := (d0 :: d1 :: rest).length) (by simp)
    simp only [List.length_take]; omega
  · have := splitPoint_pos (d0 :: d1 :: rest).length
    simp only [List.length_drop, List.length_cons] at this ⊢; omega

/-- every byte string `verifyPath` digests -/
def verifyPathInputs (algo : HashAlgo) (m n : ℕ) (leaf : Hash) (proof : List Hash) : List Bytes :=
  if _h : n ≤ 1 then []
  else
    let k := splitPoint n
    match proof.getLast? with
    | none => []
    | some last =>
      let rest := proof.dropLast
      if m < k then
        ((verifyPath algo m k leaf rest).map fun left => nodeInput left last).toList ++
          verifyPathInputs algo m k leaf rest
      else
        ((verifyPath algo (m - k) (n - k) leaf rest).map fun right => nodeInput last right).toList ++
          verifyPathInputs algo (m - k) (n - k) leaf rest
termination_by n
decreasing_by
  · exact splitPoint_lt _h
  · have := splitPoint_pos n; omega

/-- every byte string `verifySubproof` digests -/
def verifySubproofInputs (algo : HashAlgo) (m n : ℕ) (proof : List Hash) (b : Bool) (oldRoot : Hash) : List Bytes :=
  if _h : n ≤ 1 then []
  else
    let k := splitPoint n
    match proof.getLast? with
    | none => []
    | some last =>
      let rest := proof.dropLast
      if m ≤ k then
        ((verifySubproof algo m k rest b oldRoot).map fun p => nodeInput p.2 last).toList ++
          verifySubproofInputs algo m k rest b oldRoot
      else
        ((verifySubproof algo (m - k) (n - k) rest false oldRoot).map fun p => nodeInput last p.1).toList ++
        ((verifySubproof algo (m - k) (n - k) rest false oldRoot).map fun p => nodeInput last p.2).toList ++
          verifySubproofInputs algo (m - k) (n - k) rest false oldRoot
termination_by n
decreasing_by
  · exact splitPoint_lt _h
  · have := splitPoint_pos n; omega

/-- the collision an accepted inclusion proof of a wrong leaf leads to -/
def inclusionCollision (algo : HashAlgo) (leaves : List Bytes) (leafData : Bytes) (leafIndex treeSize : ℕ)
    (proof : List Hash) : Option (Bytes × Bytes) :=
  findCollision algo.digest
    (mthInputs algo leaves ++ leafInput leafData ::
      verifyPathInputs algo leafIndex treeSize (leafHash algo leafData) proof)

/-- the collision an accepted consistency proof between diverging histories leads to -/
def consistencyCollision (algo : HashAlgo) (old new : List Bytes) (proof : List Hash) : Option (Bytes × Bytes) :=
  findCollision algo.digest
    (mthInputs algo old ++ mthInputs algo new ++
      verifySubproofInputs algo old.length new.length proof true (mth algo old))

theorem mthInputs_singleton (algo : HashAlgo) (d : Bytes) : mthInputs algo [d] = [leafInput d] := by rw [mthInputs]

theorem mthInputs_split (algo : HashAlgo) (l : List Bytes) (h : 2 ≤ l.length) :
    mthInputs algo l =
      nodeInput (mth algo (l.take (splitPoint l.length))) (mth algo (l.drop (splitPoint l.length))) ::
        (mthInputs algo (l.take (splitPoint l.length)) ++ mthInputs algo (l.drop (splitPoint l.length))) := by
  match l, h with
  | d0 :: d1 :: rest, _ => rw [mthInputs]

theorem verifyPathInputs_concat (algo : HashAlgo) (m : ℕ) {n : ℕ} (leaf last : Hash) (rest : List Hash) (h : 2 ≤ n) :
    verifyPathInputs algo m n leaf (rest ++ [last]) =
      if m < splitPoint n then
        ((verifyPath algo m (splitPoint n) leaf rest).map fun left => nodeInput left last).toList ++
          verifyPathInputs algo m (splitPoint n) leaf rest
      else
        ((verifyPath algo (m - splitPoint n) (n - splitPoint n) leaf rest).map fun right =>
          nodeInput last right).toList ++
          verifyPathInputs algo (m - splitPoint n) (n - splitPoint n) leaf rest := by
  conv_lhs => unfold verifyPathInputs
  rw [dif_neg (by omega)]
  simp only [List.getLast?_concat, List.dropLast_concat]

theorem verifySubproofInputs_concat (algo : HashAlgo) (m : ℕ) {n : ℕ} (last : Hash) (rest : List Hash) (b : Bool)
    (oldRoot : Hash) (h : 2 ≤ n) :
    verifySubproofInputs algo m n (rest ++ [last]) b oldRoot =
      if m ≤ splitPoint n then
        ((verifySubproof algo m (splitPoint n) rest b oldRoot).map fun p => nodeInput p.2 last).toList ++
          verifySubproofInputs algo m (splitPoint n) rest b oldRoot
      else
        ((verifySubproof algo (m - splitPoint n) (n - splitPoint n) rest false oldRoot).map fun p =>
          nodeInput last p.1).toList ++
        ((verifySubproof algo (m - splitPoint n) (n - splitPoint n) rest false oldRoot).map fun p =>
          nodeInput last p.2).toList ++
          verifySubproofInputs algo (m - splitPoint n) (n - splitPoint n) rest false oldRoot := by
  conv_lhs => unfold verifySubproofInputs
  rw [dif_neg (by omega)]
  simp only [List.getLast?_concat, List.dropLast_concat]

/-! ## Soundness up to explicit collisions -/

section Soundness

variable {algo : HashAlgo} {S : List Bytes}

theorem nodeInput_inj {a b c d : Hash} (h : nodeInput a b = nodeInput c d) : a = c ∧ b = d := by
  simp only [nodeInput, List.cons.injEq, true_and] at h
  obtain ⟨h1, h2⟩ := FixedBytes.append_inj_fixed h
  exact ⟨h1, FixedBytes.toList_inj h2⟩

/-- equal node hashes over listed inputs have equal children, or collide -/
theorem node_inj_or {a b c d : Hash} (ha : nodeInput a b ∈ S) (hc : nodeInput c d ∈ S)
    (h : nodeHash algo a b = nodeHash algo c d) : (a = c ∧ b = d) ∨ CollisionIn algo.digest S := by
  rcases eq_or_collision ha hc h with he | hcol
  · exact Or.inl (nodeInput_inj he)
  · exact Or.inr hcol

/-- equal leaf hashes over listed inputs have equal data, or collide -/
theorem leaf_inj_or {x y : Bytes} (hx : leafInput x ∈ S) (hy : leafInput y ∈ S)
    (h : leafHash algo x = leafHash algo y) : x = y ∨ CollisionIn algo.digest S := by
  rcases eq_or_collision hx hy h with he | hcol
  · exact Or.inl (List.cons.inj he).2
  · exact Or.inr hcol

/-- **The root pins the leaves**: two lists of one length with the same root are equal, or collide -/
theorem mth_inj_or (n : ℕ) (hn : 1 ≤ n) :
    ∀ l l' : List Bytes, l.length = n → l'.length = n → mthInputs algo l ⊆ S → mthInputs algo l' ⊆ S →
      mth algo l = mth algo l' → l = l' ∨ CollisionIn algo.digest S := by
  induction n, hn using pow2_induction with
  | one =>
    intro l l' hl hl' hs hs' h
    obtain ⟨d, rfl⟩ := List.length_eq_one_iff.1 hl
    obtain ⟨d', rfl⟩ := List.length_eq_one_iff.1 hl'
    rw [mth_singleton, mth_singleton] at h
    rw [mthInputs_singleton] at hs hs'
    rcases leaf_inj_or (hs (by simp)) (hs' (by simp)) h with rfl | hcol
    · exact Or.inl rfl
    · exact Or.inr hcol
  | split n hn ihl ihr =>
    intro l l' hl hl' hs hs' h
    rw [← splitPoint_eq] at ihl ihr
    have hk := splitPoint_lt (n := n) (by omega)
    rw [mth_split algo l (by omega), mth_split algo l' (by omega), hl, hl'] at h
    rw [mthInputs_split algo l (by omega), hl, List.cons_subset, List.append_subset] at hs
    rw [mthInputs_split algo l' (by omega), hl', List.cons_subset, List.append_subset] at hs'
    rcases node_inj_or hs.1 hs'.1 h with ⟨h1, h2⟩ | hcol
    · rcases ihl _ _ (by simp; omega) (by simp; omega) hs.2.1 hs'.2.1 h1 with e1 | hcol
      · rcases ihr _ _ (by simp; omega) (by simp; omega) hs.2.2 hs'.2.2 h2 with e2 | hcol
        · left
          rw [← List.take_append_drop (splitPoint n) l, ← List.take_append_drop (splitPoint n) l', e1, e2]
        · exact Or.inr hcol
      · exact Or.inr hcol
    · exact Or.inr hcol

/-- a path that rebuilds the root of a tree starts from the tree's own leaf hash, or there is a collision -/
theorem verifyPath_sound (n : ℕ) (hn : 1 ≤ n) :
    ∀ (l : List Bytes) (m : ℕ) (leaf : Hash) (proof : List Hash), l.length = n → m < n →
      mthInputs algo l ⊆ S → verifyPathInputs algo m n leaf proof ⊆ S →
      verifyPath algo m n leaf proof = some (mth algo l) →
      (∃ d, l[m]? = some d ∧ leaf = leafHash algo d ∧ leafInput d ∈ S) ∨ CollisionIn algo.digest S := by
  induction n, hn using pow2_induction with
  | one =>
    intro l m leaf proof hl hm hs _ h
    obtain ⟨d, rfl⟩ := List.length_eq_one_iff.1 hl
    have hm0 : m = 0 := by omega
    subst hm0
    rw [verifyPath_one, mth_singleton] at h
    split_ifs at h
    rw [mthInputs_singleton] at hs
    exact Or.inl ⟨d, rfl, Option.some.inj h, hs (by simp)⟩
  | split n hn ihl ihr =>
    intro l m leaf proof hl hm hs hv h
    rw [← splitPoint_eq] at ihl ihr
    have hk := splitPoint_lt (n := n) (by omega)
    rcases List.eq_nil_or_concat' proof with rfl | ⟨rest, last, rfl⟩
    · rw [verifyPath_nil algo m leaf hn] at h; cases h
    · rw [verifyPath_concat algo m leaf last rest hn, mth_split algo l (by omega), hl] at h
      rw [mthInputs_split algo l (by omega), hl, List.cons_subset, List.append_subset] at hs
      rw [verifyPathInputs_concat algo m leaf last rest hn] at hv
      split_ifs at h hv with hmk
      · obtain ⟨left, hleft, hnode⟩ := Option.map_eq_some_iff.1 h
        rw [hleft, Option.map_some, Option.toList_some, List.singleton_append, List.cons_subset] at hv
        rcases node_inj_or hv.1 hs.1 hnode with ⟨rfl, -⟩ | hcol
        · rcases ihl _ m leaf rest (by simp; omega) hmk hs.2.1 hv.2 hleft with ⟨d, hd, hrest⟩ | hcol
          · refine Or.inl ⟨d, ?_, hrest⟩
            rwa [List.getElem?_take_of_lt hmk] at hd
          · exact Or.inr hcol
        · exact Or.inr hcol
      · obtain ⟨right, hright, hnode⟩ := Option.map_eq_some_iff.1 h
        rw [hright, Option.map_some, Option.toList_some, List.singleton_append, List.cons_subset] at hv
        rcases node_inj_or hv.1 hs.1 hnode with ⟨-, rfl⟩ | hcol
        · rcases ihr _ (m - splitPoint n) leaf rest (by simp; omega) (by omega) hs.2.2 hv.2 hright with
            ⟨d, hd, hrest⟩ | hcol
          · refine Or.inl ⟨d, ?_, hrest⟩
            rwa [List.getElem?_drop, Nat.add_sub_cancel' (not_lt.1 hmk)] at hd
          · exact Or.inr hcol
        · exact Or.inr hcol

/-- a proof between trees of one size: both roots are the same -/
theorem verifySubproof_self_sound {old new : List Bytes} {b : Bool} {proof : List Hash} {oldRoot : Hash}
    (hold : 1 ≤ old.length) (hlen : new.length = old.length) (hso : mthInputs algo old ⊆ S)
    (hsn : mthInputs algo new ⊆ S)
    (h : verifySubproof algo old.length old.length proof b oldRoot = some (mth algo old, mth algo new)) :
    old = new.take old.length ∨ CollisionIn algo.digest S := by
  have hroots : mth algo old = mth algo new := by
    cases b with
    | true =>
      rw [verifySubproof_self_true] at h
      split_ifs at h
      obtain ⟨h1, h2⟩ := Prod.mk.inj (Option.some.inj h)
      rw [← h1, ← h2]
    | false =>
      rw [verifySubproof_self_false] at h
      split at h
      · obtain ⟨h1, h2⟩ := Prod.mk.inj (Option.some.inj h)
        rw [← h1, ← h2]
      · cases h
  rw [← hlen, List.take_length]
  exact mth_inj_or old.length hold old new rfl hlen hso hsn hroots

/-- two lists that agree on the left part, and on the right part as far as the first goes -/
theorem eq_take_of_parts {α : Type} {old new : List α} {k : ℕ} (hk : k ≤ old.length) (hleft : old.take k = new.take k)
    (hright : old.drop k = (new.drop k).take (old.length - k)) : old = new.take old.length := by
  calc old = old.take k ++ old.drop k := (List.take_append_drop k old).symm
    _ = new.take k ++ (new.drop k).take (old.length - k) := by rw [hleft, hright]
    _ = new.take (k + (old.length - k)) := List.take_add.symm
    _ = new.take old.length := by rw [Nat.add_sub_cancel' hk]

/-- a consistency proof that rebuilds the roots of two trees shows the old leaves to be a prefix of the new ones, or
there is a collision -/
theorem verifySubproof_sound (n : ℕ) (hn : 1 ≤ n) :
    ∀ (old new : List Bytes) (b : Bool) (proof : List Hash) (oldRoot : Hash), new.length = n → 1 ≤ old.length →
      old.length ≤ n → mthInputs algo old ⊆ S → mthInputs algo new ⊆ S →
      verifySubproofInputs algo old.length n proof b oldRoot ⊆ S →
      verifySubproof algo old.length n proof b oldRoot = some (mth algo old, mth algo new) →
      old = new.take old.length ∨ CollisionIn algo.digest S := by
  induction n, hn using pow2_induction with
  | one =>
    intro old new b proof oldRoot hnew h1 hle hso hsn _ h
    have hone : old.length = 1 := by omega
    rw [← hone] at h hnew
    exact verifySubproof_self_sound h1 hnew hso hsn h
  | split n hn ihl ihr =>
    intro old new b proof oldRoot hnew h1 hle hso hsn hv h
    rw [← splitPoint_eq] at ihl ihr
    have hk := splitPoint_lt (n := n) (by omega)
    rcases Nat.eq_or_lt_of_le hle with heq | hlt
    · rw [← heq] at h
      exact verifySubproof_self_sound h1 (by omega) hso hsn h
    · rcases List.eq_nil_or_concat' proof with rfl | ⟨rest, last, rfl⟩
      · rw [verifySubproof_nil algo b oldRoot hlt] at h; cases h
      · rw [verifySubproof_concat algo last rest b oldRoot h1 hlt] at h
        rw [verifySubproofInputs_concat algo _ last rest b oldRoot hn] at hv
        rw [mthInputs_split algo new (by omega), hnew, List.cons_subset, List.append_subset] at hsn
        rw [mth_split algo new (by omega), hnew] at h
        split_ifs at h hv with hmk
        · -- the old tree lies in the left half: only the new root has this node
          obtain ⟨⟨oldL, newL⟩, hrec, hpair⟩ := Option.map_eq_some_iff.1 h
          obtain ⟨rfl, hnode⟩ := Prod.mk.inj hpair
          rw [hrec, Option.map_some, Option.toList_some, List.singleton_append, List.cons_subset] at hv
          rcases node_inj_or hv.1 hsn.1 hnode with ⟨hnl, -⟩ | hcol
          · simp only at hnl
            rw [hnl] at hrec
            rcases ihl old _ b rest oldRoot (by simp; omega) h1 hmk hso hsn.2.1 hv.2 hrec with hpre | hcol
            · left
              rwa [List.take_take, min_eq_left hmk] at hpre
            · exact Or.inr hcol
          · exact Or.inr hcol
        · -- both trees split at the same point and share the left half, whose root is the popped hash
          obtain ⟨⟨oldR, newR⟩, hrec, hpair⟩ := Option.map_eq_some_iff.1 h
          obtain ⟨hnodeOld, hnodeNew⟩ := Prod.mk.inj hpair
          simp only at hnodeOld hnodeNew
          have hsame : splitPoint old.length = splitPoint n := by
            rw [splitPoint_eq, splitPoint_eq]
            exact pow2Below_of_lt (by rw [← splitPoint_eq]; omega) hle
          have hpos := splitPoint_pos n
          rw [mthInputs_split algo old (by omega), hsame, List.cons_subset, List.append_subset] at hso
          rw [mth_split algo old (by omega), hsame] at hnodeOld
          rw [hrec, Option.map_some, Option.toList_some, Option.map_some, Option.toList_some, List.append_assoc,
            List.singleton_append, List.singleton_append, List.cons_subset, List.cons_subset] at hv
          rcases node_inj_or hv.1 hso.1 hnodeOld with ⟨hlo, hro⟩ | hcol
          · rcases node_inj_or hv.2.1 hsn.1 hnodeNew with ⟨hln, hrn⟩ | hcol
            · simp only at hro hrn
              rcases mth_inj_or (splitPoint n) hpos _ _ (by simp; omega) (by simp; omega) hso.2.1 hsn.2.1
                (hlo.symm.trans hln) with hleft | hcol
              · have hdlen : (old.drop (splitPoint n)).length = old.length - splitPoint n := by simp
                rw [hro, hrn] at hrec
                rw [← hdlen] at hrec hv
                rcases ihr _ _ false rest oldRoot (by simp; omega) (by simp; omega) (by simp; omega) hso.2.2 hsn.2.2
                  hv.2.2 hrec with hright | hcol
                · exact Or.inl (eq_take_of_parts (by omega) hleft (hdlen ▸ hright))
                · exact Or.inr hcol
              · exact Or.inr hcol
            · exact Or.inr hcol
          · exact Or.inr hcol

end Soundness

/-! ## Main results -/

theorem verifyInclusionProof_path (algo : HashAlgo) (leaves : List Bytes) (i : ℕ) (hi : i < leaves.length) :
    verifyInclusionProof algo leaves[i] i leaves.length (path algo i leaves) (mth algo leaves) = true := by
  rw [verifyInclusionProof, if_neg (by omega), verifyPath_path algo leaves.length (by omega) leaves i hi rfl]
  simp

/-- **Inclusion proofs are complete.** For every leaf of every list, the proof is generated, and verifies for that
leaf, index and size against the root. -/
theorem inclusion_complete (algo : HashAlgo) (leaves : List Bytes) (i : ℕ) (hi : i < leaves.length) :
    ∃ proof, inclusionProof algo i leaves = .ok proof ∧
      verifyInclusionProof algo leaves[i] i leaves.length proof (mth algo leaves) = true := by
  refine ⟨path algo i leaves, ?_, verifyInclusionProof_path algo leaves i hi⟩
  rw [inclusionProof, if_neg (by omega)]

theorem inclusion_complete_last_of_three :
    ∃ proof, inclusionProof .sha256 2 [[], [0x00], [0x10]] = .ok proof ∧
      verifyInclusionProof .sha256 [0x10] 2 3 proof (mth .sha256 [[], [0x00], [0x10]]) = true :=
  inclusion_complete .sha256 [[], [0x00], [0x10]] 2 (by decide)

/-- **Inclusion proofs are sound.** Whatever the proof hashes are, if the verifier accepts them for data at index i
against the root of a list, then data is the leaf at i, or the extractor returns two different byte strings with one
digest. -/
theorem inclusion_sound (algo : HashAlgo) (leaves : List Bytes) (i : ℕ) (data : Bytes) (proof : List Hash)
    (h : verifyInclusionProof algo data i leaves.length proof (mth algo leaves) = true) :
    (∃ hi : i < leaves.length, data = leaves[i]) ∨
      ∃ x y, inclusionCollision algo leaves data i leaves.length proof = some (x, y) ∧ x ≠ y ∧
        algo.digest x = algo.digest y := by
  rw [verifyInclusionProof] at h
  split_ifs at h with hge
  have hi : i < leaves.length := not_le.1 hge
  have hroot : verifyPath algo i leaves.length (leafHash algo data) proof = some (mth algo leaves) := by
    split at h
    · rename_i r hr
      rw [hr, beq_iff_eq.1 h]
    · cases h
  set S := mthInputs algo leaves ++ leafInput data :: verifyPathInputs algo i leaves.length (leafHash algo data) proof
  have hdata : leafInput data ∈ S := by simp [S]
  rcases verifyPath_sound (S := S) leaves.length (by omega) leaves i _ proof rfl hi (by simp [S])
    (fun x hx => by simp [S, hx]) hroot with ⟨d, hd, hleaf, hdS⟩ | hcol
  · rcases leaf_inj_or hdata hdS hleaf with rfl | hcol
    · left
      exact ⟨hi, (List.getElem_eq_iff hi).2 hd |>.symm⟩
    · exact Or.inr (collisionIn_iff.1 hcol)
  · exact Or.inr (collisionIn_iff.1 hcol)

theorem inclusion_sound_first_of_two :
    (∃ hi : 0 < 2, [] = ([[], [0x00]] : List Bytes)[0]) ∨
      ∃ x y, inclusionCollision .sha256 [[], [0x00]] [] 0 2 (path .sha256 0 [[], [0x00]]) = some (x, y) ∧ x ≠ y ∧
        HashAlgo.sha256.digest x = HashAlgo.sha256.digest y :=
  inclusion_sound .sha256 [[], [0x00]] 0 [] (path .sha256 0 [[], [0x00]])
    (verifyInclusionProof_path .sha256 [[], [0x00]] 0 (by decide))

theorem verifyConsistencyProof_generated (algo : HashAlgo) (leaves : List Bytes) (first : ℕ) (h1 : 1 ≤ first)
    (h2 : first < leaves.length) :
    verifyConsistencyProof algo first leaves.length (subproof algo first leaves true) (mth algo (leaves.take first))
      (mth algo leaves) = true := by
  rw [verifyConsistencyProof, if_neg (by omega), if_neg (by omega), if_neg (by omega),
    verifySubproof_subproof algo leaves.length (by omega) leaves first true _ rfl h1 (by omega) (fun _ => rfl)]
  simp

/-- an accepted consistency proof between two sizes has the length the sizes fix -/
theorem length_of_verifyConsistencyProof {algo : HashAlgo} {first second : ℕ} {proof : List Hash}
    {oldRoot newRoot : Hash} (h1 : 1 ≤ first)
    (h : verifyConsistencyProof algo first second proof oldRoot newRoot = true) :
    proof.length = subproofLength first second true := by
  rw [verifyConsistencyProof] at h
  split_ifs at h with hgt h0 heq
  · omega
  · subst heq
    have hp : proof = [] := by simp at h; exact h.1
    rw [hp, subproofLength, if_pos rfl]; rfl
  · split at h
    · rename_i p hp
      exact length_of_verifySubproof algo second (by omega) first true proof oldRoot _ h1 (by omega) hp
    · cases h

/-- **Consistency proofs are complete.** For every list and every first from 1 to its length, the proof is generated
and verifies between the two roots. The verifier consumes it exactly: any accepted proof between these sizes has the
same number of hashes. -/
theorem consistency_complete (algo : HashAlgo) (leaves : List Bytes) (first : ℕ) (h1 : 1 ≤ first)
    (h2 : first ≤ leaves.length) :
    ∃ proof, consistencyProof algo first leaves = .ok proof ∧
      verifyConsistencyProof algo first leaves.length proof (mth algo (leaves.take first)) (mth algo leaves) = true ∧
      ∀ proof' oldRoot newRoot, verifyConsistencyProof algo first leaves.length proof' oldRoot newRoot = true →
        proof'.length = proof.length := by
  have exact_length : ∀ proof, verifyConsistencyProof algo first leaves.length proof (mth algo (leaves.take first))
      (mth algo leaves) = true → ∀ proof' oldRoot newRoot,
        verifyConsistencyProof algo first leaves.length proof' oldRoot newRoot = true →
        proof'.length = proof.length := by
    intro proof h proof' oldRoot newRoot h'
    rw [length_of_verifyConsistencyProof h1 h, length_of_verifyConsistencyProof h1 h']
  rcases Nat.eq_or_lt_of_le h2 with rfl | hlt
  · have hv : verifyConsistencyProof algo leaves.length leaves.length [] (mth algo (leaves.take leaves.length))
        (mth algo leaves) = true := by
      rw [verifyConsistencyProof, if_neg (by omega), if_neg (by omega), if_pos rfl]; simp
    refine ⟨[], ?_, hv, exact_length [] hv⟩
    rw [consistencyProof, if_neg (by omega), if_neg (by omega), if_pos rfl]
  · have hv := verifyConsistencyProof_generated algo leaves first h1 hlt
    refine ⟨subproof algo first leaves true, ?_, hv, exact_length _ hv⟩
    rw [consistencyProof, if_neg (by omega), if_neg (by omega), if_neg (by omega)]

theorem consistency_complete_two_of_three :
    ∃ proof, consistencyProof .sha256 2 [[], [0x00], [0x10]] = .ok proof ∧
      verifyConsistencyProof .sha256 2 3 proof (mth .sha256 [[], [0x00]]) (mth .sha256 [[], [0x00], [0x10]]) = true ∧
      ∀ proof' oldRoot newRoot, verifyConsistencyProof .sha256 2 3 proof' oldRoot newRoot = true →
        proof'.length = proof.length :=
  consistency_complete .sha256 [[], [0x00], [0x10]] 2 (by decide) (by decide)

/-- **Consistency proofs are sound.** Whatever the proof hashes are, if the verifier accepts them between the roots of
a non-empty list and of a list at least as long, then the first list is a prefix of the second, or the extractor
returns two different byte strings with one digest. -/
theorem consistency_sound (algo : HashAlgo) (old new : List Bytes) (proof : List Hash) (h1 : 1 ≤ old.length)
    (h2 : old.length ≤ new.length)
    (h : verifyConsistencyProof algo old.length new.length proof (mth algo old) (mth algo new) = true) :
    old = new.take old.length ∨
      ∃ x y, consistencyCollision algo old new proof = some (x, y) ∧ x ≠ y ∧ algo.digest x = algo.digest y := by
  set S := mthInputs algo old ++ mthInputs algo new ++
    verifySubproofInputs algo old.length new.length proof true (mth algo old)
  have hso : mthInputs algo old ⊆ S := fun x hx => by simp [S, hx]
  have hsn : mthInputs algo new ⊆ S := fun x hx => by simp [S, hx]
  have hsv : verifySubproofInputs algo old.length new.length proof true (mth algo old) ⊆ S :=
    fun x hx => by simp [S, hx]
  have goal : old = new.take old.length ∨ CollisionIn algo.digest S := by
    rw [verifyConsistencyProof, if_neg (by omega), if_neg (by omega)] at h
    split_ifs at h with heq
    · have hroots : mth algo old = mth algo new := by simp at h; exact h.2
      rw [heq, List.take_length]
      exact mth_inj_or old.length h1 old new rfl heq.symm hso hsn hroots
    · split at h
      · rename_i oldH newH hp
        simp only [Bool.and_eq_true, beq_iff_eq] at h
        rw [h.1, h.2] at hp
        exact verifySubproof_sound new.length (by omega) old new true proof (mth algo old) rfl h1 h2 hso hsn hsv hp
      · cases h
  rcases goal with hpre | hcol
  · exact Or.inl hpre
  · exact Or.inr (collisionIn_iff.1 hcol)

theorem consistency_sound_one_of_two :
    [([] : Bytes)] = [[], [0x00]].take 1 ∨
      ∃ x y, consistencyCollision .sha256 [[]] [[], [0x00]] (subproof .sha256 1 [[], [0x00]] true) = some (x, y) ∧
        x ≠ y ∧ HashAlgo.sha256.digest x = HashAlgo.sha256.digest y :=
  consistency_sound .sha256 [[]] [[], [0x00]] (subproof .sha256 1 [[], [0x00]] true) (by decide) (by decide)
    (verifyConsistencyProof_generated .sha256 [[], [0x00]] 1 (by decide) (by decide))

end Avalon.Merkle
