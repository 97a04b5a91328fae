/-
The incrementally maintained RFC 6962 tree (`crates/chain/src/incremental_merkle.rs`).

A tree keeps every completed perfect subtree hash under (level, index): the node covers the leaves from index * 2^level
to (index + 1) * 2^level. `frontier[level]` holds a completed subtree still waiting for its right sibling. `append`
carries the new leaf hash up through the occupied frontier levels, like a binary counter.

`OrPanic` is the source's result of a function that may panic: `none` is the failed `expect` of `range_hash`.

Results:
- `append_represents`: one append keeps the representation invariant `Represents`: the frontier holds the binary digits
  of the size (`FrontierOk`) and every completed subtree is stored.
- `rangeHash_represents`: on a represented list, every range query inside the list returns the Merkle tree hash of the
  range, from stored nodes and on-the-fly combinations; the panic is not reached.
- `incremental_refines`: after every sequence of appends, root, inclusion proof and consistency proof at every
  historical size are those of `Avalon.Merkle` over the prefix of that size.
-/
import Mathlib.Tactic
import Avalon.Chain.Merkle

namespace Avalon.IncrementalMerkle

open Avalon.SigningBytes Avalon.Merkle

/-- a result, or a panic -/
abbrev OrPanic (α : Type) := Option α

/-! ## Model -/

structure IncrementalMerkleTree where
  algo : HashAlgo
  frontier : List (Option Hash)
  nodes : ℕ × ℕ → Option Hash
  size : ℕ

namespace IncrementalMerkleTree

def new (algo : HashAlgo) : IncrementalMerkleTree := ⟨algo, [], fun _ => none, 0⟩

/-- the carry loop of `append` from a level on: the frontier given is the part at that level and above -/
def carry (algo : HashAlgo) (startSize : ℕ) :
    ℕ → Hash → (ℕ × ℕ → Option Hash) → List (Option Hash) → List (Option Hash) × (ℕ × ℕ → Option Hash)
  | level, h, nodes, some left :: rest =>
    let h' := nodeHash algo left h
    let r := carry algo startSize (level + 1) h'
      (Function.update nodes (level + 1, startSize >>> (level + 1)) (some h')) rest
    (none :: r.1, r.2)
  | _, h, nodes, none :: rest => (some h :: rest, nodes)
  | _, h, nodes, [] => ([some h], nodes)

def append (t : IncrementalMerkleTree) (leafData : Bytes) : IncrementalMerkleTree :=
  let h := leafHash t.algo leafData
  let r := carry t.algo t.size 0 h (Function.update t.nodes (0, t.size) (some h)) t.frontier
  { t with frontier := r.1, nodes := r.2, size := t.size + 1 }

def fromLeaves (algo : HashAlgo) (leaves : List Bytes) : IncrementalMerkleTree := leaves.foldl append (new algo)

def isPowerOfTwo (n : ℕ) : Bool := n != 0 && 2 ^ Nat.log2 n == n

def trailingZeros (n : ℕ) : ℕ :=
  if n = 0 then 64
  else if n % 2 = 1 then 0
  else trailingZeros (n / 2) + 1

/-- the tree hash of the leaves from start, for the given size -/
def rangeHash (t : IncrementalMerkleTree) (start size : ℕ) : OrPanic Hash :=
  if size = 1 then t.nodes (0, start)
  else if _h : size ≤ 1 then none -- no split point of an empty range: the callers keep 1 ≤ size
  else
    let stored := if isPowerOfTwo size && start % size == 0 then t.nodes (trailingZeros size, start / size) else none
    match stored with
    | some h => some h
    | none => do
      let k := splitPoint size
      let left ← rangeHash t start k
      let right ← rangeHash t (start + k) (size - k)
      return nodeHash t.algo left right
termination_by size
decreasing_by
  · exact splitPoint_lt _h
  · have := splitPoint_pos size; omega

/-- the keys `rangeHash` looks up, in order -/
def rangeLookups (t : IncrementalMerkleTree) (start size : ℕ) : List (ℕ × ℕ) :=
  if size = 1 then [(0, start)]
  else if _h : size ≤ 1 then []
  else
    let aligned := isPowerOfTwo size && start % size == 0
    let key := (trailingZeros size, start / size)
    let k := splitPoint size
    if aligned && (t.nodes key).isSome then [key]
    else (if aligned then [key] else []) ++ rangeLookups t start k ++ rangeLookups t (start + k) (size - k)
termination_by size
decreasing_by
  · exact splitPoint_lt _h
  · have := splitPoint_pos size; omega

/-- the tree hash at a historical size; the inner `none` is a size beyond what was appended -/
def root (t : IncrementalMerkleTree) (treeSize : ℕ) : OrPanic (Option Hash) :=
  if treeSize > t.size then some none
  else if treeSize = 0 then some (some (emptyRoot t.algo))
  else (rangeHash t 0 treeSize).map some

def path (t : IncrementalMerkleTree) (m start size : ℕ) : OrPanic (List Hash) :=
  if _h : size ≤ 1 then some []
  else
    let k := splitPoint size
    if m < k then do
      let proof ← path t m start k
      let last ← rangeHash t (start + k) (size - k)
      return proof ++ [last]
    else do
      let proof ← path t (m - k) (start + k) (size - k)
      let last ← rangeHash t start k
      return proof ++ [last]
termination_by size
decreasing_by
  · exact splitPoint_lt _h
  · have := splitPoint_pos size; omega

def inclusionProof (t : IncrementalMerkleTree) (leafIndex treeSize : ℕ) : OrPanic (Except String (List Hash)) :=
  if treeSize > t.size then some (.error s!"tree_size {treeSize} exceeds {t.size} appended leaves")
  else if leafIndex ≥ treeSize then
    some (.error s!"leaf_index {leafIndex} out of range for tree size {treeSize}")
  else (path t leafIndex 0 treeSize).map .ok

def subproof (t : IncrementalMerkleTree) (m start size : ℕ) (b : Bool) : OrPanic (List Hash) :=
  if m = size then
    if b then some [] else (rangeHash t start size).map fun h => [h]
  else if _h : size ≤ 1 then none -- no split point: the callers keep 1 ≤ m ≤ size
  else
    let k := splitPoint size
    if m ≤ k then do
      let proof ← subproof t m start k b
      let last ← rangeHash t (start + k) (size - k)
      return proof ++ [last]
    else do
      let proof ← subproof t (m - k) (start + k) (size - k) false
      let last ← rangeHash t start k
      return proof ++ [last]
termination_by size
decreasing_by
  · exact splitPoint_lt _h
  · have := splitPoint_pos size; omega

def consistencyProof (t : IncrementalMerkleTree) (first second : ℕ) : OrPanic (Except String (List Hash)) :=
  if second > t.size then some (.error s!"second {second} exceeds {t.size} appended leaves")
  else if first > second then some (.error s!"first {first} exceeds tree size {second}")
  else if first = 0 ∨ first = second then some (.ok [])
  else (subproof t first 0 second true).map .ok

end IncrementalMerkleTree

open IncrementalMerkleTree

/-! ## The representation invariant -/

/-- the leaves of a range -/
def block (leaves : List Bytes) (start size : ℕ) : List Bytes := (leaves.drop start).take size

/-- the hash of the perfect subtree at (level, index) -/
def blockHash (algo : HashAlgo) (leaves : List Bytes) (level index : ℕ) : Hash :=
  mth algo (block leaves (index * 2 ^ level) (2 ^ level))

/-- the frontier from a level on holds the binary digits of q, lowest first; a digit one is the subtree hash of the
last block of that level -/
def FrontierOk (algo : HashAlgo) (leaves : List Bytes) : ℕ → ℕ → List (Option Hash) → Prop
  | _, q, [] => q = 0
  | level, q, none :: rest => q % 2 = 0 ∧ FrontierOk algo leaves (level + 1) (q / 2) rest
  | level, q, some h :: rest =>
    q % 2 = 1 ∧ h = blockHash algo leaves level (q - 1) ∧ FrontierOk algo leaves (level + 1) (q / 2) rest

/-- the tree represents a leaf list -/
structure Represents (algo : HashAlgo) (leaves : List Bytes) (t : IncrementalMerkleTree) : Prop where
  algo_eq : t.algo = algo
  size_eq : t.size = leaves.length
  nodes : ∀ level index, (index + 1) * 2 ^ level ≤ leaves.length →
    t.nodes (level, index) = some (blockHash algo leaves level index)
  frontier : FrontierOk algo leaves 0 leaves.length t.frontier

theorem represents_new (algo : HashAlgo) : Represents algo [] (new algo) := by
  refine ⟨rfl, rfl, ?_, rfl⟩
  intro level index h
  have : 0 < (index + 1) * 2 ^ level := by positivity
  simp at h

theorem block_length {leaves : List Bytes} {start size : ℕ} (h : start + size ≤ leaves.length) :
    (block leaves start size).length = size := by
  simp [block]; omega

theorem block_take {leaves : List Bytes} {start size k : ℕ} (hk : k ≤ size) :
    (block leaves start size).take k = block leaves start k := by
  rw [block, block, List.take_take, min_eq_left hk]

theorem block_drop (leaves : List Bytes) (start size k : ℕ) :
    (block leaves start size).drop k = block leaves (start + k) (size - k) := by
  rw [block, block, List.drop_take, List.drop_drop]

theorem block_append {leaves : List Bytes} {start size : ℕ} (d : Bytes) (h : start + size ≤ leaves.length) :
    block (leaves ++ [d]) start size = block leaves start size := by
  rw [block, block, List.drop_append_of_le_length (by omega), List.take_append_of_le_length (by simp; omega)]

theorem blockHash_append {algo : HashAlgo} {leaves : List Bytes} {level index : ℕ} (d : Bytes)
    (h : (index + 1) * 2 ^ level ≤ leaves.length) :
    blockHash algo (leaves ++ [d]) level index = blockHash algo leaves level index := by
  rw [blockHash, blockHash, block_append d (by rw [Nat.add_mul] at h; omega)]

/-- a range splits where its tree does -/
theorem mth_block_split (algo : HashAlgo) {leaves : List Bytes} {start size : ℕ} (h2 : 2 ≤ size)
    (h : start + size ≤ leaves.length) :
    mth algo (block leaves start size) =
      nodeHash algo (mth algo (block leaves start (splitPoint size)))
        (mth algo (block leaves (start + splitPoint size) (size - splitPoint size))) := by
  have hk := splitPoint_lt (n := size) (by omega)
  rw [mth_split algo _ (by rw [block_length h]; exact h2), block_length h, block_take hk.le, block_drop]

/-- the subtree at the next level joins two siblings -/
theorem blockHash_succ (algo : HashAlgo) {leaves : List Bytes} {level index : ℕ}
    (h : (index + 1) * 2 ^ (level + 1) ≤ leaves.length) :
    blockHash algo leaves (level + 1) index =
      nodeHash algo (blockHash algo leaves level (2 * index)) (blockHash algo leaves level (2 * index + 1)) := by
  have h2 : 2 ≤ 2 ^ (level + 1) := by rw [pow_succ]; have := Nat.two_pow_pos level; omega
  rw [Nat.add_mul] at h
  rw [blockHash, mth_block_split algo h2 (by omega), splitPoint_eq, pow2Below_two_pow, blockHash, blockHash]
  have e1 : index * 2 ^ (level + 1) = 2 * index * 2 ^ level := by rw [pow_succ]; ring
  have e2 : 2 ^ (level + 1) - 2 ^ level = 2 ^ level := by rw [pow_succ]; omega
  rw [e1, e2, Nat.add_mul (2 * index), Nat.one_mul]

theorem FrontierOk.append {algo : HashAlgo} {leaves : List Bytes} (d : Bytes) {f : List (Option Hash)} {level q : ℕ}
    (h : FrontierOk algo leaves level q f) (hq : q * 2 ^ level ≤ leaves.length) :
    FrontierOk algo (leaves ++ [d]) level q f := by
  induction f generalizing level q with
  | nil => exact h
  | cons slot rest ih =>
    have hq' : q / 2 * 2 ^ (level + 1) ≤ leaves.length := by
      calc q / 2 * 2 ^ (level + 1) = q / 2 * 2 * 2 ^ level := by rw [pow_succ]; ring
        _ ≤ q * 2 ^ level := Nat.mul_le_mul_right _ (Nat.div_mul_le_self q 2)
        _ ≤ leaves.length := hq
    cases slot with
    | none => exact ⟨h.1, ih h.2 hq'⟩
    | some x =>
      obtain ⟨hodd, hx, hrest⟩ := h
      refine ⟨hodd, ?_, ih hrest hq'⟩
      rw [blockHash_append d (by rw [Nat.sub_add_cancel (by omega)]; exact hq)]
      exact hx

/-- a block count that is odd after the last leaf completes nothing above its level -/
theorem not_completed_above {n level q : ℕ} (hq : (q + 1) * 2 ^ level = n + 1) (heven : q % 2 = 0) (l i : ℕ) :
    ¬ (level < l ∧ (i + 1) * 2 ^ l = n + 1) := by
  rintro ⟨hl, hi⟩
  obtain ⟨j, rfl⟩ := Nat.exists_eq_add_of_lt hl
  rw [← hq, pow_add, pow_add, pow_one] at hi
  have : (i + 1) * 2 ^ j * 2 = q + 1 := by
    apply Nat.eq_of_mul_eq_mul_right (Nat.two_pow_pos level)
    rw [← hi]; ring
  omega

/-- **The carry loop.** With block q of this level just completed by the last leaf, the loop increments the frontier
digits and stores exactly the subtrees above this level that the last leaf completes. -/
theorem carry_spec {algo : HashAlgo} {leaves : List Bytes} {n : ℕ} (hn : leaves.length = n + 1)
    {f : List (Option Hash)} {level q : ℕ} (nodes : ℕ × ℕ → Option Hash) (hq : (q + 1) * 2 ^ level = n + 1)
    (hf : FrontierOk algo leaves level q f) :
    FrontierOk algo leaves level (q + 1) (carry algo n level (blockHash algo leaves level q) nodes f).1 ∧
      ∀ l i, (carry algo n level (blockHash algo leaves level q) nodes f).2 (l, i) =
        if level < l ∧ (i + 1) * 2 ^ l = n + 1 then some (blockHash algo leaves l i) else nodes (l, i) := by
  induction f generalizing level q nodes with
  | nil =>
    have hq0 : q = 0 := hf
    subst hq0
    refine ⟨⟨rfl, rfl, rfl⟩, ?_⟩
    intro l i
    rw [if_neg (not_completed_above hq rfl l i)]; rfl
  | cons slot rest ih =>
    cases slot with
    | none =>
      obtain ⟨heven, hrest⟩ := hf
      refine ⟨⟨by omega, rfl, ?_⟩, ?_⟩
      · rw [show (q + 1) / 2 = q / 2 by omega]; exact hrest
      · intro l i
        rw [if_neg (not_completed_above hq heven l i)]; rfl
    | some left =>
      obtain ⟨hodd, hleft, hrest⟩ := hf
      have hq2 : (q / 2 + 1) * 2 ^ (level + 1) = n + 1 := by
        rw [← hq, pow_succ, ← Nat.mul_assoc, Nat.mul_right_comm]
        congr 1; omega
      have hjoin : nodeHash algo left (blockHash algo leaves level q) = blockHash algo leaves (level + 1) (q / 2) := by
        rw [blockHash_succ algo (by rw [hq2, hn]), hleft]
        congr 2 <;> omega
      have hidx : n >>> (level + 1) = q / 2 := by
        rw [Nat.shiftRight_eq_div_pow]
        refine Nat.div_eq_of_lt_le ?_ (by rw [hq2]; omega)
        have := Nat.two_pow_pos (level + 1)
        rw [Nat.add_mul] at hq2; omega
      simp only [carry, hjoin, hidx]
      obtain ⟨h1, h2⟩ := ih (Function.update nodes (level + 1, q / 2)
        (some (blockHash algo leaves (level + 1) (q / 2)))) hq2 hrest
      refine ⟨⟨by omega, ?_⟩, ?_⟩
      · rw [show (q + 1) / 2 = q / 2 + 1 by omega]; exact h1
      · intro l i
        rw [h2 l i]
        by_cases hl : l = level + 1
        · subst hl
          by_cases hi : i = q / 2
          · subst hi; simp [hq2]
          · have hne : (i + 1) * 2 ^ (level + 1) ≠ n + 1 := by
              intro he
              rw [← hq2] at he
              have := Nat.eq_of_mul_eq_mul_right (Nat.two_pow_pos (level + 1)) he
              omega
            simp [hne, hi]
        · have hlt : level + 1 < l ↔ level < l := by omega
          simp [hlt, hl]

/-- **One append.** The representation invariant is kept, with the leaf added at the end. -/
theorem append_represents {algo : HashAlgo} {leaves : List Bytes} {t : IncrementalMerkleTree} (d : Bytes)
    (h : Represents algo leaves t) : Represents algo (leaves ++ [d]) (t.append d) := by
  have hlen : (leaves ++ [d]).length = leaves.length + 1 := by simp
  have hleaf : leafHash algo d = blockHash algo (leaves ++ [d]) 0 leaves.length := by
    rw [blockHash, block, pow_zero, Nat.mul_one, List.drop_left]
    exact (mth_singleton algo d).symm
  obtain ⟨hfront, hnodes⟩ := carry_spec hlen (Function.update t.nodes (0, leaves.length) (some (leafHash algo d)))
    (by simp) (h.frontier.append d (by simp))
  rw [← hleaf] at hfront hnodes
  refine ⟨h.algo_eq, ?_, ?_, ?_⟩
  · simp [append, h.size_eq]
  · intro level index hi
    simp only [append, h.algo_eq, h.size_eq, hnodes]
    rw [hlen] at hi
    split_ifs with hnew
    · rfl
    rcases Nat.lt_or_ge leaves.length ((index + 1) * 2 ^ level) with hlast | hold
    · -- completed by this leaf: only the leaf itself, the levels above are stored by the carry
      obtain rfl : level = 0 := by omega
      obtain rfl : index = leaves.length := by omega
      rw [Function.update_self, hleaf]
    · have hne : (level, index) ≠ (0, leaves.length) := by
        rintro ⟨⟩
        simp at hold
      rw [Function.update_of_ne hne, h.nodes level index hold, blockHash_append d hold]
  · simpa only [append, h.algo_eq, h.size_eq, hlen] using hfront

/-- **Every sequence of appends** represents the leaves appended -/
theorem fromLeaves_represents (algo : HashAlgo) (leaves : List Bytes) :
    Represents algo leaves (fromLeaves algo leaves) := by
  induction leaves using List.reverseRecOn with
  | nil => exact represents_new algo
  | append_singleton leaves d ih =>
    rw [fromLeaves, List.foldl_append]
    exact append_represents d ih

/-! ## Queries at a historical size -/

theorem trailingZeros_two_pow (l : ℕ) : trailingZeros (2 ^ l) = l := by
  induction l with
  | zero => rw [trailingZeros]; simp
  | succ l ih =>
    have h0 : 2 ^ (l + 1) ≠ 0 := (Nat.two_pow_pos _).ne'
    have h1 : 2 ^ (l + 1) % 2 ≠ 1 := by rw [pow_succ]; omega
    have h2 : 2 ^ (l + 1) / 2 = 2 ^ l := by rw [pow_succ]; omega
    rw [trailingZeros, if_neg h0, if_neg h1, h2, ih]

/-- an aligned power-of-two range is a stored subtree -/
theorem nodes_aligned {algo : HashAlgo} {leaves : List Bytes} {t : IncrementalMerkleTree}
    (h : Represents algo leaves t) {start size : ℕ} (hle : start + size ≤ leaves.length)
    (ha : (isPowerOfTwo size && start % size == 0) = true) :
    t.nodes (trailingZeros size, start / size) = some (mth algo (block leaves start size)) := by
  simp only [isPowerOfTwo, Bool.and_eq_true, beq_iff_eq] at ha
  obtain ⟨⟨-, hpow⟩, hmod⟩ := ha
  have hstart : start / size * size = start := Nat.div_mul_cancel (Nat.dvd_of_mod_eq_zero hmod)
  have hlevel : trailingZeros size = Nat.log2 size := by
    conv_lhs => rw [← hpow]
    exact trailingZeros_two_pow _
  rw [hlevel, h.nodes _ _ (by rw [hpow, Nat.add_mul, hstart]; omega), blockHash, hpow, hstart]

/-- **Range queries.** Inside the list the range hash is the tree hash of the range: the panic is not reached. -/
theorem rangeHash_represents {algo : HashAlgo} {leaves : List Bytes} {t : IncrementalMerkleTree}
    (h : Represents algo leaves t) (size : ℕ) (h1 : 1 ≤ size) :
    ∀ start, start + size ≤ leaves.length → rangeHash t start size = some (mth algo (block leaves start size)) := by
  induction size, h1 using pow2_induction with
  | one =>
    intro start hle
    rw [rangeHash, if_pos rfl, h.nodes 0 start (by simpa using hle), blockHash]
    simp
  | split size h2 ihl ihr =>
    intro start hle
    have hk := splitPoint_lt (n := size) (by omega)
    rw [← splitPoint_eq] at ihl ihr
    rw [rangeHash, if_neg (by omega), dif_neg (by omega)]
    by_cases ha : (isPowerOfTwo size && start % size == 0) = true
    · simp only [ha, if_true, nodes_aligned h hle ha]
    · simp only [ha, Bool.false_eq_true, if_false, ihl start (by omega), ihr (start + splitPoint size) (by omega),
        Option.bind_eq_bind, Option.bind_some, h.algo_eq, mth_block_split algo h2 hle]
      rfl

/-- **No lookup misses**: every key a range query consults is stored -/
theorem rangeLookups_stored {algo : HashAlgo} {leaves : List Bytes} {t : IncrementalMerkleTree}
    (h : Represents algo leaves t) (size : ℕ) (h1 : 1 ≤ size) :
    ∀ start, start + size ≤ leaves.length → ∀ key ∈ rangeLookups t start size, (t.nodes key).isSome := by
  induction size, h1 using pow2_induction with
  | one =>
    intro start hle key hkey
    rw [rangeLookups, if_pos rfl, List.mem_singleton] at hkey
    rw [hkey, h.nodes 0 start (by simpa using hle)]
    rfl
  | split size h2 ihl ihr =>
    intro start hle key hkey
    have hk := splitPoint_lt (n := size) (by omega)
    rw [← splitPoint_eq] at ihl ihr
    rw [rangeLookups, if_neg (by omega), dif_neg (by omega)] at hkey
    by_cases ha : (isPowerOfTwo size && start % size == 0) = true
    · simp only [ha, nodes_aligned h hle ha, Option.isSome_some, Bool.and_self, if_true, List.mem_singleton] at hkey
      rw [hkey, nodes_aligned h hle ha]
      rfl
    · simp only [ha, Bool.false_and, Bool.false_eq_true, if_false, List.nil_append, List.mem_append] at hkey
      rcases hkey with hl | hr
      · exact ihl start (by omega) key hl
      · exact ihr (start + splitPoint size) (by omega) key hr

theorem path_represents {algo : HashAlgo} {leaves : List Bytes} {t : IncrementalMerkleTree}
    (h : Represents algo leaves t) (size : ℕ) (h1 : 1 ≤ size) :
    ∀ m start, start + size ≤ leaves.length →
      t.path m start size = some (Merkle.path algo m (block leaves start size)) := by
  induction size, h1 using pow2_induction with
  | one =>
    intro m start hle
    rw [IncrementalMerkleTree.path, dif_pos le_rfl, Merkle.path, dif_pos (block_length hle).le]
  | split size h2 ihl ihr =>
    intro m start hle
    have hk := splitPoint_lt (n := size) (by omega)
    have hpos := splitPoint_pos size
    rw [← splitPoint_eq] at ihl ihr
    rw [IncrementalMerkleTree.path, dif_neg (by omega), path_split algo m (by rw [block_length hle]; exact h2), block_length hle,
      block_take hk.le, block_drop]
    dsimp only
    split_ifs with hm
    · rw [ihl m start (by omega), rangeHash_represents h _ (by omega) _ (by omega)]
      rfl
    · rw [ihr (m - splitPoint size) _ (by omega), rangeHash_represents h _ hpos _ (by omega)]
      rfl

theorem subproof_represents {algo : HashAlgo} {leaves : List Bytes} {t : IncrementalMerkleTree}
    (h : Represents algo leaves t) (size : ℕ) (h1 : 1 ≤ size) :
    ∀ m start b, 1 ≤ m → m ≤ size → start + size ≤ leaves.length →
      t.subproof m start size b = some (Merkle.subproof algo m (block leaves start size) b) := by
  -- the whole range is known, or its hash is the proof
  have whole : ∀ size start b, 1 ≤ size → start + size ≤ leaves.length →
      t.subproof size start size b = some (Merkle.subproof algo size (block leaves start size) b) := by
    intro size start b h1 hle
    have hself := subproof_self algo (block leaves start size) b
    rw [block_length hle] at hself
    rw [IncrementalMerkleTree.subproof, if_pos rfl, hself, rangeHash_represents h _ h1 _ hle]
    cases b <;> rfl
  induction size, h1 using pow2_induction with
  | one =>
    intro m start b hm1 hm hle
    obtain rfl : m = 1 := by omega
    exact whole 1 start b le_rfl hle
  | split size h2 ihl ihr =>
    intro m start b hm1 hm hle
    rcases Nat.eq_or_lt_of_le hm with rfl | hlt
    · exact whole m start b hm1 hle
    have hk := splitPoint_lt (n := size) (by omega)
    have hpos := splitPoint_pos size
    rw [← splitPoint_eq] at ihl ihr
    rw [IncrementalMerkleTree.subproof, if_neg (by omega), dif_neg (by omega),
      subproof_split algo b (by rw [block_length hle]; omega) (by rw [block_length hle]; exact h2), block_length hle,
      block_take hk.le, block_drop]
    dsimp only
    split_ifs with hmk
    · rw [ihl m start b hm1 hmk (by omega), rangeHash_represents h _ (by omega) _ (by omega)]
      rfl
    · rw [ihr (m - splitPoint size) _ false (by omega) (by omega) (by omega),
        rangeHash_represents h _ hpos _ (by omega)]
      rfl

theorem block_zero (leaves : List Bytes) (size : ℕ) : block leaves 0 size = leaves.take size := by
  rw [block, List.drop_zero]

theorem root_represents {algo : HashAlgo} {leaves : List Bytes} {t : IncrementalMerkleTree}
    (h : Represents algo leaves t) {treeSize : ℕ} (hts : treeSize ≤ leaves.length) :
    t.root treeSize = some (some (mth algo (leaves.take treeSize))) := by
  rw [root, h.size_eq, if_neg (by omega)]
  split_ifs with h0
  · rw [h0, List.take_zero, mth_nil, h.algo_eq]
  · rw [rangeHash_represents h treeSize (by omega) 0 (by omega), block_zero]
    rfl

theorem inclusionProof_represents {algo : HashAlgo} {leaves : List Bytes} {t : IncrementalMerkleTree}
    (h : Represents algo leaves t) (leafIndex : ℕ) {treeSize : ℕ} (hts : treeSize ≤ leaves.length) :
    t.inclusionProof leafIndex treeSize = some (Merkle.inclusionProof algo leafIndex (leaves.take treeSize)) := by
  simp only [IncrementalMerkleTree.inclusionProof, Merkle.inclusionProof, h.size_eq, if_neg (not_lt.2 hts), List.length_take,
    min_eq_left hts]
  split_ifs with hi
  · rfl
  · rw [path_represents h treeSize (by omega) _ 0 (by omega), block_zero]
    rfl

theorem consistencyProof_represents {algo : HashAlgo} {leaves : List Bytes} {t : IncrementalMerkleTree}
    (h : Represents algo leaves t) (first : ℕ) {second : ℕ} (hs : second ≤ leaves.length) :
    t.consistencyProof first second = some (Merkle.consistencyProof algo first (leaves.take second)) := by
  simp only [IncrementalMerkleTree.consistencyProof, Merkle.consistencyProof, h.size_eq, if_neg (not_lt.2 hs), List.length_take,
    min_eq_left hs]
  split_ifs with h1 h2 h3 h4 h5 h6
  · omega
  · rfl
  · rfl
  · rfl
  · omega
  · omega
  · omega
  · rw [subproof_represents h second (by omega) _ 0 true (by omega) (by omega) (by omega), block_zero]
    rfl

/-- **Incremental tree refinement.** After any sequence of appends, at every historical size, root, inclusion proof and
consistency proof are those computed from scratch over the prefix (error texts included), none of them panics, and every
subtree node a range query inside the prefix looks up is stored. -/
theorem incremental_refines (algo : HashAlgo) (leaves : List Bytes) (treeSize : ℕ) (hts : treeSize ≤ leaves.length) :
    (fromLeaves algo leaves).root treeSize = some (some (mth algo (leaves.take treeSize))) ∧
    (∀ leafIndex, (fromLeaves algo leaves).inclusionProof leafIndex treeSize =
      some (Merkle.inclusionProof algo leafIndex (leaves.take treeSize))) ∧
    (∀ first, (fromLeaves algo leaves).consistencyProof first treeSize =
      some (Merkle.consistencyProof algo first (leaves.take treeSize))) ∧
    (∀ start size, 1 ≤ size → start + size ≤ treeSize → ∀ key ∈ rangeLookups (fromLeaves algo leaves) start size,
      ((fromLeaves algo leaves).nodes key).isSome) := by
  have h := fromLeaves_represents algo leaves
  refine ⟨root_represents h hts, fun i => inclusionProof_represents h i hts,
    fun first => consistencyProof_represents h first hts, fun start size h1 hle => ?_⟩
  exact rangeLookups_stored h size h1 start (by omega)

theorem incremental_refines_two_of_three :
    (fromLeaves .sha256 [[0], [1], [2]]).root 2 = some (some (mth .sha256 [[0], [1]])) :=
  (incremental_refines .sha256 [[0], [1], [2]] 2 (by decide)).1

end Avalon.IncrementalMerkle
