/-
Proofs served from mirrored entries (`crates/server/src/settlement.rs`: `ShardMirrorSources`, `mirror_consistency_proof`,
`mirror_inclusion_proof`, and the checks of the two handlers that reach them).

A read of a shard with exactly one configured source is narrowed to the rows of that source, although a row's source is only
where it happened to be fetched from: rows of one shard can come from several peers (peers found by gossip, a source that
was configured before). The log is the authority's: `AuthorityLog` is its entries' seqs and hashes, and a mirrored shard's
rows are a first part of it (`MirrorsFirst`).

Results:
- `mirrorConsistencyProof_eq_ok`, `mirrorInclusionProof_eq_ok`: what is answered when a read sees the whole shard.
- `answers_describe_log_iff`: every answer is about the authority's tree, and no size within the mirrored part is refused,
  exactly when the read is not narrowed or every row has the configured source.
- `narrowed_read_misplaces_entry`: the second of two entries, served as the first leaf.
-/
import Mathlib.Tactic
import Mathlib.Data.List.Sort
import Mathlib.Data.List.Destutter
import Mathlib.Data.Prod.Lex
import Mathlib.Data.String.Basic
import Avalon.Core.Bytes
import Avalon.Core.Fallible
import Avalon.Core.Json
import Avalon.Protocol.SigningBytes
import Avalon.Protocol.LedgerEntry
import Avalon.Protocol.Events
import Avalon.Chain.Merkle
import Avalon.Chain.Ledger
import Avalon.Chain.Mirror

namespace Avalon.MirrorProofs

open Avalon.SigningBytes Avalon.LedgerEntry Avalon.Merkle Avalon.Ledger Avalon.Mirror
open Fallible

/-! ## Configured sources -/

/-- configured pairs of shard and source url -/
structure ShardMirrorSources where
  sources : List (String × String)

/-- `from_raw`, from the parsed entries: sorted, and each pair once -/
def ShardMirrorSources.fromParsed (parsed : List (String × String)) : ShardMirrorSources :=
  ⟨(parsed.insertionSort fun a b => toLex a ≤ toLex b).destutter (· ≠ ·)⟩

/-- the source of a shard, if exactly one is configured -/
def ShardMirrorSources.sourceUrlFor (s : ShardMirrorSources) (shardId : String) : Option String :=
  match s.sources.filter fun e => decide (e.1 = shardId) with
  | [only] => some only.2
  | _ => none

/-! ## The handlers, for a mirrored shard -/

inductive AppError where
  | invalidProofQuery
  | ledgerRangeNotCommitted
  | proofVerificationFailed
  | settlement (e : SettlementError)
  | proofGeneration (text : String)
deriving DecidableEq, Repr

structure ConsistencyProofResponse where
  first : ℤ
  second : ℤ
  firstRootHash : String
  secondRootHash : String
  proof : List String
deriving DecidableEq

structure InclusionProofResponse where
  seq : ℤ
  treeSize : ℤ
  leafIndex : ℤ
  leafHash : String
  rootHash : String
  proof : List String
deriving DecidableEq

def decodeHexLeaves (hashes : List String) : Except AppError (List Bytes) :=
  match hashes.mapM hexDecode with
  | none => .error (.settlement (.storage .invalidHex))
  | some leaves => .ok leaves

def hexHashes (hashes : List Hash) : List String := hashes.map fun h => hexEncode h.toList

/-- the root of the first hashes; of none, the empty root -/
def rootOfFirst (hashes : List String) (first : ℤ) : Except AppError Hash :=
  if first = 0 then .ok (emptyRoot ledgerHashAlgo)
  else (mthOfHexHashes ledgerHashAlgo (hashes.take first.toNat)).mapError .settlement

section handlers

variable {P : Type} (rows : List (MirroredRow P)) (networkId shardId : String)

def mirrorConsistencyProof (first second : ℤ) (sourceUrl : Option String) : Except AppError ConsistencyProofResponse :=
  if (mirroredProgress rows networkId shardId sourceUrl).verifiedCount < second then .error .ledgerRangeNotCommitted
  else do
    let hashes := mirroredEntryHashesUpTo rows networkId shardId second.toNat sourceUrl
    let secondRoot ← (mthOfHexHashes ledgerHashAlgo hashes).mapError .settlement
    let firstRoot ← rootOfFirst hashes first
    let leaves ← decodeHexLeaves hashes
    let proof ← (consistencyProof ledgerHashAlgo first.toNat leaves).mapError .proofGeneration
    if verifyConsistencyProof ledgerHashAlgo first.toNat second.toNat proof firstRoot secondRoot then
      return ⟨first, second, hexEncode firstRoot.toList, hexEncode secondRoot.toList, hexHashes proof⟩
    else throw .proofVerificationFailed

/-- the entry hash at a rank; the source indexes, and panics past the end -/
def leafHashAt (hashes : List String) (leafIndex : ℕ) : String := hashes.getD leafIndex ""

def mirrorInclusionProof (seq treeSize : ℤ) (sourceUrl : Option String) : Except AppError InclusionProofResponse :=
  if (mirroredProgress rows networkId shardId sourceUrl).verifiedCount < treeSize then .error .ledgerRangeNotCommitted
  else
    match mirroredLeafIndexForSeq rows networkId shardId seq sourceUrl with
    | none => .error .invalidProofQuery
    | some leafIndex =>
      if treeSize ≤ leafIndex then .error .invalidProofQuery
      else do
        let hashes := mirroredEntryHashesUpTo rows networkId shardId treeSize.toNat sourceUrl
        let leaves ← decodeHexLeaves hashes
        let proof ← (inclusionProof ledgerHashAlgo leafIndex leaves).mapError .proofGeneration
        let leaf ← decodeHexLeaves [leafHashAt hashes leafIndex]
        let root ← (mthOfHexHashes ledgerHashAlgo hashes).mapError .settlement
        if verifyInclusionProof ledgerHashAlgo (leaf.getD 0 []) leafIndex treeSize.toNat proof root then
          return ⟨seq, treeSize, leafIndex, leafHashAt hashes leafIndex, hexEncode root.toList, hexHashes proof⟩
        else throw .proofVerificationFailed

variable (sources : ShardMirrorSources)

/-- `GET /ledger/proof/consistency` for a shard this node does not author -/
def consistencyProofRequest (first second : ℤ) : Except AppError ConsistencyProofResponse :=
  if first < 0 ∨ second < 0 ∨ second < first then .error .invalidProofQuery
  else mirrorConsistencyProof rows networkId shardId first second (sources.sourceUrlFor shardId)

/-- `GET /ledger/proof/inclusion` for a shard this node does not author -/
def inclusionProofRequest (seq treeSize : ℤ) : Except AppError InclusionProofResponse :=
  if seq < 1 ∨ treeSize < 1 then .error .invalidProofQuery
  else mirrorInclusionProof rows networkId shardId seq treeSize (sources.sourceUrlFor shardId)

end handlers

/-! ## The authority's log -/

/-- the seqs and hashes of the authority's entries, in order -/
structure AuthorityLog where
  entries : List (ℤ × Hash)
  ascending : entries.Pairwise fun a b => a.1 < b.1
  positive : ∀ e ∈ entries, 1 ≤ e.1

def AuthorityLog.leaves (log : AuthorityLog) : List Bytes := log.entries.map fun e => e.2.toList

/-- the root of the log's first entries -/
def AuthorityLog.root (log : AuthorityLog) (n : ℕ) : Hash := mth ledgerHashAlgo (log.leaves.take n)

section log

variable {P : Type} (rows : List (MirroredRow P)) (networkId shardId : String)

/-- the shard's rows, in seq order, are the first entries of the log -/
def MirrorsFirst (log : AuthorityLog) : Prop :=
  ((orderBySeq (rowsOf rows networkId shardId none)).map fun r => (r.seq, r.entryHash)) <+:
    log.entries.map fun e => (e.1, hexEncode e.2.toList)

/-- how many entries of the shard are mirrored -/
def mirroredCount : ℕ := (rowsOf rows networkId shardId none).length

/-- the answer places the entry where it stands in the log, in the tree of the log's first entries -/
def InclusionDescribes (log : AuthorityLog) (seq treeSize : ℤ) (answer : InclusionProofResponse) : Prop :=
  ∃ (i n : ℕ) (hash : Hash) (nodes : List Hash), treeSize = n ∧ n ≤ log.entries.length ∧
    log.entries[i]? = some (seq, hash) ∧
    answer = ⟨seq, n, i, hexEncode hash.toList, hexEncode (log.root n).toList, hexHashes nodes⟩ ∧
    verifyInclusionProof ledgerHashAlgo hash.toList i n nodes (log.root n) = true

/-- the answer is about the trees of the log's first entries -/
def ConsistencyDescribes (log : AuthorityLog) (first second : ℤ) (answer : ConsistencyProofResponse) : Prop :=
  ∃ (m n : ℕ) (nodes : List Hash), first = m ∧ second = n ∧ m ≤ n ∧ n ≤ log.entries.length ∧
    answer = ⟨m, n, hexEncode (log.root m).toList, hexEncode (log.root n).toList, hexHashes nodes⟩ ∧
    verifyConsistencyProof ledgerHashAlgo m n nodes (log.root m) (log.root n) = true

/-- whatever is answered describes the log, and what the mirrored part can answer is answered -/
structure AnswersDescribe (sources : ShardMirrorSources) (log : AuthorityLog) : Prop where
  inclusion : ∀ seq treeSize answer, inclusionProofRequest rows networkId shardId sources seq treeSize = .ok answer →
    InclusionDescribes log seq treeSize answer
  consistency : ∀ first second answer, consistencyProofRequest rows networkId shardId sources first second = .ok answer →
    ConsistencyDescribes log first second answer
  inclusionServed : ∀ (i n : ℕ) seq hash, log.entries[i]? = some (seq, hash) → i < n →
    n ≤ mirroredCount rows networkId shardId → ∃ answer, inclusionProofRequest rows networkId shardId sources seq n = .ok answer
  consistencyServed : ∀ m n : ℕ, m ≤ n → n ≤ mirroredCount rows networkId shardId →
    ∃ answer, consistencyProofRequest rows networkId shardId sources m n = .ok answer

end log

/-! ## Ranks -/

/-- in an ascending list, as many items are at most the one at a rank as there are up to it -/
theorem countP_le_of_ascending {l : List ℤ} (h : l.Pairwise (· < ·)) {i : ℕ} {x : ℤ} (hx : l[i]? = some x) :
    (l.countP fun y => decide (y ≤ x)) = i + 1 := by
  obtain ⟨hi, rfl⟩ := List.getElem?_eq_some_iff.1 hx
  have hsplit : l = l.take i ++ l[i] :: l.drop (i + 1) := by
    rw [← List.drop_eq_getElem_cons hi, List.take_append_drop]
  have hlen : (l.take i).length = i := by rw [List.length_take, min_eq_left hi.le]
  generalize l[i] = x at hsplit
  rw [hsplit, List.pairwise_append, List.pairwise_cons] at h
  obtain ⟨-, ⟨hafter, -⟩, hbefore⟩ := h
  have hleft : (l.take i).countP (fun y => decide (y ≤ x)) = i := by
    rw [List.countP_eq_length.2, hlen]
    intro y hy
    simpa using (hbefore y hy x (by simp)).le
  have hright : (l.drop (i + 1)).countP (fun y => decide (y ≤ x)) = 0 := by
    rw [List.countP_eq_zero]
    intro y hy
    simpa using hafter y hy
  rw [hsplit, List.countP_append, List.countP_cons, hleft, hright]
  simp

section whole

variable {P : Type} {rows : List (MirroredRow P)} {networkId shardId : String} {source : Option String} {log : AuthorityLog}

/-- the mirrored part of the log -/
theorem MirrorsFirst.eq_take (h : MirrorsFirst rows networkId shardId log) :
    mirroredCount rows networkId shardId ≤ log.entries.length ∧
      (orderBySeq (rowsOf rows networkId shardId none)).map (fun r => (r.seq, r.entryHash)) =
        (log.entries.take (mirroredCount rows networkId shardId)).map fun e => (e.1, hexEncode e.2.toList) := by
  have hlen : ((orderBySeq (rowsOf rows networkId shardId none)).map fun r => (r.seq, r.entryHash)).length =
      mirroredCount rows networkId shardId := by
    rw [List.length_map, Mirror.orderBySeq, List.length_insertionSort, mirroredCount]
  have hle := h.length_le
  have htake := List.prefix_iff_eq_take.1 h
  rw [hlen, ← List.map_take] at htake
  rw [hlen, List.length_map] at hle
  exact ⟨hle, htake⟩

/-- the first entry hashes of the shard are those of the log -/
theorem mirroredEntryHashesUpTo_eq (h : MirrorsFirst rows networkId shardId log)
    (hsource : rowsOf rows networkId shardId source = rowsOf rows networkId shardId none) {n : ℕ}
    (hn : n ≤ mirroredCount rows networkId shardId) :
    mirroredEntryHashesUpTo rows networkId shardId n source =
      (log.entries.take n).map fun e => hexEncode e.2.toList := by
  have htake := congrArg (List.map Prod.snd) h.eq_take.2
  rw [List.map_map, List.map_map] at htake
  have hhashes : (orderBySeq (rowsOf rows networkId shardId none)).map (fun r => r.entryHash) =
      (log.entries.take (mirroredCount rows networkId shardId)).map fun e => hexEncode e.2.toList := htake
  rw [mirroredEntryHashesUpTo, hsource, List.map_take, hhashes, ← List.map_take, List.take_take, min_eq_left hn]

theorem decode_texts (log : AuthorityLog) (n : ℕ) :
    ((log.entries.take n).map fun e => hexEncode e.2.toList).mapM hexDecode = some (log.leaves.take n) := by
  rw [AuthorityLog.leaves, ← List.map_take]
  induction log.entries.take n with
  | nil => rfl
  | cons e es ih => simp [ih, hexDecode_hexEncode]

/-- the seqs of the shard, in order -/
theorem seqs_eq (h : MirrorsFirst rows networkId shardId log) :
    (orderBySeq (rowsOf rows networkId shardId none)).map (fun r => r.seq) =
      (log.entries.take (mirroredCount rows networkId shardId)).map Prod.fst := by
  have htake := congrArg (List.map Prod.fst) h.eq_take.2
  rw [List.map_map, List.map_map] at htake
  exact htake

theorem countP_rows (h : MirrorsFirst rows networkId shardId log) {seq : ℤ} {i : ℕ}
    (hi : ((log.entries.take (mirroredCount rows networkId shardId)).map Prod.fst)[i]? = some seq) :
    ((rowsOf rows networkId shardId none).countP fun q => decide (q.seq ≤ seq)) = i + 1 := by
  have hasc : ((log.entries.take (mirroredCount rows networkId shardId)).map Prod.fst).Pairwise (· < ·) :=
    List.pairwise_map.2 (log.ascending.sublist (List.take_sublist _ _))
  rw [← countP_le_of_ascending hasc hi, ← seqs_eq h, List.countP_map,
    ← (List.perm_insertionSort (fun a b : MirroredRow P => a.seq ≤ b.seq) (rowsOf rows networkId shardId none)).countP_eq]
  rfl

/-- **The rank** of an entry is its position in the log, within the mirrored part -/
theorem mirroredLeafIndexForSeq_eq_some (h : MirrorsFirst rows networkId shardId log)
    (hsource : rowsOf rows networkId shardId source = rowsOf rows networkId shardId none) {seq : ℤ} {i : ℕ} :
    mirroredLeafIndexForSeq rows networkId shardId seq source = some i ↔
      i < mirroredCount rows networkId shardId ∧ ∃ hash, log.entries[i]? = some (seq, hash) := by
  have hposition : ∀ j : ℕ, ((log.entries.take (mirroredCount rows networkId shardId)).map Prod.fst)[j]? = some seq ↔
      j < mirroredCount rows networkId shardId ∧ ∃ hash, log.entries[j]? = some (seq, hash) := by
    intro j
    rw [List.getElem?_map, List.getElem?_take]
    split_ifs with hj <;> simp [hj]
  rw [mirroredLeafIndexForSeq, hsource]
  constructor
  · intro hi
    obtain ⟨r, hr, hrank⟩ := Option.map_eq_some_iff.1 hi
    have hseq : r.seq = seq := by simpa using List.find?_some hr
    have hmem : r.seq ∈ (log.entries.take (mirroredCount rows networkId shardId)).map Prod.fst := by
      rw [← seqs_eq h]
      exact List.mem_map_of_mem ((List.mem_insertionSort _).2 (List.mem_of_find?_eq_some hr))
    obtain ⟨j, hj⟩ := List.getElem?_of_mem hmem
    rw [countP_rows h hj] at hrank
    obtain rfl : j = i := by simpa using hrank
    rw [hseq] at hj
    exact (hposition j).1 hj
  · intro hi
    have hj := (hposition i).2 hi
    cases hfind : (rowsOf rows networkId shardId none).find? fun r => decide (r.seq = seq) with
    | none =>
      have hmem : seq ∈ (orderBySeq (rowsOf rows networkId shardId none)).map fun r => r.seq := by
        rw [seqs_eq h]
        exact List.mem_of_getElem? hj
      obtain ⟨r, hr, hseq⟩ := List.mem_map.1 hmem
      exact absurd hseq (by simpa using List.find?_eq_none.1 hfind r ((List.mem_insertionSort _).1 hr))
    | some r =>
      have hseq : r.seq = seq := by simpa using List.find?_some hfind
      rw [Option.map_some, hseq, countP_rows h hj, Nat.add_sub_cancel]

/-! ## Reads of the whole shard -/

theorem mthOfHexHashes_texts (log : AuthorityLog) (n : ℕ) :
    mthOfHexHashes ledgerHashAlgo ((log.entries.take n).map fun e => hexEncode e.2.toList) = .ok (log.root n) := by
  rw [mthOfHexHashes, decode_texts]
  rfl

theorem decodeHexLeaves_texts (log : AuthorityLog) (n : ℕ) :
    decodeHexLeaves ((log.entries.take n).map fun e => hexEncode e.2.toList) = .ok (log.leaves.take n) := by
  rw [decodeHexLeaves, decode_texts]

theorem verifiedCount_eq (hsource : rowsOf rows networkId shardId source = rowsOf rows networkId shardId none) :
    (mirroredProgress rows networkId shardId source).verifiedCount = mirroredCount rows networkId shardId := by
  rw [mirroredProgress, hsource, mirroredCount]

/-- a consistency proof is generated for every two sizes, and verifies between their roots -/
theorem exists_consistencyProof (log : AuthorityLog) {m n : ℕ} (hmn : m ≤ n) (hn : n ≤ log.entries.length) :
    ∃ nodes, consistencyProof ledgerHashAlgo m (log.leaves.take n) = .ok nodes ∧
      verifyConsistencyProof ledgerHashAlgo m n nodes (log.root m) (log.root n) = true := by
  have hlen : (log.leaves.take n).length = n := by
    rw [List.length_take, AuthorityLog.leaves, List.length_map, min_eq_left hn]
  rcases Nat.eq_zero_or_pos m with rfl | hm
  · exact ⟨[], by simp [consistencyProof], by simp [verifyConsistencyProof]⟩
  rcases hmn.eq_or_lt with rfl | hlt
  · refine ⟨[], ?_, ?_⟩
    · rw [consistencyProof, hlen, if_neg hm.ne', if_neg (lt_irrefl m), if_pos rfl]
    · rw [verifyConsistencyProof, if_neg (lt_irrefl m), if_neg hm.ne', if_pos rfl]
      simp
  · refine ⟨subproof ledgerHashAlgo m (log.leaves.take n) true, ?_, ?_⟩
    · rw [consistencyProof, hlen, if_neg hm.ne', if_neg (by omega), if_neg hlt.ne]
    · have hgenerated := verifyConsistencyProof_generated ledgerHashAlgo (log.leaves.take n) m hm (by omega)
      rw [hlen, List.take_take, min_eq_left hmn] at hgenerated
      exact hgenerated

/-- **A consistency answer** of a read that sees the whole shard -/
theorem mirrorConsistencyProof_eq_ok (h : MirrorsFirst rows networkId shardId log)
    (hsource : rowsOf rows networkId shardId source = rowsOf rows networkId shardId none) {m n : ℕ} (hmn : m ≤ n)
    (hn : n ≤ mirroredCount rows networkId shardId) :
    ∃ nodes, mirrorConsistencyProof rows networkId shardId m n source =
        .ok ⟨m, n, hexEncode (log.root m).toList, hexEncode (log.root n).toList, hexHashes nodes⟩ ∧
      verifyConsistencyProof ledgerHashAlgo m n nodes (log.root m) (log.root n) = true := by
  obtain ⟨nodes, hnodes, hverify⟩ := exists_consistencyProof log hmn (hn.trans h.eq_take.1)
  refine ⟨nodes, ?_, hverify⟩
  have hcount : ¬ ((mirroredProgress rows networkId shardId source).verifiedCount : ℤ) < n := by
    rw [verifiedCount_eq hsource]
    omega
  have hfirst : rootOfFirst ((log.entries.take n).map fun e => hexEncode e.2.toList) m = .ok (log.root m) := by
    unfold rootOfFirst
    split_ifs with hzero
    · obtain rfl : m = 0 := by exact_mod_cast hzero
      rw [AuthorityLog.root, List.take_zero, mth_nil]
    · rw [Int.toNat_natCast, ← List.map_take, List.take_take, min_eq_left hmn, mthOfHexHashes_texts]
      rfl
  rw [mirrorConsistencyProof, if_neg hcount]
  dsimp only
  rw [Int.toNat_natCast, Int.toNat_natCast, mirroredEntryHashesUpTo_eq h hsource hn, mthOfHexHashes_texts, hfirst,
    decodeHexLeaves_texts]
  change ((consistencyProof ledgerHashAlgo m (log.leaves.take n)).mapError AppError.proofGeneration >>= _) = _
  rw [hnodes]
  change (if verifyConsistencyProof ledgerHashAlgo m n nodes (log.root m) (log.root n) = true then _ else _) = _
  rw [if_pos hverify]
  rfl

/-- **An inclusion answer** of a read that sees the whole shard -/
theorem mirrorInclusionProof_eq_ok (h : MirrorsFirst rows networkId shardId log)
    (hsource : rowsOf rows networkId shardId source = rowsOf rows networkId shardId none) {seq : ℤ} {hash : Hash} {i n : ℕ}
    (hentry : log.entries[i]? = some (seq, hash)) (hi : i < n) (hn : n ≤ mirroredCount rows networkId shardId) :
    ∃ nodes, mirrorInclusionProof rows networkId shardId seq n source =
        .ok ⟨seq, n, i, hexEncode hash.toList, hexEncode (log.root n).toList, hexHashes nodes⟩ ∧
      verifyInclusionProof ledgerHashAlgo hash.toList i n nodes (log.root n) = true := by
  have hlen : (log.leaves.take n).length = n := by
    rw [List.length_take, AuthorityLog.leaves, List.length_map, min_eq_left (hn.trans h.eq_take.1)]
  have hlt : i < (log.leaves.take n).length := by rw [hlen]; exact hi
  have hleaf : (log.leaves.take n)[i] = hash.toList := by
    apply (List.getElem_eq_iff hlt).2
    rw [List.getElem?_take_of_lt hi, AuthorityLog.leaves, List.getElem?_map, hentry]
    rfl
  have hverify := verifyInclusionProof_path ledgerHashAlgo (log.leaves.take n) i hlt
  rw [hleaf, hlen] at hverify
  change verifyInclusionProof ledgerHashAlgo hash.toList i n _ (log.root n) = true at hverify
  refine ⟨path ledgerHashAlgo i (log.leaves.take n), ?_, hverify⟩
  have hcount : ¬ ((mirroredProgress rows networkId shardId source).verifiedCount : ℤ) < n := by
    rw [verifiedCount_eq hsource]
    omega
  have hrank := (mirroredLeafIndexForSeq_eq_some h hsource).2 ⟨hi.trans_le hn, hash, hentry⟩
  have htext : leafHashAt ((log.entries.take n).map fun e => hexEncode e.2.toList) i = hexEncode hash.toList := by
    rw [leafHashAt, List.getD_eq_getElem?_getD, List.getElem?_map, List.getElem?_take_of_lt hi, hentry]
    rfl
  have hproof : inclusionProof ledgerHashAlgo i (log.leaves.take n) = .ok (path ledgerHashAlgo i (log.leaves.take n)) := by
    rw [inclusionProof, if_neg (by omega)]
  have hdecode : decodeHexLeaves [hexEncode hash.toList] = .ok [hash.toList] := by
    simp [decodeHexLeaves, hexDecode_hexEncode]
  rw [mirrorInclusionProof, if_neg hcount, hrank]
  dsimp only
  rw [if_neg (by omega), Int.toNat_natCast, mirroredEntryHashesUpTo_eq h hsource hn, mthOfHexHashes_texts,
    decodeHexLeaves_texts, htext, hdecode]
  change ((inclusionProof ledgerHashAlgo i (log.leaves.take n)).mapError AppError.proofGeneration >>= _) = _
  rw [hproof]
  change (if verifyInclusionProof ledgerHashAlgo hash.toList i n (path ledgerHashAlgo i (log.leaves.take n)) (log.root n) =
    true then _ else _) = _
  rw [if_pos hverify]
  rfl

end whole

/-! ## Narrowed reads -/

section narrowed

variable {P : Type} {rows : List (MirroredRow P)} {networkId shardId : String} {log : AuthorityLog}

/-- a read narrowed to a source sees the rows of the shard that carry it -/
theorem rowsOf_some (rows : List (MirroredRow P)) (networkId shardId url : String) :
    rowsOf rows networkId shardId (some url) =
      (rowsOf rows networkId shardId none).filter fun r => decide (r.sourceUrl = url) := by
  unfold rowsOf
  rw [List.filter_filter]
  apply List.filter_congr
  intro r _
  simp [Bool.and_left_comm, Bool.and_comm]

/-- it sees the whole shard exactly when every row does -/
theorem rowsOf_source_iff (sources : ShardMirrorSources) :
    rowsOf rows networkId shardId (sources.sourceUrlFor shardId) = rowsOf rows networkId shardId none ↔
      ∀ url, sources.sourceUrlFor shardId = some url → ∀ r ∈ rowsOf rows networkId shardId none, r.sourceUrl = url := by
  cases hurl : sources.sourceUrlFor shardId with
  | none => simp
  | some url =>
    rw [rowsOf_some, List.filter_eq_self]
    simp

theorem inclusion_of_request {sources : ShardMirrorSources} (h : MirrorsFirst rows networkId shardId log)
    (hsource : rowsOf rows networkId shardId (sources.sourceUrlFor shardId) = rowsOf rows networkId shardId none)
    {seq treeSize : ℤ} {answer : InclusionProofResponse}
    (hanswer : inclusionProofRequest rows networkId shardId sources seq treeSize = .ok answer) :
    InclusionDescribes log seq treeSize answer := by
  unfold inclusionProofRequest at hanswer
  split_ifs at hanswer with hquery
  obtain ⟨n, rfl⟩ := Int.eq_ofNat_of_zero_le (show 0 ≤ treeSize by omega)
  have hrequest := hanswer
  unfold mirrorInclusionProof at hanswer
  split_ifs at hanswer with hcount
  rw [verifiedCount_eq hsource] at hcount
  split at hanswer
  · cases hanswer
  · rename_i i hrank
    split_ifs at hanswer with hsize
    obtain ⟨-, hash, hentry⟩ := (mirroredLeafIndexForSeq_eq_some h hsource).1 hrank
    obtain ⟨nodes, hok, hverify⟩ := mirrorInclusionProof_eq_ok (n := n) h hsource hentry (by omega) (by omega)
    rw [hrequest] at hok
    exact ⟨i, n, hash, nodes, rfl, by have := h.eq_take.1; omega, hentry, Except.ok.inj hok, hverify⟩

theorem consistency_of_request {sources : ShardMirrorSources} (h : MirrorsFirst rows networkId shardId log)
    (hsource : rowsOf rows networkId shardId (sources.sourceUrlFor shardId) = rowsOf rows networkId shardId none)
    {first second : ℤ} {answer : ConsistencyProofResponse}
    (hanswer : consistencyProofRequest rows networkId shardId sources first second = .ok answer) :
    ConsistencyDescribes log first second answer := by
  unfold consistencyProofRequest at hanswer
  split_ifs at hanswer with hquery
  obtain ⟨m, rfl⟩ := Int.eq_ofNat_of_zero_le (show 0 ≤ first by omega)
  obtain ⟨n, rfl⟩ := Int.eq_ofNat_of_zero_le (show 0 ≤ second by omega)
  have hrequest := hanswer
  unfold mirrorConsistencyProof at hanswer
  split_ifs at hanswer with hcount
  rw [verifiedCount_eq hsource] at hcount
  obtain ⟨nodes, hok, hverify⟩ := mirrorConsistencyProof_eq_ok (m := m) (n := n) h hsource (by omega) (by omega)
  rw [hrequest] at hok
  exact ⟨m, n, nodes, rfl, rfl, by omega, by have := h.eq_take.1; omega, Except.ok.inj hok, hverify⟩

/-- **When mirror proofs describe the log.** For a shard whose rows are the first entries of the authority's log, every
answer to a proof request is about the log's own trees, and no size within the mirrored part is refused, if and only if
no single source is configured for the shard or every row of the shard was fetched from it. -/
theorem answers_describe_log_iff (sources : ShardMirrorSources) (h : MirrorsFirst rows networkId shardId log) :
    AnswersDescribe rows networkId shardId sources log ↔
      ∀ url, sources.sourceUrlFor shardId = some url → ∀ r ∈ rowsOf rows networkId shardId none, r.sourceUrl = url := by
  constructor
  · -- the proof up to the last mirrored entry is refused to a read that misses a row
    intro hdescribe url hurl r hr
    obtain ⟨answer, hanswer⟩ := hdescribe.consistencyServed 0 _ (Nat.zero_le _) (le_refl _)
    unfold consistencyProofRequest at hanswer
    split_ifs at hanswer
    unfold mirrorConsistencyProof at hanswer
    split_ifs at hanswer with hcount
    rw [hurl, mirroredProgress, rowsOf_some, mirroredCount, not_lt, Nat.cast_le] at hcount
    have hlength := le_antisymm (List.length_filter_le _ _) hcount
    have hself := List.length_filter_eq_length_iff.1 hlength
    simpa using hself r hr
  · intro hrows
    have hsource := (rowsOf_source_iff sources).2 hrows
    refine ⟨fun _ _ _ => inclusion_of_request h hsource, fun _ _ _ => consistency_of_request h hsource, ?_, ?_⟩
    · intro i n seq hash hentry hi hn
      obtain ⟨nodes, hok, -⟩ := mirrorInclusionProof_eq_ok h hsource hentry hi hn
      have hseq : 1 ≤ seq := log.positive (seq, hash) (List.mem_of_getElem? hentry)
      have hguard : ¬ (seq < 1 ∨ (n : ℤ) < 1) := by omega
      exact ⟨_, (if_neg hguard).trans hok⟩
    · intro m n hmn hn
      obtain ⟨nodes, hok, -⟩ := mirrorConsistencyProof_eq_ok h hsource hmn hn
      have hguard : ¬ ((m : ℤ) < 0 ∨ (n : ℤ) < 0 ∨ (n : ℤ) < m) := by omega
      exact ⟨_, (if_neg hguard).trans hok⟩

end narrowed

/-! ## Two entries from two peers -/

section peers

open Json

def peerRow (seq : ℤ) (sourceUrl prevHash entryHash : String) : MirroredRow (Value Decimal) where
  sourceUrl := sourceUrl
  networkId := "avalon"
  shardId := "core"
  seq := seq
  eventId := .replicate 16 (UInt8.ofNat seq.toNat)
  kind := "note.added"
  issuer := "g:a:b:c"
  subject := "g:a:b:c"
  payload := some .null
  payloadHash := "74234e98afe7498fb5daf1f36ac2d78acc339464f950703b8c019892f982b90b"
  eventTimestamp := 1790000000000000000
  version := 1
  prevHash := prevHash
  entryHash := entryHash
  batchId := .replicate 16 9
  verifiedTreeSize := 2
  envelope := ⟨1, 1, 1, [0, 0]⟩
  mirroredAt := 1790000002000000000
  projectionRejection := none

/-- one entry of the log from each of two peers -/
def peerRows : List (MirroredRow (Value Decimal)) :=
  [peerRow 1 "https://a" genesisHash "24b45e12fee9d3131add575a7ccbe694034e7f4031d69d9dbdc53a15f0076b71",
    peerRow 2 "https://b" "24b45e12fee9d3131add575a7ccbe694034e7f4031d69d9dbdc53a15f0076b71"
      "90cf905d0f447763f9ce32fa804aa19f291f2b86cdbf76c3d02b6d624402978d"]

def peerLog : AuthorityLog where
  entries := [(1, .ofHex 32 "24b45e12fee9d3131add575a7ccbe694034e7f4031d69d9dbdc53a15f0076b71"),
    (2, .ofHex 32 "90cf905d0f447763f9ce32fa804aa19f291f2b86cdbf76c3d02b6d624402978d")]
  ascending := by simp
  positive := by simp

theorem peerRows_mirror : MirrorsFirst peerRows "avalon" "core" peerLog := by
  have hrows : (orderBySeq (rowsOf peerRows "avalon" "core" none)).map (fun r => (r.seq, r.entryHash)) =
      peerLog.entries.map fun e => (e.1, hexEncode e.2.toList) := by
    decide +kernel
  rw [MirrorsFirst, hrows]

/-- with both peers configured the answers describe the log -/
theorem answers_describe_log_two_sources :
    AnswersDescribe peerRows "avalon" "core" (.fromParsed [("core", "https://a"), ("core", "https://b")]) peerLog := by
  apply (answers_describe_log_iff _ peerRows_mirror).2
  have hnone : (ShardMirrorSources.fromParsed [("core", "https://a"), ("core", "https://b")]).sourceUrlFor "core" = none := by
    decide +kernel
  rw [hnone]
  simp

/-- with one of them configured the second entry is served as the first leaf, in a tree of its own -/
theorem narrowed_read_misplaces_entry :
    ¬ ∀ parsed, MirrorsFirst peerRows "avalon" "core" peerLog →
      AnswersDescribe peerRows "avalon" "core" (.fromParsed parsed) peerLog := by
  intro h
  have hanswer : (inclusionProofRequest peerRows "avalon" "core" (.fromParsed [("core", "https://b")]) 2 1).toOption.map
      InclusionProofResponse.leafIndex = some 0 := by
    decide +kernel
  obtain ⟨answer, hok, hindex⟩ := Option.map_eq_some_iff.1 hanswer
  obtain ⟨i, n, hash, nodes, -, -, hentry, rfl, -⟩ :=
    (h [("core", "https://b")] peerRows_mirror).inclusion 2 1 answer (toOption_eq_some.1 hok)
  obtain rfl : i = 0 := by simpa using hindex
  have hseq : peerLog.entries[0]?.map Prod.fst = some 2 := by rw [hentry]; rfl
  exact absurd hseq (by decide +kernel)

end peers

end Avalon.MirrorProofs
