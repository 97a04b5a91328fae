/-
Promoting a mirror (`crates/chain/src/promotion.rs`): the plan from which a replacement node continues the ledger of a lost
authority.

`PlanBuilder` takes the mirrored entries one by one in the order of their seqs. It checks each against the chain so far and keeps
a Merkle tree, the open batch and the batches seen; `finish` gives the batches with their tree sizes and roots. `push` is modelled
with the builder it leaves behind, also when it refuses the entry.

Results:
- `push_of_checked`, `push_of_not_checked`: what a push does.
- `builds_iff`: which entries can be pushed, one after the other, and what the builder holds then.
- `promotion_plan_correct`: the plan of a mirrored shard.
- `refused_push_unnoticed`: a refused push goes unnoticed unless the entry was refused for its batch alone. Then its leaf stays in
  the tree: every other check is made before the builder is touched.
-/
import Mathlib.Tactic
import Avalon.Core.Bytes
import Avalon.Core.Fallible
import Avalon.Core.HashChain
import Avalon.Core.Segments
import Avalon.Protocol.SigningBytes
import Avalon.Protocol.LedgerEntry
import Avalon.Protocol.Events
import Avalon.Chain.Merkle
import Avalon.Chain.IncrementalMerkle
import Avalon.Chain.Ledger
import Avalon.Chain.Mirror

namespace Avalon.Promotion

open Avalon.SigningBytes Avalon.LedgerEntry Avalon.Events Avalon.Merkle Avalon.IncrementalMerkle Avalon.Ledger Avalon.Mirror
open Fallible HashChain Segments

/-! ## Model -/

/-- why an entry hash is no leaf -/
inductive InvalidHashReason where
  | notHex
  | wrongLength (bytes : ℕ)
  deriving DecidableEq

/-- the errors of a plan -/
inductive PromotionError where
  | firstEntryNotGenesis (seq : ℤ) (prevHash : String)
  | brokenLink (seq : ℤ)
  | hashMismatch (seq : ℤ)
  | invalidHash (seq : ℤ) (reason : InvalidHashReason)
  | seqOrder (seq : ℤ)
  | batchNotContiguous (batchId : Uuid) (seq : ℤ)
  | nothingMirrored
  | settlement (e : SettlementError)
  deriving DecidableEq

structure PlannedBatch where
  batchId : Uuid
  firstSeq : ℤ
  lastSeq : ℤ
  treeSize : ℕ
  batchRoot : String

/-- a batch while entries are pushed -/
structure OpenBatch where
  batchId : Uuid
  firstSeq : ℤ
  lastSeq : ℤ
  treeSize : ℕ

structure PlanBuilder where
  networkId : String
  shardId : String
  tree : IncrementalMerkleTree
  prevHash : String
  lastSeq : Option ℤ
  batches : List OpenBatch
  seenBatches : Finset Uuid
  prunedEntries : ℕ

structure PromotionPlan where
  batches : List PlannedBatch
  treeSize : ℕ
  highestSeq : ℤ
  prunedEntries : ℕ
  tree : IncrementalMerkleTree

/-- the hex root over the first leaves -/
def PromotionPlan.rootAt (plan : PromotionPlan) (treeSize : ℤ) : OrPanic (Option String) :=
  if treeSize < 1 then some none
  else (plan.tree.root treeSize.toNat).map fun root => root.map fun h => hexEncode h.toList

/-- panics if the plan holds no entry -/
def PromotionPlan.finalRoot (plan : PromotionPlan) : OrPanic String := (plan.rootAt plan.treeSize).join

variable {P : Type}

namespace PlanBuilder

def new (networkId shardId : String) : PlanBuilder where
  networkId := networkId
  shardId := shardId
  tree := .new (Envelope.current .settlementSth).hashAlgo
  prevHash := genesisHash
  lastSeq := none
  batches := []
  seenBatches := ∅
  prunedEntries := 0

/-- the end of a push: the entry is the last one now -/
def advance (b : PlanBuilder) (entry : MirroredEntry P) : PlanBuilder :=
  { b with prevHash := entry.entryHash, lastSeq := some entry.seq }

/-- the entry opens a batch, which must not have been seen before -/
def openBatch (b : PlanBuilder) (entry : MirroredEntry P) : PlanBuilder × Except PromotionError Unit :=
  if entry.batchId ∈ b.seenBatches then (b, .error (.batchNotContiguous entry.batchId entry.seq))
  else
    let opened := { b with
      seenBatches := insert entry.batchId b.seenBatches
      batches := b.batches ++ [OpenBatch.mk entry.batchId entry.seq entry.seq b.tree.size] }
    (opened.advance entry, .ok ())

/-- the batch of an entry whose leaf is in the tree -/
def recordBatch (b : PlanBuilder) (entry : MirroredEntry P) : PlanBuilder × Except PromotionError Unit :=
  match b.batches.getLast? with
  | some current =>
    if current.batchId = entry.batchId then
      let grown := { b with
        batches := b.batches.dropLast ++ [{ current with lastSeq := entry.seq, treeSize := b.tree.size }] }
      (grown.advance entry, .ok ())
    else b.openBatch entry
  | none => b.openBatch entry

/-- the leaf of an entry, whose hash is its content's -/
def recordLeaf (b : PlanBuilder) (entry : MirroredEntry P) : PlanBuilder × Except PromotionError Unit :=
  let counted := if entry.payload.isNone then { b with prunedEntries := b.prunedEntries + 1 } else b
  match hexDecode entry.entryHash with
  | none => (counted, .error (.invalidHash entry.seq .notHex))
  | some leaf =>
    if leaf.length ≠ 32 then (counted, .error (.invalidHash entry.seq (.wrongLength leaf.length)))
    else { counted with tree := counted.tree.append leaf }.recordBatch entry

/-- the builder afterwards, and whether the entry was taken -/
def push (codec : PayloadCodec P) (b : PlanBuilder) (entry : MirroredEntry P) : PlanBuilder × Except PromotionError Unit :=
  if ∃ last ∈ b.lastSeq, entry.seq ≤ last then (b, .error (.seqOrder entry.seq))
  else if entry.prevHash ≠ b.prevHash then
    if b.lastSeq.isNone then (b, .error (.firstEntryNotGenesis entry.seq entry.prevHash))
    else (b, .error (.brokenLink entry.seq))
  else
    match recomputedHash codec entry with
    | .error e => (b, .error (.settlement e))
    | .ok recomputed =>
      if entry.networkId ≠ b.networkId ∨ entry.shardId ≠ b.shardId ∨ recomputed ≠ some entry.entryHash then
        (b, .error (.hashMismatch entry.seq))
      else b.recordLeaf entry

/-- the planned batch, with the root at its size; panics if the tree is smaller -/
def planBatch (tree : IncrementalMerkleTree) (batch : OpenBatch) : OrPanic PlannedBatch :=
  (tree.root batch.treeSize).join.map fun root =>
    ⟨batch.batchId, batch.firstSeq, batch.lastSeq, batch.treeSize, hexEncode root.toList⟩

def finish (b : PlanBuilder) : OrPanic (Except PromotionError PromotionPlan) :=
  match b.lastSeq with
  | none => some (.error .nothingMirrored)
  | some highestSeq =>
    (b.batches.mapM (planBatch b.tree)).map fun batches => .ok ⟨batches, b.tree.size, highestSeq, b.prunedEntries, b.tree⟩

/-- pushes in order; the first refusal ends it -/
def pushAll (codec : PayloadCodec P) : PlanBuilder → List (MirroredEntry P) → Except PromotionError PlanBuilder
  | b, [] => .ok b
  | b, entry :: rest =>
    match b.push codec entry with
    | (_, .error e) => .error e
    | (b', .ok ()) => pushAll codec b' rest

end PlanBuilder

/-! ## What a plan is for -/

/-- the leaf of an entry -/
def leaf (entry : MirroredEntry P) : Bytes := (hexDecode entry.entryHash).getD []

/-- the algorithm of the tree -/
def treeAlgo : HashAlgo := (Envelope.current .settlementSth).hashAlgo

/-- the entries are the history of one shard, from its start -/
structure Promotable (codec : PayloadCodec P) (networkId shardId : String) (entries : List (MirroredEntry P)) : Prop where
  increasing : entries.Pairwise fun a b => a.seq < b.seq
  linked : Linked Mirrored.entryHash id Mirrored.prevHash genesisHash entries
  own : ∀ e ∈ entries, e.networkId = networkId ∧ e.shardId = shardId
  hashed : ∀ e ∈ entries, recomputedHash codec e = .ok (some e.entryHash)
  contiguous : Contiguous (entries.map Mirrored.batchId)

/-- the batch that a group of entries makes after those before it -/
structure Batches (before group : List (MirroredEntry P)) (batch : OpenBatch) : Prop where
  own : ∀ e ∈ group, e.batchId = batch.batchId
  first : group.head?.map Mirrored.seq = some batch.firstSeq
  last : group.getLast?.map Mirrored.seq = some batch.lastSeq
  size : batch.treeSize = (before ++ group).length

/-- the same, with the root over all leaves so far -/
structure Plans (before group : List (MirroredEntry P)) (batch : PlannedBatch) : Prop where
  own : ∀ e ∈ group, e.batchId = batch.batchId
  first : group.head?.map Mirrored.seq = some batch.firstSeq
  last : group.getLast?.map Mirrored.seq = some batch.lastSeq
  size : batch.treeSize = (before ++ group).length
  root : batch.batchRoot = hexEncode (mth treeAlgo ((before ++ group).map leaf)).toList

/-- the plan of the entries -/
structure PlanOf (entries : List (MirroredEntry P)) (plan : PromotionPlan) : Prop where
  batches : Cut Plans plan.batches entries
  distinct : (plan.batches.map PlannedBatch.batchId).Nodup
  treeSize : plan.treeSize = entries.length
  highestSeq : entries.getLast?.map Mirrored.seq = some plan.highestSeq
  prunedEntries : plan.prunedEntries = entries.countP fun e => e.payload.isNone
  roots : ∀ n : ℕ, 1 ≤ n → n ≤ entries.length →
    plan.rootAt n = some (some (hexEncode (mth treeAlgo ((entries.take n).map leaf)).toList))
  finalRoot : plan.finalRoot = some (hexEncode (mth treeAlgo (entries.map leaf)).toList)
  lastRoot : plan.batches.getLast?.map PlannedBatch.batchRoot = plan.finalRoot

/-! ## Promotable histories -/

section

variable {codec : PayloadCodec P} {networkId shardId : String} {entries : List (MirroredEntry P)} {e : MirroredEntry P}

/-- in increasing order the last entry is the largest -/
theorem seq_le_last (h : entries.Pairwise fun a b => a.seq < b.seq) {last : MirroredEntry P} (hlast : entries.getLast? = some last) :
    ∀ x ∈ entries, x.seq ≤ last.seq := by
  obtain ⟨before, rfl⟩ := List.getLast?_eq_some_iff.1 hlast
  intro x hx
  rcases List.mem_append.1 hx with hx | hx
  · exact ((List.pairwise_append.1 h).2.2 x hx last (by simp)).le
  · rw [List.mem_singleton.1 hx]

/-- an entry continues a history -/
theorem promotable_concat : Promotable codec networkId shardId (entries ++ [e]) ↔
    Promotable codec networkId shardId entries ∧ (∀ last ∈ entries.getLast?.map Mirrored.seq, last < e.seq) ∧
      e.prevHash = tip Mirrored.entryHash id genesisHash entries ∧ e.networkId = networkId ∧ e.shardId = shardId ∧
      recomputedHash codec e = .ok (some e.entryHash) ∧
      (e.batchId ∈ entries.map Mirrored.batchId → (entries.map Mirrored.batchId).getLast? = some e.batchId) := by
  constructor
  · rintro ⟨hincreasing, hlinked, hown, hhashed, hcontiguous⟩
    rw [List.pairwise_append] at hincreasing
    rw [linked_concat] at hlinked
    rw [List.map_append, List.map_singleton, contiguous_concat] at hcontiguous
    refine ⟨⟨hincreasing.1, hlinked.1, fun x hx => hown x (List.mem_append_left _ hx),
      fun x hx => hhashed x (List.mem_append_left _ hx), hcontiguous.1⟩, ?_, hlinked.2, (hown e (by simp)).1,
      (hown e (by simp)).2, hhashed e (by simp), hcontiguous.2⟩
    intro last hlast
    obtain ⟨x, hx, rfl⟩ := Option.map_eq_some_iff.1 hlast
    exact hincreasing.2.2 x (List.mem_of_getLast? hx) e (by simp)
  · rintro ⟨h, hlater, hprev, hnetwork, hshard, hhash, hbatch⟩
    constructor
    case increasing =>
      refine List.pairwise_append.2 ⟨h.increasing, List.pairwise_singleton _ _, fun x hx y hy => ?_⟩
      obtain rfl := List.mem_singleton.1 hy
      cases hlast : entries.getLast? with
      | none =>
        rw [List.getLast?_eq_none_iff.1 hlast] at hx
        cases hx
      | some last =>
        have hlt := hlater last.seq (by rw [hlast]; rfl)
        exact lt_of_le_of_lt (seq_le_last h.increasing hlast x hx) hlt
    case linked => exact linked_concat.2 ⟨h.linked, hprev⟩
    case own =>
      intro x hx
      rcases List.mem_append.1 hx with hx | hx
      · exact h.own x hx
      · rw [List.mem_singleton.1 hx]
        exact ⟨hnetwork, hshard⟩
    case hashed =>
      intro x hx
      rcases List.mem_append.1 hx with hx | hx
      · exact h.hashed x hx
      · rw [List.mem_singleton.1 hx]
        exact hhash
    case contiguous =>
      rw [List.map_append, List.map_singleton, contiguous_concat]
      exact ⟨h.contiguous, hbatch⟩

theorem promotable_nil : Promotable codec networkId shardId [] where
  increasing := .nil
  linked := trivial
  own := by simp
  hashed := by simp
  contiguous := contiguous_nil

/-! ## One push -/

variable {b : PlanBuilder}

/-- the checks before the leaf of an entry is recorded -/
structure Checked (codec : PayloadCodec P) (b : PlanBuilder) (entry : MirroredEntry P) : Prop where
  later : ∀ last ∈ b.lastSeq, last < entry.seq
  links : entry.prevHash = b.prevHash
  network : entry.networkId = b.networkId
  shard : entry.shardId = b.shardId
  hash : recomputedHash codec entry = .ok (some entry.entryHash)

/-- a recomputed hash is the hex of 32 bytes -/
theorem hexDecode_entryHash (h : recomputedHash codec e = .ok (some e.entryHash)) :
    ∃ digest : Hash, hexDecode e.entryHash = some digest.toList ∧ leaf e = digest.toList := by
  obtain ⟨entry, -, htext, -⟩ := recomputedHash_eq_ok h
  have hdecode : hexDecode e.entryHash = some entry.hash.toList := by rw [htext, hexDecode_hexEncode]
  exact ⟨entry.hash, hdecode, by rw [leaf, hdecode]; rfl⟩

/-- the builder with the entry's leaf in its tree -/
def PlanBuilder.withLeaf (b : PlanBuilder) (entry : MirroredEntry P) : PlanBuilder :=
  { b with
    tree := b.tree.append (leaf entry)
    prunedEntries := b.prunedEntries + if entry.payload.isNone then 1 else 0 }

/-- an entry that fails a check changes nothing -/
theorem push_of_not_checked (h : ¬ Checked codec b e) : ∃ err, b.push codec e = (b, .error err) := by
  unfold PlanBuilder.push
  split_ifs with hseq hprev hfirst
  · exact ⟨_, rfl⟩
  · exact ⟨_, rfl⟩
  · exact ⟨_, rfl⟩
  cases hrecomputed : recomputedHash codec e with
  | error err => exact ⟨_, rfl⟩
  | ok recomputed =>
    dsimp only
    split_ifs with hcontent
    · exact ⟨_, rfl⟩
    · rw [not_or, not_or, not_not, not_not, not_not] at hcontent
      obtain ⟨hnetwork, hshard, rfl⟩ := hcontent
      refine absurd ⟨?_, not_not.1 hprev, hnetwork, hshard, hrecomputed⟩ h
      intro last hlast
      by_contra hle
      exact hseq ⟨last, hlast, not_lt.1 hle⟩

theorem push_of_checked (h : Checked codec b e) : b.push codec e = (b.withLeaf e).recordBatch e := by
  obtain ⟨digest, hdecode, hleaf⟩ := hexDecode_entryHash h.hash
  have hseq : ¬ ∃ last ∈ b.lastSeq, e.seq ≤ last := by
    rintro ⟨last, hlast, hle⟩
    exact absurd (h.later last hlast) (not_lt.2 hle)
  have hcontent : ¬ (e.networkId ≠ b.networkId ∨ e.shardId ≠ b.shardId ∨ some e.entryHash ≠ some e.entryHash) := by
    simp [h.network, h.shard]
  unfold PlanBuilder.push
  rw [if_neg hseq, if_neg (not_not.2 h.links), h.hash]
  dsimp only
  rw [if_neg hcontent, PlanBuilder.recordLeaf, hdecode]
  dsimp only
  rw [if_neg (by simp [List.Vector.toList_length]), PlanBuilder.withLeaf, hleaf]
  split_ifs <;> rfl

/-- the entry belongs to the batch that is open -/
def Joins (b : PlanBuilder) (entry : MirroredEntry P) : Prop := b.batches.getLast?.map OpenBatch.batchId = some entry.batchId

/-- the builder with the entry in the open batch -/
def PlanBuilder.joined (b : PlanBuilder) (entry : MirroredEntry P) (earlier : List OpenBatch) (current : OpenBatch) : PlanBuilder :=
  { b with batches := earlier ++ [{ current with lastSeq := entry.seq, treeSize := b.tree.size }] }.advance entry

/-- the builder with the entry in a batch of its own -/
def PlanBuilder.opened (b : PlanBuilder) (entry : MirroredEntry P) : PlanBuilder :=
  { b with
    seenBatches := insert entry.batchId b.seenBatches
    batches := b.batches ++ [OpenBatch.mk entry.batchId entry.seq entry.seq b.tree.size] }.advance entry

/-- what becomes of an entry whose leaf is recorded -/
inductive Recorded (b : PlanBuilder) (entry : MirroredEntry P) : PlanBuilder × Except PromotionError Unit → Prop
  | joins {earlier : List OpenBatch} {current : OpenBatch} : b.batches = earlier ++ [current] → current.batchId = entry.batchId →
      Recorded b entry (b.joined entry earlier current, .ok ())
  | opens : ¬ Joins b entry → entry.batchId ∉ b.seenBatches → Recorded b entry (b.opened entry, .ok ())
  | refused : ¬ Joins b entry → entry.batchId ∈ b.seenBatches →
      Recorded b entry (b, .error (.batchNotContiguous entry.batchId entry.seq))

theorem openBatch_recorded (h : ¬ Joins b e) : Recorded b e (b.openBatch e) := by
  unfold PlanBuilder.openBatch
  split_ifs with hseen
  · exact .refused h hseen
  · exact .opens h hseen

theorem recordBatch_recorded (b : PlanBuilder) (e : MirroredEntry P) : Recorded b e (b.recordBatch e) := by
  unfold PlanBuilder.recordBatch
  cases hlast : b.batches.getLast? with
  | none => exact openBatch_recorded (by rw [Joins, hlast]; simp)
  | some current =>
    dsimp only
    split_ifs with hid
    · obtain ⟨earlier, hbatches⟩ := List.getLast?_eq_some_iff.1 hlast
      have hdrop : b.batches.dropLast = earlier := by rw [hbatches, List.dropLast_concat]
      rw [hdrop]
      exact .joins hbatches hid
    · exact openBatch_recorded (by rw [Joins, hlast]; simpa using hid)

/-! ## The builder after any pushes -/

theorem segment_ids {before group : List (MirroredEntry P)} {batch : OpenBatch} (h : Batches before group batch) (id : Uuid) :
    id ∈ group.map Mirrored.batchId ↔ id = batch.batchId := by
  constructor
  · intro hid
    obtain ⟨x, hx, rfl⟩ := List.mem_map.1 hid
    exact h.own x hx
  · rintro rfl
    obtain ⟨x, hx, -⟩ := Option.map_eq_some_iff.1 h.first
    have hmem := List.mem_of_head? hx
    rw [← h.own x hmem]
    exact List.mem_map_of_mem hmem

/-- the batches have the ids of the entries -/
theorem batch_ids {batches : List OpenBatch} (h : Cut Batches batches entries) (id : Uuid) :
    id ∈ batches.map OpenBatch.batchId ↔ id ∈ entries.map Mirrored.batchId := by
  induction h with
  | nil => simp
  | snoc hcut hlast ih =>
    rw [List.map_append, List.map_append, List.mem_append, List.mem_append, ih, segment_ids hlast]
    simp

/-- the open batch is that of the last entry -/
theorem open_batch_id {batches : List OpenBatch} (h : Cut Batches batches entries) :
    batches.getLast?.map OpenBatch.batchId = (entries.map Mirrored.batchId).getLast? := by
  cases h with
  | nil => rfl
  | snoc hcut hlast =>
    obtain ⟨x, hx, -⟩ := Option.map_eq_some_iff.1 hlast.last
    rw [List.getLast?_concat, List.getLast?_map, List.getLast?_append, hx, Option.some_or, Option.map_some, Option.map_some,
      hlast.own x (List.mem_of_getLast? hx)]

/-- what the builder holds after the entries -/
structure Holds (networkId shardId : String) (entries : List (MirroredEntry P)) (b : PlanBuilder) : Prop where
  network : b.networkId = networkId
  shard : b.shardId = shardId
  tree : Represents treeAlgo (entries.map leaf) b.tree
  prevHash : b.prevHash = tip Mirrored.entryHash id genesisHash entries
  lastSeq : b.lastSeq = entries.getLast?.map Mirrored.seq
  batches : Cut Batches b.batches entries
  distinct : (b.batches.map OpenBatch.batchId).Nodup
  seen : ∀ id, id ∈ b.seenBatches ↔ id ∈ b.batches.map OpenBatch.batchId
  pruned : b.prunedEntries = entries.countP fun e => e.payload.isNone

theorem holds_new (networkId shardId : String) : Holds networkId shardId ([] : List (MirroredEntry P)) (.new networkId shardId) where
  network := rfl
  shard := rfl
  tree := represents_new _
  prevHash := rfl
  lastSeq := rfl
  batches := .nil
  distinct := .nil
  seen := by simp [PlanBuilder.new]
  pruned := rfl

theorem Holds.withLeaf_tree (h : Holds networkId shardId entries b) :
    Represents treeAlgo ((entries ++ [e]).map leaf) (b.withLeaf e).tree := by
  rw [List.map_append]
  exact append_represents (leaf e) h.tree

theorem Holds.withLeaf_size (h : Holds networkId shardId entries b) : (b.withLeaf e).tree.size = (entries ++ [e]).length := by
  rw [h.withLeaf_tree.size_eq, List.length_map]

theorem Holds.withLeaf_pruned (h : Holds networkId shardId entries b) :
    (b.withLeaf e).prunedEntries = (entries ++ [e]).countP fun e => e.payload.isNone := by
  rw [PlanBuilder.withLeaf, List.countP_append, ← h.pruned, List.countP_singleton]

theorem Holds.joined (h : Holds networkId shardId entries b) {earlier : List OpenBatch} {current : OpenBatch}
    (hbatches : b.batches = earlier ++ [current]) (hid : current.batchId = e.batchId) :
    Holds networkId shardId (entries ++ [e]) ((b.withLeaf e).joined e earlier current) where
  network := h.network
  shard := h.shard
  tree := h.withLeaf_tree
  prevHash := by
    rw [tip_concat]
    rfl
  lastSeq := by
    rw [List.getLast?_concat]
    rfl
  batches := by
    obtain ⟨before, group, rfl, hcut, hlast⟩ := (hbatches ▸ h.batches).last
    rw [List.append_assoc]
    refine .snoc hcut ⟨?_, ?_, ?_, ?_⟩
    · intro x hx
      rcases List.mem_append.1 hx with hx | hx
      · exact hlast.own x hx
      · rw [List.mem_singleton.1 hx]
        exact hid.symm
    · obtain ⟨x, hx, hseq⟩ := Option.map_eq_some_iff.1 hlast.first
      rw [List.head?_append, hx, Option.some_or, Option.map_some, hseq]
    · rw [List.getLast?_concat]
      rfl
    · rw [← List.append_assoc]
      exact h.withLeaf_size
  distinct := by
    have hids := h.distinct
    rw [hbatches, List.map_append] at hids
    change ((earlier ++ [_]).map OpenBatch.batchId).Nodup
    rw [List.map_append]
    exact hids
  seen := by
    intro id
    change id ∈ b.seenBatches ↔ id ∈ (earlier ++ [_]).map OpenBatch.batchId
    rw [h.seen, hbatches, List.map_append, List.map_append]
    rfl
  pruned := h.withLeaf_pruned

theorem Holds.opened (h : Holds networkId shardId entries b) (hnew : e.batchId ∉ b.seenBatches) :
    Holds networkId shardId (entries ++ [e]) ((b.withLeaf e).opened e) where
  network := h.network
  shard := h.shard
  tree := h.withLeaf_tree
  prevHash := by
    rw [tip_concat]
    rfl
  lastSeq := by
    rw [List.getLast?_concat]
    rfl
  batches := by
    refine .snoc h.batches ⟨?_, rfl, rfl, h.withLeaf_size⟩
    intro x hx
    rw [List.mem_singleton.1 hx]
  distinct := by
    change ((b.batches ++ [_]).map OpenBatch.batchId).Nodup
    rw [List.map_append, List.map_singleton, List.nodup_append]
    refine ⟨h.distinct, List.nodup_singleton _, ?_⟩
    intro id hid x hx
    obtain rfl := List.mem_singleton.1 hx
    rintro rfl
    exact hnew ((h.seen _).2 hid)
  seen := by
    intro id
    change id ∈ insert e.batchId b.seenBatches ↔ id ∈ (b.batches ++ [_]).map OpenBatch.batchId
    rw [Finset.mem_insert, h.seen, List.map_append, List.mem_append, List.map_singleton, List.mem_singleton, or_comm]
  pruned := h.withLeaf_pruned

/-- the entry stands in the open batch, or in none so far -/
theorem batch_continues_iff (h : Holds networkId shardId entries b) :
    (e.batchId ∈ entries.map Mirrored.batchId → (entries.map Mirrored.batchId).getLast? = some e.batchId) ↔
      (Joins b e ∨ e.batchId ∉ b.seenBatches) := by
  rw [Joins, open_batch_id h.batches, h.seen, batch_ids h.batches]
  tauto

theorem promotable_concat_iff (h : Holds networkId shardId entries b) (hp : Promotable codec networkId shardId entries) :
    Promotable codec networkId shardId (entries ++ [e]) ↔ Checked codec b e ∧ (Joins b e ∨ e.batchId ∉ b.seenBatches) := by
  rw [promotable_concat, batch_continues_iff h, ← h.network, ← h.shard, ← h.prevHash, ← h.lastSeq]
  constructor
  · rintro ⟨-, hlater, hprev, hnetwork, hshard, hhash, hbatch⟩
    exact ⟨⟨hlater, hprev, hnetwork, hshard, hhash⟩, hbatch⟩
  · rintro ⟨⟨hlater, hprev, hnetwork, hshard, hhash⟩, hbatch⟩
    rw [h.network, h.shard] at *
    exact ⟨hp, hlater, hprev, hnetwork, hshard, hhash, hbatch⟩

/-- **One push** is taken if and only if the entry continues the history -/
theorem push_spec (h : Holds networkId shardId entries b) (hp : Promotable codec networkId shardId entries) :
    (Promotable codec networkId shardId (entries ++ [e]) ∧
        ∃ b', b.push codec e = (b', .ok ()) ∧ Holds networkId shardId (entries ++ [e]) b') ∨
      (¬ Promotable codec networkId shardId (entries ++ [e]) ∧ ∃ b' err, b.push codec e = (b', .error err)) := by
  rw [promotable_concat_iff h hp]
  by_cases hchecked : Checked codec b e
  · rw [push_of_checked hchecked]
    have hrecorded := recordBatch_recorded (b.withLeaf e) e
    generalize (b.withLeaf e).recordBatch e = result at hrecorded
    cases hrecorded with
    | joins hbatches hid =>
      left
      refine ⟨⟨hchecked, .inl ?_⟩, _, rfl, h.joined hbatches hid⟩
      change b.batches = _ at hbatches
      rw [Joins, hbatches, List.getLast?_concat, Option.map_some, hid]
    | opens hjoins hnew => exact .inl ⟨⟨hchecked, .inr hnew⟩, _, rfl, h.opened hnew⟩
    | refused hjoins hseen =>
      right
      refine ⟨?_, _, _, rfl⟩
      rintro ⟨-, hjoined | hnew⟩
      · exact hjoins hjoined
      · exact hnew hseen
  · obtain ⟨err, herr⟩ := push_of_not_checked hchecked
    exact .inr ⟨fun hboth => hchecked hboth.1, b, err, herr⟩

theorem pushAll_concat (b : PlanBuilder) (entries : List (MirroredEntry P)) (e : MirroredEntry P) :
    PlanBuilder.pushAll codec b (entries ++ [e]) =
      (PlanBuilder.pushAll codec b entries).bind fun b' => PlanBuilder.pushAll codec b' [e] := by
  induction entries generalizing b with
  | nil => rfl
  | cons x rest ih =>
    rw [List.cons_append, PlanBuilder.pushAll, PlanBuilder.pushAll]
    rcases b.push codec x with ⟨b', err | ok⟩
    · rfl
    · exact ih b'

theorem pushAll_singleton : PlanBuilder.pushAll codec b [e] =
    match b.push codec e with
    | (_, .error err) => .error err
    | (b', .ok ()) => .ok b' := by
  rw [PlanBuilder.pushAll]
  rcases b.push codec e with ⟨b', err | ok⟩ <;> rfl

/-- **Pushing a history.** All its entries are taken if and only if it is promotable, and then the builder holds it -/
theorem builds_iff (codec : PayloadCodec P) (networkId shardId : String) (entries : List (MirroredEntry P)) :
    (Promotable codec networkId shardId entries ∧
        ∃ b, PlanBuilder.pushAll codec (.new networkId shardId) entries = .ok b ∧ Holds networkId shardId entries b) ∨
      (¬ Promotable codec networkId shardId entries ∧
        ∃ err, PlanBuilder.pushAll codec (.new networkId shardId) entries = .error err) := by
  induction entries using List.reverseRecOn with
  | nil => exact .inl ⟨promotable_nil, _, rfl, holds_new networkId shardId⟩
  | append_singleton entries e ih =>
    rw [pushAll_concat]
    rcases ih with ⟨hp, b, hb, hholds⟩ | ⟨hnot, err, herr⟩
    · rw [hb, Except.bind, pushAll_singleton]
      rcases push_spec (e := e) hholds hp with ⟨hnext, b', hpush, hholds'⟩ | ⟨hnot, b', err, hpush⟩
      · exact .inl ⟨hnext, b', by rw [hpush], hholds'⟩
      · exact .inr ⟨hnot, err, by rw [hpush]⟩
    · rw [herr]
      exact .inr ⟨fun h => hnot (promotable_concat.1 h).1, err, rfl⟩

/-! ## The plan -/

/-- the batch with its root -/
def planned (leaves : List Bytes) (batch : OpenBatch) : PlannedBatch :=
  ⟨batch.batchId, batch.firstSeq, batch.lastSeq, batch.treeSize,
    hexEncode (mth treeAlgo (leaves.take batch.treeSize)).toList⟩

theorem planBatch_eq {leaves : List Bytes} {tree : IncrementalMerkleTree} (h : Represents treeAlgo leaves tree) {batch : OpenBatch}
    (hsize : batch.treeSize ≤ leaves.length) : PlanBuilder.planBatch tree batch = some (planned leaves batch) := by
  rw [PlanBuilder.planBatch, root_represents h hsize]
  rfl

theorem mapM_planBatch {leaves : List Bytes} {tree : IncrementalMerkleTree} (h : Represents treeAlgo leaves tree)
    {batches : List OpenBatch} (hsize : ∀ batch ∈ batches, batch.treeSize ≤ leaves.length) :
    batches.mapM (PlanBuilder.planBatch tree) = some (batches.map (planned leaves)) := by
  induction batches with
  | nil => rfl
  | cons batch rest ih =>
    rw [List.mapM_cons, planBatch_eq h (hsize batch List.mem_cons_self), ih fun b hb => hsize b (List.mem_cons_of_mem _ hb)]
    rfl

theorem size_le {batches : List OpenBatch} (h : Cut Batches batches entries) :
    ∀ batch ∈ batches, batch.treeSize ≤ entries.length := by
  induction h with
  | nil => simp
  | snoc hcut hlast ih =>
    intro batch hbatch
    rcases List.mem_append.1 hbatch with hbatch | hbatch
    · have := ih batch hbatch
      rw [List.length_append]
      omega
    · rw [List.mem_singleton.1 hbatch, hlast.size]

theorem Holds.sizes (h : Holds networkId shardId entries b) :
    ∀ batch ∈ b.batches, batch.treeSize ≤ (entries.map leaf).length := by
  intro batch hbatch
  rw [List.length_map]
  exact size_le h.batches batch hbatch

/-- the covered leaves of a batch are the first ones -/
theorem plans_of_batches {before group : List (MirroredEntry P)} {batch : OpenBatch} (hinitial : before ++ group <+: entries)
    (h : Batches before group batch) : Plans before group (planned (entries.map leaf) batch) where
  own := h.own
  first := h.first
  last := h.last
  size := h.size
  root := by
    obtain ⟨rest, rfl⟩ := hinitial
    rw [planned, h.size, List.map_append, List.take_left' (List.length_map _)]

theorem finish_eq {leaves : List Bytes} (htree : Represents treeAlgo leaves b.tree)
    (hsizes : ∀ batch ∈ b.batches, batch.treeSize ≤ leaves.length) {highestSeq : ℤ} (hlast : b.lastSeq = some highestSeq) :
    b.finish = some (.ok ⟨b.batches.map (planned leaves), b.tree.size, highestSeq, b.prunedEntries, b.tree⟩) := by
  rw [PlanBuilder.finish, hlast]
  dsimp only
  rw [mapM_planBatch htree hsizes]
  rfl

/-- the plan of a history -/
theorem finish_holds (h : Holds networkId shardId entries b) (hne : entries ≠ []) :
    ∃ plan, b.finish = some (.ok plan) ∧ PlanOf entries plan := by
  obtain ⟨last, hlast⟩ := Option.ne_none_iff_exists'.1 (mt List.getLast?_eq_none_iff.1 hne)
  have hsize : b.tree.size = entries.length := by rw [h.tree.size_eq, List.length_map]
  have hfinish := finish_eq h.tree h.sizes (by rw [h.lastSeq, hlast, Option.map_some])
  have hroots : ∀ n : ℕ, n ≤ entries.length → b.tree.root n = some (some (mth treeAlgo ((entries.take n).map leaf))) := by
    intro n hn
    rw [root_represents h.tree (by rwa [List.length_map]), List.map_take]
  have hpos : 1 ≤ entries.length := List.length_pos_iff.2 hne
  refine ⟨_, hfinish, ?_⟩
  have hrootAt : ∀ (batches : List PlannedBatch) (n : ℕ), 1 ≤ n → n ≤ entries.length →
      (PromotionPlan.mk batches b.tree.size last.seq b.prunedEntries b.tree).rootAt n =
        some (some (hexEncode (mth treeAlgo ((entries.take n).map leaf)).toList)) := by
    intro batches n h1 hn
    rw [PromotionPlan.rootAt, if_neg (by omega), Int.toNat_natCast, hroots n hn]
    rfl
  have hfinal : (PromotionPlan.mk (b.batches.map (planned (entries.map leaf))) b.tree.size last.seq b.prunedEntries b.tree).finalRoot =
      some (hexEncode (mth treeAlgo (entries.map leaf)).toList) := by
    have hwhole := hrootAt (b.batches.map (planned (entries.map leaf))) entries.length hpos le_rfl
    rw [List.take_length, ← hsize] at hwhole
    rw [PromotionPlan.finalRoot]
    exact congrArg Option.join hwhole
  exact {
    batches := h.batches.map fun before group batch hinitial hb => plans_of_batches hinitial hb
    distinct := by
      rw [List.map_map]
      exact h.distinct
    treeSize := hsize
    highestSeq := by rw [hlast]; rfl
    prunedEntries := h.pruned
    roots := hrootAt _
    finalRoot := hfinal
    lastRoot := by
      rw [hfinal]
      obtain ⟨before, group, batch, hentries, hbatch, hcovers⟩ := h.batches.getLast? hne
      have hall : batch.treeSize = (entries.map leaf).length := by rw [hcovers.size, ← hentries, List.length_map]
      rw [List.getLast?_map, hbatch, Option.map_some, Option.map_some, planned, hall, List.take_length] }

/-- **Promotion plan.** Exactly the promotable histories can be pushed entry by entry, and then the plan is theirs. -/
theorem promotion_plan_correct (codec : PayloadCodec P) (networkId shardId : String) (entries : List (MirroredEntry P))
    (hne : entries ≠ []) :
    ((∃ b, PlanBuilder.pushAll codec (.new networkId shardId) entries = .ok b) ↔ Promotable codec networkId shardId entries) ∧
      ∀ b, PlanBuilder.pushAll codec (.new networkId shardId) entries = .ok b →
        ∃ plan, b.finish = some (.ok plan) ∧ PlanOf entries plan := by
  rcases builds_iff codec networkId shardId entries with ⟨hp, b, hb, hholds⟩ | ⟨hnot, err, herr⟩
  · refine ⟨⟨fun _ => hp, fun _ => ⟨b, hb⟩⟩, ?_⟩
    intro b' hb'
    obtain rfl : b = b' := Except.ok.inj (hb.symm.trans hb')
    exact finish_holds hholds hne
  · rw [herr]
    refine ⟨⟨?_, fun hp => absurd hp hnot⟩, ?_⟩
    · rintro ⟨b, hb⟩
      cases hb
    · intro b hb
      cases hb

/-- what an entry without text or time signs, after any entry -/
def bareInput (prev : Hash) (seq : UInt64) : EntryHashInput :=
  ⟨"", "", seq, prev, FixedBytes.replicate 16 0, "", "", "", FixedBytes.replicate 32 0, 0, 0, .current .ledgerEntry⟩

def bareMessage (prev : Hash) (seq : UInt64) : Bytes := (entrySigningBytes (bareInput prev seq)).toOption.getD []

theorem entrySigningBytes_bareInput (prev : Hash) (seq : UInt64) :
    entrySigningBytes (bareInput prev seq) = .ok (bareMessage prev seq) := by
  have hok : ∃ m, entrySigningBytes (bareInput prev seq) = .ok m := ⟨_, rfl⟩
  obtain ⟨m, hm⟩ := hok
  rw [bareMessage, hm]
  rfl

/-- payloads are hashed as they are -/
def rawText : PayloadCodec String := ⟨fun payload _ => payload, fun payload => some (Sha256.hash (utf8 payload))⟩

/-- a pruned entry of a batch -/
def bareEntry (prev : Hash) (seq : UInt64) (batch : Uuid) : MirroredEntry String where
  sourceUrl := ""
  networkId := ""
  shardId := ""
  seq := seq.toNat
  eventId := FixedBytes.replicate 16 0
  kind := ""
  issuer := ""
  subject := ""
  payload := none
  payloadHash := hexEncode (FixedBytes.replicate 32 0).toList
  eventTimestamp := 0
  version := 0
  prevHash := hexEncode prev.toList
  entryHash := hexEncode (Sha256.hash (bareMessage prev seq)).toList
  batchId := batch
  verifiedTreeSize := 0
  envelope := .ofEnvelope (.current .ledgerEntry)

theorem bareEntry_hashed (codec : PayloadCodec String) (prev : Hash) (seq : UInt64) (batch : Uuid) :
    recomputedHash codec (bareEntry prev seq batch) = .ok (some (bareEntry prev seq batch).entryHash) := by
  have hcurrent : (EnvelopeWire.ofEnvelope (.current .ledgerEntry)).toEnvelope .ledgerEntry = .ok (.current .ledgerEntry) := by
    decide +kernel
  have hseq : seqToU64 seq.toNat = .ok seq := by
    have hlt := seq.toNat_lt
    rw [seqToU64, if_pos (by omega), Int.toNat_natCast, UInt64.ofNat_toNat]
  have hmessage := entrySigningBytes_bareInput prev seq
  have hhash : hashEntry "" "" (hexEncode prev.toList) ((bareEntry prev seq batch).content (.current .ledgerEntry)) =
      .ok (bareEntry prev seq batch).entryHash := by
    refine bind_eq_ok.2 ⟨prev, parseHash_eq_ok_iff.2 rfl, ?_⟩
    refine bind_eq_ok.2 ⟨FixedBytes.replicate 32 0, parseHash_eq_ok_iff.2 rfl, ?_⟩
    refine bind_eq_ok.2 ⟨seq, hseq, bind_eq_ok.2 ⟨0, rfl, bind_eq_ok.2 ⟨0, rfl, ?_⟩⟩⟩
    exact bind_eq_ok.2 ⟨Sha256.hash (bareMessage prev seq), bind_eq_ok.2 ⟨_, hmessage, rfl⟩, rfl⟩
  refine bind_eq_ok.2 ⟨.current .ledgerEntry, mapError_eq_ok.2 hcurrent, ?_⟩
  rw [show (bareEntry prev seq batch).payload = none from rfl]
  exact congrArg (fun result : Except EntryHashError String => Except.ok result.toOption) hhash

/-- the hash of the entry -/
def bareHash (prev : Hash) (seq : UInt64) : Hash := Sha256.hash (bareMessage prev seq)

def genesisDigest : Hash := FixedBytes.replicate 32 0

/-- two batches of one entry each -/
def twoBatches : List (MirroredEntry String) :=
  [bareEntry genesisDigest 1 (FixedBytes.replicate 16 1), bareEntry (bareHash genesisDigest 1) 2 (FixedBytes.replicate 16 2)]

theorem twoBatches_promotable (codec : PayloadCodec String) : Promotable codec "" "" twoBatches where
  increasing := by simp [twoBatches, bareEntry]
  linked := ⟨by decide +kernel, rfl, trivial⟩
  own := by simp [twoBatches, bareEntry]
  hashed := by
    intro e he
    simp only [twoBatches, List.mem_cons, List.not_mem_nil, or_false] at he
    obtain rfl | rfl := he <;> exact bareEntry_hashed codec _ _ _
  contiguous := by
    have hfirst : Contiguous (([] : List Uuid) ++ [FixedBytes.replicate 16 1]) := contiguous_concat.2 ⟨contiguous_nil, by simp⟩
    exact contiguous_concat.2 ⟨hfirst, by decide⟩

theorem promotion_plan_correct_two_batches :
    ∃ b plan, PlanBuilder.pushAll rawText (.new "" "") twoBatches = .ok b ∧ b.finish = some (.ok plan) ∧
      PlanOf twoBatches plan := by
  obtain ⟨htaken, hplan⟩ := promotion_plan_correct rawText "" "" twoBatches (by simp [twoBatches])
  obtain ⟨b, hb⟩ := htaken.2 (twoBatches_promotable rawText)
  obtain ⟨plan, hfinish, hof⟩ := hplan b hb
  exact ⟨b, plan, hb, hfinish, hof⟩

/-! ## Refused pushes -/

/-- what a plan tells -/
structure PlanView where
  batches : List PlannedBatch
  treeSize : ℕ
  highestSeq : ℤ
  prunedEntries : ℕ
  rootAt : ℤ → OrPanic (Option String)

def PromotionPlan.view (plan : PromotionPlan) : PlanView :=
  ⟨plan.batches, plan.treeSize, plan.highestSeq, plan.prunedEntries, plan.rootAt⟩

/-- pushes in order, past refusals, and which entries were taken -/
def PlanBuilder.pushes (codec : PayloadCodec P) : PlanBuilder → List (MirroredEntry P) → PlanBuilder × List Bool
  | b, [] => (b, [])
  | b, entry :: rest =>
    let (b', answer) := b.push codec entry
    let (last, taken) := pushes codec b' rest
    (last, answer.isOk :: taken)

/-- no later pushes tell the builders apart, and no plan made after them does -/
def Alike (codec : PayloadCodec P) (b b' : PlanBuilder) : Prop :=
  ∀ later : List (MirroredEntry P), (b.pushes codec later).2 = (b'.pushes codec later).2 ∧
    (b.pushes codec later).1.finish.map (Except.map PromotionPlan.view) =
      (b'.pushes codec later).1.finish.map (Except.map PromotionPlan.view)

/-- an entry refused for its batch leaves its leaf behind -/
theorem push_refused_of_checked (h : Checked codec b e) {b' : PlanBuilder} {err : PromotionError}
    (hpush : b.push codec e = (b', .error err)) : b' = b.withLeaf e ∧ e.batchId ∈ b.seenBatches := by
  rw [push_of_checked h] at hpush
  have hrecorded := recordBatch_recorded (b.withLeaf e) e
  rw [hpush] at hrecorded
  cases hrecorded with
  | refused hjoins hseen => exact ⟨rfl, hseen⟩

/-- the plan counts a leaf that was left behind -/
theorem not_alike_withLeaf (h : Holds networkId shardId entries b) (hseen : e.batchId ∈ b.seenBatches) :
    ¬ Alike codec b (b.withLeaf e) := by
  intro halike
  have hne : entries ≠ [] := by
    rintro rfl
    rw [h.seen, batch_ids h.batches] at hseen
    cases hseen
  obtain ⟨last, hlast⟩ := Option.ne_none_iff_exists'.1 (mt List.getLast?_eq_none_iff.1 hne)
  have hlastSeq : b.lastSeq = some last.seq := by rw [h.lastSeq, hlast, Option.map_some]
  have htree : Represents treeAlgo ((entries ++ [e]).map leaf) (b.withLeaf e).tree := h.withLeaf_tree
  have hsizes : ∀ batch ∈ (b.withLeaf e).batches, batch.treeSize ≤ ((entries ++ [e]).map leaf).length := by
    intro batch hbatch
    rw [List.map_append, List.length_append]
    exact (h.sizes batch hbatch).trans (Nat.le_add_right _ _)
  have hsame := (halike []).2
  rw [PlanBuilder.pushes, PlanBuilder.pushes, finish_eq h.tree h.sizes hlastSeq, finish_eq htree hsizes hlastSeq] at hsame
  have htreeSize : b.tree.size = (b.withLeaf e).tree.size := congrArg PlanView.treeSize (Except.ok.inj (Option.some.inj hsame))
  rw [h.tree.size_eq, htree.size_eq, List.length_map, List.length_map, List.length_append, List.length_singleton] at htreeSize
  omega

/-- **Refused pushes.** A refused push goes unnoticed if and only if the entry failed a check made before its leaf is recorded. -/
theorem refused_push_unnoticed (codec : PayloadCodec P) (networkId shardId : String) (entries : List (MirroredEntry P))
    (entry : MirroredEntry P) (b b' : PlanBuilder) (err : PromotionError)
    (hb : PlanBuilder.pushAll codec (.new networkId shardId) entries = .ok b) (hpush : b.push codec entry = (b', .error err)) :
    Alike codec b b' ↔ ¬ Checked codec b entry := by
  constructor
  · intro halike hchecked
    obtain ⟨rfl, hseen⟩ := push_refused_of_checked hchecked hpush
    rcases builds_iff codec networkId shardId entries with ⟨-, b₁, hb₁, hholds⟩ | ⟨-, err₁, herr⟩
    · obtain rfl : b₁ = b := Except.ok.inj (hb₁.symm.trans hb)
      exact not_alike_withLeaf hholds hseen halike
    · cases herr.symm.trans hb
  · intro hnot
    obtain ⟨err₁, hsame⟩ := push_of_not_checked hnot
    obtain rfl : b' = b := (congrArg Prod.fst hpush).symm.trans (congrArg Prod.fst hsame)
    exact fun later => ⟨rfl, rfl⟩

/-- the first batch again -/
def backToFirst : MirroredEntry String := bareEntry (bareHash (bareHash genesisDigest 1) 2) 3 (FixedBytes.replicate 16 1)

theorem backToFirst_refused (codec : PayloadCodec String) :
    ∃ b b' err, PlanBuilder.pushAll codec (.new "" "") twoBatches = .ok b ∧ b.push codec backToFirst = (b', .error err) ∧
      Checked codec b backToFirst ∧ ¬ Alike codec b b' := by
  rcases builds_iff codec "" "" twoBatches with ⟨hp, b, hb, hholds⟩ | ⟨hnot, -⟩
  swap
  · exact absurd (twoBatches_promotable codec) hnot
  have hchecked : Checked codec b backToFirst := {
    later := by
      rw [hholds.lastSeq]
      simp [twoBatches, backToFirst, bareEntry]
    links := by
      rw [hholds.prevHash]
      rfl
    network := hholds.network.symm
    shard := hholds.shard.symm
    hash := bareEntry_hashed codec _ _ _ }
  rcases push_spec (e := backToFirst) hholds hp with ⟨hnext, -⟩ | ⟨-, b', err, hpush⟩
  · exact absurd (promotable_concat.1 hnext).2.2.2.2.2.2 (by decide)
  · obtain ⟨rfl, hseen⟩ := push_refused_of_checked hchecked hpush
    exact ⟨b, _, err, hb, hpush, hchecked, not_alike_withLeaf hholds hseen⟩

theorem refused_push_unnoticed_back_to_first :
    ∃ b b', PlanBuilder.pushAll rawText (.new "" "") twoBatches = .ok b ∧
      (b.push rawText backToFirst).1 = b' ∧ (Alike rawText b b' ↔ ¬ Checked rawText b backToFirst) := by
  obtain ⟨b, b', err, hb, hpush, -⟩ := backToFirst_refused rawText
  exact ⟨b, b', hb, congrArg Prod.fst hpush,
    refused_push_unnoticed rawText "" "" twoBatches backToFirst b b' err hb hpush⟩

/-- a refused push can be seen in the plan -/
theorem refused_push_leaves_its_leaf :
    ¬ ∀ (codec : PayloadCodec String) (networkId shardId : String) (entries : List (MirroredEntry String))
      (entry : MirroredEntry String) (b b' : PlanBuilder) (err : PromotionError),
      PlanBuilder.pushAll codec (.new networkId shardId) entries = .ok b → b.push codec entry = (b', .error err) →
        Alike codec b b' := by
  intro h
  obtain ⟨b, b', err, hb, hpush, -, hnot⟩ := backToFirst_refused rawText
  exact hnot (h rawText "" "" twoBatches backToFirst b b' err hb hpush)

end

end Avalon.Promotion
