/-
Backfilling a mirrored shard (`crates/server/src/mirror_watcher.rs`: `backfill_network`, `backfill`, `backfill_page`,
`verify_entry_binding`).

Peers are hostile: every answer is an input. A tick is given the answers to its page requests in order, each with the
answers to the proof requests of its entries; a list that ends early is a tick that was cut off there (the shutdown of the
process, or the timeout of the tick's budget). Heads are the author's: a `Tick` carries that they verify.

Entries are accepted one by one, each at the number of entries already stored as its leaf index, against the head of the
tick, and linked to the last stored entry. Heads of different ticks are not compared with each other. The whole tree
follows all the same, when the head's root is the tree of any hash-linked log: the last accepted entry is that log's last
entry, and from there the links lead back (`HashChain.eq_or_collision_of_tip`).

Results:
- `run_chained`: after every run, each shard's entries ascend, hash to their entry hashes and are linked from genesis.
- `backfill_reproduces_tree`: a tick that brings the count to the head's tree size has reproduced the head's tree.
- `forked_heads_not_reproduced`: an author who signs roots of two different logs can have a mirror hold neither tree.
-/
import Mathlib.Tactic
import Avalon.Core.Bytes
import Avalon.Core.Collision
import Avalon.Core.Fallible
import Avalon.Core.HashChain
import Avalon.Core.Json
import Avalon.Core.Sha256
import Avalon.Protocol.CanonicalPayload
import Avalon.Protocol.SigningBytes
import Avalon.Protocol.SigningBytesReader
import Avalon.Protocol.LedgerEntry
import Avalon.Protocol.Events
import Avalon.Protocol.Sth
import Avalon.Protocol.IdentityChainWire
import Avalon.Chain.Merkle
import Avalon.Chain.IncrementalMerkle
import Avalon.Chain.Ledger
import Avalon.Chain.LedgerReads
import Avalon.Chain.Mirror
import Avalon.Server.Deferral
import Avalon.Server.MirrorProjection

namespace Avalon.MirrorWatcher

open Avalon.SigningBytes Avalon.LedgerEntry Avalon.Events Avalon.Sth Avalon.Merkle Avalon.IncrementalMerkle Avalon.Ledger
open Avalon.Mirror Avalon.Deferral
open Fallible Collision

variable {P : Type}

/-! ## What peers serve -/

structure LedgerEntryDto (P : Type) where
  seq : ℤ
  eventId : Uuid
  kind : String
  issuer : String
  subject : String
  payload : Option P
  payloadHash : String
  payloadPruned : Bool
  version : Int32
  eventTimestamp : OffsetDateTime
  prevHash : String
  entryHash : String
  batchId : Uuid
  envelope : EnvelopeWire

structure InclusionProofDto where
  rootHash : String
  leafHash : String
  proof : List String

/-- payloads: their codec, the JSON null and the length of their text -/
structure MirrorConfig (P : Type) where
  codec : PayloadCodec P
  null : P
  textLength : P → ℕ

/-- one entry of a page, with what its proof request, the clock and the database answer -/
structure EntryInput (P : Type) where
  dto : LedgerEntryDto P
  deadlinePassed : Bool
  proof : Except RequestError InclusionProofDto
  store : StoreInput

structure PageInput (P : Type) where
  deadlinePassed : Bool
  page : Except RequestError (List (EntryInput P))

/-! ## One entry -/

def selfCertifyingEntriesPerTick : ℕ := 1000

def maxSelfCertifyingEntryBytes : ℕ := 64 * 1024

def maxSeqGap : ℤ := 2 ^ 32

inductive PageError where
  | refused (e : MirrorWatcherError)
  | unreachable (e : MirrorWatcherError)
  | fatal (e : MirrorWatcherError)

/-- a refused request: not throttled, and the peer's own fault -/
def RequestError.refused : RequestError → Bool
  | .decode => true
  | .status code => decide (400 ≤ code ∧ code < 500 ∧ code ≠ 429)
  | .transport => false

def proofFailure (e : RequestError) : PageError := if e.refused then .refused (.http e) else .unreachable (.http e)

/-- absent only when the source says it was pruned -/
def servedPayload (cfg : MirrorConfig P) (dto : LedgerEntryDto P) : Option P :=
  if dto.payloadPruned then none else some (dto.payload.getD cfg.null)

def entryWithinSizeLimit (cfg : MirrorConfig P) (dto : LedgerEntryDto P) : Bool :=
  decide ((dto.payload.map cfg.textLength).getD 0 + (utf8 dto.kind).length + (utf8 dto.issuer).length +
    (utf8 dto.subject).length ≤ maxSelfCertifyingEntryBytes)

/-- the entry as it will be stored -/
def mirroredEntry (cfg : MirrorConfig P) (peer shardId : String) (sth : SignedTreeHead) (dto : LedgerEntryDto P) :
    MirroredEntry P where
  sourceUrl := peer
  networkId := sth.networkId
  shardId := shardId
  seq := dto.seq
  eventId := dto.eventId
  kind := dto.kind
  issuer := dto.issuer
  subject := dto.subject
  payload := servedPayload cfg dto
  payloadHash := dto.payloadHash
  eventTimestamp := dto.eventTimestamp
  version := dto.version
  prevHash := dto.prevHash
  entryHash := dto.entryHash
  batchId := dto.batchId
  verifiedTreeSize := sth.treeSize
  envelope := dto.envelope

def bindingError : SettlementError → MirrorWatcherError
  | .needsNewerVersion what required => .needsNewerVersion what required
  | e => .storage e

/-- fails with the error unless the condition holds -/
def ensure {ε : Type} (ok : Prop) [Decidable ok] (e : ε) : Except ε Unit := if ok then .ok () else .error e

/-- the content hashes to the entry hash, which is the proof's leaf, and names the previous entry -/
def verifyEntryBinding (codec : PayloadCodec P) (entry : MirroredEntry P) (proofLeaf expectedPrevHash : String) :
    Except MirrorWatcherError Unit := do
  ensure (entry.prevHash = expectedPrevHash) (.entryChainBroken entry.seq)
  ensure (entry.payload.isSome = true) (.entryPayloadPruned entry.seq)
  let recomputed ← (recomputedHash codec entry).mapError bindingError
  ensure (recomputed = some entry.entryHash ∧ recomputed = some proofLeaf) (.entryContentMismatch entry.seq)

def decodeProofNode (node : String) : Except MirrorWatcherError Hash :=
  match hexDecode node with
  | none => .error (.decode .proofNodeHex)
  | some bytes =>
    match FixedBytes.ofList? 32 bytes with
    | none => .error (.decode .proofNodeLength)
    | some hash => .ok hash

def decodeLeaf (entry : MirroredEntry P) : Except PageError Bytes :=
  match hexDecode entry.entryHash with
  | none => .error (.refused (.decode .entryHash))
  | some leaf => .ok leaf

/-- every check of an entry, in the order of the source -/
def verifyPageEntry (cfg : MirrorConfig P) (peer shardId : String) (sth : SignedTreeHead) (root : Hash)
    (progress : MirrorProgress) (prevHash : String) (input : EntryInput P) : Except PageError (MirroredEntry P) := do
  let dto := input.dto
  ensure (progress.lastSeq < dto.seq ∧ dto.seq - progress.lastSeq ≤ maxSeqGap) (.refused (.entrySeqInvalid dto.seq))
  let proof ← input.proof.mapError proofFailure
  ensure (proof.rootHash = sth.rootHash) (.refused .rootHashMismatch)
  let entry := mirroredEntry cfg peer shardId sth dto
  let invalidProof := PageError.refused (.invalidInclusionProof entry.seq sth.treeSize)
  ensure (proof.leafHash = entry.entryHash) invalidProof
  (verifyEntryBinding cfg.codec entry proof.leafHash prevHash).mapError .refused
  let leaf ← decodeLeaf entry
  let nodes ← (proof.proof.mapM decodeProofNode).mapError .refused
  ensure (verifyInclusionProof sth.envelope.hashAlgo leaf progress.verifiedCount sth.treeSize.toInt.toNat nodes root = true)
    invalidProof
  return entry

/-! ## Pages -/

/-- the running state of a tick -/
structure Backfill (P : Type) where
  node : Node P
  progress : MirrorProgress
  prevHash : String
  fetched : ℕ
  projectionBlocked : Bool

/-- what does not change during a tick; limited shards have a budget -/
structure Target where
  shardId : String
  sth : SignedTreeHead
  root : Hash
  limited : Bool

/-- the shard is mirrored up to the head -/
def Backfill.complete (b : Backfill P) (target : Target) : Bool :=
  decide (target.sth.treeSize.toInt ≤ b.progress.verifiedCount)

def Backfill.exhausted (b : Backfill P) (target : Target) (deadlinePassed : Bool) : Bool :=
  target.limited && (decide (selfCertifyingEntriesPerTick ≤ b.fetched) || deadlinePassed)

/-- one entry of a page: whether to go on with the next -/
def backfillEntry (cfg : MirrorConfig P) (target : Target) (peer : String) (b : Backfill P) (input : EntryInput P) :
    Backfill P × Except PageError Bool :=
  if b.complete target || b.exhausted target input.deadlinePassed then (b, .ok false)
  else if target.limited && !entryWithinSizeLimit cfg input.dto then (b, .error (.refused (.entryTooLarge input.dto.seq)))
  else
    let b := { b with fetched := b.fetched + 1 }
    match verifyPageEntry cfg peer target.shardId target.sth target.root b.progress b.prevHash input with
    | .error e => (b, .error e)
    | .ok entry =>
      match storeAndProject cfg.codec b.node entry b.projectionBlocked input.store with
      | (node, blocked, .error e) => ({ b with node := node, projectionBlocked := blocked }, .error (.fatal e))
      | (node, blocked, .ok ()) =>
        (⟨node, ⟨entry.seq, b.progress.verifiedCount + 1⟩, entry.entryHash, b.fetched, blocked⟩, .ok true)

def backfillEntries (cfg : MirrorConfig P) (target : Target) (peer : String) :
    Backfill P → List (EntryInput P) → Backfill P × Except PageError Unit
  | b, [] => (b, .ok ())
  | b, input :: rest =>
    match backfillEntry cfg target peer b input with
    | (b, .error e) => (b, .error e)
    | (b, .ok false) => (b, .ok ())
    | (b, .ok true) => backfillEntries cfg target peer b rest

inductive PageEnd where
  | served
  | empty

def backfillPage (cfg : MirrorConfig P) (target : Target) (peer : String) (b : Backfill P)
    (page : Except RequestError (List (EntryInput P))) : Backfill P × Except PageError PageEnd :=
  match page with
  | .error e => (b, .error (.unreachable (.http e)))
  | .ok [] => (b, .ok .empty)
  | .ok entries =>
    match backfillEntries cfg target peer b entries with
    | (b, .error e) => (b, .error e)
    | (b, .ok ()) => (b, .ok .served)

/-! ## A tick -/

/-- the next candidate that is not excluded, from the cursor on -/
def nextCandidate (n cursor : ℕ) (excluded : List ℕ) : Option ℕ :=
  ((List.range n).map fun o => (cursor + o) % n).find? fun i => !excluded.contains i

def backfillLoop (cfg : MirrorConfig P) (target : Target) (peers : List String) :
    List (PageInput P) → ℕ → List ℕ → Option MirrorWatcherError → Backfill P →
      Backfill P × Except MirrorWatcherError Unit
  | [], _, _, _, b => (b, .ok ())
  | input :: pages, cursor, excluded, lastRefusal, b =>
    if b.complete target || b.exhausted target input.deadlinePassed then (b, .ok ())
    else
      match nextCandidate peers.length cursor excluded with
      | none => (b, match lastRefusal with | some e => .error e | none => .ok ())
      | some idx =>
        match backfillPage cfg target (peers.getD idx "") b input.page with
        | (b, .ok .served) => backfillLoop cfg target peers pages ((idx + 1) % peers.length) excluded lastRefusal b
        | (b, .ok .empty) => backfillLoop cfg target peers pages cursor (idx :: excluded) lastRefusal b
        | (b, .error (.unreachable _)) => backfillLoop cfg target peers pages cursor (idx :: excluded) lastRefusal b
        | (b, .error (.refused e)) => backfillLoop cfg target peers pages cursor (idx :: excluded) (some e) b
        | (b, .error (.fatal e)) => (b, .error e)

/-- the hash the next entry must name -/
def expectedPrevHash (rows : List (MirroredRow P)) (networkId shardId : String) (progress : MirrorProgress) :
    Option String :=
  if progress.verifiedCount = 0 then some genesisHash else mirroredEntryHashAt rows networkId shardId progress.lastSeq

/-- fetches and verifies the entries between what is stored and the head; a root of another length panics -/
def backfill (cfg : MirrorConfig P) (n : Node P) (shardId : String) (peers : List String) (sth : SignedTreeHead)
    (limited projectionBlocked : Bool) (tick : ℕ) (pages : List (PageInput P)) :
    Node P × OrPanic (Except MirrorWatcherError Unit) :=
  if peers.isEmpty then (n, some (.ok ()))
  else
    let progress := mirroredProgress n.db.rows sth.networkId shardId none
    if sth.treeSize.toInt ≤ progress.verifiedCount then (n, some (.ok ()))
    else
      match hexDecode sth.rootHash with
      | none => (n, some (.error (.decode .rootHash)))
      | some bytes =>
        match FixedBytes.ofList? 32 bytes, expectedPrevHash n.db.rows sth.networkId shardId progress with
        | none, _ => (n, none)
        | some _, none => (n, some (.error (.decode .lastEntryVanished)))
        | some root, some prevHash =>
          let (b, result) := backfillLoop cfg ⟨shardId, sth, root, limited⟩ peers pages (tick % peers.length) [] none
            ⟨n, progress, prevHash, 0, projectionBlocked⟩
          (b.node, some result)

/-- everything a tick over one shard is given; its heads are the author's -/
structure Tick (ed : Ed25519) (P : Type) where
  networkId : String
  shardId : String
  equivocations : Except MirrorWatcherError Bool
  pass : PassInput
  observations : List (String × SignedTreeHead)
  /-- which of the heads with most support, where several have it -/
  choice : ℕ
  tick : ℕ
  pages : List (PageInput P)
  ofNetwork : ∀ o ∈ observations, o.2.networkId = networkId
  authored : ∀ o ∈ observations, ∃ key, verifyTreeHead ed key o.2 = true

variable {ed : Ed25519}

/-- the peers that report a head of this size and root -/
def agreeing (observations : List (String × SignedTreeHead)) (sth : SignedTreeHead) : List String :=
  (observations.filter fun o => decide (o.2.treeSize = sth.treeSize ∧ o.2.rootHash = sth.rootHash)).map Prod.fst

/-- the head to backfill against: one that most peers agree on -/
def Tick.target (t : Tick ed P) : Option SignedTreeHead :=
  let support := fun o : String × SignedTreeHead => (agreeing t.observations o.2).length
  let best := t.observations.filter fun o => t.observations.all fun o' => decide (support o' ≤ support o)
  (best[t.choice % best.length]?).bind fun o =>
    (t.observations.find? fun o' => decide (o'.2.treeSize = o.2.treeSize ∧ o'.2.rootHash = o.2.rootHash)).map Prod.snd

def backfillNetwork (cfg : MirrorConfig P) (n : Node P) (t : Tick ed P) : Node P × OrPanic (Except MirrorWatcherError Unit) :=
  match t.equivocations with
  | .error e => (n, some (.error e))
  | .ok true => (n, some (.ok ()))
  | .ok false =>
    match reprojectUnapplied n (t.networkId, t.shardId) t.pass with
    | (n, .error e) => (n, some (.error e))
    | (n, .ok report) =>
      match t.target with
      | none => (n, some (.ok ()))
      | some sth =>
        backfill cfg n t.shardId (agreeing t.observations sth) sth (!projectsMirroredEntries t.shardId) report.blocked t.tick
          t.pages

/-- a tick over some shard, or a new process over the same tables -/
inductive Op (ed : Ed25519) (P : Type) where
  | tick (t : Tick ed P)
  | restart

def step (cfg : MirrorConfig P) (n : Node P) : Op ed P → Node P
  | .tick t => (backfillNetwork cfg n t).1
  | .restart => { n with memory := .init }

def run (cfg : MirrorConfig P) (n : Node P) (ops : List (Op ed P)) : Node P := ops.foldl (step cfg) n

/-! ## What a verified entry has passed -/

theorem ensure_eq_ok {ε : Type} {ok : Prop} [Decidable ok] {e : ε} {u : Unit} : ensure ok e = .ok u ↔ ok := by
  unfold ensure
  split_ifs with h <;> simp [h]

theorem verifyEntryBinding_eq_ok {codec : PayloadCodec P} {entry : MirroredEntry P} {leaf expected : String} {u : Unit}
    (h : verifyEntryBinding codec entry leaf expected = .ok u) : entry.prevHash = expected := by
  unfold verifyEntryBinding at h
  obtain ⟨_, hprev, -⟩ := bind_eq_ok.1 h
  exact ensure_eq_ok.1 hprev

theorem verifyPageEntry_eq_ok {cfg : MirrorConfig P} {peer shardId : String} {sth : SignedTreeHead} {root : Hash}
    {progress : MirrorProgress} {prevHash : String} {input : EntryInput P} {entry : MirroredEntry P}
    (h : verifyPageEntry cfg peer shardId sth root progress prevHash input = .ok entry) :
    entry = mirroredEntry cfg peer shardId sth input.dto ∧ progress.lastSeq < entry.seq ∧ entry.prevHash = prevHash ∧
      ∃ proof leaf nodes, input.proof = .ok proof ∧ proof.proof.mapM decodeProofNode = .ok nodes ∧
        hexDecode entry.entryHash = some leaf ∧
        verifyInclusionProof sth.envelope.hashAlgo leaf progress.verifiedCount sth.treeSize.toInt.toNat nodes root =
          true := by
  unfold verifyPageEntry at h
  obtain ⟨_, hseq, h⟩ := bind_eq_ok.1 h
  obtain ⟨proof, hproof, h⟩ := bind_eq_ok.1 h
  obtain ⟨_, -, h⟩ := bind_eq_ok.1 h
  obtain ⟨_, -, h⟩ := bind_eq_ok.1 h
  obtain ⟨_, hbinding, h⟩ := bind_eq_ok.1 h
  obtain ⟨leaf, hleaf, h⟩ := bind_eq_ok.1 h
  obtain ⟨nodes, hnodes, h⟩ := bind_eq_ok.1 h
  obtain ⟨_, hverify, h⟩ := bind_eq_ok.1 h
  cases h
  refine ⟨rfl, (ensure_eq_ok.1 hseq).1, verifyEntryBinding_eq_ok (mapError_eq_ok.1 hbinding), proof, leaf, nodes,
    mapError_eq_ok.1 hproof, mapError_eq_ok.1 hnodes, ?_, ensure_eq_ok.1 hverify⟩
  unfold decodeLeaf at hleaf
  split at hleaf
  · cases hleaf
  · rename_i hdecode
    cases hleaf
    exact hdecode

/-! ## The chain of a shard -/

/-- the stored entries of one shard, in the order of the table -/
def shardColumns (cs : List (Mirrored P EnvelopeRow)) (networkId shardId : String) : List (Mirrored P EnvelopeRow) :=
  cs.filter fun c => decide (c.networkId = networkId ∧ c.shardId = shardId)

theorem columns_rowsOf (rows : List (MirroredRow P)) (networkId shardId : String) :
    columns (rowsOf rows networkId shardId none) = shardColumns (columns rows) networkId shardId := by
  unfold columns rowsOf shardColumns
  rw [List.filter_map]
  simp [Function.comp_def]

/-- the hash the next entry has to name -/
abbrev tipHash (cs : List (Mirrored P EnvelopeRow)) : String := HashChain.tip id Mirrored.entryHash genesisHash cs

abbrev lastSeq (cs : List (Mirrored P EnvelopeRow)) : ℤ := (cs.map Mirrored.seq).getLastD 0

/-- entries in ascending order, each intact and linked to the one before -/
structure ChainOk (codec : PayloadCodec P) (cs : List (Mirrored P EnvelopeRow)) : Prop where
  ascending : cs.Pairwise fun a b => a.seq < b.seq
  bound : ∀ c ∈ cs, 0 < c.seq ∧ c.seq ≤ lastSeq cs
  linked : HashChain.Linked id Mirrored.entryHash Mirrored.prevHash genesisHash cs
  intact : ∀ c ∈ cs, Intact codec c

theorem chainOk_nil (codec : PayloadCodec P) : ChainOk codec ([] : List (Mirrored P EnvelopeRow)) :=
  ⟨.nil, by simp, trivial, by simp⟩

theorem lastSeq_nonneg {codec : PayloadCodec P} {cs : List (Mirrored P EnvelopeRow)} (h : ChainOk codec cs) :
    0 ≤ lastSeq cs := by
  cases cs with
  | nil => exact le_refl 0
  | cons c cs =>
    obtain ⟨hpos, hle⟩ := h.bound c (by simp)
    exact hpos.le.trans hle

theorem ChainOk.concat {codec : PayloadCodec P} {cs : List (Mirrored P EnvelopeRow)} {c : Mirrored P EnvelopeRow}
    (h : ChainOk codec cs) (hseq : lastSeq cs < c.seq) (hprev : c.prevHash = tipHash cs) (hintact : Intact codec c) :
    ChainOk codec (cs ++ [c]) := by
  have hlast : lastSeq (cs ++ [c]) = c.seq := by simp [lastSeq]
  refine ⟨?_, ?_, HashChain.linked_concat.2 ⟨h.linked, hprev⟩, ?_⟩
  · rw [List.pairwise_append]
    refine ⟨h.ascending, List.pairwise_singleton _ _, ?_⟩
    intro a ha b hb
    rw [List.mem_singleton.1 hb]
    exact (h.bound a ha).2.trans_lt hseq
  · rw [hlast]
    refine List.forall_mem_append.2 ⟨?_, ?_⟩
    · exact fun a ha => ⟨(h.bound a ha).1, ((h.bound a ha).2.trans_lt hseq).le⟩
    · exact List.forall_mem_singleton.2 ⟨(lastSeq_nonneg h).trans_lt hseq, le_refl _⟩
  · exact List.forall_mem_append.2 ⟨h.intact, List.forall_mem_singleton.2 hintact⟩

/-- the progress of a shard: its last seq and its length -/
theorem mirroredProgress_of_chainOk {codec : PayloadCodec P} {rows : List (MirroredRow P)} {networkId shardId : String}
    (h : ChainOk codec (shardColumns (columns rows) networkId shardId)) :
    mirroredProgress rows networkId shardId none =
      ⟨lastSeq (shardColumns (columns rows) networkId shardId), (shardColumns (columns rows) networkId shardId).length⟩ := by
  have hmap : (rowsOf rows networkId shardId none).map (fun r => r.seq) =
      (shardColumns (columns rows) networkId shardId).map Mirrored.seq := by
    rw [← columns_rowsOf, columns, List.map_map]
    rfl
  have hlen : (rowsOf rows networkId shardId none).length = (shardColumns (columns rows) networkId shardId).length := by
    rw [← columns_rowsOf, columns, List.length_map]
  unfold mirroredProgress
  dsimp only
  rw [hmap, hlen]
  congr 1
  generalize shardColumns (columns rows) networkId shardId = cs at h
  rcases List.eq_nil_or_concat' cs with rfl | ⟨cs, c, rfl⟩
  · rfl
  · have hmax : ((cs ++ [c]).map Mirrored.seq).max? = some c.seq := by
      rw [List.max?_eq_some_iff]
      refine ⟨by simp, ?_⟩
      intro seq hseq
      obtain ⟨a, ha, rfl⟩ := List.mem_map.1 hseq
      simpa [lastSeq] using (h.bound a ha).2
    rw [hmax]
    simp [lastSeq]

/-- the hash the next entry must name is there, and it is the tip -/
theorem expectedPrevHash_of_chainOk {codec : PayloadCodec P} {rows : List (MirroredRow P)} {networkId shardId : String}
    (h : ChainOk codec (shardColumns (columns rows) networkId shardId)) :
    expectedPrevHash rows networkId shardId (mirroredProgress rows networkId shardId none) =
      some (tipHash (shardColumns (columns rows) networkId shardId)) := by
  have hat : ∀ seq, mirroredEntryHashAt rows networkId shardId seq =
      ((shardColumns (columns rows) networkId shardId).find? fun c => decide (c.seq = seq)).map Mirrored.entryHash := by
    intro seq
    rw [← columns_rowsOf, columns, List.find?_map, Option.map_map]
    rfl
  rw [mirroredProgress_of_chainOk h, expectedPrevHash]
  dsimp only
  rw [hat]
  generalize shardColumns (columns rows) networkId shardId = cs at h
  rcases List.eq_nil_or_concat' cs with rfl | ⟨cs, c, rfl⟩
  · rfl
  · have hlast : lastSeq (cs ++ [c]) = c.seq := by simp [lastSeq]
    have hbefore : ∀ a ∈ cs, a.seq ≠ c.seq := by
      intro a ha
      exact ((List.pairwise_append.1 h.ascending).2.2 a ha c (by simp)).ne
    have hnone : cs.find? (fun a => decide (a.seq = c.seq)) = none := by
      rw [List.find?_eq_none]
      intro a ha
      simp [hbefore a ha]
    rw [if_neg (by simp), hlast, List.find?_append, hnone]
    simp [tipHash]

theorem shardColumns_concat (cs : List (Mirrored P EnvelopeRow)) (c : Mirrored P EnvelopeRow) (networkId shardId : String) :
    shardColumns (cs ++ [c]) networkId shardId = shardColumns cs networkId shardId ++
      if c.networkId = networkId ∧ c.shardId = shardId then [c] else [] := by
  unfold shardColumns
  rw [List.filter_append]
  split_ifs with h <;> simp [h]

/-- every shard's entries are a chain -/
def Chained (codec : PayloadCodec P) (n : Node P) : Prop :=
  ∀ networkId shardId, ChainOk codec (shardColumns (columns n.db.rows) networkId shardId)

theorem Chained.of_columns {codec : PayloadCodec P} {n n' : Node P} (h : Chained codec n)
    (hcolumns : columns n'.db.rows = columns n.db.rows) : Chained codec n' := by
  intro networkId shardId
  rw [hcolumns]
  exact h networkId shardId

/-! ## One tick -/

/-- the proof nodes a peer served for an entry, if they decode -/
def EntryInput.nodes (input : EntryInput P) : List (List Hash) :=
  match input.proof with
  | .ok proof => (proof.proof.mapM decodeProofNode).toOption.toList
  | .error _ => []

def PageInput.nodes (input : PageInput P) : List (List Hash) :=
  match input.page with
  | .ok entries => entries.flatMap EntryInput.nodes
  | .error _ => []

section tick

variable {cfg : MirrorConfig P} {target : Target} {proofs : List (List Hash)} {start : List (Mirrored P EnvelopeRow)}

/-- the last entry was accepted against the head of the tick, by one of the proofs -/
def Accepted (target : Target) (proofs : List (List Hash)) (cs : List (Mirrored P EnvelopeRow)) : Prop :=
  ∃ before c leaf nodes, cs = before ++ [c] ∧ hexDecode c.entryHash = some leaf ∧ nodes ∈ proofs ∧
    verifyInclusionProof target.sth.envelope.hashAlgo leaf before.length target.sth.treeSize.toInt.toNat nodes target.root =
      true

def Backfill.shard (b : Backfill P) (target : Target) : List (Mirrored P EnvelopeRow) :=
  shardColumns (columns b.node.db.rows) target.sth.networkId target.shardId

/-- the shard is a chain: the one the tick found, or one whose last entry it accepted -/
structure TickOk (cfg : MirrorConfig P) (target : Target) (proofs : List (List Hash))
    (start : List (Mirrored P EnvelopeRow)) (b : Backfill P) : Prop where
  chained : Chained cfg.codec b.node
  grown : b.shard target = start ∨ Accepted target proofs (b.shard target)

/-- the running state is that of the table -/
structure Synced (target : Target) (b : Backfill P) : Prop where
  progress : b.progress = ⟨lastSeq (b.shard target), (b.shard target).length⟩
  prevHash : b.prevHash = tipHash (b.shard target)

/-- **One stored entry** extends the chain of its shard and leaves the others alone -/
theorem tickOk_store {b : Backfill P} {input : EntryInput P} {peer : String} {entry : MirroredEntry P} {node : Node P}
    {envelope : EnvelopeRow} (h : TickOk cfg target proofs start b) (hs : Synced target b) (hproofs : input.nodes ⊆ proofs)
    (hverify : verifyPageEntry cfg peer target.shardId target.sth target.root b.progress b.prevHash input = .ok entry)
    (hhash : recomputedHash cfg.codec entry = .ok (some entry.entryHash))
    (henvelope : EnvelopeRow.fromWire entry.envelope = .ok envelope) (now : OffsetDateTime)
    (hcolumns : columns node.db.rows = columns b.node.db.rows ++ [(rowOf now entry envelope).toMirrored])
    (b' : Backfill P) (hb' : b'.node = node) :
    TickOk cfg target proofs start b' ∧
      b'.shard target = b.shard target ++ [(rowOf now entry envelope).toMirrored] := by
  obtain ⟨hentry, hseq, hprev, proof, leaf, nodes, hproof, hnodes, hleaf, hincluded⟩ := verifyPageEntry_eq_ok hverify
  rw [hs.progress] at hseq hincluded
  rw [hs.prevHash] at hprev
  have hnetwork : entry.networkId = target.sth.networkId := by rw [hentry]; rfl
  have hshardId : entry.shardId = target.shardId := by rw [hentry]; rfl
  have hshard : b'.shard target = b.shard target ++ [(rowOf now entry envelope).toMirrored] := by
    rw [Backfill.shard, hb', hcolumns, shardColumns_concat, if_pos ⟨hnetwork, hshardId⟩]
    rfl
  refine ⟨⟨?_, .inr ?_⟩, hshard⟩
  · intro networkId shardId
    rw [hb', hcolumns, shardColumns_concat]
    split_ifs with hkey
    · obtain ⟨hn, hi⟩ := hkey
      rw [← hn, ← hi]
      change ChainOk cfg.codec (shardColumns (columns b.node.db.rows) entry.networkId entry.shardId ++ _)
      rw [hnetwork, hshardId]
      exact (h.chained _ _).concat hseq hprev (intact_rowOf now hhash henvelope)
    · rw [List.append_nil]
      exact h.chained networkId shardId
  · refine ⟨b.shard target, _, leaf, nodes, hshard, hleaf, hproofs ?_, hincluded⟩
    simp [EntryInput.nodes, hproof, hnodes, Except.toOption]

theorem backfillEntry_spec {b b' : Backfill P} {input : EntryInput P} {peer : String} {result : Except PageError Bool}
    (h : TickOk cfg target proofs start b) (hs : Synced target b) (hproofs : input.nodes ⊆ proofs)
    (hresult : backfillEntry cfg target peer b input = (b', result)) :
    TickOk cfg target proofs start b' ∧ ((∀ e, result ≠ .error (.fatal e)) → Synced target b') := by
  unfold backfillEntry at hresult
  split at hresult
  · cases hresult
    exact ⟨h, fun _ => hs⟩
  split at hresult
  · cases hresult
    exact ⟨h, fun _ => hs⟩
  dsimp only at hresult
  split at hresult
  · cases hresult
    exact ⟨⟨h.chained, h.grown⟩, fun _ => ⟨hs.progress, hs.prevHash⟩⟩
  · rename_i entry hverify
    split at hresult
    · rename_i node blocked e hstore
      cases hresult
      refine ⟨?_, fun hfatal => absurd rfl (hfatal e)⟩
      rcases storeAndProject_columns hstore with ⟨hcolumns, -⟩ | ⟨hhash, envelope, henvelope, hcolumns⟩
      · refine ⟨h.chained.of_columns hcolumns, ?_⟩
        have hgrown := h.grown
        rw [Backfill.shard, ← hcolumns] at hgrown
        exact hgrown
      · exact (tickOk_store h hs hproofs hverify hhash henvelope _ hcolumns _ rfl).1
    · rename_i node blocked hstore
      cases hresult
      rcases storeAndProject_columns hstore with ⟨-, herror⟩ | ⟨hhash, envelope, henvelope, hcolumns⟩
      · exact absurd rfl herror
      · obtain ⟨hok, hshard⟩ := tickOk_store h hs hproofs hverify hhash henvelope _ hcolumns
          ⟨node, ⟨entry.seq, b.progress.verifiedCount + 1⟩, entry.entryHash, b.fetched + 1, blocked⟩ rfl
        refine ⟨hok, fun _ => ⟨?_, ?_⟩⟩
        · rw [hshard, hs.progress]
          simp [lastSeq, rowOf]
        · rw [hshard]
          simp [tipHash, rowOf]

theorem backfillEntries_spec {peer : String} {b b' : Backfill P} {inputs : List (EntryInput P)} {result : Except PageError Unit}
    (h : TickOk cfg target proofs start b) (hs : Synced target b) (hproofs : inputs.flatMap EntryInput.nodes ⊆ proofs)
    (hresult : backfillEntries cfg target peer b inputs = (b', result)) :
    TickOk cfg target proofs start b' ∧ ((∀ e, result ≠ .error (.fatal e)) → Synced target b') := by
  induction inputs generalizing b with
  | nil =>
    cases hresult
    exact ⟨h, fun _ => hs⟩
  | cons input rest ih =>
    rw [List.flatMap_cons, List.append_subset] at hproofs
    rw [backfillEntries] at hresult
    cases hentry : backfillEntry cfg target peer b input with
    | mk b1 r =>
      obtain ⟨hok, hsync⟩ := backfillEntry_spec h hs hproofs.1 hentry
      rw [hentry] at hresult
      cases r with
      | error e =>
        cases hresult
        exact ⟨hok, fun hfatal => hsync fun e' he => hfatal e' (by rw [Except.error.inj he])⟩
      | ok more =>
        cases more with
        | false =>
          cases hresult
          exact ⟨hok, fun _ => hsync (by simp)⟩
        | true => exact ih hok (hsync (by simp)) hproofs.2 hresult

theorem backfillPage_spec {peer : String} {b b' : Backfill P} {input : PageInput P} {result : Except PageError PageEnd}
    (h : TickOk cfg target proofs start b) (hs : Synced target b) (hproofs : input.nodes ⊆ proofs)
    (hresult : backfillPage cfg target peer b input.page = (b', result)) :
    TickOk cfg target proofs start b' ∧ ((∀ e, result ≠ .error (.fatal e)) → Synced target b') := by
  unfold backfillPage at hresult
  split at hresult
  · cases hresult
    exact ⟨h, fun _ => hs⟩
  · cases hresult
    exact ⟨h, fun _ => hs⟩
  · rename_i entries _ hpage
    rw [PageInput.nodes, hpage] at hproofs
    cases hentries : backfillEntries cfg target peer b entries with
    | mk b1 r =>
      obtain ⟨hok, hsync⟩ := backfillEntries_spec h hs hproofs hentries
      rw [hentries] at hresult
      cases r with
      | error e =>
        cases hresult
        exact ⟨hok, fun hfatal => hsync fun e' he => hfatal e' (by rw [Except.error.inj he])⟩
      | ok u =>
        cases hresult
        exact ⟨hok, fun _ => hsync (by simp)⟩

theorem backfillLoop_spec (peers : List String) {pages : List (PageInput P)} (cursor : ℕ) (excluded : List ℕ)
    (lastRefusal : Option MirrorWatcherError) {b : Backfill P} (h : TickOk cfg target proofs start b)
    (hs : Synced target b) (hproofs : pages.flatMap PageInput.nodes ⊆ proofs) :
    TickOk cfg target proofs start (backfillLoop cfg target peers pages cursor excluded lastRefusal b).1 := by
  induction pages generalizing cursor excluded lastRefusal b with
  | nil => exact h
  | cons input pages ih =>
    rw [List.flatMap_cons, List.append_subset] at hproofs
    unfold backfillLoop
    split
    · exact h
    split
    · exact h
    · split
      · rename_i hpage
        obtain ⟨hok, hsync⟩ := backfillPage_spec h hs hproofs.1 hpage
        exact ih _ _ _ hok (hsync (by simp)) hproofs.2
      · rename_i hpage
        obtain ⟨hok, hsync⟩ := backfillPage_spec h hs hproofs.1 hpage
        exact ih _ _ _ hok (hsync (by simp)) hproofs.2
      · rename_i hpage
        obtain ⟨hok, hsync⟩ := backfillPage_spec h hs hproofs.1 hpage
        exact ih _ _ _ hok (hsync (by simp)) hproofs.2
      · rename_i hpage
        obtain ⟨hok, hsync⟩ := backfillPage_spec h hs hproofs.1 hpage
        exact ih _ _ _ hok (hsync (by simp)) hproofs.2
      · rename_i hpage
        exact (backfillPage_spec h hs hproofs.1 hpage).1

end tick

/-- **One backfill** keeps the chains; if its shard has grown, the last entry was accepted against the head -/
theorem backfill_spec {cfg : MirrorConfig P} {n : Node P} (h : Chained cfg.codec n) (shardId : String) (peers : List String)
    (sth : SignedTreeHead) (limited blocked : Bool) (tick : ℕ) (pages : List (PageInput P)) :
    Chained cfg.codec (backfill cfg n shardId peers sth limited blocked tick pages).1 ∧
      (shardColumns (columns (backfill cfg n shardId peers sth limited blocked tick pages).1.db.rows) sth.networkId shardId =
          shardColumns (columns n.db.rows) sth.networkId shardId ∨
        ∃ root : Hash, hexDecode sth.rootHash = some root.toList ∧
          Accepted ⟨shardId, sth, root, limited⟩ (pages.flatMap PageInput.nodes)
            (shardColumns (columns (backfill cfg n shardId peers sth limited blocked tick pages).1.db.rows) sth.networkId
              shardId)) := by
  unfold backfill
  split
  · exact ⟨h, .inl rfl⟩
  dsimp only
  split
  · exact ⟨h, .inl rfl⟩
  split
  · exact ⟨h, .inl rfl⟩
  · rename_i bytes hroot
    split
    · exact ⟨h, .inl rfl⟩
    · exact ⟨h, .inl rfl⟩
    · rename_i root prevHash hbytes hprev
      rw [expectedPrevHash_of_chainOk (h _ _)] at hprev
      cases hprev
      have hstart : TickOk cfg ⟨shardId, sth, root, limited⟩ (pages.flatMap PageInput.nodes)
          (shardColumns (columns n.db.rows) sth.networkId shardId)
          ⟨n, mirroredProgress n.db.rows sth.networkId shardId none,
            tipHash (shardColumns (columns n.db.rows) sth.networkId shardId), 0, blocked⟩ := ⟨h, .inl rfl⟩
      have hloop := backfillLoop_spec peers (tick % peers.length) [] none hstart ⟨mirroredProgress_of_chainOk (h _ _), rfl⟩
        (List.Subset.refl _)
      refine ⟨hloop.chained, hloop.grown.imp id ?_⟩
      intro haccepted
      refine ⟨root, ?_, haccepted⟩
      rw [hroot, FixedBytes.toList_of_ofList? hbytes]

/-- **One tick** keeps the chains; if the shard of its head has grown, the last entry was accepted against that head -/
theorem backfillNetwork_spec {cfg : MirrorConfig P} {n : Node P} (h : Chained cfg.codec n) (t : Tick ed P) :
    Chained cfg.codec (backfillNetwork cfg n t).1 ∧ ∀ sth, t.target = some sth →
      (shardColumns (columns (backfillNetwork cfg n t).1.db.rows) sth.networkId t.shardId =
          shardColumns (columns n.db.rows) sth.networkId t.shardId ∨
        ∃ root : Hash, hexDecode sth.rootHash = some root.toList ∧
          Accepted ⟨t.shardId, sth, root, !projectsMirroredEntries t.shardId⟩ (t.pages.flatMap PageInput.nodes)
            (shardColumns (columns (backfillNetwork cfg n t).1.db.rows) sth.networkId t.shardId)) := by
  unfold backfillNetwork
  split
  · exact ⟨h, fun _ _ => .inl rfl⟩
  · exact ⟨h, fun _ _ => .inl rfl⟩
  · have hcolumns := reprojectUnapplied_columns n (t.networkId, t.shardId) t.pass
    split
    · rename_i n' e hpass
      rw [hpass] at hcolumns
      exact ⟨h.of_columns hcolumns, fun sth _ => .inl (by rw [hcolumns])⟩
    · rename_i n' report hpass
      rw [hpass] at hcolumns
      split
      · exact ⟨h.of_columns hcolumns, fun sth hsth => by simp_all⟩
      · rename_i sth hsth
        obtain ⟨hchained, hgrown⟩ := backfill_spec (h.of_columns hcolumns) t.shardId (agreeing t.observations sth) sth
          (!projectsMirroredEntries t.shardId) report.blocked t.tick t.pages
        refine ⟨hchained, ?_⟩
        intro sth' hsth'
        rw [hsth] at hsth'
        cases hsth'
        rw [hcolumns] at hgrown
        exact hgrown

theorem step_chained {cfg : MirrorConfig P} {n : Node P} (h : Chained cfg.codec n) (op : Op ed P) :
    Chained cfg.codec (step cfg n op) := by
  cases op with
  | tick t => exact (backfillNetwork_spec h t).1
  | restart => exact h

/-- **Every run** keeps the chains -/
theorem run_chained {cfg : MirrorConfig P} {n : Node P} (h : Chained cfg.codec n) (ops : List (Op ed P)) :
    Chained cfg.codec (run cfg n ops) := by
  induction ops generalizing n with
  | nil => exact h
  | cons op ops ih => exact ih (step_chained h op)

/-! ## The tree -/

def genesis : Hash := FixedBytes.replicate 32 0

theorem genesisHash_eq : genesisHash = hexEncode genesis.toList := by decide

/-- a log: entries that each name the hash of the one before -/
abbrev HashLinked (log : List LogEntry) : Prop :=
  HashChain.Linked Sha256.hash LogEntry.message LogEntry.prevHash genesis log

/-- the leaves of a log's tree -/
def leaves (log : List LogEntry) : List Bytes := log.map fun e => e.hash.toList

/-- a chain of stored entries is a log -/
theorem log_of_linked {codec : PayloadCodec P} {cs : List (Mirrored P EnvelopeRow)} (hintact : ∀ c ∈ cs, Intact codec c)
    (start : Hash) (hlinked : HashChain.Linked id Mirrored.entryHash Mirrored.prevHash (hexEncode start.toList) cs) :
    ∃ log : List LogEntry, HashChain.Linked Sha256.hash LogEntry.message LogEntry.prevHash start log ∧
      cs.map Mirrored.entryHash = log.map (fun e => hexEncode e.hash.toList) ∧
      log.map LogEntry.message ⊆ cs.flatMap rowMessages := by
  induction cs generalizing start with
  | nil => exact ⟨[], trivial, rfl, by simp⟩
  | cons c cs ih =>
    obtain ⟨hprev, hrest⟩ := hlinked
    obtain ⟨e, hmessage, htext, hprevText⟩ := (hintact c (by simp)).logEntry
    change HashChain.Linked id Mirrored.entryHash Mirrored.prevHash c.entryHash cs at hrest
    rw [htext] at hrest
    obtain ⟨log, hlog, hhashes, hmessages⟩ := ih (fun c hc => hintact c (List.mem_cons_of_mem _ hc)) e.hash hrest
    refine ⟨e :: log, ⟨?_, hlog⟩, ?_, ?_⟩
    · exact FixedBytes.hexEncode_inj (hprevText.symm.trans hprev)
    · rw [List.map_cons, List.map_cons, hhashes, htext]
    · rw [List.map_cons, List.flatMap_cons, List.cons_subset]
      exact ⟨List.mem_append_left _ hmessage, fun m hm => List.mem_append_right _ (hmessages hm)⟩

theorem mthOfHexHashes_texts (log : List LogEntry) :
    mthOfHexHashes .sha256 (log.map fun e => hexEncode e.hash.toList) = .ok (mth .sha256 (leaves log)) := by
  have hdecode : (log.map fun e => hexEncode e.hash.toList).mapM hexDecode = some (leaves log) := by
    unfold leaves
    induction log with
    | nil => rfl
    | cons e log ih => simp [ih, hexDecode_hexEncode]
  rw [mthOfHexHashes, hdecode]

/-- everything that is hashed to compare the stored entries with a log: the messages of both, the log's tree, and the path
of each served proof from the last position -/
def treeInputs (cs : List (Mirrored P EnvelopeRow)) (log : List LogEntry) (proofs : List (List Hash)) : List Bytes :=
  cs.flatMap rowMessages ++ log.map LogEntry.message ++ mthInputs .sha256 (leaves log) ++
    (cs.flatMap fun c => (hexDecode c.entryHash).toList).flatMap fun leaf =>
      leafInput leaf :: proofs.flatMap (verifyPathInputs .sha256 (cs.length - 1) cs.length (leafHash .sha256 leaf))

/-- a proof that is accepted for the last position of a log's tree is for the log's last entry, or there is a collision -/
theorem last_of_accepted {S : List Bytes} {log : List LogEntry} {leaf : Bytes} {nodes : List Hash} {i n : ℕ}
    (hlen : log.length = n) (htree : mthInputs .sha256 (leaves log) ⊆ S) (hleaf : leafInput leaf ∈ S)
    (hpath : verifyPathInputs .sha256 i n (leafHash .sha256 leaf) nodes ⊆ S)
    (h : verifyInclusionProof .sha256 leaf i n nodes (mth .sha256 (leaves log)) = true) :
    (∃ e, log[i]? = some e ∧ leaf = e.hash.toList) ∨ CollisionIn Sha256.hash S := by
  rw [verifyInclusionProof] at h
  split_ifs at h with hge
  split at h
  · rename_i r hr
    rw [beq_iff_eq.1 h] at hr
    have hlen' : (leaves log).length = n := by rw [leaves, List.length_map, hlen]
    rcases verifyPath_sound n (by omega) (leaves log) i _ nodes hlen' (not_le.1 hge) htree hpath hr with
      ⟨d, hd, hsame, hin⟩ | hcol
    · rcases leaf_inj_or hleaf hin hsame with rfl | hcol
      · rw [leaves, List.getElem?_map] at hd
        obtain ⟨e, he, hdata⟩ := Option.map_eq_some_iff.1 hd
        exact .inl ⟨e, he, hdata.symm⟩
      · exact .inr hcol
    · exact .inr hcol
  · cases h

/-- **The head's tree**: a shard whose last entry was accepted at the head's last position has the head's tree, if that is
the tree of any hash-linked log, or there is a collision -/
theorem tree_of_accepted {codec : PayloadCodec P} {target : Target} {proofs : List (List Hash)}
    {cs : List (Mirrored P EnvelopeRow)} (hok : ChainOk codec cs) (haccepted : Accepted target proofs cs)
    (hsize : cs.length = target.sth.treeSize.toInt.toNat) {log : List LogEntry} (hlog : HashLinked log)
    (hlen : log.length = cs.length) (hroot : mth .sha256 (leaves log) = target.root) :
    mthOfHexHashes target.sth.envelope.hashAlgo (cs.map Mirrored.entryHash) = .ok target.root ∨
      CollisionIn Sha256.hash (treeInputs cs log proofs) := by
  obtain ⟨log', hlog', hhashes, hmessages⟩ := log_of_linked hok.intact genesis (genesisHash_eq ▸ hok.linked)
  obtain ⟨before, c, leaf, nodes, rfl, hleaf, hnodes, hincluded⟩ := haccepted
  have hlen' : log'.length = (before ++ [c]).length := by
    have := congrArg List.length hhashes
    simpa using this.symm
  -- the stored log ends with the entry that was accepted
  obtain ⟨init', e', rfl⟩ : ∃ init' e', log' = init' ++ [e'] := by
    rcases List.eq_nil_or_concat' log' with rfl | h
    · simp at hlen'
    · exact h
  obtain ⟨init, e, rfl⟩ : ∃ init e, log = init ++ [e] := by
    rcases List.eq_nil_or_concat' log with rfl | h
    · simp at hlen
    · exact h
  have hlast : c.entryHash = hexEncode e'.hash.toList := by
    have := congrArg List.getLast? hhashes
    simpa using this
  have hinit : init.length = before.length := by simpa using hlen
  obtain rfl : leaf = e'.hash.toList := by
    rw [hlast, hexDecode_hexEncode] at hleaf
    exact (Option.some.inj hleaf).symm
  have hin : ∀ x, x ∈ leafInput e'.hash.toList :: proofs.flatMap
      (verifyPathInputs .sha256 ((before ++ [c]).length - 1) (before ++ [c]).length (leafHash .sha256 e'.hash.toList)) →
      x ∈ treeInputs (before ++ [c]) (init ++ [e]) proofs := by
    intro x hx
    refine List.mem_append_right _ (List.mem_flatMap.2 ⟨e'.hash.toList, ?_, hx⟩)
    exact List.mem_flatMap.2 ⟨c, by simp, by rw [hlast, hexDecode_hexEncode]; simp⟩
  have hindex : (before ++ [c]).length - 1 = before.length := by simp
  cases halgo : target.sth.envelope.hashAlgo
  rw [halgo, ← hsize, ← hroot] at hincluded
  rcases last_of_accepted (S := treeInputs (before ++ [c]) (init ++ [e]) proofs) hlen
    (fun x hx => List.mem_append_left _ (List.mem_append_right _ hx)) (hin _ (by simp))
    (fun x hx => hin x (List.mem_cons_of_mem _ (List.mem_flatMap.2 ⟨nodes, hnodes, by rw [hindex]; exact hx⟩))) hincluded with
    ⟨e1, he1, hsame⟩ | hcol
  · have he : e1 = e := by
      rw [← hinit] at he1
      simpa using he1.symm
    rw [he] at hsame
    -- one last hash, so one chain
    rcases HashChain.eq_or_collision_of_tip LogEntry.message_injective (hlen'.trans hlen.symm) hlog' hlog
      (S := treeInputs (before ++ [c]) (init ++ [e]) proofs)
      (fun m hm => List.mem_append_left _ (List.mem_append_left _ (List.mem_append_left _ (hmessages hm))))
      (fun m hm => List.mem_append_left _ (List.mem_append_left _ (List.mem_append_right _ hm)))
      (by rw [HashChain.tip_concat, HashChain.tip_concat]; exact FixedBytes.toList_inj hsame) with hequal | hcol
    · left
      rw [hhashes, hequal, ← hroot]
      exact mthOfHexHashes_texts _
    · exact .inr hcol
  · exact .inr hcol

theorem chained_init (codec : PayloadCodec P) : Chained codec (Node.init : Node P) := fun _ _ => chainOk_nil codec

/-- the first entry hashes of a chain are those of its entries -/
theorem mirroredEntryHashesUpTo_of_chainOk {codec : PayloadCodec P} {rows : List (MirroredRow P)}
    {networkId shardId : String} {n : ℕ} (h : ChainOk codec (shardColumns (columns rows) networkId shardId))
    (hn : (shardColumns (columns rows) networkId shardId).length = n) :
    mirroredEntryHashesUpTo rows networkId shardId n none =
      (shardColumns (columns rows) networkId shardId).map Mirrored.entryHash := by
  rw [← columns_rowsOf, columns] at h hn
  have hsorted : (rowsOf rows networkId shardId none).Pairwise fun a b => a.seq ≤ b.seq :=
    (List.pairwise_map.1 h.ascending).imp le_of_lt
  rw [mirroredEntryHashesUpTo, Mirror.orderBySeq, hsorted.insertionSort_eq, List.take_of_length_le (by simpa using hn.le),
    ← columns_rowsOf, columns, List.map_map]
  rfl

/-- **Backfill reproduces the head's tree.** After every run of ticks, over any shards, with any heads of the author and
whatever peers serve:
- the stored entries of each shard ascend in seq, are linked from genesis and hash to their entry hashes (where the time
  column of an entry before 2000 may be one microsecond late);
- when a further tick brings the number of stored entries to the size of its head, and the head's root is the tree of any
  hash-linked log of that size, then it is the tree of the stored entries, or the listed inputs show a collision. -/
theorem backfill_reproduces_tree (cfg : MirrorConfig P) (ops : List (Op ed P)) :
    (∀ networkId shardId, ChainOk cfg.codec (columns (rowsOf (run cfg .init ops).db.rows networkId shardId none))) ∧
    ∀ (t : Tick ed P) (sth : SignedTreeHead), t.target = some sth →
      let before := (run cfg .init ops).db.rows
      let after := (run cfg .init (ops ++ [.tick t])).db.rows
      (mirroredProgress before sth.networkId t.shardId none).verifiedCount < sth.treeSize.toInt →
      (mirroredProgress after sth.networkId t.shardId none).verifiedCount = sth.treeSize.toInt →
      ∀ log : List LogEntry, HashLinked log → log.length = sth.treeSize.toInt →
        hexEncode (mth .sha256 (leaves log)).toList = sth.rootHash →
        (∃ root, mthOfHexHashes sth.envelope.hashAlgo
            (mirroredEntryHashesUpTo after sth.networkId t.shardId sth.treeSize.toInt.toNat none) = .ok root ∧
          hexEncode root.toList = sth.rootHash) ∨
        CollisionIn Sha256.hash (treeInputs (columns (rowsOf after sth.networkId t.shardId none)) log
          (t.pages.flatMap PageInput.nodes)) := by
  have hchained := run_chained (chained_init cfg.codec) ops
  refine ⟨fun networkId shardId => by rw [columns_rowsOf]; exact hchained networkId shardId, ?_⟩
  intro t sth htarget before after hbefore hafter log hlog hlen hroot
  have hafterRun : after = (backfillNetwork cfg (run cfg .init ops) t).1.db.rows := by
    simp only [after, run, List.foldl_append]
    rfl
  obtain ⟨hchained', hgrown⟩ := backfillNetwork_spec hchained t
  rw [← hafterRun] at hgrown
  have hok : ChainOk cfg.codec (shardColumns (columns after) sth.networkId t.shardId) := by
    rw [hafterRun]
    exact hchained' _ _
  rw [mirroredProgress_of_chainOk (hchained _ _)] at hbefore
  rw [mirroredProgress_of_chainOk hok] at hafter
  dsimp only at hbefore hafter
  rw [columns_rowsOf]
  rcases hgrown sth htarget with hsame | ⟨root, hdecode, haccepted⟩
  · rw [hsame] at hafter
    exact absurd hafter hbefore.ne
  · have hsize : (shardColumns (columns after) sth.networkId t.shardId).length = sth.treeSize.toInt.toNat := by omega
    have hmth : mth .sha256 (leaves log) = root := by
      rw [← hroot, hexDecode_hexEncode] at hdecode
      exact FixedBytes.toList_inj (Option.some.inj hdecode)
    rw [mirroredEntryHashesUpTo_of_chainOk hok hsize]
    rcases tree_of_accepted hok haccepted hsize hlog (by omega) hmth with htree | hcol
    · exact .inl ⟨root, htree, by rw [← hmth, hroot]⟩
    · exact .inr hcol

/-! ## An author who forks -/

section fork

open Json Avalon.CanonicalPayload Avalon.IdentityChain

/-- payloads as JSON -/
def jsonMirror : MirrorConfig (Value Decimal) where
  codec := jsonCodec Decimal
  null := .null
  textLength v := ((canonicalize v).toOption.map fun text => (utf8 text).length).getD 0

/-- the operator's signatures over the heads -/
def forkEd25519 : Ed25519 := operatorSigning [
  (.ofHex 32 "8715a47b1888f426e2f15916fd1eda0da682b87e2b46a7710bbed3323609422b", .ofHex 64
    "e333a4c5a26422e0b51e2d4cd3ae393486d96290eb655bd6a129ac27f511e54b3b50021cddfbd23b0e23ce8b94dd4fd5abe43a34434554fdbc173f12d9ad9f09"),
  (.ofHex 32 "82aec9a20b0cbd47957e4709cda3b0aa4b8909936929739747385eb0e53ecdea", .ofHex 64
    "8362922987aae05e2af51820f580e9603b842409786a5eb28b22ec7b66c251b6ef854ce59a8f91b7b91cd2fbb55d980a947b1144e12e93536de379c4b989e00c"),
  (.ofHex 32 "289c3dfb237c4be8aa59527ab473a7ce9260e78b09a5f105ddc37c1227b700db", .ofHex 64
    "1b45d5b5f68cc1a302251328f10876d11a9c08c5124865aad1ba0c0e37087a22e12ba073ae7fe36a3b448f9de8b34f27e52095c7cb6e32b3b384b37e2b67b304")]

/-- the head over the first entry -/
def oneEntryHead : SignedTreeHead where
  treeSize := 1
  rootHash := "32731d03bfd469c280b603eb89dad790690ebc84ad88a17e90585dbb05e7617f"
  networkId := "avalon"
  signingKeyId := "operator"
  signature :=
    "e333a4c5a26422e0b51e2d4cd3ae393486d96290eb655bd6a129ac27f511e54b3b50021cddfbd23b0e23ce8b94dd4fd5abe43a34434554fdbc173f12d9ad9f09"
  createdAt := 1790000001000000000
  envelope := .current .settlementSth

/-- the head over both entries -/
def twoEntryHead : SignedTreeHead where
  treeSize := 2
  rootHash := "0a692b5af58ec0c1e116ed901a3ceda46423117b7693f4303faf8fc1b709a192"
  networkId := "avalon"
  signingKeyId := "operator"
  signature :=
    "1b45d5b5f68cc1a302251328f10876d11a9c08c5124865aad1ba0c0e37087a22e12ba073ae7fe36a3b448f9de8b34f27e52095c7cb6e32b3b384b37e2b67b304"
  createdAt := 1790000001000000000
  envelope := .current .settlementSth

/-- a head over the second entry twice -/
def forkedHead : SignedTreeHead where
  treeSize := 2
  rootHash := "c062c201be1cedfd3b7c8bdfbe1889b1a2d816200ae2f1cc3e0052471363a669"
  networkId := "avalon"
  signingKeyId := "operator"
  signature :=
    "8362922987aae05e2af51820f580e9603b842409786a5eb28b22ec7b66c251b6ef854ce59a8f91b7b91cd2fbb55d980a947b1144e12e93536de379c4b989e00c"
  createdAt := 1790000001000000000
  envelope := .current .settlementSth

def forkEntry (seq : ℤ) (prevHash entryHash rootHash : String) (proof : List String) : EntryInput (Value Decimal) where
  dto := {
    seq := seq
    eventId := .replicate 16 (UInt8.ofNat seq.toNat)
    kind := "note.added"
    issuer := "g:a:b:c"
    subject := "g:a:b:c"
    payload := none
    payloadHash := "74234e98afe7498fb5daf1f36ac2d78acc339464f950703b8c019892f982b90b"
    payloadPruned := false
    version := 1
    eventTimestamp := 1790000000000000000
    prevHash := prevHash
    entryHash := entryHash
    batchId := .replicate 16 9
    envelope := .ofEnvelope (.current .ledgerEntry) }
  deadlinePassed := false
  proof := .ok ⟨rootHash, entryHash, proof⟩
  store := ⟨1790000002000000000, false, ⟨.ok, 0, none⟩, .committed⟩

def hashA : String := "24b45e12fee9d3131add575a7ccbe694034e7f4031d69d9dbdc53a15f0076b71"

def hashB : String := "90cf905d0f447763f9ce32fa804aa19f291f2b86cdbf76c3d02b6d624402978d"

/-- a tick with one peer that serves one page -/
def forkTick (head : SignedTreeHead) (entries : List (EntryInput (Value Decimal))) (hnetwork : head.networkId = "avalon")
    (hauthor : verifyTreeHead forkEd25519 (forkEd25519.verifyingKey (.replicate 32 0x11)) head = true) :
    Tick forkEd25519 (Value Decimal) where
  networkId := "avalon"
  shardId := "core"
  equivocations := .ok false
  pass := ⟨0, 0, fun _ => false, fun _ => ⟨0, 0, false, ⟨.ok, 0, none⟩, .committed⟩⟩
  observations := [("https://peer", head)]
  choice := 0
  tick := 0
  pages := [⟨false, .ok entries⟩]
  ofNetwork := by simpa using hnetwork
  authored := by simpa using ⟨_, hauthor⟩

theorem oneEntryHead_network : oneEntryHead.networkId = "avalon" := rfl

theorem twoEntryHead_network : twoEntryHead.networkId = "avalon" := rfl

theorem oneEntryHead_verified : verifyTreeHead forkEd25519 (forkEd25519.verifyingKey (.replicate 32 0x11)) oneEntryHead = true := by
  decide +kernel

theorem twoEntryHead_verified : verifyTreeHead forkEd25519 (forkEd25519.verifyingKey (.replicate 32 0x11)) twoEntryHead = true := by
  decide +kernel

def oneEntryTick : Tick forkEd25519 (Value Decimal) :=
  forkTick oneEntryHead [forkEntry 1 genesisHash hashA oneEntryHead.rootHash []] oneEntryHead_network oneEntryHead_verified

def extendedTick : Tick forkEd25519 (Value Decimal) :=
  forkTick twoEntryHead
    [forkEntry 2 hashA hashB twoEntryHead.rootHash ["32731d03bfd469c280b603eb89dad790690ebc84ad88a17e90585dbb05e7617f"]]
    twoEntryHead_network twoEntryHead_verified

def forkedTick : Tick forkEd25519 (Value Decimal) :=
  forkTick forkedHead
    [forkEntry 2 hashA hashB forkedHead.rootHash ["9c6b82930a31554d043a691aa9bd52759968f7c3c464396777a1ff9e09be596d"]] rfl
    (by decide +kernel)

/-- an entry with this hash -/
theorem logEntry_of_forkEntry (seq : ℤ) (prevHash entryHash : String)
    (h : hashEntry "avalon" "core" prevHash ((mirroredEntry jsonMirror "" "core" oneEntryHead
      (forkEntry seq prevHash entryHash "" []).dto).content (.current .ledgerEntry)) = .ok entryHash) :
    ∃ e : LogEntry, entryHash = hexEncode e.hash.toList ∧ prevHash = hexEncode e.prevHash.toList := by
  obtain ⟨e, -, htext, hprev⟩ := hashEntry_eq_ok h
  exact ⟨e, htext, hprev⟩

/-- the first entry is mirrored under a head of size one, and after a restart the second under a head of size two: their tree is
the second head's -/
theorem backfill_reproduces_tree_two_ticks :
    let after := (run jsonMirror .init ([.tick oneEntryTick, .restart] ++ [.tick extendedTick])).db.rows
    (mirroredProgress after twoEntryHead.networkId extendedTick.shardId none).verifiedCount = twoEntryHead.treeSize.toInt ∧
    ∃ log : List LogEntry, HashLinked log ∧ log.length = 2 ∧
      hexEncode (mth .sha256 (leaves log)).toList = twoEntryHead.rootHash ∧
      ((∃ root, mthOfHexHashes twoEntryHead.envelope.hashAlgo (mirroredEntryHashesUpTo after twoEntryHead.networkId
            extendedTick.shardId twoEntryHead.treeSize.toInt.toNat none) = .ok root ∧
          hexEncode root.toList = twoEntryHead.rootHash) ∨
        CollisionIn Sha256.hash (treeInputs (columns (rowsOf after twoEntryHead.networkId extendedTick.shardId none)) log
          (extendedTick.pages.flatMap PageInput.nodes))) := by
  intro after
  obtain ⟨e₁, htext₁, hprev₁⟩ := logEntry_of_forkEntry 1 genesisHash hashA (by decide +kernel)
  obtain ⟨e₂, htext₂, hprev₂⟩ := logEntry_of_forkEntry 2 hashA hashB (by decide +kernel)
  have hlog : HashLinked [e₁, e₂] :=
    ⟨FixedBytes.hexEncode_inj (hprev₁.symm.trans genesisHash_eq), FixedBytes.hexEncode_inj (hprev₂.symm.trans htext₁), trivial⟩
  have hroot : hexEncode (mth .sha256 (leaves [e₁, e₂])).toList = twoEntryHead.rootHash := by
    have hleaves : leaves [e₁, e₂] = [(hexDecode hashA).getD [], (hexDecode hashB).getD []] := by
      rw [htext₁, htext₂, hexDecode_hexEncode, hexDecode_hexEncode]
      rfl
    rw [hleaves]
    decide +kernel
  -- one evaluation, since the first tick is run in both
  have hcounts : (mirroredProgress (run jsonMirror .init [.tick oneEntryTick, .restart]).db.rows twoEntryHead.networkId
        extendedTick.shardId none).verifiedCount < twoEntryHead.treeSize.toInt ∧
      (mirroredProgress after twoEntryHead.networkId extendedTick.shardId none).verifiedCount = twoEntryHead.treeSize.toInt := by
    decide +kernel
  obtain ⟨hbefore, hafter⟩ := hcounts
  exact ⟨hafter, [e₁, e₂], hlog, rfl, hroot, (backfill_reproduces_tree jsonMirror [.tick oneEntryTick, .restart]).2 extendedTick
    twoEntryHead (by decide +kernel) hbefore hafter [e₁, e₂] hlog (by rw [List.length_cons, List.length_singleton]; decide) hroot⟩

/-- what is hashed for the stored entries: their messages, their tree, and the path of each served proof from the last -/
def servedInputs (rows : List (MirroredRow (Value Decimal))) (ticks : List (Tick forkEd25519 (Value Decimal))) : List Bytes :=
  let stored := (columns rows).filterMap fun c => hexDecode c.entryHash
  (columns rows).filterMap (fun c => message (storedEntry c)) ++ mthInputs .sha256 stored ++
    (ticks.flatMap fun t => t.pages.flatMap PageInput.nodes).flatMap
      (verifyPathInputs .sha256 (stored.length - 1) stored.length (leafHash .sha256 (stored.getLastD [])))

/-- the entry hashes, the tree of the stored entries, and the forked head's root -/
def servedDigests : List String := [hashA, hashB,
  "0a692b5af58ec0c1e116ed901a3ceda46423117b7693f4303faf8fc1b709a192",
  "32731d03bfd469c280b603eb89dad790690ebc84ad88a17e90585dbb05e7617f",
  "9c6b82930a31554d043a691aa9bd52759968f7c3c464396777a1ff9e09be596d",
  "c062c201be1cedfd3b7c8bdfbe1889b1a2d816200ae2f1cc3e0052471363a669"]

/-- an entry is mirrored under one head, and a second one under a head over that second entry twice: the tree of the stored
entries is not the second head's, and nothing that was hashed collides -/
theorem forked_heads_not_reproduced :
    ¬ ∀ (t t' : Tick forkEd25519 (Value Decimal)) (sth : SignedTreeHead), t'.target = some sth →
      let before := (run jsonMirror .init [.tick t]).db.rows
      let after := (run jsonMirror .init [.tick t, .tick t']).db.rows
      (mirroredProgress before sth.networkId t'.shardId none).verifiedCount < sth.treeSize.toInt →
      (mirroredProgress after sth.networkId t'.shardId none).verifiedCount = sth.treeSize.toInt →
      (∃ root, mthOfHexHashes sth.envelope.hashAlgo
          (mirroredEntryHashesUpTo after sth.networkId t'.shardId sth.treeSize.toInt.toNat none) = .ok root ∧
        hexEncode root.toList = sth.rootHash) ∨ CollisionIn Sha256.hash (servedInputs after [t, t']) := by
  intro h
  have hrows : let after := (run jsonMirror .init [.tick oneEntryTick, .tick forkedTick]).db.rows
      (mirroredProgress (run jsonMirror .init [.tick oneEntryTick]).db.rows forkedHead.networkId
          forkedTick.shardId none).verifiedCount < forkedHead.treeSize.toInt ∧
      (mirroredProgress after forkedHead.networkId forkedTick.shardId none).verifiedCount = forkedHead.treeSize.toInt ∧
      mirroredEntryHashesUpTo after forkedHead.networkId forkedTick.shardId forkedHead.treeSize.toInt.toNat none =
        [hashA, hashB] ∧
      (servedInputs after [oneEntryTick, forkedTick]).map (fun x => hexEncode (Sha256.hash x).toList) = servedDigests := by
    decide +kernel
  obtain ⟨hbefore, hafter, hhashes, hdigests⟩ := hrows
  rcases h oneEntryTick forkedTick forkedHead (by decide +kernel) hbefore hafter with ⟨root, hroot, htext⟩ | hcol
  · rw [hhashes] at hroot
    have htree : ((mthOfHexHashes forkedHead.envelope.hashAlgo [hashA, hashB]).toOption.map fun root =>
        hexEncode root.toList) ≠ some forkedHead.rootHash := by
      decide +kernel
    apply htree
    rw [hroot, Except.toOption, Option.map_some, htext]
  · obtain ⟨x, hx, y, hy, hne, hsame⟩ := hcol
    have hnodup : servedDigests.Nodup := by decide +kernel
    rw [← hdigests] at hnodup
    exact hne (List.inj_on_of_nodup_map hnodup hx hy (by rw [hsame]))

end fork

end Avalon.MirrorWatcher
