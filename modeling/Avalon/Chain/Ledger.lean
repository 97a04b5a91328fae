/-
The Postgres ledger (`crates/chain/src/postgres.rs`, `envelope_row.rs`): batches are inserted, a tree head is computed
over a shared in-memory leaf cache, signed, and persisted in one transaction.

The model is a machine over the committed tables (`Db`), the shared `LedgerCache`, the advisory lock and any number of
commit or finalize attempts. One op is what runs between two points at which another party can act:
- `start` (the idempotency check, then a transaction), `acquire` (the advisory lock), `insert` (the rows of the batch,
  visible to this transaction only), `compute` (the cache step, under the cache's write lock), `persist` (the batch row and
  the signed tree head), `commit`;
- `fail` (a storage error), `drop` (the future is dropped), `rollback` (the transaction of a failed or dropped attempt ends
  and the lock is released), `reset` (the error path clears the cache). The rollback of a dropped transaction is queued by
  the driver, so it runs before or after the reset;
- `cover` (a read that grows the cache) and `restart` (a new process over the same tables).
An op that is not enabled changes nothing. `seq` is an unbounded integer: 2^63 rows are out of reach.
-/
import Mathlib.Tactic
import Avalon.Core.Bytes
import Avalon.Core.Fallible
import Avalon.Chain.Merkle
import Avalon.Chain.IncrementalMerkle
import Avalon.Protocol.SigningBytes
import Avalon.Protocol.SigningBytesReader
import Avalon.Protocol.LedgerEntry
import Avalon.Protocol.Events
import Avalon.Protocol.Sth

namespace Avalon.Ledger

open Avalon.SigningBytes Avalon.LedgerEntry Avalon.Events Avalon.Sth Avalon.Merkle Avalon.IncrementalMerkle

/-- the hash algorithm of the ledger's tree -/
def ledgerHashAlgo : HashAlgo := (Envelope.current .settlementSth).hashAlgo

def genesisHash : String := "0000000000000000000000000000000000000000000000000000000000000000"

/-- what a storage error was about -/
inductive StorageError where
  | emptyBatch
  | database
  | uniqueEntryHash
  | uniqueBatchId
  | uniqueTreeSize
  | invalidHex
  | signingKey
  | signing (e : SthSigningError)
  | signatureDoesNotVerify
  | checkViolation
  | possibleEquivocation (witnessKeyId : String) (treeSize : Int64) (networkId shardId : String)
deriving DecidableEq, Repr

inductive SettlementError where
  | storage (e : StorageError)
  | invalidPayload
  | invalidEntry (e : EntryHashError)
  | envelopeOutOfRange
  | unsupportedEntryVersion (version : UInt32)
  | needsNewerVersion (what : VersionKind) (required : UInt32)
  | mirroredPayloadUnverifiable (seq : ℤ)
  | mirroredContentMismatch (seq : ℤ)
deriving DecidableEq, Repr

/-- a layout error: "needs a newer version" keeps its type -/
def SettlementError.fromLayout : SigningBytesError → SettlementError
  | .needsNewerVersion what required => .needsNewerVersion what required
  | e => .invalidEntry (.layout e)

/-! ## Tables -/

/-- the four columns that store an envelope -/
structure EnvelopeRow where
  layoutVersion : Int16
  rulesVersion : Int32
  hashAlgo : Int16
  extensions : Bytes
deriving DecidableEq

def EnvelopeRow.fromEnvelope (envelope : Envelope) : Except SettlementError EnvelopeRow :=
  if envelope.layoutVersion.toNat < 2 ^ 15 ∧ envelope.rulesVersion.toNat < 2 ^ 31 then
    .ok ⟨envelope.layoutVersion.toInt16, envelope.rulesVersion.toInt32, Int16.ofNat envelope.hashAlgo.id.toNat,
      envelope.extensions.encode⟩
  else .error .envelopeOutOfRange

/-- the plain-integer form; a value that does not fit reads as zero -/
def EnvelopeRow.toWire (row : EnvelopeRow) : EnvelopeWire :=
  ⟨UInt16.ofNat row.layoutVersion.toInt.toNat, UInt32.ofNat row.rulesVersion.toInt.toNat,
    if 0 ≤ row.hashAlgo.toInt ∧ row.hashAlgo.toInt < 2 ^ 8 then UInt8.ofNat row.hashAlgo.toInt.toNat else 0,
    hexEncode row.extensions⟩

def EnvelopeRow.toEnvelope (row : EnvelopeRow) (tag : DomainTag) : Except SettlementError Envelope :=
  (row.toWire.toEnvelope tag).mapError .fromLayout

theorem toInt_toInt16 {x : UInt16} (h : x.toNat < 2 ^ 15) : x.toInt16.toInt = x.toNat := by
  change x.toBitVec.toInt = _
  rw [BitVec.toInt_eq_toNat_of_lt]
  · rfl
  · change 2 * x.toNat < 2 ^ 16
    omega

theorem toInt_toInt32 {x : UInt32} (h : x.toNat < 2 ^ 31) : x.toInt32.toInt = x.toNat := by
  change x.toBitVec.toInt = _
  rw [BitVec.toInt_eq_toNat_of_lt]
  · rfl
  · change 2 * x.toNat < 2 ^ 32
    omega

theorem EnvelopeRow.toWire_of_fromEnvelope {env : Envelope} {row : EnvelopeRow} (h : EnvelopeRow.fromEnvelope env = .ok row) :
    row.toWire = EnvelopeWire.ofEnvelope env := by
  simp only [EnvelopeRow.fromEnvelope] at h
  split_ifs at h with hfit
  cases h
  have halgo : ∀ algo : HashAlgo, (if 0 ≤ (Int16.ofNat algo.id.toNat).toInt ∧ (Int16.ofNat algo.id.toNat).toInt < 2 ^ 8 then
      UInt8.ofNat (Int16.ofNat algo.id.toNat).toInt.toNat else 0) = algo.id := by
    rintro ⟨⟩
    decide
  simp only [EnvelopeRow.toWire, EnvelopeWire.ofEnvelope, toInt_toInt16 hfit.1, toInt_toInt32 hfit.2,
    Int.toNat_natCast, UInt16.ofNat_toNat, UInt32.ofNat_toNat, halgo]

/-- envelope columns read back as the envelope they were written from -/
theorem EnvelopeRow.toEnvelope_of_fromEnvelope {env env' : Envelope} {row : EnvelopeRow} {tag : DomainTag}
    (h : EnvelopeRow.fromEnvelope env = .ok row) (h' : row.toEnvelope tag = .ok env') : env' = env := by
  rw [EnvelopeRow.toEnvelope, Fallible.mapError_eq_ok, EnvelopeRow.toWire_of_fromEnvelope h] at h'
  exact EnvelopeWire.toEnvelope_ofEnvelope h'

structure LedgerEntryRow (P : Type) where
  seq : ℤ
  eventId : Uuid
  kind : String
  issuer : String
  subject : String
  payload : Option P
  payloadHash : String
  eventTimestamp : OffsetDateTime
  version : Int32
  prevHash : String
  entryHash : String
  batchId : Uuid
  committedAt : OffsetDateTime
  envelope : EnvelopeRow

structure LedgerBatchRow where
  batchId : Uuid
  firstSeq : ℤ
  lastSeq : ℤ
  batchRoot : String
  committedAt : OffsetDateTime

/-- the committed rows, in commit order -/
structure Db (P : Type) where
  entries : List (LedgerEntryRow P)
  batches : List LedgerBatchRow
  heads : List SignedTreeHead

variable {P : Type}

/-- ORDER BY seq ASC -/
def orderBySeq (rows : List (LedgerEntryRow P)) : List (LedgerEntryRow P) := rows.insertionSort fun a b => a.seq ≤ b.seq

/-- SELECT entry_hash .. ORDER BY seq ASC -/
def entryHashes (rows : List (LedgerEntryRow P)) : List String := (orderBySeq rows).map LedgerEntryRow.entryHash

/-- the hash of the last entry by seq -/
def tipHash (rows : List (LedgerEntryRow P)) : String := (entryHashes rows).getLastD genesisHash

/-- COALESCE(MAX(seq), 0) -/
def maxSeq (rows : List (LedgerEntryRow P)) : ℤ := (rows.map LedgerEntryRow.seq).max?.getD 0

def getCommitment (db : Db P) (batchId : Uuid) : Option Commitment :=
  (db.batches.find? fun b => decide (b.batchId = batchId)).map fun b =>
    ⟨batchId, utf8 b.batchRoot, b.committedAt⟩

/-! ## Entries -/

structure EntryContent where
  seq : ℤ
  eventId : Uuid
  kind : String
  issuer : String
  subject : String
  payloadHash : String
  timestamp : OffsetDateTime
  version : Int32
  envelope : Envelope

/-- `u64::try_from` of a seq -/
def seqToU64 (seq : ℤ) : Except EntryHashError UInt64 :=
  if 0 ≤ seq ∧ seq < 2 ^ 64 then .ok (UInt64.ofNat seq.toNat) else .error (.outOfRange "seq")

/-- `u32::try_from` of a stored version -/
def versionToU32 (version : Int32) : Except EntryHashError UInt32 :=
  if 0 ≤ version then .ok version.toUInt32 else .error (.outOfRange "version")

def hashEntry (networkId shardId prevHash : String) (content : EntryContent) : Except EntryHashError String := do
  let prev ← parseHash "prev_hash" prevHash
  let payloadHash ← parseHash "payload_hash" content.payloadHash
  let seq ← seqToU64 content.seq
  let micros ← timestampMicros content.timestamp
  let version ← versionToU32 content.version
  let hash ← entryHash {
    networkId := networkId
    shardId := shardId
    seq := seq
    prevHash := prev
    eventId := content.eventId
    kind := content.kind
    issuer := content.issuer
    subject := content.subject
    payloadHash := payloadHash
    timestampMicros := micros
    eventVersion := version
    envelope := content.envelope }
  return hexEncode hash.toList

structure Config (P : Type) where
  networkId : String
  shardId : String
  codec : PayloadCodec P
  ed : Ed25519

/-- the payload as stored, with the event's chain position embedded -/
def storedPayload (codec : PayloadCodec P) (event : ProtocolEvent P) : P :=
  match event.identityChain with
  | some position => codec.embedPosition event.payload position
  | none => event.payload

def storedTimestamp (event : ProtocolEvent P) : Except SettlementError OffsetDateTime :=
  (floorToMicros event.timestamp).mapError .invalidEntry

/-- refuses the first event whose version does not fit its column -/
def checkBatch (batch : EventBatch P) : Except SettlementError Unit :=
  match batch.events.find? fun e => decide (e.version.toNat > 2 ^ 31 - 1) with
  | some e => .error (.unsupportedEntryVersion e.version)
  | none => .ok ()

def hashEvent (cfg : Config P) (seq : ℤ) (prevHash : String) (event : ProtocolEvent P) (payloadHash : String) :
    Except SettlementError String := do
  let timestamp ← storedTimestamp event
  (hashEntry cfg.networkId cfg.shardId prevHash {
    seq := seq
    eventId := event.id
    kind := event.kind
    issuer := event.issuer
    subject := event.subject
    payloadHash := payloadHash
    timestamp := timestamp
    version := if event.version.toNat ≤ 2 ^ 31 - 1 then event.version.toInt32 else Int32.maxValue
    envelope := .current .ledgerEntry }).mapError .invalidEntry

/-- the rows of a batch, each chained to the one before -/
def batchRows (cfg : Config P) (batchId : Uuid) (now : OffsetDateTime) :
    String → ℤ → List (ProtocolEvent P) → Except SettlementError (List (LedgerEntryRow P))
  | _, _, [] => .ok []
  | prevHash, seq, event :: rest => do
    let payload := storedPayload cfg.codec event
    let envelope ← EnvelopeRow.fromEnvelope (.current .ledgerEntry)
    let some digest := cfg.codec.payloadHash payload | throw .invalidPayload
    let payloadHash := hexEncode digest.toList
    let entryHash ← hashEvent cfg seq prevHash event payloadHash
    let eventTimestamp ← storedTimestamp event
    let rows ← batchRows cfg batchId now entryHash (seq + 1) rest
    return {
      seq := seq
      eventId := event.id
      kind := event.kind
      issuer := event.issuer
      subject := event.subject
      payload := some payload
      payloadHash := payloadHash
      eventTimestamp := eventTimestamp
      version := event.version.toInt32
      prevHash := prevHash
      entryHash := entryHash
      batchId := batchId
      committedAt := now
      envelope := envelope } :: rows

/-! ## The leaf cache -/

/-- the cached leaf hashes with their tree -/
structure LedgerCache where
  leaves : List String
  tree : IncrementalMerkleTree

namespace LedgerCache

def empty : LedgerCache := ⟨[], .new ledgerHashAlgo⟩

/-- appends hashes one by one; on a hash that is not hex it stops where it is -/
def extend (c : LedgerCache) : List String → LedgerCache × Except SettlementError Unit
  | [] => (c, .ok ())
  | hash :: rest =>
    match hexDecode hash with
    | none => (c, .error (.storage .invalidHex))
    | some bytes => extend ⟨c.leaves ++ [hash], c.tree.append bytes⟩ rest

/-- replaces leaves and tree, or nothing -/
def rebuild (c : LedgerCache) (allHashes : List String) : LedgerCache × Except SettlementError Unit :=
  match allHashes.mapM hexDecode with
  | none => (c, .error (.storage .invalidHex))
  | some leaves => (⟨allHashes, .fromLeaves ledgerHashAlgo leaves⟩, .ok ())

end LedgerCache

def mthOfHexHashes (algo : HashAlgo) (hashes : List String) : Except SettlementError Hash :=
  match hashes.mapM hexDecode with
  | none => .error (.storage .invalidHex)
  | some leaves => .ok (mth algo leaves)

/-- what the cache step leaves behind: the cache, and the tree size and root, an error, or a panic (`none`) -/
abbrev CacheStep := LedgerCache × OrPanic (Except SettlementError (ℕ × Hash))

/-- the fast path extends the cached tree by the batch's own hashes -/
def fastPath (cache : LedgerCache) (batchHashes : List String) : CacheStep :=
  match cache.extend batchHashes with
  | (cache', .error e) => (cache', some (.error e))
  | (cache', .ok ()) =>
    match cache'.tree.root cache'.leaves.length with
    | some (some root) => (cache', some (.ok (cache'.leaves.length, root)))
    | _ => (cache', none)

/-- the slow path fetches every hash, and replaces the cache when it fetched more than is cached -/
def slowPath (cache : LedgerCache) (fetched : List String) : CacheStep :=
  let rebuilt := if fetched.length > cache.leaves.length then cache.rebuild fetched else (cache, .ok ())
  match rebuilt with
  | (cache', .error e) => (cache', some (.error e))
  | (cache', .ok ()) =>
    match mthOfHexHashes ledgerHashAlgo fetched with
    | .error e => (cache', some (.error e))
    | .ok root => (cache', some (.ok (fetched.length, root)))

/-- the cache step of `insert_batch_and_compute_root`: the cache is trusted when its length is the number of rows before
the batch -/
def computeRoot (cache : LedgerCache) (entries rows : List (LedgerEntryRow P)) : CacheStep :=
  let batchHashes := rows.map LedgerEntryRow.entryHash
  let lastSeq := (rows.map LedgerEntryRow.seq).getLastD 0
  let previousCommitted := (entries ++ rows).length - batchHashes.length
  if cache.leaves.length = previousCommitted then fastPath cache batchHashes
  else slowPath cache (entryHashes ((entries ++ rows).filter fun r => decide (r.seq ≤ lastSeq)))

/-- `ensure_cache_covers` -/
def ensureCacheCovers (cache : LedgerCache) (entries : List (LedgerEntryRow P)) (treeSize : ℕ) : LedgerCache :=
  if cache.leaves.length ≥ treeSize then cache
  else
    let hashes := (entryHashes entries).take treeSize
    if hashes.length > cache.leaves.length then (cache.rebuild hashes).1 else cache

/-! ## Attempts -/

/-- who signs the tree head -/
inductive Mode where
  | commit
  | finalize (createdAt : OffsetDateTime) (signingKeyId signatureHex : String) (verifyKey : FixedBytes 32)

/-- how far an attempt is; the rows of its transaction are visible to it alone -/
inductive Phase (P : Type) where
  | begun
  | locked
  | inserted (rows : List (LedgerEntryRow P))
  | computed (rows : List (LedgerEntryRow P)) (treeSize : ℕ) (root : Hash)
  | persisted (rows : List (LedgerEntryRow P)) (treeSize : ℕ) (root : Hash) (batchRow : LedgerBatchRow)
    (head : SignedTreeHead)
  | failing (e : SettlementError)
  | dropped
  | ended (result : Except SettlementError Commitment)

/-- an attempt to commit a batch; now is the transaction's start, which the tables use as their default time -/
structure Attempt (P : Type) where
  batch : EventBatch P
  mode : Mode
  now : OffsetDateTime
  phase : Phase P

structure State (P : Type) where
  db : Db P
  cache : LedgerCache
  lock : Option ℕ
  attempts : ℕ → Option (Attempt P)

def State.init : State P := ⟨⟨[], [], []⟩, .empty, none, fun _ => none⟩

def State.setPhase (s : State P) (i : ℕ) (a : Attempt P) (phase : Phase P) : State P :=
  { s with attempts := Function.update s.attempts i (some { a with phase := phase }) }

/-- `commit` answers a replayed batch with its commitment; `finalize` with the time it was called with -/
def replayed (mode : Mode) (existing : Commitment) : Commitment :=
  match mode with
  | .commit => existing
  | .finalize createdAt _ _ _ => { existing with committedAt := createdAt }

/-- the tree head to persist: signed with the key of the environment, or checked against the caller's signature -/
def treeHead (cfg : Config P) (mode : Mode) (now : OffsetDateTime) (signingKey : Option (FixedBytes 32 × String))
    (treeSize : ℕ) (batchRoot : String) : Except SettlementError SignedTreeHead :=
  match mode with
  | .commit =>
    match signingKey with
    | none => .error (.storage .signingKey)
    | some (key, keyId) =>
      (signTreeHead cfg.ed key keyId (Int64.ofNat treeSize) batchRoot cfg.networkId now).mapError
        fun e => .storage (.signing e)
  | .finalize createdAt signingKeyId signatureHex verifyKey =>
    let candidate : SignedTreeHead := {
      treeSize := Int64.ofNat treeSize
      rootHash := batchRoot
      networkId := cfg.networkId
      signingKeyId := signingKeyId
      signature := signatureHex
      createdAt := createdAt
      envelope := .current .settlementSth }
    if verifyTreeHead cfg.ed verifyKey candidate then .ok candidate else .error (.storage .signatureDoesNotVerify)

/-- a unique key: the insert fails when it is taken -/
def requireFree (taken : Bool) (e : StorageError) : Except SettlementError Unit :=
  if taken then .error (.storage e) else .ok ()

/-- the batch row and the tree head, as the unique keys of their tables allow -/
def persistRows (cfg : Config P) (db : Db P) (a : Attempt P) (rows : List (LedgerEntryRow P)) (treeSize : ℕ)
    (root : Hash) (signingKey : Option (FixedBytes 32 × String)) :
    Except SettlementError (LedgerBatchRow × SignedTreeHead) := do
  let batchRoot := hexEncode root.toList
  let batchRow : LedgerBatchRow := {
    batchId := a.batch.id
    firstSeq := (rows.map LedgerEntryRow.seq).headD 0
    lastSeq := (rows.map LedgerEntryRow.seq).getLastD 0
    batchRoot := batchRoot
    committedAt := a.now }
  requireFree (db.batches.any fun b => decide (b.batchId = a.batch.id)) .uniqueBatchId
  let head ← treeHead cfg a.mode a.now signingKey treeSize batchRoot
  requireFree (db.heads.any fun h => decide (h.treeSize = head.treeSize)) .uniqueTreeSize
  return (batchRow, head)

/-- what one attempt does next -/
inductive AttemptOp where
  | acquire
  | insert
  | compute
  | persist (signingKey : Option (FixedBytes 32 × String))
  | commit (reported : Bool)
  | fail
  | drop
  | rollback
  | reset

inductive Op (P : Type) where
  | start (i : ℕ) (batch : EventBatch P) (mode : Mode) (now : OffsetDateTime)
  | attempt (i : ℕ) (op : AttemptOp)
  | cover (treeSize : ℕ)
  | restart

/-- the result a committed attempt reports -/
def commitResult (a : Attempt P) (batchRow : LedgerBatchRow) (head : SignedTreeHead) : Commitment :=
  ⟨a.batch.id, utf8 batchRow.batchRoot, match a.mode with
    | .commit => batchRow.committedAt
    | .finalize .. => head.createdAt⟩

/-- one op of attempt i -/
def attemptStep (cfg : Config P) (s : State P) (i : ℕ) (a : Attempt P) : AttemptOp → State P
  | .acquire =>
    match a.phase with
    | .begun =>
      if a.batch.events.isEmpty then s.setPhase i a (.failing (.storage .emptyBatch))
      else
        match checkBatch a.batch with
        | .error e => s.setPhase i a (.failing e)
        | .ok () => if s.lock = none then { s.setPhase i a .locked with lock := some i } else s
    | _ => s
  | .insert =>
    match a.phase with
    | .locked =>
      match batchRows cfg a.batch.id a.now (tipHash s.db.entries) (maxSeq s.db.entries + 1) a.batch.events with
      | .error e => s.setPhase i a (.failing e)
      | .ok rows =>
        if ((s.db.entries ++ rows).map LedgerEntryRow.entryHash).Nodup then s.setPhase i a (.inserted rows)
        else s.setPhase i a (.failing (.storage .uniqueEntryHash))
    | _ => s
  | .compute =>
    match a.phase with
    | .inserted rows =>
      match computeRoot s.cache s.db.entries rows with
      | (cache, none) => { s.setPhase i a .dropped with cache := cache } -- a panic unwinds the future
      | (cache, some (.error e)) => { s.setPhase i a (.failing e) with cache := cache }
      | (cache, some (.ok (treeSize, root))) => { s.setPhase i a (.computed rows treeSize root) with cache := cache }
    | _ => s
  | .persist signingKey =>
    match a.phase with
    | .computed rows treeSize root =>
      match persistRows cfg s.db a rows treeSize root signingKey with
      | .error e => s.setPhase i a (.failing e)
      | .ok (batchRow, head) => s.setPhase i a (.persisted rows treeSize root batchRow head)
    | _ => s
  | .commit reported =>
    match a.phase with
    | .persisted rows _ _ batchRow head =>
      { s.setPhase i a (if reported then .ended (.ok (commitResult a batchRow head)) else .failing (.storage .database))
        with
        db := ⟨s.db.entries ++ rows, s.db.batches ++ [batchRow], s.db.heads ++ [head]⟩
        lock := none }
    | _ => s
  | .fail =>
    match a.phase with
    | .failing _ | .dropped | .ended _ => s
    | _ => s.setPhase i a (.failing (.storage .database))
  | .drop =>
    match a.phase with
    | .dropped | .ended _ => s
    | _ => s.setPhase i a .dropped
  | .rollback =>
    match a.phase with
    | .failing _ | .dropped | .ended _ => if s.lock = some i then { s with lock := none } else s
    | _ => s
  | .reset =>
    match a.phase with
    | .failing e => { s.setPhase i a (.ended (.error e)) with cache := .empty }
    | _ => s

def step (cfg : Config P) (s : State P) : Op P → State P
  | .start i batch mode now =>
    match s.attempts i with
    | some _ => s
    | none =>
      match getCommitment s.db batch.id with
      | some existing => s.setPhase i ⟨batch, mode, now, .begun⟩ (.ended (.ok (replayed mode existing)))
      | none => s.setPhase i ⟨batch, mode, now, .begun⟩ .begun
  | .attempt i op =>
    match s.attempts i with
    | some a => attemptStep cfg s i a op
    | none => s
  | .cover treeSize => { s with cache := ensureCacheCovers s.cache s.db.entries treeSize }
  | .restart => { s with cache := .empty, lock := none, attempts := fun _ => none }

def run (cfg : Config P) (s : State P) (ops : List (Op P)) : State P := ops.foldl (step cfg) s

end Avalon.Ledger
