/-
Reading the ledger back (`crates/chain/src/postgres.rs`): `list_entries` and `verify` recompute every hash from the
stored columns, `prune_payloads_older_than` takes payloads away, `prepare` previews a tree head, `root_at` reads the
shared leaf cache, and `to_protocol_event` makes an event out of a row again.

A JSONB column gives back the value it was given: the payloads a commit admits have no U+0000, and of their numbers only
the sign of a zero is lost, which the equality of values ignores. `payload_pruned_at` is set exactly when the payload is
gone, so it is not a column of its own here.

Results:
- `step_effect`: everything one op can do to tables, lock and attempts.
- `Chained`, `runActions_chained`: in every run of ops and prunings, the entries ascend, every one of them is intact, and an
  attempt that holds the lock has exactly the rows of its batch on top of the ledger.
- `event_round_trip`: a committed event comes back from its row, its time in whole microseconds, exactly when its payload
  leaves the reserved key free and is an object if the event has a chain position.
- `reserved_key_forges_position`: a payload that imitates the reserved key comes back without it, under a position the
  event never had.
-/
import Mathlib.Tactic
import Avalon.Core.Bytes
import Avalon.Core.Fallible
import Avalon.Core.SortedMap
import Avalon.Core.Json
import Avalon.Protocol.SigningBytes
import Avalon.Protocol.SigningBytesReader
import Avalon.Protocol.LedgerEntry
import Avalon.Protocol.Events
import Avalon.Protocol.Sth
import Avalon.Protocol.IdentityChainWire
import Avalon.Chain.Merkle
import Avalon.Chain.IncrementalMerkle
import Avalon.Chain.Ledger
import Avalon.Chain.LedgerHeads

namespace Avalon.Ledger

open Avalon.SigningBytes Avalon.LedgerEntry Avalon.Events Avalon.Sth Avalon.Merkle Avalon.IncrementalMerkle
open Fallible

variable {P : Type}

/-! ## Entries -/

/-- a surviving payload hashes to the entry's payload hash; a pruned one has nothing to contradict it -/
def payloadMatches (codec : PayloadCodec P) (payload : Option P) (payloadHash : String) : Bool :=
  match payload with
  | none => true
  | some p =>
    match codec.payloadHash p with
    | some digest => decide (hexEncode digest.toList = payloadHash)
    | none => false

/-- the hashed columns of a row, under the envelope read from it -/
def LedgerEntryRow.content (row : LedgerEntryRow P) (envelope : Envelope) : EntryContent where
  seq := row.seq
  eventId := row.eventId
  kind := row.kind
  issuer := row.issuer
  subject := row.subject
  payloadHash := row.payloadHash
  timestamp := row.eventTimestamp
  version := row.version
  envelope := envelope

/-- everything checkable about one stored entry -/
def entryContentIntact (cfg : Config P) (prevHash entryHash : String) (payload : Option P) (content : EntryContent) : Bool :=
  payloadMatches cfg.codec payload content.payloadHash &&
    match hashEntry cfg.networkId cfg.shardId prevHash content with
    | .ok hash => decide (hash = entryHash)
    | .error _ => false

structure LedgerEntryView (P : Type) where
  seq : ℤ
  eventId : Uuid
  kind : String
  issuer : String
  subject : String
  payload : Option P
  payloadHash : String
  payloadPruned : Bool
  version : Int32
  eventTimestamp : OffsetDateTime
  prevHash : String
  entryHash : String
  batchId : Uuid
  envelope : EnvelopeWire
  chainIntact : Bool

/-- an envelope this node cannot read is not verifiable here -/
def contentIntact (cfg : Config P) (row : LedgerEntryRow P) : Bool :=
  match row.envelope.toEnvelope .ledgerEntry with
  | .ok envelope => entryContentIntact cfg row.prevHash row.entryHash row.payload (row.content envelope)
  | .error _ => false

def LedgerEntryRow.view (row : LedgerEntryRow P) (chainIntact : Bool) : LedgerEntryView P where
  seq := row.seq
  eventId := row.eventId
  kind := row.kind
  issuer := row.issuer
  subject := row.subject
  payload := row.payload
  payloadHash := row.payloadHash
  payloadPruned := row.payload.isNone
  version := row.version
  eventTimestamp := row.eventTimestamp
  prevHash := row.prevHash
  entryHash := row.entryHash
  batchId := row.batchId
  envelope := row.envelope.toWire
  chainIntact := chainIntact

/-- the views of rows in order, the first expected to link to the given hash -/
def viewsFrom (cfg : Config P) : String → List (LedgerEntryRow P) → List (LedgerEntryView P)
  | _, [] => []
  | expectedPrev, row :: rest =>
    row.view (contentIntact cfg row && decide (row.prevHash = expectedPrev)) :: viewsFrom cfg row.entryHash rest

def listEntries (cfg : Config P) (db : Db P) : List (LedgerEntryView P) :=
  viewsFrom cfg genesisHash (orderBySeq db.entries)

/-! ## Verifying a commitment -/

/-- links and contents of a batch's rows, from the hash the batch entered at -/
def replayIntact (cfg : Config P) : String → List (LedgerEntryRow P × Envelope) → Bool
  | _, [] => true
  | expectedPrev, (row, envelope) :: rest =>
    decide (row.prevHash = expectedPrev) &&
      entryContentIntact cfg row.prevHash row.entryHash row.payload (row.content envelope) &&
        replayIntact cfg row.entryHash rest

/-- the batch's hash chain and the tree up to its last entry, against the commitment. The source decodes the proof lossily;
no hex text has the replacement character, so bytes are compared here. -/
def verify (cfg : Config P) (db : Db P) (commitment : Commitment) : Except SettlementError Bool := do
  match orderBySeq (db.entries.filter fun r => decide (r.batchId = commitment.batchId)) with
  | [] => return false
  | first :: rest =>
    let envelopes ← (first :: rest).mapM fun r => r.envelope.toEnvelope .ledgerEntry
    let chainIntact := replayIntact cfg first.prevHash ((first :: rest).zip envelopes)
    match db.batches.find? fun b => decide (b.batchId = commitment.batchId) with
    | none => return false
    | some batch =>
      let leafHashes := entryHashes (db.entries.filter fun r => decide (r.seq ≤ batch.lastSeq))
      let root ← mthOfHexHashes ledgerHashAlgo leafHashes
      return chainIntact && decide (utf8 (hexEncode root.toList) = commitment.proof)

/-! ## Pruning -/

structure PruneReport where
  cutoff : OffsetDateTime
  prunedCount : ℕ

/-- committed before the cutoff, and not pruned yet -/
def prunable (cutoff : OffsetDateTime) (row : LedgerEntryRow P) : Bool :=
  decide (row.committedAt < cutoff) && row.payload.isSome

def pruneRow (cutoff : OffsetDateTime) (row : LedgerEntryRow P) : LedgerEntryRow P :=
  if prunable cutoff row then { row with payload := none } else row

def prunePayloadsOlderThan (cutoff : OffsetDateTime) (db : Db P) : Db P × PruneReport :=
  ({ db with entries := db.entries.map (pruneRow cutoff) }, ⟨cutoff, (db.entries.filter (prunable cutoff)).length⟩)

/-! ## Previews and roots -/

structure PreparedTreeHead where
  batchId : Uuid
  treeSize : Int64
  rootHash : String
  networkId : String
  createdAt : OffsetDateTime
  envelope : EnvelopeWire
deriving DecidableEq

/-- the entry hashes a batch would get, each chained to the one before -/
def prepareHashes (cfg : Config P) : String → ℤ → List (ProtocolEvent P) → Except SettlementError (List String)
  | _, _, [] => .ok []
  | prevHash, seq, event :: rest => do
    let some digest := cfg.codec.payloadHash (storedPayload cfg.codec event) | throw .invalidPayload
    let entryHash ← hashEvent cfg (seq + 1) prevHash event (hexEncode digest.toList)
    let hashes ← prepareHashes cfg entryHash (seq + 1) rest
    return entryHash :: hashes

/-- a preview from scratch, which touches neither tables nor cache -/
def prepare (cfg : Config P) (db : Db P) (batch : EventBatch P) (now : OffsetDateTime) :
    Except SettlementError PreparedTreeHead := do
  if batch.events.isEmpty then throw (.storage .emptyBatch)
  checkBatch batch
  let hashes ← prepareHashes cfg (tipHash db.entries) (maxSeq db.entries) batch.events
  let allHashes := entryHashes db.entries ++ hashes
  let root ← mthOfHexHashes ledgerHashAlgo allHashes
  return {
    batchId := batch.id
    treeSize := Int64.ofNat allHashes.length
    rootHash := hexEncode root.toList
    networkId := cfg.networkId
    createdAt := now
    envelope := .ofEnvelope (.current .settlementSth) }

/-- the root at a size: the cache is made to cover it, then read -/
def rootAt (s : State P) (treeSize : ℕ) : OrPanic (Except SettlementError (Option Hash)) :=
  let hashes := (entryHashes s.db.entries).take treeSize
  let covered := if s.cache.leaves.length ≥ treeSize ∨ hashes.length ≤ s.cache.leaves.length then (s.cache, .ok ())
    else s.cache.rebuild hashes
  match covered with
  | (_, .error e) => some (.error e)
  | (cache, .ok ()) => (cache.tree.root treeSize).map .ok

/-! ## What one op does -/

/-- the attempt holds the append lock -/
def Phase.holds : Phase P → Bool
  | .locked | .inserted _ | .computed .. | .persisted .. => true
  | _ => false

/-- the rows of the attempt's transaction -/
def Phase.rows : Phase P → Option (List (LedgerEntryRow P))
  | .inserted rows | .computed rows _ _ | .persisted rows _ _ _ _ => some rows
  | _ => none

/-- the phases an attempt can move to while tables and lock stay as they are -/
inductive Moves (cfg : Config P) (s : State P) (a : Attempt P) : Phase P → Prop
  | insert {rows : List (LedgerEntryRow P)} (hphase : a.phase = .locked)
      (hrows : batchRows cfg a.batch.id a.now (tipHash s.db.entries) (maxSeq s.db.entries + 1) a.batch.events = .ok rows) :
      Moves cfg s a (.inserted rows)
  | compute {rows : List (LedgerEntryRow P)} {treeSize : ℕ} {root : Hash} (hphase : a.phase = .inserted rows)
      (hroot : (computeRoot s.cache s.db.entries rows).2 = some (.ok (treeSize, root))) :
      Moves cfg s a (.computed rows treeSize root)
  | persist {rows : List (LedgerEntryRow P)} {treeSize : ℕ} {root : Hash} {key : Option (FixedBytes 32 × String)}
      {batchRow : LedgerBatchRow} {head : SignedTreeHead} (hphase : a.phase = .computed rows treeSize root)
      (hrow : persistRows cfg s.db a rows treeSize root key = .ok (batchRow, head)) :
      Moves cfg s a (.persisted rows treeSize root batchRow head)
  | fail (e : SettlementError) : Moves cfg s a (.failing e)
  | drop : Moves cfg s a .dropped
  | reset {e : SettlementError} (hphase : a.phase = .failing e) : Moves cfg s a (.ended (.error e))

/-- everything an op can do -/
inductive Effect (cfg : Config P) (s : State P) : State P → Prop
  | stay (cache : LedgerCache) : Effect cfg s { s with cache := cache }
  | move {i : ℕ} {a : Attempt P} {phase : Phase P} (cache : LedgerCache) (ha : s.attempts i = some a)
      (hmove : Moves cfg s a phase) : Effect cfg s { s.setPhase i a phase with cache := cache }
  | begin {i : ℕ} {batch : EventBatch P} {mode : Mode} {now : OffsetDateTime} (hfree : s.attempts i = none)
      (hnew : getCommitment s.db batch.id = none) : Effect cfg s (s.setPhase i ⟨batch, mode, now, .begun⟩ .begun)
  | replay {i : ℕ} {batch : EventBatch P} {mode : Mode} {now : OffsetDateTime} {existing : Commitment}
      (hfree : s.attempts i = none) (hold : getCommitment s.db batch.id = some existing) :
      Effect cfg s (s.setPhase i ⟨batch, mode, now, .begun⟩ (.ended (.ok (replayed mode existing))))
  | acquire {i : ℕ} {a : Attempt P} (ha : s.attempts i = some a) (hphase : a.phase = .begun)
      (hne : a.batch.events ≠ []) (hcheck : checkBatch a.batch = .ok ()) (hl : s.lock = none) :
      Effect cfg s { s.setPhase i a .locked with lock := some i }
  | commit {i : ℕ} {a : Attempt P} {rows : List (LedgerEntryRow P)} {treeSize : ℕ} {root : Hash}
      {batchRow : LedgerBatchRow} {head : SignedTreeHead} (reported : Bool) (ha : s.attempts i = some a)
      (hphase : a.phase = .persisted rows treeSize root batchRow head) :
      Effect cfg s { s.setPhase i a
        (if reported then .ended (.ok (commitResult a batchRow head)) else .failing (.storage .database)) with
        db := ⟨s.db.entries ++ rows, s.db.batches ++ [batchRow], s.db.heads ++ [head]⟩
        lock := none }
  | release {i : ℕ} {a : Attempt P} (ha : s.attempts i = some a) (hphase : a.phase.holds = false)
      (hl : s.lock = some i) : Effect cfg s { s with lock := none }
  | restart : Effect cfg s { s with cache := .empty, lock := none, attempts := fun _ => none }

section steps

variable {cfg : Config P} {s : State P} {i : ℕ} {a : Attempt P}

theorem acquire_effect (ha : s.attempts i = some a) : Effect cfg s (attemptStep cfg s i a .acquire) := by
  simp only [attemptStep]
  split
  · rename_i hphase
    by_cases hempty : a.batch.events.isEmpty
    · rw [if_pos hempty]
      exact .move s.cache ha (.fail _)
    · rw [if_neg hempty]
      split
      · exact .move s.cache ha (.fail _)
      · rename_i hcheck
        split_ifs with hl
        · exact .acquire ha hphase (by simpa using hempty) hcheck hl
        · exact .stay s.cache
  · exact .stay s.cache

theorem insert_effect (ha : s.attempts i = some a) : Effect cfg s (attemptStep cfg s i a .insert) := by
  simp only [attemptStep]
  split
  · rename_i hphase
    split
    · exact .move s.cache ha (.fail _)
    · rename_i rows hrows
      split_ifs
      · exact .move s.cache ha (.insert hphase hrows)
      · exact .move s.cache ha (.fail _)
  · exact .stay s.cache

theorem compute_effect (ha : s.attempts i = some a) : Effect cfg s (attemptStep cfg s i a .compute) := by
  simp only [attemptStep]
  split
  · rename_i rows hphase
    split
    · exact .move _ ha .drop
    · exact .move _ ha (.fail _)
    · rename_i cache treeSize root hcompute
      exact .move _ ha (.compute hphase (by rw [hcompute]))
  · exact .stay s.cache

theorem persist_effect (ha : s.attempts i = some a) (key : Option (FixedBytes 32 × String)) :
    Effect cfg s (attemptStep cfg s i a (.persist key)) := by
  simp only [attemptStep]
  split
  · rename_i rows treeSize root hphase
    split
    · exact .move s.cache ha (.fail _)
    · rename_i hrow
      exact .move s.cache ha (.persist hphase hrow)
  · exact .stay s.cache

theorem commit_effect (ha : s.attempts i = some a) (reported : Bool) :
    Effect cfg s (attemptStep cfg s i a (.commit reported)) := by
  simp only [attemptStep]
  split
  · rename_i hphase
    exact .commit reported ha hphase
  · exact .stay s.cache

theorem fail_effect (ha : s.attempts i = some a) : Effect cfg s (attemptStep cfg s i a .fail) := by
  simp only [attemptStep]
  split
  all_goals first
    | exact .stay s.cache
    | exact .move s.cache ha (.fail _)

theorem drop_effect (ha : s.attempts i = some a) : Effect cfg s (attemptStep cfg s i a .drop) := by
  simp only [attemptStep]
  split
  all_goals first
    | exact .stay s.cache
    | exact .move s.cache ha .drop

theorem rollback_effect (ha : s.attempts i = some a) : Effect cfg s (attemptStep cfg s i a .rollback) := by
  simp only [attemptStep]
  split
  all_goals first
    | exact .stay s.cache
    | rename_i hphase
      split_ifs with hl
      · exact .release ha (by rw [hphase]; rfl) hl
      · exact .stay s.cache

theorem reset_effect (ha : s.attempts i = some a) : Effect cfg s (attemptStep cfg s i a .reset) := by
  simp only [attemptStep]
  split
  · rename_i hphase
    exact .move .empty ha (.reset hphase)
  · exact .stay s.cache

/-- **One op** does one of the things listed -/
theorem step_effect (op : Op P) : Effect cfg s (step cfg s op) := by
  cases op with
  | start i batch mode now =>
    simp only [step]
    split
    · exact .stay s.cache
    · rename_i hfree
      split
      · rename_i hold
        exact .replay hfree hold
      · rename_i hnew
        exact .begin hfree hnew
  | attempt i op =>
    cases ha : s.attempts i with
    | none =>
      simp only [step, ha]
      exact .stay s.cache
    | some a =>
      simp only [step, ha]
      cases op with
      | acquire => exact acquire_effect ha
      | insert => exact insert_effect ha
      | compute => exact compute_effect ha
      | persist key => exact persist_effect ha key
      | commit reported => exact commit_effect ha reported
      | fail => exact fail_effect ha
      | drop => exact drop_effect ha
      | rollback => exact rollback_effect ha
      | reset => exact reset_effect ha
  | cover treeSize => exact .stay _
  | restart => exact .restart

end steps

/-! ## Rows and views -/

/-- an event whose version fits its column -/
def VersionFits (event : ProtocolEvent P) : Prop := event.version.toNat ≤ 2 ^ 31 - 1

theorem versionFits_of_checkBatch {batch : EventBatch P} (h : checkBatch batch = .ok ()) :
    ∀ event ∈ batch.events, VersionFits event := by
  unfold checkBatch at h
  split at h
  · cases h
  · rename_i hnone
    intro event hevent
    have := List.find?_eq_none.1 hnone event hevent
    simpa [VersionFits] using this

/-- the envelope columns of an entry read back as the current envelope -/
theorem toEnvelope_current {row : EnvelopeRow} (h : EnvelopeRow.fromEnvelope (.current .ledgerEntry) = .ok row) :
    row.toEnvelope .ledgerEntry = .ok (.current .ledgerEntry) := by
  have hcurrent : (EnvelopeWire.ofEnvelope (.current .ledgerEntry)).toEnvelope .ledgerEntry =
      .ok (.current .ledgerEntry) := by decide +kernel
  rw [EnvelopeRow.toEnvelope, EnvelopeRow.toWire_of_fromEnvelope h, hcurrent]
  rfl

/-- a row as it is written is intact -/
theorem contentIntact_of_rowOf {cfg : Config P} {batchId : Uuid} {now : OffsetDateTime} {prevHash : String} {seq : ℤ}
    {event : ProtocolEvent P} {row : LedgerEntryRow P} (h : RowOf cfg batchId now prevHash seq event row)
    (hversion : VersionFits event) : contentIntact cfg row = true := by
  obtain ⟨digest, hdigest, hhex⟩ := h.payloadHash
  have hpayload : payloadMatches cfg.codec row.payload row.payloadHash = true := by
    rw [h.payload, payloadMatches, hdigest, hhex]
    exact decide_eq_true rfl
  have hhash : hashEntry cfg.networkId cfg.shardId row.prevHash (row.content (.current .ledgerEntry)) =
      .ok row.entryHash := by
    have hevent := h.entryHash
    have hfits : event.version.toNat ≤ 2 ^ 31 - 1 := hversion
    unfold hashEvent at hevent
    rw [h.eventTimestamp, if_pos hfits] at hevent
    rw [LedgerEntryRow.content, h.seq, h.eventId, h.kind, h.issuer, h.subject, h.version, h.prevHash]
    exact mapError_eq_ok.1 hevent
  rw [contentIntact, toEnvelope_current h.envelope]
  dsimp only
  rw [entryContentIntact, hhash, Bool.and_eq_true]
  exact ⟨hpayload, decide_eq_true rfl⟩

/-- every view of these rows, linked to the given hash, is intact -/
def Intact (cfg : Config P) (expectedPrev : String) (rows : List (LedgerEntryRow P)) : Prop :=
  ∀ v ∈ viewsFrom cfg expectedPrev rows, v.chainIntact = true

theorem viewsFrom_append (cfg : Config P) (expectedPrev : String) (xs ys : List (LedgerEntryRow P)) :
    viewsFrom cfg expectedPrev (xs ++ ys) = viewsFrom cfg expectedPrev xs ++
      viewsFrom cfg ((xs.map LedgerEntryRow.entryHash).getLastD expectedPrev) ys := by
  induction xs generalizing expectedPrev with
  | nil => rfl
  | cons x xs ih =>
    rw [List.cons_append, viewsFrom, viewsFrom, ih, List.map_cons, List.getLastD_cons, List.cons_append]

theorem intact_cons {cfg : Config P} {expectedPrev : String} {row : LedgerEntryRow P} {rows : List (LedgerEntryRow P)} :
    Intact cfg expectedPrev (row :: rows) ↔
      (contentIntact cfg row = true ∧ row.prevHash = expectedPrev) ∧ Intact cfg row.entryHash rows := by
  unfold Intact
  rw [viewsFrom, List.forall_mem_cons]
  refine and_congr ?_ Iff.rfl
  simp only [LedgerEntryRow.view, Bool.and_eq_true, decide_eq_true_eq]

theorem intact_append {cfg : Config P} {expectedPrev : String} {xs ys : List (LedgerEntryRow P)} :
    Intact cfg expectedPrev (xs ++ ys) ↔
      Intact cfg expectedPrev xs ∧ Intact cfg ((xs.map LedgerEntryRow.entryHash).getLastD expectedPrev) ys := by
  unfold Intact
  rw [viewsFrom_append, List.forall_mem_append]

/-- the rows of a checked batch are intact -/
theorem batchRows_intact {cfg : Config P} {batchId : Uuid} {now : OffsetDateTime} {events : List (ProtocolEvent P)}
    {prevHash : String} {seq : ℤ} {rows : List (LedgerEntryRow P)}
    (h : batchRows cfg batchId now prevHash seq events = .ok rows) (hversion : ∀ event ∈ events, VersionFits event) :
    Intact cfg prevHash rows := by
  induction events generalizing prevHash seq rows with
  | nil =>
    obtain rfl : [] = rows := Except.ok.inj h
    simp [Intact, viewsFrom]
  | cons event events ih =>
    obtain ⟨row, rest, rfl, hrow, hrest⟩ := batchRows_cons h
    obtain ⟨hfits, hversion⟩ := List.forall_mem_cons.1 hversion
    exact intact_cons.2 ⟨⟨contentIntact_of_rowOf hrow hfits, hrow.prevHash⟩, ih hrest hversion⟩

/-- every row of a batch has the batch's id and the current envelope -/
theorem batchRows_columns {cfg : Config P} {batchId : Uuid} {now : OffsetDateTime} {events : List (ProtocolEvent P)}
    {prevHash : String} {seq : ℤ} {rows : List (LedgerEntryRow P)}
    (h : batchRows cfg batchId now prevHash seq events = .ok rows) :
    ∀ row ∈ rows, row.batchId = batchId ∧ EnvelopeRow.fromEnvelope (.current .ledgerEntry) = .ok row.envelope := by
  induction events generalizing prevHash seq rows with
  | nil =>
    obtain rfl : [] = rows := Except.ok.inj h
    simp
  | cons event events ih =>
    obtain ⟨row, rest, rfl, hrow, hrest⟩ := batchRows_cons h
    exact List.forall_mem_cons.2 ⟨⟨hrow.batchId, hrow.envelope⟩, ih hrest⟩

theorem tipHash_of_ascending {rows : List (LedgerEntryRow P)} (h : Ascending rows) :
    tipHash rows = (rows.map LedgerEntryRow.entryHash).getLastD genesisHash := by
  rw [tipHash, entryHashes_of_ascending h]

theorem maxSeq_nonneg {rows : List (LedgerEntryRow P)} (h : ∀ row ∈ rows, 1 ≤ row.seq) : 0 ≤ maxSeq rows := by
  cases rows with
  | nil => exact le_rfl
  | cons row rows =>
    have hle := seq_le_maxSeq (List.mem_cons_self (a := row) (l := rows))
    have hpos := h row List.mem_cons_self
    omega

/-! ## Runs with pruning -/

/-- an op of the machine, or a pruning pass -/
inductive Action (P : Type) where
  | op (o : Op P)
  | prune (cutoff : OffsetDateTime)

def act (cfg : Config P) (s : State P) : Action P → State P
  | .op o => step cfg s o
  | .prune cutoff => { s with db := (prunePayloadsOlderThan cutoff s.db).1 }

def runActions (cfg : Config P) (s : State P) (actions : List (Action P)) : State P := actions.foldl (act cfg) s

/-- an attempt that holds the lock has a checked batch, and the rows of it on top of the ledger -/
structure Holding (cfg : Config P) (s : State P) (i : ℕ) (a : Attempt P) : Prop where
  lock : s.lock = some i
  nonempty : a.batch.events ≠ []
  checked : checkBatch a.batch = .ok ()
  rows : ∀ rows, a.phase.rows = some rows →
    batchRows cfg a.batch.id a.now (tipHash s.db.entries) (maxSeq s.db.entries + 1) a.batch.events = .ok rows

/-- what every run keeps -/
structure Chained (cfg : Config P) (s : State P) : Prop where
  ascending : Ascending s.db.entries
  positive : ∀ row ∈ s.db.entries, 1 ≤ row.seq
  intact : Intact cfg genesisHash s.db.entries
  current : ∀ row ∈ s.db.entries, EnvelopeRow.fromEnvelope (.current .ledgerEntry) = .ok row.envelope
  holding : ∀ i a, s.attempts i = some a → a.phase.holds = true → Holding cfg s i a

theorem chained_init (cfg : Config P) : Chained cfg .init :=
  ⟨.nil, by simp [State.init], by simp [State.init, Intact, viewsFrom], by simp [State.init], by simp [State.init]⟩

section chained

variable {cfg : Config P} {s : State P} {i : ℕ} {a : Attempt P}

/-- moving one attempt leaves what the others hold -/
theorem Chained.setPhase (h : Chained cfg s) {phase : Phase P} (cache : LedgerCache)
    (hphase : phase.holds = true → Holding cfg s i { a with phase := phase }) :
    Chained cfg { s.setPhase i a phase with cache := cache } := by
  refine ⟨h.ascending, h.positive, h.intact, h.current, ?_⟩
  intro j b hb hholds
  rcases attempts_setPhase hb with ⟨rfl, rfl⟩ | ⟨-, hb⟩
  · obtain ⟨hl, hne, hcheck, hrows⟩ := hphase hholds
    exact ⟨hl, hne, hcheck, hrows⟩
  · obtain ⟨hl, hne, hcheck, hrows⟩ := h.holding j b hb hholds
    exact ⟨hl, hne, hcheck, hrows⟩

/-- the rows an attempt would append continue ledger and chain -/
theorem Chained.append (h : Chained cfg s) (ha : s.attempts i = some a) (hholds : a.phase.holds = true)
    (rows : List (LedgerEntryRow P)) (hrows : a.phase.rows = some rows) :
    Continues s.db.entries rows ∧ (∀ row ∈ s.db.entries ++ rows, 1 ≤ row.seq) ∧
      Intact cfg genesisHash (s.db.entries ++ rows) ∧
      ∀ row ∈ rows, row.batchId = a.batch.id ∧ EnvelopeRow.fromEnvelope (.current .ledgerEntry) = .ok row.envelope := by
  obtain ⟨-, hne, hcheck, hbatch⟩ := h.holding i a ha hholds
  have hbatch := hbatch rows hrows
  refine ⟨batchRows_continues h.ascending hne hbatch, List.forall_mem_append.2 ⟨h.positive, ?_⟩,
    intact_append.2 ⟨h.intact, ?_⟩, batchRows_columns hbatch⟩
  · intro row hrow
    have hle := (batchRows_spec hbatch).2.2.1 row hrow
    have hmax := maxSeq_nonneg h.positive
    omega
  · rw [← tipHash_of_ascending h.ascending]
    exact batchRows_intact hbatch (versionFits_of_checkBatch hcheck)

theorem Moves.chained (h : Chained cfg s) (ha : s.attempts i = some a) {phase : Phase P} (hmove : Moves cfg s a phase)
    (cache : LedgerCache) : Chained cfg { s.setPhase i a phase with cache := cache } := by
  refine h.setPhase cache ?_
  intro hholds
  cases hmove with
  | insert hphase hrows =>
    obtain ⟨hl, hne, hcheck, -⟩ := h.holding i a ha (by rw [hphase]; rfl)
    refine ⟨hl, hne, hcheck, ?_⟩
    intro rows' hrows'
    rw [← Option.some.inj hrows']
    exact hrows
  | compute hphase =>
    obtain ⟨hl, hne, hcheck, hrows⟩ := h.holding i a ha (by rw [hphase]; rfl)
    exact ⟨hl, hne, hcheck, fun rows' hrows' => hrows rows' (by rw [hphase]; exact hrows')⟩
  | persist hphase =>
    obtain ⟨hl, hne, hcheck, hrows⟩ := h.holding i a ha (by rw [hphase]; rfl)
    exact ⟨hl, hne, hcheck, fun rows' hrows' => hrows rows' (by rw [hphase]; exact hrows')⟩
  | fail e => cases hholds
  | drop => cases hholds
  | reset hphase => cases hholds

/-- **One op** keeps the chain -/
theorem Effect.chained (h : Chained cfg s) {s' : State P} (heffect : Effect cfg s s') : Chained cfg s' := by
  cases heffect with
  | stay cache =>
    refine ⟨h.ascending, h.positive, h.intact, h.current, ?_⟩
    intro j b hb hholds
    obtain ⟨hl, hne, hcheck, hrows⟩ := h.holding j b hb hholds
    exact ⟨hl, hne, hcheck, hrows⟩
  | move cache ha hmove => exact hmove.chained h ha cache
  | begin hfree hnew => exact h.setPhase s.cache (fun hholds => by cases hholds)
  | replay hfree hold => exact h.setPhase s.cache (fun hholds => by cases hholds)
  | acquire ha hphase hne hcheck hl =>
    refine ⟨h.ascending, h.positive, h.intact, h.current, ?_⟩
    intro j b hb hholds
    rcases attempts_setPhase hb with ⟨rfl, rfl⟩ | ⟨-, hb⟩
    · exact ⟨rfl, hne, hcheck, fun rows hrows => by cases hrows⟩
    · have hl' := (h.holding j b hb hholds).lock
      rw [hl] at hl'
      cases hl'
  | commit reported ha hphase =>
    rename_i i a rows treeSize root batchRow head
    obtain ⟨hcont, hpositive, hintact, hcolumns⟩ := h.append ha (by rw [hphase]; rfl) rows (by rw [hphase]; rfl)
    refine ⟨hcont.ascending, hpositive, hintact, List.forall_mem_append.2 ⟨h.current, fun row hrow => (hcolumns row hrow).2⟩, ?_⟩
    -- the lock was this attempt's, so no other attempt holds anything
    intro j b hb hholds
    rcases attempts_setPhase hb with ⟨rfl, rfl⟩ | ⟨hj, hb⟩
    · cases reported <;> cases hholds
    · have hl := (h.holding i a ha (by rw [hphase]; rfl)).lock
      have hl' := (h.holding j b hb hholds).lock
      rw [hl] at hl'
      exact absurd (Option.some.inj hl').symm hj
  | release ha hphase hl =>
    rename_i i a
    refine ⟨h.ascending, h.positive, h.intact, h.current, ?_⟩
    intro j b hb hholds
    have hl' := (h.holding j b hb hholds).lock
    rw [hl] at hl'
    cases hl'
    rw [ha] at hb
    cases hb
    rw [hphase] at hholds
    cases hholds
  | restart => exact ⟨h.ascending, h.positive, h.intact, h.current, fun j b hb => by cases hb⟩

end chained

/-! ## Pruning keeps everything that is hashed -/

section prune

variable (cutoff : OffsetDateTime)

@[simp] theorem pruneRow_seq (row : LedgerEntryRow P) : (pruneRow cutoff row).seq = row.seq := by
  unfold pruneRow; split_ifs <;> rfl

@[simp] theorem pruneRow_entryHash (row : LedgerEntryRow P) : (pruneRow cutoff row).entryHash = row.entryHash := by
  unfold pruneRow; split_ifs <;> rfl

@[simp] theorem pruneRow_prevHash (row : LedgerEntryRow P) : (pruneRow cutoff row).prevHash = row.prevHash := by
  unfold pruneRow; split_ifs <;> rfl

@[simp] theorem pruneRow_batchId (row : LedgerEntryRow P) : (pruneRow cutoff row).batchId = row.batchId := by
  unfold pruneRow; split_ifs <;> rfl

@[simp] theorem pruneRow_envelope (row : LedgerEntryRow P) : (pruneRow cutoff row).envelope = row.envelope := by
  unfold pruneRow; split_ifs <;> rfl

@[simp] theorem map_pruneRow_entryHash (rows : List (LedgerEntryRow P)) :
    (rows.map (pruneRow cutoff)).map LedgerEntryRow.entryHash = rows.map LedgerEntryRow.entryHash := by
  simp

@[simp] theorem map_pruneRow_seq (rows : List (LedgerEntryRow P)) :
    (rows.map (pruneRow cutoff)).map LedgerEntryRow.seq = rows.map LedgerEntryRow.seq := by
  simp

theorem contentIntact_pruneRow {cfg : Config P} {row : LedgerEntryRow P} (h : contentIntact cfg row = true) :
    contentIntact cfg (pruneRow cutoff row) = true := by
  unfold pruneRow
  split_ifs
  · unfold contentIntact at h ⊢
    dsimp only
    split at h
    · rw [entryContentIntact, Bool.and_eq_true] at h ⊢
      exact ⟨rfl, h.2⟩
    · cases h
  · exact h

theorem Intact.prune {cfg : Config P} {expectedPrev : String} {rows : List (LedgerEntryRow P)}
    (h : Intact cfg expectedPrev rows) : Intact cfg expectedPrev (rows.map (pruneRow cutoff)) := by
  induction rows generalizing expectedPrev with
  | nil => exact h
  | cons row rows ih =>
    obtain ⟨⟨hcontent, hprev⟩, hrest⟩ := intact_cons.1 h
    rw [List.map_cons]
    refine intact_cons.2 ⟨⟨contentIntact_pruneRow cutoff hcontent, ?_⟩, ?_⟩
    · rw [pruneRow_prevHash, hprev]
    · rw [pruneRow_entryHash]
      exact ih hrest

theorem Ascending.prune {rows : List (LedgerEntryRow P)} (h : Ascending rows) :
    Ascending (rows.map (pruneRow cutoff)) := by
  unfold Ascending at h ⊢
  rw [List.pairwise_map]
  simpa using h

theorem act_prune_entries (cfg : Config P) (s : State P) :
    (act cfg s (.prune cutoff)).db.entries = s.db.entries.map (pruneRow cutoff) := rfl

theorem Chained.prune {cfg : Config P} {s : State P} (h : Chained cfg s) : Chained cfg (act cfg s (.prune cutoff)) := by
  refine ⟨h.ascending.prune cutoff, ?_, h.intact.prune cutoff, ?_, ?_⟩
  · intro row hrow
    obtain ⟨old, hold, rfl⟩ := List.mem_map.1 hrow
    rw [pruneRow_seq]
    exact h.positive old hold
  · intro row hrow
    obtain ⟨old, hold, rfl⟩ := List.mem_map.1 hrow
    rw [pruneRow_envelope]
    exact h.current old hold
  intro i a ha hholds
  obtain ⟨hl, hne, hcheck, hrows⟩ := h.holding i a ha hholds
  refine ⟨hl, hne, hcheck, ?_⟩
  intro rows hphase
  have hbatch := hrows rows hphase
  rw [tipHash_of_ascending h.ascending, maxSeq] at hbatch
  rw [act_prune_entries, tipHash_of_ascending (h.ascending.prune cutoff), maxSeq, map_pruneRow_entryHash,
    map_pruneRow_seq]
  exact hbatch

end prune

/-- **Every run** of ops and prunings keeps the chain -/
theorem runActions_chained {cfg : Config P} {s : State P} (h : Chained cfg s) (actions : List (Action P)) :
    Chained cfg (runActions cfg s actions) := by
  induction actions generalizing s with
  | nil => exact h
  | cons action actions ih =>
    cases action with
    | op o => exact ih (Effect.chained h (step_effect o))
    | prune cutoff => exact ih (h.prune cutoff)

/-- a run without prunings -/
theorem runActions_map_op (cfg : Config P) (s : State P) (ops : List (Op P)) :
    runActions cfg s (ops.map .op) = run cfg s ops := by
  rw [runActions, run, List.foldl_map]
  rfl

theorem run_chained {cfg : Config P} {s : State P} (h : Chained cfg s) (ops : List (Op P)) :
    Chained cfg (run cfg s ops) := by
  rw [← runActions_map_op]
  exact runActions_chained h _

/-! ## Rows stay -/

theorem Effect.entries_grow {cfg : Config P} {s s' : State P} (h : Effect cfg s s') : s.db.entries <+: s'.db.entries := by
  cases h with
  | commit reported ha hphase => exact List.prefix_append _ _
  | _ => exact List.prefix_rfl

/-- the entries of a run's states only grow -/
theorem run_entries_grow (cfg : Config P) (s : State P) (ops : List (Op P)) :
    s.db.entries <+: (run cfg s ops).db.entries := by
  induction ops generalizing s with
  | nil => exact List.prefix_rfl
  | cons op ops ih => exact (step_effect op).entries_grow.trans (ih _)

theorem run_append (cfg : Config P) (s : State P) (ops ops' : List (Op P)) :
    run cfg s (ops ++ ops') = run cfg (run cfg s ops) ops' := by
  rw [run, run, run, List.foldl_append]

theorem listEntries_of_ascending (cfg : Config P) {db : Db P} (h : Ascending db.entries) :
    listEntries cfg db = viewsFrom cfg genesisHash db.entries := by
  rw [listEntries, orderBySeq_of_ascending h]

/-- the rows of an attempt about to commit are listed, in every later state -/
theorem listEntries_of_persisted {cfg : Config P} {ops : List (Op P)} {i : ℕ} {a : Attempt P}
    {rows : List (LedgerEntryRow P)} {treeSize : ℕ} {root : Hash} {batchRow : LedgerBatchRow} {head : SignedTreeHead}
    (ha : (run cfg .init ops).attempts i = some a) (hphase : a.phase = .persisted rows treeSize root batchRow head)
    (reported : Bool) (later : List (Op P)) :
    ∃ before prevHash after, listEntries cfg (run cfg .init (ops ++ .attempt i (.commit reported) :: later)).db =
      before ++ viewsFrom cfg prevHash rows ++ after := by
  have hcommit : (step cfg (run cfg .init ops) (.attempt i (.commit reported))).db.entries =
      (run cfg .init ops).db.entries ++ rows := by
    simp only [step, ha, attemptStep, hphase]
  rw [listEntries_of_ascending cfg (run_chained (chained_init cfg) _).ascending, run_append]
  obtain ⟨after, hafter⟩ := run_entries_grow cfg (step cfg (run cfg .init ops) (.attempt i (.commit reported))) later
  rw [hcommit] at hafter
  have hrun : run cfg (run cfg .init ops) (.attempt i (.commit reported) :: later) =
      run cfg (step cfg (run cfg .init ops) (.attempt i (.commit reported))) later := rfl
  rw [hrun, ← hafter, viewsFrom_append, viewsFrom_append]
  exact ⟨_, _, _, rfl⟩

/-! ## Events -/

section events

open Json Avalon.IdentityChain

variable {F : Type} [F64 F]

/-- the ledger of JSON payloads -/
def jsonConfig (F : Type) [F64 F] (networkId shardId : String) (ed : Ed25519) : Config (Value F) :=
  ⟨networkId, shardId, jsonCodec F, ed⟩

/-- the event an entry was made from; none for a pruned payload -/
def LedgerEntryView.toProtocolEvent (view : LedgerEntryView (Value F)) : Option (ProtocolEvent (Value F)) := do
  let stored ← view.payload
  let (payload, identityChain) := splitPosition stored
  let version ← (versionToU32 view.version).toOption
  return {
    id := view.eventId
    kind := view.kind
    issuer := view.issuer
    subject := view.subject
    payload := payload
    timestamp := view.eventTimestamp
    version := version
    identityChain := identityChain }

/-- the view reads back as the event, its time in whole microseconds -/
def RoundTrips (event : ProtocolEvent (Value F)) (view : LedgerEntryView (Value F)) : Prop :=
  ∃ timestamp, floorToMicros event.timestamp = .ok timestamp ∧
    view.toProtocolEvent = some { event with timestamp := timestamp }

/-- the reserved key is free, and a payload that has to carry a position is an object -/
def CarriesPosition (event : ProtocolEvent (Value F)) : Prop :=
  ReservedKeyFree event.payload ∧ (event.identityChain.isSome → IsObject event.payload)

theorem storedPayload_json (event : ProtocolEvent (Value F)) :
    storedPayload (jsonCodec F) event = embedOptional event.payload event.identityChain := by
  unfold storedPayload
  cases event.identityChain <;> rfl

theorem versionToU32_toInt32 {x : UInt32} (h : x.toNat ≤ 2 ^ 31 - 1) : versionToU32 x.toInt32 = .ok x := by
  have hle : (0 : Int32) ≤ x.toInt32 := by
    rw [Int32.le_iff_toInt_le, toInt_toInt32 (by omega)]
    exact Int.natCast_nonneg _
  rw [versionToU32, if_pos hle]
  rfl

/-- one row: the event comes back exactly when its payload carries the position -/
theorem roundTrips_view_iff {networkId shardId : String} {ed : Ed25519} {batchId : Uuid} {now : OffsetDateTime}
    {prevHash : String} {seq : ℤ} {event : ProtocolEvent (Value F)} {row : LedgerEntryRow (Value F)}
    (h : RowOf (jsonConfig F networkId shardId ed) batchId now prevHash seq event row) (hversion : VersionFits event)
    (chainIntact : Bool) : RoundTrips event (row.view chainIntact) ↔ CarriesPosition event := by
  have htime : floorToMicros event.timestamp = .ok row.eventTimestamp := mapError_eq_ok.1 h.eventTimestamp
  have hevent : (row.view chainIntact).toProtocolEvent = some {
      event with
      payload := (splitPosition (embedOptional event.payload event.identityChain)).1
      timestamp := row.eventTimestamp
      identityChain := (splitPosition (embedOptional event.payload event.identityChain)).2 } := by
    rw [LedgerEntryView.toProtocolEvent, LedgerEntryRow.view]
    dsimp only
    rw [h.payload, h.version, versionToU32_toInt32 hversion, h.eventId, h.kind, h.issuer, h.subject, ← storedPayload_json]
    rfl
  rw [CarriesPosition, ← split_embed_iff, RoundTrips, hevent]
  constructor
  · rintro ⟨timestamp, -, heq⟩
    have heq := Option.some.inj heq
    exact Prod.ext (congrArg ProtocolEvent.payload heq) (congrArg ProtocolEvent.identityChain heq)
  · intro hsplit
    exact ⟨row.eventTimestamp, htime, by rw [hsplit]⟩

theorem roundTrips_views {networkId shardId : String} {ed : Ed25519} {batchId : Uuid} {now : OffsetDateTime}
    {prevHash : String} {seq : ℤ} {events : List (ProtocolEvent (Value F))} {rows : List (LedgerEntryRow (Value F))}
    (h : batchRows (jsonConfig F networkId shardId ed) batchId now prevHash seq events = .ok rows)
    (hversion : ∀ event ∈ events, VersionFits event) (expectedPrev : String) :
    List.Forall₂ (fun event view => RoundTrips event view ↔ CarriesPosition event) events
      (viewsFrom (jsonConfig F networkId shardId ed) expectedPrev rows) := by
  induction events generalizing prevHash seq rows expectedPrev with
  | nil =>
    obtain rfl : [] = rows := Except.ok.inj h
    exact .nil
  | cons event events ih =>
    obtain ⟨row, rest, rfl, hrow, hrest⟩ := batchRows_cons h
    obtain ⟨hfits, hversion⟩ := List.forall_mem_cons.1 hversion
    exact .cons (roundTrips_view_iff hrow hfits _) (ih hrest hversion _)

/-- **Ledger event round trip.** In every run, in every state after a commit, list_entries has one view for each event of
the committed batch, in order, and the view reads back as the event exactly when the event's payload leaves the reserved
key free and, if the event has a chain position, is an object. -/
theorem event_round_trip (networkId shardId : String) (ed : Ed25519) (ops : List (Op (Value F))) (i : ℕ)
    (a : Attempt (Value F)) (rows : List (LedgerEntryRow (Value F))) (treeSize : ℕ) (root : Hash)
    (batchRow : LedgerBatchRow) (head : SignedTreeHead)
    (ha : (run (jsonConfig F networkId shardId ed) .init ops).attempts i = some a)
    (hphase : a.phase = .persisted rows treeSize root batchRow head) (reported : Bool) (later : List (Op (Value F))) :
    ∃ before views after,
      listEntries (jsonConfig F networkId shardId ed)
          (run (jsonConfig F networkId shardId ed) .init (ops ++ .attempt i (.commit reported) :: later)).db =
        before ++ views ++ after ∧
      List.Forall₂ (fun event view => RoundTrips event view ↔ CarriesPosition event) a.batch.events views := by
  obtain ⟨before, prevHash, after, hlist⟩ := listEntries_of_persisted ha hphase reported later
  refine ⟨before, _, after, hlist, ?_⟩
  have hholding := (run_chained (chained_init _) ops).holding i a ha (by rw [hphase]; rfl)
  exact roundTrips_views (hholding.rows rows (by rw [hphase]; rfl)) (versionFits_of_checkBatch hholding.checked) prevHash

/-! ## Runs on an empty ledger -/

/-- attempt i is about to commit -/
def aboutToCommit (s : State P) (i : ℕ) : Bool :=
  match s.attempts i with
  | some ⟨_, _, _, .persisted ..⟩ => true
  | _ => false

theorem exists_persisted {s : State P} {i : ℕ} (h : aboutToCommit s i = true) :
    ∃ a rows treeSize root batchRow head, s.attempts i = some a ∧
      a.phase = .persisted rows treeSize root batchRow head := by
  unfold aboutToCommit at h
  split at h
  · rename_i ha
    exact ⟨_, _, _, _, _, _, ha, rfl⟩
  · cases h

/-- a profile edit -/
def profileEvent (payload : Value Decimal) (position : Option IdentityChainPosition) : ProtocolEvent (Value Decimal) where
  id := FixedBytes.replicate 16 1
  kind := "profile.updated"
  issuer := "identity:1:self:profile_updated"
  subject := "identity:1:self:profile_updated"
  payload := payload
  timestamp := 1790000000000000123
  version := 1
  identityChain := position

def firstPosition : IdentityChainPosition := ⟨1, none, 1, 1, 1, ""⟩

/-- attempt 0 runs a batch of one event up to its commit -/
def untilCommit (event : ProtocolEvent (Value Decimal)) : List (Op (Value Decimal)) :=
  [.start 0 ⟨FixedBytes.replicate 16 9, [event]⟩ .commit 1790000000000000000, .attempt 0 .acquire, .attempt 0 .insert,
    .attempt 0 .compute, .attempt 0 (.persist (some (FixedBytes.replicate 32 0x11, "settlement-operator-1")))]

/-- Ed25519 restricted to the operator's key and these signatures of it, by the SHA-256 of the signed bytes -/
def operatorSigning (signatures : List (FixedBytes 32 × FixedBytes 64)) : Ed25519 where
  verifyingKey _ := .ofHex 32 "d04ab232742bb4ab3a1368bd4615e4e6d0224ab71a016baf8520a332c9778737"
  sign _ message := (signatures.lookup (Sha256.hash message)).getD (FixedBytes.replicate 64 0)
  verifyStrict _ message signature := signatures.contains (Sha256.hash message, signature)

/-- the operator's signatures over the heads of these runs -/
def profileEd25519 : Ed25519 := operatorSigning [
  (.ofHex 32 "2aa66b56737815588986ea5b0aa9c8b4c4602fa086494d33c7f5eb063f24e411", .ofHex 64
    "5baad5220b140806dfa995117f15ab53efec95448d07d069c91d0bd38bbac7f3d6b54739d0b867159524802ac078b18991ff6f182efd5354d9c7752029dd6a0c"),
  (.ofHex 32 "9a5f1ed6281e2fe83cf4bf14f7ab529f5ebfaa36d04297cc460f996158f2b640", .ofHex 64
    "ac8592840edc92466d82fb0db13772df222eff7e832384f7ffea527ae1085d7125118a2d123c335fdb0b5f3b627a9ddbf418a481251c74fd5851ecfa7858ca06")]

def profileConfig : Config (Value Decimal) := jsonConfig Decimal "avalon-conformance-test" "shard-1" profileEd25519

/-- an edit with a chain position -/
def chainedEdit : ProtocolEvent (Value Decimal) := profileEvent (.object [("display_name", .string "a")]) (some firstPosition)

theorem event_round_trip_chained_edit :
    ∃ a rows treeSize root batchRow head,
      (run profileConfig .init (untilCommit chainedEdit)).attempts 0 = some a ∧
      a.phase = .persisted rows treeSize root batchRow head ∧
      ∃ before views after,
        listEntries profileConfig (run profileConfig .init (untilCommit chainedEdit ++ [.attempt 0 (.commit true)])).db =
          before ++ views ++ after ∧
        List.Forall₂ (fun event view => RoundTrips event view ↔ CarriesPosition event) a.batch.events views := by
  have htrip := event_round_trip (F := Decimal) "avalon-conformance-test" "shard-1" profileEd25519
  rw [show jsonConfig _ "avalon-conformance-test" "shard-1" profileEd25519 = profileConfig from rfl] at htrip
  obtain ⟨a, rows, treeSize, root, batchRow, head, ha, hphase⟩ :=
    exists_persisted (s := run profileConfig .init (untilCommit chainedEdit)) (i := 0) (by decide +kernel)
  exact ⟨a, rows, treeSize, root, batchRow, head, ha, hphase, htrip _ 0 a rows treeSize root batchRow head ha hphase true []⟩

/-- an edit without a position, whose payload imitates the reserved key -/
def imitatingEdit : ProtocolEvent (Value Decimal) := profileEvent (.object [(PAYLOAD_KEY, positionValue firstPosition)]) none

/-- the edit is committed, and comes back with a chain position it never had -/
theorem reserved_key_forges_position :
    ¬ ∀ (ops : List (Op (Value Decimal))) (i : ℕ) (a : Attempt (Value Decimal))
        (rows : List (LedgerEntryRow (Value Decimal))) (treeSize : ℕ) (root : Hash) (batchRow : LedgerBatchRow)
        (head : SignedTreeHead),
      (run profileConfig .init ops).attempts i = some a → a.phase = .persisted rows treeSize root batchRow head →
      ∀ event ∈ a.batch.events,
        ∃ view ∈ listEntries profileConfig (run profileConfig .init (ops ++ [.attempt i (.commit true)])).db,
          RoundTrips event view := by
  intro h
  have hevaluated : aboutToCommit (run profileConfig .init (untilCommit imitatingEdit)) 0 = true ∧
      ((run profileConfig .init (untilCommit imitatingEdit)).attempts 0).map
        (fun b => b.batch.events.map ProtocolEvent.identityChain) = some [none] ∧
      ∀ position ∈ (listEntries profileConfig
        (run profileConfig .init (untilCommit imitatingEdit ++ [.attempt 0 (.commit true)])).db).map
          (fun v => v.toProtocolEvent.bind ProtocolEvent.identityChain), position = some firstPosition := by
    decide +kernel
  obtain ⟨hpersisted, hcommitted, hforged⟩ := hevaluated
  obtain ⟨a, rows, treeSize, root, batchRow, head, ha, hphase⟩ := exists_persisted hpersisted
  rw [ha, Option.map_some] at hcommitted
  have hnone : none ∈ a.batch.events.map ProtocolEvent.identityChain := by
    rw [show a.batch.events.map ProtocolEvent.identityChain = [none] from Option.some.inj hcommitted]
    exact List.mem_singleton_self _
  obtain ⟨event, hevent, hposition⟩ := List.mem_map.1 hnone
  obtain ⟨view, hview, timestamp, -, hread⟩ := h _ 0 a rows treeSize root batchRow head ha hphase event hevent
  have hposition' := hforged _ (List.mem_map_of_mem hview)
  rw [hread, Option.bind_some, hposition] at hposition'
  cases hposition'

end events

end Avalon.Ledger
