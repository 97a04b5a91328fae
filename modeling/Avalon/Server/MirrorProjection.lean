/-
Projecting mirrored entries (`crates/server/src/mirror_watcher.rs`: `store_and_project`, `project_mirrored_entry`,
`reproject_with`).

A node is its tables (the mirrored entries, and the ids the indexer has claimed), what the process holds in memory (the
scheduler of waits, the parked ids) and, as history that no code reads, the projections it attempted. What the indexer
answers, the clocks, and where the database fails are inputs. A projection runs in a transaction: when that is not
committed the tables stay as they were, but what happened in memory stays.

Results:
- `columns`: projecting changes no column of an entry but the reason of its refusal (`storeAndProject_columns`,
  `reprojectUnapplied_columns`).
-/
import Mathlib.Tactic
import Avalon.Core.Bytes
import Avalon.Core.Fallible
import Avalon.Protocol.SigningBytes
import Avalon.Protocol.LedgerEntry
import Avalon.Protocol.Events
import Avalon.Chain.Ledger
import Avalon.Chain.Mirror
import Avalon.Server.Deferral

namespace Avalon.MirrorWatcher

open Avalon.SigningBytes Avalon.LedgerEntry Avalon.Events Avalon.Ledger Avalon.Mirror Avalon.Deferral

/-! ## Errors -/

/-- why a request to a peer failed -/
inductive RequestError where
  | decode
  | status (code : ℕ)
  | transport
deriving DecidableEq, Repr

/-- what did not decode -/
inductive DecodeError where
  | rootHash
  | lastEntryVanished
  | entryHash
  | proofNodeHex
  | proofNodeLength
deriving DecidableEq, Repr

inductive MirrorWatcherError where
  | http (e : RequestError)
  | decode (e : DecodeError)
  | invalidInclusionProof (seq : ℤ) (treeSize : Int64)
  | rootHashMismatch
  | entryContentMismatch (seq : ℤ)
  | entryChainBroken (seq : ℤ)
  | entrySeqInvalid (seq : ℤ)
  | entryConflict (seq : ℤ)
  | entryPayloadPruned (seq : ℤ)
  | entryTooLarge (seq : ℤ)
  | storage (e : SettlementError)
  | needsNewerVersion (what : VersionKind) (required : UInt32)
deriving DecidableEq, Repr

/-- a failed query -/
def databaseError : MirrorWatcherError := .storage (.storage .database)

/-! ## The node -/

inductive ProjectionOutcome where
  | applied
  | skipped
  | permanent (reason : String)
  | transient (reason : String)
  | deferred (reason : String)
  | ordered (reason : String)
deriving DecidableEq

/-- later entries of the shard have to wait behind an entry that ended so -/
def ProjectionOutcome.blocks : ProjectionOutcome → Bool
  | .transient _ | .ordered _ => true
  | _ => false

structure Db (P : Type) where
  rows : List (MirroredRow P)
  /-- `indexer_applied_events`: event id and shard -/
  applied : List (Uuid × String)

/-- what the process holds; a restart loses it -/
structure Memory where
  scheduler : Scheduler
  parked : List Uuid

/-- a projection that was tried, with the outcome if its transaction was committed -/
structure Attempt where
  networkId : String
  shardId : String
  seq : ℤ
  outcome : Option ProjectionOutcome
  /-- an earlier entry of the shard was waiting -/
  behind : Bool

structure Node (P : Type) where
  db : Db P
  memory : Memory
  attempts : List Attempt

def Memory.init : Memory := ⟨.new, []⟩

def Node.init {P : Type} : Node P := ⟨⟨[], []⟩, .init, []⟩

variable {P : Type}

/-- how the last committed projection of an entry ended -/
def lastOutcome (attempts : List Attempt) (networkId shardId : String) (seq : ℤ) : Option ProjectionOutcome :=
  (attempts.filterMap fun a =>
    if a.networkId = networkId ∧ a.shardId = shardId ∧ a.seq = seq then a.outcome else none).getLast?

/-- neither applied nor refused nor given up -/
def Db.unsettled (db : Db P) (row : MirroredRow P) : Bool :=
  !db.applied.contains (row.eventId, row.shardId) && row.projectionRejection.isNone

/-- the entry's last projection ended so that later entries have to wait, and it is unsettled -/
def Node.waits (n : Node P) (row : MirroredRow P) : Bool :=
  n.db.unsettled row && (lastOutcome n.attempts row.networkId row.shardId row.seq).any ProjectionOutcome.blocks

def Node.waitsBefore (n : Node P) (networkId shardId : String) (seq : ℤ) : Bool :=
  (rowsOf n.db.rows networkId shardId none).any fun r => decide (r.seq < seq) && n.waits r

/-! ## One projection -/

def orderedExpiry : ℕ := 24 * 60 * 60

def keyWaitExpiry : ℕ := 3 * 24 * 60 * 60

def maxParked : ℕ := 1024

def parkEntry (parked : List Uuid) (eventId : Uuid) : List Uuid :=
  if parked.length < maxParked ∧ !parked.contains eventId then eventId :: parked else parked

/-- the identity embedded in an `identity:<id>:..` global id -/
def issuerIdentity (issuer : String) : Option String :=
  match issuer.toList.splitOn ':' with
  | first :: second :: _ => if first = "identity".toList then some (String.ofList second) else none
  | _ => none

/-- an applied event of this kind may be what other entries wait for -/
def changesKeys (kind : String) : Bool :=
  decide (kind = "identity.created") || "identity.signing_key_".toList.isPrefixOf kind.toList

/-- a shard id of the form `node:<key hash>` -/
def isSelfCertifying (shardId : String) : Bool :=
  (utf8 "node:").isPrefixOf (utf8 shardId) && ((utf8 shardId).drop 5).length == 64 &&
    ((utf8 shardId).drop 5).all isLowerHex

def projectsMirroredEntries (shardId : String) : Bool := !isSelfCertifying shardId

/-- whether the entry decodes into an event: any text is a global id -/
def decodes (entry : MirroredEntry P) : Bool := entry.payload.isSome && decide (0 ≤ entry.version)

def setProjectionRejection (rows : List (MirroredRow P)) (entry : MirroredEntry P) (reason : Option String) :
    List (MirroredRow P) :=
  rows.map fun r => if r.networkId = entry.networkId ∧ r.shardId = entry.shardId ∧ r.seq = entry.seq then
    { r with projectionRejection := reason } else r

/-- stored for longer than so many seconds -/
def waitedTooLong (rows : List (MirroredRow P)) (entry : MirroredEntry P) (limit : ℕ) (now : OffsetDateTime) : Bool :=
  (rows.find? fun r => decide (r.networkId = entry.networkId ∧ r.shardId = entry.shardId ∧ r.seq = entry.seq)).any
    fun r => decide (r.mirroredAt < now - limit * 1000000000)

/-- what the indexer answers -/
inductive ApplyResult where
  | ok
  | transient (reason : String)
  | deferred (ordered : Bool) (reason : String)
  | refused (reason : String)

/-- where a query of the projection fails: before anything in memory changed, or when the refusal is recorded -/
inductive Fault where
  | early
  | recording
deriving DecidableEq

structure ProjectInput where
  result : ApplyResult
  instant : Instant
  fault : Option Fault

def Entry.key (entry : MirroredEntry P) : Pair := (entry.networkId, entry.shardId)

/-- the entry is refused for good -/
def refuse (memory : Memory) (db : Db P) (entry : MirroredEntry P) (fault : Option Fault) (reason : String) :
    Memory × Except MirrorWatcherError (Db P × ProjectionOutcome) :=
  let memory := { memory with scheduler := (memory.scheduler.forget (Entry.key entry) entry.eventId).1 }
  if fault = some .recording then (memory, .error databaseError)
  else (memory, .ok ({ db with rows := setProjectionRejection db.rows entry (some reason) }, .permanent reason))

def gaveUp (reason : String) (limit : ℕ) : String := reason ++ "; gave up waiting after " ++ toString limit ++ "s"

def projectMirroredEntry (memory : Memory) (db : Db P) (entry : MirroredEntry P) (now : OffsetDateTime)
    (input : ProjectInput) : Memory × Except MirrorWatcherError (Db P × ProjectionOutcome) :=
  if !decodes entry then
    ({ memory with scheduler := (memory.scheduler.forget (Entry.key entry) entry.eventId).1 }, .ok (db, .skipped))
  else if input.fault = some .early then (memory, .error databaseError)
  else
    let key := Entry.key entry
    let identity := issuerIdentity entry.issuer
    match input.result with
    | .ok =>
      let scheduler := memory.scheduler.applied key entry.eventId (changesKeys entry.kind) identity input.instant
      ({ memory with scheduler := scheduler },
        .ok (⟨setProjectionRejection db.rows entry none, (entry.eventId, entry.shardId) :: db.applied⟩, .applied))
    | .transient reason => (memory, .ok (db, .transient reason))
    | .deferred ordered reason =>
      let limit := if ordered then orderedExpiry else keyWaitExpiry
      if waitedTooLong db.rows entry limit now then refuse memory db entry input.fault (gaveUp reason limit)
      else
        let scheduler := (memory.scheduler.note key entry.eventId ordered identity input.instant).1
        ({ memory with scheduler := scheduler }, .ok (db, if ordered then .ordered reason else .deferred reason))
    | .refused reason => refuse memory db entry input.fault reason

/-- how the commit of a transaction ends; its answer can be lost -/
inductive Commit where
  | committed
  | failed
  | lost
deriving DecidableEq

def Commit.kept : Commit → Bool
  | .failed => false
  | _ => true

def Commit.result : Commit → Except MirrorWatcherError Unit
  | .committed => .ok ()
  | _ => .error databaseError

def markProjectionFailed (memory : Memory) (key : Pair) : Memory :=
  { memory with scheduler := memory.scheduler.markFailed key }

def park (memory : Memory) (eventId : Uuid) : Memory := { memory with parked := parkEntry memory.parked eventId }

/-- the attempt as it is remembered -/
def Node.attempted (n : Node P) (entry : MirroredEntry P) (outcome : Option ProjectionOutcome) : List Attempt :=
  n.attempts ++ [⟨entry.networkId, entry.shardId, entry.seq, outcome,
    n.waitsBefore entry.networkId entry.shardId entry.seq⟩]

/-! ## Storing an entry -/

structure StoreInput where
  now : OffsetDateTime
  /-- the transaction cannot be opened, or the insert fails -/
  fails : Bool
  project : ProjectInput
  commit : Commit

/-- stores a verified entry and, unless an earlier projection of this tick is blocked, projects it in the same
transaction; also returns the flag of the tick -/
def storeAndProject (codec : PayloadCodec P) (n : Node P) (entry : MirroredEntry P) (blocked : Bool) (input : StoreInput) :
    Node P × Bool × Except MirrorWatcherError Unit :=
  if input.fails then (n, blocked, .error databaseError)
  else
    match insertMirroredEntry codec input.now n.db.rows entry with
    | .error e => (n, blocked, .error (.storage e))
    | .ok (_, false) => (n, blocked, .error (.entryConflict entry.seq))
    | .ok (rows, true) =>
      let stored : Db P := { n.db with rows := rows }
      if !projectsMirroredEntries entry.shardId then
        ({ n with db := if input.commit.kept then stored else n.db }, blocked, input.commit.result)
      else if blocked then
        (⟨if input.commit.kept then stored else n.db, markProjectionFailed n.memory (Entry.key entry), n.attempts⟩, blocked,
          input.commit.result)
      else
        match projectMirroredEntry n.memory stored entry input.now input.project with
        | (memory, .error e) => ({ n with memory := memory, attempts := n.attempted entry none }, blocked, .error e)
        | (memory, .ok (db, outcome)) =>
          let memory :=
            match outcome with
            | .permanent _ => markProjectionFailed (park memory entry.eventId) (Entry.key entry)
            | .transient _ => markProjectionFailed memory (Entry.key entry)
            | _ => memory
          (⟨if input.commit.kept then db else n.db, memory,
            n.attempted entry (if input.commit.kept then some outcome else none)⟩, outcome.blocks, input.commit.result)

/-! ## The ordered pass over unapplied entries -/

def reprojectBatch : ℕ := 500

structure ReprojectReport where
  projected : ℕ
  parked : ℕ
  blocked : Bool
  deferred : ℕ

structure VisitInput where
  heldAt : Instant
  now : OffsetDateTime
  /-- the query of the stored age fails, or the refusal cannot be recorded -/
  fails : Bool
  project : ProjectInput
  commit : Commit

structure PassInput where
  dueAt : Instant
  scannedFrom : Instant
  /-- the query of the batch after a cursor fails -/
  fetchFails : ℤ → Bool
  /-- the pass visits a seq at most once -/
  visit : ℤ → VisitInput

structure Pass (P : Type) where
  node : Node P
  report : ReprojectReport
  waitingSeen : ℕ
  tracked : List Uuid

/-- how one row, or one batch, left the pass -/
inductive PassStep where
  | next
  | leave
  | blocked
  | failed (e : MirrorWatcherError)

/-- the row waits, as one that holds nobody back -/
def Pass.track (p : Pass P) (eventId : Uuid) : Pass P × PassStep :=
  ({ p with waitingSeen := p.waitingSeen + 1, tracked := eventId :: p.tracked },
    if maxDeferredPerShard ≤ p.waitingSeen + 1 then .leave else .next)

/-- projects a row in a transaction of its own -/
def reprojectRow (n : Node P) (entry : MirroredEntry P) (input : VisitInput) :
    Node P × Except MirrorWatcherError ProjectionOutcome :=
  match projectMirroredEntry n.memory n.db entry input.now input.project with
  | (memory, .error e) => ({ n with memory := memory, attempts := n.attempted entry none }, .error e)
  | (memory, .ok (db, outcome)) =>
    (⟨if input.commit.kept then db else n.db, memory,
      n.attempted entry (if input.commit.kept then some outcome else none)⟩,
      input.commit.result.map fun _ => outcome)

def visitRow (key : Pair) (input : VisitInput) (p : Pass P) (row : MirroredRow P) : Pass P × PassStep :=
  let entry := mirroredEntryFromRow row
  if p.node.memory.parked.contains row.eventId then (p, .next)
  else
    match p.node.memory.scheduler.holding key row.eventId input.heldAt with
    | some true =>
      if input.fails then (p, .failed databaseError)
      else if waitedTooLong p.node.db.rows entry orderedExpiry input.now then
        let memory := { p.node.memory with scheduler := (p.node.memory.scheduler.forget key row.eventId).1 }
        let rows := setProjectionRejection p.node.db.rows entry
          (some (gaveUp "its parent identity never arrived" orderedExpiry))
        ({ p with
          node := { p.node with db := { p.node.db with rows := rows }, memory := memory }
          report := { p.report with parked := p.report.parked + 1 } }, .next)
      else ({ p with report := { p.report with blocked := true } }, .blocked)
    | some false => p.track row.eventId
    | none =>
      match reprojectRow p.node entry input with
      | (n, .error e) => ({ p with node := { n with memory := markProjectionFailed n.memory key } }, .failed e)
      | (n, .ok outcome) =>
        match outcome with
        | .applied => ({ p with node := n, report := { p.report with projected := p.report.projected + 1 } }, .next)
        | .skipped => ({ p with node := n }, .next)
        | .permanent _ =>
          ({ p with
            node := { n with memory := markProjectionFailed (park n.memory row.eventId) key }
            report := { p.report with parked := p.report.parked + 1 } }, .next)
        | .transient _ =>
          ({ p with
            node := { n with memory := markProjectionFailed n.memory key }
            report := { p.report with blocked := true } }, .blocked)
        | .ordered _ => ({ p with node := n, report := { p.report with blocked := true } }, .blocked)
        | .deferred _ =>
          { p with node := n, report := { p.report with deferred := p.report.deferred + 1 } }.track row.eventId

def scanRows (key : Pair) (input : PassInput) (p : Pass P) : List (MirroredRow P) → Pass P × PassStep
  | [] => (p, .next)
  | row :: rest =>
    match visitRow key (input.visit row.seq) p row with
    | (p, .next) => scanRows key input p rest
    | left => left

/-- the next unapplied entries after a cursor, oldest first -/
def fetchUnapplied (db : Db P) (key : Pair) (cursor : ℤ) : List (MirroredRow P) :=
  (orderBySeq ((rowsOf db.rows key.1 key.2 none).filter fun r =>
    decide (cursor < r.seq) && r.payload.isSome && db.unsettled r)).take reprojectBatch

/-- one batch after the other; a pass has no more batches than the table has rows -/
def scanBatches (key : Pair) (input : PassInput) : ℕ → Pass P → ℤ → Pass P × PassStep
  | 0, p, _ => (p, .next)
  | fuel + 1, p, cursor =>
    if input.fetchFails cursor then (p, .failed databaseError)
    else
      let rows := fetchUnapplied p.node.db key cursor
      match scanRows key input p rows with
      | (p, .next) =>
        if rows.length < reprojectBatch then (p, .next)
        else scanBatches key input fuel p ((rows.map fun r => r.seq).getLastD cursor)
      | left => left

/-- re-drives the projection of stored entries that the indexer never claimed -/
def reprojectUnapplied (n : Node P) (key : Pair) (input : PassInput) :
    Node P × Except MirrorWatcherError ReprojectReport :=
  if !projectsMirroredEntries key.2 || !n.memory.scheduler.scanDue key input.dueAt then (n, .ok ⟨0, 0, false, 0⟩)
  else
    match scanBatches key input (n.db.rows.length + 1) ⟨n, ⟨0, 0, false, 0⟩, 0, []⟩ 0 with
    | (p, .failed e) => (p.node, .error e)
    | (p, .blocked) => (p.node, .ok p.report)
    | (p, .leave) =>
      ({ p.node with memory := { p.node.memory with scheduler := p.node.memory.scheduler.markClean key } }, .ok p.report)
    | (p, .next) =>
      let scheduler := (p.node.memory.scheduler.pruneUnseen key p.tracked input.scannedFrom).markClean key
      ({ p.node with memory := { p.node.memory with scheduler := scheduler } }, .ok p.report)

/-! ## Projecting changes no entry -/

/-- the stored columns, without the reason of a refusal -/
def columns (rows : List (MirroredRow P)) : List (Mirrored P EnvelopeRow) := rows.map MirroredRow.toMirrored

@[simp] theorem columns_setProjectionRejection (rows : List (MirroredRow P)) (entry : MirroredEntry P)
    (reason : Option String) : columns (setProjectionRejection rows entry reason) = columns rows := by
  unfold columns setProjectionRejection
  rw [List.map_map]
  apply List.map_congr_left
  intro r _
  dsimp only [Function.comp_apply]
  split_ifs <;> rfl

theorem refuse_columns {memory memory' : Memory} {db db' : Db P} {entry : MirroredEntry P} {fault : Option Fault}
    {reason : String} {outcome : ProjectionOutcome}
    (h : refuse memory db entry fault reason = (memory', .ok (db', outcome))) : columns db'.rows = columns db.rows := by
  unfold refuse at h
  dsimp only at h
  split_ifs at h
  · cases (Prod.mk.inj h).2
  · obtain ⟨-, h⟩ := Prod.mk.inj h
    cases h
    simp

theorem projectMirroredEntry_columns {memory memory' : Memory} {db db' : Db P} {entry : MirroredEntry P}
    {now : OffsetDateTime} {input : ProjectInput} {outcome : ProjectionOutcome}
    (h : projectMirroredEntry memory db entry now input = (memory', .ok (db', outcome))) :
    columns db'.rows = columns db.rows := by
  unfold projectMirroredEntry at h
  split_ifs at h
  · cases h
    rfl
  · cases (Prod.mk.inj h).2
  dsimp only at h
  split at h
  · cases h
    simp
  · cases h
    rfl
  · split_ifs at h
    all_goals first | exact refuse_columns h | (cases h; rfl)
  · exact refuse_columns h

/-- **What storing does to the table**: nothing, or one verified entry more; on success the latter -/
theorem storeAndProject_columns {codec : PayloadCodec P} {n n' : Node P} {entry : MirroredEntry P} {blocked blocked' : Bool}
    {input : StoreInput} {result : Except MirrorWatcherError Unit}
    (h : storeAndProject codec n entry blocked input = (n', blocked', result)) :
    (columns n'.db.rows = columns n.db.rows ∧ result ≠ .ok ()) ∨
      recomputedHash codec entry = .ok (some entry.entryHash) ∧
        ∃ envelope, EnvelopeRow.fromWire entry.envelope = .ok envelope ∧
          columns n'.db.rows = columns n.db.rows ++ [(rowOf input.now entry envelope).toMirrored] := by
  unfold storeAndProject at h
  split at h
  · cases h
    exact .inl ⟨rfl, by simp⟩
  split at h
  · cases h
    exact .inl ⟨rfl, by simp⟩
  · cases h
    exact .inl ⟨rfl, by simp⟩
  · rename_i rows hinsert
    obtain ⟨hhash, envelope, henvelope, rfl⟩ := insertMirroredEntry_eq_ok hinsert
    -- the transaction is kept or not
    have key : ∀ db : Db P, columns db.rows = columns (n.db.rows ++ [rowOf input.now entry envelope]) →
        (columns (if input.commit.kept then db else n.db).rows = columns n.db.rows ∧ input.commit.result ≠ .ok ()) ∨
          recomputedHash codec entry = .ok (some entry.entryHash) ∧
            ∃ envelope, EnvelopeRow.fromWire entry.envelope = .ok envelope ∧
              columns (if input.commit.kept then db else n.db).rows =
                columns n.db.rows ++ [(rowOf input.now entry envelope).toMirrored] := by
      intro db hdb
      cases hcommit : input.commit with
      | failed => exact .inl ⟨rfl, by simp [Commit.result]⟩
      | committed => exact .inr ⟨hhash, envelope, henvelope, by simpa [Commit.kept, columns] using hdb⟩
      | lost => exact .inr ⟨hhash, envelope, henvelope, by simpa [Commit.kept, columns] using hdb⟩
    dsimp only at h
    split at h
    · cases h
      exact key _ rfl
    split at h
    · cases h
      exact key _ rfl
    · split at h
      · cases h
        exact .inl ⟨rfl, by simp⟩
      · rename_i memory db outcome hproject
        cases h
        exact key db (projectMirroredEntry_columns hproject)

theorem reprojectRow_columns (n : Node P) (entry : MirroredEntry P) (input : VisitInput) :
    columns (reprojectRow n entry input).1.db.rows = columns n.db.rows := by
  unfold reprojectRow
  split
  · rfl
  · rename_i memory db outcome hproject
    cases input.commit with
    | failed => rfl
    | committed => exact projectMirroredEntry_columns hproject
    | lost => exact projectMirroredEntry_columns hproject

theorem visitRow_columns (key : Pair) (input : VisitInput) (p : Pass P) (row : MirroredRow P) :
    columns (visitRow key input p row).1.node.db.rows = columns p.node.db.rows := by
  unfold visitRow
  dsimp only
  split
  · rfl
  split
  · split_ifs <;> simp
  · rfl
  · have hrow := reprojectRow_columns p.node (mirroredEntryFromRow row) input
    split
    · rename_i n e hproject
      rw [hproject] at hrow
      exact hrow
    · rename_i n outcome hproject
      rw [hproject] at hrow
      split <;> exact hrow

theorem scanRows_columns (key : Pair) (input : PassInput) (p : Pass P) (rows : List (MirroredRow P)) :
    columns (scanRows key input p rows).1.node.db.rows = columns p.node.db.rows := by
  induction rows generalizing p with
  | nil => rfl
  | cons row rest ih =>
    have hrow := visitRow_columns key (input.visit row.seq) p row
    rw [scanRows]
    split
    · rename_i p' hvisit
      rw [hvisit] at hrow
      exact (ih p').trans hrow
    · exact hrow

theorem scanBatches_columns (key : Pair) (input : PassInput) (fuel : ℕ) (p : Pass P) (cursor : ℤ) :
    columns (scanBatches key input fuel p cursor).1.node.db.rows = columns p.node.db.rows := by
  induction fuel generalizing p cursor with
  | zero => rfl
  | succ fuel ih =>
    rw [scanBatches]
    split
    · rfl
    dsimp only
    have hrows := scanRows_columns key input p (fetchUnapplied p.node.db key cursor)
    split
    · rename_i p' hscan
      rw [hscan] at hrows
      split_ifs
      · exact hrows
      · exact (ih p' _).trans hrows
    · exact hrows

theorem reprojectUnapplied_columns (n : Node P) (key : Pair) (input : PassInput) :
    columns (reprojectUnapplied n key input).1.db.rows = columns n.db.rows := by
  unfold reprojectUnapplied
  split
  · rfl
  have hscan := scanBatches_columns key input (n.db.rows.length + 1) ⟨n, ⟨0, 0, false, 0⟩, 0, []⟩ 0
  split <;> simp_all

end Avalon.MirrorWatcher
