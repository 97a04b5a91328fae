/-
The mirrored entries (`crates/chain/src/mirror.rs`, `envelope_row.rs`): entries of other nodes' ledgers, verified before
they are stored, in one table for all networks and shards.

The key of a row is its network, shard and seq; the source a row was fetched from is no part of it. The time column holds
whole microseconds: a bound time is cut off towards the year 2000 (`timestamptz`), while the entry hash rounds it down.

Results:
- `insertMirroredEntry_eq_ok`: what a stored entry has passed.
- `recomputedHash_eq_ok`: the entry hash is that of a message, which `entryInput` reads from the columns.
- `intact_rowOf`: a stored row hashes to its entry hash, up to a time before 2000 that is stored one microsecond late.
-/
import Mathlib.Tactic
import Mathlib.Data.FinEnum
import Avalon.Core.Bytes
import Avalon.Core.Fallible
import Avalon.Core.Sha256
import Avalon.Protocol.SigningBytes
import Avalon.Protocol.SigningBytesReader
import Avalon.Protocol.LedgerEntry
import Avalon.Protocol.Events
import Avalon.Protocol.SignedMessages
import Avalon.Chain.Merkle
import Avalon.Chain.Ledger
import Avalon.Chain.LedgerReads

namespace Avalon.Mirror

open Avalon.SigningBytes Avalon.LedgerEntry Avalon.Events Avalon.SignedMessages Avalon.Merkle Avalon.Ledger
open Fallible

/-- the columns of a mirrored entry, with its envelope as received or as stored -/
structure Mirrored (P E : Type) where
  sourceUrl : String
  networkId : String
  shardId : String
  seq : ℤ
  eventId : Uuid
  kind : String
  issuer : String
  subject : String
  payload : Option P
  payloadHash : String
  eventTimestamp : OffsetDateTime
  version : Int32
  prevHash : String
  entryHash : String
  batchId : Uuid
  verifiedTreeSize : Int64
  envelope : E

abbrev MirroredEntry (P : Type) := Mirrored P EnvelopeWire

/-- a row of the table; the reason is set once the entry will not be projected -/
structure MirroredRow (P : Type) extends Mirrored P EnvelopeRow where
  mirroredAt : OffsetDateTime
  projectionRejection : Option String

variable {P E : Type}

/-! ## Entry hashes -/

/-- what the entry hash covers -/
def Mirrored.content (entry : Mirrored P E) (envelope : Envelope) : EntryContent where
  seq := entry.seq
  eventId := entry.eventId
  kind := entry.kind
  issuer := entry.issuer
  subject := entry.subject
  payloadHash := entry.payloadHash
  timestamp := entry.eventTimestamp
  version := entry.version
  envelope := envelope

/-- the entry hash this content produces; none when a surviving payload does not hash to the payload hash, or a column is
out of range -/
def recomputedHash (codec : PayloadCodec P) (entry : MirroredEntry P) : Except SettlementError (Option String) := do
  let envelope ← (entry.envelope.toEnvelope .ledgerEntry).mapError .fromLayout
  if !payloadMatches codec entry.payload entry.payloadHash then
    return none
  return (hashEntry entry.networkId entry.shardId entry.prevHash (entry.content envelope)).toOption

/-! ## Stored rows -/

def EnvelopeRow.fromWire (wire : EnvelopeWire) : Except SettlementError EnvelopeRow := do
  if ¬ (wire.layoutVersion.toNat < 2 ^ 15 ∧ wire.rulesVersion.toNat < 2 ^ 31) then
    throw .envelopeOutOfRange
  let extensions ← (decodeLowerHex wire.extensions).mapError .fromLayout
  return ⟨wire.layoutVersion.toInt16, wire.rulesVersion.toInt32, Int16.ofNat wire.hashAlgo.toNat, extensions⟩

/-- 2000-01-01T00:00:00Z -/
def pgEpoch : OffsetDateTime := 946684800 * 1000000000

/-- the time column: whole microseconds, cut off towards 2000 -/
def timestamptz (time : OffsetDateTime) : OffsetDateTime := pgEpoch + (time - pgEpoch).tdiv 1000 * 1000

/-- the row an entry is stored as -/
def rowOf (now : OffsetDateTime) (entry : MirroredEntry P) (envelope : EnvelopeRow) : MirroredRow P where
  toMirrored := { entry with envelope := envelope, eventTimestamp := timestamptz entry.eventTimestamp }
  mirroredAt := now
  projectionRejection := none

/-- the columns, read back -/
def storedEntry (row : Mirrored P EnvelopeRow) : MirroredEntry P := { row with envelope := row.envelope.toWire }

def mirroredEntryFromRow (row : MirroredRow P) : MirroredEntry P := storedEntry row.toMirrored

/-- writes an entry; false when there is a row at its network, shard and seq, and nothing was written -/
def insertMirroredEntry (codec : PayloadCodec P) (now : OffsetDateTime) (rows : List (MirroredRow P))
    (entry : MirroredEntry P) : Except SettlementError (List (MirroredRow P) × Bool) :=
  match entry.payload with
  | none => .error (.mirroredPayloadUnverifiable entry.seq)
  | some payload =>
    if (codec.payloadHash payload).isNone then .error .invalidPayload
    else do
      let recomputed ← recomputedHash codec entry
      if recomputed = some entry.entryHash then
        let envelope ← EnvelopeRow.fromWire entry.envelope
        return if rows.any fun r => decide (r.networkId = entry.networkId ∧ r.shardId = entry.shardId ∧ r.seq = entry.seq)
          then (rows, false) else (rows ++ [rowOf now entry envelope], true)
      else throw (.mirroredContentMismatch entry.seq)

/-! ## Queries -/

/-- the rows of a shard, optionally of one source -/
def rowsOf (rows : List (MirroredRow P)) (networkId shardId : String) (sourceUrl : Option String) : List (MirroredRow P) :=
  rows.filter fun r => decide (r.networkId = networkId ∧ r.shardId = shardId ∧ ∀ url ∈ sourceUrl, r.sourceUrl = url)

/-- ORDER BY seq ASC -/
def orderBySeq (rows : List (MirroredRow P)) : List (MirroredRow P) := rows.insertionSort fun a b => a.seq ≤ b.seq

structure MirrorProgress where
  lastSeq : ℤ
  verifiedCount : ℕ

def mirroredProgress (rows : List (MirroredRow P)) (networkId shardId : String) (sourceUrl : Option String) :
    MirrorProgress :=
  let selected := rowsOf rows networkId shardId sourceUrl
  ⟨(selected.map fun r => r.seq).max?.getD 0, selected.length⟩

def mirroredEntryHashAt (rows : List (MirroredRow P)) (networkId shardId : String) (seq : ℤ) : Option String :=
  ((rowsOf rows networkId shardId none).find? fun r => decide (r.seq = seq)).map fun r => r.entryHash

/-- the first entry hashes of the shard, oldest first -/
def mirroredEntryHashesUpTo (rows : List (MirroredRow P)) (networkId shardId : String) (treeSize : ℕ)
    (sourceUrl : Option String) : List String :=
  ((orderBySeq (rowsOf rows networkId shardId sourceUrl)).take treeSize).map fun r => r.entryHash

/-- the rank of an entry among the selected rows -/
def mirroredLeafIndexForSeq (rows : List (MirroredRow P)) (networkId shardId : String) (seq : ℤ)
    (sourceUrl : Option String) : Option ℕ :=
  let selected := rowsOf rows networkId shardId sourceUrl
  (selected.find? fun r => decide (r.seq = seq)).map fun r => (selected.countP fun q => decide (q.seq ≤ r.seq)) - 1

/-! ## Messages -/

/-- the hashed columns, parsed -/
def entryInput (networkId shardId prevHash : String) (content : EntryContent) : Except EntryHashError EntryHashInput := do
  let prev ← parseHash "prev_hash" prevHash
  let payloadHash ← parseHash "payload_hash" content.payloadHash
  let seq ← seqToU64 content.seq
  let micros ← timestampMicros content.timestamp
  let version ← versionToU32 content.version
  return {
    networkId := networkId
    shardId := shardId
    seq := seq
    prevHash := prev
    eventId := content.eventId
    kind := content.kind
    issuer := content.issuer
    subject := content.subject
    payloadHash := payloadHash
    timestampMicros := micros
    eventVersion := version
    envelope := content.envelope }

/-- an entry of some log, with the bytes its hash digests -/
structure LogEntry where
  input : EntryHashInput
  message : Bytes
  signed : entrySigningBytes input = .ok message

def LogEntry.prevHash (e : LogEntry) : Hash := e.input.prevHash

def LogEntry.hash (e : LogEntry) : Hash := Sha256.hash e.message

theorem LogEntry.message_injective : Function.Injective LogEntry.message := by
  intro e e' h
  obtain ⟨input, m, hm⟩ := e
  obtain ⟨input', m', hm'⟩ := e'
  obtain rfl : m = m' := h
  obtain rfl : input = input' := SignedMessage.agrees_of_signingBytes (.ledgerEntry input) (.ledgerEntry input')
    (toOption_eq_some.2 hm) (toOption_eq_some.2 hm')
  rfl

/-- an entry hash is the digest of the columns' message -/
theorem hashEntry_eq_ok {networkId shardId prevHash text : String} {content : EntryContent}
    (h : hashEntry networkId shardId prevHash content = .ok text) :
    ∃ e : LogEntry, entryInput networkId shardId prevHash content = .ok e.input ∧
      text = hexEncode e.hash.toList ∧ prevHash = hexEncode e.prevHash.toList := by
  unfold hashEntry at h
  obtain ⟨prev, hprev, h⟩ := bind_eq_ok.1 h
  obtain ⟨digest, hdigest, h⟩ := bind_eq_ok.1 h
  obtain ⟨seq, hseq, h⟩ := bind_eq_ok.1 h
  obtain ⟨micros, hmicros, h⟩ := bind_eq_ok.1 h
  obtain ⟨version, hversion, h⟩ := bind_eq_ok.1 h
  obtain ⟨d, hd, h⟩ := bind_eq_ok.1 h
  obtain ⟨m, hm, hd⟩ := bind_eq_ok.1 hd
  cases h
  cases hd
  refine ⟨⟨_, m, hm⟩, ?_, ?_, parseHash_eq_ok_iff.1 hprev⟩
  · exact bind_eq_ok.2 ⟨_, hprev, bind_eq_ok.2 ⟨_, hdigest, bind_eq_ok.2 ⟨_, hseq, bind_eq_ok.2 ⟨_, hmicros,
      bind_eq_ok.2 ⟨_, hversion, rfl⟩⟩⟩⟩⟩
  · cases content.envelope.hashAlgo
    rfl

/-- the message of an entry, as far as its columns have one -/
def message (entry : MirroredEntry P) : Option Bytes := do
  let envelope ← (entry.envelope.toEnvelope .ledgerEntry).toOption
  let input ← (entryInput entry.networkId entry.shardId entry.prevHash (entry.content envelope)).toOption
  (entrySigningBytes input).toOption

theorem recomputedHash_eq_ok {codec : PayloadCodec P} {entry : MirroredEntry P} {text : String}
    (h : recomputedHash codec entry = .ok (some text)) :
    ∃ e : LogEntry, message entry = some e.message ∧ text = hexEncode e.hash.toList ∧
      entry.prevHash = hexEncode e.prevHash.toList := by
  unfold recomputedHash at h
  obtain ⟨envelope, henvelope, h⟩ := bind_eq_ok.1 h
  split_ifs at h with hpayload
  · cases h
  have hhash : hashEntry entry.networkId entry.shardId entry.prevHash (entry.content envelope) = .ok text :=
    toOption_eq_some.1 (Except.ok.inj h)
  obtain ⟨e, hinput, htext, hprev⟩ := hashEntry_eq_ok hhash
  refine ⟨e, ?_, htext, hprev⟩
  rw [message, mapError_eq_ok.1 henvelope]
  simp only [Except.toOption, Option.bind_eq_bind, Option.bind_some, hinput, e.signed]

/-! ## What is stored -/

/-- a hex digit that is no capital letter is a lowercase one -/
theorem isLowerHex_of_hexValue (c : UInt8) (h : (hexValue c).isSome = true)
    (hupper : (decide (0x41 ≤ c) && decide (c ≤ 0x5a)) = false) : isLowerHex c = true := by
  revert c
  decide +kernel

/-- lowercase hex is the hex of its bytes -/
theorem hexEncode_of_decodeLowerHex {text : String} {bytes : Bytes} (h : decodeLowerHex text = .ok bytes) :
    hexEncode bytes = text := by
  unfold decodeLowerHex at h
  split_ifs at h with hupper
  rw [Bool.not_eq_true, List.any_eq_false] at hupper
  split at h
  · rename_i bs hbs
    cases h
    apply hexEncode_of_hexDecode _ hbs
    rw [List.all_eq_true]
    intro c hc
    exact isLowerHex_of_hexValue c (hexValue_of_hexPairs hbs c hc) (by simpa using hupper c hc)
  · cases h

/-- envelope columns read back as the envelope that was received -/
theorem EnvelopeRow.toWire_of_fromWire {wire : EnvelopeWire} {row : EnvelopeRow} (h : EnvelopeRow.fromWire wire = .ok row) :
    row.toWire = wire := by
  unfold EnvelopeRow.fromWire at h
  rw [ite_not] at h
  split_ifs at h with hfit
  swap
  · cases h
  obtain ⟨bytes, hbytes, h⟩ := bind_eq_ok.1 h
  cases h
  have halgo : ∀ id : UInt8, (if 0 ≤ (Int16.ofNat id.toNat).toInt ∧ (Int16.ofNat id.toNat).toInt < 2 ^ 8 then
      UInt8.ofNat (Int16.ofNat id.toNat).toInt.toNat else 0) = id := by
    decide +kernel
  simp only [EnvelopeRow.toWire, toInt_toInt16 hfit.1, toInt_toInt32 hfit.2, Int.toNat_natCast, UInt16.ofNat_toNat,
    UInt32.ofNat_toNat, halgo, hexEncode_of_decodeLowerHex (mapError_eq_ok.1 hbytes)]

/-- what a stored entry has passed -/
theorem insertMirroredEntry_eq_ok {codec : PayloadCodec P} {now : OffsetDateTime} {rows rows' : List (MirroredRow P)}
    {entry : MirroredEntry P} (h : insertMirroredEntry codec now rows entry = .ok (rows', true)) :
    recomputedHash codec entry = .ok (some entry.entryHash) ∧
      ∃ envelope, EnvelopeRow.fromWire entry.envelope = .ok envelope ∧ rows' = rows ++ [rowOf now entry envelope] := by
  unfold insertMirroredEntry at h
  split at h
  · cases h
  · split at h
    · cases h
    obtain ⟨recomputed, hrecomputed, h⟩ := bind_eq_ok.1 h
    split at h
    · rename_i hhash
      obtain ⟨envelope, henvelope, h⟩ := bind_eq_ok.1 h
      rw [hhash] at hrecomputed
      refine ⟨hrecomputed, envelope, henvelope, ?_⟩
      split_ifs at h
      · cases h
      · cases h
        rfl
    · cases h

/-- the hash sees the time in whole microseconds -/
theorem recomputedHash_eventTimestamp {codec : PayloadCodec P} (entry : MirroredEntry P) {a b : OffsetDateTime}
    (h : a / 1000 = b / 1000) :
    recomputedHash codec { entry with eventTimestamp := a } = recomputedHash codec { entry with eventTimestamp := b } := by
  have hmicros : timestampMicros a = timestampMicros b := by rw [timestampMicros, timestampMicros, h]
  unfold recomputedHash hashEntry
  simp only [Mirrored.content, hmicros]

/-- from 2000 on the time column holds the microsecond that is hashed -/
theorem timestamptz_of_le {time : OffsetDateTime} (h : pgEpoch ≤ time) : timestamptz time / 1000 = time / 1000 := by
  have hdiv : (time - pgEpoch).tdiv 1000 = (time - pgEpoch) / 1000 := Int.tdiv_eq_ediv_of_nonneg (by linarith)
  unfold timestamptz
  rw [hdiv]
  unfold pgEpoch at h ⊢
  simp only [OffsetDateTime] at *
  omega

/-- before 2000 it holds that microsecond or the next -/
theorem timestamptz_of_lt {time : OffsetDateTime} (h : time < pgEpoch) :
    timestamptz time ≤ pgEpoch ∧
      (timestamptz time / 1000 = time / 1000 ∨ (timestamptz time - 1) / 1000 = time / 1000) := by
  have hdiv : (time - pgEpoch).tdiv 1000 = -((pgEpoch - time) / 1000) := by
    rw [← neg_sub, Int.neg_tdiv, Int.tdiv_eq_ediv_of_nonneg (by linarith)]
  unfold timestamptz
  rw [hdiv]
  unfold pgEpoch at h ⊢
  simp only [OffsetDateTime] at *
  omega

/-- the columns hash to the entry hash; a time before 2000 may have been stored one microsecond late -/
def Intact (codec : PayloadCodec P) (row : Mirrored P EnvelopeRow) : Prop :=
  recomputedHash codec (storedEntry row) = .ok (some row.entryHash) ∨
    row.eventTimestamp ≤ pgEpoch ∧
      recomputedHash codec { storedEntry row with eventTimestamp := row.eventTimestamp - 1 } = .ok (some row.entryHash)

/-- a row is stored intact -/
theorem intact_rowOf {codec : PayloadCodec P} {entry : MirroredEntry P} {envelope : EnvelopeRow} (now : OffsetDateTime)
    (hhash : recomputedHash codec entry = .ok (some entry.entryHash))
    (henvelope : EnvelopeRow.fromWire entry.envelope = .ok envelope) :
    Intact codec (rowOf now entry envelope).toMirrored := by
  have hstored : ∀ time, { storedEntry (rowOf now entry envelope).toMirrored with eventTimestamp := time } =
      { entry with eventTimestamp := time } := by
    intro time
    simp only [storedEntry, rowOf, EnvelopeRow.toWire_of_fromWire henvelope]
  have hkeep : ∀ time, time / 1000 = entry.eventTimestamp / 1000 →
      recomputedHash codec { storedEntry (rowOf now entry envelope).toMirrored with eventTimestamp := time } =
        .ok (some entry.entryHash) := by
    intro time htime
    rw [hstored, recomputedHash_eventTimestamp entry htime]
    exact hhash
  rcases le_or_gt pgEpoch entry.eventTimestamp with h | h
  · exact .inl (hkeep _ (timestamptz_of_le h))
  · obtain ⟨hle, hsame | hnext⟩ := timestamptz_of_lt h
    · exact .inl (hkeep _ hsame)
    · exact .inr ⟨hle, hkeep _ hnext⟩

/-- the messages a row may have been verified as -/
def rowMessages (row : Mirrored P EnvelopeRow) : List Bytes :=
  [storedEntry row, { storedEntry row with eventTimestamp := row.eventTimestamp - 1 }].filterMap message

theorem Intact.logEntry {codec : PayloadCodec P} {row : Mirrored P EnvelopeRow} (h : Intact codec row) :
    ∃ e : LogEntry, e.message ∈ rowMessages row ∧ row.entryHash = hexEncode e.hash.toList ∧
      row.prevHash = hexEncode e.prevHash.toList := by
  rcases h with h | ⟨-, h⟩
  · obtain ⟨e, hm, htext, hprev⟩ := recomputedHash_eq_ok h
    exact ⟨e, List.mem_filterMap.2 ⟨_, by simp, hm⟩, htext, hprev⟩
  · obtain ⟨e, hm, htext, hprev⟩ := recomputedHash_eq_ok h
    exact ⟨e, List.mem_filterMap.2 ⟨_, by simp, hm⟩, htext, hprev⟩

end Avalon.Mirror
