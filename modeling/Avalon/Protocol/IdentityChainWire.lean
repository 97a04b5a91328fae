/-
Protocol events and identity chains (`crates/protocol/src/identity_chain_wire.rs`, and the clock check of
`identity_chain.rs`): which identity's chain an event belongs to, how its position travels inside a ledger payload, its
chain hash, and the rule's input made from it.

Payloads are JSON. A record is read from a JSON object (unknown keys are skipped, a missing optional field is absent) or
from an array of its fields in order.

- `split_embed`: a position embedded in a payload is split out again, when the payload is an object without the reserved
  key.
- `split_embed_iff`: that is exactly when it is.
-/
import Mathlib.Tactic
import Avalon.Core.Bytes
import Avalon.Core.Base64
import Avalon.Core.Sha256
import Avalon.Core.SortedMap
import Avalon.Core.Json
import Avalon.Protocol.CanonicalPayload
import Avalon.Protocol.SigningBytes
import Avalon.Protocol.SigningBytesReader
import Avalon.Protocol.LedgerEntry
import Avalon.Protocol.Events
import Avalon.Protocol.IdentityId
import Avalon.Protocol.IdentityChain
import Avalon.Protocol.ChainHash

namespace Avalon.IdentityChain

open Json Avalon.SigningBytes Avalon.LedgerEntry Avalon.Events Avalon.Identity Avalon.CanonicalPayload

variable {F : Type}

/-! ## Reading records -/

/-- the fields of a record: by key from an object, in order from an array -/
def recordFields (names : List String) : Value F → Option (List (Option (Value F)))
  | .object entries => some (names.map (SortedMap.find entries))
  | .array items => if items.length = names.length then some (items.map some) else none
  | _ => none

/-- an unsigned integer of that many bits -/
def readUnsigned (bits : ℕ) : Option (Value F) → Option ℕ
  | some (.number (.posInt n)) => if n.toNat < 2 ^ bits then some n.toNat else none
  | _ => none

def readString : Option (Value F) → Option String
  | some (.string s) => some s
  | _ => none

/-- null and a missing field are none -/
def readOptional {α : Type} (read : Option (Value F) → Option α) : Option (Value F) → Option (Option α)
  | none => some none
  | some .null => some none
  | v => (read v).map some

/-! ## Positions in payloads -/

/-- the reserved key a chain position travels under -/
def PAYLOAD_KEY : String := "_identity_chain"

def unsigned (n : ℕ) : Value F := .number (.posInt (UInt64.ofNat n))

/-- the position as JSON, keys in order -/
def positionValue (p : IdentityChainPosition) : Value F :=
  .object [("extensions", .string p.extensions), ("hash_algo", unsigned p.hashAlgo.toNat),
    ("layout_version", unsigned p.layoutVersion.toNat),
    ("prev_hash", match p.prevHash with | some h => .string h | none => .null),
    ("rules_version", unsigned p.rulesVersion.toNat), ("seq", unsigned p.seq.toNat)]

def positionFromValue (v : Value F) : Option IdentityChainPosition :=
  match recordFields ["seq", "prev_hash", "layout_version", "rules_version", "hash_algo", "extensions"] v with
  | some [seq, prevHash, layoutVersion, rulesVersion, hashAlgo, extensions] => do
    let seq ← readUnsigned 64 seq
    let prevHash ← readOptional readString prevHash
    let layoutVersion ← readUnsigned 16 layoutVersion
    let rulesVersion ← readUnsigned 32 rulesVersion
    let hashAlgo ← readUnsigned 8 hashAlgo
    let extensions ← readString extensions
    return ⟨UInt64.ofNat seq, prevHash, UInt16.ofNat layoutVersion, UInt32.ofNat rulesVersion, UInt8.ofNat hashAlgo,
      extensions⟩
  | _ => none

/-- the payload with the position under the reserved key; a payload that is no object is returned unchanged -/
def embedPosition (payload : Value F) (position : IdentityChainPosition) : Value F :=
  match payload with
  | .object map => .object (SortedMap.insert PAYLOAD_KEY (positionValue position) map)
  | payload => payload

/-- splits an embedded position back out -/
def splitPosition (payload : Value F) : Value F × Option IdentityChainPosition :=
  match payload with
  | .object map => (.object (SortedMap.erase PAYLOAD_KEY map), (SortedMap.find map PAYLOAD_KEY).bind positionFromValue)
  | payload => (payload, none)

/-- the reserved key is free: the payload is no object, or an object without it -/
def ReservedKeyFree : Value F → Prop
  | .object map => PAYLOAD_KEY ∉ map.map Prod.fst
  | _ => True

def IsObject : Value F → Prop
  | .object _ => True
  | _ => False

theorem positionFromValue_positionValue (p : IdentityChainPosition) :
    positionFromValue (positionValue (F := F) p) = some p := by
  have hu : ∀ (bits n : ℕ), n < 2 ^ bits → bits ≤ 64 → readUnsigned bits (some (unsigned (F := F) n)) = some n := by
    intro bits n hn hbits
    have hlt : n < 2 ^ 64 := hn.trans_le (Nat.pow_le_pow_right (by decide) hbits)
    have hnat : (UInt64.ofNat n).toNat = n := by
      rw [UInt64.toNat_ofNat']
      exact Nat.mod_eq_of_lt hlt
    rw [unsigned, readUnsigned, hnat, if_pos hn]
  have hprev : readOptional readString (some (match p.prevHash with | some h => Value.string (F := F) h | none => .null)) =
      some p.prevHash := by
    cases p.prevHash <;> rfl
  have hfields : recordFields ["seq", "prev_hash", "layout_version", "rules_version", "hash_algo", "extensions"]
      (positionValue (F := F) p) = some [some (unsigned p.seq.toNat),
        some (match p.prevHash with | some h => .string h | none => .null), some (unsigned p.layoutVersion.toNat),
        some (unsigned p.rulesVersion.toNat), some (unsigned p.hashAlgo.toNat), some (.string p.extensions)] := by
    simp [recordFields, positionValue, SortedMap.find]
  rw [positionFromValue, hfields]
  dsimp only
  rw [hu 64 _ p.seq.toNat_lt (by decide), hprev, hu 16 _ p.layoutVersion.toNat_lt (by decide),
    hu 32 _ p.rulesVersion.toNat_lt (by decide), hu 8 _ p.hashAlgo.toNat_lt (by decide)]
  simp [readString]

/-- a position embedded in an object that leaves the reserved key free is split out again -/
theorem split_embed {payload : Value F} (position : IdentityChainPosition) (hkey : ReservedKeyFree payload)
    (hobj : IsObject payload) : splitPosition (embedPosition payload position) = (payload, some position) := by
  cases payload with
  | object map =>
    rw [embedPosition, splitPosition, SortedMap.erase_insert _ hkey, SortedMap.find_insert_self, Option.bind_some,
      positionFromValue_positionValue]
  | _ => exact absurd hobj id

/-- the payload as stored: with the position, when there is one, embedded -/
def embedOptional (payload : Value F) : Option IdentityChainPosition → Value F
  | some position => embedPosition payload position
  | none => payload

/-- **What splitting gives back.** Payload and position come back exactly when the reserved key was free, and the payload
was an object if there was a position. -/
theorem split_embed_iff (payload : Value F) (position : Option IdentityChainPosition) :
    splitPosition (embedOptional payload position) = (payload, position) ↔
      ReservedKeyFree payload ∧ (position.isSome → IsObject payload) := by
  constructor
  · intro h
    cases payload with
    | object map =>
      refine ⟨?_, fun _ => trivial⟩
      -- what is split out of an object never has the reserved key
      have hsplit : ∀ m : List (String × Value F), (splitPosition (.object m)).1 = .object (SortedMap.erase PAYLOAD_KEY m) :=
        fun _ => rfl
      have herase : ∃ m, map = SortedMap.erase PAYLOAD_KEY m := by
        have h1 := congrArg Prod.fst h
        cases position with
        | some p =>
          rw [embedOptional, embedPosition, hsplit] at h1
          exact ⟨_, (Value.object.inj h1).symm⟩
        | none =>
          rw [embedOptional, hsplit] at h1
          exact ⟨_, (Value.object.inj h1).symm⟩
      obtain ⟨m, rfl⟩ := herase
      exact SortedMap.notMem_erase m PAYLOAD_KEY
    | _ =>
      refine ⟨trivial, ?_⟩
      cases position with
      | some p => cases congrArg Prod.snd h
      | none => exact fun hp => absurd hp Bool.false_ne_true
  · rintro ⟨hkey, hobj⟩
    cases position with
    | some p => exact split_embed p hkey (hobj rfl)
    | none =>
      cases payload with
      | object map =>
        have hnone : SortedMap.find map PAYLOAD_KEY = none := SortedMap.find_eq_none_iff.2 hkey
        rw [embedOptional, splitPosition, SortedMap.erase_of_notMem hkey, hnone]
        rfl
      | _ => rfl

/-! ## The clock of the receiving node -/

/-- how far a claimed timestamp may be off, in nanoseconds -/
structure ClockSkewBounds where
  maxFutureSkew : ℤ
  maxPastSkew : Option ℤ

/-- five minutes ahead, any time behind -/
def ClockSkewBounds.default : ClockSkewBounds := ⟨5 * 60 * 1000000000, none⟩

inductive TimestampError where
  | tooFarInFuture
  | tooFarInPast
deriving DecidableEq, Repr

/-- the claimed timestamp unchanged, or why it is refused -/
def clampTimestamp (claimed nodeNow : OffsetDateTime) (bounds : ClockSkewBounds) :
    Except TimestampError OffsetDateTime :=
  if claimed > nodeNow ∧ claimed - nodeNow > bounds.maxFutureSkew then .error .tooFarInFuture
  else
    match bounds.maxPastSkew with
    | some maxPast => if nodeNow > claimed ∧ nodeNow - claimed > maxPast then .error .tooFarInPast else .ok claimed
    | none => .ok claimed

/-! ## Owner and authority -/

inductive ChainEventError where
  | notChained
  | payload (e : CanonicalPayloadError)
  | timestamp (e : TimestampError)
  | malformedPrevHash
  | outOfRange
  | layout (e : SigningBytesError)
  | keyEvent
deriving DecidableEq, Repr

/-- the second of the parts between colons, when the first is "identity" -/
def identityPart (globalId : String) : Option String :=
  match globalId.toList.splitOn ':' with
  | first :: second :: _ => if first = "identity".toList then some (String.ofList second) else none
  | _ => none

/-- the identity whose chain an event belongs to -/
def chainOwner (event : ProtocolEvent (Value F)) : Option IdentityId := do
  let _ ← ActionClass.classify (.fromStr event.kind)
  let id := if event.kind = "identity.recovery_approved" ∨ event.kind = "identity.recovery_cancelled" then event.subject
    else event.issuer
  let part ← identityPart id
  (IdentityId.parse part).toOption

def authorityOf (kind : String) : EventAuthority :=
  if kind = "identity.signing_key_added" ∨ kind = "identity.signing_key_revoked" then .ownerSigned
  else .authenticatedSession

/-- whole microseconds, where that is in range -/
def truncateToMicros (ts : OffsetDateTime) : OffsetDateTime :=
  match floorToMicros ts with
  | .ok t => t
  | .error _ => ts

/-- 32 bytes of hex of either case -/
def parseEventHash (hex : String) : Option EventHash := (hexDecode hex).bind (FixedBytes.ofList? 32)

/-! ## Key events -/

/-- a UUID of 32 hex digits, or with hyphens, in braces or as a URN -/
def parseUuid (text : String) : Option Uuid :=
  let simple (bs : Bytes) : Option Uuid := (hexPairs bs).bind (FixedBytes.ofList? 16)
  let hyphenated (bs : Bytes) : Option Uuid :=
    if bs.length = 36 ∧ bs[8]? = some 0x2d ∧ bs[13]? = some 0x2d ∧ bs[18]? = some 0x2d ∧ bs[23]? = some 0x2d then
      simple (bs.take 8 ++ (bs.drop 9).take 4 ++ (bs.drop 14).take 4 ++ (bs.drop 19).take 4 ++ bs.drop 24)
    else none
  let bs := utf8 text
  if bs.length = 32 then simple bs
  else if bs.length = 36 then hyphenated bs
  else if bs.length = 38 ∧ bs.head? = some 0x7b ∧ bs.getLast? = some 0x7d then hyphenated (bs.drop 1).dropLast
  else if bs.length = 45 ∧ bs.take 9 = utf8 "urn:uuid:" then hyphenated (bs.drop 9)
  else none

def readUuid (v : Option (Value F)) : Option Uuid := (readString v).bind parseUuid

def readIdentityId (v : Option (Value F)) : Option IdentityId := (readString v).bind fun s => (IdentityId.parse s).toOption

/-- a base64 field of exactly n bytes -/
def rawBytes (n : ℕ) (b64 : String) : Option (FixedBytes n) := (Base64.decode b64).bind (FixedBytes.ofList? n)

def SIGNING_KEY_KIND_DEVICE_GRANT : String := "device_grant"

/-- the signed content of a device grant's payload -/
def deviceGrantContent (payload : Value F) (owner : IdentityId) : Option KeyEventContent :=
  match recordFields ["signing_key_id", "public_key", "device_label", "approved_by_signing_key_id", "identity_id", "kind",
      "grant_id", "approval_signature"] payload with
  | some [signingKeyId, publicKey, deviceLabel, approvedBy, identityId, kind, grantId, approvalSignature] => do
    let signingKeyId ← readUuid signingKeyId
    let publicKey ← readString publicKey
    let _ ← readOptional readString deviceLabel
    let approvedBy ← readUuid approvedBy
    let identityId ← readIdentityId identityId
    let kind ← readString kind
    let grantId ← (readOptional readUuid grantId).join
    let signature ← (readOptional readString approvalSignature).join
    if identityId ≠ owner ∨ kind ≠ SIGNING_KEY_KIND_DEVICE_GRANT then none
    else return .deviceGrant signingKeyId (← rawBytes 32 publicKey) approvedBy grantId (← rawBytes 64 signature)
  | _ => none

/-- the signed content of a revocation's payload -/
def revocationContent (payload : Value F) (owner : IdentityId) : Option KeyEventContent :=
  match recordFields ["identity_id", "signing_key_id", "revoked_by_signing_key_id", "signature"] payload with
  | some [identityId, signingKeyId, revokedBy, signature] => do
    let identityId ← readIdentityId identityId
    let signingKeyId ← readUuid signingKeyId
    let revokedBy ← readUuid revokedBy
    let signature ← readString signature
    if identityId ≠ owner then none
    else return .revocation signingKeyId revokedBy (← rawBytes 64 signature)
  | _ => none

/-- the signed content of an owner-signed key event; none for any other kind -/
def keyEventContent (event : ProtocolEvent (Value F)) (owner : IdentityId) :
    Except ChainEventError (Option KeyEventContent) :=
  let wellFormed (content : Option KeyEventContent) : Except ChainEventError (Option KeyEventContent) :=
    match content with
    | some c => .ok (some c)
    | none => .error .keyEvent
  if event.kind = "identity.signing_key_added" then wellFormed (deviceGrantContent event.payload owner)
  else if event.kind = "identity.signing_key_revoked" then wellFormed (revocationContent event.payload owner)
  else .ok none

/-! ## The chain hash -/

/-- SHA-256 of the canonical payload -/
def payloadHash [F64 F] (payload : Value F) : Except CanonicalPayloadError (FixedBytes 32) := do
  let text ← canonicalize payload
  return Sha256.hash (utf8 text)

/-- what the ledger does with JSON payloads -/
def jsonCodec (F : Type) [F64 F] : PayloadCodec (Value F) := ⟨embedPosition, fun payload => (payloadHash payload).toOption⟩

/-- the envelope a position records -/
def positionEnvelope (position : IdentityChainPosition) : Except SigningBytesError Envelope :=
  EnvelopeWire.toEnvelope ⟨position.layoutVersion, position.rulesVersion, position.hashAlgo, position.extensions⟩
    .identityChainEvent

/-- the predecessor a position names -/
def positionPrev (position : IdentityChainPosition) : Except ChainEventError (Option EventHash) :=
  match position.prevHash with
  | some h =>
    match parseEventHash h with
    | some hash => .ok (some hash)
    | none => .error .malformedPrevHash
  | none => .ok none

/-- the chain hash: of what its signature covers for a key event, else of id, time and canonical payload as well -/
def eventHash [F64 F] (event : ProtocolEvent (Value F)) : Except ChainEventError EventHash := do
  let some position := event.identityChain | throw .notChained
  let some owner := chainOwner event | throw .notChained
  let prev ← positionPrev position
  let envelope ← (positionEnvelope position).mapError .layout
  match ← keyEventContent event owner with
  | some content => (computeKeyEventHash ⟨owner, position.seq, prev, content⟩).mapError .layout
  | none =>
    let payload ← (payloadHash event.payload).mapError .payload
    let micros ← (timestampMicros event.timestamp).mapError fun _ => .outOfRange
    (computeEventHash {
      identityId := owner
      seq := position.seq
      prevHash := prev
      eventId := event.id
      kind := event.kind
      issuer := event.issuer
      subject := event.subject
      eventVersion := event.version
      timestampMicros := micros
      payloadHash := payload
      envelope := envelope }).mapError .layout

/-- the rule's input, with the timestamp checked against the node's clock -/
def toChainedEvent [F64 F] (event : ProtocolEvent (Value F)) (nodeNow : OffsetDateTime) (bounds : ClockSkewBounds) :
    Except ChainEventError ChainedEvent := do
  let some actionClass := ActionClass.classify (.fromStr event.kind) | throw .notChained
  let some position := event.identityChain | throw .notChained
  let prevHash ← positionPrev position
  let timestamp ← (clampTimestamp (truncateToMicros event.timestamp) nodeNow bounds).mapError .timestamp
  let hash ← eventHash event
  return {
    seq := position.seq.toNat
    prevHash := prevHash
    eventHash := hash
    timestamp := timestamp
    actionClass := actionClass
    authority := authorityOf event.kind }

end Avalon.IdentityChain
