/-
Signing keys of identities (`crates/indexer/src/identity_proof.rs`; `crates/indexer/src/projections/identity_signing_keys.rs`;
migrations 0066, 0083 and 0084).

An `identity.created` event proves itself by the key that its id is derived from; a key is added by a grant that an active key of
the identity signed, and revoked by a signature of one. Both signatures cover the network and the place in the identity's chain. A
signer that is not projected yet makes the event wait, a revoked one refuses it.

A row of `indexer_identity_signing_keys` is unique by identity and key id, and by identity and public key. A revocation is also
kept by itself, for a key that comes later. Which bytes are keys of the curve, and `fmt::Debug` of a text, are parameters. A
message that does not fit its length fields is signed by nobody (the source panics there).

Results:
- `granted_of_verifyKeyAdded`: a verified addition is a grant that an active key signed, or names the inception key's row.
- `Extends`: what a write leaves of the keys; `extends_insert`, `extends_setLabel`, `extends_revoke`.
-/
import Mathlib.Tactic
import Avalon.Core.Base64
import Avalon.Core.Bytes
import Avalon.Core.Fallible
import Avalon.Core.Json
import Avalon.Core.UniqueTable
import Avalon.Protocol.SigningBytes
import Avalon.Protocol.Events
import Avalon.Protocol.IdentityId
import Avalon.Protocol.DisplayName
import Avalon.Protocol.Shard
import Avalon.Protocol.DomainProof
import Avalon.Protocol.IdentityChain
import Avalon.Protocol.IdentityChainWire
import Avalon.Chain.Mirror
import Avalon.Server.SignatureGate
import Avalon.Indexer.ChainStore

namespace Avalon.IdentityKeys

open Json UniqueTable Fallible Avalon.SigningBytes Avalon.LedgerEntry Avalon.Events Avalon.Identity Avalon.IdentityChain Avalon.Mirror
open Avalon.ChainStore (Event)
open Avalon.SignatureGate (uuidText)
open DomainProof (CurveKeys parseShardPublicKey)
open Shard (coreShardId)

variable {F : Type}

/-! ## Origins and errors -/

/-- the stream an event was read from, and whether this node authored it -/
structure EventOrigin where
  networkId : String
  shardId : String
  isLocal : Bool
deriving DecidableEq

/-- whether events that carry no proof are taken from there -/
def EventOrigin.isAuthoritative (origin : EventOrigin) (localNetwork : Option String) : Bool :=
  origin.isLocal || (origin.shardId == coreShardId && localNetwork == some origin.networkId)

inductive IndexError where
  | storage
  | displayNameTaken
  | rejected (reason : String)
  | deferred
  | awaitingKey (reason : String)
  | displayNameNotPermitted
deriving DecidableEq

def IndexError.isDeferred : IndexError → Bool
  | .deferred | .awaitingKey _ => true
  | _ => false

structure Config where
  ed : Ed25519
  curve : CurveKeys
  debug : String → String

/-! ## Tables -/

/-- a row of `identities`, whose id is derived from the key as a constraint demands -/
structure IdentityRow where
  id : IdentityId
  createdAt : OffsetDateTime
  inceptionPublicKey : FixedBytes 32
  certified : deriveIdentityId inceptionPublicKey = id

def IdentityRow.Clash (a b : IdentityRow) : Prop := a.id = b.id

instance : DecidableRel IdentityRow.Clash := fun a b => inferInstanceAs (Decidable (a.id = b.id))

structure KeyRow where
  signingKeyId : Uuid
  identityId : IdentityId
  publicKey : Bytes
  label : Option String
  addedAt : OffsetDateTime
  revokedAt : Option OffsetDateTime

def KeyRow.Clash (a b : KeyRow) : Prop :=
  a.identityId = b.identityId ∧ (a.signingKeyId = b.signingKeyId ∨ a.publicKey = b.publicKey)

instance : DecidableRel KeyRow.Clash := fun a b =>
  inferInstanceAs (Decidable (a.identityId = b.identityId ∧ (a.signingKeyId = b.signingKeyId ∨ a.publicKey = b.publicKey)))

structure RevocationRow where
  identityId : IdentityId
  signingKeyId : Uuid
  revokedAt : OffsetDateTime

def RevocationRow.Clash (a b : RevocationRow) : Prop := a.identityId = b.identityId ∧ a.signingKeyId = b.signingKeyId

instance : DecidableRel RevocationRow.Clash := fun a b =>
  inferInstanceAs (Decidable (a.identityId = b.identityId ∧ a.signingKeyId = b.signingKeyId))

/-- identities, signing keys, and revocations whether their key is there or not -/
structure KeyTables where
  identities : Table IdentityRow.Clash
  signingKeys : Table KeyRow.Clash
  revocations : Table RevocationRow.Clash

def KeyTables.empty : KeyTables := ⟨.empty, .empty, .empty⟩

def KeyTables.key (t : KeyTables) (identityId : IdentityId) (signingKeyId : Uuid) : Option KeyRow :=
  t.signingKeys.rows.find? fun k => decide (k.identityId = identityId ∧ k.signingKeyId = signingKeyId)

def KeyTables.revocation (t : KeyTables) (identityId : IdentityId) (signingKeyId : Uuid) : Option OffsetDateTime :=
  (t.revocations.rows.find? fun r => decide (r.identityId = identityId ∧ r.signingKeyId = signingKeyId)).map
    RevocationRow.revokedAt

/-! ## Payloads -/

structure IdentityCreatedPayload where
  identityId : IdentityId
  ticketId : Uuid
  displayName : String
  publicKey : String
  signature : String

def readCreated (payload : Value F) : Option IdentityCreatedPayload :=
  match recordFields ["identity_id", "ticket_id", "display_name", "public_key", "signature"] payload with
  | some [identityId, ticketId, displayName, publicKey, signature] => do
    return ⟨← readIdentityId identityId, ← readUuid ticketId, ← readString displayName, ← readString publicKey,
      ← readString signature⟩
  | _ => none

structure IdentitySigningKeyAddedPayload where
  signingKeyId : Uuid
  publicKey : String
  deviceLabel : Option String
  approvedBySigningKeyId : Uuid
  identityId : IdentityId
  kind : String
  grantId : Option Uuid
  approvalSignature : Option String

def readKeyAdded (payload : Value F) : Option IdentitySigningKeyAddedPayload :=
  match recordFields ["signing_key_id", "public_key", "device_label", "approved_by_signing_key_id", "identity_id", "kind",
      "grant_id", "approval_signature"] payload with
  | some [signingKeyId, publicKey, deviceLabel, approvedBy, identityId, kind, grantId, approvalSignature] => do
    return ⟨← readUuid signingKeyId, ← readString publicKey, ← readOptional readString deviceLabel, ← readUuid approvedBy,
      ← readIdentityId identityId, ← readString kind, ← readOptional readUuid grantId,
      ← readOptional readString approvalSignature⟩
  | _ => none

structure IdentitySigningKeyRevokedPayload where
  identityId : IdentityId
  signingKeyId : Uuid
  revokedBySigningKeyId : Uuid
  signature : String

def readKeyRevoked (payload : Value F) : Option IdentitySigningKeyRevokedPayload :=
  match recordFields ["identity_id", "signing_key_id", "revoked_by_signing_key_id", "signature"] payload with
  | some [identityId, signingKeyId, revokedBy, signature] => do
    return ⟨← readIdentityId identityId, ← readUuid signingKeyId, ← readUuid revokedBy, ← readString signature⟩
  | _ => none

/-! ## Verification -/

def reject {α : Type} (reason : String) : Except IndexError α := .error (.rejected reason)

def orReject {α : Type} (reason : String) : Option α → Except IndexError α
  | some a => .ok a
  | none => reject reason

/-- the identity id in an `identity:<id>:..` global id -/
def embeddedIdentity (id : String) : Option IdentityId := (identityPart id).bind fun part => (IdentityId.parse part).toOption

def requireIssuerIs (event : Event F) (identityId : IdentityId) : Except IndexError Unit :=
  if embeddedIdentity event.issuer = some identityId ∧ embeddedIdentity event.subject = some identityId then .ok ()
  else reject "issuer and subject do not name the identity the payload is about"

/-- a creation whose proof checked out: the key derives the id, and the name is permitted -/
structure VerifiedCreation where
  identityId : IdentityId
  ticketId : Uuid
  inceptionKey : FixedBytes 32
  displayName : String
  derived : deriveIdentityId inceptionKey = identityId
  permitted : displayNamePermitted displayName = true

inductive Verified where
  | creation (created : VerifiedCreation)
  | other

section Verify

variable (cfg : Config)

def decodeKey (b64 : String) : Except IndexError (FixedBytes 32) := do
  let raw ← orReject "public key is not base64" (Base64.decode b64)
  let key ← orReject "public key is not 32 bytes" (FixedBytes.ofList? 32 raw)
  orReject "public key is not acceptable" (parseShardPublicKey cfg.curve key)

def decodeSignature (b64 : String) : Except IndexError (FixedBytes 64) :=
  orReject "signature is not 64 bytes of base64" ((Base64.decode b64).bind (FixedBytes.ofList? 64))

def verifyWithKey (key : FixedBytes 32) (message : Except SigningBytesError Bytes) (signature : FixedBytes 64) : Bool :=
  match parseShardPublicKey cfg.curve key, message with
  | some key, .ok message => cfg.ed.verifyStrict key message signature
  | _, _ => false

def verifyCreated (event : Event F) (networkId : String) : Except IndexError VerifiedCreation := do
  if event.version ≠ 2 then reject "identity.created must be version 2"
  let created ← orReject "identity.created payload is malformed" (readCreated event.payload)
  let key ← decodeKey cfg created.publicKey
  if hderived : deriveIdentityId key = created.identityId then
    requireIssuerIs event created.identityId
    if hpermitted : displayNamePermitted created.displayName = true then
      let signature ← decodeSignature created.signature
      let bytes := identityCreatedSigningBytes networkId created.ticketId created.identityId key created.displayName
      if verifyWithKey cfg key bytes signature then
        return ⟨created.identityId, created.ticketId, key, created.displayName, hderived, hpermitted⟩
      else reject "identity.created signature does not verify for this network"
    else .error .displayNameNotPermitted
  else reject "identity id is not derived from the inception key"

/-- the chain position that the signature of a key event covers -/
def signedPosition (event : Event F) : Except IndexError (UInt64 × Option EventHash) := do
  let position ← orReject "key event carries no identity chain position" event.identityChain
  let prevHash ← orReject "chain position prev_hash is malformed" (positionPrev position).toOption
  return (position.seq, prevHash)

inductive KeyState where
  | active (key : FixedBytes 32)
  | revoked
  | unknown

def keyState (t : KeyTables) (identityId : IdentityId) (signingKeyId : Uuid) : KeyState :=
  match t.key identityId signingKeyId with
  | none => .unknown
  | some row =>
    if row.revokedAt.isSome then .revoked
    else
      match FixedBytes.ofList? 32 row.publicKey with
      | some key => .active key
      | none => .revoked

def signerKey (t : KeyTables) (identityId : IdentityId) (signingKeyId : Uuid) (role : String) :
    Except IndexError (FixedBytes 32) :=
  match keyState t identityId signingKeyId with
  | .active key => .ok key
  | .revoked => reject (role ++ " key is revoked")
  | .unknown => .error (.awaitingKey (role ++ " key is not projected for this identity yet"))

/-- the network that the signature of a key event is bound to -/
def keyEventNetwork (origin : Option EventOrigin) : Except IndexError String :=
  orReject "no origin to verify a key event" (origin.map EventOrigin.networkId)

/-- the inception key event names the key id that the creation ticket fixed -/
def requireTicketKey (t : KeyTables) (identityId : IdentityId) (signingKeyId : Uuid) (key : FixedBytes 32) :
    Except IndexError Unit :=
  match t.key identityId signingKeyId with
  | some stored => if stored.publicKey = key.toList then .ok () else reject "inception key id belongs to another key"
  | none =>
    if t.signingKeys.rows.any fun k => decide (k.identityId = identityId) then
      reject "inception key id is not the id of the creation ticket"
    else .error (.awaitingKey "identity creation is not projected yet")

def SIGNING_KEY_KIND_INCEPTION : String := "inception"

def verifyInception (t : KeyTables) (event : Event F) (added : IdentitySigningKeyAddedPayload) (key : FixedBytes 32) :
    Except IndexError Unit := do
  if deriveIdentityId key ≠ added.identityId then reject "inception key does not derive the identity id"
  if event.identityChain.isSome then reject "the inception key event is not part of a chain"
  requireTicketKey t added.identityId added.signingKeyId key

def verifyDeviceGrant (t : KeyTables) (event : Event F) (networkId : String) (added : IdentitySigningKeyAddedPayload)
    (key : FixedBytes 32) : Except IndexError Unit :=
  match added.grantId, added.approvalSignature with
  | some grantId, some signature => do
    let signature ← decodeSignature signature
    let approver ← signerKey t added.identityId added.approvedBySigningKeyId "approving"
    if added.signingKeyId ≠ grantId then reject "device key id is not the id of the grant"
    let (seq, prevHash) ← signedPosition event
    let bytes := deviceGrantApprovalSigningBytes networkId grantId added.identityId added.approvedBySigningKeyId key seq prevHash
    if verifyWithKey cfg approver bytes signature then .ok ()
    else reject "device grant approval signature does not verify under the approving key"
  | _, _ => reject "device grant carries no approval signature"

def verifyKeyAdded (t : KeyTables) (event : Event F) (origin : Option EventOrigin) : Except IndexError Unit := do
  if event.version ≠ 2 then reject "identity.signing_key_added must be version 2"
  let added ← orReject "identity.signing_key_added payload is malformed" (readKeyAdded event.payload)
  requireIssuerIs event added.identityId
  let networkId ← keyEventNetwork origin
  let key ← decodeKey cfg added.publicKey
  if added.kind = SIGNING_KEY_KIND_INCEPTION then verifyInception t event added key
  else if added.kind = SIGNING_KEY_KIND_DEVICE_GRANT then verifyDeviceGrant cfg t event networkId added key
  else reject ("signing key kind " ++ cfg.debug added.kind ++ " carries no verifiable proof")

def verifyKeyRevoked (t : KeyTables) (event : Event F) (origin : Option EventOrigin) : Except IndexError Unit := do
  if event.version ≠ 2 then reject "identity.signing_key_revoked must be version 2"
  let revoked ← orReject "identity.signing_key_revoked payload is malformed" (readKeyRevoked event.payload)
  requireIssuerIs event revoked.identityId
  let networkId ← keyEventNetwork origin
  let signature ← decodeSignature revoked.signature
  let revoker ← signerKey t revoked.identityId revoked.revokedBySigningKeyId "revoking"
  let (seq, prevHash) ← signedPosition event
  let bytes := signingKeyRevokedSigningBytes networkId revoked.identityId revoked.signingKeyId revoked.revokedBySigningKeyId seq
    prevHash
  if verifyWithKey cfg revoker bytes signature then .ok ()
  else reject "revocation signature does not verify under the revoking key"

/-- kinds that change an identity's state and carry no signature -/
def isUnprovenIdentityState (kind : String) : Bool :=
  kind == "profile.updated" || ("identity.".toList.isPrefixOf kind.toList &&
    !(["identity.created", "identity.signing_key_added", "identity.signing_key_revoked"].contains kind))

def verify (t : KeyTables) (event : Event F) (origin : Option EventOrigin) (localNetwork : Option String) :
    Except IndexError Verified := do
  if event.kind = "identity.created" then
    let origin ← orReject "no origin to verify identity.created" origin
    return .creation (← verifyCreated cfg event origin.networkId)
  else if event.kind = "identity.signing_key_added" then
    verifyKeyAdded cfg t event origin
    return .other
  else if event.kind = "identity.signing_key_revoked" then
    verifyKeyRevoked cfg t event origin
    return .other
  else if isUnprovenIdentityState event.kind then
    if origin.any fun o => o.isAuthoritative localNetwork then return .other
    else reject (event.kind ++ " carries no proof and is accepted only from the core shard or this node's own shard")
  else return .other

end Verify

/-! ## Writes -/

inductive SigningKeyWrite where
  | added (signingKeyId : Uuid) (identityId : IdentityId) (publicKey : Bytes) (label : Option String) (addedAt : OffsetDateTime)
  | revoked (signingKeyId : Uuid) (identityId : IdentityId) (revokedAt : OffsetDateTime)

def decode (cfg : Config) (event : Event F) : Option SigningKeyWrite :=
  if event.kind = "identity.signing_key_added" then
    if event.version ≠ 2 then none
    else do
      let added ← readKeyAdded event.payload
      let publicKey ← Base64.decode added.publicKey
      if added.kind = SIGNING_KEY_KIND_INCEPTION then
        let key ← FixedBytes.ofList? 32 publicKey
        let _ ← parseShardPublicKey cfg.curve key
        if deriveIdentityId key ≠ added.identityId then none
      return .added added.signingKeyId added.identityId publicKey added.deviceLabel event.timestamp
  else if event.kind = "identity.signing_key_revoked" then
    if event.version ≠ 2 then none
    else do
      let revoked ← readKeyRevoked event.payload
      return .revoked revoked.signingKeyId revoked.identityId event.timestamp
  else none

/-- a row of the key, revoked already if a revocation of it came before -/
def newKeyRow (t : KeyTables) (signingKeyId : Uuid) (identityId : IdentityId) (publicKey : Bytes) (label : Option String)
    (addedAt : OffsetDateTime) : KeyRow :=
  ⟨signingKeyId, identityId, publicKey, label, timestamptz addedAt, t.revocation identityId signingKeyId⟩

/-- the label of that key, where it has none -/
def KeyRow.withLabel (row : KeyRow) (label : Option String) : KeyRow := { row with label := row.label.or label }

def KeyRow.revoke (row : KeyRow) (revokedAt : OffsetDateTime) : KeyRow := { row with revokedAt := some (timestamptz revokedAt) }

/-- updates of columns outside of the constraints -/
theorem clash_of_update {p : KeyRow → Bool} {f : KeyRow → KeyRow}
    (hf : ∀ k, (f k).identityId = k.identityId ∧ (f k).signingKeyId = k.signingKeyId ∧ (f k).publicKey = k.publicKey)
    (a b : KeyRow) (h : KeyRow.Clash (if p a then f a else a) (if p b then f b else b)) : KeyRow.Clash a b := by
  have hsame : ∀ k : KeyRow, (if p k then f k else k).identityId = k.identityId ∧
      (if p k then f k else k).signingKeyId = k.signingKeyId ∧ (if p k then f k else k).publicKey = k.publicKey := by
    intro k
    split_ifs
    · exact hf k
    · exact ⟨rfl, rfl, rfl⟩
  obtain ⟨ha1, ha2, ha3⟩ := hsame a
  obtain ⟨hb1, hb2, hb3⟩ := hsame b
  rwa [KeyRow.Clash, ha1, ha2, ha3, hb1, hb2, hb3] at h

def isKey (identityId : IdentityId) (signingKeyId : Uuid) (k : KeyRow) : Bool :=
  decide (k.identityId = identityId ∧ k.signingKeyId = signingKeyId)

/-- ON CONFLICT (identity_id, signing_key_id) DO UPDATE SET label -/
def setLabel (t : Table KeyRow.Clash) (identityId : IdentityId) (signingKeyId : Uuid) (label : Option String) :
    Table KeyRow.Clash :=
  t.update (isKey identityId signingKeyId) (fun k => k.withLabel label) (clash_of_update fun _ => ⟨rfl, rfl, rfl⟩)

/-- AND revoked_at IS NULL -/
def setRevoked (t : Table KeyRow.Clash) (identityId : IdentityId) (signingKeyId : Uuid) (revokedAt : OffsetDateTime) :
    Table KeyRow.Clash :=
  t.update (fun k => isKey identityId signingKeyId k && k.revokedAt.isNone) (fun k => k.revoke revokedAt)
    (clash_of_update fun _ => ⟨rfl, rfl, rfl⟩)

def apply (t : KeyTables) : SigningKeyWrite → Except IndexError KeyTables
  | .added signingKeyId identityId publicKey label addedAt =>
    if t.signingKeys.rows.any fun k =>
        decide (k.identityId = identityId ∧ k.publicKey = publicKey ∧ k.signingKeyId ≠ signingKeyId) then
      reject ("public key of signing key " ++ uuidText signingKeyId ++ " is already registered under another key id")
    else
      match t.key identityId signingKeyId with
      | some k =>
        if k.publicKey = publicKey then .ok { t with signingKeys := setLabel t.signingKeys identityId signingKeyId label }
        else
          reject ("signing key " ++ uuidText signingKeyId ++ " already exists for this identity with a different public key")
      | none =>
        match t.signingKeys.insert (newKeyRow t signingKeyId identityId publicKey label addedAt) with
        | none => reject "public key is already registered for this identity"
        | some signingKeys =>
          -- the foreign key to identities
          if t.identities.rows.any fun i => decide (i.id = identityId) then .ok { t with signingKeys := signingKeys }
          else .error .deferred
  | .revoked signingKeyId identityId revokedAt =>
    .ok { t with
      signingKeys := setRevoked t.signingKeys identityId signingKeyId revokedAt
      revocations := (t.revocations.insertIgnore ⟨identityId, signingKeyId, timestamptz revokedAt⟩).1 }

/-! ## What a verified addition has shown -/

theorem orReject_eq_ok {α : Type} {reason : String} {x : Option α} {a : α} (h : orReject reason x = .ok a) : x = some a := by
  cases x with
  | none => cases h
  | some b =>
    cases h
    rfl

/-- a decoded key is its text's bytes -/
theorem decodeKey_eq_ok {cfg : Config} {b64 : String} {key : FixedBytes 32} (h : decodeKey cfg b64 = .ok key) :
    Base64.decode b64 = some key.toList := by
  unfold decodeKey at h
  obtain ⟨raw, hraw, h⟩ := bind_eq_ok.1 h
  obtain ⟨key', hkey', h⟩ := bind_eq_ok.1 h
  have hparse := orReject_eq_ok h
  unfold parseShardPublicKey at hparse
  split_ifs at hparse
  cases hparse
  rw [orReject_eq_ok hraw, FixedBytes.toList_of_ofList? (orReject_eq_ok hkey')]

/-- an active key of the identity, as it is stored -/
def ActiveKey (t : KeyTables) (identityId : IdentityId) (signingKeyId : Uuid) (key : FixedBytes 32) : Prop :=
  ∃ k ∈ t.signingKeys.rows, k.identityId = identityId ∧ k.signingKeyId = signingKeyId ∧ k.publicKey = key.toList ∧
    k.revokedAt = none

theorem key_eq_some {t : KeyTables} {identityId : IdentityId} {signingKeyId : Uuid} {k : KeyRow}
    (h : t.key identityId signingKeyId = some k) :
    k ∈ t.signingKeys.rows ∧ k.identityId = identityId ∧ k.signingKeyId = signingKeyId := by
  have hmatches := of_decide_eq_true (List.find?_some h :)
  exact ⟨List.mem_of_find?_eq_some h, hmatches.1, hmatches.2⟩

theorem signerKey_eq_ok {t : KeyTables} {identityId : IdentityId} {signingKeyId : Uuid} {role : String} {key : FixedBytes 32}
    (h : signerKey t identityId signingKeyId role = .ok key) : ActiveKey t identityId signingKeyId key := by
  unfold signerKey keyState at h
  cases hkey : t.key identityId signingKeyId with
  | none =>
    rw [hkey] at h
    cases h
  | some k =>
    obtain ⟨hk, hidentity, hid⟩ := key_eq_some hkey
    rw [hkey] at h
    dsimp only at h
    cases hrevoked : k.revokedAt with
    | some at' =>
      rw [hrevoked] at h
      cases h
    | none =>
      rw [hrevoked] at h
      cases hlist : FixedBytes.ofList? 32 k.publicKey with
      | none =>
        rw [hlist] at h
        cases h
      | some stored =>
        rw [hlist] at h
        cases h
        exact ⟨k, hk, hidentity, hid, (FixedBytes.toList_of_ofList? hlist).symm, hrevoked⟩

/-- the grant of an event, and the key that signed it: active, and over the network, grant, identity, key and chain position -/
structure Granted (cfg : Config) (t : KeyTables) (event : Event F) (networkId : String) (added : IdentitySigningKeyAddedPayload)
    (key : FixedBytes 32) : Prop where
  kind : added.kind = SIGNING_KEY_KIND_DEVICE_GRANT
  grant : added.grantId = some added.signingKeyId
  signed : ∃ (approver : FixedBytes 32) (signature : FixedBytes 64) (seq : UInt64) (prevHash : Option EventHash),
    ActiveKey t added.identityId added.approvedBySigningKeyId approver ∧
    added.approvalSignature.bind (fun b64 => (Base64.decode b64).bind (FixedBytes.ofList? 64)) = some signature ∧
    signedPosition event = .ok (seq, prevHash) ∧
    verifyWithKey cfg approver (deviceGrantApprovalSigningBytes networkId added.signingKeyId added.identityId
      added.approvedBySigningKeyId key seq prevHash) signature = true

theorem granted_of_verifyDeviceGrant {cfg : Config} {t : KeyTables} {event : Event F} {networkId : String}
    {added : IdentitySigningKeyAddedPayload} {key : FixedBytes 32} (hkind : added.kind = SIGNING_KEY_KIND_DEVICE_GRANT)
    (h : verifyDeviceGrant cfg t event networkId added key = .ok ()) : Granted cfg t event networkId added key := by
  unfold verifyDeviceGrant at h
  split at h
  · rename_i grantId b64 hgrant hsignature
    obtain ⟨signature, hdecoded, h⟩ := bind_eq_ok.1 h
    obtain ⟨approver, happrover, h⟩ := bind_eq_ok.1 h
    dsimp only at h
    split_ifs at h with hid
    · cases h
    · rw [not_not] at hid
      subst hid
      obtain ⟨⟨seq, prevHash⟩, hposition, h⟩ := bind_eq_ok.1 h
      dsimp only at h
      split_ifs at h with hverified
      · refine ⟨hkind, hgrant, approver, signature, seq, prevHash, signerKey_eq_ok happrover, ?_, hposition, hverified⟩
        rw [hsignature]
        exact orReject_eq_ok hdecoded
      · cases h
  · cases h

/-- the inception key event names a row that the creation has made -/
theorem stored_of_verifyInception {t : KeyTables} {event : Event F} {added : IdentitySigningKeyAddedPayload} {key : FixedBytes 32}
    (h : verifyInception t event added key = .ok ()) :
    ∃ stored, t.key added.identityId added.signingKeyId = some stored ∧ stored.publicKey = key.toList := by
  unfold verifyInception at h
  dsimp only at h
  split at h
  · cases h
  · split at h
    · cases h
    · unfold requireTicketKey at h
      split at h
      · rename_i stored hstored
        split at h
        · rename_i hkey
          exact ⟨stored, hstored, hkey⟩
        · cases h
      · split at h <;> cases h

/-- **A verified addition** is a grant signed by an active key, or names the inception key's row -/
theorem granted_of_verifyKeyAdded {cfg : Config} {t : KeyTables} {event : Event F} {origin : Option EventOrigin}
    (h : verifyKeyAdded cfg t event origin = .ok ()) :
    ∃ (added : IdentitySigningKeyAddedPayload) (key : FixedBytes 32) (o : EventOrigin), origin = some o ∧
      readKeyAdded event.payload = some added ∧ Base64.decode added.publicKey = some key.toList ∧
      (Granted cfg t event o.networkId added key ∨
        ∃ stored, t.key added.identityId added.signingKeyId = some stored ∧ stored.publicKey = key.toList) := by
  unfold verifyKeyAdded at h
  dsimp only at h
  split_ifs at h
  · cases h
  · obtain ⟨added, hadded, h⟩ := bind_eq_ok.1 h
    obtain ⟨-, -, h⟩ := bind_eq_ok.1 h
    obtain ⟨networkId, hnetwork, h⟩ := bind_eq_ok.1 h
    obtain ⟨key, hkey, h⟩ := bind_eq_ok.1 h
    obtain ⟨o, ho, rfl⟩ := Option.map_eq_some_iff.1 (orReject_eq_ok hnetwork)
    refine ⟨added, key, o, ho, orReject_eq_ok hadded, decodeKey_eq_ok hkey, ?_⟩
    split_ifs at h with hinception hgrant
    · exact .inr (stored_of_verifyInception h)
    · exact .inl (granted_of_verifyDeviceGrant hgrant h)
    · cases h

/-! ## What a write leaves -/

def SameKey (a b : KeyRow) : Prop :=
  a.identityId = b.identityId ∧ a.signingKeyId = b.signingKeyId ∧ a.publicKey = b.publicKey

theorem SameKey.refl (a : KeyRow) : SameKey a a := ⟨rfl, rfl, rfl⟩

theorem SameKey.trans {a b c : KeyRow} (h : SameKey a b) (h' : SameKey b c) : SameKey a c :=
  ⟨h.1.trans h'.1, h.2.1.trans h'.2.1, h.2.2.trans h'.2.2⟩

/-- every key whose revocation is kept is revoked -/
def Honoured (t : KeyTables) : Prop :=
  ∀ r ∈ t.revocations.rows, ∀ k ∈ t.signingKeys.rows, k.identityId = r.identityId → k.signingKeyId = r.signingKeyId →
    k.revokedAt.isSome

/-- no key goes, none is renamed or revived, and each other one is new -/
structure Extends (t t' : KeyTables) (new : KeyRow → Prop) : Prop where
  kept : ∀ k ∈ t.signingKeys.rows, ∃ k' ∈ t'.signingKeys.rows, SameKey k k' ∧ (k.revokedAt.isSome → k'.revokedAt.isSome)
  new : ∀ k' ∈ t'.signingKeys.rows, (∃ k ∈ t.signingKeys.rows, SameKey k k') ∨ new k'
  revocations : t.revocations.rows ⊆ t'.revocations.rows
  honoured : Honoured t → Honoured t'

section

variable {t t' : KeyTables} {new : KeyRow → Prop}

/-- other tables are written -/
theorem extends_of_eq (hkeys : t'.signingKeys = t.signingKeys) (hrevocations : t'.revocations = t.revocations) :
    Extends t t' new where
  kept k hk := ⟨k, hkeys ▸ hk, .refl k, id⟩
  new k hk := .inl ⟨k, hkeys ▸ hk, .refl k⟩
  revocations := hrevocations ▸ List.Subset.refl _
  honoured h r hr k hk := h r (hrevocations ▸ hr) k (hkeys ▸ hk)

theorem Extends.mono {new' : KeyRow → Prop} (h : Extends t t' new) (hnew : ∀ k, new k → new' k) : Extends t t' new' :=
  ⟨h.kept, fun k hk => (h.new k hk).imp_right (hnew k), h.revocations, h.honoured⟩

theorem Extends.trans {t'' : KeyTables} {new' : KeyRow → Prop} (h : Extends t t' fun _ => True) (h' : Extends t' t'' new') :
    Extends t t'' fun _ => True where
  kept k hk := by
    obtain ⟨k', hk', hsame, hrevoked⟩ := h.kept k hk
    obtain ⟨k'', hk'', hsame', hrevoked'⟩ := h'.kept k' hk'
    exact ⟨k'', hk'', hsame.trans hsame', fun hk => hrevoked' (hrevoked hk)⟩
  new _ _ := .inr trivial
  revocations := List.Subset.trans h.revocations h'.revocations
  honoured hhonoured := h'.honoured (h.honoured hhonoured)

/-- a new row is revoked if a revocation of it came before -/
theorem extends_insert {signingKeyId : Uuid} {identityId : IdentityId} {publicKey : Bytes} {label : Option String}
    {addedAt : OffsetDateTime} {signingKeys : Table KeyRow.Clash} (identities : Table IdentityRow.Clash)
    (h : t.signingKeys.insert (newKeyRow t signingKeyId identityId publicKey label addedAt) = some signingKeys) :
    Extends t ⟨identities, signingKeys, t.revocations⟩
      (fun k => k = newKeyRow t signingKeyId identityId publicKey label addedAt) where
  kept k hk := ⟨k, (Table.mem_insert h).2 (.inl hk), .refl k, id⟩
  new k hk := ((Table.mem_insert h).1 hk).imp_left fun hk => ⟨k, hk, .refl k⟩
  revocations := List.Subset.refl _
  honoured := by
    intro hhonoured r hr k hk hidentity hid
    rcases (Table.mem_insert h).1 hk with hk | rfl
    · exact hhonoured r hr k hk hidentity hid
    · rw [newKeyRow, KeyTables.revocation, Option.isSome_map, List.find?_isSome]
      exact ⟨r, hr, decide_eq_true ⟨hidentity.symm, hid.symm⟩⟩

/-- rows are updated beside their key, and none is revived -/
theorem extends_update {p : KeyRow → Bool} {f : KeyRow → KeyRow} {identities : Table IdentityRow.Clash}
    {signingKeys : Table KeyRow.Clash} {revocations : Table RevocationRow.Clash}
    (hrows : signingKeys.rows = t.signingKeys.rows.map fun k => if p k then f k else k)
    (hsame : ∀ k, SameKey k (f k)) (hrevoked : ∀ k, k.revokedAt.isSome → (f k).revokedAt.isSome)
    (hrevocations : t.revocations.rows ⊆ revocations.rows)
    (hhonoured : Honoured t → Honoured ⟨identities, signingKeys, revocations⟩) :
    Extends t ⟨identities, signingKeys, revocations⟩ new where
  kept k hk := by
    refine ⟨_, hrows ▸ List.mem_map_of_mem hk, ?_⟩
    split_ifs
    · exact ⟨hsame k, hrevoked k⟩
    · exact ⟨.refl k, id⟩
  new k' hk' := by
    obtain ⟨k, hk, rfl⟩ := List.mem_map.1 (hrows ▸ hk' :)
    refine .inl ⟨k, hk, ?_⟩
    split_ifs
    · exact hsame k
    · exact .refl k
  revocations := hrevocations
  honoured := hhonoured

theorem extends_setLabel (identityId : IdentityId) (signingKeyId : Uuid) (label : Option String) :
    Extends t { t with signingKeys := setLabel t.signingKeys identityId signingKeyId label } new := by
  refine extends_update Table.rows_update (fun _ => ⟨rfl, rfl, rfl⟩) (fun _ h => h) (List.Subset.refl _) ?_
  intro hhonoured r hr k' hk' hidentity hid
  rw [setLabel, Table.rows_update] at hk'
  obtain ⟨k, hk, rfl⟩ := List.mem_map.1 hk'
  split_ifs at hidentity hid ⊢
  · exact hhonoured r hr k hk hidentity hid
  · exact hhonoured r hr k hk hidentity hid

theorem extends_revoke (identityId : IdentityId) (signingKeyId : Uuid) (revokedAt : OffsetDateTime) :
    Extends t { t with
      signingKeys := setRevoked t.signingKeys identityId signingKeyId revokedAt
      revocations := (t.revocations.insertIgnore ⟨identityId, signingKeyId, timestamptz revokedAt⟩).1 } new := by
  refine extends_update Table.rows_update (fun _ => ⟨rfl, rfl, rfl⟩) (fun _ _ => rfl)
    (fun r hr => Table.mem_insertIgnore_of_mem hr) ?_
  intro hhonoured r hr k' hk' hidentity hid
  rw [setRevoked, Table.rows_update] at hk'
  obtain ⟨k, hk, rfl⟩ := List.mem_map.1 hk'
  split_ifs at hidentity hid ⊢ with hopen
  · rfl
  · rcases Table.mem_insertIgnore hr with hr | rfl
    · exact hhonoured r hr k hk hidentity hid
    · -- the row of this key was not open
      by_contra hnone
      refine hopen ?_
      rw [Bool.and_eq_true, isKey]
      exact ⟨decide_eq_true ⟨hidentity, hid⟩, by simpa using hnone⟩

/-- **An addition** changes a label of the key's row, or inserts it -/
theorem apply_added_cases {signingKeyId : Uuid} {identityId : IdentityId} {publicKey : Bytes} {label : Option String}
    {addedAt : OffsetDateTime} (h : apply t (.added signingKeyId identityId publicKey label addedAt) = .ok t') :
    (∃ k, t.key identityId signingKeyId = some k ∧ Extends t t' fun _ => False) ∨
      (t.key identityId signingKeyId = none ∧
        Extends t t' fun k => k = newKeyRow t signingKeyId identityId publicKey label addedAt) := by
  unfold apply at h
  dsimp only at h
  split at h
  · cases h
  · split at h
    · rename_i k hk
      split at h
      · cases h
        exact .inl ⟨k, hk, extends_setLabel identityId signingKeyId label⟩
      · cases h
    · rename_i hnone
      split at h
      · cases h
      · rename_i signingKeys hinsert
        split at h
        · cases h
          exact .inr ⟨hnone, extends_insert t.identities hinsert⟩
        · cases h

end

end Avalon.IdentityKeys
