/-
Who revoked an attestation (`crates/indexer/src/attestation_proof.rs`; `crates/indexer/src/projections/attestations.rs`: `decode`,
`apply`; `crates/indexer/src/projections/issuer_keys.rs`; migration 0091), over deliveries (`crates/indexer/src/postgres.rs`).

Registrations, keys and revocations of keys are kept for each stream, a network and a shard. A revocation is checked before the
row is touched: its issuer is registered on the delivering stream, the key it names is one of that integrator there, for
attestations, valid at the event's time and not revoked, and the row came from this stream and issuer.

What else a delivery verifies and projects, and whether it refuses it, is a parameter (`Others`). A message that does not fit its
length fields is signed by nobody (the source panics there).

Results:
- `authorized_of_verify`: what a verified revocation has shown.
- `attestations_deliver`: what one delivery does to a row.
- `revocation_authority`: where each row and each revocation came from, over any deliveries.
-/
import Mathlib.Tactic
import Avalon.Core.Base64
import Avalon.Core.Bytes
import Avalon.Core.Fallible
import Avalon.Core.Json
import Avalon.Core.TableView
import Avalon.Core.UniqueTable
import Avalon.Protocol.SigningBytes
import Avalon.Protocol.Events
import Avalon.Protocol.IdentityId
import Avalon.Protocol.IdentityChainWire
import Avalon.Protocol.DomainProof
import Avalon.Protocol.IssuerKeys
import Avalon.Chain.Mirror
import Avalon.Indexer.ChainStore
import Avalon.Indexer.Dispatch
import Avalon.Indexer.FoldedCounts
import Avalon.Indexer.IdentityKeys
import Avalon.Indexer.ProfileChain

namespace Avalon.AttestationRevocation

open Json (Value)
open UniqueTable Fallible Avalon.SigningBytes Avalon.LedgerEntry Avalon.Events Avalon.Identity Avalon.IdentityChain Avalon.Mirror
open Avalon.IssuerKeys
open Avalon.ChainStore (Event Recorded)
open Avalon.Dispatch (Indexed applyVerified dispatch)
open Avalon.DomainProof (parseShardPublicKey)
open Avalon.IdentityKeys (Config EventOrigin IndexError reject orReject orReject_eq_ok)
open Avalon.FoldedCounts (Attestations AttestationRow AttestationWrite applyAttestation)
open Avalon.ProfileChain (get asStr)

variable {F P : Type}

/-! ## Issuers and their keys -/

structure IssuerRow where
  networkId : String
  shardId : String
  integratorId : Uuid
  issuerRef : String

def IssuerRow.Clash (a b : IssuerRow) : Prop :=
  a.networkId = b.networkId ∧ a.shardId = b.shardId ∧ (a.integratorId = b.integratorId ∨ a.issuerRef = b.issuerRef)

instance : DecidableRel IssuerRow.Clash := fun a b => inferInstanceAs (Decidable
  (a.networkId = b.networkId ∧ a.shardId = b.shardId ∧ (a.integratorId = b.integratorId ∨ a.issuerRef = b.issuerRef)))

structure IssuerKeyRow where
  networkId : String
  shardId : String
  keyId : Uuid
  integratorId : Uuid
  algorithm : String
  publicKey : Bytes
  role : KeyRole
  purpose : KeyPurpose
  validFrom : OffsetDateTime
  validUntil : Option OffsetDateTime

def IssuerKeyRow.Clash (a b : IssuerKeyRow) : Prop :=
  a.networkId = b.networkId ∧ a.shardId = b.shardId ∧ a.keyId = b.keyId

instance : DecidableRel IssuerKeyRow.Clash := fun a b =>
  inferInstanceAs (Decidable (a.networkId = b.networkId ∧ a.shardId = b.shardId ∧ a.keyId = b.keyId))

structure KeyRevocationRow where
  networkId : String
  shardId : String
  keyId : Uuid
  revokedAt : OffsetDateTime

def KeyRevocationRow.Clash (a b : KeyRevocationRow) : Prop :=
  a.networkId = b.networkId ∧ a.shardId = b.shardId ∧ a.keyId = b.keyId

instance : DecidableRel KeyRevocationRow.Clash := fun a b =>
  inferInstanceAs (Decidable (a.networkId = b.networkId ∧ a.shardId = b.shardId ∧ a.keyId = b.keyId))

/-- `indexer_issuers`, `indexer_issuer_keys` and `indexer_issuer_key_revocations` -/
structure IssuerTables where
  issuers : Table IssuerRow.Clash
  keys : Table IssuerKeyRow.Clash
  revocations : Table KeyRevocationRow.Clash

def IssuerTables.empty : IssuerTables := ⟨.empty, .empty, .empty⟩

/-- a key as an event names it -/
structure KeyRow where
  keyId : Uuid
  algorithm : String
  publicKey : Bytes
  role : KeyRole
  purpose : KeyPurpose
  validFrom : OffsetDateTime
  validUntil : Option OffsetDateTime

inductive IssuerKeyWrite where
  | registered (integratorId : Uuid) (issuerRef : String) (key : KeyRow)
  | keyAdded (integratorId : Uuid) (key : KeyRow)
  | keyRevoked (keyId : Uuid) (revokedAt : OffsetDateTime)

def decodeIssuer (parseTime : ParseTime) (event : Event F) : Option IssuerKeyWrite :=
  if event.kind = "game.registered" then do
    let p ← readGameRegistered event.payload
    let publicKey ← Base64.decode p.initialKey.publicKey
    return .registered p.gameId (p.category ++ ":" ++ p.slug)
      ⟨p.initialKey.keyId, p.initialKey.algorithm, publicKey, .root, .attestation, event.timestamp, none⟩
  else if event.kind = "issuer.key_added" then do
    let p ← readIssuerKeyAdded parseTime event.payload
    let publicKey ← Base64.decode p.publicKey
    let role ← KeyRole.parse p.role
    let purpose ← KeyPurpose.parse p.purpose
    return .keyAdded p.gameId ⟨p.keyId, p.algorithm, publicKey, role, purpose, event.timestamp, p.validUntil⟩
  else if event.kind = "issuer.key_revoked" then do
    let p ← readIssuerKeyRevoked parseTime event.payload
    return .keyRevoked p.keyId p.revokedAt
  else none

/-- ON CONFLICT DO NOTHING; a key id names one key -/
def insertKey (t : IssuerTables) (origin : EventOrigin) (integratorId : Uuid) (key : KeyRow) : Except IndexError IssuerTables :=
  let inserted := t.keys.insertIgnore ⟨origin.networkId, origin.shardId, key.keyId, integratorId, key.algorithm, key.publicKey,
    key.role, key.purpose, timestamptz key.validFrom, key.validUntil.map timestamptz⟩
  let stored : Option IssuerKeyRow := t.keys.rows.find? fun k =>
    decide (k.networkId = origin.networkId ∧ k.shardId = origin.shardId ∧ k.keyId = key.keyId)
  if inserted.2 = false ∧ ∃ k ∈ stored, k.integratorId ≠ integratorId ∨ k.publicKey ≠ key.publicKey then
    reject "issuer key id is already used by another key"
  else .ok { t with keys := inserted.1 }

def integratorFor (t : IssuerTables) (origin : EventOrigin) (issuerRef : String) : Option Uuid :=
  (t.issuers.rows.find? fun r =>
    decide (r.networkId = origin.networkId ∧ r.shardId = origin.shardId ∧ r.issuerRef = issuerRef)).map IssuerRow.integratorId

/-- ON CONFLICT (network_id, shard_id, key_id) DO UPDATE SET revoked_at = LEAST(..) -/
def revokeKey (t : Table KeyRevocationRow.Clash) (row : KeyRevocationRow) : Table KeyRevocationRow.Clash :=
  match t.insert row with
  | some t' => t'
  | none =>
    t.update (fun r => decide (KeyRevocationRow.Clash r row)) (fun r => { r with revokedAt := min r.revokedAt row.revokedAt }) <| by
      intro a b h
      split_ifs at h <;> exact h

def applyIssuer (t : IssuerTables) (origin : EventOrigin) : IssuerKeyWrite → Except IndexError IssuerTables
  | .registered integratorId issuerRef key =>
    if (integratorFor t origin issuerRef).any fun holder => decide (holder ≠ integratorId) then
      reject "issuer ref is already registered by another integrator"
    else
      insertKey { t with issuers := (t.issuers.insertIgnore ⟨origin.networkId, origin.shardId, integratorId, issuerRef⟩).1 }
        origin integratorId key
  | .keyAdded integratorId key => insertKey t origin integratorId key
  | .keyRevoked keyId revokedAt =>
    .ok { t with revocations := revokeKey t.revocations ⟨origin.networkId, origin.shardId, keyId, timestamptz revokedAt⟩ }

/-- the keys of the integrator on the stream, with their revocations -/
def keysFor (t : IssuerTables) (origin : EventOrigin) (integratorId : Uuid) : List IssuerKey :=
  (t.keys.rows.filter fun k =>
    decide (k.networkId = origin.networkId ∧ k.shardId = origin.shardId ∧ k.integratorId = integratorId)).map fun k =>
      let revocation := t.revocations.rows.find? fun r =>
        decide (r.networkId = k.networkId ∧ r.shardId = k.shardId ∧ r.keyId = k.keyId)
      ⟨k.keyId, k.algorithm, k.publicKey, k.role, k.purpose, k.validFrom, k.validUntil, revocation.map KeyRevocationRow.revokedAt⟩

/-! ## Proof of a revocation -/

/-- the kind of claim that a revocation of this kind is signed under -/
def claimKind (kind : String) : Option String :=
  if kind = "achievement.revoked" then some "achievement"
  else if kind = "milestone.revoked" then some "milestone"
  else none

def issuerMatchesKind (issuerRef claimKind : String) : Bool :=
  if claimKind = "achievement" then "game:".toList.isPrefixOf issuerRef.toList
  else "app:".toList.isPrefixOf issuerRef.toList || "service:".toList.isPrefixOf issuerRef.toList

section

variable (cfg : Config)

def verifySignedRevocation (networkId claimKind : String) (revoked : ClaimRevokedPayload) (keys : List IssuerKey)
    (time : OffsetDateTime) : Except IndexError Unit := do
  if revoked.proof.algorithm ≠ "ed25519" then reject "revocation proof algorithm is not ed25519"
  let signature ← orReject "revocation signature is not 64 bytes of base64"
    ((Base64.decode revoked.proof.bytes).bind (FixedBytes.ofList? 64))
  if !keys.any fun k => decide (k.keyId = revoked.proof.keyId) then
    throw (.awaitingKey "the revocation's signing key is not projected for this issuer yet")
  let key ← orReject "revocation signing key is not valid for the issuer at this time"
    (resolveValidSigningKey keys revoked.proof.keyId time)
  if key.revokedAt.isSome then reject "revocation signing key has been revoked"
  let signedHash ← orReject "reason_hash is not 32 bytes of hex" ((hexDecode revoked.reasonHash).bind (FixedBytes.ofList? 32))
  if reasonHash revoked.reason ≠ signedHash then reject "reason does not match its signed hash"
  let publicKey ← orReject "issuer key is malformed" (FixedBytes.ofList? 32 key.publicKey)
  let publicKey ← orReject "issuer key is malformed" (parseShardPublicKey cfg.curve publicKey)
  let signer : AttestationSigner := ⟨networkId, claimKind, revoked.issuer, revoked.proof.keyId⟩
  match revocationSigningBytes signer revoked.attestationId revoked.reasonCode signedHash with
  | .ok bytes =>
    if cfg.ed.verifyStrict publicKey bytes signature then .ok () else reject "revocation signature does not verify"
  | .error _ => reject "revocation signature does not verify"

def verifyRevocation (t : IssuerTables) (attestations : Attestations) (event : Event F) (origin : Option EventOrigin) :
    Except IndexError Unit :=
  match claimKind event.kind with
  | none => .ok ()
  | some kind => do
    let origin ← orReject "no origin to verify a revocation" origin
    let revoked ← orReject "revocation payload is malformed or carries no proof" (readClaimRevoked event.payload)
    if !issuerMatchesKind revoked.issuer kind then reject "revocation issuer does not issue this claim kind"
    match integratorFor t origin revoked.issuer with
    | none => .error (.awaitingKey "the revoking issuer is not registered on this stream yet")
    | some integratorId => do
      verifySignedRevocation cfg origin.networkId kind revoked (keysFor t origin integratorId) event.timestamp
      if kind ≠ "achievement" then .ok ()
      else
        match attestations.lookup revoked.attestationId with
        | none => .error (.awaitingKey "the revoked attestation is not projected from this stream yet")
        | some row =>
          if row.issuer ≠ revoked.issuer ∨ row.networkId ≠ origin.networkId ∨ row.shardId ≠ origin.shardId then
            reject "revocation is not from the stream and issuer that issued the attestation"
          else .ok ()

end

/-! ## Deliveries -/

def asI64 : Value F → Option ℤ
  | .number (.posInt n) => if n.toNat < 2 ^ 63 then some n.toNat else none
  | .number (.negInt i _) => some i.toInt
  | _ => none

/-- the years -9999 to 9999 -/
def fromUnixTimestampNanos (nanos : ℤ) : Option OffsetDateTime :=
  if -377705116800 * 10 ^ 9 ≤ nanos ∧ nanos < 253402300800 * 10 ^ 9 then some nanos else none

def decodeAttestation (event : Event F) : Option AttestationWrite :=
  if event.kind = "achievement.issued" then do
    let id ← readUuid (get event.payload "id")
    let issuer ← readString (get event.payload "issuer")
    let subject ← readIdentityId (get event.payload "subject")
    let achievement ← readString (get event.payload "achievement")
    let micros ← (get event.payload "issued_at_micros").bind asI64
    let issuedAt ← fromUnixTimestampNanos (micros * 1000)
    return .issue id issuer subject achievement issuedAt
  else if event.kind = "achievement.revoked" then do
    let id ← readUuid (get event.payload "attestation_id")
    return .revoke id event.timestamp
  else none

/-- what else is verified and projected -/
structure Others (F P : Type) where
  empty : P
  verify : P → Event F → Option EventOrigin → Except IndexError Unit
  project : P → Event F → Option EventOrigin → Recorded F → Except IndexError P

structure Tables (P : Type) where
  issuers : IssuerTables
  attestations : Attestations
  rest : P

structure Delivery (F : Type) where
  now : OffsetDateTime
  event : Event F
  origin : Option EventOrigin

/-- network and shard of the stream -/
def stream (origin : Option EventOrigin) : Option FoldedCounts.EventOrigin := origin.map fun o => ⟨o.networkId, o.shardId⟩

/-- `attestations::decode` and `apply` -/
def projectAttestation (t : Tables P) (d : Delivery F) : Tables P :=
  match decodeAttestation d.event with
  | some write => { t with attestations := applyAttestation (stream d.origin) t.attestations write }
  | none => t

section

variable (cfg : Config) (parseTime : ParseTime) (others : Others F P)

def project (t : Tables P) (d : Delivery F) (recorded : Recorded F) : Except IndexError (Tables P) :=
  if d.event.kind = "game.registered" ∨ d.event.kind = "issuer.key_added" ∨ d.event.kind = "issuer.key_revoked" then
    match decodeIssuer parseTime d.event, d.origin with
    | some write, some origin => (applyIssuer t.issuers origin write).map fun issuers => { t with issuers := issuers }
    | _, _ => .ok t
  else if d.event.kind = "achievement.issued" then .ok (projectAttestation t d)
  else if d.event.kind = "achievement.revoked" then
    (verifyRevocation cfg t.issuers t.attestations d.event d.origin).map fun _ => projectAttestation t d
  else if d.event.kind = "milestone.revoked" then
    (verifyRevocation cfg t.issuers t.attestations d.event d.origin).map fun _ => t
  else (others.project t.rest d.event d.origin recorded).map fun rest => { t with rest := rest }

def empty : Indexed F (Tables P) := ⟨[], fun _ => .empty, ⟨.empty, ∅, others.empty⟩⟩

variable [Json.F64 F]

def deliver (s : Indexed F (Tables P)) (d : Delivery F) : Indexed F (Tables P) :=
  applyVerified s (dispatch (fun _ => IndexError.storage) (others.verify s.projected.rest d.event d.origin)
    (fun _ recorded => project cfg parseTime others s.projected d recorded) d.now ((d.origin.map EventOrigin.shardId).getD "") s
    d.event)

def deliverAll (ds : List (Delivery F)) : Indexed F (Tables P) := ds.foldl (deliver cfg parseTime others) (empty others)

end

/-! ## What a verified revocation has shown -/

/-- a key of the integrator that holds the issuer's reference on the stream: for attestations, valid then, and not revoked -/
structure SigningKey (t : IssuerTables) (origin : EventOrigin) (issuerRef : String) (time : OffsetDateTime) (k : IssuerKeyRow) :
    Prop where
  projected : k ∈ t.keys.rows
  network : k.networkId = origin.networkId
  shard : k.shardId = origin.shardId
  holder : ∃ r ∈ t.issuers.rows, r.networkId = origin.networkId ∧ r.shardId = origin.shardId ∧ r.issuerRef = issuerRef ∧
    r.integratorId = k.integratorId
  purpose : k.purpose = .attestation
  since : k.validFrom ≤ time
  till : ∀ validUntil ∈ k.validUntil, time < validUntil
  active : ∀ r ∈ t.revocations.rows, ¬ (r.networkId = k.networkId ∧ r.shardId = k.shardId ∧ r.keyId = k.keyId)

/-- the revocation of an attestation, signed by such a key for its stream -/
def Authorized (cfg : Config) (t : IssuerTables) (d : Delivery F) (id : Uuid) (row : AttestationRow) : Prop :=
  d.event.kind = "achievement.revoked" ∧ ∃ origin revoked k, ∃ key : FixedBytes 32, ∃ signature bytes signedHash, d.origin = some origin ∧
    row.networkId = origin.networkId ∧ row.shardId = origin.shardId ∧
    readClaimRevoked d.event.payload = some revoked ∧ revoked.attestationId = id ∧ revoked.issuer = row.issuer ∧
    SigningKey t origin row.issuer d.event.timestamp k ∧ k.keyId = revoked.proof.keyId ∧ k.publicKey = key.toList ∧
    (hexDecode revoked.reasonHash).bind (FixedBytes.ofList? 32) = some signedHash ∧ reasonHash revoked.reason = signedHash ∧
    (Base64.decode revoked.proof.bytes).bind (FixedBytes.ofList? 64) = some signature ∧
    revocationSigningBytes ⟨origin.networkId, "achievement", row.issuer, revoked.proof.keyId⟩ id revoked.reasonCode signedHash =
      .ok bytes ∧
    cfg.ed.verifyStrict key bytes signature = true

theorem mem_keysFor {t : IssuerTables} {origin : EventOrigin} {integratorId : Uuid} {key : IssuerKey}
    (h : key ∈ keysFor t origin integratorId) :
    ∃ k ∈ t.keys.rows, k.networkId = origin.networkId ∧ k.shardId = origin.shardId ∧ k.integratorId = integratorId ∧
      key.keyId = k.keyId ∧ key.publicKey = k.publicKey ∧ key.purpose = k.purpose ∧ key.validFrom = k.validFrom ∧
      key.validUntil = k.validUntil ∧ (key.revokedAt = none →
        ∀ r ∈ t.revocations.rows, ¬ (r.networkId = k.networkId ∧ r.shardId = k.shardId ∧ r.keyId = k.keyId)) := by
  obtain ⟨k, hk, rfl⟩ := List.mem_map.1 h
  obtain ⟨hk, hmatches⟩ := List.mem_filter.1 hk
  obtain ⟨hnetwork, hshard, hintegrator⟩ := of_decide_eq_true hmatches
  refine ⟨k, hk, hnetwork, hshard, hintegrator, rfl, rfl, rfl, rfl, rfl, ?_⟩
  intro hnone r hr hsame
  rw [Option.map_eq_none_iff, List.find?_eq_none] at hnone
  exact hnone r hr (decide_eq_true hsame)

theorem integratorFor_eq_some {t : IssuerTables} {origin : EventOrigin} {issuerRef : String} {integratorId : Uuid}
    (h : integratorFor t origin issuerRef = some integratorId) :
    ∃ r ∈ t.issuers.rows, r.networkId = origin.networkId ∧ r.shardId = origin.shardId ∧ r.issuerRef = issuerRef ∧
      r.integratorId = integratorId := by
  obtain ⟨r, hr, rfl⟩ := Option.map_eq_some_iff.1 h
  obtain ⟨hnetwork, hshard, href⟩ := of_decide_eq_true (List.find?_some hr :)
  exact ⟨r, List.mem_of_find?_eq_some hr, hnetwork, hshard, href, rfl⟩

theorem verifySignedRevocation_eq_ok {cfg : Config} {networkId kind : String} {revoked : ClaimRevokedPayload}
    {keys : List IssuerKey} {time : OffsetDateTime}
    (h : verifySignedRevocation cfg networkId kind revoked keys time = .ok ()) :
    ∃ stored, ∃ key : FixedBytes 32, ∃ signature bytes signedHash, resolveValidSigningKey keys revoked.proof.keyId time = some stored ∧
      stored.revokedAt = none ∧ stored.publicKey = key.toList ∧
      (hexDecode revoked.reasonHash).bind (FixedBytes.ofList? 32) = some signedHash ∧ reasonHash revoked.reason = signedHash ∧
      (Base64.decode revoked.proof.bytes).bind (FixedBytes.ofList? 64) = some signature ∧
      revocationSigningBytes ⟨networkId, kind, revoked.issuer, revoked.proof.keyId⟩ revoked.attestationId revoked.reasonCode
        signedHash = .ok bytes ∧
      cfg.ed.verifyStrict key bytes signature = true := by
  unfold verifySignedRevocation at h
  dsimp only at h
  split at h
  · cases h
  obtain ⟨signature, hsignature, h⟩ := bind_eq_ok.1 h
  split at h
  · cases h
  obtain ⟨stored, hstored, h⟩ := bind_eq_ok.1 h
  split at h
  · cases h
  rename_i hactive
  obtain ⟨signedHash, hhash, h⟩ := bind_eq_ok.1 h
  split at h
  · cases h
  rename_i hreason
  obtain ⟨key, hkey, h⟩ := bind_eq_ok.1 h
  obtain ⟨_, hparsed, h⟩ := bind_eq_ok.1 h
  have hparse := orReject_eq_ok hparsed
  unfold parseShardPublicKey at hparse
  split at hparse
  · cases hparse
    split at h
    · rename_i bytes hbytes
      split at h
      · rename_i hverified
        refine ⟨stored, key, signature, bytes, signedHash, orReject_eq_ok hstored, ?_,
          (FixedBytes.toList_of_ofList? (orReject_eq_ok hkey)).symm, orReject_eq_ok hhash, not_not.1 hreason,
          orReject_eq_ok hsignature, hbytes, hverified⟩
        simpa using hactive
      · cases h
    · cases h
  · cases hparse

/-- **A verified revocation is authorized** -/
theorem authorized_of_verify {cfg : Config} {t : IssuerTables} {attestations : Attestations} {d : Delivery F}
    (hkind : d.event.kind = "achievement.revoked")
    (h : verifyRevocation cfg t attestations d.event d.origin = .ok ()) :
    ∃ revoked row, readClaimRevoked d.event.payload = some revoked ∧ attestations.lookup revoked.attestationId = some row ∧
      Authorized cfg t d revoked.attestationId row := by
  unfold verifyRevocation at h
  rw [hkind, show claimKind "achievement.revoked" = some "achievement" from rfl] at h
  dsimp only at h
  obtain ⟨origin, horigin, h⟩ := bind_eq_ok.1 h
  obtain ⟨revoked, hrevoked, h⟩ := bind_eq_ok.1 h
  split at h
  · cases h
  split at h
  · cases h
  rename_i integratorId hintegrator
  obtain ⟨_, hsigned, h⟩ := bind_eq_ok.1 h
  rw [if_neg (by decide)] at h
  split at h
  · cases h
  rename_i row hrow
  split at h
  · cases h
  rename_i hsame
  have hsame' : row.issuer = revoked.issuer ∧ row.networkId = origin.networkId ∧ row.shardId = origin.shardId := by
    refine ⟨?_, ?_, ?_⟩ <;> by_contra hne <;> exact hsame (by simp [hne])
  obtain ⟨hissuer, hnetwork, hshard⟩ := hsame'
  obtain ⟨stored, key, signature, bytes, signedHash, hresolve, hactive, hkey, hhash, hreason, hsignature, hbytes, hverified⟩ :=
    verifySignedRevocation_eq_ok hsigned
  obtain ⟨hmem, hid, hpurpose, hfrom, huntil⟩ := resolveValidSigningKey_eq_some hresolve
  obtain ⟨k, hk, hkn, hks, hki, hkid, hkpk, hkpurpose, hkfrom, hkuntil, hkactive⟩ := mem_keysFor hmem
  refine ⟨revoked, row, orReject_eq_ok hrevoked, hrow, hkind, origin, revoked, k, key, signature, bytes, signedHash,
    orReject_eq_ok horigin, hnetwork, hshard, orReject_eq_ok hrevoked, rfl, hissuer.symm, ?_, hkid.symm.trans hid,
    hkpk.symm.trans hkey, hhash, hreason, hsignature, hissuer ▸ hbytes, hverified⟩
  exact {
    projected := hk
    network := hkn
    shard := hks
    holder := by
      obtain ⟨r, hr, h1, h2, h3, h4⟩ := integratorFor_eq_some hintegrator
      exact ⟨r, hr, h1, h2, h3.trans hissuer.symm, h4.trans hki.symm⟩
    purpose := hkpurpose.symm.trans hpurpose
    since := hkfrom ▸ hfrom
    till := hkuntil ▸ huntil
    active := hkactive hactive }

/-! ## One delivery -/

/-- the first issue of an attestation, from the stream of its row -/
def Issued (d : Delivery F) (id : Uuid) (row : AttestationRow) : Prop :=
  d.event.kind = "achievement.issued" ∧ readUuid (get d.event.payload "id") = some id ∧
    readString (get d.event.payload "issuer") = some row.issuer ∧
    row.networkId = FoldedCounts.originNetwork (stream d.origin) ∧ row.shardId = FoldedCounts.originShard (stream d.origin)

def revokedBy (row : AttestationRow) (d : Delivery F) : AttestationRow :=
  { row with revokedAt := some (timestamptz d.event.timestamp) }

/-- what may become of the row of an attestation -/
inductive RowStep (cfg : Config) (issuers : IssuerTables) (d : Delivery F) (id : Uuid) :
    Option AttestationRow → Option AttestationRow → Prop
  | same (row : Option AttestationRow) : RowStep cfg issuers d id row row
  | issued (row : AttestationRow) (h : Issued d id row) (hactive : row.revokedAt = none) : RowStep cfg issuers d id none (some row)
  | revoked (row : AttestationRow) (hactive : row.revokedAt = none) (h : Authorized cfg issuers d id row) :
    RowStep cfg issuers d id (some row) (some (revokedBy row d))

/-- the id that a revocation is decoded to is the one that was verified -/
theorem revoked_id {payload : Value F} {revoked : ClaimRevokedPayload} {id : Uuid}
    (hrevoked : readClaimRevoked payload = some revoked) (h : readUuid (get payload "attestation_id") = some id) :
    id = revoked.attestationId := by
  cases payload with
  | object entries =>
    unfold readClaimRevoked at hrevoked
    simp only [recordFields, List.map_cons, List.map_nil] at hrevoked
    obtain ⟨_, -, hrevoked⟩ := Option.bind_eq_some_iff.1 hrevoked
    obtain ⟨attestationId, hid, hrevoked⟩ := Option.bind_eq_some_iff.1 hrevoked
    obtain ⟨_, -, hrevoked⟩ := Option.bind_eq_some_iff.1 hrevoked
    obtain ⟨_, -, hrevoked⟩ := Option.bind_eq_some_iff.1 hrevoked
    obtain ⟨_, -, hrevoked⟩ := Option.bind_eq_some_iff.1 hrevoked
    obtain ⟨_, -, hrevoked⟩ := Option.bind_eq_some_iff.1 hrevoked
    obtain ⟨_, -, hrevoked⟩ := Option.bind_eq_some_iff.1 hrevoked
    obtain rfl := Option.some.inj hrevoked
    exact Option.some.inj (h.symm.trans hid)
  | _ => cases h

/-- an issue leaves every row that is there -/
theorem rowStep_issue {cfg : Config} {issuers : IssuerTables} {t : Tables P} {d : Delivery F}
    (hkind : d.event.kind = "achievement.issued") (id : Uuid) :
    RowStep cfg issuers d id (t.attestations.lookup id) ((projectAttestation t d).attestations.lookup id) := by
  unfold projectAttestation
  split
  · rename_i write hwrite
    unfold decodeAttestation at hwrite
    rw [if_pos hkind] at hwrite
    obtain ⟨newId, hid, hwrite⟩ := Option.bind_eq_some_iff.1 hwrite
    obtain ⟨issuer, hissuer, hwrite⟩ := Option.bind_eq_some_iff.1 hwrite
    obtain ⟨subject, -, hwrite⟩ := Option.bind_eq_some_iff.1 hwrite
    obtain ⟨achievement, -, hwrite⟩ := Option.bind_eq_some_iff.1 hwrite
    obtain ⟨micros, -, hwrite⟩ := Option.bind_eq_some_iff.1 hwrite
    obtain ⟨issuedAt, -, hwrite⟩ := Option.bind_eq_some_iff.1 hwrite
    obtain rfl := Option.some.inj hwrite
    dsimp only [applyAttestation]
    split
    · exact .same _
    · rename_i hnone
      rw [TableView.lookup_insert_eq]
      split_ifs with heq
      · rw [heq, hnone]
        exact .issued _ ⟨hkind, hid, hissuer, rfl, rfl⟩ rfl
      · exact .same _
  · exact .same _

/-- a verified revocation changes the row that it was verified for, if any -/
theorem rowStep_revoke {cfg : Config} {t : Tables P} {d : Delivery F} (hkind : d.event.kind = "achievement.revoked")
    (hverify : verifyRevocation cfg t.issuers t.attestations d.event d.origin = .ok ()) (id : Uuid) :
    RowStep cfg t.issuers d id (t.attestations.lookup id) ((projectAttestation t d).attestations.lookup id) := by
  obtain ⟨revoked, row, hrevoked, hrow, hauthorized⟩ := authorized_of_verify hkind hverify
  unfold projectAttestation
  split
  · rename_i write hwrite
    unfold decodeAttestation at hwrite
    rw [if_neg (by rw [hkind]; decide), if_pos hkind] at hwrite
    obtain ⟨oldId, hid, hwrite⟩ := Option.bind_eq_some_iff.1 hwrite
    obtain rfl := Option.some.inj hwrite
    obtain rfl := revoked_id hrevoked hid
    dsimp only [applyAttestation]
    rw [hrow]
    dsimp only
    split_ifs with hstream
    · rw [TableView.lookup_insert_eq]
      split_ifs with heq
      · rw [heq, hrow]
        exact .revoked row hstream.2.2 hauthorized
      · exact .same _
    · exact .same _
  · exact .same _

theorem attestations_project {cfg : Config} {parseTime : ParseTime} {others : Others F P} {t t' : Tables P} {d : Delivery F}
    {recorded : Recorded F} (h : project cfg parseTime others t d recorded = .ok t') (id : Uuid) :
    RowStep cfg t.issuers d id (t.attestations.lookup id) (t'.attestations.lookup id) := by
  unfold project at h
  split at h
  · split at h
    · obtain ⟨issuers, -, rfl⟩ := map_eq_ok h
      exact .same _
    · cases h
      exact .same _
  · split at h
    · rename_i hkind
      cases h
      exact rowStep_issue hkind id
    · split at h
      · rename_i hkind
        obtain ⟨_, hverify, rfl⟩ := map_eq_ok h
        exact rowStep_revoke hkind hverify id
      · split at h
        · obtain ⟨_, -, rfl⟩ := map_eq_ok h
          exact .same _
        · obtain ⟨rest, -, rfl⟩ := map_eq_ok h
          exact .same _

section

variable [Json.F64 F] (cfg : Config) (parseTime : ParseTime) (others : Others F P)

/-- **What a delivery does to an attestation** -/
theorem attestations_deliver (s : Indexed F (Tables P)) (d : Delivery F) (id : Uuid) :
    RowStep cfg s.projected.issuers d id (s.projected.attestations.lookup id)
      ((deliver cfg parseTime others s d).projected.attestations.lookup id) := by
  have hcases : (deliver cfg parseTime others s d).projected = s.projected ∨
      ∃ verified recorded, others.verify s.projected.rest d.event d.origin = .ok verified ∧
        project cfg parseTime others s.projected d recorded = .ok (deliver cfg parseTime others s d).projected :=
    Dispatch.projected_cases
  rcases hcases with hsame | ⟨_, recorded, -, hproject⟩
  · rw [hsame]
    exact .same _
  · exact attestations_project hproject id

/-! ## Any number of deliveries -/

theorem deliverAll_concat (ds : List (Delivery F)) (d : Delivery F) :
    deliverAll cfg parseTime others (ds ++ [d]) = deliver cfg parseTime others (deliverAll cfg parseTime others ds) d := by
  rw [deliverAll, deliverAll, List.foldl_append]
  rfl

/-- the tables after some deliveries -/
abbrev tablesAfter (ds : List (Delivery F)) : Tables P :=
  (deliverAll cfg parseTime others ds).projected

abbrev rowAfter (ds : List (Delivery F)) (id : Uuid) : Option AttestationRow :=
  (tablesAfter cfg parseTime others ds).attestations.lookup id

theorem rowStep_last (ds : List (Delivery F)) (d : Delivery F) (id : Uuid) :
    RowStep cfg (tablesAfter cfg parseTime others ds).issuers d id (rowAfter cfg parseTime others ds id)
      (rowAfter cfg parseTime others (ds ++ [d]) id) := by
  have h := attestations_deliver cfg parseTime others (deliverAll cfg parseTime others ds) d id
  rw [← deliverAll_concat] at h
  exact h

variable {cfg : Config} {parseTime : ParseTime} {others : Others F P}

/-- a revocation that is in the table stays as it is -/
theorem revocation_kept {before : List (Delivery F)} {id : Uuid} {row : AttestationRow}
    (hrow : rowAfter cfg parseTime others before id = some row) (hrevoked : row.revokedAt.isSome) (after : List (Delivery F)) :
    rowAfter cfg parseTime others (before ++ after) id = some row := by
  induction after using List.reverseRecOn with
  | nil => rwa [List.append_nil]
  | append_singleton after d ih =>
    have hstep := rowStep_last cfg parseTime others (before ++ after) d id
    rw [List.append_assoc, ih] at hstep
    generalize hlast : rowAfter cfg parseTime others (before ++ (after ++ [d])) id = last at hstep
    cases hstep with
    | same => rfl
    | revoked _ hactive _ =>
      rw [hactive] at hrevoked
      cases hrevoked

/-- the delivery that first issued the attestation -/
theorem issue_of_row {ds : List (Delivery F)} {id : Uuid} {row : AttestationRow}
    (h : rowAfter cfg parseTime others ds id = some row) :
    ∃ before d after, ds = before ++ d :: after ∧ rowAfter cfg parseTime others before id = none ∧ Issued d id row := by
  induction ds using List.reverseRecOn generalizing row with
  | nil => cases h
  | append_singleton ds d ih =>
    have hstep := rowStep_last cfg parseTime others ds d id
    have hearlier : ∀ old, rowAfter cfg parseTime others ds id = some old → old.issuer = row.issuer →
        old.networkId = row.networkId → old.shardId = row.shardId → ∃ before d' after, ds ++ [d] = before ++ d' :: after ∧
          rowAfter cfg parseTime others before id = none ∧ Issued d' id row := by
      intro old hold hissuer hnetwork hshard
      obtain ⟨before, d', after, rfl, hnone, hissued⟩ := ih hold
      unfold Issued at hissued
      rw [hissuer, hnetwork, hshard] at hissued
      exact ⟨before, d', after ++ [d], by simp, hnone, hissued⟩
    generalize hold : rowAfter cfg parseTime others ds id = old at hstep
    rw [h] at hstep
    cases hstep with
    | same => exact hearlier row hold rfl rfl rfl
    | issued _ hissued _ => exact ⟨ds, d, [], rfl, hold, hissued⟩
    | revoked old _ _ => exact hearlier old hold rfl rfl rfl

/-- the delivery that revoked the attestation -/
theorem revocation_of_row {ds : List (Delivery F)} {id : Uuid} {row : AttestationRow}
    (h : rowAfter cfg parseTime others ds id = some row) (hrevoked : row.revokedAt.isSome) :
    ∃ before d after old, ds = before ++ d :: after ∧ rowAfter cfg parseTime others before id = some old ∧ old.revokedAt = none ∧
      row = revokedBy old d ∧ Authorized cfg (tablesAfter cfg parseTime others before).issuers d id old := by
  induction ds using List.reverseRecOn with
  | nil => cases h
  | append_singleton ds d ih =>
    have hstep := rowStep_last cfg parseTime others ds d id
    generalize hold : rowAfter cfg parseTime others ds id = old at hstep
    rw [h] at hstep
    cases hstep with
    | same =>
      obtain ⟨before, d', after, old, rfl, hfound⟩ := ih hold
      exact ⟨before, d', after ++ [d], old, by simp, hfound⟩
    | issued _ _ hactive =>
      rw [hactive] at hrevoked
      cases hrevoked
    | revoked old hactive hauthorized => exact ⟨ds, d, [], old, rfl, hold, hactive, rfl, hauthorized⟩

end

/-- **Revocations of attestations.** After any deliveries: each attestation was first issued by a delivery from its row's stream,
under its row's issuer; a revoked one was revoked by a delivery from that stream too, at its event's time, and its issuer's holder
on that stream had signed it with a key for attestations, valid at that time and not revoked; and from there on the row stays. -/
theorem revocation_authority [Json.F64 F] (cfg : Config) (parseTime : ParseTime) (others : Others F P) (ds : List (Delivery F)) :
    (∀ id row, rowAfter cfg parseTime others ds id = some row →
      ∃ before d after, ds = before ++ d :: after ∧ rowAfter cfg parseTime others before id = none ∧ Issued d id row) ∧
    (∀ id row, rowAfter cfg parseTime others ds id = some row → row.revokedAt.isSome →
      ∃ before d after old, ds = before ++ d :: after ∧ rowAfter cfg parseTime others before id = some old ∧
        old.revokedAt = none ∧ row = revokedBy old d ∧
        Authorized cfg (tablesAfter cfg parseTime others before).issuers d id row) ∧
    ∀ before after, ds = before ++ after → ∀ id row, rowAfter cfg parseTime others before id = some row → row.revokedAt.isSome →
      rowAfter cfg parseTime others ds id = some row := by
  refine ⟨fun id row h => issue_of_row h, fun id row h hrevoked => ?_, ?_⟩
  · obtain ⟨before, d, after, old, hds, hold, hactive, rfl, hauthorized⟩ := revocation_of_row h hrevoked
    exact ⟨before, d, after, old, hds, hold, hactive, rfl, hauthorized⟩
  · rintro before after rfl id row h hrevoked
    exact revocation_kept h hrevoked after

end Avalon.AttestationRevocation
