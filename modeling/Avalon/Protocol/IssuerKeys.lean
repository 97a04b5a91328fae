/-
Keys of issuers, and what they sign to revoke a claim (`crates/protocol/src/integrators.rs`: `KeyRole`, `KeyPurpose`, `IssuerKey`,
`resolve_valid_signing_key`; `crates/protocol/src/achievements.rs`: `AttestationSigner`, `reason_hash`,
`revocation_signing_bytes`; the payloads of `crates/protocol/src/event_payloads.rs`).

A reason code is read from any text and written back as that text, so it is the text here. The reading of RFC 3339 times is a
parameter of the payloads that hold them.

- `resolveValidSigningKey_eq_some`: the key that is found has the id, is for attestations, and is valid at the time.
-/
import Mathlib.Tactic
import Avalon.Core.Bytes
import Avalon.Core.Json
import Avalon.Core.SortedMap
import Avalon.Protocol.SigningBytes
import Avalon.Protocol.LedgerEntry
import Avalon.Protocol.Events
import Avalon.Protocol.IdentityChainWire

namespace Avalon.IssuerKeys

open Json Avalon.SigningBytes Avalon.LedgerEntry Avalon.Events Avalon.IdentityChain

/-! ## Keys -/

inductive KeyRole where
  | root
  | operational
deriving DecidableEq, Repr

def KeyRole.parse : String → Option KeyRole
  | "root" => some root
  | "operational" => some operational
  | _ => none

inductive KeyPurpose where
  | attestation
  | shardSettlement
deriving DecidableEq, Repr

def KeyPurpose.parse : String → Option KeyPurpose
  | "attestation" => some attestation
  | "shard_settlement" => some shardSettlement
  | _ => none

structure IssuerKey where
  keyId : Uuid
  algorithm : String
  publicKey : Bytes
  role : KeyRole
  purpose : KeyPurpose
  validFrom : OffsetDateTime
  validUntil : Option OffsetDateTime
  revokedAt : Option OffsetDateTime

namespace IssuerKey

def isValidAt (key : IssuerKey) (time : OffsetDateTime) : Bool :=
  if time < key.validFrom then false
  else if key.revokedAt.any fun revokedAt => decide (time ≥ revokedAt) then false
  else if key.validUntil.any fun validUntil => decide (time ≥ validUntil) then false
  else true

def maySignAttestations (key : IssuerKey) : Bool := decide (key.purpose = .attestation)

end IssuerKey

def resolveValidSigningKey (keys : List IssuerKey) (keyId : Uuid) (time : OffsetDateTime) : Option IssuerKey :=
  keys.find? fun k => decide (k.keyId = keyId) && k.isValidAt time && k.maySignAttestations

theorem resolveValidSigningKey_eq_some {keys : List IssuerKey} {keyId : Uuid} {time : OffsetDateTime} {key : IssuerKey}
    (h : resolveValidSigningKey keys keyId time = some key) :
    key ∈ keys ∧ key.keyId = keyId ∧ key.purpose = .attestation ∧ key.validFrom ≤ time ∧
      ∀ validUntil ∈ key.validUntil, time < validUntil := by
  unfold resolveValidSigningKey at h
  have hfound := List.find?_some h
  rw [Bool.and_eq_true, Bool.and_eq_true] at hfound
  obtain ⟨⟨hid, hvalid⟩, hpurpose⟩ := hfound
  unfold IssuerKey.isValidAt at hvalid
  split at hvalid
  · cases hvalid
  · rename_i hfrom
    split at hvalid
    · cases hvalid
    · split at hvalid
      · cases hvalid
      · rename_i huntil
        refine ⟨List.mem_of_find?_eq_some h, of_decide_eq_true hid, of_decide_eq_true hpurpose, not_lt.1 hfrom, ?_⟩
        intro validUntil hmem
        by_contra hlate
        exact huntil ((Option.any_eq_true _ _).2 ⟨validUntil, hmem, decide_eq_true (not_lt.1 hlate)⟩)

/-! ## What a revocation signs -/

/-- for whom a claim is signed -/
structure AttestationSigner where
  networkId : String
  claimKind : String
  issuerRef : String
  signingKeyId : Uuid

def AttestationSigner.builder (signer : AttestationSigner) (tag : DomainTag) : Builder :=
  (Builder.new tag 1)
    |>.str signer.networkId
    |>.str signer.claimKind
    |>.str signer.issuerRef
    |>.uuid signer.signingKeyId

def reasonHash (reason : String) : FixedBytes 32 := Sha256.hash (utf8 reason)

def revocationSigningBytes (signer : AttestationSigner) (attestationId : Uuid) (reasonCode : String)
    (reasonHash : FixedBytes 32) : Except SigningBytesError Bytes :=
  (signer.builder .attestationRevoke)
    |>.uuid attestationId
    |>.str reasonCode
    |>.hashAlgo .sha256
    |>.hash reasonHash
    |>.finish

/-! ## Payloads -/

section

variable {F : Type}

structure ClaimProofPayload where
  keyId : Uuid
  algorithm : String
  bytes : String

structure ClaimRevokedPayload where
  id : Uuid
  attestationId : Uuid
  issuer : String
  reasonCode : String
  reason : String
  reasonHash : String
  proof : ClaimProofPayload

def readProof (v : Option (Value F)) : Option ClaimProofPayload :=
  match v.bind (recordFields ["key_id", "algorithm", "bytes"]) with
  | some [keyId, algorithm, bytes] => do return ⟨← readUuid keyId, ← readString algorithm, ← readString bytes⟩
  | _ => none

def readClaimRevoked (payload : Value F) : Option ClaimRevokedPayload :=
  match recordFields ["id", "attestation_id", "issuer", "reason_code", "reason", "reason_hash", "proof"] payload with
  | some [id, attestationId, issuer, reasonCode, reason, reasonHash, proof] => do
    return ⟨← readUuid id, ← readUuid attestationId, ← readString issuer, ← readString reasonCode, ← readString reason,
      ← readString reasonHash, ← readProof proof⟩
  | _ => none

structure GameRegisteredKeyPayload where
  keyId : Uuid
  algorithm : String
  publicKey : String

structure GameRegisteredPayload where
  gameId : Uuid
  slug : String
  name : String
  developer : String
  category : String
  requestedCapabilities : List String
  initialKey : GameRegisteredKeyPayload

def readStrings : Option (Value F) → Option (List String)
  | some (.array items) => items.mapM fun item => readString (some item)
  | _ => none

def readInitialKey (v : Option (Value F)) : Option GameRegisteredKeyPayload :=
  match v.bind (recordFields ["key_id", "algorithm", "public_key"]) with
  | some [keyId, algorithm, publicKey] => do return ⟨← readUuid keyId, ← readString algorithm, ← readString publicKey⟩
  | _ => none

def readGameRegistered (payload : Value F) : Option GameRegisteredPayload :=
  match recordFields ["game_id", "slug", "name", "developer", "category", "requested_capabilities", "initial_key"] payload with
  | some [gameId, slug, name, developer, category, requestedCapabilities, initialKey] => do
    return ⟨← readUuid gameId, ← readString slug, ← readString name, ← readString developer, ← readString category,
      ← readStrings requestedCapabilities, ← readInitialKey initialKey⟩
  | _ => none

structure IssuerKeyAddedPayload where
  gameId : Uuid
  slug : String
  keyId : Uuid
  algorithm : String
  publicKey : String
  role : String
  purpose : String
  validUntil : Option OffsetDateTime

/-- the fields of a record whose last ones have defaults: an array may leave them out -/
def recordFieldsFrom (required : ℕ) (names : List String) : Value F → Option (List (Option (Value F)))
  | .array items =>
    if required ≤ items.length ∧ items.length ≤ names.length then
      some (items.map some ++ List.replicate (names.length - items.length) none)
    else none
  | v => recordFields names v

/-- what `time` reads of an RFC 3339 text -/
abbrev ParseTime := String → Option OffsetDateTime

def readIssuerKeyAdded (parseTime : ParseTime) (payload : Value F) : Option IssuerKeyAddedPayload :=
  match recordFieldsFrom 6 ["game_id", "slug", "key_id", "algorithm", "public_key", "role", "purpose", "valid_until"] payload with
  | some [gameId, slug, keyId, algorithm, publicKey, role, purpose, validUntil] => do
    return ⟨← readUuid gameId, ← readString slug, ← readUuid keyId, ← readString algorithm, ← readString publicKey,
      ← readString role, ← (if purpose.isNone then some "attestation" else readString purpose),
      ← readOptional (fun v => (readString v).bind parseTime) validUntil⟩
  | _ => none

structure IssuerKeyRevokedPayload where
  gameId : Uuid
  slug : String
  keyId : Uuid
  revokedAt : OffsetDateTime
  reason : Option String

def readIssuerKeyRevoked (parseTime : ParseTime) (payload : Value F) : Option IssuerKeyRevokedPayload :=
  match recordFields ["game_id", "slug", "key_id", "revoked_at", "reason"] payload with
  | some [gameId, slug, keyId, revokedAt, reason] => do
    return ⟨← readUuid gameId, ← readString slug, ← readUuid keyId, ← (readString revokedAt).bind parseTime,
      ← readOptional readString reason⟩
  | _ => none

end

end Avalon.IssuerKeys
