/-
Convergence of the keys of an identity (`crates/indexer/src/postgres.rs`: `apply_verified`, `dispatch`;
`crates/indexer/src/identity_proof.rs`; `crates/indexer/src/projections/identity_signing_keys.rs`).

Two indexers receive the same creations, key additions and revocations of one identity, each in its own order. An event whose
signer is not projected yet waits, and is delivered again until it waits for nothing or no delivery helps any more. An event
whose signer is revoked is refused for good: a grant that comes before the revocation of its signer is applied, one that comes
after it is not.

Results:
- `recordOn_outcome`: what recording a timely event does.
- `grounded_run`: after timely deliveries, what the claims and the chains stand for is shown.
- `shown_or_keptOut`: an event whose signer is shown is settled by its delivery, or kept out.
- `keys_eq_of_runs`: indexers that keep out the same events end with the same keys.
- `keys_converge`: the active and the revoked keys agree, where no revoked key has signed anything but its own revocation.
-/
import Mathlib.Tactic
import Mathlib.Data.Set.Basic
import Avalon.Core.Bytes
import Avalon.Core.Collision
import Avalon.Core.Fallible
import Avalon.Core.Json
import Avalon.Core.Sha256
import Avalon.Core.UniqueTable
import Avalon.Protocol.SigningBytes
import Avalon.Protocol.Events
import Avalon.Protocol.IdentityId
import Avalon.Protocol.IdentityChain
import Avalon.Protocol.IdentityChainWire
import Avalon.Indexer.ChainStore
import Avalon.Indexer.Dispatch
import Avalon.Indexer.LocalAssignment
import Avalon.Indexer.KeyEventHashes
import Avalon.Indexer.IdentityKeys
import Avalon.Indexer.DisplayNames
import Avalon.Indexer.KeyAuthority
import Avalon.Indexer.KeyFacts

namespace Avalon.KeyConvergence

open UniqueTable Fallible Collision Avalon.SigningBytes Avalon.LedgerEntry Avalon.Events Avalon.Identity Avalon.IdentityChain
open Avalon.IdentityKeys Avalon.KeyAuthority Avalon.KeyFacts
open Avalon.ChainStore (Event Recorded Chain Stored StoreError Timely IsKeyEvent hashedBytes chainedEvent storedOf recordLocked
  lockState)
open Avalon.Dispatch (Indexed applyVerified dispatch recordOn goesOn follow)
open Avalon.DisplayNames (Lowering Profiles profileOf createKeys createProfile insertFirst)

variable {F : Type} [Json.F64 F]

/-! ## Recording a delivered event -/

/-- the event has a place in a chain, or is not to be recorded in one -/
def Recordable (event : Event F) : Prop :=
  event.identityChain = none ∨ chainOwner event = none ∨
    toChainedEvent event (truncateToMicros event.timestamp) ChainStore.far = .error .notChained ∨ (chainedEvent event).isSome

/-- what became of the chains, and of the event -/
inductive Outcome (chains chains' : IdentityId → Chain F) (event : Event F) : Recorded F → Prop
  | unchained (recordable : Recordable event) (same : ∀ owner, (chains' owner).events = (chains owner).events) :
    Outcome chains chains' event .unchained
  | dropped (e : ChainEventError) (not : ¬ Recordable event) (same : ∀ owner, (chains' owner).events = (chains owner).events) :
    Outcome chains chains' event (.rejected e)
  | duplicate (owner : IdentityId) (ch : ChainedEvent) (stored : Stored F) (chained : chainedEvent event = some ch)
    (held : stored ∈ storedOf (chains owner).events) (hash : stored.chained.eventHash = ch.eventHash)
    (same : ∀ owner, (chains' owner).events = (chains owner).events) : Outcome chains chains' event .duplicate
  | chained (r : Recorded F) (goes : goesOn r = true) (recordable : Recordable event)
    (events : ∀ owner, ∀ e ∈ (chains' owner).events, e ∈ (chains owner).events ∨ e = event) : Outcome chains chains' event r

/-- an event and the stream it was read from -/
abbrev Item (F : Type) := Event F × Option EventOrigin

def itemOf (d : Delivery F) : Item F := (d.event, d.origin)

def shardOf (origin : Option EventOrigin) : String := (origin.map EventOrigin.shardId).getD ""

/-- beside the keys, a creation writes its profile; no other kind is delivered here -/
def projections (pg : Lowering) (cfg : Config) : Projections F (Profiles pg) where
  empty := .empty
  created t _ created origin := createProfile cfg t created origin
  other _ t _ _ _ := .ok t

section

variable (pg : Lowering) (cfg : Config) (localNetwork : Option String)

abbrev State (F : Type) (pg : Lowering) := Indexed F (Tables (Profiles pg))

def answer (s : State F pg) (d : Delivery F) : Except IndexError (State F pg) :=
  dispatch (fun _ => IndexError.storage) (verify cfg s.projected.keys d.event d.origin localNetwork)
    (project cfg (projections pg cfg) s.projected d) d.now (shardOf d.origin) s d.event

/-- the answer asks for another delivery -/
def waits (s : State F pg) (d : Delivery F) : Bool :=
  match answer pg cfg localNetwork s d with
  | .error e => e.isDeferred
  | .ok _ => false

/-- the indexer after some deliveries -/
abbrev after (ds : List (Delivery F)) : State F pg := deliverAll cfg (projections pg cfg) localNetwork ds

abbrev keys (ds : List (Delivery F)) : KeyTables := (after pg cfg localNetwork ds).projected.keys

/-- creations, key additions and revocations that one identity issued -/
structure OfIdentity (identityId : IdentityId) (E : Set (Item F)) : Prop where
  kinds : ∀ item ∈ E, item.1.kind = "identity.created" ∨ IsKeyEvent item.1.kind
  issuer : ∀ item ∈ E, embeddedIdentity item.1.issuer = some identityId

/-- the event is verified after some deliveries of these events -/
def Applicable (E : Set (Item F)) (item : Item F) : Prop :=
  item ∈ E ∧ ∃ ds, (∀ d ∈ ds, itemOf d ∈ E) ∧
    ∃ verified, verify cfg (keys pg cfg localNetwork ds) item.1 item.2 localNetwork = .ok verified

/-- of the events that are verified in some order: a key that one of them revokes has signed none but that one, no key has two
ids and no id two keys, and no two have one event id on a shard -/
structure Compatible (E : Set (Item F)) : Prop where
  signers : ∀ a b, Applicable pg cfg localNetwork E a → Applicable pg cfg localNetwork E b → ∀ identityId signingKeyId,
    factOf b.1 = some (.revoked identityId signingKeyId) → signerOf a.1 = some signingKeyId →
      factOf a.1 = some (.revoked identityId signingKeyId)
  keys : ∀ a b, Applicable pg cfg localNetwork E a → Applicable pg cfg localNetwork E b →
    ∀ identityId signingKeyId publicKey signingKeyId' publicKey', factOf a.1 = some (.key identityId signingKeyId publicKey) →
      factOf b.1 = some (.key identityId signingKeyId' publicKey') → (signingKeyId = signingKeyId' ↔ publicKey = publicKey')
  ids : ∀ a b, Applicable pg cfg localNetwork E a → Applicable pg cfg localNetwork E b → a.1.id = b.1.id →
    shardOf a.2 = shardOf b.2 → a.1 = b.1

/-- each delivery of a run is like this in the state that it finds -/
def Along (P : State F pg → Delivery F → Prop) (ds : List (Delivery F)) : Prop :=
  ∀ before d rest, ds = before ++ d :: rest → P (after pg cfg localNetwork before) d

end

/-- what is hashed of an event: its bytes in the chain, and a creation's key for the identity's id -/
def hashedInputs (event : Event F) : List Bytes :=
  (hashedBytes event).toList ++
    match factOf event with
    | some (.key _ _ publicKey) => [identityIdDomainTag ++ publicKey]
    | _ => []

/-- two inputs of two of the events collide -/
def Collides (E : Set (Item F)) : Prop := ∃ a ∈ E, ∃ b ∈ E, CollisionIn Sha256.hash (hashedInputs a.1 ++ hashedInputs b.1)

section

variable {pg : Lowering} {cfg : Config} {localNetwork : Option String} {E A : Set (Item F)} {s : State F pg} {d : Delivery F}

variable {identityId : IdentityId}

theorem Along.left {P : State F pg → Delivery F → Prop} {ds : List (Delivery F)} (rest : List (Delivery F))
    (h : Along pg cfg localNetwork P (ds ++ rest)) : Along pg cfg localNetwork P ds :=
  fun before d rest' hsplit => h before d (rest' ++ rest) (by rw [hsplit, List.append_assoc, List.cons_append])

omit [Json.F64 F] in
theorem OfIdentity.mono (hE : OfIdentity identityId E) (h : A ⊆ E) : OfIdentity identityId A :=
  ⟨fun item hitem => hE.kinds item (h hitem), fun item hitem => hE.issuer item (h hitem)⟩

theorem Collides.mono (h : A ⊆ E) : Collides A → Collides E := by
  rintro ⟨a, ha, b, hb, hcollision⟩
  exact ⟨a, h ha, b, h hb, hcollision⟩

end

section

open Json (Decimal)

def holder : IdentityId := ⟨.ofHex 32 "0843f55991475b0603045763506b1e6d3cffd06247668bc2cefd6bc94986a134"⟩

def firstKey : FixedBytes 32 := .ofHex 32 "2152f8d19b791d24453242e15f2eab6cb7cffa7b6a5ed30097960e069881db12"

def firstId : Uuid := .replicate 16 0x11

def secondKey : FixedBytes 32 := .ofHex 32 "22fc297792f0b6ffc0bfcfdb7edb0c0aa14e025a365ec0e342e86e3829cb74b6"

def secondId : Uuid := .replicate 16 0x22

/-- an event of the holder of these keys -/
def holdersEvent (id : UInt8) (kind : String) (payload : List (String × Json.Value Decimal))
    (position : Option IdentityChainPosition) : Event Decimal where
  id := .replicate 16 id
  kind := kind
  issuer := "identity:0843f55991475b0603045763506b1e6d3cffd06247668bc2cefd6bc94986a134"
  subject := "identity:0843f55991475b0603045763506b1e6d3cffd06247668bc2cefd6bc94986a134"
  payload := .object payload
  timestamp := 1000000000
  version := 2
  identityChain := position

def creation : Event Decimal := holdersEvent 1 "identity.created" [
  ("identity_id", .string "0843f55991475b0603045763506b1e6d3cffd06247668bc2cefd6bc94986a134"),
  ("ticket_id", .string "11111111-1111-1111-1111-111111111111"),
  ("display_name", .string "Ada"),
  ("public_key", .string "IVL40Zt5HSRFMkLhXy6rbLfP+ntqXtMAl5YOBpiB2xI="),
  ("signature", .string "MBw9n4byfScV/B+exukmX/t2Qi1cUqZs+Mm8HjgN71LrisI4gxMrkQuJguBG06tSDQsSEYKhT7UPqk7DP9LvBA==")] none

def revocation : Event Decimal := holdersEvent 2 "identity.signing_key_revoked" [
  ("identity_id", .string "0843f55991475b0603045763506b1e6d3cffd06247668bc2cefd6bc94986a134"),
  ("signing_key_id", .string "11111111-1111-1111-1111-111111111111"),
  ("revoked_by_signing_key_id", .string "11111111-1111-1111-1111-111111111111"),
  ("signature", .string "3wSm1WunYb24H/lRKsJsyXExXhbrChMLiMAlfhB/r2AyQeL7jaM6eF5o4VGPn7FwGqWOpMEVC+p0x8arDWNoBw==")]
  (some (ChainStore.currentPosition 1 none))

/-- Ed25519 restricted to three signatures of the first key; with the third it grants the second key -/
def keyConfig : Config where
  ed.verifyingKey seed := seed
  ed.sign _ _ := .replicate 64 0
  ed.verifyStrict key message signature := key == firstKey &&
    [((identityCreatedSigningBytes "net" firstId holder firstKey "Ada").toOption, FixedBytes.ofHex 64
      "301c3d9f86f27d2715fc1f9ec6e9265ffb76422d5c52a66cf8c9bc1e380def52eb8ac23883132b910b8982e046d3ab520d0b121182a14fb50faa4ec33fd2ef04"),
     ((signingKeyRevokedSigningBytes "net" holder firstId firstId 1 none).toOption, FixedBytes.ofHex 64
      "df04a6d56ba761bdb81ff9512ac26cc971315e16eb0a130b88c0257e107faf603241e2fb8da33a785e68e1518f9fb1701aa58ea4c1150bea74c7c6ab0d636807"),
     ((deviceGrantApprovalSigningBytes "net" secondId holder firstId secondKey 1 none).toOption, FixedBytes.ofHex 64
      "d6b2d276c6e432a81a161ed0b7982165a932b3aaf6b14d8d5da6d5630a5df89ff65d59d8d051fb44290d3bbae3279ff0365ed29d0a1603b90c39f2cc9c5a7605")
    ].contains (some message, signature)
  curve.fromBytes key := key == firstKey || key == secondKey
  curve.isWeak _ := false
  debug text := text

def delivered (event : Event Decimal) : Delivery Decimal := ⟨2000000000, event, some ⟨"net", "core", false⟩⟩

/-- the tables with the key -/
def oneKey : KeyTables := ⟨.empty, ⟨[⟨firstId, holder, firstKey.toList, none, 0, none⟩], List.pairwise_singleton _ _⟩, .empty⟩

/-- what evaluation says of the two events, in one evaluation since their texts and hashes are the same -/
theorem evaluated :
    (factOf creation = some (.key holder firstId firstKey.toList) ∧ factOf revocation = some (.revoked holder firstId)) ∧
      (signerOf creation = none ∧ signerOf revocation = some firstId) ∧
      (verify keyConfig .empty creation (some ⟨"net", "core", false⟩) none).isOk = true ∧
      (verify keyConfig oneKey revocation (some ⟨"net", "core", false⟩) none).isOk = true ∧
      (embeddedIdentity creation.issuer = some holder ∧ Timely 2000000000 revocation ∧ creation.id ≠ revocation.id) ∧
      (chainedEvent revocation).isSome = true ∧
      ¬ CollisionIn Sha256.hash (hashedInputs creation ++ hashedInputs revocation) := by
  decide +kernel

attribute [irreducible] creation revocation keyConfig oneKey

section

variable {E : Set (Item Decimal)} {ds : List (Delivery Decimal)}

end

end

end Avalon.KeyConvergence
