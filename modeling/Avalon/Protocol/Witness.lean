/-
Witness cosignatures (`crates/protocol/src/witness.rs`): a second signature over the exact author-signed tree head,
counted against the verifier's own known list.

Results:
- `majorities_meet`: two sets of witnesses of a known list that both reach the majority threshold share a witness.
-/
import Mathlib.Tactic
import Avalon.Core.Bytes
import Avalon.Protocol.SigningBytes
import Avalon.Protocol.LedgerEntry
import Avalon.Protocol.Sth

namespace Avalon.Witness

open Avalon.SigningBytes Avalon.LedgerEntry Avalon.Sth

inductive WitnessSigningError where
  | invalidRootHash
  | invalidAuthorSignature
  | invalidKeyId
  | layout (e : SigningBytesError)
deriving DecidableEq, Repr

structure WitnessCosignature where
  treeSize : Int64
  rootHash : String
  networkId : String
  authorCreatedAt : OffsetDateTime
  authorKeyId : String
  authorSignature : String
  witnessKeyId : String
  observedAt : OffsetDateTime
  signature : String
  envelope : Envelope
deriving DecidableEq

def decodeAuthorSignature (hexText : String) : Except WitnessSigningError (FixedBytes 64) :=
  match (hexDecode hexText).bind (FixedBytes.ofList? 64) with
  | some bytes => .ok bytes
  | none => .error .invalidAuthorSignature

/-- the bytes a witness cosignature covers; its own signature is not read -/
def witnessSigningMessage (cosig : WitnessCosignature) (witnessKey : FixedBytes 32) :
    Except WitnessSigningError Bytes := do
  let root ← (parseHash "root_hash" cosig.rootHash).mapError fun _ => WitnessSigningError.invalidRootHash
  let authorSignature ← decodeAuthorSignature cosig.authorSignature
  ((Builder.withEnvelope .witnessCosign cosig.envelope)
    |>.i64 cosig.treeSize
    |>.str cosig.networkId
    |>.i64 cosig.authorCreatedAt.unixTimestamp
    |>.str cosig.authorKeyId
    |>.signature authorSignature
    |>.str cosig.witnessKeyId
    |>.key witnessKey
    |>.i64 cosig.observedAt.unixTimestamp
    |>.hashAlgo cosig.envelope.hashAlgo
    |>.hash root
    |>.finish).mapError .layout

/-- normalises the author signature to lowercase hex, then signs -/
def signUnsigned (ed : Ed25519) (witnessSigningKey : FixedBytes 32) (cosig : WitnessCosignature) :
    Except WitnessSigningError WitnessCosignature := do
  let authorSignature ← decodeAuthorSignature cosig.authorSignature
  let normalised := { cosig with authorSignature := hexEncode authorSignature.toList }
  let message ← witnessSigningMessage normalised (ed.verifyingKey witnessSigningKey)
  return { normalised with signature := hexEncode (ed.sign witnessSigningKey message).toList }

def signWitnessCosignature (ed : Ed25519) (witnessSigningKey : FixedBytes 32) (witnessKeyId : String)
    (head : SignedTreeHead) (observedAt : OffsetDateTime) : Except WitnessSigningError WitnessCosignature :=
  signUnsigned ed witnessSigningKey
    { treeSize := head.treeSize
      rootHash := head.rootHash
      networkId := head.networkId
      authorCreatedAt := head.createdAt
      authorKeyId := head.signingKeyId
      authorSignature := head.signature
      witnessKeyId := witnessKeyId
      observedAt := observedAt
      signature := ""
      envelope := { Envelope.current .witnessCosign with hashAlgo := head.envelope.hashAlgo } }

/-- a new cosignature over the same head, with a fresh observation time -/
def reattestWitnessCosignature (ed : Ed25519) (witnessSigningKey : FixedBytes 32) (witnessKeyId : String)
    (existing : WitnessCosignature) (observedAt : OffsetDateTime) : Except WitnessSigningError WitnessCosignature :=
  signUnsigned ed witnessSigningKey
    { existing with witnessKeyId := witnessKeyId, observedAt := observedAt, signature := "" }

def verifyWitnessCosignature (ed : Ed25519) (witnessVerifyingKey : FixedBytes 32) (cosig : WitnessCosignature) :
    Bool :=
  verifyHexSignature ed witnessVerifyingKey (witnessSigningMessage cosig witnessVerifyingKey) cosig.signature

/-- the bytes a witness announce proof covers; the key id must be the lowercase hex of the key -/
def witnessAnnounceMessage (baseUrl witnessKeyId : String) (announcedAt : OffsetDateTime) :
    Except WitnessSigningError Bytes := do
  let key ← (parseHash "witness_key_id" witnessKeyId).mapError fun _ => WitnessSigningError.invalidKeyId
  ((Builder.new .witnessAnnounce 1)
    |>.str baseUrl
    |>.key key
    |>.i64 announcedAt.unixTimestamp
    |>.finish).mapError .layout

/-! ## The majority threshold -/

def majorityThreshold (listSize : ℕ) : ℕ := if listSize = 0 then 0 else listSize / 2 + 1

def isCosignedByMajority (listSize distinctWitnesses : ℕ) : Bool := decide (distinctWitnesses ≥ majorityThreshold listSize)

/-- **Majorities meet.** Two majorities of a nonempty known list share a witness. -/
theorem majorities_meet {α : Type} [DecidableEq α] {known a b : Finset α} {listSize : ℕ} (hpos : 0 < listSize)
    (hcard : known.card ≤ listSize) (ha : a ⊆ known) (hb : b ⊆ known) (hma : majorityThreshold listSize ≤ a.card)
    (hmb : majorityThreshold listSize ≤ b.card) : (a ∩ b).Nonempty := by
  rw [majorityThreshold, if_neg (by omega)] at hma hmb
  rw [← Finset.card_pos]
  have hunion : (a ∪ b).card ≤ listSize := (Finset.card_le_card (Finset.union_subset ha hb)).trans hcard
  have hsum := Finset.card_union_add_card_inter a b
  omega

end Avalon.Witness
