/-
Signed tree heads (`crates/protocol/src/sth.rs`): only the tree head is signed, one per batch commit.

Results:
- `signTreeHeadWith_fields`: a signed head carries the values it was signed over.
- `verifyTreeHead_signTreeHeadWith`: a head signed by a key verifies under that key, for every Ed25519 implementation
  whose signatures verify.
-/
import Mathlib.Tactic
import Avalon.Core.Bytes
import Avalon.Core.Fallible
import Avalon.Protocol.SigningBytes
import Avalon.Protocol.LedgerEntry

namespace Avalon.Sth

open Avalon.SigningBytes Avalon.LedgerEntry

structure SignedTreeHead where
  treeSize : Int64
  rootHash : String
  networkId : String
  signingKeyId : String
  signature : String
  createdAt : OffsetDateTime
  envelope : Envelope
deriving DecidableEq

inductive SthSigningError where
  | invalidRootHash
  | layout (e : SigningBytesError)
deriving DecidableEq, Repr

/-- the bytes a tree head signature covers -/
def signingMessage (treeSize : Int64) (rootHashHex networkId signingKeyId : String) (createdAt : OffsetDateTime)
    (envelope : Envelope) : Except SthSigningError Bytes := do
  let root ← (parseHash "root_hash" rootHashHex).mapError fun _ => SthSigningError.invalidRootHash
  ((Builder.withEnvelope .settlementSth envelope)
    |>.i64 treeSize
    |>.str networkId
    |>.str signingKeyId
    |>.i64 createdAt.unixTimestamp
    |>.hashAlgo envelope.hashAlgo
    |>.hash root
    |>.finish).mapError .layout

def signTreeHeadWith (ed : Ed25519) (signingKey : FixedBytes 32) (signingKeyId : String) (treeSize : Int64)
    (rootHashHex networkId : String) (createdAt : OffsetDateTime) (envelope : Envelope) :
    Except SthSigningError SignedTreeHead := do
  let message ← signingMessage treeSize rootHashHex networkId signingKeyId createdAt envelope
  return {
    treeSize := treeSize
    rootHash := rootHashHex
    networkId := networkId
    signingKeyId := signingKeyId
    signature := hexEncode (ed.sign signingKey message).toList
    createdAt := createdAt
    envelope := envelope }

def signTreeHead (ed : Ed25519) (signingKey : FixedBytes 32) (signingKeyId : String) (treeSize : Int64)
    (rootHashHex networkId : String) (createdAt : OffsetDateTime) : Except SthSigningError SignedTreeHead :=
  signTreeHeadWith ed signingKey signingKeyId treeSize rootHashHex networkId createdAt (.current .settlementSth)

/-- a hex signature, checked over a message that may have failed to build -/
def verifyHexSignature {ε : Type} (ed : Ed25519) (key : FixedBytes 32) (message : Except ε Bytes)
    (signature : String) : Bool :=
  match message with
  | .error _ => false
  | .ok m =>
    match (hexDecode signature).bind (FixedBytes.ofList? 64) with
    | none => false
    | some s => ed.verifyStrict key m s

def verifyTreeHead (ed : Ed25519) (verifyingKey : FixedBytes 32) (sth : SignedTreeHead) : Bool :=
  verifyHexSignature ed verifyingKey
    (signingMessage sth.treeSize sth.rootHash sth.networkId sth.signingKeyId sth.createdAt sth.envelope) sth.signature

/-! ## Signing and verifying -/

/-- what a signed head holds -/
theorem signTreeHeadWith_fields {ed : Ed25519} {key : FixedBytes 32} {keyId rootHex networkId : String}
    {treeSize : Int64} {createdAt : OffsetDateTime} {envelope : Envelope} {sth : SignedTreeHead}
    (h : signTreeHeadWith ed key keyId treeSize rootHex networkId createdAt envelope = .ok sth) :
    ∃ message, signingMessage treeSize rootHex networkId keyId createdAt envelope = .ok message ∧
      sth = ⟨treeSize, rootHex, networkId, keyId, hexEncode (ed.sign key message).toList, createdAt, envelope⟩ := by
  unfold signTreeHeadWith at h
  obtain ⟨message, hm, h⟩ := Fallible.bind_eq_ok.1 h
  exact ⟨message, hm, (Except.ok.inj h).symm⟩

/-- **A signed head verifies** under the key that signed it -/
theorem verifyTreeHead_signTreeHeadWith {ed : Ed25519} {key : FixedBytes 32} {keyId rootHex networkId : String}
    {treeSize : Int64} {createdAt : OffsetDateTime} {envelope : Envelope} {sth : SignedTreeHead}
    (hsig : ∀ m, ed.verifyStrict (ed.verifyingKey key) m (ed.sign key m) = true)
    (h : signTreeHeadWith ed key keyId treeSize rootHex networkId createdAt envelope = .ok sth) :
    verifyTreeHead ed (ed.verifyingKey key) sth = true := by
  obtain ⟨message, hm, rfl⟩ := signTreeHeadWith_fields h
  simp only [verifyTreeHead, hm, verifyHexSignature, hexDecode_hexEncode, Option.bind_some, FixedBytes.ofList?_toList, hsig]

end Avalon.Sth
