/-
Chain hashes (`crates/protocol/src/identity_chain.rs`, the hashing part): the bytes an identity-chain event's hash
digests, and those of an owner-signed key event, whose hash covers only what its signature establishes.
-/
import Mathlib.Tactic
import Avalon.Core.Bytes
import Avalon.Protocol.SigningBytes
import Avalon.Protocol.Events
import Avalon.Protocol.IdentityId
import Avalon.Protocol.IdentityChain

namespace Avalon.IdentityChain

open Avalon.SigningBytes Avalon.Events Avalon.Identity

/-- every field the chain hash covers -/
@[ext] structure ChainHashInput where
  identityId : IdentityId
  seq : UInt64
  prevHash : Option EventHash
  eventId : Uuid
  kind : String
  issuer : String
  subject : String
  eventVersion : UInt32
  timestampMicros : Int64
  payloadHash : FixedBytes 32
  envelope : Envelope

/-- the bytes the chain hash digests -/
def chainEventSigningBytes (input : ChainHashInput) : Except SigningBytesError Bytes :=
  let builder := (Builder.withEnvelope .identityChainEvent input.envelope)
    |>.fixed input.identityId.asBytes
    |>.u64 input.seq
    |>.uuid input.eventId
    |>.str input.kind
    |>.str input.issuer
    |>.str input.subject
    |>.u32 input.eventVersion
    |>.i64 input.timestampMicros
    |>.hashAlgo input.envelope.hashAlgo
  ((optionalHash builder input.prevHash).hash input.payloadHash).finish

def computeEventHash (input : ChainHashInput) : Except SigningBytesError EventHash := do
  let message ← chainEventSigningBytes input
  return input.envelope.hashAlgo.digest message

/-- what an owner-signed key event's signature establishes -/
inductive KeyEventContent where
  | deviceGrant (signingKeyId : Uuid) (publicKey : FixedBytes 32) (approvedBySigningKeyId : Uuid) (grantId : Uuid)
      (approvalSignature : FixedBytes 64)
  | revocation (signingKeyId : Uuid) (revokedBySigningKeyId : Uuid) (signature : FixedBytes 64)
deriving DecidableEq

/-- every field the chain hash of a key event covers -/
@[ext] structure KeyEventHashInput where
  identityId : IdentityId
  seq : UInt64
  prevHash : Option EventHash
  content : KeyEventContent

/-- the bytes a key event's chain hash digests; the event id, time, issuer, subject and envelope are not covered -/
def keyEventSigningBytes (input : KeyEventHashInput) : Except SigningBytesError Bytes :=
  let builder := (Builder.new .identityKeyEvent 1)
    |>.fixed input.identityId.asBytes
    |>.u64 input.seq
    |>.hashAlgo .sha256
  let builder := optionalHash builder input.prevHash
  match input.content with
  | .deviceGrant signingKeyId publicKey approvedBySigningKeyId grantId approvalSignature =>
    builder
      |>.u8 1
      |>.uuid signingKeyId
      |>.uuid approvedBySigningKeyId
      |>.key publicKey
      |>.uuid grantId
      |>.signature approvalSignature
      |>.finish
  | .revocation signingKeyId revokedBySigningKeyId signature =>
    builder
      |>.u8 2
      |>.uuid signingKeyId
      |>.uuid revokedBySigningKeyId
      |>.signature signature
      |>.finish

def computeKeyEventHash (input : KeyEventHashInput) : Except SigningBytesError EventHash := do
  let message ← keyEventSigningBytes input
  return HashAlgo.sha256.digest message

end Avalon.IdentityChain
