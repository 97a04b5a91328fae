/-
Identity ids and the bytes signed with them (`crates/protocol/src/identity_id.rs`).

An id is the digest of the inception key, written as 64 lowercase hex characters; parsing never normalises. The three
signed messages of an identity's life are here: inception, device grant and key revocation.

- `parse_toText`, `toText_of_parse`: the text of an id parses to it, and is the only text that does.
-/
import Mathlib.Tactic
import Avalon.Core.Bytes
import Avalon.Core.Sha256
import Avalon.Protocol.SigningBytes
import Avalon.Protocol.LedgerEntry
import Avalon.Protocol.Events

namespace Avalon.Identity

open Avalon.SigningBytes Avalon.LedgerEntry Avalon.Events

/-! ## Ids -/

inductive IdentityIdParseError where
  | unknownScheme (length : ℕ)
  | notLowercaseHex
deriving DecidableEq, Repr

/-- a self-certifying identity id: the raw digest -/
@[ext] structure IdentityId where
  asBytes : FixedBytes 32
deriving DecidableEq

namespace IdentityId

def parse (text : String) : Except IdentityIdParseError IdentityId :=
  if (utf8 text).length ≠ 64 then .error (.unknownScheme (utf8 text).length)
  else if !(utf8 text).all isLowerHex then .error .notLowercaseHex
  else
    match (hexDecode text).bind (FixedBytes.ofList? 32) with
    | some bytes => .ok ⟨bytes⟩
    | none => .error .notLowercaseHex

/-- the canonical text -/
def toText (id : IdentityId) : String := hexEncode id.asBytes.toList

end IdentityId

/-- hashed ahead of the key when an id is derived -/
def identityIdDomainTag : Bytes := utf8 "avalon-identity-id-v1"

def deriveIdentityId (publicKey : FixedBytes 32) : IdentityId :=
  ⟨Sha256.hash (identityIdDomainTag ++ publicKey.toList)⟩

/-! ## Signed messages -/

def identityCreatedSigningBytes (networkId : String) (ticketId : Uuid) (identityId : IdentityId)
    (publicKey : FixedBytes 32) (displayName : String) : Except SigningBytesError Bytes :=
  (Builder.new .identityCreated 1)
    |>.str networkId
    |>.uuid ticketId
    |>.fixed identityId.asBytes
    |>.key publicKey
    |>.str displayName
    |>.finish

/-- an optional hash: a flag byte, then the hash -/
def optionalHash (b : Builder) : Option (FixedBytes 32) → Builder
  | some hash => (b.u8 1).hash hash
  | none => b.u8 0

/-- the chain position a signed key event claims -/
def withPosition (b : Builder) (seq : UInt64) (prevHash : Option (FixedBytes 32)) : Builder :=
  optionalHash ((b.u64 seq).hashAlgo .sha256) prevHash

def deviceGrantApprovalSigningBytes (networkId : String) (grantId : Uuid) (identityId : IdentityId)
    (approverSigningKeyId : Uuid) (requestedPublicKey : FixedBytes 32) (seq : UInt64)
    (prevHash : Option (FixedBytes 32)) : Except SigningBytesError Bytes :=
  let builder := (Builder.new .deviceGrantApproved 1)
    |>.str networkId
    |>.uuid grantId
    |>.fixed identityId.asBytes
    |>.uuid approverSigningKeyId
    |>.key requestedPublicKey
  (withPosition builder seq prevHash).finish

def signingKeyRevokedSigningBytes (networkId : String) (identityId : IdentityId) (signingKeyId : Uuid)
    (revokedBySigningKeyId : Uuid) (seq : UInt64) (prevHash : Option (FixedBytes 32)) :
    Except SigningBytesError Bytes :=
  let builder := (Builder.new .identitySigningKeyRevoked 1)
    |>.str networkId
    |>.fixed identityId.asBytes
    |>.uuid signingKeyId
    |>.uuid revokedBySigningKeyId
  (withPosition builder seq prevHash).finish

/-! ## Text of ids -/

namespace IdentityId

theorem parse_toText (id : IdentityId) : parse id.toText = .ok id := by
  simp only [parse, toText, hexEncode_length, hexEncode_isLowerHex, List.Vector.toList_length, ne_eq,
    not_true_eq_false, if_false, Bool.not_true, Bool.false_eq_true, hexDecode_hexEncode, Option.bind_some,
    FixedBytes.ofList?_toList]

theorem toText_of_parse {text : String} {id : IdentityId} (h : parse text = .ok id) : id.toText = text := by
  simp only [parse] at h
  split_ifs at h with hlen hlower
  split at h
  · rename_i bytes hb
    cases h
    obtain ⟨bs, hbs, hof⟩ := Option.bind_eq_some_iff.1 hb
    rw [toText, FixedBytes.toList_of_ofList? hof]
    exact hexEncode_of_hexDecode (by simpa using hlower) hbs
  · cases h

end IdentityId

end Avalon.Identity
