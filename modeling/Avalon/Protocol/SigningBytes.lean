/-
Structured signing bytes (`crates/protocol/src/signing_bytes.rs`): the one binary layout of every signed or hashed
message, header | fields | extensions.

- `DomainTag` is the registry `tags`: one constructor per signed kind.
- `Extensions` carries its well-formedness: entries strictly ascending by type and within the size cap of some rules
  version. `Extensions.new` is the only way the source builds a non-empty one, and checks both.
- `Builder` writes the header, then fields in call order; the first error sticks and `finish` returns it.

Integers are fixed-width (`UInt16`, `UInt32`, `UInt64`, `Int64`) and written big-endian. Sizes are natural numbers: a
region is refused far below the machine range, so the source's saturating sums never saturate.
-/
import Mathlib.Tactic
import Avalon.Core.Bytes
import Avalon.Core.Sha256

namespace Avalon.SigningBytes

/-! ## Versions, caps and errors -/

/-- which part of a message needs a newer version than this node has -/
inductive VersionKind where
  | layout
  | rules
  | hashAlgo
  | sigAlgo
  | criticalExtension
deriving DecidableEq, Repr

inductive SigningBytesError where
  | fieldTooLong
  | tagMismatch
  | truncated
  | invalidUtf8
  | trailingBytes
  | needsNewerVersion (what : VersionKind) (required : UInt32)
  | unsupportedVersion (what : VersionKind) (value : UInt32)
  | extensionsUnsorted
  | extensionDuplicate (extType : UInt16)
  | extensionReservedFlags (flags : UInt8)
  | extensionsTooLarge
  | invalidHex
deriving DecidableEq, Repr

/-- the rules version this node authors under -/
def rulesVersion : UInt32 := 1

def rulesVersionMin : UInt32 := 1

def rulesVersionMax : UInt32 := 1

def extensionEntryHeader : ℕ := 7

def criticalFlag : UInt8 := 0x01

/-- consensus size caps -/
structure Caps where
  maxExtensionBytes : ℕ
deriving DecidableEq, Repr

/-- (first rules version, caps) rows, ascending -/
def capsTable : List (UInt32 × Caps) := [(1, ⟨4096⟩)]

/-- the last row at or below the version, or the first row -/
def capsFor (v : UInt32) : Caps :=
  ((capsTable.reverse.find? fun row => decide (row.1 ≤ v)).or capsTable.head?).get (by simp [capsTable]) |>.2

/-! ## Algorithms -/

inductive HashAlgo where
  | sha256
deriving DecidableEq, Repr

namespace HashAlgo

def id : HashAlgo → UInt8
  | .sha256 => 0x01

def fromId (i : UInt8) : Except SigningBytesError HashAlgo :=
  if i = 0x01 then .ok .sha256 else .error (.needsNewerVersion .hashAlgo i.toUInt32)

def digest : HashAlgo → Bytes → FixedBytes 32
  | .sha256, data => Sha256.hash data

end HashAlgo

inductive SigAlgo where
  | ed25519
deriving DecidableEq, Repr

def SigAlgo.id : SigAlgo → UInt8
  | .ed25519 => 0x01

def SigAlgo.fromId (i : UInt8) : Except SigningBytesError SigAlgo :=
  if i = 0x01 then .ok .ed25519 else .error (.needsNewerVersion .sigAlgo i.toUInt32)

/-- an Ed25519 implementation (`ed25519_dalek`): seeds, keys and signatures are raw bytes -/
structure Ed25519 where
  verifyingKey : FixedBytes 32 → FixedBytes 32
  sign : FixedBytes 32 → Bytes → FixedBytes 64
  verifyStrict : FixedBytes 32 → Bytes → FixedBytes 64 → Bool

/-! ## Domain tags -/

/-- the registry of domain tags, one per signed kind -/
inductive DomainTag where
  | identityCreated
  | deviceGrantApproved
  | identitySigningKeyRevoked
  | crossNodeLogin
  | sessionContinuation
  | interestClaim
  | attestationIssue
  | attestationBulkIssue
  | attestationRevoke
  | issuerRegistered
  | signatureGateAction
  | integratorNonceChallenge
  | ledgerEntry
  | identityChainEvent
  | identityKeyEvent
  | settlementSth
  | witnessCosign
  | witnessAnnounce
  | conformance
deriving DecidableEq, Repr

def DomainTag.asStr : DomainTag → String
  | .identityCreated => "avalon.identity.created"
  | .deviceGrantApproved => "avalon.device_grant.approved"
  | .identitySigningKeyRevoked => "avalon.identity.signing_key_revoked"
  | .crossNodeLogin => "avalon.cross_node_login"
  | .sessionContinuation => "avalon.session_continuation"
  | .interestClaim => "avalon.interest_claim"
  | .attestationIssue => "avalon.attestation.issue"
  | .attestationBulkIssue => "avalon.attestation.bulk_issue"
  | .attestationRevoke => "avalon.attestation.revoke"
  | .issuerRegistered => "avalon.issuer.registered"
  | .signatureGateAction => "avalon.signature_gate.action"
  | .integratorNonceChallenge => "avalon.integrator.nonce_challenge"
  | .ledgerEntry => "avalon.ledger.entry"
  | .identityChainEvent => "avalon.identity.chain_event"
  | .identityKeyEvent => "avalon.identity.key_event"
  | .settlementSth => "avalon.settlement.sth"
  | .witnessCosign => "avalon.witness.cosign"
  | .witnessAnnounce => "avalon.witness.announce"
  | .conformance => "avalon.conformance.vector"

/-- every registered tag -/
def DomainTag.all : List DomainTag :=
  [.identityCreated, .deviceGrantApproved, .identitySigningKeyRevoked, .crossNodeLogin, .sessionContinuation,
    .interestClaim, .attestationIssue, .attestationBulkIssue, .attestationRevoke, .issuerRegistered,
    .signatureGateAction, .integratorNonceChallenge, .ledgerEntry, .identityChainEvent, .identityKeyEvent,
    .settlementSth, .witnessCosign, .witnessAnnounce, .conformance]

theorem DomainTag.mem_all (t : DomainTag) : t ∈ all := by
  cases t <;> simp [all]

/-- supported layout versions per tag, first and last -/
def layoutVersions : DomainTag → UInt16 × UInt16
  | .conformance => (1, 2)
  | _ => (1, 1)

def checkLayout (tag : DomainTag) (version : UInt16) : Except SigningBytesError Unit :=
  if version > (layoutVersions tag).2 then .error (.needsNewerVersion .layout version.toUInt32)
  else if version < (layoutVersions tag).1 then .error (.unsupportedVersion .layout version.toUInt32)
  else .ok ()

def checkRules (version : UInt32) : Except SigningBytesError Unit :=
  if version > rulesVersionMax then .error (.needsNewerVersion .rules version)
  else if version < rulesVersionMin then .error (.unsupportedVersion .rules version)
  else .ok ()

/-! ## Extensions -/

structure Extension where
  extType : UInt16
  critical : Bool
  value : Bytes
deriving DecidableEq, Repr

/-- the bytes of the entries, each counting its header -/
def entriesSize (entries : List Extension) : ℕ := (entries.map fun e => extensionEntryHeader + e.value.length).sum

/-- the extensions region: strictly ascending by type, within the cap of some rules version -/
@[ext] structure Extensions where
  entries : List Extension
  ascending : entries.IsChain fun a b => a.extType < b.extType
  fits : ∃ v, entriesSize entries ≤ (capsFor v).maxExtensionBytes
deriving DecidableEq

namespace Extensions

def none : Extensions := ⟨[], .nil, 1, by simp [entriesSize]⟩

/-- the running size against the cap, entry by entry -/
def checkSize (max : ℕ) : ℕ → List Extension → Except SigningBytesError Unit
  | _, [] => .ok ()
  | total, e :: rest =>
    let total' := total + (extensionEntryHeader + e.value.length)
    if total' > max then .error .extensionsTooLarge else checkSize max total' rest

/-- ascending order and duplicates, by position -/
def checkOrder : List Extension → Except SigningBytesError Unit
  | a :: b :: rest =>
    if a.extType = b.extType then .error (.extensionDuplicate b.extType)
    else if a.extType > b.extType then .error .extensionsUnsorted
    else checkOrder (b :: rest)
  | _ => .ok ()

theorem size_le_of_checkSize {max total : ℕ} {entries : List Extension} (h : checkSize max total entries = .ok ())
    (ht : total ≤ max) : total + entriesSize entries ≤ max := by
  induction entries generalizing total with
  | nil => simpa [entriesSize] using ht
  | cons e rest ih =>
    simp only [checkSize] at h
    split_ifs at h with hgt
    have := ih h (by omega)
    simp only [entriesSize, List.map_cons, List.sum_cons] at this ⊢
    omega

theorem ascending_of_checkOrder {entries : List Extension} (h : checkOrder entries = .ok ()) :
    entries.IsChain fun a b => a.extType < b.extType := by
  induction entries with
  | nil => exact .nil
  | cons a rest ih =>
    cases rest with
    | nil => exact .singleton a
    | cons b rest =>
      simp only [checkOrder] at h
      split_ifs at h with h1 h2
      exact .cons_cons (UInt16.lt_of_le_of_ne (UInt16.not_lt.1 h2) h1) (ih h)

/-- validates the size bound, then order and uniqueness -/
def new (entries : List Extension) (rulesVersion : UInt32) : Except SigningBytesError Extensions :=
  match hs : checkSize (capsFor rulesVersion).maxExtensionBytes 0 entries with
  | .error e => .error e
  | .ok () =>
    if entries.length > 65535 then .error .extensionsTooLarge
    else
      match ho : checkOrder entries with
      | .error e => .error e
      | .ok () =>
        .ok ⟨entries, ascending_of_checkOrder ho,
          rulesVersion, by simpa using size_le_of_checkSize hs (Nat.zero_le _)⟩

/-- the region as hashed: count, then each entry -/
def encode (x : Extensions) : Bytes :=
  beBytes 2 x.entries.length ++ x.entries.flatMap fun e =>
    beBytes 2 e.extType.toNat ++ (if e.critical then criticalFlag else 0) ::
      (beBytes 4 e.value.length ++ e.value)

/-- critical extension types each tag understands: none are defined yet -/
def understoodExtensions (_tag : DomainTag) : List UInt16 := []

/-- refuses the first critical extension the tag does not understand -/
def requireUnderstood (x : Extensions) (tag : DomainTag) : Except SigningBytesError Unit :=
  match x.entries.find? fun e => e.critical && !(understoodExtensions tag).contains e.extType with
  | some e => .error (.needsNewerVersion .criticalExtension e.extType.toUInt32)
  | Option.none => .ok ()

end Extensions

/-! ## Envelopes -/

/-- the header values of a stored or received message -/
@[ext] structure Envelope where
  layoutVersion : UInt16
  rulesVersion : UInt32
  hashAlgo : HashAlgo
  extensions : Extensions
deriving DecidableEq

/-- what this node authors for a tag -/
def Envelope.current (tag : DomainTag) : Envelope :=
  ⟨(layoutVersions tag).2, SigningBytes.rulesVersion, .sha256, .none⟩

/-! ## Builder -/

/-- a message under construction; the first error sticks -/
structure Builder where
  tag : DomainTag
  rulesVersion : UInt32
  out : Bytes
  extensions : List Extension
  error : Option SigningBytesError

namespace Builder

def withRules (tag : DomainTag) (layoutVersion : UInt16) (rulesVersion : UInt32) : Builder :=
  let checked := do
    checkLayout tag layoutVersion
    checkRules rulesVersion
  { tag := tag, rulesVersion := rulesVersion,
    out := utf8 tag.asStr ++ beBytes 2 layoutVersion.toNat ++ beBytes 4 rulesVersion.toNat,
    extensions := [],
    error := match checked with
      | .error e => some e
      | .ok () => none }

def new (tag : DomainTag) (layoutVersion : UInt16) : Builder := withRules tag layoutVersion SigningBytes.rulesVersion

def withEnvelope (tag : DomainTag) (envelope : Envelope) : Builder :=
  { withRules tag envelope.layoutVersion envelope.rulesVersion with extensions := envelope.extensions.entries }

/-- adds an extension, checked at the end -/
def extension (b : Builder) (extType : UInt16) (critical : Bool) (value : Bytes) : Builder :=
  { b with extensions := b.extensions ++ [⟨extType, critical, value⟩] }

/-- variable-length bytes: a 32-bit length, then the bytes -/
def bytes (b : Builder) (value : Bytes) : Builder :=
  if value.length < 2 ^ 32 then { b with out := b.out ++ beBytes 4 value.length ++ value }
  else { b with error := b.error.or (some .fieldTooLong) }

def str (b : Builder) (value : String) : Builder := b.bytes (utf8 value)

/-- a fixed-width field, raw -/
def fixed {n : ℕ} (b : Builder) (value : FixedBytes n) : Builder := { b with out := b.out ++ value.toList }

def u8 (b : Builder) (value : UInt8) : Builder := b.fixed ⟨[value], rfl⟩

def u16 (b : Builder) (value : UInt16) : Builder := b.fixed ⟨beBytes 2 value.toNat, beBytes_length _ _⟩

def u32 (b : Builder) (value : UInt32) : Builder := b.fixed ⟨beBytes 4 value.toNat, beBytes_length _ _⟩

def u64 (b : Builder) (value : UInt64) : Builder := b.fixed ⟨beBytes 8 value.toNat, beBytes_length _ _⟩

/-- two's complement, big-endian -/
def i64 (b : Builder) (value : Int64) : Builder :=
  b.fixed ⟨beBytes 8 value.toUInt64.toNat, beBytes_length _ _⟩

def hash (b : Builder) (value : FixedBytes 32) : Builder := b.fixed value

def uuid (b : Builder) (value : FixedBytes 16) : Builder := b.fixed value

/-- the algorithm tag, then 32 raw bytes -/
def key (b : Builder) (value : FixedBytes 32) : Builder := (b.u8 SigAlgo.ed25519.id).fixed value

/-- the algorithm tag, then 64 raw bytes -/
def signature (b : Builder) (value : FixedBytes 64) : Builder := (b.u8 SigAlgo.ed25519.id).fixed value

def hashAlgo (b : Builder) (algo : HashAlgo) : Builder := b.u8 algo.id

/-- appends the extensions region, or returns the first error -/
def finish (b : Builder) : Except SigningBytesError Bytes := do
  if let some e := b.error then throw e
  let extensions ← Extensions.new b.extensions b.rulesVersion
  extensions.requireUnderstood b.tag
  return b.out ++ extensions.encode

end Builder

end Avalon.SigningBytes
