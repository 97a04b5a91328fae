/-
What a name contest depends on (`crates/protocol/src/domain_proof.rs`: `contested_name_winner`).

The signature of a claim covers its time in whole seconds and its key as bytes, and a claim is accepted with any fraction of
the second, and its key in hex of either case. The contest compares the time as it is and the key as text.

Results:
- `contest_of_restated_iff`: a claim replaced by another accepted one with the same signature, key, id and name fares the same
  against a third one, unless that one is of another key and stands between the two; and the contest does not depend on order.
- `contest_of_canonical`: it always fares the same when whole seconds and lowercase keys are written, unless one signature
  is valid for the two messages.
-/
import Mathlib.Tactic
import Mathlib.Data.Prod.Lex
import Mathlib.Data.String.Basic
import Avalon.Core.Bytes
import Avalon.Protocol.LedgerEntry
import Avalon.Protocol.SigningBytes
import Avalon.Protocol.Shard
import Avalon.Protocol.DomainProof

namespace Avalon.DomainProof

open Avalon.SigningBytes Avalon.LedgerEntry

/-! ## Keys and ranks -/

/-- the key a claim is of, as bytes -/
def NameBindingClaim.key (claim : NameBindingClaim) : Option (FixedBytes 32) :=
  (hexDecode claim.publicKey).bind (FixedBytes.ofList? 32)

/-- both are accepted, with the same signature and key bytes, id and name -/
structure Restated (ed : Ed25519) (curve : CurveKeys) (a a' : NameBindingClaim) : Prop where
  accepted : verifyNameBindingClaim ed curve a = true
  accepted' : verifyNameBindingClaim ed curve a' = true
  signature : hexDecode a.signature = hexDecode a'.signature
  key : a.key = a'.key
  id : a.selfCertifyingId = a'.selfCertifyingId
  name : a.name = a'.name

/-- later than one of the two and earlier than the other, with key texts to break ties -/
def Between (c a a' : NameBindingClaim) : Prop := (a.rank < c.rank ∧ c.rank < a'.rank) ∨ (a'.rank < c.rank ∧ c.rank < a.rank)

theorem key_of_rank {a b : NameBindingClaim} (h : a.rank = b.rank) : a.key = b.key := by
  have htext : a.publicKey = b.publicKey := congrArg (fun r : ℤ ×ₗ String => (ofLex r).2) h
  rw [NameBindingClaim.key, NameBindingClaim.key, htext]

/-- claims of two keys are of two ranks -/
theorem lt_or_gt_of_key_ne {a c : NameBindingClaim} (h : c.key ≠ a.key) : a.rank < c.rank ∨ c.rank < a.rank :=
  lt_or_gt_of_ne fun heq => h (key_of_rank heq).symm

theorem contest_of_lt {a c : NameBindingClaim} (h : a.rank < c.rank) :
    contestedNameWinner a c = a ∧ contestedNameWinner c a = a := by
  rw [contestedNameWinner_eq, contestedNameWinner_eq, if_pos h.le, if_neg h.not_ge]
  exact ⟨rfl, rfl⟩

/-- among claims of one key the key wins -/
theorem key_of_contest {a c : NameBindingClaim} (h : c.key = a.key) :
    (contestedNameWinner a c).key = a.key ∧ (contestedNameWinner c a).key = a.key := by
  rw [contestedNameWinner_eq, contestedNameWinner_eq]
  constructor
  · split_ifs
    · rfl
    · exact h
  · split_ifs
    · exact h
    · rfl

/-! ## Order -/

/-- either order of two claims gives one key, even one text of it -/
theorem contest_comm (a b : NameBindingClaim) :
    (contestedNameWinner a b).publicKey = (contestedNameWinner b a).publicKey := by
  rcases lt_trichotomy a.rank b.rank with hlt | heq | hgt
  · rw [(contest_of_lt hlt).1, (contest_of_lt hlt).2]
  · rw [contestedNameWinner_eq, contestedNameWinner_eq, if_pos heq.le, if_pos heq.ge]
    exact congrArg (fun r : ℤ ×ₗ String => (ofLex r).2) heq
  · rw [(contest_of_lt hgt).2, (contest_of_lt hgt).1]

theorem contest_assoc (a b c : NameBindingClaim) :
    contestedNameWinner (contestedNameWinner a b) c = contestedNameWinner a (contestedNameWinner b c) := by
  simp only [contestedNameWinner_eq]
  by_cases hab : a.rank ≤ b.rank
  · rw [if_pos hab]
    by_cases hbc : b.rank ≤ c.rank
    · rw [if_pos hbc, if_pos hab, if_pos (hab.trans hbc)]
    · rw [if_neg hbc]
  · rw [if_neg hab]
    by_cases hbc : b.rank ≤ c.rank
    · rw [if_pos hbc, if_neg hab]
    · rw [if_neg hbc, if_neg fun hac => hbc ((not_le.1 hab).le.trans hac)]

/-- the same claims in another order have a winner of the same key -/
theorem winnerOf_perm {a b : NameBindingClaim} {as bs : List NameBindingClaim} (h : (a :: as).Perm (b :: bs)) :
    (winnerOf a as).publicKey = (winnerOf b bs).publicKey := by
  have hb := winnerOf_least b bs
  have hleast : Least (a :: as) (winnerOf b bs) := ⟨h.mem_iff.2 hb.1, fun c hc => hb.2 c (h.mem_iff.1 hc)⟩
  exact (winnerOf_least a as).publicKey hleast

/-! ## A claim in other words -/

/-- the two claims give one key against a third, unless that is of another key and stands between them -/
theorem same_key_iff {ed : Ed25519} {curve : CurveKeys} {a a' : NameBindingClaim} (h : Restated ed curve a a')
    (c : NameBindingClaim) :
    ((contestedNameWinner a c).key = (contestedNameWinner a' c).key ∧
      (contestedNameWinner c a).key = (contestedNameWinner c a').key) ↔ (c.key = a.key ∨ ¬Between c a a') := by
  by_cases hkey : c.key = a.key
  · have hkey' : c.key = a'.key := hkey.trans h.key
    refine iff_of_true ⟨?_, ?_⟩ (.inl hkey)
    · rw [(key_of_contest hkey).1, (key_of_contest hkey').1, h.key]
    · rw [(key_of_contest hkey).2, (key_of_contest hkey').2, h.key]
  · have hkey' : c.key ≠ a'.key := fun heq => hkey (heq.trans h.key.symm)
    rcases lt_or_gt_of_key_ne hkey with hlt | hgt
    · rcases lt_or_gt_of_key_ne hkey' with hlt' | hgt'
      · refine iff_of_true ?_ (.inr ?_)
        · rw [(contest_of_lt hlt).1, (contest_of_lt hlt').1, (contest_of_lt hlt).2, (contest_of_lt hlt').2]
          exact ⟨h.key, h.key⟩
        · rintro (⟨-, hbetween⟩ | ⟨-, hbetween⟩)
          · exact hbetween.not_gt hlt'
          · exact hbetween.not_gt hlt
      · refine iff_of_false ?_ ?_
        · rw [(contest_of_lt hlt).1, (contest_of_lt hgt').2]
          exact fun heq => hkey heq.1.symm
        · rintro (heq | hnot)
          · exact hkey heq
          · exact hnot (.inl ⟨hlt, hgt'⟩)
    · rcases lt_or_gt_of_key_ne hkey' with hlt' | hgt'
      · refine iff_of_false ?_ ?_
        · rw [(contest_of_lt hgt).2, (contest_of_lt hlt').1]
          exact fun heq => hkey' heq.1
        · rintro (heq | hnot)
          · exact hkey heq
          · exact hnot (.inr ⟨hlt', hgt⟩)
      · refine iff_of_true ?_ (.inr ?_)
        · rw [(contest_of_lt hgt).1, (contest_of_lt hgt').1, (contest_of_lt hgt).2, (contest_of_lt hgt').2]
          exact ⟨rfl, rfl⟩
        · rintro (⟨hbetween, -⟩ | ⟨hbetween, -⟩)
          · exact hbetween.not_gt hgt
          · exact hbetween.not_gt hgt'

/-- **What the contest depends on.** A claim and another accepted one with the same signature, key, id and name give the same
key against a third claim, in either order, exactly when that claim is of their key or does not stand between them. Of any
claims, the order in which they meet does not matter. -/
theorem contest_of_restated_iff (ed : Ed25519) (curve : CurveKeys) (a a' c : NameBindingClaim) (h : Restated ed curve a a') :
    ((((contestedNameWinner a c).key = (contestedNameWinner a' c).key ∧
      (contestedNameWinner c a).key = (contestedNameWinner c a').key) ↔ (c.key = a.key ∨ ¬Between c a a'))) ∧
    (∀ x y, (contestedNameWinner x y).publicKey = (contestedNameWinner y x).publicKey) ∧
    (∀ x y z, contestedNameWinner (contestedNameWinner x y) z = contestedNameWinner x (contestedNameWinner y z)) ∧
    (∀ x xs y ys, (x :: xs).Perm (y :: ys) → (winnerOf x xs).publicKey = (winnerOf y ys).publicKey) := by
  exact ⟨same_key_iff h c, contest_comm, contest_assoc, fun x xs y ys => winnerOf_perm⟩

/-! ## Claims as they are signed -/

/-- whole seconds, and the key in lowercase hex -/
structure Canonical (claim : NameBindingClaim) : Prop where
  wholeSecond : ∃ second : Int64, claim.createdAt = second.toInt * 1000000000
  lowercase : (utf8 claim.publicKey).all isLowerHex = true

/-- what the signature of a claim by that key covers -/
def NameBindingClaim.message (claim : NameBindingClaim) (key : FixedBytes 32) : Bytes :=
  nameBindingSigningMessage claim.selfCertifyingId key claim.name claim.createdAt

/-- an accepted claim's signature is valid for its message under its key -/
theorem signed_of_verify {ed : Ed25519} {curve : CurveKeys} {claim : NameBindingClaim}
    (h : verifyNameBindingClaim ed curve claim = true) :
    ∃ key signature, claim.key = some key ∧ (hexDecode claim.signature).bind (FixedBytes.ofList? 64) = some signature ∧
      ed.verifyStrict key (claim.message key) signature = true := by
  unfold verifyNameBindingClaim at h
  split at h
  · cases h
  · rename_i key hkey
    obtain ⟨bytes, hbytes, hparse⟩ := Option.bind_eq_some_iff.1 hkey
    unfold parseShardPublicKey at hparse
    split_ifs at hparse
    obtain rfl := Option.some.inj hparse
    split_ifs at h
    dsimp only at h
    split at h
    · cases h
    · rename_i signature hsignature
      exact ⟨bytes, signature, hbytes, hsignature, h⟩

/-- the messages of the two claims differ, and one signature is valid for both -/
def TwiceValid (ed : Ed25519) (a a' : NameBindingClaim) : Prop :=
  ∃ key signature, a.message key ≠ a'.message key ∧ ed.verifyStrict key (a.message key) signature = true ∧
    ed.verifyStrict key (a'.message key) signature = true

/-- the second is signed -/
theorem second_of_restated {ed : Ed25519} {curve : CurveKeys} {a a' : NameBindingClaim} (h : Restated ed curve a a') :
    a.createdAt.unixTimestamp = a'.createdAt.unixTimestamp ∨ TwiceValid ed a a' := by
  obtain ⟨key, signature, hkey, hsignature, hvalid⟩ := signed_of_verify h.accepted
  obtain ⟨key', signature', hkey', hsignature', hvalid'⟩ := signed_of_verify h.accepted'
  obtain rfl := Option.some.inj (hkey.symm.trans (h.key.trans hkey'))
  rw [← h.signature] at hsignature'
  obtain rfl := Option.some.inj (hsignature.symm.trans hsignature')
  by_cases heq : a.message key = a'.message key
  · left
    rw [NameBindingClaim.message, NameBindingClaim.message, h.id, h.name] at heq
    have hbytes := List.append_cancel_left heq
    have hbits := beBytes_inj (a.createdAt.unixTimestamp.toBitVec.isLt) (a'.createdAt.unixTimestamp.toBitVec.isLt) hbytes
    exact Int64.toBitVec_inj.1 (BitVec.eq_of_toNat_eq hbits)
  · exact .inr ⟨key, signature, heq, hvalid, hvalid'⟩

theorem unixTimestamp_of_wholeSecond {t : OffsetDateTime} {second : Int64} (h : t = second.toInt * 1000000000) :
    t.unixTimestamp = second := by
  rw [OffsetDateTime.unixTimestamp, h, Int.mul_ediv_cancel _ (by decide)]
  exact Int64.ofInt_toInt second

/-- canonical claims of one signature, key, id and name have one rank -/
theorem rank_of_canonical {ed : Ed25519} {curve : CurveKeys} {a a' : NameBindingClaim} (h : Restated ed curve a a')
    (ha : Canonical a) (ha' : Canonical a') : a.rank = a'.rank ∨ TwiceValid ed a a' := by
  rcases second_of_restated h with hsecond | htwice
  · left
    obtain ⟨second, htime⟩ := ha.wholeSecond
    obtain ⟨second', htime'⟩ := ha'.wholeSecond
    rw [unixTimestamp_of_wholeSecond htime, unixTimestamp_of_wholeSecond htime'] at hsecond
    obtain ⟨key, -, hkey, -⟩ := signed_of_verify h.accepted
    have hkey' : a'.key = some key := h.key.symm.trans hkey
    obtain ⟨bytes, hbytes, hfixed⟩ := Option.bind_eq_some_iff.1 hkey
    obtain ⟨bytes', hbytes', hfixed'⟩ := Option.bind_eq_some_iff.1 hkey'
    have htext := hexEncode_of_hexDecode ha.lowercase hbytes
    have htext' := hexEncode_of_hexDecode ha'.lowercase hbytes'
    rw [← FixedBytes.toList_of_ofList? hfixed] at htext
    rw [← FixedBytes.toList_of_ofList? hfixed'] at htext'
    rw [NameBindingClaim.rank, NameBindingClaim.rank, htime, htime', hsecond, ← htext, ← htext']
  · exact .inr htwice

/-- **Canonical claims fare the same** against every other claim -/
theorem contest_of_canonical (ed : Ed25519) (curve : CurveKeys) (a a' : NameBindingClaim) (h : Restated ed curve a a')
    (ha : Canonical a) (ha' : Canonical a') :
    (∀ c, (contestedNameWinner a c).key = (contestedNameWinner a' c).key ∧
      (contestedNameWinner c a).key = (contestedNameWinner c a').key) ∨ TwiceValid ed a a' := by
  rcases rank_of_canonical h ha ha' with hrank | htwice
  · left
    intro c
    refine (same_key_iff h c).2 (.inr ?_)
    rintro (⟨hlt, hgt⟩ | ⟨hlt, hgt⟩)
    · exact (hlt.trans hgt).ne hrank
    · exact (hlt.trans hgt).ne hrank.symm
  · exact .inr htwice

/-! ## A claim moved within its second -/

/-- a claim of wow-demo.example -/
def demoClaim (key : FixedBytes 32) (createdAt : OffsetDateTime) (signature : FixedBytes 64) : NameBindingClaim where
  selfCertifyingId := deriveSelfCertifyingId key
  publicKey := hexEncode key.toList
  name := "wow-demo.example"
  createdAt := createdAt
  signature := hexEncode signature.toList

def holderKey : FixedBytes 32 := .ofHex 32 "884b8857f4eaa1613c61504db34d4beaf346517a0e31de3cddd4d9b4201d9d0b"

def otherKey : FixedBytes 32 := .ofHex 32 "a09aa5f47a6759802ff955f8dc2d2a14a5c99d23be97f864127ff9383455a4f0"

/-- their signatures over claims of second 10 -/
def holderSignature : FixedBytes 64 := .ofHex 64
  "f7b2a7b00103dc71b765952c6105ccd94b4bccb14e5de5d58c4c1320fadc74ca0f7eefc91a00f0b16f6b06ca2d17068f6ba214a81c84e7e46c5834f4b9e41207"

def otherSignature : FixedBytes 64 := .ofHex 64
  "6531b1a3e82dba5b6d41e0607cc66a903f5a82bf4c67693d6f6a8600908362349de8d28969c80228fa3211402be8841b6d41d1f5f935c9c08af6904b02a51b0e"

/-- Ed25519 restricted to the two signatures -/
def demoEd25519 : Ed25519 where
  verifyingKey seed := seed
  sign _ _ := FixedBytes.replicate 64 0
  verifyStrict key message signature := decide (message = (demoClaim key 10000000000 signature).message key ∧
    ((key, signature) = (holderKey, holderSignature) ∨ (key, signature) = (otherKey, otherSignature)))

/-- both keys are points of large order -/
def demoCurve : CurveKeys where
  fromBytes key := decide (key = holderKey ∨ key = otherKey)
  isWeak _ := false

/-- any time within second 10 is accepted -/
theorem verify_demoClaim {key : FixedBytes 32} {signature : FixedBytes 64} {createdAt : OffsetDateTime}
    (hsigned : (key, signature) = (holderKey, holderSignature) ∨ (key, signature) = (otherKey, otherSignature))
    (hsecond : createdAt.unixTimestamp = 10) :
    verifyNameBindingClaim demoEd25519 demoCurve (demoClaim key createdAt signature) = true := by
  have hten : OffsetDateTime.unixTimestamp 10000000000 = 10 := by decide
  have hknown : key = holderKey ∨ key = otherKey := hsigned.imp (congrArg Prod.fst) (congrArg Prod.fst)
  have hcanonical : nonCanonicalY key = false := by
    rcases hknown with rfl | rfl
    · decide +kernel
    · decide +kernel
  have hparse : parseShardPublicKey demoCurve key = some key := by
    simp [parseShardPublicKey, isAcceptableEd25519Key, demoCurve, hcanonical, hknown]
  have hmessage : nameBindingSigningMessage (deriveSelfCertifyingId key) key "wow-demo.example" createdAt =
      (demoClaim key 10000000000 signature).message key := by
    rw [NameBindingClaim.message, nameBindingSigningMessage, nameBindingSigningMessage, hsecond]
    dsimp only [demoClaim]
    rw [hten]
  simp only [verifyNameBindingClaim, demoClaim, hexDecode_hexEncode, Option.bind_some, FixedBytes.ofList?_toList, hparse,
    ne_eq, not_true_eq_false, if_false, demoEd25519]
  exact decide_eq_true ⟨hmessage, hsigned⟩

/-- the holder's claim, and the same signature with a later time in its second -/
theorem restated_within_second :
    Restated demoEd25519 demoCurve (demoClaim holderKey 10000000000 holderSignature)
      (demoClaim holderKey 10800000000 holderSignature) :=
  ⟨verify_demoClaim (.inl rfl) (by decide), verify_demoClaim (.inl rfl) (by decide), rfl, rfl, rfl, rfl⟩

theorem demoClaims_keys (createdAt : OffsetDateTime) :
    (demoClaim holderKey createdAt holderSignature).key = some holderKey ∧
      (demoClaim otherKey createdAt otherSignature).key = some otherKey := by
  simp only [NameBindingClaim.key, demoClaim, hexDecode_hexEncode, Option.bind_some, FixedBytes.ofList?_toList, and_self]

/-- the holder wins, and with its claim moved by four fifths of a second it loses -/
theorem moved_claim_loses :
    let held := demoClaim holderKey 10000000000 holderSignature
    let moved := demoClaim holderKey 10800000000 holderSignature
    let rival := demoClaim otherKey 10500000000 otherSignature
    verifyNameBindingClaim demoEd25519 demoCurve held = true ∧ verifyNameBindingClaim demoEd25519 demoCurve moved = true ∧
      verifyNameBindingClaim demoEd25519 demoCurve rival = true ∧ held.signature = moved.signature ∧
      held.key = moved.key ∧ held.selfCertifyingId = moved.selfCertifyingId ∧ held.name = moved.name ∧
      (contestedNameWinner held rival).key ≠ (contestedNameWinner moved rival).key := by
  intro held moved rival
  refine ⟨restated_within_second.accepted, restated_within_second.accepted', verify_demoClaim (.inr rfl) (by decide), rfl, rfl,
    rfl, rfl, ?_⟩
  have hheld : contestedNameWinner held rival = held := by
    rw [contestedNameWinner, compare_lt_iff_lt.2 (by decide : held.createdAt < rival.createdAt)]
  have hmoved : contestedNameWinner moved rival = rival := by
    rw [contestedNameWinner, compare_gt_iff_gt.2 (by decide : moved.createdAt > rival.createdAt)]
  rw [hheld, hmoved, (demoClaims_keys _).1, (demoClaims_keys _).2]
  decide +kernel

/-- a claim that is earlier than both leaves the outcome as it is -/
theorem contest_of_restated_iff_earlier :
    let held := demoClaim holderKey 10000000000 holderSignature
    let moved := demoClaim holderKey 10800000000 holderSignature
    let rival := demoClaim otherKey 9500000000 otherSignature
    (contestedNameWinner held rival).key = (contestedNameWinner moved rival).key := by
  intro held moved rival
  refine (((contest_of_restated_iff demoEd25519 demoCurve held moved rival restated_within_second).1).2 (.inr ?_)).1
  have hearlier : rival.rank < held.rank := Prod.Lex.toLex_lt_toLex.2 (.inl (by decide))
  have hearlier' : rival.rank < moved.rank := Prod.Lex.toLex_lt_toLex.2 (.inl (by decide))
  rintro (⟨hlt, -⟩ | ⟨hlt, -⟩)
  · exact hlt.not_gt hearlier
  · exact hlt.not_gt hearlier'

end Avalon.DomainProof
