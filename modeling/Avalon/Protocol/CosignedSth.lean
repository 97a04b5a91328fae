/-
Cosigned tree heads (`crates/protocol/src/cosigned_sth.rs`): an author-signed head with the cosignatures that back it,
accepted against a verifier's own known list.

`BTreeSet<String>` is a `Finset String`; its iteration is in ascending order.

Results:
- `mem_validFreshWitnessIds`: which ids count for a head: those listed with the author's own key, and those with a
  bound, fresh cosignature that verifies under the first key listed for the id.
- `fork_accountability`: two accepted heads of one network and size with different roots give a nonempty set of listed
  witnesses, each of which signed both roots.
-/
import Mathlib
import Avalon.Core.Sha256
import Avalon.Protocol.Witness

namespace Avalon.CosignedSth

open Avalon.SigningBytes Avalon.LedgerEntry Avalon.Sth Avalon.Witness

/-! ## Model -/

structure CosignedTreeHead where
  sth : SignedTreeHead
  cosignatures : List WitnessCosignature

/-- the verifier's own list of witness ids and keys -/
abbrev KnownList := List (String × FixedBytes 32)

def toAsciiLowercase (b : UInt8) : UInt8 := if 0x41 ≤ b ∧ b ≤ 0x5a then b + 0x20 else b

def eqIgnoreAsciiCase (a b : String) : Bool := (utf8 a).map toAsciiLowercase == (utf8 b).map toAsciiLowercase

/-- the cosignature is for exactly this author-signed head -/
def boundTo (cosig : WitnessCosignature) (sth : SignedTreeHead) : Bool :=
  cosig.treeSize == sth.treeSize && cosig.rootHash == sth.rootHash && cosig.networkId == sth.networkId &&
  cosig.authorCreatedAt == sth.createdAt && cosig.envelope.hashAlgo == sth.envelope.hashAlgo &&
  cosig.authorKeyId == sth.signingKeyId && eqIgnoreAsciiCase cosig.authorSignature sth.signature

/-- whether a cosignature counts: bound to the head, fresh, and valid under the first key listed for its witness -/
def counts (ed : Ed25519) (head : CosignedTreeHead) (knownList : KnownList) (freshnessCutoff now : OffsetDateTime)
    (cosig : WitnessCosignature) : Bool :=
  if !boundTo cosig head.sth then false
  else if cosig.observedAt < freshnessCutoff ∨ cosig.observedAt > now then false
  else
    match knownList.find? fun entry => entry.1 == cosig.witnessKeyId with
    | none => false
    | some (_, verifyingKey) => verifyWitnessCosignature ed verifyingKey cosig

def validFreshWitnessIds (ed : Ed25519) (authorVerifyingKey : FixedBytes 32) (head : CosignedTreeHead)
    (knownList : KnownList) (freshnessCutoff now : OffsetDateTime) : Finset String :=
  let own := knownList.foldl
    (fun verified entry => if entry.2 = authorVerifyingKey then insert entry.1 verified else verified) ∅
  head.cosignatures.foldl
    (fun verified cosig =>
      if counts ed head knownList freshnessCutoff now cosig then insert cosig.witnessKeyId verified else verified) own

def verifyCosignedTreeHead (ed : Ed25519) (authorVerifyingKey : FixedBytes 32) (head : CosignedTreeHead)
    (knownList : KnownList) (freshnessCutoff now : OffsetDateTime) : Bool :=
  if !verifyTreeHead ed authorVerifyingKey head.sth then false
  else if knownList.length ≤ 1 then true
  else
    let verified := validFreshWitnessIds ed authorVerifyingKey head knownList freshnessCutoff now
    isCosignedByMajority knownList.length verified.card

def findEquivocatingWitnesses (ed : Ed25519) (authorVerifyingKey : FixedBytes 32) (knownList : KnownList)
    (freshnessCutoff now : OffsetDateTime) (headA headB : CosignedTreeHead) : List String :=
  if headA.sth.networkId ≠ headB.sth.networkId ∨ headA.sth.treeSize ≠ headB.sth.treeSize ∨
      headA.sth.rootHash = headB.sth.rootHash then []
  else if !verifyCosignedTreeHead ed authorVerifyingKey headA knownList freshnessCutoff now ||
      !verifyCosignedTreeHead ed authorVerifyingKey headB knownList freshnessCutoff now then []
  else
    let witnessesA := validFreshWitnessIds ed authorVerifyingKey headA knownList freshnessCutoff now
    let witnessesB := validFreshWitnessIds ed authorVerifyingKey headB knownList freshnessCutoff now
    (witnessesA ∩ witnessesB).sort (· ≤ ·)

/-! ## Which ids count -/

/-- a fold that inserts the images of the elements that pass a test -/
theorem mem_foldl_insert_if {α β : Type} [DecidableEq β] (p : α → Prop) [DecidablePred p] (f : α → β) (l : List α)
    (s : Finset β) (x : β) :
    x ∈ l.foldl (fun acc a => if p a then insert (f a) acc else acc) s ↔ x ∈ s ∨ ∃ a ∈ l, p a ∧ f a = x := by
  induction l generalizing s with
  | nil => simp
  | cons a l ih =>
    rw [List.foldl_cons, ih]
    by_cases ha : p a
    · simp only [ha, if_true, Finset.mem_insert, List.mem_cons, exists_eq_or_imp, true_and]
      rw [or_assoc, or_left_comm, eq_comm]
    · simp [ha]

/-- the id is listed with the author's own key -/
def ListedAsAuthor (authorVerifyingKey : FixedBytes 32) (knownList : KnownList) (id : String) : Prop :=
  (id, authorVerifyingKey) ∈ knownList

/-- a bound, fresh cosignature of the head under a key listed for the id -/
def CosignedBy (ed : Ed25519) (head : CosignedTreeHead) (knownList : KnownList)
    (freshnessCutoff now : OffsetDateTime) (id : String) : Prop :=
  ∃ cosig ∈ head.cosignatures, cosig.witnessKeyId = id ∧ boundTo cosig head.sth = true ∧
    freshnessCutoff ≤ cosig.observedAt ∧ cosig.observedAt ≤ now ∧
    ∃ key, (id, key) ∈ knownList ∧ verifyWitnessCosignature ed key cosig = true

theorem cosignedBy_of_counts {ed : Ed25519} {head : CosignedTreeHead} {knownList : KnownList}
    {freshnessCutoff now : OffsetDateTime} {cosig : WitnessCosignature} (hmem : cosig ∈ head.cosignatures)
    (h : counts ed head knownList freshnessCutoff now cosig = true) :
    CosignedBy ed head knownList freshnessCutoff now cosig.witnessKeyId := by
  unfold counts at h
  split_ifs at h with hbound hfresh
  cases hfind : knownList.find? fun entry => entry.1 == cosig.witnessKeyId with
  | none => rw [hfind] at h; cases h
  | some entry =>
    obtain ⟨id, key⟩ := entry
    rw [hfind] at h
    have hid : id = cosig.witnessKeyId := by simpa using List.find?_some hfind
    subst hid
    rw [not_or, not_lt, gt_iff_lt, not_lt] at hfresh
    exact ⟨cosig, hmem, rfl, by simpa using hbound, hfresh.1, hfresh.2, key, List.mem_of_find?_eq_some hfind, h⟩

/-- **Counted ids.** An id counts for a head exactly when it is listed with the author's key or one of the head's
cosignatures counts for it. -/
theorem mem_validFreshWitnessIds {ed : Ed25519} {author : FixedBytes 32} {head : CosignedTreeHead}
    {knownList : KnownList} {freshnessCutoff now : OffsetDateTime} {id : String} :
    id ∈ validFreshWitnessIds ed author head knownList freshnessCutoff now ↔
      ListedAsAuthor author knownList id ∨ ∃ cosig ∈ head.cosignatures,
        counts ed head knownList freshnessCutoff now cosig = true ∧ cosig.witnessKeyId = id := by
  simp only [validFreshWitnessIds, mem_foldl_insert_if, Finset.notMem_empty, false_or, ListedAsAuthor, Prod.exists]
  constructor
  · rintro (⟨i, k, hmem, rfl, rfl⟩ | h)
    · exact .inl hmem
    · exact .inr h
  · rintro (hmem | h)
    · exact .inl ⟨id, author, hmem, rfl, rfl⟩
    · exact .inr h

/-- counted ids are listed -/
theorem validFreshWitnessIds_subset (ed : Ed25519) (author : FixedBytes 32) (head : CosignedTreeHead)
    (knownList : KnownList) (freshnessCutoff now : OffsetDateTime) :
    validFreshWitnessIds ed author head knownList freshnessCutoff now ⊆ (knownList.map Prod.fst).toFinset := by
  intro id hid
  rw [List.mem_toFinset, List.mem_map]
  rcases mem_validFreshWitnessIds.1 hid with hauthor | ⟨cosig, hmem, hcounts, rfl⟩
  · exact ⟨_, hauthor, rfl⟩
  · obtain ⟨-, -, -, -, -, -, key, hlisted, -⟩ := cosignedBy_of_counts hmem hcounts
    exact ⟨_, hlisted, rfl⟩

/-! ## Accountability -/

theorem verifyTreeHead_of_cosigned {ed : Ed25519} {author : FixedBytes 32} {head : CosignedTreeHead}
    {knownList : KnownList} {freshnessCutoff now : OffsetDateTime}
    (h : verifyCosignedTreeHead ed author head knownList freshnessCutoff now = true) :
    verifyTreeHead ed author head.sth = true := by
  unfold verifyCosignedTreeHead at h
  split_ifs at h with hv <;> simpa using hv

/-- the head is accepted by more than its author's signature alone -/
theorem verifyCosignedTreeHead_iff {ed : Ed25519} {author : FixedBytes 32} {head : CosignedTreeHead}
    {knownList : KnownList} {freshnessCutoff now : OffsetDateTime} (h2 : 2 ≤ knownList.length) :
    verifyCosignedTreeHead ed author head knownList freshnessCutoff now = true ↔
      verifyTreeHead ed author head.sth = true ∧ majorityThreshold knownList.length ≤
        (validFreshWitnessIds ed author head knownList freshnessCutoff now).card := by
  unfold verifyCosignedTreeHead
  rw [if_neg (by omega : ¬ knownList.length ≤ 1)]
  cases verifyTreeHead ed author head.sth <;> simp [isCosignedByMajority]

/-- the listed id signed the root of the head: as its author, under the key listed for the id, or as a cosigner -/
def Signed (ed : Ed25519) (author : FixedBytes 32) (head : CosignedTreeHead) (knownList : KnownList)
    (freshnessCutoff now : OffsetDateTime) (id : String) : Prop :=
  (ListedAsAuthor author knownList id ∧ verifyTreeHead ed author head.sth = true) ∨
    CosignedBy ed head knownList freshnessCutoff now id

theorem signed_of_mem {ed : Ed25519} {author : FixedBytes 32} {head : CosignedTreeHead} {knownList : KnownList}
    {freshnessCutoff now : OffsetDateTime} {id : String} (hv : verifyTreeHead ed author head.sth = true)
    (h : id ∈ validFreshWitnessIds ed author head knownList freshnessCutoff now) :
    Signed ed author head knownList freshnessCutoff now id := by
  rcases mem_validFreshWitnessIds.1 h with hauthor | ⟨cosig, hmem, hcounts, rfl⟩
  · exact .inl ⟨hauthor, hv⟩
  · exact .inr (cosignedBy_of_counts hmem hcounts)

/-- **Fork accountability.** For every known list of at least two entries, in whatever order and with whatever
duplicates, two accepted heads of one network and tree size with different roots yield a nonempty accusation, and every
accused id is listed and signed both roots, as author or as cosigner. -/
theorem fork_accountability (ed : Ed25519) (author : FixedBytes 32) (knownList : KnownList)
    (freshnessCutoff now : OffsetDateTime) (headA headB : CosignedTreeHead) (h2 : 2 ≤ knownList.length)
    (hnet : headA.sth.networkId = headB.sth.networkId) (hsize : headA.sth.treeSize = headB.sth.treeSize)
    (hroot : headA.sth.rootHash ≠ headB.sth.rootHash)
    (hA : verifyCosignedTreeHead ed author headA knownList freshnessCutoff now = true)
    (hB : verifyCosignedTreeHead ed author headB knownList freshnessCutoff now = true) :
    findEquivocatingWitnesses ed author knownList freshnessCutoff now headA headB ≠ [] ∧
    ∀ id ∈ findEquivocatingWitnesses ed author knownList freshnessCutoff now headA headB,
      id ∈ knownList.map Prod.fst ∧ Signed ed author headA knownList freshnessCutoff now id ∧
        Signed ed author headB knownList freshnessCutoff now id := by
  have hfound : findEquivocatingWitnesses ed author knownList freshnessCutoff now headA headB =
      (validFreshWitnessIds ed author headA knownList freshnessCutoff now ∩
        validFreshWitnessIds ed author headB knownList freshnessCutoff now).sort (· ≤ ·) := by
    rw [findEquivocatingWitnesses, if_neg (by simp [hnet, hsize, hroot]), hA, hB]
    rfl
  obtain ⟨hvA, hmA⟩ := (verifyCosignedTreeHead_iff h2).1 hA
  obtain ⟨hvB, hmB⟩ := (verifyCosignedTreeHead_iff h2).1 hB
  have hids : (knownList.map Prod.fst).toFinset.card ≤ knownList.length := by
    simpa using List.toFinset_card_le (knownList.map Prod.fst)
  rw [hfound]
  constructor
  · obtain ⟨id, hid⟩ := majorities_meet (by omega) hids (validFreshWitnessIds_subset ed author headA _ _ _)
      (validFreshWitnessIds_subset ed author headB _ _ _) hmA hmB
    exact List.ne_nil_of_mem ((Finset.mem_sort _).2 hid)
  · intro id hid
    rw [Finset.mem_sort, Finset.mem_inter] at hid
    refine ⟨List.mem_toFinset.1 (validFreshWitnessIds_subset ed author headA _ _ _ hid.1), ?_, ?_⟩
    · exact signed_of_mem hvA hid.1
    · exact signed_of_mem hvB hid.2

/-! ## A fork of two known witnesses -/

def authorKey : FixedBytes 32 := .ofHex 32 "d04ab232742bb4ab3a1368bd4615e4e6d0224ab71a016baf8520a332c9778737"

def witnessKey : FixedBytes 32 := .ofHex 32 "a09aa5f47a6759802ff955f8dc2d2a14a5c99d23be97f864127ff9383455a4f0"

/-- the author's and the witness's signatures over root ab.. and over root cd.. -/
def authorSigAb : String :=
  "f1696bfd3a0d0b634c623aa83c9119a45c783f6bc81d5b022888feda536716aa8f431493c361b196cacae2e8d6eaf65c28ce6bba51875d2bb570cd592ab0f909"
def witnessSigAb : String :=
  "42448ba672e6e347421e6fae527c9e01feafa25ca6f4d1cbd922fd5c133051b76654d5a7b79bfb24a39a8defa6f54a6f67e1e2f045bb03ecc44e5bf2957e6e00"
def authorSigCd : String :=
  "65b345a88b95e86efec6316cd7407aad975560a608993f2efc473912471d2676f3004e5299d2b9c2c481c16800d7c3579b1ed96fd5f52c8569127d5ad6792c04"
def witnessSigCd : String :=
  "34aa10415c5bbfb5b9ab3b026e291ec98a127b0fdeb11ac5ac66760cae92ff21759ed3a0c7d8dbf8bf22f3b14468f05eea7c0ed31a1ce59b73cb840d99cc2f08"

/-- signatures of the conformance keys, as (key, SHA-256 of the signed bytes, signature) -/
def recordedSignatures : List (FixedBytes 32 × FixedBytes 32 × FixedBytes 64) := [
  (authorKey, .ofHex 32 "1669d2f7e97dd6cb3db2d7fc8fbafdae0b61d848e282600a4b7477c74dd569ef", .ofHex 64 authorSigAb),
  (witnessKey, .ofHex 32 "c38935c53a2176d549ca395cb34dbaa99b670c21ff8f4114e9a9cdacd71630ff", .ofHex 64 witnessSigAb),
  (authorKey, .ofHex 32 "27e023659c755950cc5210701895cea8b4583094d659ed695270304eba3e04d7", .ofHex 64 authorSigCd),
  (witnessKey, .ofHex 32 "ad7f0943bedc68a18b55df878cf1e2432760845a029c611af2b952a175a6b993", .ofHex 64 witnessSigCd)]

/-- Ed25519 restricted to the recorded signatures -/
def recordedEd25519 : Ed25519 where
  verifyingKey _ := authorKey
  sign _ _ := FixedBytes.replicate 64 0
  verifyStrict key message signature := recordedSignatures.contains (key, Sha256.hash message, signature)

def forkHead (root authorSignature witnessSignature : String) : CosignedTreeHead :=
  { sth := ⟨12, root, "avalon-conformance-test", "settlement-operator-1", authorSignature, 1790000000000000000,
      .current .settlementSth⟩
    cosignatures := [⟨12, root, "avalon-conformance-test", 1790000000000000000, "settlement-operator-1",
      authorSignature, "witness-1", 1790000600000000000, witnessSignature, .current .witnessCosign⟩] }

def headAb : CosignedTreeHead :=
  forkHead "abababababababababababababababababababababababababababababababab" authorSigAb witnessSigAb

def headCd : CosignedTreeHead :=
  forkHead "cdcdcdcdcdcdcdcdcdcdcdcdcdcdcdcdcdcdcdcdcdcdcdcdcdcdcdcdcdcdcdcd" authorSigCd witnessSigCd

/-- the author counts by its own key, the witness by its cosignatures -/
theorem fork_accountability_two_witnesses :
    findEquivocatingWitnesses recordedEd25519 authorKey [("author", authorKey), ("witness-1", witnessKey)]
      1790000000000000000 1790001000000000000 headAb headCd ≠ [] :=
  (fork_accountability recordedEd25519 authorKey [("author", authorKey), ("witness-1", witnessKey)]
    1790000000000000000 1790001000000000000 headAb headCd (by decide) (by decide) (by decide) (by decide)
    (by decide +kernel) (by decide +kernel)).1

end Avalon.CosignedSth
