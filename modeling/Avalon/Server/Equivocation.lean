/-
Confirming a reported fork (`crates/server/src/equivocation.rs`: `known_list_from_cosignatures`, `confirm_equivocation`,
`confirm_author_equivocation`).

Two heads that peers serve for one shard are judged by their signatures alone. Neither the bytes of a tree head nor those of
a cosignature name the shard, so a signature made for one shard of a network counts for every other shard its author key is
authorised for. `Signatures` is everything one key ever signed, with the shard it signed it for. The adversary presents any two heads
with any cosignatures, in which no signature of the key is forged (`Unforged`).

Results:
- `knownList_parse`: each listed id is the text of the key listed for it.
- `framed_of_heads`, `framed_of_cosignatures`: two conflicting statements of a key, for whatever shards, name it.
- `never_framed_iff`: a key is never named if and only if all its heads of one network agree, over all shards, and so do those
  of its cosignatures that one author key and one freshness window can bring together.
- `two_shards_frame_author`: an author that is honest on each of its two shards is named.
-/
import Mathlib.Tactic
import Avalon.Core.Bytes
import Avalon.Core.Sha256
import Avalon.Core.Fallible
import Avalon.Protocol.SigningBytes
import Avalon.Protocol.LedgerEntry
import Avalon.Protocol.Sth
import Avalon.Protocol.Witness
import Avalon.Protocol.CosignedSth
import Avalon.Protocol.SignedMessages

namespace Avalon.Equivocation

open Avalon.SigningBytes Avalon.LedgerEntry Avalon.Sth Avalon.Witness Avalon.CosignedSth Avalon.SignedMessages

/-! ## Confirmation -/

/-- ten minutes -/
def confirmationFreshnessWindow : ℤ := 10 * 60 * 10 ^ 9

/-- `isKey`: the bytes are a point of the curve (`VerifyingKey::from_bytes`) -/
def parseWitnessVerifyKey (isKey : FixedBytes 32 → Bool) (witnessKeyId : String) : Option (FixedBytes 32) :=
  match (hexDecode witnessKeyId).bind (FixedBytes.ofList? 32) with
  | none => none
  | some key => if isKey key then some key else none

/-- the keys named by the cosignatures of either head, each id once -/
def knownListFromCosignatures (isKey : FixedBytes 32 → Bool) (headA headB : CosignedTreeHead) : KnownList :=
  (headA.cosignatures ++ headB.cosignatures).foldl
    (fun list cosig =>
      if list.any fun entry => entry.1 = cosig.witnessKeyId then list
      else
        match parseWitnessVerifyKey isKey cosig.witnessKeyId with
        | some key => list ++ [(cosig.witnessKeyId, key)]
        | none => list) []

def confirmEquivocation (ed : Ed25519) (isKey : FixedBytes 32 → Bool) (candidateAuthorKeys : List (FixedBytes 32))
    (headA headB : CosignedTreeHead) (now : OffsetDateTime) : Option (FixedBytes 32 × List String) :=
  let knownList := knownListFromCosignatures isKey headA headB
  let freshnessCutoff := now - confirmationFreshnessWindow
  candidateAuthorKeys.findSome? fun key =>
    let equivocators := findEquivocatingWitnesses ed key knownList freshnessCutoff now headA headB
    if equivocators = [] then none else some (key, equivocators)

def confirmAuthorEquivocation (ed : Ed25519) (candidateAuthorKeys : List (FixedBytes 32))
    (headA headB : CosignedTreeHead) : Option (FixedBytes 32) :=
  if headA.sth.networkId ≠ headB.sth.networkId ∨ headA.sth.treeSize ≠ headB.sth.treeSize ∨
      headA.sth.rootHash = headB.sth.rootHash then none
  else candidateAuthorKeys.find? fun key => verifyTreeHead ed key headA.sth && verifyTreeHead ed key headB.sth

/-! ## What a key signed -/

/-- the heads and the cosignatures a key made, each with the shard it was made for -/
structure Signatures where
  heads : List (String × SignedTreeHead)
  cosignatures : List (String × WitnessCosignature)

/-- per network and shard, no two roots at one size -/
def Signatures.HonestPerShard (made : Signatures) : Prop :=
  (∀ x ∈ made.heads, ∀ y ∈ made.heads, x.1 = y.1 → x.2.networkId = y.2.networkId → x.2.treeSize = y.2.treeSize →
    x.2.rootHash = y.2.rootHash) ∧
  ∀ x ∈ made.cosignatures, ∀ y ∈ made.cosignatures, x.1 = y.1 → x.2.networkId = y.2.networkId →
    x.2.treeSize = y.2.treeSize → x.2.rootHash = y.2.rootHash

def headMessage (head : SignedTreeHead) : Except SthSigningError Bytes :=
  signingMessage head.treeSize head.rootHash head.networkId head.signingKeyId head.createdAt head.envelope

/-- the key's signatures verify -/
structure Signatures.Verify (made : Signatures) (ed : Ed25519) (isKey : FixedBytes 32 → Bool) (key : FixedBytes 32) : Prop where
  isKey : isKey key = true
  heads : ∀ x ∈ made.heads, verifyTreeHead ed key x.2 = true
  cosignatures : ∀ x ∈ made.cosignatures, verifyWitnessCosignature ed key x.2 = true
  /-- a witness signs under the hex of its key -/
  named : ∀ x ∈ made.cosignatures, x.2.witnessKeyId = hexEncode key.toList

/-- the key signed the bytes of the head -/
def Signatures.HeadMade (made : Signatures) (head : SignedTreeHead) : Prop := ∃ x ∈ made.heads, headMessage x.2 = headMessage head

/-- the key signed the bytes of the cosignature -/
def Signatures.CosignatureMade (made : Signatures) (key : FixedBytes 32) (cosig : WitnessCosignature) : Prop :=
  ∃ x ∈ made.cosignatures, witnessSigningMessage x.2 key = witnessSigningMessage cosig key

/-- what verifies under the key in two heads and their cosignatures has bytes that the key signed -/
structure Unforged (ed : Ed25519) (key : FixedBytes 32) (made : Signatures) (headA headB : CosignedTreeHead) : Prop where
  heads : ∀ head ∈ [headA.sth, headB.sth], verifyTreeHead ed key head = true → made.HeadMade head
  cosignatures : ∀ cosig ∈ headA.cosignatures ++ headB.cosignatures, verifyWitnessCosignature ed key cosig = true →
    made.CosignatureMade key cosig

/-- whatever two heads are presented without a forgery, whoever the authorised authors and whenever: the key is neither returned
as the author of a fork nor named as its witness -/
def NeverFramed (ed : Ed25519) (isKey : FixedBytes 32 → Bool) (key : FixedBytes 32) (made : Signatures) : Prop :=
  (∀ candidates headA headB, Unforged ed key made headA headB → confirmAuthorEquivocation ed candidates headA headB ≠ some key) ∧
  ∀ candidates headA headB now author ids, Unforged ed key made headA headB →
    confirmEquivocation ed isKey candidates headA headB now = some (author, ids) →
    ∀ id ∈ ids, parseWitnessVerifyKey isKey id ≠ some key

/-! ## When a key is never framed -/

/-- the heads of one network agree at each size, over all shards -/
def Signatures.HeadsAgree (made : Signatures) : Prop :=
  ∀ x ∈ made.heads, ∀ y ∈ made.heads, x.2.networkId = y.2.networkId → x.2.treeSize = y.2.treeSize →
    x.2.rootHash = y.2.rootHash

/-- the head a cosignature is for, in an envelope of the head's layout -/
def headOf (cosig : WitnessCosignature) (envelope : Envelope) : SignedTreeHead :=
  ⟨cosig.treeSize, cosig.rootHash, cosig.networkId, cosig.authorKeyId, cosig.authorSignature, cosig.authorCreatedAt,
    envelope⟩

/-- the author signature that a cosignature carries is good under the author's key, for some envelope of the head, and is no
forgery of the witness's own -/
def Signatures.AuthorSigned (made : Signatures) (ed : Ed25519) (key author : FixedBytes 32) (cosig : WitnessCosignature) : Prop :=
  ∃ envelope : Envelope, envelope.hashAlgo = cosig.envelope.hashAlgo ∧ verifyTreeHead ed author (headOf cosig envelope) = true ∧
    (verifyTreeHead ed key (headOf cosig envelope) = true → made.HeadMade (headOf cosig envelope))

/-- instants of the two signed seconds lie in one freshness window -/
def WithinWindow (second second' : Int64) : Prop :=
  ∃ t t' now : OffsetDateTime, t.unixTimestamp = second ∧ t'.unixTimestamp = second' ∧
    now - confirmationFreshnessWindow ≤ t ∧ t ≤ now ∧ now - confirmationFreshnessWindow ≤ t' ∧ t' ≤ now

/-- two cosignatures of one network and size agree, over all shards, if one author key is good for both and one freshness
window holds both -/
def Signatures.CosignaturesAgree (made : Signatures) (ed : Ed25519) (key : FixedBytes 32) : Prop :=
  ∀ x ∈ made.cosignatures, ∀ y ∈ made.cosignatures, x.2.networkId = y.2.networkId → x.2.treeSize = y.2.treeSize →
    WithinWindow x.2.observedAt.unixTimestamp y.2.observedAt.unixTimestamp →
    (∃ author, made.AuthorSigned ed key author x.2 ∧ made.AuthorSigned ed key author y.2) → x.2.rootHash = y.2.rootHash

/-! ## The known list of two heads -/

/-- each listed id is the text of the key listed for it -/
theorem knownList_parse {isKey : FixedBytes 32 → Bool} {headA headB : CosignedTreeHead} {id : String}
    {key : FixedBytes 32} (h : (id, key) ∈ knownListFromCosignatures isKey headA headB) :
    parseWitnessVerifyKey isKey id = some key := by
  unfold knownListFromCosignatures at h
  generalize headA.cosignatures ++ headB.cosignatures = cosigs at h
  -- the fold only ever appends an id with the key it parses to
  suffices hfold : ∀ list : KnownList, (∀ e ∈ list, parseWitnessVerifyKey isKey e.1 = some e.2) →
      ∀ e ∈ cosigs.foldl (fun list cosig =>
        if list.any fun entry => entry.1 = cosig.witnessKeyId then list
        else
          match parseWitnessVerifyKey isKey cosig.witnessKeyId with
          | some key => list ++ [(cosig.witnessKeyId, key)]
          | none => list) list, parseWitnessVerifyKey isKey e.1 = some e.2 from hfold [] (by simp) _ h
  clear h
  induction cosigs with
  | nil => exact fun list hlist => hlist
  | cons cosig cosigs ih =>
    intro list hlist
    rw [List.foldl_cons]
    apply ih
    split_ifs
    · exact hlist
    · cases hparse : parseWitnessVerifyKey isKey cosig.witnessKeyId with
      | none => exact hlist
      | some k =>
        intro e he
        rcases List.mem_append.1 he with he | he
        · exact hlist e he
        · rw [List.mem_singleton.1 he, hparse]

theorem parseWitnessVerifyKey_hexEncode {isKey : FixedBytes 32 → Bool} {key : FixedBytes 32} (h : isKey key = true) :
    parseWitnessVerifyKey isKey (hexEncode key.toList) = some key := by
  simp [parseWitnessVerifyKey, hexDecode_hexEncode, FixedBytes.ofList?_toList, h]

/-- two cosignatures under the hex of one key list that key alone -/
theorem knownList_of_one_witness {isKey : FixedBytes 32 → Bool} {key : FixedBytes 32} {sthA sthB : SignedTreeHead}
    {cosigA cosigB : WitnessCosignature} (hkey : isKey key = true) (hA : cosigA.witnessKeyId = hexEncode key.toList)
    (hB : cosigB.witnessKeyId = hexEncode key.toList) :
    knownListFromCosignatures isKey ⟨sthA, [cosigA]⟩ ⟨sthB, [cosigB]⟩ = [(hexEncode key.toList, key)] := by
  simp [knownListFromCosignatures, hA, hB, parseWitnessVerifyKey_hexEncode hkey]

/-- a cosignature without a signature does not count -/
theorem counts_of_empty {ed : Ed25519} {head : CosignedTreeHead} {knownList : KnownList} {cutoff now : OffsetDateTime}
    {cosig : WitnessCosignature} (hempty : cosig.signature = "") : counts ed head knownList cutoff now cosig ≠ true := by
  intro h
  unfold counts at h
  split_ifs at h
  split at h
  · cases h
  · rw [verifyWitnessCosignature, hempty] at h
    unfold verifyHexSignature at h
    split at h <;> cases h

/-! ## Hex texts that differ in case -/

theorem hexValue_toAsciiLowercase (b : UInt8) : hexValue (toAsciiLowercase b) = hexValue b := by
  revert b
  decide +kernel

theorem hexPairs_toAsciiLowercase (bs : Bytes) : hexPairs (bs.map toAsciiLowercase) = hexPairs bs := by
  induction bs using hexPairs.induct with
  | case1 => rfl
  | case2 => rfl
  | case3 a b rest ih => simp only [List.map_cons, hexPairs, hexValue_toAsciiLowercase, ih]

theorem hexDecode_of_eqIgnoreAsciiCase {a b : String} (h : eqIgnoreAsciiCase a b = true) : hexDecode a = hexDecode b := by
  rw [eqIgnoreAsciiCase, beq_iff_eq] at h
  rw [hexDecode, hexDecode, ← hexPairs_toAsciiLowercase, h, hexPairs_toAsciiLowercase]

/-! ## What a confirmation shows -/

theorem confirmAuthorEquivocation_eq_some {ed : Ed25519} {candidates : List (FixedBytes 32)}
    {headA headB : CosignedTreeHead} {key : FixedBytes 32}
    (h : confirmAuthorEquivocation ed candidates headA headB = some key) :
    headA.sth.networkId = headB.sth.networkId ∧ headA.sth.treeSize = headB.sth.treeSize ∧
      headA.sth.rootHash ≠ headB.sth.rootHash ∧ verifyTreeHead ed key headA.sth = true ∧
      verifyTreeHead ed key headB.sth = true := by
  unfold confirmAuthorEquivocation at h
  split_ifs at h with hconflict
  simp only [not_or, not_not] at hconflict
  obtain ⟨hnet, hsize, hroot⟩ := hconflict
  have hkey := List.find?_some h
  rw [Bool.and_eq_true] at hkey
  exact ⟨hnet, hsize, hroot, hkey.1, hkey.2⟩

/-- the heads conflict, the author signed both, and the id counts for both -/
theorem confirmEquivocation_eq_some {ed : Ed25519} {isKey : FixedBytes 32 → Bool} {candidates : List (FixedBytes 32)}
    {headA headB : CosignedTreeHead} {now : OffsetDateTime} {author : FixedBytes 32} {ids : List String} {id : String}
    (h : confirmEquivocation ed isKey candidates headA headB now = some (author, ids)) (hid : id ∈ ids) :
    headA.sth.networkId = headB.sth.networkId ∧ headA.sth.treeSize = headB.sth.treeSize ∧
      headA.sth.rootHash ≠ headB.sth.rootHash ∧ verifyTreeHead ed author headA.sth = true ∧
      verifyTreeHead ed author headB.sth = true ∧
      id ∈ validFreshWitnessIds ed author headA (knownListFromCosignatures isKey headA headB)
        (now - confirmationFreshnessWindow) now ∧
      id ∈ validFreshWitnessIds ed author headB (knownListFromCosignatures isKey headA headB)
        (now - confirmationFreshnessWindow) now := by
  obtain ⟨key, -, hkey⟩ := List.exists_of_findSome?_eq_some h
  dsimp only at hkey
  split_ifs at hkey
  cases hkey
  unfold findEquivocatingWitnesses at hid
  split_ifs at hid with hconflict hverified
  · simp at hid
  · simp at hid
  simp only [not_or, not_not] at hconflict
  obtain ⟨hnet, hsize, hroot⟩ := hconflict
  simp only [Bool.or_eq_true, Bool.not_eq_true', not_or, Bool.not_eq_false] at hverified
  obtain ⟨hA, hB⟩ := hverified
  rw [Finset.mem_sort, Finset.mem_inter] at hid
  exact ⟨hnet, hsize, hroot, verifyTreeHead_of_cosigned hA, verifyTreeHead_of_cosigned hB, hid.1, hid.2⟩

/-! ## Conflicting statements name the key -/

theorem framed_of_heads {ed : Ed25519} {key : FixedBytes 32} {sthA sthB : SignedTreeHead}
    (hA : verifyTreeHead ed key sthA = true) (hB : verifyTreeHead ed key sthB = true)
    (hnet : sthA.networkId = sthB.networkId) (hsize : sthA.treeSize = sthB.treeSize) (hroot : sthA.rootHash ≠ sthB.rootHash) :
    confirmAuthorEquivocation ed [key] ⟨sthA, []⟩ ⟨sthB, []⟩ = some key := by
  simp [confirmAuthorEquivocation, hnet, hsize, hroot, hA, hB]

/-- within the signed second the observation time can be moved -/
theorem verifyWitnessCosignature_observedAt {ed : Ed25519} {key : FixedBytes 32} {cosig : WitnessCosignature}
    {t : OffsetDateTime} (ht : t.unixTimestamp = cosig.observedAt.unixTimestamp)
    (h : verifyWitnessCosignature ed key cosig = true) :
    verifyWitnessCosignature ed key { cosig with observedAt := t } = true := by
  have hmessage : witnessSigningMessage { cosig with observedAt := t } key = witnessSigningMessage cosig key := by
    simp only [witnessSigningMessage, ht]
  rw [verifyWitnessCosignature, hmessage]
  exact h

/-- a good cosignature, presented with the head it is for, counts when its witness is the only one listed -/
theorem mem_validFresh_of_cosignature {ed : Ed25519} (author : FixedBytes 32) {key : FixedBytes 32} {cosig : WitnessCosignature}
    {envelope : Envelope} {cutoff now : OffsetDateTime} (halgo : envelope.hashAlgo = cosig.envelope.hashAlgo)
    (hcutoff : cutoff ≤ cosig.observedAt) (hnow : cosig.observedAt ≤ now)
    (h : verifyWitnessCosignature ed key cosig = true) :
    cosig.witnessKeyId ∈ validFreshWitnessIds ed author ⟨headOf cosig envelope, [cosig]⟩ [(cosig.witnessKeyId, key)]
      cutoff now := by
  have hbound : boundTo cosig (headOf cosig envelope) = true := by
    simp [boundTo, headOf, eqIgnoreAsciiCase, halgo]
  have hcounts : counts ed ⟨headOf cosig envelope, [cosig]⟩ [(cosig.witnessKeyId, key)] cutoff now cosig = true := by
    rw [counts, hbound, if_neg (by simp), if_neg (not_or.2 ⟨not_lt.2 hcutoff, not_lt.2 hnow⟩)]
    simpa using h
  exact mem_validFreshWitnessIds.2 (.inr ⟨cosig, by simp, hcounts, rfl⟩)

/-- two good cosignatures under the hex of one key, fresh together, for conflicting heads of one author -/
theorem framed_of_cosignatures {ed : Ed25519} {isKey : FixedBytes 32 → Bool} {author key : FixedBytes 32}
    (cosigA cosigB : WitnessCosignature) (envelopeA envelopeB : Envelope) {now : OffsetDateTime}
    (hkey : isKey key = true) (hidA : cosigA.witnessKeyId = hexEncode key.toList)
    (hidB : cosigB.witnessKeyId = hexEncode key.toList) (hnet : cosigA.networkId = cosigB.networkId)
    (hsize : cosigA.treeSize = cosigB.treeSize) (hroot : cosigA.rootHash ≠ cosigB.rootHash)
    (halgoA : envelopeA.hashAlgo = cosigA.envelope.hashAlgo) (halgoB : envelopeB.hashAlgo = cosigB.envelope.hashAlgo)
    (hauthorA : verifyTreeHead ed author (headOf cosigA envelopeA) = true)
    (hauthorB : verifyTreeHead ed author (headOf cosigB envelopeB) = true)
    (hA : verifyWitnessCosignature ed key cosigA = true) (hB : verifyWitnessCosignature ed key cosigB = true)
    (hcutoffA : now - confirmationFreshnessWindow ≤ cosigA.observedAt) (hnowA : cosigA.observedAt ≤ now)
    (hcutoffB : now - confirmationFreshnessWindow ≤ cosigB.observedAt) (hnowB : cosigB.observedAt ≤ now) :
    ∃ ids, confirmEquivocation ed isKey [author] ⟨headOf cosigA envelopeA, [cosigA]⟩ ⟨headOf cosigB envelopeB, [cosigB]⟩
      now = some (author, ids) ∧ hexEncode key.toList ∈ ids := by
  have hlist : knownListFromCosignatures isKey ⟨headOf cosigA envelopeA, [cosigA]⟩ ⟨headOf cosigB envelopeB, [cosigB]⟩
      = [(hexEncode key.toList, key)] := knownList_of_one_witness hkey hidA hidB
  have hmemA := mem_validFresh_of_cosignature author halgoA hcutoffA hnowA hA
  have hmemB := mem_validFresh_of_cosignature author halgoB hcutoffB hnowB hB
  rw [hidA] at hmemA
  rw [hidB] at hmemB
  -- one listed witness, so the author's signature alone makes a head accepted
  have haccept : ∀ head : CosignedTreeHead, verifyTreeHead ed author head.sth = true →
      verifyCosignedTreeHead ed author head [(hexEncode key.toList, key)] (now - confirmationFreshnessWindow) now = true := by
    intro head hhead
    simp [verifyCosignedTreeHead, hhead]
  have hfound : findEquivocatingWitnesses ed author [(hexEncode key.toList, key)] (now - confirmationFreshnessWindow) now
      ⟨headOf cosigA envelopeA, [cosigA]⟩ ⟨headOf cosigB envelopeB, [cosigB]⟩ =
      (validFreshWitnessIds ed author ⟨headOf cosigA envelopeA, [cosigA]⟩ [(hexEncode key.toList, key)]
        (now - confirmationFreshnessWindow) now ∩
      validFreshWitnessIds ed author ⟨headOf cosigB envelopeB, [cosigB]⟩ [(hexEncode key.toList, key)]
        (now - confirmationFreshnessWindow) now).sort (· ≤ ·) := by
    have hacceptA := haccept ⟨headOf cosigA envelopeA, [cosigA]⟩ hauthorA
    have hacceptB := haccept ⟨headOf cosigB envelopeB, [cosigB]⟩ hauthorB
    unfold findEquivocatingWitnesses
    rw [if_neg (by simp [headOf, hnet, hsize, hroot]), hacceptA, hacceptB]
    rfl
  have hmem := (Finset.mem_sort (· ≤ ·)).2 (Finset.mem_inter.2 ⟨hmemA, hmemB⟩)
  refine ⟨_, ?_, hmem⟩
  simp only [confirmEquivocation, hlist, List.findSome?_cons, hfound, if_neg (List.ne_nil_of_mem hmem)]

/-! ## A key is never framed exactly when its statements agree -/

variable {ed : Ed25519} {isKey : FixedBytes 32 → Bool} {key : FixedBytes 32} {made : Signatures}

theorem headMessage_of_verify {head : SignedTreeHead} (h : verifyTreeHead ed key head = true) :
    ∃ bytes, headMessage head = .ok bytes := by
  unfold verifyTreeHead verifyHexSignature at h
  split at h
  · cases h
  · rename_i bytes hm
    exact ⟨bytes, hm⟩

theorem witnessMessage_of_verify {cosig : WitnessCosignature} (h : verifyWitnessCosignature ed key cosig = true) :
    ∃ bytes, witnessSigningMessage cosig key = .ok bytes := by
  unfold verifyWitnessCosignature verifyHexSignature at h
  split at h
  · cases h
  · rename_i bytes hm
    exact ⟨bytes, hm⟩

/-- two heads that the key made are no forgeries -/
theorem unforged_of_made {x y : String × SignedTreeHead} (hx : x ∈ made.heads) (hy : y ∈ made.heads) :
    Unforged ed key made ⟨x.2, []⟩ ⟨y.2, []⟩ := by
  refine ⟨fun head hhead _ => ?_, by simp⟩
  rcases List.mem_cons.1 hhead with rfl | hhead
  · exact ⟨x, hx, rfl⟩
  · exact ⟨y, hy, by rw [List.mem_singleton.1 hhead]⟩

/-- a head of bytes that the key signed is, as far as they go, one the key made -/
theorem Signatures.HeadMade.fields {head : SignedTreeHead} (hmade : made.HeadMade head) (h : verifyTreeHead ed key head = true) :
    ∃ x ∈ made.heads, x.2.treeSize = head.treeSize ∧ x.2.rootHash = head.rootHash ∧ x.2.networkId = head.networkId := by
  obtain ⟨x, hx, hmessage⟩ := hmade
  obtain ⟨bytes, hbytes⟩ := headMessage_of_verify h
  have hagree := SignedMessage.agrees_of_signingBytes
    (.treeHead x.2.treeSize x.2.rootHash x.2.networkId x.2.signingKeyId x.2.createdAt x.2.envelope)
    (.treeHead head.treeSize head.rootHash head.networkId head.signingKeyId head.createdAt head.envelope)
    (Fallible.toOption_eq_some.2 (hmessage.trans hbytes)) (Fallible.toOption_eq_some.2 hbytes)
  obtain ⟨hsize, hroot, hnet, -⟩ := hagree
  exact ⟨x, hx, hsize, hroot, hnet⟩

section presented

variable {headA headB : CosignedTreeHead} (hu : Unforged ed key made headA headB)

include hu in
/-- heads that verify under a key whose own heads agree do not conflict -/
theorem Unforged.no_conflict (hagree : made.HeadsAgree) (hA : verifyTreeHead ed key headA.sth = true)
    (hB : verifyTreeHead ed key headB.sth = true) (hnet : headA.sth.networkId = headB.sth.networkId)
    (hsize : headA.sth.treeSize = headB.sth.treeSize) : headA.sth.rootHash = headB.sth.rootHash := by
  obtain ⟨x, hx, hxs, hxr, hxn⟩ := (hu.heads _ (by simp) hA).fields hA
  obtain ⟨y, hy, hys, hyr, hyn⟩ := (hu.heads _ (by simp) hB).fields hB
  have := hagree x hx y hy (by rw [hxn, hyn, hnet]) (by rw [hxs, hys, hsize])
  rw [← hxr, ← hyr, this]

/-- a cosignature that counts for a head the author signed comes from one that the key made, at the same second, and with
the author's signature -/
theorem Signatures.CosignatureMade.fields {author : FixedBytes 32} {head : SignedTreeHead} {cosig : WitnessCosignature}
    (hmade : made.CosignatureMade key cosig) (hhead : verifyTreeHead ed key head = true → made.HeadMade head)
    (hauthor : verifyTreeHead ed author head = true) (hbound : boundTo cosig head = true)
    (h : verifyWitnessCosignature ed key cosig = true) :
    ∃ x ∈ made.cosignatures, x.2.treeSize = head.treeSize ∧ x.2.rootHash = head.rootHash ∧
      x.2.networkId = head.networkId ∧ x.2.observedAt.unixTimestamp = cosig.observedAt.unixTimestamp ∧
      made.AuthorSigned ed key author x.2 := by
  obtain ⟨x, hx, hmessage⟩ := hmade
  obtain ⟨bytes, hbytes⟩ := witnessMessage_of_verify h
  have hagree := SignedMessage.agrees_of_signingBytes (.cosignature x.2 key) (.cosignature cosig key)
    (Fallible.toOption_eq_some.2 (hmessage.trans hbytes)) (Fallible.toOption_eq_some.2 hbytes)
  obtain ⟨-, hsize, hroot, hnet, hcreated, hkeyId, hsig, -, hobserved, henv⟩ := hagree
  simp only [boundTo, Bool.and_eq_true, beq_iff_eq] at hbound
  obtain ⟨⟨⟨⟨⟨⟨hsize', hroot'⟩, hnet'⟩, hcreated'⟩, -⟩, hkeyId'⟩, hsig'⟩ := hbound
  -- the author's message differs only in the subseconds of its time, its signature only in case
  have hbytesOf : headMessage (headOf x.2 head.envelope) = headMessage head := by
    simp only [headMessage, headOf, signingMessage, hsize, hroot, hnet, hcreated, hkeyId, hsize', hroot', hnet', hcreated', hkeyId']
  have hverify : ∀ k, verifyTreeHead ed k (headOf x.2 head.envelope) = verifyTreeHead ed k head := by
    intro k
    have hhex := hsig.trans (hexDecode_of_eqIgnoreAsciiCase hsig')
    simp only [verifyTreeHead, verifyHexSignature, headOf, signingMessage, hsize, hroot, hnet, hcreated, hkeyId, hhex, hsize',
      hroot', hnet', hcreated', hkeyId']
  refine ⟨x, hx, hsize.trans hsize', hroot.trans hroot', hnet.trans hnet', hobserved, head.envelope, ?_, ?_, ?_⟩
  · -- there is one hash algorithm
    cases head.envelope.hashAlgo
    cases x.2.envelope.hashAlgo
    rfl
  · rw [hverify]
    exact hauthor
  · rw [hverify]
    intro hown
    obtain ⟨y, hy, hsame⟩ := hhead hown
    exact ⟨y, hy, hsame.trans hbytesOf.symm⟩

include hu in
/-- an id of the key counts for a presented head its author signed: the key is the author, or it made a cosignature of the head -/
theorem Unforged.counted {author : FixedBytes 32} {head : CosignedTreeHead} (hhead : head = headA ∨ head = headB)
    {list : KnownList} {cutoff now : OffsetDateTime} {id : String} (hlist : ∀ k, (id, k) ∈ list → k = key)
    (hauthor : verifyTreeHead ed author head.sth = true) (hid : id ∈ validFreshWitnessIds ed author head list cutoff now) :
    author = key ∨ ∃ x ∈ made.cosignatures, x.2.treeSize = head.sth.treeSize ∧ x.2.rootHash = head.sth.rootHash ∧
      x.2.networkId = head.sth.networkId ∧ made.AuthorSigned ed key author x.2 ∧
      ∃ t : OffsetDateTime, t.unixTimestamp = x.2.observedAt.unixTimestamp ∧ cutoff ≤ t ∧ t ≤ now := by
  rcases mem_validFreshWitnessIds.1 hid with hlisted | ⟨cosig, hmem, hcounts, rfl⟩
  · exact .inl (hlist author hlisted)
  · obtain ⟨cosig', hmem', hid', hbound, hcutoff, hnow, k, hk, hverify⟩ := cosignedBy_of_counts hmem hcounts
    obtain rfl := hlist k hk
    have hpresented : cosig' ∈ headA.cosignatures ++ headB.cosignatures := by
      rcases hhead with rfl | rfl
      · exact List.mem_append_left _ hmem'
      · exact List.mem_append_right _ hmem'
    have hsth : head.sth ∈ [headA.sth, headB.sth] := by rcases hhead with rfl | rfl <;> simp
    obtain ⟨x, hx, hsize, hroot, hnet, hobserved, hsigned⟩ :=
      (hu.cosignatures cosig' hpresented hverify).fields (hu.heads _ hsth) hauthor hbound hverify
    exact .inr ⟨x, hx, hsize, hroot, hnet, hsigned, cosig'.observedAt, hobserved.symm, hcutoff, hnow⟩

end presented

/-- **When a key is never framed.** No two heads that anyone presents without a forgery get the key returned as the author of a
fork or named as its witness, if and only if over all shards of a network the key's heads of one size agree, and so do those of
its cosignatures of one size that one author key and one freshness window can bring together. -/
theorem never_framed_iff (hmade : made.Verify ed isKey key) :
    NeverFramed ed isKey key made ↔ made.HeadsAgree ∧ made.CosignaturesAgree ed key := by
  constructor
  · intro hnever
    constructor
    · intro x hx y hy hnet hsize
      by_contra hroot
      exact hnever.1 _ _ _ (unforged_of_made hx hy)
        (framed_of_heads (hmade.heads x hx) (hmade.heads y hy) hnet hsize hroot)
    · intro x hx y hy hnet hsize hwindow hauthor
      obtain ⟨t, t', now, ht, ht', hcutoff, hnow, hcutoff', hnow'⟩ := hwindow
      obtain ⟨author, ⟨envelope, halgo, hsigned, hown⟩, envelope', halgo', hsigned', hown'⟩ := hauthor
      by_contra hroot
      -- present each cosignature with the head it carries, observed at the instant of the window
      obtain ⟨ids, hconfirm, hid⟩ := framed_of_cosignatures { x.2 with observedAt := t }
        { y.2 with observedAt := t' } envelope envelope' hmade.isKey
        (hmade.named x hx) (hmade.named y hy) hnet hsize hroot halgo halgo' hsigned hsigned'
        (verifyWitnessCosignature_observedAt ht (hmade.cosignatures x hx))
        (verifyWitnessCosignature_observedAt ht' (hmade.cosignatures y hy)) hcutoff hnow hcutoff' hnow'
      have hunforged : Unforged ed key made ⟨headOf { x.2 with observedAt := t } envelope, [{ x.2 with observedAt := t }]⟩
          ⟨headOf { y.2 with observedAt := t' } envelope', [{ y.2 with observedAt := t' }]⟩ := by
        refine ⟨fun head hhead => ?_, fun cosig hcosig _ => ?_⟩
        · rcases List.mem_cons.1 hhead with rfl | hhead
          · exact hown
          · rw [List.mem_singleton.1 hhead]
            exact hown'
        · rcases List.mem_cons.1 hcosig with rfl | hcosig
          · exact ⟨x, hx, by simp only [witnessSigningMessage, ht]⟩
          · exact ⟨y, hy, by rw [List.mem_singleton.1 hcosig]; simp only [witnessSigningMessage, ht']⟩
      exact hnever.2 _ _ _ _ _ _ hunforged hconfirm _ hid (parseWitnessVerifyKey_hexEncode hmade.isKey)
  · rintro ⟨hheads, hcosigs⟩
    constructor
    · intro candidates headA headB hu h
      obtain ⟨hnet, hsize, hroot, hA, hB⟩ := confirmAuthorEquivocation_eq_some h
      exact hroot (hu.no_conflict hheads hA hB hnet hsize)
    · intro candidates headA headB now author ids hu h id hid hparse
      obtain ⟨hnet, hsize, hroot, hauthorA, hauthorB, hidA, hidB⟩ := confirmEquivocation_eq_some h hid
      have hlist : ∀ k, (id, k) ∈ knownListFromCosignatures isKey headA headB → k = key := by
        intro k hk
        exact Option.some.inj ((knownList_parse hk).symm.trans hparse)
      rcases hu.counted (.inl rfl) hlist hauthorA hidA with rfl | ⟨x, hx, hxs, hxr, hxn, hxa, t, ht, hcutoff, hnow⟩
      · exact hroot (hu.no_conflict hheads hauthorA hauthorB hnet hsize)
      rcases hu.counted (.inr rfl) hlist hauthorB hidB with rfl | ⟨y, hy, hys, hyr, hyn, hya, t', ht', hcutoff', hnow'⟩
      · exact hroot (hu.no_conflict hheads hauthorA hauthorB hnet hsize)
      have hagree := hcosigs x hx y hy (by rw [hxn, hyn, hnet]) (by rw [hxs, hys, hsize])
        ⟨t, t', now, ht, ht', hcutoff, hnow, hcutoff', hnow'⟩ ⟨author, hxa, hya⟩
      exact hroot (by rw [← hxr, ← hyr, hagree])

/-! ## An honest author of two shards -/

/-- Ed25519 restricted to the signatures the key made -/
def Signatures.ed25519 (made : Signatures) (key : FixedBytes 32) : Ed25519 where
  verifyingKey _ := key
  sign _ _ := FixedBytes.replicate 64 0
  verifyStrict k message signature := k == key &&
    ((made.heads.any fun x => (headMessage x.2).toOption == some message &&
      (hexDecode x.2.signature).bind (FixedBytes.ofList? 64) == some signature) ||
    made.cosignatures.any fun x => (witnessSigningMessage x.2 key).toOption == some message &&
      (hexDecode x.2.signature).bind (FixedBytes.ofList? 64) == some signature)

theorem Signatures.verify_made {made : Signatures} {ε : Type} {message : Except ε Bytes} {signature : String} {m : Bytes}
    {sig : FixedBytes 64} (hmessage : message = .ok m)
    (hsig : (hexDecode signature).bind (FixedBytes.ofList? 64) = some sig)
    (h : (made.ed25519 key).verifyStrict key m sig = true) : verifyHexSignature (made.ed25519 key) key message signature = true := by
  simp only [verifyHexSignature, hmessage, hsig, h]

/-- heads and cosignatures verify that have signing bytes and a signature of the right length -/
theorem Signatures.ed25519_verify {made : Signatures} (hkey : isKey key = true)
    (hheads : ∀ x ∈ made.heads, (headMessage x.2).toOption.isSome ∧
      ((hexDecode x.2.signature).bind (FixedBytes.ofList? 64)).isSome)
    (hcosigs : ∀ x ∈ made.cosignatures, (witnessSigningMessage x.2 key).toOption.isSome ∧
      ((hexDecode x.2.signature).bind (FixedBytes.ofList? 64)).isSome)
    (hnamed : ∀ x ∈ made.cosignatures, x.2.witnessKeyId = hexEncode key.toList) :
    made.Verify (made.ed25519 key) isKey key where
  isKey := hkey
  heads := by
    intro x hx
    obtain ⟨hm, hs⟩ := hheads x hx
    obtain ⟨m, hm⟩ := Option.isSome_iff_exists.1 hm
    obtain ⟨sig, hs⟩ := Option.isSome_iff_exists.1 hs
    apply made.verify_made (Fallible.toOption_eq_some.1 hm) hs
    simp only [Signatures.ed25519, beq_self_eq_true, Bool.true_and, Bool.or_eq_true, List.any_eq_true, Bool.and_eq_true,
      beq_iff_eq]
    exact .inl ⟨x, hx, hm, hs⟩
  cosignatures := by
    intro x hx
    obtain ⟨hm, hs⟩ := hcosigs x hx
    obtain ⟨m, hm⟩ := Option.isSome_iff_exists.1 hm
    obtain ⟨sig, hs⟩ := Option.isSome_iff_exists.1 hs
    apply made.verify_made (Fallible.toOption_eq_some.1 hm) hs
    simp only [Signatures.ed25519, beq_self_eq_true, Bool.true_and, Bool.or_eq_true, List.any_eq_true, Bool.and_eq_true,
      beq_iff_eq]
    exact .inr ⟨x, hx, hm, hs⟩
  named := hnamed

/-- the first head of each of two shards that one game key settles -/
def twoShards : Signatures where
  heads := [("game:x", headAb.sth), ("game:x/2", headCd.sth)]
  cosignatures := []

def isAuthorKey (k : FixedBytes 32) : Bool := k == authorKey

/-- one head each on two shards: honest on each of them, and returned as the author of a fork -/
theorem two_shards_frame_author :
    ¬ ∀ ed isKey key made, Signatures.Verify made ed isKey key → made.HonestPerShard → NeverFramed ed isKey key made := by
  intro hclaim
  have hmade : twoShards.Verify (twoShards.ed25519 authorKey) isAuthorKey authorKey := by
    apply Signatures.ed25519_verify
    · decide
    · decide +kernel
    · decide
    · decide
  have hhonest : twoShards.HonestPerShard := by
    unfold Signatures.HonestPerShard
    decide
  have hnever := hclaim _ _ _ _ hmade hhonest
  have hA : ("game:x", headAb.sth) ∈ twoShards.heads := by simp [twoShards]
  have hB : ("game:x/2", headCd.sth) ∈ twoShards.heads := by simp [twoShards]
  exact hnever.1 _ _ _ (unforged_of_made hA hB) (framed_of_heads (hmade.heads _ hA) (hmade.heads _ hB) rfl rfl (by decide))

/-! ## A fork with one witness -/

/-- a head of the fork: the author signs a second root at the size of the first -/
def forkSth (root : FixedBytes 32) (signature : FixedBytes 64) : SignedTreeHead :=
  ⟨12, hexEncode root.toList, "net", "op", hexEncode signature.toList, 1790000000000000000, .current .settlementSth⟩

/-- its cosignature, ten minutes later -/
def forkCosignature (witness root : FixedBytes 32) (authorSignature signature : FixedBytes 64) : WitnessCosignature :=
  ⟨12, hexEncode root.toList, "net", 1790000000000000000, "op", hexEncode authorSignature.toList, hexEncode witness.toList,
    1790000600000000000, hexEncode signature.toList, .current .witnessCosign⟩

theorem bind_ofList?_hexEncode {n : ℕ} (v : FixedBytes n) :
    (hexDecode (hexEncode v.toList)).bind (FixedBytes.ofList? n) = some v := by
  rw [hexDecode_hexEncode, Option.bind_some, FixedBytes.ofList?_toList]

theorem forkSth_message (root : FixedBytes 32) (signature : FixedBytes 64) (createdAt : OffsetDateTime) :
    (headMessage { forkSth root signature with createdAt := createdAt }).toOption.isSome := by
  have hroot : parseHash "root_hash" (hexEncode root.toList) = .ok root := parseHash_eq_ok_iff.2 rfl
  unfold headMessage forkSth signingMessage
  rw [hroot]
  rfl

theorem forkCosignature_message (witness root : FixedBytes 32) (authorSignature signature : FixedBytes 64)
    (observedAt : OffsetDateTime) :
    (witnessSigningMessage { forkCosignature witness root authorSignature signature with observedAt := observedAt }
      witness).toOption.isSome := by
  have hroot : parseHash "root_hash" (hexEncode root.toList) = .ok root := parseHash_eq_ok_iff.2 rfl
  have hauthor : decodeAuthorSignature (hexEncode authorSignature.toList) = .ok authorSignature := by
    rw [decodeAuthorSignature, bind_ofList?_hexEncode]
  have hname : ∀ b : Builder, b.str (hexEncode witness.toList) =
      { b with out := b.out ++ beBytes 4 64 ++ utf8 (hexEncode witness.toList) } := by
    intro b
    rw [Builder.str, Builder.bytes, if_pos (by rw [hexEncode_length, List.Vector.toList_length]; decide), hexEncode_length,
      List.Vector.toList_length]
  unfold witnessSigningMessage forkCosignature
  dsimp only
  rw [hroot, hauthor]
  simp only [hname]
  rfl

/-- the keys of the author and of the witness -/
def forkAuthor : FixedBytes 32 :=
  ⟨[0xd0, 0x4a, 0xb2, 0x32, 0x74, 0x2b, 0xb4, 0xab, 0x3a, 0x13, 0x68, 0xbd, 0x46, 0x15, 0xe4, 0xe6, 0xd0, 0x22, 0x4a, 0xb7,
    0x1a, 0x01, 0x6b, 0xaf, 0x85, 0x20, 0xa3, 0x32, 0xc9, 0x77, 0x87, 0x37], rfl⟩

def forkWitness : FixedBytes 32 :=
  ⟨[0xa0, 0x9a, 0xa5, 0xf4, 0x7a, 0x67, 0x59, 0x80, 0x2f, 0xf9, 0x55, 0xf8, 0xdc, 0x2d, 0x2a, 0x14, 0xa5, 0xc9, 0x9d, 0x23,
    0xbe, 0x97, 0xf8, 0x64, 0x12, 0x7f, 0xf9, 0x38, 0x34, 0x55, 0xa4, 0xf0], rfl⟩

/-- their signatures over the root of bytes ab and over that of bytes cd -/
def authorBytesAb : FixedBytes 64 :=
  ⟨[0x17, 0x61, 0x89, 0xf7, 0xc2, 0x83, 0xd5, 0x7d, 0x4a, 0x56, 0xb7, 0x9c, 0xb3, 0xed, 0x89, 0xea, 0xa0, 0xb6, 0x60, 0x56,
    0x52, 0x0d, 0x69, 0xf6, 0x90, 0x09, 0x12, 0xb4, 0x0a, 0x70, 0xf3, 0x6f, 0xfb, 0x93, 0xb9, 0x9a, 0x7d, 0xde, 0x91, 0xd7,
    0x99, 0xc2, 0x21, 0xdb, 0x3d, 0x98, 0x80, 0xe2, 0xef, 0x8e, 0xd6, 0x9e, 0x65, 0x9a, 0x78, 0x9d, 0xee, 0xa3, 0x92, 0x3e,
    0x0c, 0xb6, 0xdd, 0x0c], rfl⟩

def authorBytesCd : FixedBytes 64 :=
  ⟨[0xa4, 0x64, 0x83, 0x6f, 0x75, 0x00, 0x71, 0x30, 0xde, 0xfa, 0xe5, 0x39, 0xd2, 0xaf, 0x7f, 0x9d, 0x94, 0xd3, 0xa7, 0x03,
    0x7e, 0xd1, 0xd0, 0xdb, 0x04, 0x74, 0xca, 0x3f, 0x97, 0x3a, 0xf2, 0x7e, 0x61, 0x3d, 0x0d, 0xb9, 0x9d, 0xa5, 0xb0, 0xa0,
    0xa2, 0xe3, 0x67, 0x44, 0x22, 0x83, 0x04, 0x77, 0xf8, 0xe2, 0x47, 0xc5, 0x0d, 0xd1, 0xe5, 0x2f, 0x1c, 0x9e, 0x44, 0x9d,
    0x75, 0xa5, 0x00, 0x08], rfl⟩

def witnessBytesAb : FixedBytes 64 :=
  ⟨[0xaf, 0x14, 0xd0, 0x56, 0xf5, 0xa3, 0xdc, 0x7d, 0xfa, 0xbd, 0x94, 0x31, 0x36, 0xad, 0x12, 0x56, 0xff, 0x3f, 0x46, 0x88,
    0xad, 0xfd, 0x47, 0xa0, 0xa7, 0x05, 0xa0, 0x4f, 0x9d, 0x86, 0x93, 0xd8, 0xbe, 0xe4, 0x9e, 0x28, 0x85, 0x3c, 0xb8, 0xbf,
    0xab, 0xaa, 0xab, 0xe1, 0x08, 0x9f, 0xe0, 0xe2, 0x13, 0x1c, 0x56, 0x7d, 0x28, 0xab, 0x2a, 0x8b, 0x4a, 0x27, 0x75, 0xef,
    0xc4, 0x25, 0x4c, 0x02], rfl⟩

def witnessBytesCd : FixedBytes 64 :=
  ⟨[0x42, 0xa7, 0xd3, 0x68, 0x7d, 0xe3, 0xda, 0xd5, 0xc7, 0xfd, 0x77, 0xd7, 0xec, 0xb9, 0x11, 0xb5, 0x58, 0x29, 0x59, 0x4b,
    0x69, 0x80, 0x9f, 0x62, 0xb6, 0x38, 0x66, 0xcc, 0x05, 0xcd, 0xfe, 0x6a, 0x59, 0xe3, 0xe3, 0x3f, 0x69, 0xa8, 0xaa, 0x3b,
    0x8c, 0x0a, 0x93, 0x98, 0x2c, 0x5f, 0x7f, 0x88, 0x0b, 0x61, 0xed, 0xcc, 0x20, 0x6d, 0x4e, 0xa4, 0x73, 0x0f, 0x76, 0x57,
    0x23, 0x7b, 0x9d, 0x0d], rfl⟩

def forkHeads : Signatures :=
  ⟨[("core", forkSth (FixedBytes.replicate 32 0xab) authorBytesAb), ("core", forkSth (FixedBytes.replicate 32 0xcd) authorBytesCd)], []⟩

def cosigAb : WitnessCosignature := forkCosignature forkWitness (FixedBytes.replicate 32 0xab) authorBytesAb witnessBytesAb

def cosigCd : WitnessCosignature := forkCosignature forkWitness (FixedBytes.replicate 32 0xcd) authorBytesCd witnessBytesCd

def forkCosignatures : Signatures := ⟨[], [("core", cosigAb), ("core", cosigCd)]⟩

/-- Ed25519 restricted to what the author and the witness signed -/
def forkEd25519 : Ed25519 where
  verifyingKey _ := forkAuthor
  sign _ _ := FixedBytes.replicate 64 0
  verifyStrict key message signature := (forkHeads.ed25519 forkAuthor).verifyStrict key message signature ||
    (forkCosignatures.ed25519 forkWitness).verifyStrict key message signature

theorem verifyHexSignature_mono {ed ed' : Ed25519} {ε : Type} {message : Except ε Bytes} {signature : String}
    (hmono : ∀ m s, ed.verifyStrict key m s = true → ed'.verifyStrict key m s = true)
    (h : verifyHexSignature ed key message signature = true) : verifyHexSignature ed' key message signature = true := by
  unfold verifyHexSignature at h ⊢
  split at h
  · cases h
  split at h
  · cases h
  exact hmono _ _ h

theorem Signatures.Verify.mono {ed' : Ed25519} (h : made.Verify ed isKey key)
    (hmono : ∀ m s, ed.verifyStrict key m s = true → ed'.verifyStrict key m s = true) : made.Verify ed' isKey key :=
  ⟨h.isKey, fun x hx => verifyHexSignature_mono hmono (h.heads x hx),
    fun x hx => verifyHexSignature_mono hmono (h.cosignatures x hx), h.named⟩

theorem forkHeads_verify : ∀ x ∈ forkHeads.heads, verifyTreeHead forkEd25519 forkAuthor x.2 = true := by
  have hmade : forkHeads.Verify (forkHeads.ed25519 forkAuthor) (fun k => k == forkAuthor) forkAuthor := by
    apply Signatures.ed25519_verify
    · simp
    · intro x hx
      rw [forkHeads, List.mem_cons, List.mem_singleton] at hx
      rcases hx with rfl | rfl <;>
        exact ⟨forkSth_message _ _ _, Option.isSome_iff_exists.2 ⟨_, bind_ofList?_hexEncode _⟩⟩
    · simp [forkHeads]
    · simp [forkHeads]
  exact (hmade.mono fun m s h => by simp only [forkEd25519, h, Bool.true_or]).heads

theorem forkCosignatures_verify : ∀ x ∈ forkCosignatures.cosignatures, verifyWitnessCosignature forkEd25519 forkWitness x.2 = true := by
  have hmade : forkCosignatures.Verify (forkCosignatures.ed25519 forkWitness) (fun k => k == forkWitness) forkWitness := by
    apply Signatures.ed25519_verify
    · simp
    · simp [forkCosignatures]
    · intro x hx
      rw [forkCosignatures, List.mem_cons, List.mem_singleton] at hx
      rcases hx with rfl | rfl <;>
        exact ⟨forkCosignature_message _ _ _ _ _, Option.isSome_iff_exists.2 ⟨_, bind_ofList?_hexEncode _⟩⟩
    · intro x hx
      rw [forkCosignatures, List.mem_cons, List.mem_singleton] at hx
      rcases hx with rfl | rfl <;> rfl
  exact (hmade.mono fun m s h => by simp only [forkEd25519, h, Bool.or_true]).cosignatures

/-! ## A key whose statements agree -/

/-- the witness's signatures over two heads of that root, and over a later observation of the author's head -/
def ownBytes : FixedBytes 64 :=
  ⟨[0x74, 0x4e, 0x30, 0x26, 0x10, 0xcf, 0x09, 0x76, 0x76, 0x78, 0xec, 0x1a, 0xcf, 0x92, 0x4f, 0xe1, 0xf5, 0x0c, 0x8c,
    0x14, 0x80, 0xa9, 0x84, 0x55, 0x9f, 0x4f, 0x48, 0x87, 0x3a, 0xd1, 0x86, 0x48, 0x2a, 0x1e, 0x73, 0x2b, 0xfb, 0xaa,
    0x2e, 0xb9, 0x6f, 0x0e, 0x14, 0x83, 0x3a, 0xbb, 0xfb, 0xc6, 0xbd, 0x40, 0x29, 0x0a, 0x68, 0x2e, 0xeb, 0xe4, 0xf3,
    0x48, 0x21, 0x2a, 0x31, 0x43, 0x10, 0x01], rfl⟩

def ownBytesLater : FixedBytes 64 :=
  ⟨[0x81, 0x66, 0x07, 0x5e, 0x8a, 0xf7, 0xe4, 0xe7, 0xec, 0xc8, 0xfa, 0xaf, 0x46, 0xff, 0x0d, 0x56, 0x7c, 0xfc, 0x87,
    0x91, 0x80, 0x74, 0xa3, 0x59, 0x79, 0x94, 0x33, 0x6c, 0x13, 0xfb, 0xa1, 0x32, 0x44, 0x99, 0x09, 0x26, 0xe2, 0x7d,
    0x23, 0x1a, 0x31, 0x35, 0x72, 0xd9, 0xb9, 0xd8, 0xc5, 0x53, 0xb5, 0xc8, 0x31, 0x40, 0x05, 0x59, 0xef, 0xd8, 0x47,
    0xfc, 0x6b, 0x6f, 0x02, 0x49, 0x50, 0x07], rfl⟩

def witnessBytesLater : FixedBytes 64 :=
  ⟨[0xfa, 0x53, 0xce, 0x00, 0xf9, 0x65, 0x5a, 0x60, 0x6a, 0x94, 0x42, 0x39, 0x6a, 0x6a, 0xea, 0xec, 0xdd, 0xf2, 0x2a,
    0x2c, 0x2d, 0x65, 0x1d, 0x80, 0x40, 0x6a, 0x95, 0x72, 0x75, 0x29, 0x3b, 0xe2, 0x48, 0xce, 0x07, 0x39, 0x24, 0x22,
    0x56, 0xac, 0x1d, 0x36, 0xdd, 0x1d, 0xa2, 0xff, 0x8c, 0xa0, 0xeb, 0x47, 0xf5, 0xae, 0xe9, 0x5a, 0x77, 0x49, 0x45,
    0x03, 0xa3, 0x38, 0x5d, 0x4e, 0x02, 0x0e], rfl⟩

/-- the witness signs the root for two shards of its own, and cosigns the author's head of that root twice -/
def agreeing : Signatures where
  heads := [("game:x", forkSth (FixedBytes.replicate 32 0xab) ownBytes),
    ("game:x/2", { forkSth (FixedBytes.replicate 32 0xab) ownBytesLater with createdAt := 1790000060000000000 })]
  cosignatures := [("core", cosigAb),
    ("core", { forkCosignature forkWitness (FixedBytes.replicate 32 0xab) authorBytesAb witnessBytesLater with
      observedAt := 1790000900000000000 })]

/-- Ed25519 restricted to what the author and the witness signed -/
def agreeingEd25519 : Ed25519 where
  verifyingKey _ := forkWitness
  sign _ _ := FixedBytes.replicate 64 0
  verifyStrict key message signature := (forkHeads.ed25519 forkAuthor).verifyStrict key message signature ||
    (agreeing.ed25519 forkWitness).verifyStrict key message signature

theorem never_framed_agreeing : NeverFramed agreeingEd25519 (fun k => k == forkWitness) forkWitness agreeing := by
  have hmade : agreeing.Verify (agreeing.ed25519 forkWitness) (fun k => k == forkWitness) forkWitness := by
    apply Signatures.ed25519_verify
    · simp
    · intro x hx
      rw [agreeing, List.mem_cons, List.mem_singleton] at hx
      rcases hx with rfl | rfl <;>
        exact ⟨forkSth_message _ _ _, Option.isSome_iff_exists.2 ⟨_, bind_ofList?_hexEncode _⟩⟩
    · intro x hx
      rw [agreeing, List.mem_cons, List.mem_singleton] at hx
      rcases hx with rfl | rfl <;>
        exact ⟨forkCosignature_message _ _ _ _ _, Option.isSome_iff_exists.2 ⟨_, bind_ofList?_hexEncode _⟩⟩
    · intro x hx
      rw [agreeing, List.mem_cons, List.mem_singleton] at hx
      rcases hx with rfl | rfl <;> rfl
  refine (never_framed_iff (hmade.mono fun m s h => by simp only [agreeingEd25519, h, Bool.or_true])).2 ⟨?_, ?_⟩
  · intro x hx y hy _ _
    rw [agreeing, List.mem_cons, List.mem_singleton] at hx hy
    rcases hx with rfl | rfl <;> rcases hy with rfl | rfl <;> rfl
  · intro x hx y hy _ _ _ _
    rw [agreeing, List.mem_cons, List.mem_singleton] at hx hy
    rcases hx with rfl | rfl <;> rcases hy with rfl | rfl <;> rfl

end Avalon.Equivocation
