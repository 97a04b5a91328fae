/-
More cosignatures on two conflicting heads (`crates/server/src/equivocation.rs`: `confirm_equivocation`).

The known list against which a majority is measured is that of the keys the two heads' own cosignatures name. A further
cosignature never takes a counted id away, but one that names a new key makes the list longer, whether it verifies or not.

Results:
- `find_knownList`: the list pairs every id with the key it parses to, whatever else is listed.
- `counted_mono`: the counted ids of a head only grow.
- `evidence_kept`: a witness stays named as long as both heads keep a majority of the longer list.
- `made_up_key_hides_witness`: one cosignature under a made-up key is enough to break it.
-/
import Mathlib.Tactic
import Avalon.Core.Bytes
import Avalon.Protocol.SigningBytes
import Avalon.Protocol.LedgerEntry
import Avalon.Protocol.Sth
import Avalon.Protocol.Witness
import Avalon.Protocol.CosignedSth
import Avalon.Server.Equivocation

namespace Avalon.Equivocation

open Avalon.SigningBytes Avalon.LedgerEntry Avalon.Sth Avalon.Witness Avalon.CosignedSth

/-! ## The statement -/

/-- the same head with more cosignatures, in any position -/
structure Grows (head head' : CosignedTreeHead) : Prop where
  sth : head'.sth = head.sth
  cosignatures : head.cosignatures ⊆ head'.cosignatures

section

variable (ed : Ed25519) (isKey : FixedBytes 32 → Bool) (author : FixedBytes 32) (headA headB : CosignedTreeHead)
  (now : OffsetDateTime)

/-- the ids that count for a head, by the keys that both heads' cosignatures name -/
def counted (head : CosignedTreeHead) : Finset String :=
  validFreshWitnessIds ed author head (knownListFromCosignatures isKey headA headB) (now - confirmationFreshnessWindow) now

/-- the author signed both heads, and each has a majority of the named keys -/
structure BothMajority : Prop where
  signedA : verifyTreeHead ed author headA.sth = true
  signedB : verifyTreeHead ed author headB.sth = true
  majorityA : isCosignedByMajority (knownListFromCosignatures isKey headA headB).length
    (counted ed isKey author headA headB now headA).card = true
  majorityB : isCosignedByMajority (knownListFromCosignatures isKey headA headB).length
    (counted ed isKey author headA headB now headB).card = true

end

/-! ## The known list -/

section

variable {isKey : FixedBytes 32 → Bool} {headA headB : CosignedTreeHead}

/-- one step of the fold that lists the keys -/
def listKey (isKey : FixedBytes 32 → Bool) (list : KnownList) (cosig : WitnessCosignature) : KnownList :=
  if list.any fun entry => entry.1 = cosig.witnessKeyId then list
  else
    match parseWitnessVerifyKey isKey cosig.witnessKeyId with
    | some key => list ++ [(cosig.witnessKeyId, key)]
    | none => list

theorem listKey_ids (list : KnownList) (cosig : WitnessCosignature) (id : String) :
    id ∈ (listKey isKey list cosig).map Prod.fst ↔
      id ∈ list.map Prod.fst ∨ (id = cosig.witnessKeyId ∧ (parseWitnessVerifyKey isKey id).isSome) := by
  unfold listKey
  split_ifs with hany
  · obtain ⟨entry, hentry, hid⟩ := List.any_eq_true.1 hany
    rw [decide_eq_true_eq] at hid
    constructor
    · exact .inl
    · rintro (h | ⟨rfl, -⟩)
      · exact h
      · exact hid ▸ List.mem_map_of_mem hentry
  · cases hparse : parseWitnessVerifyKey isKey cosig.witnessKeyId with
    | none =>
      constructor
      · exact .inl
      · rintro (h | ⟨rfl, h⟩)
        · exact h
        · rw [hparse] at h
          cases h
    | some key =>
      rw [List.map_append, List.mem_append, List.map_singleton, List.mem_singleton]
      refine or_congr_right ⟨?_, And.left⟩
      rintro rfl
      exact ⟨rfl, by rw [hparse]; rfl⟩

/-- the listed ids: those that some cosignature names and that parse as a key -/
theorem knownList_ids (id : String) : id ∈ (knownListFromCosignatures isKey headA headB).map Prod.fst ↔
    (∃ c ∈ headA.cosignatures ++ headB.cosignatures, c.witnessKeyId = id) ∧ (parseWitnessVerifyKey isKey id).isSome := by
  change id ∈ (List.foldl (listKey isKey) [] (headA.cosignatures ++ headB.cosignatures)).map Prod.fst ↔ _
  generalize headA.cosignatures ++ headB.cosignatures = cosigs
  induction cosigs using List.reverseRecOn with
  | nil => simp
  | append_singleton cosigs cosig ih =>
    rw [List.foldl_append, List.foldl_cons, List.foldl_nil, listKey_ids, ih]
    simp only [List.mem_append, List.mem_singleton, or_and_right, exists_or, exists_eq_left, @eq_comm _ id]

/-- **The key of a listed id** is the one it parses to -/
theorem find_knownList {id : String} (h : id ∈ (knownListFromCosignatures isKey headA headB).map Prod.fst) :
    ∃ key, parseWitnessVerifyKey isKey id = some key ∧
      (knownListFromCosignatures isKey headA headB).find? (fun entry => entry.1 == id) = some (id, key) := by
  obtain ⟨entry, hentry, rfl⟩ := List.mem_map.1 h
  obtain ⟨found, hfound⟩ := Option.isSome_iff_exists.1
    (List.find?_isSome (p := fun e => e.1 == entry.1) |>.2 ⟨entry, hentry, by simp⟩)
  obtain ⟨id, key⟩ := found
  obtain rfl : id = entry.1 := by simpa using List.find?_some hfound
  exact ⟨key, knownList_parse (List.mem_of_find?_eq_some hfound), hfound⟩

end

/-! ## Counted ids -/

section

variable {ed : Ed25519} {isKey : FixedBytes 32 → Bool} {author : FixedBytes 32} {headA headB headA' headB' : CosignedTreeHead}
  {now : OffsetDateTime}

theorem knownList_ids_mono (hA : Grows headA headA') (hB : Grows headB headB') :
    (knownListFromCosignatures isKey headA headB).map Prod.fst ⊆ (knownListFromCosignatures isKey headA' headB').map Prod.fst := by
  intro id hid
  obtain ⟨⟨c, hc, hname⟩, hparse⟩ := (knownList_ids id).1 hid
  refine (knownList_ids id).2 ⟨⟨c, ?_, hname⟩, hparse⟩
  rcases List.mem_append.1 hc with hc | hc
  · exact List.mem_append_left _ (hA.cosignatures hc)
  · exact List.mem_append_right _ (hB.cosignatures hc)

theorem listedAsAuthor_iff {id : String} : ListedAsAuthor author (knownListFromCosignatures isKey headA headB) id ↔
    id ∈ (knownListFromCosignatures isKey headA headB).map Prod.fst ∧ parseWitnessVerifyKey isKey id = some author := by
  constructor
  · intro h
    exact ⟨List.mem_map_of_mem h, knownList_parse h⟩
  · rintro ⟨hid, hparse⟩
    obtain ⟨key, hkey, hfind⟩ := find_knownList hid
    obtain rfl := Option.some.inj (hkey.symm.trans hparse)
    exact List.mem_of_find?_eq_some hfind

/-- whether a cosignature counts depends on its own id alone, once that is listed -/
theorem counts_mono {head head' : CosignedTreeHead} (hA : Grows headA headA') (hB : Grows headB headB')
    (hsth : head'.sth = head.sth) {cutoff : OffsetDateTime} {cosig : WitnessCosignature}
    (h : counts ed head (knownListFromCosignatures isKey headA headB) cutoff now cosig = true) :
    counts ed head' (knownListFromCosignatures isKey headA' headB') cutoff now cosig = true := by
  unfold counts at h ⊢
  rw [hsth]
  split_ifs at h ⊢
  cases hfind : (knownListFromCosignatures isKey headA headB).find? fun entry => entry.1 == cosig.witnessKeyId with
  | none =>
    rw [hfind] at h
    cases h
  | some entry =>
    rw [hfind] at h
    obtain ⟨id, key⟩ := entry
    obtain rfl : id = cosig.witnessKeyId := by simpa using List.find?_some hfind
    have hmem := List.mem_of_find?_eq_some hfind
    obtain ⟨key', hkey', hfind'⟩ := find_knownList (knownList_ids_mono hA hB (List.mem_map_of_mem hmem))
    obtain rfl := Option.some.inj ((knownList_parse hmem).symm.trans hkey')
    rw [hfind']
    exact h

/-- **Counted ids only grow** -/
theorem counted_mono {head head' : CosignedTreeHead} (hA : Grows headA headA') (hB : Grows headB headB') (hhead : Grows head head') :
    counted ed isKey author headA headB now head ⊆ counted ed isKey author headA' headB' now head' := by
  intro id hid
  rw [counted, mem_validFreshWitnessIds] at hid ⊢
  rcases hid with hauthor | ⟨cosig, hcosig, hcounts, hname⟩
  · obtain ⟨hlisted, hparse⟩ := listedAsAuthor_iff.1 hauthor
    exact .inl (listedAsAuthor_iff.2 ⟨knownList_ids_mono hA hB hlisted, hparse⟩)
  · exact .inr ⟨cosig, hhead.cosignatures hcosig, counts_mono hA hB hhead.sth hcounts, hname⟩

/-- the ids counted under one author key and not under another hold the first key themselves -/
theorem counted_of_other {head : CosignedTreeHead} {id : String} (other : FixedBytes 32)
    (h : id ∈ counted ed isKey author headA headB now head) :
    id ∈ counted ed isKey other headA headB now head ∨ parseWitnessVerifyKey isKey id = some author := by
  rw [counted, mem_validFreshWitnessIds] at h ⊢
  rcases h with hauthor | hcosig
  · exact .inr (listedAsAuthor_iff.1 hauthor).2
  · exact .inl (.inr hcosig)

theorem counted_card_le (head : CosignedTreeHead) : (counted ed isKey author headA headB now head).card ≤
    (knownListFromCosignatures isKey headA headB).length := by
  refine (Finset.card_le_card (validFreshWitnessIds_subset _ _ _ _ _ _)).trans ?_
  refine (List.toFinset_card_le _).trans ?_
  rw [List.length_map]

/-! ## What is confirmed -/

/-- two heads of one network and size with different roots -/
def Conflict (headA headB : CosignedTreeHead) : Prop :=
  headA.sth.networkId = headB.sth.networkId ∧ headA.sth.treeSize = headB.sth.treeSize ∧ headA.sth.rootHash ≠ headB.sth.rootHash

/-- a counted id is listed -/
theorem counted_subset (head : CosignedTreeHead) :
    counted ed isKey author headA headB now head ⊆ ((knownListFromCosignatures isKey headA headB).map Prod.fst).toFinset :=
  validFreshWitnessIds_subset _ _ _ _ _ _

/-- with a counted id, acceptance is the author's signature and a majority -/
theorem accepted_iff {head : CosignedTreeHead} {id : String} (hid : id ∈ counted ed isKey author headA headB now head) :
    verifyCosignedTreeHead ed author head (knownListFromCosignatures isKey headA headB) (now - confirmationFreshnessWindow) now =
        true ↔
      verifyTreeHead ed author head.sth = true ∧ isCosignedByMajority (knownListFromCosignatures isKey headA headB).length
        (counted ed isKey author headA headB now head).card = true := by
  unfold verifyCosignedTreeHead
  by_cases hsigned : verifyTreeHead ed author head.sth = true
  swap
  · rw [if_pos (by simpa using hsigned)]
    exact ⟨fun h => absurd h (by decide), fun h => absurd h.1 hsigned⟩
  rw [if_neg (by simpa using hsigned)]
  split_ifs with hshort
  · -- a list of one key: the counted id is its majority
    refine ⟨fun _ => ⟨hsigned, decide_eq_true ?_⟩, fun _ => rfl⟩
    have hone : 1 ≤ (counted ed isKey author headA headB now head).card := Finset.card_pos.2 ⟨id, hid⟩
    have hle : (counted ed isKey author headA headB now head).card ≤ (knownListFromCosignatures isKey headA headB).length :=
      counted_card_le head
    rw [majorityThreshold, if_neg (by omega)]
    omega
  · exact ⟨fun h => ⟨hsigned, h⟩, fun h => h.2⟩

/-- **A witness is found** exactly if it counts for both heads, and each has a majority -/
theorem mem_equivocators_iff {id : String} :
    id ∈ findEquivocatingWitnesses ed author (knownListFromCosignatures isKey headA headB)
        (now - confirmationFreshnessWindow) now headA headB ↔
      Conflict headA headB ∧ BothMajority ed isKey author headA headB now ∧
        id ∈ counted ed isKey author headA headB now headA ∧ id ∈ counted ed isKey author headA headB now headB := by
  unfold findEquivocatingWitnesses
  constructor
  · intro h
    split_ifs at h with hconflict hverified
    · cases h
    · cases h
    rw [Finset.mem_sort, Finset.mem_inter] at h
    obtain ⟨hA, hB⟩ := h
    simp only [not_or, not_not] at hconflict
    simp only [Bool.or_eq_true, Bool.not_eq_true', not_or, Bool.not_eq_false] at hverified
    obtain ⟨hsignedA, hmajorityA⟩ := (accepted_iff hA).1 hverified.1
    obtain ⟨hsignedB, hmajorityB⟩ := (accepted_iff hB).1 hverified.2
    exact ⟨hconflict, ⟨hsignedA, hsignedB, hmajorityA, hmajorityB⟩, hA, hB⟩
  · rintro ⟨⟨hnetwork, hsize, hroot⟩, hboth, hA, hB⟩
    rw [if_neg (by simp [hnetwork, hsize, hroot]), (accepted_iff hA).2 ⟨hboth.signedA, hboth.majorityA⟩,
      (accepted_iff hB).2 ⟨hboth.signedB, hboth.majorityB⟩, if_neg (by simp), Finset.mem_sort, Finset.mem_inter]
    exact ⟨hA, hB⟩

/-- a cosignature without a signature adds no counted id, and neither does a key that is not the author's -/
theorem counted_subset_of_unsigned {head : CosignedTreeHead} {id : String}
    (hlist : ∀ entry ∈ knownListFromCosignatures isKey headA headB, entry.2 ≠ author)
    (hcosigs : ∀ c ∈ head.cosignatures, c.witnessKeyId = id ∨ c.signature = "") :
    counted ed isKey author headA headB now head ⊆ {id} := by
  intro other hother
  rw [counted, mem_validFreshWitnessIds] at hother
  rw [Finset.mem_singleton]
  rcases hother with hauthor | ⟨cosig, hcosig, hcounts, rfl⟩
  · exact absurd rfl (hlist _ hauthor)
  · rcases hcosigs cosig hcosig with hname | hempty
    · exact hname
    · exact absurd hcounts (counts_of_empty hempty)

/-- one counted id is no majority of two keys -/
theorem not_bothMajority {id : String} (hlist : (knownListFromCosignatures isKey headA headB).length = 2)
    (hcounted : counted ed isKey author headA headB now headA ⊆ {id}) : ¬ BothMajority ed isKey author headA headB now := by
  intro hboth
  have hmajority := of_decide_eq_true hboth.majorityA
  have hone := Finset.card_le_card hcounted
  rw [hlist, majorityThreshold, if_neg (by omega)] at hmajority
  rw [Finset.card_singleton] at hone
  omega

/-- two majorities share a witness -/
theorem exists_equivocator {listed : String} (hlisted : listed ∈ (knownListFromCosignatures isKey headA headB).map Prod.fst)
    (hconflict : Conflict headA headB) (hboth : BothMajority ed isKey author headA headB now) :
    ∃ id, id ∈ findEquivocatingWitnesses ed author (knownListFromCosignatures isKey headA headB)
      (now - confirmationFreshnessWindow) now headA headB := by
  have hsize : 0 < (knownListFromCosignatures isKey headA headB).length := by
    rw [← List.length_map (f := Prod.fst)]
    exact List.length_pos_of_mem hlisted
  have hcard : ((knownListFromCosignatures isKey headA headB).map Prod.fst).toFinset.card ≤
      (knownListFromCosignatures isKey headA headB).length := by
    refine (List.toFinset_card_le _).trans ?_
    rw [List.length_map]
  obtain ⟨id, hid⟩ := majorities_meet hsize hcard (counted_subset headA) (counted_subset headB)
    (of_decide_eq_true hboth.majorityA) (of_decide_eq_true hboth.majorityB)
  rw [Finset.mem_inter] at hid
  exact ⟨id, mem_equivocators_iff.2 ⟨hconflict, hboth, hid.1, hid.2⟩⟩

/-- what a confirmation names: the witnesses found under the first author key that finds any -/
theorem confirmEquivocation_ids {candidates : List (FixedBytes 32)} {ids : List String}
    (h : confirmEquivocation ed isKey candidates headA headB now = some (author, ids)) :
    author ∈ candidates ∧ ids = findEquivocatingWitnesses ed author (knownListFromCosignatures isKey headA headB)
      (now - confirmationFreshnessWindow) now headA headB ∧ ids ≠ [] := by
  obtain ⟨key, hmem, hkey⟩ := List.exists_of_findSome?_eq_some h
  dsimp only at hkey
  split_ifs at hkey with hempty
  cases hkey
  exact ⟨hmem, rfl, hempty⟩

theorem confirmEquivocation_isSome {candidates : List (FixedBytes 32)} :
    (confirmEquivocation ed isKey candidates headA headB now).isSome ↔ ∃ key ∈ candidates, ∃ id,
      id ∈ findEquivocatingWitnesses ed key (knownListFromCosignatures isKey headA headB) (now - confirmationFreshnessWindow) now
        headA headB := by
  rw [confirmEquivocation, List.findSome?_isSome_iff]
  refine exists_congr fun key => and_congr_right fun _ => ?_
  dsimp only
  split_ifs with hempty
  · rw [hempty]
    simp
  · exact ⟨fun _ => List.exists_mem_of_ne_nil _ hempty, fun _ => rfl⟩

/-- **Evidence under more cosignatures.** No counted id is lost. The grown heads are confirmed exactly if, under some candidate
author key, both keep a majority of the longer list of keys; then every witness named before is named again, up to the key of its
author where the fork is now confirmed under another author key. -/
theorem evidence_kept (ed : Ed25519) (isKey : FixedBytes 32 → Bool) (candidates : List (FixedBytes 32))
    (headA headB headA' headB' : CosignedTreeHead) (now : OffsetDateTime) (author : FixedBytes 32) (ids : List String)
    (hconfirm : confirmEquivocation ed isKey candidates headA headB now = some (author, ids)) (hA : Grows headA headA')
    (hB : Grows headB headB') :
    (∀ key, counted ed isKey key headA headB now headA ⊆ counted ed isKey key headA' headB' now headA' ∧
      counted ed isKey key headA headB now headB ⊆ counted ed isKey key headA' headB' now headB') ∧
    ((confirmEquivocation ed isKey candidates headA' headB' now).isSome ↔
      ∃ key ∈ candidates, BothMajority ed isKey key headA' headB' now) ∧
    ∀ key ids', confirmEquivocation ed isKey candidates headA' headB' now = some (key, ids') →
      ∀ id ∈ ids, id ∈ ids' ∨ (key ≠ author ∧ parseWitnessVerifyKey isKey id = some author) := by
  have hgrown : ∀ key, counted ed isKey key headA headB now headA ⊆ counted ed isKey key headA' headB' now headA' ∧
      counted ed isKey key headA headB now headB ⊆ counted ed isKey key headA' headB' now headB' :=
    fun key => ⟨counted_mono hA hB hA, counted_mono hA hB hB⟩
  obtain ⟨-, hids, hne⟩ := confirmEquivocation_ids hconfirm
  obtain ⟨first, hfirst⟩ := List.exists_mem_of_ne_nil _ hne
  have hfound : ∀ id ∈ ids, Conflict headA headB ∧ BothMajority ed isKey author headA headB now ∧
      id ∈ counted ed isKey author headA headB now headA ∧ id ∈ counted ed isKey author headA headB now headB :=
    fun id hid => mem_equivocators_iff.1 (hids ▸ hid)
  obtain ⟨hconflict, -, hcounted, -⟩ := hfound first hfirst
  have hconflict' : Conflict headA' headB' := by
    rw [Conflict, hA.sth, hB.sth]
    exact hconflict
  have hlisted : first ∈ (knownListFromCosignatures isKey headA' headB').map Prod.fst :=
    knownList_ids_mono hA hB (List.mem_toFinset.1 (counted_subset headA hcounted))
  refine ⟨hgrown, ?_, ?_⟩
  · rw [confirmEquivocation_isSome]
    refine exists_congr fun key => and_congr_right fun _ => ?_
    constructor
    · rintro ⟨id, hid⟩
      exact (mem_equivocators_iff.1 hid).2.1
    · exact exists_equivocator hlisted hconflict'
  · intro key ids' hconfirm' id hid
    obtain ⟨-, hids', hne'⟩ := confirmEquivocation_ids hconfirm'
    obtain ⟨other, hother⟩ := List.exists_mem_of_ne_nil _ hne'
    obtain ⟨-, hboth', -, -⟩ := mem_equivocators_iff.1 (hids' ▸ hother)
    obtain ⟨-, -, hidA, hidB⟩ := hfound id hid
    by_cases hkey : key = author
    · subst hkey
      left
      rw [hids']
      exact mem_equivocators_iff.2 ⟨hconflict', hboth', (hgrown key).1 hidA, (hgrown key).2 hidB⟩
    -- under another author key, only the former author's own vote is not counted
    rcases counted_of_other key hidA with hA' | hparse
    · rcases counted_of_other key hidB with hB' | hparse
      · left
        rw [hids']
        exact mem_equivocators_iff.2 ⟨hconflict', hboth', (hgrown key).1 hA', (hgrown key).2 hB'⟩
      · exact .inr ⟨hkey, hparse⟩
    · exact .inr ⟨hkey, hparse⟩

end

/-! ## A made-up key -/

/-- a key that nobody here has the secret of (a point of small order) -/
def madeUpKey : FixedBytes 32 := FixedBytes.replicate 32 0

def isPoint (k : FixedBytes 32) : Bool := k == forkAuthor || k == forkWitness || k == madeUpKey

/-- a cosignature under the made-up key, with no signature -/
def madeUp : WitnessCosignature := { cosigAb with witnessKeyId := hexEncode madeUpKey.toList, signature := "" }

def forkA : CosignedTreeHead := ⟨forkSth (FixedBytes.replicate 32 0xab) authorBytesAb, [cosigAb]⟩

def forkB : CosignedTreeHead := ⟨forkSth (FixedBytes.replicate 32 0xcd) authorBytesCd, [cosigCd]⟩

/-- as the source of the first head serves it -/
def hiddenA : CosignedTreeHead := { forkA with cosignatures := [cosigAb, madeUp] }

/-- five minutes after the cosignatures -/
def askedAt : OffsetDateTime := 1790000900000000000

theorem forkRoots_differ : cosigAb.rootHash ≠ cosigCd.rootHash := by
  intro h
  rw [cosigAb, cosigCd, forkCosignature, forkCosignature] at h
  exact absurd (hexText_inj h) (by decide)

/-- the fork is confirmed, and the witness named -/
theorem fork_confirmed : ∃ ids, confirmEquivocation forkEd25519 isPoint [forkAuthor] forkA forkB askedAt = some (forkAuthor, ids) ∧
    hexEncode forkWitness.toList ∈ ids := by
  have hheadA := forkHeads_verify ("core", forkA.sth) List.mem_cons_self
  have hheadB := forkHeads_verify ("core", forkB.sth) (List.mem_cons_of_mem _ List.mem_cons_self)
  have hA := forkCosignatures_verify ("core", cosigAb) List.mem_cons_self
  have hB := forkCosignatures_verify ("core", cosigCd) (List.mem_cons_of_mem _ List.mem_cons_self)
  exact framed_of_cosignatures cosigAb cosigCd (.current .settlementSth) (.current .settlementSth) (by simp [isPoint]) rfl rfl
    rfl rfl forkRoots_differ rfl rfl hheadA hheadB hA hB (by decide) (by decide) (by decide) (by decide)

theorem hiddenA_grows : Grows forkA hiddenA := ⟨rfl, by simp [forkA, hiddenA]⟩

theorem forkB_grows : Grows forkB forkB := ⟨rfl, fun _ h => h⟩

theorem evidence_kept_made_up :
    ∃ ids, confirmEquivocation forkEd25519 isPoint [forkAuthor] forkA forkB askedAt = some (forkAuthor, ids) ∧
      ((confirmEquivocation forkEd25519 isPoint [forkAuthor] hiddenA forkB askedAt).isSome ↔
        ∃ key ∈ [forkAuthor], BothMajority forkEd25519 isPoint key hiddenA forkB askedAt) := by
  obtain ⟨ids, hids, -⟩ := fork_confirmed
  exact ⟨ids, hids, (evidence_kept forkEd25519 isPoint [forkAuthor] forkA forkB hiddenA forkB askedAt forkAuthor ids hids
    hiddenA_grows forkB_grows).2.1⟩

theorem hiddenA_list :
    knownListFromCosignatures isPoint hiddenA forkB =
      [(hexEncode forkWitness.toList, forkWitness), (hexEncode madeUpKey.toList, madeUpKey)] := by
  have hkeys : madeUpKey ≠ forkWitness := by decide
  have hdistinct : hexEncode madeUpKey.toList ≠ hexEncode forkWitness.toList := by
    intro h
    exact hkeys (FixedBytes.hexEncode_inj h)
  have hwitness : parseWitnessVerifyKey isPoint (hexEncode forkWitness.toList) = some forkWitness :=
    parseWitnessVerifyKey_hexEncode (by simp [isPoint])
  have hmadeUp : parseWitnessVerifyKey isPoint (hexEncode madeUpKey.toList) = some madeUpKey :=
    parseWitnessVerifyKey_hexEncode (by simp [isPoint])
  simp [knownListFromCosignatures, hiddenA, forkB, cosigAb, cosigCd, forkCosignature, madeUp, hwitness, hmadeUp, hdistinct]

/-- only the witness counts for the first head -/
theorem hiddenA_counted : counted forkEd25519 isPoint forkAuthor hiddenA forkB askedAt hiddenA ⊆ {hexEncode forkWitness.toList} := by
  apply counted_subset_of_unsigned
  · rw [hiddenA_list]
    decide
  · intro cosig hcosig
    rw [hiddenA, List.mem_cons, List.mem_singleton] at hcosig
    rcases hcosig with h | h
    · rw [h]
      exact .inl rfl
    · rw [h]
      exact .inr rfl

/-- one cosignature under a made-up key hides the witness -/
theorem made_up_key_hides_witness :
    ¬ ∀ (ed : Ed25519) (isKey : FixedBytes 32 → Bool) (candidates : List (FixedBytes 32))
      (headA headB headA' headB' : CosignedTreeHead) (now : OffsetDateTime) (author : FixedBytes 32) (ids : List String)
      (id : String), confirmEquivocation ed isKey candidates headA headB now = some (author, ids) → id ∈ ids →
        Grows headA headA' → Grows headB headB' →
          ∃ author' ids', confirmEquivocation ed isKey candidates headA' headB' now = some (author', ids') ∧ id ∈ ids' := by
  intro h
  obtain ⟨ids, hids, hid⟩ := fork_confirmed
  obtain ⟨author', ids', hconfirm, hid'⟩ := h forkEd25519 isPoint [forkAuthor] forkA forkB hiddenA forkB askedAt forkAuthor
    ids (hexEncode forkWitness.toList) hids hid hiddenA_grows forkB_grows
  obtain ⟨hauthor, hids', -⟩ := confirmEquivocation_ids hconfirm
  rw [hids', List.mem_singleton.1 hauthor] at hid'
  obtain ⟨-, hboth, -, -⟩ := mem_equivocators_iff.1 hid'
  exact not_bothMajority (congrArg List.length hiddenA_list) hiddenA_counted hboth

end Avalon.Equivocation
