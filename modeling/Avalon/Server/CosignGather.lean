/-
Gathering cosignatures (`crates/server/src/cosign_gather.rs`): a verifier that is short of a majority asks the witnesses of its
known list for their own cosignatures and merges the answers into the head it was served.

Whom to ask and which cosignature to keep is decided by the witness id and the observation time alone; whether a cosignature counts
depends on its signature, its binding to the head and its freshness. What a witness answers is an input.

Results:
- `mergeCosignatures_filter`: per witness, only the first attached cosignature is ever replaced.
- `mem_merged_iff`: which votes are left after a merge.
- `votes_kept_iff`: when no vote is lost and every witness without a vote is asked.
- `garbage_displaces_a_vote`: a cosignature that does not verify displaces the witness's own.
-/
import Mathlib.Tactic
import Avalon.Core.Bytes
import Avalon.Protocol.SigningBytes
import Avalon.Protocol.LedgerEntry
import Avalon.Protocol.Sth
import Avalon.Protocol.Witness
import Avalon.Protocol.CosignedSth
import Avalon.Server.Equivocation

namespace Avalon.CosignGather

open Avalon.SigningBytes Avalon.LedgerEntry Avalon.Sth Avalon.Witness Avalon.CosignedSth Avalon.Equivocation

/-! ## Model -/

/-- ten minutes -/
def cosignatureFreshnessWindow : ℤ := 10 * 60 * 10 ^ 9

def maxConcurrentWitnessFetches : ℕ := 8

structure WitnessSource where
  keyId : String
  baseUrl : String
  deriving DecidableEq

/-- what asking one witness came to -/
inductive GatherOutcome where
  | fetched (cosig : WitnessCosignature)
  | noSource
  | blocked
  | unreachable (reason : String)
  | badStatus (status : ℕ)
  | malformed
  | headMismatch
  | noOwnCosignature
  | invalidSignature

/-- the witness is named by an attached cosignature that is not older than the cutoff -/
def attached (head : CosignedTreeHead) (cutoff : OffsetDateTime) (keyId : String) : Bool :=
  head.cosignatures.any fun c => c.witnessKeyId == keyId && decide (cutoff ≤ c.observedAt)

/-- the sources that are asked -/
def wanted (sources : List WitnessSource) (head : CosignedTreeHead) (cutoff : OffsetDateTime) : List WitnessSource :=
  sources.filter fun s => !attached head cutoff s.keyId

/-- the cosignature that asking gave -/
def GatherOutcome.cosignature : GatherOutcome → Option WitnessCosignature
  | .fetched cosig => some cosig
  | _ => none

/-- the sources asked, batch by batch, and what they gave -/
def fetchBatches (fetch : WitnessSource → GatherOutcome) (sources : List WitnessSource) :
    List WitnessSource × List WitnessCosignature :=
  if _h : sources = [] then ([], [])
  else
    let batch := sources.take maxConcurrentWitnessFetches
    let later := fetchBatches fetch (sources.drop maxConcurrentWitnessFetches)
    (batch ++ later.1, (batch.filterMap fun s => (fetch s).cosignature) ++ later.2)
termination_by sources.length
decreasing_by
  have := List.length_pos_iff.2 _h
  rw [List.length_drop, maxConcurrentWitnessFetches]
  omega

def gatherWitnessCosignatures (fetch : WitnessSource → GatherOutcome) (sources : List WitnessSource) (head : CosignedTreeHead)
    (now : OffsetDateTime) : List WitnessSource × List WitnessCosignature :=
  fetchBatches fetch (wanted sources head (now - cosignatureFreshnessWindow))

/-- one cosignature into the list -/
def mergeCosignature : List WitnessCosignature → WitnessCosignature → List WitnessCosignature
  | [], cosig => [cosig]
  | existing :: rest, cosig =>
    if existing.witnessKeyId = cosig.witnessKeyId then
      (if existing.observedAt < cosig.observedAt then cosig else existing) :: rest
    else existing :: mergeCosignature rest cosig

def mergeCosignatures (head : CosignedTreeHead) (extra : List WitnessCosignature) : CosignedTreeHead :=
  { head with cosignatures := extra.foldl mergeCosignature head.cosignatures }

inductive HeadVerdict where
  | trusted (head : CosignedTreeHead)
  | held

/-- the three readings of the clock: at the start, when the witnesses are asked, and at the end -/
structure Readings where
  start : OffsetDateTime
  asking : OffsetDateTime
  done : OffsetDateTime

def resolveMajority (ed : Ed25519) (authorKey : FixedBytes 32) (head : CosignedTreeHead) (knownList : KnownList)
    (fetch : WitnessSource → GatherOutcome) (sources : List WitnessSource) (clock : Readings) : HeadVerdict :=
  if verifyCosignedTreeHead ed authorKey head knownList (clock.start - cosignatureFreshnessWindow) clock.start then .trusted head
  else
    let extra := (gatherWitnessCosignatures fetch sources head clock.asking).2
    let merged := mergeCosignatures head extra
    if verifyCosignedTreeHead ed authorKey merged knownList (clock.done - cosignatureFreshnessWindow) clock.done then
      .trusted merged
    else .held

/-! ## What gathering is for -/

section

variable (ed : Ed25519) (authorKey : FixedBytes 32) (head : CosignedTreeHead) (knownList : KnownList) (now : OffsetDateTime)

/-- the ids that count for a head now -/
def votes : Finset String := validFreshWitnessIds ed authorKey head knownList (now - cosignatureFreshnessWindow) now

/-- the head with further cosignatures behind its own -/
def withExtra (extra : List WitnessCosignature) : CosignedTreeHead := { head with cosignatures := head.cosignatures ++ extra }

/-- merging keeps every vote of the head and of the extra cosignatures, and whoever has no vote is asked -/
structure NoVoteLost (extra : List WitnessCosignature) (fetch : WitnessSource → GatherOutcome) (sources : List WitnessSource) :
    Prop where
  ofHead : votes ed authorKey head knownList now ⊆ votes ed authorKey (mergeCosignatures head extra) knownList now
  ofExtra : votes ed authorKey (withExtra head extra) knownList now ⊆ votes ed authorKey (mergeCosignatures head extra) knownList now
  asked : ∀ s ∈ sources, s.keyId ∉ votes ed authorKey head knownList now → s ∈ (gatherWitnessCosignatures fetch sources head now).1

/-- the cosignature counts for the head now -/
def Counts (cosig : WitnessCosignature) : Prop :=
  counts ed head knownList (now - cosignatureFreshnessWindow) now cosig = true

/-- the id has a vote without a cosignature: it is listed with the author's own key -/
abbrev OwnVote (id : String) : Prop := ListedAsAuthor authorKey knownList id

end

/-- the cosignatures that name a witness -/
def naming (id : String) (cosigs : List WitnessCosignature) : List WitnessCosignature :=
  cosigs.filter fun c => c.witnessKeyId = id

/-- the first attached cosignature of a witness and its extra ones: of these, one is kept -/
def rivals (head : CosignedTreeHead) (extra : List WitnessCosignature) (id : String) : List WitnessCosignature :=
  (naming id head.cosignatures).head?.toList ++ naming id extra

/-- the attached cosignatures of a witness after its first: these are never replaced -/
def further (head : CosignedTreeHead) (id : String) : List WitnessCosignature := (naming id head.cosignatures).tail

/-- the latest of the list, and of several that are equally late the first -/
def IsLatest (cosigs : List WitnessCosignature) (cosig : WitnessCosignature) : Prop :=
  ∃ before after, cosigs = before ++ cosig :: after ∧ (∀ c ∈ before, c.observedAt < cosig.observedAt) ∧
    ∀ c ∈ after, c.observedAt ≤ cosig.observedAt

/-- a vote of the witness survives a merge: wherever one of its rival cosignatures counts, the latest of them does, or a further one
that is attached, or the vote needs no cosignature -/
def VoteKept (ed : Ed25519) (authorKey : FixedBytes 32) (head : CosignedTreeHead) (knownList : KnownList) (now : OffsetDateTime)
    (extra : List WitnessCosignature) (id : String) : Prop :=
  (∃ c ∈ rivals head extra id, Counts ed head knownList now c) →
    OwnVote authorKey knownList id ∨ (∃ c ∈ further head id, Counts ed head knownList now c) ∨
      ∃ c, IsLatest (rivals head extra id) c ∧ Counts ed head knownList now c

/-- the attached cosignatures name a source only where the witness has a vote -/
def OnlyVotersNamed (ed : Ed25519) (authorKey : FixedBytes 32) (head : CosignedTreeHead) (knownList : KnownList)
    (now : OffsetDateTime) (sources : List WitnessSource) : Prop :=
  ∀ s ∈ sources, ∀ c ∈ naming s.keyId head.cosignatures, now - cosignatureFreshnessWindow ≤ c.observedAt →
    OwnVote authorKey knownList s.keyId ∨ ∃ v ∈ naming s.keyId head.cosignatures, Counts ed head knownList now v

/-! ## Merging -/

/-- one step, on the cosignatures of one witness -/
def absorb : List WitnessCosignature → WitnessCosignature → List WitnessCosignature
  | [], cosig => [cosig]
  | existing :: rest, cosig => (if existing.observedAt < cosig.observedAt then cosig else existing) :: rest

theorem naming_mergeCosignature (id : String) (cosigs : List WitnessCosignature) (cosig : WitnessCosignature) :
    naming id (mergeCosignature cosigs cosig) =
      if cosig.witnessKeyId = id then absorb (naming id cosigs) cosig else naming id cosigs := by
  unfold naming
  induction cosigs with
  | nil => by_cases h : cosig.witnessKeyId = id <;> simp [mergeCosignature, absorb, h]
  | cons existing rest ih =>
    by_cases hsame : existing.witnessKeyId = cosig.witnessKeyId
    · have hkept : (if existing.observedAt < cosig.observedAt then cosig else existing).witnessKeyId = cosig.witnessKeyId := by
        split_ifs
        · rfl
        · exact hsame
      rw [mergeCosignature, if_pos hsame]
      by_cases h : cosig.witnessKeyId = id
      · rw [List.filter_cons_of_pos (by simpa using hkept.trans h), List.filter_cons_of_pos (by simpa using hsame.trans h),
          if_pos h, absorb]
      · rw [List.filter_cons_of_neg (by simpa [hkept] using h), List.filter_cons_of_neg (by simpa [hsame] using h), if_neg h]
    · rw [mergeCosignature, if_neg hsame]
      by_cases hid : existing.witnessKeyId = id
      · have hne : cosig.witnessKeyId ≠ id := fun h => hsame (hid.trans h.symm)
        rw [if_neg hne] at ih ⊢
        rw [List.filter_cons_of_pos (by simpa using hid), List.filter_cons_of_pos (by simpa using hid), ih]
      · rw [List.filter_cons_of_neg (by simpa using hid), List.filter_cons_of_neg (by simpa using hid), ih]

/-- **Merging, per witness** -/
theorem mergeCosignatures_filter (head : CosignedTreeHead) (extra : List WitnessCosignature) (id : String) :
    naming id (mergeCosignatures head extra).cosignatures = (naming id extra).foldl absorb (naming id head.cosignatures) := by
  change naming id (extra.foldl mergeCosignature head.cosignatures) = _
  generalize head.cosignatures = cosigs
  induction extra generalizing cosigs with
  | nil => rfl
  | cons cosig extra ih =>
    rw [List.foldl_cons, ih, naming_mergeCosignature]
    by_cases h : cosig.witnessKeyId = id
    · rw [if_pos h, naming, naming, naming, List.filter_cons_of_pos (by simpa using h), List.foldl_cons]
    · rw [if_neg h, naming, naming, naming, List.filter_cons_of_neg (by simpa using h)]

/-- a later cosignature takes the place of the latest so far -/
theorem IsLatest.snoc {cosigs : List WitnessCosignature} {latest cosig : WitnessCosignature} (h : IsLatest cosigs latest) :
    IsLatest (cosigs ++ [cosig]) (if latest.observedAt < cosig.observedAt then cosig else latest) := by
  obtain ⟨before, after, rfl, hbefore, hafter⟩ := h
  split_ifs with hlater
  · refine ⟨before ++ latest :: after, [], rfl, ?_, by simp⟩
    intro c hc
    rcases List.mem_append.1 hc with hc | hc
    · exact (hbefore c hc).trans hlater
    · rcases List.mem_cons.1 hc with rfl | hc
      · exact hlater
      · exact (hafter c hc).trans_lt hlater
  · refine ⟨before, after ++ [cosig], by simp, hbefore, ?_⟩
    intro c hc
    rcases List.mem_append.1 hc with hc | hc
    · exact hafter c hc
    · rw [List.mem_singleton.1 hc]
      exact not_lt.1 hlater

/-- no two cosignatures of a list are its latest, by their values -/
theorem IsLatest.unique {cosigs : List WitnessCosignature} {c c' : WitnessCosignature} (h : IsLatest cosigs c)
    (h' : IsLatest cosigs c') : c = c' := by
  obtain ⟨before, after, rfl, hbefore, hafter⟩ := h
  obtain ⟨before', after', heq, hbefore', hafter'⟩ := h'
  rcases List.append_eq_append_iff.1 heq with ⟨mid, hmid, hrest⟩ | ⟨mid, hmid, hrest⟩
  · cases mid with
    | nil => exact (List.cons.inj hrest).1
    | cons x mid =>
      obtain ⟨rfl, rfl⟩ := List.cons.inj hrest
      have hlt := hbefore' c (by simp [hmid])
      exact absurd (hafter c' (by simp)) (not_le.2 hlt)
  · cases mid with
    | nil => exact (List.cons.inj hrest).1.symm
    | cons x mid =>
      obtain ⟨rfl, rfl⟩ := List.cons.inj hrest
      have hlt := hbefore c' (by simp [hmid])
      exact absurd (hafter' c (by simp)) (not_le.2 hlt)

/-- absorbing cosignatures keeps the latest of them in the first place -/
theorem foldl_absorb (first : WitnessCosignature) (rest extra : List WitnessCosignature) :
    ∃ latest, extra.foldl absorb (first :: rest) = latest :: rest ∧ IsLatest (first :: extra) latest := by
  induction extra using List.reverseRecOn with
  | nil => exact ⟨first, rfl, [], [], rfl, by simp, by simp⟩
  | append_singleton extra cosig ih =>
    obtain ⟨latest, hfold, hlatest⟩ := ih
    rw [List.foldl_append, hfold]
    exact ⟨_, rfl, hlatest.snoc⟩

/-- what is left of a witness's cosignatures: the latest of the rivals, and the further ones -/
theorem merged_naming (head : CosignedTreeHead) (extra : List WitnessCosignature) (id : String) (c : WitnessCosignature) :
    c ∈ naming id (mergeCosignatures head extra).cosignatures ↔ IsLatest (rivals head extra id) c ∨ c ∈ further head id := by
  rw [mergeCosignatures_filter, rivals, further]
  have hone : ∀ (first : WitnessCosignature) (rest extra : List WitnessCosignature),
      c ∈ extra.foldl absorb (first :: rest) ↔ IsLatest (first :: extra) c ∨ c ∈ rest := by
    intro first rest extra
    obtain ⟨latest, hfold, hlatest⟩ := foldl_absorb first rest extra
    rw [hfold, List.mem_cons]
    constructor
    · rintro (rfl | h)
      · exact .inl hlatest
      · exact .inr h
    · rintro (h | h)
      · exact .inl (h.unique hlatest)
      · exact .inr h
  cases naming id head.cosignatures with
  | cons first rest => exact hone first rest _
  | nil =>
    cases naming id extra with
    | nil =>
      constructor
      · intro h
        cases h
      · rintro (⟨before, after, h, -⟩ | h)
        · simp at h
        · cases h
    | cons first extra => exact hone first [] extra

/-! ## Votes -/

section

variable {ed : Ed25519} {authorKey : FixedBytes 32} {head : CosignedTreeHead} {knownList : KnownList} {now : OffsetDateTime}
  {extra : List WitnessCosignature}

theorem mem_naming {id : String} {cosigs : List WitnessCosignature} {c : WitnessCosignature} :
    c ∈ naming id cosigs ↔ c ∈ cosigs ∧ c.witnessKeyId = id := by
  simp [naming]

/-- counting looks at the head, not at what is attached to it -/
theorem mem_votes_iff {cosigs : List WitnessCosignature} {id : String} :
    id ∈ votes ed authorKey { head with cosignatures := cosigs } knownList now ↔
      OwnVote authorKey knownList id ∨ ∃ c ∈ naming id cosigs, Counts ed head knownList now c := by
  rw [votes, mem_validFreshWitnessIds]
  refine or_congr_right ?_
  constructor
  · rintro ⟨c, hc, hcounts, hid⟩
    exact ⟨c, mem_naming.2 ⟨hc, hid⟩, hcounts⟩
  · rintro ⟨c, hc, hcounts⟩
    exact ⟨c, (mem_naming.1 hc).1, hcounts, (mem_naming.1 hc).2⟩

/-- **Votes after a merge** -/
theorem mem_merged_iff {id : String} : id ∈ votes ed authorKey (mergeCosignatures head extra) knownList now ↔
    OwnVote authorKey knownList id ∨ (∃ c ∈ further head id, Counts ed head knownList now c) ∨
      ∃ c, IsLatest (rivals head extra id) c ∧ Counts ed head knownList now c := by
  rw [show mergeCosignatures head extra = { head with cosignatures := (mergeCosignatures head extra).cosignatures } from rfl,
    mem_votes_iff]
  refine or_congr_right ?_
  simp only [merged_naming]
  constructor
  · rintro ⟨c, hlatest | hfurther, hcounts⟩
    · exact .inr ⟨c, hlatest, hcounts⟩
    · exact .inl ⟨c, hfurther, hcounts⟩
  · rintro (⟨c, hfurther, hcounts⟩ | ⟨c, hlatest, hcounts⟩)
    · exact ⟨c, .inr hfurther, hcounts⟩
    · exact ⟨c, .inl hlatest, hcounts⟩

/-- votes of the head with the extra cosignatures appended -/
theorem mem_withExtra_iff {id : String} : id ∈ votes ed authorKey (withExtra head extra) knownList now ↔
    OwnVote authorKey knownList id ∨ (∃ c ∈ further head id, Counts ed head knownList now c) ∨
      ∃ c ∈ rivals head extra id, Counts ed head knownList now c := by
  rw [withExtra, mem_votes_iff]
  refine or_congr_right ?_
  have hsplit : ∀ c, c ∈ naming id (head.cosignatures ++ extra) ↔ c ∈ further head id ∨ c ∈ rivals head extra id := by
    intro c
    rw [naming, List.filter_append, rivals, further]
    change c ∈ naming id head.cosignatures ++ naming id extra ↔ _
    cases naming id head.cosignatures with
    | nil => simp
    | cons first rest =>
      simp only [List.cons_append, List.mem_cons, List.mem_append, List.tail_cons, List.head?_cons, Option.toList_some,
        List.nil_append]
      tauto
  simp only [hsplit]
  constructor
  · rintro ⟨c, hfurther | hrival, hcounts⟩
    · exact .inl ⟨c, hfurther, hcounts⟩
    · exact .inr ⟨c, hrival, hcounts⟩
  · rintro (⟨c, hfurther, hcounts⟩ | ⟨c, hrival, hcounts⟩)
    · exact ⟨c, .inl hfurther, hcounts⟩
    · exact ⟨c, .inr hrival, hcounts⟩

theorem extra_kept_iff : votes ed authorKey (withExtra head extra) knownList now ⊆
      votes ed authorKey (mergeCosignatures head extra) knownList now ↔
    ∀ id, VoteKept ed authorKey head knownList now extra id := by
  constructor
  · intro h id hrival
    exact mem_merged_iff.1 (h (mem_withExtra_iff.2 (.inr (.inr hrival))))
  · intro h id hid
    rw [mem_merged_iff]
    rcases mem_withExtra_iff.1 hid with hown | hfurther | hrival
    · exact .inl hown
    · exact .inr (.inl hfurther)
    · exact h id hrival

theorem votes_subset_withExtra : votes ed authorKey head knownList now ⊆ votes ed authorKey (withExtra head extra) knownList now := by
  intro id hid
  rw [votes, mem_validFreshWitnessIds] at hid
  rw [withExtra, mem_votes_iff]
  rcases hid with hown | ⟨c, hc, hcounts, rfl⟩
  · exact .inl hown
  · exact .inr ⟨c, mem_naming.2 ⟨List.mem_append_left _ hc, rfl⟩, hcounts⟩

/-- every source of a list is asked once, in order -/
theorem fetchBatches_eq (fetch : WitnessSource → GatherOutcome) (sources : List WitnessSource) :
    fetchBatches fetch sources = (sources, sources.filterMap fun s => (fetch s).cosignature) := by
  fun_induction fetchBatches fetch sources with
  | case1 => rfl
  | case2 sources h batch later ih =>
    have hsplit : batch ++ sources.drop maxConcurrentWitnessFetches = sources := List.take_append_drop _ _
    simp only [later, ih]
    rw [← List.filterMap_append, hsplit]

theorem asked_iff {fetch : WitnessSource → GatherOutcome} {sources : List WitnessSource} :
    (∀ s ∈ sources, s.keyId ∉ votes ed authorKey head knownList now → s ∈ (gatherWitnessCosignatures fetch sources head now).1) ↔
      OnlyVotersNamed ed authorKey head knownList now sources := by
  rw [gatherWitnessCosignatures, fetchBatches_eq]
  have hvotes : ∀ id, id ∈ votes ed authorKey head knownList now ↔
      OwnVote authorKey knownList id ∨ ∃ c ∈ naming id head.cosignatures, Counts ed head knownList now c :=
    fun id => mem_votes_iff
  have hattached : ∀ id, attached head (now - cosignatureFreshnessWindow) id = true ↔
      ∃ c ∈ naming id head.cosignatures, now - cosignatureFreshnessWindow ≤ c.observedAt := by
    intro id
    simp only [attached, List.any_eq_true, Bool.and_eq_true, beq_iff_eq, decide_eq_true_eq, mem_naming, and_assoc]
  constructor
  · intro h s hs c hc hfresh
    by_contra hnone
    have hwanted := h s hs (mt (hvotes s.keyId).1 hnone)
    rw [wanted, List.mem_filter] at hwanted
    rw [(hattached s.keyId).2 ⟨c, hc, hfresh⟩] at hwanted
    exact absurd hwanted.2 (by decide)
  · intro h s hs hnovote
    refine List.mem_filter.2 ⟨hs, ?_⟩
    rw [Bool.not_eq_true', Bool.eq_false_iff]
    intro hnamed
    obtain ⟨c, hc, hfresh⟩ := (hattached s.keyId).1 hnamed
    exact hnovote ((hvotes s.keyId).2 (h s hs c hc hfresh))

end

/-- **When no vote is lost**: exactly if of every witness with a vote the latest rival counts or another attached cosignature does, and
no source is named by a fresh attached cosignature unless its witness has a vote -/
theorem votes_kept_iff (ed : Ed25519) (authorKey : FixedBytes 32) (head : CosignedTreeHead) (knownList : KnownList)
    (now : OffsetDateTime) (extra : List WitnessCosignature) (fetch : WitnessSource → GatherOutcome)
    (sources : List WitnessSource) :
    NoVoteLost ed authorKey head knownList now extra fetch sources ↔
      (∀ id, VoteKept ed authorKey head knownList now extra id) ∧ OnlyVotersNamed ed authorKey head knownList now sources := by
  constructor
  · intro h
    exact ⟨extra_kept_iff.1 h.ofExtra, asked_iff.1 h.asked⟩
  · rintro ⟨hkept, hnamed⟩
    have hextra := extra_kept_iff.2 hkept
    exact ⟨votes_subset_withExtra.trans hextra, hextra, asked_iff.2 hnamed⟩

/-- where no vote is lost, the answers of the witnesses decide as if they had been attached -/
theorem trusted_of_votes_kept {ed : Ed25519} {authorKey : FixedBytes 32} {head : CosignedTreeHead} {knownList : KnownList}
    {fetch : WitnessSource → GatherOutcome} {sources : List WitnessSource} {clock : Readings}
    (hkept : NoVoteLost ed authorKey head knownList clock.done (gatherWitnessCosignatures fetch sources head clock.asking).2
      fetch sources)
    (hmajority : verifyCosignedTreeHead ed authorKey
      (withExtra head (gatherWitnessCosignatures fetch sources head clock.asking).2) knownList
      (clock.done - cosignatureFreshnessWindow) clock.done = true) :
    ∃ trusted, resolveMajority ed authorKey head knownList fetch sources clock = .trusted trusted ∧ trusted.sth = head.sth := by
  have hmerged : verifyCosignedTreeHead ed authorKey
      (mergeCosignatures head (gatherWitnessCosignatures fetch sources head clock.asking).2) knownList
      (clock.done - cosignatureFreshnessWindow) clock.done = true := by
    have hcard := Finset.card_le_card hkept.ofExtra
    unfold verifyCosignedTreeHead at hmajority ⊢
    have hsigned : verifyTreeHead ed authorKey head.sth = true := by
      by_contra hnot
      rw [if_pos (by simpa [withExtra] using hnot)] at hmajority
      cases hmajority
    rw [if_neg (by simpa [withExtra] using hsigned)] at hmajority
    rw [if_neg (by simpa [mergeCosignatures] using hsigned)]
    split_ifs at hmajority ⊢ with hshort
    · rfl
    · exact decide_eq_true ((of_decide_eq_true hmajority).trans hcard)
  unfold resolveMajority
  split_ifs with hnow
  · exact ⟨head, rfl, rfl⟩
  · exact ⟨mergeCosignatures head _, by rw [if_pos hmerged], rfl⟩

/-! ## A displaced vote -/

/-- the witness's cosignature of the first head, one second later and with no signature -/
def garbage : WitnessCosignature := { cosigAb with observedAt := 1790000601000000000, signature := "" }

/-- the head as it is served, with the garbage attached -/
def servedHead : CosignedTreeHead := ⟨forkSth (FixedBytes.replicate 32 0xab) authorBytesAb, [garbage]⟩

def oneWitness : KnownList := [(cosigAb.witnessKeyId, forkWitness)]

/-- five minutes later -/
def readAt : OffsetDateTime := 1790000900000000000

theorem cosigAb_counts : Counts forkEd25519 servedHead oneWitness readAt cosigAb := by
  have hbound : boundTo cosigAb servedHead.sth = true := by
    simp [boundTo, servedHead, cosigAb, forkCosignature, forkSth, eqIgnoreAsciiCase]
  have hverifies := forkCosignatures_verify ("core", cosigAb) List.mem_cons_self
  rw [Counts, counts, if_neg (by rw [hbound]; decide), if_neg (by decide), oneWitness, List.find?_cons_of_pos (by simp)]
  exact hverifies

theorem cosigAb_not_kept : ¬ VoteKept forkEd25519 forkAuthor servedHead oneWitness readAt [cosigAb] cosigAb.witnessKeyId := by
  intro h
  have hrivals : rivals servedHead [cosigAb] cosigAb.witnessKeyId = [garbage, cosigAb] := by
    simp [rivals, naming, servedHead, garbage]
  have hgarbage : IsLatest [garbage, cosigAb] garbage := ⟨[], [cosigAb], rfl, by simp, by simp [garbage, cosigAb, forkCosignature]⟩
  have hfurther : further servedHead cosigAb.witnessKeyId = [] := by simp [further, naming, servedHead, garbage]
  rw [VoteKept, hrivals, hfurther] at h
  rcases h ⟨cosigAb, by simp, cosigAb_counts⟩ with hown | ⟨c, hc, -⟩ | ⟨c, hlatest, hcounts⟩
  · rw [OwnVote, ListedAsAuthor, oneWitness, List.mem_singleton] at hown
    exact absurd (Prod.mk.inj hown).2 (by decide)
  · cases hc
  · rw [hlatest.unique hgarbage] at hcounts
    exact counts_of_empty rfl hcounts

/-- a cosignature that does not verify displaces the witness's own -/
theorem garbage_displaces_a_vote :
    ¬ ∀ (ed : Ed25519) (authorKey : FixedBytes 32) (head : CosignedTreeHead) (knownList : KnownList) (now : OffsetDateTime)
      (extra : List WitnessCosignature) (fetch : WitnessSource → GatherOutcome) (sources : List WitnessSource),
      NoVoteLost ed authorKey head knownList now extra fetch sources := by
  intro h
  have hlost := h forkEd25519 forkAuthor servedHead oneWitness readAt [cosigAb] (fun _ => .noSource) []
  exact cosigAb_not_kept (extra_kept_iff.1 hlost.ofExtra cosigAb.witnessKeyId)

end Avalon.CosignGather
