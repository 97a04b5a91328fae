/-
Refilling the known list (`crates/server/src/known_list.rs`) against the rule it repeats by hand
(`crates/protocol/src/known_list.rs`), and where its candidates come from (`build_candidates`).

The reference list has slots without tenure and status; `toReference` forgets these. The answers of address resolution and
the form of a base URL are parameters of `buildCandidates`, and the two reads of the peer table are two inputs.

Results:
- `admitAll_reference`: offering candidates in an order admits those that the reference admits.
- `ranked_eq`: the order of a refill is the only one by first-seen time and id.
- `refill_perm`: the order of the candidate list does not show.
- `firstSeen_of_absent`: what a call was not offered has no first-seen time until it is offered again.
-/
import Mathlib.Tactic
import Mathlib.Logic.Relation
import Avalon.Server.KnownList
import Avalon.Server.PeerTable

/-! ## The reference rule -/

namespace Avalon.KnownListPrototype

structure WitnessSlot where
  witnessKeyId : String
  netPrefix : String
  isAnchor : Bool
deriving DecidableEq, Repr

structure KnownList where
  capacity : ℕ
  anchorCapacity : ℕ
  maxPerPrefix : ℕ
  slots : List WitnessSlot

namespace KnownList

def anchorCount (list : KnownList) : ℕ := list.slots.countP (·.isAnchor)

def prefixCount (list : KnownList) (netPrefix : String) : ℕ := list.slots.countP (·.netPrefix = netPrefix)

def contains (list : KnownList) (witnessKeyId : String) : Bool := list.slots.any (·.witnessKeyId = witnessKeyId)

def tryAdmit (list : KnownList) (candidate : WitnessSlot) : KnownList × Bool :=
  if list.contains candidate.witnessKeyId then (list, false)
  else if candidate.isAnchor && decide (list.anchorCount ≥ list.anchorCapacity) then (list, false)
  else if list.slots.length ≥ list.capacity then (list, false)
  else if list.prefixCount candidate.netPrefix ≥ list.maxPerPrefix then (list, false)
  else ({ list with slots := list.slots ++ [candidate] }, true)

/-- the candidates one after the other; the ids that got a slot -/
def tryAdmitAll (list : KnownList) : List WitnessSlot → KnownList × List String
  | [] => (list, [])
  | candidate :: rest =>
    let (list, admitted) := list.tryAdmit candidate
    let (list, ids) := list.tryAdmitAll rest
    (list, if admitted then candidate.witnessKeyId :: ids else ids)

end KnownList

end Avalon.KnownListPrototype

namespace Avalon.KnownList

open Avalon.LedgerEntry

def KnownSlot.toWitnessSlot (s : KnownSlot) : KnownListPrototype.WitnessSlot := ⟨s.witnessKeyId, s.netPrefix, s.isAnchor⟩

def DiscoveredCandidate.toWitnessSlot (c : DiscoveredCandidate) : KnownListPrototype.WitnessSlot :=
  ⟨c.witnessKeyId, c.netPrefix, c.isAnchor⟩

/-- a reference list with the same slots and caps -/
def KnownListInner.toReference (list : KnownListInner) : KnownListPrototype.KnownList where
  capacity := list.cfg.capacity
  anchorCapacity := list.cfg.anchorCapacity
  maxPerPrefix := list.cfg.maxPerPrefix
  slots := list.slots.map KnownSlot.toWitnessSlot

/-! ## Candidates -/

/-- an hour, `WITNESS_ANNOUNCE_MAX_SKEW` -/
def witnessAnnounceMaxSkew : ℤ := 3600 * 10 ^ 9

/-- the key the peer's own endpoint vouched for, while its proof is fresh -/
def freshWitnessKey (info : Peers.PeerInfo) (now : OffsetDateTime) : Option String :=
  (info.witness.filter Peers.WitnessAdvert.direct).bind fun advert =>
    if |now - advert.announcedAt| ≤ witnessAnnounceMaxSkew then some advert.keyId else none

/-- what address resolution answers for a URL in this call: the diversity prefix -/
abbrev PrefixFor := String → Option String

/-- the seeds of the bundled anchors of the network, each under the key its peer announced -/
def anchorCandidates (prefixFor : PrefixFor) (normalizedBaseUrl : String → String)
    (byUrl : String → Option Peers.PeerInfo) (now : OffsetDateTime) :
    List String → List DiscoveredCandidate → List DiscoveredCandidate
  | [], candidates => candidates
  | seed :: seeds, candidates =>
    let next :=
      match (byUrl (normalizedBaseUrl seed)).bind fun p => freshWitnessKey p now with
      | none => candidates
      | some key =>
        match prefixFor seed with
        | none => candidates
        | some netPrefix =>
          if candidates.any (·.witnessKeyId = key) then candidates else candidates ++ [⟨key, netPrefix, true⟩]
    anchorCandidates prefixFor normalizedBaseUrl byUrl now seeds next

/-- the other peers; a key is taken when it is met, also if its URL then has no prefix -/
def peerCandidates (prefixFor : PrefixFor) (now : OffsetDateTime) :
    List Peers.PeerInfo → List String → List DiscoveredCandidate → List DiscoveredCandidate
  | [], _, candidates => candidates
  | info :: infos, seen, candidates =>
    match freshWitnessKey info now with
    | none => peerCandidates prefixFor now infos seen candidates
    | some key =>
      if key ∈ seen then peerCandidates prefixFor now infos seen candidates
      else
        match prefixFor info.baseUrl with
        | none => peerCandidates prefixFor now infos (key :: seen) candidates
        | some netPrefix => peerCandidates prefixFor now infos (key :: seen) (candidates ++ [⟨key, netPrefix, false⟩])

/-- the last entry of a URL, as a map built from the entries in this order holds it -/
def lastByUrl (entries : List Peers.PeerInfo) (url : String) : Option Peers.PeerInfo :=
  entries.reverse.find? fun p => p.baseUrl = url

def buildCandidates (seedPrefix peerPrefix : PrefixFor) (normalizedBaseUrl : String → String)
    (unverified known : List Peers.PeerInfo) (seeds : List String) (listed : List Peers.PeerInfo) (now : OffsetDateTime) :
    List DiscoveredCandidate :=
  let anchors := anchorCandidates seedPrefix normalizedBaseUrl (lastByUrl (unverified ++ known)) now seeds []
  peerCandidates peerPrefix now listed (anchors.map (·.witnessKeyId)) anchors

/-- candidates with different ids -/
def Distinct (candidates : List DiscoveredCandidate) : Prop := (candidates.map DiscoveredCandidate.witnessKeyId).Nodup

theorem distinct_concat {candidates : List DiscoveredCandidate} (h : Distinct candidates) {c : DiscoveredCandidate}
    (hc : c.witnessKeyId ∉ candidates.map DiscoveredCandidate.witnessKeyId) : Distinct (candidates ++ [c]) := by
  rw [Distinct, List.map_append, List.map_singleton]
  exact List.nodup_append.2 ⟨h, List.nodup_singleton _, fun a ha b hb => by
    rw [List.mem_singleton.1 hb]
    rintro rfl
    exact hc ha⟩

theorem distinct_anchorCandidates (prefixFor : PrefixFor) (normalizedBaseUrl : String → String)
    (byUrl : String → Option Peers.PeerInfo) (now : OffsetDateTime) (seeds : List String)
    {candidates : List DiscoveredCandidate} (h : Distinct candidates) :
    Distinct (anchorCandidates prefixFor normalizedBaseUrl byUrl now seeds candidates) := by
  induction seeds generalizing candidates with
  | nil => exact h
  | cons seed seeds ih =>
    unfold anchorCandidates
    apply ih
    split
    · exact h
    · split
      · exact h
      · split
        · exact h
        · rename_i hnew
          refine distinct_concat h fun hmem => hnew ?_
          obtain ⟨c, hc, hid⟩ := List.mem_map.1 hmem
          exact List.any_eq_true.2 ⟨c, hc, decide_eq_true hid⟩

theorem distinct_peerCandidates (prefixFor : PrefixFor) (now : OffsetDateTime) (infos : List Peers.PeerInfo)
    {seen : List String} {candidates : List DiscoveredCandidate} (h : Distinct candidates)
    (hseen : candidates.map DiscoveredCandidate.witnessKeyId ⊆ seen) :
    Distinct (peerCandidates prefixFor now infos seen candidates) := by
  induction infos generalizing seen candidates with
  | nil => exact h
  | cons info infos ih =>
    unfold peerCandidates
    split
    · exact ih h hseen
    · rename_i key hkey
      split
      · exact ih h hseen
      · rename_i hnew
        split
        · exact ih h (List.Subset.trans hseen (List.subset_cons_self _ _))
        · refine ih (distinct_concat h fun hmem => hnew (hseen hmem)) ?_
          rw [List.map_append, List.map_singleton]
          refine List.append_subset.2 ⟨List.Subset.trans hseen (List.subset_cons_self _ _), ?_⟩
          exact List.cons_subset.2 ⟨List.mem_cons_self, List.nil_subset _⟩

/-- **Each id is offered once** -/
theorem distinct_buildCandidates (seedPrefix peerPrefix : PrefixFor) (normalizedBaseUrl : String → String)
    (unverified known : List Peers.PeerInfo) (seeds : List String) (listed : List Peers.PeerInfo) (now : OffsetDateTime) :
    Distinct (buildCandidates seedPrefix peerPrefix normalizedBaseUrl unverified known seeds listed now) :=
  distinct_peerCandidates peerPrefix now listed
    (distinct_anchorCandidates seedPrefix normalizedBaseUrl _ now seeds List.nodup_nil) (List.Subset.refl _)

/-! ## Admission agrees -/

namespace KnownListInner

variable {list : KnownListInner} {now : OffsetDateTime}

theorem contains_toReference (id : String) : list.toReference.contains id = list.contains id := by
  rw [KnownListPrototype.KnownList.contains, toReference, List.any_map]
  rfl

theorem counts_toReference (list : KnownListInner) (netPrefix : String) : list.toReference.anchorCount = list.anchorCount ∧
    list.toReference.prefixCount netPrefix = list.prefixCount netPrefix := by
  constructor
  · rw [KnownListPrototype.KnownList.anchorCount, toReference, List.countP_map]
    rfl
  · rw [KnownListPrototype.KnownList.prefixCount, toReference, List.countP_map]
    rfl

/-- one admission -/
theorem tryAdmit_reference (list : KnownListInner) (c : DiscoveredCandidate) (now : OffsetDateTime) :
    list.toReference.tryAdmit c.toWitnessSlot =
      ((list.tryAdmit c.witnessKeyId c.netPrefix c.isAnchor now).1.toReference,
        (list.tryAdmit c.witnessKeyId c.netPrefix c.isAnchor now).2) := by
  obtain ⟨hanchors, hprefixes⟩ := counts_toReference list c.netPrefix
  have hlength : list.toReference.slots.length = list.slots.length := List.length_map ..
  have hcaps : list.toReference.anchorCapacity = list.cfg.anchorCapacity ∧ list.toReference.capacity = list.cfg.capacity ∧
      list.toReference.maxPerPrefix = list.cfg.maxPerPrefix := ⟨rfl, rfl, rfl⟩
  simp only [KnownListPrototype.KnownList.tryAdmit, tryAdmit, DiscoveredCandidate.toWitnessSlot, contains_toReference,
    hanchors, hprefixes, hlength, hcaps]
  split_ifs
  · rfl
  · rfl
  · rfl
  · rfl
  · simp [toReference, newSlot, KnownSlot.toWitnessSlot]

/-- **Offering in an order**: the slots and the ids are those of the reference -/
theorem admitAll_reference (list : KnownListInner) (now : OffsetDateTime) (order : List DiscoveredCandidate) :
    list.toReference.tryAdmitAll (order.map DiscoveredCandidate.toWitnessSlot) =
      ((list.admitAll now order).1.toReference, (list.admitAll now order).2) := by
  induction order generalizing list with
  | nil => rfl
  | cons c rest ih =>
    rw [List.map_cons, KnownListPrototype.KnownList.tryAdmitAll, tryAdmit_reference list c now]
    dsimp only
    rw [ih]
    rfl

/-! ## The order of a refill -/

/-- the first-seen time a candidate has in a call, then its id -/
def tenure (list : KnownListInner) (now : OffsetDateTime) (c : DiscoveredCandidate) : ℤ ×ₗ String :=
  toLex ((list.candidateFirstSeen c.witnessKeyId).getD now, c.witnessKeyId)

theorem contains_of_keys {list later : KnownListInner} {id : String}
    (h : later.slots.map KnownSlot.key = list.slots.map KnownSlot.key) : later.contains id = list.contains id := by
  have hids : ∀ list : KnownListInner, list.contains id = (list.slots.map KnownSlot.key).any fun k => decide (k.1 = id) := by
    intro list
    rw [List.any_map]
    rfl
  rw [hids, hids, h]

theorem contains_observeAll (candidates : List DiscoveredCandidate) (id : String) :
    (list.observeAll candidates now).contains id = list.contains id :=
  contains_of_keys (observeAll_keys list candidates now).2

theorem firstSeen_observeAll (candidates : List DiscoveredCandidate) (id : String) :
    (list.observeAll candidates now).candidateFirstSeen id =
      if candidates.any (·.witnessKeyId = id) then some ((list.candidateFirstSeen id).getD now)
      else list.candidateFirstSeen id := by
  unfold observeAll
  induction candidates generalizing list with
  | nil => rfl
  | cons c rest ih =>
    rw [List.foldl_cons, ih]
    by_cases hid : id = c.witnessKeyId
    · subst hid
      simp [observe]
    · have hid' : ¬ c.witnessKeyId = id := fun h => hid h.symm
      simp [observe, hid, hid']

/-- the list as the candidates are ranked and offered -/
def prepared (list : KnownListInner) (candidates : List DiscoveredCandidate) (now : OffsetDateTime) : KnownListInner :=
  (list.observeAll candidates now).retainOffered candidates

theorem contains_prepared (candidates : List DiscoveredCandidate) (id : String) :
    (list.prepared candidates now).contains id = list.contains id := contains_observeAll candidates id

theorem firstSeen_prepared (candidates : List DiscoveredCandidate) (id : String) :
    (list.prepared candidates now).candidateFirstSeen id =
      if candidates.any (·.witnessKeyId = id) then some ((list.candidateFirstSeen id).getD now)
      else if list.contains id then list.candidateFirstSeen id else none := by
  rw [prepared, retainOffered]
  dsimp only
  rw [contains_observeAll, firstSeen_observeAll]
  by_cases hoffered : candidates.any (·.witnessKeyId = id) = true
  · rw [hoffered, Bool.true_or, if_pos rfl, if_pos rfl, if_pos rfl]
  · rw [Bool.not_eq_true] at hoffered
    rw [hoffered, Bool.false_or, if_neg Bool.false_ne_true, if_neg Bool.false_ne_true]

/-- the candidates that are no slots, in the order of a call -/
def tenureOrder (list : KnownListInner) (candidates : List DiscoveredCandidate) (now : OffsetDateTime) :
    List DiscoveredCandidate :=
  (candidates.filter fun c => !list.contains c.witnessKeyId).insertionSort fun a b => list.tenure now a ≤ list.tenure now b

theorem tenureOrder_perm (candidates : List DiscoveredCandidate) :
    (list.tenureOrder candidates now).Perm (candidates.filter fun c => !list.contains c.witnessKeyId) :=
  List.perm_insertionSort _ _

theorem tenureOrder_sorted (list : KnownListInner) (candidates : List DiscoveredCandidate) (now : OffsetDateTime) :
    (list.tenureOrder candidates now).Pairwise fun a b => list.tenure now a ≤ list.tenure now b := by
  have : IsTrans DiscoveredCandidate fun a b => list.tenure now a ≤ list.tenure now b := ⟨fun _ _ _ => le_trans⟩
  have : Std.Total fun a b : DiscoveredCandidate => list.tenure now a ≤ list.tenure now b := ⟨fun _ _ => le_total _ _⟩
  exact List.pairwise_insertionSort _ _

/-- there is one order -/
theorem order_unique {candidates l l' : List DiscoveredCandidate} (hdistinct : Distinct candidates)
    (hl : l.Perm (candidates.filter fun c => !list.contains c.witnessKeyId)) (hperm : l.Perm l')
    (hsorted : l.Pairwise fun a b => list.tenure now a ≤ list.tenure now b)
    (hsorted' : l'.Pairwise fun a b => list.tenure now a ≤ list.tenure now b) : l = l' := by
  refine hperm.eq_of_pairwise ?_ hsorted hsorted'
  intro a b ha hb hab hba
  have hid : a.witnessKeyId = b.witnessKeyId := congrArg (fun k => (ofLex k).2) (le_antisymm hab hba)
  have hmem : ∀ c ∈ l, c ∈ candidates := fun c hc => List.mem_of_mem_filter (hl.mem_iff.1 hc)
  exact List.inj_on_of_nodup_map hdistinct (hmem a ha) (hmem b (hperm.mem_iff.2 hb)) hid

theorem ranked_eq {candidates : List DiscoveredCandidate} (hdistinct : Distinct candidates) :
    (list.prepared candidates now).ranked candidates now = list.tenureOrder candidates now := by
  have hperm : ((list.prepared candidates now).ranked candidates now).Perm
      (candidates.filter fun c => !list.contains c.witnessKeyId) := by
    unfold ranked
    simp only [contains_prepared]
    exact List.perm_insertionSort _ _
  refine order_unique hdistinct hperm (hperm.trans (tenureOrder_perm candidates).symm) ?_
    (tenureOrder_sorted list candidates now)
  -- among the candidates, the time that is ranked by is the one of the call
  have htenure : ∀ c ∈ candidates, (list.prepared candidates now).tenure now c = list.tenure now c := by
    intro c hc
    have hoffered : candidates.any (fun d => d.witnessKeyId = c.witnessKeyId) = true :=
      List.any_eq_true.2 ⟨c, hc, decide_eq_true rfl⟩
    rw [tenure, firstSeen_prepared, if_pos hoffered]
    rfl
  have hsorted := tenureOrder_sorted (list.prepared candidates now) candidates now
  refine List.Pairwise.imp_of_mem ?_ hsorted
  intro a b ha hb hle
  have hmem : ∀ c ∈ (list.prepared candidates now).tenureOrder candidates now, c ∈ candidates := fun c hc =>
    List.mem_of_mem_filter ((tenureOrder_perm candidates).mem_iff.1 hc)
  rwa [htenure a (hmem a ha), htenure b (hmem b hb)] at hle

theorem refill_eq {candidates : List DiscoveredCandidate} (hdistinct : Distinct candidates) :
    list.refill candidates now = (list.prepared candidates now).admitAll now (list.tenureOrder candidates now) := by
  rw [← ranked_eq hdistinct]
  rfl

/-- preparing changes no slot that the reference sees -/
theorem toReference_prepared (candidates : List DiscoveredCandidate) :
    (list.prepared candidates now).toReference = list.toReference := by
  obtain ⟨hcfg, hkeys⟩ := observeAll_keys list candidates now
  have hslots : ∀ slots : List KnownSlot, slots.map KnownSlot.toWitnessSlot =
      (slots.map KnownSlot.key).map fun k => ⟨k.1, k.2.1, k.2.2⟩ := by
    intro slots
    rw [List.map_map]
    rfl
  rw [toReference, toReference, hslots, hslots]
  change KnownListPrototype.KnownList.mk (list.observeAll candidates now).cfg.capacity _ _
    ((((list.observeAll candidates now).slots.map KnownSlot.key)).map _) = _
  rw [hkeys, prepared, retainOffered, hcfg]

/-- **A refill is the fold of the reference rule** over the candidates that are no slots, by first-seen time and id -/
theorem refill_reference {candidates : List DiscoveredCandidate} (hdistinct : Distinct candidates) :
    list.toReference.tryAdmitAll ((list.tenureOrder candidates now).map DiscoveredCandidate.toWitnessSlot) =
      ((list.refill candidates now).1.toReference, (list.refill candidates now).2) := by
  rw [refill_eq hdistinct, ← admitAll_reference, toReference_prepared]

/-! ## The order of the candidate list -/

theorem observeSlots_comm (a b : String) (slots : List KnownSlot) :
    observeSlots a now (observeSlots b now slots) = observeSlots b now (observeSlots a now slots) := by
  induction slots with
  | nil => rfl
  | cons s slots ih =>
    by_cases ha : s.witnessKeyId = a
    · by_cases hb : s.witnessKeyId = b
      · rw [← ha, ← hb]
      · simp [observeSlots, ha, show ¬ a = b from fun h => hb (ha.trans h)]
    · by_cases hb : s.witnessKeyId = b
      · simp [observeSlots, hb, show ¬ b = a from fun h => ha (hb.trans h)]
      · simp [observeSlots, ha, hb, ih]

theorem observeAll_perm {candidates candidates' : List DiscoveredCandidate} (h : candidates.Perm candidates') :
    list.observeAll candidates now = list.observeAll candidates' now := by
  refine h.foldl_eq' (fun x _ y _ list => ?_) list
  simp only [observe]
  congr 1
  · exact observeSlots_comm ..
  · funext id
    by_cases hx : id = x.witnessKeyId
    · subst hx
      by_cases hy : x.witnessKeyId = y.witnessKeyId
      · rw [hy]
      · simp [hy]
    · by_cases hy : id = y.witnessKeyId
      · subst hy
        simp [hx]
      · simp [hx, hy]

theorem prepared_perm {candidates candidates' : List DiscoveredCandidate} (h : candidates.Perm candidates') :
    list.prepared candidates now = list.prepared candidates' now := by
  rw [prepared, prepared, observeAll_perm h, retainOffered, retainOffered]
  congr 1
  funext id
  rw [h.any_eq]

/-- **The order of the candidates does not show** -/
theorem refill_perm {candidates candidates' : List DiscoveredCandidate} (hdistinct : Distinct candidates)
    (h : candidates.Perm candidates') : list.refill candidates now = list.refill candidates' now := by
  have hdistinct' : Distinct candidates' := (h.map _).nodup_iff.1 hdistinct
  have horder : list.tenureOrder candidates now = list.tenureOrder candidates' now := by
    refine order_unique hdistinct (tenureOrder_perm candidates) ?_ (tenureOrder_sorted ..) (tenureOrder_sorted ..)
    exact (tenureOrder_perm candidates).trans ((h.filter _).trans (tenureOrder_perm candidates').symm)
  rw [refill_eq hdistinct, refill_eq hdistinct', horder, prepared_perm h]

/-! ## A candidate that was absent -/

/-- an id that is no slot has no first-seen time -/
def Unseen (id : String) (list : KnownListInner) : Prop := list.contains id = false → list.candidateFirstSeen id = none

/-- a method that does not offer the id to a refill -/
inductive Quiet (id : String) : KnownListInner → KnownListInner → Prop
  | tryAdmit (list : KnownListInner) (witnessKeyId netPrefix : String) (isAnchor : Bool) (now : OffsetDateTime) :
    Quiet id list (list.tryAdmit witnessKeyId netPrefix isAnchor now).1
  | remove (list : KnownListInner) (witnessKeyId : String) : Quiet id list (list.remove witnessKeyId).1
  | observe (list : KnownListInner) (witnessKeyId : String) (now : OffsetDateTime) :
    Quiet id list (list.observe witnessKeyId now).1
  | confirmDue (list : KnownListInner) (now : OffsetDateTime) : Quiet id list (list.confirmDue now).1
  | pruneStale {list later : KnownListInner} {now : OffsetDateTime} {removed : List KnownSlot}
    (h : list.pruneStale now = some (later, removed)) : Quiet id list later
  | refill (list : KnownListInner) (candidates : List DiscoveredCandidate) (now : OffsetDateTime)
    (h : candidates.any (·.witnessKeyId = id) = false) : Quiet id list (list.refill candidates now).1

theorem tryAdmit_firstSeen (witnessKeyId netPrefix : String) (isAnchor : Bool) :
    (list.tryAdmit witnessKeyId netPrefix isAnchor now).1.candidateFirstSeen = list.candidateFirstSeen := by
  obtain heq | ⟨heq, -⟩ := tryAdmit_cases list witnessKeyId netPrefix isAnchor now <;> rw [heq]

theorem admitAll_firstSeen (candidates : List DiscoveredCandidate) :
    (list.admitAll now candidates).1.candidateFirstSeen = list.candidateFirstSeen := by
  induction candidates generalizing list with
  | nil => rfl
  | cons c rest ih => exact ih.trans (tryAdmit_firstSeen c.witnessKeyId c.netPrefix c.isAnchor)

theorem refill_firstSeen (candidates : List DiscoveredCandidate) (id : String) :
    (list.refill candidates now).1.candidateFirstSeen id = (list.prepared candidates now).candidateFirstSeen id := by
  rw [refill]
  exact congrFun (admitAll_firstSeen _) id

/-- slots only come to a list -/
theorem contains_tryAdmit {id : String} (witnessKeyId netPrefix : String) (isAnchor : Bool)
    (h : (list.tryAdmit witnessKeyId netPrefix isAnchor now).1.contains id = false) : list.contains id = false := by
  obtain heq | ⟨heq, -⟩ := tryAdmit_cases list witnessKeyId netPrefix isAnchor now
  · rwa [heq] at h
  · rw [heq, contains, List.any_append, Bool.or_eq_false_iff] at h
    exact h.1

theorem contains_admitAll {id : String} (candidates : List DiscoveredCandidate)
    (h : (list.admitAll now candidates).1.contains id = false) : list.contains id = false := by
  induction candidates generalizing list with
  | nil => exact h
  | cons c rest ih => exact contains_tryAdmit c.witnessKeyId c.netPrefix c.isAnchor (ih h)

/-- **Absent from one call**: the call leaves no first-seen time, unless the id is a slot -/
theorem unseen_refill {id : String} {candidates : List DiscoveredCandidate}
    (habsent : candidates.any (·.witnessKeyId = id) = false) : Unseen id (list.refill candidates now).1 := by
  intro hcontains
  have hlist : list.contains id = false := by
    rw [← contains_prepared candidates id]
    exact contains_admitAll _ hcontains
  rw [refill_firstSeen, firstSeen_prepared, habsent, hlist, if_neg Bool.false_ne_true, if_neg Bool.false_ne_true]

/-- each method keeps it: a slot that goes is forgotten -/
theorem unseen_quiet {id : String} {later : KnownListInner} (h : Unseen id list) (hquiet : Quiet id list later) :
    Unseen id later := by
  cases hquiet with
  | tryAdmit witnessKeyId netPrefix isAnchor now =>
    intro hcontains
    rw [tryAdmit_firstSeen]
    exact h (contains_tryAdmit _ _ _ hcontains)
  | remove witnessKeyId =>
    intro hcontains
    by_cases hid : id = witnessKeyId
    · simp [remove, forget, hid]
    · have hlist : list.contains id = false := by
        rw [Bool.eq_false_iff, Ne, contains_eq_true] at hcontains ⊢
        rintro ⟨s, hs, rfl⟩
        exact hcontains ⟨s, List.mem_filter.2 ⟨hs, decide_eq_true hid⟩, rfl⟩
      simpa [remove, forget, hid] using h hlist
  | observe witnessKeyId now =>
    intro hcontains
    rw [contains_of_keys (observeSlots_keys witnessKeyId now list.slots)] at hcontains
    exact h hcontains
  | confirmDue now =>
    intro hcontains
    have hkeys : (list.confirmDue now).1.slots.map KnownSlot.key = list.slots.map KnownSlot.key := by
      rw [confirmDue, List.map_map]
      apply List.map_congr_left
      intro s _
      dsimp only [Function.comp]
      split_ifs <;> rfl
    rw [contains_of_keys hkeys] at hcontains
    exact h hcontains
  | pruneStale hprune =>
    rename_i now removed
    unfold pruneStale at hprune
    obtain ⟨window, -, hprune⟩ := Option.bind_eq_some_iff.1 hprune
    cases hprune
    intro hcontains
    dsimp only [forget]
    split
    · rfl
    · rename_i hkept
      refine h ?_
      rw [Bool.eq_false_iff, Ne, contains_eq_true] at hcontains ⊢
      rintro ⟨s, hs, rfl⟩
      -- a slot of the id is either pruned, and its id forgotten, or kept
      refine hcontains ⟨s, List.mem_filter.2 ⟨hs, (Bool.not_eq_true' _).mpr ?_⟩, rfl⟩
      exact Bool.eq_false_iff.2 fun hstale => hkept (List.mem_map.2 ⟨s, List.mem_filter.2 ⟨hs, hstale⟩, rfl⟩)
  | refill candidates now habsent => exact unseen_refill habsent

theorem unseen_of_chain {id : String} {later : KnownListInner} (h : Unseen id list)
    (hchain : Relation.ReflTransGen (Quiet id) list later) : Unseen id later := by
  induction hchain with
  | refl => exact h
  | tail _ hquiet ih => exact unseen_quiet ih hquiet

/-- **Back after an absence**: the candidate ranks as one that this call sees first, and its tenure starts with the call -/
theorem firstSeen_of_absent {id : String} {candidates : List DiscoveredCandidate} {later : KnownListInner}
    (habsent : candidates.any (·.witnessKeyId = id) = false)
    (hchain : Relation.ReflTransGen (Quiet id) (list.refill candidates now).1 later) (hlist : later.contains id = false)
    {candidates' : List DiscoveredCandidate} {now' : OffsetDateTime} {c : DiscoveredCandidate} (hc : c ∈ candidates')
    (hid : c.witnessKeyId = id) :
    later.tenure now' c = toLex (now', id) ∧ (later.refill candidates' now').1.candidateFirstSeen id = some now' := by
  have hunseen : later.candidateFirstSeen id = none := unseen_of_chain (unseen_refill habsent) hchain hlist
  constructor
  · rw [tenure, hid, hunseen, Option.getD_none]
  · have hoffered : candidates'.any (·.witnessKeyId = id) = true := List.any_eq_true.2 ⟨c, hc, decide_eq_true hid⟩
    rw [refill_firstSeen, firstSeen_prepared, if_pos hoffered, hunseen, Option.getD_none]

/-- what a call of the handle does to its list is a chain of such methods, unless it offers the id -/
theorem quiet_step {id : String} (handle : KnownListHandle) {op : Op}
    (h : ∀ candidates, op.call = .tick candidates → candidates.any (·.witnessKeyId = id) = false) :
    Relation.ReflTransGen (Quiet id) handle.inner (step handle op).inner := by
  obtain ⟨call, now⟩ := op
  cases call with
  | tryAdmit witnessKeyId netPrefix isAnchor =>
    simp only [step]
    split_ifs
    · exact .refl
    · exact .single (.tryAdmit ..)
  | remove witnessKeyId =>
    simp only [step]
    split_ifs
    · exact .refl
    · exact .single (.remove ..)
  | observe witnessKeyId =>
    simp only [step]
    split_ifs
    · exact .refl
    · exact .single (.observe ..)
  | tick candidates =>
    simp only [step, KnownListHandle.tick]
    split_ifs
    · exact .refl
    · have hconfirm : Quiet id handle.inner (handle.inner.confirmDue now).1 := .confirmDue ..
      cases hprune : (handle.inner.confirmDue now).1.pruneStale now with
      | none => exact .single hconfirm
      | some pruned =>
        exact ((Relation.ReflTransGen.single hconfirm).tail (.pruneStale hprune)).tail
          (.refill _ candidates now (h candidates rfl))

end KnownListInner

/-- **Refill**: candidates with different ids, as they are built, get what the reference rule gives them in the order of
first-seen time and id; their own order does not show; a candidate that was absent ranks as new -/
theorem refill_agrees :
    (∀ (list : KnownListInner) (candidates : List DiscoveredCandidate) (now : OffsetDateTime), Distinct candidates →
      list.toReference.tryAdmitAll ((list.tenureOrder candidates now).map DiscoveredCandidate.toWitnessSlot) =
        ((list.refill candidates now).1.toReference, (list.refill candidates now).2) ∧
      ∀ candidates', candidates.Perm candidates' → list.refill candidates now = list.refill candidates' now) ∧
    (∀ (seedPrefix peerPrefix : PrefixFor) (normalizedBaseUrl : String → String) (unverified known : List Peers.PeerInfo)
      (seeds : List String) (listed : List Peers.PeerInfo) (now : OffsetDateTime),
      Distinct (buildCandidates seedPrefix peerPrefix normalizedBaseUrl unverified known seeds listed now)) ∧
    ∀ (list later : KnownListInner) (id : String) (candidates candidates' : List DiscoveredCandidate)
      (now now' : OffsetDateTime), candidates.any (·.witnessKeyId = id) = false →
      Relation.ReflTransGen (KnownListInner.Quiet id) (list.refill candidates now).1 later → later.contains id = false →
      ∀ c ∈ candidates', c.witnessKeyId = id →
        later.tenure now' c = toLex (now', id) ∧ (later.refill candidates' now').1.candidateFirstSeen id = some now' := by
  refine ⟨fun list candidates now hdistinct => ⟨?_, fun candidates' hperm => ?_⟩, distinct_buildCandidates, ?_⟩
  · exact KnownListInner.refill_reference hdistinct
  · exact KnownListInner.refill_perm hdistinct hperm
  · intro list later id candidates candidates' now now' habsent hchain hlist c hc hid
    exact KnownListInner.firstSeen_of_absent habsent hchain hlist hc hid

end Avalon.KnownList
