/-
The peer table (`crates/server/src/nodes.rs`, `PeerTable`): the peers a node has confirmed and, apart from them, those it
only heard of. Every writer of the two maps is here: `upsert`, `upsert_relayed`, `insert_bounded`, `attach_witness`,
`insert_unverified`, `take_unverified`, the two prunes and `promote_unverified_by_libp2p_peer`.

Both maps are keyed by the entry's own `base_url`. `insert_bounded` returns the table also when it refuses, as it would have
left it. The protected URLs are an input (the neighbour table is not modelled), the parser of libp2p peer ids is a parameter,
and the order in which `promote_unverified_by_libp2p_peer` meets the pooled entries is one too.

Results:
- `insertBounded_cases`: an insertion is refused and leaves the table as it was, or makes room first.
- `ok_write`, `respects_write`: every write keeps the bounds, and what it may not do to the entries.
- `peer_table_invariants`: in every reachable table the bounds hold and every write respects the precedences; a promotion takes
  pooled entries and inserts them by such writes.
-/
import Mathlib.Tactic
import Avalon.Core.KeySet
import Avalon.Protocol.LedgerEntry
import Avalon.Server.OverlayRouting

namespace Avalon.Peers

open Std (ExtTreeMap)
open KeySet LedgerEntry
open OverlayRouting (trim trimEndMatches)

/-! ## Entries -/

structure WitnessAdvert where
  keyId : String
  announcedAt : OffsetDateTime
  proof : String
  /-- verified from the URL's own endpoint -/
  direct : Bool
deriving DecidableEq, Repr

inductive Connectivity where
  | direct
  | natTraversed
  | relayed
  | outboundOnly
deriving DecidableEq, Repr

structure PeerInfo where
  baseUrl : String
  roles : List String
  protocolVersion : String
  networkId : String
  lastAnnouncedAt : OffsetDateTime
  libp2pPeerId : Option String
  libp2pListenAddrs : List String
  witness : Option WitnessAdvert
  connectivity : Option Connectivity
  /-- the id, addresses and connectivity were vouched for by the URL's own server -/
  identityBound : Bool
deriving DecidableEq, Repr

def isP2pUrl (url : String) : Bool := OverlayRouting.isP2pUrl url.toList

/-- a direct advert is never displaced by one that is not; otherwise the newer one wins -/
def advertReplaces (old new : WitnessAdvert) : Bool :=
  match old.direct, new.direct with
  | true, false => false
  | false, true => true
  | _, _ => decide (new.announcedAt ≥ old.announcedAt)

def carryWitness (existing : Option PeerInfo) (info : PeerInfo) : PeerInfo :=
  match existing.bind PeerInfo.witness with
  | none => info
  | some old =>
    match info.witness with
    | some new => if advertReplaces old new then info else { info with witness := some old }
    | none => { info with witness := some old }

/-- a bound entry keeps its id unless the write is bound itself; the same id refreshes addresses and connectivity -/
def carryIdentity (existing : Option PeerInfo) (info : PeerInfo) : PeerInfo :=
  match existing.filter PeerInfo.identityBound with
  | none => info
  | some old =>
    if info.identityBound then info
    else if info.libp2pPeerId = old.libp2pPeerId then { info with identityBound := true }
    else
      { info with
        libp2pPeerId := old.libp2pPeerId
        libp2pListenAddrs := old.libp2pListenAddrs
        connectivity := old.connectivity
        identityBound := true }

/-- the witness slot under the replacement rule -/
def attach (p : PeerInfo) (advert : WitnessAdvert) : PeerInfo :=
  if p.witness.all fun old => advertReplaces old advert then { p with witness := some advert } else p

section Libp2p

-- a libp2p peer id, parsed and printed again
variable (parsePeerId : String → Option String)

def parseP2pBase (url : String) : Option String := do
  let rest ← (trim url.toList).dropPrefix? "p2p://".toList
  parsePeerId (String.ofList (trimEndMatches (· == '/') rest))

/-- what a libp2p contact proves of a pooled `p2p://<id>` entry: only the id -/
def bindIfP2pUrlNamesPeer (info : PeerInfo) (peerId : String) : PeerInfo :=
  if parseP2pBase parsePeerId info.baseUrl = some peerId ∧ info.libp2pPeerId = some peerId then
    { info with
      identityBound := true
      roles := []
      protocolVersion := "0.0.0"
      libp2pListenAddrs := []
      connectivity := none
      witness := none }
  else info

end Libp2p

/-! ## The table -/

abbrev PeerMap := ExtTreeMap String PeerInfo

structure PeerTable where
  peers : PeerMap
  unverified : PeerMap

def PeerTable.new : PeerTable := ⟨∅, ∅⟩

inductive TableFull where
  | tableFull
deriving DecidableEq, Repr

def maxP2pEntries : ℕ := 64

def maxP2pUnverified : ℕ := 32

def maxUnverifiedPeers : ℕ := 256

def p2pCount (peers : PeerMap) : ℕ := (peers.keys.filter isP2pUrl).length

/-- `p2p://` entries go first, then the oldest -/
def evictionOrder (a b : PeerInfo) : Ordering :=
  (compare (isP2pUrl b.baseUrl) (isP2pUrl a.baseUrl)).then
    ((compare a.lastAnnouncedAt b.lastAnnouncedAt).then (compare a.baseUrl b.baseUrl))

/-- the first of the least -/
def minBy {α : Type} (cmp : α → α → Ordering) : List α → Option α
  | [] => none
  | a :: l =>
    match minBy cmp l with
    | none => some a
    | some b => if cmp a b = .gt then some b else some a

/-- the entry to evict -/
def oldest (peers : PeerMap) (protectedUrls : List String) (onlyP2p : Bool) : Option String :=
  (minBy evictionOrder (((peers.toList.map Prod.snd).filter fun p => decide (p.baseUrl ∉ protectedUrls)).filter fun p =>
    !onlyP2p || isP2pUrl p.baseUrl)).map PeerInfo.baseUrl

namespace PeerTable

def upsert (t : PeerTable) (info : PeerInfo) : PeerTable :=
  let info := carryIdentity t.peers[info.baseUrl]? (carryWitness t.peers[info.baseUrl]? info)
  { t with peers := t.peers.insert info.baseUrl info }

/-- the stored time is kept, and what a bound entry is known by -/
def relayedOver (stored : Option PeerInfo) (info : PeerInfo) : PeerInfo :=
  match stored with
  | none => info
  | some stored =>
    let info := { info with lastAnnouncedAt := stored.lastAnnouncedAt }
    if stored.identityBound then
      { info with
        libp2pPeerId := stored.libp2pPeerId
        libp2pListenAddrs := stored.libp2pListenAddrs
        connectivity := stored.connectivity
        identityBound := true }
    else info

def upsertRelayed (t : PeerTable) (info : PeerInfo) : PeerTable :=
  let stored := t.peers[info.baseUrl]?
  let info := carryWitness stored (relayedOver stored info)
  { t with peers := t.peers.insert info.baseUrl info }

def attachWitness (t : PeerTable) (baseUrl : String) (advert : WitnessAdvert) : PeerTable :=
  match t.peers[baseUrl]? with
  | some p => { t with peers := t.peers.insert baseUrl (attach p advert) }
  | none =>
    match t.unverified[baseUrl]? with
    | some p => { t with unverified := t.unverified.insert baseUrl (attach p advert) }
    | none => t

/-- the victim is removed; without one nothing is -/
def evict (peers : PeerMap) (victim : Option String) : Except TableFull (PeerMap × Option String) :=
  match victim with
  | some victim => .ok (peers.erase victim, some victim)
  | none => .error .tableFull

def evictIf (full : Bool) (peers : PeerMap) (victim : Option String) (evicted : Option String) :
    Except TableFull (PeerMap × Option String) :=
  if full then evict peers victim else .ok (peers, evicted)

/-- the table as the call leaves it, also when it fails -/
def insertBounded (t : PeerTable) (protectedUrls : List String) (info : PeerInfo) (max : ℕ) :
    PeerTable × Except TableFull (Option String) :=
  let info := carryIdentity t.peers[info.baseUrl]? (carryWitness t.peers[info.baseUrl]? info)
  let isNew := !t.peers.contains info.baseUrl
  let isP2p := isP2pUrl info.baseUrl
  match evictIf (isNew && isP2p && decide (p2pCount t.peers ≥ min maxP2pEntries max)) t.peers (oldest t.peers protectedUrls true)
    none with
  | .error e => (t, .error e)
  | .ok (peers, evicted) =>
    -- a p2p newcomer never displaces an http peer
    match evictIf (isNew && decide (peers.size ≥ max)) peers (oldest peers protectedUrls isP2p) evicted with
    | .error e => ({ t with peers := peers }, .error e)
    | .ok (peers, evicted) => ({ t with peers := peers.insert info.baseUrl info }, .ok evicted)

/-- a `p2p://` newcomer makes room among the `p2p://` entries -/
def makeP2pRoom (pool : PeerMap) (newP2p : Bool) : PeerMap :=
  if newP2p && decide (p2pCount pool ≥ maxP2pUnverified) then (oldest pool [] true).elim pool pool.erase else pool

def insertUnverified (t : PeerTable) (info : PeerInfo) : PeerTable :=
  let info := carryWitness t.unverified[info.baseUrl]? info
  let newP2p := isP2pUrl info.baseUrl && !t.unverified.contains info.baseUrl
  let pool := makeP2pRoom t.unverified newP2p
  if !pool.contains info.baseUrl && decide (pool.size ≥ maxUnverifiedPeers) then
    -- a p2p newcomer only displaces p2p entries, and is dropped if there are none
    match oldest pool [] newP2p with
    | some victim => { t with unverified := (pool.erase victim).insert info.baseUrl info }
    | none => { t with unverified := pool }
  else { t with unverified := pool.insert info.baseUrl info }

def takeUnverified (t : PeerTable) (baseUrl : String) : PeerTable × Option PeerInfo :=
  ({ t with unverified := t.unverified.erase baseUrl }, t.unverified[baseUrl]?)

def pruneOlderThan (t : PeerTable) (cutoff : OffsetDateTime) : PeerTable :=
  { t with peers := t.peers.filter fun _ info => decide (info.lastAnnouncedAt ≥ cutoff) }

def pruneUnverifiedOlderThan (t : PeerTable) (cutoff : OffsetDateTime) : PeerTable :=
  { t with unverified := t.unverified.filter fun _ info => decide (info.lastAnnouncedAt ≥ cutoff) }

section Promote

variable (parsePeerId : String → Option String) (libp2pPeerId : String) (protectedUrls : List String) (max : ℕ)

/-- one pooled entry moved over, and whether it was -/
def promoteOne (t : PeerTable) (url : String) : PeerTable × Bool :=
  match t.takeUnverified url with
  | (t, none) => (t, false)
  | (t, some info) =>
    if isP2pUrl url && t.peers.contains url then (t, false)
    else
      let (t, result) := t.insertBounded protectedUrls (bindIfP2pUrlNamesPeer parsePeerId info libp2pPeerId) max
      (t, result.toOption.isSome)

def promoteAll (t : PeerTable) : List String → PeerTable × List String
  | [] => (t, [])
  | url :: urls =>
    let (t, isPromoted) := t.promoteOne parsePeerId libp2pPeerId protectedUrls max url
    let (t, promoted) := promoteAll t urls
    (t, if isPromoted then url :: promoted else promoted)

/-- the entries that name the peer, in the order the pool is iterated in -/
def promoteUnverifiedByLibp2pPeer (order : List String → List String) (t : PeerTable) : PeerTable × List String :=
  promoteAll parsePeerId libp2pPeerId protectedUrls max t
    (order (((t.unverified.toList.map Prod.snd).filter fun p => decide (p.libp2pPeerId = some libp2pPeerId)).map PeerInfo.baseUrl))

end Promote

end PeerTable

/-! ## What a write keeps of an entry -/

/-- a direct advert stays one -/
def KeepsDirect (old new : PeerInfo) : Prop := ∀ a, old.witness = some a → a.direct = true → ∃ a', new.witness = some a' ∧ a'.direct = true

/-- a bound entry stays bound, and keeps its id unless the write may change it -/
def KeepsIdentity (mayChange : Prop) (old new : PeerInfo) : Prop :=
  old.identityBound = true → new.identityBound = true ∧ (new.libp2pPeerId ≠ old.libp2pPeerId → mayChange)

/-- a direct advert is only replaced by another -/
theorem advertReplaces_direct {old new : WitnessAdvert} (h : advertReplaces old new = true) (hold : old.direct = true) :
    new.direct = true := by
  unfold advertReplaces at h
  rw [hold] at h
  cases hnew : new.direct with
  | true => rfl
  | false =>
    rw [hnew] at h
    cases h

theorem carryWitness_keepsDirect (old info : PeerInfo) : KeepsDirect old (carryWitness (some old) info) := by
  intro a ha hdirect
  have hbind : (some old).bind PeerInfo.witness = some a := ha
  rw [carryWitness, hbind]
  cases hinfo : info.witness with
  | none => exact ⟨a, rfl, hdirect⟩
  | some new =>
    dsimp only
    split_ifs with hreplaces
    · exact ⟨new, hinfo, advertReplaces_direct hreplaces hdirect⟩
    · exact ⟨a, rfl, hdirect⟩

theorem attach_keepsDirect (old : PeerInfo) (advert : WitnessAdvert) : KeepsDirect old (attach old advert) := by
  intro a ha hdirect
  unfold attach
  rw [ha, Option.all_some]
  split_ifs with hreplaces
  · exact ⟨advert, rfl, advertReplaces_direct hreplaces hdirect⟩
  · exact ⟨a, ha, hdirect⟩

/-- only the witness slot changes -/
theorem carryWitness_eq (existing : Option PeerInfo) (info : PeerInfo) :
    ∃ w, carryWitness existing info = { info with witness := w } := by
  unfold carryWitness
  split
  · exact ⟨info.witness, rfl⟩
  · split
    · split_ifs
      · exact ⟨info.witness, rfl⟩
      · exact ⟨_, rfl⟩
    · exact ⟨_, rfl⟩

theorem attach_eq (p : PeerInfo) (advert : WitnessAdvert) : ∃ w, attach p advert = { p with witness := w } := by
  unfold attach
  split_ifs
  · exact ⟨_, rfl⟩
  · exact ⟨p.witness, rfl⟩

theorem carryIdentity_witness (existing : Option PeerInfo) (info : PeerInfo) :
    (carryIdentity existing info).witness = info.witness := by
  unfold carryIdentity
  split
  · rfl
  · split_ifs <;> rfl

theorem carryIdentity_keepsIdentity (old info : PeerInfo) :
    KeepsIdentity (info.identityBound = true) old (carryIdentity (some old) info) := by
  intro hbound
  have hfilter : (some old).filter PeerInfo.identityBound = some old := by
    rw [Option.filter_some, if_pos hbound]
  rw [carryIdentity, hfilter]
  dsimp only
  split_ifs with hinfo hsame
  · exact ⟨hinfo, fun _ => hinfo⟩
  · exact ⟨rfl, fun hne => absurd hsame hne⟩
  · exact ⟨rfl, fun hne => absurd rfl hne⟩

@[simp] theorem carryWitness_baseUrl (existing : Option PeerInfo) (info : PeerInfo) :
    (carryWitness existing info).baseUrl = info.baseUrl := by
  obtain ⟨w, hw⟩ := carryWitness_eq existing info
  rw [hw]

@[simp] theorem carryIdentity_baseUrl (existing : Option PeerInfo) (info : PeerInfo) :
    (carryIdentity existing info).baseUrl = info.baseUrl := by
  unfold carryIdentity
  split
  · rfl
  · split_ifs <;> rfl

@[simp] theorem attach_baseUrl (p : PeerInfo) (advert : WitnessAdvert) : (attach p advert).baseUrl = p.baseUrl := by
  obtain ⟨w, hw⟩ := attach_eq p advert
  rw [hw]

@[simp] theorem relayedOver_baseUrl (stored : Option PeerInfo) (info : PeerInfo) :
    (PeerTable.relayedOver stored info).baseUrl = info.baseUrl := by
  unfold PeerTable.relayedOver
  split
  · rfl
  · dsimp only
    split_ifs <;> rfl

/-- what `upsert` and `insert_bounded` store -/
def stored (existing : Option PeerInfo) (info : PeerInfo) : PeerInfo := carryIdentity existing (carryWitness existing info)

@[simp] theorem stored_baseUrl (existing : Option PeerInfo) (info : PeerInfo) : (stored existing info).baseUrl = info.baseUrl := by
  rw [stored, carryIdentity_baseUrl, carryWitness_baseUrl]

theorem stored_keepsDirect (old info : PeerInfo) : KeepsDirect old (stored (some old) info) := by
  intro a ha hdirect
  rw [stored, carryIdentity_witness]
  exact carryWitness_keepsDirect old info a ha hdirect

theorem stored_keepsIdentity (old info : PeerInfo) : KeepsIdentity (info.identityBound = true) old (stored (some old) info) := by
  obtain ⟨w, hw⟩ := carryWitness_eq (some old) info
  rw [stored, hw]
  exact carryIdentity_keepsIdentity old { info with witness := w }

theorem relayed_keepsIdentity (old info : PeerInfo) :
    KeepsIdentity False old (carryWitness (some old) (PeerTable.relayedOver (some old) info)) := by
  intro hbound
  obtain ⟨w, hw⟩ := carryWitness_eq (some old) (PeerTable.relayedOver (some old) info)
  rw [hw, PeerTable.relayedOver]
  dsimp only
  rw [if_pos hbound]
  exact ⟨rfl, fun hne => absurd rfl hne⟩

theorem attach_keepsIdentity (p : PeerInfo) (advert : WitnessAdvert) : KeepsIdentity False p (attach p advert) := by
  intro hbound
  obtain ⟨w, hw⟩ := attach_eq p advert
  rw [hw]
  exact ⟨hbound, fun hne => absurd rfl hne⟩

theorem KeepsDirect.refl (p : PeerInfo) : KeepsDirect p p := fun a ha hdirect => ⟨a, ha, hdirect⟩

theorem KeepsIdentity.refl (mayChange : Prop) (p : PeerInfo) : KeepsIdentity mayChange p p :=
  fun hbound => ⟨hbound, fun hne => absurd rfl hne⟩

/-! ## Counting -/

/-- every entry is under its own URL -/
def Keyed (peers : PeerMap) : Prop := ∀ (url : String) (p : PeerInfo), peers[url]? = some p → p.baseUrl = url

theorem p2pCount_eq (peers : PeerMap) : p2pCount peers = ((keySet peers).filter fun url => isP2pUrl url = true).card :=
  length_filter_keys peers isP2pUrl

theorem keyed_insert {peers : PeerMap} (h : Keyed peers) (info : PeerInfo) : Keyed (peers.insert info.baseUrl info) := by
  intro url p hget
  rw [ExtTreeMap.getElem?_insert] at hget
  split_ifs at hget with heq
  · rw [← Option.some.inj hget]
    exact Std.compare_eq_iff_eq.1 heq
  · exact h url p hget

theorem mem_of_minBy {α : Type} {cmp : α → α → Ordering} {l : List α} {a : α} (h : minBy cmp l = some a) : a ∈ l := by
  induction l generalizing a with
  | nil => cases h
  | cons b l ih =>
    rw [minBy] at h
    cases hrest : minBy cmp l with
    | none =>
      rw [hrest] at h
      exact Option.some.inj h ▸ List.mem_cons_self
    | some c =>
      rw [hrest] at h
      dsimp only at h
      split_ifs at h
      · exact Option.some.inj h ▸ List.mem_cons_of_mem _ (ih hrest)
      · exact Option.some.inj h ▸ List.mem_cons_self

theorem minBy_eq_none {α : Type} {cmp : α → α → Ordering} {l : List α} (h : minBy cmp l = none) : l = [] := by
  cases l with
  | nil => rfl
  | cons b l =>
    rw [minBy] at h
    cases hrest : minBy cmp l with
    | none =>
      rw [hrest] at h
      cases h
    | some c =>
      rw [hrest] at h
      dsimp only at h
      split_ifs at h

/-- what is evicted is in the table, not protected, and `p2p://` where asked for -/
theorem oldest_eq_some {peers : PeerMap} (hkeyed : Keyed peers) {protectedUrls : List String} {onlyP2p : Bool} {victim : String}
    (h : oldest peers protectedUrls onlyP2p = some victim) :
    victim ∈ keySet peers ∧ victim ∉ protectedUrls ∧ (onlyP2p = true → isP2pUrl victim = true) := by
  obtain ⟨p, hp, rfl⟩ := Option.map_eq_some_iff.1 h
  have hmem := mem_of_minBy hp
  simp only [List.mem_filter, List.mem_map, Prod.exists, exists_eq_right, ExtTreeMap.mem_toList_iff_getElem?_eq_some,
    decide_eq_true_eq, Bool.or_eq_true, Bool.not_eq_true'] at hmem
  obtain ⟨⟨⟨url, hget⟩, hprotected⟩, honly⟩ := hmem
  refine ⟨?_, hprotected, ?_⟩
  · rw [mem_keySet_iff, hkeyed url p hget]
    exact ⟨p, hget⟩
  · intro htrue
    rcases honly with hfalse | hp2p
    · rw [hfalse] at htrue
      cases htrue
    · exact hp2p

/-- with nothing protected, an entry is found -/
theorem oldest_ne_none {peers : PeerMap} (hkeyed : Keyed peers) {onlyP2p : Bool} {url : String} (hmem : url ∈ keySet peers)
    (honly : onlyP2p = true → isP2pUrl url = true) : oldest peers [] onlyP2p ≠ none := by
  intro hnone
  obtain ⟨p, hp⟩ := mem_keySet_iff.1 hmem
  have hempty := minBy_eq_none (Option.map_eq_none_iff.1 hnone)
  have hin : p ∈ (((peers.toList.map Prod.snd).filter fun p => decide (p.baseUrl ∉ [])).filter fun p =>
      !onlyP2p || isP2pUrl p.baseUrl) := by
    simp only [List.mem_filter, List.mem_map, Prod.exists, exists_eq_right, ExtTreeMap.mem_toList_iff_getElem?_eq_some,
      decide_eq_true_eq, Bool.or_eq_true, Bool.not_eq_true']
    refine ⟨⟨⟨url, hp⟩, List.not_mem_nil⟩, ?_⟩
    rw [hkeyed url p hp]
    cases honlyP2p : onlyP2p with
    | false => exact .inl rfl
    | true => exact .inr (honly honlyP2p)
  rw [hempty] at hin
  cases hin

/-! ## Making room -/

/-- a part of the old map -/
def SubMap (old new : PeerMap) : Prop := ∀ (url : String) (p : PeerInfo), new[url]? = some p → old[url]? = some p

theorem SubMap.refl (peers : PeerMap) : SubMap peers peers := fun _ _ h => h

theorem SubMap.subset {old new : PeerMap} (h : SubMap old new) : keySet new ⊆ keySet old := by
  intro url hmem
  obtain ⟨p, hp⟩ := mem_keySet_iff.1 hmem
  exact mem_keySet_iff.2 ⟨p, h url p hp⟩

theorem SubMap.keyed {old new : PeerMap} (h : SubMap old new) (hkeyed : Keyed old) : Keyed new :=
  fun url p hp => hkeyed url p (h url p hp)

theorem SubMap.counts_le {old new : PeerMap} (h : SubMap old new) : new.size ≤ old.size ∧ p2pCount new ≤ p2pCount old := by
  rw [size_eq_card, size_eq_card, p2pCount_eq, p2pCount_eq]
  exact ⟨Finset.card_le_card h.subset, Finset.card_le_card (Finset.filter_subset_filter _ h.subset)⟩

theorem subMap_filter (peers : PeerMap) (f : String → PeerInfo → Bool) : SubMap peers (peers.filter f) := by
  intro url p hp
  rw [ExtTreeMap.getElem?_filter', Option.filter_eq_some_iff] at hp
  exact hp.1

theorem subMap_erase (peers : PeerMap) (url : String) : SubMap peers (peers.erase url) := by
  intro url' p hp
  rw [ExtTreeMap.getElem?_erase] at hp
  split_ifs at hp
  exact hp

/-- a part of the old map, with its protected entries and, for a `p2p://` newcomer, the others than `p2p://` -/
structure Room (old new : PeerMap) (protectedUrls : List String) (onlyP2p : Bool) : Prop where
  same : SubMap old new
  kept : ∀ url ∈ keySet old, (url ∈ protectedUrls ∨ (onlyP2p = true ∧ isP2pUrl url = false)) → url ∈ keySet new

theorem Room.refl (peers : PeerMap) (protectedUrls : List String) (onlyP2p : Bool) : Room peers peers protectedUrls onlyP2p :=
  ⟨fun _ _ h => h, fun _ h _ => h⟩

theorem room_erase (peers : PeerMap) {protectedUrls : List String} {onlyP2p : Bool} {victim : String}
    (hprotected : victim ∉ protectedUrls) (honly : onlyP2p = true → isP2pUrl victim = true) :
    Room peers (peers.erase victim) protectedUrls onlyP2p := by
  refine ⟨subMap_erase peers victim, fun url hmem hkept => ?_⟩
  rw [keySet_erase, Finset.mem_erase]
  refine ⟨?_, hmem⟩
  rintro rfl
  rcases hkept with hin | ⟨htrue, hfalse⟩
  · exact hprotected hin
  · rw [honly htrue] at hfalse
    cases hfalse

theorem size_erase_lt {peers : PeerMap} {victim : String} (h : victim ∈ keySet peers) : (peers.erase victim).size < peers.size := by
  rw [size_eq_card, size_eq_card, keySet_erase]
  exact Finset.card_erase_lt_of_mem h

theorem p2pCount_erase_lt {peers : PeerMap} {victim : String} (h : victim ∈ keySet peers) (hp2p : isP2pUrl victim = true) :
    p2pCount (peers.erase victim) < p2pCount peers := by
  rw [p2pCount_eq, p2pCount_eq, keySet_erase, Finset.filter_erase]
  exact Finset.card_erase_lt_of_mem (Finset.mem_filter.2 ⟨h, hp2p⟩)

/-- an entry written over an existing one -/
theorem counts_insert_of_mem {peers : PeerMap} {url : String} (h : url ∈ keySet peers) (p : PeerInfo) :
    (peers.insert url p).size = peers.size ∧ p2pCount (peers.insert url p) = p2pCount peers := by
  rw [size_eq_card, size_eq_card, p2pCount_eq, p2pCount_eq, keySet_insert, Finset.insert_eq_of_mem h]
  exact ⟨rfl, rfl⟩

/-- a new entry -/
theorem counts_insert_of_not_mem {peers : PeerMap} {url : String} (h : url ∉ keySet peers) (p : PeerInfo) :
    (peers.insert url p).size = peers.size + 1 ∧
      p2pCount (peers.insert url p) = p2pCount peers + if isP2pUrl url then 1 else 0 := by
  rw [size_eq_card, size_eq_card, p2pCount_eq, p2pCount_eq, keySet_insert, Finset.card_insert_of_notMem h, Finset.filter_insert]
  refine ⟨rfl, ?_⟩
  by_cases hp2p : isP2pUrl url = true
  · rw [if_pos hp2p, if_pos hp2p, Finset.card_insert_of_notMem]
    intro hmem
    exact h (Finset.mem_filter.1 hmem).1
  · rw [if_neg hp2p, if_neg hp2p]
    rfl

theorem contains_eq_true_iff {peers : PeerMap} {url : String} : peers.contains url = true ↔ url ∈ keySet peers := by
  rw [ExtTreeMap.contains_iff_mem, mem_keySet]

/-! ## The bounds -/

structure PeerTable.Ok (max : ℕ) (t : PeerTable) : Prop where
  size : t.peers.size ≤ max
  p2p : p2pCount t.peers ≤ min maxP2pEntries max
  poolSize : t.unverified.size ≤ maxUnverifiedPeers
  poolP2p : p2pCount t.unverified ≤ maxP2pUnverified
  keyed : Keyed t.peers
  poolKeyed : Keyed t.unverified

/-- where an insertion goes, and what it leaves of the others -/
structure Makes (max maxP2p : ℕ) (old : PeerMap) (protectedUrls : List String) (url : String) (new : PeerMap) : Prop where
  room : Room old new protectedUrls (isP2pUrl url)
  replaces : url ∈ keySet old → new = old
  size : url ∉ keySet old → new.size < max
  p2p : url ∉ keySet old → isP2pUrl url = true → p2pCount new < maxP2p

/-- the bounds after an insertion that made room -/
theorem Makes.bounds {max maxP2p : ℕ} {old new : PeerMap} {protectedUrls : List String} {url : String}
    (h : Makes max maxP2p old protectedUrls url new) (hsize : old.size ≤ max) (hp2p : p2pCount old ≤ maxP2p) (p : PeerInfo) :
    (new.insert url p).size ≤ max ∧ p2pCount (new.insert url p) ≤ maxP2p := by
  by_cases hold : url ∈ keySet old
  · obtain rfl := h.replaces hold
    obtain ⟨hsize', hp2p'⟩ := counts_insert_of_mem hold p
    exact ⟨hsize'.trans_le hsize, hp2p'.trans_le hp2p⟩
  · obtain ⟨hsize', hp2p'⟩ := counts_insert_of_not_mem (fun hin => hold (h.room.same.subset hin)) p
    rw [hsize', hp2p']
    refine ⟨h.size hold, ?_⟩
    split_ifs with hurl
    · exact h.p2p hold hurl
    · exact h.room.same.counts_le.2.trans hp2p

theorem evictIf_true (peers : PeerMap) (victim evicted : Option String) :
    PeerTable.evictIf true peers victim evicted = PeerTable.evict peers victim := rfl

theorem evictIf_false (peers : PeerMap) (victim evicted : Option String) :
    PeerTable.evictIf false peers victim evicted = .ok (peers, evicted) := rfl

section InsertBounded

variable {max : ℕ} {t : PeerTable} {protectedUrls : List String} {info : PeerInfo}

theorem insertBounded_eq :
    t.insertBounded protectedUrls info max =
      match PeerTable.evictIf (!t.peers.contains info.baseUrl && isP2pUrl info.baseUrl &&
          decide (p2pCount t.peers ≥ min maxP2pEntries max)) t.peers (oldest t.peers protectedUrls true) none with
      | .error e => (t, .error e)
      | .ok (peers, evicted) =>
        match PeerTable.evictIf (!t.peers.contains info.baseUrl && decide (peers.size ≥ max)) peers
            (oldest peers protectedUrls (isP2pUrl info.baseUrl)) evicted with
        | .error e => ({ t with peers := peers }, .error e)
        | .ok (peers, evicted) =>
          ({ t with peers := peers.insert info.baseUrl (stored t.peers[info.baseUrl]? info) }, .ok evicted) := by
  unfold PeerTable.insertBounded
  dsimp only
  rw [← stored, stored_baseUrl]

/-- **A refused insertion** leaves the table as it was; another one makes room first -/
theorem insertBounded_cases (ht : t.Ok max) (protectedUrls : List String) (info : PeerInfo) :
    (∃ e, t.insertBounded protectedUrls info max = (t, .error e)) ∨
      ∃ peers evicted, t.insertBounded protectedUrls info max =
          ({ t with peers := peers.insert info.baseUrl (stored t.peers[info.baseUrl]? info) }, .ok evicted) ∧
        Makes max (min maxP2pEntries max) t.peers protectedUrls info.baseUrl peers := by
  rw [insertBounded_eq]
  by_cases hold : info.baseUrl ∈ keySet t.peers
  · -- an entry of that URL is replaced
    rw [contains_eq_true_iff.2 hold]
    simp only [Bool.not_true, Bool.false_and, evictIf_false]
    exact .inr ⟨t.peers, none, rfl, .refl _ _ _, fun _ => rfl, fun hnew => absurd hold hnew, fun hnew => absurd hold hnew⟩
  · have hcontains : t.peers.contains info.baseUrl = false := by
      rw [← Bool.not_eq_true, contains_eq_true_iff]
      exact hold
    rw [hcontains]
    simp only [Bool.not_false, Bool.true_and]
    by_cases hfull : (isP2pUrl info.baseUrl && decide (p2pCount t.peers ≥ min maxP2pEntries max)) = true
    · rw [hfull, evictIf_true]
      obtain ⟨hp2p, -⟩ := Bool.and_eq_true_iff.1 hfull
      cases hvictim : oldest t.peers protectedUrls true with
      | none => exact .inl ⟨_, rfl⟩
      | some victim =>
        obtain ⟨hmem, hprotected, honly⟩ := oldest_eq_some ht.keyed hvictim
        have hsize := lt_of_lt_of_le (size_erase_lt hmem) ht.size
        -- one entry less is below the cap
        have hroom : decide ((t.peers.erase victim).size ≥ max) = false := decide_eq_false (not_le.2 hsize)
        simp only [PeerTable.evict, hroom, evictIf_false]
        refine .inr ⟨_, _, rfl, room_erase _ hprotected fun _ => honly rfl, fun hin => absurd hin hold, fun _ => hsize, fun _ _ => ?_⟩
        exact lt_of_lt_of_le (p2pCount_erase_lt hmem (honly rfl)) ht.p2p
    · rw [Bool.not_eq_true] at hfull
      rw [hfull, evictIf_false]
      have hbelow : isP2pUrl info.baseUrl = true → p2pCount t.peers < min maxP2pEntries max := by
        intro hp2p
        rw [hp2p, Bool.true_and] at hfull
        exact not_le.1 (of_decide_eq_false hfull)
      dsimp only
      by_cases hsize : decide (t.peers.size ≥ max) = true
      · rw [hsize, evictIf_true]
        cases hvictim : oldest t.peers protectedUrls (isP2pUrl info.baseUrl) with
        | none => exact .inl ⟨_, rfl⟩
        | some victim =>
          obtain ⟨hmem, hprotected, honly⟩ := oldest_eq_some ht.keyed hvictim
          have hroom := room_erase t.peers hprotected honly
          refine .inr ⟨_, _, rfl, hroom, fun hin => absurd hin hold, fun _ => ?_, fun _ hp2p => ?_⟩
          · exact lt_of_lt_of_le (size_erase_lt hmem) ht.size
          · exact lt_of_le_of_lt hroom.same.counts_le.2 (hbelow hp2p)
      · rw [Bool.not_eq_true] at hsize
        rw [hsize, evictIf_false]
        refine .inr ⟨_, _, rfl, .refl _ _ _, fun _ => rfl, fun _ => ?_, fun _ hp2p => hbelow hp2p⟩
        exact not_le.1 (of_decide_eq_false hsize)

theorem insertBounded_ok (ht : t.Ok max) : (t.insertBounded protectedUrls info max).1.Ok max := by
  rcases insertBounded_cases ht protectedUrls info with ⟨e, he⟩ | ⟨peers, evicted, hok, hmakes⟩
  · rw [he]
    exact ht
  · obtain ⟨hsize, hp2p⟩ := hmakes.bounds ht.size ht.p2p (stored t.peers[info.baseUrl]? info)
    have hkeyed := keyed_insert (hmakes.room.same.keyed ht.keyed) (stored t.peers[info.baseUrl]? info)
    rw [stored_baseUrl] at hkeyed
    rw [hok]
    exact ⟨hsize, hp2p, ht.poolSize, ht.poolP2p, hkeyed, ht.poolKeyed⟩

end InsertBounded

/-! ## The pool -/

section InsertUnverified

variable {t : PeerTable} {info : PeerInfo}

/-- a pool with many `p2p://` entries has one to evict -/
theorem makeP2pRoom_makes {pool : PeerMap} (hkeyed : Keyed pool) (hsize : pool.size ≤ maxUnverifiedPeers)
    (hp2p : p2pCount pool ≤ maxP2pUnverified) (url : String) :
    Room pool (PeerTable.makeP2pRoom pool (isP2pUrl url)) [] (isP2pUrl url) ∧
      (isP2pUrl url = true → p2pCount (PeerTable.makeP2pRoom pool (isP2pUrl url)) < maxP2pUnverified) ∧
      (PeerTable.makeP2pRoom pool (isP2pUrl url) = pool ∨
        (PeerTable.makeP2pRoom pool (isP2pUrl url)).size < maxUnverifiedPeers) := by
  unfold PeerTable.makeP2pRoom
  split_ifs with hfull
  · obtain ⟨hurl, hcount⟩ := Bool.and_eq_true_iff.1 hfull
    cases hvictim : oldest pool [] true with
    | none =>
      exfalso
      have hpos : 0 < p2pCount pool := lt_of_lt_of_le (by decide) (of_decide_eq_true hcount)
      rw [p2pCount_eq, Finset.card_pos] at hpos
      obtain ⟨other, hother⟩ := hpos
      obtain ⟨hmem, hother⟩ := Finset.mem_filter.1 hother
      exact oldest_ne_none hkeyed hmem (fun _ => hother) hvictim
    | some victim =>
      obtain ⟨hmem, hprotected, honly⟩ := oldest_eq_some hkeyed hvictim
      refine ⟨room_erase _ hprotected fun _ => honly rfl, fun _ => ?_, .inr ?_⟩
      · exact lt_of_lt_of_le (p2pCount_erase_lt hmem (honly rfl)) hp2p
      · exact lt_of_lt_of_le (size_erase_lt hmem) hsize
  · refine ⟨.refl _ _ _, fun hurl => ?_, .inl rfl⟩
    rw [Bool.not_eq_true, hurl, Bool.true_and] at hfull
    exact not_le.1 (of_decide_eq_false hfull)

/-- **An insertion into the pool** makes room first, or is dropped -/
theorem insertUnverified_cases (hkeyed : Keyed t.unverified) (hsize : t.unverified.size ≤ maxUnverifiedPeers)
    (hp2p : p2pCount t.unverified ≤ maxP2pUnverified) (info : PeerInfo) :
    t.insertUnverified info = t ∨
      ∃ pool, t.insertUnverified info =
          { t with unverified := pool.insert info.baseUrl (carryWitness t.unverified[info.baseUrl]? info) } ∧
        Makes maxUnverifiedPeers maxP2pUnverified t.unverified [] info.baseUrl pool := by
  unfold PeerTable.insertUnverified
  simp only [carryWitness_baseUrl]
  by_cases hold : info.baseUrl ∈ keySet t.unverified
  · -- an entry of that URL is replaced
    have hcontains := contains_eq_true_iff.2 hold
    have hsame : PeerTable.makeP2pRoom t.unverified false = t.unverified := rfl
    simp only [hcontains, Bool.not_true, Bool.and_false, hsame, Bool.false_and, Bool.false_eq_true, if_false]
    exact .inr ⟨_, rfl, .refl _ _ _, fun _ => rfl, fun hnew => absurd hold hnew, fun hnew => absurd hold hnew⟩
  · have hcontains : t.unverified.contains info.baseUrl = false := by
      rw [← Bool.not_eq_true, contains_eq_true_iff]
      exact hold
    simp only [hcontains, Bool.not_false, Bool.and_true]
    obtain ⟨hroom, hbelow, hsmaller⟩ := makeP2pRoom_makes hkeyed hsize hp2p info.baseUrl
    have hgone : (PeerTable.makeP2pRoom t.unverified (isP2pUrl info.baseUrl)).contains info.baseUrl = false := by
      rw [← Bool.not_eq_true, contains_eq_true_iff]
      exact fun hin => hold (hroom.same.subset hin)
    simp only [hgone, Bool.not_false, Bool.true_and, decide_eq_true_eq]
    split_ifs with hfull
    · -- the first step evicted nothing
      have hsame := hsmaller.resolve_right (not_lt.2 hfull)
      rw [hsame] at hbelow hfull ⊢
      cases hvictim : oldest t.unverified [] (isP2pUrl info.baseUrl) with
      | none => exact .inl rfl
      | some victim =>
        obtain ⟨hmem, hprotected, honly⟩ := oldest_eq_some hkeyed hvictim
        have hroom' := room_erase t.unverified hprotected honly
        refine .inr ⟨_, rfl, hroom', fun hin => absurd hin hold, fun _ => ?_, fun _ hurl => ?_⟩
        · exact lt_of_lt_of_le (size_erase_lt hmem) hsize
        · exact lt_of_le_of_lt hroom'.same.counts_le.2 (hbelow hurl)
    · exact .inr ⟨_, rfl, hroom, fun hin => absurd hin hold, fun _ => not_le.1 hfull, fun _ hurl => hbelow hurl⟩

theorem insertUnverified_ok {max : ℕ} (ht : t.Ok max) : (t.insertUnverified info).Ok max := by
  rcases insertUnverified_cases ht.poolKeyed ht.poolSize ht.poolP2p info with hsame | ⟨pool, hok, hmakes⟩
  · rw [hsame]
    exact ht
  · obtain ⟨hsize, hp2p⟩ := hmakes.bounds ht.poolSize ht.poolP2p (carryWitness t.unverified[info.baseUrl]? info)
    have hkeyed := keyed_insert (hmakes.room.same.keyed ht.poolKeyed) (carryWitness t.unverified[info.baseUrl]? info)
    rw [carryWitness_baseUrl] at hkeyed
    rw [hok]
    exact ⟨ht.size, ht.p2p, hsize, hp2p, ht.keyed, hkeyed⟩

end InsertUnverified

/-! ## Writes -/

/-- one write of a table under its lock -/
inductive Write where
  | upsert (info : PeerInfo)
  | upsertRelayed (info : PeerInfo)
  | attachWitness (baseUrl : String) (advert : WitnessAdvert)
  | insertBounded (protectedUrls : List String) (info : PeerInfo)
  | insertUnverified (info : PeerInfo)
  | takeUnverified (baseUrl : String)
  | pruneOlderThan (cutoff : OffsetDateTime)
  | pruneUnverifiedOlderThan (cutoff : OffsetDateTime)

def write (max : ℕ) (t : PeerTable) : Write → PeerTable
  | .upsert info => t.upsert info
  | .upsertRelayed info => t.upsertRelayed info
  | .attachWitness baseUrl advert => t.attachWitness baseUrl advert
  | .insertBounded protectedUrls info => (t.insertBounded protectedUrls info max).1
  | .insertUnverified info => t.insertUnverified info
  | .takeUnverified baseUrl => (t.takeUnverified baseUrl).1
  | .pruneOlderThan cutoff => t.pruneOlderThan cutoff
  | .pruneUnverifiedOlderThan cutoff => t.pruneUnverifiedOlderThan cutoff

/-- the two unbounded writes are made of URLs that are there already; what gossip puts into the pool satisfies the predicate -/
def Write.Allowed (gossip : PeerInfo → Prop) (t : PeerTable) : Write → Prop
  | .upsert info => info.baseUrl ∈ keySet t.peers
  | .upsertRelayed info => info.baseUrl ∈ keySet t.peers
  | .insertUnverified info => gossip info
  | _ => True

/-- a newcomer under a `p2p://` URL -/
def Write.P2pNewcomer : Write → Prop
  | .insertBounded _ info => isP2pUrl info.baseUrl = true
  | .insertUnverified info => isP2pUrl info.baseUrl = true
  | _ => False

/-- the write is itself bound -/
def Write.BindsIdentity (url : String) : Write → Prop
  | .upsert info => info.baseUrl = url ∧ info.identityBound = true
  | .insertBounded _ info => info.baseUrl = url ∧ info.identityBound = true
  | _ => False

/-- the protected URLs of an insertion -/
def Write.protectedUrls : Write → List String
  | .insertBounded protectedUrls _ => protectedUrls
  | _ => []

/-- bound entries that stay keep their id -/
def IdentitiesKept (mayChange : String → Prop) (old new : PeerMap) : Prop :=
  ∀ (url : String) (p p' : PeerInfo), old[url]? = some p → new[url]? = some p' → KeepsIdentity (mayChange url) p p'

/-- entries that stay keep a direct advert -/
def AdvertsKept (old new : PeerMap) : Prop :=
  ∀ (url : String) (p p' : PeerInfo), old[url]? = some p → new[url]? = some p' → KeepsDirect p p'

/-- what a write may not do -/
structure Respects (max : ℕ) (t : PeerTable) (w : Write) : Prop where
  /-- evict a protected entry -/
  guarded : ∀ url ∈ w.protectedUrls, url ∈ keySet t.peers → url ∈ keySet (write max t w).peers
  /-- displace another entry by a `p2p://` newcomer -/
  others : w.P2pNewcomer → ∀ url, isP2pUrl url = false →
    (url ∈ keySet t.peers → url ∈ keySet (write max t w).peers) ∧
      (url ∈ keySet t.unverified → url ∈ keySet (write max t w).unverified)
  /-- change the table and fail -/
  refused : ∀ urls info e, w = .insertBounded urls info → (t.insertBounded urls info max).2 = .error e → write max t w = t
  /-- change the id of a bound entry, unless bound itself -/
  identities : IdentitiesKept w.BindsIdentity t.peers (write max t w).peers
  /-- replace a direct advert by one that is not -/
  adverts : AdvertsKept t.peers (write max t w).peers
  poolAdverts : AdvertsKept t.unverified (write max t w).unverified

theorem SubMap.identities {old new : PeerMap} (h : SubMap old new) (mayChange : String → Prop) :
    IdentitiesKept mayChange old new := by
  intro url p p' hp hp'
  obtain rfl := Option.some.inj (hp.symm.trans (h url p' hp'))
  exact .refl _ _

theorem SubMap.adverts {old new : PeerMap} (h : SubMap old new) : AdvertsKept old new := by
  intro url p p' hp hp'
  obtain rfl := Option.some.inj (hp.symm.trans (h url p' hp'))
  exact .refl _

/-- one entry is written over, and the others are a part of the old map -/
theorem getElem?_insert_cases {old new : PeerMap} (h : SubMap old new) {url : String} {q : PeerInfo} {url' : String}
    {p p' : PeerInfo} (hp : old[url']? = some p) (hp' : (new.insert url q)[url']? = some p') : (url' = url ∧ p' = q) ∨ p' = p := by
  rw [ExtTreeMap.getElem?_insert] at hp'
  split_ifs at hp' with heq
  · exact .inl ⟨(Std.compare_eq_iff_eq.1 heq).symm, (Option.some.inj hp').symm⟩
  · exact .inr (Option.some.inj ((h url' p' hp').symm.trans hp))

theorem SubMap.identities_insert {old new : PeerMap} (h : SubMap old new) {mayChange : String → Prop} {url : String}
    {q : PeerInfo} (hq : ∀ p, old[url]? = some p → KeepsIdentity (mayChange url) p q) :
    IdentitiesKept mayChange old (new.insert url q) := by
  intro url' p p' hp hp'
  rcases getElem?_insert_cases h hp hp' with ⟨rfl, rfl⟩ | rfl
  · exact hq p hp
  · exact .refl _ _

theorem SubMap.adverts_insert {old new : PeerMap} (h : SubMap old new) {url : String} {q : PeerInfo}
    (hq : ∀ p, old[url]? = some p → KeepsDirect p q) : AdvertsKept old (new.insert url q) := by
  intro url' p p' hp hp'
  rcases getElem?_insert_cases h hp hp' with ⟨rfl, rfl⟩ | rfl
  · exact hq p hp
  · exact .refl _

/-- writes that insert nothing new -/
theorem respects_of {max : ℕ} {t : PeerTable} {w : Write} (hguarded : w.protectedUrls = []) (hothers : ¬ w.P2pNewcomer)
    (hinsert : ∀ urls info, w ≠ .insertBounded urls info) (hidentities : IdentitiesKept w.BindsIdentity t.peers (write max t w).peers)
    (hadverts : AdvertsKept t.peers (write max t w).peers) (hpool : AdvertsKept t.unverified (write max t w).unverified) :
    Respects max t w := by
  refine ⟨?_, fun h => absurd h hothers, fun urls info e h => absurd h (hinsert urls info), hidentities, hadverts, hpool⟩
  intro url hurl
  rw [hguarded] at hurl
  cases hurl

theorem keySet_subset_insert {peers : PeerMap} {url url' : String} {p : PeerInfo} (h : url ∈ keySet peers) :
    url ∈ keySet (peers.insert url' p) := by
  rw [keySet_insert]
  exact Finset.mem_insert_of_mem h

section Respects

variable {max : ℕ} {t : PeerTable}

theorem respects_upsert (info : PeerInfo) : Respects max t (.upsert info) := by
  have hwrite : write max t (.upsert info) =
      { t with peers := t.peers.insert info.baseUrl (stored t.peers[info.baseUrl]? info) } := by
    simp only [write, PeerTable.upsert, stored, carryIdentity_baseUrl, carryWitness_baseUrl]
  refine respects_of rfl id (fun _ _ h => by cases h) ?_ ?_ ?_
  · rw [hwrite]
    refine (SubMap.refl t.peers).identities_insert fun p hp => ?_
    rw [hp]
    intro hbound
    obtain ⟨hstays, hid⟩ := stored_keepsIdentity p info hbound
    exact ⟨hstays, fun hne => ⟨rfl, hid hne⟩⟩
  · rw [hwrite]
    refine (SubMap.refl t.peers).adverts_insert fun p hp => ?_
    rw [hp]
    exact stored_keepsDirect p info
  · exact (SubMap.refl _).adverts

theorem respects_upsertRelayed (info : PeerInfo) : Respects max t (.upsertRelayed info) := by
  have hwrite : write max t (.upsertRelayed info) =
      { t with
        peers := t.peers.insert info.baseUrl
          (carryWitness t.peers[info.baseUrl]? (PeerTable.relayedOver t.peers[info.baseUrl]? info)) } := by
    simp only [write, PeerTable.upsertRelayed, carryWitness_baseUrl, relayedOver_baseUrl]
  refine respects_of rfl id (fun _ _ h => by cases h) ?_ ?_ ?_
  · rw [hwrite]
    refine (SubMap.refl t.peers).identities_insert fun p hp => ?_
    rw [hp]
    exact relayed_keepsIdentity p info
  · rw [hwrite]
    refine (SubMap.refl t.peers).adverts_insert fun p hp => ?_
    rw [hp]
    exact carryWitness_keepsDirect p _
  · exact (SubMap.refl _).adverts

theorem respects_attachWitness (baseUrl : String) (advert : WitnessAdvert) : Respects max t (.attachWitness baseUrl advert) := by
  refine respects_of rfl id (fun _ _ h => by cases h) ?_ ?_ ?_
  · simp only [write, PeerTable.attachWitness]
    split
    · rename_i p hp
      refine (SubMap.refl t.peers).identities_insert fun p' hp' => ?_
      obtain rfl := Option.some.inj (hp.symm.trans hp')
      exact attach_keepsIdentity p advert
    · split <;> exact (SubMap.refl _).identities _
  · simp only [write, PeerTable.attachWitness]
    split
    · rename_i p hp
      refine (SubMap.refl t.peers).adverts_insert fun p' hp' => ?_
      obtain rfl := Option.some.inj (hp.symm.trans hp')
      exact attach_keepsDirect p advert
    · split <;> exact (SubMap.refl _).adverts
  · simp only [write, PeerTable.attachWitness]
    split
    · exact (SubMap.refl _).adverts
    · split
      · rename_i p hp
        refine (SubMap.refl t.unverified).adverts_insert fun p' hp' => ?_
        obtain rfl := Option.some.inj (hp.symm.trans hp')
        exact attach_keepsDirect p advert
      · exact (SubMap.refl _).adverts

theorem respects_insertBounded (ht : t.Ok max) (protectedUrls : List String) (info : PeerInfo) :
    Respects max t (.insertBounded protectedUrls info) := by
  rcases insertBounded_cases ht protectedUrls info with ⟨e, he⟩ | ⟨peers, evicted, hok, hmakes⟩
  · have hwrite : write max t (.insertBounded protectedUrls info) = t := congrArg Prod.fst he
    refine ⟨?_, ?_, fun _ _ _ _ _ => hwrite, ?_, ?_, ?_⟩ <;> rw [hwrite]
    · exact fun url _ hmem => hmem
    · exact fun _ url _ => ⟨id, id⟩
    · exact (SubMap.refl _).identities _
    · exact (SubMap.refl _).adverts
    · exact (SubMap.refl _).adverts
  · have hwrite : write max t (.insertBounded protectedUrls info) =
        { t with peers := peers.insert info.baseUrl (stored t.peers[info.baseUrl]? info) } := congrArg Prod.fst hok
    have hsub : SubMap t.peers peers := hmakes.room.same
    refine ⟨?_, ?_, ?_, ?_, ?_, ?_⟩
    · intro url hurl hmem
      rw [hwrite]
      exact keySet_subset_insert (hmakes.room.kept url hmem (.inl hurl))
    · intro hp2p url hurl
      rw [hwrite]
      exact ⟨fun hmem => keySet_subset_insert (hmakes.room.kept url hmem (.inr ⟨hp2p, hurl⟩)), id⟩
    · rintro urls info' e ⟨rfl, rfl⟩ herror
      rw [hok] at herror
      cases herror
    · rw [hwrite]
      refine hsub.identities_insert fun p hp => ?_
      rw [hp]
      intro hbound
      obtain ⟨hstays, hid⟩ := stored_keepsIdentity p info hbound
      exact ⟨hstays, fun hne => ⟨rfl, hid hne⟩⟩
    · rw [hwrite]
      refine hsub.adverts_insert fun p hp => ?_
      rw [hp]
      exact stored_keepsDirect p info
    · rw [hwrite]
      exact (SubMap.refl _).adverts

theorem respects_insertUnverified (ht : t.Ok max) (info : PeerInfo) : Respects max t (.insertUnverified info) := by
  rcases insertUnverified_cases ht.poolKeyed ht.poolSize ht.poolP2p info with hsame | ⟨pool, hok, hmakes⟩
  · have hwrite : write max t (.insertUnverified info) = t := hsame
    refine ⟨?_, ?_, fun _ _ _ h => (by cases h), ?_, ?_, ?_⟩ <;> rw [hwrite]
    · exact fun url _ hmem => hmem
    · exact fun _ url _ => ⟨id, id⟩
    · exact (SubMap.refl _).identities _
    · exact (SubMap.refl _).adverts
    · exact (SubMap.refl _).adverts
  · have hwrite : write max t (.insertUnverified info) =
        { t with unverified := pool.insert info.baseUrl (carryWitness t.unverified[info.baseUrl]? info) } := hok
    refine ⟨?_, ?_, fun _ _ _ h => (by cases h), ?_, ?_, ?_⟩ <;> rw [hwrite]
    · exact fun url _ hmem => hmem
    · intro hp2p url hurl
      exact ⟨id, fun hmem => keySet_subset_insert (hmakes.room.kept url hmem (.inr ⟨hp2p, hurl⟩))⟩
    · exact (SubMap.refl _).identities _
    · exact (SubMap.refl _).adverts
    · refine SubMap.adverts_insert hmakes.room.same fun p hp => ?_
      rw [hp]
      exact carryWitness_keepsDirect p info

/-- **What one write keeps**, of any table within the bounds -/
theorem respects_write (ht : t.Ok max) (w : Write) : Respects max t w := by
  cases w with
  | upsert info => exact respects_upsert info
  | upsertRelayed info => exact respects_upsertRelayed info
  | attachWitness baseUrl advert => exact respects_attachWitness baseUrl advert
  | insertBounded protectedUrls info => exact respects_insertBounded ht protectedUrls info
  | insertUnverified info => exact respects_insertUnverified ht info
  | takeUnverified baseUrl =>
    exact respects_of rfl id (fun _ _ h => by cases h) ((SubMap.refl _).identities _) (SubMap.refl _).adverts
      (subMap_erase _ _).adverts
  | pruneOlderThan cutoff =>
    exact respects_of rfl id (fun _ _ h => by cases h) ((subMap_filter _ _).identities _) (subMap_filter _ _).adverts
      (SubMap.refl _).adverts
  | pruneUnverifiedOlderThan cutoff =>
    exact respects_of rfl id (fun _ _ h => by cases h) ((SubMap.refl _).identities _) (SubMap.refl _).adverts
      (subMap_filter _ _).adverts

end Respects

/-! ## Every reachable table -/

/-- an entry written over one of the same URL -/
theorem counts_replace {peers : PeerMap} (hkeyed : Keyed peers) {url : String} (h : url ∈ keySet peers) {p : PeerInfo}
    (hp : p.baseUrl = url) :
    (peers.insert url p).size = peers.size ∧ p2pCount (peers.insert url p) = p2pCount peers ∧ Keyed (peers.insert url p) := by
  obtain ⟨hsize, hp2p⟩ := counts_insert_of_mem h p
  exact ⟨hsize, hp2p, hp ▸ keyed_insert hkeyed p⟩

section Ok

variable {max : ℕ} {t : PeerTable}

theorem PeerTable.Ok.replace (ht : t.Ok max) {url : String} (h : url ∈ keySet t.peers) {p : PeerInfo} (hp : p.baseUrl = url) :
    ({ t with peers := t.peers.insert url p } : PeerTable).Ok max := by
  obtain ⟨hsize, hp2p, hkeyed⟩ := counts_replace ht.keyed h hp
  exact ⟨hsize.trans_le ht.size, hp2p.trans_le ht.p2p, ht.poolSize, ht.poolP2p, hkeyed, ht.poolKeyed⟩

theorem PeerTable.Ok.shrink (ht : t.Ok max) {peers : PeerMap} (h : SubMap t.peers peers) :
    ({ t with peers := peers } : PeerTable).Ok max := by
  obtain ⟨hsize, hp2p⟩ := h.counts_le
  exact ⟨hsize.trans ht.size, hp2p.trans ht.p2p, ht.poolSize, ht.poolP2p, fun url p hp => ht.keyed url p (h url p hp), ht.poolKeyed⟩

theorem PeerTable.Ok.shrinkPool (ht : t.Ok max) {pool : PeerMap} (h : SubMap t.unverified pool) :
    ({ t with unverified := pool } : PeerTable).Ok max := by
  obtain ⟨hsize, hp2p⟩ := h.counts_le
  exact ⟨ht.size, ht.p2p, hsize.trans ht.poolSize, hp2p.trans ht.poolP2p, ht.keyed, fun url p hp => ht.poolKeyed url p (h url p hp)⟩

theorem attachWitness_ok (ht : t.Ok max) (baseUrl : String) (advert : WitnessAdvert) : (t.attachWitness baseUrl advert).Ok max := by
  unfold PeerTable.attachWitness
  split
  · rename_i p hp
    refine ht.replace (mem_keySet_iff.2 ⟨p, hp⟩) ?_
    rw [attach_baseUrl, ht.keyed baseUrl p hp]
  · split
    · rename_i p hp
      have hurl : (attach p advert).baseUrl = baseUrl := by
        rw [attach_baseUrl, ht.poolKeyed baseUrl p hp]
      obtain ⟨hsize, hp2p, hkeyed⟩ := counts_replace ht.poolKeyed (mem_keySet_iff.2 ⟨p, hp⟩) hurl
      exact ⟨ht.size, ht.p2p, hsize.trans_le ht.poolSize, hp2p.trans_le ht.poolP2p, ht.keyed, hkeyed⟩
    · exact ht

/-- **The bounds** are kept by every write -/
theorem ok_write {gossip : PeerInfo → Prop} (ht : t.Ok max) {w : Write} (hw : w.Allowed gossip t) : (write max t w).Ok max := by
  cases w with
  | upsert info =>
    simp only [write, PeerTable.upsert, carryIdentity_baseUrl, carryWitness_baseUrl]
    exact ht.replace hw (by rw [carryIdentity_baseUrl, carryWitness_baseUrl])
  | upsertRelayed info =>
    simp only [write, PeerTable.upsertRelayed, carryWitness_baseUrl, relayedOver_baseUrl]
    exact ht.replace hw (by rw [carryWitness_baseUrl, relayedOver_baseUrl])
  | attachWitness baseUrl advert => exact attachWitness_ok ht baseUrl advert
  | insertBounded protectedUrls info => exact insertBounded_ok ht
  | insertUnverified info => exact insertUnverified_ok ht
  | takeUnverified baseUrl => exact ht.shrinkPool (subMap_erase _ _)
  | pruneOlderThan cutoff => exact ht.shrink (subMap_filter _ _)
  | pruneUnverifiedOlderThan cutoff => exact ht.shrinkPool (subMap_filter _ _)

end Ok

/-- no pooled entry is bound -/
def PoolUnbound (t : PeerTable) : Prop := ∀ (url : String) (p : PeerInfo), t.unverified[url]? = some p → p.identityBound = false

theorem carryWitness_identityBound (existing : Option PeerInfo) (info : PeerInfo) :
    (carryWitness existing info).identityBound = info.identityBound := by
  obtain ⟨w, hw⟩ := carryWitness_eq existing info
  rw [hw]

theorem poolUnbound_shrink {t t' : PeerTable} (h : PoolUnbound t) (hsub : SubMap t.unverified t'.unverified) : PoolUnbound t' :=
  fun url p hp => h url p (hsub url p hp)

theorem poolUnbound_insert {t : PeerTable} (h : PoolUnbound t) {pool : PeerMap} (hsub : SubMap t.unverified pool) {url : String}
    {q : PeerInfo} (hq : q.identityBound = false) : PoolUnbound { t with unverified := pool.insert url q } := by
  intro url' p hp
  rw [ExtTreeMap.getElem?_insert] at hp
  split_ifs at hp
  · exact Option.some.inj hp ▸ hq
  · exact h url' p (hsub url' p hp)

/-- gossip that is not bound keeps the pool so -/
theorem poolUnbound_write {max : ℕ} {gossip : PeerInfo → Prop} (hgossip : ∀ info, gossip info → info.identityBound = false)
    {t : PeerTable} (ht : t.Ok max) (h : PoolUnbound t) {w : Write} (hw : w.Allowed gossip t) : PoolUnbound (write max t w) := by
  cases w with
  | upsert info => exact h
  | upsertRelayed info => exact h
  | attachWitness baseUrl advert =>
    simp only [write, PeerTable.attachWitness]
    split
    · exact h
    · split
      · rename_i p hp
        refine poolUnbound_insert h (SubMap.refl _) ?_
        obtain ⟨w, hattach⟩ := attach_eq p advert
        rw [hattach]
        exact h baseUrl p hp
      · exact h
  | insertBounded protectedUrls info =>
    rcases insertBounded_cases ht protectedUrls info with ⟨e, he⟩ | ⟨peers, evicted, hok, -⟩
    · rw [write, he]
      exact h
    · rw [write, hok]
      exact h
  | insertUnverified info =>
    rcases insertUnverified_cases ht.poolKeyed ht.poolSize ht.poolP2p info with hsame | ⟨pool, hok, hmakes⟩
    · rw [write, hsame]
      exact h
    · rw [write, hok]
      refine poolUnbound_insert h hmakes.room.same ?_
      rw [carryWitness_identityBound]
      exact hgossip info hw
  | takeUnverified baseUrl => exact poolUnbound_shrink h (subMap_erase _ _)
  | pruneOlderThan cutoff => exact h
  | pruneUnverifiedOlderThan cutoff => exact poolUnbound_shrink h (subMap_filter _ _)

section Runs

variable (parsePeerId : String → Option String) (gossip : PeerInfo → Prop) (max : ℕ)

/-- pooled entries are taken, and inserted with these URLs protected -/
inductive Moves (protectedUrls : List String) (t : PeerTable) : PeerTable → Prop
  | refl : Moves protectedUrls t t
  | take {t' : PeerTable} (h : Moves protectedUrls t t') (baseUrl : String) : Moves protectedUrls t (t'.takeUnverified baseUrl).1
  | insert {t' : PeerTable} (h : Moves protectedUrls t t') (info : PeerInfo) :
    Moves protectedUrls t (t'.insertBounded protectedUrls info max).1

/-- the tables that the operations lead to from the empty one -/
inductive Reachable : PeerTable → Prop
  | new : Reachable .new
  | write {t : PeerTable} (h : Reachable t) (w : Write) (hw : w.Allowed gossip t) : Reachable (write max t w)
  | promote {t : PeerTable} (h : Reachable t) (libp2pPeerId : String) (protectedUrls : List String)
      (order : List String → List String) :
    Reachable (t.promoteUnverifiedByLibp2pPeer parsePeerId libp2pPeerId protectedUrls max order).1

variable {gossip max}

variable {protectedUrls : List String}

theorem Moves.trans {t t' t'' : PeerTable} (h : Moves max protectedUrls t t') (h' : Moves max protectedUrls t' t'') :
    Moves max protectedUrls t t'' := by
  induction h' with
  | refl => exact h
  | take _ baseUrl ih => exact .take ih baseUrl
  | insert _ info ih => exact .insert ih info

theorem Moves.ok {t t' : PeerTable} (h : Moves max protectedUrls t t') (ht : t.Ok max) : t'.Ok max := by
  induction h with
  | refl => exact ht
  | @take t' _ baseUrl ih =>
    have hallowed : Write.Allowed (fun _ => True) t' (.takeUnverified baseUrl) := trivial
    exact ok_write ih hallowed
  | @insert t' _ info ih =>
    have hallowed : Write.Allowed (fun _ => True) t' (.insertBounded protectedUrls info) := trivial
    exact ok_write ih hallowed

/-- no protected entry is evicted on the way -/
theorem Moves.guarded {t t' : PeerTable} (h : Moves max protectedUrls t t') (ht : t.Ok max) :
    ∀ url ∈ protectedUrls, url ∈ keySet t.peers → url ∈ keySet t'.peers := by
  induction h with
  | refl => exact fun _ _ hurl => hurl
  | take _ baseUrl ih => exact ih
  | insert hmoves info ih =>
    intro url hprotected hurl
    exact (respects_write (hmoves.ok ht) (.insertBounded protectedUrls info)).guarded url hprotected (ih url hprotected hurl)

theorem Moves.poolUnbound (hgossip : ∀ info, gossip info → info.identityBound = false) {t t' : PeerTable}
    (h : Moves max protectedUrls t t') (ht : t.Ok max) (hpool : PoolUnbound t) : PoolUnbound t' := by
  induction h with
  | refl => exact hpool
  | @take t' hmoves baseUrl ih =>
    have hallowed : Write.Allowed gossip t' (.takeUnverified baseUrl) := trivial
    exact poolUnbound_write hgossip (hmoves.ok ht) ih hallowed
  | @insert t' hmoves info ih =>
    have hallowed : Write.Allowed gossip t' (.insertBounded protectedUrls info) := trivial
    exact poolUnbound_write hgossip (hmoves.ok ht) ih hallowed

variable {parsePeerId}

/-- **One pooled entry** is taken, then inserted -/
theorem promoteOne_moves (t : PeerTable) (libp2pPeerId : String) (protectedUrls : List String) (url : String) :
    Moves max protectedUrls t (t.promoteOne parsePeerId libp2pPeerId protectedUrls max url).1 := by
  have htake : Moves max protectedUrls t (t.takeUnverified url).1 := .take .refl url
  unfold PeerTable.promoteOne
  cases htaken : t.takeUnverified url with
  | mk t' info =>
    rw [htaken] at htake
    cases info with
    | none => exact htake
    | some info =>
      dsimp only
      split_ifs
      · exact htake
      · exact .insert htake (bindIfP2pUrlNamesPeer parsePeerId info libp2pPeerId)

theorem promoteAll_moves (libp2pPeerId : String) (protectedUrls : List String) (urls : List String) (t : PeerTable) :
    Moves max protectedUrls t (t.promoteAll parsePeerId libp2pPeerId protectedUrls max urls).1 := by
  induction urls generalizing t with
  | nil => exact .refl
  | cons url urls ih => exact (promoteOne_moves t libp2pPeerId protectedUrls url).trans (ih _)

theorem getElem?_new (url : String) : (∅ : PeerMap)[url]? = none := ExtTreeMap.getElem?_empty

theorem new_ok : PeerTable.new.Ok max := by
  have hkeyed : Keyed (∅ : PeerMap) := by
    intro url p hp
    rw [getElem?_new] at hp
    cases hp
  exact ⟨Nat.zero_le _, Nat.zero_le _, Nat.zero_le _, Nat.zero_le _, hkeyed, hkeyed⟩

theorem Reachable.ok {t : PeerTable} (h : Reachable parsePeerId gossip max t) : t.Ok max := by
  induction h with
  | new => exact new_ok
  | write _ w hw ih => exact ok_write ih hw
  | @promote t _ libp2pPeerId protectedUrls order ih =>
    have hmoves : Moves max protectedUrls t (t.promoteUnverifiedByLibp2pPeer parsePeerId libp2pPeerId protectedUrls max order).1 :=
      promoteAll_moves libp2pPeerId protectedUrls _ t
    exact hmoves.ok ih

theorem Reachable.poolUnbound (hgossip : ∀ info, gossip info → info.identityBound = false) {t : PeerTable}
    (h : Reachable parsePeerId gossip max t) : PoolUnbound t := by
  induction h with
  | new =>
    intro url p hp
    rw [PeerTable.new, getElem?_new] at hp
    cases hp
  | write hreach w hw ih => exact poolUnbound_write hgossip hreach.ok ih hw
  | promote hreach libp2pPeerId protectedUrls order ih =>
    exact (promoteAll_moves libp2pPeerId protectedUrls _ _).poolUnbound hgossip hreach.ok ih

end Runs

/-- **Peer table invariants.** In every table the operations lead to, the bounds hold and no write evicts a protected entry, lets
a `p2p://` newcomer displace another entry, changes the table and fails, changes the id of a bound entry unless bound itself, or
replaces a direct advert by one that is not. A promotion takes pooled entries and inserts them with its URLs protected, by such
writes, of tables within the bounds, and evicts no entry of these URLs. No pooled entry is bound when gossip, which is all that
fills the pool, is not -/
theorem peer_table_invariants (parsePeerId : String → Option String) (gossip : PeerInfo → Prop) (max : ℕ) (t : PeerTable)
    (h : Reachable parsePeerId gossip max t) :
    (t.peers.size ≤ max ∧ p2pCount t.peers ≤ min 64 max ∧ t.unverified.size ≤ 256 ∧ p2pCount t.unverified ≤ 32) ∧
      (∀ w, Respects max t w) ∧
      (∀ libp2pPeerId protectedUrls order,
        Moves max protectedUrls t (t.promoteUnverifiedByLibp2pPeer parsePeerId libp2pPeerId protectedUrls max order).1) ∧
      (∀ protectedUrls t', Moves max protectedUrls t t' → (∀ w, Respects max t' w) ∧
        (∀ url ∈ protectedUrls, url ∈ keySet t.peers → url ∈ keySet t'.peers) ∧
        t'.peers.size ≤ max ∧ p2pCount t'.peers ≤ min 64 max ∧ t'.unverified.size ≤ 256 ∧ p2pCount t'.unverified ≤ 32) ∧
      ((∀ info, gossip info → info.identityBound = false) → PoolUnbound t) := by
  have hok := h.ok
  refine ⟨⟨hok.size, hok.p2p, hok.poolSize, hok.poolP2p⟩, respects_write hok, ?_, ?_, fun hgossip => h.poolUnbound hgossip⟩
  · intro libp2pPeerId protectedUrls order
    exact promoteAll_moves libp2pPeerId protectedUrls _ t
  · intro protectedUrls t' hmoves
    have hok' := hmoves.ok hok
    exact ⟨respects_write hok', hmoves.guarded hok, hok'.size, hok'.p2p, hok'.poolSize, hok'.poolP2p⟩

/-- a peer known by its URL only -/
def namedPeer (url : String) : PeerInfo := ⟨url, ["storage"], "1.0.0", "avalon", 0, none, [], none, none, false⟩

/-- a table of one entry is full: a `p2p://` newcomer is refused -/
theorem peer_table_invariants_full :
    ((PeerTable.new.insertBounded [] (namedPeer "http://a") 1).1.insertBounded [] (namedPeer "p2p://b") 1).1.peers.size ≤ 1 ∧
      ((PeerTable.new.insertBounded [] (namedPeer "http://a") 1).1.insertBounded [] (namedPeer "p2p://b") 1).1 =
        (PeerTable.new.insertBounded [] (namedPeer "http://a") 1).1 := by
  have hfirst : Reachable (fun _ => none) (fun _ => True) 1 (PeerTable.new.insertBounded [] (namedPeer "http://a") 1).1 :=
    .write .new (.insertBounded [] (namedPeer "http://a")) trivial
  have hrefused : ((PeerTable.new.insertBounded [] (namedPeer "http://a") 1).1.insertBounded [] (namedPeer "p2p://b") 1).2.toOption =
      none := by decide +kernel
  refine ⟨?_, ?_⟩
  · exact (peer_table_invariants _ _ 1 _ (.write hfirst (.insertBounded [] (namedPeer "p2p://b")) trivial)).1.1
  · cases hresult : ((PeerTable.new.insertBounded [] (namedPeer "http://a") 1).1.insertBounded [] (namedPeer "p2p://b") 1).2 with
    | ok evicted =>
      rw [hresult] at hrefused
      cases hrefused
    | error e =>
      have hrespects := (peer_table_invariants _ _ 1 _ hfirst).2.1 (.insertBounded [] (namedPeer "p2p://b"))
      exact hrespects.refused [] (namedPeer "p2p://b") e rfl hresult

end Avalon.Peers
