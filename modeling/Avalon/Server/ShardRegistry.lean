/-
The shard registry (`crates/server/src/nodes.rs`, `ShardRegistry`): which shards a node knows of, under which URLs, and
since when. `merge` takes a gossip snapshot in (`record_own` one announcement) and cuts the `p2p://` URLs to a total of 32;
`prune_older_than` drops what was not refreshed.

A hash map is an extensional map: equal when they bind the same. Both locks are held for a whole `merge`, the first one
for a whole `prune_older_than`, so each call is one step.

Results:
- `merge_order_independent`: announcements in any grouping, order and number give the same registry, with the newest time
  for each URL, of the `p2p://` ones the 32 greatest, and the earliest time for each shard.
- `withinGracePeriod_rediscovered`: while the ages follow the registry, a shard that comes back starts its grace period afresh.
- `ages_follow_iff`: the ages follow the registry in every state of a run exactly if no merge cuts the last URL of a shard;
  `age_survives_cut` is a run where one does.
-/
import Mathlib.Tactic
import Mathlib.Data.List.MinMax
import Mathlib.Data.List.Sort
import Mathlib.Data.String.Basic
import Avalon.Core.TopEntries
import Avalon.Protocol.LedgerEntry
import Avalon.Server.OverlayRouting

namespace Avalon.Shards

open Std (ExtTreeMap)
open TopEntries LedgerEntry
open OverlayRouting (isP2pUrl)

/-! ## The registry -/

structure ShardAnnouncement where
  shardId : String
  url : String
  lastSeenAt : OffsetDateTime
deriving DecidableEq, Repr

abbrev Urls := ExtTreeMap String OffsetDateTime

structure ShardRegistry where
  /-- shard id, then URL -/
  shards : ExtTreeMap String Urls
  firstSeen : ExtTreeMap String OffsetDateTime

def ShardRegistry.empty : ShardRegistry := ⟨∅, ∅⟩

def maxP2pShardUrlsTotal : ℕ := 32

/-- the newest time on record stays -/
def refresh (urls : Urls) (entry : ShardAnnouncement) : Urls :=
  if (urls[entry.url]?).all fun existing => decide (entry.lastSeenAt > existing) then urls.insert entry.url entry.lastSeenAt
  else urls

/-- the earliest one stays -/
def firstOf (existing : Option OffsetDateTime) (lastSeenAt : OffsetDateTime) : OffsetDateTime :=
  match existing with
  | some existing => if lastSeenAt < existing then lastSeenAt else existing
  | none => lastSeenAt

def mergeEntry (r : ShardRegistry) (entry : ShardAnnouncement) : ShardRegistry where
  shards := r.shards.insert entry.shardId (refresh (r.shards.getD entry.shardId ∅) entry)
  firstSeen := r.firstSeen.insert entry.shardId (firstOf r.firstSeen[entry.shardId]? entry.lastSeenAt)

/-- a URL of a shard, in the order `sort` compares them -/
abbrev Key := String ×ₗ String

/-- the `p2p://` URLs on record -/
def p2pUrls (shards : ExtTreeMap String Urls) : List (OffsetDateTime ×ₗ Key) :=
  shards.toList.flatMap fun (id, urls) =>
    (urls.toList.filter fun (u, _) => isP2pUrl u.toList).map fun (u, t) => toLex (t, toLex (id, u))

def removeUrl (shards : ExtTreeMap String Urls) (id url : String) : ExtTreeMap String Urls :=
  match shards[id]? with
  | some urls => if (urls.erase url).isEmpty then shards.erase id else shards.insert id (urls.erase url)
  | none => shards

def removeEntry (shards : ExtTreeMap String Urls) (entry : OffsetDateTime ×ₗ Key) : ExtTreeMap String Urls :=
  removeUrl shards (ofLex (ofLex entry).2).1 (ofLex (ofLex entry).2).2

/-- past the cap the oldest `p2p://` URLs go; the ages stay -/
def cut (shards : ExtTreeMap String Urls) : ExtTreeMap String Urls :=
  let p2p := p2pUrls shards
  if p2p.length > maxP2pShardUrlsTotal then
    ((p2p.insertionSort (· ≤ ·)).take (p2p.length - maxP2pShardUrlsTotal)).foldl removeEntry shards
  else shards

/-- the shards not known before, in the order they came -/
def newlyLearned (r : ShardRegistry) : List ShardAnnouncement → List String
  | [] => []
  | entry :: rest =>
    (if entry.shardId ∈ r.shards then [] else [entry.shardId]) ++ newlyLearned (mergeEntry r entry) rest

def merge (r : ShardRegistry) (incoming : List ShardAnnouncement) : ShardRegistry × List String :=
  let merged := incoming.foldl mergeEntry r
  ({ merged with shards := cut merged.shards }, newlyLearned r incoming)

/-- the URLs refreshed since the cutoff -/
def freshUrls (urls : Urls) (cutoff : OffsetDateTime) : Urls := urls.filter fun _ lastSeenAt => decide (lastSeenAt ≥ cutoff)

/-- and no shard without one -/
def keepFresh (shards : ExtTreeMap String Urls) (cutoff : OffsetDateTime) : ExtTreeMap String Urls :=
  (shards.map fun _ urls => freshUrls urls cutoff).filter fun _ urls => !urls.isEmpty

/-- the shards left without a URL -/
def fullyRemoved (shards : ExtTreeMap String Urls) (cutoff : OffsetDateTime) : List String :=
  (shards.toList.filter fun (_, urls) => (freshUrls urls cutoff).isEmpty).map Prod.fst

def pruneOlderThan (r : ShardRegistry) (cutoff : OffsetDateTime) : ShardRegistry where
  shards := keepFresh r.shards cutoff
  firstSeen := (fullyRemoved r.shards cutoff).foldl (fun firstSeen shardId => firstSeen.erase shardId) r.firstSeen

def firstSeenAt (r : ShardRegistry) (shardId : String) : Option OffsetDateTime := r.firstSeen[shardId]?

/-- when a URL was last seen -/
def lastSeenAt (shards : ExtTreeMap String Urls) (id url : String) : Option OffsetDateTime := shards[id]?.bind fun urls => urls[url]?

/-- `within_grace_period` of replication.rs -/
def withinGracePeriod (firstSeenAt : Option OffsetDateTime) (now : OffsetDateTime) (gracePeriod : ℤ) : Bool :=
  match firstSeenAt with
  | some firstSeenAt => decide (now - firstSeenAt < gracePeriod)
  | none => true

/-! ## Lookups -/

theorem lastSeenAt_insert (shards : ExtTreeMap String Urls) (id : String) (urls : Urls) (s u : String) :
    lastSeenAt (shards.insert id urls) s u = if s = id then urls[u]? else lastSeenAt shards s u := by
  simp only [lastSeenAt, ExtTreeMap.getElem?_insert, Std.compare_eq_iff_eq, eq_comm (a := id)]
  split_ifs <;> rfl

theorem getElem?_refresh (urls : Urls) (entry : ShardAnnouncement) (u : String) :
    (refresh urls entry)[u]? =
      if u = entry.url then some ((urls[u]?).elim entry.lastSeenAt (max entry.lastSeenAt)) else urls[u]? := by
  unfold refresh
  by_cases hu : u = entry.url
  · subst hu
    rw [if_pos (rfl : entry.url = entry.url)]
    cases hold : urls[entry.url]? with
    | none => simp
    | some t =>
      simp only [Option.all_some, decide_eq_true_eq, Option.elim_some]
      split_ifs with hnew
      · rw [ExtTreeMap.getElem?_insert_self, max_eq_left hnew.le]
      · rw [hold, max_eq_right (not_lt.1 hnew)]
  · rw [if_neg hu]
    split_ifs
    · rw [ExtTreeMap.getElem?_insert, if_neg (by rw [Std.compare_eq_iff_eq]; exact Ne.symm hu)]
    · rfl

theorem getElem?_getD (shards : ExtTreeMap String Urls) (id u : String) :
    (shards.getD id ∅)[u]? = lastSeenAt shards id u := by
  rw [ExtTreeMap.getD_eq_getD_getElem?, lastSeenAt]
  cases shards[id]? with
  | none => exact ExtTreeMap.getElem?_empty
  | some urls => rfl

/-- an announcement refreshes its URL only -/
theorem lastSeenAt_mergeEntry (r : ShardRegistry) (entry : ShardAnnouncement) (s u : String) :
    lastSeenAt (mergeEntry r entry).shards s u =
      if s = entry.shardId ∧ u = entry.url then some ((lastSeenAt r.shards s u).elim entry.lastSeenAt (max entry.lastSeenAt))
      else lastSeenAt r.shards s u := by
  rw [mergeEntry, lastSeenAt_insert, getElem?_refresh, getElem?_getD]
  by_cases hs : s = entry.shardId
  · subst hs
    simp only [if_true, true_and]
  · rw [if_neg hs, if_neg (fun h => hs h.1)]

theorem lastSeenAt_removeUrl (shards : ExtTreeMap String Urls) (id url s u : String) :
    lastSeenAt (removeUrl shards id url) s u = if s = id ∧ u = url then none else lastSeenAt shards s u := by
  unfold removeUrl
  cases hurls : shards[id]? with
  | none =>
    split_ifs with h
    · rw [lastSeenAt, h.1, hurls]
      rfl
    · rfl
  | some urls =>
    have herase : (if s = id then (urls.erase url)[u]? else lastSeenAt shards s u) =
        if s = id ∧ u = url then none else lastSeenAt shards s u := by
      by_cases hs : s = id
      · subst hs
        simp only [true_and, if_true, ExtTreeMap.getElem?_erase, Std.compare_eq_iff_eq, eq_comm (a := url)]
        rw [lastSeenAt, hurls]
        rfl
      · rw [if_neg hs, if_neg (fun h => hs h.1)]
    rw [← herase]
    dsimp only
    split_ifs with hempty hs hs
    · rw [lastSeenAt, hs, ExtTreeMap.getElem?_erase_self, ExtTreeMap.isEmpty_iff.1 hempty, ExtTreeMap.getElem?_empty]
      rfl
    · rw [lastSeenAt, ExtTreeMap.getElem?_erase, if_neg (by rw [Std.compare_eq_iff_eq]; exact Ne.symm hs)]
      rfl
    · rw [lastSeenAt_insert, if_pos hs]
    · rw [lastSeenAt_insert, if_neg hs]

/-- no shard is on record without a URL -/
def NoEmpty (shards : ExtTreeMap String Urls) : Prop := ∀ (id : String) (urls : Urls), shards[id]? = some urls → urls ≠ ∅

theorem noEmpty_insert {shards : ExtTreeMap String Urls} (h : NoEmpty shards) {id : String} {urls : Urls} (hurls : urls ≠ ∅) :
    NoEmpty (shards.insert id urls) := by
  intro id' urls' hget
  rw [ExtTreeMap.getElem?_insert] at hget
  split_ifs at hget
  · exact Option.some.inj hget ▸ hurls
  · exact h id' urls' hget

theorem noEmpty_erase {shards : ExtTreeMap String Urls} (h : NoEmpty shards) (id : String) : NoEmpty (shards.erase id) := by
  intro id' urls' hget
  rw [ExtTreeMap.getElem?_erase] at hget
  split_ifs at hget
  exact h id' urls' hget

theorem noEmpty_mergeEntry {r : ShardRegistry} (h : NoEmpty r.shards) (entry : ShardAnnouncement) :
    NoEmpty (mergeEntry r entry).shards := by
  refine noEmpty_insert h fun hempty => ?_
  have hget := lastSeenAt_mergeEntry r entry entry.shardId entry.url
  rw [mergeEntry, lastSeenAt_insert, if_pos rfl, if_pos ⟨rfl, rfl⟩, hempty, ExtTreeMap.getElem?_empty] at hget
  cases hget

theorem noEmpty_removeUrl {shards : ExtTreeMap String Urls} (h : NoEmpty shards) (id url : String) :
    NoEmpty (removeUrl shards id url) := by
  unfold removeUrl
  cases shards[id]? with
  | none => exact h
  | some urls =>
    dsimp only
    split_ifs with hempty
    · exact noEmpty_erase h id
    · exact noEmpty_insert h fun heq => hempty (ExtTreeMap.isEmpty_iff.2 heq)

/-- the URLs of every shard determine the map -/
theorem eq_of_lastSeenAt {shards shards' : ExtTreeMap String Urls} (h : NoEmpty shards) (h' : NoEmpty shards')
    (heq : ∀ s u, lastSeenAt shards s u = lastSeenAt shards' s u) : shards = shards' := by
  have hnone : ∀ {a b : ExtTreeMap String Urls}, NoEmpty b → (∀ s u, lastSeenAt a s u = lastSeenAt b s u) → ∀ s : String,
      a[s]? = none → b[s]? = none := by
    intro a b hb hab s hs
    cases hbs : b[s]? with
    | none => rfl
    | some urls =>
      refine absurd (ExtTreeMap.ext_getElem? fun u => ?_) (hb s urls hbs)
      have hu := hab s u
      rw [lastSeenAt, lastSeenAt, hs, hbs] at hu
      rw [ExtTreeMap.getElem?_empty]
      exact hu.symm
  refine ExtTreeMap.ext_getElem? fun s => ?_
  cases hs : shards[s]? with
  | none => exact (hnone h' heq s hs).symm
  | some urls =>
    cases hs' : shards'[s]? with
    | none =>
      rw [hnone h (fun s u => (heq s u).symm) s hs'] at hs
      cases hs
    | some urls' =>
      refine congrArg some (ExtTreeMap.ext_getElem? fun u => ?_)
      have hu := heq s u
      rwa [lastSeenAt, lastSeenAt, hs, hs'] at hu

/-! ## The registry as a map to times -/

/-- when a URL was last seen, ⊥ if it is not on record -/
def seen (shards : ExtTreeMap String Urls) (k : Key) : WithBot OffsetDateTime := lastSeenAt shards (ofLex k).1 (ofLex k).2

def ShardAnnouncement.key (a : ShardAnnouncement) : Key := toLex (a.shardId, a.url)

/-- the newest time announced for a URL -/
noncomputable def newest (announced : List ShardAnnouncement) (k : Key) : WithBot OffsetDateTime :=
  ((announced.filter fun a => decide (a.key = k)).map ShardAnnouncement.lastSeenAt).maximum

def isP2p (k : Key) : Bool := isP2pUrl (ofLex k).2.toList

def p2pPart (f : Key → WithBot OffsetDateTime) (k : Key) : WithBot OffsetDateTime := if isP2p k then f k else ⊥

/-- of the `p2p://` URLs the 32 greatest -/
noncomputable def kept (f : Key → WithBot OffsetDateTime) (k : Key) : WithBot OffsetDateTime :=
  if isP2p k then keepTop maxP2pShardUrlsTotal (p2pPart f) k else f k

theorem newest_cons (a : ShardAnnouncement) (announced : List ShardAnnouncement) :
    newest (a :: announced) = newest [a] ⊔ newest announced := by
  funext k
  simp only [newest, Pi.sup_apply]
  by_cases hk : a.key = k
  · rw [List.filter_cons_of_pos (by simpa using hk), List.filter_cons_of_pos (by simpa using hk), List.map_cons,
      List.maximum_cons]
    rfl
  · rw [List.filter_cons_of_neg (by simpa using hk), List.filter_cons_of_neg (by simpa using hk)]
    exact (bot_sup_eq _).symm

theorem newest_append (announced announced' : List ShardAnnouncement) :
    newest (announced ++ announced') = newest announced ⊔ newest announced' := by
  induction announced with
  | nil => exact (bot_sup_eq _).symm
  | cons a announced ih => rw [List.cons_append, newest_cons, ih, newest_cons a announced, sup_assoc]

/-- t is the newest time announced for the URL -/
def Newest (announced : List ShardAnnouncement) (s u : String) (t : OffsetDateTime) : Prop := IsGreatest {t | ⟨s, u, t⟩ ∈ announced} t

theorem newest_eq_coe_iff {announced : List ShardAnnouncement} {k : Key} {t : OffsetDateTime} :
    newest announced k = t ↔ Newest announced (ofLex k).1 (ofLex k).2 t := by
  have hset : ∀ t, t ∈ (announced.filter fun a => decide (a.key = k)).map ShardAnnouncement.lastSeenAt ↔
      ⟨(ofLex k).1, (ofLex k).2, t⟩ ∈ announced := by
    intro t
    simp only [List.mem_map, List.mem_filter, decide_eq_true_eq]
    constructor
    · rintro ⟨a, ⟨ha, rfl⟩, rfl⟩
      exact ha
    · intro ha
      exact ⟨_, ⟨ha, rfl⟩, rfl⟩
  rw [newest, List.maximum_eq_coe_iff]
  simp only [hset]
  rfl

theorem newest_congr {announced announced' : List ShardAnnouncement} (h : ∀ a, a ∈ announced ↔ a ∈ announced') :
    newest announced = newest announced' := by
  funext k
  refine Option.ext fun t => ?_
  refine newest_eq_coe_iff.trans (Iff.trans ?_ newest_eq_coe_iff.symm)
  simp only [Newest, h]

theorem seen_mergeEntry (r : ShardRegistry) (entry : ShardAnnouncement) :
    seen (mergeEntry r entry).shards = seen r.shards ⊔ newest [entry] := by
  funext k
  rw [seen, lastSeenAt_mergeEntry, Pi.sup_apply, seen]
  by_cases hk : entry.key = k
  · subst hk
    rw [if_pos ⟨rfl, rfl⟩, newest, List.filter_cons_of_pos (by simp)]
    change ((Option.elim _ _ _ : OffsetDateTime) : WithBot OffsetDateTime) = _
    cases lastSeenAt r.shards (ofLex entry.key).1 (ofLex entry.key).2 with
    | none => exact (bot_sup_eq _).symm
    | some t => exact (WithBot.coe_sup _ _).trans (sup_comm _ _)
  · rw [if_neg, newest, List.filter_cons_of_neg (by simpa using hk)]
    · exact (sup_bot_eq _).symm
    · rintro ⟨hs, hu⟩
      exact hk (congrArg toLex (Prod.ext hs.symm hu.symm))

theorem seen_mergeEntries (incoming : List ShardAnnouncement) (r : ShardRegistry) :
    seen (incoming.foldl mergeEntry r).shards = seen r.shards ⊔ newest incoming := by
  induction incoming generalizing r with
  | nil => exact (sup_bot_eq _).symm
  | cons entry incoming ih => rw [List.foldl_cons, ih, seen_mergeEntry, newest_cons entry incoming, sup_assoc]

/-! ## The cut -/

theorem mem_p2pUrls {shards : ExtTreeMap String Urls} {t : OffsetDateTime} {k : Key} :
    toLex (t, k) ∈ p2pUrls shards ↔ isP2p k = true ∧ lastSeenAt shards (ofLex k).1 (ofLex k).2 = some t := by
  simp only [p2pUrls, List.mem_flatMap, List.mem_map, List.mem_filter, Prod.exists, ExtTreeMap.mem_toList_iff_getElem?_eq_some,
    EmbeddingLike.apply_eq_iff_eq, Prod.mk.injEq]
  constructor
  · rintro ⟨id, urls, hid, u, t', ⟨hu, hp2p⟩, rfl, rfl⟩
    refine ⟨hp2p, ?_⟩
    rw [lastSeenAt]
    simp only [ofLex_toLex, hid, Option.bind_some, hu]
  · rintro ⟨hp2p, hseen⟩
    obtain ⟨urls, hid, hu⟩ := Option.bind_eq_some_iff.1 hseen
    exact ⟨_, urls, hid, _, t, ⟨hu, hp2p⟩, rfl, rfl⟩

/-- every URL is listed once -/
theorem nodup_p2pUrls (shards : ExtTreeMap String Urls) : (p2pUrls shards).Nodup := by
  have hkeys : ∀ {V : Type} (m : ExtTreeMap String V), m.toList.Pairwise fun a b => a.1 ≠ b.1 := by
    intro V m
    refine m.distinct_keys_toList.imp fun {a b} hab heq => hab ?_
    rw [heq]
    exact Std.compare_self
  refine List.nodup_flatMap.2 ⟨fun e _ => ?_, (hkeys shards).imp fun {a b} hab => ?_⟩
  · refine List.Nodup.map_on ?_ ?_
    · rintro ⟨u, t⟩ - ⟨u', t'⟩ - heq
      simp only [EmbeddingLike.apply_eq_iff_eq, Prod.mk.injEq, true_and] at heq
      rw [heq.1, heq.2]
    · exact ((hkeys e.2).imp fun {a b} hab heq => hab (congrArg Prod.fst heq)).filter _
  · intro x hx hx'
    obtain ⟨⟨u, t⟩, -, rfl⟩ := List.mem_map.1 hx
    obtain ⟨⟨u', t'⟩, -, heq⟩ := List.mem_map.1 hx'
    simp only [EmbeddingLike.apply_eq_iff_eq, Prod.mk.injEq] at heq
    exact hab heq.2.1.symm

theorem lastSeenAt_removeEntries (entries : List (OffsetDateTime ×ₗ Key)) (shards : ExtTreeMap String Urls) (k : Key) :
    lastSeenAt (entries.foldl removeEntry shards) (ofLex k).1 (ofLex k).2 =
      if k ∈ entries.map (fun e => (ofLex e).2) then none else lastSeenAt shards (ofLex k).1 (ofLex k).2 := by
  induction entries generalizing shards with
  | nil => rfl
  | cons e entries ih =>
    rw [List.foldl_cons, ih, removeEntry, lastSeenAt_removeUrl]
    have hkey : ((ofLex k).1 = (ofLex (ofLex e).2).1 ∧ (ofLex k).2 = (ofLex (ofLex e).2).2) ↔ k = (ofLex e).2 := by
      rw [← Prod.ext_iff, EmbeddingLike.apply_eq_iff_eq]
    simp only [hkey, List.map_cons, List.mem_cons]
    split_ifs <;> tauto

theorem noEmpty_removeEntries (entries : List (OffsetDateTime ×ₗ Key)) {shards : ExtTreeMap String Urls} (h : NoEmpty shards) :
    NoEmpty (entries.foldl removeEntry shards) := by
  induction entries generalizing shards with
  | nil => exact h
  | cons e entries ih => exact ih (noEmpty_removeUrl h _ _)

theorem cut_eq (shards : ExtTreeMap String Urls) :
    cut shards = (((p2pUrls shards).insertionSort (· ≤ ·)).take ((p2pUrls shards).length - maxP2pShardUrlsTotal)).foldl
      removeEntry shards := by
  unfold cut
  dsimp only
  split_ifs with hlen
  · rfl
  · rw [Nat.sub_eq_zero_of_le (not_lt.1 hlen)]
    rfl

theorem encard_list {α : Type} {l : List α} (h : l.Nodup) : {x | x ∈ l}.encard = l.length := by
  classical
  rw [← List.coe_toFinset, Set.encard_coe_eq_coe_finsetCard, List.toFinset_card_of_nodup h]

section Cut

variable (shards : ExtTreeMap String Urls)

/-- the `p2p://` URLs in the order they are cut -/
def sortedP2p : List (OffsetDateTime ×ₗ Key) := (p2pUrls shards).insertionSort (· ≤ ·)

theorem mem_sortedP2p {e : OffsetDateTime ×ₗ Key} :
    e ∈ sortedP2p shards ↔ isP2p (ofLex e).2 = true ∧ seen shards (ofLex e).2 = (ofLex e).1 :=
  ((List.perm_insertionSort _ _).mem_iff).trans mem_p2pUrls

theorem sortedP2p_ascending : (sortedP2p shards).Pairwise (· < ·) := by
  have hnodup : (sortedP2p shards).Nodup := (List.perm_insertionSort _ _).nodup_iff.2 (nodup_p2pUrls shards)
  exact (List.pairwise_insertionSort (· ≤ ·) (p2pUrls shards)).imp₂ (fun a b hle hne => lt_of_le_of_ne hle hne) hnodup

/-- the key names the entry -/
theorem eq_of_mem_sortedP2p {e e' : OffsetDateTime ×ₗ Key} (he : e ∈ sortedP2p shards) (he' : e' ∈ sortedP2p shards)
    (hkey : (ofLex e).2 = (ofLex e').2) : e = e' := by
  obtain ⟨-, ht⟩ := (mem_sortedP2p shards).1 he
  obtain ⟨-, ht'⟩ := (mem_sortedP2p shards).1 he'
  rw [hkey, ht'] at ht
  exact congrArg toLex (Prod.ext (WithBot.coe_inj.1 ht).symm hkey)

/-- the URLs above one in the map are those behind it in the list -/
theorem encard_above {t : OffsetDateTime} {k : Key} (hk : isP2p k = true) (ht : seen shards k = t) :
    {y | Above (p2pPart (seen shards)) k y}.encard =
      ((sortedP2p shards).filter fun e => decide (toLex (t, k) < e)).length := by
  have hlist : {y | Above (p2pPart (seen shards)) k y} =
      {y | y ∈ ((sortedP2p shards).filter fun e => decide (toLex (t, k) < e)).map fun e => (ofLex e).2} := by
    ext y
    have hentry : entry (p2pPart (seen shards)) k = toLex ((t : WithBot OffsetDateTime), k) := by
      rw [entry, p2pPart, if_pos hk, ht]
    simp only [Set.mem_ofPred_eq, List.mem_map, List.mem_filter, decide_eq_true_eq, Above, hentry]
    constructor
    · intro habove
      have hbound : p2pPart (seen shards) y ≠ ⊥ := by
        refine Above.mem_support (x := k) (f := p2pPart (seen shards)) ?_ ?_
        · rw [Above, hentry]
          exact habove
        · rw [support, Set.mem_ofPred_eq, p2pPart, if_pos hk, ht]
          exact WithBot.coe_ne_bot
      obtain ⟨t', ht'⟩ := WithBot.ne_bot_iff_exists.1 hbound
      have hy : isP2p y = true := by
        by_contra hnot
        rw [p2pPart, if_neg hnot] at hbound
        exact hbound rfl
      rw [p2pPart, if_pos hy] at ht'
      refine ⟨toLex (t', y), ⟨(mem_sortedP2p shards).2 ⟨hy, ht'.symm⟩, ?_⟩, rfl⟩
      rw [entry, p2pPart, if_pos hy, ← ht', Prod.Lex.toLex_lt_toLex] at habove
      rw [Prod.Lex.toLex_lt_toLex]
      exact habove.imp WithBot.coe_lt_coe.1 fun h => ⟨WithBot.coe_inj.1 h.1, h.2⟩
    · rintro ⟨e, ⟨he, hlt⟩, rfl⟩
      obtain ⟨hp2p, hseen⟩ := (mem_sortedP2p shards).1 he
      rw [entry, p2pPart, if_pos hp2p, hseen, Prod.Lex.toLex_lt_toLex]
      rcases Prod.Lex.lt_iff.1 hlt with hlt | ⟨heq, hlt⟩
      · exact .inl (WithBot.coe_lt_coe.2 hlt)
      · exact .inr ⟨congrArg (fun t : OffsetDateTime => (t : WithBot OffsetDateTime)) heq, hlt⟩
  rw [hlist, encard_list, List.length_map]
  refine List.Nodup.map_on ?_ (((sortedP2p_ascending shards).imp fun h => h.ne).filter _)
  intro e he e' he' hkey
  exact eq_of_mem_sortedP2p shards (List.mem_filter.1 he).1 (List.mem_filter.1 he').1 hkey

/-- a URL is cut unless its entry is among the last -/
theorem mem_taken_iff {n : ℕ} {t : OffsetDateTime} {k : Key} (hmem : toLex (t, k) ∈ sortedP2p shards) :
    k ∈ ((sortedP2p shards).take n).map (fun e => (ofLex e).2) ↔ ¬ toLex (t, k) ∈ (sortedP2p shards).drop n := by
  have hnodup : (sortedP2p shards).Nodup := (sortedP2p_ascending shards).imp fun h => h.ne
  have hsplit := List.take_append_drop n (sortedP2p shards)
  constructor
  · intro htaken hdropped
    obtain ⟨e, he, hkey⟩ := List.mem_map.1 htaken
    have heq := eq_of_mem_sortedP2p shards (List.mem_of_mem_take he) (List.mem_of_mem_drop hdropped) hkey
    rw [← hsplit] at hnodup
    exact List.disjoint_of_nodup_append hnodup (heq ▸ he) hdropped
  · intro hnot
    rw [← hsplit] at hmem
    rcases List.mem_append.1 hmem with htaken | hdropped
    · exact List.mem_map.2 ⟨_, htaken, rfl⟩
    · exact absurd hdropped hnot

/-- **The cut** keeps the greatest -/
theorem seen_cut : seen (cut shards) = kept (seen shards) := by
  funext k
  have hlen : (p2pUrls shards).length = (sortedP2p shards).length := ((List.perm_insertionSort _ _).length_eq).symm
  rw [seen, cut_eq, hlen, ← sortedP2p, lastSeenAt_removeEntries, kept]
  by_cases hk : isP2p k = true
  · rw [if_pos hk]
    cases hseen : lastSeenAt shards (ofLex k).1 (ofLex k).2 with
    | none =>
      rw [ite_self]
      refine (keepTop_eq_bot ?_).symm
      rw [p2pPart, if_pos hk, seen, hseen]
      rfl
    | some t =>
      have hlast := mem_drop_iff (sortedP2p_ascending shards) maxP2pShardUrlsTotal (x := toLex (t, k))
      have hmem : toLex (t, k) ∈ sortedP2p shards := (mem_sortedP2p shards).2 ⟨hk, hseen⟩
      have hamong : Among maxP2pShardUrlsTotal (p2pPart (seen shards)) k ↔
          toLex (t, k) ∈ (sortedP2p shards).drop ((sortedP2p shards).length - maxP2pShardUrlsTotal) := by
        rw [hlast, Among, encard_above shards hk hseen]
        simp only [hmem, true_and, Nat.cast_lt]
      have hvalue : p2pPart (seen shards) k = t := by
        rw [p2pPart, if_pos hk]
        exact hseen
      by_cases hin : Among maxP2pShardUrlsTotal (p2pPart (seen shards)) k
      · rw [keepTop_of_among hin, hvalue, if_neg]
        · rfl
        · rw [mem_taken_iff shards hmem, not_not]
          exact hamong.1 hin
      · rw [keepTop_of_not_among hin, if_pos]
        · rfl
        · rw [mem_taken_iff shards hmem, ← hamong]
          exact hin
  · rw [if_neg hk, if_neg]
    · rfl
    · intro hcut
      obtain ⟨e, he, rfl⟩ := List.mem_map.1 hcut
      exact hk ((mem_sortedP2p shards).1 (List.mem_of_mem_take he)).1

theorem noEmpty_cut {shards : ExtTreeMap String Urls} (h : NoEmpty shards) : NoEmpty (cut shards) := by
  rw [cut_eq]
  exact noEmpty_removeEntries _ h

end Cut

/-! ## Merging -/

theorem finite_support_newest (announced : List ShardAnnouncement) : (support (newest announced)).Finite := by
  refine (List.finite_toSet (announced.map ShardAnnouncement.key)).subset fun k hk => ?_
  obtain ⟨t, ht⟩ := WithBot.ne_bot_iff_exists.1 hk
  exact List.mem_map.2 ⟨_, (newest_eq_coe_iff.1 ht.symm).1, rfl⟩

theorem p2pPart_le (f : Key → WithBot OffsetDateTime) : p2pPart f ≤ f := by
  intro k
  unfold p2pPart
  split_ifs
  · exact le_rfl
  · exact bot_le

theorem p2pPart_sup (f g : Key → WithBot OffsetDateTime) : p2pPart (f ⊔ g) = p2pPart f ⊔ p2pPart g := by
  funext k
  simp only [p2pPart, Pi.sup_apply]
  split_ifs
  · rfl
  · exact (bot_sup_eq _).symm

theorem p2pPart_kept (f : Key → WithBot OffsetDateTime) : p2pPart (kept f) = keepTop maxP2pShardUrlsTotal (p2pPart f) := by
  funext k
  by_cases hk : isP2p k = true
  · rw [p2pPart, if_pos hk, kept, if_pos hk]
  · have hbot : p2pPart f k = ⊥ := if_neg hk
    rw [keepTop_eq_bot hbot, p2pPart, if_neg hk]

/-- **Cut and offered again**: what was cut before stays out -/
theorem kept_sup {f g : Key → WithBot OffsetDateTime} (hf : (support f).Finite) (hg : (support g).Finite) :
    kept (kept f ⊔ g) = kept (f ⊔ g) := by
  have hp2p := keepTop_sup (k := maxP2pShardUrlsTotal) (hf.subset (support_mono (p2pPart_le f)))
    (hg.subset (support_mono (p2pPart_le g)))
  rw [← p2pPart_kept, ← p2pPart_sup, ← p2pPart_sup] at hp2p
  funext k
  rw [kept, kept, hp2p]
  by_cases hk : isP2p k = true
  · rw [if_pos hk, if_pos hk]
  · rw [if_neg hk, if_neg hk, Pi.sup_apply, Pi.sup_apply, kept, if_neg hk]

theorem seen_merge (r : ShardRegistry) (incoming : List ShardAnnouncement) :
    seen (merge r incoming).1.shards = kept (seen r.shards ⊔ newest incoming) := by
  rw [merge, seen_cut, seen_mergeEntries]

theorem noEmpty_mergeEntries (incoming : List ShardAnnouncement) {r : ShardRegistry} (h : NoEmpty r.shards) :
    NoEmpty (incoming.foldl mergeEntry r).shards := by
  induction incoming generalizing r with
  | nil => exact h
  | cons entry incoming ih => exact ih (noEmpty_mergeEntry h entry)

theorem noEmpty_merge {r : ShardRegistry} (h : NoEmpty r.shards) (incoming : List ShardAnnouncement) :
    NoEmpty (merge r incoming).1.shards := noEmpty_cut (noEmpty_mergeEntries incoming h)

theorem noEmpty_empty : NoEmpty ShardRegistry.empty.shards := by
  intro id urls h
  rw [ShardRegistry.empty, ExtTreeMap.getElem?_empty] at h
  cases h

/-- the earliest time announced for a shard -/
noncomputable def earliest (announced : List ShardAnnouncement) (s : String) : WithTop OffsetDateTime :=
  ((announced.filter fun a => decide (a.shardId = s)).map ShardAnnouncement.lastSeenAt).minimum

/-- the age of a shard, ⊤ if none is on record -/
def age (firstSeen : ExtTreeMap String OffsetDateTime) (s : String) : WithTop OffsetDateTime := (firstSeen[s]? : Option OffsetDateTime)

theorem earliest_cons (a : ShardAnnouncement) (announced : List ShardAnnouncement) :
    earliest (a :: announced) = earliest [a] ⊓ earliest announced := by
  funext s
  simp only [earliest, Pi.inf_apply]
  by_cases hs : a.shardId = s
  · rw [List.filter_cons_of_pos (by simpa using hs), List.filter_cons_of_pos (by simpa using hs), List.map_cons,
      List.minimum_cons]
    rfl
  · rw [List.filter_cons_of_neg (by simpa using hs), List.filter_cons_of_neg (by simpa using hs)]
    exact (top_inf_eq _).symm

theorem earliest_append (announced announced' : List ShardAnnouncement) :
    earliest (announced ++ announced') = earliest announced ⊓ earliest announced' := by
  induction announced with
  | nil => exact (top_inf_eq _).symm
  | cons a announced ih => rw [List.cons_append, earliest_cons, ih, earliest_cons a announced, inf_assoc]

theorem earliest_eq_coe_iff {announced : List ShardAnnouncement} {s : String} {t : OffsetDateTime} :
    earliest announced s = t ↔ IsLeast {t | ∃ u, ⟨s, u, t⟩ ∈ announced} t := by
  have hset : ∀ t, t ∈ (announced.filter fun a => decide (a.shardId = s)).map ShardAnnouncement.lastSeenAt ↔
      ∃ u, ⟨s, u, t⟩ ∈ announced := by
    intro t
    simp only [List.mem_map, List.mem_filter, decide_eq_true_eq]
    constructor
    · rintro ⟨a, ⟨ha, rfl⟩, rfl⟩
      exact ⟨a.url, ha⟩
    · rintro ⟨u, ha⟩
      exact ⟨_, ⟨ha, rfl⟩, rfl⟩
  rw [earliest, List.minimum_eq_coe_iff]
  simp only [hset]
  rfl

theorem earliest_congr {announced announced' : List ShardAnnouncement} (h : ∀ a, a ∈ announced ↔ a ∈ announced') :
    earliest announced = earliest announced' := by
  funext s
  refine Option.ext fun t => ?_
  refine earliest_eq_coe_iff.trans (Iff.trans ?_ earliest_eq_coe_iff.symm)
  simp only [h]

theorem age_mergeEntry (r : ShardRegistry) (entry : ShardAnnouncement) :
    age (mergeEntry r entry).firstSeen = age r.firstSeen ⊓ earliest [entry] := by
  funext s
  simp only [age, mergeEntry, ExtTreeMap.getElem?_insert, Std.compare_eq_iff_eq, Pi.inf_apply]
  by_cases hs : entry.shardId = s
  · subst hs
    rw [if_pos rfl, earliest, List.filter_cons_of_pos (by simp)]
    change ((firstOf _ _ : OffsetDateTime) : WithTop OffsetDateTime) = _
    cases r.firstSeen[entry.shardId]? with
    | none => exact (top_inf_eq _).symm
    | some t =>
      have hmin : firstOf (some t) entry.lastSeenAt = min t entry.lastSeenAt := by
        rw [firstOf]
        split_ifs with hlt
        · exact (min_eq_right hlt.le).symm
        · exact (min_eq_left (not_lt.1 hlt)).symm
      rw [hmin]
      exact WithTop.coe_inf _ _
  · rw [if_neg hs, earliest, List.filter_cons_of_neg (by simpa using hs)]
    exact (inf_top_eq _).symm

theorem age_merge (r : ShardRegistry) (incoming : List ShardAnnouncement) :
    age (merge r incoming).1.firstSeen = age r.firstSeen ⊓ earliest incoming := by
  change age (incoming.foldl mergeEntry r).firstSeen = _
  induction incoming generalizing r with
  | nil => exact (inf_top_eq _).symm
  | cons entry incoming ih => rw [List.foldl_cons, ih, age_mergeEntry, earliest_cons entry incoming, inf_assoc]

theorem eq_of_age {m m' : ExtTreeMap String OffsetDateTime} (h : age m = age m') : m = m' :=
  ExtTreeMap.ext_getElem? fun s => congrFun h s

/-! ## Order independence -/

/-- the batches merged one after the other, from an empty registry -/
def mergeAll (batches : List (List ShardAnnouncement)) : ShardRegistry :=
  batches.foldl (fun r incoming => (merge r incoming).1) .empty

theorem mergeAll_concat (batches : List (List ShardAnnouncement)) (incoming : List ShardAnnouncement) :
    mergeAll (batches ++ [incoming]) = (merge (mergeAll batches) incoming).1 := List.foldl_concat ..

theorem seen_mergeAll (batches : List (List ShardAnnouncement)) : seen (mergeAll batches).shards = kept (newest batches.flatten) := by
  induction batches using List.reverseRecOn with
  | nil =>
    have hbot : seen ShardRegistry.empty.shards = newest [] := by
      funext k
      rw [seen, lastSeenAt, ShardRegistry.empty, ExtTreeMap.getElem?_empty]
      rfl
    have hkept : kept (newest []) = newest [] := by
      funext k
      unfold kept
      split_ifs with hk
      · rw [keepTop_eq_bot]
        · rfl
        · rw [p2pPart, if_pos hk]
          rfl
      · rfl
    exact hbot.trans hkept.symm
  | append_singleton batches incoming ih =>
    rw [mergeAll_concat, seen_merge, ih, kept_sup (finite_support_newest _) (finite_support_newest _), ← newest_append,
      List.flatten_append, List.flatten_singleton]

theorem age_mergeAll (batches : List (List ShardAnnouncement)) : age (mergeAll batches).firstSeen = earliest batches.flatten := by
  induction batches using List.reverseRecOn with
  | nil =>
    funext s
    rw [age, mergeAll, List.foldl_nil, ShardRegistry.empty, ExtTreeMap.getElem?_empty]
    rfl
  | append_singleton batches incoming ih =>
    rw [mergeAll_concat, age_merge, ih, ← earliest_append, List.flatten_append, List.flatten_singleton]

theorem noEmpty_mergeAll (batches : List (List ShardAnnouncement)) : NoEmpty (mergeAll batches).shards := by
  induction batches using List.reverseRecOn with
  | nil => exact noEmpty_empty
  | append_singleton batches incoming ih =>
    rw [mergeAll_concat]
    exact noEmpty_merge ih incoming

/-- the `p2p://` URLs announced whose newest time, shard and URL are greater -/
def Greater (announced : List ShardAnnouncement) (s u : String) (t : OffsetDateTime) : Set Key :=
  {k | isP2p k = true ∧ ∃ t', Newest announced (ofLex k).1 (ofLex k).2 t' ∧ toLex (t, toLex (s, u)) < toLex (t', k)}

/-- what a registry holds of the announcements -/
structure Holds (r : ShardRegistry) (announced : List ShardAnnouncement) : Prop where
  others : ∀ s u t, isP2pUrl u.toList = false → (lastSeenAt r.shards s u = some t ↔ Newest announced s u t)
  p2p : ∀ s u t, isP2pUrl u.toList = true →
    (lastSeenAt r.shards s u = some t ↔ Newest announced s u t ∧ (Greater announced s u t).encard < 32)
  firstSeen : ∀ s t, firstSeenAt r s = some t ↔ IsLeast {t | ∃ u, ⟨s, u, t⟩ ∈ announced} t
  noEmpty : NoEmpty r.shards

theorem above_newest {announced : List ShardAnnouncement} {s u : String} {t : OffsetDateTime} (hp2p : isP2pUrl u.toList = true)
    (ht : Newest announced s u t) : {y | Above (p2pPart (newest announced)) (toLex (s, u)) y} = Greater announced s u t := by
  ext k
  have hvalue : p2pPart (newest announced) (toLex (s, u)) = t := (if_pos hp2p).trans (newest_eq_coe_iff.2 ht)
  have hentry : entry (p2pPart (newest announced)) (toLex (s, u)) = toLex ((t : WithBot OffsetDateTime), toLex (s, u)) := by
    rw [entry, hvalue]
  change entry (p2pPart (newest announced)) _ < entry (p2pPart (newest announced)) _ ↔ _
  rw [hentry, entry, Prod.Lex.toLex_lt_toLex]
  by_cases hk : isP2p k = true
  · rw [p2pPart, if_pos hk]
    constructor
    · intro habove
      have hbound : newest announced k ≠ ⊥ := by
        rintro hbot
        rw [hbot] at habove
        rcases habove with hlt | ⟨heq, -⟩
        · exact not_lt_bot hlt
        · exact WithBot.coe_ne_bot heq
      obtain ⟨t', ht'⟩ := WithBot.ne_bot_iff_exists.1 hbound
      refine ⟨hk, t', newest_eq_coe_iff.1 ht'.symm, ?_⟩
      rw [← ht'] at habove
      exact Prod.Lex.toLex_lt_toLex.2 (habove.imp WithBot.coe_lt_coe.1 fun h => ⟨WithBot.coe_inj.1 h.1, h.2⟩)
    · rintro ⟨-, t', ht', hlt⟩
      rw [newest_eq_coe_iff.2 ht']
      exact (Prod.Lex.toLex_lt_toLex.1 hlt).imp WithBot.coe_lt_coe.2 fun h => ⟨WithBot.coe_inj.2 h.1, h.2⟩
  · rw [p2pPart, if_neg hk]
    constructor
    · rintro (hlt | ⟨heq, -⟩)
      · exact absurd hlt not_lt_bot
      · exact absurd heq WithBot.coe_ne_bot
    · intro h
      exact absurd h.1 hk

theorem holds_mergeAll (batches : List (List ShardAnnouncement)) : Holds (mergeAll batches) batches.flatten := by
  have hseen : ∀ s u, lastSeenAt (mergeAll batches).shards s u = kept (newest batches.flatten) (toLex (s, u)) := fun s u =>
    congrFun (seen_mergeAll batches) (toLex (s, u))
  refine ⟨?_, ?_, ?_, noEmpty_mergeAll batches⟩
  · intro s u t hother
    have hkept : kept (newest batches.flatten) (toLex (s, u)) = newest batches.flatten (toLex (s, u)) :=
      if_neg (by rw [isP2p, ofLex_toLex, hother]; exact Bool.false_ne_true)
    rw [hseen, hkept]
    exact newest_eq_coe_iff
  · intro s u t hp2p
    have hkept : kept (newest batches.flatten) (toLex (s, u)) =
        keepTop maxP2pShardUrlsTotal (p2pPart (newest batches.flatten)) (toLex (s, u)) := if_pos hp2p
    have hpart : p2pPart (newest batches.flatten) (toLex (s, u)) = newest batches.flatten (toLex (s, u)) := if_pos hp2p
    rw [hseen, hkept]
    constructor
    · intro htop
      by_cases hamong : Among maxP2pShardUrlsTotal (p2pPart (newest batches.flatten)) (toLex (s, u))
      · rw [keepTop_of_among hamong, hpart] at htop
        have ht : Newest batches.flatten s u t := newest_eq_coe_iff.1 htop
        refine ⟨ht, ?_⟩
        rw [Among, above_newest hp2p ht] at hamong
        exact hamong
      · rw [keepTop_of_not_among hamong] at htop
        cases htop
    · rintro ⟨ht, hlt⟩
      have hamong : Among maxP2pShardUrlsTotal (p2pPart (newest batches.flatten)) (toLex (s, u)) := by
        rw [Among, above_newest hp2p ht]
        exact hlt
      rw [keepTop_of_among hamong, hpart]
      exact newest_eq_coe_iff.2 ht
  · intro s t
    rw [← earliest_eq_coe_iff, ← age_mergeAll]
    rfl

/-- **Shard gossip is order independent.** The same announcements in any grouping, order and number give the same registry:
for each URL the newest time, of the `p2p://` URLs the 32 greatest, for each shard the earliest time -/
theorem merge_order_independent (batches batches' : List (List ShardAnnouncement))
    (h : ∀ a, a ∈ batches.flatten ↔ a ∈ batches'.flatten) :
    mergeAll batches = mergeAll batches' ∧ Holds (mergeAll batches) batches.flatten := by
  have hshards : (mergeAll batches).shards = (mergeAll batches').shards := by
    refine eq_of_lastSeenAt (noEmpty_mergeAll batches) (noEmpty_mergeAll batches') fun s u => ?_
    have hseen : seen (mergeAll batches).shards = seen (mergeAll batches').shards := by
      rw [seen_mergeAll, seen_mergeAll, newest_congr h]
    exact congrFun hseen (toLex (s, u))
  have hages : (mergeAll batches).firstSeen = (mergeAll batches').firstSeen := by
    refine eq_of_age ?_
    rw [age_mergeAll, age_mergeAll, earliest_congr h]
  refine ⟨?_, holds_mergeAll batches⟩
  cases hr : mergeAll batches
  cases hr' : mergeAll batches'
  rw [hr, hr'] at hshards hages
  cases hshards
  cases hages
  rfl

/-- two URLs of a shard, told together or the second one twice -/
theorem merge_order_independent_twice :
    mergeAll [[⟨"s", "http://a", 1⟩, ⟨"s", "p2p://b", 2⟩]] =
      mergeAll [[⟨"s", "p2p://b", 2⟩], [⟨"s", "p2p://b", 2⟩, ⟨"s", "http://a", 1⟩]] := by
  refine (merge_order_independent _ _ fun a => ?_).1
  simp only [List.flatten_cons, List.flatten_nil, List.append_nil, List.cons_append, List.nil_append, List.mem_cons,
    List.not_mem_nil, or_false]
  tauto

/-! ## Ages -/

inductive Op where
  | merge (incoming : List ShardAnnouncement)
  | pruneOlderThan (cutoff : OffsetDateTime)

def step (r : ShardRegistry) : Op → ShardRegistry
  | .merge incoming => (merge r incoming).1
  | .pruneOlderThan cutoff => pruneOlderThan r cutoff

def run (ops : List Op) : ShardRegistry := ops.foldl step .empty

/-- the shard has a URL on record -/
def OnRecord (r : ShardRegistry) (s : String) : Prop := ∃ u t, lastSeenAt r.shards s u = some t

/-- what a call says about when shards were seen -/
noncomputable def Op.announced : Op → String → WithTop OffsetDateTime
  | .merge incoming => earliest incoming
  | .pruneOlderThan _ => ⊤

open Classical in
/-- the earliest time announced since the shard was last off the record -/
noncomputable def ageStep (r' : ShardRegistry) (op : Op) (ages : String → WithTop OffsetDateTime) (s : String) :
    WithTop OffsetDateTime :=
  if OnRecord r' s then ages s ⊓ op.announced s else ⊤

/-- the ages shards should have -/
noncomputable def freshAges (ops : List Op) : ShardRegistry × (String → WithTop OffsetDateTime) :=
  ops.foldl (fun p op => (step p.1 op, ageStep (step p.1 op) op p.2)) (.empty, ⊤)

/-- the shards with a recorded age are those with a URL, and the age is a fresh one -/
structure AgesFollow (ops : List Op) : Prop where
  exact : ∀ s, (firstSeenAt (run ops) s).isSome ↔ OnRecord (run ops) s
  fresh : age (run ops).firstSeen = (freshAges ops).2

/-- every shard on record or announced has a URL that is not `p2p://`, or one that fewer than 32 others are above -/
def KeepsShards (r : ShardRegistry) (incoming : List ShardAnnouncement) : Prop :=
  ∀ s, (OnRecord r s ∨ ∃ a ∈ incoming, a.shardId = s) →
    ∃ u, (seen r.shards ⊔ newest incoming) (toLex (s, u)) ≠ ⊥ ∧
      (isP2pUrl u.toList = true →
        Among maxP2pShardUrlsTotal (p2pPart (seen r.shards ⊔ newest incoming)) (toLex (s, u)))

theorem run_concat (ops : List Op) (op : Op) : run (ops ++ [op]) = step (run ops) op := List.foldl_concat ..

theorem freshAges_fst (ops : List Op) : (freshAges ops).1 = run ops := by
  induction ops using List.reverseRecOn with
  | nil => rfl
  | append_singleton ops op ih =>
    rw [run_concat, ← ih, freshAges, List.foldl_concat]
    rfl

theorem freshAges_concat (ops : List Op) (op : Op) :
    (freshAges (ops ++ [op])).2 = ageStep (step (run ops) op) op (freshAges ops).2 := by
  rw [← freshAges_fst, freshAges, List.foldl_concat]
  rfl

theorem onRecord_iff {r : ShardRegistry} {s : String} : OnRecord r s ↔ ∃ u, seen r.shards (toLex (s, u)) ≠ ⊥ := by
  refine exists_congr fun u => ?_
  rw [← Option.isSome_iff_exists, ← Option.ne_none_iff_isSome]
  rfl

theorem age_ne_top_iff {r : ShardRegistry} {s : String} : age r.firstSeen s ≠ ⊤ ↔ (firstSeenAt r s).isSome :=
  Option.ne_none_iff_isSome

/-- what is announced is what the batch names -/
theorem earliest_ne_top_iff {incoming : List ShardAnnouncement} {s : String} :
    earliest incoming s ≠ ⊤ ↔ ∃ a ∈ incoming, a.shardId = s := by
  constructor
  · intro h
    obtain ⟨t, ht⟩ := WithTop.ne_top_iff_exists.1 h
    obtain ⟨u, hu⟩ := (earliest_eq_coe_iff.1 ht.symm).1
    exact ⟨_, hu, rfl⟩
  · rintro ⟨a, ha, rfl⟩ htop
    rw [earliest, List.minimum_eq_top, List.map_eq_nil_iff, List.filter_eq_nil_iff] at htop
    exact htop a ha (by simp)

theorem newest_ne_bot_iff {incoming : List ShardAnnouncement} {k : Key} : newest incoming k ≠ ⊥ ↔ ∃ a ∈ incoming, a.key = k := by
  constructor
  · intro h
    obtain ⟨t, ht⟩ := WithBot.ne_bot_iff_exists.1 h
    exact ⟨_, (newest_eq_coe_iff.1 ht.symm).1, rfl⟩
  · rintro ⟨a, ha, rfl⟩ hbot
    rw [newest, List.maximum_eq_bot, List.map_eq_nil_iff, List.filter_eq_nil_iff] at hbot
    exact hbot a ha (by simp)

/-- a shard stays on record exactly if one of its URLs is kept -/
theorem onRecord_merge_iff {r : ShardRegistry} {incoming : List ShardAnnouncement} {s : String} :
    OnRecord (merge r incoming).1 s ↔ ∃ u, (seen r.shards ⊔ newest incoming) (toLex (s, u)) ≠ ⊥ ∧
      (isP2pUrl u.toList = true →
        Among maxP2pShardUrlsTotal (p2pPart (seen r.shards ⊔ newest incoming)) (toLex (s, u))) := by
  rw [onRecord_iff, seen_merge]
  refine exists_congr fun u => ?_
  unfold kept
  by_cases hp2p : isP2p (toLex (s, u)) = true
  · have hpart : p2pPart (seen r.shards ⊔ newest incoming) (toLex (s, u)) = (seen r.shards ⊔ newest incoming) (toLex (s, u)) :=
      if_pos hp2p
    rw [if_pos hp2p]
    by_cases hamong : Among maxP2pShardUrlsTotal (p2pPart (seen r.shards ⊔ newest incoming)) (toLex (s, u))
    · rw [keepTop_of_among hamong, hpart]
      exact ⟨fun h => ⟨h, fun _ => hamong⟩, fun h => h.1⟩
    · rw [keepTop_of_not_among hamong]
      exact ⟨fun h => absurd rfl h, fun h => absurd (h.2 hp2p) hamong⟩
  · rw [if_neg hp2p]
    exact ⟨fun h => ⟨h, fun hp => absurd hp hp2p⟩, fun h => h.1⟩

/-- a shard has a URL in the join exactly if it was on record or is announced -/
theorem offered_iff {r : ShardRegistry} {incoming : List ShardAnnouncement} {s : String} :
    (∃ u, (seen r.shards ⊔ newest incoming) (toLex (s, u)) ≠ ⊥) ↔ OnRecord r s ∨ ∃ a ∈ incoming, a.shardId = s := by
  have hsup : ∀ u, (seen r.shards ⊔ newest incoming) (toLex (s, u)) ≠ ⊥ ↔
      seen r.shards (toLex (s, u)) ≠ ⊥ ∨ newest incoming (toLex (s, u)) ≠ ⊥ := by
    intro u
    rw [Pi.sup_apply, ne_eq, sup_eq_bot_iff, not_and_or]
  simp only [hsup, exists_or, ← onRecord_iff, newest_ne_bot_iff]
  refine or_congr Iff.rfl ⟨?_, ?_⟩
  · rintro ⟨u, a, ha, hkey⟩
    exact ⟨a, ha, congrArg (fun k => (ofLex k).1) hkey⟩
  · rintro ⟨a, ha, rfl⟩
    exact ⟨a.url, a, ha, rfl⟩

/-! ## Pruning -/

theorem getElem?_keepFresh (shards : ExtTreeMap String Urls) (cutoff : OffsetDateTime) (s : String) :
    (keepFresh shards cutoff)[s]? =
      ((shards[s]?).map fun urls => freshUrls urls cutoff).filter fun urls => !urls.isEmpty := by
  rw [keepFresh, ExtTreeMap.getElem?_filter', ExtTreeMap.getElem?_map]

theorem lastSeenAt_keepFresh (shards : ExtTreeMap String Urls) (cutoff : OffsetDateTime) (s u : String) :
    lastSeenAt (keepFresh shards cutoff) s u = (lastSeenAt shards s u).filter fun t => decide (t ≥ cutoff) := by
  rw [lastSeenAt, getElem?_keepFresh, lastSeenAt]
  cases shards[s]? with
  | none => rfl
  | some urls =>
    have hfilter : (freshUrls urls cutoff)[u]? = (urls[u]?).filter fun t => decide (t ≥ cutoff) := ExtTreeMap.getElem?_filter'
    rw [Option.bind_some, ← hfilter, Option.map_some, Option.filter_some]
    split_ifs with hempty
    · rfl
    · rw [Bool.not_eq_true, Bool.not_eq_false'] at hempty
      rw [ExtTreeMap.isEmpty_iff.1 hempty, ExtTreeMap.getElem?_empty]
      rfl

theorem noEmpty_keepFresh (shards : ExtTreeMap String Urls) (cutoff : OffsetDateTime) : NoEmpty (keepFresh shards cutoff) := by
  intro s urls hget hempty
  rw [getElem?_keepFresh, Option.filter_eq_some_iff] at hget
  rw [hempty, ExtTreeMap.isEmpty_empty] at hget
  exact absurd hget.2 (by decide)

theorem getElem?_eraseAll (ids : List String) (m : ExtTreeMap String OffsetDateTime) (s : String) :
    (ids.foldl (fun m id => m.erase id) m)[s]? = if s ∈ ids then none else m[s]? := by
  induction ids generalizing m with
  | nil => rfl
  | cons id ids ih =>
    simp only [List.foldl_cons, ih, ExtTreeMap.getElem?_erase, Std.compare_eq_iff_eq, List.mem_cons]
    split_ifs <;> tauto

/-- the shards left without a URL are those known that are off the record afterwards -/
theorem mem_fullyRemoved {r : ShardRegistry} {cutoff : OffsetDateTime} {s : String} :
    s ∈ fullyRemoved r.shards cutoff ↔ r.shards[s]?.isSome ∧ ¬ OnRecord (pruneOlderThan r cutoff) s := by
  simp only [fullyRemoved, List.mem_map, List.mem_filter, Prod.exists, exists_and_right, exists_eq_right,
    ExtTreeMap.mem_toList_iff_getElem?_eq_some, Option.isSome_iff_exists]
  constructor
  · rintro ⟨urls, hurls, hempty⟩
    refine ⟨⟨urls, hurls⟩, ?_⟩
    rintro ⟨u, t, hseen⟩
    have hget := getElem?_keepFresh r.shards cutoff s
    rw [hurls, Option.map_some, Option.filter_some, hempty] at hget
    rw [pruneOlderThan, lastSeenAt, hget] at hseen
    cases hseen
  · rintro ⟨⟨urls, hurls⟩, hoff⟩
    refine ⟨urls, hurls, ?_⟩
    by_contra hnot
    have hget := getElem?_keepFresh r.shards cutoff s
    rw [hurls, Option.map_some, Option.filter_some, if_pos (by simpa using hnot)] at hget
    refine noEmpty_keepFresh r.shards cutoff s _ hget (ExtTreeMap.ext_getElem? fun u => ?_)
    rw [ExtTreeMap.getElem?_empty]
    by_contra hsome
    obtain ⟨t, ht⟩ := Option.ne_none_iff_exists'.1 hsome
    refine hoff ⟨u, t, ?_⟩
    rw [pruneOlderThan, lastSeenAt, hget]
    exact ht

theorem onRecord_of_prune {r : ShardRegistry} {cutoff : OffsetDateTime} {s : String} (h : OnRecord (pruneOlderThan r cutoff) s) :
    OnRecord r s := by
  obtain ⟨u, t, ht⟩ := h
  rw [pruneOlderThan, lastSeenAt_keepFresh] at ht
  exact ⟨u, t, (Option.filter_eq_some_iff.1 ht).1⟩

theorem known_of_onRecord {r : ShardRegistry} {s : String} (h : OnRecord r s) : r.shards[s]?.isSome := by
  obtain ⟨u, t, ht⟩ := h
  obtain ⟨urls, hurls, -⟩ := Option.bind_eq_some_iff.1 ht
  rw [hurls]
  rfl

/-- an age is dropped when the shard goes off the record -/
theorem firstSeenAt_prune {r : ShardRegistry} (cutoff : OffsetDateTime) {s : String}
    (hexact : (firstSeenAt r s).isSome ↔ OnRecord r s) :
    (OnRecord (pruneOlderThan r cutoff) s → firstSeenAt (pruneOlderThan r cutoff) s = firstSeenAt r s) ∧
      (¬ OnRecord (pruneOlderThan r cutoff) s → firstSeenAt (pruneOlderThan r cutoff) s = none) := by
  have hget : firstSeenAt (pruneOlderThan r cutoff) s =
      if s ∈ fullyRemoved r.shards cutoff then none else firstSeenAt r s := getElem?_eraseAll _ _ _
  constructor
  · intro hon
    rw [hget, if_neg]
    intro hmem
    exact (mem_fullyRemoved.1 hmem).2 hon
  · intro hoff
    rw [hget]
    by_cases hbefore : OnRecord r s
    · exact if_pos (mem_fullyRemoved.2 ⟨known_of_onRecord hbefore, hoff⟩)
    · rw [Option.not_isSome_iff_eq_none.1 fun hsome => hbefore (hexact.1 hsome), ite_self]

/-! ## Ages along a run -/

theorem ageStep_of_onRecord {r : ShardRegistry} {op : Op} {ages : String → WithTop OffsetDateTime} {s : String}
    (h : OnRecord r s) : ageStep r op ages s = ages s ⊓ op.announced s := if_pos h

theorem ageStep_of_not_onRecord {r : ShardRegistry} {op : Op} {ages : String → WithTop OffsetDateTime} {s : String}
    (h : ¬ OnRecord r s) : ageStep r op ages s = ⊤ := if_neg h

theorem agesFollow_nil : AgesFollow [] := by
  refine ⟨fun s => ?_, ?_⟩
  · have hnone : firstSeenAt (run []) s = none := ExtTreeMap.getElem?_empty
    rw [hnone]
    refine ⟨fun h => (by cases h), ?_⟩
    rintro ⟨u, t, ht⟩
    rw [run, List.foldl_nil, ShardRegistry.empty, lastSeenAt, ExtTreeMap.getElem?_empty] at ht
    cases ht
  · funext s
    exact ExtTreeMap.getElem?_empty

/-- **Pruning** drops the ages with the shards -/
theorem agesFollow_prune {ops : List Op} (h : AgesFollow ops) (cutoff : OffsetDateTime) :
    AgesFollow (ops ++ [.pruneOlderThan cutoff]) := by
  have hstep : run (ops ++ [.pruneOlderThan cutoff]) = pruneOlderThan (run ops) cutoff := run_concat _ _
  have hages : ∀ s, _ := fun s => firstSeenAt_prune cutoff (h.exact s)
  refine ⟨fun s => ?_, ?_⟩
  · rw [hstep]
    by_cases hon : OnRecord (pruneOlderThan (run ops) cutoff) s
    · rw [(hages s).1 hon, h.exact s]
      exact ⟨fun _ => hon, fun _ => onRecord_of_prune hon⟩
    · rw [(hages s).2 hon]
      exact ⟨fun h => (by cases h), fun h => absurd h hon⟩
  · funext s
    rw [freshAges_concat, hstep]
    by_cases hon : OnRecord (pruneOlderThan (run ops) cutoff) s
    · refine Eq.trans ?_ (ageStep_of_onRecord hon).symm
      rw [← h.fresh]
      exact ((hages s).1 hon).trans (inf_top_eq (age (run ops).firstSeen s)).symm
    · exact ((hages s).2 hon).trans (ageStep_of_not_onRecord hon).symm

/-- after a merge, the shards with an age are those that were on record or are announced -/
theorem firstSeenAt_merge_isSome {ops : List Op} (h : AgesFollow ops) (incoming : List ShardAnnouncement) (s : String) :
    (firstSeenAt (merge (run ops) incoming).1 s).isSome ↔ OnRecord (run ops) s ∨ ∃ a ∈ incoming, a.shardId = s := by
  rw [← age_ne_top_iff, age_merge, Pi.inf_apply, ne_eq, inf_eq_top_iff, not_and_or, ← ne_eq, ← ne_eq, age_ne_top_iff, h.exact s,
    earliest_ne_top_iff]

/-- **Merging** keeps the ages in step exactly if the cut leaves every shard a URL -/
theorem agesFollow_merge_iff {ops : List Op} (h : AgesFollow ops) (incoming : List ShardAnnouncement) :
    AgesFollow (ops ++ [.merge incoming]) ↔ KeepsShards (run ops) incoming := by
  have hstep : run (ops ++ [.merge incoming]) = (merge (run ops) incoming).1 := run_concat _ _
  have hsome := firstSeenAt_merge_isSome h incoming
  constructor
  · intro hfollow s hs
    refine onRecord_merge_iff.1 ?_
    rw [← hstep, ← hfollow.exact s, hstep, hsome]
    exact hs
  · intro hkeeps
    have hexact : ∀ s, (firstSeenAt (merge (run ops) incoming).1 s).isSome ↔ OnRecord (merge (run ops) incoming).1 s := by
      intro s
      rw [hsome, onRecord_merge_iff]
      refine ⟨hkeeps s, ?_⟩
      rintro ⟨u, hbound, -⟩
      exact offered_iff.1 ⟨u, hbound⟩
    refine ⟨fun s => ?_, ?_⟩
    · rw [hstep]
      exact hexact s
    · funext s
      rw [freshAges_concat, hstep, age_merge, ← h.fresh]
      by_cases hon : OnRecord (merge (run ops) incoming).1 s
      · refine Eq.trans ?_ (ageStep_of_onRecord (r := step (run ops) (.merge incoming)) hon).symm
        rfl
      · refine Eq.trans ?_ (ageStep_of_not_onRecord (r := step (run ops) (.merge incoming)) hon).symm
        rw [← age_merge]
        by_contra hage
        exact hon ((hexact s).1 (age_ne_top_iff.1 hage))

/-- **A shard that comes back** is judged by what is announced of it now -/
theorem withinGracePeriod_rediscovered {ops : List Op} (h : AgesFollow ops) {incoming : List ShardAnnouncement} {s : String}
    (hoff : ¬ OnRecord (run ops) s) {now : OffsetDateTime} {gracePeriod : ℤ}
    (hrecent : ∀ a ∈ incoming, a.shardId = s → now - a.lastSeenAt < gracePeriod) :
    withinGracePeriod (firstSeenAt (merge (run ops) incoming).1 s) now gracePeriod = true := by
  cases hage : firstSeenAt (merge (run ops) incoming).1 s with
  | none => rfl
  | some t =>
    have hnone : age (run ops).firstSeen s = ⊤ := by
      by_contra hsome
      exact hoff ((h.exact s).1 (age_ne_top_iff.1 hsome))
    have hearliest : earliest incoming s = t := by
      have hmerge := congrFun (age_merge (run ops) incoming) s
      rw [Pi.inf_apply, hnone, top_inf_eq] at hmerge
      exact hmerge.symm.trans hage
    obtain ⟨u, hu⟩ := (earliest_eq_coe_iff.1 hearliest).1
    exact decide_eq_true (hrecent _ hu rfl)

/-! ## The number of `p2p://` URLs -/

/-- the `p2p://` URLs on record -/
def p2pOnRecord (r : ShardRegistry) : Set Key := support (p2pPart (seen r.shards))

theorem finite_p2pOnRecord (r : ShardRegistry) : (p2pOnRecord r).Finite := by
  refine (List.finite_toSet ((sortedP2p r.shards).map fun e => (ofLex e).2)).subset fun k hk => ?_
  by_cases hp2p : isP2p k = true
  · have hpart : p2pPart (seen r.shards) k = seen r.shards k := if_pos hp2p
    obtain ⟨t, ht⟩ := WithBot.ne_bot_iff_exists.1 hk
    rw [hpart] at ht
    exact List.mem_map.2 ⟨toLex (t, k), (mem_sortedP2p r.shards).2 ⟨hp2p, ht.symm⟩, rfl⟩
  · exact absurd (if_neg hp2p) hk

theorem p2pOnRecord_merge (r : ShardRegistry) (incoming : List ShardAnnouncement) :
    (p2pOnRecord (merge r incoming).1).encard ≤ 32 := by
  have hfin : (support (p2pPart (seen r.shards ⊔ newest incoming))).Finite := by
    rw [← seen_mergeEntries]
    exact finite_p2pOnRecord _
  rw [p2pOnRecord, seen_merge, p2pPart_kept]
  exact encard_support_keepTop_le hfin

theorem p2pOnRecord_prune (r : ShardRegistry) (cutoff : OffsetDateTime) :
    p2pOnRecord (pruneOlderThan r cutoff) ⊆ p2pOnRecord r := by
  intro k hk hbot
  refine hk ?_
  by_cases hp2p : isP2p k = true
  · have hnone : lastSeenAt r.shards (ofLex k).1 (ofLex k).2 = none := by
      rw [p2pPart, if_pos hp2p] at hbot
      exact hbot
    rw [p2pPart, if_pos hp2p, seen, pruneOlderThan, lastSeenAt_keepFresh, hnone]
    rfl
  · exact if_neg hp2p

theorem p2pOnRecord_run (ops : List Op) : (p2pOnRecord (run ops)).encard ≤ 32 := by
  induction ops using List.reverseRecOn with
  | nil =>
    have hempty : p2pOnRecord (run []) = ∅ := by
      refine Set.eq_empty_of_forall_notMem fun k hk => hk ?_
      have hnone : seen (run []).shards k = ⊥ := by
        rw [seen, run, List.foldl_nil, ShardRegistry.empty, lastSeenAt, ExtTreeMap.getElem?_empty]
        rfl
      rw [p2pPart, hnone, ite_self]
    rw [hempty, Set.encard_empty]
    exact bot_le
  | append_singleton ops op ih =>
    rw [run_concat]
    cases op with
    | merge incoming => exact p2pOnRecord_merge _ incoming
    | pruneOlderThan cutoff => exact (Set.encard_le_encard (p2pOnRecord_prune _ cutoff)).trans ih

/-- **Ages follow the registry** in every state of a run, with at most 32 `p2p://` URLs on record, exactly if no merge of it
cuts the last URL of a shard -/
theorem ages_follow_iff (ops : List Op) :
    (∀ pre, pre <+: ops → AgesFollow pre ∧ (p2pOnRecord (run pre)).encard ≤ 32) ↔
      ∀ pre incoming, pre ++ [.merge incoming] <+: ops → KeepsShards (run pre) incoming := by
  constructor
  · intro h pre incoming hpre
    exact (agesFollow_merge_iff (h pre ((List.prefix_append _ _).trans hpre)).1 incoming).1 (h _ hpre).1
  · intro h pre hpre
    refine ⟨?_, p2pOnRecord_run pre⟩
    induction pre using List.reverseRecOn with
    | nil => exact agesFollow_nil
    | append_singleton pre op ih =>
      have hfollow := ih ((List.prefix_append _ _).trans hpre)
      cases op with
      | merge incoming => exact (agesFollow_merge_iff hfollow incoming).2 (h pre incoming hpre)
      | pruneOlderThan cutoff => exact agesFollow_prune hfollow cutoff

/-- 33 shards, each with one `p2p://` URL, the first one seen first -/
def manyShards : List ShardAnnouncement :=
  (List.range 33).map fun i => ⟨String.ofList [Char.ofNat (48 + i)], "p2p://a", i⟩

/-- **An age survives the cut**: the shard seen first is cut, and its age stays -/
theorem age_survives_cut : ¬ ∀ ops, AgesFollow ops ∧ (p2pOnRecord (run ops)).encard ≤ 32 := by
  intro h
  have hexact := (h [.merge manyShards]).1.exact "0"
  have hage : (firstSeenAt (run [.merge manyShards]) "0").isSome = true := by decide +kernel
  have hcut : (run [.merge manyShards]).shards["0"]? = none := by decide +kernel
  obtain ⟨u, t, ht⟩ := hexact.1 hage
  rw [lastSeenAt, hcut] at ht
  cases ht

end Avalon.Shards
