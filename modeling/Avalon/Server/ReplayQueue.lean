/-
What the replay cache of node credentials holds (`crates/server/src/node_auth.rs`: `ReplayCache`, `replay_capacity`,
`per_signer_cap`).

Beside the cache stands the list of what it holds: the nonces that were recorded and have not been dropped, oldest first, each with
its signer and the time it was recorded. The five structures of the cache represent this list (`Represents`). A drop of the front
and a recording keep that, whatever the clock does in between.

The source counts and numbers slots in 32 bits: neither a count nor a number of slots exceeds the capacity, which is 2^20 at most
(`replayCapacity_le`).

Results:
- `Represents.forgetFront`, `Represents.expire`, `Represents.record`: what each operation does to the list.
- `replay_cache_represents`: over any calls with any clock readings, the cache represents its list and keeps its caps, and a nonce
  is dropped only by a call whose reading is past its retention; with readings that ascend and a rate that is kept, the share of a
  signer is never used up.
-/
import Mathlib.Tactic
import Mathlib.Data.List.TakeWhile
import Avalon.Core.Bytes
import Avalon.Server.NodeAuth

namespace Avalon.NodeAuth

/-! ## Model -/

def maxReplayEntries : ℕ := 1048576

def perSignerCap (rate : ℕ) : ℕ := 4 * rate + 16

def replayCapacity (standingKeys rate : ℕ) : ℕ := max 1 (min (standingKeys * perSignerCap rate) maxReplayEntries)

theorem replayCapacity_le (standingKeys rate : ℕ) : replayCapacity standingKeys rate ≤ 2 ^ 20 := by
  unfold replayCapacity maxReplayEntries
  omega

/-- a nonce that was recorded: whose it is, the key it is held under, and when that was -/
structure Held where
  signer : PeerId
  key : ℕ
  recordedAt : Int64

def Held.expiresAt (h : Held) : ℤ := saturatingAdd h.recordedAt.toInt replayRetentionSecs

/-- one call on the cache; a nonce that is admitted may be recorded, at a reading of its own -/
inductive Call where
  | isLive (signer : PeerId) (nonce : FixedBytes 16) (now : Int64) (oversized : Bool)
  | admission (signer : PeerId) (nonce : FixedBytes 16) (now : Int64) (oversized : Bool) (recordedAt : Option Int64)

/-- the reading at which a call drops what has expired -/
def Call.now : Call → ℤ
  | .isLive _ _ now _ => now.toInt
  | .admission _ _ now _ _ => now.toInt

/-- the readings of a call, in their order -/
def Call.readings : Call → List ℤ
  | .isLive _ _ now _ => [now.toInt]
  | .admission _ _ now _ recordedAt => now.toInt :: (recordedAt.map Int64.toInt).toList

/-- the cache, what it holds, and all that was ever recorded -/
structure Cached where
  cache : ReplayCache
  held : List Held
  history : List Held

def Cached.start (maxTotal maxPerSigner : ℕ) : Cached := ⟨.new maxTotal maxPerSigner, [], []⟩

/-- what is left of the front when the expired entries at the front are dropped -/
def unexpired (now : ℤ) (held : List Held) : List Held := held.dropWhile fun h => decide (h.expiresAt ≤ now)

def Cached.call (s : Cached) : Call → Cached
  | .isLive signer nonce now oversized => ⟨(s.cache.isLive signer nonce now.toInt oversized).1, unexpired now.toInt s.held, s.history⟩
  | .admission signer nonce now oversized recordedAt =>
    let held := unexpired now.toInt s.held
    match s.cache.admitNonce signer nonce now.toInt oversized, recordedAt with
    | (cache, .ok ()), some recordedAt =>
      let new : Held := ⟨signer, nonceKey signer nonce, recordedAt⟩
      ⟨cache.record signer nonce recordedAt.toInt, held ++ [new], s.history ++ [new]⟩
    | (cache, _), _ => ⟨cache, held, s.history⟩

def Cached.calls (s : Cached) (cs : List Call) : Cached := cs.foldl Cached.call s

/-- the nonces of one signer -/
def share (signer : PeerId) (held : List Held) : ℕ := (held.filter fun h => decide (h.signer = signer)).length

/-- an entry of the queue stands for a held nonce, and its slot is that of the signer -/
structure EntryOf (c : ReplayCache) (q : Queued) (h : Held) : Prop where
  expiresAt : q.expiresAt = h.expiresAt
  key : q.key = h.key
  slot : c.slots[q.slot]? = some (some h.signer)

/-- the structures of the cache stand for what it holds: the keys are those of the queue, each once; slots and signers go one to
one, and each slot is free or taken; a signer's count is its share, and not zero -/
structure Represents (c : ReplayCache) (held : List Held) : Prop extends c.Ok where
  entries : List.Forall₂ (EntryOf c) c.order held
  signers : ∀ signer slot, (∃ n, c.perSigner signer = some (slot, n)) ↔ c.slots[slot]? = some (some signer)
  counts : ∀ signer slot n, c.perSigner signer = some (slot, n) → n = share signer held ∧ 0 < n
  freeNodup : c.freeSlots.Nodup
  free : ∀ slot, slot ∈ c.freeSlots ↔ c.slots[slot]? = some none

/-- the caps, and that there are no more slots than the cache may hold entries -/
structure WithinCaps (c : ReplayCache) (held : List Held) : Prop where
  total : held.length ≤ c.maxTotal
  shares : ∀ signer, share signer held ≤ c.maxPerSigner
  slots : c.slots.length ≤ c.maxTotal

/-! ## Dropping the front -/

theorem share_cons (signer : PeerId) (h : Held) (held : List Held) :
    share signer (h :: held) = (if h.signer = signer then 1 else 0) + share signer held := by
  unfold share
  rw [List.filter_cons]
  split_ifs with h1 h2 h2
  · rw [List.length_cons]
    omega
  · exact absurd (of_decide_eq_true h1) h2
  · exact absurd (decide_eq_true h2) h1
  · omega

theorem share_append (signer : PeerId) (held held' : List Held) :
    share signer (held ++ held') = share signer held + share signer held' := by
  rw [share, List.filter_append, List.length_append]
  rfl

/-- a signer with no share holds nothing -/
theorem ne_of_share_eq_zero {signer : PeerId} {held : List Held} (h : share signer held = 0) {x : Held} (hx : x ∈ held) :
    x.signer ≠ signer := by
  rw [share, List.length_eq_zero_iff, List.filter_eq_nil_iff] at h
  exact fun heq => h x hx (decide_eq_true heq)

theorem forgetFront_frame (c : ReplayCache) : c.forgetFront.maxTotal = c.maxTotal ∧
    c.forgetFront.maxPerSigner = c.maxPerSigner ∧ c.forgetFront.slots.length = c.slots.length := by
  unfold ReplayCache.forgetFront ReplayCache.releaseSlot
  split
  · exact ⟨rfl, rfl, rfl⟩
  · dsimp only
    split
    · exact ⟨rfl, rfl, rfl⟩
    · split
      · exact ⟨rfl, rfl, rfl⟩
      · split_ifs
        · exact ⟨rfl, rfl, List.length_set⟩
        · exact ⟨rfl, rfl, rfl⟩

theorem expireLoop_frame (now : ℤ) (fuel : ℕ) (c : ReplayCache) : (ReplayCache.expireLoop now fuel c).maxTotal = c.maxTotal ∧
    (ReplayCache.expireLoop now fuel c).maxPerSigner = c.maxPerSigner ∧
    (ReplayCache.expireLoop now fuel c).slots.length = c.slots.length := by
  induction fuel generalizing c with
  | zero => exact ⟨rfl, rfl, rfl⟩
  | succ fuel ih =>
    rw [ReplayCache.expireLoop]
    split_ifs
    · obtain ⟨h1, h2, h3⟩ := ih c.forgetFront
      obtain ⟨g1, g2, g3⟩ := forgetFront_frame c
      exact ⟨h1.trans g1, h2.trans g2, h3.trans g3⟩
    · exact ⟨rfl, rfl, rfl⟩

theorem expire_caps (c : ReplayCache) (now : ℤ) (oversized : Bool) :
    (c.expire now oversized).maxTotal = c.maxTotal ∧ (c.expire now oversized).maxPerSigner = c.maxPerSigner := by
  obtain ⟨h1, h2, -⟩ := expireLoop_frame now c.order.length c
  unfold ReplayCache.expire
  dsimp only
  split_ifs <;> exact ⟨h1, h2⟩

theorem expire_slots (c : ReplayCache) (now : ℤ) (oversized : Bool) : (c.expire now oversized).slots.length ≤ c.slots.length := by
  obtain ⟨-, -, h3⟩ := expireLoop_frame now c.order.length c
  unfold ReplayCache.expire
  dsimp only
  split_ifs
  · exact Nat.zero_le _
  · exact h3.le

namespace Represents

variable {c : ReplayCache} {held : List Held}

theorem length_eq (h : Represents c held) : c.order.length = held.length := h.entries.length_eq

theorem keys_eq (h : Represents c held) : c.order.map Queued.key = held.map Held.key := by
  have hkeys : List.Forall₂ (fun q x => Queued.key q = Held.key x) c.order held := h.entries.imp fun _ _ hentry => hentry.key
  rw [← List.forall₂_eq_eq_eq, List.forall₂_map_left_iff, List.forall₂_map_right_iff]
  exact hkeys

/-- as many keys are seen as nonces are held -/
theorem card_seen (h : Represents c held) : c.seen.card = held.length := by
  have hseen : c.seen = (c.order.map Queued.key).toFinset := by
    ext key
    rw [List.mem_toFinset]
    exact h.mem_seen key
  rw [hseen, List.toFinset_card_of_nodup h.distinct, List.length_map, h.length_eq]

/-- the count that the cache has for a signer -/
theorem count_eq (h : Represents c held) (signer : PeerId) : ((c.perSigner signer).map Prod.snd).getD 0 = share signer held := by
  cases hs : c.perSigner signer with
  | some entry =>
    obtain ⟨slot, n⟩ := entry
    exact (h.counts signer slot n hs).1
  | none =>
    have hnone : ∀ x ∈ held, x.signer ≠ signer := by
      rintro x hx rfl
      obtain ⟨i, hi, rfl⟩ := List.mem_iff_getElem.1 hx
      have hi' : i < c.order.length := by rw [h.length_eq]; exact hi
      have hentry := h.entries.get hi' hi
      obtain ⟨n, hn⟩ := (h.signers _ _).2 hentry.slot
      simp only [List.get_eq_getElem] at hn
      rw [hs] at hn
      cases hn
    have hzero : share signer held = 0 := by
      rw [share, List.length_eq_zero_iff, List.filter_eq_nil_iff]
      exact fun x hx => by simpa using hnone x hx
    rw [hzero]
    rfl

/-- the front of the queue is of a signer that has a slot and a count, so that taking one off it is in range -/
theorem front_slot (h : Represents c held) {front : Queued} {rest : List Queued} (horder : c.order = front :: rest) :
    ∃ x xs, held = x :: xs ∧ EntryOf c front x ∧ List.Forall₂ (EntryOf c) rest xs ∧
      c.perSigner x.signer = some (front.slot, share x.signer held) ∧ 0 < share x.signer held := by
  have hentries := h.entries
  rw [horder, List.forall₂_cons_left_iff] at hentries
  obtain ⟨x, xs, hx, hxs, rfl⟩ := hentries
  obtain ⟨n, hn⟩ := (h.signers x.signer front.slot).2 hx.slot
  obtain ⟨rfl, hpos⟩ := h.counts _ _ _ hn
  exact ⟨x, xs, rfl, hx, hxs, hn, hpos⟩

/-- the entries that are left keep their slots, if these keep their signers -/
theorem entries_of_slots {c' : ReplayCache} {order : List Queued} {xs : List Held} (h : List.Forall₂ (EntryOf c) order xs)
    (hslots : ∀ q ∈ order, ∀ signer, signer ∈ xs.map Held.signer → c.slots[q.slot]? = some (some signer) →
      c'.slots[q.slot]? = some (some signer)) : List.Forall₂ (EntryOf c') order xs := by
  induction h with
  | nil => exact .nil
  | @cons q x order xs hq _ ih =>
    have hx := hslots q List.mem_cons_self x.signer (by simp) hq.slot
    refine .cons ⟨hq.expiresAt, hq.key, hx⟩ (ih ?_)
    exact fun q' hq' signer hsigner => hslots q' (List.mem_cons_of_mem _ hq') signer (List.mem_cons_of_mem _ hsigner)

/-- **Dropping the front** drops the oldest nonce that is held -/
theorem forgetFront (h : Represents c held) : Represents c.forgetFront held.tail := by
  have hok := h.toOk.forgetFront
  unfold ReplayCache.forgetFront at hok ⊢
  split at hok
  · rename_i horder
    have hnil : held = [] := by
      have hlength := h.length_eq
      rw [horder] at hlength
      exact List.length_eq_zero_iff.1 hlength.symm
    rw [hnil] at h ⊢
    exact h
  · rename_i front rest horder
    obtain ⟨x, xs, rfl, hx, hxs, hcount, hpos⟩ := h.front_slot horder
    rw [List.tail_cons]
    rw [share_cons, if_pos rfl] at hcount hpos
    have hslot := hx.slot
    have hsigner : c.slots[front.slot]?.join = some x.signer := by rw [hslot]; rfl
    unfold ReplayCache.releaseSlot at hok ⊢
    dsimp only at hok ⊢
    simp only [hsigner, hcount] at hok ⊢
    by_cases hlast : 1 + share x.signer xs - 1 = 0
    · -- the signer holds no other nonce: its slot is free again
      simp only [hlast, if_true] at hok ⊢
      have hzero : share x.signer xs = 0 := by omega
      have hlt : front.slot < c.slots.length := (List.getElem?_eq_some_iff.1 hslot).1
      have hset : ∀ slot, (c.slots.set front.slot none)[slot]? = if front.slot = slot then some none else c.slots[slot]? := by
        intro slot
        rw [List.getElem?_set]
        split_ifs <;> rfl
      have hother : ∀ slot signer, signer ≠ x.signer → c.slots[slot]? = some (some signer) → front.slot ≠ slot := by
        rintro slot signer hne hsome rfl
        rw [hslot] at hsome
        exact hne (Option.some.inj (Option.some.inj hsome)).symm
      refine ⟨hok, ?_, ?_, ?_, ?_, ?_⟩
      · apply entries_of_slots hxs
        intro q _ signer hsigner hq
        obtain ⟨y, hy, rfl⟩ := List.mem_map.1 hsigner
        dsimp only
        rw [hset, if_neg (hother _ _ (ne_of_share_eq_zero hzero hy) hq)]
        exact hq
      · intro signer slot
        rw [hset]
        by_cases hs : signer = x.signer
        · subst hs
          simp only [Function.update_self, reduceCtorEq, exists_false, false_iff]
          split_ifs with heq
          · simp
          · intro hsome
            obtain ⟨n, hn⟩ := (h.signers _ _).2 hsome
            rw [hcount] at hn
            exact heq (Prod.mk.inj (Option.some.inj hn)).1
        · dsimp only
          rw [Function.update_of_ne hs, h.signers]
          split_ifs with heq
          · refine ⟨fun hsome => absurd heq (hother _ _ hs hsome), fun hsome => ?_⟩
            cases hsome
          · rfl
      · intro signer slot n hn
        by_cases hs : signer = x.signer
        · subst hs
          simp at hn
        · dsimp only at hn
          rw [Function.update_of_ne hs] at hn
          have hcounts := h.counts signer slot n hn
          rw [share_cons, if_neg (Ne.symm hs), Nat.zero_add] at hcounts
          exact hcounts
      · refine List.nodup_cons.2 ⟨fun hmem => ?_, h.freeNodup⟩
        rw [h.free, hslot] at hmem
        cases hmem
      · intro slot
        rw [List.mem_cons, hset, h.free]
        by_cases heq : front.slot = slot
        · simp [heq]
        · simp [heq, Ne.symm heq]
    · -- the count of the signer is one less
      simp only [hlast, if_false] at hok ⊢
      refine ⟨hok, entries_of_slots hxs fun _ _ _ _ hq => hq, ?_, ?_, h.freeNodup, h.free⟩
      · intro signer slot
        by_cases hs : signer = x.signer
        · subst hs
          rw [← h.signers]
          simp [hcount]
        · dsimp only
          rw [Function.update_of_ne hs, h.signers]
      · intro signer slot n hn
        by_cases hs : signer = x.signer
        · subst hs
          simp only [Function.update_self, Option.some.injEq, Prod.mk.injEq] at hn
          omega
        · dsimp only at hn
          rw [Function.update_of_ne hs] at hn
          have hcounts := h.counts signer slot n hn
          rw [share_cons, if_neg (Ne.symm hs), Nat.zero_add] at hcounts
          exact hcounts

/-- after any number of drops, all in range -/
theorem forgetFront_iterate (h : Represents c held) (k : ℕ) : Represents (ReplayCache.forgetFront^[k] c) (held.drop k) := by
  induction k with
  | zero => exact h
  | succ k ih =>
    rw [Function.iterate_succ_apply', ← List.tail_drop]
    exact ih.forgetFront

theorem new (maxTotal maxPerSigner : ℕ) : Represents (.new maxTotal maxPerSigner) [] where
  toOk := ReplayCache.ok_new _ _
  entries := .nil
  signers := by simp [ReplayCache.new]
  counts := by simp [ReplayCache.new]
  freeNodup := List.nodup_nil
  free := by simp [ReplayCache.new]

theorem expireLoop (h : Represents c held) (now : ℤ) (fuel : ℕ) (hfuel : held.length ≤ fuel) :
    Represents (ReplayCache.expireLoop now fuel c) (unexpired now held) := by
  induction fuel generalizing c held with
  | zero =>
    obtain rfl := List.length_eq_zero_iff.1 (Nat.le_zero.1 hfuel)
    exact h
  | succ fuel ih =>
    rw [ReplayCache.expireLoop]
    cases horder : c.order with
    | nil =>
      have hlength := h.length_eq
      rw [horder] at hlength
      obtain rfl := List.length_eq_zero_iff.1 hlength.symm
      exact h
    | cons front rest =>
      obtain ⟨x, xs, rfl, hx, -⟩ := h.front_slot horder
      rw [List.head?_cons, Option.any_some, hx.expiresAt, unexpired, List.dropWhile_cons]
      split_ifs
      · exact ih h.forgetFront (by simpa using hfuel)
      · exact h

/-- **Expiry** drops the nonces at the front that are past their retention -/
theorem expire (h : Represents c held) (now : ℤ) (oversized : Bool) :
    Represents (c.expire now oversized) (unexpired now held) := by
  have hloop := h.expireLoop now c.order.length h.length_eq.ge
  unfold ReplayCache.expire
  dsimp only
  split_ifs with hempty
  · -- an emptied cache starts over
    rw [Bool.and_eq_true, List.isEmpty_iff] at hempty
    have hlength := hloop.length_eq
    rw [hempty.1] at hlength
    rw [List.length_eq_zero_iff.1 hlength.symm]
    exact new _ _
  · exact hloop

/-! ## Recording -/

/-- the entries that are held, and one more -/
theorem entries_concat {c' : ReplayCache} {order : List Queued} {q : Queued} {x : Held} (h : List.Forall₂ (EntryOf c) order held)
    (hslots : ∀ (slot : ℕ) (signer : PeerId), c.slots[slot]? = some (some signer) → c'.slots[slot]? = some (some signer)) (hnew : EntryOf c' q x) :
    List.Forall₂ (EntryOf c') (order ++ [q]) (held ++ [x]) :=
  List.rel_append (entries_of_slots h fun q _ _ _ hq => hslots q.slot _ hq) (.cons hnew .nil)

/-- a signer without a slot gets one that was free or is new -/
theorem giveSlot (h : Represents c held) {signer : PeerId} (hs : c.perSigner signer = none) {c' : ReplayCache} (hok : c'.Ok)
    {slot : ℕ} {key : ℕ} {recordedAt : Int64}
    (horder : c'.order = c.order ++ [⟨saturatingAdd recordedAt.toInt replayRetentionSecs, key, slot⟩])
    (hsigner : c'.perSigner = Function.update c.perSigner signer (some (slot, 1))) (hslot : c'.slots[slot]? = some (some signer))
    (hsame : ∀ i : ℕ, i ≠ slot → c'.slots[i]? = c.slots[i]?) (hfresh : ∀ s : PeerId, c.slots[slot]? ≠ some (some s))
    (hnodup : c'.freeSlots.Nodup) (hfree : ∀ i, i ∈ c'.freeSlots ↔ i ≠ slot ∧ i ∈ c.freeSlots) :
    Represents c' (held ++ [⟨signer, key, recordedAt⟩]) := by
  have hzero : share signer held = 0 := by
    rw [← h.count_eq, hs]
    rfl
  have htaken : ∀ (i : ℕ) (s : PeerId), c.slots[i]? = some (some s) → i ≠ slot := by
    rintro i s hi rfl
    exact hfresh s hi
  refine ⟨hok, ?_, ?_, ?_, hnodup, ?_⟩
  · rw [horder]
    exact entries_concat h.entries (fun i s hi => by rw [hsame i (htaken i s hi), hi]) ⟨rfl, rfl, hslot⟩
  · intro s i
    rw [hsigner]
    by_cases hss : s = signer
    · subst hss
      rw [Function.update_self]
      by_cases hi : i = slot
      · rw [hi, hslot]
        simp
      · rw [hsame i hi, ← h.signers, hs]
        simp [Ne.symm hi]
    · rw [Function.update_of_ne hss, h.signers]
      by_cases hi : i = slot
      · rw [hi, hslot]
        refine ⟨fun hsome => absurd hsome (hfresh s), fun hsome => ?_⟩
        exact absurd (Option.some.inj (Option.some.inj hsome)).symm hss
      · rw [hsame i hi]
  · intro s i n hn
    rw [hsigner] at hn
    by_cases hss : s = signer
    · subst hss
      rw [Function.update_self, Option.some.injEq, Prod.mk.injEq] at hn
      rw [share_append, share_cons, if_pos rfl, hzero, ← hn.2]
      exact ⟨rfl, Nat.one_pos⟩
    · rw [Function.update_of_ne hss] at hn
      have hcounts := h.counts _ _ _ hn
      rw [share_append, share_cons, if_neg (Ne.symm hss)]
      exact hcounts
  · intro i
    rw [hfree, h.free]
    by_cases hi : i = slot
    · rw [hi, hslot]
      simp
    · rw [hsame i hi]
      simp [hi]

/-- **A recording** adds a nonce that is not held -/
theorem record (h : Represents c held) {signer : PeerId} {nonce : FixedBytes 16} (hnew : nonceKey signer nonce ∉ c.seen)
    (recordedAt : Int64) : Represents (c.record signer nonce recordedAt.toInt) (held ++ [⟨signer, nonceKey signer nonce, recordedAt⟩]) := by
  have hok := h.toOk.record hnew recordedAt.toInt
  unfold ReplayCache.record ReplayCache.takeSlot at hok ⊢
  cases hs : c.perSigner signer with
  | some entry =>
    obtain ⟨slot, n⟩ := entry
    have hslot : c.slots[slot]? = some (some signer) := (h.signers _ _).1 ⟨n, hs⟩
    simp only [hs] at hok ⊢
    refine ⟨hok, entries_concat h.entries (fun _ _ hq => hq) ⟨rfl, rfl, hslot⟩, ?_, ?_, h.freeNodup, h.free⟩
    · intro signer' slot'
      by_cases hsigner : signer' = signer
      · subst hsigner
        rw [← h.signers]
        simp [hs]
      · dsimp only
        rw [Function.update_of_ne hsigner, h.signers]
    · intro signer' slot' n' hn
      dsimp only at hn
      by_cases hsigner : signer' = signer
      · subst hsigner
        obtain ⟨hcount, -⟩ := h.counts _ _ _ hs
        rw [Function.update_self, Option.some.injEq, Prod.mk.injEq] at hn
        rw [share_append, share_cons, if_pos rfl]
        have hnil : share signer' [] = 0 := rfl
        omega
      · rw [Function.update_of_ne hsigner] at hn
        have hcounts := h.counts _ _ _ hn
        rw [share_append, share_cons, if_neg (Ne.symm hsigner)]
        exact hcounts
  | none =>
    simp only [hs] at hok ⊢
    cases hfree : c.freeSlots with
    | cons slot rest =>
      simp only [hfree] at hok ⊢
      have hslot : c.slots[slot]? = some none := (h.free slot).1 (by simp [hfree])
      have hlt : slot < c.slots.length := (List.getElem?_eq_some_iff.1 hslot).1
      have hnodup := h.freeNodup
      rw [hfree, List.nodup_cons] at hnodup
      refine h.giveSlot hs hok rfl rfl ?_ ?_ ?_ hnodup.2 ?_
      · exact List.getElem?_set_self hlt
      · exact fun i hi => List.getElem?_set_ne (Ne.symm hi)
      · simp [hslot]
      · intro i
        rw [hfree, List.mem_cons]
        refine ⟨fun hi => ⟨?_, .inr hi⟩, fun hi => hi.2.resolve_left hi.1⟩
        rintro rfl
        exact hnodup.1 hi
    | nil =>
      simp only [hfree] at hok ⊢
      have hend : (c.slots ++ [none]).length = c.slots.length + 1 := by simp
      refine h.giveSlot hs hok rfl rfl ?_ ?_ ?_ List.nodup_nil ?_
      · exact List.getElem?_set_self (by omega)
      · intro i hi
        rw [List.getElem?_set_ne (Ne.symm hi), List.getElem?_append]
        split_ifs with hlt
        · rfl
        · rw [List.getElem?_eq_none (by simp; omega), List.getElem?_eq_none (by omega)]
      · simp
      · simp [hfree]

/-- **Whether a nonce is admitted** is a matter of what is held -/
theorem admit_eq (h : Represents c held) (signer : PeerId) (nonce : FixedBytes 16) (now : ℤ) (oversized : Bool) :
    c.admitNonce signer nonce now oversized = (c.expire now oversized,
      if nonceKey signer nonce ∈ (unexpired now held).map Held.key then .error .replay
      else if c.maxPerSigner ≤ share signer (unexpired now held) then .error .rateLimited
      else if c.maxTotal ≤ (unexpired now held).length then .error .replayCacheFull
      else .ok ()) := by
  have hexpired := h.expire now oversized
  have hcaps := expire_caps c now oversized
  unfold ReplayCache.admitNonce ReplayCache.isLive
  dsimp only
  simp only [decide_eq_true_eq, hexpired.mem_seen, hexpired.keys_eq, hexpired.count_eq, hexpired.card_seen, hcaps.1, hcaps.2]
  split_ifs <;> rfl

/-- where no slot is free, there are no more of them than nonces -/
theorem slots_le (h : Represents c held) (hfree : c.freeSlots = []) : c.slots.length ≤ held.length := by
  have htaken : ∀ i < c.slots.length, ∃ signer, c.slots[i]? = some (some signer) := by
    intro i hi
    cases hsigner : c.slots[i] with
    | none =>
      have hmem : i ∈ c.freeSlots := (h.free i).2 (by rw [List.getElem?_eq_getElem hi, hsigner])
      rw [hfree] at hmem
      cases hmem
    | some signer => exact ⟨signer, by rw [List.getElem?_eq_getElem hi, hsigner]⟩
  choose! signerAt hsignerAt using htaken
  have hinj : Set.InjOn signerAt (Finset.range c.slots.length) := by
    intro i hi j hj heq
    have hi' := hsignerAt i (Finset.mem_range.1 (Finset.mem_coe.1 hi))
    have hj' := hsignerAt j (Finset.mem_range.1 (Finset.mem_coe.1 hj))
    obtain ⟨n, hn⟩ := (h.signers _ _).2 hi'
    obtain ⟨m, hm⟩ := (h.signers _ _).2 hj'
    rw [heq, hm] at hn
    exact (Prod.mk.inj (Option.some.inj hn)).1.symm
  have hmaps : Set.MapsTo signerAt (Finset.range c.slots.length) ((held.map Held.signer).toFinset : Finset PeerId) := by
    intro i hi
    have hi' := hsignerAt i (Finset.mem_range.1 (Finset.mem_coe.1 hi))
    obtain ⟨n, hn⟩ := (h.signers _ _).2 hi'
    obtain ⟨rfl, hpos⟩ := h.counts _ _ _ hn
    obtain ⟨x, hx⟩ := List.exists_mem_of_length_pos hpos
    obtain ⟨hx, hsigner⟩ := List.mem_filter.1 hx
    rw [Finset.mem_coe, List.mem_toFinset]
    exact List.mem_map.2 ⟨x, hx, of_decide_eq_true hsigner⟩
  calc c.slots.length = (Finset.range c.slots.length).card := (Finset.card_range _).symm
    _ ≤ (held.map Held.signer).toFinset.card := Finset.card_le_card_of_injOn signerAt hmaps hinj
    _ ≤ (held.map Held.signer).length := List.toFinset_card_le _
    _ = held.length := List.length_map _

end Represents

/-! ## Caps -/

theorem share_le_of_sublist {held held' : List Held} (h : held.Sublist held') (signer : PeerId) :
    share signer held ≤ share signer held' := (h.filter _).length_le

theorem unexpired_sublist (now : ℤ) (held : List Held) : (unexpired now held).Sublist held := List.dropWhile_sublist _

theorem WithinCaps.expire {c : ReplayCache} {held : List Held} (h : WithinCaps c held) (now : ℤ) (oversized : Bool) :
    WithinCaps (c.expire now oversized) (unexpired now held) := by
  have hcaps := expire_caps c now oversized
  refine ⟨?_, fun signer => ?_, ?_⟩
  · rw [hcaps.1]
    exact (unexpired_sublist now held).length_le.trans h.total
  · rw [hcaps.2]
    exact (share_le_of_sublist (unexpired_sublist now held) signer).trans (h.shares signer)
  · rw [hcaps.1]
    exact (expire_slots c now oversized).trans h.slots

theorem WithinCaps.record {c : ReplayCache} {held : List Held} (h : WithinCaps c held) (hrep : Represents c held) {signer : PeerId}
    (hshare : share signer held < c.maxPerSigner) (htotal : held.length < c.maxTotal) (nonce : FixedBytes 16) (recordedAt : Int64) :
    WithinCaps (c.record signer nonce recordedAt.toInt) (held ++ [⟨signer, nonceKey signer nonce, recordedAt⟩]) := by
  have hcaps : (c.record signer nonce recordedAt.toInt).maxTotal = c.maxTotal ∧
      (c.record signer nonce recordedAt.toInt).maxPerSigner = c.maxPerSigner := by
    unfold ReplayCache.record ReplayCache.takeSlot
    cases c.perSigner signer <;> exact ⟨rfl, rfl⟩
  refine ⟨?_, fun s => ?_, ?_⟩
  · rw [hcaps.1, List.length_append, List.length_singleton]
    exact htotal
  · rw [hcaps.2, share_append, share_cons]
    have hnil : share s [] = 0 := rfl
    by_cases hs : signer = s
    · subst hs
      rw [if_pos rfl]
      omega
    · rw [if_neg hs]
      exact h.shares s
  · rw [hcaps.1]
    have hslots := h.slots
    unfold ReplayCache.record ReplayCache.takeSlot
    cases c.perSigner signer with
    | some entry => exact hslots
    | none =>
      cases hfree : c.freeSlots with
      | cons slot rest => simpa using hslots
      | nil =>
        -- every slot is taken, by a signer with a nonce
        have hle := hrep.slots_le hfree
        simp only [List.length_set, List.length_append, List.length_singleton]
        omega

/-! ## Calls -/

/-- what holds after any calls on a cache with those caps -/
structure CachedInv (maxTotal maxPerSigner : ℕ) (s : Cached) : Prop where
  represents : Represents s.cache s.held
  caps : WithinCaps s.cache s.held
  maxTotal : s.cache.maxTotal = maxTotal
  maxPerSigner : s.cache.maxPerSigner = maxPerSigner
  history : s.held.Sublist s.history

variable {maxTotal maxPerSigner : ℕ} {s : Cached}

theorem cachedInv_start (maxTotal maxPerSigner : ℕ) : CachedInv maxTotal maxPerSigner (.start maxTotal maxPerSigner) where
  represents := Represents.new _ _
  caps := ⟨Nat.zero_le _, fun _ => Nat.zero_le _, Nat.zero_le _⟩
  maxTotal := rfl
  maxPerSigner := rfl
  history := List.Sublist.refl _

/-- a call that drops and records nothing -/
theorem CachedInv.expire (h : CachedInv maxTotal maxPerSigner s) (now : ℤ) (oversized : Bool) :
    CachedInv maxTotal maxPerSigner ⟨s.cache.expire now oversized, unexpired now s.held, s.history⟩ where
  represents := h.represents.expire now oversized
  caps := h.caps.expire now oversized
  maxTotal := (expire_caps _ _ _).1.trans h.maxTotal
  maxPerSigner := (expire_caps _ _ _).2.trans h.maxPerSigner
  history := (unexpired_sublist now s.held).trans h.history

/-- what an admission with a recording does: nothing but drop, or drop and add the nonce -/
theorem admit_cases (h : CachedInv maxTotal maxPerSigner s) (signer : PeerId) (nonce : FixedBytes 16) (now : Int64)
    (oversized : Bool) (recordedAt : Option Int64) :
    s.call (.admission signer nonce now oversized recordedAt) =
      ⟨s.cache.expire now.toInt oversized, unexpired now.toInt s.held, s.history⟩ ∨
    ∃ time, recordedAt = some time ∧ nonceKey signer nonce ∉ (s.cache.expire now.toInt oversized).seen ∧
      share signer (unexpired now.toInt s.held) < maxPerSigner ∧ (unexpired now.toInt s.held).length < maxTotal ∧
      s.call (.admission signer nonce now oversized recordedAt) =
        ⟨(s.cache.expire now.toInt oversized).record signer nonce time.toInt,
          unexpired now.toInt s.held ++ [⟨signer, nonceKey signer nonce, time⟩], s.history ++ [⟨signer, nonceKey signer nonce, time⟩]⟩ := by
  have hexpired := h.represents.expire now.toInt oversized
  simp only [Cached.call, h.represents.admit_eq, h.maxTotal, h.maxPerSigner]
  split_ifs with hseen hshare htotal
  · exact .inl rfl
  · exact .inl rfl
  · exact .inl rfl
  · cases recordedAt with
    | none => exact .inl rfl
    | some time =>
      refine .inr ⟨time, rfl, ?_, not_le.1 hshare, not_le.1 htotal, rfl⟩
      rw [hexpired.mem_seen, hexpired.keys_eq]
      exact hseen

theorem CachedInv.call (h : CachedInv maxTotal maxPerSigner s) (c : Call) : CachedInv maxTotal maxPerSigner (s.call c) := by
  cases c with
  | isLive signer nonce now oversized => exact h.expire now.toInt oversized
  | admission signer nonce now oversized recordedAt =>
    have hexpired := h.expire now.toInt oversized
    rcases admit_cases h signer nonce now oversized recordedAt with heq | ⟨time, -, hseen, hshare, htotal, heq⟩
    · rw [heq]
      exact hexpired
    · rw [heq]
      have hshare' : share signer (unexpired now.toInt s.held) < (s.cache.expire now.toInt oversized).maxPerSigner := by
        rw [hexpired.maxPerSigner]
        exact hshare
      have hcaps := hexpired.caps.record hexpired.represents hshare' (by rw [hexpired.maxTotal]; exact htotal) nonce time
      have hframe : ∀ c : ReplayCache, (c.record signer nonce time.toInt).maxTotal = c.maxTotal ∧
          (c.record signer nonce time.toInt).maxPerSigner = c.maxPerSigner := by
        intro c
        unfold ReplayCache.record ReplayCache.takeSlot
        cases c.perSigner signer <;> exact ⟨rfl, rfl⟩
      exact ⟨hexpired.represents.record hseen time, hcaps, (hframe _).1.trans hexpired.maxTotal,
        (hframe _).2.trans hexpired.maxPerSigner, hexpired.history.append (List.Sublist.refl _)⟩

theorem CachedInv.calls (h : CachedInv maxTotal maxPerSigner s) (cs : List Call) :
    CachedInv maxTotal maxPerSigner (s.calls cs) := by
  induction cs generalizing s with
  | nil => exact h
  | cons c cs ih => exact ih (h.call c)

/-- what a call drops is past its retention -/
theorem expired_of_dropped (h : CachedInv maxTotal maxPerSigner s) (c : Call) {x : Held} (hx : x ∈ s.held)
    (hdropped : x ∉ (s.call c).held) : x.expiresAt ≤ c.now := by
  have hfront : x ∉ unexpired c.now s.held := by
    cases c with
    | isLive signer nonce now oversized => exact hdropped
    | admission signer nonce now oversized recordedAt =>
      rcases admit_cases h signer nonce now oversized recordedAt with heq | ⟨time, -, -, -, -, heq⟩
      · rw [heq] at hdropped
        exact hdropped
      · rw [heq] at hdropped
        exact fun hmem => hdropped (List.mem_append_left _ hmem)
  rw [← List.takeWhile_append_dropWhile (p := fun h => decide (h.expiresAt ≤ c.now)) (l := s.held), List.mem_append] at hx
  rcases hx with hx | hx
  · have hpast := List.mem_takeWhile_imp hx
    simpa using hpast
  · exact absurd hx hfront

/-! ## Shares -/

/-- the nonces that a signer recorded in a minute -/
def recordedIn (signer : PeerId) (minute : ℤ) (history : List Held) : ℕ :=
  (history.filter fun h => decide (h.signer = signer ∧ h.recordedAt.toInt / 60 = minute)).length

/-- the recordings of a run, at readings of its calls, in their order -/
theorem history_readings (h : CachedInv maxTotal maxPerSigner s) (cs : List Call) :
    ((s.calls cs).history.map fun h => h.recordedAt.toInt).Sublist
      ((s.history.map fun h => h.recordedAt.toInt) ++ cs.flatMap Call.readings) := by
  induction cs generalizing s with
  | nil => simp [Cached.calls]
  | cons c cs ih =>
    have hone : ((s.call c).history.map fun h => h.recordedAt.toInt).Sublist
        ((s.history.map fun h => h.recordedAt.toInt) ++ c.readings) := by
      cases c with
      | isLive signer nonce now oversized => exact List.sublist_append_left _ _
      | admission signer nonce now oversized recordedAt =>
        rcases admit_cases h signer nonce now oversized recordedAt with heq | ⟨time, rfl, -, -, -, heq⟩
        · rw [heq]
          exact List.sublist_append_left _ _
        · rw [heq, List.map_append]
          exact (List.Sublist.refl _).append (List.sublist_cons_self _ _)
    rw [List.flatMap_cons, ← List.append_assoc]
    exact (ih (h.call c)).trans (hone.append (List.Sublist.refl _))

/-- in a list in the order of recording, what is left when the front has not expired has not expired -/
theorem lt_expiresAt_of_unexpired {held : List Held} (hsorted : (held.map fun h => h.recordedAt.toInt).Pairwise (· ≤ ·)) {now : ℤ}
    {x : Held} (hx : x ∈ unexpired now held) : now < x.expiresAt := by
  induction held with
  | nil => cases hx
  | cons h held ih =>
    rw [List.map_cons, List.pairwise_cons] at hsorted
    rw [unexpired, List.dropWhile_cons] at hx
    split_ifs at hx with hfront
    · exact ih hsorted.2 hx
    · have hlt : now < h.expiresAt := by simpa using hfront
      rcases List.mem_cons.1 hx with rfl | hx
      · exact hlt
      · have hle : h.recordedAt.toInt ≤ x.recordedAt.toInt := hsorted.1 _ (List.mem_map_of_mem hx)
        have hmono : h.expiresAt ≤ x.expiresAt := by
          unfold Held.expiresAt saturatingAdd
          omega
        exact hlt.trans_le hmono

/-- a nonce that is held at a reading was recorded in its minute or in one of the two before -/
theorem recorded_in_three_minutes {x : Held} {now : ℤ} (hlive : now < x.expiresAt) (hle : x.recordedAt.toInt ≤ now) :
    x.recordedAt.toInt / 60 = now / 60 ∨ x.recordedAt.toInt / 60 = now / 60 - 1 ∨ x.recordedAt.toInt / 60 = now / 60 - 2 := by
  have hlow : -2 ^ 63 ≤ x.recordedAt.toInt := Int64.le_toInt _
  have hretention : x.expiresAt ≤ x.recordedAt.toInt + 121 := by
    unfold Held.expiresAt saturatingAdd replayRetentionSecs maxSkewSecs i64Min i64Max
    omega
  omega

theorem share_le_recorded {held history : List Held} (h : held.Sublist history) {signer : PeerId} {minute : ℤ}
    (hminutes : ∀ x ∈ held, x.recordedAt.toInt / 60 = minute ∨ x.recordedAt.toInt / 60 = minute - 1 ∨
      x.recordedAt.toInt / 60 = minute - 2) :
    share signer held ≤ recordedIn signer minute history + recordedIn signer (minute - 1) history +
      recordedIn signer (minute - 2) history := by
  have hmono : ∀ m, recordedIn signer m held ≤ recordedIn signer m history := fun m => (h.filter _).length_le
  have hsplit : share signer held ≤ recordedIn signer minute held + recordedIn signer (minute - 1) held +
      recordedIn signer (minute - 2) held := by
    clear h hmono
    induction held with
    | nil => exact Nat.zero_le _
    | cons x held ih =>
      have hrest := ih fun y hy => hminutes y (List.mem_cons_of_mem _ hy)
      have hcons : ∀ m, recordedIn signer m (x :: held) =
          (if x.signer = signer ∧ x.recordedAt.toInt / 60 = m then 1 else 0) + recordedIn signer m held := by
        intro m
        unfold recordedIn
        rw [List.filter_cons]
        by_cases hx : x.signer = signer ∧ x.recordedAt.toInt / 60 = m
        · rw [if_pos (decide_eq_true hx), if_pos hx, List.length_cons, Nat.add_comm]
        · rw [if_neg (by simpa using hx), if_neg hx, Nat.zero_add]
      rw [share_cons, hcons, hcons, hcons]
      by_cases hsigner : x.signer = signer
      · rcases hminutes x List.mem_cons_self with hm | hm | hm
        · simp only [hsigner, hm, true_and, if_true]
          omega
        · simp only [hsigner, hm, true_and, if_true]
          omega
        · simp only [hsigner, hm, true_and, if_true]
          omega
      · simp only [hsigner, false_and, if_false]
        omega
  have h1 := hmono minute
  have h2 := hmono (minute - 1)
  have h3 := hmono (minute - 2)
  omega

/-- **A share that is never used up**: at readings that ascend, with no more than `rate` nonces of the signer recorded in a
minute -/
theorem share_lt_cap {rate : ℕ} (cs : List Call) (signer : PeerId) (now : Int64)
    (hclock : (cs.flatMap Call.readings ++ [now.toInt]).Pairwise (· ≤ ·))
    (hrate : ∀ minute, recordedIn signer minute ((Cached.start maxTotal maxPerSigner).calls cs).history ≤ rate) :
    share signer (unexpired now.toInt ((Cached.start maxTotal maxPerSigner).calls cs).held) < perSignerCap rate := by
  set s := (Cached.start maxTotal maxPerSigner).calls cs with hs
  have hinv : CachedInv maxTotal maxPerSigner s := (cachedInv_start maxTotal maxPerSigner).calls cs
  have hreadings : (s.history.map fun h => h.recordedAt.toInt).Sublist (cs.flatMap Call.readings) := by
    have hsub := history_readings (cachedInv_start maxTotal maxPerSigner) cs
    have hnone : (Cached.start maxTotal maxPerSigner).history = [] := rfl
    rwa [hnone, List.map_nil, List.nil_append, ← hs] at hsub
  obtain ⟨hascending, -, hlast⟩ := List.pairwise_append.1 hclock
  have hheld : (s.held.map fun h => h.recordedAt.toInt).Sublist (cs.flatMap Call.readings) :=
    (hinv.history.map _).trans hreadings
  have hminutes : ∀ x ∈ unexpired now.toInt s.held, x.recordedAt.toInt / 60 = now.toInt / 60 ∨
      x.recordedAt.toInt / 60 = now.toInt / 60 - 1 ∨ x.recordedAt.toInt / 60 = now.toInt / 60 - 2 := by
    intro x hx
    have hlive := lt_expiresAt_of_unexpired (hascending.sublist hheld) hx
    have hmem : x.recordedAt.toInt ∈ cs.flatMap Call.readings :=
      hheld.subset (List.mem_map_of_mem ((unexpired_sublist _ _).subset hx))
    exact recorded_in_three_minutes hlive (hlast _ hmem _ (List.mem_singleton_self _))
  have hle : share signer (unexpired now.toInt s.held) ≤ recordedIn signer (now.toInt / 60) s.history +
      recordedIn signer (now.toInt / 60 - 1) s.history + recordedIn signer (now.toInt / 60 - 2) s.history :=
    share_le_recorded ((unexpired_sublist now.toInt s.held).trans hinv.history) hminutes
  have h1 := hrate (now.toInt / 60)
  have h2 := hrate (now.toInt / 60 - 1)
  have h3 := hrate (now.toInt / 60 - 2)
  unfold perSignerCap
  omega

/-- **The replay cache.** Over any calls with any clock readings, in which a nonce is recorded only where it has been admitted:
- the cache represents the nonces that are held, and so it does after any number of drops: its keys are those of its queue, each
  once; a signer's count is the number of its entries; slots and signers go one to one, and a slot is free once or taken;
- there are never more entries, and never more of one signer, than the caps allow;
- an entry leaves only in a call whose reading is past its retention;
- if the readings ascend and no minute has more than `rate` recordings of a signer, a cap of 4 · `rate` + 16 never refuses it. -/
theorem replay_cache_represents (maxTotal maxPerSigner : ℕ) (cs : List Call) :
    (∀ k, Represents (ReplayCache.forgetFront^[k] ((Cached.start maxTotal maxPerSigner).calls cs).cache)
      (((Cached.start maxTotal maxPerSigner).calls cs).held.drop k)) ∧
    (((Cached.start maxTotal maxPerSigner).calls cs).held.length ≤ maxTotal ∧
      (∀ signer, share signer ((Cached.start maxTotal maxPerSigner).calls cs).held ≤ maxPerSigner) ∧
      ((Cached.start maxTotal maxPerSigner).calls cs).cache.slots.length ≤ maxTotal) ∧
    (∀ (c : Call), ∀ x ∈ ((Cached.start maxTotal maxPerSigner).calls cs).held,
      x ∉ (((Cached.start maxTotal maxPerSigner).calls cs).call c).held → x.expiresAt ≤ c.now) ∧
    ∀ (rate : ℕ) (signer : PeerId) (nonce : FixedBytes 16) (now : Int64) (oversized : Bool), maxPerSigner = perSignerCap rate →
      (cs.flatMap Call.readings ++ [now.toInt]).Pairwise (· ≤ ·) →
      (∀ minute, recordedIn signer minute ((Cached.start maxTotal maxPerSigner).calls cs).history ≤ rate) →
      (((Cached.start maxTotal maxPerSigner).calls cs).cache.admitNonce signer nonce now.toInt oversized).2 ≠ .error .rateLimited := by
  have hinv : CachedInv maxTotal maxPerSigner ((Cached.start maxTotal maxPerSigner).calls cs) :=
    (cachedInv_start maxTotal maxPerSigner).calls cs
  have htotal := hinv.caps.total
  have hshares := hinv.caps.shares
  have hslots := hinv.caps.slots
  rw [hinv.maxTotal] at htotal hslots
  rw [hinv.maxPerSigner] at hshares
  refine ⟨hinv.represents.forgetFront_iterate, ⟨htotal, hshares, hslots⟩, fun c x => expired_of_dropped hinv c, ?_⟩
  intro rate signer nonce now oversized hcap hclock hrate
  have hlt := share_lt_cap cs signer now hclock hrate
  rw [← hcap] at hlt
  rw [hinv.represents.admit_eq, hinv.maxPerSigner]
  dsimp only
  split_ifs with h1 h2
  · simp
  · omega
  · simp
  · simp

end Avalon.NodeAuth
