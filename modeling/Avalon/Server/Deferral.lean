/-
Scan scheduling and retry state of mirrored entries whose projection waits
(`crates/server/src/mirror_watcher/deferral.rs`).

Instants are nanoseconds of one clock. The maps are lists with one item for a key; their order has no meaning. The counter of
attempts has 32 bits and wraps, as it does in a build without overflow checks.

Results:
- `waiting?_forget`, `waiting?_note`, `waiting?_applied`: what becomes of the wait of another entry.
- `holding_of_waiting?`: none of them makes another entry held without order.
-/
import Mathlib.Tactic
import Avalon.Core.Bytes
import Avalon.Protocol.Events

namespace Avalon.Deferral

open Avalon.Events

abbrev Instant := ℕ

/-- a duration of whole seconds -/
def seconds (n : ℕ) : ℕ := n * 1000000000

def maxDeferredPerShard : ℕ := 256

def backoffStart : ℕ := seconds 30

def backoffMax : ℕ := seconds 600

def rearmMinInterval : ℕ := seconds 5

structure Waiting where
  attempts : ℕ
  nextRetry : Instant
  /-- later entries of the shard must wait behind this one -/
  ordered : Bool
  identity : Option String
  since : Instant
deriving DecidableEq

structure ShardBook where
  waiting : List (Uuid × Waiting)
  lastRearm : Option Instant

abbrev Pair := String × String

/-- which shards need no scan, and the waits of each -/
structure Scheduler where
  clean : List Pair
  shards : List (Pair × ShardBook)

def Scheduler.new : Scheduler := ⟨[], []⟩

namespace Scheduler

def book? (s : Scheduler) (key : Pair) : Option ShardBook := (s.shards.find? fun b => decide (b.1 = key)).map Prod.snd

def waiting? (s : Scheduler) (key : Pair) (eventId : Uuid) : Option Waiting :=
  (s.book? key).bind fun book => (book.waiting.find? fun w => decide (w.1 = eventId)).map Prod.snd

/-- writes the book of a shard back; an empty one is dropped where the source removes it -/
def setBook (s : Scheduler) (key : Pair) (book : ShardBook) : Scheduler :=
  { s with shards := (key, book) :: s.shards.filter fun b => decide (b.1 ≠ key) }

def dropBook (s : Scheduler) (key : Pair) : Scheduler := { s with shards := s.shards.filter fun b => decide (b.1 ≠ key) }

def scanDue (s : Scheduler) (key : Pair) (now : Instant) : Bool :=
  !s.clean.contains key || (s.book? key).any fun book => book.waiting.any fun w => decide (w.2.nextRetry ≤ now)

def markClean (s : Scheduler) (key : Pair) : Scheduler := { s with clean := key :: s.clean.filter fun k => decide (k ≠ key) }

def markFailed (s : Scheduler) (key : Pair) : Scheduler := { s with clean := s.clean.filter fun k => decide (k ≠ key) }

/-- drops the waits tracked before the scan that it did not see -/
def pruneUnseen (s : Scheduler) (key : Pair) (seen : List Uuid) (scannedFrom : Instant) : Scheduler :=
  match s.book? key with
  | none => s
  | some book =>
    let kept := book.waiting.filter fun w => seen.contains w.1 || decide (scannedFrom ≤ w.2.since)
    if kept.isEmpty then s.dropBook key else s.setBook key { book with waiting := kept }

/-- the delay after so many attempts; the doublings are counted in 32 bits -/
def backoff (attempts : ℕ) : ℕ := min (backoffStart * 2 ^ min ((attempts + (2 ^ 32 - 1)) % 2 ^ 32) 10) backoffMax

/-- the wait that one more deferral leaves -/
def deferredAgain (tracked : Option Waiting) (ordered : Bool) (identity : Option String) (now : Instant) : Waiting :=
  let attempts := ((tracked.map Waiting.attempts).getD 0 + 1) % 2 ^ 32
  ⟨attempts, now + backoff attempts, ordered, identity, (tracked.map Waiting.since).getD now⟩

/-- records one more deferral; false when a new entry of a shard at its cap is left untracked -/
def note (s : Scheduler) (key : Pair) (eventId : Uuid) (ordered : Bool) (identity : Option String) (now : Instant) :
    Scheduler × Bool :=
  let book := (s.book? key).getD ⟨[], none⟩
  let tracked := (book.waiting.find? fun w => decide (w.1 = eventId)).map Prod.snd
  if tracked.isNone && decide (maxDeferredPerShard ≤ book.waiting.length) then (s.setBook key book, false)
  else
    let waiting := deferredAgain tracked ordered identity now
    (s.setBook key { book with waiting := (eventId, waiting) :: book.waiting.filter fun w => decide (w.1 ≠ eventId) }, true)

/-- some while the entry waits for its retry time, none when it may be tried -/
def holding (s : Scheduler) (key : Pair) (eventId : Uuid) (now : Instant) : Option Bool :=
  (s.waiting? key eventId).bind fun w => if now < w.nextRetry then some w.ordered else none

/-- the entry no longer waits; returns whether it did -/
def forget (s : Scheduler) (key : Pair) (eventId : Uuid) : Scheduler × Bool :=
  match s.book? key with
  | none => (s, false)
  | some book =>
    let kept := book.waiting.filter fun w => decide (w.1 ≠ eventId)
    let removed := book.waiting.any fun w => decide (w.1 = eventId)
    (if kept.isEmpty then s.dropBook key else s.setBook key { book with waiting := kept }, removed)

/-- whether the retry of a wait is moved to now -/
def rearms (identity : Option String) (rateOk : Bool) (w : Waiting) : Bool :=
  (identity.isSome && decide (w.identity = identity)) || rateOk

def rateOk (book : ShardBook) (now : Instant) : Bool := book.lastRearm.all fun at' => decide (rearmMinInterval ≤ now - at')

/-- moves retries of one shard to now; the rate is spent on waits for other identities -/
def rearm (identity : Option String) (now : Instant) (book : ShardBook) : ShardBook :=
  let ok := rateOk book now
  let spent := book.waiting.any fun w => rearms identity ok w.2 && !rearms identity false w.2
  { waiting := book.waiting.map fun w => (w.1, if rearms identity ok w.2 then { w.2 with nextRetry := now } else w.2)
    lastRearm := if spent then some now else book.lastRearm }

/-- an entry was projected -/
def applied (s : Scheduler) (key : Pair) (eventId : Uuid) (changesKeys : Bool) (identity : Option String) (now : Instant) :
    Scheduler :=
  let (s, removed) := s.forget key eventId
  let s := if removed then s.markFailed key else s
  if !changesKeys then s
  else
    { clean := s.clean.filter fun k => !(decide (k.1 = key.1) && (s.book? k).any fun book =>
        book.waiting.any fun w => rearms identity (rateOk book now) w.2)
      shards := s.shards.map fun b => (b.1, if b.1.1 = key.1 then rearm identity now b.2 else b.2) }

/-! ## Waits of other entries -/

variable {s : Scheduler} {key k : Pair} {eventId id : Uuid} {now t : Instant}

theorem book?_setBook (s : Scheduler) (key k : Pair) (book : ShardBook) :
    (s.setBook key book).book? k = if key = k then some book else s.book? k := by
  unfold setBook book?
  rw [List.find?_cons]
  split_ifs with h
  · simp [h]
  · simp only [h, decide_false, List.find?_filter]
    congr 2
    funext b
    by_cases hb : b.1 = k
    · simp [hb, Ne.symm h]
    · simp [hb]

theorem book?_dropBook (s : Scheduler) (key k : Pair) :
    (s.dropBook key).book? k = if key = k then none else s.book? k := by
  unfold dropBook book?
  simp only [List.find?_filter]
  split_ifs with h
  · simp [h]
  · congr 2
    funext b
    by_cases hb : b.1 = k
    · simp [hb, Ne.symm h]
    · simp [hb]

/-- dropping other waits of a shard, and its book when none is left, keeps the wait of an entry -/
theorem waiting?_filter {book : ShardBook} (hbook : s.book? key = some book) {keep : Uuid × Waiting → Bool}
    (hkeep : k = key → ∀ w, keep (id, w) = true) :
    (if (book.waiting.filter keep).isEmpty then s.dropBook key
      else s.setBook key { book with waiting := book.waiting.filter keep }).waiting? k id = s.waiting? k id := by
  by_cases hk : key = k
  · subst hk
    have hfind : (book.waiting.filter keep).find? (fun w => decide (w.1 = id)) =
        book.waiting.find? (fun w => decide (w.1 = id)) := by
      rw [List.find?_filter]
      congr 1
      funext w
      obtain ⟨i, w⟩ := w
      by_cases hi : i = id
      · subst hi
        simp [hkeep rfl w]
      · simp [hi]
    unfold waiting?
    rw [hbook, Option.bind_some, ← hfind]
    split_ifs with hempty
    · rw [book?_dropBook, if_pos rfl, List.isEmpty_iff.1 hempty]
      rfl
    · rw [book?_setBook, if_pos rfl]
      rfl
  · unfold waiting?
    split_ifs
    · rw [book?_dropBook, if_neg hk]
    · rw [book?_setBook, if_neg hk]

theorem waiting?_forget (s : Scheduler) (h : k = key → id ≠ eventId) :
    (s.forget key eventId).1.waiting? k id = s.waiting? k id := by
  unfold forget
  split
  · rfl
  · rename_i book hbook
    exact waiting?_filter hbook fun hk _ => by simpa using h hk

theorem waiting?_note (s : Scheduler) (h : k = key → id ≠ eventId) (ordered : Bool) (identity : Option String)
    (now : Instant) : (s.note key eventId ordered identity now).1.waiting? k id = s.waiting? k id := by
  have hset : ∀ book : ShardBook, (∀ hk : k = key, book.waiting.find? (fun w => decide (w.1 = id)) =
      ((s.book? key).getD ⟨[], none⟩).waiting.find? fun w => decide (w.1 = id)) →
      (s.setBook key book).waiting? k id = s.waiting? k id := by
    intro book hbook
    unfold waiting?
    rw [book?_setBook]
    split_ifs with hk
    · rw [Option.bind_some, hbook hk.symm, ← hk]
      cases s.book? key <;> rfl
    · rfl
  unfold note
  dsimp only
  split
  · exact hset _ fun _ => rfl
  · refine hset _ fun hk => ?_
    have hne := h hk
    rw [List.find?_cons, List.find?_filter]
    simp only [Ne.symm hne, decide_false]
    congr 1
    funext w
    by_cases hw : w.1 = id
    · simp [hw, hne]
    · simp [hw]

/-- re-arming a book moves the retry of a wait to now, or leaves it -/
theorem rearm_waiting (identity : Option String) (now : Instant) (book : ShardBook) (id : Uuid) :
    ((rearm identity now book).waiting.find? fun w => decide (w.1 = id)).map Prod.snd =
      ((book.waiting.find? fun w => decide (w.1 = id)).map Prod.snd).map fun w =>
        if rearms identity (rateOk book now) w then { w with nextRetry := now } else w := by
  unfold rearm
  dsimp only
  rw [List.find?_map, Option.map_map, Option.map_map]
  rfl

/-- an applied entry may move the retry of another one to now -/
theorem waiting?_applied (h : k = key → id ≠ eventId) {changes : Bool} {identity : Option String} {w' : Waiting}
    (hw : (s.applied key eventId changes identity now).waiting? k id = some w') :
    ∃ w, s.waiting? k id = some w ∧ (w' = w ∨ w' = { w with nextRetry := now }) := by
  -- the entry's own wait is gone, and the clean flag is no wait
  have hforget : (if (s.forget key eventId).2 then (s.forget key eventId).1.markFailed key
      else (s.forget key eventId).1).waiting? k id = s.waiting? k id := by
    rw [← waiting?_forget s h]
    split_ifs <;> rfl
  unfold applied at hw
  dsimp only at hw
  generalize (if (s.forget key eventId).2 then (s.forget key eventId).1.markFailed key else (s.forget key eventId).1) = s'
    at hw hforget
  rw [← hforget]
  split at hw
  · exact ⟨w', hw, .inl rfl⟩
  · unfold waiting? book? at hw ⊢
    dsimp only at hw
    rw [List.find?_map] at hw
    change (Option.map Prod.snd (Option.map _ (s'.shards.find? fun b => decide (b.1 = k)))).bind _ = _ at hw
    cases hbook : s'.shards.find? fun b => decide (b.1 = k) with
    | none => simp [hbook] at hw
    | some b =>
      simp only [hbook, Option.map_some, Option.bind_some] at hw ⊢
      split at hw
      · rw [rearm_waiting] at hw
        obtain ⟨w, hfind, rfl⟩ := Option.map_eq_some_iff.1 hw
        refine ⟨w, hfind, ?_⟩
        split_ifs
        · exact .inr rfl
        · exact .inl rfl
      · exact ⟨w', hw, .inl rfl⟩

/-- an entry held without order at a time was so before its retry was moved to a time not after it -/
theorem holding_of_waiting? {s s' : Scheduler} (ht : now ≤ t)
    (hw : ∀ w', s'.waiting? k id = some w' → ∃ w, s.waiting? k id = some w ∧ (w' = w ∨ w' = { w with nextRetry := now }))
    (h : s'.holding k id t = some false) : s.holding k id t = some false := by
  obtain ⟨w', hw', hheld⟩ := Option.bind_eq_some_iff.1 h
  obtain ⟨w, hfind, rfl | rfl⟩ := hw w' hw'
  · exact Option.bind_eq_some_iff.2 ⟨w', hfind, hheld⟩
  · rw [if_neg (not_lt.2 ht)] at hheld
    cases hheld

end Scheduler

end Avalon.Deferral
