/-
What the waits of mirrored entries stay within (`crates/server/src/mirror_watcher/deferral.rs`).

Every operation acts on the book of each shard by itself (`onBook`). The bounds on a book, on the delays of an entry and on the
re-arming of a shard are found there, one operation at a time, and then hold along every run.

Results:
- `bookOk_run`: a book that is kept has an entry, holds each entry once, and no more than the cap.
- `counted_of_delays`: delays that never shrink need counters that have not come round.
- `schedulerBounds_iff`: a run stays within all its bounds exactly if no note finds a counter that has come round to zero.
Witness:
- `delay_shrinks_after_wrap`: 2^32 + 1 notes of one entry; the last of them sets a shorter delay than the one before.
-/
import Mathlib.Tactic
import Avalon.Server.Deferral

namespace Avalon.Deferral

open Avalon.Events

/-! ## Model -/

/-- one call on the scheduler -/
inductive Op where
  | note (key : Pair) (eventId : Uuid) (ordered : Bool) (identity : Option String) (now : Instant)
  | forget (key : Pair) (eventId : Uuid)
  | applied (key : Pair) (eventId : Uuid) (changesKeys : Bool) (identity : Option String) (now : Instant)
  | pruneUnseen (key : Pair) (seen : List Uuid) (scannedFrom : Instant)
  | markClean (key : Pair)
  | markFailed (key : Pair)

namespace Scheduler

def step (s : Scheduler) : Op → Scheduler
  | .note key eventId ordered identity now => (s.note key eventId ordered identity now).1
  | .forget key eventId => (s.forget key eventId).1
  | .applied key eventId changesKeys identity now => s.applied key eventId changesKeys identity now
  | .pruneUnseen key seen scannedFrom => s.pruneUnseen key seen scannedFrom
  | .markClean key => s.markClean key
  | .markFailed key => s.markFailed key

def run (ops : List Op) : Scheduler := ops.foldl step new

theorem run_snoc (ops : List Op) (op : Op) : run (ops ++ [op]) = (run ops).step op := by
  simp [run, List.foldl_append]

theorem run_cons_snoc (pre mid : List Op) (op op' : Op) :
    run (pre ++ op :: (mid ++ [op'])) = (run (pre ++ op :: mid)).step op' := by
  rw [← List.cons_append, ← List.append_assoc, run_snoc]

/-- an entry is tracked -/
def Waits (s : Scheduler) (key : Pair) (id : Uuid) : Prop := (s.waiting? key id).isSome = true

/-! ## One book -/

/-- keeps some waits of a book, and no book without a wait -/
def keepWaits (keep : Uuid × Waiting → Bool) (b : Option ShardBook) : Option ShardBook :=
  b.bind fun book =>
    if (book.waiting.filter keep).isEmpty then none else some { book with waiting := book.waiting.filter keep }

/-- the book after one more deferral -/
def noteBook (eventId : Uuid) (ordered : Bool) (identity : Option String) (now : Instant) (book : ShardBook) : ShardBook :=
  let tracked := (book.waiting.find? fun w => decide (w.1 = eventId)).map Prod.snd
  if tracked.isNone && decide (maxDeferredPerShard ≤ book.waiting.length) then book
  else { book with waiting :=
    (eventId, deferredAgain tracked ordered identity now) :: book.waiting.filter fun w => decide (w.1 ≠ eventId) }

/-- what an operation does to the book of one shard -/
def onBook (k : Pair) (b : Option ShardBook) : Op → Option ShardBook
  | .note key eventId ordered identity now =>
    if key = k then some (noteBook eventId ordered identity now (b.getD ⟨[], none⟩)) else b
  | .forget key eventId => if key = k then keepWaits (fun w => decide (w.1 ≠ eventId)) b else b
  | .applied key eventId changesKeys identity now =>
    let b := if key = k then keepWaits (fun w => decide (w.1 ≠ eventId)) b else b
    if changesKeys = true ∧ k.1 = key.1 then b.map (rearm identity now) else b
  | .pruneUnseen key seen scannedFrom =>
    if key = k then keepWaits (fun w => seen.contains w.1 || decide (scannedFrom ≤ w.2.since)) b else b
  | .markClean _ => b
  | .markFailed _ => b

variable {s : Scheduler} {key k : Pair} {eventId id : Uuid} {now t : Instant} {book : ShardBook}

theorem book?_keep {keep : Uuid × Waiting → Bool} (hbook : s.book? key = some book) :
    (if (book.waiting.filter keep).isEmpty then s.dropBook key
      else s.setBook key { book with waiting := book.waiting.filter keep }).book? k =
      if key = k then keepWaits keep (s.book? k) else s.book? k := by
  by_cases hk : key = k
  · subst hk
    rw [if_pos rfl, hbook, keepWaits, Option.bind_some]
    split_ifs with hempty
    · rw [book?_dropBook, if_pos rfl]
    · rw [book?_setBook, if_pos rfl]
  · rw [if_neg hk]
    split_ifs with hempty
    · rw [book?_dropBook, if_neg hk]
    · rw [book?_setBook, if_neg hk]

theorem book?_forget (s : Scheduler) (key k : Pair) (eventId : Uuid) :
    (s.forget key eventId).1.book? k =
      if key = k then keepWaits (fun w => decide (w.1 ≠ eventId)) (s.book? k) else s.book? k := by
  unfold forget
  split
  · rename_i hnone
    split_ifs with hk
    · rw [← hk, hnone]
      rfl
    · rfl
  · rename_i book hbook
    exact book?_keep hbook

theorem note_fst (s : Scheduler) (key : Pair) (eventId : Uuid) (ordered : Bool) (identity : Option String) (now : Instant) :
    (s.note key eventId ordered identity now).1 =
      s.setBook key (noteBook eventId ordered identity now ((s.book? key).getD ⟨[], none⟩)) := by
  unfold note noteBook
  dsimp only
  split <;> rfl

theorem book?_applied (s : Scheduler) (key k : Pair) (eventId : Uuid) (changesKeys : Bool) (identity : Option String)
    (now : Instant) : (s.applied key eventId changesKeys identity now).book? k =
      onBook k (s.book? k) (.applied key eventId changesKeys identity now) := by
  have hforget := book?_forget s key k eventId
  unfold applied onBook
  dsimp only
  -- the clean flag is no part of a book
  have hflag : ∀ removed : Bool, (if removed then (s.forget key eventId).1.markFailed key else
      (s.forget key eventId).1).book? k = (s.forget key eventId).1.book? k := by
    intro removed
    cases removed <;> rfl
  rw [← hforget, ← hflag (s.forget key eventId).2]
  generalize (if (s.forget key eventId).2 then (s.forget key eventId).1.markFailed key
    else (s.forget key eventId).1) = s'
  cases changesKeys with
  | false => simp
  | true =>
    simp only [Bool.not_true, Bool.false_eq_true, if_false, true_and]
    unfold book?
    dsimp only
    rw [List.find?_map]
    change Option.map Prod.snd (Option.map _ (s'.shards.find? fun b => decide (b.1 = k))) = _
    cases hb : s'.shards.find? fun b => decide (b.1 = k) with
    | none => simp
    | some b =>
      have hbk : b.1 = k := by simpa using List.find?_some hb
      simp only [Option.map_some]
      subst hbk
      split_ifs <;> rfl

/-- an operation acts on each book by itself -/
theorem book?_step (s : Scheduler) (op : Op) (k : Pair) : (s.step op).book? k = onBook k (s.book? k) op := by
  cases op with
  | note key eventId ordered identity now =>
    simp only [step, onBook]
    rw [note_fst, book?_setBook]
    split_ifs with hk
    · rw [hk]
    · rfl
  | forget key eventId =>
    simp only [step, onBook]
    exact book?_forget s key k eventId
  | applied key eventId changesKeys identity now => exact book?_applied s key k eventId changesKeys identity now
  | pruneUnseen key seen scannedFrom =>
    simp only [step, onBook]
    unfold pruneUnseen
    split
    · rename_i hnone
      split_ifs with hk
      · rw [← hk, hnone]
        rfl
      · rfl
    · rename_i book hbook
      exact book?_keep hbook
  | markClean key => rfl
  | markFailed key => rfl

/-- the bounds of a book that is kept -/
structure BookOk (book : ShardBook) : Prop where
  nonempty : book.waiting ≠ []
  distinct : (book.waiting.map Prod.fst).Nodup
  capped : book.waiting.length ≤ maxDeferredPerShard

theorem keepWaits_ok {keep : Uuid × Waiting → Bool} (h : BookOk book) {book' : ShardBook}
    (hkeep : keepWaits keep (some book) = some book') : BookOk book' := by
  rw [keepWaits, Option.bind_some] at hkeep
  split_ifs at hkeep with hempty
  obtain rfl := Option.some.inj hkeep
  exact ⟨fun hnil => hempty (List.isEmpty_iff.2 hnil), h.distinct.sublist (List.filter_sublist.map _),
    (List.length_filter_le _ _).trans h.capped⟩

/-- a note adds an entry below the cap, or replaces the one that is tracked -/
theorem noteBook_ok (h : book.waiting ≠ [] → BookOk book) (eventId : Uuid) (ordered : Bool) (identity : Option String)
    (now : Instant) : BookOk (noteBook eventId ordered identity now book) := by
  have hdistinct : (book.waiting.map Prod.fst).Nodup := by
    by_cases hnil : book.waiting = []
    · rw [hnil]
      exact List.nodup_nil
    · exact (h hnil).distinct
  have hcapped : book.waiting.length ≤ maxDeferredPerShard := by
    by_cases hnil : book.waiting = []
    · rw [hnil]
      exact Nat.zero_le _
    · exact (h hnil).capped
  unfold noteBook
  dsimp only
  split
  · rename_i hfull
    rw [Bool.and_eq_true, decide_eq_true_eq] at hfull
    refine h fun hnil => ?_
    rw [hnil] at hfull
    exact absurd hfull.2 (by decide)
  · rename_i hroom
    refine ⟨List.cons_ne_nil _ _, ?_, ?_⟩
    · refine List.nodup_cons.2 ⟨?_, hdistinct.sublist (List.filter_sublist.map _)⟩
      intro hmem
      obtain ⟨w, hw, heq⟩ := List.mem_map.1 hmem
      simpa [heq] using (List.mem_filter.1 hw).2
    · rw [List.length_cons]
      cases hfind : book.waiting.find? (fun w => decide (w.1 = eventId)) with
      | none =>
        -- a new entry, with room for it
        have hlt : ¬ maxDeferredPerShard ≤ book.waiting.length := by simpa [hfind] using hroom
        have hle := List.length_filter_le (fun w : Uuid × Waiting => decide (w.1 ≠ eventId)) book.waiting
        omega
      | some w =>
        -- the tracked one makes room for itself
        have hout : ∃ w ∈ book.waiting, ¬ decide (w.1 ≠ eventId) = true :=
          ⟨w, List.mem_of_find?_eq_some hfind, by simpa using List.find?_some hfind⟩
        have hlt := List.length_filter_lt_length_iff_exists.2 hout
        omega

theorem rearm_ok (h : BookOk book) (identity : Option String) (now : Instant) : BookOk (rearm identity now book) := by
  refine ⟨?_, ?_, ?_⟩
  · intro hnil
    exact h.nonempty (List.map_eq_nil_iff.1 hnil)
  · rw [rearm, List.map_map]
    exact h.distinct
  · rw [rearm, List.length_map]
    exact h.capped

theorem onBook_ok {b : Option ShardBook} (h : ∀ book, b = some book → BookOk book) (op : Op) {book' : ShardBook}
    (hb : onBook k b op = some book') : BookOk book' := by
  have hkept : ∀ {keep : Uuid × Waiting → Bool} {book : ShardBook}, keepWaits keep b = some book → BookOk book := by
    intro keep book hkeep
    cases b with
    | none => cases hkeep
    | some old => exact keepWaits_ok (h old rfl) hkeep
  cases op with
  | note key eventId ordered identity now =>
    simp only [onBook] at hb
    split_ifs at hb with hk
    · obtain rfl := Option.some.inj hb
      refine noteBook_ok (fun hne => ?_) eventId ordered identity now
      cases b with
      | none => exact absurd rfl hne
      | some old => exact h old rfl
    · exact h _ hb
  | forget key eventId =>
    simp only [onBook] at hb
    split_ifs at hb with hk
    · exact hkept hb
    · exact h _ hb
  | applied key eventId changesKeys identity now =>
    simp only [onBook] at hb
    have hforgot : ∀ book, (if key = k then keepWaits (fun w => decide (w.1 ≠ eventId)) b else b) = some book →
        BookOk book := by
      intro book hbook
      split_ifs at hbook
      · exact hkept hbook
      · exact h _ hbook
    split at hb
    · obtain ⟨book, hbook, rfl⟩ := Option.map_eq_some_iff.1 hb
      exact rearm_ok (hforgot book hbook) identity now
    · exact hforgot _ hb
  | pruneUnseen key seen scannedFrom =>
    simp only [onBook] at hb
    split_ifs at hb with hk
    · exact hkept hb
    · exact h _ hb
  | markClean key => exact h _ hb
  | markFailed key => exact h _ hb

theorem bookOk_run (ops : List Op) : ∀ k book, (run ops).book? k = some book → BookOk book := by
  induction ops using List.reverseRecOn with
  | nil =>
    intro k book hbook
    cases hbook
  | append_singleton ops op ih =>
    intro k book hbook
    rw [run_snoc, book?_step] at hbook
    exact onBook_ok (ih k) op hbook

/-- a note that is refused changes nothing -/
theorem note_refused {ordered : Bool} {identity : Option String} (h : (s.note key eventId ordered identity now).2 = false) :
    (∀ k, (s.note key eventId ordered identity now).1.book? k = s.book? k) ∧
      (s.note key eventId ordered identity now).1.clean = s.clean := by
  have hfull : ∃ book, s.book? key = some book ∧ noteBook eventId ordered identity now book = book := by
    unfold note at h
    dsimp only at h
    split at h
    · rename_i hfull
      cases hbook : s.book? key with
      | none =>
        rw [hbook] at hfull
        exact absurd hfull (by simp [maxDeferredPerShard])
      | some book =>
        rw [hbook, Option.getD_some] at hfull
        refine ⟨book, rfl, ?_⟩
        unfold noteBook
        dsimp only
        rw [if_pos hfull]
    · cases h
  obtain ⟨book, hbook, hsame⟩ := hfull
  rw [note_fst]
  refine ⟨fun k => ?_, rfl⟩
  rw [book?_setBook, hbook, Option.getD_some, hsame]
  split_ifs with hk
  · rw [← hk, hbook]
  · rfl

/-! ## One entry -/

/-- the wait of an entry in a book -/
def waitingOf (id : Uuid) (book : ShardBook) : Option Waiting := (book.waiting.find? fun w => decide (w.1 = id)).map Prod.snd

theorem waiting?_eq (s : Scheduler) (key : Pair) (id : Uuid) : s.waiting? key id = (s.book? key).bind (waitingOf id) := rfl

theorem waitingOf_eq_some (h : (book.waiting.map Prod.fst).Nodup) {w : Waiting} :
    waitingOf id book = some w ↔ (id, w) ∈ book.waiting := by
  unfold waitingOf
  constructor
  · intro hentry
    obtain ⟨p, hfind, rfl⟩ := Option.map_eq_some_iff.1 hentry
    obtain rfl : p.1 = id := by simpa using List.find?_some hfind
    exact List.mem_of_find?_eq_some hfind
  · intro hmem
    cases hfind : book.waiting.find? fun w => decide (w.1 = id) with
    | none => simpa using List.find?_eq_none.1 hfind (id, w) hmem
    | some p =>
      have hid : p.1 = id := by simpa using List.find?_some hfind
      have heq : p = (id, w) := List.inj_on_of_nodup_map h (List.mem_of_find?_eq_some hfind) hmem hid
      rw [Option.map_some, heq]

theorem waitingOf_keepWaits {b : Option ShardBook} (h : ∀ book, b = some book → BookOk book)
    {keep : Uuid × Waiting → Bool} {w : Waiting} (hw : (keepWaits keep b).bind (waitingOf id) = some w) :
    b.bind (waitingOf id) = some w := by
  obtain ⟨kept, hkept, hentry⟩ := Option.bind_eq_some_iff.1 hw
  cases b with
  | none => cases hkept
  | some book =>
    have hok := h book rfl
    have hmem := (waitingOf_eq_some (keepWaits_ok hok hkept).distinct).1 hentry
    rw [keepWaits, Option.bind_some] at hkept
    split_ifs at hkept
    obtain rfl := Option.some.inj hkept
    exact (waitingOf_eq_some hok.distinct).2 (List.mem_filter.1 hmem).1

theorem waitingOf_noteBook_of_ne (h : id ≠ eventId) (ordered : Bool) (identity : Option String) (now : Instant)
    (book : ShardBook) : waitingOf id (noteBook eventId ordered identity now book) = waitingOf id book := by
  unfold noteBook waitingOf
  dsimp only
  split
  · rfl
  · rw [List.find?_cons, List.find?_filter]
    simp only [Ne.symm h, decide_false]
    congr 2
    funext w
    by_cases hw : w.1 = id
    · simp [hw, h]
    · simp [hw]

/-- a note that leaves its entry waiting sets a new delay -/
theorem waitingOf_noteBook_self {ordered : Bool} {identity : Option String} {w : Waiting}
    (hw : waitingOf eventId (noteBook eventId ordered identity now book) = some w) :
    w = deferredAgain (waitingOf eventId book) ordered identity now := by
  unfold noteBook at hw
  dsimp only at hw
  split at hw
  · rename_i hfull
    rw [Bool.and_eq_true, Option.isNone_iff_eq_none] at hfull
    rw [waitingOf, hfull.1] at hw
    cases hw
  · rw [waitingOf, List.find?_cons] at hw
    simp only [decide_true, Option.map_some, Option.some.injEq] at hw
    exact hw.symm

/-- what becomes of the wait of an entry: a note of it defers it again, and nothing else counts an attempt -/
theorem waiting?_step (h : ∀ book, s.book? k = some book → BookOk book) {op : Op} {w' : Waiting}
    (hw : (s.step op).waiting? k id = some w') :
    (∃ ordered identity now, op = .note k id ordered identity now ∧
      w' = deferredAgain (s.waiting? k id) ordered identity now) ∨
    ((∀ ordered identity now, op ≠ .note k id ordered identity now) ∧
      ∃ w, s.waiting? k id = some w ∧ w'.attempts = w.attempts) := by
  simp only [waiting?_eq] at hw ⊢
  rw [book?_step] at hw
  cases op with
  | note key eventId ordered identity now =>
    simp only [onBook] at hw
    split_ifs at hw with hk
    · subst hk
      rw [Option.bind_some] at hw
      have hbook : waitingOf id ((s.book? key).getD ⟨[], none⟩) = (s.book? key).bind (waitingOf id) := by
        cases s.book? key <;> rfl
      by_cases hid : id = eventId
      · subst hid
        refine .inl ⟨ordered, identity, now, rfl, ?_⟩
        rw [← hbook]
        exact waitingOf_noteBook_self hw
      · rw [waitingOf_noteBook_of_ne hid, hbook] at hw
        exact .inr ⟨fun _ _ _ heq => hid (by injection heq with _ h; exact h.symm), w', hw, rfl⟩
    · exact .inr ⟨fun _ _ _ heq => hk (by injection heq), w', hw, rfl⟩
  | forget key eventId =>
    simp only [onBook] at hw
    refine .inr ⟨fun _ _ _ heq => (nomatch heq), w', ?_, rfl⟩
    split_ifs at hw with hk
    · exact waitingOf_keepWaits h hw
    · exact hw
  | applied key eventId changesKeys identity now =>
    simp only [onBook] at hw
    refine .inr ⟨fun _ _ _ heq => (nomatch heq), ?_⟩
    have hforgot : ∀ w, (if key = k then keepWaits (fun w => decide (w.1 ≠ eventId)) (s.book? k) else s.book? k).bind
        (waitingOf id) = some w → (s.book? k).bind (waitingOf id) = some w := by
      intro w hw
      split_ifs at hw
      · exact waitingOf_keepWaits h hw
      · exact hw
    generalize (if key = k then keepWaits (fun w => decide (w.1 ≠ eventId)) (s.book? k) else s.book? k) = b at hw hforgot
    split at hw
    · cases b with
      | none => cases hw
      | some book =>
        rw [Option.map_some, Option.bind_some, waitingOf, rearm_waiting] at hw
        obtain ⟨w, hold, rfl⟩ := Option.map_eq_some_iff.1 hw
        refine ⟨w, hforgot w hold, ?_⟩
        split_ifs <;> rfl
    · exact ⟨w', hforgot w' hw, rfl⟩
  | pruneUnseen key seen scannedFrom =>
    simp only [onBook] at hw
    refine .inr ⟨fun _ _ _ heq => (nomatch heq), w', ?_, rfl⟩
    split_ifs at hw with hk
    · exact waitingOf_keepWaits h hw
    · exact hw
  | markClean key => exact .inr ⟨fun _ _ _ heq => (nomatch heq), w', hw, rfl⟩
  | markFailed key => exact .inr ⟨fun _ _ _ heq => (nomatch heq), w', hw, rfl⟩

/-! ## Delays -/

theorem backoff_le (attempts : ℕ) : backoff attempts ≤ backoffMax := min_le_right _ _

/-- the delay does not shrink, and at the wrap of the counter it is still the longest -/
theorem backoff_le_next {attempts : ℕ} (hne : attempts ≠ 0) (hlt : attempts < 2 ^ 32) :
    backoff attempts ≤ backoff ((attempts + 1) % 2 ^ 32) := by
  by_cases hwrap : attempts + 1 = 2 ^ 32
  · have hzero : backoff ((attempts + 1) % 2 ^ 32) = backoffMax := by
      rw [hwrap, Nat.mod_self]
      decide
    rw [hzero]
    exact backoff_le attempts
  · have hnow : (attempts + (2 ^ 32 - 1)) % 2 ^ 32 = attempts - 1 := by omega
    have hnext : ((attempts + 1) % 2 ^ 32 + (2 ^ 32 - 1)) % 2 ^ 32 = attempts := by omega
    unfold backoff
    rw [hnow, hnext]
    have hpow : 2 ^ min (attempts - 1) 10 ≤ 2 ^ min attempts 10 := Nat.pow_le_pow_right (by decide) (by omega)
    exact min_le_min_right _ (Nat.mul_le_mul_left _ hpow)

/-- of two notes of an entry that waits in between, the later one sets no shorter delay -/
def DelaysGrow (ops : List Op) : Prop :=
  ∀ (pre mid : List Op) (key : Pair) (id : Uuid) (ordered ordered' : Bool) (identity identity' : Option String)
    (now now' : Instant) (w w' : Waiting),
    pre ++ .note key id ordered identity now :: (mid ++ [.note key id ordered' identity' now']) <+: ops →
    (∀ m, m <+: mid → (run (pre ++ .note key id ordered identity now :: m)).Waits key id) →
    (run (pre ++ [.note key id ordered identity now])).waiting? key id = some w →
    (run (pre ++ .note key id ordered identity now :: (mid ++ [.note key id ordered' identity' now']))).waiting? key id = some w' →
    w.nextRetry - now ≤ w'.nextRetry - now'

/-- no note of a run finds the counter of its entry at zero, to which it comes round after 2^32 notes -/
def CountersInRange (ops : List Op) : Prop :=
  ∀ (pre : List Op) (key : Pair) (id : Uuid) (ordered : Bool) (identity : Option String) (now : Instant) (w : Waiting),
    pre ++ [.note key id ordered identity now] <+: ops → (run pre).waiting? key id = some w → w.attempts ≠ 0

theorem attempts_lt (ops : List Op) {w : Waiting} (hw : (run ops).waiting? k id = some w) : w.attempts < 2 ^ 32 := by
  induction ops using List.reverseRecOn generalizing w with
  | nil => cases hw
  | append_singleton ops op ih =>
    rw [run_snoc] at hw
    rcases waiting?_step (bookOk_run ops k) hw with ⟨ordered, identity, now, -, rfl⟩ | ⟨-, old, hold, heq⟩
    · exact Nat.mod_lt _ (by decide)
    · rw [heq]
      exact ih hold

/-- a note of an entry that waits leaves it waiting -/
theorem note_waits {w : Waiting} (hw : s.waiting? k id = some w) (ordered : Bool) (identity : Option String) (now : Instant) :
    ∃ w', (s.step (.note k id ordered identity now)).waiting? k id = some w' := by
  rw [waiting?_eq] at hw
  obtain ⟨book, hbook, hentry⟩ := Option.bind_eq_some_iff.1 hw
  refine ⟨deferredAgain (some w) ordered identity now, ?_⟩
  rw [waiting?_eq, book?_step]
  simp only [onBook, if_true]
  rw [hbook, Option.getD_some, Option.bind_some, noteBook]
  unfold waitingOf at hentry ⊢
  rw [hentry]
  simp

/-- a note that leaves its entry waiting sets the delay of its counter -/
theorem note_delay {ordered : Bool} {identity : Option String} {w : Waiting} (ops : List Op)
    (hw : (run (ops ++ [.note k id ordered identity now])).waiting? k id = some w) :
    w.nextRetry = now + backoff w.attempts ∧
      w.attempts = ((((run ops).waiting? k id).map Waiting.attempts).getD 0 + 1) % 2 ^ 32 := by
  rw [run_snoc] at hw
  rcases waiting?_step (bookOk_run ops k) hw with ⟨ordered', identity', now', heq, rfl⟩ | ⟨hno, -⟩
  · obtain ⟨-, -, -, -, rfl⟩ := Op.note.inj heq
    exact ⟨rfl, rfl⟩
  · exact absurd rfl (hno ordered identity now)

theorem delays_of_counted {ops : List Op} (h : CountersInRange ops) : DelaysGrow ops := by
  intro pre mid key id ordered ordered' identity identity' now now' w w' hops hwaits hw hw'
  -- along the operations in between the counter's delay does not fall below the first one
  have hmid : ∀ m, m <+: mid → ∀ v, (run (pre ++ .note key id ordered identity now :: m)).waiting? key id = some v →
      backoff w.attempts ≤ backoff v.attempts := by
    intro m
    induction m using List.reverseRecOn with
    | nil =>
      intro _ v hv
      rw [hw] at hv
      rw [Option.some.inj hv]
    | append_singleton m op ih =>
      intro hm v hv
      have hm' : m <+: mid := (List.prefix_append m [op]).trans hm
      obtain ⟨u, hu⟩ := Option.isSome_iff_exists.1 (hwaits m hm')
      refine (ih hm' u hu).trans ?_
      rw [run_cons_snoc] at hv
      rcases waiting?_step (bookOk_run _ key) hv with ⟨o, i, t, rfl, rfl⟩ | ⟨-, u', hu', heq⟩
      · have hprefix : (pre ++ .note key id ordered identity now :: m) ++ [.note key id o i t] <+: ops := by
          refine List.IsPrefix.trans ?_ hops
          rw [List.append_assoc, List.cons_append, List.prefix_append_right_inj, List.cons_prefix_cons]
          exact ⟨rfl, hm.trans (List.prefix_append _ _)⟩
        rw [hu]
        exact backoff_le_next (h _ _ _ _ _ _ _ hprefix hu) (attempts_lt _ hu)
      · rw [hu] at hu'
        rw [heq, Option.some.inj hu']
  obtain ⟨u, hu⟩ := Option.isSome_iff_exists.1 (hwaits mid (List.prefix_refl mid))
  have hfirst := (note_delay pre hw).1
  have hlast := note_delay (pre ++ .note key id ordered identity now :: mid) (by
    rw [List.append_assoc, List.cons_append]
    exact hw')
  have hprefix : (pre ++ .note key id ordered identity now :: mid) ++ [.note key id ordered' identity' now'] <+: ops := by
    rw [List.append_assoc, List.cons_append]
    exact hops
  have hgrow := (hmid mid (List.prefix_refl mid) u hu).trans
    (backoff_le_next (h _ _ _ _ _ _ _ hprefix hu) (attempts_lt _ hu))
  rw [hu, Option.map_some, Option.getD_some] at hlast
  rw [hfirst, hlast.1, Nat.add_sub_cancel_left, Nat.add_sub_cancel_left, hlast.2]
  exact hgrow

/-- an entry that waits was noted, has waited since, and its counter is that of its last note -/
theorem last_note (ops : List Op) {w : Waiting} (hw : (run ops).waiting? k id = some w) :
    ∃ pre mid ordered identity now v, ops = pre ++ .note k id ordered identity now :: mid ∧
      (∀ m, m <+: mid → (run (pre ++ .note k id ordered identity now :: m)).Waits k id) ∧
      (run (pre ++ [.note k id ordered identity now])).waiting? k id = some v ∧ v.attempts = w.attempts := by
  induction ops using List.reverseRecOn generalizing w with
  | nil => cases hw
  | append_singleton ops op ih =>
    have hstep := hw
    rw [run_snoc] at hstep
    rcases waiting?_step (bookOk_run ops k) hstep with ⟨ordered, identity, now, rfl, -⟩ | ⟨-, old, hold, heq⟩
    · refine ⟨ops, [], ordered, identity, now, w, rfl, fun m hm => ?_, hw, rfl⟩
      rw [List.prefix_nil.1 hm]
      exact Option.isSome_iff_exists.2 ⟨w, hw⟩
    · obtain ⟨pre, mid, ordered, identity, now, v, rfl, hwaits, hv, hattempts⟩ := ih hold
      refine ⟨pre, mid ++ [op], ordered, identity, now, v, by simp, fun m hm => ?_, hv, hattempts.trans heq.symm⟩
      rcases List.prefix_concat_iff.1 hm with rfl | hm
      · refine Option.isSome_iff_exists.2 ⟨w, ?_⟩
        rw [← hw, List.append_assoc, List.cons_append]
      · exact hwaits m hm

theorem counted_of_delays {ops : List Op} (h : DelaysGrow ops) : CountersInRange ops := by
  intro pre key id ordered identity now w hops hw hzero
  obtain ⟨pre', mid, ordered', identity', now', v, rfl, hwaits, hv, hattempts⟩ := last_note pre hw
  have hprefix := hops
  rw [List.append_assoc, List.cons_append] at hprefix
  obtain ⟨w', hw'⟩ := note_waits hw ordered identity now
  rw [← run_snoc] at hw'
  have hfirst := (note_delay pre' hv).1
  obtain ⟨hlast, hone⟩ := note_delay _ hw'
  have hgrow := h pre' mid key id ordered' ordered identity' identity now' now v w' hprefix hwaits hv (by
    rw [List.append_assoc, List.cons_append] at hw'
    exact hw')
  rw [hw, Option.map_some, Option.getD_some, hzero] at hone
  rw [hattempts, hzero] at hfirst
  rw [hone] at hlast
  rw [hfirst, hlast, Nat.add_sub_cancel_left, Nat.add_sub_cancel_left] at hgrow
  exact absurd hgrow (by decide)

/-! ## Scans and re-arming -/

/-- an entry that is due makes the scan of its shard due -/
theorem scanDue_of_waiting? {w : Waiting} (hw : s.waiting? k id = some w) (hdue : w.nextRetry ≤ t) : s.scanDue k t = true := by
  rw [waiting?_eq] at hw
  obtain ⟨book, hbook, hentry⟩ := Option.bind_eq_some_iff.1 hw
  obtain ⟨p, hfind, rfl⟩ := Option.map_eq_some_iff.1 hentry
  rw [scanDue, hbook, Bool.or_eq_true]
  exact .inr (List.any_eq_true.2 ⟨p, List.mem_of_find?_eq_some hfind, decide_eq_true hdue⟩)

/-- the book of a shard of the network after an entry that changes keys was projected -/
theorem book?_applied_network (hnetwork : k.1 = key.1) (identity : Option String) :
    (s.applied key eventId true identity now).book? k = ((s.forget key eventId).1.book? k).map (rearm identity now) := by
  rw [book?_applied, book?_forget]
  simp only [onBook]
  rw [if_pos ⟨trivial, hnetwork⟩]

/-- a projected key or identity event makes the waits for its identity due, and the scan of their shard -/
theorem applied_due {a : String} {w : Waiting} (hnetwork : k.1 = key.1) (hother : k = key → id ≠ eventId)
    (hw : s.waiting? k id = some w) (hsame : w.identity = some a) :
    (s.applied key eventId true (some a) now).waiting? k id = some { w with nextRetry := now } ∧
      ∀ t, (s.applied key eventId true (some a) now).scanDue k t = true := by
  have hkept := waiting?_forget s hother
  rw [hw, waiting?_eq] at hkept
  obtain ⟨book, hbook, hentry⟩ := Option.bind_eq_some_iff.1 hkept
  have harm : rearms (some a) (rateOk book now) w = true := by simp [rearms, hsame]
  constructor
  · rw [waiting?_eq, book?_applied_network hnetwork, hbook, Option.map_some, Option.bind_some, waitingOf, rearm_waiting]
    unfold waitingOf at hentry
    rw [hentry, Option.map_some, if_pos harm]
  · intro t
    have hclean : (s.applied key eventId true (some a) now).clean.contains k = false := by
      rw [← Bool.not_eq_true, List.contains_iff_mem]
      unfold applied
      dsimp only
      have hflag : (if (s.forget key eventId).2 then (s.forget key eventId).1.markFailed key else
          (s.forget key eventId).1).book? k = some book := by
        rw [← hbook]
        cases (s.forget key eventId).2 <;> rfl
      simp only [Bool.not_true, Bool.false_eq_true, if_false]
      intro hmem
      obtain ⟨p, hfind, rfl⟩ := Option.map_eq_some_iff.1 hentry
      have hany : (book.waiting.any fun w => rearms (some a) (rateOk book now) w.2) = true :=
        List.any_eq_true.2 ⟨p, List.mem_of_find?_eq_some hfind, harm⟩
      have hkeep := (List.mem_filter.1 hmem).2
      rw [hflag] at hkeep
      simp [hnetwork, hany] at hkeep
    rw [scanDue, hclean]
    rfl

/-- a projected entry leaves the shards of other networks alone -/
theorem applied_other_network (hnetwork : k.1 ≠ key.1) (changesKeys : Bool) (identity : Option String) :
    (s.applied key eventId changesKeys identity now).book? k = s.book? k ∧
      (k ∈ (s.applied key eventId changesKeys identity now).clean ↔ k ∈ s.clean) := by
  have hk : key ≠ k := fun heq => hnetwork (by rw [heq])
  constructor
  · rw [book?_applied]
    simp only [onBook]
    rw [if_neg fun h => hnetwork h.2, if_neg hk]
  · have hforget : (s.forget key eventId).1.clean = s.clean := by
      unfold forget dropBook setBook
      split
      · rfl
      · dsimp only
        split <;> rfl
    have hflag : k ∈ (if (s.forget key eventId).2 then (s.forget key eventId).1.markFailed key else
        (s.forget key eventId).1).clean ↔ k ∈ s.clean := by
      rw [← hforget]
      cases (s.forget key eventId).2 with
      | false => rfl
      | true =>
        simp only [if_true, markFailed, List.mem_filter, decide_eq_true_eq]
        exact and_iff_left (Ne.symm hk)
    unfold applied
    dsimp only
    rw [← hflag]
    split
    · rfl
    · simp only [List.mem_filter, hnetwork, decide_false, Bool.false_and, Bool.not_false, and_true]

/-- an operation at a time re-arms a waiting entry of the shard that is about another identity -/
def RearmsOthers (s : Scheduler) (k : Pair) (now : Instant) (op : Op) : Prop :=
  ∃ (key : Pair) (eventId id : Uuid) (identity : Option String) (w w' : Waiting), op = .applied key eventId true identity now ∧
    s.waiting? k id = some w ∧ (s.step op).waiting? k id = some w' ∧ ¬ (identity.isSome = true ∧ w.identity = identity) ∧
    w'.nextRetry ≠ w.nextRetry

theorem keepWaits_lastRearm {keep : Uuid × Waiting → Bool} {b : Option ShardBook} {book' : ShardBook}
    (h : keepWaits keep b = some book') : ∃ book, b = some book ∧ book'.lastRearm = book.lastRearm := by
  cases b with
  | none => cases h
  | some book =>
    rw [keepWaits, Option.bind_some] at h
    split_ifs at h
    obtain rfl := Option.some.inj h
    exact ⟨book, rfl, rfl⟩

theorem forget_lastRearm {book' : ShardBook} (h : (s.forget key eventId).1.book? k = some book') :
    ∃ book, s.book? k = some book ∧ book'.lastRearm = book.lastRearm := by
  rw [book?_forget] at h
  split_ifs at h
  · exact keepWaits_lastRearm h
  · exact ⟨book', h, rfl⟩

/-- the time of the last re-arming moves only where the rate allows it -/
theorem step_lastRearm (op : Op) {book' : ShardBook} (hbook : s.book? k = some book) (hbook' : (s.step op).book? k = some book') :
    book'.lastRearm = book.lastRearm ∨ ∃ now, rateOk book now = true ∧ book'.lastRearm = some now := by
  have hkept : ∀ {keep : Uuid × Waiting → Bool}, keepWaits keep (s.book? k) = some book' → book'.lastRearm = book.lastRearm := by
    intro keep hkeep
    obtain ⟨old, hold, heq⟩ := keepWaits_lastRearm hkeep
    rw [hbook] at hold
    rw [heq, Option.some.inj hold]
  cases op with
  | note key eventId ordered identity now =>
    rw [book?_step] at hbook'
    simp only [onBook] at hbook'
    refine .inl ?_
    split_ifs at hbook'
    · rw [hbook, Option.getD_some, Option.some.injEq] at hbook'
      subst hbook'
      unfold noteBook
      dsimp only
      split <;> rfl
    · rw [hbook] at hbook'
      rw [Option.some.inj hbook']
  | forget key eventId =>
    obtain ⟨old, hold, heq⟩ := forget_lastRearm hbook'
    rw [hbook] at hold
    rw [heq, Option.some.inj hold]
    exact .inl rfl
  | applied key eventId changesKeys identity now =>
    rw [book?_step] at hbook'
    simp only [onBook, ← book?_forget] at hbook'
    split_ifs at hbook' with harms
    · obtain ⟨forgot, hforgot, rfl⟩ := Option.map_eq_some_iff.1 hbook'
      obtain ⟨old, hold, heq⟩ := forget_lastRearm hforgot
      obtain rfl : book = old := Option.some.inj (hbook.symm.trans hold)
      have hrate : rateOk forgot now = rateOk book now := by rw [rateOk, rateOk, heq]
      unfold rearm
      dsimp only
      split_ifs with hspent
      · refine .inr ⟨now, ?_, rfl⟩
        obtain ⟨w, -, hw⟩ := List.any_eq_true.1 hspent
        rw [← hrate]
        cases hok : rateOk forgot now with
        | true => rfl
        | false =>
          rw [hok, Bool.and_not_self] at hw
          cases hw
      · exact .inl heq
    · obtain ⟨old, hold, heq⟩ := forget_lastRearm hbook'
      rw [hbook] at hold
      rw [heq, Option.some.inj hold]
      exact .inl rfl
  | pruneUnseen key seen scannedFrom =>
    rw [book?_step] at hbook'
    simp only [onBook] at hbook'
    split_ifs at hbook'
    · exact .inl (hkept hbook')
    · rw [hbook] at hbook'
      rw [Option.some.inj hbook']
      exact .inl rfl
  | markClean key =>
    obtain rfl : book = book' := Option.some.inj (hbook.symm.trans hbook')
    exact .inl rfl
  | markFailed key =>
    obtain rfl : book = book' := Option.some.inj (hbook.symm.trans hbook')
    exact .inl rfl

/-- re-arming others needs the rate, and spends it -/
theorem lastRearm_of_rearmsOthers {op : Op} (h : RearmsOthers s k now op) :
    ∃ book book', s.book? k = some book ∧ rateOk book now = true ∧ (s.step op).book? k = some book' ∧
      book'.lastRearm = some now := by
  obtain ⟨key, eventId, id, identity, w, w', rfl, hw, hw', hother, hmoved⟩ := h
  have hnetwork : k.1 = key.1 := by
    by_contra hne
    rw [waiting?_eq, step, (applied_other_network hne true identity).1, ← waiting?_eq, hw] at hw'
    exact hmoved (by rw [Option.some.inj hw'])
  have hid : k = key → id ≠ eventId := by
    rintro rfl rfl
    -- the applied entry itself no longer waits
    rw [waiting?_eq, step, book?_applied_network rfl, book?_forget, if_pos rfl] at hw'
    obtain ⟨armed, harmed, hentry⟩ := Option.bind_eq_some_iff.1 hw'
    obtain ⟨kept, hkept, rfl⟩ := Option.map_eq_some_iff.1 harmed
    rw [waitingOf, rearm_waiting] at hentry
    obtain ⟨v, hv, -⟩ := Option.map_eq_some_iff.1 hentry
    obtain ⟨p, hfind, -⟩ := Option.map_eq_some_iff.1 hv
    obtain ⟨old, hold, hif⟩ := Option.bind_eq_some_iff.1 hkept
    split_ifs at hif
    obtain rfl := Option.some.inj hif
    have hout := (List.mem_filter.1 (List.mem_of_find?_eq_some hfind)).2
    have hin := List.find?_some hfind
    simp only [decide_eq_true_eq] at hin hout
    exact hout hin
  have hkept := waiting?_forget s hid
  rw [hw, waiting?_eq] at hkept
  obtain ⟨forgot, hforgot, hentry⟩ := Option.bind_eq_some_iff.1 hkept
  obtain ⟨book, hbook, hlast⟩ := forget_lastRearm hforgot
  have hrate : rateOk forgot now = rateOk book now := by rw [rateOk, rateOk, hlast]
  have hafter : (s.step (.applied key eventId true identity now)).book? k = some (rearm identity now forgot) := by
    rw [step, book?_applied_network hnetwork, hforgot, Option.map_some]
  rw [waiting?_eq, hafter, Option.bind_some, waitingOf, rearm_waiting] at hw'
  unfold waitingOf at hentry
  rw [hentry, Option.map_some, Option.some.injEq] at hw'
  have hnotSame : rearms identity false w = false := by
    rw [← Bool.not_eq_true]
    simpa [rearms] using hother
  have hok : rateOk forgot now = true := by
    cases hok : rateOk forgot now with
    | true => rfl
    | false =>
      rw [hok, hnotSame] at hw'
      exact absurd (by rw [← hw']; rfl) hmoved
  refine ⟨book, _, hbook, hrate ▸ hok, hafter, ?_⟩
  obtain ⟨p, hfind, hp⟩ := Option.map_eq_some_iff.1 hentry
  have hspent : (forgot.waiting.any fun w => rearms identity (rateOk forgot now) w.2 && !rearms identity false w.2) = true := by
    refine List.any_eq_true.2 ⟨p, List.mem_of_find?_eq_some hfind, ?_⟩
    rw [hp, hnotSame, hok]
    simp [rearms]
  rw [rearm]
  dsimp only
  rw [if_pos hspent]

theorem le_of_rateOk {at' : Instant} (hlast : book.lastRearm = some at') (h : rateOk book now = true) :
    at' + rearmMinInterval ≤ now := by
  rw [rateOk, hlast, Option.all_some, decide_eq_true_eq] at h
  have hpos : 0 < rearmMinInterval := by decide
  exact Nat.add_le_of_le_sub' (by omega) h

/-- two operations that re-arm entries of a shard about other identities, with an entry waiting all the time in between, are five
seconds apart -/
def RearmsSpaced (ops : List Op) : Prop :=
  ∀ (pre mid : List Op) (op op' : Op) (k : Pair) (now now' : Instant), pre ++ op :: (mid ++ [op']) <+: ops →
    (∀ m, m <+: mid → ∃ id, (run (pre ++ op :: m)).Waits k id) →
    RearmsOthers (run pre) k now op → RearmsOthers (run (pre ++ op :: mid)) k now' op' → now + rearmMinInterval ≤ now'

theorem rearmsSpaced (ops : List Op) : RearmsSpaced ops := by
  intro pre mid op op' k now now' _ hwaits hfirst hsecond
  have hbooks : ∀ m, m <+: mid → ∃ book, (run (pre ++ op :: m)).book? k = some book := by
    intro m hm
    obtain ⟨id, hid⟩ := hwaits m hm
    obtain ⟨w, hw⟩ := Option.isSome_iff_exists.1 hid
    rw [waiting?_eq] at hw
    obtain ⟨book, hbook, -⟩ := Option.bind_eq_some_iff.1 hw
    exact ⟨book, hbook⟩
  -- the time that the first one left stays, or makes way for a later one
  have hmid : ∀ m, m <+: mid → ∀ book, (run (pre ++ op :: m)).book? k = some book →
      ∃ at', book.lastRearm = some at' ∧ now ≤ at' := by
    intro m
    induction m using List.reverseRecOn with
    | nil =>
      intro _ book hbook
      obtain ⟨-, book', -, -, hbook', hlast⟩ := lastRearm_of_rearmsOthers hfirst
      rw [run_snoc, hbook'] at hbook
      exact ⟨now, by rw [← Option.some.inj hbook, hlast], Nat.le_refl _⟩
    | append_singleton m o ih =>
      intro hm book' hbook'
      have hm' : m <+: mid := (List.prefix_append m [o]).trans hm
      obtain ⟨book, hbook⟩ := hbooks m hm'
      obtain ⟨at', hlast, hle⟩ := ih hm' book hbook
      rw [run_cons_snoc] at hbook'
      rcases step_lastRearm o hbook hbook' with hsame | ⟨t, hrate, hnew⟩
      · exact ⟨at', hsame.trans hlast, hle⟩
      · have hpast := le_of_rateOk hlast hrate
        exact ⟨t, hnew, hle.trans ((Nat.le_add_right _ _).trans hpast)⟩
  obtain ⟨book, -, hbook, hrate, -, -⟩ := lastRearm_of_rearmsOthers hsecond
  obtain ⟨at', hlast, hle⟩ := hmid mid (List.prefix_refl mid) book hbook
  exact (Nat.add_le_add_right hle _).trans (le_of_rateOk hlast hrate)

/-! ## Bounds of a run -/

/-- the bounds of the scheduler along a run -/
structure SchedulerBounds (ops : List Op) : Prop where
  /-- a book that is kept has an entry, holds each entry once, and not too many -/
  books : ∀ pre, pre <+: ops → ∀ key book, (run pre).book? key = some book → BookOk book
  /-- a note that is refused changes nothing -/
  refused : ∀ pre, pre <+: ops → ∀ key eventId ordered identity now,
    ((run pre).note key eventId ordered identity now).2 = false →
    (∀ k, ((run pre).note key eventId ordered identity now).1.book? k = (run pre).book? k) ∧
      ((run pre).note key eventId ordered identity now).1.clean = (run pre).clean
  delaysGrow : DelaysGrow ops
  /-- a note sets a delay of ten minutes at most -/
  delayMax : ∀ pre key id ordered identity now w, pre ++ [.note key id ordered identity now] <+: ops →
    (run (pre ++ [.note key id ordered identity now])).waiting? key id = some w →
    now ≤ w.nextRetry ∧ w.nextRetry ≤ now + seconds 600
  /-- an entry that is due makes the scan of its shard due -/
  due : ∀ pre, pre <+: ops → ∀ key id w now, (run pre).waiting? key id = some w → w.nextRetry ≤ now → (run pre).scanDue key now = true
  /-- a projected key or identity event makes the other entries of its identity due at once on its network -/
  appliedDue : ∀ pre, pre <+: ops → ∀ key eventId a now k id w, k.1 = key.1 → (k = key → id ≠ eventId) →
    (run pre).waiting? k id = some w → w.identity = some a →
    ((run pre).applied key eventId true (some a) now).waiting? k id = some { w with nextRetry := now } ∧
      ∀ t, ((run pre).applied key eventId true (some a) now).scanDue k t = true
  /-- and leaves the shards of other networks alone -/
  otherNetworks : ∀ pre, pre <+: ops → ∀ key eventId changesKeys identity now k, k.1 ≠ key.1 →
    ((run pre).applied key eventId changesKeys identity now).book? k = (run pre).book? k ∧
      (k ∈ ((run pre).applied key eventId changesKeys identity now).clean ↔ k ∈ (run pre).clean)
  rearmsSpaced : RearmsSpaced ops

/-- **The bounds of the scheduler.** Every run stays within them exactly if no note in it finds a counter at zero; only the delays
depend on that. -/
theorem schedulerBounds_iff (ops : List Op) : SchedulerBounds ops ↔ CountersInRange ops := by
  refine ⟨fun h => counted_of_delays h.delaysGrow, fun h => ?_⟩
  refine ⟨fun pre _ => bookOk_run pre, fun pre _ key eventId ordered identity now => note_refused, delays_of_counted h, ?_,
    fun pre _ key id w now => scanDue_of_waiting?, fun pre _ key eventId a now k id w => applied_due,
    fun pre _ key eventId changesKeys identity now k hnetwork => applied_other_network hnetwork changesKeys identity,
    rearmsSpaced ops⟩
  intro pre key id ordered identity now w _ hw
  rw [(note_delay pre hw).1]
  exact ⟨Nat.le_add_right _ _, Nat.add_le_add_left (backoff_le _) now⟩

/-! ## Witness -/

/-- one note of an entry, of the shard "core" -/
def noteCore : Op := .note ("net", "core") (.replicate 16 0) false none 0

theorem attempts_of_notes (n : ℕ) : ∃ w, (run (List.replicate (n + 1) noteCore)).waiting? ("net", "core") (.replicate 16 0) = some w ∧
    w.attempts = (n + 1) % 2 ^ 32 := by
  induction n with
  | zero => exact ⟨_, rfl, rfl⟩
  | succ n ih =>
    obtain ⟨w, hw, hattempts⟩ := ih
    obtain ⟨w', hw'⟩ := note_waits hw false none 0
    rw [List.replicate_succ']
    refine ⟨w', ?_, ?_⟩
    · rw [run_snoc]
      exact hw'
    · rw [← run_snoc] at hw'
      rw [(note_delay _ hw').2, hw, Option.map_some, Option.getD_some, hattempts]
      omega

/-- **A delay that shrinks.** After 2^32 notes of an entry its counter is at zero, and the next delay is the first one again. -/
theorem delay_shrinks_after_wrap : ¬ SchedulerBounds (List.replicate (2 ^ 32 + 1) noteCore) := by
  intro h
  have hcounted := counted_of_delays h.delaysGrow
  obtain ⟨w, hw, hzero⟩ := attempts_of_notes (2 ^ 32 - 1)
  have hall : List.replicate (2 ^ 32) noteCore ++ [noteCore] <+: List.replicate (2 ^ 32 + 1) noteCore := by
    rw [← List.replicate_succ']
  exact hcounted _ _ _ _ _ _ w hall hw (hzero.trans (by decide))

end Scheduler

end Avalon.Deferral
