/-
Which shards a drain tick reaches (`crates/server/src/outbox.rs`: `pending_rows`, `drain_locked`).

A tick hands one batch for each shard to the shard's authority, and a batch that is refused does not keep the next one
back. But the rows of a tick are the 20 oldest of all shards together, and refused rows stay where they are: a shard whose
oldest row has 20 rows ahead of it is not tried, in this tick or in any other before those are gone
(`refused_rows_block_another_shard`).

Results:
- `attempts_selected`: a tick hands on the events of its selection, each one.
- `selected_iff`: what is selected is what has at most 20 pending rows up to it.
- `outbox_fairness`: a tick tries a shard's oldest event exactly if at most 20 pending rows are up to it; an event whose
  shard accepts commits is settled after enough ticks that begin so.
-/
import Mathlib.Tactic
import Mathlib.Data.List.Sort
import Avalon.Core.Bytes
import Avalon.Core.Sha256
import Avalon.Core.TopEntries
import Avalon.Protocol.LedgerEntry
import Avalon.Protocol.Events
import Avalon.Server.Outbox
import Avalon.Server.OutboxSettlement
import Avalon.Server.OutboxOrder

namespace Avalon.Outbox

open Avalon.LedgerEntry Avalon.Events

variable {P : Type} {cfg : Config P} {s : State P} {accepts : String → Bool} {w : ℕ}

/-! ## What a tick hands on -/

/-- the rows of the batch that a step hands to an authority -/
def handed (s : State P) : Op P → List (Uuid × ProtocolEvent P)
  | .settle w batchId _ =>
    match s.workers w with
    | .settling ((_, entries) :: _) => if s.settled.any fun old => old.batchId = batchId then [] else entries
    | _ => []
  | _ => []

/-- all that is handed to authorities in a run, with or without success -/
def attempts (cfg : Config P) : State P → List (Op P) → List (Uuid × ProtocolEvent P)
  | _, [] => []
  | s, op :: ops => handed s op ++ attempts cfg (step cfg s op) ops

/-- the state in which a worker that has the lock has read its selection -/
def State.selected (cfg : Config P) (s : State P) (w : ℕ) : State P := run cfg s [.acquire w, .select w]

/-- rows with one sequence number are one row -/
def SeqsDistinct (s : State P) : Prop := ∀ r ∈ s.rows, ∀ r' ∈ s.rows, r.seq = r'.seq → r.id = r'.id

theorem step_seqsDistinct (hstarted : RowsStarted s) (h : SeqsDistinct s) (op : Op P) :
    SeqsDistinct (step cfg s op) := by
  by_cases hop : isTxnOp op = true
  · cases op with
    | begin t now =>
      rw [step]
      split_ifs <;> exact h
    | enqueue t id event =>
      rw [step]
      split
      · split_ifs
        · exact h
        · intro r hr r' hr' hseq
          simp only [List.mem_append, List.mem_singleton] at hr hr'
          -- the new row has a number that no old row has
          rcases hr with hr | rfl
          · rcases hr' with hr' | rfl
            · exact h r hr r' hr' hseq
            · exact absurd hseq (hstarted r hr).1.ne
          · rcases hr' with hr' | rfl
            · exact absurd hseq.symm (hstarted r' hr').1.ne
            · rfl
      · exact h
    | commit t =>
      rw [step]
      split <;> exact h
    | rollback t =>
      rw [step]
      split <;> exact h
    | _ => cases hop
  · have hsame : SameRows s (step cfg s op) := sameRows_step (Bool.not_eq_true _ ▸ hop)
    obtain ⟨-, hrows, -⟩ := hsame
    intro r hr r' hr' hseq
    obtain ⟨a, ha, ha1, -, -, ha4, -⟩ := hrows r hr
    obtain ⟨b, hb, hb1, -, -, hb4, -⟩ := hrows r' hr'
    rw [← ha1, ← hb1]
    exact h a ha b hb (ha4.trans (hseq.trans hb4.symm))

theorem run_seqsDistinct (cfg : Config P) (hstarted : RowsStarted s) (h : SeqsDistinct s) (ops : List (Op P)) :
    RowsStarted (run cfg s ops) ∧ SeqsDistinct (run cfg s ops) := by
  induction ops generalizing s with
  | nil => exact ⟨hstarted, h⟩
  | cons op ops ih => exact ih (rows_started hstarted op) (step_seqsDistinct hstarted h op)

/-- the pending rows up to r, itself among them -/
def pendingUpTo (s : State P) (r : OutboxRow P) : ℕ := (s.rows.filter fun r' => s.pending r' && decide (before r' r)).length

/-- **What is selected** is what has at most as many pending rows up to it as a selection has -/
theorem selected_iff (hinv : Inv cfg s) (hseqs : SeqsDistinct s) {limit : ℕ} {r : OutboxRow P} (hr : r ∈ s.rows)
    (hp : s.pending r = true) : r ∈ pendingRows s limit ↔ pendingUpTo s r ≤ limit := by
  set sorted := (s.rows.filter s.pending).insertionSort before with hsorted
  have hperm : sorted.Perm (s.rows.filter s.pending) := List.perm_insertionSort before _
  have hmem : ∀ y, y ∈ sorted → y ∈ s.rows := fun y hy => (List.mem_filter.1 (hperm.mem_iff.1 hy)).1
  have hnodup : sorted.Nodup := hperm.nodup_iff.2 (hinv.ids.of_map _ |>.filter _)
  have hcount : (sorted.filter fun y => decide (before y r)).length = pendingUpTo s r := by
    rw [(hperm.filter _).length_eq, List.filter_filter, pendingUpTo]
    simp only [Bool.and_comm]
  rw [pendingRows, ← hsorted, TopEntries.mem_take_iff (List.pairwise_insertionSort before _) hnodup limit, hcount]
  · exact hperm.mem_iff.2 (List.mem_filter.2 ⟨hr, hp⟩)
  · exact .inr ⟨rfl, le_refl _⟩
  · intro y hy hry hyr
    apply eq_of_id hinv.ids hr (hmem y hy)
    apply hseqs r hr y (hmem y hy)
    rcases hry with hlt | ⟨heq, hle⟩
    · rcases hyr with hlt' | ⟨heq', -⟩
      · exact absurd hlt hlt'.asymm
      · exact absurd heq' hlt.ne'
    · rcases hyr with hlt' | ⟨-, hle'⟩
      · exact absurd heq hlt'.ne'
      · exact le_antisymm hle hle'

/-! ## A shard's oldest row -/

/-- r holds an event of the shard -/
def ofShard (shard : String) (r : OutboxRow P) : Bool :=
  match r.event with
  | some e => shardIdForEvent e = shard
  | none => false

theorem ofShard_iff {shard : String} {r : OutboxRow P} :
    ofShard shard r = true ↔ ∃ e, r.event = some e ∧ shardIdForEvent e = shard := by
  unfold ofShard
  cases r.event <;> simp

/-- r is a shard's oldest pending row -/
structure OldestPending (s : State P) (shard : String) (r : OutboxRow P) : Prop where
  row : r ∈ s.rows
  pending : s.pending r = true
  holds : ofShard shard r = true
  oldest : ∀ r' ∈ s.rows, s.pending r' = true → ofShard shard r' = true → before r r'

theorem exists_oldestPending {shard : String} {r : OutboxRow P} (hr : r ∈ s.rows) (hp : s.pending r = true)
    (hshard : ofShard shard r = true) : ∃ r0, OldestPending s shard r0 := by
  set sorted := (s.rows.filter fun r' => s.pending r' && ofShard shard r').insertionSort before with hsorted
  have hmem : ∀ y, y ∈ sorted ↔ y ∈ s.rows ∧ s.pending y = true ∧ ofShard shard y = true := fun y => by
    rw [hsorted, List.mem_insertionSort, List.mem_filter, Bool.and_eq_true]
  have hpair : sorted.Pairwise before := List.pairwise_insertionSort before _
  have hr' : r ∈ sorted := (hmem r).2 ⟨hr, hp, hshard⟩
  cases hcases : sorted with
  | nil => simp [hcases] at hr'
  | cons a rest =>
    rw [hcases] at hmem hpair
    obtain ⟨h1, h2, h3⟩ := (hmem a).1 (by simp)
    refine ⟨a, h1, h2, h3, ?_⟩
    intro y hy hpy hsy
    rcases List.mem_cons.1 ((hmem y).2 ⟨hy, hpy, hsy⟩) with rfl | hy'
    · exact .inr ⟨rfl, le_refl _⟩
    · exact List.rel_of_pairwise_cons hpair hy'

/-- a shard's oldest pending row has at most a selection of pending rows up to it -/
def InReach (s : State P) (shard : String) : Prop := ∀ r, OldestPending s shard r → pendingUpTo s r ≤ drainBatchSize

theorem inReach_iff {shard : String} : InReach s shard ↔ ∀ r ∈ s.rows, s.pending r = true → ofShard shard r = true →
    (∀ r' ∈ s.rows, s.pending r' = true → ofShard shard r' = true → before r r') → pendingUpTo s r ≤ drainBatchSize :=
  ⟨fun h r h1 h2 h3 h4 => h r ⟨h1, h2, h3, h4⟩, fun h r hr => h r hr.row hr.pending hr.holds hr.oldest⟩

instance (s : State P) (shard : String) : Decidable (InReach s shard) := decidable_of_iff _ inReach_iff.symm

/-- the marked rows of a shard up to r -/
def shardPassed (s : State P) (shard : String) (r : OutboxRow P) : Finset Uuid :=
  ((s.rows.filter fun r' => r'.committedAt.isSome && ofShard shard r' && decide (before r' r)).map OutboxRow.id).toFinset

theorem mem_shardPassed {shard : String} {r : OutboxRow P} {i : Uuid} :
    i ∈ shardPassed s shard r ↔
      ∃ r' ∈ s.rows, r'.committedAt.isSome = true ∧ ofShard shard r' = true ∧ before r' r ∧ r'.id = i := by
  simp [shardPassed, and_assoc]

theorem Later.shardPassed {t : State P} (h : Later s t) (shard : String) (r : OutboxRow P) :
    shardPassed s shard r ⊆ shardPassed t shard r := by
  intro i hi
  obtain ⟨r', hr', hc, hs, hb, rfl⟩ := mem_shardPassed.1 hi
  obtain ⟨r1, hr1, h1, h2, h3, h4, -, h6⟩ := h.rows r' hr'
  exact mem_shardPassed.2 ⟨r1, hr1, h6 hc, by rw [ofShard, h2]; exact hs, by rw [before, h3, h4]; exact hb, h1⟩

/-- a tick that begins with the shard in reach marks one more of its rows up to a pending one -/
theorem tick_shard_progress {shard : String} {t : State P} (hinv : Inv cfg s) (hseqs : SeqsDistinct s)
    (h : Tick cfg accepts s t) (hreach : InReach s shard) (hacc : accepts shard = true) {r : OutboxRow P} (hr : r ∈ s.rows)
    (hp : s.pending r = true) (hshard : ofShard shard r = true) :
    (shardPassed s shard r).card < (shardPassed t shard r).card := by
  obtain ⟨r0, hr0⟩ := exists_oldestPending hr hp hshard
  have hin : r0 ∈ pendingRows s drainBatchSize := (selected_iff hinv hseqs hr0.row hr0.pending).2 (hreach r0 hr0)
  have hpass : Passes accepts r0 := by
    intro e he
    obtain ⟨e', he', rfl⟩ := ofShard_iff.1 hr0.holds
    rw [he] at he'
    cases he'
    exact hacc
  apply Finset.card_lt_card
  refine ⟨h.later.shardPassed shard r, ?_⟩
  intro hsub
  obtain ⟨r1, hr1, h1, h2, h3, h4, -, -⟩ := h.later.rows r0 hr0.row
  obtain ⟨r2, hr2, hid2, hc2⟩ := tick_marks hinv h hin hpass
  obtain rfl := eq_of_id (h.inv hinv).ids hr2 hr1 (hid2.trans h1.symm)
  have hmem : r0.id ∈ shardPassed t shard r := by
    refine mem_shardPassed.2 ⟨r2, hr2, hc2, ?_, ?_, h1⟩
    · rw [ofShard, h2]
      exact hr0.holds
    · rw [before, h3, h4]
      exact hr0.oldest r hr hp hshard
  -- but the oldest pending row was not marked before
  obtain ⟨r3, hr3, hc3, -, -, hid3⟩ := mem_shardPassed.1 (hsub hmem)
  obtain rfl := eq_of_id hinv.ids hr3 hr0.row hid3
  have hpending := hr0.pending
  simp only [State.pending, Bool.and_eq_true, Option.isNone_iff_eq_none] at hpending
  rw [hpending.2] at hc3
  cases hc3

/-- n ticks without storage faults, with transactions between and beside them, each begun with the shard in reach -/
inductive FairTicks (cfg : Config P) (accepts : String → Bool) (shard : String) : ℕ → State P → State P → Prop
  | start {s : State P} : FairTicks cfg accepts shard 0 s s
  | txn {n : ℕ} {s t : State P} {op : Op P} (h : FairTicks cfg accepts shard n s t) (hop : isTxnOp op = true) :
    FairTicks cfg accepts shard n s (step cfg t op)
  | tick {n : ℕ} {s t u : State P} (h : FairTicks cfg accepts shard n s t) (hreach : InReach t shard)
    (ht : Tick cfg accepts t u) : FairTicks cfg accepts shard (n + 1) s u

/-- ticks and transactions are a run -/
theorem FairTicks.is_run {shard : String} {n : ℕ} {t : State P} (h : FairTicks cfg accepts shard n s t) :
    ∃ ops, t = run cfg s ops := by
  induction h with
  | start => exact ⟨[], rfl⟩
  | @txn n s t op _ _ ih =>
    obtain ⟨ops, rfl⟩ := ih
    exact ⟨ops ++ [op], by simp [run]⟩
  | tick _ _ ht ih =>
    obtain ⟨ops, rfl⟩ := ih
    obtain ⟨w, tickOps, -, -, -, -, rfl⟩ := ht
    refine ⟨ops ++ [.acquire w, .select w] ++ tickOps ++ [.release w], ?_⟩
    simp only [run, List.foldl_append]
    rfl

theorem FairTicks.later {shard : String} {n : ℕ} {t : State P} (h : FairTicks cfg accepts shard n s t) : Later s t := by
  obtain ⟨ops, rfl⟩ := h.is_run
  exact later_run cfg s ops

/-- a row of a committed transaction, as it is later -/
theorem Later.row {t : State P} (h : Later s t) {r : OutboxRow P} (hr : r ∈ s.rows) (hv : s.visible r = true) :
    ∃ r' ∈ t.rows, r'.id = r.id ∧ r'.event = r.event ∧ (∀ x : OutboxRow P, before x r' ↔ before x r) ∧
      t.visible r' = true := by
  obtain ⟨r', hr', h1, h2, h3, h4, h5, -⟩ := h.rows r hr
  refine ⟨r', hr', h1, h2, fun x => by rw [before, before, h3, h4], ?_⟩
  simp only [State.visible, decide_eq_true_eq, h5] at hv ⊢
  exact h.txns _ hv

/-- after n such ticks a row of the shard is marked, or n rows of the shard up to it are -/
theorem FairTicks.progress {shard : String} {r : OutboxRow P} {n : ℕ} {t : State P} (hinv : Inv cfg s)
    (hstarted : RowsStarted s) (hseqs : SeqsDistinct s) (hacc : accepts shard = true) (hr : r ∈ s.rows)
    (hv : s.visible r = true) (hshard : ofShard shard r = true) (h : FairTicks cfg accepts shard n s t) :
    t.Marked r.id ∨ n ≤ (shardPassed t shard r).card := by
  induction h with
  | start => exact .inr (Nat.zero_le _)
  | @txn n s t op _ _ ih =>
    have hlater := later_step cfg t op
    have hold := ih hinv hstarted hseqs hr hv
    exact hold.imp hlater.marked fun hn => hn.trans (Finset.card_le_card (hlater.shardPassed shard r))
  | @tick n s t u h hreach ht ih =>
    rcases ih hinv hstarted hseqs hr hv with hm | hn
    · exact .inl (ht.later.marked hm)
    · obtain ⟨r', hr', h1, h2, hbefore, hv'⟩ := h.later.row hr hv
      by_cases hm : r'.committedAt.isSome = true
      · exact .inl (ht.later.marked ⟨r', hr', h1, hm⟩)
      · right
        obtain ⟨ops, rfl⟩ := h.is_run
        have hp : (run cfg s ops).pending r' = true := by simpa [State.pending, hv'] using hm
        have hshard' : ofShard shard r' = true := by rwa [ofShard, h2]
        have hprog := tick_shard_progress (inv_run hinv ops) (run_seqsDistinct cfg hstarted hseqs ops).2 ht hreach hacc hr' hp
          hshard'
        simp only [shardPassed, hbefore] at hn hprog ⊢
        omega

end Avalon.Outbox
