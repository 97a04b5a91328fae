/-
The order in which outbox rows are settled (`crates/server/src/outbox.rs`: `pending_rows`, `drain_locked`; migration 0081).

Rows are drained by the start of the transaction that inserted them, and by insertion within one start. A transaction that
began first is settled first, even if it inserted its row after the other one had committed
(`later_insert_settled_first`).

Results, over every run with any faults:
- `groups_ascending`: the groups of a worker have distinct shards, in ascending order.
- `rows_started`: a row carries the start of its transaction, and a sequence number below the next one.
- `led_run`: where a row leads another one of its shard in the drain's order, it is settled before it.
- `outbox_order`: a row leads what is inserted later in its own transaction, and what a transaction that did not begin
  earlier inserts after its own transaction has committed. The ledgers hold the events in the order they were settled.
-/
import Mathlib.Tactic
import Mathlib.Data.List.Sort
import Mathlib.Data.String.Basic
import Avalon.Core.Bytes
import Avalon.Protocol.LedgerEntry
import Avalon.Protocol.Events
import Avalon.Server.Outbox
import Avalon.Server.OutboxSettlement

namespace Avalon.Outbox

open Avalon.LedgerEntry Avalon.Events

variable {P : Type} {cfg : Config P} {s : State P}

/-! ## One element leads another -/

/-- before each j of the list stands an i -/
def Leads (i j : Uuid) (l : List Uuid) : Prop := ∀ l1 l2, l = l1 ++ j :: l2 → i ∈ l1

theorem leads_of_notMem {i j : Uuid} {l : List Uuid} (h : j ∉ l) : Leads i j l := by
  rintro l1 l2 rfl
  simp at h

theorem Leads.append {i j : Uuid} {l m : List Uuid} (hl : Leads i j l) (hm : i ∈ l ∨ Leads i j m) : Leads i j (l ++ m) := by
  intro l1 l2 h
  rcases List.append_eq_append_iff.1 h with ⟨c, rfl, hc⟩ | ⟨c, rfl, hc⟩
  · -- this j stands in the second part
    rcases hm with hi | hm
    · exact List.mem_append_left _ hi
    · exact List.mem_append_right _ (hm c l2 hc)
  · cases c with
    | nil =>
      rcases hm with hi | hm
      · simpa using hi
      · have hnil := hm [] l2 (by simpa using hc.symm)
        cases hnil
    | cons k c =>
      obtain ⟨rfl, -⟩ := List.cons.inj hc
      exact hl l1 c rfl

/-- dropping an element that is neither of the two -/
theorem Leads.erase {i j k : Uuid} {l m : List Uuid} (h : Leads i j (l ++ k :: m)) (hi : k ≠ i) : Leads i j (l ++ m) := by
  intro l1 l2 heq
  rcases List.append_eq_append_iff.1 heq with ⟨c, rfl, hc⟩ | ⟨c, rfl, hc⟩
  · have hmem := h (l ++ k :: c) l2 (by rw [hc]; simp)
    simpa [Ne.symm hi] using hmem
  · cases c with
    | nil =>
      have hmem := h (l1 ++ [k]) l2 (by simp at hc; simp [hc])
      simpa [Ne.symm hi] using hmem
    | cons k' c =>
      obtain ⟨rfl, -⟩ := List.cons.inj hc
      exact h l1 (c ++ k :: m) (by simp)

/-! ## Groups -/

/-- the group of a shard -/
def groupOf (shard : String) (groups : Groups P) : List (Uuid × ProtocolEvent P) :=
  ((groups.find? fun g => decide (g.1 = shard)).map Prod.snd).getD []

def Groups.Ascending (groups : Groups P) : Prop := groups.Pairwise fun a b => a.1 < b.1

theorem shard_of_mem_pushGroup {shard : String} {x : Uuid × ProtocolEvent P} {groups : Groups P} {g : String × _}
    (h : g ∈ pushGroup shard x groups) : g.1 = shard ∨ ∃ g' ∈ groups, g'.1 = g.1 := by
  induction groups with
  | nil =>
    rw [pushGroup, List.mem_singleton] at h
    exact .inl (by rw [h])
  | cons g' gs ih =>
    rw [pushGroup] at h
    split_ifs at h with h1 h2
    · rcases List.mem_cons.1 h with rfl | h
      · exact .inl rfl
      · exact .inr ⟨g, h, rfl⟩
    · rcases List.mem_cons.1 h with rfl | h
      · exact .inl h2.symm
      · exact .inr ⟨g, List.mem_cons_of_mem _ h, rfl⟩
    · rcases List.mem_cons.1 h with rfl | h
      · exact .inr ⟨g, List.mem_cons_self, rfl⟩
      · obtain h | ⟨g1, hg1, h1⟩ := ih h
        · exact .inl h
        · exact .inr ⟨g1, List.mem_cons_of_mem _ hg1, h1⟩

theorem Groups.Ascending.push {groups : Groups P} (h : groups.Ascending) (shard : String) (x : Uuid × ProtocolEvent P) :
    (pushGroup shard x groups).Ascending := by
  induction groups with
  | nil => simp [pushGroup, Groups.Ascending]
  | cons g gs ih =>
    obtain ⟨hg, hgs⟩ := List.pairwise_cons.1 h
    rw [pushGroup]
    split_ifs with h1 h2
    · refine List.pairwise_cons.2 ⟨?_, h⟩
      intro g' hg'
      rcases List.mem_cons.1 hg' with rfl | hg'
      · exact h1
      · exact h1.trans (hg g' hg')
    · exact List.pairwise_cons.2 ⟨hg, hgs⟩
    · refine List.pairwise_cons.2 ⟨?_, ih hgs⟩
      intro g' hg'
      rcases shard_of_mem_pushGroup hg' with heq | ⟨g1, hg1, heq⟩
      · rw [heq]
        exact lt_of_le_of_ne (not_lt.1 h1) (Ne.symm h2)
      · rw [← heq]
        exact hg g1 hg1

theorem groupOf_cons (shard : String) (g : String × List (Uuid × ProtocolEvent P)) (groups : Groups P) :
    groupOf shard (g :: groups) = if g.1 = shard then g.2 else groupOf shard groups := by
  by_cases h : g.1 = shard <;> simp [groupOf, h]

/-- no group of a shard that is below all groups -/
theorem groupOf_eq_nil {shard : String} {groups : Groups P} (h : ∀ g ∈ groups, shard < g.1) : groupOf shard groups = [] := by
  have hnone : groups.find? (fun g => decide (g.1 = shard)) = none := by
    rw [List.find?_eq_none]
    intro g hg
    simpa using (h g hg).ne'
  rw [groupOf, hnone]
  rfl

theorem groupOf_push {groups : Groups P} (h : groups.Ascending) (shard shard' : String) (x : Uuid × ProtocolEvent P) :
    groupOf shard (pushGroup shard' x groups) =
      if shard' = shard then groupOf shard groups ++ [x] else groupOf shard groups := by
  induction groups with
  | nil =>
    rw [pushGroup, groupOf_cons]
    rfl
  | cons g gs ih =>
    obtain ⟨hg, hgs⟩ := List.pairwise_cons.1 h
    rw [pushGroup]
    by_cases h1 : shard' < g.1
    · rw [if_pos h1, groupOf_cons]
      by_cases hs : shard' = shard
      · have hnil : groupOf shard (g :: gs) = [] := by
          apply groupOf_eq_nil
          intro g' hg'
          rcases List.mem_cons.1 hg' with rfl | hg'
          · exact hs ▸ h1
          · exact hs ▸ h1.trans (hg g' hg')
        simp [hs, hnil]
      · simp [hs]
    · rw [if_neg h1]
      by_cases h2 : shard' = g.1
      · rw [if_pos h2, groupOf_cons, groupOf_cons]
        by_cases hs : g.1 = shard
        · simp [hs, h2]
        · simp [hs, h2]
      · rw [if_neg h2, groupOf_cons, groupOf_cons, ih hgs]
        by_cases hs : g.1 = shard
        · have hne : shard' ≠ shard := fun h => h2 (h.trans hs.symm)
          simp [hs, hne]
        · simp [hs]

/-! ## What one step does to one worker -/

/-- how a worker's phase can change in one step, and the entries of the batch that the step commits -/
inductive Moves (s : State P) : Phase P → Phase P → List (Uuid × ProtocolEvent P) → Prop
  | stay {p : Phase P} : Moves s p p []
  | clear {p p' : Phase P} (hread : p'.toRead = []) (hgroups : p'.groups = []) : Moves s p p' []
  | select : Moves s .locked (.reading (pendingRows s drainBatchSize) []) []
  | read {r : OutboxRow P} {rest : List (OutboxRow P)} {groups : Groups P} {event : ProtocolEvent P}
    (h : r.event = some event) :
    Moves s (.reading (r :: rest) groups) (.reading rest (pushGroup (shardIdForEvent event) (r.id, event) groups)) []
  | skip {r : OutboxRow P} {rest : List (OutboxRow P)} {groups : Groups P} (h : r.event = none) :
    Moves s (.reading (r :: rest) groups) (.reading rest groups) []
  | readAll {groups : Groups P} : Moves s (.reading [] groups) (.settling groups) []
  | refused {g : String × List (Uuid × ProtocolEvent P)} {groups : Groups P} :
    Moves s (.settling (g :: groups)) (.settling groups) []
  | settled {g : String × List (Uuid × ProtocolEvent P)} {groups : Groups P} {p' : Phase P} (hread : p'.toRead = [])
    (hgroups : p'.groups = groups) : Moves s (.settling (g :: groups)) p' g.2
  | mark {batchId : Uuid} {ids ids' : List Uuid} {groups : Groups P} :
    Moves s (.marking batchId ids groups) (.marking batchId ids' groups) []
  | markedAll {batchId : Uuid} {groups : Groups P} : Moves s (.marking batchId [] groups) (.settling groups) []

/-- what a step does to the log and to the workers: one worker moves, the others stay -/
def StepMoves (s t : State P) : Prop :=
  ∃ w entries, t.log = s.log ++ entries ∧ Moves s (s.workers w) (t.workers w) entries ∧
    ∀ w', w' ≠ w → t.workers w' = s.workers w'

theorem stepMoves_of_eq {t : State P} (hlog : t.settled = s.settled) (hworkers : t.workers = s.workers) : StepMoves s t :=
  ⟨0, [], by simp [State.log, hlog], by rw [hworkers]; exact .stay, fun w' _ => by rw [hworkers]⟩

theorem stepMoves_setPhase {t : State P} {w : ℕ} {phase : Phase P} (hlog : t.settled = s.settled)
    (hworkers : t.workers = s.workers) (h : Moves s (s.workers w) phase []) : StepMoves s (t.setPhase w phase) := by
  refine ⟨w, [], by simp [State.log, State.setPhase, hlog], by rwa [workers_setPhase], ?_⟩
  intro w' hw'
  simp [State.setPhase, Function.update_of_ne hw', hworkers]

theorem stepMoves_statement {effect : State P} {w : ℕ} {answer : Answer} {next : Phase P}
    (hlog : effect.settled = s.settled) (hworkers : effect.workers = s.workers) (h : Moves s (s.workers w) next []) :
    StepMoves s (s.statement w answer effect next) := by
  unfold State.statement
  split_ifs
  · exact stepMoves_setPhase rfl rfl (.clear rfl rfl)
  · cases answer with
    | ok => exact stepMoves_setPhase hlog hworkers h
    | failed => exact stepMoves_setPhase rfl rfl (.clear rfl rfl)
    | lost => exact stepMoves_setPhase hlog hworkers (.clear rfl rfl)

theorem endSession_frame (s : State P) (w : ℕ) : (s.endSession w).settled = s.settled ∧ (s.endSession w).workers = s.workers := by
  unfold State.endSession
  split_ifs <;> exact ⟨rfl, rfl⟩

theorem step_moves (cfg : Config P) (s : State P) (op : Op P) : StepMoves s (step cfg s op) := by
  cases op with
  | begin t now =>
    rw [step]
    split_ifs
    · exact stepMoves_of_eq rfl rfl
    · exact stepMoves_of_eq rfl rfl
  | enqueue t id event =>
    rw [step]
    split
    · split_ifs
      · exact stepMoves_of_eq rfl rfl
      · exact stepMoves_of_eq rfl rfl
    · exact stepMoves_of_eq rfl rfl
  | commit t =>
    rw [step]
    split
    · exact stepMoves_of_eq rfl rfl
    · exact stepMoves_of_eq rfl rfl
  | rollback t =>
    rw [step]
    split
    · exact stepMoves_of_eq rfl rfl
    · exact stepMoves_of_eq rfl rfl
  | acquire w =>
    rw [step]
    split
    · split_ifs
      · exact stepMoves_setPhase (t := { s with lock := some w }) rfl rfl (.clear rfl rfl)
      · exact stepMoves_of_eq rfl rfl
    · exact stepMoves_of_eq rfl rfl
  | select w =>
    rw [step]
    split
    · rename_i hw
      split_ifs
      · exact stepMoves_setPhase rfl rfl (hw ▸ .select)
      · exact stepMoves_setPhase rfl rfl (.clear rfl rfl)
    · exact stepMoves_of_eq rfl rfl
  | read w now answer =>
    rw [step]
    split
    · rename_i groups hw
      exact stepMoves_setPhase rfl rfl (hw ▸ .readAll)
    · rename_i r rest groups hw
      split
      · rename_i event hevent
        exact stepMoves_setPhase rfl rfl (hw ▸ .read hevent)
      · rename_i hevent
        exact stepMoves_statement rfl rfl (hw ▸ .skip hevent)
    · exact stepMoves_of_eq rfl rfl
  | settle w batchId answer =>
    rw [step]
    split
    · exact stepMoves_setPhase rfl rfl (.clear rfl rfl)
    · rename_i shard entries groups hw
      dsimp only
      split_ifs with hfresh
      · exact stepMoves_of_eq rfl rfl
      · have hothers : ∀ (phase : Phase P) (w' : ℕ), w' ≠ w → (s.setPhase w phase).workers w' = s.workers w' := by
          intro phase w' hw'
          simp [State.setPhase, Function.update_of_ne hw']
        cases answer with
        | ok =>
          rw [commitBatch_fresh hfresh]
          refine ⟨w, entries, by simp [State.log], ?_, hothers _⟩
          simp only [workers_setPhase, hw]
          exact .settled rfl rfl
        | failed => exact stepMoves_setPhase rfl rfl (hw ▸ .refused)
        | lost =>
          rw [commitBatch_fresh hfresh]
          refine ⟨w, entries, by simp [State.log], ?_, hothers _⟩
          simp only [workers_setPhase, hw]
          exact .settled rfl rfl
    · exact stepMoves_of_eq rfl rfl
  | mark w now answer =>
    rw [step]
    split
    · rename_i batchId groups hw
      exact stepMoves_setPhase rfl rfl (hw ▸ .markedAll)
    · rename_i batchId id ids groups hw
      exact stepMoves_statement rfl rfl (hw ▸ .mark)
    · exact stepMoves_of_eq rfl rfl
  | release w =>
    rw [step]
    split
    · exact stepMoves_setPhase (endSession_frame s w).1 (endSession_frame s w).2 (.clear rfl rfl)
    · exact stepMoves_of_eq rfl rfl
  | crash w => exact stepMoves_setPhase (endSession_frame s w).1 (endSession_frame s w).2 (.clear rfl rfl)
  | loseSession w => exact stepMoves_of_eq (endSession_frame s w).1 (endSession_frame s w).2

/-- a property of phases that every move keeps holds of all workers after a step -/
theorem StepMoves.phases {t : State P} (h : StepMoves s t) {motive : Phase P → Prop} (hold : ∀ w, motive (s.workers w))
    (hmove : ∀ w entries, t.log = s.log ++ entries → Moves s (s.workers w) (t.workers w) entries → motive (t.workers w))
    (w : ℕ) : motive (t.workers w) := by
  obtain ⟨w', entries, hlog, hmoves, hothers⟩ := h
  by_cases hw : w = w'
  · subst hw
    exact hmove w entries hlog hmoves
  · rw [hothers w hw]
    exact hold w

theorem Moves.ascending {p p' : Phase P} {entries : List (Uuid × ProtocolEvent P)} (h : Moves s p p' entries)
    (hp : p.groups.Ascending) : p'.groups.Ascending := by
  cases h with
  | stay => exact hp
  | clear _ hgroups => rw [hgroups]; exact List.Pairwise.nil
  | select => exact List.Pairwise.nil
  | read _ => exact Groups.Ascending.push hp _ _
  | skip _ => exact hp
  | readAll => exact hp
  | refused => exact (List.pairwise_cons.1 hp).2
  | settled _ hgroups => rw [hgroups]; exact (List.pairwise_cons.1 hp).2
  | mark => exact hp
  | markedAll => exact hp

theorem groups_ascending (h : ∀ w, (s.workers w).groups.Ascending) (op : Op P) (w : ℕ) :
    ((step cfg s op).workers w).groups.Ascending :=
  (step_moves cfg s op).phases (motive := fun p => p.groups.Ascending) h (fun w _ _ hm => hm.ascending (h w)) w

/-! ## Where a row comes from -/

/-- the parts of a row that its insert fixes -/
def SameInsert (r r' : OutboxRow P) : Prop :=
  r.id = r'.id ∧ r.event = r'.event ∧ r.enqueuedAt = r'.enqueuedAt ∧ r.seq = r'.seq ∧ r.xmin = r'.xmin

/-- the row that an enqueue inserts -/
def newRow (s : State P) (t : ℕ) (id : Uuid) (event : ProtocolEvent P) (startedAt : OffsetDateTime) : OutboxRow P :=
  ⟨id, some event, startedAt, s.rows.length, none, none, t⟩

theorem sameInsert_markRow (id : Uuid) (now : OffsetDateTime) (b : Option Uuid) (r : OutboxRow P) :
    SameInsert r (markRow id now b r) := by
  unfold markRow
  split_ifs <;> exact ⟨rfl, rfl, rfl, rfl, rfl⟩

/-- the table holds the rows of s, some of them marked -/
def SameRows (s t : State P) : Prop :=
  t.rows.length = s.rows.length ∧ (∀ r' ∈ t.rows, ∃ r ∈ s.rows, SameInsert r r') ∧ t.txns = s.txns

theorem SameRows.refl (s : State P) : SameRows s s := ⟨rfl, fun r hr => ⟨r, hr, rfl, rfl, rfl, rfl, rfl⟩, rfl⟩

theorem sameRows_markRow (s : State P) (id : Uuid) (now : OffsetDateTime) (b : Option Uuid) : SameRows s (s.markRow id now b) := by
  refine ⟨by simp [State.markRow], ?_, rfl⟩
  intro r' hr'
  obtain ⟨r, hr, rfl⟩ := List.mem_map.1 hr'
  exact ⟨r, hr, sameInsert_markRow id now b r⟩

theorem sameRows_statement {effect : State P} (h : SameRows s effect) (w : ℕ) (answer : Answer) (next : Phase P) :
    SameRows s (s.statement w answer effect next) := by
  unfold State.statement
  split_ifs
  · exact SameRows.refl s
  · cases answer with
    | ok => exact h
    | failed => exact SameRows.refl s
    | lost => exact h

theorem sameRows_endSession (s : State P) (w : ℕ) : SameRows s (s.endSession w) := by
  unfold State.endSession
  split_ifs <;> exact SameRows.refl s

/-- workers leave the insert parts of the rows and the transactions alone -/
theorem sameRows_step {op : Op P} (hop : isTxnOp op = false) : SameRows s (step cfg s op) := by
  cases op with
  | begin t now => cases hop
  | enqueue t id event => cases hop
  | commit t => cases hop
  | rollback t => cases hop
  | acquire w =>
    rw [step]
    split
    · split_ifs <;> exact SameRows.refl s
    · exact SameRows.refl s
  | select w =>
    rw [step]
    split
    · split_ifs <;> exact SameRows.refl s
    · exact SameRows.refl s
  | read w now answer =>
    rw [step]
    split
    · exact SameRows.refl s
    · split
      · exact SameRows.refl s
      · exact sameRows_statement (sameRows_markRow s _ _ _) w _ _
    · exact SameRows.refl s
  | settle w batchId answer =>
    rw [step]
    split
    · exact SameRows.refl s
    · dsimp only
      split_ifs
      · exact SameRows.refl s
      · cases answer <;> exact SameRows.refl s
    · exact SameRows.refl s
  | mark w now answer =>
    rw [step]
    split
    · exact SameRows.refl s
    · exact sameRows_statement (sameRows_markRow s _ _ _) w _ _
    · exact SameRows.refl s
  | release w =>
    rw [step]
    split
    · exact sameRows_endSession s w
    · exact SameRows.refl s
  | crash w => exact sameRows_endSession s w
  | loseSession w => exact sameRows_endSession s w

/-- a row's sequence number has been drawn, its transaction has begun, and while the transaction is active the row carries
its start -/
def RowsStarted (s : State P) : Prop :=
  ∀ r ∈ s.rows, r.seq < s.rows.length ∧ s.txns r.xmin ≠ .unused ∧
    ∀ startedAt, s.txns r.xmin = .active startedAt → r.enqueuedAt = startedAt

/-- a transaction that has begun, and does not begin again -/
theorem RowsStarted.of_txns (h : RowsStarted s) {i : ℕ} {status : TxnStatus}
    (hold : s.txns i = .unused ∨ status = .committed ∨ status = .aborted) :
    RowsStarted { s with txns := Function.update s.txns i status } := by
  intro r hr
  obtain ⟨h1, h2, h3⟩ := h r hr
  refine ⟨h1, ?_⟩
  by_cases hi : r.xmin = i
  · subst hi
    rcases hold with hold | rfl | rfl
    · exact absurd hold h2
    · simp
    · simp
  · simpa [Function.update_of_ne hi] using ⟨h2, h3⟩

theorem rows_started (h : RowsStarted s) (op : Op P) : RowsStarted (step cfg s op) := by
  by_cases hop : isTxnOp op = true
  · cases op with
    | begin t now =>
      rw [step]
      split_ifs with ht
      · exact h.of_txns (.inl ht)
      · exact h
    | enqueue t id event =>
      rw [step]
      split
      · rename_i startedAt ht
        split_ifs
        · exact h
        · intro r hr
          rw [List.length_append, List.length_singleton]
          rcases List.mem_append.1 hr with hr | hr
          · obtain ⟨h1, h2⟩ := h r hr
            exact ⟨h1.trans (Nat.lt_succ_self _), h2⟩
          · rw [List.mem_singleton.1 hr]
            simp [ht]
      · exact h
    | commit t =>
      rw [step]
      split
      · exact h.of_txns (.inr (.inl rfl))
      · exact h
    | rollback t =>
      rw [step]
      split
      · exact h.of_txns (.inr (.inr rfl))
      · exact h
    | _ => cases hop
  · have hsame : SameRows s (step cfg s op) := sameRows_step (Bool.not_eq_true _ ▸ hop)
    obtain ⟨hlen, hrows, htxns⟩ := hsame
    intro r' hr'
    obtain ⟨r, hr, -, -, h3, h4, h5⟩ := hrows r' hr'
    rw [hlen, htxns, ← h3, ← h4, ← h5]
    exact h r hr

/-! ## A leading row is settled first -/

/-- the rows of a shard that a worker carries, in the order in which it hands them on -/
def Phase.line (shard : String) (phase : Phase P) : List Uuid :=
  (groupOf shard phase.groups).map Prod.fst ++ phase.toRead.map OutboxRow.id

/-- two rows of one shard, of which the drain takes a first: neither their order nor what is visible of them changes -/
structure Pair (shard : String) (a b : OutboxRow P) (s : State P) : Prop where
  rowA : ∃ r ∈ s.rows, SameInsert a r
  rowB : ∃ r ∈ s.rows, SameInsert b r
  shardA : ∃ e, a.event = some e ∧ shardIdForEvent e = shard
  shardB : ∃ e, b.event = some e ∧ shardIdForEvent e = shard
  order : ¬ before b a
  txns : s.txns a.xmin = .committed ∨ a.xmin = b.xmin

/-- wherever b is settled, or about to be, a is settled or about to be settled before it -/
structure Led (shard : String) (a b : OutboxRow P) (s : State P) : Prop where
  log : Leads a.id b.id (s.log.map Prod.fst)
  lines : ∀ w, a.id ∈ s.log.map Prod.fst ∨ Leads a.id b.id ((s.workers w).line shard)

variable {shard : String} {a b : OutboxRow P}

theorem Pair.step (h : Pair shard a b s) (op : Op P) : Pair shard a b (step cfg s op) := by
  have hlater := later_step cfg s op
  have hrow : ∀ x : OutboxRow P, (∃ r ∈ s.rows, SameInsert x r) → ∃ r ∈ (Outbox.step cfg s op).rows, SameInsert x r := by
    rintro x ⟨r, hr, h1, h2, h3, h4, h5⟩
    obtain ⟨r', hr', g1, g2, g3, g4, g5, -⟩ := hlater.rows r hr
    exact ⟨r', hr', h1.trans g1.symm, h2.trans g2.symm, h3.trans g3.symm, h4.trans g4.symm, h5.trans g5.symm⟩
  exact ⟨hrow a h.rowA, hrow b h.rowB, h.shardA, h.shardB, h.order, h.txns.imp (hlater.txns _) id⟩

/-- the event of a row in the table -/
theorem event_of_hasRow (hinv : Inv cfg s) {x : OutboxRow P} (hx : ∃ r ∈ s.rows, SameInsert x r)
    {event : Option (ProtocolEvent P)} (h : s.HasRow x.id event) : event = x.event := by
  obtain ⟨r, hr, hid, hevent, -⟩ := hx
  obtain ⟨r', hr', hid', hevent', -⟩ := h
  have hsame : r' = r := eq_of_id hinv.ids hr' hr (hid'.trans hid)
  rw [← hevent', hsame, hevent]

theorem leads_pendingRows (hinv : Inv cfg s) (h : Pair shard a b s) (limit : ℕ) :
    a.id ∈ s.log.map Prod.fst ∨ Leads a.id b.id ((pendingRows s limit).map OutboxRow.id) := by
  obtain ⟨ra, hra, ha1, ha2, ha3, ha4, ha5⟩ := h.rowA
  obtain ⟨ea, hea, -⟩ := h.shardA
  by_cases hm : ra.committedAt.isSome = true
  · left
    have hlog := hinv.marked ra hra hm ea (ha2 ▸ hea)
    rw [ha1]
    exact List.mem_map_of_mem hlog
  · right
    intro l1 l2 heq
    obtain ⟨m1, m2, hm12, rfl, hm2⟩ := List.map_eq_append_iff.1 heq
    obtain ⟨r, m2, rfl, hrid, rfl⟩ := List.map_eq_cons_iff.1 hm2
    -- r is the row of b, it is visible, and so is the row of a
    obtain ⟨rb, hrb, hb1, -, hb3, hb4, hb5⟩ := h.rowB
    have hr : r ∈ pendingRows s limit := by rw [hm12]; simp
    obtain ⟨hrs, hpend⟩ := mem_pendingRows hr
    obtain rfl : r = rb := eq_of_id hinv.ids hrs hrb (hrid.trans hb1)
    have hvis : s.visible r = true := by
      simp only [State.pending, Bool.and_eq_true] at hpend
      exact hpend.1
    have hpa : s.pending ra = true := by
      have hva : s.visible ra = true := by
        simp only [State.visible, decide_eq_true_eq] at hvis ⊢
        rcases h.txns with ht | ht
        · exact ha5 ▸ ht
        · rw [← ha5, ht, hb5]
          exact hvis
      simpa [State.pending, hva] using hm
    set sorted := (s.rows.filter s.pending).insertionSort before with hsorted
    have hmem : ra ∈ sorted := (List.mem_insertionSort before).2 (List.mem_filter.2 ⟨hra, hpa⟩)
    have hsplit : sorted = m1 ++ r :: (m2 ++ sorted.drop limit) := by
      have htake : sorted.take limit = m1 ++ r :: m2 := by rw [hsorted]; exact hm12
      calc sorted = sorted.take limit ++ sorted.drop limit := (List.take_append_drop limit sorted).symm
        _ = m1 ++ r :: (m2 ++ sorted.drop limit) := by rw [htake]; simp
    have hpair : sorted.Pairwise before := List.pairwise_insertionSort before _
    rw [hsplit] at hmem hpair
    have hnot : ¬ before r ra := by
      have horder := h.order
      unfold before at horder ⊢
      rwa [← ha3, ← ha4, ← hb3, ← hb4]
    rcases List.mem_append.1 hmem with hmem | hmem
    · rw [ha1]
      exact List.mem_map_of_mem hmem
    · rcases List.mem_cons.1 hmem with rfl | hmem
      · exact absurd (.inr ⟨rfl, le_rfl⟩) hnot
      · exact absurd ((List.pairwise_cons.1 (List.pairwise_append.1 hpair).2.1).1 ra hmem) hnot

theorem line_settling_cons {g : String × List (Uuid × ProtocolEvent P)} {groups : Groups P} {p' : Phase P}
    (hasc : Groups.Ascending (g :: groups)) (hread : p'.toRead = []) (hgroups : p'.groups = groups) :
    p'.line shard = if g.1 = shard then [] else (Phase.settling (g :: groups)).line shard := by
  have hline : p'.line shard = (groupOf shard groups).map Prod.fst := by rw [Phase.line, hread, hgroups]; simp
  have hsettling : (Phase.settling (g :: groups)).line shard = (groupOf shard (g :: groups)).map Prod.fst := by
    simp [Phase.line, Phase.toRead, Phase.groups]
  rw [hline, hsettling, groupOf_cons]
  split_ifs with hg
  · have hnil : groupOf shard groups = [] := by
      apply groupOf_eq_nil
      exact fun g' hg' => hg ▸ (List.pairwise_cons.1 hasc).1 g' hg'
    simp [hnil]
  · rfl

/-- the line of the worker that moves -/
theorem Moves.line {p p' : Phase P} {entries : List (Uuid × ProtocolEvent P)} (hinv : Inv cfg s) (hpair : Pair shard a b s)
    (hasc : p.groups.Ascending) (hok : PhaseOk s p)
    (hline : a.id ∈ s.log.map Prod.fst ∨ Leads a.id b.id (p.line shard)) (h : Moves s p p' entries) :
    a.id ∈ s.log.map Prod.fst ∨ Leads a.id b.id (p'.line shard) := by
  obtain ⟨ea, hea, hshard⟩ := hpair.shardA
  have hnil : Leads a.id b.id [] := leads_of_notMem (by simp)
  cases h with
  | stay => exact hline
  | clear hread hgroups =>
    right
    rw [Phase.line, hread, hgroups]
    exact hnil
  | select =>
    have hsel := leads_pendingRows hinv hpair drainBatchSize
    simpa [Phase.line, Phase.groups, Phase.toRead, groupOf] using hsel
  | @read r rest groups event hevent =>
    apply hline.imp id
    intro hl
    have hrow : s.HasRow r.id r.event := hok.toRead r (by simp [Phase.toRead])
    have hasc' : Groups.Ascending groups := hasc
    simp only [Phase.line, Phase.groups, Phase.toRead, List.map_cons] at hl ⊢
    rw [groupOf_push hasc']
    split_ifs with hs
    · simpa using hl
    · apply hl.erase
      intro hid
      rw [hid] at hrow
      have heq := event_of_hasRow hinv hpair.rowA hrow
      rw [hevent, hea] at heq
      cases heq
      exact hs hshard
  | @skip r rest groups hevent =>
    apply hline.imp id
    intro hl
    have hrow : s.HasRow r.id r.event := hok.toRead r (by simp [Phase.toRead])
    simp only [Phase.line, Phase.groups, Phase.toRead, List.map_cons] at hl ⊢
    apply hl.erase
    intro hid
    rw [hid] at hrow
    have heq := event_of_hasRow hinv hpair.rowA hrow
    rw [hevent, hea] at heq
    cases heq
  | readAll => simpa [Phase.line, Phase.groups, Phase.toRead] using hline
  | @refused g groups =>
    have hrest : (Phase.settling groups).groups = groups := rfl
    rw [line_settling_cons hasc rfl hrest]
    split_ifs
    · exact .inr hnil
    · exact hline
  | settled hread hgroups =>
    rw [line_settling_cons hasc hread hgroups]
    split_ifs
    · exact .inr hnil
    · exact hline
  | mark => exact hline
  | markedAll => exact hline

/-- what the moving worker settles -/
theorem Moves.log {p p' : Phase P} {entries : List (Uuid × ProtocolEvent P)} (hinv : Inv cfg s) (hpair : Pair shard a b s)
    (hok : PhaseOk s p) (hlog : Leads a.id b.id (s.log.map Prod.fst))
    (hline : a.id ∈ s.log.map Prod.fst ∨ Leads a.id b.id (p.line shard)) (h : Moves s p p' entries) :
    Leads a.id b.id (s.log.map Prod.fst ++ entries.map Prod.fst) := by
  cases h with
  | @settled g groups _ hread hgroups =>
    apply hlog.append
    by_cases hg : g.1 = shard
    · simpa [Phase.line, Phase.groups, Phase.toRead, groupOf_cons, hg] using hline
    · -- b is not in the group of another shard
      right
      apply leads_of_notMem
      intro hmem
      obtain ⟨x, hx, hid⟩ := List.mem_map.1 hmem
      have hrow := hok.groups x (by simp [Phase.groups, Groups.entries, hx])
      rw [hid] at hrow
      have heq := event_of_hasRow hinv hpair.rowB hrow
      obtain ⟨eb, heb, hshard⟩ := hpair.shardB
      rw [heb] at heq
      have hx2 : shardIdForEvent x.2 = g.1 := hok.sharded g (by simp [Phase.groups]) x hx
      rw [Option.some.inj heq, hshard] at hx2
      exact hg hx2.symm
  | stay => simpa using hlog
  | clear _ _ => simpa using hlog
  | select => simpa using hlog
  | read _ => simpa using hlog
  | skip _ => simpa using hlog
  | readAll => simpa using hlog
  | refused => simpa using hlog
  | mark => simpa using hlog
  | markedAll => simpa using hlog

theorem led_step (hinv : Inv cfg s) (hasc : ∀ w, (s.workers w).groups.Ascending) (hpair : Pair shard a b s)
    (h : Led shard a b s) (op : Op P) : Led shard a b (step cfg s op) := by
  obtain ⟨w, entries, hlog, hmove, hothers⟩ := step_moves cfg s op
  have hids : (step cfg s op).log.map Prod.fst = s.log.map Prod.fst ++ entries.map Prod.fst := by rw [hlog, List.map_append]
  refine ⟨?_, ?_⟩
  · rw [hids]
    exact hmove.log hinv hpair (hinv.phases w) h.log (h.lines w)
  · intro w'
    rw [hids]
    have hgrow : a.id ∈ s.log.map Prod.fst → a.id ∈ s.log.map Prod.fst ++ entries.map Prod.fst := List.mem_append_left _
    by_cases hw : w' = w
    · subst hw
      exact (hmove.line hinv hpair (hasc w') (hinv.phases w') (h.lines w')).imp hgrow id
    · rw [hothers w' hw]
      exact (h.lines w').imp hgrow id

theorem led_run (hinv : Inv cfg s) (hasc : ∀ w, (s.workers w).groups.Ascending) (hpair : Pair shard a b s)
    (h : Led shard a b s) (ops : List (Op P)) : Led shard a b (run cfg s ops) := by
  induction ops generalizing s with
  | nil => exact h
  | cons op ops ih =>
    exact ih (step_inv hinv op) (groups_ascending hasc op) (hpair.step op) (led_step hinv hasc hpair h op)

/-! ## The order of settlement -/

theorem mem_entries_of_groupOf {groups : Groups P} {x : Uuid × ProtocolEvent P} (h : x ∈ groupOf shard groups) :
    x ∈ Groups.entries groups := by
  unfold groupOf at h
  cases hf : groups.find? fun g => decide (g.1 = shard) with
  | none => rw [hf] at h; cases h
  | some g =>
    rw [hf] at h
    exact List.mem_flatMap.2 ⟨g, List.mem_of_find?_eq_some hf, h⟩

theorem run_frames (cfg : Config P) (ops : List (Op P)) : Inv cfg (run cfg .init ops) ∧
    (∀ w, ((run cfg (.init : State P) ops).workers w).groups.Ascending) ∧ RowsStarted (run cfg (.init : State P) ops) := by
  refine ⟨inv_run inv_init ops, ?_⟩
  have hinit : (∀ w, ((.init : State P).workers w).groups.Ascending) ∧ RowsStarted (.init : State P) :=
    ⟨fun w => List.Pairwise.nil, by simp [RowsStarted, State.init]⟩
  generalize (State.init : State P) = s at hinit
  induction ops generalizing s with
  | nil => exact hinit
  | cons op ops ih => exact ih (step cfg s op) ⟨groups_ascending hinit.1 op, rows_started hinit.2 op⟩

/-- a new row is led by every row that the drain takes before it: nobody has read it -/
theorem led_newRow (hinv : Inv cfg s) (hid : b.id ∉ s.rows.map OutboxRow.id) (t : State P) (hlog : t.settled = s.settled)
    (hworkers : t.workers = s.workers) : Led shard a b t := by
  have hnot : ∀ event, ¬ s.HasRow b.id event := by
    rintro event ⟨r, hr, hrid, -⟩
    exact hid (hrid ▸ List.mem_map_of_mem hr)
  constructor
  · apply leads_of_notMem
    rw [State.log, hlog, ← State.log]
    intro hmem
    obtain ⟨x, hx, hxid⟩ := List.mem_map.1 hmem
    exact hnot _ (hxid ▸ hinv.log x hx)
  · intro w
    right
    apply leads_of_notMem
    rw [hworkers, Phase.line, List.mem_append, not_or]
    refine ⟨?_, ?_⟩
    · intro hmem
      obtain ⟨x, hx, hxid⟩ := List.mem_map.1 hmem
      exact hnot _ (hxid ▸ (hinv.phases w).groups x (mem_entries_of_groupOf hx))
    · intro hmem
      obtain ⟨r, hr, hrid⟩ := List.mem_map.1 hmem
      exact hnot _ (hrid ▸ (hinv.phases w).toRead r hr)

/-- the ledger of an authority is the log of its shards, in the same order -/
theorem ledgerEvents_eq_log (hinv : Inv cfg s) (authority : Authority) :
    s.ledgerEvents authority =
      (s.log.filter fun x => decide (cfg.targetForShard (shardIdForEvent x.2) = authority)).map Prod.snd := by
  have hbatches := hinv.batches
  simp only [State.ledgerEvents, State.ledger, State.log]
  generalize s.settled = settled at hbatches
  induction settled with
  | nil => rfl
  | cons x settled ih =>
    obtain ⟨⟨shard, hauthority, hshard⟩, hrest⟩ := List.forall_mem_cons.1 hbatches
    have hx : x.entries.filter (fun y => decide (cfg.targetForShard (shardIdForEvent y.2) = authority)) =
        if x.authority = authority then x.entries else [] := by
      split_ifs with h
      · rw [List.filter_eq_self]
        intro y hy
        simp [hshard y hy, ← hauthority, h]
      · rw [List.filter_eq_nil_iff]
        intro y hy
        simp [hshard y hy, ← hauthority, h]
    rw [List.flatMap_cons, List.filter_append, List.map_append, ← ih hrest, hx, List.filter_cons]
    split_ifs with h h' h'
    · simp [Settled.batch]
    · simp [h'] at h
    · simp [h'] at h
    · rfl

/-- **Outbox order.** In every run, whatever faults it has: when a transaction enqueues an event, every row of the event's
shard that is already there is settled before it, if it was inserted by the same transaction, or by a transaction that had
committed and that began no later. The ledgers hold the events in the order in which their rows were settled. -/
theorem outbox_order (cfg : Config P) (ops later : List (Op P)) (t : ℕ) (id : Uuid) (event earlier : ProtocolEvent P)
    (startedAt : OffsetDateTime) (a : OutboxRow P) (hactive : (run cfg .init ops).txns t = .active startedAt)
    (haccepted : enqueueRefuses cfg event = false) (hid : id ∉ (run cfg .init ops).rows.map OutboxRow.id)
    (ha : a ∈ (run cfg .init ops).rows) (hevent : a.event = some earlier)
    (hshard : shardIdForEvent earlier = shardIdForEvent event)
    (hbefore : a.xmin = t ∨ (run cfg .init ops).visible a = true ∧ a.enqueuedAt ≤ startedAt) :
    Leads a.id id ((run cfg .init (ops ++ .enqueue t id event :: later)).log.map Prod.fst) ∧
    ∀ authority, (run cfg .init (ops ++ .enqueue t id event :: later)).ledgerEvents authority =
      ((run cfg .init (ops ++ .enqueue t id event :: later)).log.filter fun x =>
        decide (cfg.targetForShard (shardIdForEvent x.2) = authority)).map Prod.snd := by
  have hrun : run cfg .init (ops ++ .enqueue t id event :: later) =
      run cfg (step cfg (run cfg .init ops) (.enqueue t id event)) later := by
    simp [run]
  obtain ⟨hinv, hasc, hstarted⟩ := run_frames cfg ops
  refine ⟨?_, fun authority => ledgerEvents_eq_log (inv_run inv_init _) authority⟩
  rw [hrun]
  generalize run cfg .init ops = s at *
  -- the new row carries the start of its transaction, so it comes after a
  have hstep : step cfg s (.enqueue t id event) = { s with rows := s.rows ++ [newRow s t id event startedAt] } := by
    rw [step, hactive]
    dsimp only
    rw [if_neg (by simp [haccepted, hid])]
    rfl
  obtain ⟨hseq, -, hstart⟩ := hstarted a ha
  have hle : a.enqueuedAt ≤ startedAt := by
    rcases hbefore with hx | ⟨-, hle⟩
    · exact (hstart startedAt (hx ▸ hactive)).le
    · exact hle
  have horder : ¬ before (newRow s t id event startedAt) a := by
    rintro (hlt | ⟨-, hge⟩)
    · exact absurd hlt (not_lt.2 hle)
    · exact absurd hge (not_le.2 hseq)
  have hpair : Pair (shardIdForEvent event) a (newRow s t id event startedAt) (step cfg s (.enqueue t id event)) := by
    rw [hstep]
    refine ⟨⟨a, by simp [ha], rfl, rfl, rfl, rfl, rfl⟩, ⟨_, by simp, rfl, rfl, rfl, rfl, rfl⟩, ⟨earlier, hevent, hshard⟩,
      ⟨event, rfl, rfl⟩, horder, ?_⟩
    rcases hbefore with hx | ⟨hv, -⟩
    · exact .inr hx
    · exact .inl (by simpa [State.visible] using hv)
  have hled : Led (shardIdForEvent event) a (newRow s t id event startedAt) (step cfg s (.enqueue t id event)) :=
    led_newRow hinv hid _ (by rw [hstep]) (by rw [hstep])
  exact (led_run (step_inv hinv _) (groups_ascending hasc _) hpair hled later).log

/-! ## A transaction that began first -/

/-- transaction 1 begins, transaction 0 begins, enqueues and commits, then transaction 1 goes on -/
def overtaken (start0 start1 : OffsetDateTime) : List (Op String) :=
  [.begin 1 start1, .begin 0 start0, .enqueue 0 (.replicate 16 1) (testEvent 1), .commit 0]

/-- a tick over two pending rows -/
def tickOfTwo : List (Op String) :=
  [.commit 1, .acquire 0, .select 0, .read 0 0 .ok, .read 0 0 .ok, .read 0 0 .ok, .settle 0 (.replicate 16 7) .ok,
    .mark 0 0 .ok, .mark 0 0 .ok, .mark 0 0 .ok, .settle 0 (.replicate 16 0) .ok, .release 0]

/-- the second transaction inserts its row after the first one has committed, and is settled first since it began first -/
theorem later_insert_settled_first :
    ¬ ∀ (cfg : Config String) (ops later : List (Op String)) (t : ℕ) (id : Uuid) (event earlier : ProtocolEvent String)
      (startedAt : OffsetDateTime) (a : OutboxRow String), (run cfg .init ops).txns t = .active startedAt →
      enqueueRefuses cfg event = false → id ∉ (run cfg .init ops).rows.map OutboxRow.id → a ∈ (run cfg .init ops).rows →
      a.event = some earlier → shardIdForEvent earlier = shardIdForEvent event →
      (a.xmin = t ∨ (run cfg .init ops).visible a = true) →
      runOk cfg .init (ops ++ .enqueue t id event :: later) = true →
      Leads a.id id ((run cfg .init (ops ++ .enqueue t id event :: later)).log.map Prod.fst) := by
  intro hclaim
  have hleads := hclaim testConfig (overtaken 1 0) tickOfTwo 1 (.replicate 16 2) (testEvent 2) (testEvent 1) 0
    ⟨.replicate 16 1, some (testEvent 1), 1, 0, none, none, 0⟩ rfl (by decide +kernel) (by decide +kernel)
    (List.mem_singleton.2 rfl) rfl rfl (.inr (by decide +kernel)) (by decide +kernel)
  have hlog : (run testConfig .init (overtaken 1 0 ++ .enqueue 1 (.replicate 16 2) (testEvent 2) :: tickOfTwo)).log.map
      Prod.fst = [.replicate 16 2, .replicate 16 1] := by decide +kernel
  have hmem := hleads [] [.replicate 16 1] hlog
  cases hmem

/-- where the first transaction began first, it is settled first -/
theorem outbox_order_two_transactions :
    Leads (.replicate 16 1) (.replicate 16 2)
      ((run testConfig .init (overtaken 0 1 ++ .enqueue 1 (.replicate 16 2) (testEvent 2) :: tickOfTwo)).log.map Prod.fst) :=
  (outbox_order testConfig (overtaken 0 1) tickOfTwo 1 (.replicate 16 2) (testEvent 2) (testEvent 1) 1
    ⟨.replicate 16 1, some (testEvent 1), 0, 0, none, none, 0⟩ rfl (by decide +kernel) (by decide +kernel)
    (List.mem_singleton.2 rfl) rfl rfl (.inr ⟨by decide +kernel, by decide⟩)).1

end Avalon.Outbox
