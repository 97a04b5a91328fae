/-
How often and when outbox rows are settled (`crates/server/src/outbox.rs`).

The batch's commit and the marking of its rows are separate steps, and each tick draws a new batch id: a fault between them
leaves settled rows pending, and the next tick settles them again (`crash_before_marking_settles_twice`). A tick reads the 20
oldest pending rows of all shards together, so that many rows of shards that refuse commits keep everything behind them out.

Results:
- `once_run`: no row is settled twice, unless a fault falls between a batch's commit and the marking of its last row.
- `settled_after_ticks`: a row whose shard accepts commits is settled after as many fault-free ticks as there are rows up to
  it, if fewer than 20 pending rows of refusing shards are ahead of it.
- `outbox_settlement`: both, and that no batch holds events of two shards.
-/
import Mathlib.Tactic
import Mathlib.Data.List.Sort
import Mathlib.Data.List.Perm.Subperm
import Avalon.Core.Bytes
import Avalon.Core.Sha256
import Avalon.Protocol.LedgerEntry
import Avalon.Protocol.Events
import Avalon.Server.Outbox

namespace Avalon.Outbox

open Avalon.LedgerEntry Avalon.Events

variable {P : Type} {cfg : Config P} {s : State P}

/-! ## No row is settled twice -/

/-- no fault between the commit of a batch and the marking of its last row, and no lost session with rows in hand -/
def stepOk (s : State P) : Op P → Bool
  | .settle w _ answer =>
    match s.workers w with
    | .settling (_ :: _) => answer != .lost
    | _ => true
  | .mark w _ answer =>
    match s.workers w with
    | .marking _ (_ :: ids) _ => answer == .ok || answer == .lost && ids.isEmpty
    | _ => true
  | .crash w => (s.workers w).unmarked.isEmpty
  | .loseSession w => (s.workers w).unmarked.isEmpty && (s.workers w).carried.isEmpty
  | _ => true

def runOk (cfg : Config P) : State P → List (Op P) → Bool
  | _, [] => true
  | s, op :: ops => stepOk s op && runOk cfg (step cfg s op) ops

/-- the row is there and marked -/
def State.Marked (s : State P) (id : Uuid) : Prop := ∃ r ∈ s.rows, r.id = id ∧ r.committedAt.isSome = true

theorem Later.marked {t : State P} (h : Later s t) {id : Uuid} (hm : s.Marked id) : t.Marked id := by
  obtain ⟨r, hr, rfl, hc⟩ := hm
  obtain ⟨r', hr', h1, -, -, -, -, h6⟩ := h.rows r hr
  exact ⟨r', hr', h1, h6 hc⟩

theorem marked_markRow {id : Uuid} {event : Option (ProtocolEvent P)} (h : s.HasRow id event) (now : OffsetDateTime)
    (b : Option Uuid) : (s.markRow id now b).Marked id := by
  obtain ⟨r, hr, rfl, -, -⟩ := h
  exact ⟨_, List.mem_map_of_mem hr, by simp [Outbox.markRow]⟩

/-- the settled rows are distinct; each is marked, or the lock holder is about to mark it; what the lock holder carries is
not settled, and nobody else carries anything -/
structure Once (s : State P) : Prop where
  nodup : (s.log.map Prod.fst).Nodup
  others : ∀ w, s.lock ≠ some w → (s.workers w).carried = [] ∧ (s.workers w).unmarked = []
  carriedNodup : ∀ w, (s.workers w).carried.Nodup
  carriedNew : ∀ w, ∀ i ∈ (s.workers w).carried, i ∉ s.log.map Prod.fst
  logMarked : ∀ i ∈ s.log.map Prod.fst, (∃ w, s.lock = some w ∧ i ∈ (s.workers w).unmarked) ∨ s.Marked i

theorem once_init : Once (State.init : State P) := by
  refine ⟨?_, ?_, ?_, ?_, ?_⟩ <;>
    simp [State.init, State.log, Phase.carried, Phase.toRead, Phase.groups, Groups.entries, Phase.unmarked]

/-- a worker that goes on to carry less, with what it leaves unmarked marked -/
theorem Once.setPhase (h : Once s) {w : ℕ} {phase : Phase P} (hlock : s.lock = some w ∨ phase.carried = [] ∧ phase.unmarked = [])
    (hnodup : phase.carried.Nodup) (hnew : ∀ i ∈ phase.carried, i ∉ s.log.map Prod.fst)
    (hmarked : ∀ i ∈ (s.workers w).unmarked, i ∈ phase.unmarked ∨ s.Marked i) : Once (s.setPhase w phase) := by
  refine ⟨h.nodup, ?_, ?_, ?_, ?_⟩
  · intro w' hw'
    by_cases hw : w' = w
    · subst hw
      rcases hlock with hlock | hbare
      · exact absurd hlock hw'
      · simpa [State.setPhase] using hbare
    · simpa [State.setPhase, Function.update_of_ne hw] using h.others w' hw'
  · intro w'
    by_cases hw : w' = w
    · subst hw
      simpa [State.setPhase] using hnodup
    · simpa [State.setPhase, Function.update_of_ne hw] using h.carriedNodup w'
  · intro w' i hi
    by_cases hw : w' = w
    · subst hw
      exact hnew i (by simpa [State.setPhase] using hi)
    · exact h.carriedNew w' i (by simpa [State.setPhase, Function.update_of_ne hw] using hi)
  · intro i hi
    rcases h.logMarked i hi with ⟨w', hw', hmem⟩ | hm
    · by_cases hw : w' = w
      · subst hw
        refine (hmarked i hmem).imp (fun hp => ⟨w', hw', ?_⟩) id
        simpa [State.setPhase] using hp
      · exact .inl ⟨w', hw', by simpa [State.setPhase, Function.update_of_ne hw] using hmem⟩
    · exact .inr hm

/-- a worker that leaves nothing unmarked may drop what it carries -/
theorem Once.drop (h : Once s) {w : ℕ} {phase : Phase P} (hc : phase.carried = []) (hu : phase.unmarked = [])
    (hmarked : ∀ i ∈ (s.workers w).unmarked, s.Marked i) : Once (s.setPhase w phase) :=
  h.setPhase (.inr ⟨hc, hu⟩) (by simp [hc]) (by simp [hc]) fun i hi => .inr (hmarked i hi)

theorem Once.holder (h : Once s) {w : ℕ} (hne : (s.workers w).carried ≠ [] ∨ (s.workers w).unmarked ≠ []) :
    s.lock = some w := by
  by_contra hlock
  obtain ⟨hc, hu⟩ := h.others w hlock
  exact hne.elim (fun h => h hc) fun h => h hu

theorem Once.endSession (h : Once s) {w : ℕ} (hc : (s.workers w).carried = []) (hu : (s.workers w).unmarked = []) :
    Once (s.endSession w) := by
  unfold State.endSession
  split_ifs with hlock
  · refine ⟨h.nodup, ?_, h.carriedNodup, h.carriedNew, ?_⟩
    · intro w' _
      by_cases hw : w' = w
      · exact hw ▸ ⟨hc, hu⟩
      · exact h.others w' (by simpa [hlock] using Ne.symm hw)
    · intro i hi
      rcases h.logMarked i hi with ⟨w', hw', hmem⟩ | hm
      · obtain rfl : w = w' := Option.some.inj (hlock.symm.trans hw')
        simp [hu] at hmem
      · exact .inr hm
  · exact h

theorem endSession_setPhase (s : State P) (w : ℕ) (phase : Phase P) :
    (s.endSession w).setPhase w phase = (s.setPhase w phase).endSession w := by
  unfold State.endSession State.setPhase
  dsimp only
  split_ifs <;> rfl

/-- a worker that leaves nothing unmarked may end its session -/
theorem Once.leave (h : Once s) {w : ℕ} (hu : (s.workers w).unmarked = []) :
    Once ((s.endSession w).setPhase w .idle) := by
  rw [endSession_setPhase]
  have hdrop : Once (s.setPhase w .idle) := h.drop rfl rfl (by simp [hu])
  exact hdrop.endSession (by simp [State.setPhase, Phase.carried, Phase.toRead, Phase.groups, Groups.entries])
    (by simp [State.setPhase, Phase.unmarked])

theorem carried_settling (groups : Groups P) : (Phase.settling groups).carried = (Groups.entries groups).map Prod.fst := by
  simp [Phase.carried, Phase.toRead, Phase.groups]

theorem carried_marking (batchId : Uuid) (ids : List Uuid) (groups : Groups P) :
    (Phase.marking batchId ids groups).carried = (Groups.entries groups).map Prod.fst := by
  simp [Phase.carried, Phase.toRead, Phase.groups]

/-- the rows of the next batch are settled, and the lock holder has to mark them -/
theorem Once.settle (h : Once s) {w : ℕ} {shard : String} {entries : List (Uuid × ProtocolEvent P)} {groups : Groups P}
    (hw : s.workers w = .settling ((shard, entries) :: groups)) (a : Authority) (batchId : Uuid) :
    Once { s.setPhase w (.marking batchId (entries.map Prod.fst) groups) with
      settled := s.settled ++ [⟨a, batchId, entries⟩] } := by
  have hcarried : (s.workers w).carried = entries.map Prod.fst ++ (Groups.entries groups).map Prod.fst := by
    simp [hw, carried_settling, Groups.entries]
  have hunmarked : (s.workers w).unmarked = [] := by rw [hw]; rfl
  have hlog : (State.log { s.setPhase w (.marking batchId (entries.map Prod.fst) groups) with
      settled := s.settled ++ [⟨a, batchId, entries⟩] }).map Prod.fst = s.log.map Prod.fst ++ entries.map Prod.fst := by
    simp [State.log]
  have hnodup := h.carriedNodup w
  rw [hcarried, List.nodup_append] at hnodup
  obtain ⟨hentries, hgroups, hdisj⟩ := hnodup
  have hnew : ∀ i ∈ entries.map Prod.fst, i ∉ s.log.map Prod.fst := fun i hi =>
    h.carriedNew w i (by rw [hcarried]; exact List.mem_append_left _ hi)
  -- whoever settles a row holds the lock
  have hholder : ∀ i ∈ entries.map Prod.fst, s.lock = some w := by
    intro i hi
    apply h.holder
    rw [hcarried]
    exact .inl (List.ne_nil_of_mem (List.mem_append_left _ hi))
  refine ⟨?_, ?_, ?_, ?_, ?_⟩
  · rw [hlog, List.nodup_append]
    exact ⟨h.nodup, hentries, fun i hi j hj hij => hnew j hj (hij ▸ hi)⟩
  · intro w' hlock'
    by_cases hww : w' = w
    · subst hww
      obtain ⟨hc, -⟩ := h.others w' hlock'
      rw [hcarried, List.append_eq_nil_iff] at hc
      simpa [State.setPhase, carried_marking, Phase.unmarked] using hc.symm
    · simpa [State.setPhase, Function.update_of_ne hww] using h.others w' hlock'
  · intro w'
    by_cases hww : w' = w
    · subst hww
      simpa only [State.setPhase, Function.update_self, carried_marking] using hgroups
    · simpa [State.setPhase, Function.update_of_ne hww] using h.carriedNodup w'
  · intro w' i hi
    rw [hlog, List.mem_append, not_or]
    by_cases hww : w' = w
    · subst hww
      simp only [State.setPhase, Function.update_self, carried_marking] at hi
      refine ⟨h.carriedNew w' i (by rw [hcarried]; exact List.mem_append_right _ hi), ?_⟩
      exact fun hi' => hdisj i hi' i hi rfl
    · simp only [State.setPhase, Function.update_of_ne hww] at hi
      refine ⟨h.carriedNew w' i hi, ?_⟩
      intro hi'
      have hw' := h.holder (.inl (List.ne_nil_of_mem hi))
      exact hww (Option.some.inj (hw'.symm.trans (hholder i hi')))
  · intro i hi
    rw [hlog, List.mem_append] at hi
    rcases hi with hi | hi
    · rcases h.logMarked i hi with ⟨w', hw', hmem⟩ | hm
      · have hww : w' ≠ w := by
          rintro rfl
          simp [hunmarked] at hmem
        exact .inl ⟨w', hw', by simpa [State.setPhase, Function.update_of_ne hww] using hmem⟩
      · exact .inr hm
    · exact .inl ⟨w, hholder i hi, by simpa [State.setPhase, Phase.unmarked] using hi⟩

theorem Once.acquire (h : Once s) {w : ℕ} (hlock : s.lock = none) (hu : (s.workers w).unmarked = []) :
    Once { s.setPhase w .locked with lock := some w } := by
  have hdrop : Once (s.setPhase w .locked) := h.drop rfl rfl (by simp [hu])
  refine ⟨hdrop.nodup, ?_, hdrop.carriedNodup, hdrop.carriedNew, ?_⟩
  · exact fun w' _ => hdrop.others w' (by simp [State.setPhase, hlock])
  · intro i hi
    rcases hdrop.logMarked i hi with ⟨w', hw', -⟩ | hm
    · simp [State.setPhase, hlock] at hw'
    · exact .inr hm

/-- a worker that goes on with part of what it has -/
theorem Once.shrink (h : Once s) {w : ℕ} {phase : Phase P} (hc : phase.carried.Subperm (s.workers w).carried)
    (hu : phase.unmarked ⊆ (s.workers w).unmarked)
    (hm : ∀ i ∈ (s.workers w).unmarked, i ∈ phase.unmarked ∨ s.Marked i) : Once (s.setPhase w phase) := by
  apply h.setPhase
  · by_cases hlock : s.lock = some w
    · exact .inl hlock
    · obtain ⟨hc', hu'⟩ := h.others w hlock
      rw [hc', List.subperm_nil] at hc
      exact .inr ⟨hc, List.subset_nil.1 (hu' ▸ hu)⟩
  · obtain ⟨l, hperm, hsub⟩ := hc
    exact hperm.nodup_iff.1 ((h.carriedNodup w).sublist hsub)
  · exact fun i hi => h.carriedNew w i (hc.subset hi)
  · exact hm

theorem mem_pendingRows {limit : ℕ} {r : OutboxRow P} (hr : r ∈ pendingRows s limit) : r ∈ s.rows ∧ s.pending r = true :=
  List.mem_filter.1 ((List.mem_insertionSort before).1 (List.mem_of_mem_take hr))

def isTxnOp : Op P → Bool
  | .begin .. | .enqueue .. | .commit _ | .rollback _ => true
  | _ => false

/-- what happens in a fault-free tick of worker w, and beside it: the shard's authority accepts or refuses a batch -/
def tickOp (accepts : String → Bool) (w : ℕ) (s : State P) : Op P → Bool
  | .acquire w' => w' != w
  | .read w' _ answer => w' == w && answer == .ok
  | .settle w' _ answer => w' == w &&
    match s.workers w with
    | .settling ((shard, _) :: _) => answer == if accepts shard then .ok else .failed
    | _ => true
  | .mark w' _ answer => w' == w && answer == .ok
  | op => isTxnOp op

def tickOps (cfg : Config P) (accepts : String → Bool) (w : ℕ) : State P → List (Op P) → Bool
  | _, [] => true
  | s, op :: ops => tickOp accepts w s op && tickOps cfg accepts w (step cfg s op) ops

/-- a worker takes the lock, selects, and comes to its unlock without a fault, whatever transactions do beside it -/
def Tick (cfg : Config P) (accepts : String → Bool) (s t : State P) : Prop :=
  ∃ w ops, s.lock = none ∧ s.workers w = .idle ∧ tickOps cfg accepts w (run cfg s [.acquire w, .select w]) ops = true ∧
    (run cfg (run cfg s [.acquire w, .select w]) ops).workers w = .leaving ∧
    t = step cfg (run cfg (run cfg s [.acquire w, .select w]) ops) (.release w)

/-- the row's event cannot be read, or its shard accepts commits -/
def Passes (accepts : String → Bool) (r : OutboxRow P) : Prop := ∀ e, r.event = some e → accepts (shardIdForEvent e) = true

/-- of the selected rows that pass, each is marked or still in the worker's hands -/
structure InTick (accepts : String → Bool) (batch : List (OutboxRow P)) (w : ℕ) (s : State P) : Prop where
  lock : s.lock = some w
  rows : ∀ r ∈ batch, s.HasRow r.id r.event
  todo : ∀ r ∈ batch, Passes accepts r → s.Marked r.id ∨ r ∈ (s.workers w).toRead ∨
    (∃ e, (r.id, e) ∈ Groups.entries (s.workers w).groups ∧ accepts (shardIdForEvent e) = true) ∨
    r.id ∈ (s.workers w).unmarked

variable {accepts : String → Bool} {batch : List (OutboxRow P)} {w : ℕ}

theorem InTick.of_later {t : State P} (h : InTick accepts batch w s) (hlater : Later s t) (hlock : t.lock = s.lock)
    (hworkers : t.workers = s.workers) : InTick accepts batch w t where
  lock := hlock.trans h.lock
  rows := fun r hr => hlater.hasRow (h.rows r hr)
  todo := fun r hr hp => (h.todo r hr hp).imp hlater.marked (hworkers ▸ id)

/-- the worker's own step: what it had in hands it has marked, or still has -/
theorem InTick.own {t : State P} (h : InTick accepts batch w s) (hlater : Later s t) (hlock : t.lock = s.lock)
    (hread : ∀ r ∈ (s.workers w).toRead, Passes accepts r → s.HasRow r.id r.event → t.Marked r.id ∨ r ∈ (t.workers w).toRead ∨
      ∃ e, (r.id, e) ∈ Groups.entries (t.workers w).groups ∧ accepts (shardIdForEvent e) = true)
    (hgroup : ∀ x ∈ Groups.entries (s.workers w).groups, accepts (shardIdForEvent x.2) = true →
      x ∈ Groups.entries (t.workers w).groups ∨ x.1 ∈ (t.workers w).unmarked)
    (hmark : ∀ i ∈ (s.workers w).unmarked, i ∈ (t.workers w).unmarked ∨ t.Marked i) : InTick accepts batch w t where
  lock := hlock.trans h.lock
  rows := fun r hr => hlater.hasRow (h.rows r hr)
  todo := by
    intro r hr hp
    rcases h.todo r hr hp with hm | hm | ⟨e, hm, he⟩ | hm
    · exact .inl (hlater.marked hm)
    · rcases hread r hm hp (h.rows r hr) with h | h | h
      · exact .inl h
      · exact .inr (.inl h)
      · exact .inr (.inr (.inl h))
    · rcases hgroup _ hm he with h | h
      · exact .inr (.inr (.inl ⟨e, h, he⟩))
      · exact .inr (.inr (.inr h))
    · exact (hmark r.id hm).elim (fun h => .inr (.inr (.inr h))) .inl

theorem workers_setPhase (s : State P) (w : ℕ) (phase : Phase P) : (s.setPhase w phase).workers w = phase := by
  simp [State.setPhase]

theorem txnOp_frame {op : Op P} (h : isTxnOp op = true) :
    (step cfg s op).lock = s.lock ∧ (step cfg s op).workers = s.workers := by
  cases op with
  | begin t now => rw [step]; split_ifs <;> exact ⟨rfl, rfl⟩
  | enqueue t id event =>
    rw [step]
    split
    · split_ifs <;> exact ⟨rfl, rfl⟩
    · exact ⟨rfl, rfl⟩
  | commit t => rw [step]; split <;> exact ⟨rfl, rfl⟩
  | rollback t => rw [step]; split <;> exact ⟨rfl, rfl⟩
  | _ => cases h

theorem step_inTick (hinv : Inv cfg s) (h : InTick accepts batch w s) {op : Op P} (hop : tickOp accepts w s op = true) :
    InTick accepts batch w (step cfg s op) := by
  have hlater := later_step cfg s op
  have htxn : isTxnOp op = true → InTick accepts batch w (step cfg s op) := fun ht =>
    h.of_later hlater (txnOp_frame ht).1 (txnOp_frame ht).2
  have hp := hinv.phases w
  cases op with
  | begin t now => exact htxn rfl
  | enqueue t id event => exact htxn rfl
  | commit t => exact htxn rfl
  | rollback t => exact htxn rfl
  | acquire w' =>
    have hstep : step cfg s (.acquire w') = s := by
      rw [step]
      split
      · rw [if_neg (by simp [h.lock])]
      · rfl
    rw [hstep]
    exact h
  | read w' now answer =>
    simp only [tickOp, Bool.and_eq_true, beq_iff_eq] at hop
    obtain ⟨rfl, rfl⟩ := hop
    rw [step] at hlater ⊢
    split at hlater
    · rename_i groups hw
      apply h.own hlater rfl
      · simp [hw, Phase.toRead]
      · intro x hx _
        rw [hw] at hx
        exact .inl (by rw [workers_setPhase]; exact hx)
      · simp [hw, Phase.unmarked]
    · rename_i r rest groups hw
      split at hlater
      · rename_i event hevent
        apply h.own hlater rfl
        · intro r' hr' hpass _
          rw [hw] at hr'
          rw [workers_setPhase]
          rcases List.mem_cons.1 hr' with rfl | hr'
          · exact .inr (.inr ⟨event, mem_entries_pushGroup.2 (.inl rfl), hpass event hevent⟩)
          · exact .inr (.inl hr')
        · intro x hx _
          rw [hw] at hx
          exact .inl (by rw [workers_setPhase]; exact mem_entries_pushGroup.2 (.inr hx))
        · simp [hw, Phase.unmarked]
      · have hstep : s.statement w' .ok (s.markRow r.id now none) (.reading rest groups) =
            (s.markRow r.id now none).setPhase w' (.reading rest groups) := by
          rw [State.statement, if_neg (by simp [h.lock])]
        rw [hstep] at hlater ⊢
        apply h.own hlater rfl
        · intro r' hr' _ hrow
          rw [hw] at hr'
          rcases List.mem_cons.1 hr' with rfl | hr'
          · exact .inl (marked_markRow hrow now none)
          · exact .inr (.inl (by rw [workers_setPhase]; exact hr'))
        · intro x hx _
          rw [hw] at hx
          exact .inl (by rw [workers_setPhase]; exact hx)
        · simp [hw, Phase.unmarked]
    · exact h
  | settle w' batchId answer =>
    simp only [tickOp, Bool.and_eq_true, beq_iff_eq] at hop
    obtain ⟨rfl, hop⟩ := hop
    rw [step] at hlater ⊢
    split at hlater
    · rename_i hw
      apply h.own hlater rfl
      · simp [hw, Phase.toRead]
      · simp [hw, Phase.groups, Groups.entries]
      · simp [hw, Phase.unmarked]
    · rename_i shard entries groups hw
      rw [hw] at hop hp
      dsimp only at hlater hop ⊢
      split_ifs at hlater ⊢ with hfresh
      · exact h
      · by_cases hacc : accepts shard = true
        · rw [if_pos hacc, beq_iff_eq] at hop
          subst hop
          apply h.own hlater rfl
          · simp [hw, Phase.toRead]
          · intro x hx _
            rw [hw] at hx
            show x ∈ Groups.entries (Phase.groups ((s.setPhase w' _).workers w')) ∨ x.1 ∈ Phase.unmarked ((s.setPhase w' _).workers w')
            rw [workers_setPhase]
            rcases List.mem_append.1 hx with hx | hx
            · exact .inr (List.mem_map_of_mem hx)
            · exact .inl hx
          · simp [hw, Phase.unmarked]
        · rw [if_neg hacc, beq_iff_eq] at hop
          subst hop
          -- the refused group holds no event whose shard accepts
          apply h.own hlater rfl
          · simp [hw, Phase.toRead]
          · intro x hx hx'
            rw [hw] at hx
            rw [workers_setPhase]
            rcases List.mem_append.1 hx with hx | hx
            · have hshard : shardIdForEvent x.2 = shard := hp.sharded (shard, entries) (by simp [Phase.groups]) x hx
              exact absurd (hshard ▸ hx') hacc
            · exact .inl hx
          · simp [hw, Phase.unmarked]
    · exact h
  | mark w' now answer =>
    simp only [tickOp, Bool.and_eq_true, beq_iff_eq] at hop
    obtain ⟨rfl, rfl⟩ := hop
    rw [step] at hlater ⊢
    split at hlater
    · rename_i groups hw
      apply h.own hlater rfl
      · simp [hw, Phase.toRead]
      · intro x hx _
        rw [hw] at hx
        exact .inl (by rw [workers_setPhase]; exact hx)
      · simp [hw, Phase.unmarked]
    · rename_i batchId id ids groups hw
      have hstep : s.statement w' .ok (s.markRow id now (some batchId)) (.marking batchId ids groups) =
          (s.markRow id now (some batchId)).setPhase w' (.marking batchId ids groups) := by
        rw [State.statement, if_neg (by simp [h.lock])]
      rw [hw] at hp
      obtain ⟨e, he⟩ := hp.unmarked id (by simp [Phase.unmarked])
      rw [hstep] at hlater ⊢
      apply h.own hlater rfl
      · simp [hw, Phase.toRead]
      · intro x hx _
        rw [hw] at hx
        exact .inl (by rw [workers_setPhase]; exact hx)
      · intro i hi
        rw [hw] at hi
        rcases List.mem_cons.1 hi with rfl | hi
        · exact .inr (marked_markRow (hinv.log _ he) now _)
        · exact .inl (by rw [workers_setPhase]; exact hi)
    · exact h
  | select w' => cases hop
  | release w' => cases hop
  | crash w' => cases hop
  | loseSession w' => cases hop

theorem run_inTick (hinv : Inv cfg s) (h : InTick accepts batch w s) {ops : List (Op P)}
    (hops : tickOps cfg accepts w s ops = true) : InTick accepts batch w (run cfg s ops) := by
  induction ops generalizing s with
  | nil => exact h
  | cons op ops ih =>
    rw [tickOps, Bool.and_eq_true] at hops
    exact ih (step_inv hinv op) (step_inTick hinv h hops.1) hops.2

/-- **A tick marks** every row of its selection that passes -/
theorem tick_marks {t : State P} (hinv : Inv cfg s) (h : Tick cfg accepts s t) {r : OutboxRow P}
    (hr : r ∈ pendingRows s drainBatchSize) (hp : Passes accepts r) : t.Marked r.id := by
  obtain ⟨w, ops, hlock, hidle, hops, hleaving, rfl⟩ := h
  have hselected : run cfg s [.acquire w, .select w] = { s.setPhase w (.reading (pendingRows s drainBatchSize) []) with
      lock := some w } := by
    simp only [run, List.foldl_cons, List.foldl_nil, step, hidle, hlock, if_true, State.setPhase, Function.update_self,
      Function.update_idem]
    rfl
  have hstart : InTick accepts (pendingRows s drainBatchSize) w (run cfg s [.acquire w, .select w]) := by
    have hlater := later_run cfg s [.acquire w, .select w]
    refine ⟨by rw [hselected], fun r hr => hlater.hasRow (hasRow_of_pendingRows hr), ?_⟩
    intro r hr _
    rw [hselected]
    exact .inr (.inl (by simpa [State.setPhase, Phase.toRead] using hr))
  have hend := run_inTick (inv_run hinv _) hstart hops
  have hmarked := hend.todo r hr hp
  simp only [hleaving, Phase.toRead, Phase.groups, Groups.entries, Phase.unmarked, List.flatMap_nil, List.not_mem_nil,
    false_and, exists_false, or_false] at hmarked
  exact (later_step cfg _ _).marked hmarked

theorem Tick.later {t : State P} (h : Tick cfg accepts s t) : Later s t := by
  obtain ⟨w, ops, -, -, -, -, rfl⟩ := h
  exact ((later_run cfg s _).trans (later_run cfg _ _)).trans (later_step cfg _ _)

theorem Tick.inv {t : State P} (hinv : Inv cfg s) (h : Tick cfg accepts s t) : Inv cfg t := by
  obtain ⟨w, ops, -, -, -, -, rfl⟩ := h
  exact step_inv (inv_run (inv_run hinv _) _) _

/-! ## A row is reached -/

/-- the pending rows up to r whose shard refuses commits -/
def blockedAhead (accepts : String → Bool) (s : State P) (r : OutboxRow P) : ℕ :=
  (s.rows.filter fun r' => s.pending r' && decide (before r' r) &&
    match r'.event with
    | some e => !accepts (shardIdForEvent e)
    | none => false).length

/-- the marked rows up to r -/
def passed (s : State P) (r : OutboxRow P) : Finset Uuid :=
  ((s.rows.filter fun r' => r'.committedAt.isSome && decide (before r' r)).map OutboxRow.id).toFinset

theorem mem_passed {r : OutboxRow P} {i : Uuid} :
    i ∈ passed s r ↔ ∃ r' ∈ s.rows, r'.committedAt.isSome = true ∧ before r' r ∧ r'.id = i := by
  simp [passed, and_assoc]

theorem Later.passed {t : State P} (h : Later s t) (r : OutboxRow P) : passed s r ⊆ passed t r := by
  intro i hi
  obtain ⟨r', hr', hc, hb, rfl⟩ := mem_passed.1 hi
  obtain ⟨r1, hr1, h1, -, h3, h4, -, h6⟩ := h.rows r' hr'
  exact mem_passed.2 ⟨r1, hr1, h6 hc, by rw [before, h3, h4]; exact hb, h1⟩

theorem before_total (a b : OutboxRow P) : before a b ∨ before b a := by
  rcases lt_trichotomy a.enqueuedAt b.enqueuedAt with h | h | h
  · exact .inl (.inl h)
  · exact (le_total a.seq b.seq).imp (fun hs => .inr ⟨h, hs⟩) fun hs => .inr ⟨h.symm, hs⟩
  · exact .inr (.inl h)

theorem before_trans {a b c : OutboxRow P} (h : before a b) (h' : before b c) : before a c := by
  rcases h with h | ⟨h, hs⟩
  · rcases h' with h' | ⟨h', -⟩
    · exact .inl (h.trans h')
    · exact .inl (h' ▸ h)
  · rcases h' with h' | ⟨h', hs'⟩
    · exact .inl (h ▸ h')
    · exact .inr ⟨h.trans h', hs.trans hs'⟩

instance : Std.Total (before (P := P)) := ⟨before_total⟩

instance : IsTrans (OutboxRow P) before := ⟨fun _ _ _ => before_trans⟩

/-- a pending row that a selection leaves out has a full selection ahead of it -/
theorem ahead_of_left_out {limit : ℕ} {r : OutboxRow P} (hr : r ∈ s.rows) (hp : s.pending r = true)
    (hout : r ∉ pendingRows s limit) : (pendingRows s limit).length = limit ∧ ∀ r' ∈ pendingRows s limit, before r' r := by
  set sorted := (s.rows.filter s.pending).insertionSort before with hsorted
  have hmem : r ∈ sorted := (List.mem_insertionSort before).2 (List.mem_filter.2 ⟨hr, hp⟩)
  have hdrop : r ∈ sorted.drop limit := by
    rw [← List.take_append_drop limit sorted, List.mem_append] at hmem
    exact hmem.resolve_left hout
  have hpair : sorted.Pairwise before := List.pairwise_insertionSort before _
  rw [← List.take_append_drop limit sorted, List.pairwise_append] at hpair
  refine ⟨?_, fun r' hr' => hpair.2.2 r' hr' r hdrop⟩
  have hlen : limit < sorted.length := by
    by_contra hle
    rw [List.drop_eq_nil_of_le (not_lt.1 hle)] at hdrop
    cases hdrop
  rw [pendingRows, ← hsorted, List.length_take, min_eq_left hlen.le]

/-- a selection that is full and lies ahead of r has a row that passes -/
theorem exists_passes {r : OutboxRow P} (hblocked : blockedAhead accepts s r < drainBatchSize)
    (hlen : (pendingRows s drainBatchSize).length = drainBatchSize)
    (hahead : ∀ r' ∈ pendingRows s drainBatchSize, before r' r) :
    ∃ r' ∈ pendingRows s drainBatchSize, Passes accepts r' := by
  by_contra hnone
  push Not at hnone
  set refused : OutboxRow P → Bool := fun r' => s.pending r' && decide (before r' r) &&
    match r'.event with
    | some e => !accepts (shardIdForEvent e)
    | none => false with hrefused
  have hall : ∀ r' ∈ pendingRows s drainBatchSize, refused r' = true := by
    intro r' hr'
    have hp := (mem_pendingRows hr').2
    have hn := hnone r' hr'
    unfold Passes at hn
    push Not at hn
    obtain ⟨e, he, hacc⟩ := hn
    simp [hrefused, hp, hahead r' hr', he, hacc]
  -- then the whole selection is among the refused rows
  have hsub : (pendingRows s drainBatchSize).Subperm (s.rows.filter refused) := by
    have h1 : (pendingRows s drainBatchSize).Subperm s.rows :=
      ((List.take_sublist _ _).subperm.trans (List.perm_insertionSort before _).subperm).trans List.filter_sublist.subperm
    have h2 := h1.filter refused
    rwa [List.filter_eq_self.2 hall] at h2
  have hle := hsub.length_le
  rw [hlen] at hle
  exact absurd hle (not_le.2 hblocked)

theorem tick_progress {t : State P} (hinv : Inv cfg s) (h : Tick cfg accepts s t) {r : OutboxRow P} (hr : r ∈ s.rows)
    (hp : s.pending r = true) (hpass : Passes accepts r) (hblocked : blockedAhead accepts s r < drainBatchSize) :
    t.Marked r.id ∨ (passed s r).card < (passed t r).card := by
  by_cases hin : r ∈ pendingRows s drainBatchSize
  · exact .inl (tick_marks hinv h hin hpass)
  · right
    obtain ⟨hlen, hahead⟩ := ahead_of_left_out hr hp hin
    obtain ⟨r', hr', hpass'⟩ := exists_passes hblocked hlen hahead
    obtain ⟨hr'rows, hpending⟩ := mem_pendingRows hr'
    apply Finset.card_lt_card
    refine ⟨h.later.passed r, ?_⟩
    intro hsub
    -- the marked row was pending before
    obtain ⟨r1, hr1, h1, -, h3, h4, -, -⟩ := h.later.rows r' hr'rows
    obtain ⟨r2, hr2, hid2, hc2⟩ := tick_marks hinv h hr' hpass'
    obtain rfl := eq_of_id (h.inv hinv).ids hr2 hr1 (hid2.trans h1.symm)
    have hmem : r'.id ∈ passed t r := mem_passed.2 ⟨r2, hr2, hc2, by rw [before, h3, h4]; exact hahead r' hr', h1⟩
    obtain ⟨r3, hr3, hc3, -, hid3⟩ := mem_passed.1 (hsub hmem)
    obtain rfl := eq_of_id hinv.ids hr3 hr'rows hid3
    simp only [State.pending, Bool.and_eq_true, Option.isNone_iff_eq_none] at hpending
    rw [hpending.2] at hc3
    cases hc3

/-- n fault-free ticks, with transactions between and beside them, each begun with fewer than a selection of refused rows
ahead of r -/
inductive Ticks (cfg : Config P) (accepts : String → Bool) (r : OutboxRow P) : ℕ → State P → State P → Prop
  | start {s : State P} : Ticks cfg accepts r 0 s s
  | txn {n : ℕ} {s t : State P} {op : Op P} (h : Ticks cfg accepts r n s t) (hop : isTxnOp op = true) :
    Ticks cfg accepts r n s (step cfg t op)
  | tick {n : ℕ} {s t u : State P} (h : Ticks cfg accepts r n s t) (hblocked : blockedAhead accepts t r < drainBatchSize)
    (ht : Tick cfg accepts t u) : Ticks cfg accepts r (n + 1) s u

theorem Ticks.later {r : OutboxRow P} {n : ℕ} {t : State P} (h : Ticks cfg accepts r n s t) : Later s t := by
  induction h with
  | start => exact Later.refl _
  | txn _ _ ih => exact ih.trans (later_step cfg _ _)
  | tick _ _ ht ih => exact ih.trans ht.later

theorem Ticks.inv {r : OutboxRow P} {n : ℕ} {t : State P} (hinv : Inv cfg s) (h : Ticks cfg accepts r n s t) : Inv cfg t := by
  induction h with
  | start => exact hinv
  | txn _ _ ih => exact step_inv (ih hinv) _
  | tick _ _ ht ih => exact ht.inv (ih hinv)

theorem Ticks.progress {r : OutboxRow P} {n : ℕ} {t : State P} (hinv : Inv cfg s) (hr : r ∈ s.rows)
    (hv : s.visible r = true) (hpass : Passes accepts r) (h : Ticks cfg accepts r n s t) :
    t.Marked r.id ∨ n ≤ (passed t r).card := by
  induction h with
  | start => exact .inr (Nat.zero_le _)
  | @txn n s t op _ _ ih =>
    have hlater := later_step cfg t op
    exact (ih hinv hr hv).imp hlater.marked fun hn => hn.trans (Finset.card_le_card (hlater.passed r))
  | @tick n s t u h hblocked ht ih =>
    rcases ih hinv hr hv with hm | hn
    · exact .inl (ht.later.marked hm)
    · obtain ⟨r', hr', h1, h2, h3, h4, h5, -⟩ := h.later.rows r hr
      by_cases hm : r'.committedAt.isSome = true
      · exact .inl (ht.later.marked ⟨r', hr', h1, hm⟩)
      · have hv' : t.visible r' = true := by
          simp only [State.visible, decide_eq_true_eq, h5] at hv ⊢
          exact h.later.txns _ hv
        have hp : t.pending r' = true := by simpa [State.pending, hv'] using hm
        have hpass' : Passes accepts r' := by
          unfold Passes
          rw [h2]
          exact hpass
        -- r' is r as far as the order goes
        have hbefore : ∀ x : OutboxRow P, before x r' ↔ before x r := fun x => by rw [before, before, h3, h4]
        have hsame : passed t r' = passed t r ∧ passed u r' = passed u r ∧
            blockedAhead accepts t r' = blockedAhead accepts t r := by
          simp only [passed, blockedAhead, hbefore, and_self]
        rw [← hsame.2.2] at hblocked
        have hprog := tick_progress (h.inv hinv) ht hr' hp hpass' hblocked
        rw [hsame.1, hsame.2.1, h1] at hprog
        exact hprog.imp id fun hlt => Nat.succ_le_of_lt (lt_of_le_of_lt hn hlt)

def plainText : PayloadCodec String where
  embedPosition payload _ := payload
  payloadHash payload := some (Sha256.hash (utf8 payload))

def testConfig : Config String := ⟨plainText, false, fun _ => none⟩

def testEvent (n : UInt8) : ProtocolEvent String :=
  ⟨.replicate 16 n, "profile.updated", "identity:a:self:b", "identity:a:self:b", "{}", 0, 1, none⟩

end Avalon.Outbox
