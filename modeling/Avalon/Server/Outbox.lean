/-
The outbox (`crates/server/src/outbox.rs`, migrations 0003 and 0081): transactions enqueue events as rows of
`protocol_outbox`, workers drain the rows into the ledgers of the settlement authorities.

The model is a machine over the table, the transactions, the advisory lock, any number of workers and what the authorities
have committed. A row is in the table from its insert on and visible once its transaction has committed; `enqueued_at`
is the start of the transaction, `seq` is drawn at the insert. A drain tick takes the lock, selects the oldest pending
rows, groups them by shard, and hands one batch for each shard to its authority; after an accepted batch its rows are
marked one by one. One op is one statement, or one call of an authority:
- a statement or call that succeeds (`ok`), fails without effect (`failed`), or takes effect while its answer is lost (`lost`);
- a crash of a worker ends its session, and with it its lock; a session may also end alone, and then the worker goes on with
  what it has read while every further statement of it fails.
`gen_random_uuid` and `Uuid::new_v4` do not repeat an id. An authority answers a batch id it knows with the old commitment;
the worker draws a new one for every batch.

Results:
- `later_run`: rows keep their place, their event and their mark, and ledgers only grow.
- `inv_run`: over every run with any faults, batches are of one shard and go to its authority, what is settled are rows of
  committed transactions, and the event of a marked row has been settled.
-/
import Mathlib.Tactic
import Mathlib.Data.List.Sort
import Avalon.Core.Bytes
import Avalon.Protocol.LedgerEntry
import Avalon.Protocol.Events

namespace Avalon.Outbox

open Avalon.LedgerEntry Avalon.Events

/-! ## Rows and batches -/

/-- the shard of an event, from the namespace and the owner of its issuer -/
def shardIdForEvent {P : Type} (event : ProtocolEvent P) : String :=
  let parts := event.issuer.toList.splitOn ':'
  let space := String.ofList (parts.headD [])
  let owner := String.ofList (parts.tail.headD [])
  if space = "game" ∨ space = "app" ∨ space = "service" then space ++ ":" ++ owner else "core"

/-- a row of `protocol_outbox`; xmin is the transaction that inserted it -/
structure OutboxRow (P : Type) where
  id : Uuid
  /-- what is read back from the JSON column -/
  event : Option (ProtocolEvent P)
  enqueuedAt : OffsetDateTime
  seq : ℕ
  committedAt : Option OffsetDateTime
  batchId : Option Uuid
  xmin : ℕ

/-- where a shard is settled: this node's own ledger, or a remote authority -/
abbrev Authority := Option String

/-- a batch that an authority has committed, with the row each of its events came from -/
structure Settled (P : Type) where
  authority : Authority
  batchId : Uuid
  entries : List (Uuid × ProtocolEvent P)

def Settled.batch {P : Type} (b : Settled P) : EventBatch P := ⟨b.batchId, b.entries.map Prod.snd⟩

structure Config (P : Type) where
  codec : PayloadCodec P
  replicaOnly : Bool
  targetForShard : String → Option String

inductive TxnStatus where
  | unused
  | active (startedAt : OffsetDateTime)
  | committed
  | aborted
deriving DecidableEq

/-- the pending rows of one tick by shard, shards ascending -/
abbrev Groups (P : Type) := List (String × List (Uuid × ProtocolEvent P))

/-- `by_shard.entry(shard_id).or_default().push(..)` -/
def pushGroup {P : Type} (shard : String) (x : Uuid × ProtocolEvent P) : Groups P → Groups P
  | [] => [(shard, [x])]
  | g :: gs =>
    if shard < g.1 then (shard, [x]) :: g :: gs
    else if shard = g.1 then (g.1, g.2 ++ [x]) :: gs
    else g :: pushGroup shard x gs

/-- how far a worker's tick is -/
inductive Phase (P : Type) where
  | idle
  | locked
  | reading (rows : List (OutboxRow P)) (groups : Groups P)
  | settling (groups : Groups P)
  | marking (batchId : Uuid) (ids : List Uuid) (groups : Groups P)
  | leaving

structure State (P : Type) where
  rows : List (OutboxRow P)
  txns : ℕ → TxnStatus
  lock : Option ℕ
  workers : ℕ → Phase P
  settled : List (Settled P)

variable {P : Type}

def State.init : State P := ⟨[], fun _ => .unused, none, fun _ => .idle, []⟩

/-! ## The machine -/

inductive Answer where
  | ok
  | failed
  | lost
deriving DecidableEq

inductive Op (P : Type) where
  | begin (t : ℕ) (now : OffsetDateTime)
  | enqueue (t : ℕ) (id : Uuid) (event : ProtocolEvent P)
  | commit (t : ℕ)
  | rollback (t : ℕ)
  | acquire (w : ℕ)
  | select (w : ℕ)
  | read (w : ℕ) (now : OffsetDateTime) (answer : Answer)
  | settle (w : ℕ) (batchId : Uuid) (answer : Answer)
  | mark (w : ℕ) (now : OffsetDateTime) (answer : Answer)
  | release (w : ℕ)
  | crash (w : ℕ)
  | loseSession (w : ℕ)

def drainBatchSize : ℕ := 20

/-- what `enqueue` refuses: writes on a replica, a payload without a canonical form, a version that does not fit its column -/
def enqueueRefuses (cfg : Config P) (event : ProtocolEvent P) : Bool :=
  cfg.replicaOnly || (cfg.codec.payloadHash event.payload).isNone || decide (event.version.toNat > 2 ^ 31 - 1)

/-- ORDER BY enqueued_at, seq -/
def before (a b : OutboxRow P) : Prop := a.enqueuedAt < b.enqueuedAt ∨ a.enqueuedAt = b.enqueuedAt ∧ a.seq ≤ b.seq

instance : DecidableRel (before (P := P)) := fun _ _ => inferInstanceAs (Decidable (_ ∨ _))

def State.visible (s : State P) (r : OutboxRow P) : Bool := s.txns r.xmin = .committed

def State.pending (s : State P) (r : OutboxRow P) : Bool := s.visible r && r.committedAt.isNone

def pendingRows (s : State P) (limit : ℕ) : List (OutboxRow P) :=
  ((s.rows.filter s.pending).insertionSort before).take limit

/-- UPDATE protocol_outbox SET committed_at = now(), batch_id = .. WHERE id = .. -/
def markRow (id : Uuid) (now : OffsetDateTime) (batchId : Option Uuid) (r : OutboxRow P) : OutboxRow P :=
  if r.id = id then { r with committedAt := some now, batchId := batchId.orElse fun _ => r.batchId } else r

def State.setPhase (s : State P) (w : ℕ) (phase : Phase P) : State P :=
  { s with workers := Function.update s.workers w phase }

def State.markRow (s : State P) (id : Uuid) (now : OffsetDateTime) (batchId : Option Uuid) : State P :=
  { s with rows := s.rows.map (Outbox.markRow id now batchId) }

/-- a statement on the worker's own session, which lives as long as it holds the lock: the state if it took effect, the
phase if it was reported to have succeeded, and otherwise the tick ends with the error -/
def State.statement (s : State P) (w : ℕ) (answer : Answer) (effect : State P) (next : Phase P) : State P :=
  if s.lock ≠ some w then s.setPhase w .leaving
  else
    match answer with
    | .ok => effect.setPhase w next
    | .failed => s.setPhase w .leaving
    | .lost => effect.setPhase w .leaving

def State.endSession (s : State P) (w : ℕ) : State P := if s.lock = some w then { s with lock := none } else s

/-- an authority's own `commit`: a batch id it knows is answered from its ledger -/
def commitBatch (settled : List (Settled P)) (b : Settled P) : List (Settled P) :=
  if settled.any fun old => old.authority = b.authority ∧ old.batchId = b.batchId then settled else settled ++ [b]

def step (cfg : Config P) (s : State P) : Op P → State P
  | .begin t now => if s.txns t = .unused then { s with txns := Function.update s.txns t (.active now) } else s
  | .enqueue t id event =>
    match s.txns t with
    | .active startedAt =>
      if enqueueRefuses cfg event ∨ id ∈ s.rows.map OutboxRow.id then s
      else { s with rows := s.rows ++ [⟨id, some event, startedAt, s.rows.length, none, none, t⟩] }
    | _ => s
  | .commit t =>
    match s.txns t with
    | .active _ => { s with txns := Function.update s.txns t .committed }
    | _ => s
  | .rollback t =>
    match s.txns t with
    | .active _ => { s with txns := Function.update s.txns t .aborted }
    | _ => s
  | .acquire w =>
    match s.workers w with
    | .idle => if s.lock = none then { s.setPhase w .locked with lock := some w } else s
    | _ => s
  | .select w =>
    match s.workers w with
    | .locked => if s.lock = some w then s.setPhase w (.reading (pendingRows s drainBatchSize) []) else s.setPhase w .leaving
    | _ => s
  | .read w now answer =>
    match s.workers w with
    | .reading [] groups => s.setPhase w (.settling groups)
    | .reading (r :: rest) groups =>
      match r.event with
      | some event => s.setPhase w (.reading rest (pushGroup (shardIdForEvent event) (r.id, event) groups))
      | none => s.statement w answer (s.markRow r.id now none) (.reading rest groups)
    | _ => s
  | .settle w batchId answer =>
    match s.workers w with
    | .settling [] => s.setPhase w .leaving
    | .settling ((shard, entries) :: groups) =>
      let b : Settled P := ⟨cfg.targetForShard shard, batchId, entries⟩
      if s.settled.any fun old => old.batchId = batchId then s -- never drawn twice
      else
        match answer with
        | .ok => { s.setPhase w (.marking batchId (entries.map Prod.fst) groups) with settled := commitBatch s.settled b }
        | .failed => s.setPhase w (.settling groups)
        | .lost => { s.setPhase w (.settling groups) with settled := commitBatch s.settled b }
    | _ => s
  | .mark w now answer =>
    match s.workers w with
    | .marking _ [] groups => s.setPhase w (.settling groups)
    | .marking batchId (id :: ids) groups =>
      s.statement w answer (s.markRow id now (some batchId)) (.marking batchId ids groups)
    | _ => s
  | .release w =>
    match s.workers w with
    | .leaving => (s.endSession w).setPhase w .idle
    | _ => s
  | .crash w => (s.endSession w).setPhase w .idle
  | .loseSession w => s.endSession w

def run (cfg : Config P) (s : State P) (ops : List (Op P)) : State P := ops.foldl (step cfg) s

/-- the batches of an authority's ledger, oldest first -/
def State.ledger (s : State P) (a : Authority) : List (EventBatch P) :=
  (s.settled.filter fun b => b.authority = a).map Settled.batch

def State.ledgerEvents (s : State P) (a : Authority) : List (ProtocolEvent P) := (s.ledger a).flatMap EventBatch.events

/-- the events of committed transactions -/
def State.enqueued (s : State P) : List (ProtocolEvent P) := (s.rows.filter s.visible).filterMap OutboxRow.event

/-- the rows settled so far, in order, each with its event -/
def State.log (s : State P) : List (Uuid × ProtocolEvent P) := s.settled.flatMap Settled.entries

/-! ## What a worker carries -/

def Groups.entries (groups : Groups P) : List (Uuid × ProtocolEvent P) := groups.flatMap Prod.snd

def Phase.groups : Phase P → Groups P
  | .reading _ groups => groups
  | .settling groups => groups
  | .marking _ _ groups => groups
  | _ => []

def Phase.toRead : Phase P → List (OutboxRow P)
  | .reading rows _ => rows
  | _ => []

/-- the rows that a worker has read and not handed to an authority -/
def Phase.carried (phase : Phase P) : List Uuid := phase.toRead.map OutboxRow.id ++ (Groups.entries phase.groups).map Prod.fst

/-- the rows of the batch just committed that are not marked -/
def Phase.unmarked : Phase P → List Uuid
  | .marking _ ids _ => ids
  | _ => []

theorem mem_entries_pushGroup {shard : String} {x y : Uuid × ProtocolEvent P} {groups : Groups P} :
    y ∈ Groups.entries (pushGroup shard x groups) ↔ y = x ∨ y ∈ Groups.entries groups := by
  induction groups with
  | nil => simp [pushGroup, Groups.entries]
  | cons g gs ih =>
    rw [pushGroup]
    split_ifs
    · simp [Groups.entries]
    · simp [Groups.entries, or_left_comm]
    · simp only [Groups.entries, List.flatMap_cons, List.mem_append] at ih ⊢
      rw [ih, or_left_comm]

/-- every event stands in the group of its shard -/
def Groups.Sharded (groups : Groups P) : Prop := ∀ g ∈ groups, ∀ x ∈ g.2, shardIdForEvent x.2 = g.1

theorem Groups.Sharded.push {groups : Groups P} (h : groups.Sharded) (id : Uuid) (event : ProtocolEvent P) :
    (pushGroup (shardIdForEvent event) (id, event) groups).Sharded := by
  induction groups with
  | nil => simp [pushGroup, Groups.Sharded]
  | cons g gs ih =>
    obtain ⟨hg, hgs⟩ := List.forall_mem_cons.1 h
    rw [pushGroup]
    split_ifs with h1 h2
    · exact List.forall_mem_cons.2 ⟨by simp, h⟩
    · refine List.forall_mem_cons.2 ⟨?_, hgs⟩
      intro x hx
      rcases List.mem_append.1 hx with hx | hx
      · exact hg x hx
      · rw [List.mem_singleton.1 hx, h2]
    · exact List.forall_mem_cons.2 ⟨hg, ih hgs⟩

/-! ## What holds under any faults -/

/-- a visible row of the table with that id and event -/
def State.HasRow (s : State P) (id : Uuid) (event : Option (ProtocolEvent P)) : Prop :=
  ∃ r ∈ s.rows, r.id = id ∧ r.event = event ∧ s.visible r = true

/-- a later state: rows keep their place, their event and their mark, and committed transactions stay so -/
structure Later (s t : State P) : Prop where
  rows : ∀ r ∈ s.rows, ∃ r' ∈ t.rows, r'.id = r.id ∧ r'.event = r.event ∧ r'.enqueuedAt = r.enqueuedAt ∧ r'.seq = r.seq ∧
    r'.xmin = r.xmin ∧ (r.committedAt.isSome = true → r'.committedAt.isSome = true)
  txns : ∀ i, s.txns i = .committed → t.txns i = .committed
  settled : s.settled <+: t.settled

theorem Later.refl (s : State P) : Later s s :=
  ⟨fun r hr => ⟨r, hr, rfl, rfl, rfl, rfl, rfl, id⟩, fun _ h => h, List.prefix_rfl⟩

theorem Later.trans {s t u : State P} (h : Later s t) (h' : Later t u) : Later s u where
  rows := by
    intro r hr
    obtain ⟨r1, hr1, h1, h2, h3, h4, h5, h6⟩ := h.rows r hr
    obtain ⟨r2, hr2, g1, g2, g3, g4, g5, g6⟩ := h'.rows r1 hr1
    exact ⟨r2, hr2, g1.trans h1, g2.trans h2, g3.trans h3, g4.trans h4, g5.trans h5, fun h => g6 (h6 h)⟩
  txns := fun i hi => h'.txns i (h.txns i hi)
  settled := h.settled.trans h'.settled

theorem Later.hasRow {s t : State P} (h : Later s t) {id : Uuid} {event : Option (ProtocolEvent P)} (hr : s.HasRow id event) :
    t.HasRow id event := by
  obtain ⟨r, hr, rfl, rfl, hv⟩ := hr
  obtain ⟨r', hr', h1, h2, -, -, h5, -⟩ := h.rows r hr
  refine ⟨r', hr', h1, h2, ?_⟩
  simp only [State.visible, decide_eq_true_eq, h5] at hv ⊢
  exact h.txns _ hv

theorem Later.log {s t : State P} (h : Later s t) : s.log <+: t.log := by
  obtain ⟨l, hl⟩ := h.settled
  rw [State.log, State.log, ← hl, List.flatMap_append]
  exact List.prefix_append _ _

theorem later_setPhase (s : State P) (w : ℕ) (phase : Phase P) : Later s (s.setPhase w phase) :=
  ⟨(Later.refl s).rows, fun _ h => h, List.prefix_rfl⟩

theorem later_endSession (s : State P) (w : ℕ) : Later s (s.endSession w) := by
  unfold State.endSession
  split_ifs
  · exact ⟨(Later.refl s).rows, fun _ h => h, List.prefix_rfl⟩
  · exact Later.refl s

theorem later_markRow (s : State P) (id : Uuid) (now : OffsetDateTime) (b : Option Uuid) : Later s (s.markRow id now b) := by
  refine ⟨?_, fun _ h => h, List.prefix_rfl⟩
  intro r hr
  refine ⟨_, List.mem_map_of_mem hr, ?_⟩
  unfold Outbox.markRow
  split_ifs <;> simp

theorem later_statement {s effect : State P} (h : Later s effect) (w : ℕ) (answer : Answer) (next : Phase P) :
    Later s (s.statement w answer effect next) := by
  unfold State.statement
  split_ifs
  · exact later_setPhase s w _
  · cases answer with
    | ok => exact h.trans (later_setPhase _ w _)
    | failed => exact later_setPhase s w _
    | lost => exact h.trans (later_setPhase _ w _)

theorem later_txns (s : State P) {i : ℕ} (h : s.txns i ≠ .committed) (status : TxnStatus) :
    Later s { s with txns := Function.update s.txns i status } := by
  refine ⟨(Later.refl s).rows, ?_, List.prefix_rfl⟩
  intro j hj
  have hne : j ≠ i := by
    rintro rfl
    exact h hj
  simp [Function.update_of_ne hne, hj]

theorem prefix_commitBatch (settled : List (Settled P)) (b : Settled P) : settled <+: commitBatch settled b := by
  unfold commitBatch
  split_ifs
  · exact List.prefix_rfl
  · exact List.prefix_append _ _

theorem later_step (cfg : Config P) (s : State P) (op : Op P) : Later s (step cfg s op) := by
  cases op with
  | begin t now =>
    rw [step]
    split_ifs with h
    · exact later_txns s (by simp [h]) _
    · exact Later.refl s
  | enqueue t id event =>
    rw [step]
    split
    · split_ifs
      · exact Later.refl s
      · exact ⟨fun r hr => ⟨r, by simp [hr], rfl, rfl, rfl, rfl, rfl, fun h => h⟩, fun _ h => h, List.prefix_rfl⟩
    · exact Later.refl s
  | commit t =>
    rw [step]
    split
    · rename_i h
      exact later_txns s (by simp [h]) _
    · exact Later.refl s
  | rollback t =>
    rw [step]
    split
    · rename_i h
      exact later_txns s (by simp [h]) _
    · exact Later.refl s
  | acquire w =>
    rw [step]
    split
    · split_ifs
      · exact ⟨(Later.refl s).rows, fun _ h => h, List.prefix_rfl⟩
      · exact Later.refl s
    · exact Later.refl s
  | select w =>
    rw [step]
    split
    · split_ifs
      · exact later_setPhase s w _
      · exact later_setPhase s w _
    · exact Later.refl s
  | read w now answer =>
    rw [step]
    split
    · exact later_setPhase s w _
    · split
      · exact later_setPhase s w _
      · exact later_statement (later_markRow s _ _ _) w _ _
    · exact Later.refl s
  | settle w batchId answer =>
    rw [step]
    split
    · exact later_setPhase s w _
    · dsimp only
      split_ifs
      · exact Later.refl s
      · cases answer with
        | ok => exact ⟨(Later.refl s).rows, fun _ h => h, prefix_commitBatch _ _⟩
        | failed => exact later_setPhase s w _
        | lost => exact ⟨(Later.refl s).rows, fun _ h => h, prefix_commitBatch _ _⟩
    · exact Later.refl s
  | mark w now answer =>
    rw [step]
    split
    · exact later_setPhase s w _
    · exact later_statement (later_markRow s _ _ _) w _ _
    · exact Later.refl s
  | release w =>
    rw [step]
    split
    · exact (later_endSession s w).trans (later_setPhase _ w _)
    · exact Later.refl s
  | crash w => exact (later_endSession s w).trans (later_setPhase _ w _)
  | loseSession w => exact later_endSession s w

theorem later_run (cfg : Config P) (s : State P) (ops : List (Op P)) : Later s (run cfg s ops) := by
  induction ops generalizing s with
  | nil => exact Later.refl s
  | cons op ops ih => exact (later_step cfg s op).trans (ih _)

/-- what a worker holds in memory is in the tables -/
structure PhaseOk (s : State P) (phase : Phase P) : Prop where
  toRead : ∀ r ∈ phase.toRead, s.HasRow r.id r.event
  groups : ∀ x ∈ Groups.entries phase.groups, s.HasRow x.1 (some x.2)
  sharded : phase.groups.Sharded
  unmarked : ∀ i ∈ phase.unmarked, ∃ e, (i, e) ∈ s.log

theorem PhaseOk.later {s t : State P} {phase : Phase P} (h : PhaseOk s phase) (hst : Later s t) : PhaseOk t phase where
  toRead := fun r hr => hst.hasRow (h.toRead r hr)
  groups := fun x hx => hst.hasRow (h.groups x hx)
  sharded := h.sharded
  unmarked := fun i hi => (h.unmarked i hi).imp fun _ he => hst.log.subset he

/-- a phase that carries nothing -/
theorem PhaseOk.bare {s : State P} {phase : Phase P} (h1 : phase.toRead = []) (h2 : phase.groups = [])
    (h3 : phase.unmarked = []) : PhaseOk s phase := by
  refine ⟨?_, ?_, ?_, ?_⟩
  · simp [h1]
  · simp [h2, Groups.entries]
  · simp [h2, Groups.Sharded]
  · simp [h3]

/-- a batch is of one shard and was settled by the shard's authority -/
def BatchOk (cfg : Config P) (b : Settled P) : Prop :=
  ∃ shard, b.authority = cfg.targetForShard shard ∧ ∀ x ∈ b.entries, shardIdForEvent x.2 = shard

structure Inv (cfg : Config P) (s : State P) : Prop where
  ids : (s.rows.map OutboxRow.id).Nodup
  phases : ∀ w, PhaseOk s (s.workers w)
  log : ∀ x ∈ s.log, s.HasRow x.1 (some x.2)
  marked : ∀ r ∈ s.rows, r.committedAt.isSome = true → ∀ e, r.event = some e → (r.id, e) ∈ s.log
  batches : ∀ b ∈ s.settled, BatchOk cfg b

variable {cfg : Config P} {s : State P}

theorem inv_init : Inv cfg (State.init : State P) := by
  refine ⟨by simp [State.init], fun w => PhaseOk.bare rfl rfl rfl, ?_, ?_, ?_⟩ <;> simp [State.init, State.log]

theorem eq_of_id {rows : List (OutboxRow P)} (h : (rows.map OutboxRow.id).Nodup) {r r' : OutboxRow P} (hr : r ∈ rows)
    (hr' : r' ∈ rows) (hid : r.id = r'.id) : r = r' := List.inj_on_of_nodup_map h hr hr' hid

theorem Inv.setPhase (h : Inv cfg s) (w : ℕ) {phase : Phase P} (hp : PhaseOk s phase) : Inv cfg (s.setPhase w phase) where
  ids := h.ids
  phases := by
    intro w'
    have hlater := later_setPhase s w phase
    by_cases hw : w' = w
    · subst hw
      simpa [State.setPhase] using hp.later hlater
    · simpa [State.setPhase, Function.update_of_ne hw] using (h.phases w').later hlater
  log := fun x hx => (later_setPhase s w phase).hasRow (h.log x hx)
  marked := h.marked
  batches := h.batches

theorem Inv.endSession (h : Inv cfg s) (w : ℕ) : Inv cfg (s.endSession w) := by
  unfold State.endSession
  split_ifs
  · exact ⟨h.ids, fun w' => ⟨(h.phases w').toRead, (h.phases w').groups, (h.phases w').sharded, (h.phases w').unmarked⟩,
      h.log, h.marked, h.batches⟩
  · exact h

theorem id_markRow (id : Uuid) (now : OffsetDateTime) (b : Option Uuid) (r : OutboxRow P) :
    (markRow id now b r).id = r.id ∧ (markRow id now b r).event = r.event := by
  unfold markRow
  split_ifs <;> exact ⟨rfl, rfl⟩

/-- a row may be marked when its event, if it has one, is settled -/
theorem Inv.markRow (h : Inv cfg s) {id : Uuid} (hid : ∀ r ∈ s.rows, r.id = id → ∀ e, r.event = some e → (id, e) ∈ s.log)
    (now : OffsetDateTime) (b : Option Uuid) : Inv cfg (s.markRow id now b) where
  ids := by
    have hmap : (s.rows.map (Outbox.markRow id now b)).map OutboxRow.id = s.rows.map OutboxRow.id := by
      rw [List.map_map]
      exact List.map_congr_left fun r _ => (id_markRow id now b r).1
    rw [State.markRow, hmap]
    exact h.ids
  phases := fun w => (h.phases w).later (later_markRow s id now b)
  log := fun x hx => (later_markRow s id now b).hasRow (h.log x hx)
  marked := by
    intro r' hr' hc e he
    obtain ⟨r, hr, rfl⟩ := List.mem_map.1 hr'
    rw [(id_markRow id now b r).1]
    rw [(id_markRow id now b r).2] at he
    by_cases hrid : r.id = id
    · exact hrid ▸ hid r hr hrid e he
    · rw [Outbox.markRow, if_neg hrid] at hc
      exact h.marked r hr hc e he
  batches := h.batches

theorem Inv.statement (h : Inv cfg s) {w : ℕ} {effect : State P} {next : Phase P} (he : Inv cfg effect)
    (hnext : PhaseOk effect next) (answer : Answer) : Inv cfg (s.statement w answer effect next) := by
  unfold State.statement
  split_ifs
  · exact h.setPhase w (PhaseOk.bare rfl rfl rfl)
  · cases answer with
    | ok => exact he.setPhase w hnext
    | failed => exact h.setPhase w (PhaseOk.bare rfl rfl rfl)
    | lost => exact he.setPhase w (PhaseOk.bare rfl rfl rfl)

/-- a batch id that was never used extends the ledger -/
theorem commitBatch_fresh {settled : List (Settled P)} {b : Settled P}
    (h : ¬ settled.any (fun old => decide (old.batchId = b.batchId)) = true) : commitBatch settled b = settled ++ [b] := by
  rw [commitBatch, if_neg]
  simp only [List.any_eq_true, decide_eq_true_eq, not_exists, not_and] at h ⊢
  exact fun x hx _ => h x hx

/-- the ledger of an authority grows by a batch of rows -/
theorem Inv.settle (h : Inv cfg s) {b : Settled P} (hb : BatchOk cfg b) (hrows : ∀ x ∈ b.entries, s.HasRow x.1 (some x.2)) :
    Inv cfg { s with settled := s.settled ++ [b] } := by
  have hlater : Later s { s with settled := s.settled ++ [b] } :=
    ⟨(Later.refl s).rows, fun _ h => h, List.prefix_append _ _⟩
  refine ⟨h.ids, fun w => (h.phases w).later hlater, ?_, ?_, ?_⟩
  · intro x hx
    simp only [State.log, List.flatMap_append, List.mem_append, List.flatMap_singleton] at hx
    rcases hx with hx | hx
    · exact hlater.hasRow (h.log x hx)
    · exact hlater.hasRow (hrows x hx)
  · exact fun r hr hc e he => hlater.log.subset (h.marked r hr hc e he)
  · intro b' hb'
    rcases List.mem_append.1 hb' with hb' | hb'
    · exact h.batches b' hb'
    · exact List.mem_singleton.1 hb' ▸ hb

theorem hasRow_of_pendingRows {limit : ℕ} {r : OutboxRow P} (hr : r ∈ pendingRows s limit) : s.HasRow r.id r.event := by
  have hmem : r ∈ s.rows.filter s.pending := (List.mem_insertionSort before).1 (List.mem_of_mem_take hr)
  obtain ⟨hrows, hp⟩ := List.mem_filter.1 hmem
  simp only [State.pending, Bool.and_eq_true] at hp
  exact ⟨r, hrows, rfl, rfl, hp.1⟩

theorem Inv.of_txns (h : Inv cfg s) {txns : ℕ → TxnStatus} (hlater : Later s { s with txns := txns }) :
    Inv cfg { s with txns := txns } :=
  ⟨h.ids, fun w => (h.phases w).later hlater, fun x hx => hlater.hasRow (h.log x hx), h.marked, h.batches⟩

theorem step_inv (h : Inv cfg s) (op : Op P) : Inv cfg (step cfg s op) := by
  have hlater := later_step cfg s op
  cases op with
  | begin t now =>
    rw [step] at hlater ⊢
    split_ifs at hlater ⊢
    · exact h.of_txns hlater
    · exact h
  | enqueue t id event =>
    rw [step] at hlater ⊢
    split at hlater
    · split_ifs at hlater ⊢ with hc
      · exact h
      · refine ⟨?_, fun w => (h.phases w).later hlater, fun x hx => hlater.hasRow (h.log x hx), ?_, h.batches⟩
        · rw [List.map_append, List.nodup_append]
          refine ⟨h.ids, by simp, ?_⟩
          simp only [List.map_cons, List.map_nil, List.mem_singleton]
          rintro i hi j rfl rfl
          exact hc (.inr hi)
        · intro r hr hm e he
          rcases List.mem_append.1 hr with hr | hr
          · exact h.marked r hr hm e he
          · rw [List.mem_singleton.1 hr] at hm
            cases hm
    · exact h
  | commit t =>
    rw [step] at hlater ⊢
    split at hlater
    · exact h.of_txns hlater
    · exact h
  | rollback t =>
    rw [step] at hlater ⊢
    split at hlater
    · exact h.of_txns hlater
    · exact h
  | acquire w =>
    rw [step]
    split
    · split_ifs
      · have hlocked : PhaseOk s .locked := PhaseOk.bare rfl rfl rfl
        have h' := h.setPhase w hlocked
        exact ⟨h'.ids, fun w' => ⟨(h'.phases w').toRead, (h'.phases w').groups, (h'.phases w').sharded,
          (h'.phases w').unmarked⟩, h'.log, h'.marked, h'.batches⟩
      · exact h
    · exact h
  | select w =>
    rw [step]
    split
    · split_ifs
      · refine h.setPhase w ⟨?_, ?_, ?_, ?_⟩
        · exact fun r hr => hasRow_of_pendingRows hr
        · simp [Phase.groups, Groups.entries]
        · simp [Phase.groups, Groups.Sharded]
        · simp [Phase.unmarked]
      · exact h.setPhase w (PhaseOk.bare rfl rfl rfl)
    · exact h
  | read w now answer =>
    have hp := h.phases w
    rw [step]
    split
    · rename_i groups hw
      rw [hw] at hp
      exact h.setPhase w ⟨by simp [Phase.toRead], hp.groups, hp.sharded, by simp [Phase.unmarked]⟩
    · rename_i r rest groups hw
      rw [hw] at hp
      have hrow : s.HasRow r.id r.event := hp.toRead r (by simp [Phase.toRead])
      have hrest : ∀ r ∈ rest, s.HasRow r.id r.event := fun r' hr' => hp.toRead r' (by simp [Phase.toRead, hr'])
      split
      · rename_i event hevent
        refine h.setPhase w ⟨hrest, ?_, hp.sharded.push r.id event, by simp [Phase.unmarked]⟩
        intro x hx
        rcases mem_entries_pushGroup.1 hx with rfl | hx
        · exact hevent ▸ hrow
        · exact hp.groups x hx
      · rename_i hevent
        -- the row has no event, so nothing has to be settled for it
        have hmark : Inv cfg (s.markRow r.id now none) := by
          apply h.markRow
          intro r' hr' hid e he
          obtain ⟨r1, hr1, hid1, hevent1, -⟩ := hrow
          rw [eq_of_id h.ids hr' hr1 (hid.trans hid1.symm), hevent1, hevent] at he
          cases he
        have hlater' := later_markRow s r.id now none
        have hnext : PhaseOk (s.markRow r.id now none) (.reading rest groups) :=
          ⟨fun r' hr' => hlater'.hasRow (hrest r' hr'), fun x hx => hlater'.hasRow (hp.groups x hx), hp.sharded,
            by simp [Phase.unmarked]⟩
        exact h.statement hmark hnext answer
    · exact h
  | settle w batchId answer =>
    have hp := h.phases w
    rw [step]
    split
    · exact h.setPhase w (PhaseOk.bare rfl rfl rfl)
    · rename_i shard entries groups hw
      rw [hw] at hp
      obtain ⟨hshard, hsharded⟩ := List.forall_mem_cons.1 hp.sharded
      have hentries : ∀ x ∈ entries, s.HasRow x.1 (some x.2) := fun x hx =>
        hp.groups x (by simp [Phase.groups, Groups.entries, hx])
      have hgroups : ∀ x ∈ Groups.entries groups, s.HasRow x.1 (some x.2) := fun x hx =>
        hp.groups x (List.mem_append_right _ hx)
      dsimp only
      split_ifs with hfresh
      · exact h
      · have hs := h.settle (b := ⟨cfg.targetForShard shard, batchId, entries⟩) ⟨shard, rfl, hshard⟩ hentries
        have hlater' : Later s { s with settled := s.settled ++ [⟨cfg.targetForShard shard, batchId, entries⟩] } :=
          ⟨(Later.refl s).rows, fun _ h => h, List.prefix_append _ _⟩
        cases answer with
        | ok =>
          rw [commitBatch_fresh hfresh]
          refine hs.setPhase w ⟨by simp [Phase.toRead], fun x hx => hlater'.hasRow (hgroups x hx), hsharded, ?_⟩
          intro i hi
          obtain ⟨x, hx, rfl⟩ := List.mem_map.1 hi
          exact ⟨x.2, by simp [State.log, hx]⟩
        | failed => exact h.setPhase w ⟨by simp [Phase.toRead], hgroups, hsharded, by simp [Phase.unmarked]⟩
        | lost =>
          rw [commitBatch_fresh hfresh]
          exact hs.setPhase w ⟨by simp [Phase.toRead], fun x hx => hlater'.hasRow (hgroups x hx), hsharded,
            by simp [Phase.unmarked]⟩
    · exact h
  | mark w now answer =>
    have hp := h.phases w
    rw [step]
    split
    · rename_i groups hw
      rw [hw] at hp
      exact h.setPhase w ⟨by simp [Phase.toRead], hp.groups, hp.sharded, by simp [Phase.unmarked]⟩
    · rename_i batchId id ids groups hw
      rw [hw] at hp
      have hmark : Inv cfg (s.markRow id now (some batchId)) := by
        apply h.markRow
        intro r hr hid e he
        obtain ⟨e', he'⟩ := hp.unmarked id (by simp [Phase.unmarked])
        obtain ⟨r1, hr1, hid1, hevent1, -⟩ := h.log _ he'
        rw [eq_of_id h.ids hr hr1 (hid.trans hid1.symm), hevent1] at he
        cases he
        exact he'
      have hlater' := later_markRow s id now (some batchId)
      have hnext : PhaseOk (s.markRow id now (some batchId)) (.marking batchId ids groups) :=
        ⟨by simp [Phase.toRead], fun x hx => hlater'.hasRow (hp.groups x hx), hp.sharded,
          fun i hi => hp.unmarked i (List.mem_cons_of_mem _ hi)⟩
      exact h.statement hmark hnext answer
    · exact h
  | release w =>
    rw [step]
    split
    · exact (h.endSession w).setPhase w (PhaseOk.bare rfl rfl rfl)
    · exact h
  | crash w => exact (h.endSession w).setPhase w (PhaseOk.bare rfl rfl rfl)
  | loseSession w => exact h.endSession w

theorem inv_run (h : Inv cfg s) (ops : List (Op P)) : Inv cfg (run cfg s ops) := by
  induction ops generalizing s with
  | nil => exact h
  | cons op ops ih => exact ih (step_inv h op)

end Avalon.Outbox
