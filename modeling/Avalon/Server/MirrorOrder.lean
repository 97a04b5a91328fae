/-
Projection order of a mirrored shard (`crates/server/src/mirror_watcher.rs`: `store_and_project`, `reproject_with`,
`backfill_network`; `mirror_watcher/deferral.rs`).

An entry whose projection ended ordered or transient holds back the later entries of its shard. Three things keep them
back: the flag of a tick, which the first such outcome sets; the pass before the backfill, which stops at the first such
entry it meets; and the table of waits, by which the pass knows an entry that must not be tried yet. But the pass is
skipped while the shard is clean and no retry is due, and an ordered outcome does not end cleanness: the next tick then
starts with the flag down. The pass also walks past an entry that is parked or tracked without order, and ends early when
it has met as many waits without order as a shard may have.

`Stops` is what the state before a tick has to say for the pass to stop at an entry that waits.

Results:
- `visitRow_waits`, `scanBatches_inOrder`: a pass leaves waiting entries only ahead of it, and none when it was not stopped.
- `attempts_in_order`: in every run whose ticks find their waiting entries so, nothing is projected behind one.
- `ordered_entry_overtaken`: an entry that ends ordered, and the next one applied a second later.
-/
import Mathlib.Tactic
import Mathlib.Data.List.Sort
import Avalon.Core.Bytes
import Avalon.Core.Fallible
import Avalon.Core.Json
import Avalon.Protocol.SigningBytes
import Avalon.Protocol.LedgerEntry
import Avalon.Protocol.Events
import Avalon.Protocol.Sth
import Avalon.Protocol.IdentityChainWire
import Avalon.Chain.Ledger
import Avalon.Chain.Mirror
import Avalon.Server.Deferral
import Avalon.Server.MirrorProjection
import Avalon.Server.MirrorBackfill

namespace Avalon.MirrorWatcher

open Avalon.SigningBytes Avalon.LedgerEntry Avalon.Events Avalon.Sth Avalon.Merkle Avalon.Ledger Avalon.Mirror
open Avalon.Deferral
open Fallible

variable {P : Type} {ed : Ed25519}

/-! ## The condition -/

/-- the rows of a shard that a pass would still have to deal with -/
def Node.pending (n : Node P) (key : Pair) : List (MirroredRow P) :=
  (rowsOf n.db.rows key.1 key.2 none).filter fun r => n.db.unsettled r

/-- the indexer would have the entry wait without order -/
def ProjectInput.defers (input : ProjectInput) : Bool :=
  match input.result with
  | .deferred false _ => true
  | _ => false

/-- the row uses up one of the waits without order that a pass looks at -/
def Node.takesSlot (n : Node P) (key : Pair) (input : PassInput) (row : MirroredRow P) : Bool :=
  !n.memory.parked.contains row.eventId &&
    (decide (n.memory.scheduler.holding key row.eventId (input.visit row.seq).heldAt = some false) ||
      (input.visit row.seq).project.defers)

/-- the pass of a tick will run, reach this row and stop at it unless it is settled there -/
structure Stops (n : Node P) (key : Pair) (input : PassInput) (row : MirroredRow P) : Prop where
  due : n.memory.scheduler.scanDue key input.dueAt = true
  unparked : row.eventId ∉ n.memory.parked
  unheld : n.memory.scheduler.holding key row.eventId (input.visit row.seq).heldAt ≠ some false
  distinct : (((n.pending key).filter fun r => decide (r.seq ≤ row.seq)).map fun r => r.eventId).Nodup
  slots : ((n.pending key).filter fun r => decide (r.seq < row.seq) && n.takesSlot key input r).length < maxDeferredPerShard

/-- the pass of a tick stops at every row that waits -/
def StopsAtWaiting (n : Node P) (t : Tick ed P) : Prop :=
  ∀ row ∈ rowsOf n.db.rows t.networkId t.shardId none, n.waits row = true → Stops n (t.networkId, t.shardId) t.pass row

/-- the clock does not go back between two rows of a pass -/
def PassInput.Clocked (input : PassInput) : Prop :=
  ∀ a b : ℤ, a < b → (input.visit a).project.instant ≤ (input.visit b).heldAt

/-- every tick of a run meets a condition in the state it finds -/
def Along (cfg : MirrorConfig P) (condition : Node P → Tick ed P → Prop) : Node P → List (Op ed P) → Prop
  | _, [] => True
  | n, .tick t :: ops => condition n t ∧ Along cfg condition (step cfg n (.tick t)) ops
  | n, .restart :: ops => Along cfg condition (step cfg n (.restart : Op ed P)) ops

/-! ## Waiting rows -/

/-- the row of a shard at a seq waits -/
def Node.WaitsAt (n : Node P) (key : Pair) (seq : ℤ) : Prop :=
  ∃ r ∈ rowsOf n.db.rows key.1 key.2 none, r.seq = seq ∧ n.waits r = true

theorem waitsBefore_iff {n : Node P} {networkId shardId : String} {seq : ℤ} :
    n.waitsBefore networkId shardId seq = true ↔ ∃ q < seq, n.WaitsAt (networkId, shardId) q := by
  simp only [Node.waitsBefore, Node.WaitsAt, List.any_eq_true, Bool.and_eq_true, decide_eq_true_eq]
  exact ⟨fun ⟨r, hr, hlt, hw⟩ => ⟨r.seq, hlt, r, hr, rfl, hw⟩, fun ⟨q, hlt, r, hr, hq, hw⟩ => ⟨r, hr, hq ▸ hlt, hw⟩⟩

theorem mem_rowsOf {rows : List (MirroredRow P)} {networkId shardId : String} {r : MirroredRow P} :
    r ∈ rowsOf rows networkId shardId none ↔ r ∈ rows ∧ r.networkId = networkId ∧ r.shardId = shardId := by
  simp [rowsOf]

theorem lastOutcome_concat (attempts : List Attempt) (a : Attempt) (networkId shardId : String) (seq : ℤ) :
    lastOutcome (attempts ++ [a]) networkId shardId seq =
      if a.networkId = networkId ∧ a.shardId = shardId ∧ a.seq = seq then
        a.outcome.or (lastOutcome attempts networkId shardId seq)
      else lastOutcome attempts networkId shardId seq := by
  unfold lastOutcome
  rw [List.filterMap_append]
  split_ifs with h
  · cases ho : a.outcome <;> simp [h, ho]
  · simp [h]

/-- an attempt that was not committed changes nothing for the rows -/
theorem waitsAt_uncommitted {n n' : Node P} {entry : MirroredEntry P} {key : Pair} {q : ℤ} (h : n'.WaitsAt key q)
    (hdb : n'.db = n.db) (hattempts : n'.attempts = n.attempted entry none) : n.WaitsAt key q := by
  obtain ⟨r, hr, hq, hw⟩ := h
  rw [hdb] at hr
  refine ⟨r, hr, hq, ?_⟩
  rw [Node.waits, hdb, hattempts, Node.attempted, lastOutcome_concat] at hw
  rw [Node.waits]
  simpa using hw

/-- the rows at an entry's place carry its event id -/
def SameIdAt (rows : List (MirroredRow P)) (entry : MirroredEntry P) : Prop :=
  ∀ r ∈ rows, r.networkId = entry.networkId ∧ r.shardId = entry.shardId ∧ r.seq = entry.seq → r.eventId = entry.eventId

/-- what a projection does to the tables: rows elsewhere are the ones there were, claims only come in addition, and a row
that is unsettled was so before -/
structure Settles (entry : MirroredEntry P) (db db' : Db P) : Prop where
  others : ∀ r ∈ db'.rows, ¬ (r.networkId = entry.networkId ∧ r.shardId = entry.shardId ∧ r.seq = entry.seq) → r ∈ db.rows
  applied : db.applied ⊆ db'.applied
  unsettled : SameIdAt db.rows entry → ∀ r ∈ db'.rows, db'.unsettled r = true → r ∈ db.rows

theorem Settles.refl (entry : MirroredEntry P) (db : Db P) : Settles entry db db :=
  ⟨fun _ h _ => h, List.Subset.refl _, fun _ _ h _ => h⟩

theorem Settles.unsettled_before {entry : MirroredEntry P} {db db' : Db P} (h : Settles entry db db') {r : MirroredRow P}
    (hr : db'.unsettled r = true) : db.unsettled r = true := by
  simp only [Db.unsettled, Bool.and_eq_true, Bool.not_eq_true', List.contains_eq_mem, decide_eq_false_iff_not] at hr ⊢
  exact ⟨fun hc => hr.1 (h.applied hc), hr.2⟩

theorem mem_setProjectionRejection {rows : List (MirroredRow P)} {entry : MirroredEntry P} {reason : Option String}
    {r : MirroredRow P} (h : r ∈ setProjectionRejection rows entry reason) :
    (r ∈ rows ∧ ¬ (r.networkId = entry.networkId ∧ r.shardId = entry.shardId ∧ r.seq = entry.seq)) ∨
      ∃ r0 ∈ rows, (r0.networkId = entry.networkId ∧ r0.shardId = entry.shardId ∧ r0.seq = entry.seq) ∧
        r = { r0 with projectionRejection := reason } := by
  obtain ⟨r0, hr0, heq⟩ := List.mem_map.1 h
  split_ifs at heq with hplace
  · exact .inr ⟨r0, hr0, hplace, heq.symm⟩
  · subst heq
    exact .inl ⟨hr0, hplace⟩

theorem settles_rejected (entry : MirroredEntry P) (db : Db P) (reason : String) :
    Settles entry db { db with rows := setProjectionRejection db.rows entry (some reason) } := by
  refine ⟨?_, List.Subset.refl _, ?_⟩
  · intro r hr hplace
    rcases mem_setProjectionRejection hr with ⟨hmem, -⟩ | ⟨r0, -, h0, rfl⟩
    · exact hmem
    · exact absurd h0 hplace
  · intro _ r hr hu
    rcases mem_setProjectionRejection hr with ⟨hmem, -⟩ | ⟨r0, -, -, rfl⟩
    · exact hmem
    · simp [Db.unsettled] at hu

theorem settles_applied (entry : MirroredEntry P) (db : Db P) :
    Settles entry db ⟨setProjectionRejection db.rows entry none, (entry.eventId, entry.shardId) :: db.applied⟩ := by
  refine ⟨?_, List.subset_cons_self _ _, ?_⟩
  · intro r hr hplace
    rcases mem_setProjectionRejection hr with ⟨hmem, -⟩ | ⟨r0, -, h0, rfl⟩
    · exact hmem
    · exact absurd h0 hplace
  · intro hid r hr hu
    rcases mem_setProjectionRejection hr with ⟨hmem, -⟩ | ⟨r0, hr0, h0, rfl⟩
    · exact hmem
    · simp [Db.unsettled, hid r0 hr0 h0, h0.2.1] at hu

theorem settles_projectMirroredEntry {memory memory' : Memory} {db db' : Db P} {entry : MirroredEntry P}
    {now : OffsetDateTime} {input : ProjectInput} {outcome : ProjectionOutcome}
    (h : projectMirroredEntry memory db entry now input = (memory', .ok (db', outcome))) : Settles entry db db' := by
  have hrefuse : ∀ reason, refuse memory db entry input.fault reason = (memory', .ok (db', outcome)) →
      Settles entry db db' := by
    intro reason hr
    unfold refuse at hr
    dsimp only at hr
    split at hr
    · cases (Prod.mk.inj hr).2
    · cases hr
      exact settles_rejected entry db _
  unfold projectMirroredEntry at h
  split at h
  · cases h
    exact .refl entry db
  split at h
  · cases (Prod.mk.inj h).2
  dsimp only at h
  split at h
  · cases h
    exact settles_applied entry db
  · cases h
    exact .refl entry db
  · split_ifs at h
    all_goals first | exact hrefuse _ h | (cases h; exact .refl entry db)
  · exact hrefuse _ h

/-- **A committed projection**: other rows wait only if they did, and its own row only if the outcome blocks -/
theorem waitsAt_projected {n n' : Node P} {memory memory' : Memory} {db : Db P} {entry : MirroredEntry P}
    {now : OffsetDateTime} {input : ProjectInput} {outcome : ProjectionOutcome} {key : Pair} {q : ℤ}
    (h : projectMirroredEntry memory db entry now input = (memory', .ok (n'.db, outcome)))
    (hattempts : n'.attempts = n.attempted entry (some outcome)) (hw : n'.WaitsAt key q) :
    (¬ (Entry.key entry = key ∧ entry.seq = q) ∧ Node.WaitsAt ⟨db, n.memory, n.attempts⟩ key q) ∨
      (Entry.key entry = key ∧ entry.seq = q ∧ outcome.blocks = true) := by
  obtain ⟨r, hr, hq, hw⟩ := hw
  obtain ⟨hmem, hnetwork, hshard⟩ := mem_rowsOf.1 hr
  rw [Node.waits, hattempts, Node.attempted, lastOutcome_concat, Bool.and_eq_true] at hw
  obtain ⟨hunsettled, hlast⟩ := hw
  by_cases hown : Entry.key entry = key ∧ entry.seq = q
  · refine .inr ⟨hown.1, hown.2, ?_⟩
    have hcond : entry.networkId = r.networkId ∧ entry.shardId = r.shardId ∧ entry.seq = r.seq := by
      rw [hnetwork, hshard, hq, ← hown.1, hown.2]
      exact ⟨rfl, rfl, rfl⟩
    rw [if_pos hcond] at hlast
    simpa using hlast
  · refine .inl ⟨hown, r, ?_, hq, ?_⟩
    all_goals
      have hcond : ¬ (entry.networkId = r.networkId ∧ entry.shardId = r.shardId ∧ entry.seq = r.seq) := by
        rw [hnetwork, hshard, hq]
        exact fun ⟨h1, h2, h3⟩ => hown ⟨Prod.ext h1 h2, h3⟩
    · refine mem_rowsOf.2 ⟨(settles_projectMirroredEntry h).others r hmem ?_, hnetwork, hshard⟩
      exact fun h0 => hcond ⟨h0.1.symm, h0.2.1.symm, h0.2.2.symm⟩
    · rw [Node.waits, Bool.and_eq_true]
      rw [if_neg hcond] at hlast
      exact ⟨(settles_projectMirroredEntry h).unsettled_before hunsettled, hlast⟩

/-! ## What a projection leaves of other entries' memory -/

/-- for entries with another event id: parked only if they were, and held without order, at times from now on, only if
they were -/
structure Touches (id : Uuid) (now : Instant) (m m' : Memory) : Prop where
  grows : m.parked ⊆ m'.parked
  parked : ∀ i ≠ id, i ∈ m'.parked → i ∈ m.parked
  held : ∀ i ≠ id, ∀ key t, now ≤ t → m'.scheduler.holding key i t = some false → m.scheduler.holding key i t = some false

variable {id : Uuid} {now : Instant} {m m' m'' : Memory}

theorem Touches.refl (m : Memory) : Touches id now m m :=
  ⟨List.Subset.refl _, fun _ _ h => h, fun _ _ _ _ _ h => h⟩

theorem Touches.trans (h : Touches id now m m') (h' : Touches id now m' m'') : Touches id now m m'' :=
  ⟨List.Subset.trans h.grows h'.grows, fun i hi hp => h.parked i hi (h'.parked i hi hp),
    fun i hi key t ht hheld => h.held i hi key t ht (h'.held i hi key t ht hheld)⟩

/-- the waits of other entries, kept or moved to now -/
theorem Touches.of_waiting? {scheduler : Scheduler}
    (h : ∀ i ≠ id, ∀ key w', scheduler.waiting? key i = some w' →
      ∃ w, m.scheduler.waiting? key i = some w ∧ (w' = w ∨ w' = { w with nextRetry := now })) :
    Touches id now m { m with scheduler := scheduler } :=
  ⟨List.Subset.refl _, fun _ _ hp => hp, fun i hi key _ ht => Scheduler.holding_of_waiting? ht (h i hi key)⟩

theorem touches_forget (key : Pair) :
    Touches id now m { m with scheduler := (m.scheduler.forget key id).1 } := by
  apply Touches.of_waiting?
  intro i hi k w' hw
  rw [Scheduler.waiting?_forget m.scheduler fun _ => hi] at hw
  exact ⟨w', hw, .inl rfl⟩

theorem touches_markFailed (key : Pair) : Touches id now m (markProjectionFailed m key) :=
  Touches.of_waiting? fun _ _ _ w' hw => ⟨w', hw, .inl rfl⟩

theorem touches_park : Touches id now m (park m id) := by
  refine ⟨?_, ?_, fun _ _ _ _ _ h => h⟩
  · unfold park parkEntry
    dsimp only
    split_ifs
    · exact List.subset_cons_self _ _
    · exact List.Subset.refl _
  · intro i hi hp
    unfold park parkEntry at hp
    dsimp only at hp
    split_ifs at hp
    · exact (List.mem_cons.1 hp).resolve_left hi
    · exact hp

theorem refuse_memory (db : Db P) (entry : MirroredEntry P) (fault : Option Fault) (reason : String) :
    (refuse m db entry fault reason).1 =
      { m with scheduler := (m.scheduler.forget (Entry.key entry) entry.eventId).1 } := by
  unfold refuse
  dsimp only
  split_ifs <;> rfl

theorem touches_projectMirroredEntry (m : Memory) (db : Db P) (entry : MirroredEntry P) (at_ : OffsetDateTime)
    (input : ProjectInput) :
    Touches entry.eventId input.instant m (projectMirroredEntry m db entry at_ input).1 := by
  unfold projectMirroredEntry
  split
  · exact touches_forget _
  split
  · exact .refl m
  dsimp only
  split
  · apply Touches.of_waiting?
    intro i hi k w' hw
    exact Scheduler.waiting?_applied (fun _ => hi) hw
  · exact .refl m
  · rename_i ordered reason _
    have hnote : Touches entry.eventId input.instant m
        ⟨(m.scheduler.note (Entry.key entry) entry.eventId ordered (issuerIdentity entry.issuer) input.instant).1, m.parked⟩ := by
      apply Touches.of_waiting?
      intro i hi k w' hw
      rw [Scheduler.waiting?_note m.scheduler fun _ => hi] at hw
      exact ⟨w', hw, .inl rfl⟩
    split_ifs
    all_goals first | exact hnote | (rw [refuse_memory]; exact touches_forget _)
  · rw [refuse_memory]
    exact touches_forget _

theorem touches_reprojectRow (n : Node P) (entry : MirroredEntry P) (input : VisitInput) :
    Touches entry.eventId input.project.instant n.memory (reprojectRow n entry input).1.memory := by
  have h := touches_projectMirroredEntry n.memory n.db entry input.now input.project
  unfold reprojectRow
  split
  · rename_i hp
    rw [hp] at h
    exact h
  · rename_i hp
    rw [hp] at h
    exact h

theorem touches_visitRow (key : Pair) (input : VisitInput) (p : Pass P) (row : MirroredRow P) :
    Touches row.eventId input.project.instant p.node.memory (visitRow key input p row).1.node.memory := by
  unfold visitRow
  dsimp only
  split
  · exact .refl _
  split
  · split_ifs
    · exact .refl _
    · exact touches_forget _
    · exact .refl _
  · exact .refl _
  · have hrow := touches_reprojectRow p.node (mirroredEntryFromRow row) input
    split
    · rename_i hp
      rw [hp] at hrow
      exact hrow.trans (touches_markFailed key)
    · rename_i n outcome hp
      rw [hp] at hrow
      split
      · exact hrow
      · exact hrow
      · exact (hrow.trans touches_park).trans (touches_markFailed key)
      · exact hrow.trans (touches_markFailed key)
      · exact hrow
      · exact hrow

/-! ## One row of a pass -/

section visit

variable {key : Pair} {input : VisitInput} {p p' : Pass P} {row : MirroredRow P} {s : PassStep}

theorem reprojectRow_attempts (n : Node P) (entry : MirroredEntry P) (input : VisitInput) :
    ∃ o, (reprojectRow n entry input).1.attempts = n.attempted entry o := by
  unfold reprojectRow
  split
  · exact ⟨none, rfl⟩
  · exact ⟨_, rfl⟩

theorem reprojectRow_waits {n n' : Node P} {entry : MirroredEntry P} {outcome : ProjectionOutcome}
    (h : reprojectRow n entry input = (n', .ok outcome)) {q : ℤ} (hw : n'.WaitsAt key q) :
    (¬ (Entry.key entry = key ∧ entry.seq = q) ∧ n.WaitsAt key q) ∨
      (Entry.key entry = key ∧ entry.seq = q ∧ outcome.blocks = true) := by
  unfold reprojectRow at h
  split at h
  · cases (Prod.mk.inj h).2
  · rename_i memory db o hproject
    cases hcommit : input.commit with
    | committed =>
      rw [hcommit] at h
      cases h
      exact waitsAt_projected hproject rfl hw
    | failed =>
      rw [hcommit] at h
      cases (Prod.mk.inj h).2
    | lost =>
      rw [hcommit] at h
      cases (Prod.mk.inj h).2

theorem projectMirroredEntry_deferred {db db' : Db P} {entry : MirroredEntry P} {time : OffsetDateTime}
    {input : ProjectInput} {reason : String}
    (h : projectMirroredEntry m db entry time input = (m', .ok (db', .deferred reason))) : input.defers = true := by
  have hrefuse : ∀ reason', refuse m db entry input.fault reason' ≠ (m', .ok (db', .deferred reason)) := by
    intro reason' hr
    unfold refuse at hr
    dsimp only at hr
    split at hr <;> cases (Prod.mk.inj hr).2
  unfold projectMirroredEntry at h
  split at h
  · cases (Prod.mk.inj h).2
  split at h
  · cases (Prod.mk.inj h).2
  dsimp only at h
  split at h
  · cases (Prod.mk.inj h).2
  · cases (Prod.mk.inj h).2
  · rename_i ordered _ hresult
    cases ordered with
    | false => simp [ProjectInput.defers, hresult]
    | true =>
      simp only [if_true] at h
      split at h
      · exact absurd h (hrefuse _)
      · cases (Prod.mk.inj h).2
  · exact absurd h (hrefuse _)

theorem reprojectRow_deferred {n n' : Node P} {entry : MirroredEntry P} {reason : String}
    (h : reprojectRow n entry input = (n', .ok (.deferred reason))) : input.project.defers = true := by
  unfold reprojectRow at h
  split at h
  · cases (Prod.mk.inj h).2
  · rename_i memory db o hproject
    cases hcommit : input.commit with
    | committed =>
      rw [hcommit] at h
      cases h
      exact projectMirroredEntry_deferred hproject
    | failed =>
      rw [hcommit] at h
      cases (Prod.mk.inj h).2
    | lost =>
      rw [hcommit] at h
      cases (Prod.mk.inj h).2

/-- a visit attempts its own row or nothing -/
theorem visitRow_attempts (key : Pair) (input : VisitInput) (p : Pass P) (row : MirroredRow P) :
    (visitRow key input p row).1.node.attempts = p.node.attempts ∨
      ∃ o, (visitRow key input p row).1.node.attempts = p.node.attempted (mirroredEntryFromRow row) o := by
  unfold visitRow
  dsimp only
  split
  · exact .inl rfl
  split
  · split_ifs <;> exact .inl rfl
  · exact .inl rfl
  · obtain ⟨o, ho⟩ := reprojectRow_attempts p.node (mirroredEntryFromRow row) input
    split
    · rename_i hp
      rw [hp] at ho
      exact .inr ⟨o, ho⟩
    · rename_i hp
      rw [hp] at ho
      split <;> exact .inr ⟨o, ho⟩

/-- a row that the pass gave up is settled -/
theorem waitsAt_rejected {n n' : Node P} {entry : MirroredEntry P} {reason : String} {q : ℤ}
    (hw : n'.WaitsAt key q) (hrows : n'.db.rows = setProjectionRejection n.db.rows entry (some reason))
    (happlied : n'.db.applied = n.db.applied) (hattempts : n'.attempts = n.attempts) :
    ¬ (Entry.key entry = key ∧ entry.seq = q) ∧ n.WaitsAt key q := by
  obtain ⟨r, hr, hq, hw⟩ := hw
  obtain ⟨hmem, hnetwork, hshard⟩ := mem_rowsOf.1 hr
  rw [Node.waits, Db.unsettled, Bool.and_eq_true, Bool.and_eq_true] at hw
  obtain ⟨⟨hclaim, hnone⟩, hlast⟩ := hw
  rw [hrows] at hmem
  rcases mem_setProjectionRejection hmem with ⟨hr0, h0⟩ | ⟨r0, -, -, rfl⟩
  · refine ⟨?_, r, mem_rowsOf.2 ⟨hr0, hnetwork, hshard⟩, hq, ?_⟩
    · intro hown
      refine h0 ⟨hnetwork.trans ?_, hshard.trans ?_, hq.trans hown.2.symm⟩
      · rw [← hown.1]
        rfl
      · rw [← hown.1]
        rfl
    · rw [Node.waits, Db.unsettled, ← happlied, ← hattempts, hclaim, hnone, hlast]
      rfl
  · cases hnone

/-- **A visit that lets the pass go on** leaves only other rows waiting -/
theorem visitRow_waits (h : visitRow key input p row = (p', s)) (hs : s = .next ∨ s = .leave)
    (hkey : (row.networkId, row.shardId) = key) (hparked : row.eventId ∈ p.node.memory.parked → ¬ p.node.WaitsAt key row.seq)
    (hheld : p.node.memory.scheduler.holding key row.eventId input.heldAt = some false → ¬ p.node.WaitsAt key row.seq)
    {q : ℤ} (hw : p'.node.WaitsAt key q) : q ≠ row.seq ∧ p.node.WaitsAt key q := by
  have hsame : ¬ p.node.WaitsAt key row.seq → p'.node.db = p.node.db → p'.node.attempts = p.node.attempts →
      q ≠ row.seq ∧ p.node.WaitsAt key q := by
    intro hnot hdb hattempts
    have hw' : p.node.WaitsAt key q := by
      unfold Node.WaitsAt Node.waits at hw ⊢
      rw [hdb, hattempts] at hw
      exact hw
    exact ⟨fun hq => hnot (hq ▸ hw'), hw'⟩
  unfold visitRow at h
  dsimp only at h
  split at h
  · rename_i hcontains
    cases h
    exact hsame (hparked (by simpa using hcontains)) rfl rfl
  split at h
  · split_ifs at h
    · cases h
      simp at hs
    · cases h
      obtain ⟨hown, hw'⟩ := waitsAt_rejected (n := p.node) hw rfl rfl rfl
      exact ⟨fun hq => hown ⟨hkey, hq.symm⟩, hw'⟩
    · cases h
      simp at hs
  · rename_i hholding
    cases h
    exact hsame (hheld hholding) rfl rfl
  · split at h
    · cases h
      simp at hs
    · rename_i n outcome hproject
      -- only the tables and the attempts matter
      have hdone : outcome.blocks = false → p'.node.db = n.db → p'.node.attempts = n.attempts →
          q ≠ row.seq ∧ p.node.WaitsAt key q := by
        intro hblocks hdb hattempts
        have hw' : n.WaitsAt key q := by
          unfold Node.WaitsAt Node.waits at hw ⊢
          rw [hdb, hattempts] at hw
          exact hw
        rcases reprojectRow_waits hproject hw' with ⟨hown, hbefore⟩ | ⟨-, -, hb⟩
        · exact ⟨fun hq => hown ⟨hkey, hq.symm⟩, hbefore⟩
        · rw [hblocks] at hb
          cases hb
      split at h
      · cases h
        exact hdone rfl rfl rfl
      · cases h
        exact hdone rfl rfl rfl
      · cases h
        exact hdone rfl rfl rfl
      · cases h
        simp at hs
      · cases h
        simp at hs
      · cases h
        exact hdone rfl rfl rfl

/-- a visit that ends the pass as blocked says so in the report -/
theorem visitRow_blocked (h : visitRow key input p row = (p', .blocked)) : p'.report.blocked = true := by
  have htrack : ∀ p1 : Pass P, (p1.track row.eventId).2 ≠ .blocked := by
    intro p1
    unfold Pass.track
    split_ifs <;> simp
  unfold visitRow at h
  dsimp only at h
  split at h
  · cases (Prod.mk.inj h).2
  split at h
  · split_ifs at h <;> cases h
    rfl
  · exact absurd (congrArg Prod.snd h) (htrack p)
  · split at h
    · cases (Prod.mk.inj h).2
    · split at h
      · cases (Prod.mk.inj h).2
      · cases (Prod.mk.inj h).2
      · cases (Prod.mk.inj h).2
      · cases h
        rfl
      · cases h
        rfl
      · exact absurd (congrArg Prod.snd h) (htrack _)

/-- the number of waits without order grows by a row that is one -/
theorem visitRow_slots (h : visitRow key input p row = (p', s)) :
    (p'.waitingSeen = p.waitingSeen ∧ s ≠ .leave) ∨
      (p'.waitingSeen = p.waitingSeen + 1 ∧ (s = .leave → maxDeferredPerShard ≤ p'.waitingSeen) ∧
        row.eventId ∉ p.node.memory.parked ∧
        (p.node.memory.scheduler.holding key row.eventId input.heldAt = some false ∨ input.project.defers = true)) := by
  have htrack : ∀ p1 : Pass P, (p1.track row.eventId).1.waitingSeen = p1.waitingSeen + 1 ∧
      ((p1.track row.eventId).2 = .leave → maxDeferredPerShard ≤ p1.waitingSeen + 1) := by
    intro p1
    refine ⟨rfl, ?_⟩
    unfold Pass.track
    split_ifs with hcap
    · exact fun _ => hcap
    · intro hleave
      cases hleave
  unfold visitRow at h
  dsimp only at h
  split at h
  · cases h
    exact .inl ⟨rfl, by simp⟩
  rename_i hparked
  rw [List.contains_iff_mem] at hparked
  split at h
  · split_ifs at h <;> cases h <;> exact .inl ⟨rfl, by simp⟩
  · rename_i hheld
    obtain ⟨hseen, hleave⟩ := htrack p
    rw [h] at hseen hleave
    exact .inr ⟨hseen, fun hs => hseen ▸ hleave hs, hparked, .inl hheld⟩
  · split at h
    · cases h
      exact .inl ⟨rfl, by simp⟩
    · rename_i n outcome hproject
      split at h
      · cases h
        exact .inl ⟨rfl, by simp⟩
      · cases h
        exact .inl ⟨rfl, by simp⟩
      · cases h
        exact .inl ⟨rfl, by simp⟩
      · cases h
        exact .inl ⟨rfl, by simp⟩
      · cases h
        exact .inl ⟨rfl, by simp⟩
      · obtain ⟨hseen, hleave⟩ := htrack { p with node := n, report := { p.report with deferred := p.report.deferred + 1 } }
        rw [h] at hseen hleave
        exact .inr ⟨hseen, fun hs => hseen ▸ hleave hs, hparked, .inr (reprojectRow_deferred hproject)⟩

end visit

/-! ## A pass -/

/-- one element more passes the weaker test -/
theorem length_filter_lt {α : Type} {l : List α} {p q : α → Bool} (himp : ∀ x ∈ l, p x = true → q x = true) {x : α}
    (hx : x ∈ l) (hq : q x = true) (hp : p x = false) : (l.filter p).length < (l.filter q).length := by
  have hsub : l.filter p = (l.filter q).filter p := by
    rw [List.filter_filter]
    apply List.filter_congr
    intro y hy
    cases hpy : p y with
    | false => simp
    | true => simp [himp y hy hpy]
  rw [hsub, List.length_filter_lt_length_iff_exists]
  exact ⟨x, List.mem_filter.2 ⟨hx, hq⟩, by simp [hp]⟩

theorem length_filter_le {α : Type} {l : List α} {p q : α → Bool} (himp : ∀ x, p x = true → q x = true) :
    (l.filter p).length ≤ (l.filter q).length :=
  (List.monotone_filter_right l himp).length_le

section pass

variable {n : Node P} {key : Pair} {input : PassInput} {p p' : Pass P} {row : MirroredRow P} {s : PassStep} {c : ℤ}

/-- the rows of a shard ascend -/
def Ascending (rows : List (MirroredRow P)) (key : Pair) : Prop :=
  (rowsOf rows key.1 key.2 none).Pairwise fun a b => a.seq < b.seq

theorem Ascending.eq_of_seq {rows : List (MirroredRow P)} (h : Ascending rows key) {a b : MirroredRow P}
    (ha : a ∈ rowsOf rows key.1 key.2 none) (hb : b ∈ rowsOf rows key.1 key.2 none) (hseq : a.seq = b.seq) : a = b := by
  have hnodup : ((rowsOf rows key.1 key.2 none).map fun r => r.seq).Nodup :=
    List.pairwise_map.2 (h.imp fun hlt => hlt.ne)
  exact List.inj_on_of_nodup_map hnodup ha hb hseq

theorem Ascending.of_columns {rows rows' : List (MirroredRow P)} (h : Ascending rows key)
    (hcolumns : columns rows' = columns rows) : Ascending rows' key := by
  have hshard : (columns (rowsOf rows' key.1 key.2 none)).Pairwise fun a b => a.seq < b.seq := by
    rw [columns_rowsOf, hcolumns, ← columns_rowsOf]
    exact List.pairwise_map.2 h
  unfold columns at hshard
  rw [List.pairwise_map] at hshard
  exact hshard

/-- where the pass stands: everything up to the cursor is dealt with, and for rows ahead of it that are no later than a
waiting one, memory says what it said at the start -/
structure PassOk (n : Node P) (key : Pair) (input : PassInput) (c : ℤ) (p : Pass P) : Prop where
  entries : columns p.node.db.rows = columns n.db.rows
  pending : p.node.pending key ⊆ n.pending key
  waits : ∀ q, p.node.WaitsAt key q → n.WaitsAt key q ∧ c < q
  attempts : ∀ a ∈ p.node.attempts, a.behind = false
  parked : n.memory.parked ⊆ p.node.memory.parked
  memory : ∀ w, n.WaitsAt key w → ∀ r ∈ n.pending key, c < r.seq → r.seq ≤ w →
    (r.eventId ∈ p.node.memory.parked → r.eventId ∈ n.memory.parked) ∧
    (p.node.memory.scheduler.holding key r.eventId (input.visit r.seq).heldAt = some false →
      n.memory.scheduler.holding key r.eventId (input.visit r.seq).heldAt = some false)
  slots : ∀ w, n.WaitsAt key w → c < w →
    p.waitingSeen ≤ ((n.pending key).filter fun r => decide (r.seq ≤ c) && n.takesSlot key input r).length

theorem mem_pending {r : MirroredRow P} :
    r ∈ n.pending key ↔ r ∈ rowsOf n.db.rows key.1 key.2 none ∧ n.db.unsettled r = true := by
  simp [Node.pending]

/-- a waiting row is pending -/
theorem exists_pending_of_waitsAt {q : ℤ} (h : n.WaitsAt key q) : ∃ w ∈ n.pending key, w.seq = q ∧ n.waits w = true := by
  obtain ⟨w, hw, hq, hwaits⟩ := h
  refine ⟨w, mem_pending.2 ⟨hw, ?_⟩, hq, hwaits⟩
  rw [Node.waits, Bool.and_eq_true] at hwaits
  exact hwaits.1

/-- the tables after a visit -/
theorem settles_visitRow (key : Pair) (input : VisitInput) (p : Pass P) (row : MirroredRow P) :
    Settles (mirroredEntryFromRow row) p.node.db (visitRow key input p row).1.node.db := by
  unfold visitRow
  dsimp only
  split
  · exact .refl _ _
  split
  · split_ifs
    · exact .refl _ _
    · exact settles_rejected _ _ _
    · exact .refl _ _
  · exact .refl _ _
  · have hrow : Settles (mirroredEntryFromRow row) p.node.db (reprojectRow p.node (mirroredEntryFromRow row) input).1.db := by
      unfold reprojectRow
      split
      · exact .refl _ _
      · rename_i hproject
        dsimp only
        split_ifs
        · exact settles_projectMirroredEntry hproject
        · exact .refl _ _
    split
    · rename_i hp
      rw [hp] at hrow
      exact hrow
    · rename_i hp
      rw [hp] at hrow
      split <;> exact hrow

/-- a visit attempts nothing behind a waiting row -/
theorem visitRow_inOrder (h : ∀ a ∈ p.node.attempts, a.behind = false) (hkey : (row.networkId, row.shardId) = key)
    (hnext : ∀ q, p.node.WaitsAt key q → row.seq ≤ q) (input : VisitInput) :
    ∀ a ∈ (visitRow key input p row).1.node.attempts, a.behind = false := by
  intro a ha
  rcases visitRow_attempts key input p row with hsame | ⟨o, hmore⟩
  · rw [hsame] at ha
    exact h a ha
  · rw [hmore, Node.attempted, List.mem_append, List.mem_singleton] at ha
    rcases ha with ha | rfl
    · exact h a ha
    · rw [Bool.eq_false_iff]
      intro hbehind
      obtain ⟨q, hq, hw⟩ := waitsBefore_iff.1 hbehind
      refine absurd (hnext q ?_) (not_le.2 hq)
      rw [← hkey]
      exact hw

/-- rows up to a waiting one have their own event ids -/
theorem Stops.eventId_ne {w a b : MirroredRow P} (h : Stops n key input w)
    (ha : a ∈ n.pending key) (hb : b ∈ n.pending key) (haw : a.seq ≤ w.seq) (hbw : b.seq ≤ w.seq) (hne : a.seq ≠ b.seq) :
    a.eventId ≠ b.eventId := by
  intro hid
  have hmem : ∀ r, r ∈ n.pending key → r.seq ≤ w.seq → r ∈ (n.pending key).filter fun r => decide (r.seq ≤ w.seq) :=
    fun r hr hle => List.mem_filter.2 ⟨hr, by simpa using hle⟩
  exact hne (congrArg (fun r => r.seq) (List.inj_on_of_nodup_map h.distinct (hmem a ha haw) (hmem b hb hbw) hid))

/-- **One row of a pass** keeps where the pass stands -/
theorem passOk_visit (hasc : Ascending n.db.rows key) (hclock : input.Clocked)
    (hstops : ∀ w ∈ rowsOf n.db.rows key.1 key.2 none, n.waits w = true → Stops n key input w)
    (h : PassOk n key input c p) (hrow : row ∈ n.pending key) (hc : c < row.seq)
    (hnext : ∀ q, p.node.WaitsAt key q → row.seq ≤ q)
    (hvisit : visitRow key (input.visit row.seq) p row = (p', s)) (hs : s = .next ∨ s = .leave) :
    PassOk n key input row.seq p' ∧ ∀ q, p'.node.WaitsAt key q → p.node.WaitsAt key q := by
  obtain ⟨hin, -⟩ := mem_pending.1 hrow
  obtain ⟨hmem, hnetwork, hshard⟩ := mem_rowsOf.1 hin
  have hkey : (row.networkId, row.shardId) = key := Prod.ext hnetwork hshard
  have htouches := touches_visitRow key (input.visit row.seq) p row
  have hcolumns := visitRow_columns key (input.visit row.seq) p row
  have hsettles := settles_visitRow key (input.visit row.seq) p row
  have horder := visitRow_inOrder h.attempts hkey hnext (input.visit row.seq)
  rw [hvisit] at htouches hcolumns hsettles horder
  -- if this row waits, the pass stops at it or settles it
  have hown : p.node.WaitsAt key row.seq →
      row.eventId ∉ p.node.memory.parked ∧
        p.node.memory.scheduler.holding key row.eventId (input.visit row.seq).heldAt ≠ some false := by
    intro hwaits
    obtain ⟨w, hw, hseq, hwwaits⟩ := (h.waits _ hwaits).1
    obtain rfl := hasc.eq_of_seq hw hin hseq
    obtain ⟨hparked, hheld⟩ := h.memory _ (h.waits _ hwaits).1 w hrow hc le_rfl
    exact ⟨fun hp => (hstops w hw hwwaits).unparked (hparked hp), fun hp => (hstops w hw hwwaits).unheld (hheld hp)⟩
  have hsameId : SameIdAt p.node.db.rows (mirroredEntryFromRow row) := by
    intro r hr hplace
    have hr' : r.toMirrored ∈ columns n.db.rows := by
      rw [← h.entries]
      exact List.mem_map_of_mem hr
    obtain ⟨r0, hr0, heq⟩ := List.mem_map.1 hr'
    have hplace0 : r0.networkId = key.1 ∧ r0.shardId = key.2 ∧ r0.seq = row.seq := by
      rw [heq]
      exact ⟨hplace.1.trans hnetwork, hplace.2.1.trans hshard, hplace.2.2⟩
    obtain rfl := hasc.eq_of_seq (mem_rowsOf.2 ⟨hr0, hplace0.1, hplace0.2.1⟩) hin hplace0.2.2
    exact (congrArg Mirrored.eventId heq).symm
  have hpending : p'.node.pending key ⊆ n.pending key := by
    intro r hr
    obtain ⟨hr, hu⟩ := mem_pending.1 hr
    obtain ⟨hr, hrkey⟩ := mem_rowsOf.1 hr
    exact h.pending (mem_pending.2 ⟨mem_rowsOf.2 ⟨hsettles.unsettled hsameId r hr hu, hrkey⟩, hsettles.unsettled_before hu⟩)
  have hwaits : ∀ q, p'.node.WaitsAt key q → q ≠ row.seq ∧ p.node.WaitsAt key q := fun q =>
    visitRow_waits hvisit hs hkey (fun hp hw => (hown hw).1 hp) (fun hp hw => (hown hw).2 hp)
  refine ⟨⟨hcolumns.trans h.entries, hpending, ?_, horder, List.Subset.trans h.parked htouches.grows, ?_, ?_⟩,
    fun q hq => (hwaits q hq).2⟩
  · intro q hq
    obtain ⟨hne, hbefore⟩ := hwaits q hq
    exact ⟨(h.waits q hbefore).1, lt_of_le_of_ne (hnext q hbefore) (Ne.symm hne)⟩
  · intro w hw r hr hlt hle
    obtain ⟨wr, hwr, rfl, hwaits⟩ := exists_pending_of_waitsAt hw
    have hne : r.eventId ≠ row.eventId :=
      (hstops wr (mem_pending.1 hwr).1 hwaits).eventId_ne hr hrow hle (hlt.le.trans hle) hlt.ne'
    obtain ⟨hparked, hheld⟩ := h.memory _ hw r hr (hc.trans hlt) hle
    exact ⟨fun hp => hparked (htouches.parked _ hne hp),
      fun hp => hheld (htouches.held _ hne key _ (hclock _ _ hlt) hp)⟩
  · intro w hw hlt
    rcases visitRow_slots hvisit with ⟨hseen, -⟩ | ⟨hseen, -, hunparked, hslot⟩
    · rw [hseen]
      refine (h.slots w hw (hc.trans hlt)).trans (length_filter_le ?_)
      intro r hr
      rw [Bool.and_eq_true, decide_eq_true_eq] at hr ⊢
      exact ⟨hr.1.trans hc.le, hr.2⟩
    · have htakes : n.takesSlot key input row = true := by
        have hparked : row.eventId ∉ n.memory.parked := fun hp => hunparked (h.parked hp)
        have hslot' : n.memory.scheduler.holding key row.eventId (input.visit row.seq).heldAt = some false ∨
            (input.visit row.seq).project.defers = true :=
          hslot.imp_left (h.memory w hw row hrow hc hlt.le).2
        simpa [Node.takesSlot, hparked] using hslot'
      rw [hseen]
      refine Nat.succ_le_of_lt ((h.slots w hw (hc.trans hlt)).trans_lt (length_filter_lt ?_ hrow ?_ ?_))
      · intro r _ hr
        rw [Bool.and_eq_true, decide_eq_true_eq] at hr ⊢
        exact ⟨hr.1.trans hc.le, hr.2⟩
      · rw [Bool.and_eq_true, decide_eq_true_eq]
        exact ⟨le_rfl, htakes⟩
      · simp [hc]

/-- a pass that leaves early has met more waits without order than can stand before a waiting row -/
theorem passOk_leave (hstops : ∀ w ∈ rowsOf n.db.rows key.1 key.2 none, n.waits w = true → Stops n key input w)
    (h : PassOk n key input c p) (hseen : maxDeferredPerShard ≤ p.waitingSeen) (q : ℤ) : ¬ p.node.WaitsAt key q := by
  intro hq
  obtain ⟨hbefore, hlt⟩ := h.waits q hq
  obtain ⟨w, hw, rfl, hwaits⟩ := exists_pending_of_waitsAt hbefore
  have hslots := (hstops w (mem_pending.1 hw).1 hwaits).slots
  have hle : ((n.pending key).filter fun r => decide (r.seq ≤ c) && n.takesSlot key input r).length ≤
      ((n.pending key).filter fun r => decide (r.seq < w.seq) && n.takesSlot key input r).length := by
    apply length_filter_le
    intro r hr
    rw [Bool.and_eq_true, decide_eq_true_eq] at hr ⊢
    exact ⟨hr.1.trans_lt hlt, hr.2⟩
  have := h.slots _ hbefore hlt
  omega

/-- how the rows of a batch may end: what was attempted was in order, and unless the pass stopped as blocked or failed, rows
wait only ahead of the cursor and if they did before, or nowhere when it left early -/
structure PassEnds (n : Node P) (key : Pair) (input : PassInput) (c : ℤ) (start p : Pass P) (s : PassStep) : Prop where
  attempts : ∀ a ∈ p.node.attempts, a.behind = false
  stopped : s = .blocked → p.report.blocked = true
  next : s = .next → PassOk n key input c p ∧ ∀ q, p.node.WaitsAt key q → start.node.WaitsAt key q
  leave : s = .leave → ∀ q, ¬ p.node.WaitsAt key q

theorem scanRows_inOrder (hasc : Ascending n.db.rows key) (hclock : input.Clocked)
    (hstops : ∀ w ∈ rowsOf n.db.rows key.1 key.2 none, n.waits w = true → Stops n key input w)
    {rows : List (MirroredRow P)} (h : PassOk n key input c p) (hrows : rows ⊆ n.pending key)
    (hsorted : rows.Pairwise fun a b => a.seq < b.seq) (hc : ∀ r ∈ rows, c < r.seq)
    (hahead : ∀ q, p.node.WaitsAt key q → (∃ r ∈ rows, r.seq = q) ∨ ∀ r ∈ rows, r.seq < q) :
    PassEnds n key input ((rows.map fun r => r.seq).getLastD c) p (scanRows key input p rows).1
      (scanRows key input p rows).2 := by
  induction rows generalizing c p with
  | nil => exact ⟨h.attempts, by simp [scanRows], fun _ => ⟨h, fun _ hq => hq⟩, by simp [scanRows]⟩
  | cons row rest ih =>
    obtain ⟨hfirst, hrest⟩ := List.pairwise_cons.1 hsorted
    have hrow := hrows (List.mem_cons_self)
    have hcrow := hc row (List.mem_cons_self)
    have hnext : ∀ q, p.node.WaitsAt key q → row.seq ≤ q := by
      intro q hq
      rcases hahead q hq with ⟨r, hr, rfl⟩ | hall
      · rcases List.mem_cons.1 hr with rfl | hr
        · exact le_rfl
        · exact (hfirst r hr).le
      · exact (hall row (List.mem_cons_self)).le
    obtain ⟨-, hnetwork, hshard⟩ := mem_rowsOf.1 (mem_pending.1 hrow).1
    have horder := visitRow_inOrder h.attempts (Prod.ext hnetwork hshard) hnext (input.visit row.seq)
    cases hvisit : visitRow key (input.visit row.seq) p row with
    | mk p1 s1 =>
      rw [hvisit] at horder
      have hlast : ((row :: rest).map fun r => r.seq).getLastD c = (rest.map fun r => r.seq).getLastD row.seq := by
        cases rest <;> rfl
      rw [scanRows, hvisit, hlast]
      cases s1 with
      | next =>
        obtain ⟨hok, hwaits⟩ := passOk_visit hasc hclock hstops h hrow hcrow hnext hvisit (.inl rfl)
        have hends := ih hok (fun r hr => hrows (List.mem_cons_of_mem _ hr)) hrest hfirst ?_
        · exact ⟨hends.attempts, hends.stopped,
            fun hs => ⟨(hends.next hs).1, fun q hq => hwaits q ((hends.next hs).2 q hq)⟩, hends.leave⟩
        · intro q hq
          rcases hahead q (hwaits q hq) with ⟨r, hr, hseq⟩ | hall
          · rcases List.mem_cons.1 hr with rfl | hr
            · exact absurd hseq (hok.waits q hq).2.ne
            · exact .inl ⟨r, hr, hseq⟩
          · exact .inr fun r hr => hall r (List.mem_cons_of_mem _ hr)
      | leave =>
        obtain ⟨hok, -⟩ := passOk_visit hasc hclock hstops h hrow hcrow hnext hvisit (.inr rfl)
        refine ⟨horder, by simp, by simp, fun _ => passOk_leave hstops hok ?_⟩
        rcases visitRow_slots hvisit with ⟨-, hne⟩ | ⟨-, hseen, -⟩
        · exact absurd rfl hne
        · exact hseen rfl
      | blocked => exact ⟨horder, fun _ => visitRow_blocked hvisit, by simp, by simp⟩
      | failed e => exact ⟨horder, by simp, by simp, by simp⟩

/-- every row has its payload -/
def Complete (rows : List (MirroredRow P)) : Prop := ∀ c ∈ columns rows, c.payload.isSome = true

theorem fetchUnapplied_eq {n : Node P} (hasc : Ascending n.db.rows key) (hcomplete : Complete n.db.rows) (c : ℤ) :
    fetchUnapplied n.db key c = ((n.pending key).filter fun r => decide (c < r.seq)).take reprojectBatch := by
  have hfilter : (rowsOf n.db.rows key.1 key.2 none).filter
      (fun r => decide (c < r.seq) && r.payload.isSome && n.db.unsettled r) =
      (n.pending key).filter fun r => decide (c < r.seq) := by
    rw [Node.pending, List.filter_filter]
    apply List.filter_congr
    intro r hr
    have hpayload := hcomplete r.toMirrored (List.mem_map_of_mem (mem_rowsOf.1 hr).1)
    rw [hpayload, Bool.and_true]
  have hsorted : ((n.pending key).filter fun r => decide (c < r.seq)).Pairwise fun a b => a.seq ≤ b.seq :=
    ((hasc.imp fun hlt => hlt.le).filter _).filter _
  rw [fetchUnapplied, hfilter, Mirror.orderBySeq, hsorted.insertionSort_eq]

/-- **One batch**: ascending pending rows after the cursor, and the rows it leaves out come after a full batch -/
theorem fetchUnapplied_spec {n : Node P} (hasc : Ascending n.db.rows key) (hcomplete : Complete n.db.rows) (c : ℤ) :
    fetchUnapplied n.db key c ⊆ n.pending key ∧ (∀ r ∈ fetchUnapplied n.db key c, c < r.seq) ∧
      (fetchUnapplied n.db key c).Pairwise (fun a b => a.seq < b.seq) ∧
      ∀ r ∈ n.pending key, c < r.seq → r ∈ fetchUnapplied n.db key c ∨
        (reprojectBatch ≤ (fetchUnapplied n.db key c).length ∧ ∀ x ∈ fetchUnapplied n.db key c, x.seq < r.seq) := by
  have hsorted : ((n.pending key).filter fun r => decide (c < r.seq)).Pairwise fun a b => a.seq < b.seq :=
    (hasc.filter _).filter _
  rw [fetchUnapplied_eq hasc hcomplete]
  refine ⟨?_, ?_, hsorted.take, ?_⟩
  · exact fun r hr => (List.mem_filter.1 (List.mem_of_mem_take hr)).1
  · exact fun r hr => by simpa using (List.mem_filter.1 (List.mem_of_mem_take hr)).2
  · intro r hr hlt
    have hmem : r ∈ (n.pending key).filter fun r => decide (c < r.seq) := List.mem_filter.2 ⟨hr, by simpa using hlt⟩
    rw [← List.take_append_drop reprojectBatch ((n.pending key).filter fun r => decide (c < r.seq))] at hmem hsorted
    rcases List.mem_append.1 hmem with htake | hdrop
    · exact .inl htake
    · refine .inr ⟨?_, fun x hx => (List.pairwise_append.1 hsorted).2.2 x hx r hdrop⟩
      have hlen := List.length_pos_of_mem hdrop
      rw [List.length_drop] at hlen
      rw [List.length_take]
      omega

theorem seq_le_last {rows : List (MirroredRow P)} (hsorted : rows.Pairwise fun a b => a.seq < b.seq) {r : MirroredRow P}
    (hr : r ∈ rows) {c : ℤ} : r.seq ≤ (rows.map fun r => r.seq).getLastD c := by
  rcases List.eq_nil_or_concat' rows with rfl | ⟨init, last, rfl⟩
  · cases hr
  · rw [List.map_append, List.map_singleton, List.getLastD_concat]
    rcases List.mem_append.1 hr with hr | hr
    · exact ((List.pairwise_append.1 hsorted).2.2 r hr last (by simp)).le
    · rw [List.mem_singleton.1 hr]

/-- **The batches of a pass**: in order, and when it was neither blocked nor failed nothing waits any more -/
theorem scanBatches_inOrder (hasc : Ascending n.db.rows key) (hcomplete : Complete n.db.rows) (hclock : input.Clocked)
    (hstops : ∀ w ∈ rowsOf n.db.rows key.1 key.2 none, n.waits w = true → Stops n key input w) {fuel : ℕ}
    (hfuel : ((rowsOf n.db.rows key.1 key.2 none).filter fun r => decide (c < r.seq)).length < fuel)
    (h : PassOk n key input c p) :
    (∀ a ∈ (scanBatches key input fuel p c).1.node.attempts, a.behind = false) ∧
      ((scanBatches key input fuel p c).2 = .blocked → (scanBatches key input fuel p c).1.report.blocked = true) ∧
      ((scanBatches key input fuel p c).2 = .next ∨ (scanBatches key input fuel p c).2 = .leave →
        ∀ q, ¬ (scanBatches key input fuel p c).1.node.WaitsAt key q) := by
  induction fuel generalizing p c with
  | zero => exact absurd hfuel (Nat.not_lt_zero _)
  | succ fuel ih =>
    rw [scanBatches]
    split
    · exact ⟨h.attempts, by simp, by simp⟩
    dsimp only
    have hcomplete' : Complete p.node.db.rows := by
      unfold Complete
      rw [h.entries]
      exact hcomplete
    obtain ⟨hsub, hcursor, hsorted, hleft⟩ := fetchUnapplied_spec (hasc.of_columns h.entries) hcomplete' c
    generalize fetchUnapplied p.node.db key c = rows at hsub hcursor hsorted hleft ⊢
    have hrows : rows ⊆ n.pending key := List.Subset.trans hsub h.pending
    have hends := scanRows_inOrder hasc hclock hstops h hrows hsorted hcursor (by
      intro q hq
      obtain ⟨r, hr, rfl, -⟩ := exists_pending_of_waitsAt hq
      rcases hleft r hr (h.waits _ hq).2 with hin | ⟨-, hafter⟩
      · exact .inl ⟨r, hin, rfl⟩
      · exact .inr hafter)
    cases hscan : scanRows key input p rows with
    | mk p1 s1 =>
      rw [hscan] at hends
      cases s1 with
      | blocked => exact ⟨hends.attempts, hends.stopped, by simp⟩
      | failed e => exact ⟨hends.attempts, by simp, by simp⟩
      | leave => exact ⟨hends.attempts, by simp, fun _ => hends.leave rfl⟩
      | next =>
        obtain ⟨hok, hwaits⟩ := hends.next rfl
        have hlast : ∀ r ∈ rows, r.seq ≤ (rows.map fun r => r.seq).getLastD c := by
          intro r hr
          exact seq_le_last hsorted hr
        dsimp only
        split
        · rename_i hshort
          refine ⟨hok.attempts, by simp, fun _ q hq => ?_⟩
          obtain ⟨r, hr, rfl, -⟩ := exists_pending_of_waitsAt (hwaits q hq)
          rcases hleft r hr (h.waits _ (hwaits _ hq)).2 with hin | ⟨hlong, -⟩
          · exact absurd (hok.waits _ hq).2 (not_lt.2 (hlast r hin))
          · exact absurd hlong (not_le.2 hshort)
        · rename_i hfull
          have hne : 0 < rows.length := (by decide : 0 < reprojectBatch).trans_le (not_lt.1 hfull)
          obtain ⟨r, hr⟩ := List.exists_mem_of_length_pos hne
          refine ih ((length_filter_lt ?_ (mem_pending.1 (hrows hr)).1 ?_ ?_).trans_le (Nat.lt_succ_iff.1 hfuel)) hok
          · intro x _ hx
            rw [decide_eq_true_eq] at hx ⊢
            exact (hcursor r hr).trans ((hlast r hr).trans_lt hx)
          · simpa using hcursor r hr
          · simpa using hlast r hr

/-- nothing was attempted behind a waiting row, and with the flag down no row of the shard waits -/
structure InOrder (key : Pair) (n : Node P) (blocked : Bool) : Prop where
  attempts : ∀ a ∈ n.attempts, a.behind = false
  idle : projectsMirroredEntries key.2 = true → blocked = false → ∀ q, ¬ n.WaitsAt key q

/-- **A pass** that finds its waiting rows stopping is in order, and reports the flag -/
theorem reprojectUnapplied_inOrder (hattempts : ∀ a ∈ n.attempts, a.behind = false) (hasc : Ascending n.db.rows key)
    (hpos : ∀ r ∈ rowsOf n.db.rows key.1 key.2 none, 0 < r.seq) (hcomplete : Complete n.db.rows) (hclock : input.Clocked)
    (hstops : ∀ w ∈ rowsOf n.db.rows key.1 key.2 none, n.waits w = true → Stops n key input w) :
    (∀ a ∈ (reprojectUnapplied n key input).1.attempts, a.behind = false) ∧
      ∀ report, (reprojectUnapplied n key input).2 = .ok report →
        InOrder key (reprojectUnapplied n key input).1 report.blocked := by
  unfold reprojectUnapplied
  split
  · rename_i hskip
    refine ⟨hattempts, fun report _ => ⟨hattempts, ?_⟩⟩
    rintro hprojects - q ⟨w, hw, -, hwaits⟩
    rw [hprojects, (hstops w hw hwaits).due] at hskip
    cases hskip
  · have hstart : PassOk n key input 0 ⟨n, ⟨0, 0, false, 0⟩, 0, []⟩ := by
      refine ⟨rfl, List.Subset.refl _, ?_, hattempts, List.Subset.refl _, fun _ _ _ _ _ _ => ⟨id, id⟩,
        fun _ _ _ => Nat.zero_le _⟩
      intro q hq
      refine ⟨hq, ?_⟩
      obtain ⟨w, hw, hseq, -⟩ := hq
      exact hseq ▸ hpos w hw
    have hfuel : ((rowsOf n.db.rows key.1 key.2 none).filter fun r => decide ((0 : ℤ) < r.seq)).length <
        n.db.rows.length + 1 :=
      Nat.lt_succ_of_le ((List.length_filter_le _ _).trans (List.length_filter_le _ _))
    obtain ⟨horder, hblocked, hidle⟩ := scanBatches_inOrder hasc hcomplete hclock hstops hfuel hstart
    split
    · rename_i p e hscan
      rw [hscan] at horder
      refine ⟨horder, fun report h => ?_⟩
      cases h
    · rename_i p hscan
      rw [hscan] at horder hblocked
      refine ⟨horder, fun report h => ⟨horder, ?_⟩⟩
      cases h
      rw [hblocked rfl]
      exact fun _ h => nomatch h
    · rename_i p hscan
      rw [hscan] at horder hidle
      exact ⟨horder, fun report _ => ⟨horder, fun _ _ => hidle (.inr rfl)⟩⟩
    · rename_i p hscan
      rw [hscan] at horder hidle
      exact ⟨horder, fun report _ => ⟨horder, fun _ _ => hidle (.inl rfl)⟩⟩

end pass

/-! ## Storing -/

section store

variable {n : Node P} {entry : MirroredEntry P} {key : Pair}

/-- an attempt of an entry of a shard where nothing waits is in order -/
theorem attempted_inOrder (h : ∀ a ∈ n.attempts, a.behind = false) (hidle : ∀ q, ¬ n.WaitsAt (Entry.key entry) q)
    (o : Option ProjectionOutcome) : ∀ a ∈ n.attempted entry o, a.behind = false := by
  intro a ha
  rw [Node.attempted, List.mem_append, List.mem_singleton] at ha
  rcases ha with ha | rfl
  · exact h a ha
  · rw [Bool.eq_false_iff]
    intro hbehind
    obtain ⟨q, -, hw⟩ := waitsBefore_iff.1 hbehind
    exact hidle q hw

/-- a new row that was never tried adds no other waiting row -/
theorem waitsAt_stored {time : OffsetDateTime} {envelope : EnvelopeRow} {q : ℤ}
    (h : Node.WaitsAt ⟨{ n.db with rows := n.db.rows ++ [rowOf time entry envelope] }, n.memory, n.attempts⟩ key q)
    (hne : ¬ (Entry.key entry = key ∧ entry.seq = q)) : n.WaitsAt key q := by
  obtain ⟨r, hr, hq, hwaits⟩ := h
  obtain ⟨hmem, hnetwork, hshard⟩ := mem_rowsOf.1 hr
  rcases List.mem_append.1 hmem with hmem | hmem
  · exact ⟨r, mem_rowsOf.2 ⟨hmem, hnetwork, hshard⟩, hq, hwaits⟩
  · rw [List.mem_singleton.1 hmem] at hnetwork hshard hq
    exact absurd ⟨Prod.ext hnetwork hshard, hq⟩ hne

/-- **One stored entry** keeps the order and the flag -/
theorem storeAndProject_inOrder (codec : PayloadCodec P) {blocked : Bool} (h : InOrder (Entry.key entry) n blocked)
    (input : StoreInput) :
    InOrder (Entry.key entry) (storeAndProject codec n entry blocked input).1
      (storeAndProject codec n entry blocked input).2.1 := by
  unfold storeAndProject
  split
  · exact h
  split
  · exact h
  · exact h
  · rename_i rows hinsert
    obtain ⟨-, envelope, -, rfl⟩ := insertMirroredEntry_eq_ok hinsert
    dsimp only
    split
    · rename_i hprojects
      refine ⟨h.attempts, fun hp => ?_⟩
      have hself : projectsMirroredEntries entry.shardId = true := hp
      rw [hself] at hprojects
      cases hprojects
    rename_i hprojects
    split
    · rename_i hblocked
      refine ⟨h.attempts, fun _ hflag => ?_⟩
      dsimp only at hflag
      rw [hblocked] at hflag
      cases hflag
    · rename_i hblocked
      have hself : projectsMirroredEntries (Entry.key entry).2 = true := by
        simpa [Entry.key] using hprojects
      have hidle := h.idle hself (by simpa using hblocked)
      split
      · rename_i memory e hproject
        refine ⟨attempted_inOrder h.attempts hidle none, fun _ _ q hq => ?_⟩
        exact hidle q (waitsAt_uncommitted hq rfl rfl)
      · rename_i memory db outcome hproject
        dsimp only
        refine ⟨attempted_inOrder h.attempts hidle _, fun _ hflag q hq => ?_⟩
        by_cases hkept : input.commit.kept = true
        · simp only [hkept, if_true] at hq
          rcases waitsAt_projected hproject rfl hq with ⟨hother, hstored⟩ | ⟨-, -, hblocks⟩
          · exact hidle q (waitsAt_stored hstored hother)
          · rw [hflag] at hblocks
            cases hblocks
        · simp only [hkept] at hq
          exact hidle q (waitsAt_uncommitted hq rfl rfl)

end store

/-! ## Runs -/

/-- what every entry of a page keeps, a backfill keeps -/
theorem backfillLoop_keeps {cfg : MirrorConfig P} {target : Target} {I : Backfill P → Prop}
    (hentry : ∀ peer b input, I b → I (backfillEntry cfg target peer b input).1) (peers : List String)
    (pages : List (PageInput P)) (cursor : ℕ) (excluded : List ℕ) (lastRefusal : Option MirrorWatcherError)
    {b : Backfill P} (h : I b) : I (backfillLoop cfg target peers pages cursor excluded lastRefusal b).1 := by
  have hentries : ∀ peer inputs b, I b → I (backfillEntries cfg target peer b inputs).1 := by
    intro peer inputs
    induction inputs with
    | nil => exact fun b hb => hb
    | cons input rest ih =>
      intro b hb
      have hone := hentry peer b input hb
      rw [backfillEntries]
      split
      · rename_i hresult
        rw [hresult] at hone
        exact hone
      · rename_i hresult
        rw [hresult] at hone
        exact hone
      · rename_i hresult
        rw [hresult] at hone
        exact ih _ hone
  have hpage : ∀ peer page b, I b → I (backfillPage cfg target peer b page).1 := by
    intro peer page b hb
    unfold backfillPage
    split
    · exact hb
    · exact hb
    · rename_i entries _
      have hall := hentries peer entries b hb
      split
      all_goals
        rename_i hresult
        rw [hresult] at hall
        exact hall
  induction pages generalizing cursor excluded lastRefusal b with
  | nil => exact h
  | cons input pages ih =>
    unfold backfillLoop
    split
    · exact h
    split
    · exact h
    · rename_i idx _
      have hone := hpage (peers.getD idx "") input.page b h
      split
      all_goals
        rename_i hresult
        rw [hresult] at hone
      · exact ih _ _ _ hone
      · exact ih _ _ _ hone
      · exact ih _ _ _ hone
      · exact ih _ _ _ hone
      · exact hone

/-- an accepted entry has its payload -/
theorem verifyPageEntry_payload {cfg : MirrorConfig P} {peer shardId : String} {sth : SignedTreeHead} {root : Hash}
    {progress : MirrorProgress} {prevHash : String} {input : EntryInput P} {entry : MirroredEntry P}
    (h : verifyPageEntry cfg peer shardId sth root progress prevHash input = .ok entry) : entry.payload.isSome = true := by
  unfold verifyPageEntry at h
  obtain ⟨_, -, h⟩ := bind_eq_ok.1 h
  obtain ⟨proof, -, h⟩ := bind_eq_ok.1 h
  obtain ⟨_, -, h⟩ := bind_eq_ok.1 h
  obtain ⟨_, -, h⟩ := bind_eq_ok.1 h
  obtain ⟨_, hbinding, h⟩ := bind_eq_ok.1 h
  obtain ⟨leaf, -, h⟩ := bind_eq_ok.1 h
  obtain ⟨nodes, -, h⟩ := bind_eq_ok.1 h
  obtain ⟨_, -, h⟩ := bind_eq_ok.1 h
  cases h
  have hbinding := mapError_eq_ok.1 hbinding
  unfold verifyEntryBinding at hbinding
  obtain ⟨_, -, hbinding⟩ := bind_eq_ok.1 hbinding
  obtain ⟨_, hpayload, -⟩ := bind_eq_ok.1 hbinding
  exact ensure_eq_ok.1 hpayload

/-- the tick's flag and order, with every payload there -/
def BackfillInOrder (key : Pair) (b : Backfill P) : Prop :=
  InOrder key b.node b.projectionBlocked ∧ Complete b.node.db.rows

theorem backfillEntry_inOrder (cfg : MirrorConfig P) (target : Target) (peer : String) (b : Backfill P)
    (input : EntryInput P) (h : BackfillInOrder (target.sth.networkId, target.shardId) b) :
    BackfillInOrder (target.sth.networkId, target.shardId) (backfillEntry cfg target peer b input).1 := by
  unfold backfillEntry
  split
  · exact h
  split
  · exact h
  dsimp only
  split
  · exact h
  · rename_i entry hverify
    obtain ⟨hentry, -⟩ := verifyPageEntry_eq_ok hverify
    have hkey : Entry.key entry = (target.sth.networkId, target.shardId) := by
      rw [hentry]
      rfl
    have horder : InOrder (Entry.key entry) b.node b.projectionBlocked := hkey ▸ h.1
    have hstore := storeAndProject_inOrder cfg.codec horder input.store
    rw [hkey] at hstore
    cases hresult : storeAndProject cfg.codec b.node entry b.projectionBlocked input.store with
    | mk node rest =>
      obtain ⟨blocked, result⟩ := rest
      rw [hresult] at hstore
      have hcomplete : Complete node.db.rows := by
        unfold Complete
        rcases storeAndProject_columns hresult with ⟨hsame, -⟩ | ⟨-, envelope, -, hmore⟩
        · rw [hsame]
          exact h.2
        · rw [hmore, List.forall_mem_append, List.forall_mem_singleton]
          exact ⟨h.2, verifyPageEntry_payload hverify⟩
      cases result <;> exact ⟨hstore, hcomplete⟩

theorem Tick.target_networkId {t : Tick ed P} {sth : SignedTreeHead} (h : t.target = some sth) :
    sth.networkId = t.networkId := by
  unfold Tick.target at h
  obtain ⟨o, -, hfind⟩ := Option.bind_eq_some_iff.1 h
  obtain ⟨o', ho', rfl⟩ := Option.map_eq_some_iff.1 hfind
  exact t.ofNetwork o' (List.mem_of_find?_eq_some ho')

/-- everything kept from tick to tick -/
structure RunOk (cfg : MirrorConfig P) (n : Node P) : Prop where
  chained : Chained cfg.codec n
  complete : Complete n.db.rows
  attempts : ∀ a ∈ n.attempts, a.behind = false

theorem Chained.ascending {codec : PayloadCodec P} {n : Node P} (h : Chained codec n) (key : Pair) :
    Ascending n.db.rows key ∧ ∀ r ∈ rowsOf n.db.rows key.1 key.2 none, 0 < r.seq := by
  have hok := h key.1 key.2
  rw [← columns_rowsOf] at hok
  refine ⟨?_, fun r hr => (hok.bound r.toMirrored (List.mem_map_of_mem hr)).1⟩
  have hasc := hok.ascending
  unfold columns at hasc
  rw [List.pairwise_map] at hasc
  exact hasc

/-- **One tick** that finds its waiting rows stopping attempts nothing behind one -/
theorem tick_inOrder {cfg : MirrorConfig P} {n : Node P} (h : RunOk cfg n) (t : Tick ed P) (hclock : t.pass.Clocked)
    (hstops : StopsAtWaiting n t) : RunOk cfg (step cfg n (.tick t)) := by
  suffices hrest : Complete (backfillNetwork cfg n t).1.db.rows ∧ ∀ a ∈ (backfillNetwork cfg n t).1.attempts, a.behind = false
    from ⟨step_chained h.chained _, hrest.1, hrest.2⟩
  obtain ⟨hasc, hpos⟩ := h.chained.ascending (t.networkId, t.shardId)
  obtain ⟨horder, hreport⟩ := reprojectUnapplied_inOrder h.attempts hasc hpos h.complete hclock hstops
  have hcolumns := reprojectUnapplied_columns n (t.networkId, t.shardId) t.pass
  unfold backfillNetwork
  split
  · exact ⟨h.complete, h.attempts⟩
  · exact ⟨h.complete, h.attempts⟩
  · cases hpass : reprojectUnapplied n (t.networkId, t.shardId) t.pass with
    | mk n1 result =>
      rw [hpass] at horder hreport hcolumns
      have hcomplete : Complete n1.db.rows := by
        unfold Complete
        rw [hcolumns]
        exact h.complete
      cases result with
      | error e => exact ⟨hcomplete, horder⟩
      | ok report =>
        dsimp only
        split
        · exact ⟨hcomplete, horder⟩
        · rename_i sth htarget
          have hnetwork : sth.networkId = t.networkId := Tick.target_networkId htarget
          have hflag := hreport report rfl
          rw [← hnetwork] at hflag
          unfold backfill
          split
          · exact ⟨hcomplete, horder⟩
          dsimp only
          split
          · exact ⟨hcomplete, horder⟩
          split
          · exact ⟨hcomplete, horder⟩
          · split
            · exact ⟨hcomplete, horder⟩
            · exact ⟨hcomplete, horder⟩
            · rename_i root prevHash _ _
              have hloop := backfillLoop_keeps
                (backfillEntry_inOrder cfg ⟨t.shardId, sth, root, !projectsMirroredEntries t.shardId⟩)
                (agreeing t.observations sth) t.pages (t.tick % (agreeing t.observations sth).length) [] none
                (b := ⟨n1, mirroredProgress n1.db.rows sth.networkId t.shardId none, prevHash, 0, report.blocked⟩)
                ⟨hflag, hcomplete⟩
              exact ⟨hloop.2, hloop.1.attempts⟩

theorem step_inOrder {cfg : MirrorConfig P} {n : Node P} (h : RunOk cfg n) : RunOk cfg (step cfg n (.restart : Op ed P)) :=
  ⟨step_chained h.chained _, h.complete, h.attempts⟩

theorem run_inOrder {cfg : MirrorConfig P} {n : Node P} (h : RunOk cfg n) (ops : List (Op ed P))
    (hclock : ∀ t, Op.tick t ∈ ops → t.pass.Clocked) (hstops : Along cfg StopsAtWaiting n ops) : RunOk cfg (run cfg n ops) := by
  induction ops generalizing n with
  | nil => exact h
  | cons op ops ih =>
    have hclock' : ∀ t, Op.tick t ∈ ops → t.pass.Clocked := fun t ht => hclock t (List.mem_cons_of_mem _ ht)
    cases op with
    | tick t => exact ih (tick_inOrder h t (hclock t (List.mem_cons_self)) hstops.1) hclock' hstops.2
    | restart => exact ih (step_inOrder h) hclock' hstops

/-- **Nothing is projected behind a waiting entry.** In every run of ticks over any shards, with restarts, in which the
clock does not go back during a pass and every tick finds the waiting entries of its shard so that the pass stops at them,
no projection was ever attempted of an entry while an earlier entry of its shard, whose last projection ended ordered or
transient, was neither applied nor refused nor given up. -/
theorem attempts_in_order (cfg : MirrorConfig P) (ops : List (Op ed P)) (hclock : ∀ t, Op.tick t ∈ ops → t.pass.Clocked)
    (hstops : Along cfg StopsAtWaiting .init ops) : ∀ a ∈ (run cfg .init ops).attempts, a.behind = false :=
  (run_inOrder ⟨chained_init cfg.codec, by simp [Complete, Node.init, columns], by simp [Node.init]⟩ ops hclock
    hstops).attempts

section overtaken

open Json Avalon.IdentityChain

theorem observation_network {head : SignedTreeHead} (hnetwork : head.networkId = "avalon") :
    ∀ o ∈ [("https://peer", head)], o.2.networkId = "avalon" := by
  simpa using hnetwork

theorem observation_authored {head : SignedTreeHead}
    (hauthor : verifyTreeHead forkEd25519 (forkEd25519.verifyingKey (.replicate 32 0x11)) head = true) :
    ∀ o ∈ [("https://peer", head)], ∃ pk, verifyTreeHead forkEd25519 pk o.2 = true := by
  simpa using ⟨_, hauthor⟩

/-- a tick at one instant, with one peer that serves one entry; the indexer answers every projection alike -/
def orderTick (now : Instant) (answer : ApplyResult) (head : SignedTreeHead) (entry : EntryInput (Value Decimal))
    (hnetwork : head.networkId = "avalon")
    (hauthor : verifyTreeHead forkEd25519 (forkEd25519.verifyingKey (.replicate 32 0x11)) head = true) :
    Tick forkEd25519 (Value Decimal) where
  networkId := "avalon"
  shardId := "core"
  equivocations := .ok false
  pass := ⟨now, now, fun _ => false, fun _ => ⟨now, 1790000002000000000, false, ⟨answer, now, none⟩, .committed⟩⟩
  observations := [("https://peer", head)]
  choice := 0
  tick := 0
  pages := [⟨false, .ok [{ entry with store := ⟨1790000002000000000, false, ⟨answer, now, none⟩, .committed⟩ }]⟩]
  ofNetwork := observation_network hnetwork
  authored := observation_authored hauthor

/-- the first entry waits for its parent -/
def waitingTick : Tick forkEd25519 (Value Decimal) :=
  orderTick 0 (.deferred true "parent identity unknown") oneEntryHead
    (forkEntry 1 genesisHash hashA oneEntryHead.rootHash []) oneEntryHead_network oneEntryHead_verified

/-- the second entry comes so many seconds later -/
def laterTick (delay : ℕ) : Tick forkEd25519 (Value Decimal) :=
  orderTick (seconds delay) .ok twoEntryHead
    (forkEntry 2 hashA hashB twoEntryHead.rootHash ["32731d03bfd469c280b603eb89dad790690ebc84ad88a17e90585dbb05e7617f"])
    twoEntryHead_network twoEntryHead_verified

theorem orderTick_clocked {now : Instant} {answer : ApplyResult} {head : SignedTreeHead} {entry : EntryInput (Value Decimal)}
    (hnetwork : head.networkId = "avalon")
    (hauthor : verifyTreeHead forkEd25519 (forkEd25519.verifyingKey (.replicate 32 0x11)) head = true) :
    (orderTick now answer head entry hnetwork hauthor).pass.Clocked := fun _ _ _ => le_rfl

theorem ticks_clocked (delay : ℕ) :
    ∀ t, Op.tick t ∈ ([.tick waitingTick, .tick (laterTick delay)] : List (Op forkEd25519 (Value Decimal))) →
      t.pass.Clocked := by
  intro t ht
  rcases List.mem_cons.1 ht with h | h
  · cases h
    exact orderTick_clocked _ _
  · cases List.mem_singleton.1 h
    exact orderTick_clocked _ _

/-- thirty seconds later the retry is due: the first entry is applied before the second -/
theorem attempts_in_order_after_retry :
    (run jsonMirror .init [.tick waitingTick, .tick (laterTick 30)]).attempts.map (fun a => (a.seq, a.outcome)) =
        [(1, some (.ordered "parent identity unknown")), (1, some .applied), (2, some .applied)] ∧
      ∀ a ∈ (run jsonMirror .init [.tick waitingTick, .tick (laterTick 30)]).attempts, a.behind = false := by
  have hevaluated : (run jsonMirror .init [.tick waitingTick, .tick (laterTick 30)]).attempts.map (fun a => (a.seq, a.outcome)) =
        [(1, some (.ordered "parent identity unknown")), (1, some .applied), (2, some .applied)] ∧
      ∀ row ∈ rowsOf (step jsonMirror .init (.tick waitingTick)).db.rows "avalon" "core" none,
        let n := step jsonMirror .init (.tick waitingTick)
        let input := (laterTick 30).pass
        n.memory.scheduler.scanDue ("avalon", "core") input.dueAt = true ∧ row.eventId ∉ n.memory.parked ∧
          n.memory.scheduler.holding ("avalon", "core") row.eventId (input.visit row.seq).heldAt ≠ some false ∧
          (((n.pending ("avalon", "core")).filter fun r => decide (r.seq ≤ row.seq)).map fun r => r.eventId).Nodup ∧
          ((n.pending ("avalon", "core")).filter fun r =>
            decide (r.seq < row.seq) && n.takesSlot ("avalon", "core") input r).length < maxDeferredPerShard := by
    decide +kernel
  obtain ⟨hattempts, hall⟩ := hevaluated
  refine ⟨hattempts, attempts_in_order jsonMirror _ (ticks_clocked 30) ⟨?_, ?_, trivial⟩⟩
  · intro row hrow
    cases hrow
  · intro row hrow _
    obtain ⟨hdue, hparked, hheld, hdistinct, hslots⟩ := hall row hrow
    exact ⟨hdue, hparked, hheld, hdistinct, hslots⟩

/-- one second later the shard counts as clean and the retry is not due: the second entry is applied while the first
waits -/
theorem ordered_entry_overtaken :
    ¬ ∀ ops : List (Op forkEd25519 (Value Decimal)), (∀ t, Op.tick t ∈ ops → t.pass.Clocked) →
      ∀ a ∈ (run jsonMirror .init ops).attempts, a.outcome = some .applied → a.behind = false := by
  intro h
  have hall := h [.tick waitingTick, .tick (laterTick 1)] (ticks_clocked 1)
  have hlast : (run jsonMirror .init [.tick waitingTick, .tick (laterTick 1)]).attempts.map
      (fun a => (a.seq, a.outcome, a.behind)) =
        [(1, some (.ordered "parent identity unknown"), false), (2, some .applied, true)] := by
    decide +kernel
  have hsecond : (2, some .applied, true) ∈ (run jsonMirror .init [.tick waitingTick, .tick (laterTick 1)]).attempts.map
      (fun a => (a.seq, a.outcome, a.behind)) := by
    rw [hlast]
    exact List.mem_cons_of_mem _ (List.mem_singleton_self _)
  obtain ⟨a, ha, hfields⟩ := List.mem_map.1 hsecond
  obtain ⟨-, hrest⟩ := Prod.mk.inj hfields
  obtain ⟨houtcome, hbehind⟩ := Prod.mk.inj hrest
  rw [hall a ha houtcome] at hbehind
  cases hbehind

end overtaken

end Avalon.MirrorWatcher
