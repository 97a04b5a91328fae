/-
Concurrent writes of guardian settings (`crates/server/src/recovery.rs`: `set_guardians`, `fetch_guardian_settings`,
`resign_guardian`), statement by statement on PostgreSQL at READ COMMITTED.

A `set_guardians` call reads the stored set and then the stored threshold, outside of any transaction, and decides from these
whether it needs a signature. Its transaction then deletes the guardian rows, inserts the new ones and upserts the settings
row. A statement works on the rows committed when it starts; it waits for a row that another open transaction has changed,
and skips it if that transaction removes it. Nothing of the settings is locked before these statements, so what is replaced
need not be what was read, and of two calls each can miss the rows that the other one inserts.

Results:
- `inv_step`: what the open transaction has done so far, while it is the only one.
- `guardian_writes_serial`: in every run in which the transactions do not overlap, and an unsigned call opens its transaction
  only if no guardian was added and the threshold not lowered since it read them, no unsigned write removes a guardian or
  raises the threshold, and the stored settings are those of the writes in commit order, each as a whole.
- `stale_write_removes_guardian`: an unsigned write over a guardian added in between.
- `overlapping_writes_mix`: two first configurations at once store the guardians of both.
-/
import Mathlib.Tactic
import Avalon.Core.Bytes
import Avalon.Core.Fallible
import Avalon.Protocol.IdentityId
import Avalon.Server.SignatureGate
import Avalon.Server.Guardians

namespace Avalon.GuardianRaces

open Avalon.Identity Avalon.SignatureGate Avalon.Guardians

/-! ## Tables -/

/-- a version of a row of `recovery_guardians`: a row inserted again is another one -/
structure Row where
  rid : ℕ
  guardian : IdentityId
deriving DecidableEq

/-- a committed write -/
inductive Write where
  | set (guardians : List IdentityId) (threshold : ℤ) (signed : Bool)
  | resign (guardian : IdentityId)
deriving DecidableEq

/-- the effect of a write as a whole -/
def Write.apply (s : Settings) : Write → Settings
  | .set guardians threshold _ => ⟨guardians, some threshold⟩
  | .resign guardian =>
    match resignGuardian s guardian with
    | .ok s' => s'
    | .error _ => s

/-- history: a write with the committed settings before and after it -/
structure Commit where
  write : Write
  before : Settings
  after : Settings
deriving DecidableEq

/-- what is committed, of one identity -/
structure Tables where
  rows : List Row
  threshold : Option ℤ
  nextRid : ℕ
  log : List Commit

def Tables.settings (t : Tables) : Settings := ⟨t.rows.map Row.guardian, t.threshold⟩

/-! ## Calls -/

/-- a `set_guardians` call after its own checks -/
structure SetCall where
  env : Surroundings
  request : SetGuardiansRequest
  guardians : List IdentityId

/-- what a `set_guardians` call will write, and what it read before -/
structure Decision where
  guardians : List IdentityId
  threshold : ℤ
  forked : Bool
  previous : Settings
  signed : Bool

/-- how far a call has come; from `setDeleting` and `resignDeleting` on its transaction is open -/
inductive Phase where
  | setStart (call : SetCall)
  | setReadGuardians (call : SetCall) (read : List IdentityId)
  | setDecided (d : Decision)
  | setDeleting (d : Decision) (todo deleted : List ℕ)
  | setInserting (d : Decision) (deleted : List ℕ) (todo : List IdentityId) (inserted : List Row)
  | setReady (d : Decision) (deleted : List ℕ) (inserted : List Row)
  | resignStart (caller : IdentityId)
  | resignDeleting (caller : IdentityId) (rid : ℕ)
  | resignDeleted (caller : IdentityId) (rid : ℕ)
  | resignCounted (caller : IdentityId) (rid remaining : ℕ)
  | resignUpdating (caller : IdentityId) (rid remaining : ℕ)
  | resignReady (caller : IdentityId) (rid : ℕ) (threshold : Option ℤ)
  | ended (result : Except AppError Unit)

namespace Phase

/-- rows this transaction has deleted, so locked -/
def deleted : Phase → List ℕ
  | setDeleting _ _ deleted => deleted
  | setInserting _ deleted _ _ => deleted
  | setReady _ deleted _ => deleted
  | resignDeleted _ rid => [rid]
  | resignCounted _ rid _ => [rid]
  | resignUpdating _ rid _ => [rid]
  | resignReady _ rid _ => [rid]
  | _ => []

def inserted : Phase → List Row
  | setInserting _ _ _ inserted => inserted
  | setReady _ _ inserted => inserted
  | _ => []

/-- whether it has written, so locked, the settings row -/
def locksSettings : Phase → Bool
  | setReady .. => true
  | resignReady _ _ threshold => threshold.isSome
  | _ => false

def isOpen : Phase → Bool
  | setDeleting .. => true
  | setInserting .. => true
  | setReady .. => true
  | resignDeleting .. => true
  | resignDeleted .. => true
  | resignCounted .. => true
  | resignUpdating .. => true
  | resignReady .. => true
  | _ => false

/-- whether the next statement opens the transaction -/
def opens : Phase → Bool
  | setDecided _ => true
  | resignStart _ => true
  | _ => false

/-- what a `set_guardians` call has decided when it opens its transaction -/
def decision? : Phase → Option Decision
  | setDecided d => some d
  | _ => none

end Phase

/-! ## Statements -/

section

variable (v : Verifier) (owner : IdentityId)

/-- the next statement of a call, with what the other calls hold; nothing if it has to wait -/
def statement (t : Tables) (others : List Phase) : Phase → Option (Tables × Phase)
  | .setStart call => some (t, .setReadGuardians call (t.rows.map Row.guardian))
  | .setReadGuardians call read =>
    let previous : Settings := ⟨read, t.threshold⟩
    match authorizeGuardians v call.env.keys owner previous call.guardians call.request with
    | .error e => some (t, .ended (.error e))
    | .ok signed => some (t, .setDecided ⟨call.guardians, call.request.threshold, call.env.forked, previous, signed⟩)
  -- `ensure_not_forked`; then the DELETE starts on the rows committed now
  | .setDecided d =>
    if d.forked then some (t, .ended (.error .identityChainForked)) else some (t, .setDeleting d (t.rows.map Row.rid) [])
  | .setDeleting d [] deleted => some (t, .setInserting d deleted d.guardians [])
  | .setDeleting d (rid :: todo) deleted =>
    if others.any fun p => decide (rid ∈ p.deleted) then none
    else if rid ∈ t.rows.map Row.rid then some (t, .setDeleting d todo (rid :: deleted))
    else some (t, .setDeleting d todo deleted)
  | .setInserting d deleted (g :: todo) inserted =>
    if others.any fun p => decide (g ∈ p.inserted.map Row.guardian) then none
    else
      match t.rows.find? fun row => decide (row.guardian = g ∧ row.rid ∉ deleted) with
      | some row =>
        if others.any fun p => decide (row.rid ∈ p.deleted) then none else some (t, .ended (.error .database))
      | none => some ({ t with nextRid := t.nextRid + 1 }, .setInserting d deleted todo (inserted ++ [⟨t.nextRid, g⟩]))
  -- the upsert of the settings row
  | .setInserting d deleted [] inserted =>
    if others.any Phase.locksSettings then none
    else
      match checkThreshold d.threshold with
      | .error e => some (t, .ended (.error e))
      | .ok () => some (t, .setReady d deleted inserted)
  | .setReady d deleted inserted =>
    let t' : Tables :=
      { t with rows := (t.rows.filter fun row => decide (row.rid ∉ deleted)) ++ inserted, threshold := some d.threshold }
    some ({ t' with log := t.log ++ [⟨.set d.guardians d.threshold d.signed, t.settings, t'.settings⟩] }, .ended (.ok ()))
  | .resignStart caller =>
    match t.rows.find? fun row => decide (row.guardian = caller) with
    | none => some (t, .ended (.error .notAGuardian))
    | some row => some (t, .resignDeleting caller row.rid)
  | .resignDeleting caller rid =>
    if others.any fun p => decide (rid ∈ p.deleted) then none
    else if rid ∈ t.rows.map Row.rid then some (t, .resignDeleted caller rid)
    else some (t, .ended (.error .notAGuardian))
  | .resignDeleted caller rid =>
    some (t, .resignCounted caller rid (t.rows.filter fun row => decide (row.rid ≠ rid)).length)
  -- the UPDATE starts: does the committed settings row match its condition?
  | .resignCounted caller rid remaining =>
    if t.threshold.any fun threshold => decide ((remaining : ℤ) < threshold) then
      some (t, .resignUpdating caller rid remaining)
    else some (t, .resignReady caller rid none)
  -- the condition is evaluated again on the row as it is once it is free
  | .resignUpdating caller rid remaining =>
    if others.any Phase.locksSettings then none
    else
      match clampThreshold t.threshold remaining with
      | .error e => some (t, .ended (.error e))
      | .ok threshold =>
        some (t, .resignReady caller rid (if threshold = t.threshold then none else threshold))
  | .resignReady caller rid threshold =>
    let t' : Tables :=
      { t with
        rows := t.rows.filter fun row => decide (row.rid ≠ rid)
        threshold := if threshold.isSome then threshold else t.threshold }
    some ({ t' with log := t.log ++ [⟨.resign caller, t.settings, t'.settings⟩] }, .ended (.ok ()))
  | .ended _ => none

/-! ## Runs -/

structure State where
  tables : Tables
  calls : List Phase

inductive Op where
  | set (env : Surroundings) (request : SetGuardiansRequest)
  | resign (caller : IdentityId)
  /-- call `i` runs its next statement, if it need not wait -/
  | advance (i : ℕ)
  /-- the transaction of call `i` is rolled back: a lost connection, a deadlock, a shutdown -/
  | abort (i : ℕ)

def step (s : State) : Op → State
  | .set env request =>
    match checkGuardians owner env.friends request with
    | .error e => { s with calls := s.calls ++ [.ended (.error e)] }
    | .ok guardians => { s with calls := s.calls ++ [.setStart ⟨env, request, guardians⟩] }
  | .resign caller => { s with calls := s.calls ++ [.resignStart caller] }
  | .advance i =>
    match s.calls[i]? with
    | none => s
    | some phase =>
      match statement v owner s.tables (s.calls.eraseIdx i) phase with
      | none => s
      | some (tables, phase') => ⟨tables, s.calls.set i phase'⟩
  | .abort i =>
    match s.calls[i]? with
    | none => s
    | some (.ended _) => s
    | some _ => { s with calls := s.calls.set i (.ended (.error .database)) }

def State.init : State := ⟨⟨[], none, 0, []⟩, []⟩

def run (s : State) (ops : List Op) : State := ops.foldl (step v owner) s

end

/-! ## What should hold -/

/-- an unsigned write that removes no guardian and does not raise the threshold -/
def Commit.KeepsRecovery (c : Commit) : Prop :=
  ∀ guardians threshold, c.write = .set guardians threshold false →
    (∀ g ∈ c.before.guardians, g ∈ c.after.guardians) ∧ c.after.thresholdOrZero ≤ c.before.thresholdOrZero

/-- the writes in commit order, each as a whole -/
def replay (log : List Commit) : Settings := log.foldl (fun s c => c.write.apply s) unconfigured

/-- no unsigned write weakens recovery, and the stored set and threshold come from the same writes -/
def Safe (t : Tables) : Prop := (∀ c ∈ t.log, c.KeepsRecovery) ∧ t.settings = replay t.log

/-! ## The condition -/

/-- no guardian was added, and the threshold not lowered, since an unsigned call read them -/
def Decision.Current (d : Decision) (now : Settings) : Prop :=
  d.signed = false →
    (∀ g ∈ now.guardians, g ∈ d.previous.guardians) ∧ d.previous.thresholdOrZero ≤ now.thresholdOrZero

instance (d : Decision) (now : Settings) : Decidable (d.Current now) :=
  inferInstanceAs (Decidable (d.signed = false →
    (∀ g ∈ now.guardians, g ∈ d.previous.guardians) ∧ d.previous.thresholdOrZero ≤ now.thresholdOrZero))

/-- a transaction opens while no other one is open, and an unsigned call while what it read is current -/
def StepMeets (s : State) : Op → Prop
  | .advance i => ∀ p ∈ s.calls[i]?, (p.opens = true → ∀ q ∈ s.calls, q.isOpen = false) ∧
      ∀ d ∈ p.decision?, d.Current s.tables.settings
  | _ => True

instance (s : State) : (op : Op) → Decidable (StepMeets s op)
  | .set .. => inferInstanceAs (Decidable True)
  | .resign _ => inferInstanceAs (Decidable True)
  | .abort _ => inferInstanceAs (Decidable True)
  | .advance i => inferInstanceAs (Decidable (∀ p ∈ s.calls[i]?, (p.opens = true → ∀ q ∈ s.calls, q.isOpen = false) ∧
      ∀ d ∈ p.decision?, d.Current s.tables.settings))

/-- every step of a run meets the condition in the state it finds -/
def Along (v : Verifier) (owner : IdentityId) : State → List Op → Prop
  | _, [] => True
  | s, op :: ops => StepMeets s op ∧ Along v owner (step v owner s op) ops

instance (v : Verifier) (owner : IdentityId) : (s : State) → (ops : List Op) → Decidable (Along v owner s ops)
  | _, [] => inferInstanceAs (Decidable True)
  | s, op :: ops =>
    have := instDecidableAlong v owner (step v owner s op) ops
    inferInstanceAs (Decidable (StepMeets s op ∧ Along v owner (step v owner s op) ops))

/-! ## The invariant -/

/-- row versions are told apart by their id, also from those a transaction has inserted -/
structure Tables.RowsOk (t : Tables) (inserted : List Row) : Prop where
  distinct : ((t.rows ++ inserted).map Row.rid).Nodup
  below : ∀ row ∈ t.rows ++ inserted, row.rid < t.nextRid

/-- the guardians are each named once, and an unsigned call only adds to what it read -/
structure Decision.Wf (d : Decision) : Prop where
  nodup : d.guardians.Nodup
  unsigned : d.signed = false →
    (∀ g ∈ d.previous.guardians, g ∈ d.guardians) ∧ d.threshold ≤ d.previous.thresholdOrZero

/-- an unsigned call only adds to the settings it replaces -/
def Decision.Adds (d : Decision) (now : Settings) : Prop :=
  d.signed = false → (∀ g ∈ now.guardians, g ∈ d.guardians) ∧ d.threshold ≤ now.thresholdOrZero

/-- what is known of a call; of one with an open transaction as long as no other one commits -/
def Phase.Good (t : Tables) : Phase → Prop
  | setStart call => call.guardians.Nodup
  | setReadGuardians call _ => call.guardians.Nodup
  | setDecided d => d.Wf
  | setDeleting d todo deleted =>
    d.guardians.Nodup ∧ d.Adds t.settings ∧ ∀ row ∈ t.rows, row.rid ∈ deleted ∨ row.rid ∈ todo
  | setInserting d deleted todo inserted =>
    d.guardians.Nodup ∧ d.Adds t.settings ∧ (∀ row ∈ t.rows, row.rid ∈ deleted) ∧
      inserted.map Row.guardian ++ todo = d.guardians ∧ t.RowsOk inserted
  | setReady d deleted inserted =>
    d.guardians.Nodup ∧ d.Adds t.settings ∧ (∀ row ∈ t.rows, row.rid ∈ deleted) ∧
      inserted.map Row.guardian = d.guardians ∧ t.RowsOk inserted
  | resignStart _ => True
  | resignDeleting caller rid => ⟨rid, caller⟩ ∈ t.rows
  | resignDeleted caller rid => ⟨rid, caller⟩ ∈ t.rows
  | resignCounted caller rid remaining =>
    ⟨rid, caller⟩ ∈ t.rows ∧ remaining = (t.rows.filter fun row => decide (row.rid ≠ rid)).length
  | resignUpdating caller rid remaining =>
    ⟨rid, caller⟩ ∈ t.rows ∧ remaining = (t.rows.filter fun row => decide (row.rid ≠ rid)).length
  | resignReady caller rid threshold =>
    ⟨rid, caller⟩ ∈ t.rows ∧ clampThreshold t.threshold (t.rows.filter fun row => decide (row.rid ≠ rid)).length =
      .ok (if threshold.isSome then threshold else t.threshold)
  | ended _ => True

/-- a call without an open transaction rests on nothing in the tables -/
theorem Phase.Good.of_closed {p : Phase} {t t' : Tables} (h : p.Good t) (hclosed : p.isOpen = false) : p.Good t' := by
  cases p <;> first | exact h | cases hclosed

/-- the committed tables, between statements -/
structure Tables.Ok (t : Tables) : Prop where
  rows : t.RowsOk []
  guardians : (t.rows.map Row.guardian).Nodup
  safe : Safe t

theorem replay_concat (log : List Commit) (c : Commit) : replay (log ++ [c]) = c.write.apply (replay log) := by
  simp [replay]

/-- the commit of a replacement -/
theorem Tables.Ok.commit_set {t : Tables} {d : Decision} {deleted : List ℕ} {inserted : List Row} (h : t.Ok)
    (hgood : (Phase.setReady d deleted inserted).Good t) {t' : Tables} {p' : Phase} {v : Verifier} {owner : IdentityId}
    {others : List Phase} (hs : statement v owner t others (.setReady d deleted inserted) = some (t', p')) : t'.Ok := by
  obtain ⟨hnodup, hadds, hdeleted, hinserted, hrows⟩ := hgood
  have hnone : (t.rows.filter fun row => decide (row.rid ∉ deleted)) = [] := by
    rw [List.filter_eq_nil_iff]
    exact fun row hrow hnot => of_decide_eq_true hnot (hdeleted row hrow)
  rw [statement, hnone] at hs
  cases hs
  refine ⟨⟨?_, ?_⟩, ?_, ?_, ?_⟩
  · have hdistinct := hrows.distinct
    rw [List.map_append, List.nodup_append] at hdistinct
    simpa using hdistinct.2.1
  · intro row hrow
    exact hrows.below row (List.mem_append_right _ (by simpa using hrow))
  · simpa [hinserted] using hnodup
  · intro c hc
    rcases List.mem_append.1 hc with hc | hc
    · exact h.safe.1 c hc
    · intro guardians threshold hwrite
      obtain rfl := List.mem_singleton.1 hc
      obtain ⟨hkeeps, hle⟩ := hadds (Write.set.inj hwrite).2.2
      refine ⟨fun g hg => ?_, hle⟩
      dsimp only [Tables.settings]
      rw [List.nil_append, hinserted]
      exact hkeeps g hg
  · rw [replay_concat]
    simp [Tables.settings, Write.apply, hinserted]

/-- among rows that each name another guardian, one is found by its id or by its guardian -/
theorem filter_rid {t : Tables} (h : t.Ok) {caller : IdentityId} {rid : ℕ} (hrow : ⟨rid, caller⟩ ∈ t.rows) :
    (t.rows.filter fun row => decide (row.rid ≠ rid)).map Row.guardian =
      (t.rows.map Row.guardian).filter fun g => decide (g ≠ caller) := by
  have hdistinct : (t.rows.map Row.rid).Nodup := by simpa using h.rows.distinct
  rw [List.filter_map]
  congr 1
  apply List.filter_congr
  intro row hmem
  have hiff : row.rid = rid ↔ row.guardian = caller := by
    constructor
    · intro heq
      rw [List.inj_on_of_nodup_map hdistinct hmem hrow heq]
    · intro heq
      rw [List.inj_on_of_nodup_map h.guardians hmem hrow heq]
  simp [hiff]

/-- the commit of a resignation -/
theorem Tables.Ok.commit_resign {t : Tables} {caller : IdentityId} {rid : ℕ} {threshold : Option ℤ} (h : t.Ok)
    (hgood : (Phase.resignReady caller rid threshold).Good t) {t' : Tables} {p' : Phase} {v : Verifier}
    {owner : IdentityId} {others : List Phase}
    (hs : statement v owner t others (.resignReady caller rid threshold) = some (t', p')) : t'.Ok := by
  obtain ⟨hrow, hclamp⟩ := hgood
  have hmap := filter_rid h hrow
  have hcaller : caller ∈ t.settings.guardians := List.mem_map.2 ⟨_, hrow, rfl⟩
  have hresign : resignGuardian t.settings caller = .ok ⟨(t.rows.map Row.guardian).filter fun g => decide (g ≠ caller),
      if threshold.isSome then threshold else t.threshold⟩ := by
    rw [resignGuardian, if_neg (not_not.2 hcaller)]
    dsimp only [Tables.settings]
    rw [← hmap, List.length_map, hclamp]
  rw [statement] at hs
  cases hs
  refine ⟨⟨?_, ?_⟩, ?_, ?_, ?_⟩
  · have hdistinct := h.rows.distinct
    simp only [List.append_nil] at hdistinct ⊢
    exact hdistinct.sublist (List.Sublist.map _ List.filter_sublist)
  · intro row hmem
    simp only [List.append_nil] at hmem
    exact h.rows.below row (List.mem_append_left _ (List.mem_of_mem_filter hmem))
  · exact h.guardians.sublist (List.Sublist.map _ List.filter_sublist)
  · intro c hc
    rcases List.mem_append.1 hc with hc | hc
    · exact h.safe.1 c hc
    · intro guardians threshold' hwrite
      obtain rfl := List.mem_singleton.1 hc
      cases hwrite
  · rw [replay_concat, ← h.safe.2]
    simp only [Write.apply, hresign]
    simp only [Tables.settings, hmap]

/-! ## One statement -/

/-- without a signature, nothing that was read is weakened -/
theorem authorizeGuardians_unsigned {v : Verifier} {keys : List SigningKeyRow} {owner : IdentityId} {previous : Settings}
    {guardians : List IdentityId} {request : SetGuardiansRequest}
    (h : authorizeGuardians v keys owner previous guardians request = .ok false) :
    (∀ g ∈ previous.guardians, g ∈ guardians) ∧ request.threshold ≤ previous.thresholdOrZero := by
  unfold authorizeGuardians at h
  split at h
  · split at h <;> cases h
  · rename_i hneeds
    simp only [needsSignature, Bool.or_eq_true, Bool.not_eq_true', List.all_eq_false, decide_eq_true_eq, not_or,
      not_exists, not_and, not_not, not_lt] at hneeds
    exact hneeds

/-- what a statement does to the tables and to its call, while no other transaction commits -/
structure Advances (t : Tables) (p : Phase) (t' : Tables) (p' : Phase) : Prop where
  ok : t'.Ok
  good : p'.Good t'
  closed : p.isOpen = false → t' = t
  opened : p'.isOpen = true → p.isOpen = true ∨ p.opens = true

section Statement

variable {v : Verifier} {owner : IdentityId} {t t' : Tables} {others : List Phase} {p' : Phase} (h : t.Ok)
include h

theorem advances_deleting {d : Decision} {todo deleted : List ℕ} (hgood : (Phase.setDeleting d todo deleted).Good t)
    (hs : statement v owner t others (.setDeleting d todo deleted) = some (t', p')) :
    Advances t (.setDeleting d todo deleted) t' p' := by
  obtain ⟨hnodup, hadds, hrows⟩ := hgood
  cases todo with
  | nil =>
    cases hs
    exact ⟨h, ⟨hnodup, hadds, fun row hrow => by simpa using hrows row hrow, rfl, h.rows⟩, fun _ => rfl, fun _ => .inl rfl⟩
  | cons rid todo =>
    rw [statement] at hs
    split at hs
    · cases hs
    · split at hs
      · cases hs
        refine ⟨h, ⟨hnodup, hadds, fun row hrow => ?_⟩, fun _ => rfl, fun _ => .inl rfl⟩
        rcases hrows row hrow with hdel | htodo
        · exact .inl (List.mem_cons_of_mem _ hdel)
        · rcases List.mem_cons.1 htodo with heq | htodo
          · exact .inl (heq ▸ List.mem_cons_self)
          · exact .inr htodo
      · rename_i hgone
        cases hs
        refine ⟨h, ⟨hnodup, hadds, fun row hrow => ?_⟩, fun _ => rfl, fun _ => .inl rfl⟩
        rcases hrows row hrow with hdel | htodo
        · exact .inl hdel
        · rcases List.mem_cons.1 htodo with heq | htodo
          · exact absurd (List.mem_map.2 ⟨row, hrow, heq⟩) hgone
          · exact .inr htodo

theorem advances_inserting {d : Decision} {deleted : List ℕ} {todo : List IdentityId} {inserted : List Row}
    (hgood : (Phase.setInserting d deleted todo inserted).Good t)
    (hs : statement v owner t others (.setInserting d deleted todo inserted) = some (t', p')) :
    Advances t (.setInserting d deleted todo inserted) t' p' := by
  obtain ⟨hnodup, hadds, hdeleted, hinserted, hrows⟩ := hgood
  cases todo with
  | nil =>
    rw [statement] at hs
    split at hs
    · cases hs
    · split at hs
      · cases hs
        exact ⟨h, trivial, fun _ => rfl, fun hopen => by cases hopen⟩
      · cases hs
        exact ⟨h, ⟨hnodup, hadds, hdeleted, by simpa using hinserted, hrows⟩, fun _ => rfl, fun _ => .inl rfl⟩
  | cons g todo =>
    rw [statement] at hs
    split at hs
    · cases hs
    · split at hs
      · split at hs
        · cases hs
        · cases hs
          exact ⟨h, trivial, fun _ => rfl, fun hopen => by cases hopen⟩
      · cases hs
        -- the new row has the next id
        refine ⟨⟨⟨h.rows.distinct, fun row hrow => (h.rows.below row hrow).trans (Nat.lt_succ_self _)⟩, h.guardians, h.safe⟩,
          ⟨hnodup, hadds, hdeleted, ?_, ⟨?_, ?_⟩⟩, fun hclosed => (by cases hclosed), fun _ => .inl rfl⟩
        · simpa using hinserted
        · rw [← List.append_assoc, List.map_append, List.nodup_append]
          refine ⟨hrows.distinct, by simp, fun rid hrid rid' hrid' => ?_⟩
          obtain ⟨row, hrow, rfl⟩ := List.mem_map.1 hrid
          obtain rfl : rid' = t.nextRid := by simpa using hrid'
          exact (hrows.below row hrow).ne
        · intro row hrow
          rw [← List.append_assoc, List.mem_append] at hrow
          rcases hrow with hrow | hrow
          · exact (hrows.below row hrow).trans (Nat.lt_succ_self _)
          · rw [List.mem_singleton.1 hrow]
            exact Nat.lt_succ_self _

/-- the statements of a resignation before its commit change nothing that is committed -/
theorem advances_resign {p : Phase} {caller : IdentityId} {rid : ℕ} (remaining : ℕ)
    (hp : p = .resignDeleting caller rid ∨ p = .resignDeleted caller rid ∨ p = .resignCounted caller rid remaining ∨
      p = .resignUpdating caller rid remaining) (hgood : p.Good t)
    (hs : statement v owner t others p = some (t', p')) : Advances t p t' p' := by
  rcases hp with rfl | rfl | rfl | rfl
  · rw [statement] at hs
    split at hs
    · cases hs
    · split at hs
      · cases hs
        exact ⟨h, hgood, fun _ => rfl, fun _ => .inl rfl⟩
      · cases hs
        exact ⟨h, trivial, fun _ => rfl, fun hopen => by cases hopen⟩
  · cases hs
    exact ⟨h, ⟨hgood, rfl⟩, fun _ => rfl, fun _ => .inl rfl⟩
  · rw [statement] at hs
    split at hs
    · cases hs
      exact ⟨h, hgood, fun _ => rfl, fun _ => .inl rfl⟩
    · rename_i hmatch
      cases hs
      refine ⟨h, ⟨hgood.1, ?_⟩, fun _ => rfl, fun _ => .inl rfl⟩
      rw [← hgood.2]
      unfold clampThreshold
      cases hthreshold : t.threshold with
      | none => rfl
      | some threshold =>
        rw [hthreshold] at hmatch
        dsimp only
        rw [if_neg (by simpa using hmatch)]
        rfl
  · rw [statement] at hs
    split at hs
    · cases hs
    · split at hs
      · cases hs
        exact ⟨h, trivial, fun _ => rfl, fun hopen => by cases hopen⟩
      · rename_i threshold hclamp
        cases hs
        refine ⟨h, ⟨hgood.1, ?_⟩, fun _ => rfl, fun _ => .inl rfl⟩
        rw [← hgood.2, hclamp]
        by_cases heq : threshold = t.threshold
        · simp [heq]
        · rw [if_neg heq]
          -- a clamp that changes something leaves a settings row
          cases threshold with
          | some threshold => rfl
          | none =>
            unfold clampThreshold at hclamp
            split at hclamp
            · rename_i hnone
              exact absurd hnone.symm heq
            · split at hclamp
              · split at hclamp <;> cases hclamp
              · cases hclamp

/-- **One statement** keeps the tables in order, if a call that opens its transaction finds what it read current -/
theorem statement_advances {p : Phase} (hgood : p.Good t)
    (hcurrent : ∀ d, p = .setDecided d → d.Current t.settings)
    (hs : statement v owner t others p = some (t', p')) : Advances t p t' p' := by
  cases p with
  | setStart call =>
    cases hs
    exact ⟨h, hgood, fun _ => rfl, fun hopen => by cases hopen⟩
  | setReadGuardians call read =>
    rw [statement] at hs
    split at hs
    · cases hs
      exact ⟨h, trivial, fun _ => rfl, fun hopen => by cases hopen⟩
    · rename_i signed hauth
      cases hs
      refine ⟨h, ⟨hgood, fun hsigned => ?_⟩, fun _ => rfl, fun hopen => by cases hopen⟩
      obtain rfl : signed = false := hsigned
      exact authorizeGuardians_unsigned hauth
  | setDecided d =>
    rw [statement] at hs
    split at hs
    · cases hs
      exact ⟨h, trivial, fun _ => rfl, fun hopen => by cases hopen⟩
    · cases hs
      refine ⟨h, ⟨hgood.nodup, fun hsigned => ?_, fun row hrow => .inr (List.mem_map.2 ⟨row, hrow, rfl⟩)⟩, fun _ => rfl,
        fun _ => .inr rfl⟩
      obtain ⟨hread, hthreshold⟩ := hcurrent d rfl hsigned
      obtain ⟨hadds, hle⟩ := hgood.unsigned hsigned
      exact ⟨fun g hg => hadds g (hread g hg), hle.trans hthreshold⟩
  | setDeleting d todo deleted => exact advances_deleting h hgood hs
  | setInserting d deleted todo inserted => exact advances_inserting h hgood hs
  | setReady d deleted inserted =>
    refine ⟨h.commit_set hgood hs, ?_, fun hclosed => (by cases hclosed), ?_⟩
    all_goals
      cases hs
      first | exact trivial | exact fun hopen => by cases hopen
  | resignStart caller =>
    rw [statement] at hs
    split at hs
    · cases hs
      exact ⟨h, trivial, fun _ => rfl, fun hopen => by cases hopen⟩
    · rename_i row hfind
      cases hs
      refine ⟨h, ?_, fun _ => rfl, fun _ => .inr rfl⟩
      have hrow : row.guardian = caller := of_decide_eq_true (List.find?_some hfind :)
      exact hrow ▸ List.mem_of_find?_eq_some hfind
  | resignDeleting caller rid => exact advances_resign h 0 (.inl rfl) hgood hs
  | resignDeleted caller rid => exact advances_resign h 0 (.inr (.inl rfl)) hgood hs
  | resignCounted caller rid remaining => exact advances_resign h remaining (.inr (.inr (.inl rfl))) hgood hs
  | resignUpdating caller rid remaining => exact advances_resign h remaining (.inr (.inr (.inr rfl))) hgood hs
  | resignReady caller rid threshold =>
    refine ⟨h.commit_resign hgood hs, ?_, fun hclosed => (by cases hclosed), ?_⟩
    all_goals
      cases hs
      first | exact trivial | exact fun hopen => by cases hopen
  | ended result => cases hs

end Statement

/-! ## Runs in which transactions do not overlap -/

structure Inv (s : State) : Prop where
  tables : s.tables.Ok
  good : ∀ p ∈ s.calls, p.Good s.tables
  single : ∀ (i j : ℕ) (p q : Phase), s.calls[i]? = some p → s.calls[j]? = some q → p.isOpen = true → q.isOpen = true → i = j

theorem inv_init : Inv .init :=
  ⟨⟨⟨by simp [State.init], by simp [State.init]⟩, by simp [State.init], by simp [State.init, Safe, Tables.settings, replay,
    unconfigured]⟩, by simp [State.init], by simp [State.init]⟩

/-- a new call has no open transaction -/
theorem Inv.concat {s : State} (h : Inv s) {p : Phase} (hgood : p.Good s.tables) (hclosed : p.isOpen = false) :
    Inv { s with calls := s.calls ++ [p] } := by
  refine ⟨h.tables, fun q hq => ?_, fun i j p' q' hi hj hp hq => ?_⟩
  · rcases List.mem_append.1 hq with hq | hq
    · exact h.good q hq
    · exact List.mem_singleton.1 hq ▸ hgood
  · -- an open one is among the calls before
    have hbefore : ∀ (k : ℕ) (r : Phase), (s.calls ++ [p])[k]? = some r → r.isOpen = true → s.calls[k]? = some r := by
      intro k r hk hr
      rcases lt_or_ge k s.calls.length with hlt | hge
      · rwa [List.getElem?_append_left hlt] at hk
      · rw [List.getElem?_append_right hge] at hk
        obtain rfl := List.mem_singleton.1 (List.mem_of_getElem? hk)
        rw [hclosed] at hr
        cases hr
    exact h.single i j p' q' (hbefore i p' hi hp) (hbefore j q' hj hq) hp hq

/-- one call moves on: the others stay as they are, and are closed if the tables change -/
theorem Inv.move {s : State} (h : Inv s) {i : ℕ} {p p' : Phase} {t' : Tables} (hp : s.calls[i]? = some p) (hok : t'.Ok)
    (hgood : p'.Good t') (htables : p.isOpen = false → t' = s.tables)
    (hopened : p'.isOpen = true → p.isOpen = true ∨ ∀ q ∈ s.calls, q.isOpen = false) :
    Inv ⟨t', s.calls.set i p'⟩ := by
  -- where a call of the new list comes from
  have hfrom : ∀ (j : ℕ) (q : Phase), (s.calls.set i p')[j]? = some q → (j = i ∧ q = p') ∨ (j ≠ i ∧ s.calls[j]? = some q) := by
    intro j q hj
    by_cases hji : j = i
    · subst hji
      rw [List.getElem?_set_self (List.getElem?_eq_some_iff.1 hp).1] at hj
      exact .inl ⟨rfl, (Option.some.inj hj).symm⟩
    · rw [List.getElem?_set_ne (Ne.symm hji)] at hj
      exact .inr ⟨hji, hj⟩
  refine ⟨hok, fun q hq => ?_, fun j k q r hj hk hq hr => ?_⟩
  · obtain ⟨j, hj⟩ := List.getElem?_of_mem hq
    rcases hfrom j q hj with ⟨-, rfl⟩ | ⟨hji, hj⟩
    · exact hgood
    · have hold := h.good q (List.mem_of_getElem? hj)
      by_cases hpopen : p.isOpen = true
      · by_cases hqopen : q.isOpen = true
        · exact absurd (h.single j i q p hj hp hqopen hpopen) hji
        · exact hold.of_closed (by simpa using hqopen)
      · rw [htables (by simpa using hpopen)]
        exact hold
  · have hnone : p'.isOpen = true → ∀ (l : ℕ) (x : Phase), l ≠ i → s.calls[l]? = some x → x.isOpen = true → False := by
      intro hp'open l x hli hl hx
      rcases hopened hp'open with hpopen | hall
      · exact hli (h.single l i x p hl hp hx hpopen)
      · rw [hall x (List.mem_of_getElem? hl)] at hx
        cases hx
    rcases hfrom j q hj with ⟨hji, hqp⟩ | ⟨hji, hj'⟩ <;> rcases hfrom k r hk with ⟨hki, hrp⟩ | ⟨hki, hk'⟩
    · rw [hji, hki]
    · exact (hnone (hqp ▸ hq) k r hki hk' hr).elim
    · exact (hnone (hrp ▸ hr) j q hji hj' hq).elim
    · exact h.single j k q r hj' hk' hq hr

theorem inv_step {v : Verifier} {owner : IdentityId} {s : State} (h : Inv s) {op : Op} (hmeets : StepMeets s op) :
    Inv (step v owner s op) := by
  cases op with
  | set env request =>
    rw [step]
    split
    · exact h.concat trivial rfl
    · rename_i guardians hcheck
      refine h.concat ?_ rfl
      change guardians.Nodup
      rw [(checkGuardians_eq_ok hcheck).1]
      exact uniqueGuardians_nodup _
  | resign caller => exact h.concat trivial rfl
  | advance i =>
    rw [step]
    split
    · exact h
    · rename_i p hp
      split
      · exact h
      · rename_i t' p' hs
        obtain ⟨halone, hdecision⟩ := hmeets p hp
        have hcurrent : ∀ d, p = .setDecided d → d.Current s.tables.settings := by
          rintro d rfl
          exact hdecision d rfl
        have hadv := statement_advances h.tables (h.good p (List.mem_of_getElem? hp)) hcurrent hs
        exact h.move hp hadv.ok hadv.good hadv.closed fun hopen => (hadv.opened hopen).imp_right halone
  | abort i =>
    rw [step]
    split
    · exact h
    · exact h
    · rename_i p hended hp
      exact h.move hp h.tables trivial (fun _ => rfl) fun hopen => by cases hopen

/-- **Writes that do not overlap.** In every run of any number of calls, in any interleaving, in which each transaction
opens while no other one is open, and that of an unsigned `set_guardians` while no guardian was added and the threshold not
lowered since it read them: no write that went unsigned removes a guardian or raises the threshold of the settings it
replaces, and the stored guardians and threshold are those of the writes in commit order, each as a whole. -/
theorem guardian_writes_serial (v : Verifier) (owner : IdentityId) (ops : List Op) (hops : Along v owner .init ops) :
    Safe (run v owner .init ops).tables := by
  have hrun : ∀ (ops : List Op) (s : State), Inv s → Along v owner s ops → Inv (run v owner s ops) := by
    intro ops
    induction ops with
    | nil => exact fun s h _ => h
    | cons op ops ih => exact fun s h hops => ih _ (inv_step h hops.1) hops.2
  exact (hrun ops .init inv_init hops).tables.safe

/-! ## Races -/

def guardian3 : IdentityId := ⟨.replicate 32 4⟩

def pairSignature : FixedBytes 64 := .ofHex 64
  "929a182b947d88cbcf816b7667f316d47b8b12eb5e33df00bc1c5b662619b181f522e333a8f4e37d8dce31cc374e3b4e2cf382f0512fc09adeabe56aae327a0a"

/-- Ed25519 restricted to the owner's signatures over naming one guardian, and over naming two others -/
def raceVerifier : Verifier where
  ed := {
    verifyingKey _ := .ofHex 32 "2152f8d19b791d24453242e15f2eab6cb7cffa7b6a5ed30097960e069881db12"
    sign _ message := if message = guardiansMessage owner1 [guardian1] 1 then singleSignature else pairSignature
    verifyStrict _ message signature :=
      (decide (message = guardiansMessage owner1 [guardian1] 1) && decide (signature = singleSignature)) ||
      (decide (message = guardiansMessage owner1 [guardian2, guardian3] 2) && decide (signature = pairSignature)) }
  validKey _ := true

def raceEnv : Surroundings := ⟨[guardian1, guardian2, guardian3], [keyRow], false⟩

/-- the first configuration, signed -/
def setOne : Op := .set raceEnv ⟨[guardian1], 1, some keyRow.id, some
  "OdjMImCsJf8h87g/4+jQMMV0kfn49FYo2Z8opfSRt0TwtXwqgcNMNc73o3nC3TL8HLvvQFxzqmU0QzrfuU9XDA=="⟩

/-- two other guardians and threshold 2, signed -/
def setOthers : Op := .set raceEnv ⟨[guardian2, guardian3], 2, some keyRow.id, some
  "kpoYK5R9iMvPgWt2Z/MW1HuLEuteM98AvBxbZiYZsYH1IuMzqPTjfY3OMcw3TjtOLPOC8FEvwJreq+VqrjJ6Cg=="⟩

/-- a second guardian added to the first, without a signature -/
def addGuardian (g : IdentityId) : Op := .set raceEnv ⟨[guardian1, g], 1, none, none⟩

def advances (i n : ℕ) : List Op := List.replicate n (.advance i)

/-- one call after the other: a guardian is added, then the first one resigns -/
theorem guardian_writes_serial_resign :
    let ops := setOne :: advances 0 7 ++ addGuardian guardian2 :: advances 1 9 ++ .resign guardian1 :: advances 2 5
    (run raceVerifier owner1 .init ops).tables.settings = ⟨[guardian2], some 1⟩ ∧
      Safe (run raceVerifier owner1 .init ops).tables := by
  intro ops
  have heval : (run raceVerifier owner1 .init ops).tables.settings = ⟨[guardian2], some 1⟩ ∧
      Along raceVerifier owner1 .init ops := by
    decide +kernel
  exact ⟨heval.1, guardian_writes_serial raceVerifier owner1 ops heval.2⟩

/-- **A stale read.** Two calls read the settings with one guardian; each adds another one, so neither needs a signature. The
second to commit removes the guardian that the first has added. -/
theorem stale_write_removes_guardian :
    ¬ ∀ (v : Verifier) (owner : IdentityId) (ops : List Op), Safe (run v owner .init ops).tables := by
  intro h
  have hsafe := (h raceVerifier owner1 (setOne :: advances 0 7 ++ addGuardian guardian2 :: advances 1 2 ++
    addGuardian guardian3 :: advances 2 2 ++ advances 1 7 ++ advances 2 8)).1
  have hlast : (⟨.set [guardian1, guardian3] 1 false, ⟨[guardian1, guardian2], some 1⟩, ⟨[guardian1, guardian3], some 1⟩⟩ :
      Commit) ∈ (run raceVerifier owner1 .init (setOne :: advances 0 7 ++ addGuardian guardian2 :: advances 1 2 ++
        addGuardian guardian3 :: advances 2 2 ++ advances 1 7 ++ advances 2 8)).tables.log := by
    decide +kernel
  have hkept := (hsafe _ hlast [guardian1, guardian3] 1 rfl).1 guardian2 (by decide)
  revert hkept
  decide

/-- **Two first configurations at once.** Neither deletes the rows that the other one inserts: the guardians of both are
stored, with the threshold of the one that commits last. -/
theorem overlapping_writes_mix :
    (run raceVerifier owner1 .init (setOne :: advances 0 4 ++ setOthers :: advances 1 4 ++ advances 0 3 ++ advances 1 4)).tables.settings =
      ⟨[guardian1, guardian2, guardian3], some 2⟩ := by
  decide +kernel

end Avalon.GuardianRaces
