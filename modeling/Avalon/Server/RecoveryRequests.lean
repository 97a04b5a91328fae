/-
Social recovery requests (`crates/server/src/recovery.rs`: the guards, `finish_request`, `approve_request`, `cancel_request`,
`finalize_request`; the tables `recovery_requests` and `recovery_approvals` of migration 0029), with the guardian settings
they read (`GuardianRaces`).

Each call is a row of statements at READ COMMITTED, run in any interleaving with those of the other calls. What stands before
the transaction of a call reads what is committed then: the threshold and the count of recent requests of `finish_request`,
the guardian check of `approve_request` and `cancel_request`. A transaction that changes a request holds the lock of its row
from the statement that reads it until it commits; what it reads after that statement cannot change in between, so it is one
step here, and the commit, or a roll-back, the next one. The partial unique index makes an insert wait for another insert of
the identity, and for a transaction that holds the active request's row.

Inputs: the readings of the clock, which does not go back; new ids. The ceremony before `finish_request`, the passkeys and
sessions that `finalize_request` replaces and the events of a transaction are left out. Times are microseconds, as stored.

Results:
- `step`, `run`: the calls on one database.
- `Safe`: what must hold of every request that is completed, of active requests and of rolling windows.
-/
import Mathlib.Tactic
import Avalon.Core.Bytes
import Avalon.Core.Fallible
import Avalon.Protocol.Events
import Avalon.Protocol.IdentityId
import Avalon.Server.SignatureGate
import Avalon.Server.Guardians
import Avalon.Server.GuardianRaces

namespace Avalon.Recovery

open Avalon.Events Avalon.Identity Avalon.SignatureGate Avalon.Guardians

/-! ## Guards -/

/-- an hour in microseconds -/
def hour : ℤ := 3600 * 1000000

def defaultRecoveryDelayHours : ℤ := 48

def maxRecoveryAttemptsPerWindow : ℕ := 5

def rateLimitWindow : ℤ := 24 * hour

/-- from the environment variable, where it is set to a number -/
def recoveryDelayHours (env : Option ℤ) : ℤ := (env.filter fun hours => decide (0 < hours)).getD defaultRecoveryDelayHours

inductive Status where
  | pendingApprovals
  | delay
  | completed
  | cancelled
deriving DecidableEq, Repr

/-- what the partial unique index covers -/
def Status.active : Status → Bool
  | pendingApprovals => true
  | delay => true
  | completed => false
  | cancelled => false

def meetsThreshold (approvalsCount thresholdAtRequest : ℤ) : Bool := decide (thresholdAtRequest ≤ approvalsCount)

def guardCanFinalize (status : Status) (delayEndsAt : Option ℤ) (now : ℤ) : Except AppError Unit :=
  if status = .completed then .error .recoveryAlreadyResolved
  else if status ≠ .delay then .error .recoveryNotReadyToFinalize
  else
    match delayEndsAt with
    | some endsAt => if endsAt ≤ now then .ok () else .error .recoveryNotReadyToFinalize
    | none => .error .recoveryNotReadyToFinalize

def guardCancelAuthority (caller identityId : IdentityId) (guardians : List IdentityId) : Except AppError Unit :=
  if caller = identityId ∨ caller ∈ guardians then .ok () else .error .forbidden

def guardRateLimit (recentCount : ℕ) : Except AppError Unit :=
  if maxRecoveryAttemptsPerWindow ≤ recentCount then .error .recoveryRateLimited else .ok ()

/-! ## Tables -/

structure RequestRow where
  id : Uuid
  identityId : IdentityId
  thresholdAtRequest : ℤ
  status : Status
  requestedAt : ℤ
  delayEndsAt : Option ℤ
  completedAt : Option ℤ
  cancelledAt : Option ℤ
  cancelledBy : Option IdentityId
deriving DecidableEq

structure ApprovalRow where
  requestId : Uuid
  guardian : IdentityId
  approvedAt : ℤ
  /-- history: the guardians of the identity when the approval committed -/
  guardiansThen : List IdentityId
deriving DecidableEq

structure Tables where
  requests : List RequestRow
  approvals : List ApprovalRow
  /-- history: the requests a cancel of which has committed -/
  cancels : List Uuid
deriving DecidableEq

namespace Tables

def find (t : Tables) (requestId : Uuid) : Option RequestRow := t.requests.find? fun row => decide (row.id = requestId)

/-- a new version of a row -/
def put (t : Tables) (row : RequestRow) : Tables :=
  { t with requests := t.requests.map fun r => if r.id = row.id then row else r }

def approvalsOf (t : Tables) (requestId : Uuid) : List ApprovalRow :=
  t.approvals.filter fun a => decide (a.requestId = requestId)

def requestsOf (t : Tables) (identityId : IdentityId) : List RequestRow :=
  t.requests.filter fun row => decide (row.identityId = identityId)

/-- the request the unique index holds for an identity -/
def activeRequest (t : Tables) (identityId : IdentityId) : Option RequestRow :=
  t.requests.find? fun row => decide (row.identityId = identityId) && row.status.active

/-- as of a reading of the clock -/
def recentRequestCount (t : Tables) (identityId : IdentityId) (now : ℤ) : ℕ :=
  (t.requestsOf identityId).countP fun row => decide (now - rateLimitWindow ≤ row.requestedAt)

end Tables

/-! ## Calls -/

/-- how far a call has come; from `finishInserted`, `approveWritten`, `cancelWritten` and `finalizeWritten` only the commit
is left -/
inductive Phase where
  | finishStart (identityId : IdentityId)
  | finishThreshold (identityId : IdentityId) (threshold : ℤ)
  /-- also keeps how many requests the identity had when they were counted -/
  | finishCounted (identityId : IdentityId) (threshold countedAt : ℤ) (known : ℕ)
  /-- the time of the request is read before its insert, which may have to wait -/
  | finishStamped (identityId : IdentityId) (threshold requestedAt : ℤ) (known : ℕ)
  | finishInserted (row : RequestRow)
  | approveStart (caller : IdentityId) (requestId : Uuid)
  | approveFetched (caller : IdentityId) (requestId : Uuid) (identityId : IdentityId)
  | approveChecked (caller : IdentityId) (requestId : Uuid) (identityId : IdentityId)
  | approveWritten (caller : IdentityId) (locked : RequestRow) (approvedAt : ℤ) (count : ℕ)
  | cancelStart (caller : IdentityId) (requestId : Uuid)
  | cancelFetched (caller : IdentityId) (requestId : Uuid) (identityId : IdentityId)
  | cancelChecked (caller : IdentityId) (requestId : Uuid)
  | cancelUpdating (caller : IdentityId) (requestId : Uuid) (cancelledAt : ℤ)
  | cancelWritten (caller : IdentityId) (locked : RequestRow) (cancelledAt : ℤ)
  | finalizeStart (requestId : Uuid)
  | finalizeFetched (requestId : Uuid) (now : ℤ)
  | finalizeWritten (locked : RequestRow) (now : ℤ)
  | ended (result : Except AppError Unit)

namespace Phase

/-- the request whose row the transaction holds -/
def locks : Phase → Option Uuid
  | approveWritten _ locked _ _ => some locked.id
  | cancelWritten _ locked _ => some locked.id
  | finalizeWritten locked _ => some locked.id
  | _ => none

/-- the row the transaction has inserted -/
def inserted : Phase → Option RequestRow
  | finishInserted row => some row
  | _ => none

end Phase

/-- whether another call holds the row of a request -/
def heldByOthers (others : List Phase) (requestId : Uuid) : Bool := others.any fun p => decide (p.locks = some requestId)

/-- the row after an approval: the one that meets the threshold starts the delay -/
def approvedRow (delayHours : ℤ) (locked : RequestRow) (count : ℕ) (approvedAt : ℤ) : RequestRow :=
  if locked.status = .pendingApprovals ∧ meetsThreshold count locked.thresholdAtRequest = true then
    { locked with status := .delay, delayEndsAt := some (approvedAt + delayHours * hour) }
  else locked

def cancelledRow (locked : RequestRow) (caller : IdentityId) (cancelledAt : ℤ) : RequestRow :=
  { locked with status := .cancelled, cancelledAt := some cancelledAt, cancelledBy := some caller }

def completedRow (locked : RequestRow) (now : ℤ) : RequestRow := { locked with status := .completed, completedAt := some now }

section

variable (delayHours : ℤ)

/-- the next statement of a call, at a reading of the clock; nothing if it has to wait -/
def statement (t : Tables) (guardians : IdentityId → Settings) (others : List Phase) (now : ℤ) (newId : Uuid) :
    Phase → Option (Tables × Phase)
  | .finishStart identityId =>
    match (guardians identityId).threshold with
    | none => some (t, .ended (.error .recoveryNotAvailable))
    | some threshold =>
      if threshold < 1 then some (t, .ended (.error .recoveryNotAvailable))
      else some (t, .finishThreshold identityId threshold)
  | .finishThreshold identityId threshold =>
    match guardRateLimit (t.recentRequestCount identityId now) with
    | .error e => some (t, .ended (.error e))
    | .ok () => some (t, .finishCounted identityId threshold now (t.requestsOf identityId).length)
  | .finishCounted identityId threshold _ known => some (t, .finishStamped identityId threshold now known)
  | .finishStamped identityId threshold requestedAt _ =>
    if others.any fun p => p.inserted.any fun row => decide (row.identityId = identityId ∨ row.id = newId) then none
    else
      match t.activeRequest identityId with
      | some row =>
        if heldByOthers others row.id then none else some (t, .ended (.error .recoveryAlreadyInProgress))
      | none =>
        if (t.find newId).isSome then some (t, .ended (.error .recoveryAlreadyInProgress))
        else some (t, .finishInserted ⟨newId, identityId, threshold, .pendingApprovals, requestedAt, none, none, none, none⟩)
  | .finishInserted row => some ({ t with requests := t.requests ++ [row] }, .ended (.ok ()))
  | .approveStart caller requestId =>
    match t.find requestId with
    | none => some (t, .ended (.error .recoveryRequestNotFound))
    | some row =>
      if row.status.active then some (t, .approveFetched caller requestId row.identityId)
      else some (t, .ended (.error .recoveryAlreadyResolved))
  | .approveFetched caller requestId identityId =>
    if caller ∈ (guardians identityId).guardians then some (t, .approveChecked caller requestId identityId)
    else some (t, .ended (.error .notAGuardian))
  -- the row is locked and checked again, the approval inserted and the approvals counted
  | .approveChecked caller requestId _ =>
    if heldByOthers others requestId then none
    else
      match t.find requestId with
      | none => some (t, .ended (.error .database))
      | some locked =>
        if !locked.status.active then some (t, .ended (.error .recoveryAlreadyResolved))
        else if (t.approvalsOf requestId).any fun a => decide (a.guardian = caller) then
          some (t, .ended (.error .alreadyApproved))
        else some (t, .approveWritten caller locked now ((t.approvalsOf requestId).length + 1))
  | .approveWritten caller locked approvedAt count =>
    let t' := t.put (approvedRow delayHours locked count approvedAt)
    some ({ t' with
      approvals := t.approvals ++ [⟨locked.id, caller, approvedAt, (guardians locked.identityId).guardians⟩] }, .ended (.ok ()))
  | .cancelStart caller requestId =>
    match t.find requestId with
    | none => some (t, .ended (.error .recoveryRequestNotFound))
    | some row =>
      if row.status = .completed ∨ row.status = .cancelled then some (t, .ended (.error .recoveryAlreadyResolved))
      else some (t, .cancelFetched caller requestId row.identityId)
  | .cancelFetched caller requestId identityId =>
    match guardCancelAuthority caller identityId (guardians identityId).guardians with
    | .error e => some (t, .ended (.error e))
    | .ok () => some (t, .cancelChecked caller requestId)
  | .cancelChecked caller requestId => some (t, .cancelUpdating caller requestId now)
  | .cancelUpdating caller requestId cancelledAt =>
    if heldByOthers others requestId then none
    else
      match (t.find requestId).filter fun row => row.status.active with
      | none => some (t, .ended (.error .recoveryAlreadyResolved))
      | some locked => some (t, .cancelWritten caller locked cancelledAt)
  | .cancelWritten caller locked cancelledAt =>
    some ({ t.put (cancelledRow locked caller cancelledAt) with cancels := t.cancels ++ [locked.id] }, .ended (.ok ()))
  | .finalizeStart requestId =>
    match t.find requestId with
    | none => some (t, .ended (.error .recoveryRequestNotFound))
    | some row =>
      if row.status = .completed then some (t, .ended (.ok ()))
      else
        match guardCanFinalize row.status row.delayEndsAt now with
        | .error e => some (t, .ended (.error e))
        | .ok () => some (t, .finalizeFetched requestId now)
  -- the row is locked and checked again, at the same reading
  | .finalizeFetched requestId readAt =>
    if heldByOthers others requestId then none
    else
      match t.find requestId with
      | none => some (t, .ended (.error .database))
      | some locked =>
        match guardCanFinalize locked.status locked.delayEndsAt readAt with
        | .error e => some (t, .ended (.error e))
        | .ok () => some (t, .finalizeWritten locked readAt)
  | .finalizeWritten locked now => some (t.put (completedRow locked now), .ended (.ok ()))
  | .ended _ => none

/-! ## Runs -/

structure State where
  /-- the guardian settings of each identity, with the calls that write them -/
  guardians : IdentityId → GuardianRaces.State
  tables : Tables
  calls : List Phase
  clock : ℤ

def State.settings (s : State) (identityId : IdentityId) : Settings := (s.guardians identityId).tables.settings

inductive Op where
  /-- a step of the calls that write the guardian settings of an identity -/
  | guardians (owner : IdentityId) (op : GuardianRaces.Op)
  | finish (identityId : IdentityId)
  | approve (caller : IdentityId) (requestId : Uuid)
  | cancel (caller : IdentityId) (requestId : Uuid)
  | finalize (requestId : Uuid)
  /-- call `i` runs its next statement, if it need not wait, at a reading of the clock -/
  | advance (i : ℕ) (now : ℤ) (newId : Uuid)
  /-- call `i` ends and its transaction is rolled back -/
  | abort (i : ℕ)

variable (v : Verifier)

def step (s : State) : Op → State
  | .guardians owner op =>
    { s with guardians := Function.update s.guardians owner (GuardianRaces.step v owner (s.guardians owner) op) }
  | .finish identityId => { s with calls := s.calls ++ [.finishStart identityId] }
  | .approve caller requestId => { s with calls := s.calls ++ [.approveStart caller requestId] }
  | .cancel caller requestId => { s with calls := s.calls ++ [.cancelStart caller requestId] }
  | .finalize requestId => { s with calls := s.calls ++ [.finalizeStart requestId] }
  | .advance i now newId =>
    if now < s.clock then s
    else
      match s.calls[i]? with
      | none => s
      | some phase =>
        match statement delayHours s.tables s.settings (s.calls.eraseIdx i) now newId phase with
        | none => s
        | some (tables, phase') => { s with tables := tables, calls := s.calls.set i phase', clock := now }
  | .abort i =>
    match s.calls[i]? with
    | none => s
    | some (.ended _) => s
    | some _ => { s with calls := s.calls.set i (.ended (.error .database)) }

def State.init : State := ⟨fun _ => .init, ⟨[], [], []⟩, [], 0⟩

def run (s : State) (ops : List Op) : State := ops.foldl (step delayHours v) s

end

/-! ## What must hold -/

/-- enough distinct identities approved, each a guardian when its approval committed; the delay had passed since the approval
that met the threshold when the request was completed; and no cancel of it has committed -/
structure SafelyCompleted (delayHours : ℤ) (t : Tables) (row : RequestRow) : Prop where
  approvers : ∃ approvers : List IdentityId, approvers.Nodup ∧ row.thresholdAtRequest ≤ approvers.length ∧
    ∀ g ∈ approvers, ∃ a ∈ t.approvalsOf row.id, a.guardian = g ∧ g ∈ a.guardiansThen
  delay : ∃ a completedAt, (t.approvalsOf row.id)[(row.thresholdAtRequest - 1).toNat]? = some a ∧
    row.completedAt = some completedAt ∧ a.approvedAt + delayHours * hour ≤ completedAt
  uncancelled : row.id ∉ t.cancels

structure Safe (delayHours : ℤ) (t : Tables) : Prop where
  completed : ∀ row ∈ t.requests, row.status = .completed → SafelyCompleted delayHours t row
  oneActive : ∀ identityId, ((t.requestsOf identityId).filter fun row => row.status.active).length ≤ 1
  rolling : ∀ identityId start, ((t.requestsOf identityId).filter fun row =>
    decide (start ≤ row.requestedAt ∧ row.requestedAt ≤ start + rateLimitWindow)).length ≤ maxRecoveryAttemptsPerWindow

end Avalon.Recovery
