/-
Rollback after a recovery (`crates/server/src/rollback.rs`), beside the outbox (`crates/server/src/outbox.rs`: `enqueue`,
`drain_locked`) and the pruning of payloads (`crates/chain/src/postgres.rs`: `prune_payloads_older_than`), statement by statement
on PostgreSQL at READ COMMITTED; and what the projections read from a compensating event
(`crates/indexer/src/projections/guild_rosters.rs`: `decode`; friendships are in `Friendships`).

The owner of a recovered identity reverses an event of a window of time by appending a compensating event. An advisory lock on the
event's id excludes other reversals of it. An event is pending in the outbox until it is in the ledger, whose payloads are pruned
with age; a drain that fails after the ledger has taken its batch sends it again.

Left out: the listing of candidates, the profile event that clears a main guild, who the caller is; settlement by a remote
authority. What other handlers write to the projections is an input; they append no compensating events.
-/
import Mathlib.Tactic
import Avalon.Core.Bytes
import Avalon.Core.Json
import Avalon.Core.Interleaving
import Avalon.Core.Locks
import Avalon.Protocol.LedgerEntry
import Avalon.Protocol.Events
import Avalon.Protocol.IdentityId
import Avalon.Protocol.IdentityChainWire
import Avalon.Chain.Ledger
import Avalon.Indexer.ProfileChain
import Avalon.Indexer.Friendships
import Avalon.Server.SignatureGate

namespace Avalon.Rollback

open Avalon.Events Avalon.Identity Avalon.IdentityChain Avalon.LedgerEntry Avalon.SignatureGate
open Avalon.Ledger (storedPayload storedTimestamp)
open Avalon.ProfileChain (get)
open Avalon.Friendships (FriendTable areFriends orderedPair)
open Interleaving Json

variable {F : Type}

abbrev Event (F : Type) := ProtocolEvent (Value F)

inductive AppError where
  | invalidRollbackWindow
  | rollbackNoCompletedRecovery
  | rollbackEventNotEligible
  | rollbackAlreadyReversed
  | rollbackNotReversible (reason : String)
  | signature (e : SignatureGate.AppError)
  | database
deriving DecidableEq

/-! ## Eligibility -/

def KIND_FRIEND_ACCEPTED : String := "friend.accepted"

def KIND_FRIEND_REMOVED : String := "friend.removed"

def KIND_MEMBER_ADDED : String := "guild.member_added"

def KIND_MEMBER_REMOVED : String := "guild.member_removed"

def CANDIDATE_KINDS : List String := [KIND_FRIEND_ACCEPTED, KIND_FRIEND_REMOVED, KIND_MEMBER_ADDED, KIND_MEMBER_REMOVED]

/-- a half-open interval of time that is not empty -/
structure RollbackWindow where
  since : OffsetDateTime
  completedAt : OffsetDateTime
  ordered : since < completedAt

namespace RollbackWindow

def new (since completedAt : OffsetDateTime) : Except AppError RollbackWindow :=
  if h : since < completedAt then .ok ⟨since, completedAt, h⟩ else .error .invalidRollbackWindow

def contains (w : RollbackWindow) (time : OffsetDateTime) : Bool := decide (w.since ≤ time ∧ time < w.completedAt)

end RollbackWindow

/-- a row of the ledger, as far as eligibility needs it -/
structure LedgerEvent (F : Type) where
  eventId : Uuid
  kind : String
  issuer : String
  occurredAt : OffsetDateTime
  payload : Value F

inductive Target where
  | friend (counterparty : IdentityId)
  | guild (guildId : Uuid)
deriving DecidableEq

inductive ReversalPlan where
  | removeFriendship (counterparty : IdentityId)
  | removeMembership (guildId : Uuid)
  | restoreMembership (guildId : Uuid)
deriving DecidableEq

structure GuildContext where
  owner : IdentityId
  joinOpen : Bool

structure Context where
  alreadyReversed : Bool
  friendsNow : Bool
  isMemberNow : Bool
  guild : Option GuildContext

structure Assessment where
  summary : String
  reversible : Bool
  reason : Option String
  alreadyReversed : Bool
  plan : Option ReversalPlan

/-- the identity in an issuer `identity:<id>:…` -/
def issuerIdentity (issuer : String) : Option IdentityId :=
  match issuer.toList.splitOn ':' with
  | space :: owner :: _ =>
    if String.ofList space = "identity" then (IdentityId.parse (String.ofList owner)).toOption else none
  | _ => none

def payloadIdentity (payload : Value F) (key : String) : Option IdentityId := readIdentityId (get payload key)

def payloadUuid (payload : Value F) (key : String) : Option Uuid := readUuid (get payload key)

def payloadText (payload : Value F) (key : String) : Option String := readString (get payload key)

/-- what an event of the identity touches, by its kind -/
def kindTarget (identity : IdentityId) (kind : String) (payload : Value F) : Option Target :=
  if kind = KIND_FRIEND_ACCEPTED then do
    let from' ← payloadIdentity payload "from"
    let to' ← payloadIdentity payload "to"
    let actor ← payloadIdentity payload "actor"
    let counterparty := if from' = identity then to' else from'
    if actor ≠ identity ∨ counterparty = identity then none else return .friend counterparty
  else if kind = KIND_FRIEND_REMOVED then do
    let a ← payloadIdentity payload "a"
    let b ← payloadIdentity payload "b"
    let actor ← payloadIdentity payload "actor"
    if actor ≠ identity then none else return .friend (if a = identity then b else a)
  else if kind = KIND_MEMBER_ADDED then do
    let member ← payloadIdentity payload "identity_id"
    if member ≠ identity then none else return .guild (← payloadUuid payload "guild_id")
  else if kind = KIND_MEMBER_REMOVED then do
    let member ← payloadIdentity payload "identity_id"
    let actor ← payloadIdentity payload "actor"
    let reason ← payloadText payload "reason"
    if member ≠ identity ∨ actor ≠ identity ∨ reason ≠ "left" then none else return .guild (← payloadUuid payload "guild_id")
  else none

def extractTarget (identity : IdentityId) (window : RollbackWindow) (event : LedgerEvent F) : Option Target := do
  let issuer ← issuerIdentity event.issuer
  if issuer ≠ identity ∨ !window.contains event.occurredAt then none
  else kindTarget identity event.kind event.payload

def notReversible (summary reason : String) : Assessment := ⟨summary, false, some reason, false, none⟩

def reversible (summary : String) (plan : ReversalPlan) : Assessment := ⟨summary, true, none, false, some plan⟩

def assessInner (identity : IdentityId) (event : LedgerEvent F) (target : Target) (ctx : Context) : Assessment :=
  match target with
  | .friend counterparty =>
    if event.kind = KIND_FRIEND_ACCEPTED then
      let summary := "Became friends with " ++ counterparty.toText
      if ctx.friendsNow then reversible summary (.removeFriendship counterparty)
      else notReversible summary "The friendship no longer exists."
    else if event.kind = KIND_FRIEND_REMOVED then
      notReversible ("Removed friend " ++ counterparty.toText)
        "A removed friendship needs the other person's agreement to restore; send them a new friend request."
    else notReversible (event.kind ++ " event") "This kind of event cannot be reversed."
  | .guild guildId =>
    if event.kind = KIND_MEMBER_ADDED then
      let summary := "Joined guild " ++ uuidText guildId
      match ctx.guild with
      | none => notReversible summary "The guild no longer exists."
      | some guild =>
        if guild.owner = identity then
          notReversible summary "You own this guild; transfer ownership or delete the guild instead."
        else if !ctx.isMemberNow then notReversible summary "You are no longer a member of this guild."
        else reversible summary (.removeMembership guildId)
    else if event.kind = KIND_MEMBER_REMOVED then
      let summary := "Left guild " ++ uuidText guildId
      match ctx.guild with
      | none => notReversible summary "The guild no longer exists."
      | some guild =>
        if ctx.isMemberNow then notReversible summary "You are already a member of this guild."
        else if !guild.joinOpen then
          notReversible summary "This guild is invite-only; ask a guild officer to invite you again."
        else reversible summary (.restoreMembership guildId)
    else notReversible (event.kind ++ " event") "This kind of event cannot be reversed."

def assess (identity : IdentityId) (event : LedgerEvent F) (target : Target) (ctx : Context) : Assessment :=
  let assessment := assessInner identity event target ctx
  if ctx.alreadyReversed then
    { assessment with
      reversible := false
      alreadyReversed := true
      reason := some "This event has already been reversed."
      plan := none }
  else assessment

/-! ## Compensating events -/

def REVERSE_ACTION_TAG : String := "rollback.reverse"

def EFFECT_FRIENDSHIP_REMOVED : String := "friendship_removed"

def EFFECT_MEMBERSHIP_REMOVED : String := "membership_removed"

def EFFECT_MEMBERSHIP_RESTORED : String := "membership_restored"

def MEMBER_ROLE_INDEX : ℕ := 2

def identityRef (identity : IdentityId) (verb : String) : String := "identity:" ++ identity.toText ++ ":self:" ++ verb

def guildRef (guildId : Uuid) (verb : String) : String := "guild:" ++ uuidText guildId ++ ":self:" ++ verb

/-- the payload of a friendship's reversal, keys in order -/
def friendReversal (reverses recovery : Uuid) (identity counterparty : IdentityId) : Value F :=
  .object [("counterparty_id", .string counterparty.toText), ("effect", .string EFFECT_FRIENDSHIP_REMOVED),
    ("identity_id", .string identity.toText), ("recovery_request_id", .string (uuidText recovery)),
    ("reverses_event_id", .string (uuidText reverses))]

/-- the payload of a membership's reversal, keys in order -/
def membershipReversal (reverses recovery guildId : Uuid) (identity : IdentityId) (effect : String) : Value F :=
  .object [("effect", .string effect), ("guild_id", .string (uuidText guildId)), ("identity_id", .string identity.toText),
    ("recovery_request_id", .string (uuidText recovery)), ("reverses_event_id", .string (uuidText reverses)),
    ("role_index", unsigned MEMBER_ROLE_INDEX)]

/-- the compensating event of a plan -/
def reversalEvent (id : Uuid) (identity : IdentityId) (recovery reverses : Uuid) (plan : ReversalPlan) (now : OffsetDateTime) :
    Event F :=
  let membership guildId effect : Event F :=
    ⟨id, "guild.membership_reversed", identityRef identity "guild_membership_reversed",
      guildRef guildId "guild_membership_reversed", membershipReversal reverses recovery guildId identity effect, now, 1, none⟩
  match plan with
  | .removeFriendship counterparty =>
    ⟨id, "friend.relationship_reversed", identityRef identity "friend_relationship_reversed",
      identityRef counterparty "friend_relationship_reversed", friendReversal reverses recovery identity counterparty, now, 1, none⟩
  | .removeMembership guildId => membership guildId EFFECT_MEMBERSHIP_REMOVED
  | .restoreMembership guildId => membership guildId EFFECT_MEMBERSHIP_RESTORED

def isReversal (kind : String) : Bool := decide (kind = "guild.membership_reversed" ∨ kind = "friend.relationship_reversed")

/-- the event that an event reverses, as its payload names it -/
def reversesId (kind : String) (payload : Value F) : Option String :=
  if isReversal kind then payloadText payload "reverses_event_id" else none

def reverses (e : Event F) : Option String := reversesId e.kind e.payload

/-! ## Rosters -/

inductive GuildRosterWrite where
  | upsert (guildId : Uuid) (identityId : IdentityId) (roleIndex : ℤ) (joinedAt : OffsetDateTime)
  | remove (guildId : Uuid) (identityId : IdentityId)
deriving DecidableEq

/-- an integer that fits an i32 -/
def roleIndex (payload : Value F) : Option ℤ :=
  match get payload "role_index" with
  | some (.number (.posInt n)) => if n.toNat < 2 ^ 31 then some n.toNat else none
  | some (.number (.negInt i _)) => if -2 ^ 31 ≤ i.toInt then some i.toInt else none
  | _ => none

def decodeRoster (event : Event F) : Option GuildRosterWrite :=
  if event.kind = "guild.created" then do
    let guildId ← payloadUuid event.payload "guild_id"
    let owner ← payloadIdentity event.payload "owner"
    return .upsert guildId owner 0 event.timestamp
  else if event.kind = "guild.member_added" ∨ event.kind = "guild.role_changed" then do
    let guildId ← payloadUuid event.payload "guild_id"
    let identityId ← payloadIdentity event.payload "identity_id"
    let roleIndex ← roleIndex event.payload
    return .upsert guildId identityId roleIndex event.timestamp
  else if event.kind = "guild.member_removed" then do
    let guildId ← payloadUuid event.payload "guild_id"
    let identityId ← payloadIdentity event.payload "identity_id"
    return .remove guildId identityId
  else if event.kind = "guild.membership_reversed" then do
    let guildId ← payloadUuid event.payload "guild_id"
    let identityId ← payloadIdentity event.payload "identity_id"
    let effect ← payloadText event.payload "effect"
    if effect = "membership_removed" then return .remove guildId identityId
    else if effect = "membership_restored" then return .upsert guildId identityId (← roleIndex event.payload) event.timestamp
    else none
  else none

/-! ## Tables -/

structure OutboxRow (F : Type) where
  event : Event F
  committedAt : Option OffsetDateTime

/-- an entry of the ledger; its payload is gone once it is pruned -/
structure LedgerRow (F : Type) where
  event : Event F
  eventTimestamp : OffsetDateTime
  payload : Option (Value F)
  committedAt : OffsetDateTime

/-- a completed row of `recovery_requests` -/
structure RecoveryRow where
  requestId : Uuid
  identityId : IdentityId
  completedAt : OffsetDateTime

structure GuildRow where
  id : Uuid
  owner : IdentityId
  joinPolicy : String

structure Tables (F : Type) where
  now : OffsetDateTime
  /-- `identity_signing_keys` -/
  signingKeys : List SigningKeyRow
  recoveries : List RecoveryRow
  friends : FriendTable
  members : List (Uuid × IdentityId)
  guilds : List GuildRow
  outbox : List (OutboxRow F)
  ledger : List (LedgerRow F)
  /-- what the keys have been -/
  keyStates : List (List SigningKeyRow)

def Tables.init (now : OffsetDateTime) : Tables F := ⟨now, [], [], ∅, [], [], [], [], [[]]⟩

/-- what comes from outside the module -/
structure Config (F : Type) where
  verifier : Verifier
  codec : PayloadCodec (Value F)
  parseRfc3339 : String → Option OffsetDateTime
  /-- `hashtextextended` -/
  lockKey : String → ℕ

/-! ## Calls -/

/-- a request to reverse an event, with the id that its compensating event would draw -/
structure Request where
  identity : IdentityId
  eventId : Uuid
  sinceText : String
  proof : Proof
  reversalId : Uuid

inductive Call (F : Type) where
  /-- an event of another handler -/
  | enqueue (event : Event F)
  /-- other calls write `identity_signing_keys` -/
  | writeKeys (keys : List SigningKeyRow)
  | completeRecovery (requestId : Uuid) (identityId : IdentityId)
  /-- what other handlers write to the projections -/
  | write (friends : FriendTable) (members : List (Uuid × IdentityId)) (guilds : List GuildRow)
  /-- of pending rows, by their places -/
  | drain (rows : List ℕ)
  | prune (cutoff : OffsetDateTime)
  | reverse (r : Request)
  | wait (nanoseconds : ℕ)

/-- how far a call has come; from `windowing` to `committing` with the lock -/
inductive Phase (F : Type) where
  | received (call : Call F)
  | signing (r : Request) (since : OffsetDateTime)
  | locking (r : Request) (since : OffsetDateTime)
  | windowing (r : Request) (since : OffsetDateTime)
  | reading (r : Request) (recovery : RecoveryRow) (window : RollbackWindow)
  | checking (r : Request) (recovery : RecoveryRow) (event : LedgerEvent F) (target : Target)
  | relating (r : Request) (recovery : RecoveryRow) (event : LedgerEvent F) (target : Target) (alreadyReversed : Bool)
  | visiting (r : Request) (recovery : RecoveryRow) (event : LedgerEvent F) (guildId : Uuid) (ctx : Context)
  | assessing (r : Request) (recovery : RecoveryRow) (event : LedgerEvent F) (target : Target) (ctx : Context)
  | committing (r : Request) (recovery : RecoveryRow) (event : LedgerEvent F) (plan : ReversalPlan)
  | settling (rows : List ℕ)
  | marking (rows : List ℕ)
  | done
  | answered (result : Except AppError Uuid)

/-- the request whose event a call has locked -/
def Phase.request : Phase F → Option Request
  | windowing r _ | reading r _ _ | checking r _ _ _ | relating r _ _ _ _ | visiting r _ _ _ _ | assessing r _ _ _ _
  | committing r _ _ _ => some r
  | _ => none

def Config.eventKey (cfg : Config F) (eventId : Uuid) : ℕ := cfg.lockKey ("rollback:" ++ uuidText eventId)

/-- the advisory lock of a call -/
def Phase.locks (cfg : Config F) (p : Phase F) : Locks ℕ :=
  match p.request with
  | some r => ⟨[], [cfg.eventKey r.eventId]⟩
  | none => .none

/-! ## Statements -/

/-- what the owner signs -/
def Request.message (r : Request) : Bytes :=
  canonicalMessage REVERSE_ACTION_TAG [uuidText r.eventId, r.identity.toText, r.sinceText]

def later (best : Option RecoveryRow) (r : RecoveryRow) : Option RecoveryRow :=
  match best with
  | none => some r
  | some b => if b.completedAt < r.completedAt then some r else some b

/-- ORDER BY completed_at DESC LIMIT 1 -/
def latestCompletedRecovery (t : Tables F) (identity : IdentityId) : Option RecoveryRow :=
  (t.recoveries.filter fun r => decide (r.identityId = identity)).foldl later none

/-- WHERE event_id AND kind = ANY ORDER BY seq LIMIT 1 -/
def ledgerRow (t : Tables F) (eventId : Uuid) : Option (LedgerRow F) :=
  t.ledger.find? fun row => decide (row.event.id = eventId ∧ row.event.kind ∈ CANDIDATE_KINDS)

/-- a pruned payload cannot be read -/
def ledgerEventFromRow (row : LedgerRow F) : Option (LedgerEvent F) :=
  row.payload.map fun payload => ⟨row.event.id, row.event.kind, row.event.issuer, row.eventTimestamp, payload⟩

def alreadyReversed (t : Tables F) (eventId : Uuid) : Bool :=
  (t.ledger.any fun row => row.payload.any fun payload =>
    decide (reversesId row.event.kind payload = some (uuidText eventId))) ||
  t.outbox.any fun row => row.committedAt.isNone && decide (reverses row.event = some (uuidText eventId))

/-- the first statement of `load_context` after the check -/
def relate (t : Tables F) (r : Request) (recovery : RecoveryRow) (event : LedgerEvent F) (target : Target)
    (reversed : Bool) : Phase F :=
  match target with
  | .friend counterparty =>
    .assessing r recovery event target ⟨reversed, areFriends t.friends r.identity counterparty, false, none⟩
  | .guild guildId => .visiting r recovery event guildId ⟨reversed, false, decide ((guildId, r.identity) ∈ t.members), none⟩

def guildContext (t : Tables F) (guildId : Uuid) : Option GuildContext :=
  (t.guilds.find? fun g => decide (g.id = guildId)).map fun g => ⟨g.owner, decide (g.joinPolicy = "open")⟩

/-- from the assessment to the answer or the commit -/
def decidePlan (r : Request) (recovery : RecoveryRow) (event : LedgerEvent F) (target : Target) (ctx : Context) : Phase F :=
  let assessment := assess r.identity event target ctx
  if assessment.alreadyReversed then .answered (.error .rollbackAlreadyReversed)
  else
    match assessment.plan with
    | some plan => .committing r recovery event plan
    | none => .answered (.error (.rollbackNotReversible (assessment.reason.getD "")))

/-- the compensating event is applied and enqueued -/
def commitReversal (t : Tables F) (r : Request) (recovery : RecoveryRow) (event : LedgerEvent F) (plan : ReversalPlan) : Tables F :=
  let reversal := reversalEvent r.reversalId r.identity recovery.requestId event.eventId plan t.now
  { t with
    friends := match plan with
      | .removeFriendship counterparty => t.friends.erase (orderedPair r.identity counterparty)
      | _ => t.friends
    members := match plan with
      | .removeFriendship _ => t.members
      | .removeMembership guildId => t.members.filter fun m => decide (m ≠ (guildId, r.identity))
      | .restoreMembership guildId => if (guildId, r.identity) ∈ t.members then t.members else t.members ++ [(guildId, r.identity)]
    outbox := t.outbox ++ [⟨reversal, none⟩] }

/-- the entries of a batch; none if one of them cannot be stored -/
def settleRows (cfg : Config F) (now : OffsetDateTime) (events : List (Event F)) : Option (List (LedgerRow F)) :=
  events.mapM fun event => (storedTimestamp event).toOption.map fun timestamp =>
    ⟨event, timestamp, some (storedPayload cfg.codec event), now⟩

/-- the events at these places of the outbox -/
def rowEvents (t : Tables F) (rows : List ℕ) : List (Event F) := rows.filterMap fun i => (t.outbox[i]?).map OutboxRow.event

def isPending (t : Tables F) (i : ℕ) : Bool := (t.outbox[i]?).any fun row => row.committedAt.isNone

def LedgerRow.prune (cutoff : OffsetDateTime) (row : LedgerRow F) : LedgerRow F :=
  { row with payload := if row.committedAt < cutoff then none else row.payload }

def prunePayloads (ledger : List (LedgerRow F)) (cutoff : OffsetDateTime) : List (LedgerRow F) :=
  ledger.map (LedgerRow.prune cutoff)

/-- the statement that a call begins with -/
def receive (cfg : Config F) (t : Tables F) : Call F → Tables F × Phase F
  | .enqueue event => (if isReversal event.kind then t else { t with outbox := t.outbox ++ [⟨event, none⟩] }, .done)
  | .writeKeys keys => ({ t with signingKeys := keys, keyStates := t.keyStates ++ [keys] }, .done)
  | .completeRecovery requestId identityId => ({ t with recoveries := t.recoveries ++ [⟨requestId, identityId, t.now⟩] }, .done)
  | .write friends members guilds => ({ t with friends := friends, members := members, guilds := guilds }, .done)
  | .drain rows => (t, .settling (rows.filter (isPending t)))
  | .prune cutoff => ({ t with ledger := prunePayloads t.ledger cutoff }, .done)
  | .reverse r =>
    (t, match cfg.parseRfc3339 r.sinceText with
      | none => .answered (.error .invalidRollbackWindow)
      | some since => .signing r since)
  | .wait nanoseconds => ({ t with now := t.now + nanoseconds }, .done)

/-- the next statement of a call; nothing if it has to wait -/
def statement (cfg : Config F) (t : Tables F) (others : List (Phase F)) : Phase F → Option (Tables F × Phase F)
  | .received call => some (receive cfg t call)
  | .signing r since =>
    match requireFreshSignature cfg.verifier t.signingKeys r.identity r.message r.proof with
    | .error e => some (t, .answered (.error (.signature e)))
    | .ok () => some (t, .locking r since)
  | .locking r since =>
    if Takable (Phase.locks cfg) others (cfg.eventKey r.eventId) then some (t, .windowing r since) else none
  | .windowing r since =>
    match latestCompletedRecovery t r.identity with
    | none => some (t, .answered (.error .rollbackNoCompletedRecovery))
    | some recovery =>
      match RollbackWindow.new since recovery.completedAt with
      | .error e => some (t, .answered (.error e))
      | .ok window => some (t, .reading r recovery window)
  | .reading r recovery window =>
    match ledgerRow t r.eventId with
    | none => some (t, .answered (.error .rollbackEventNotEligible))
    | some row =>
      match ledgerEventFromRow row with
      | none => some (t, .answered (.error .database))
      | some event =>
        match extractTarget r.identity window event with
        | none => some (t, .answered (.error .rollbackEventNotEligible))
        | some target => some (t, .checking r recovery event target)
  | .checking r recovery event target => some (t, .relating r recovery event target (alreadyReversed t event.eventId))
  | .relating r recovery event target reversed => some (t, relate t r recovery event target reversed)
  | .visiting r recovery event guildId ctx =>
    some (t, .assessing r recovery event (.guild guildId) { ctx with guild := guildContext t guildId })
  | .assessing r recovery event target ctx => some (t, decidePlan r recovery event target ctx)
  | .committing r recovery event plan => some (commitReversal t r recovery event plan, .answered (.ok r.reversalId))
  | .settling rows =>
    match settleRows cfg t.now (rowEvents t rows) with
    | none => some (t, .done)
    | some entries => some ({ t with ledger := t.ledger ++ entries }, .marking rows)
  | .marking [] => some (t, .done)
  | .marking (i :: rows) =>
    some ({ t with outbox := t.outbox.modify i fun row => { row with committedAt := some t.now } }, .marking rows)
  | .done => none
  | .answered _ => none

def program (cfg : Config F) : Program (Tables F) (Phase F) (Call F) where
  start := .received
  statement := statement cfg
  aborted
    | .answered result => .answered result
    | _ => .done

/-! ## Locks -/

section

variable {cfg : Config F} {t t' : Tables F} {others : List (Phase F)} {p p' q : Phase F}

theorem locks_of_request {r : Request} (h : p.request = some r) : p.locks cfg = ⟨[], [cfg.eventKey r.eventId]⟩ := by
  simp [Phase.locks, h]

theorem locks_of_none (h : p.request = none) : p.locks cfg = .none := by
  simp [Phase.locks, h]

theorem request_receive (call : Call F) : (receive cfg t call).2.request = none := by
  cases call with
  | reverse r =>
    simp only [receive]
    split <;> rfl
  | _ => rfl

theorem request_relate (r : Request) (recovery : RecoveryRow) (event : LedgerEvent F) (target : Target) (reversed : Bool) :
    (relate t r recovery event target reversed).request = some r := by
  cases target <;> rfl

theorem decidePlan_cases (r : Request) (recovery : RecoveryRow) (event : LedgerEvent F) (target : Target) (ctx : Context) :
    (∃ e, decidePlan r recovery event target ctx = .answered (.error e)) ∨
      ∃ plan, decidePlan r recovery event target ctx = .committing r recovery event plan ∧
        (assess r.identity event target ctx).plan = some plan := by
  unfold decidePlan
  simp only
  split_ifs
  · exact .inl ⟨_, rfl⟩
  · cases hplan : (assess r.identity event target ctx).plan with
    | some plan => exact .inr ⟨plan, rfl, rfl⟩
    | none => exact .inl ⟨_, rfl⟩

/-- a statement keeps the locked request, or is over, or takes the lock where it is free -/
theorem request_statement (h : statement cfg t others p = some (t', p')) :
    p'.request = none ∨ p'.request = p.request ∨
      ∃ r, p'.request = some r ∧ Takable (Phase.locks cfg) others (cfg.eventKey r.eventId) := by
  cases p with
  | received call =>
    simp only [statement, Option.some.injEq] at h
    have hreceive : (receive cfg t call).2.request = none := request_receive call
    rw [h] at hreceive
    exact .inl hreceive
  | signing r since =>
    simp only [statement] at h
    split at h <;> cases h <;> exact .inl rfl
  | locking r since =>
    simp only [statement] at h
    split_ifs at h with hfree
    cases h
    exact .inr (.inr ⟨r, rfl, hfree⟩)
  | windowing r since =>
    simp only [statement] at h
    split at h
    · cases h; exact .inl rfl
    · split at h <;> cases h
      · exact .inl rfl
      · exact .inr (.inl rfl)
  | reading r recovery window =>
    simp only [statement] at h
    split at h
    · cases h; exact .inl rfl
    · split at h
      · cases h; exact .inl rfl
      · split at h <;> cases h
        · exact .inl rfl
        · exact .inr (.inl rfl)
  | checking r recovery event target => cases h; exact .inr (.inl rfl)
  | relating r recovery event target reversed =>
    cases h
    exact .inr (.inl (request_relate ..))
  | visiting r recovery event guildId ctx => cases h; exact .inr (.inl rfl)
  | assessing r recovery event target ctx =>
    cases h
    rcases decidePlan_cases r recovery event target ctx with ⟨e, heq⟩ | ⟨plan, heq, -⟩
    · rw [heq]; exact .inl rfl
    · rw [heq]; exact .inr (.inl rfl)
  | settling rows =>
    simp only [statement] at h
    split at h <;> cases h <;> exact .inl rfl
  | marking rows =>
    cases rows <;> cases h <;> exact .inl rfl
  | committing => cases h; exact .inl rfl
  | done | answered => cases h

/-- **The advisory lock of an event is one call's at a time** -/
theorem disciplined (cfg : Config F) : Disciplined (program cfg) (Phase.locks cfg) where
  start _ := rfl
  aborted p := by cases p <;> rfl
  statement t others p t' p' hstep q hq := by
    rcases request_statement hstep with hnone | hsame | ⟨r, hr, hfree⟩
    · rw [locks_of_none hnone]
      exact Locks.Extends.of_none _ _
    · rw [Phase.locks, hsame, ← Phase.locks]
      exact Locks.Extends.refl _ _
    · rw [locks_of_request hr]
      refine ⟨by simp, fun k hk => .inr ?_⟩
      obtain rfl := List.mem_singleton.1 hk
      exact hfree q hq

end

end Avalon.Rollback
