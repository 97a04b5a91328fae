/-
Guild membership under concurrent calls (`crates/server/src/guilds.rs`: `accept_invite`, `decline_invite`, `join_guild`,
`approve_join_request`, `leave_guild`, `remove_member`, `add_member`; `crates/indexer/src/projections/guild_rosters.rs`: `apply`),
statement by statement on PostgreSQL at READ COMMITTED, with the local indexer.

A call first checks what it may do, outside of a transaction. In the transaction it resolves the invite or the join request,
reads whether the identity is a member, takes the identity-chain lock of the actor, writes the roster, and commits the event with
the write. The read takes no lock, and comes before the chain lock: what it saw may no longer be so at the write. The update
of an invite does not ask whether the invite is still pending, that of a join request does.

The `profile.updated` event of `leave_guild`, which takes the same chain lock first, is left out.

Results:
- `invariant`: what each statement keeps, while invites are pending when they are accepted, and roster writes find what their
  transaction read.
- `membership_alternates`: in every run in which this is so, additions and removals of each member alternate, no invite or join
  request adds twice, and none that was declined adds.
- `declined_invite_adds`: an invite that was declined before it was accepted adds a member, and two joins at once add twice.
-/
import Mathlib.Tactic
import Avalon.Core.Interleaving
import Avalon.Protocol.Events
import Avalon.Protocol.IdentityId
import Avalon.Server.SignatureGate
import Avalon.Server.GuildRoles
import Avalon.Server.GuildRoleRefs

namespace Avalon.GuildMembership

open Avalon.Events Avalon.Identity Avalon.SignatureGate Avalon.Guardians Avalon.Guilds
open Avalon.GuildRoleRefs (upsertMember refuseIf_eq_ok)
open Interleaving Fallible

/-! ## Tables -/

inductive JoinPolicy where
  | inviteOnly
  | open
deriving DecidableEq

/-- what became of an invite -/
inductive Outcome where
  | accepted
  | declined
deriving DecidableEq

structure InviteRow where
  id : Uuid
  guildId : Uuid
  /-- the column "to" -/
  invited : IdentityId
  /-- none while `resolved_at` is null -/
  outcome : Option Outcome
deriving DecidableEq

inductive RequestStatus where
  | pending
  | approved
  | rejected
deriving DecidableEq

structure JoinRequestRow where
  id : Uuid
  guildId : Uuid
  applicant : IdentityId
  status : RequestStatus
deriving DecidableEq

/-- what leads to an addition -/
inductive Via where
  | invite (id : Uuid)
  | join
  | joinRequest (id : Uuid)
deriving DecidableEq

/-- what a transaction leaves: `guild.member_added`, `guild.member_removed`, or a declined invite -/
inductive Event where
  | added (guildId : Uuid) (identityId : IdentityId) (via : Via)
  | removed (guildId : Uuid) (identityId : IdentityId)
  | declined (inviteId : Uuid)
deriving DecidableEq

/-- what is committed, with the events in commit order -/
structure Tables where
  db : Db
  joinPolicy : Uuid → JoinPolicy
  invites : List InviteRow
  joinRequests : List JoinRequestRow
  log : List Event

inductive Call where
  | acceptInvite (actor : IdentityId) (guildId inviteId : Uuid)
  | declineInvite (actor : IdentityId) (guildId inviteId : Uuid)
  | joinGuild (actor : IdentityId) (guildId : Uuid)
  | approveJoinRequest (actor : IdentityId) (guildId requestId : Uuid)
  | leaveGuild (actor : IdentityId) (guildId : Uuid)
  | removeMember (actor : IdentityId) (guildId : Uuid) (identityId : IdentityId)

/-- what `add_member` is called with -/
structure Addition where
  guildId : Uuid
  identityId : IdentityId
  actor : IdentityId
  via : Via
deriving DecidableEq

structure Removal where
  guildId : Uuid
  identityId : IdentityId
  actor : IdentityId
deriving DecidableEq

/-- how far a call has come -/
inductive Phase where
  | received (call : Call)
  | accepting (actor : IdentityId) (guildId inviteId : Uuid)
  | declining (inviteId : Uuid)
  | approving (actor : IdentityId) (guildId requestId : Uuid) (applicant : IdentityId)
  | adding (a : Addition)
  | addChecked (a : Addition)
  | addChained (a : Addition)
  | added (a : Addition)
  | removing (r : Removal)
  | removeChecked (r : Removal)
  | removeChained (r : Removal)
  /-- with whether the deletion found the row -/
  | removed (r : Removal) (found : Bool)
  | ended

namespace Via

/-- the invite or join request, which is used once -/
def source : Via → Option Via
  | join => none
  | via => some via

end Via

namespace Phase

/-- the addition of a transaction that has resolved its invite or join request -/
def addition : Phase → Option Addition
  | adding a | addChecked a | addChained a | added a => some a
  | _ => none

/-- the invite or join request whose row this transaction has updated -/
def holdsSource (p : Phase) : Option Via := p.addition.bind fun a => a.via.source

/-- the identity whose chain this transaction has locked -/
def holdsChain : Phase → Option IdentityId
  | addChained a | added a => some a.actor
  | removeChained r | removed r _ => some r.actor
  | _ => none

/-- the member whose row this transaction has written -/
def holdsMember : Phase → Option (Uuid × IdentityId)
  | added a => some (a.guildId, a.identityId)
  | removed r true => some (r.guildId, r.identityId)
  | _ => none

end Phase

/-! ## Statements -/

def canLeave (actor guildOwner : IdentityId) : Bool := decide (actor ≠ guildOwner)

def canBeRemoved (target guildOwner : IdentityId) : Bool := decide (target ≠ guildOwner)

/-- a member with an elevated role is removed with `manage_roles` only -/
def canRemoveMember (guildOwner actor : IdentityId) (actorPermissions : List String) (targetRoleIndex : ℤ) : Bool :=
  if ¬ hasGuildPermission guildOwner actor actorPermissions .manageMembers then false
  else if targetRoleIndex = memberRoleIndex then true
  else decide (actor = guildOwner) || hasGuildPermission guildOwner actor actorPermissions .manageRoles

def canJoinDirectly (joinPolicy : JoinPolicy) : Bool := decide (joinPolicy = .open)

def isMember (db : Db) (guildId : Uuid) (identityId : IdentityId) : Bool := (memberOf db guildId identityId).isSome

/-- the invited identity, while the invite is pending -/
def fetchPendingInvite (t : Tables) (guildId inviteId : Uuid) : Option IdentityId :=
  (t.invites.find? fun r => decide (r.id = inviteId ∧ r.guildId = guildId ∧ r.outcome = none)).map InviteRow.invited

/-- the applicant, while the join request is pending -/
def fetchPendingJoinRequest (t : Tables) (guildId requestId : Uuid) : Option IdentityId :=
  (t.joinRequests.find? fun r => decide (r.id = requestId ∧ r.guildId = guildId ∧ r.status = .pending)).map
    JoinRequestRow.applicant

def judgeLeave (db : Db) (actor : IdentityId) (guildId : Uuid) : Except AppError Unit := do
  let guildOwner ← fetchGuild db guildId
  refuseIf (¬ canLeave actor guildOwner) .ownerMustTransferBeforeLeaving

def judgeRemove (db : Db) (actor : IdentityId) (guildId : Uuid) (identityId : IdentityId) : Except AppError Unit := do
  let guildOwner ← fetchGuild db guildId
  refuseIf (¬ canBeRemoved identityId guildOwner) .cannotRemoveOwner
  match memberOf db guildId identityId with
  | none => .error .notGuildMember
  | some target =>
    refuseIf (¬ canRemoveMember guildOwner actor (actorRolePermissions db guildId actor) target.roleIndex) .missingGuildPermission

def judgeAccept (t : Tables) (actor : IdentityId) (guildId inviteId : Uuid) : Except AppError Unit :=
  match fetchPendingInvite t guildId inviteId with
  | none => .error .guildInviteNotFound
  | some invited => refuseIf (actor ≠ invited) .guildInviteNotFound

def judgeJoin (t : Tables) (guildId : Uuid) : Except AppError Unit := do
  let _ ← fetchGuild t.db guildId
  refuseIf (¬ canJoinDirectly (t.joinPolicy guildId)) .guildNotOpen

/-- what `approve_join_request` checks before its transaction; the applicant -/
def judgeApprove (t : Tables) (actor : IdentityId) (guildId requestId : Uuid) : Except AppError IdentityId := do
  let guildOwner ← fetchGuild t.db guildId
  refuseIf (¬ hasGuildPermission guildOwner actor (actorRolePermissions t.db guildId actor) .manageMembers) .missingGuildPermission
  match fetchPendingJoinRequest t guildId requestId with
  | none => .error .guildJoinRequestNotFound
  | some applicant => .ok applicant

/-- UPDATE guild_invites SET resolved_at, outcome WHERE id -/
def resolveInvite (invites : List InviteRow) (inviteId : Uuid) (outcome : Outcome) : List InviteRow :=
  invites.map fun r => if r.id = inviteId then { r with outcome := some outcome } else r

/-- UPDATE guild_join_requests SET status WHERE id AND status = 'pending' -/
def approveRequest (requests : List JoinRequestRow) (requestId : Uuid) : List JoinRequestRow :=
  requests.map fun r => if r.id = requestId ∧ r.status = .pending then { r with status := .approved } else r

/-- DELETE FROM indexer_guild_members -/
def deleteMember (db : Db) (guildId : Uuid) (identityId : IdentityId) : Db :=
  { db with members := db.members.filter fun m => decide (¬ (m.guildId = guildId ∧ m.identityId = identityId)) }

/-- the commit of an addition -/
def commitAddition (t : Tables) (a : Addition) : Tables where
  db := upsertMember a.guildId t.db a.identityId memberRoleIndex
  joinPolicy := t.joinPolicy
  invites := match a.via with
    | .invite id => resolveInvite t.invites id .accepted
    | _ => t.invites
  joinRequests := match a.via with
    | .joinRequest id => approveRequest t.joinRequests id
    | _ => t.joinRequests
  log := t.log ++ [.added a.guildId a.identityId a.via]

/-- the commit of a removal -/
def commitRemoval (t : Tables) (r : Removal) (found : Bool) : Tables :=
  { t with
    db := if found then deleteMember t.db r.guildId r.identityId else t.db
    log := t.log ++ [.removed r.guildId r.identityId] }

/-- a declined invite, in a statement of its own -/
def commitDecline (t : Tables) (inviteId : Uuid) : Tables :=
  { t with
    invites := resolveInvite t.invites inviteId .declined
    log := t.log ++ [.declined inviteId] }

/-- where a call goes after a check -/
def next (result : Except AppError Unit) (p : Phase) : Phase :=
  match result with
  | .ok () => p
  | .error _ => .ended

/-- the next statement of a call; nothing if it has to wait -/
def statement (t : Tables) (others : List Phase) : Phase → Option (Tables × Phase)
  | .received (.acceptInvite actor guildId inviteId) =>
    some (t, next (judgeAccept t actor guildId inviteId) (.accepting actor guildId inviteId))
  | .received (.declineInvite actor guildId inviteId) =>
    some (t, next (judgeAccept t actor guildId inviteId) (.declining inviteId))
  | .received (.joinGuild actor guildId) =>
    some (t, next (judgeJoin t guildId) (.adding ⟨guildId, actor, actor, .join⟩))
  | .received (.approveJoinRequest actor guildId requestId) =>
    match judgeApprove t actor guildId requestId with
    | .ok applicant => some (t, .approving actor guildId requestId applicant)
    | .error _ => some (t, .ended)
  | .received (.leaveGuild actor guildId) => some (t, next (judgeLeave t.db actor guildId) (.removing ⟨guildId, actor, actor⟩))
  | .received (.removeMember actor guildId identityId) =>
    some (t, next (judgeRemove t.db actor guildId identityId) (.removing ⟨guildId, identityId, actor⟩))
  -- the invite is not asked for again, only its row
  | .accepting actor guildId inviteId =>
    if others.any fun p => decide (p.holdsSource = some (.invite inviteId)) then none
    else some (t, next (refuseIf (¬ ∃ r ∈ t.invites, r.id = inviteId) .guildInviteNotFound)
      (.adding ⟨guildId, actor, actor, .invite inviteId⟩))
  | .declining inviteId =>
    if others.any fun p => decide (p.holdsSource = some (.invite inviteId)) then none
    else some (commitDecline t inviteId, .ended)
  | .approving actor guildId requestId applicant =>
    if others.any fun p => decide (p.holdsSource = some (.joinRequest requestId)) then none
    else some (t, next (refuseIf (¬ ∃ r ∈ t.joinRequests, r.id = requestId ∧ r.status = .pending) .guildJoinRequestNotFound)
      (.adding ⟨guildId, applicant, actor, .joinRequest requestId⟩))
  -- `is_member`, in the transaction
  | .adding a => some (t, next (refuseIf (isMember t.db a.guildId a.identityId) .alreadyGuildMember) (.addChecked a))
  | .addChecked a =>
    if others.any fun p => decide (p.holdsChain = some a.actor) then none else some (t, .addChained a)
  | .addChained a =>
    if others.any fun p => decide (p.holdsMember = some (a.guildId, a.identityId)) then none else some (t, .added a)
  | .added a => some (commitAddition t a, .ended)
  | .removing r => some (t, next (refuseIf (¬ isMember t.db r.guildId r.identityId) .notGuildMember) (.removeChecked r))
  | .removeChecked r =>
    if others.any fun p => decide (p.holdsChain = some r.actor) then none else some (t, .removeChained r)
  -- the deletion waits for a row that it sees, and takes no row that is not committed
  | .removeChained r =>
    if isMember t.db r.guildId r.identityId ∧ others.any (fun p => decide (p.holdsMember = some (r.guildId, r.identityId))) then none
    else some (t, .removed r (isMember t.db r.guildId r.identityId))
  | .removed r found => some (commitRemoval t r found, .ended)
  | .ended => none

def program : Program Tables Phase Call where
  start := .received
  statement := statement
  aborted _ := .ended

/-! ## What should hold, and when -/

namespace Event

/-- whether the event adds or removes this member, if it does either -/
def changes (guildId : Uuid) (identityId : IdentityId) : Event → Option Bool
  | added g i _ => if g = guildId ∧ i = identityId then some true else none
  | removed g i => if g = guildId ∧ i = identityId then some false else none
  | declined _ => none

/-- the invite or join request that the event adds by -/
def addsBy : Event → Option Via
  | added _ _ via => via.source
  | _ => none

/-- the invite or join request that the event uses up -/
def closes : Event → Option Via
  | added _ _ via => via.source
  | removed _ _ => none
  | declined id => some (.invite id)

end Event

/-- the additions (true) and removals (false) of a member -/
def history (guildId : Uuid) (identityId : IdentityId) (log : List Event) : List Bool :=
  log.filterMap (Event.changes guildId identityId)

/-- additions and removals alternate, from one membership to another -/
def Alternates : Bool → List Bool → Bool → Prop
  | now, [], last => now = last
  | now, b :: rest, last => b = !now ∧ Alternates b rest last

instance decidableAlternates : (now : Bool) → (bs : List Bool) → (last : Bool) → Decidable (Alternates now bs last)
  | now, [], last => inferInstanceAs (Decidable (now = last))
  | now, b :: rest, last =>
    have := decidableAlternates b rest last
    inferInstanceAs (Decidable (b = !now ∧ Alternates b rest last))

/-- a second event does not add by what the first one has used up -/
def Spares (first second : Event) : Prop := ∀ via ∈ first.closes, second.addsBy ≠ some via

instance (first second : Event) : Decidable (Spares first second) := inferInstanceAs (Decidable (∀ via ∈ first.closes, _))

/-- what is to lead to an addition is a pending invite or join request -/
def Pending (t : Tables) : Via → Prop
  | .invite id => ∃ r ∈ t.invites, r.id = id ∧ r.outcome = none
  | .join => False
  | .joinRequest id => ∃ r ∈ t.joinRequests, r.id = id ∧ r.status = .pending

instance (t : Tables) : (via : Via) → Decidable (Pending t via)
  | .invite id => inferInstanceAs (Decidable (∃ r ∈ t.invites, r.id = id ∧ r.outcome = none))
  | .join => inferInstanceAs (Decidable False)
  | .joinRequest id => inferInstanceAs (Decidable (∃ r ∈ t.joinRequests, r.id = id ∧ r.status = .pending))

/-- the condition: an invite is pending when its update runs, a member is absent when it is added, and present when it is
removed -/
def Current (t : Tables) (_others : List Phase) : Phase → Prop
  | .accepting _ _ inviteId => Pending t (.invite inviteId)
  | .addChained a => isMember t.db a.guildId a.identityId = false
  | .removeChained r => isMember t.db r.guildId r.identityId = true
  | _ => True

instance (t : Tables) (others : List Phase) : (p : Phase) → Decidable (Current t others p)
  | .accepting _ _ inviteId => inferInstanceAs (Decidable (Pending t (.invite inviteId)))
  | .addChained a => inferInstanceAs (Decidable (isMember t.db a.guildId a.identityId = false))
  | .removeChained r => inferInstanceAs (Decidable (isMember t.db r.guildId r.identityId = true))
  | .received _ | .declining _ | .approving _ _ _ _ | .adding _ | .addChecked _ | .added _ | .removing _ | .removeChecked _
  | .removed _ _ | .ended => inferInstanceAs (Decidable True)

/-! ## The invariant -/

/-- the history fits what is committed: it alternates, uses every invite and join request up once, and none that is pending -/
structure Ok (before : Db) (t : Tables) : Prop where
  alternates : ∀ guildId identityId,
    Alternates (isMember before guildId identityId) (history guildId identityId t.log) (isMember t.db guildId identityId)
  once : t.log.Pairwise Spares
  fresh : ∀ via, Pending t via → ∀ e ∈ t.log, e.closes ≠ some via

/-- what a transaction has resolved is pending to the others, and what it has written was as its event says -/
structure Good (t : Tables) (p : Phase) : Prop where
  source : ∀ via ∈ p.holdsSource, Pending t via
  added : ∀ a, p = .added a → isMember t.db a.guildId a.identityId = false
  removed : ∀ r found, p = .removed r found → found = true ∧ isMember t.db r.guildId r.identityId = true

/-- no two transactions hold one row -/
structure Apart (p q : Phase) : Prop where
  source : ∀ via ∈ p.holdsSource, q.holdsSource ≠ some via
  member : ∀ key ∈ p.holdsMember, q.holdsMember ≠ some key

theorem Apart.symm {p q : Phase} (h : Apart p q) : Apart q p :=
  ⟨fun via hq hp => h.source via hp hq, fun key hq hp => h.member key hp hq⟩

theorem apart_of_none {p q : Phase} (hs : p.holdsSource = none) (hm : p.holdsMember = none) : Apart p q := by
  constructor <;> simp [hs, hm]

/-! ## What the commits leave -/

theorem alternates_snoc {now b : Bool} {bs : List Bool} (h : Alternates now bs (!b)) : Alternates now (bs ++ [b]) b := by
  induction bs generalizing now with
  | nil => exact ⟨by simp [show now = !b from h], rfl⟩
  | cons c bs ih => exact ⟨h.1, ih h.2⟩

@[simp] theorem history_append {guildId : Uuid} {identityId : IdentityId} {log : List Event} {e : Event} :
    history guildId identityId (log ++ [e]) = history guildId identityId log ++ (e.changes guildId identityId).toList := by
  cases h : e.changes guildId identityId <;> simp [history, h]

theorem isMember_iff {db : Db} {guildId : Uuid} {identityId : IdentityId} :
    isMember db guildId identityId = true ↔ ∃ m ∈ db.members, m.guildId = guildId ∧ m.identityId = identityId := by
  simp [isMember, memberOf]

theorem isMember_upsertMember {db : Db} {guildId g : Uuid} {identityId i : IdentityId} {roleIndex : ℤ} :
    isMember (upsertMember guildId db identityId roleIndex) g i = true ↔
      (guildId = g ∧ identityId = i) ∨ isMember db g i = true := by
  simp only [isMember_iff, upsertMember, List.mem_append, List.mem_filter, List.mem_singleton, decide_eq_true_eq]
  constructor
  · rintro ⟨m, ⟨hm, -⟩ | rfl, hkey⟩
    · exact Or.inr ⟨m, hm, hkey⟩
    · exact Or.inl hkey
  · rintro (hkey | ⟨m, hm, rfl, rfl⟩)
    · exact ⟨_, Or.inr rfl, hkey⟩
    · by_cases hsame : m.guildId = guildId ∧ m.identityId = identityId
      · exact ⟨_, Or.inr rfl, hsame.1.symm, hsame.2.symm⟩
      · exact ⟨m, Or.inl ⟨hm, hsame⟩, rfl, rfl⟩

theorem isMember_deleteMember {db : Db} {guildId g : Uuid} {identityId i : IdentityId} :
    isMember (deleteMember db guildId identityId) g i = true ↔ ¬ (guildId = g ∧ identityId = i) ∧ isMember db g i = true := by
  simp only [isMember_iff, deleteMember, List.mem_filter, decide_eq_true_eq]
  constructor
  · rintro ⟨m, ⟨hm, hne⟩, rfl, rfl⟩
    exact ⟨fun h => hne ⟨h.1.symm, h.2.symm⟩, m, hm, rfl, rfl⟩
  · rintro ⟨hne, m, hm, rfl, rfl⟩
    exact ⟨m, ⟨hm, fun h => hne ⟨h.1.symm, h.2.symm⟩⟩, rfl, rfl⟩

theorem pending_resolveInvite {invites : List InviteRow} {inviteId id : Uuid} {outcome : Outcome} :
    (∃ r ∈ resolveInvite invites inviteId outcome, r.id = id ∧ r.outcome = none) ↔
      (∃ r ∈ invites, r.id = id ∧ r.outcome = none) ∧ inviteId ≠ id := by
  simp only [resolveInvite, List.mem_map]
  constructor
  · rintro ⟨_, ⟨r, hr, rfl⟩, hid, hpending⟩
    by_cases hsame : r.id = inviteId
    · simp [hsame] at hpending
    · rw [if_neg hsame] at hid hpending
      exact ⟨⟨r, hr, hid, hpending⟩, fun h => hsame (hid.trans h.symm)⟩
  · rintro ⟨⟨r, hr, rfl, hpending⟩, hne⟩
    exact ⟨r, ⟨r, hr, if_neg hne.symm⟩, rfl, hpending⟩

theorem pending_approveRequest {requests : List JoinRequestRow} {requestId id : Uuid} :
    (∃ r ∈ approveRequest requests requestId, r.id = id ∧ r.status = .pending) ↔
      (∃ r ∈ requests, r.id = id ∧ r.status = .pending) ∧ requestId ≠ id := by
  simp only [approveRequest, List.mem_map]
  constructor
  · rintro ⟨_, ⟨r, hr, rfl⟩, hid, hpending⟩
    by_cases hsame : r.id = requestId ∧ r.status = .pending
    · simp [hsame] at hpending
    · rw [if_neg hsame] at hid hpending
      exact ⟨⟨r, hr, hid, hpending⟩, fun h => hsame ⟨hid.trans h.symm, hpending⟩⟩
  · rintro ⟨⟨r, hr, rfl, hpending⟩, hne⟩
    exact ⟨r, ⟨r, hr, if_neg fun h => hne h.1.symm⟩, rfl, hpending⟩

theorem pending_commitAddition {t : Tables} {a : Addition} {via : Via} :
    Pending (commitAddition t a) via ↔ Pending t via ∧ a.via.source ≠ some via := by
  cases via with
  | invite id =>
    cases hvia : a.via <;> simp [Pending, commitAddition, hvia, Via.source, pending_resolveInvite]
  | join => simp [Pending]
  | joinRequest id =>
    cases hvia : a.via <;> simp [Pending, commitAddition, hvia, Via.source, pending_approveRequest]

theorem pending_commitDecline {t : Tables} {inviteId : Uuid} {via : Via} :
    Pending (commitDecline t inviteId) via ↔ Pending t via ∧ .invite inviteId ≠ via := by
  cases via with
  | invite id => simp [Pending, commitDecline, pending_resolveInvite]
  | join => simp [Pending]
  | joinRequest id => simp [Pending, commitDecline]

/-- what a commit does: it records one event, which says how the roster changes and what is no longer pending -/
structure Commits (t t' : Tables) (e : Event) : Prop where
  log : t'.log = t.log ++ [e]
  changed : ∀ guildId identityId, ∀ b ∈ e.changes guildId identityId,
    isMember t.db guildId identityId = !b ∧ isMember t'.db guildId identityId = b
  kept : ∀ guildId identityId, e.changes guildId identityId = none →
    isMember t'.db guildId identityId = isMember t.db guildId identityId
  source : ∀ via ∈ e.addsBy, Pending t via
  pending : ∀ via, Pending t' via ↔ Pending t via ∧ e.closes ≠ some via

theorem Ok.commit {before : Db} {t t' : Tables} {e : Event} (ht : Ok before t) (h : Commits t t' e) : Ok before t' where
  alternates guildId identityId := by
    have hold := ht.alternates guildId identityId
    rw [h.log, history_append]
    cases hchanges : e.changes guildId identityId with
    | none => simpa [h.kept guildId identityId hchanges] using hold
    | some b =>
      obtain ⟨hbefore, hafter⟩ := h.changed guildId identityId b hchanges
      rw [hafter]
      exact alternates_snoc (hbefore ▸ hold)
  once := by
    rw [h.log]
    refine List.pairwise_append.2 ⟨ht.once, List.pairwise_singleton .., fun first hfirst e' he' => ?_⟩
    rw [List.mem_singleton.1 he']
    -- what the event adds by is pending, so that no event has used it up
    intro via hcloses hadds
    exact ht.fresh via (h.source via hadds) first hfirst hcloses
  fresh via hvia e' he' := by
    obtain ⟨hpending, hne⟩ := (h.pending via).1 hvia
    rw [h.log, List.mem_append, List.mem_singleton] at he'
    rcases he' with he' | rfl
    · exact ht.fresh via hpending e' he'
    · exact hne

/-- another call after a commit -/
theorem Good.commit {t t' : Tables} {e : Event} {q : Phase} (hq : Good t q) (h : Commits t t' e)
    (hsource : ∀ via ∈ e.closes, q.holdsSource ≠ some via)
    (hmember : ∀ guildId identityId, q.holdsMember = some (guildId, identityId) → e.changes guildId identityId = none) :
    Good t' q where
  source via hvia := (h.pending via).2 ⟨hq.source via hvia, fun hcloses => hsource via hcloses hvia⟩
  added a ha := by
    subst ha
    rw [h.kept _ _ (hmember _ _ rfl)]
    exact hq.added a rfl
  removed r found hr := by
    subst hr
    obtain ⟨rfl, hpresent⟩ := hq.removed r found rfl
    rw [h.kept _ _ (hmember _ _ rfl)]
    exact ⟨rfl, hpresent⟩

theorem commits_addition {t : Tables} {a : Addition} (hsource : ∀ via ∈ a.via.source, Pending t via)
    (habsent : isMember t.db a.guildId a.identityId = false) :
    Commits t (commitAddition t a) (.added a.guildId a.identityId a.via) where
  log := rfl
  changed guildId identityId b hb := by
    simp only [Event.changes, Option.mem_def, Option.ite_none_right_eq_some, Option.some.injEq] at hb
    obtain ⟨⟨rfl, rfl⟩, rfl⟩ := hb
    exact ⟨habsent, isMember_upsertMember.2 (Or.inl ⟨rfl, rfl⟩)⟩
  kept guildId identityId hnone := by
    simp only [Event.changes, ite_eq_right_iff, reduceCtorEq, imp_false] at hnone
    rw [Bool.eq_iff_iff]
    simp [commitAddition, isMember_upsertMember, hnone]
  source := hsource
  pending via := pending_commitAddition

theorem commits_removal {t : Tables} {r : Removal} (hpresent : isMember t.db r.guildId r.identityId = true) :
    Commits t (commitRemoval t r true) (.removed r.guildId r.identityId) where
  log := rfl
  changed guildId identityId b hb := by
    simp only [Event.changes, Option.mem_def, Option.ite_none_right_eq_some, Option.some.injEq] at hb
    obtain ⟨⟨rfl, rfl⟩, rfl⟩ := hb
    refine ⟨hpresent, Bool.eq_false_iff.2 fun h => (isMember_deleteMember.1 h).1 ⟨rfl, rfl⟩⟩
  kept guildId identityId hnone := by
    simp only [Event.changes, ite_eq_right_iff, reduceCtorEq, imp_false] at hnone
    rw [Bool.eq_iff_iff]
    simp [commitRemoval, isMember_deleteMember, hnone]
  source via hvia := by cases hvia
  pending via := by
    constructor
    · exact fun h => ⟨h, by simp [Event.closes]⟩
    · exact fun h => h.1

theorem commits_decline {t : Tables} {inviteId : Uuid} : Commits t (commitDecline t inviteId) (.declined inviteId) where
  log := rfl
  changed guildId identityId b hb := by cases hb
  kept guildId identityId _ := rfl
  source via hvia := by cases hvia
  pending via := by simp [pending_commitDecline, Event.closes]

/-! ## What each statement keeps -/

theorem good_of_none {t : Tables} {p : Phase} (hs : p.holdsSource = none) (hm : p.holdsMember = none)
    (hr : ∀ r found, p ≠ .removed r found) : Good t p where
  source via hvia := by simp [hs] at hvia
  added a ha := by simp [ha, Phase.holdsMember] at hm
  removed r found h := absurd h (hr r found)

theorem good_ended {t : Tables} : Good t .ended := good_of_none rfl rfl (by simp)

/-- a call that still holds what it held, and no member's row -/
theorem good_of_source {t : Tables} {p : Phase} (hs : ∀ via ∈ p.holdsSource, Pending t via) (hm : p.holdsMember = none)
    (hr : ∀ r found, p ≠ .removed r found) : Good t p where
  source := hs
  added a ha := by simp [ha, Phase.holdsMember] at hm
  removed r found h := absurd h (hr r found)

/-- a statement that leaves the tables as they are -/
theorem keeps_tables {before : Db} {t : Tables} {others : List Phase} {p p' : Phase} (ht : Ok before t)
    (hothers : ∀ q ∈ others, Good t q ∧ Apart p q) (hgood : Good t p') (hapart : ∀ q ∈ others, Apart p q → Apart p' q) :
    Ok before t ∧ Good t p' ∧ ∀ q ∈ others, Good t q ∧ Apart p' q :=
  ⟨ht, hgood, fun q hq => ⟨(hothers q hq).1, hapart q hq (hothers q hq).2⟩⟩

/-- a check that may end the call -/
theorem keeps_next {before : Db} {t : Tables} {others : List Phase} {p p' : Phase} {result : Except AppError Unit}
    (ht : Ok before t) (hothers : ∀ q ∈ others, Good t q ∧ Apart p q) (hgood : result = .ok () → Good t p')
    (hapart : result = .ok () → ∀ q ∈ others, Apart p q → Apart p' q) :
    Ok before t ∧ Good t (next result p') ∧ ∀ q ∈ others, Good t q ∧ Apart (next result p') q := by
  cases result with
  | ok => exact keeps_tables ht hothers (hgood rfl) (hapart rfl)
  | error e => exact keeps_tables ht hothers good_ended fun q _ _ => apart_of_none rfl rfl

/-- a check of a call that holds nothing before and after it -/
theorem keeps_free {before : Db} {t : Tables} {others : List Phase} {p p' : Phase} {result : Except AppError Unit}
    (ht : Ok before t) (hothers : ∀ q ∈ others, Good t q ∧ Apart p q) (hs : p'.holdsSource = none) (hm : p'.holdsMember = none)
    (hr : ∀ r found, p' ≠ .removed r found) :
    Ok before t ∧ Good t (next result p') ∧ ∀ q ∈ others, Good t q ∧ Apart (next result p') q :=
  keeps_next ht hothers (fun _ => good_of_none hs hm hr) fun _ _ _ _ => apart_of_none hs hm

/-- a commit, after which the call has ended -/
theorem keeps_commit {before : Db} {t t' : Tables} {others : List Phase} {e : Event} (ht : Ok before t) (h : Commits t t' e)
    (hothers : ∀ q ∈ others, Good t q ∧ (∀ via ∈ e.closes, q.holdsSource ≠ some via) ∧
      ∀ guildId identityId, q.holdsMember = some (guildId, identityId) → e.changes guildId identityId = none) :
    Ok before t' ∧ Good t' .ended ∧ ∀ q ∈ others, Good t' q ∧ Apart .ended q := by
  refine ⟨ht.commit h, good_ended, fun q hq => ?_⟩
  obtain ⟨hgood, hsource, hmember⟩ := hothers q hq
  exact ⟨hgood.commit h hsource hmember, apart_of_none rfl rfl⟩

/-- no other call holds the row -/
theorem not_held {others : List Phase} {q : Phase} {α : Type} [DecidableEq α] {holds : Phase → Option α} {row : α}
    (hwait : ¬ (others.any fun p => decide (holds p = some row)) = true) (hq : q ∈ others) : holds q ≠ some row := by
  intro h
  exact hwait (List.any_eq_true.2 ⟨q, hq, by simpa using h⟩)

/-- **What each statement keeps**, while invites are pending when they are accepted, and roster writes find what was read -/
theorem invariant {before : Db} : Invariant program Current (Ok before) Good Apart where
  symm p q h := h.symm
  start t call _ := ⟨good_of_none rfl rfl (fun r found h => by cases h), fun q => apart_of_none rfl rfl⟩
  aborted t p _ _ := ⟨good_ended, fun q _ => apart_of_none rfl rfl⟩
  statement t others p t' p' ht hp hothers hmeets h := by
    simp only [program] at h
    cases p with
    | received call =>
      cases call with
      | acceptInvite actor guildId inviteId =>
        cases h
        exact keeps_free ht hothers rfl rfl (by simp)
      | declineInvite actor guildId inviteId =>
        cases h
        exact keeps_free ht hothers rfl rfl (by simp)
      | joinGuild actor guildId =>
        cases h
        exact keeps_free ht hothers rfl rfl (by simp)
      | approveJoinRequest actor guildId requestId =>
        simp only [statement] at h
        split at h
        · cases h
          exact keeps_tables ht hothers (good_of_none rfl rfl (by simp)) fun q _ _ => apart_of_none rfl rfl
        · cases h
          exact keeps_tables ht hothers good_ended fun q _ _ => apart_of_none rfl rfl
      | leaveGuild actor guildId =>
        cases h
        exact keeps_free ht hothers rfl rfl (by simp)
      | removeMember actor guildId identityId =>
        cases h
        exact keeps_free ht hothers rfl rfl (by simp)
    | accepting actor guildId inviteId =>
      simp only [statement] at h
      split_ifs at h with hwait
      cases h
      refine keeps_next ht hothers (fun _ => good_of_source ?_ rfl (by simp)) fun _ q hq _ => ⟨?_, by simp [Phase.holdsMember]⟩
      · intro via hvia
        cases hvia
        exact hmeets
      · intro via hvia
        cases hvia
        exact not_held hwait hq
    | declining inviteId =>
      simp only [statement] at h
      split_ifs at h with hwait
      cases h
      refine keeps_commit ht commits_decline fun q hq => ⟨(hothers q hq).1, ?_, fun _ _ _ => rfl⟩
      intro via hvia
      cases hvia
      exact not_held hwait hq
    | approving actor guildId requestId applicant =>
      simp only [statement] at h
      split_ifs at h with hwait
      cases h
      refine keeps_next ht hothers (fun hresult => good_of_source ?_ rfl (by simp)) fun _ q hq _ =>
        ⟨?_, by simp [Phase.holdsMember]⟩
      · intro via hvia
        cases hvia
        exact not_not.1 (refuseIf_eq_ok.1 hresult)
      · intro via hvia
        cases hvia
        exact not_held hwait hq
    | adding a =>
      cases h
      exact keeps_next ht hothers (fun _ => good_of_source hp.source rfl (by simp)) fun _ q _ hapart =>
        ⟨hapart.source, by simp [Phase.holdsMember]⟩
    | addChecked a =>
      simp only [statement] at h
      split_ifs at h with hwait
      cases h
      exact keeps_tables ht hothers (good_of_source hp.source rfl (by simp)) fun q _ hapart =>
        ⟨hapart.source, by simp [Phase.holdsMember]⟩
    | addChained a =>
      simp only [statement] at h
      split_ifs at h with hwait
      cases h
      refine keeps_tables ht hothers ⟨hp.source, ?_, by simp⟩ fun q hq hapart => ⟨hapart.source, ?_⟩
      · rintro a' ha'
        cases ha'
        exact hmeets
      · intro key hkey
        cases hkey
        exact not_held hwait hq
    | added a =>
      cases h
      refine keeps_commit ht (commits_addition hp.source (hp.added a rfl)) fun q hq => ?_
      obtain ⟨hgood, hapart⟩ := hothers q hq
      refine ⟨hgood, hapart.source, fun guildId identityId hheld => if_neg ?_⟩
      rintro ⟨rfl, rfl⟩
      exact hapart.member _ rfl hheld
    | removing r =>
      cases h
      exact keeps_free ht hothers rfl rfl (by simp)
    | removeChecked r =>
      simp only [statement] at h
      split_ifs at h with hwait
      cases h
      exact keeps_tables ht hothers (good_of_none rfl rfl (by simp)) fun q _ _ => apart_of_none rfl rfl
    | removeChained r =>
      have hpresent : isMember t.db r.guildId r.identityId = true := hmeets
      simp only [statement, hpresent, true_and] at h
      split_ifs at h with hwait
      cases h
      refine keeps_tables ht hothers ⟨by simp [Phase.holdsSource, Phase.addition], by simp, ?_⟩ fun q hq _ =>
        ⟨by simp [Phase.holdsSource, Phase.addition], ?_⟩
      · rintro r' found hr'
        cases hr'
        exact ⟨rfl, hpresent⟩
      · intro key hkey
        cases hkey
        exact not_held hwait hq
    | removed r found =>
      cases h
      obtain ⟨rfl, hpresent⟩ := hp.removed r found rfl
      refine keeps_commit ht (commits_removal hpresent) fun q hq => ?_
      obtain ⟨hgood, hapart⟩ := hothers q hq
      refine ⟨hgood, fun via hvia => (by cases hvia), fun guildId identityId hheld => if_neg ?_⟩
      rintro ⟨rfl, rfl⟩
      exact hapart.member _ rfl hheld
    | ended => cases h

/-- **Membership alternates.** In every run of these calls, with calls and rollbacks in any order, in which an invite is pending
whenever its update runs, and a member is absent whenever it is added and present whenever it is removed: for every guild and
identity the committed additions and removals alternate, an addition first if it was not a member, up to what the roster says;
and no event adds by an invite or a join request that an earlier event has added by or declined. -/
theorem membership_alternates {t : Tables} (hlog : t.log = []) {ops : List (Op Call)}
    (halong : Along program Current ⟨t, []⟩ ops) :
    (∀ guildId identityId, Alternates (isMember t.db guildId identityId)
      (history guildId identityId (run program ⟨t, []⟩ ops).tables.log)
      (isMember (run program ⟨t, []⟩ ops).tables.db guildId identityId)) ∧
    (run program ⟨t, []⟩ ops).tables.log.Pairwise Spares := by
  have hstart : Ok t.db t := by
    refine ⟨fun guildId identityId => ?_, by simp [hlog], by simp [hlog]⟩
    rw [hlog]
    rfl
  have hend := (inv_run invariant (inv_init hstart) halong).tables
  exact ⟨hend.alternates, hend.once⟩

/-! ## An invite that was declined, and two joins at once -/

def invite1 : Uuid := .ofHex 16 "6d6d6d6d000040008000000000000001"

/-- an open guild with its owner, and an invite -/
def invitedTables : Tables where
  db := { ownedGuild with members := [⟨guild1, owner1, 0⟩] }
  joinPolicy _ := .open
  invites := [⟨invite1, guild1, guardian1, none⟩]
  joinRequests := []
  log := []

def acceptInvite1 : Call := .acceptInvite guardian1 guild1 invite1

def declineInvite1 : Call := .declineInvite guardian1 guild1 invite1

def joinGuild1 : Call := .joinGuild guardian1 guild1

def leaveGuild1 : Call := .leaveGuild guardian1 guild1

/-- the invite is accepted, and declined too late; the member leaves, and joins again -/
def acceptLeaveJoin : List (Op Call) :=
  [.call acceptInvite1, .advance 0, .call declineInvite1, .advance 1, .advance 0, .advance 0, .advance 0, .advance 0, .advance 0,
    .advance 1, .call leaveGuild1, .advance 2, .advance 2, .advance 2, .advance 2, .advance 2,
    .call joinGuild1, .advance 3, .advance 3, .advance 3, .advance 3, .advance 3]

/-- the invite is declined between the two reads of it -/
def declineThenAccept : List (Op Call) :=
  [.call acceptInvite1, .advance 0, .call declineInvite1, .advance 1, .advance 1, .advance 0, .advance 0, .advance 0, .advance 0,
    .advance 0]

/-- both joins read the roster before either writes it -/
def twoJoins : List (Op Call) :=
  [.call joinGuild1, .call joinGuild1, .advance 0, .advance 1, .advance 0, .advance 1, .advance 0, .advance 0, .advance 0,
    .advance 1, .advance 1, .advance 1]

theorem membership_alternates_acceptLeaveJoin :
    (∀ guildId identityId, Alternates (isMember invitedTables.db guildId identityId)
      (history guildId identityId (run program ⟨invitedTables, []⟩ acceptLeaveJoin).tables.log)
      (isMember (run program ⟨invitedTables, []⟩ acceptLeaveJoin).tables.db guildId identityId)) ∧
    (run program ⟨invitedTables, []⟩ acceptLeaveJoin).tables.log.Pairwise Spares := by
  have halong : Along program Current ⟨invitedTables, []⟩ acceptLeaveJoin := by decide +kernel
  exact membership_alternates rfl halong

/-- **A declined invite adds a member**, when the decline commits before the transaction of the accepting call; and two joins at
once add a member twice -/
theorem declined_invite_adds :
    ((run program ⟨invitedTables, []⟩ declineThenAccept).tables.log =
        [.declined invite1, .added guild1 guardian1 (.invite invite1)] ∧
      ¬ (run program ⟨invitedTables, []⟩ declineThenAccept).tables.log.Pairwise Spares) ∧
    ((run program ⟨invitedTables, []⟩ twoJoins).tables.log =
        [.added guild1 guardian1 .join, .added guild1 guardian1 .join] ∧
      ∀ last, ¬ Alternates (isMember invitedTables.db guild1 guardian1)
        (history guild1 guardian1 (run program ⟨invitedTables, []⟩ twoJoins).tables.log) last) := by
  decide +kernel

end Avalon.GuildMembership
