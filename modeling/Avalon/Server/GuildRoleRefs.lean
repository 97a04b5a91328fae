/-
Roles and the members that hold them, under concurrent calls (`crates/server/src/guilds.rs`: `create_role`, `delete_role`,
`update_member_role`, `add_member`; `crates/indexer/src/projections/guild_rosters.rs`: `apply`), statement by statement on
PostgreSQL at READ COMMITTED.

A member row names its role by index, without a foreign key. `update_member_role` looks the role up before its transaction;
`delete_role` looks for members in its transaction, but sees only committed ones and locks none. A new role takes the index
after the highest one, so the index of a deleted role is used again. The handlers of invites, joins and join requests all add a
member with the base role, which is never deleted.

To say which of two roles with one index a member was given, the tables count the commits and keep when each role was created
and when each member was last given its role.

Results:
- `invariant`: what each statement keeps, while no assignment of a role and deletion of it overlap.
- `role_refs_valid`: in every run in which this is so, every member's role exists and is not younger than its assignment.
- `member_holds_new_role`: an assignment that overlaps a deletion leaves a member with a role that is gone, and then with the
  permissions of the next role that is created.
-/
import Mathlib.Tactic
import Avalon.Core.Interleaving
import Avalon.Protocol.Events
import Avalon.Protocol.IdentityId
import Avalon.Server.SignatureGate
import Avalon.Server.GuildRoles

namespace Avalon.GuildRoleRefs

open Avalon.Events Avalon.Identity Avalon.SignatureGate Avalon.Guardians Avalon.Guilds
open Interleaving Fallible

/-! ## Tables -/

/-- what is committed -/
structure Tables where
  db : Db
  /-- the number of commits -/
  clock : ℕ
  /-- when the role with this index was last created -/
  created : ℤ → ℕ
  /-- when this member was last given its role -/
  given : IdentityId → ℕ

inductive Call where
  | createRole (actor : IdentityId) (body : CreateRoleRequest)
  | deleteRole (actor : IdentityId) (nameIndex : ℤ) (proof : Proof)
  | updateMemberRole (actor identityId : IdentityId) (roleIndex : ℤ) (proof : Proof)
  /-- an accepted invite, a join, or an approved join request -/
  | addMember (identityId : IdentityId)

/-- how far a call has come -/
inductive Phase where
  | received (call : Call)
  | createJudged (row : RoleRow)
  | createIndexed (row : RoleRow)
  | roleInserted (row : RoleRow)
  | deleteJudged (nameIndex : ℤ)
  | deleteChecked (nameIndex : ℤ)
  | roleDeleted (nameIndex : ℤ)
  | updateAllowed (actor identityId : IdentityId) (roleIndex : ℤ) (proof : Proof)
  | updateJudged (identityId : IdentityId) (roleIndex : ℤ)
  | updateChecked (identityId : IdentityId) (roleIndex : ℤ)
  | addChecked (identityId : IdentityId)
  | memberWritten (identityId : IdentityId) (roleIndex : ℤ)
  | ended

namespace Phase

/-- the role that this transaction has inserted -/
def inserts : Phase → Option RoleRow
  | roleInserted row => some row
  | _ => none

/-- the role whose row this transaction has deleted -/
def removes : Phase → Option ℤ
  | roleDeleted nameIndex => some nameIndex
  | _ => none

/-- the member whose row this transaction has written -/
def writesMember : Phase → Option IdentityId
  | memberWritten identityId _ => some identityId
  | _ => none

/-- the role that this call has looked up and is about to assign -/
def assigns : Phase → Option ℤ
  | updateJudged _ roleIndex => some roleIndex
  | updateChecked _ roleIndex => some roleIndex
  | memberWritten _ roleIndex => some roleIndex
  | _ => none

/-- the role that this call has found without members and is about to delete -/
def deletes : Phase → Option ℤ
  | deleteChecked nameIndex => some nameIndex
  | roleDeleted nameIndex => some nameIndex
  | _ => none

end Phase

/-! ## Statements -/

section

variable (v : Verifier) (guildId : Uuid)

/-- what `create_role` checks before its transaction; the row it is going to insert, but for the index -/
def judgeCreate (db : Db) (actor : IdentityId) (body : CreateRoleRequest) : Except AppError RoleRow := do
  let guildOwner ← fetchGuild db guildId
  requireManageRoles db guildId guildOwner actor
  let permissions := normalizePermissions body.permissions
  requireGuildActionSignature v db actor "guild.role.create" [uuidText guildId, body.name, ",".intercalate permissions] body.proof
  validateRoleDescription body.description
  let badge ← badgeOr body.badge .default
  return ⟨guildId, 0, body.name, permissions, body.description, badge⟩

/-- what `delete_role` checks before its transaction -/
def judgeDelete (db : Db) (actor : IdentityId) (nameIndex : ℤ) (proof : Proof) : Except AppError Unit := do
  let guildOwner ← fetchGuild db guildId
  requireManageRoles db guildId guildOwner actor
  requireGuildActionSignature v db actor "guild.role.delete" [uuidText guildId, i32Text nameIndex] proof
  refuseIf (isBaseRole nameIndex) .cannotDeleteBaseRole

/-- what `update_member_role` checks before it looks the role up -/
def judgeUpdate (db : Db) (actor identityId : IdentityId) (roleIndex : ℤ) : Except AppError Unit := do
  let guildOwner ← fetchGuild db guildId
  requireManageRoles db guildId guildOwner actor
  refuseIf (roleIndex = ownerRoleIndex ∨ identityId = guildOwner) .cannotAssignOwnerRole

/-- `fetch_role`, and the signature that an escalation needs -/
def judgeRole (db : Db) (actor identityId : IdentityId) (roleIndex : ℤ) (proof : Proof) : Except AppError Unit := do
  let targetRole ← fetchRole db guildId roleIndex
  if isEscalation targetRole then
    requireGuildActionSignature v db actor "guild.member_role.update" [uuidText guildId, identityId.toText, i32Text roleIndex] proof

/-- where a call goes after a check -/
def next (result : Except AppError Unit) (p : Phase) : Phase :=
  match result with
  | .ok () => p
  | .error _ => .ended

/-- INSERT .. ON CONFLICT (guild_id, identity_id) DO UPDATE SET role_index -/
def upsertMember (db : Db) (identityId : IdentityId) (roleIndex : ℤ) : Db :=
  { db with
    members := (db.members.filter fun m => decide (¬ (m.guildId = guildId ∧ m.identityId = identityId))) ++
      [⟨guildId, identityId, roleIndex⟩] }

/-- the role and its overrides are gone -/
def removeRole (db : Db) (nameIndex : ℤ) : Db :=
  { db with
    roles := db.roles.filter fun r => decide (¬ (r.guildId = guildId ∧ r.nameIndex = nameIndex))
    overrides := db.overrides.filter fun o => decide (¬ (o.guildId = guildId ∧ o.roleIndex = nameIndex)) }

/-- the role with the index, as it is committed -/
def HasRole (db : Db) (nameIndex : ℤ) : Prop := ∃ r ∈ db.roles, r.guildId = guildId ∧ r.nameIndex = nameIndex

instance (db : Db) (nameIndex : ℤ) : Decidable (HasRole guildId db nameIndex) :=
  inferInstanceAs (Decidable (∃ r ∈ db.roles, _))

/-- the next statement of a call; nothing if it has to wait -/
def statement (t : Tables) (others : List Phase) : Phase → Option (Tables × Phase)
  | .received (.createRole actor body) =>
    match judgeCreate v guildId t.db actor body with
    | .ok row => some (t, .createJudged row)
    | .error _ => some (t, .ended)
  | .received (.deleteRole actor nameIndex proof) =>
    some (t, next (judgeDelete v guildId t.db actor nameIndex proof) (.deleteJudged nameIndex))
  | .received (.updateMemberRole actor identityId roleIndex proof) =>
    some (t, next (judgeUpdate guildId t.db actor identityId roleIndex) (.updateAllowed actor identityId roleIndex proof))
  -- `is_member`, in the transaction
  | .received (.addMember identityId) =>
    some (t, if (memberOf t.db guildId identityId).isSome then .ended else .addChecked identityId)
  | .createJudged row => some (t, .createIndexed { row with nameIndex := nextRoleIndex t.db guildId })
  -- the insert waits for another one of the same index or name, and for a deletion of the index
  | .createIndexed row =>
    if others.any fun p => (p.inserts.any fun r => decide (r.nameIndex = row.nameIndex ∨ t.db.lower r.name = t.db.lower row.name)) ||
        decide (p.removes = some row.nameIndex) then none
    else if 2 ^ 31 ≤ row.nameIndex ∨ HasRole guildId t.db row.nameIndex ∨ nameTaken t.db guildId row.nameIndex row.name then
      some (t, .ended)
    else some (t, .roleInserted row)
  | .roleInserted row =>
    some (⟨{ t.db with roles := t.db.roles ++ [row] }, t.clock + 1, Function.update t.created row.nameIndex (t.clock + 1),
      t.given⟩, .ended)
  -- `any_member_with_role`: committed rows only
  | .deleteJudged nameIndex =>
    some (t, next (refuseIf (∃ m ∈ t.db.members, m.guildId = guildId ∧ m.roleIndex = nameIndex) .roleHasMembers)
      (.deleteChecked nameIndex))
  | .deleteChecked nameIndex =>
    if others.any fun p => decide (p.removes = some nameIndex) then none
    else some (t, next (refuseIf (¬ HasRole guildId t.db nameIndex) .guildRoleNotFound) (.roleDeleted nameIndex))
  | .roleDeleted nameIndex => some (⟨removeRole guildId t.db nameIndex, t.clock + 1, t.created, t.given⟩, .ended)
  | .updateAllowed actor identityId roleIndex proof =>
    some (t, next (judgeRole v guildId t.db actor identityId roleIndex proof) (.updateJudged identityId roleIndex))
  -- `joined_at_for`, in the transaction
  | .updateJudged identityId roleIndex =>
    some (t, next (refuseIf (memberOf t.db guildId identityId).isNone .notGuildMember) (.updateChecked identityId roleIndex))
  | .updateChecked identityId roleIndex =>
    if others.any fun p => decide (p.writesMember = some identityId) then none
    else some (t, .memberWritten identityId roleIndex)
  | .addChecked identityId =>
    if others.any fun p => decide (p.writesMember = some identityId) then none
    else some (t, .memberWritten identityId memberRoleIndex)
  | .memberWritten identityId roleIndex =>
    some (⟨upsertMember guildId t.db identityId roleIndex, t.clock + 1, t.created,
      Function.update t.given identityId (t.clock + 1)⟩, .ended)
  | .ended => none

def program : Program Tables Phase Call where
  start := .received
  statement := statement v guildId
  aborted _ := .ended

/-! ## What should hold, and when -/

/-- every member's role exists, and was not created after the member was given it -/
def RefsValid (t : Tables) : Prop :=
  ∀ m ∈ t.db.members, m.guildId = guildId → HasRole guildId t.db m.roleIndex ∧ t.created m.roleIndex ≤ t.given m.identityId

instance (t : Tables) : Decidable (RefsValid guildId t) := inferInstanceAs (Decidable (∀ m ∈ t.db.members, _))

/-- the condition: `delete_role` looks for members while no call is about to assign the role, and `update_member_role` looks
the role up while no call is about to delete it -/
def NoOverlap (_t : Tables) (others : List Phase) : Phase → Prop
  | .deleteJudged nameIndex => ∀ q ∈ others, q.assigns ≠ some nameIndex
  | .updateAllowed _ _ roleIndex _ => ∀ q ∈ others, q.deletes ≠ some roleIndex
  | _ => True

instance (t : Tables) (others : List Phase) : (p : Phase) → Decidable (NoOverlap t others p)
  | .deleteJudged nameIndex => inferInstanceAs (Decidable (∀ q ∈ others, q.assigns ≠ some nameIndex))
  | .updateAllowed _ _ roleIndex _ => inferInstanceAs (Decidable (∀ q ∈ others, q.deletes ≠ some roleIndex))
  | .received _ | .createJudged _ | .createIndexed _ | .roleInserted _ | .deleteChecked _ | .roleDeleted _ | .updateJudged _ _
  | .updateChecked _ _ | .addChecked _ | .memberWritten _ _ | .ended => inferInstanceAs (Decidable True)

/-! ## The invariant -/

/-- all references are valid, the base role is there, and no role is younger than the last commit -/
structure Ok (t : Tables) : Prop where
  refs : RefsValid guildId t
  base : HasRole guildId t.db memberRoleIndex
  clock : ∀ nameIndex, t.created nameIndex ≤ t.clock

/-- a role about to be assigned is there, one about to be deleted has no members and is no base role, and the index of an
inserted one is free -/
structure Good (t : Tables) (p : Phase) : Prop where
  assigns : ∀ i ∈ p.assigns, HasRole guildId t.db i
  deletes : ∀ i ∈ p.deletes, ∀ m ∈ t.db.members, m.guildId = guildId → m.roleIndex ≠ i
  spares : ∀ i, p = .deleteJudged i ∨ i ∈ p.deletes → isBaseRole i = false
  inserts : ∀ row ∈ p.inserts, row.guildId = guildId ∧ ¬ HasRole guildId t.db row.nameIndex
  carries : ∀ row, p = .createJudged row ∨ p = .createIndexed row → row.guildId = guildId

end

/-- no role is assigned and deleted at once, or inserted twice -/
structure Apart (p q : Phase) : Prop where
  assigns : ∀ i ∈ p.assigns, i ∉ q.deletes
  deletes : ∀ i ∈ p.deletes, i ∉ q.assigns
  inserts : ∀ r ∈ p.inserts, ∀ r' ∈ q.inserts, r.nameIndex ≠ r'.nameIndex

theorem Apart.symm {p q : Phase} (h : Apart p q) : Apart q p :=
  ⟨fun i hi hp => h.deletes i hp hi, fun i hi hp => h.assigns i hp hi, fun r hr r' hr' => (h.inserts r' hr' r hr).symm⟩

theorem apart_of_none {p q : Phase} (ha : p.assigns = none) (hd : p.deletes = none) (hi : p.inserts = none) : Apart p q := by
  constructor <;> simp [ha, hd, hi]

section

variable {v : Verifier} {guildId : Uuid}

/-! ## What the writes leave -/

theorem hasRole_append {db : Db} {row : RoleRow} (hrow : row.guildId = guildId) {i : ℤ} :
    HasRole guildId { db with roles := db.roles ++ [row] } i ↔ HasRole guildId db i ∨ row.nameIndex = i := by
  simp [HasRole, or_and_right, exists_or, hrow]

theorem hasRole_removeRole {db : Db} {i j : ℤ} : HasRole guildId (removeRole guildId db i) j ↔ HasRole guildId db j ∧ j ≠ i := by
  simp only [HasRole, removeRole, List.mem_filter, decide_eq_true_eq]
  constructor
  · rintro ⟨r, ⟨hr, hne⟩, hguild, rfl⟩
    exact ⟨⟨r, hr, hguild, rfl⟩, fun h => hne ⟨hguild, h⟩⟩
  · rintro ⟨⟨r, hr, hguild, rfl⟩, hne⟩
    exact ⟨r, ⟨hr, fun h => hne h.2⟩, hguild, rfl⟩

theorem mem_upsertMember {db : Db} {identityId : IdentityId} {i : ℤ} {m : MemberRow}
    (h : m ∈ (upsertMember guildId db identityId i).members) :
    m = ⟨guildId, identityId, i⟩ ∨ (m ∈ db.members ∧ (m.guildId = guildId → m.identityId ≠ identityId)) := by
  simp only [upsertMember, List.mem_append, List.mem_filter, decide_eq_true_eq, List.mem_singleton, not_and] at h
  rcases h with h | rfl
  · exact Or.inr h
  · exact Or.inl rfl

/-! ## What the checks say -/

theorem guildId_of_judgeCreate {db : Db} {actor : IdentityId} {body : CreateRoleRequest} {row : RoleRow}
    (h : judgeCreate v guildId db actor body = .ok row) : row.guildId = guildId := by
  unfold judgeCreate at h
  obtain ⟨_, _, h⟩ := bind_eq_ok.1 h
  obtain ⟨_, _, h⟩ := bind_eq_ok.1 h
  obtain ⟨_, _, h⟩ := bind_eq_ok.1 h
  obtain ⟨_, _, h⟩ := bind_eq_ok.1 h
  obtain ⟨_, _, h⟩ := bind_eq_ok.1 h
  cases h
  rfl

theorem refuseIf_eq_ok {c : Prop} [Decidable c] {e : AppError} {u : Unit} : refuseIf c e = .ok u ↔ ¬ c := by
  simp [refuseIf]

theorem isBaseRole_of_judgeDelete {db : Db} {actor : IdentityId} {nameIndex : ℤ} {proof : Proof}
    (h : judgeDelete v guildId db actor nameIndex proof = .ok ()) : isBaseRole nameIndex = false := by
  unfold judgeDelete at h
  obtain ⟨_, _, h⟩ := bind_eq_ok.1 h
  obtain ⟨_, _, h⟩ := bind_eq_ok.1 h
  obtain ⟨_, _, h⟩ := bind_eq_ok.1 h
  simpa using refuseIf_eq_ok.1 h

theorem hasRole_of_judgeRole {db : Db} {actor identityId : IdentityId} {roleIndex : ℤ} {proof : Proof}
    (h : judgeRole v guildId db actor identityId roleIndex proof = .ok ()) : HasRole guildId db roleIndex := by
  unfold judgeRole at h
  obtain ⟨row, hrow, -⟩ := bind_eq_ok.1 h
  simp only [fetchRole, findRole] at hrow
  split at hrow
  · rename_i r hr
    have hr' := List.find?_some hr
    simp only [decide_eq_true_eq] at hr'
    exact ⟨r, List.mem_of_find?_eq_some hr, hr'⟩
  · cases hrow

/-! ## What the statements keep -/

/-- a call without any of it -/
theorem good_of_none {t : Tables} {p : Phase} (ha : p.assigns = none) (hd : p.deletes = none) (hi : p.inserts = none)
    (hs : ∀ i, p ≠ .deleteJudged i) (hc : ∀ row, p ≠ .createJudged row ∧ p ≠ .createIndexed row) : Good guildId t p where
  assigns := by simp [ha]
  deletes := by simp [hd]
  spares i h := by simp [hd, hs] at h
  inserts := by simp [hi]
  carries row h := by simp [(hc row).1, (hc row).2] at h

theorem good_ended {t : Tables} : Good guildId t .ended :=
  good_of_none rfl rfl rfl (fun _ h => by cases h) fun _ => ⟨fun h => by (cases h), fun h => by cases h⟩

theorem ok_roleInserted {t : Tables} {row : RoleRow} (ht : Ok guildId t) (hguild : row.guildId = guildId)
    (hfree : ¬ HasRole guildId t.db row.nameIndex) :
    Ok guildId ⟨{ t.db with roles := t.db.roles ++ [row] }, t.clock + 1, Function.update t.created row.nameIndex (t.clock + 1),
      t.given⟩ where
  refs m hm hmg := by
    obtain ⟨hrole, htime⟩ := ht.refs m hm hmg
    -- no member refers to the new index: it had no role
    have hne : m.roleIndex ≠ row.nameIndex := fun h => hfree (h ▸ hrole)
    exact ⟨(hasRole_append hguild).2 (Or.inl hrole), by simpa [Function.update_of_ne hne] using htime⟩
  base := (hasRole_append hguild).2 (Or.inl ht.base)
  clock i := by
    by_cases hi : i = row.nameIndex
    · simp [hi]
    · simpa [Function.update_of_ne hi] using (ht.clock i).trans (Nat.le_succ _)

theorem ok_roleDeleted {t : Tables} {i : ℤ} (ht : Ok guildId t)
    (hmembers : ∀ m ∈ t.db.members, m.guildId = guildId → m.roleIndex ≠ i) (hbase : isBaseRole i = false) :
    Ok guildId ⟨removeRole guildId t.db i, t.clock + 1, t.created, t.given⟩ where
  refs m hm hmg := by
    obtain ⟨hrole, htime⟩ := ht.refs m hm hmg
    exact ⟨hasRole_removeRole.2 ⟨hrole, hmembers m hm hmg⟩, htime⟩
  base := by
    refine hasRole_removeRole.2 ⟨ht.base, fun h => ?_⟩
    simp [isBaseRole, ← h] at hbase
  clock i := (ht.clock i).trans (Nat.le_succ _)

theorem ok_memberWritten {t : Tables} {identityId : IdentityId} {i : ℤ} (ht : Ok guildId t) (hrole : HasRole guildId t.db i) :
    Ok guildId ⟨upsertMember guildId t.db identityId i, t.clock + 1, t.created,
      Function.update t.given identityId (t.clock + 1)⟩ where
  refs m hm hmg := by
    rcases mem_upsertMember hm with rfl | ⟨hm, hne⟩
    · exact ⟨hrole, by simpa using (ht.clock i).trans (Nat.le_succ _)⟩
    · obtain ⟨hold, htime⟩ := ht.refs m hm hmg
      exact ⟨hold, by simpa [Function.update_of_ne (hne hmg)] using htime⟩
  base := ht.base
  clock i := (ht.clock i).trans (Nat.le_succ _)

/-- another call after a role was inserted -/
theorem good_roleInserted {t : Tables} {row : RoleRow} {q : Phase} (hguild : row.guildId = guildId) (hq : Good guildId t q)
    (hapart : Apart (.roleInserted row) q) :
    Good guildId ⟨{ t.db with roles := t.db.roles ++ [row] }, t.clock + 1,
      Function.update t.created row.nameIndex (t.clock + 1), t.given⟩ q where
  assigns i hi := (hasRole_append hguild).2 (Or.inl (hq.assigns i hi))
  deletes := hq.deletes
  spares := hq.spares
  inserts r hr := by
    obtain ⟨hrguild, hfree⟩ := hq.inserts r hr
    refine ⟨hrguild, fun h => ?_⟩
    rcases (hasRole_append hguild).1 h with h | h
    · exact hfree h
    · exact hapart.inserts row rfl r hr h
  carries := hq.carries

/-- another call after a role was deleted -/
theorem good_roleDeleted {t : Tables} {i : ℤ} {q : Phase} (hq : Good guildId t q) (hapart : Apart (.roleDeleted i) q) :
    Good guildId ⟨removeRole guildId t.db i, t.clock + 1, t.created, t.given⟩ q where
  assigns j hj := by
    refine hasRole_removeRole.2 ⟨hq.assigns j hj, ?_⟩
    rintro rfl
    exact hapart.deletes j rfl hj
  deletes := hq.deletes
  spares := hq.spares
  inserts r hr := ⟨(hq.inserts r hr).1, fun h => (hq.inserts r hr).2 (hasRole_removeRole.1 h).1⟩
  carries := hq.carries

/-- another call after a member was given a role -/
theorem good_memberWritten {t : Tables} {identityId : IdentityId} {i : ℤ} {q : Phase} (hq : Good guildId t q)
    (hapart : Apart (.memberWritten identityId i) q) :
    Good guildId ⟨upsertMember guildId t.db identityId i, t.clock + 1, t.created,
      Function.update t.given identityId (t.clock + 1)⟩ q where
  assigns := hq.assigns
  deletes j hj m hm hmg := by
    rcases mem_upsertMember hm with rfl | ⟨hm, -⟩
    · rintro rfl
      exact hapart.assigns i rfl hj
    · exact hq.deletes j hj m hm hmg
  spares := hq.spares
  inserts := hq.inserts
  carries := hq.carries

/-- a statement that leaves the tables as they are -/
theorem keeps_tables {t : Tables} {others : List Phase} {p p' : Phase} (ht : Ok guildId t)
    (hothers : ∀ q ∈ others, Good guildId t q ∧ Apart p q) (hgood : Good guildId t p')
    (hapart : ∀ q ∈ others, Apart p q → Apart p' q) :
    Ok guildId t ∧ Good guildId t p' ∧ ∀ q ∈ others, Good guildId t q ∧ Apart p' q :=
  ⟨ht, hgood, fun q hq => ⟨(hothers q hq).1, hapart q hq (hothers q hq).2⟩⟩

/-- a check that may end the call -/
theorem keeps_next {t : Tables} {others : List Phase} {p p' : Phase} {result : Except AppError Unit} (ht : Ok guildId t)
    (hothers : ∀ q ∈ others, Good guildId t q ∧ Apart p q) (hgood : result = .ok () → Good guildId t p')
    (hapart : result = .ok () → ∀ q ∈ others, Apart p q → Apart p' q) :
    Ok guildId t ∧ Good guildId t (next result p') ∧ ∀ q ∈ others, Good guildId t q ∧ Apart (next result p') q := by
  cases result with
  | ok => exact keeps_tables ht hothers (hgood rfl) (hapart rfl)
  | error e => exact keeps_tables ht hothers good_ended fun q _ _ => apart_of_none rfl rfl rfl

/-- **What each statement keeps**, while no assignment of a role and deletion of it overlap -/
theorem invariant : Invariant (program v guildId) NoOverlap (Ok guildId) (Good guildId) Apart where
  symm p q h := h.symm
  start t call _ := ⟨good_of_none rfl rfl rfl (fun _ h => by cases h) fun _ => ⟨fun h => by (cases h), fun h => by cases h⟩,
    fun q => apart_of_none rfl rfl rfl⟩
  aborted t p _ _ := ⟨good_ended, fun q _ => apart_of_none rfl rfl rfl⟩
  statement t others p t' p' ht hp hothers hmeets h := by
    simp only [program] at h
    cases p with
    | received call =>
      cases call with
      | createRole actor body =>
        simp only [statement] at h
        split at h
        · rename_i row hrow
          cases h
          refine keeps_tables ht hothers ⟨by simp [Phase.assigns], by simp [Phase.deletes], by simp [Phase.deletes],
            by simp [Phase.inserts], ?_⟩ fun q _ _ => apart_of_none rfl rfl rfl
          rintro row' (h | h)
          · cases h
            exact guildId_of_judgeCreate hrow
          · cases h
        · cases h
          exact keeps_tables ht hothers good_ended fun q _ _ => apart_of_none rfl rfl rfl
      | deleteRole actor nameIndex proof =>
        cases h
        refine keeps_next ht hothers (fun hresult => ⟨by simp [Phase.assigns], by simp [Phase.deletes], ?_,
          by simp [Phase.inserts], by simp⟩) fun _ q _ _ => apart_of_none rfl rfl rfl
        rintro i (h | h)
        · cases h
          exact isBaseRole_of_judgeDelete hresult
        · cases h
      | updateMemberRole actor identityId roleIndex proof =>
        cases h
        refine keeps_next ht hothers (fun _ => good_of_none rfl rfl rfl (by simp) (by simp)) fun _ q _ _ =>
          apart_of_none rfl rfl rfl
      | addMember identityId =>
        cases h
        split_ifs
        · exact keeps_tables ht hothers good_ended fun q _ _ => apart_of_none rfl rfl rfl
        · exact keeps_tables ht hothers (good_of_none rfl rfl rfl (by simp) (by simp)) fun q _ _ => apart_of_none rfl rfl rfl
    | createJudged row =>
      cases h
      refine keeps_tables ht hothers ⟨by simp [Phase.assigns], by simp [Phase.deletes], by simp [Phase.deletes],
        by simp [Phase.inserts], ?_⟩ fun q _ _ => apart_of_none rfl rfl rfl
      rintro row' (h | h)
      · cases h
      · cases h
        exact hp.carries row (Or.inl rfl)
    | createIndexed row =>
      simp only [statement] at h
      split_ifs at h with hwait hrefused
      · cases h
        exact keeps_tables ht hothers good_ended fun q _ _ => apart_of_none rfl rfl rfl
      · cases h
        refine keeps_tables ht hothers ⟨by simp [Phase.assigns], by simp [Phase.deletes], by simp [Phase.deletes], ?_, by simp⟩
          fun q hq _ => ⟨by simp [Phase.assigns], by simp [Phase.deletes], ?_⟩
        · rintro row' hrow'
          cases hrow'
          exact ⟨hp.carries row (Or.inr rfl), fun h => hrefused (Or.inr (Or.inl h))⟩
        · rintro r hr r' hr' heq
          cases hr
          refine hwait (List.any_eq_true.2 ⟨q, hq, ?_⟩)
          rw [Option.mem_def] at hr'
          simp [hr', heq]
    | roleInserted row =>
      cases h
      obtain ⟨hguild, hfree⟩ := hp.inserts row rfl
      refine ⟨ok_roleInserted ht hguild hfree, good_ended, fun q hq => ⟨?_, apart_of_none rfl rfl rfl⟩⟩
      exact good_roleInserted hguild (hothers q hq).1 (hothers q hq).2
    | deleteJudged nameIndex =>
      cases h
      refine keeps_next ht hothers (fun hresult => ⟨by simp [Phase.assigns], ?_, ?_, by simp [Phase.inserts], by simp⟩)
        fun _ q hq _ => ⟨by simp [Phase.assigns], ?_, by simp [Phase.inserts]⟩
      · rintro i hi m hm hmg rfl
        cases hi
        exact refuseIf_eq_ok.1 hresult ⟨m, hm, hmg, rfl⟩
      · rintro i (h | h)
        · cases h
        · cases h
          exact hp.spares nameIndex (Or.inl rfl)
      · rintro i hi
        cases hi
        exact hmeets q hq
    | deleteChecked nameIndex =>
      simp only [statement] at h
      split_ifs at h with hwait
      cases h
      refine keeps_next ht hothers (fun _ => ⟨by simp [Phase.assigns], hp.deletes, ?_, by simp [Phase.inserts], by simp⟩)
        fun _ q _ hapart => ⟨by simp [Phase.assigns], hapart.deletes, by simp [Phase.inserts]⟩
      rintro i (h | h)
      · cases h
      · exact hp.spares i (Or.inr h)
    | roleDeleted nameIndex =>
      cases h
      refine ⟨ok_roleDeleted ht (hp.deletes nameIndex rfl) (hp.spares nameIndex (Or.inr rfl)), good_ended, fun q hq =>
        ⟨?_, apart_of_none rfl rfl rfl⟩⟩
      exact good_roleDeleted (hothers q hq).1 (hothers q hq).2
    | updateAllowed actor identityId roleIndex proof =>
      cases h
      refine keeps_next ht hothers (fun hresult => ⟨?_, by simp [Phase.deletes], by simp [Phase.deletes], by simp [Phase.inserts],
        by simp⟩) fun _ q hq _ => ⟨?_, by simp [Phase.deletes], by simp [Phase.inserts]⟩
      · rintro i hi
        cases hi
        exact hasRole_of_judgeRole hresult
      · rintro i hi
        cases hi
        exact hmeets q hq
    | updateJudged identityId roleIndex =>
      cases h
      exact keeps_next ht hothers (fun _ => ⟨hp.assigns, by simp [Phase.deletes], by simp [Phase.deletes], by simp [Phase.inserts],
        by simp⟩) fun _ q _ hapart => ⟨hapart.assigns, by simp [Phase.deletes], by simp [Phase.inserts]⟩
    | updateChecked identityId roleIndex =>
      simp only [statement] at h
      split_ifs at h with hwait
      cases h
      exact keeps_tables ht hothers ⟨hp.assigns, by simp [Phase.deletes], by simp [Phase.deletes], by simp [Phase.inserts],
        by simp⟩ fun q _ hapart => ⟨hapart.assigns, by simp [Phase.deletes], by simp [Phase.inserts]⟩
    | addChecked identityId =>
      simp only [statement] at h
      split_ifs at h with hwait
      cases h
      refine keeps_tables ht hothers ⟨?_, by simp [Phase.deletes], by simp [Phase.deletes], by simp [Phase.inserts],
        by simp⟩ fun q hq _ => ⟨?_, by simp [Phase.deletes], by simp [Phase.inserts]⟩
      · rintro i hi
        cases hi
        exact ht.base
      · -- the base role is never deleted
        rintro i hi hdeletes
        cases hi
        have := (hothers q hq).1.spares memberRoleIndex (Or.inr hdeletes)
        simp [isBaseRole] at this
    | memberWritten identityId roleIndex =>
      cases h
      refine ⟨ok_memberWritten ht (hp.assigns roleIndex rfl), good_ended, fun q hq => ⟨?_, apart_of_none rfl rfl rfl⟩⟩
      exact good_memberWritten (hothers q hq).1 (hothers q hq).2
    | ended => cases h

/-- **Role references stay valid.** From a guild whose members' roles exist, and with it the base role: in every run of role
creations, deletions, assignments and member additions, with calls and rollbacks in any order, in which no assignment of a role
and deletion of it overlap, every member's role exists and was not created after the member was last given it. -/
theorem role_refs_valid {db : Db} (hrefs : ∀ m ∈ db.members, m.guildId = guildId → HasRole guildId db m.roleIndex)
    (hbase : HasRole guildId db memberRoleIndex) {calls : List (Op Call)}
    (halong : Along (program v guildId) NoOverlap ⟨⟨db, 0, fun _ => 0, fun _ => 0⟩, []⟩ calls) :
    RefsValid guildId (run (program v guildId) ⟨⟨db, 0, fun _ => 0, fun _ => 0⟩, []⟩ calls).tables := by
  have hstart : Ok guildId ⟨db, 0, fun _ => 0, fun _ => 0⟩ :=
    ⟨fun m hm hmg => ⟨hrefs m hm hmg, le_rfl⟩, hbase, fun _ => le_rfl⟩
  exact (inv_run invariant (inv_init hstart) halong).tables.refs

end

/-! ## An assignment that overlaps a deletion -/

/-- Ed25519 restricted to the owner's signatures over deleting role 3 and over creating a role of stewards -/
def roleVerifier : Verifier where
  ed := {
    verifyingKey _ := .ofHex 32 "2152f8d19b791d24453242e15f2eab6cb7cffa7b6a5ed30097960e069881db12"
    sign _ _ := .replicate 64 0
    verifyStrict _ message signature :=
      (decide (message = canonicalMessage "guild.role.delete" [uuidText guild1, "3"]) && decide (signature = .ofHex 64
        "e0868451649719929d96c9edf384e5d02174c5947a38b64bbdac02b259d0d063c388b0360087b954603f97f04bfb97eb969441e55f7c11df4a1c436c9128d90b")) ||
      (decide (message = canonicalMessage "guild.role.create" [uuidText guild1, "stewards", "manage_members"]) &&
        decide (signature = .ofHex 64
        "e5bc7aa6ba4249071e1a2f54945c2240042d9f8d358147b31db23bda351be668b9eb105ec60f85f2e88c9594d18fcf3ed4c8843ea89223cb5885c7030164bd09")) }
  validKey _ := true

/-- the guild with its first roles, the role of scribes, its owner and a member -/
def rolesGuild : Db := { ownedGuild with
  identities := [owner1, guardian1]
  roles := [⟨guild1, 0, "owner", [], "", .default⟩, ⟨guild1, 1, "officer", [], "", .default⟩,
    ⟨guild1, 2, "member", [], "", .default⟩, ⟨guild1, 3, "scribes", ["view"], "", .default⟩]
  members := [⟨guild1, owner1, 0⟩, ⟨guild1, guardian1, 2⟩] }

def rolesTables : Tables := ⟨rolesGuild, 0, fun _ => 0, fun _ => 0⟩

def makeScribe : Call := .updateMemberRole owner1 guardian1 3 ⟨none, none⟩

def deleteScribes : Call := .deleteRole owner1 3 ⟨some keyRow.id, some
  "4IaEUWSXGZKdlsnt84Tl0CF0xZR6OLZLvawCslnQ0GPDiLA2AIe5VGA/l/BL+5frlpRB5V98Ed9KHENskSjZCw=="⟩

def createStewards : Call := .createRole owner1 ⟨"stewards", ["manage_members"], "", none, some keyRow.id, some
  "5bx6prpCSQceGi9UlFwiQAQtn401gUezHbI72jUb5mi56xBexg+F8uiMlZTRj88+1MiEPqiSI8tYhccDAWS9CQ=="⟩

/-- the member is made a scribe before the role is to be deleted, which is refused -/
def assignFirst : List (Op Call) :=
  [.call makeScribe, .advance 0, .advance 0, .advance 0, .advance 0, .advance 0, .call deleteScribes, .advance 1, .advance 1]

/-- the role is looked up, then deleted, then assigned, and then its index is used again -/
def assignDeleted : List (Op Call) :=
  [.call makeScribe, .advance 0, .advance 0, .call deleteScribes, .advance 1, .advance 1, .advance 1, .advance 1,
    .advance 0, .advance 0, .advance 0]

def useIndexAgain : List (Op Call) := [.call createStewards, .advance 2, .advance 2, .advance 2, .advance 2]

theorem role_refs_valid_assignFirst :
    RefsValid guild1 (run (program roleVerifier guild1) ⟨⟨rolesGuild, 0, fun _ => 0, fun _ => 0⟩, []⟩ assignFirst).tables := by
  have hrefs : ∀ m ∈ rolesGuild.members, m.guildId = guild1 → HasRole guild1 rolesGuild m.roleIndex := by decide
  have hbase : HasRole guild1 rolesGuild memberRoleIndex := by decide
  have halong : Along (program roleVerifier guild1) NoOverlap ⟨⟨rolesGuild, 0, fun _ => 0, fun _ => 0⟩, []⟩ assignFirst := by
    decide +kernel
  exact role_refs_valid hrefs hbase halong

/-- **A member of a deleted role**: `update_member_role` looks the role up, `delete_role` finds it without members and commits,
and the member is given the role that is gone. The next role that is created takes its index: the member was given it one
commit before it was created, and holds its permissions. -/
theorem member_holds_new_role :
    RefsValid guild1 rolesTables ∧
    (memberOf (run (program roleVerifier guild1) ⟨rolesTables, []⟩ assignDeleted).tables.db guild1 guardian1 =
        some ⟨guild1, guardian1, 3⟩ ∧
      ¬ HasRole guild1 (run (program roleVerifier guild1) ⟨rolesTables, []⟩ assignDeleted).tables.db 3) ∧
    actorRolePermissions (run (program roleVerifier guild1) ⟨rolesTables, []⟩ (assignDeleted ++ useIndexAgain)).tables.db guild1
      guardian1 = ["manage_members"] ∧
    ¬ RefsValid guild1 (run (program roleVerifier guild1) ⟨rolesTables, []⟩ assignDeleted).tables ∧
    ¬ RefsValid guild1 (run (program roleVerifier guild1) ⟨rolesTables, []⟩ (assignDeleted ++ useIndexAgain)).tables := by
  decide +kernel

end Avalon.GuildRoleRefs
