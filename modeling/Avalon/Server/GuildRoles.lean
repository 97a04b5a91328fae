/-
The signature-gated handlers (`crates/server/src/guilds.rs`: `create_role`, `update_role`, `delete_role`,
`set_permission_override`, `delete_permission_override`, `transfer_ownership`, `update_member_role`;
`crates/server/src/recovery.rs`: `set_guardians`; the vocabularies of `crates/protocol/src/guilds.rs`).

Each handler rebuilds the text the caller must have signed from a tag and the fields it chooses, and then makes its change.
The tags hold no colon, and all fields but a role's name are plain, so the text tells tag and fields apart, also for names
that hold colons. `update_role` chooses the guild and the role only: the name and the permissions it sets are not signed.

Each call is one step on the tables here. The events of a handler and what its answer repeats of the tables are left out.

Results:
- `accepted_of_handle`: what was verified when a request is accepted, and that it changes the permission-relevant state as it
  asks for.
- `same_fields`: requests with the same signed text are to the same handler and agree in the fields that are signed.
- `signature_binds_iff`: two accepted requests with the same signature ask for the same change if and only if they are not two
  role updates that differ in the name or the permissions.
- `role_update_replayed`: a signature over a role update, used again to grant another permission.
-/
import Mathlib.Tactic
import Avalon.Core.Bytes
import Avalon.Core.Fallible
import Avalon.Protocol.Events
import Avalon.Protocol.IdentityId
import Avalon.Server.SignatureGate
import Avalon.Server.Guardians

namespace Avalon.Guilds

open Avalon.SigningBytes Avalon.Events Avalon.Identity Avalon.SignatureGate Avalon.Guardians
open Fallible

/-! ## Vocabularies -/

inductive GuildPermission where
  | manageGuild
  | manageRoles
  | manageMembers
  | manageChannels
  | eventManage
  | channelPost
  | view
  | viewDetails
deriving DecidableEq, Repr

namespace GuildPermission

def all : List GuildPermission :=
  [manageGuild, manageRoles, manageMembers, manageChannels, eventManage, channelPost, view, viewDetails]

def asStr : GuildPermission → String
  | manageGuild => "manage_guild"
  | manageRoles => "manage_roles"
  | manageMembers => "manage_members"
  | manageChannels => "manage_channels"
  | eventManage => "event_manage"
  | channelPost => "channel_post"
  | view => "view"
  | viewDetails => "view_details"

def parse (s : String) : Option GuildPermission := all.find? fun p => decide (p.asStr = s)

end GuildPermission

inductive GuildResourceKind where
  | channel
  | event
deriving DecidableEq, Repr

namespace GuildResourceKind

def asStr : GuildResourceKind → String
  | channel => "channel"
  | event => "event"

def parse (s : String) : Option GuildResourceKind := [channel, event].find? fun k => decide (k.asStr = s)

end GuildResourceKind

/-- a badge's icon and color, by their names -/
structure RoleBadge where
  icon : String
  color : String
deriving DecidableEq

def roleBadgeIcons : List String := ["shield", "crown", "star", "sword", "wrench", "heart", "flag", "bolt"]

def roleBadgeColors : List String := ["gray", "red", "orange", "gold", "green", "blue", "purple"]

def RoleBadge.default : RoleBadge := ⟨"star", "gray"⟩

/-- an unknown icon or color is refused -/
def RoleBadge.intoBadge (b : RoleBadge) : Except AppError RoleBadge :=
  if b.icon ∈ roleBadgeIcons ∧ b.color ∈ roleBadgeColors then .ok b else .error .invalidRoleBadge

/-! ## Tables -/

structure RoleRow where
  guildId : Uuid
  nameIndex : ℤ
  name : String
  permissions : List String
  description : String
  badge : RoleBadge

structure MemberRow where
  guildId : Uuid
  identityId : IdentityId
  roleIndex : ℤ
deriving DecidableEq

structure OverrideRow where
  id : Uuid
  guildId : Uuid
  roleIndex : ℤ
  resourceKind : GuildResourceKind
  resourceId : Uuid
  permission : GuildPermission
  allow : Bool
deriving DecidableEq

structure Db where
  keys : List SigningKeyRow
  identities : List IdentityId
  /-- guilds with their owners -/
  guilds : List (Uuid × IdentityId)
  roles : List RoleRow
  members : List MemberRow
  overrides : List OverrideRow
  /-- channels and events, with their guilds -/
  resources : List (GuildResourceKind × Uuid × Uuid)
  friends : IdentityId → List IdentityId
  forked : IdentityId → Bool
  guardians : IdentityId → Settings
  /-- `lower`, which depends on the locale of the database -/
  lower : String → String

/-! ## Requests -/

structure CreateRoleRequest where
  name : String
  permissions : List String
  description : String
  badge : Option RoleBadge
  proof : Proof

structure UpdateRoleRequest where
  name : Option String
  permissions : Option (List String)
  description : Option String
  badge : Option RoleBadge
  proof : Proof

structure SetPermissionOverrideRequest where
  roleIndex : ℤ
  resourceKind : String
  resourceId : Uuid
  permission : String
  allow : Bool
  proof : Proof

/-! ## Checks -/

def ownerRoleIndex : ℤ := 0

def memberRoleIndex : ℤ := 2

def maxRoleDescriptionLen : ℕ := 200

/-- an early return with an error -/
def refuseIf (c : Prop) [Decidable c] (e : AppError) : Except AppError Unit := if c then .error e else .ok ()

def fetchGuild (db : Db) (guildId : Uuid) : Except AppError IdentityId :=
  match db.guilds.find? fun g => decide (g.1 = guildId) with
  | some g => .ok g.2
  | none => .error .guildNotFound

def findRole (db : Db) (guildId : Uuid) (nameIndex : ℤ) : Option RoleRow :=
  db.roles.find? fun r => decide (r.guildId = guildId ∧ r.nameIndex = nameIndex)

def fetchRole (db : Db) (guildId : Uuid) (nameIndex : ℤ) : Except AppError RoleRow :=
  match findRole db guildId nameIndex with
  | some r => .ok r
  | none => .error .guildRoleNotFound

def memberOf (db : Db) (guildId : Uuid) (identityId : IdentityId) : Option MemberRow :=
  db.members.find? fun m => decide (m.guildId = guildId ∧ m.identityId = identityId)

def actorRolePermissions (db : Db) (guildId : Uuid) (actor : IdentityId) : List String :=
  ((memberOf db guildId actor).bind fun m => (findRole db guildId m.roleIndex).map RoleRow.permissions).getD []

def hasGuildPermission (guildOwner actor : IdentityId) (actorPermissions : List String) (permission : GuildPermission) : Bool :=
  decide (actor = guildOwner) || actorPermissions.any fun p => decide (p = permission.asStr)

def requireManageRoles (db : Db) (guildId : Uuid) (guildOwner actor : IdentityId) : Except AppError Unit :=
  if hasGuildPermission guildOwner actor (actorRolePermissions db guildId actor) .manageRoles then .ok ()
  else .error .missingGuildPermission

def requireGuildActionSignature (v : Verifier) (db : Db) (actor : IdentityId) (actionTag : String) (fields : List String)
    (proof : Proof) : Except AppError Unit :=
  requireFreshSignature v db.keys actor (canonicalMessage actionTag fields) proof

/-- what is outside of the vocabulary is dropped -/
def normalizePermissions (raw : List String) : List String := (raw.filterMap GuildPermission.parse).map GuildPermission.asStr

def validateRoleDescription (description : String) : Except AppError Unit :=
  if maxRoleDescriptionLen < description.toList.length then .error .invalidRoleDescription else .ok ()

/-- a description that is given, or the one there is -/
def descriptionOr (given : Option String) (existing : String) : Except AppError String :=
  match given with
  | some description => (validateRoleDescription description).map fun _ => description
  | none => .ok existing

def badgeOr (given : Option RoleBadge) (existing : RoleBadge) : Except AppError RoleBadge :=
  match given with
  | some badge => badge.intoBadge
  | none => .ok existing

def isBaseRole (nameIndex : ℤ) : Bool := decide (nameIndex = ownerRoleIndex ∨ nameIndex = memberRoleIndex)

def requireLiveResource (db : Db) (guildId : Uuid) (kind : GuildResourceKind) (resourceId : Uuid) : Except AppError Unit :=
  if (kind, guildId, resourceId) ∈ db.resources then .ok () else .error .resourceNotFound

/-! ## Handlers -/

section Handlers

variable (v : Verifier) (db : Db) (actor : IdentityId)

/-- `COALESCE(MAX(name_index), -1) + 1` -/
def nextRoleIndex (guildId : Uuid) : ℤ :=
  ((db.roles.filter fun r => decide (r.guildId = guildId)).map RoleRow.nameIndex).foldl max (-1) + 1

/-- the unique index of roles by guild and lower-case name; a role does not collide with itself -/
def nameTaken (guildId : Uuid) (nameIndex : ℤ) (name : String) : Bool :=
  db.roles.any fun r => decide (r.guildId = guildId ∧ r.nameIndex ≠ nameIndex ∧ db.lower r.name = db.lower name)

def createRole (guildId : Uuid) (body : CreateRoleRequest) : Except AppError Db := do
  let guildOwner ← fetchGuild db guildId
  requireManageRoles db guildId guildOwner actor
  let permissions := normalizePermissions body.permissions
  requireGuildActionSignature v db actor "guild.role.create" [uuidText guildId, body.name, ",".intercalate permissions] body.proof
  validateRoleDescription body.description
  let badge ← badgeOr body.badge .default
  let nameIndex := nextRoleIndex db guildId
  refuseIf (2 ^ 31 ≤ nameIndex) .database
  refuseIf (nameTaken db guildId nameIndex body.name) .guildRoleNameTaken
  return { db with
    roles := db.roles ++ [⟨guildId, nameIndex, body.name, permissions, body.description, badge⟩] }

def updateRole (guildId : Uuid) (nameIndex : ℤ) (body : UpdateRoleRequest) : Except AppError Db := do
  let guildOwner ← fetchGuild db guildId
  requireManageRoles db guildId guildOwner actor
  requireGuildActionSignature v db actor "guild.role.update" [uuidText guildId, i32Text nameIndex] body.proof
  refuseIf (nameIndex = ownerRoleIndex ∧ body.permissions.isSome) .cannotModifyOwnerRole
  let existing ← fetchRole db guildId nameIndex
  let name := body.name.getD existing.name
  let permissions := (body.permissions.map normalizePermissions).getD existing.permissions
  let description ← descriptionOr body.description existing.description
  let badge ← badgeOr body.badge existing.badge
  refuseIf (nameTaken db guildId nameIndex name) .guildRoleNameTaken
  return { db with
    roles := db.roles.map fun r =>
      if r.guildId = guildId ∧ r.nameIndex = nameIndex then ⟨guildId, nameIndex, name, permissions, description, badge⟩ else r }

/-- the overrides of a role go with it -/
def deleteRole (guildId : Uuid) (nameIndex : ℤ) (proof : Proof) : Except AppError Db := do
  let guildOwner ← fetchGuild db guildId
  requireManageRoles db guildId guildOwner actor
  requireGuildActionSignature v db actor "guild.role.delete" [uuidText guildId, i32Text nameIndex] proof
  refuseIf (isBaseRole nameIndex) .cannotDeleteBaseRole
  refuseIf (∃ m ∈ db.members, m.guildId = guildId ∧ m.roleIndex = nameIndex) .roleHasMembers
  refuseIf ((findRole db guildId nameIndex).isNone) .guildRoleNotFound
  return { db with
    roles := db.roles.filter fun r => decide (¬ (r.guildId = guildId ∧ r.nameIndex = nameIndex))
    overrides := db.overrides.filter fun o => decide (¬ (o.guildId = guildId ∧ o.roleIndex = nameIndex)) }

/-- the upsert: the row of the same role, resource and permission gets the value, or a row is added -/
def putOverride (overrides : List OverrideRow) (row : OverrideRow) : List OverrideRow :=
  let same (o : OverrideRow) : Prop := o.guildId = row.guildId ∧ o.roleIndex = row.roleIndex ∧
    o.resourceKind = row.resourceKind ∧ o.resourceId = row.resourceId ∧ o.permission = row.permission
  if ∃ o ∈ overrides, same o then overrides.map fun o => if same o then { o with allow := row.allow } else o
  else overrides ++ [row]

def setPermissionOverride (guildId : Uuid) (newId : Uuid) (body : SetPermissionOverrideRequest) : Except AppError Db := do
  let guildOwner ← fetchGuild db guildId
  requireManageRoles db guildId guildOwner actor
  requireGuildActionSignature v db actor "guild.permission_override.set"
    [uuidText guildId, i32Text body.roleIndex, body.resourceKind, uuidText body.resourceId, body.permission,
      boolText body.allow] body.proof
  let _ ← fetchRole db guildId body.roleIndex
  match GuildResourceKind.parse body.resourceKind with
  | none => throw .invalidResourceKind
  | some kind =>
    match GuildPermission.parse body.permission with
    | none => throw .invalidPermission
    | some permission =>
      requireLiveResource db guildId kind body.resourceId
      return { db with
        overrides := putOverride db.overrides ⟨newId, guildId, body.roleIndex, kind, body.resourceId, permission, body.allow⟩ }

def deletePermissionOverride (guildId overrideId : Uuid) (proof : Proof) : Except AppError Db := do
  let guildOwner ← fetchGuild db guildId
  requireManageRoles db guildId guildOwner actor
  requireGuildActionSignature v db actor "guild.permission_override.delete" [uuidText guildId, uuidText overrideId] proof
  refuseIf (¬ ∃ o ∈ db.overrides, o.id = overrideId ∧ o.guildId = guildId) .permissionOverrideNotFound
  return { db with overrides := db.overrides.filter fun o => decide (¬ (o.id = overrideId ∧ o.guildId = guildId)) }

def transferOwnership (guildId : Uuid) (recipient : IdentityId) (proof : Proof) : Except AppError Db := do
  let guildOwner ← fetchGuild db guildId
  refuseIf (actor ≠ guildOwner) .missingGuildPermission
  refuseIf (recipient = guildOwner) .alreadyGuildOwner
  requireGuildActionSignature v db actor "guild.transfer_ownership" [uuidText guildId, guildOwner.toText, recipient.toText] proof
  refuseIf (recipient ∉ db.identities) .identityNotFound
  return { db with guilds := db.guilds.map fun g => if g.1 = guildId then (guildId, recipient) else g }

/-- a role that lets its members manage roles or members -/
def isEscalation (role : RoleRow) : Bool :=
  role.permissions.any fun p =>
    decide (p = GuildPermission.manageRoles.asStr ∨ p = GuildPermission.manageMembers.asStr)

/-- also returns whether a signature was verified -/
def updateMemberRole (guildId : Uuid) (identityId : IdentityId) (roleIndex : ℤ) (proof : Proof) :
    Except AppError (Db × Bool) := do
  let guildOwner ← fetchGuild db guildId
  requireManageRoles db guildId guildOwner actor
  refuseIf (roleIndex = ownerRoleIndex ∨ identityId = guildOwner) .cannotAssignOwnerRole
  let targetRole ← fetchRole db guildId roleIndex
  let _ ← (if isEscalation targetRole then
    requireGuildActionSignature v db actor "guild.member_role.update"
      [uuidText guildId, identityId.toText, i32Text roleIndex] proof
    else .ok ())
  refuseIf ((memberOf db guildId identityId).isNone) .notGuildMember
  return ({ db with
    members := db.members.map fun m =>
      if m.guildId = guildId ∧ m.identityId = identityId then ⟨guildId, identityId, roleIndex⟩ else m }, isEscalation targetRole)

/-- also returns whether a signature was verified -/
def setGuardiansOf (body : SetGuardiansRequest) : Except AppError (Db × Bool) := do
  let (settings, signed) ← setGuardians v actor ⟨db.friends actor, db.keys, db.forked actor⟩ (db.guardians actor) body
  return ({ db with guardians := Function.update db.guardians actor settings }, signed)

inductive Request where
  | createRole (guildId : Uuid) (body : CreateRoleRequest)
  | updateRole (guildId : Uuid) (nameIndex : ℤ) (body : UpdateRoleRequest)
  | deleteRole (guildId : Uuid) (nameIndex : ℤ) (proof : Proof)
  | setPermissionOverride (guildId : Uuid) (body : SetPermissionOverrideRequest)
  | deletePermissionOverride (guildId overrideId : Uuid) (proof : Proof)
  | transferOwnership (guildId : Uuid) (recipient : IdentityId) (proof : Proof)
  | updateMemberRole (guildId : Uuid) (identityId : IdentityId) (roleIndex : ℤ) (proof : Proof)
  | setGuardians (body : SetGuardiansRequest)

def Request.proof : Request → Proof
  | createRole _ body => body.proof
  | updateRole _ _ body => body.proof
  | deleteRole _ _ proof => proof
  | setPermissionOverride _ body => body.proof
  | deletePermissionOverride _ _ proof => proof
  | transferOwnership _ _ proof => proof
  | updateMemberRole _ _ _ proof => proof
  | setGuardians body => body.proof

/-- the handler of a request; also returns whether a signature was verified -/
def handle (newId : Uuid) : Request → Except AppError (Db × Bool)
  | .createRole guildId body => (createRole v db actor guildId body).map fun db => (db, true)
  | .updateRole guildId nameIndex body => (updateRole v db actor guildId nameIndex body).map fun db => (db, true)
  | .deleteRole guildId nameIndex proof => (deleteRole v db actor guildId nameIndex proof).map fun db => (db, true)
  | .setPermissionOverride guildId body => (setPermissionOverride v db actor guildId newId body).map fun db => (db, true)
  | .deletePermissionOverride guildId overrideId proof =>
    (deletePermissionOverride v db actor guildId overrideId proof).map fun db => (db, true)
  | .transferOwnership guildId recipient proof => (transferOwnership v db actor guildId recipient proof).map fun db => (db, true)
  | .updateMemberRole guildId identityId roleIndex proof => updateMemberRole v db actor guildId identityId roleIndex proof
  | .setGuardians body => setGuardiansOf v db actor body

end Handlers

/-! ## Requested changes -/

/-- the change of the permission-relevant state a request asks for; a role update names only what it sets -/
inductive Change where
  | createRole (guildId : Uuid) (name : String) (permissions : List String)
  | updateRole (guildId : Uuid) (nameIndex : ℤ) (name : Option String) (permissions : Option (List String))
  | deleteRole (guildId : Uuid) (nameIndex : ℤ)
  | setPermissionOverride (guildId : Uuid) (roleIndex : ℤ) (resourceKind : String) (resourceId : Uuid) (permission : String)
    (allow : Bool)
  | deletePermissionOverride (guildId overrideId : Uuid)
  | transferOwnership (guildId : Uuid) (recipient : IdentityId)
  | updateMemberRole (guildId : Uuid) (identityId : IdentityId) (roleIndex : ℤ)
  | setGuardians (identityId : IdentityId) (guardians : List IdentityId) (threshold : ℤ)
deriving DecidableEq

def Request.change (actor : IdentityId) : Request → Change
  | createRole guildId body => .createRole guildId body.name (normalizePermissions body.permissions)
  | updateRole guildId nameIndex body => .updateRole guildId nameIndex body.name (body.permissions.map normalizePermissions)
  | deleteRole guildId nameIndex _ => .deleteRole guildId nameIndex
  | setPermissionOverride guildId body =>
    .setPermissionOverride guildId body.roleIndex body.resourceKind body.resourceId body.permission body.allow
  | deletePermissionOverride guildId overrideId _ => .deletePermissionOverride guildId overrideId
  | transferOwnership guildId recipient _ => .transferOwnership guildId recipient
  | updateMemberRole guildId identityId roleIndex _ => .updateMemberRole guildId identityId roleIndex
  | setGuardians body => .setGuardians actor (uniqueGuardians body.guardianIds) body.threshold

/-- what decides who may do what -/
@[ext] structure Permissions where
  owners : List (Uuid × IdentityId)
  /-- guild, index, name and permissions of each role -/
  roles : List (Uuid × ℤ × String × List String)
  members : List MemberRow
  overrides : List OverrideRow
  guardians : IdentityId → Settings

def RoleRow.rights (r : RoleRow) : Uuid × ℤ × String × List String := (r.guildId, r.nameIndex, r.name, r.permissions)

def Db.permissions (db : Db) : Permissions :=
  ⟨db.guilds, db.roles.map RoleRow.rights, db.members, db.overrides, db.guardians⟩

/-- the state a change leads to; a new override gets the given id -/
def Change.apply (newId : Uuid) (s : Permissions) : Change → Permissions
  | .createRole guildId name permissions =>
    let next := ((s.roles.filter fun r => decide (r.1 = guildId)).map fun r => r.2.1).foldl max (-1) + 1
    { s with roles := s.roles ++ [(guildId, next, name, permissions)] }
  | .updateRole guildId nameIndex name permissions =>
    let existing := s.roles.find? fun r => decide (r.1 = guildId ∧ r.2.1 = nameIndex)
    match existing with
    | none => s
    | some (_, _, oldName, oldPermissions) =>
      { s with roles := s.roles.map fun r =>
          if r.1 = guildId ∧ r.2.1 = nameIndex then (guildId, nameIndex, name.getD oldName, permissions.getD oldPermissions)
          else r }
  | .deleteRole guildId nameIndex =>
    { s with
      roles := s.roles.filter fun r => decide (¬ (r.1 = guildId ∧ r.2.1 = nameIndex))
      overrides := s.overrides.filter fun o => decide (¬ (o.guildId = guildId ∧ o.roleIndex = nameIndex)) }
  | .setPermissionOverride guildId roleIndex resourceKind resourceId permission allow =>
    match GuildResourceKind.parse resourceKind, GuildPermission.parse permission with
    | some kind, some permission =>
      { s with overrides := putOverride s.overrides ⟨newId, guildId, roleIndex, kind, resourceId, permission, allow⟩ }
    | _, _ => s
  | .deletePermissionOverride guildId overrideId =>
    { s with overrides := s.overrides.filter fun o => decide (¬ (o.id = overrideId ∧ o.guildId = guildId)) }
  | .transferOwnership guildId recipient => { s with owners := s.owners.map fun g => if g.1 = guildId then (guildId, recipient) else g }
  | .updateMemberRole guildId identityId roleIndex =>
    { s with members := s.members.map fun m =>
        if m.guildId = guildId ∧ m.identityId = identityId then ⟨guildId, identityId, roleIndex⟩ else m }
  | .setGuardians identityId guardians threshold =>
    { s with guardians := Function.update s.guardians identityId ⟨guardians, some threshold⟩ }

/-! ## Accepted requests -/

inductive Handler where
  | createRole
  | updateRole
  | deleteRole
  | setPermissionOverride
  | deletePermissionOverride
  | transferOwnership
  | updateMemberRole
  | setGuardians
deriving DecidableEq, Repr

/-- the tag of the text it has the caller sign -/
def Handler.tag : Handler → String
  | createRole => "guild.role.create"
  | updateRole => "guild.role.update"
  | deleteRole => "guild.role.delete"
  | setPermissionOverride => "guild.permission_override.set"
  | deletePermissionOverride => "guild.permission_override.delete"
  | transferOwnership => "guild.transfer_ownership"
  | updateMemberRole => "guild.member_role.update"
  | setGuardians => "recovery.guardians.set"

def Request.handler : Request → Handler
  | createRole .. => .createRole
  | updateRole .. => .updateRole
  | deleteRole .. => .deleteRole
  | setPermissionOverride .. => .setPermissionOverride
  | deletePermissionOverride .. => .deletePermissionOverride
  | transferOwnership .. => .transferOwnership
  | updateMemberRole .. => .updateMemberRole
  | setGuardians .. => .setGuardians

/-- the fields a handler has the caller sign -/
def Request.fields (actor : IdentityId) : Request → List String
  | createRole guildId body => [uuidText guildId, body.name, ",".intercalate (normalizePermissions body.permissions)]
  | updateRole guildId nameIndex _ => [uuidText guildId, i32Text nameIndex]
  | deleteRole guildId nameIndex _ => [uuidText guildId, i32Text nameIndex]
  | setPermissionOverride guildId body =>
    [uuidText guildId, i32Text body.roleIndex, body.resourceKind, uuidText body.resourceId, body.permission, boolText body.allow]
  | deletePermissionOverride guildId overrideId _ => [uuidText guildId, uuidText overrideId]
  | transferOwnership guildId recipient _ => [uuidText guildId, actor.toText, recipient.toText]
  | updateMemberRole guildId identityId roleIndex _ => [uuidText guildId, identityId.toText, i32Text roleIndex]
  | setGuardians body =>
    [actor.toText, ",".intercalate ((uniqueGuardians body.guardianIds).map IdentityId.toText), i32Text body.threshold]

/-- the text that is signed -/
def Request.message (actor : IdentityId) (r : Request) : Bytes := canonicalMessage r.handler.tag (r.fields actor)

/-- the texts a handler parses after the signature: a request with others is refused -/
def Request.Parsed : Request → Prop
  | setPermissionOverride _ body =>
    (∃ kind : GuildResourceKind, body.resourceKind = kind.asStr) ∧ ∃ permission : GuildPermission, body.permission = permission.asStr
  | _ => True

/-- what an accepted request was checked for, and what it changed -/
structure Accepted (v : Verifier) (db : Db) (actor : IdentityId) (newId : Uuid) (r : Request) (db' : Db) (signed : Bool) :
    Prop where
  gate : signed = true → requireFreshSignature v db.keys actor (r.message actor) r.proof = .ok ()
  parsed : r.Parsed
  change : db'.permissions = (r.change actor).apply newId db.permissions

section Accepted

variable {v : Verifier} {db db' : Db} {actor : IdentityId} {newId : Uuid}

theorem not_of_refuseIf {c : Prop} [Decidable c] {e : AppError} {u : Unit} (h : refuseIf c e = .ok u) : ¬ c := by
  unfold refuseIf at h
  split_ifs at h with hc
  exact hc

theorem accepted_createRole {guildId : Uuid} {body : CreateRoleRequest}
    (h : createRole v db actor guildId body = .ok db') : Accepted v db actor newId (.createRole guildId body) db' true := by
  unfold createRole at h
  obtain ⟨guildOwner, -, h⟩ := bind_eq_ok.1 h
  obtain ⟨-, -, h⟩ := bind_eq_ok.1 h
  obtain ⟨_, hgate, h⟩ := bind_eq_ok.1 h
  obtain ⟨-, -, h⟩ := bind_eq_ok.1 h
  obtain ⟨badge, -, h⟩ := bind_eq_ok.1 h
  obtain ⟨-, -, h⟩ := bind_eq_ok.1 h
  obtain ⟨-, -, h⟩ := bind_eq_ok.1 h
  cases h
  refine ⟨fun _ => hgate, trivial, ?_⟩
  have hnext : ((db.roles.map RoleRow.rights).filter fun r => decide (r.1 = guildId)).map (fun r => r.2.1) =
      (db.roles.filter fun r => decide (r.guildId = guildId)).map RoleRow.nameIndex := by
    rw [List.filter_map, List.map_map]
    rfl
  simp only [Db.permissions, Request.change, Change.apply, hnext, nextRoleIndex, List.map_append, List.map_cons, List.map_nil,
    RoleRow.rights]

theorem fetchRole_eq_ok {guildId : Uuid} {nameIndex : ℤ} {role : RoleRow} (h : fetchRole db guildId nameIndex = .ok role) :
    findRole db guildId nameIndex = some role := by
  unfold fetchRole at h
  split at h
  · rename_i r hr
    cases h
    exact hr
  · cases h

theorem accepted_updateRole {guildId : Uuid} {nameIndex : ℤ} {body : UpdateRoleRequest}
    (h : updateRole v db actor guildId nameIndex body = .ok db') :
    Accepted v db actor newId (.updateRole guildId nameIndex body) db' true := by
  unfold updateRole at h
  obtain ⟨guildOwner, -, h⟩ := bind_eq_ok.1 h
  obtain ⟨-, -, h⟩ := bind_eq_ok.1 h
  obtain ⟨_, hgate, h⟩ := bind_eq_ok.1 h
  obtain ⟨-, -, h⟩ := bind_eq_ok.1 h
  obtain ⟨existing, hexisting, h⟩ := bind_eq_ok.1 h
  obtain ⟨description, -, h⟩ := bind_eq_ok.1 h
  obtain ⟨badge, -, h⟩ := bind_eq_ok.1 h
  obtain ⟨-, -, h⟩ := bind_eq_ok.1 h
  cases h
  refine ⟨fun _ => hgate, trivial, ?_⟩
  have hfind : (db.roles.map RoleRow.rights).find? (fun r => decide (r.1 = guildId ∧ r.2.1 = nameIndex)) =
      some existing.rights := by
    have hrole := fetchRole_eq_ok hexisting
    unfold findRole at hrole
    rw [List.find?_map]
    have hsame : ((fun r : Uuid × ℤ × String × List String => decide (r.1 = guildId ∧ r.2.1 = nameIndex)) ∘ RoleRow.rights) =
        fun r => decide (r.guildId = guildId ∧ r.nameIndex = nameIndex) := rfl
    rw [hsame, hrole]
    rfl
  simp only [Db.permissions, Request.change, Change.apply, hfind, RoleRow.rights, List.map_map]
  congr 1
  apply List.map_congr_left
  intro r _
  rw [Function.comp_apply]
  by_cases hr : r.guildId = guildId ∧ r.nameIndex = nameIndex
  · rw [if_pos hr]
    exact (if_pos hr).symm
  · rw [if_neg hr]
    exact (if_neg hr).symm

theorem accepted_deleteRole {guildId : Uuid} {nameIndex : ℤ} {proof : Proof}
    (h : deleteRole v db actor guildId nameIndex proof = .ok db') :
    Accepted v db actor newId (.deleteRole guildId nameIndex proof) db' true := by
  unfold deleteRole at h
  obtain ⟨guildOwner, -, h⟩ := bind_eq_ok.1 h
  obtain ⟨-, -, h⟩ := bind_eq_ok.1 h
  obtain ⟨_, hgate, h⟩ := bind_eq_ok.1 h
  obtain ⟨-, -, h⟩ := bind_eq_ok.1 h
  obtain ⟨-, -, h⟩ := bind_eq_ok.1 h
  obtain ⟨-, -, h⟩ := bind_eq_ok.1 h
  cases h
  refine ⟨fun _ => hgate, trivial, ?_⟩
  simp only [Db.permissions, Request.change, Change.apply, List.filter_map]
  rfl

theorem resourceKind_of_parse {text : String} {kind : GuildResourceKind} (h : GuildResourceKind.parse text = some kind) :
    text = kind.asStr := (of_decide_eq_true (List.find?_some h :)).symm

theorem permission_of_parse {text : String} {permission : GuildPermission} (h : GuildPermission.parse text = some permission) :
    text = permission.asStr := (of_decide_eq_true (List.find?_some h :)).symm

theorem accepted_setPermissionOverride {guildId : Uuid} {body : SetPermissionOverrideRequest}
    (h : setPermissionOverride v db actor guildId newId body = .ok db') :
    Accepted v db actor newId (.setPermissionOverride guildId body) db' true := by
  unfold setPermissionOverride at h
  obtain ⟨guildOwner, -, h⟩ := bind_eq_ok.1 h
  obtain ⟨-, -, h⟩ := bind_eq_ok.1 h
  obtain ⟨_, hgate, h⟩ := bind_eq_ok.1 h
  obtain ⟨role, -, h⟩ := bind_eq_ok.1 h
  split at h
  · cases h
  · rename_i kind hkind
    split at h
    · cases h
    · rename_i permission hpermission
      obtain ⟨-, -, h⟩ := bind_eq_ok.1 h
      cases h
      refine ⟨fun _ => hgate, ⟨⟨kind, resourceKind_of_parse hkind⟩, ⟨permission, permission_of_parse hpermission⟩⟩, ?_⟩
      simp only [Db.permissions, Request.change, Change.apply, hkind, hpermission]

theorem accepted_deletePermissionOverride {guildId overrideId : Uuid} {proof : Proof}
    (h : deletePermissionOverride v db actor guildId overrideId proof = .ok db') :
    Accepted v db actor newId (.deletePermissionOverride guildId overrideId proof) db' true := by
  unfold deletePermissionOverride at h
  obtain ⟨guildOwner, -, h⟩ := bind_eq_ok.1 h
  obtain ⟨-, -, h⟩ := bind_eq_ok.1 h
  obtain ⟨_, hgate, h⟩ := bind_eq_ok.1 h
  obtain ⟨-, -, h⟩ := bind_eq_ok.1 h
  cases h
  exact ⟨fun _ => hgate, trivial, rfl⟩

theorem accepted_transferOwnership {guildId : Uuid} {recipient : IdentityId} {proof : Proof}
    (h : transferOwnership v db actor guildId recipient proof = .ok db') :
    Accepted v db actor newId (.transferOwnership guildId recipient proof) db' true := by
  unfold transferOwnership at h
  obtain ⟨guildOwner, -, h⟩ := bind_eq_ok.1 h
  obtain ⟨_, howner, h⟩ := bind_eq_ok.1 h
  obtain ⟨-, -, h⟩ := bind_eq_ok.1 h
  obtain ⟨_, hgate, h⟩ := bind_eq_ok.1 h
  obtain ⟨-, -, h⟩ := bind_eq_ok.1 h
  cases h
  -- only the owner gets here
  rw [← not_not.1 (not_of_refuseIf howner)] at hgate
  exact ⟨fun _ => hgate, trivial, rfl⟩

theorem accepted_updateMemberRole {guildId : Uuid} {identityId : IdentityId} {roleIndex : ℤ} {proof : Proof} {signed : Bool}
    (h : updateMemberRole v db actor guildId identityId roleIndex proof = .ok (db', signed)) :
    Accepted v db actor newId (.updateMemberRole guildId identityId roleIndex proof) db' signed := by
  unfold updateMemberRole at h
  obtain ⟨guildOwner, -, h⟩ := bind_eq_ok.1 h
  obtain ⟨-, -, h⟩ := bind_eq_ok.1 h
  obtain ⟨-, -, h⟩ := bind_eq_ok.1 h
  obtain ⟨targetRole, -, h⟩ := bind_eq_ok.1 h
  obtain ⟨_, hgate, h⟩ := bind_eq_ok.1 h
  obtain ⟨-, -, h⟩ := bind_eq_ok.1 h
  cases h
  refine ⟨fun hsigned => ?_, trivial, rfl⟩
  rw [if_pos hsigned] at hgate
  exact hgate

theorem accepted_setGuardians {body : SetGuardiansRequest} {signed : Bool}
    (h : setGuardiansOf v db actor body = .ok (db', signed)) : Accepted v db actor newId (.setGuardians body) db' signed := by
  unfold setGuardiansOf at h
  obtain ⟨⟨settings, signed'⟩, hset, h⟩ := bind_eq_ok.1 h
  cases h
  obtain ⟨hcheck, hauth, hthreshold⟩ := setGuardians_eq_ok hset
  have hguardians := (checkGuardians_eq_ok hcheck).1
  refine ⟨fun hsigned => ?_, trivial, ?_⟩
  · subst hsigned
    unfold authorizeGuardians at hauth
    split at hauth
    · split at hauth
      · cases hauth
      · rename_i hgate
        rw [hguardians] at hgate
        exact hgate
    · cases hauth
  · have hsettings : settings = ⟨uniqueGuardians body.guardianIds, some body.threshold⟩ := Settings.ext hguardians hthreshold
    rw [hsettings]
    rfl

/-- **Accepted requests**: the gate, the texts and the change, for every handler -/
theorem accepted_of_handle {r : Request} {signed : Bool} (h : handle v db actor newId r = .ok (db', signed)) :
    Accepted v db actor newId r db' signed := by
  have hmap : ∀ {x : Except AppError Db}, (x.map fun db => (db, true)) = .ok (db', signed) → x = .ok db' ∧ signed = true := by
    intro x hx
    cases x with
    | error e => cases hx
    | ok d =>
      cases hx
      exact ⟨rfl, rfl⟩
  cases r with
  | createRole guildId body =>
    obtain ⟨hok, rfl⟩ := hmap h
    exact accepted_createRole hok
  | updateRole guildId nameIndex body =>
    obtain ⟨hok, rfl⟩ := hmap h
    exact accepted_updateRole hok
  | deleteRole guildId nameIndex proof =>
    obtain ⟨hok, rfl⟩ := hmap h
    exact accepted_deleteRole hok
  | setPermissionOverride guildId body =>
    obtain ⟨hok, rfl⟩ := hmap h
    exact accepted_setPermissionOverride hok
  | deletePermissionOverride guildId overrideId proof =>
    obtain ⟨hok, rfl⟩ := hmap h
    exact accepted_deletePermissionOverride hok
  | transferOwnership guildId recipient proof =>
    obtain ⟨hok, rfl⟩ := hmap h
    exact accepted_transferOwnership hok
  | updateMemberRole guildId identityId roleIndex proof => exact accepted_updateMemberRole h
  | setGuardians body => exact accepted_setGuardians h

end Accepted

/-! ## The signed text tells requests apart -/

theorem plain_permission (p : GuildPermission) : Plain p.asStr := by
  cases p <;> simp [Plain, GuildPermission.asStr]

theorem plain_resourceKind (k : GuildResourceKind) : Plain k.asStr := by
  cases k <;> simp [Plain, GuildResourceKind.asStr]

theorem plain_normalizePermissions {raw : List String} {t : String} (h : t ∈ normalizePermissions raw) : Plain t ∧ t ≠ "" := by
  obtain ⟨p, -, rfl⟩ := List.mem_map.1 h
  exact ⟨plain_permission p, by cases p <;> decide⟩

/-- the parts of a plain field, before those of the fields after it -/
theorem flatMap_parts_cons {text : String} (h : Plain text) (fields : List String) :
    (text :: fields).flatMap parts = text.toList :: fields.flatMap parts := by
  rw [List.flatMap_cons, h.parts, List.singleton_append]

theorem plain_join {items : List String} (h : ∀ t ∈ items, Plain t) : parts (",".intercalate items) = [(",".intercalate items).toList] :=
  parts_of_notMem (colon_notMem_join h)

theorem colon_notMem_tag (handler : Handler) : ':' ∉ handler.tag.toList := by
  cases handler <;> decide

theorem tag_injective {a b : Handler} (h : a.tag = b.tag) : a = b := by
  cases a <;> cases b <;> first | rfl | exact absurd h (by decide)

/-- agreement in all that is signed: of a role update, the guild and the role -/
def SameFields (actor : IdentityId) : Request → Request → Prop
  | .updateRole guildId nameIndex _, .updateRole guildId' nameIndex' _ => guildId = guildId' ∧ nameIndex = nameIndex'
  | r, r' => r.change actor = r'.change actor

section Fields

variable {actor : IdentityId}

theorem same_createRole {guildId guildId' : Uuid} {body body' : CreateRoleRequest}
    (h : ((Request.createRole guildId body).fields actor).flatMap parts =
      ((Request.createRole guildId' body').fields actor).flatMap parts) :
    (Request.createRole guildId body).change actor = (Request.createRole guildId' body').change actor := by
  have hplain : ∀ raw, ∀ t ∈ normalizePermissions raw, Plain t := fun raw t ht => (plain_normalizePermissions ht).1
  have hitem : ∀ raw, ∀ t ∈ normalizePermissions raw, Item t :=
    fun raw t ht => (plain_normalizePermissions ht).1.item (plain_normalizePermissions ht).2
  simp only [Request.fields] at h
  rw [flatMap_parts_cons (plain_uuidText _), flatMap_parts_cons (plain_uuidText _)] at h
  obtain ⟨hguild, h⟩ := List.cons.inj h
  simp only [List.flatMap_cons, List.flatMap_nil, List.append_nil, plain_join (hplain _)] at h
  -- the permissions are the last part; all between is the name
  obtain ⟨hname, hpermissions⟩ := List.append_inj' h rfl
  have hpermissions := String.toList_inj.1 (List.cons.inj hpermissions).1
  simp only [Request.change]
  rw [uuidText_injective (String.toList_inj.1 hguild), parts_injective hname,
    join_injective (hitem _) (hitem _) hpermissions]

/-- a guild and another id, or a guild and an index -/
theorem same_two {text : α → String} (hplain : ∀ a, Plain (text a)) (hinj : ∀ a b, text a = text b → a = b) {guildId guildId' : Uuid}
    {a b : α} (h : [uuidText guildId, text a].flatMap parts = [uuidText guildId', text b].flatMap parts) :
    guildId = guildId' ∧ a = b := by
  rw [flatMap_parts_cons (plain_uuidText _), flatMap_parts_cons (plain_uuidText _), flatMap_parts_cons (hplain _),
    flatMap_parts_cons (hplain _)] at h
  obtain ⟨hguild, h⟩ := List.cons.inj h
  obtain ⟨htext, -⟩ := List.cons.inj h
  exact ⟨uuidText_injective (String.toList_inj.1 hguild), hinj a b (String.toList_inj.1 htext)⟩

theorem same_setPermissionOverride {guildId guildId' : Uuid} {body body' : SetPermissionOverrideRequest}
    (hparsed : (Request.setPermissionOverride guildId body).Parsed) (hparsed' : (Request.setPermissionOverride guildId' body').Parsed)
    (h : ((Request.setPermissionOverride guildId body).fields actor).flatMap parts =
      ((Request.setPermissionOverride guildId' body').fields actor).flatMap parts) :
    (Request.setPermissionOverride guildId body).change actor = (Request.setPermissionOverride guildId' body').change actor := by
  obtain ⟨⟨kind, hkind⟩, ⟨permission, hpermission⟩⟩ := hparsed
  obtain ⟨⟨kind', hkind'⟩, ⟨permission', hpermission'⟩⟩ := hparsed'
  simp only [Request.fields, hkind, hkind', hpermission, hpermission'] at h
  simp only [flatMap_parts_cons (plain_uuidText _), flatMap_parts_cons (plain_i32Text _),
    flatMap_parts_cons (plain_resourceKind _), flatMap_parts_cons (plain_permission _),
    flatMap_parts_cons (plain_boolText _), List.cons.injEq, String.toList_inj] at h
  obtain ⟨hguild, hrole, hkinds, hresource, hpermissions, hallow, -⟩ := h
  simp only [Request.change, hkind, hkind', hpermission, hpermission']
  rw [uuidText_injective hguild, i32Text_injective hrole, hkinds, uuidText_injective hresource, hpermissions,
    boolText_injective hallow]

theorem same_setGuardians {body body' : SetGuardiansRequest}
    (h : ((Request.setGuardians body).fields actor).flatMap parts =
      ((Request.setGuardians body').fields actor).flatMap parts) :
    (Request.setGuardians body).change actor = (Request.setGuardians body').change actor := by
  have hplain : ∀ ids : List IdentityId, ∀ t ∈ ids.map IdentityId.toText, Plain t := by
    intro ids t ht
    obtain ⟨id, -, rfl⟩ := List.mem_map.1 ht
    exact plain_idText id
  have hitem : ∀ ids : List IdentityId, ∀ t ∈ ids.map IdentityId.toText, Item t := by
    intro ids t ht
    obtain ⟨id, -, rfl⟩ := List.mem_map.1 ht
    exact (plain_idText id).item (idText_ne_empty id)
  simp only [Request.fields] at h
  rw [flatMap_parts_cons (plain_idText _), flatMap_parts_cons (plain_idText _)] at h
  simp only [List.flatMap_cons, List.flatMap_nil, plain_join (hplain _), (plain_i32Text _).parts, List.singleton_append,
    List.append_nil, List.cons.injEq, String.toList_inj, true_and, and_true] at h
  obtain ⟨hguardians, hthreshold⟩ := h
  have hlists := join_injective (hitem _) (hitem _) hguardians
  simp only [Request.change]
  rw [List.map_injective_iff.2 (fun _ _ => idText_injective) hlists, i32Text_injective hthreshold]

/-- **The same signed text.** Requests that are accepted with it are to the same handler, and agree in what is signed -/
theorem same_fields {r r' : Request} (hparsed : r.Parsed) (hparsed' : r'.Parsed) (h : r.message actor = r'.message actor) :
    r.handler = r'.handler ∧ SameFields actor r r' := by
  obtain ⟨htag, hfields⟩ := fields_of_canonicalMessage (colon_notMem_tag _) (colon_notMem_tag _) h
  have hhandler := tag_injective htag
  refine ⟨hhandler, ?_⟩
  cases r with
  | createRole guildId body =>
    cases r' with
    | createRole guildId' body' => exact same_createRole hfields
    | _ => cases hhandler
  | updateRole guildId nameIndex body =>
    cases r' with
    | updateRole guildId' nameIndex' body' => exact same_two plain_i32Text (fun _ _ => i32Text_injective) hfields
    | _ => cases hhandler
  | deleteRole guildId nameIndex proof =>
    cases r' with
    | deleteRole guildId' nameIndex' proof' =>
      obtain ⟨rfl, rfl⟩ := same_two plain_i32Text (fun _ _ => i32Text_injective) hfields
      rfl
    | _ => cases hhandler
  | setPermissionOverride guildId body =>
    cases r' with
    | setPermissionOverride guildId' body' => exact same_setPermissionOverride hparsed hparsed' hfields
    | _ => cases hhandler
  | deletePermissionOverride guildId overrideId proof =>
    cases r' with
    | deletePermissionOverride guildId' overrideId' proof' =>
      obtain ⟨rfl, rfl⟩ := same_two plain_uuidText (fun _ _ => uuidText_injective) hfields
      rfl
    | _ => cases hhandler
  | transferOwnership guildId recipient proof =>
    cases r' with
    | transferOwnership guildId' recipient' proof' =>
      simp only [Request.fields, flatMap_parts_cons (plain_uuidText _), flatMap_parts_cons (plain_idText _),
        List.cons.injEq, String.toList_inj] at hfields
      obtain ⟨hguild, -, hrecipient, -⟩ := hfields
      change Request.change actor _ = Request.change actor _
      rw [Request.change, Request.change, uuidText_injective hguild, idText_injective hrecipient]
    | _ => cases hhandler
  | updateMemberRole guildId identityId roleIndex proof =>
    cases r' with
    | updateMemberRole guildId' identityId' roleIndex' proof' =>
      simp only [Request.fields, flatMap_parts_cons (plain_uuidText _), flatMap_parts_cons (plain_idText _),
        flatMap_parts_cons (plain_i32Text _), List.cons.injEq, String.toList_inj] at hfields
      obtain ⟨hguild, hidentity, hrole, -⟩ := hfields
      change Request.change actor _ = Request.change actor _
      rw [Request.change, Request.change, uuidText_injective hguild, idText_injective hidentity, i32Text_injective hrole]
    | _ => cases hhandler
  | setGuardians body =>
    cases r' with
    | setGuardians body' => exact same_setGuardians hfields
    | _ => cases hhandler

end Fields

/-! ## Signatures bind requests -/

/-- the request is accepted, and its signature was verified -/
def AcceptedSigned (v : Verifier) (db : Db) (actor : IdentityId) (newId : Uuid) (r : Request) : Prop :=
  ∃ db', handle v db actor newId r = .ok (db', true)

/-- the two requests are to the same handler, and ask for the same change -/
def SameAction (actor : IdentityId) (r r' : Request) : Prop := r.handler = r'.handler ∧ r.change actor = r'.change actor

/-- two role updates set the same name and the same permissions; there is nothing to ask of other requests -/
def SameRoleContents : Request → Request → Prop
  | .updateRole _ _ body, .updateRole _ _ body' =>
    body.name = body'.name ∧ body.permissions.map normalizePermissions = body'.permissions.map normalizePermissions
  | _, _ => True

theorem sameAction_iff {actor : IdentityId} {r r' : Request} (hhandler : r.handler = r'.handler) (hfields : SameFields actor r r') :
    SameAction actor r r' ↔ SameRoleContents r r' := by
  cases r with
  | updateRole guildId nameIndex body =>
    cases r' with
    | updateRole guildId' nameIndex' body' =>
      obtain ⟨rfl, rfl⟩ := hfields
      constructor
      · rintro ⟨-, hchange⟩
        simp only [Request.change, Change.updateRole.injEq] at hchange
        exact ⟨hchange.2.2.1, hchange.2.2.2⟩
      · rintro ⟨hname, hpermissions⟩
        refine ⟨rfl, ?_⟩
        simp only [Request.change, hname, hpermissions]
    | _ => cases hhandler
  | _ => exact iff_of_true ⟨hhandler, hfields⟩ trivial

/-- **Signatures bind requests.** Of two requests accepted with the same signature under the same key, both are the same action,
if and only if they are not two role updates with different contents; or the signature is valid for two different texts -/
theorem signature_binds_iff (v : Verifier) (actor : IdentityId) (db db' : Db) (newId newId' : Uuid) (r r' : Request)
    (h : AcceptedSigned v db actor newId r) (h' : AcceptedSigned v db' actor newId' r') (hproof : r.proof = r'.proof)
    (hkeys : ∀ keyId ∈ r.proof.signingKeyId, activeKey db.keys keyId actor = activeKey db'.keys keyId actor) :
    (SameAction actor r r' ↔ SameRoleContents r r') ∨ v.TwiceValid (r.message actor) (r'.message actor) := by
  obtain ⟨d, hd⟩ := h
  obtain ⟨d', hd'⟩ := h'
  have haccepted := accepted_of_handle hd
  have haccepted' := accepted_of_handle hd'
  have hgate' := haccepted'.gate rfl
  rw [← hproof] at hgate'
  rcases message_eq_of_accepted hkeys (haccepted.gate rfl) hgate' with hmessage | htwice
  · left
    obtain ⟨hhandler, hfields⟩ := same_fields haccepted.parsed haccepted'.parsed hmessage
    exact sameAction_iff hhandler hfields
  · exact .inr htwice

/-! ## A guild whose owner signs -/

def guild1 : Uuid := .replicate 16 7

/-- Ed25519 restricted to one signature over one message -/
def oneMessage (message : Bytes) (signature : FixedBytes 64) : Verifier where
  ed := {
    verifyingKey _ := .ofHex 32 "2152f8d19b791d24453242e15f2eab6cb7cffa7b6a5ed30097960e069881db12"
    sign _ _ := signature
    verifyStrict _ message' signature' := decide (message' = message) && decide (signature' = signature) }
  validKey _ := true

theorem not_twiceValid_oneMessage (message : Bytes) (signature : FixedBytes 64) (message₁ message₂ : Bytes) :
    ¬ (oneMessage message signature).TwiceValid message₁ message₂ := by
  rintro ⟨hne, key, sig, h₁, h₂⟩
  simp only [oneMessage, Bool.and_eq_true, decide_eq_true_eq] at h₁ h₂
  exact hne (h₁.1.trans h₂.1.symm)

/-- the guild with its owner and one more role -/
def ownedGuild : Db where
  keys := [keyRow]
  identities := [owner1]
  guilds := [(guild1, owner1)]
  roles := [⟨guild1, 3, "scribes", ["view"], "", .default⟩]
  members := []
  overrides := []
  resources := []
  friends _ := []
  forked _ := false
  guardians _ := ⟨[], none⟩
  lower name := String.ofList (name.toList.map Char.toLower)

theorem acceptedSigned_of_snd {v : Verifier} {db : Db} {actor : IdentityId} {newId : Uuid} {r : Request}
    (h : (handle v db actor newId r).toOption.map Prod.snd = some true) : AcceptedSigned v db actor newId r := by
  cases hx : handle v db actor newId r with
  | error e =>
    rw [hx] at h
    cases h
  | ok d =>
    obtain ⟨db', signed⟩ := d
    rw [hx] at h
    cases h
    exact ⟨db', hx⟩

/-- a role whose name holds a colon, with a description -/
def newRole (description : String) : Request := .createRole guild1 ⟨"a:b", ["manage_roles", "fly"], description, none, some keyRow.id,
  some "4sNnWhGkohLf3dzZ8JJvikBbXolQTvdKRNu/rAwa2bxafXbTquUs/DbCvM3RzR6pGNnM26N7RP8rTWsUjPU6Bg=="⟩

def newRoleVerifier : Verifier := oneMessage (canonicalMessage "guild.role.create" [uuidText guild1, "a:b", "manage_roles"]) <| .ofHex 64
  "e2c3675a11a4a212dfdddcd9f0926f8a405b5e89504ef74a44dbbfac0c1ad9bc5a7d76d3aae52cfc36c2bccdd1cd1ea918d9ccdba37b44ff2b4d6b148cf53a06"

/-- a signature over a new role is good for that role again, also with another description -/
theorem signature_binds_iff_newRole :
    AcceptedSigned newRoleVerifier ownedGuild owner1 guild1 (newRole "") ∧ SameAction owner1 (newRole "") (newRole "again") := by
  have hfirst : AcceptedSigned newRoleVerifier ownedGuild owner1 guild1 (newRole "") := acceptedSigned_of_snd (by decide +kernel)
  have hsecond : AcceptedSigned newRoleVerifier ownedGuild owner1 guild1 (newRole "again") :=
    acceptedSigned_of_snd (by decide +kernel)
  refine ⟨hfirst, ?_⟩
  have hbinds := signature_binds_iff newRoleVerifier owner1 ownedGuild ownedGuild guild1 guild1 (newRole "") (newRole "again")
    hfirst hsecond rfl (fun _ _ => rfl)
  exact (hbinds.resolve_right (not_twiceValid_oneMessage _ _ _ _)).2 trivial

def updateScribes (permissions : List String) : Request := .updateRole guild1 3 ⟨none, some permissions, none, none, some keyRow.id,
  some "W2WHPaFZ4qGb0K2vp5DuYtoAFrE/r916ZeIa2WElJ8iu7LQye+fyoG9XApu2gclhth0/9rvl9GmHmZad78irDw=="⟩

def updateScribesVerifier : Verifier := oneMessage (canonicalMessage "guild.role.update" [uuidText guild1, "3"]) <| .ofHex 64
  "5b65873da159e2a19bd0adafa790ee62da0016b13fafdd7a65e21ad9612527c8aeecb4327be7f2a06f57029bb681c961b61d3ff6bbe5f4698799969defc8ab0f"

/-- **A role update, replayed.** The owner signs that the role loses its permissions; the same signature grants it `manage_roles` -/
theorem role_update_replayed :
    ¬ ∀ (v : Verifier) (actor : IdentityId) (db db' : Db) (newId newId' : Uuid) (r r' : Request),
      AcceptedSigned v db actor newId r → AcceptedSigned v db' actor newId' r' → r.proof = r'.proof →
      (∀ keyId ∈ r.proof.signingKeyId, activeKey db.keys keyId actor = activeKey db'.keys keyId actor) →
      SameAction actor r r' ∨ v.TwiceValid (r.message actor) (r'.message actor) := by
  intro h
  have hfirst : AcceptedSigned updateScribesVerifier ownedGuild owner1 guild1 (updateScribes []) :=
    acceptedSigned_of_snd (by decide +kernel)
  have hsecond : AcceptedSigned updateScribesVerifier ownedGuild owner1 guild1 (updateScribes ["manage_roles"]) :=
    acceptedSigned_of_snd (by decide +kernel)
  have hsame := (h updateScribesVerifier owner1 ownedGuild ownedGuild guild1 guild1 (updateScribes [])
    (updateScribes ["manage_roles"]) hfirst hsecond rfl (fun _ _ => rfl)).resolve_right (not_twiceValid_oneMessage _ _ _ _)
  have hchange : (updateScribes []).change owner1 ≠ (updateScribes ["manage_roles"]).change owner1 := by decide
  exact hchange hsame.2

end Avalon.Guilds
