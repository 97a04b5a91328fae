/-
Who may see a guild resource and its details (`crates/server/src/guilds.rs`: `actor_role`, `fetch_override`,
`resolve_view_permission`, `has_view_permission`).

A state is what decides who may do what (`Permissions`), and a run is a list of changes to it: the changes that accepted
requests ask for, in any order and whatever they were checked against, and the writes of the roster's projection.

An override of `view_details` that is absent grants the details, but only a present one lets them imply `view`.

Results:
- `details_imply_view_iff`: in which states details imply view.
- `paired_run`: where every denial of `view` stands beside an override of `view_details`, and the changes keep it so, it is so in
  every state reached.
- `run_irrelevant`: changes of overrides for something else do not show in an answer.
- `denied_view_leaves_details`: a role that is denied a channel's `view` still gets its details.
-/
import Mathlib.Tactic
import Avalon.Server.GuildRoles
import Avalon.Server.GuildRoleRefs
import Avalon.Server.GuildMembership

namespace Avalon.GuildView

open Avalon.Identity Avalon.SignatureGate Avalon.Guardians Avalon.Guilds
open Avalon.GuildRoleRefs (upsertMember)
open Avalon.GuildMembership (deleteMember)
open Avalon.Events

/-! ## The check -/

/-- index and base permissions of the actor's role; `none` also for a member whose role is gone -/
def actorRole (db : Db) (guildId : Uuid) (actor : IdentityId) : Option (ℤ × List String) :=
  (memberOf db guildId actor).bind fun m => (findRole db guildId m.roleIndex).map fun role => (m.roleIndex, role.permissions)

/-- a guild's role, and a resource -/
structure Place where
  guildId : Uuid
  roleIndex : ℤ
  resourceKind : GuildResourceKind
  resourceId : Uuid
deriving DecidableEq

def place (o : OverrideRow) : Place := ⟨o.guildId, o.roleIndex, o.resourceKind, o.resourceId⟩

def fetchOverride (overrides : List OverrideRow) (at' : Place) (permission : GuildPermission) : Option Bool :=
  (overrides.find? fun o => decide (place o = at' ∧ o.permission = permission)).map OverrideRow.allow

def resolveViewPermission (isOwner isMember : Bool) (viewOverride viewDetailsOverride : Option Bool)
    (resourcePublic wantDetails : Bool) : Bool :=
  if isOwner then true
  else if !isMember then resourcePublic
  else if wantDetails then viewDetailsOverride.getD true
  -- an absent override does not count here
  else if viewDetailsOverride = some true then true
  else viewOverride.getD true

def hasViewPermission (db : Db) (guildId : Uuid) (guildOwner actor : IdentityId) (resourceKind : GuildResourceKind)
    (resourceId : Uuid) (resourcePublic wantDetails : Bool) : Bool :=
  if actor = guildOwner then true
  else
    match actorRole db guildId actor with
    | none => resolveViewPermission false false none none resourcePublic wantDetails
    | some (roleIndex, _) =>
      let viewOverride := fetchOverride db.overrides ⟨guildId, roleIndex, resourceKind, resourceId⟩ .view
      let viewDetailsOverride := fetchOverride db.overrides ⟨guildId, roleIndex, resourceKind, resourceId⟩ .viewDetails
      resolveViewPermission false true viewOverride viewDetailsOverride resourcePublic wantDetails

/-! ## Changes -/

inductive Event where
  /-- an accepted request asks for a change; a new override gets the id -/
  | change (newId : Uuid) (c : Change)
  /-- the roster gets a member, or a member's role -/
  | upsertMember (guildId : Uuid) (identityId : IdentityId) (roleIndex : ℤ)
  | deleteMember (guildId : Uuid) (identityId : IdentityId)

def Event.apply (s : Permissions) : Event → Permissions
  | change newId c => c.apply newId s
  | upsertMember guildId identityId roleIndex =>
    { s with
      members := (s.members.filter fun m => decide (¬ (m.guildId = guildId ∧ m.identityId = identityId))) ++
        [⟨guildId, identityId, roleIndex⟩] }
  | deleteMember guildId identityId =>
    { s with members := s.members.filter fun m => decide (¬ (m.guildId = guildId ∧ m.identityId = identityId)) }

def run (s : Permissions) (events : List Event) : Permissions := events.foldl Event.apply s

/-- the event of each accepted request, and of each write to the roster -/
theorem event_of_write {v : Verifier} {db : Db} :
    (∀ {db' : Db} {actor : IdentityId} {newId : Uuid} {r : Request} {signed : Bool},
      handle v db actor newId r = .ok (db', signed) →
        db'.permissions = (Event.change newId (r.change actor)).apply db.permissions) ∧
    (∀ guildId identityId roleIndex, (upsertMember guildId db identityId roleIndex).permissions =
      (Event.upsertMember guildId identityId roleIndex).apply db.permissions) ∧
    ∀ guildId identityId, (deleteMember db guildId identityId).permissions =
      (Event.deleteMember guildId identityId).apply db.permissions :=
  ⟨fun h => (accepted_of_handle h).change, fun _ _ _ => rfl, fun _ _ => rfl⟩

/-- the condition: a denial of `view` finds an override of `view_details` at its place, and no override of `view_details` is
deleted beside a denial of `view` -/
def Meets (s : Permissions) : Event → Prop
  | .change _ (.setPermissionOverride guildId roleIndex resourceKind resourceId permission allow) =>
    permission = GuildPermission.view.asStr → allow = false → ∃ d ∈ s.overrides, d.permission = .viewDetails ∧
      ∃ kind : GuildResourceKind, kind.asStr = resourceKind ∧ place d = ⟨guildId, roleIndex, kind, resourceId⟩
  | .change _ (.deletePermissionOverride guildId overrideId) =>
    ∀ d ∈ s.overrides, d.id = overrideId ∧ d.guildId = guildId → d.permission = .viewDetails →
      ∀ o ∈ s.overrides, place o = place d → o.permission = .view → o.allow = true
  | _ => True

/-- each event of the run meets the condition in the state it finds -/
def Along (meets : Permissions → Event → Prop) : Permissions → List Event → Prop
  | _, [] => True
  | s, event :: events => meets s event ∧ Along meets (event.apply s) events

/-! ## Details without view -/

/-- `view` is denied, and nothing is said about `view_details` -/
def HidesWithDetails (db : Db) (guildId : Uuid) (guildOwner actor : IdentityId) (resourceKind : GuildResourceKind)
    (resourceId : Uuid) : Prop :=
  actor ≠ guildOwner ∧ ∃ role ∈ actorRole db guildId actor,
    fetchOverride db.overrides ⟨guildId, role.1, resourceKind, resourceId⟩ .view = some false ∧
    fetchOverride db.overrides ⟨guildId, role.1, resourceKind, resourceId⟩ .viewDetails = none

section

variable {db : Db} {guildId : Uuid} {guildOwner actor : IdentityId} {resourceKind : GuildResourceKind} {resourceId : Uuid}
  {resourcePublic : Bool}

/-- of a member's answers, the details are granted without the view in one case -/
theorem resolve_member (viewOverride viewDetailsOverride : Option Bool) :
    (resolveViewPermission false true viewOverride viewDetailsOverride resourcePublic true = true →
      resolveViewPermission false true viewOverride viewDetailsOverride resourcePublic false = true) ↔
    ¬ (viewOverride = some false ∧ viewDetailsOverride = none) := by
  cases viewDetailsOverride with
  | none =>
    cases viewOverride with
    | none => simp [resolveViewPermission]
    | some view => simp [resolveViewPermission]
  | some details => cases details <;> simp [resolveViewPermission]

/-- **Details imply view**, but where `view` is denied and nothing is said about the details -/
theorem details_imply_view_iff :
    (hasViewPermission db guildId guildOwner actor resourceKind resourceId resourcePublic true = true →
      hasViewPermission db guildId guildOwner actor resourceKind resourceId resourcePublic false = true) ↔
    ¬ HidesWithDetails db guildId guildOwner actor resourceKind resourceId := by
  by_cases howner : actor = guildOwner
  · simp [hasViewPermission, HidesWithDetails, howner]
  · cases hrole : actorRole db guildId actor with
    | none => simp [hasViewPermission, HidesWithDetails, howner, hrole, resolveViewPermission]
    | some role =>
      obtain ⟨roleIndex, permissions⟩ := role
      simp only [hasViewPermission, HidesWithDetails, howner, if_false, hrole, resolve_member, Option.mem_some_iff, ne_eq,
        not_false_eq_true, true_and, exists_eq_left']

theorem owner_sees (wantDetails : Bool) :
    hasViewPermission db guildId guildOwner guildOwner resourceKind resourceId resourcePublic wantDetails = true := if_pos rfl

end

/-! ## Runs -/

/-- every denial of `view` stands beside an override of `view_details` -/
def Paired (overrides : List OverrideRow) : Prop :=
  ∀ o ∈ overrides, o.permission = .view → o.allow = false → ∃ d ∈ overrides, d.permission = .viewDetails ∧ place d = place o

theorem fetchOverride_eq_some {overrides : List OverrideRow} {at' : Place} {permission : GuildPermission} {allow : Bool}
    (h : fetchOverride overrides at' permission = some allow) :
    ∃ o ∈ overrides, place o = at' ∧ o.permission = permission ∧ o.allow = allow := by
  obtain ⟨o, ho, rfl⟩ := Option.map_eq_some_iff.1 h
  obtain ⟨hplace, hpermission⟩ := of_decide_eq_true (List.find?_some ho :)
  exact ⟨o, List.mem_of_find?_eq_some ho, hplace, hpermission, rfl⟩

theorem fetchOverride_ne_none {overrides : List OverrideRow} {d : OverrideRow} (hd : d ∈ overrides) :
    fetchOverride overrides (place d) d.permission ≠ none := by
  intro h
  rw [fetchOverride, Option.map_eq_none_iff, List.find?_eq_none] at h
  exact h d hd (decide_eq_true ⟨rfl, rfl⟩)

theorem not_hides_of_paired {db : Db} (h : Paired db.overrides) (guildId : Uuid) (guildOwner actor : IdentityId)
    (resourceKind : GuildResourceKind) (resourceId : Uuid) :
    ¬ HidesWithDetails db guildId guildOwner actor resourceKind resourceId := by
  rintro ⟨-, role, -, hview, hdetails⟩
  obtain ⟨o, ho, hplace, hpermission, hallow⟩ := fetchOverride_eq_some hview
  obtain ⟨d, hd, hdetail, hsame⟩ := h o ho hpermission hallow
  refine fetchOverride_ne_none hd ?_
  rw [hsame, hplace, hdetail]
  exact hdetails

/-- the upsert gives each row there its own value or the new one, and may add the new row -/
theorem mem_putOverride {overrides : List OverrideRow} {row o : OverrideRow} (h : o ∈ putOverride overrides row) :
    o ∈ overrides ∨ (place o = place row ∧ o.permission = row.permission ∧ o.allow = row.allow) := by
  unfold putOverride at h
  dsimp only at h
  split at h
  · obtain ⟨o', ho', rfl⟩ := List.mem_map.1 h
    split
    · rename_i hsame
      obtain ⟨hguild, hrole, hkind, hresource, hpermission⟩ := hsame
      exact .inr ⟨by simp [place, hguild, hrole, hkind, hresource], hpermission, rfl⟩
    · exact .inl ho'
  · rcases List.mem_append.1 h with h | h
    · exact .inl h
    · cases List.mem_singleton.1 h
      exact .inr ⟨rfl, rfl, rfl⟩

/-- and keeps a row for each row there -/
theorem putOverride_keeps (row : OverrideRow) {overrides : List OverrideRow} {d : OverrideRow} (hd : d ∈ overrides) :
    ∃ d' ∈ putOverride overrides row, d'.permission = d.permission ∧ place d' = place d := by
  unfold putOverride
  dsimp only
  split
  · refine ⟨_, List.mem_map.2 ⟨d, hd, rfl⟩, ?_⟩
    split <;> exact ⟨rfl, rfl⟩
  · exact ⟨d, List.mem_append_left _ hd, rfl, rfl⟩

theorem paired_putOverride {overrides : List OverrideRow} {row : OverrideRow} (h : Paired overrides)
    (hrow : row.permission = .view → row.allow = false →
      ∃ d ∈ overrides, d.permission = .viewDetails ∧ place d = place row) : Paired (putOverride overrides row) := by
  intro o ho hview hdeny
  have hdetails : ∃ d ∈ overrides, d.permission = .viewDetails ∧ place d = place o := by
    rcases mem_putOverride ho with ho | ⟨hplace, hpermission, hallow⟩
    · exact h o ho hview hdeny
    · rw [hplace]
      exact hrow (hpermission ▸ hview) (hallow ▸ hdeny)
  obtain ⟨d, hd, hdetail, hplace⟩ := hdetails
  obtain ⟨d', hd', hpermission, hsame⟩ := putOverride_keeps row hd
  exact ⟨d', hd', hpermission.trans hdetail, hsame.trans hplace⟩

/-- rows are deleted of which none is an override of `view_details` beside a denial that stays -/
theorem paired_filter {overrides : List OverrideRow} {keep : OverrideRow → Bool} (h : Paired overrides)
    (hkeep : ∀ o ∈ overrides, keep o = true → o.permission = .view → o.allow = false →
      ∀ d ∈ overrides, d.permission = .viewDetails → place d = place o → keep d = true) : Paired (overrides.filter keep) := by
  intro o ho hview hdeny
  obtain ⟨ho, hstays⟩ := List.mem_filter.1 ho
  obtain ⟨d, hd, hdetail, hplace⟩ := h o ho hview hdeny
  exact ⟨d, List.mem_filter.2 ⟨hd, hkeep o ho hstays hview hdeny d hd hdetail hplace⟩, hdetail, hplace⟩

theorem resourceKind_asStr_injective {a b : GuildResourceKind} (h : a.asStr = b.asStr) : a = b := by
  cases a <;> cases b <;> first | rfl | exact absurd h (by decide)

theorem paired_change {s : Permissions} (h : Paired s.overrides) (newId : Uuid) (c : Change)
    (hmeets : Meets s (.change newId c)) : Paired (c.apply newId s).overrides := by
  cases c with
  | createRole guildId name permissions => exact h
  | updateRole guildId nameIndex name permissions =>
    simp only [Change.apply]
    split <;> exact h
  | deleteRole guildId nameIndex =>
    -- all overrides of one role go
    refine paired_filter h fun o ho hstays _ _ d _ _ hplace => ?_
    simp only [place, Place.mk.injEq] at hplace
    rw [hplace.1, hplace.2.1]
    exact hstays
  | setPermissionOverride guildId roleIndex resourceKind resourceId permission allow =>
    simp only [Change.apply]
    split
    · rename_i kind permission' hkind hpermission
      refine paired_putOverride h fun hview hdeny => ?_
      obtain ⟨d, hd, hdetail, kind', hkind', hplace⟩ := hmeets (hview ▸ permission_of_parse hpermission) hdeny
      have hsame : kind' = kind := resourceKind_asStr_injective (hkind'.trans (resourceKind_of_parse hkind))
      exact ⟨d, hd, hdetail, hsame ▸ hplace⟩
    · exact h
  | deletePermissionOverride guildId overrideId =>
    refine paired_filter h fun o ho _ hview hdeny d hd hdetail hplace => ?_
    refine decide_eq_true fun hdeleted => ?_
    have hallow := hmeets d hd hdeleted hdetail o ho hplace.symm hview
    rw [hallow] at hdeny
    cases hdeny
  | transferOwnership guildId recipient => exact h
  | updateMemberRole guildId identityId roleIndex => exact h
  | setGuardians identityId guardians threshold => exact h

theorem paired_step {s : Permissions} (h : Paired s.overrides) {event : Event} (hmeets : Meets s event) :
    Paired (event.apply s).overrides := by
  cases event with
  | change newId c => exact paired_change h newId c hmeets
  | upsertMember guildId identityId roleIndex => exact h
  | deleteMember guildId identityId => exact h

theorem paired_run {s : Permissions} {events : List Event} (h : Paired s.overrides) (halong : Along Meets s events) :
    Paired (run s events).overrides := by
  induction events generalizing s with
  | nil => exact h
  | cons event events ih => exact ih (paired_step h halong.1) halong.2

/-! ## Other overrides -/

/-- a row that the check of an actor's role and a resource may read -/
def Bears (at' : Option Place) (o : OverrideRow) : Prop :=
  at' = some (place o) ∧ (o.permission = .view ∨ o.permission = .viewDetails)

instance (at' : Option Place) (o : OverrideRow) : Decidable (Bears at' o) := inferInstanceAs (Decidable (_ ∧ _))

/-- where the check of an actor reads -/
def readAt (db : Db) (guildId : Uuid) (actor : IdentityId) (resourceKind : GuildResourceKind) (resourceId : Uuid) :
    Option Place := (actorRole db guildId actor).map fun role => ⟨guildId, role.1, resourceKind, resourceId⟩

/-- a change of an override for another role, another resource or another permission -/
def Irrelevant (at' : Option Place) (s : Permissions) : Event → Prop
  | .change newId (.setPermissionOverride guildId roleIndex resourceKind resourceId permission allow) =>
    ∀ kind permission', GuildResourceKind.parse resourceKind = some kind → GuildPermission.parse permission = some permission' →
      ¬ Bears at' ⟨newId, guildId, roleIndex, kind, resourceId, permission', allow⟩
  | .change _ (.deletePermissionOverride guildId overrideId) =>
    ∀ o ∈ s.overrides, o.id = overrideId ∧ o.guildId = guildId → ¬ Bears at' o
  | _ => False

/-- the rows that bear on the check, in their order -/
def bearing (at' : Option Place) (overrides : List OverrideRow) : List OverrideRow :=
  overrides.filter fun o => decide (Bears at' o)

theorem fetchOverride_bearing {at' : Place} {permission : GuildPermission} (overrides : List OverrideRow)
    (h : permission = .view ∨ permission = .viewDetails) :
    fetchOverride (bearing (some at') overrides) at' permission = fetchOverride overrides at' permission := by
  rw [fetchOverride, fetchOverride, bearing, List.find?_filter]
  congr 2
  funext o
  by_cases hread : place o = at' ∧ o.permission = permission
  · have hbears : Bears (some at') o := ⟨congrArg some hread.1.symm, hread.2 ▸ h⟩
    simp [hread, hbears]
  · simp [hread]

theorem hasViewPermission_congr {db db' : Db} {guildId : Uuid} {actor : IdentityId} {resourceKind : GuildResourceKind}
    {resourceId : Uuid} (hrole : actorRole db' guildId actor = actorRole db guildId actor)
    (hbears : bearing (readAt db guildId actor resourceKind resourceId) db'.overrides =
      bearing (readAt db guildId actor resourceKind resourceId) db.overrides)
    (guildOwner : IdentityId) (resourcePublic wantDetails : Bool) :
    hasViewPermission db' guildId guildOwner actor resourceKind resourceId resourcePublic wantDetails =
      hasViewPermission db guildId guildOwner actor resourceKind resourceId resourcePublic wantDetails := by
  unfold hasViewPermission
  rw [hrole]
  cases hactor : actorRole db guildId actor with
  | none => rfl
  | some role =>
    rw [readAt, hactor, Option.map_some] at hbears
    have hfetch : ∀ permission, permission = .view ∨ permission = .viewDetails →
        fetchOverride db'.overrides ⟨guildId, role.1, resourceKind, resourceId⟩ permission =
          fetchOverride db.overrides ⟨guildId, role.1, resourceKind, resourceId⟩ permission := by
      intro permission hpermission
      rw [← fetchOverride_bearing db'.overrides hpermission, ← fetchOverride_bearing db.overrides hpermission, hbears]
    dsimp only
    rw [hfetch .view (.inl rfl), hfetch .viewDetails (.inr rfl)]

theorem bears_congr {at' : Option Place} {a b : OverrideRow} (hplace : place a = place b) (hpermission : a.permission = b.permission) :
    Bears at' a ↔ Bears at' b := by
  rw [Bears, Bears, hplace, hpermission]

theorem bearing_putOverride {at' : Option Place} {row : OverrideRow} (overrides : List OverrideRow) (h : ¬ Bears at' row) :
    bearing at' (putOverride overrides row) = bearing at' overrides := by
  unfold putOverride bearing
  dsimp only
  split
  · -- a row with the new value is at the place of the given one, and bears neither before nor after
    have hsame : ∀ o : OverrideRow, (o.guildId = row.guildId ∧ o.roleIndex = row.roleIndex ∧ o.resourceKind = row.resourceKind ∧
        o.resourceId = row.resourceId ∧ o.permission = row.permission) → ¬ Bears at' o := by
      rintro o ⟨hguild, hrole, hkind, hresource, hpermission⟩
      rwa [bears_congr (b := row) (by simp [place, hguild, hrole, hkind, hresource]) hpermission]
    rw [List.filter_map, List.filter_congr (q := fun o => decide (Bears at' o))]
    · refine (List.map_congr_left fun o ho => ?_).trans (List.map_id' _)
      rw [if_neg fun hthis => hsame o hthis (of_decide_eq_true (List.mem_filter.1 ho).2)]
    · intro o _
      dsimp only [Function.comp]
      split
      · exact decide_eq_decide.2 (bears_congr rfl rfl)
      · rfl
  · rw [List.filter_append, List.filter_singleton, decide_eq_false h]
    simp

theorem bearing_filter {at' : Option Place} {overrides : List OverrideRow} {keep : OverrideRow → Bool}
    (h : ∀ o ∈ overrides, Bears at' o → keep o = true) : bearing at' (overrides.filter keep) = bearing at' overrides := by
  rw [bearing, bearing, List.filter_filter]
  refine List.filter_congr fun o ho => ?_
  by_cases hbears : Bears at' o
  · simp [hbears, h o ho hbears]
  · simp [hbears]

/-- it changes overrides that do not bear on the check, and nothing else -/
theorem irrelevant_step {at' : Option Place} {s : Permissions} {event : Event} (h : Irrelevant at' s event) :
    (event.apply s).members = s.members ∧ (event.apply s).roles = s.roles ∧
      bearing at' (event.apply s).overrides = bearing at' s.overrides := by
  cases event with
  | upsertMember guildId identityId roleIndex => exact h.elim
  | deleteMember guildId identityId => exact h.elim
  | change newId c =>
    cases c with
    | setPermissionOverride guildId roleIndex resourceKind resourceId permission allow =>
      simp only [Event.apply, Change.apply]
      split
      · rename_i kind permission' hkind hpermission
        exact ⟨rfl, rfl, bearing_putOverride s.overrides (h kind permission' hkind hpermission)⟩
      · exact ⟨rfl, rfl, rfl⟩
    | deletePermissionOverride guildId overrideId =>
      refine ⟨rfl, rfl, bearing_filter fun o ho hbears => decide_eq_true fun hdeleted => ?_⟩
      exact h o ho hdeleted hbears
    | createRole guildId name permissions => exact h.elim
    | updateRole guildId nameIndex name permissions => exact h.elim
    | deleteRole guildId nameIndex => exact h.elim
    | transferOwnership guildId recipient => exact h.elim
    | updateMemberRole guildId identityId roleIndex => exact h.elim
    | setGuardians identityId guardians threshold => exact h.elim

theorem irrelevant_run {at' : Option Place} {s : Permissions} {events : List Event} (h : Along (Irrelevant at') s events) :
    (run s events).members = s.members ∧ (run s events).roles = s.roles ∧
      bearing at' (run s events).overrides = bearing at' s.overrides := by
  induction events generalizing s with
  | nil => exact ⟨rfl, rfl, rfl⟩
  | cons event events ih =>
    obtain ⟨hmembers, hroles, hbearing⟩ := irrelevant_step h.1
    obtain ⟨hmembers', hroles', hbearing'⟩ := ih h.2
    exact ⟨hmembers'.trans hmembers, hroles'.trans hroles, hbearing'.trans hbearing⟩

/-- the role of an actor is read from the members and the rights of the roles -/
theorem actorRole_of_permissions {db db' : Db} (hmembers : db'.members = db.members)
    (hroles : db'.roles.map RoleRow.rights = db.roles.map RoleRow.rights) (guildId : Uuid) (actor : IdentityId) :
    actorRole db' guildId actor = actorRole db guildId actor := by
  have hrights : ∀ (db : Db) (nameIndex : ℤ), (findRole db guildId nameIndex).map RoleRow.permissions =
      ((db.roles.map RoleRow.rights).find? fun r => decide (r.1 = guildId ∧ r.2.1 = nameIndex)).map fun r => r.2.2.2 := by
    intro db nameIndex
    rw [List.find?_map, Option.map_map]
    rfl
  have hrole : ∀ db : Db, actorRole db guildId actor = (memberOf db guildId actor).bind fun m =>
      ((findRole db guildId m.roleIndex).map RoleRow.permissions).map fun permissions => (m.roleIndex, permissions) := by
    intro db
    simp only [actorRole, Option.map_map]
    rfl
  rw [hrole, hrole, memberOf, memberOf, hmembers]
  simp only [hrights, hroles]

/-- **Changes of other overrides do not show** -/
theorem run_irrelevant {db db' : Db} {guildId : Uuid} {actor : IdentityId} {resourceKind : GuildResourceKind} {resourceId : Uuid}
    {events : List Event} (halong : Along (Irrelevant (readAt db guildId actor resourceKind resourceId)) db.permissions events)
    (hdb : db'.permissions = run db.permissions events) (guildOwner : IdentityId) (resourcePublic wantDetails : Bool) :
    hasViewPermission db' guildId guildOwner actor resourceKind resourceId resourcePublic wantDetails =
      hasViewPermission db guildId guildOwner actor resourceKind resourceId resourcePublic wantDetails := by
  obtain ⟨hmembers, hroles, hbearing⟩ := irrelevant_run halong
  rw [← hdb] at hmembers hroles hbearing
  exact hasViewPermission_congr (actorRole_of_permissions hmembers hroles guildId actor) hbearing guildOwner resourcePublic wantDetails

/-! ## The permissions to view -/

/-- **Details and view.** In a state, details imply view but where `view` is denied and `view_details` has no override. In a
run whose changes never leave this, they imply it in every state. The owner gets both, and changes of overrides for another
role, resource or permission do not show. -/
theorem view_permissions (db : Db) (guildId : Uuid) (guildOwner actor : IdentityId) (resourceKind : GuildResourceKind)
    (resourceId : Uuid) (resourcePublic : Bool) :
    ((hasViewPermission db guildId guildOwner actor resourceKind resourceId resourcePublic true = true →
        hasViewPermission db guildId guildOwner actor resourceKind resourceId resourcePublic false = true) ↔
      ¬ HidesWithDetails db guildId guildOwner actor resourceKind resourceId) ∧
    (∀ (db' : Db) (events : List Event), Paired db.overrides → Along Meets db.permissions events →
      db'.permissions = run db.permissions events →
      hasViewPermission db' guildId guildOwner actor resourceKind resourceId resourcePublic true = true →
        hasViewPermission db' guildId guildOwner actor resourceKind resourceId resourcePublic false = true) ∧
    (∀ wantDetails : Bool,
      hasViewPermission db guildId guildOwner guildOwner resourceKind resourceId resourcePublic wantDetails = true) ∧
    ∀ (db' : Db) (wantDetails : Bool) (events : List Event),
      Along (Irrelevant (readAt db guildId actor resourceKind resourceId)) db.permissions events →
      db'.permissions = run db.permissions events →
      hasViewPermission db' guildId guildOwner actor resourceKind resourceId resourcePublic wantDetails =
        hasViewPermission db guildId guildOwner actor resourceKind resourceId resourcePublic wantDetails := by
  refine ⟨details_imply_view_iff, fun db' events hpaired halong hdb => ?_, fun wantDetails => owner_sees wantDetails, ?_⟩
  · have hpaired' : Paired db'.permissions.overrides := hdb ▸ paired_run hpaired halong
    exact details_imply_view_iff.2 (not_hides_of_paired hpaired' guildId guildOwner actor resourceKind resourceId)
  · intro db' wantDetails events halong hdb
    exact run_irrelevant halong hdb guildOwner resourcePublic wantDetails

/-! ## A channel of scribes -/

def channel1 : Uuid := .replicate 16 8

def channel2 : Uuid := .replicate 16 9

/-- a guild with a member that is a scribe, and a channel -/
def scribesGuild : Db :=
  { ownedGuild with members := [⟨guild1, guardian1, 3⟩], resources := [(.channel, guild1, channel1)] }

/-- the scribes get the channel's messages, then lose the channel, and the owner becomes one -/
def detailsBeforeDenial : List Event :=
  [.change guild1 (.setPermissionOverride guild1 3 "channel" channel1 "view_details" true),
    .change channel1 (.setPermissionOverride guild1 3 "channel" channel1 "view" false), .upsertMember guild1 owner1 3]

/-- overrides for another role and another channel, and one of them deleted -/
def otherOverrides : List Event :=
  [.change keyRow.id (.setPermissionOverride guild1 4 "channel" channel1 "view" true),
    .change channel2 (.setPermissionOverride guild1 3 "channel" channel2 "view_details" false),
    .change guild1 (.deletePermissionOverride guild1 keyRow.id)]

/-- the tables after changes of members and overrides -/
def after (db : Db) (events : List Event) : Db :=
  { db with members := (run db.permissions events).members, overrides := (run db.permissions events).overrides }

/-- the scribe still sees the channel, since its messages are granted, and the other overrides do not show -/
theorem view_permissions_scribes :
    hasViewPermission (after scribesGuild detailsBeforeDenial) guild1 owner1 guardian1 .channel channel1 false false = true ∧
    ∀ wantDetails : Bool,
      hasViewPermission (after (after scribesGuild detailsBeforeDenial) otherOverrides) guild1 owner1 guardian1 .channel
          channel1 false wantDetails =
        hasViewPermission (after scribesGuild detailsBeforeDenial) guild1 owner1 guardian1 .channel channel1 false
          wantDetails := by
  constructor
  · obtain ⟨-, hruns, -⟩ := view_permissions scribesGuild guild1 owner1 guardian1 .channel channel1 false
    refine hruns _ detailsBeforeDenial (fun o ho => by cases ho) ⟨?_, ?_, trivial, trivial⟩ rfl (by decide +kernel)
    · intro hview
      exact absurd hview (by decide)
    · intro _ _
      exact ⟨⟨guild1, guild1, 3, .channel, channel1, .viewDetails, true⟩, by decide +kernel, rfl, .channel, rfl, rfl⟩
  · intro wantDetails
    obtain ⟨-, -, -, hothers⟩ :=
      view_permissions (after scribesGuild detailsBeforeDenial) guild1 owner1 guardian1 .channel channel1 false
    have hrole : readAt (after scribesGuild detailsBeforeDenial) guild1 guardian1 .channel channel1 =
        some ⟨guild1, 3, .channel, channel1⟩ := by decide +kernel
    refine hothers _ wantDetails otherOverrides ?_ rfl
    rw [hrole]
    refine ⟨?_, ?_, ?_, trivial⟩
    · rintro kind permission - - ⟨hplace, -⟩
      have hindex : (3 : ℤ) = 4 := congrArg Place.roleIndex (Option.some.inj hplace)
      exact absurd hindex (by decide)
    · rintro kind permission - - ⟨hplace, -⟩
      have hresource : channel1 = channel2 := congrArg Place.resourceId (Option.some.inj hplace)
      exact absurd hresource (by decide)
    · unfold Irrelevant
      decide +kernel

/-! ## A channel that is hidden -/

/-- the owner hides the channel from the scribes -/
def hideChannel : Request := .setPermissionOverride guild1 ⟨3, "channel", channel1, "view", false, some keyRow.id,
  some "YB4dTnlpSf4KWu+5uEyEU0S0cZCR9hJ1EsjSvLoK+alnkhQp/q75GnsW3XfWRljUJndw4pEKFXjyoObJv5l2AQ=="⟩

def hideChannelVerifier : Verifier :=
  oneMessage (canonicalMessage "guild.permission_override.set"
    [uuidText guild1, "3", "channel", uuidText channel1, "view", "false"]) <| .ofHex 64
  "601e1d4e796949fe0a5aefb9b84c845344b4719091f6127512c8d2bcba0af9a967921429feaef91a7b16dd77d64658d4267770e2910a1578f2a0e6c9bf997601"

/-- what a role's check of the channel says: view, and details -/
def channelAnswers (db : Db) : Bool × Bool :=
  (hasViewPermission db guild1 owner1 guardian1 .channel channel1 false false,
    hasViewPermission db guild1 owner1 guardian1 .channel channel1 false true)

/-- **Details without view**: one accepted request, in a guild without overrides, hides the channel and leaves its messages -/
theorem denied_view_leaves_details :
    ¬ ∀ (v : Verifier) (db db' : Db) (actor : IdentityId) (newId : Uuid) (r : Request) (signed : Bool), db.overrides = [] →
      handle v db actor newId r = .ok (db', signed) →
      ∀ (guildId : Uuid) (guildOwner actor : IdentityId) (resourceKind : GuildResourceKind) (resourceId : Uuid)
        (resourcePublic : Bool),
        hasViewPermission db' guildId guildOwner actor resourceKind resourceId resourcePublic true = true →
          hasViewPermission db' guildId guildOwner actor resourceKind resourceId resourcePublic false = true := by
  intro h
  have hanswers : (handle hideChannelVerifier scribesGuild owner1 guild1 hideChannel).toOption.map (fun d => channelAnswers d.1) =
      some (false, true) := by decide +kernel
  cases hx : handle hideChannelVerifier scribesGuild owner1 guild1 hideChannel with
  | error e =>
    rw [hx] at hanswers
    cases hanswers
  | ok d =>
    rw [hx] at hanswers
    have hpair : channelAnswers d.1 = (false, true) := Option.some_injective _ hanswers
    obtain ⟨hview, hdetails⟩ := Prod.mk.injEq .. ▸ hpair
    have himplied := h _ _ d.1 _ _ _ d.2 rfl hx guild1 owner1 guardian1 .channel channel1 false hdetails
    rw [hview] at himplied
    cases himplied

end Avalon.GuildView
