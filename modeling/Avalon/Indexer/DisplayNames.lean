/-
Display names of profiles (`crates/indexer/src/projections/profiles.rs`: `disambiguated_display_name`, `apply_created`, `apply`;
migrations 0001 and 0063).

A table holds a row for each identity, and no two names that the database lowers to one text. A creation whose name is taken is
refused when it is local; a mirrored one is stored under its name with more and more of its id behind it, and last under the id
itself. No other identity can hold that: a permitted name never reads like an id.

What the database's `lower` makes of a text is a parameter (`Lowering`), with what every locale's mapping has: an id stays as it is,
and no other text becomes one, but for capitals.

Results:
- `permitted_disambiguated`: a permitted name is still permitted when it is cut and its suffix is added.
- `named_run`: every stored name is permitted or its holder's id, over every run of creations and updates.
- `mirrored_creation_named`: so a mirrored creation is never left without a name.
- `taken_run`: creations of different identities take all their names.
-/
import Mathlib.Tactic
import Avalon.Core.Fallible
import Avalon.Core.UniqueTable
import Avalon.Protocol.Events
import Avalon.Protocol.IdentityId
import Avalon.Protocol.DisplayName
import Avalon.Chain.Mirror
import Avalon.Server.OverlayRouting
import Avalon.Server.SignatureGate
import Avalon.Indexer.ProfileChain
import Avalon.Indexer.IdentityKeys

namespace Avalon.DisplayNames

open UniqueTable Fallible Avalon.LedgerEntry Avalon.Events Avalon.Identity Avalon.Mirror Avalon.IdentityKeys
open OverlayRouting (isWhitespace trim trimEndMatches)
open Avalon.ProfileChain (ProfileWrite ProfileRow)

/-! ## Tables -/

/-- the database's `lower` -/
structure Lowering where
  lower : String → String
  lower_id : ∀ id : IdentityId, lower id.toText = id.toText
  of_id : ∀ (text : String) (id : IdentityId), lower text = id.toText → text.toList.map Char.toLower = id.toText.toList

/-- a row of `profiles` under its identity -/
structure ProfileEntry where
  identityId : IdentityId
  row : ProfileRow

/-- the primary key, and the unique index over the lowered name -/
def Clash (pg : Lowering) (a b : ProfileEntry) : Prop :=
  a.identityId = b.identityId ∨ pg.lower a.row.displayName = pg.lower b.row.displayName

instance (pg : Lowering) : DecidableRel (Clash pg) := fun a b =>
  inferInstanceAs (Decidable (a.identityId = b.identityId ∨ pg.lower a.row.displayName = pg.lower b.row.displayName))

abbrev Profiles (pg : Lowering) := Table (Clash pg)

def profileOf {pg : Lowering} (t : Profiles pg) (identityId : IdentityId) : Option ProfileEntry :=
  t.rows.find? fun p => decide (p.identityId = identityId)

/-- the tables a creation writes -/
structure Tables (pg : Lowering) where
  keys : KeyTables
  profiles : Profiles pg

def Tables.empty {pg : Lowering} : Tables pg := ⟨.empty, .empty⟩

/-! ## Names of creations -/

/-- the name, cut to leave room, with the first hex characters of the id behind it -/
def disambiguatedDisplayName (name : String) (identityId : IdentityId) (hexLen : ℕ) : String :=
  let suffix := '~' :: identityId.toText.toList.take hexLen
  let keep := maxDisplayNameChars - suffix.length
  let base := (trim name.toList).take keep
  String.ofList (trimEndMatches isWhitespace base ++ suffix)

/-- lengths of the id's part: 12, 16, .., 60 -/
def suffixLengths : List ℕ := (List.range 13).map fun i => 12 + 4 * i

/-- the names a creation is tried under -/
def candidates (name : String) (identityId : IdentityId) (isLocal : Bool) : List String :=
  name :: if isLocal then [] else suffixLengths.map (disambiguatedDisplayName name identityId) ++ [identityId.toText]

/-- the first candidate that the table takes; ON CONFLICT DO NOTHING -/
def insertFirst {pg : Lowering} (t : Profiles pg) (identityId : IdentityId) : List String → Option (Profiles pg)
  | [] => none
  | name :: rest =>
    match t.insert ⟨identityId, .named name⟩ with
    | some t' => some t'
    | none => insertFirst t identityId rest

/-! ## Writes -/

section Writes

variable {pg : Lowering}

/-- the identity row and the inception key, under the ticket's id -/
def createKeys (t : KeyTables) (createdAt : OffsetDateTime) (created : VerifiedCreation) : Except IndexError KeyTables :=
  let identities := (t.identities.insertIgnore ⟨created.identityId, timestamptz createdAt, created.inceptionKey, created.derived⟩).1
  let inserted := t.signingKeys.insertIgnore
    (newKeyRow t created.ticketId created.identityId created.inceptionKey.toList none createdAt)
  let stored := t.signingKeys.rows.find? fun k =>
    decide (k.identityId = created.identityId ∧ k.publicKey = created.inceptionKey.toList)
  if !inserted.2 && stored.any fun k => decide (k.signingKeyId ≠ created.ticketId) then
    reject ("identity " ++ created.identityId.toText ++ " was already created with another ticket")
  else .ok { t with identities := identities, signingKeys := inserted.1 }

def noFreeName : IndexError := .rejected "no free display name for this identity"

/-- the profile; an existing one is never overwritten -/
def createProfile (cfg : Config) (t : Profiles pg) (created : VerifiedCreation) (origin : EventOrigin) :
    Except IndexError (Profiles pg) :=
  match profileOf t created.identityId with
  | some existing =>
    if existing.row.displayName = created.displayName then .ok t
    else
      reject ("identity " ++ created.identityId.toText ++ " already has a profile; a creation naming " ++
        cfg.debug created.displayName ++ " is a conflicting claim")
  | none =>
    match insertFirst t created.identityId (candidates created.displayName created.identityId origin.isLocal) with
    | some t' => .ok t'
    | none => .error (if origin.isLocal then .displayNameTaken else noFreeName)

def applyCreated (cfg : Config) (t : Tables pg) (createdAt : OffsetDateTime) (created : VerifiedCreation) (origin : EventOrigin) :
    Except IndexError (Tables pg) := do
  let keys ← createKeys t.keys createdAt created
  let profiles ← createProfile cfg t.profiles created origin
  return ⟨keys, profiles⟩

/-- the foreign key to guilds -/
def guildKnown (guilds : Uuid → Bool) (write : ProfileWrite) : Bool := write.mainGuild.join.all guilds

/-- INSERT .. ON CONFLICT (identity_id) DO UPDATE; without a row and a name it is skipped -/
def apply (guilds : Uuid → Bool) (t : Tables pg) (write : ProfileWrite) : Except IndexError (Tables pg) :=
  if write.displayName.any fun name => !displayNamePermitted name then .error .displayNameNotPermitted
  else
    match profileOf t.profiles write.identityId, write.displayName with
    | some _, _ =>
      match t.profiles.tryUpdate (fun p => decide (p.identityId = write.identityId)) (fun p => { p with row := p.row.set write }) with
      | some profiles => if guildKnown guilds write then .ok { t with profiles := profiles } else .error .deferred
      | none => .error .displayNameTaken
    | none, some name =>
      match t.profiles.insert ⟨write.identityId, (ProfileRow.named name).set write⟩ with
      | some profiles =>
        -- the foreign keys to identities and guilds
        if (t.keys.identities.rows.any fun i => decide (i.id = write.identityId)) && guildKnown guilds write then
          .ok { t with profiles := profiles }
        else .error .deferred
      | none => .error .displayNameTaken
    | none, none => .ok t

end Writes

/-! ## Runs -/

/-- an event that the indexer applies -/
inductive Op where
  | created (createdAt : OffsetDateTime) (created : VerifiedCreation) (origin : EventOrigin)
  /-- with the guilds that are known then -/
  | updated (guilds : Uuid → Bool) (write : ProfileWrite)

section Runs

variable {pg : Lowering}

/-- a refused event is rolled back -/
def step (cfg : Config) (t : Tables pg) : Op → Tables pg
  | .created createdAt created origin => (applyCreated cfg t createdAt created origin).toOption.getD t
  | .updated guilds write => (apply guilds t write).toOption.getD t

def run (pg : Lowering) (cfg : Config) (ops : List Op) : Tables pg := ops.foldl (step cfg) .empty

end Runs

/-! ## Candidates -/

theorem disambiguated_toList (name : String) (id : IdentityId) (hexLen : ℕ) : (disambiguatedDisplayName name id hexLen).toList =
    trimEndMatches isWhitespace ((trim name.toList).take (maxDisplayNameChars - ('~' :: id.toText.toList.take hexLen).length)) ++
      '~' :: id.toText.toList.take hexLen := by
  rw [disambiguatedDisplayName, String.toList_ofList]

/-- **A cut name with its suffix**: the tilde shows that it is no id, and its length is that of the id's part and what is kept -/
theorem permitted_disambiguated {name : String} (h : displayNamePermitted name = true) (id : IdentityId) (hexLen : ℕ) :
    displayNamePermitted (disambiguatedDisplayName name id hexLen) = true := by
  obtain ⟨-, hvisible, -⟩ := permitted_iff.1 h
  have htilde : '~' ∈ (disambiguatedDisplayName name id hexLen).toList := by
    rw [disambiguated_toList]
    exact List.mem_append_right _ List.mem_cons_self
  refine permitted_iff.2 ⟨⟨?_, ?_⟩, ?_, not_mimics_of_mem htilde (by decide) (by decide) (by decide)⟩
  · exact List.length_pos_of_mem (mem_trim_of_mem htilde (by decide))
  · refine length_trim_le.trans ?_
    have hsuffix : (id.toText.toList.take hexLen).length ≤ 64 := (List.length_take_le' _ _).trans (length_toText id).le
    have hbase : (trimEndMatches isWhitespace ((trim name.toList).take
        (maxDisplayNameChars - ('~' :: id.toText.toList.take hexLen).length))).length ≤
        maxDisplayNameChars - ('~' :: id.toText.toList.take hexLen).length :=
      length_trimEnd_le.trans (List.length_take_le _ _)
    rw [disambiguated_toList, List.length_append]
    rw [List.length_cons] at hbase ⊢
    unfold maxDisplayNameChars at hbase ⊢
    omega
  · intro c hc hinvisible
    rw [disambiguated_toList] at hc
    rcases List.mem_append.1 hc with hc | hc
    · exact hvisible c (mem_trim (List.mem_of_mem_take (mem_trimEnd hc))) hinvisible
    · have hseen : isInvisible c = false := by
        rcases List.mem_cons.1 hc with rfl | hc
        · decide
        · obtain ⟨n, hn, rfl⟩ := hexDigit_of_mem (List.mem_of_mem_take hc)
          exact (visible_of_digit ⟨n, hn, toLower_hexDigit n hn⟩).1
      rw [hseen] at hinvisible
      cases hinvisible

/-- a name that its holder may have -/
def NameOk (id : IdentityId) (name : String) : Prop := displayNamePermitted name = true ∨ name = id.toText

theorem nameOk_of_candidate {name candidate : String} {id : IdentityId} {isLocal : Bool} (h : displayNamePermitted name = true)
    (hc : candidate ∈ candidates name id isLocal) : NameOk id candidate := by
  rcases List.mem_cons.1 hc with rfl | hc
  · exact .inl h
  · split at hc
    · cases hc
    · rcases List.mem_append.1 hc with hc | hc
      · obtain ⟨hexLen, -, rfl⟩ := List.mem_map.1 hc
        exact .inl (permitted_disambiguated h id hexLen)
      · exact .inr (List.mem_singleton.1 hc)

theorem createKeys_ne_noFreeName {keys : KeyTables} {createdAt : OffsetDateTime} {created : VerifiedCreation} :
    createKeys keys createdAt created ≠ .error noFreeName := by
  unfold createKeys
  dsimp only
  split
  · intro h
    have htext := IndexError.rejected.inj (Except.error.inj h)
    have hfirst := congrArg (fun text : String => text.toList.head?) htext
    simp [String.toList_append] at hfirst
  · exact fun h => nomatch h

/-! ## Stored names -/

section Names

variable {pg : Lowering} {t t' : Profiles pg}

def Named (t : Profiles pg) : Prop := ∀ p ∈ t.rows, NameOk p.identityId p.row.displayName

theorem insertFirst_eq_some {id : IdentityId} {names : List String} (h : insertFirst t id names = some t') :
    ∃ name ∈ names, t.insert ⟨id, .named name⟩ = some t' := by
  induction names with
  | nil => cases h
  | cons name rest ih =>
    unfold insertFirst at h
    split at h
    · rename_i hinsert
      cases h
      exact ⟨name, List.mem_cons_self, hinsert⟩
    · obtain ⟨name', hname', hinsert⟩ := ih h
      exact ⟨name', List.mem_cons_of_mem _ hname', hinsert⟩

theorem insertFirst_eq_none {id : IdentityId} {names : List String} (h : insertFirst t id names = none) :
    ∀ name ∈ names, t.insert ⟨id, .named name⟩ = none := by
  induction names with
  | nil => simp
  | cons name rest ih =>
    unfold insertFirst at h
    split at h
    · cases h
    · rename_i hinsert
      exact List.forall_mem_cons.2 ⟨hinsert, ih h⟩

theorem named_insert (h : Named t) {p : ProfileEntry} (hinsert : t.insert p = some t')
    (hp : NameOk p.identityId p.row.displayName) : Named t' := by
  intro q hq
  rcases (Table.mem_insert hinsert).1 hq with hq | rfl
  · exact h q hq
  · exact hp

theorem named_createProfile {cfg : Config} {created : VerifiedCreation} {origin : EventOrigin} (h : Named t)
    (hcreate : createProfile cfg t created origin = .ok t') : Named t' := by
  unfold createProfile at hcreate
  split at hcreate
  · split at hcreate
    · cases hcreate
      exact h
    · cases hcreate
  · split at hcreate
    · rename_i hfirst
      cases hcreate
      obtain ⟨name, hname, hinsert⟩ := insertFirst_eq_some hfirst
      exact named_insert h hinsert (nameOk_of_candidate created.permitted hname)
    · cases hcreate

theorem named_update (h : Named t) {write : ProfileWrite} (hpermitted : ∀ name ∈ write.displayName, displayNamePermitted name = true)
    (hupdate : t.tryUpdate (fun p => decide (p.identityId = write.identityId)) (fun p => { p with row := p.row.set write }) =
      some t') : Named t' := by
  intro q hq
  rw [Table.tryUpdate_eq_some hupdate] at hq
  obtain ⟨p, hp, rfl⟩ := List.mem_map.1 hq
  split
  · cases hname : write.displayName with
    | none => simpa [ProfileRow.set, hname] using h p hp
    | some name => exact .inl (by simpa [ProfileRow.set, hname] using hpermitted name hname)
  · exact h p hp

theorem named_apply {guilds : Uuid → Bool} {t t' : Tables pg} {write : ProfileWrite} (h : Named t.profiles)
    (happly : apply guilds t write = .ok t') : Named t'.profiles := by
  unfold apply at happly
  split at happly
  · cases happly
  · rename_i hrefused
    have hpermitted : ∀ name ∈ write.displayName, displayNamePermitted name = true := by
      intro name hname
      rw [Option.mem_def.1 hname] at hrefused
      simpa using hrefused
    split at happly
    · split at happly
      · rename_i hupdate
        split at happly
        · cases happly
          exact named_update h hpermitted hupdate
        · cases happly
      · cases happly
    · rename_i name _ hname
      split at happly
      · rename_i hinsert
        split at happly
        · cases happly
          refine named_insert h hinsert (.inl ?_)
          simpa [ProfileRow.set, hname] using hpermitted name hname
        · cases happly
      · cases happly
    · cases happly
      exact h

theorem named_step {cfg : Config} {t : Tables pg} (h : Named t.profiles) (op : Op) : Named (step cfg t op).profiles := by
  cases op with
  | created createdAt created origin =>
    simp only [step]
    cases happly : applyCreated cfg t createdAt created origin with
    | error e => exact h
    | ok t' =>
      unfold applyCreated at happly
      obtain ⟨keys, -, happly⟩ := bind_eq_ok.1 happly
      obtain ⟨profiles, hcreate, happly⟩ := bind_eq_ok.1 happly
      cases happly
      exact named_createProfile h hcreate
  | updated guilds write =>
    simp only [step]
    cases happly : apply guilds t write with
    | error e => exact h
    | ok t' => exact named_apply h happly

/-- **Every stored name is permitted, or its holder's id** -/
theorem named_run (pg : Lowering) (cfg : Config) (ops : List Op) : Named (run pg cfg ops).profiles := by
  have hfrom : ∀ t : Tables pg, Named t.profiles → Named (ops.foldl (step cfg) t).profiles := by
    induction ops with
    | nil => exact fun _ h => h
    | cons op ops ih => exact fun t h => ih _ (named_step h op)
  exact hfrom .empty (by simp [Named, Tables.empty])

/-! ## Names that read like an id -/

/-- a stored name that reads like an id is its holder's -/
theorem holder_of_readsAs (h : Named t) {p : ProfileEntry} (hp : p ∈ t.rows) {id : IdentityId}
    (hreads : readsAs p.row.displayName = id.toText) : p.identityId = id := by
  rcases h p hp with hpermitted | hid
  · have hmimics := (permitted_iff.1 hpermitted).2.2
    rw [mimics_iff.2 ⟨id, hreads⟩] at hmimics
    cases hmimics
  · rw [hid, readsAs_toText] at hreads
    have hparse : IdentityId.parse p.identityId.toText = .ok id := hreads ▸ IdentityId.parse_toText id
    rw [IdentityId.parse_toText] at hparse
    exact Except.ok.inj hparse

/-- **A mirrored creation finds a name**: nobody else holds the last candidate -/
theorem mirrored_creation_named (h : Named t) (cfg : Config) {created : VerifiedCreation} {origin : EventOrigin}
    (hmirrored : origin.isLocal = false) (hnew : profileOf t created.identityId = none) :
    ∃ t', createProfile cfg t created origin = .ok t' := by
  unfold createProfile
  rw [hnew]
  dsimp only
  split
  · exact ⟨_, rfl⟩
  · rename_i hnone
    exfalso
    have hlast : created.identityId.toText ∈ candidates created.displayName created.identityId origin.isLocal := by
      simp [candidates, hmirrored]
    obtain ⟨p, hp, hclash⟩ := Table.insert_eq_none (insertFirst_eq_none hnone _ hlast)
    have hholder : p.identityId = created.identityId := by
      rcases hclash with hid | hname
      · exact hid
      · refine holder_of_readsAs h hp (readsAs_of_lowercase (pg.of_id _ _ ?_))
        exact hname.trans (pg.lower_id _)
    exact List.find?_eq_none.1 hnew p hp (decide_eq_true hholder)

theorem length_of_named (h : Named t) {p : ProfileEntry} (hp : p ∈ t.rows) :
    1 ≤ (trim p.row.displayName.toList).length ∧ (trim p.row.displayName.toList).length ≤ maxDisplayNameChars := by
  rcases h p hp with hpermitted | hid
  · exact (permitted_iff.1 hpermitted).1
  · rw [hid, trim_toText, length_toText]
    decide

end Names

/-- **Names of profiles.** In every state of every run: a stored name is permitted or its holder's id, one that reads like an id
is its holder's, and has 1 to 128 characters when it is trimmed; and a mirrored creation without a profile gets one. -/
theorem display_names (pg : Lowering) (cfg : Config) (ops : List Op) :
    (∀ p ∈ (run pg cfg ops).profiles.rows,
      (displayNamePermitted p.row.displayName = true ∨ p.row.displayName = p.identityId.toText) ∧
      (∀ id, IdentityId.parse (readsAs p.row.displayName) = .ok id → p.identityId = id) ∧
      1 ≤ (trim p.row.displayName.toList).length ∧ (trim p.row.displayName.toList).length ≤ maxDisplayNameChars) ∧
    ∀ (createdAt : OffsetDateTime) (created : VerifiedCreation) (origin : EventOrigin), origin.isLocal = false →
      profileOf (run pg cfg ops).profiles created.identityId = none →
      (∃ profiles, createProfile cfg (run pg cfg ops).profiles created origin = .ok profiles) ∧
      applyCreated cfg (run pg cfg ops) createdAt created origin ≠ .error noFreeName := by
  have hnamed := named_run pg cfg ops
  constructor
  · intro p hp
    refine ⟨hnamed p hp, fun id hparse => ?_, length_of_named hnamed hp⟩
    exact holder_of_readsAs hnamed hp (IdentityId.toText_of_parse hparse).symm
  · intro createdAt created origin hmirrored hnew
    obtain ⟨profiles, hprofiles⟩ := mirrored_creation_named hnamed cfg hmirrored hnew
    refine ⟨⟨profiles, hprofiles⟩, fun herror => ?_⟩
    unfold applyCreated at herror
    cases hkeys : createKeys (run pg cfg ops).keys createdAt created with
    | ok keys =>
      rw [hkeys, hprofiles] at herror
      cases herror
    | error e =>
      rw [hkeys] at herror
      cases herror
      exact createKeys_ne_noFreeName hkeys

/-! ## Names that are taken -/

section Taken

variable {pg : Lowering} {cfg : Config} {t t' : Profiles pg}

/-- some profile has the name -/
def Taken (t : Profiles pg) (name : String) : Prop := ∃ p ∈ t.rows, pg.lower p.row.displayName = pg.lower name

theorem insert_of_taken {name : String} (h : Taken t name) (id : IdentityId) : t.insert ⟨id, .named name⟩ = none := by
  obtain ⟨p, hp, hname⟩ := h
  cases hinsert : t.insert ⟨id, .named name⟩ with
  | none => rfl
  | some t' => exact absurd (.inr hname) ((Table.insert_eq_some hinsert).2 p hp)

/-- the search goes past names that are taken -/
theorem insertFirst_of_taken {names : List String} (h : ∀ name ∈ names, Taken t name) (id : IdentityId) (rest : List String) :
    insertFirst t id (names ++ rest) = insertFirst t id rest := by
  induction names with
  | nil => rfl
  | cons name names ih =>
    obtain ⟨hname, hnames⟩ := List.forall_mem_cons.1 h
    rw [List.cons_append, insertFirst, insert_of_taken hname]
    exact ih hnames

/-- the rows are those there were, and one of the identity -/
def Adds (t t' : Profiles pg) (id : IdentityId) : Prop :=
  (∀ p ∈ t.rows, p ∈ t'.rows) ∧ ∀ p ∈ t'.rows, p ∈ t.rows ∨ p.identityId = id

theorem Taken.of_adds {id : IdentityId} (hadds : Adds t t' id) {name : String} (h : Taken t name) : Taken t' name := by
  obtain ⟨p, hp, hname⟩ := h
  exact ⟨p, hadds.1 p hp, hname⟩

/-- after a creation of an identity its name is taken, by itself or by another -/
theorem taken_createProfile (cfg : Config) (h : Named t) {created : VerifiedCreation} {origin : EventOrigin}
    (hmirrored : origin.isLocal = false) (hnew : ∀ p ∈ t.rows, p.identityId ≠ created.identityId) :
    ∃ t', createProfile cfg t created origin = .ok t' ∧ Adds t t' created.identityId ∧ Taken t' created.displayName := by
  have hnone : profileOf t created.identityId = none := by
    refine List.find?_eq_none.2 fun p hp => ?_
    simpa using hnew p hp
  obtain ⟨t', hcreate⟩ := mirrored_creation_named h cfg hmirrored hnone
  refine ⟨t', hcreate, ?_⟩
  unfold createProfile at hcreate
  rw [hnone] at hcreate
  dsimp only at hcreate
  split at hcreate
  · rename_i hfirst
    cases hcreate
    obtain ⟨name, -, hinsert⟩ := insertFirst_eq_some hfirst
    have hadds : Adds t t' created.identityId := by
      refine ⟨fun p hp => (Table.mem_insert hinsert).2 (.inl hp), fun p hp => ?_⟩
      exact ((Table.mem_insert hinsert).1 hp).imp_right fun heq => by rw [heq]
    refine ⟨hadds, ?_⟩
    cases hown : t.insert ⟨created.identityId, .named created.displayName⟩ with
    | some t'' =>
      rw [candidates, insertFirst, hown] at hfirst
      cases hfirst
      exact ⟨_, (Table.mem_insert hown).2 (.inr rfl), rfl⟩
    | none =>
      obtain ⟨p, hp, hclash⟩ := Table.insert_eq_none hown
      exact Taken.of_adds hadds ⟨p, hp, hclash.resolve_left (hnew p hp)⟩
  · cases hcreate

/-- where all other names are taken, a mirrored creation is stored under its id -/
theorem id_of_taken {created : VerifiedCreation} {origin : EventOrigin} (hmirrored : origin.isLocal = false)
    (hnew : profileOf t created.identityId = none)
    (htaken : ∀ name ∈ created.displayName :: suffixLengths.map (disambiguatedDisplayName created.displayName created.identityId),
      Taken t name) (hcreate : createProfile cfg t created origin = .ok t') :
    ∃ p ∈ t'.rows, p.identityId = created.identityId ∧ p.row.displayName = created.identityId.toText := by
  have hcandidates : candidates created.displayName created.identityId origin.isLocal =
      (created.displayName :: suffixLengths.map (disambiguatedDisplayName created.displayName created.identityId)) ++
        [created.identityId.toText] := by
    rw [candidates, hmirrored]
    rfl
  unfold createProfile at hcreate
  rw [hnew] at hcreate
  dsimp only at hcreate
  split at hcreate
  · rename_i hfirst
    cases hcreate
    rw [hcandidates, insertFirst_of_taken htaken] at hfirst
    obtain ⟨name, hname, hinsert⟩ := insertFirst_eq_some hfirst
    rw [List.mem_singleton.1 hname] at hinsert
    exact ⟨_, (Table.mem_insert hinsert).2 (.inr rfl), rfl, rfl⟩
  · cases hcreate

/-- the keys of an identity that has none are taken -/
theorem createKeys_of_new {keys : KeyTables} {created : VerifiedCreation}
    (hnew : ∀ k ∈ keys.signingKeys.rows, k.identityId ≠ created.identityId) (createdAt : OffsetDateTime) :
    ∃ keys', createKeys keys createdAt created = .ok keys' ∧
      ∀ k ∈ keys'.signingKeys.rows, k ∈ keys.signingKeys.rows ∨ k.identityId = created.identityId := by
  have hstored : (keys.signingKeys.rows.find? fun k =>
      decide (k.identityId = created.identityId ∧ k.publicKey = created.inceptionKey.toList)) = none := by
    refine List.find?_eq_none.2 fun k hk => ?_
    simp [hnew k hk]
  unfold createKeys
  dsimp only
  rw [hstored, Option.any_none, Bool.and_false, if_neg Bool.false_ne_true]
  refine ⟨_, rfl, fun k hk => ?_⟩
  exact (Table.mem_insertIgnore hk).imp_right fun heq => by rw [heq]; rfl

/-- only these identities have rows -/
structure Within (t : Tables pg) (ids : List IdentityId) : Prop where
  profiles : ∀ p ∈ t.profiles.rows, p.identityId ∈ ids
  keys : ∀ k ∈ t.keys.signingKeys.rows, k.identityId ∈ ids

/-- **Creations of different identities** take all their names -/
theorem taken_run (pg : Lowering) (cfg : Config) (createdAt : OffsetDateTime) (origin : EventOrigin)
    (hmirrored : origin.isLocal = false) (cs : List VerifiedCreation) (hnodup : (cs.map VerifiedCreation.identityId).Nodup) :
    Within (run pg cfg (cs.map fun c => .created createdAt c origin)) (cs.map VerifiedCreation.identityId) ∧
      ∀ c ∈ cs, Taken (run pg cfg (cs.map fun c => .created createdAt c origin)).profiles c.displayName := by
  induction cs using List.reverseRecOn with
  | nil => exact ⟨⟨by simp [run, Tables.empty], by simp [run, Tables.empty, KeyTables.empty]⟩, by simp⟩
  | append_singleton cs c ih =>
    rw [List.map_append, List.nodup_append] at hnodup
    obtain ⟨hwithin, htaken⟩ := ih hnodup.1
    have hnew : c.identityId ∉ cs.map VerifiedCreation.identityId := by
      intro hmem
      exact hnodup.2.2 _ hmem _ (by simp) rfl
    obtain ⟨keys, hkeys, hkeyRows⟩ := createKeys_of_new
      (fun k hk heq => hnew (heq ▸ hwithin.keys k hk)) createdAt
    obtain ⟨profiles, hprofiles, hadds, hown⟩ := taken_createProfile cfg (named_run pg cfg _) hmirrored
      (fun p hp heq => hnew (heq ▸ hwithin.profiles p hp))
    have hrun : run pg cfg ((cs ++ [c]).map fun c => .created createdAt c origin) = ⟨keys, profiles⟩ := by
      rw [List.map_append, run, List.foldl_append]
      simp only [List.map_cons, List.map_nil, List.foldl_cons, List.foldl_nil]
      change step cfg (run pg cfg _) _ = _
      simp only [step, applyCreated, hkeys, hprofiles]
      rfl
    rw [hrun, List.map_append]
    refine ⟨⟨fun p hp => ?_, fun k hk => ?_⟩, fun d hd => ?_⟩
    · rcases hadds.2 p hp with hold | hsame
      · exact List.mem_append_left _ (hwithin.profiles p hold)
      · simp [hsame]
    · rcases hkeyRows k hk with hold | hsame
      · exact List.mem_append_left _ (hwithin.keys k hold)
      · simp [hsame]
    · rcases List.mem_append.1 hd with hd | hd
      · exact (htaken d hd).of_adds hadds
      · rw [List.mem_singleton.1 hd]
        exact hown

end Taken

/-! ## A database that lowers ASCII -/

/-- the C locale -/
def asciiLowering : Lowering where
  lower text := String.ofList (text.toList.map Char.toLower)
  lower_id id := by rw [map_toLower_toText, String.ofList_toList]
  of_id text id h := by rw [← h, String.toList_ofList]

def demoConfig : Config := ⟨⟨id, fun _ _ => .replicate 64 0, fun _ _ _ => true⟩, ⟨fun _ => true, fun _ => false⟩, id⟩

/-- a name of the greatest length -/
def longName : String := String.ofList (List.replicate 128 'z')

theorem toList_longName : longName.toList = List.replicate 128 'z' := String.toList_ofList

theorem trim_longName : trim longName.toList = longName.toList := by
  simp only [toList_longName]
  decide +kernel

theorem permitted_longName : displayNamePermitted longName = true := by
  have hz : ∀ c, c ∈ longName.toList ↔ c = 'z' := by
    intro c
    simp only [toList_longName, List.mem_replicate]
    exact and_iff_right (by decide)
  have hlength : longName.toList.length = 128 := by simp only [toList_longName, List.length_replicate]
  refine permitted_iff.2 ⟨?_, ?_, not_mimics_of_mem ((hz 'z').2 rfl) (by decide) (by decide) (by decide)⟩
  · rw [trim_longName, hlength]
    decide
  · intro c hc hinvisible
    rw [(hz c).1 hc] at hinvisible
    exact absurd hinvisible (by decide)

def creationBy (n : ℕ) (name : String) (h : displayNamePermitted name = true) : VerifiedCreation :=
  ⟨deriveIdentityId (.replicate 32 (UInt8.ofNat n)), .replicate 16 (UInt8.ofNat n), .replicate 32 (UInt8.ofNat n), name, rfl, h⟩

/-- a creation that comes late -/
def lateCreation : VerifiedCreation := creationBy 0 longName permitted_longName

/-- others take its name, and each name with a part of its id -/
def takers : List VerifiedCreation :=
  creationBy 1 longName permitted_longName ::
    suffixLengths.map fun hexLen =>
      creationBy hexLen _ (permitted_disambiguated permitted_longName lateCreation.identityId hexLen)

def mirrored : EventOrigin := ⟨"net", "core", false⟩

def takenRun : Tables asciiLowering := run asciiLowering demoConfig (takers.map fun c => .created 0 c mirrored)

theorem takers_nodup : ((lateCreation :: takers).map VerifiedCreation.identityId).Nodup := by decide +kernel

theorem names_takers : takers.map VerifiedCreation.displayName = lateCreation.displayName ::
    suffixLengths.map (disambiguatedDisplayName lateCreation.displayName lateCreation.identityId) := by
  rw [takers, List.map_cons, List.map_map]
  rfl

/-- every other name is taken, and the late creation is stored under its id -/
theorem display_names_taken :
    (∀ name ∈ lateCreation.displayName ::
        suffixLengths.map (disambiguatedDisplayName lateCreation.displayName lateCreation.identityId),
      Taken takenRun.profiles name) ∧
    ∃ profiles, createProfile demoConfig takenRun.profiles lateCreation mirrored = .ok profiles ∧
      ∃ p ∈ profiles.rows, p.identityId = lateCreation.identityId ∧ p.row.displayName = lateCreation.identityId.toText := by
  obtain ⟨hlate, hnodup⟩ := List.nodup_cons.1 takers_nodup
  obtain ⟨hwithin, htaken⟩ := taken_run asciiLowering demoConfig 0 mirrored rfl takers hnodup
  rw [← takenRun] at hwithin htaken
  have hnames : ∀ name ∈ lateCreation.displayName ::
      suffixLengths.map (disambiguatedDisplayName lateCreation.displayName lateCreation.identityId),
      Taken takenRun.profiles name := by
    rw [← names_takers]
    intro name hname
    obtain ⟨c, hc, rfl⟩ := List.mem_map.1 hname
    exact htaken c hc
  have hnone : profileOf takenRun.profiles lateCreation.identityId = none := by
    refine List.find?_eq_none.2 fun p hp => ?_
    have hne : p.identityId ≠ lateCreation.identityId := fun heq => hlate (heq ▸ hwithin.profiles p hp)
    simpa using hne
  obtain ⟨profiles, hcreate⟩ := ((display_names asciiLowering demoConfig _).2 0 lateCreation mirrored rfl hnone).1
  exact ⟨hnames, profiles, hcreate, id_of_taken rfl hnone hnames hcreate⟩

end Avalon.DisplayNames
