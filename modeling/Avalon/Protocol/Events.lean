/-
Protocol events and batches (`crates/protocol/src/events.rs`).

The payload is JSON in the source; here it is any type, and what the ledger needs of it is a `PayloadCodec`.
-/
import Mathlib.Tactic
import Avalon.Core.Bytes
import Avalon.Protocol.LedgerEntry

namespace Avalon.Events

open Avalon.LedgerEntry

inductive ProtocolEventKindVariant where
  | identityCreated
  | identitySigningKeyAdded
  | identitySigningKeyRevoked
  | identityPasskeyRegistered
  | identityPasskeyRevoked
  | identityRecoveryConfigured
  | identityRecoveryRequested
  | identityRecoveryApproved
  | identityRecoveryCancelled
  | identityRecovered
  | profileUpdated
  | gameRegistered
  | gameBindingEstablished
  | gameBindingEnded
  | permissionGranted
  | permissionRevoked
  | issuerRegistered
  | issuerKeyAdded
  | issuerKeyRevoked
  | friendRequested
  | friendAccepted
  | friendRemoved
  | friendRelationshipReversed
  | guildCreated
  | guildUpdated
  | guildRoleDefined
  | guildRoleDeleted
  | guildMemberAdded
  | guildMemberRemoved
  | guildMembershipReversed
  | guildRoleChanged
  | guildOwnerTransferred
  | guildGameAssociated
  | guildFavoriteGamesUpdated
  | guildChannelCreated
  | guildChannelRenamed
  | guildChannelArchived
  | gameSchemaPublished
  | gameSchemaMappingPublished
  | gameDataPublished
  | gameDataDeleted
  | achievementDefined
  | achievementDefinitionUpdated
  | achievementDefinitionRetired
  | achievementIssued
  | achievementRevoked
  | milestoneDefined
  | milestoneDefinitionUpdated
  | milestoneDefinitionRetired
  | milestoneIssued
  | milestoneRevoked
  | integratorRecognitionPublished
  | integratorRecognitionRevoked
deriving DecidableEq, Repr

/-- the permanent wire string of a kind -/
def ProtocolEventKindVariant.asStr : ProtocolEventKindVariant → String
  | .identityCreated => "identity.created"
  | .identitySigningKeyAdded => "identity.signing_key_added"
  | .identitySigningKeyRevoked => "identity.signing_key_revoked"
  | .identityPasskeyRegistered => "identity.passkey_registered"
  | .identityPasskeyRevoked => "identity.passkey_revoked"
  | .identityRecoveryConfigured => "identity.recovery_configured"
  | .identityRecoveryRequested => "identity.recovery_requested"
  | .identityRecoveryApproved => "identity.recovery_approved"
  | .identityRecoveryCancelled => "identity.recovery_cancelled"
  | .identityRecovered => "identity.recovered"
  | .profileUpdated => "profile.updated"
  | .gameRegistered => "game.registered"
  | .gameBindingEstablished => "game.binding_established"
  | .gameBindingEnded => "game.binding_ended"
  | .permissionGranted => "permission.granted"
  | .permissionRevoked => "permission.revoked"
  | .issuerRegistered => "issuer.registered"
  | .issuerKeyAdded => "issuer.key_added"
  | .issuerKeyRevoked => "issuer.key_revoked"
  | .friendRequested => "friend.requested"
  | .friendAccepted => "friend.accepted"
  | .friendRemoved => "friend.removed"
  | .friendRelationshipReversed => "friend.relationship_reversed"
  | .guildCreated => "guild.created"
  | .guildUpdated => "guild.updated"
  | .guildRoleDefined => "guild.role_defined"
  | .guildRoleDeleted => "guild.role_deleted"
  | .guildMemberAdded => "guild.member_added"
  | .guildMemberRemoved => "guild.member_removed"
  | .guildMembershipReversed => "guild.membership_reversed"
  | .guildRoleChanged => "guild.role_changed"
  | .guildOwnerTransferred => "guild.owner_transferred"
  | .guildGameAssociated => "guild.game_associated"
  | .guildFavoriteGamesUpdated => "guild.favorite_games_updated"
  | .guildChannelCreated => "guild.channel_created"
  | .guildChannelRenamed => "guild.channel_renamed"
  | .guildChannelArchived => "guild.channel_archived"
  | .gameSchemaPublished => "game_schema.published"
  | .gameSchemaMappingPublished => "game_schema_mapping.published"
  | .gameDataPublished => "game_data.published"
  | .gameDataDeleted => "game_data.deleted"
  | .achievementDefined => "achievement.defined"
  | .achievementDefinitionUpdated => "achievement.definition_updated"
  | .achievementDefinitionRetired => "achievement.definition_retired"
  | .achievementIssued => "achievement.issued"
  | .achievementRevoked => "achievement.revoked"
  | .milestoneDefined => "milestone.defined"
  | .milestoneDefinitionUpdated => "milestone.definition_updated"
  | .milestoneDefinitionRetired => "milestone.definition_retired"
  | .milestoneIssued => "milestone.issued"
  | .milestoneRevoked => "milestone.revoked"
  | .integratorRecognitionPublished => "integrator.recognition_published"
  | .integratorRecognitionRevoked => "integrator.recognition_revoked"

/-- every known kind -/
def ProtocolEventKindVariant.all : List ProtocolEventKindVariant := [
  .identityCreated, .identitySigningKeyAdded, .identitySigningKeyRevoked, .identityPasskeyRegistered,
  .identityPasskeyRevoked, .identityRecoveryConfigured, .identityRecoveryRequested, .identityRecoveryApproved,
  .identityRecoveryCancelled, .identityRecovered, .profileUpdated, .gameRegistered, .gameBindingEstablished,
  .gameBindingEnded, .permissionGranted, .permissionRevoked, .issuerRegistered, .issuerKeyAdded, .issuerKeyRevoked,
  .friendRequested, .friendAccepted, .friendRemoved, .friendRelationshipReversed, .guildCreated, .guildUpdated,
  .guildRoleDefined, .guildRoleDeleted, .guildMemberAdded, .guildMemberRemoved, .guildMembershipReversed,
  .guildRoleChanged, .guildOwnerTransferred, .guildGameAssociated, .guildFavoriteGamesUpdated, .guildChannelCreated,
  .guildChannelRenamed, .guildChannelArchived, .gameSchemaPublished, .gameSchemaMappingPublished, .gameDataPublished,
  .gameDataDeleted, .achievementDefined, .achievementDefinitionUpdated, .achievementDefinitionRetired,
  .achievementIssued, .achievementRevoked, .milestoneDefined, .milestoneDefinitionUpdated,
  .milestoneDefinitionRetired, .milestoneIssued, .milestoneRevoked, .integratorRecognitionPublished,
  .integratorRecognitionRevoked]

inductive ProtocolEventKind where
  | known (v : ProtocolEventKindVariant)
  | other (s : String)
deriving DecidableEq, Repr

/-- a known kind by its wire string; any other string is a kind too -/
def ProtocolEventKind.fromStr (s : String) : ProtocolEventKind :=
  match ProtocolEventKindVariant.all.find? fun v => decide (v.asStr = s) with
  | some v => .known v
  | none => .other s

abbrev Uuid := FixedBytes 16

/-- an event's place in its identity's own chain -/
structure IdentityChainPosition where
  seq : UInt64
  prevHash : Option String
  layoutVersion : UInt16
  rulesVersion : UInt32
  hashAlgo : UInt8
  extensions : String
deriving DecidableEq, Repr

structure ProtocolEvent (P : Type) where
  id : Uuid
  kind : String
  issuer : String
  subject : String
  payload : P
  timestamp : OffsetDateTime
  version : UInt32
  identityChain : Option IdentityChainPosition

structure EventBatch (P : Type) where
  id : Uuid
  events : List (ProtocolEvent P)

structure Commitment where
  batchId : Uuid
  proof : Bytes
  committedAt : OffsetDateTime

/-- what the ledger does with payloads: embed a chain position, and hash the canonical form where there is one -/
structure PayloadCodec (P : Type) where
  embedPosition : P → IdentityChainPosition → P
  payloadHash : P → Option (FixedBytes 32)

end Avalon.Events
