/-
Who put the keys into the indexer (`crates/indexer/src/postgres.rs`: `apply_verified`, `dispatch`; with
`crates/indexer/src/identity_proof.rs`, `projections/identity_signing_keys.rs` and `projections/profiles.rs`: `apply_created`).

A delivery brings an event with the stream it was read from, at the receiver's time. Only creations, and additions and revocations
of keys, change the tables of keys. What else a delivery projects, and whether that refuses it, is a parameter (`Projections`).

Results:
- `keys_deliver`: what one delivery does to the keys; `Keeps`, over any number of them.
- `key_authority`: every key is an identity's inception key or was granted by an active one, no public key has two ids, and a
  revoked key stays revoked.
-/
import Mathlib.Tactic
import Avalon.Core.Fallible
import Avalon.Core.UniqueTable
import Avalon.Protocol.SigningBytes
import Avalon.Protocol.Events
import Avalon.Protocol.IdentityId
import Avalon.Indexer.ChainStore
import Avalon.Indexer.Dispatch
import Avalon.Indexer.IdentityKeys
import Avalon.Indexer.DisplayNames

namespace Avalon.KeyAuthority

open Json (Value)
open UniqueTable Fallible Avalon.SigningBytes Avalon.LedgerEntry Avalon.Events Avalon.Identity Avalon.IdentityKeys
open Avalon.ChainStore (Event Recorded Chain StoreError)
open Avalon.Dispatch (Indexed applyVerified dispatch)
open Avalon.DisplayNames (createKeys)

variable {F P : Type}

/-! ## Model -/

/-- what is projected beside the keys -/
structure Projections (F P : Type) where
  empty : P
  /-- the profile of a creation -/
  created : P → OffsetDateTime → VerifiedCreation → EventOrigin → Except IndexError P
  /-- the other kinds of events -/
  other : KeyTables → P → Event F → Option EventOrigin → Recorded F → Except IndexError P

structure Tables (P : Type) where
  keys : KeyTables
  rest : P

structure Delivery (F : Type) where
  now : OffsetDateTime
  event : Event F
  origin : Option EventOrigin

section

variable [Json.F64 F] (cfg : Config) (projections : Projections F P) (localNetwork : Option String)

def project (t : Tables P) (d : Delivery F) (verified : Verified) (recorded : Recorded F) : Except IndexError (Tables P) :=
  if d.event.kind = "identity.created" then
    match verified, d.origin with
    | .creation created, some origin => do
      let keys ← createKeys t.keys d.event.timestamp created
      let rest ← projections.created t.rest d.event.timestamp created origin
      return ⟨keys, rest⟩
    | _, _ => .ok t
  else if d.event.kind = "identity.signing_key_added" ∨ d.event.kind = "identity.signing_key_revoked" then
    match IdentityKeys.decode cfg d.event with
    | some write => (apply t.keys write).map fun keys => ⟨keys, t.rest⟩
    | none => .ok t
  else (projections.other t.keys t.rest d.event d.origin recorded).map fun rest => ⟨t.keys, rest⟩

def empty : Indexed F (Tables P) := ⟨[], fun _ => .empty, ⟨.empty, projections.empty⟩⟩

def deliver (s : Indexed F (Tables P)) (d : Delivery F) : Indexed F (Tables P) :=
  applyVerified s (dispatch (fun _ => IndexError.storage) (verify cfg s.projected.keys d.event d.origin localNetwork)
    (project cfg projections s.projected d) d.now ((d.origin.map EventOrigin.shardId).getD "") s d.event)

def deliverAll (ds : List (Delivery F)) : Indexed F (Tables P) := ds.foldl (deliver cfg projections localNetwork) (empty projections)

end

/-! ## Where a key comes from -/

/-- the verified creation of the key's identity: the id is derived from the key, and the ticket names the key's id -/
def Inception (cfg : Config) (d : Delivery F) (k : KeyRow) : Prop :=
  d.event.kind = "identity.created" ∧ ∃ origin created, d.origin = some origin ∧
    verifyCreated cfg d.event origin.networkId = .ok created ∧ k.identityId = created.identityId ∧
    k.identityId = deriveIdentityId created.inceptionKey ∧ k.publicKey = created.inceptionKey.toList ∧
    k.signingKeyId = created.ticketId

/-- a grant of the key that a key of its identity signed, active in these tables -/
def DeviceGrant (cfg : Config) (t : KeyTables) (d : Delivery F) (k : KeyRow) : Prop :=
  d.event.kind = "identity.signing_key_added" ∧ ∃ origin added key, d.origin = some origin ∧
    readKeyAdded d.event.payload = some added ∧ Granted cfg t d.event origin.networkId added key ∧
    k.identityId = added.identityId ∧ k.signingKeyId = added.signingKeyId ∧ k.publicKey = key.toList

section

variable {cfg : Config} {projections : Projections F P} {localNetwork : Option String}

theorem verify_creation {t : KeyTables} {event : Event F} {origin : Option EventOrigin} {verified : Verified}
    (hkind : event.kind = "identity.created") (h : verify cfg t event origin localNetwork = .ok verified) :
    ∃ o created, origin = some o ∧ verified = .creation created ∧ verifyCreated cfg event o.networkId = .ok created := by
  unfold verify at h
  rw [if_pos hkind] at h
  obtain ⟨o, ho, h⟩ := bind_eq_ok.1 h
  obtain ⟨created, hcreated, h⟩ := bind_eq_ok.1 h
  cases h
  exact ⟨o, created, orReject_eq_ok ho, rfl, hcreated⟩

theorem verify_keyAdded {t : KeyTables} {event : Event F} {origin : Option EventOrigin} {verified : Verified}
    (hkind : event.kind = "identity.signing_key_added") (h : verify cfg t event origin localNetwork = .ok verified) :
    verifyKeyAdded cfg t event origin = .ok () := by
  unfold verify at h
  rw [if_neg (by rw [hkind]; decide), if_pos hkind] at h
  obtain ⟨_, hadded, -⟩ := bind_eq_ok.1 h
  exact hadded

theorem extends_createKeys {t t' : KeyTables} {createdAt : OffsetDateTime} {created : VerifiedCreation}
    (h : createKeys t createdAt created = .ok t') :
    Extends t t' fun k => k = newKeyRow t created.ticketId created.identityId created.inceptionKey.toList none createdAt := by
  unfold createKeys at h
  dsimp only at h
  split at h
  · cases h
  · cases h
    rcases Table.insertIgnore_cases t.signingKeys
      (newKeyRow t created.ticketId created.identityId created.inceptionKey.toList none createdAt) with ⟨-, hinsert⟩ | ⟨heq, -⟩
    · exact extends_insert _ hinsert
    · exact extends_of_eq (congrArg Prod.fst heq) rfl

/-- an addition decodes to what was verified -/
theorem decode_keyAdded {event : Event F} {write : SigningKeyWrite} {added : IdentitySigningKeyAddedPayload}
    (hkind : event.kind = "identity.signing_key_added") (hadded : readKeyAdded event.payload = some added)
    (h : IdentityKeys.decode cfg event = some write) :
    ∃ publicKey, Base64.decode added.publicKey = some publicKey ∧
      write = .added added.signingKeyId added.identityId publicKey added.deviceLabel event.timestamp := by
  unfold IdentityKeys.decode at h
  rw [if_pos hkind] at h
  split at h
  · cases h
  · obtain ⟨added', hadded', h⟩ := Option.bind_eq_some_iff.1 h
    obtain rfl := Option.some.inj (hadded.symm.trans hadded')
    obtain ⟨publicKey, hpublicKey, h⟩ := Option.bind_eq_some_iff.1 h
    refine ⟨publicKey, hpublicKey, ?_⟩
    dsimp only at h
    split at h
    · obtain ⟨key, -, h⟩ := Option.bind_eq_some_iff.1 h
      obtain ⟨_, -, h⟩ := Option.bind_eq_some_iff.1 h
      split at h
      · cases h
      · cases h
        rfl
    · cases h
      rfl

theorem decode_keyRevoked {event : Event F} {write : SigningKeyWrite} (hkind : event.kind = "identity.signing_key_revoked")
    (h : IdentityKeys.decode cfg event = some write) :
    ∃ signingKeyId identityId revokedAt, write = .revoked signingKeyId identityId revokedAt := by
  unfold IdentityKeys.decode at h
  rw [if_neg (by rw [hkind]; decide), if_pos hkind] at h
  split at h
  · cases h
  · obtain ⟨revoked, -, h⟩ := Option.bind_eq_some_iff.1 h
    cases h
    exact ⟨_, _, _, rfl⟩

theorem Inception.of_sameKey {d : Delivery F} {k k' : KeyRow} (h : Inception cfg d k) (hsame : SameKey k k') :
    Inception cfg d k' := by
  obtain ⟨hkind, origin, created, horigin, hcreated, hidentity, hderived, hkey, hid⟩ := h
  obtain ⟨h1, h2, h3⟩ := hsame
  exact ⟨hkind, origin, created, horigin, hcreated, h1 ▸ hidentity, h1 ▸ hderived, h3 ▸ hkey, h2 ▸ hid⟩

theorem DeviceGrant.of_sameKey {t : KeyTables} {d : Delivery F} {k k' : KeyRow} (h : DeviceGrant cfg t d k)
    (hsame : SameKey k k') : DeviceGrant cfg t d k' := by
  obtain ⟨hkind, origin, added, key, horigin, hadded, hgranted, hidentity, hid, hkey⟩ := h
  obtain ⟨h1, h2, h3⟩ := hsame
  exact ⟨hkind, origin, added, key, horigin, hadded, hgranted, h1 ▸ hidentity, h2 ▸ hid, h3 ▸ hkey⟩

/-! ## One delivery -/

/-- a new key has its creation, or its grant -/
theorem keys_project {t t' : Tables P} {d : Delivery F} {verified : Verified} {recorded : Recorded F}
    (hverify : verify cfg t.keys d.event d.origin localNetwork = .ok verified)
    (h : project cfg projections t d verified recorded = .ok t') :
    Extends t.keys t'.keys fun k => Inception cfg d k ∨ DeviceGrant cfg t.keys d k := by
  unfold project at h
  split at h
  · rename_i hkind
    obtain ⟨origin, created, horigin, rfl, hcreated⟩ := verify_creation hkind hverify
    rw [horigin] at h
    obtain ⟨keys, hkeys, h⟩ := bind_eq_ok.1 h
    obtain ⟨rest, -, h⟩ := bind_eq_ok.1 h
    cases h
    refine (extends_createKeys hkeys).mono ?_
    rintro k rfl
    exact .inl ⟨hkind, origin, created, horigin, hcreated, rfl, created.derived.symm, rfl, rfl⟩
  · split at h
    · rename_i hkinds
      split at h
      · rename_i write hwrite
        cases happly : apply t.keys write with
        | error e =>
          rw [happly] at h
          cases h
        | ok keys =>
          rw [happly] at h
          cases h
          rcases hkinds with hkind | hkind
          · obtain ⟨added, key, origin, horigin, hadded, hkey, hshown⟩ :=
              granted_of_verifyKeyAdded (verify_keyAdded hkind hverify)
            obtain ⟨publicKey, hpublicKey, rfl⟩ := decode_keyAdded hkind hadded hwrite
            obtain rfl := Option.some.inj (hkey.symm.trans hpublicKey)
            rcases apply_added_cases happly with ⟨k, -, hextends⟩ | ⟨hnone, hextends⟩
            · exact hextends.mono fun _ h => h.elim
            · -- the row of an inception key would be there
              rcases hshown with hgranted | ⟨stored, hstored, -⟩
              · refine hextends.mono ?_
                rintro k rfl
                exact .inr ⟨hkind, origin, added, key, horigin, hadded, hgranted, rfl, rfl, rfl⟩
              · rw [hnone] at hstored
                cases hstored
          · obtain ⟨signingKeyId, identityId, revokedAt, rfl⟩ := decode_keyRevoked hkind hwrite
            cases happly
            exact extends_revoke identityId signingKeyId revokedAt
      · cases h
        exact extends_of_eq rfl rfl
    · cases hother : projections.other t.keys t.rest d.event d.origin recorded with
      | error e =>
        rw [hother] at h
        cases h
      | ok rest =>
        rw [hother] at h
        cases h
        exact extends_of_eq rfl rfl

variable [Json.F64 F]

/-- **What a delivery does to the keys** -/
theorem keys_deliver (s : Indexed F (Tables P)) (d : Delivery F) :
    Extends s.projected.keys (deliver cfg projections localNetwork s d).projected.keys
      fun k => Inception cfg d k ∨ DeviceGrant cfg s.projected.keys d k := by
  have hcases : (deliver cfg projections localNetwork s d).projected = s.projected ∨
      ∃ verified recorded, verify cfg s.projected.keys d.event d.origin localNetwork = .ok verified ∧
        project cfg projections s.projected d verified recorded = .ok (deliver cfg projections localNetwork s d).projected :=
    Dispatch.projected_cases
  rcases hcases with hsame | ⟨verified, recorded, hverify, hproject⟩
  · rw [hsame]
    exact extends_of_eq rfl rfl
  · exact keys_project hverify hproject

/-! ## Any number of deliveries -/

theorem deliverAll_concat (ds : List (Delivery F)) (d : Delivery F) :
    deliverAll cfg projections localNetwork (ds ++ [d]) =
      deliver cfg projections localNetwork (deliverAll cfg projections localNetwork ds) d := by
  rw [deliverAll, deliverAll, List.foldl_append]
  rfl

/-- the keys after some deliveries -/
abbrev keysAfter (cfg : Config) (projections : Projections F P) (localNetwork : Option String) (ds : List (Delivery F)) : KeyTables :=
  (deliverAll cfg projections localNetwork ds).projected.keys

/-- over more deliveries no key goes, and none is revived -/
theorem keys_append (cfg : Config) (projections : Projections F P) (localNetwork : Option String) (before after : List (Delivery F)) :
    Extends (keysAfter cfg projections localNetwork before) (keysAfter cfg projections localNetwork (before ++ after))
      fun _ => True := by
  induction after using List.reverseRecOn with
  | nil =>
    rw [List.append_nil]
    exact extends_of_eq rfl rfl
  | append_singleton after d ih =>
    have hlast : keysAfter cfg projections localNetwork (before ++ (after ++ [d])) =
        (deliver cfg projections localNetwork (deliverAll cfg projections localNetwork (before ++ after)) d).projected.keys := by
      rw [← List.append_assoc, keysAfter, deliverAll_concat]
    rw [hlast]
    exact ih.trans (keys_deliver _ d)

theorem honoured_deliverAll (ds : List (Delivery F)) : Honoured (keysAfter cfg projections localNetwork ds) :=
  (keys_append cfg projections localNetwork [] ds).honoured fun _ hr => nomatch hr

/-- **Every key came with a delivery**: its identity's creation, or a grant by a key that was active then -/
theorem source_of_key {ds : List (Delivery F)} {k : KeyRow} (h : k ∈ (keysAfter cfg projections localNetwork ds).signingKeys.rows) :
    ∃ before d after, ds = before ++ d :: after ∧
      (Inception cfg d k ∨ DeviceGrant cfg (keysAfter cfg projections localNetwork before) d k) := by
  induction ds using List.reverseRecOn generalizing k with
  | nil => cases h
  | append_singleton ds d ih =>
    rw [keysAfter, deliverAll_concat] at h
    rcases (keys_deliver _ d).new k h with ⟨k₀, hk₀, hsame⟩ | hnew
    · obtain ⟨before, d', after, rfl, hsource⟩ := ih hk₀
      refine ⟨before, d', after ++ [d], by simp, ?_⟩
      exact hsource.imp (fun h => h.of_sameKey hsame) fun h => h.of_sameKey hsame
    · exact ⟨ds, d, [], rfl, hnew⟩

/-- **Keys of identities.** After any deliveries: each key is the inception key of its identity, under the id of the creation's
ticket, or was granted by a key of the identity that was active then; no public key of an identity has two ids; and what was
revoked once, or whose revocation came once, is revoked. -/
theorem key_authority (cfg : Config) (projections : Projections F P) (localNetwork : Option String) (ds : List (Delivery F)) :
    (∀ k ∈ (keysAfter cfg projections localNetwork ds).signingKeys.rows, ∃ before d after, ds = before ++ d :: after ∧
      (Inception cfg d k ∨ DeviceGrant cfg (keysAfter cfg projections localNetwork before) d k)) ∧
    (∀ k ∈ (keysAfter cfg projections localNetwork ds).signingKeys.rows,
      ∀ k' ∈ (keysAfter cfg projections localNetwork ds).signingKeys.rows,
      k.identityId = k'.identityId → k.publicKey = k'.publicKey → k.signingKeyId = k'.signingKeyId) ∧
    ∀ before after, ds = before ++ after →
      (∀ k ∈ (keysAfter cfg projections localNetwork before).signingKeys.rows, k.revokedAt.isSome →
        ∀ k' ∈ (keysAfter cfg projections localNetwork ds).signingKeys.rows, k'.identityId = k.identityId →
          k'.signingKeyId = k.signingKeyId ∨ k'.publicKey = k.publicKey → k'.revokedAt.isSome) ∧
      ∀ r ∈ (keysAfter cfg projections localNetwork before).revocations.rows,
        ∀ k' ∈ (keysAfter cfg projections localNetwork ds).signingKeys.rows, k'.identityId = r.identityId →
          k'.signingKeyId = r.signingKeyId → k'.revokedAt.isSome := by
  have hone : ∀ k ∈ (keysAfter cfg projections localNetwork ds).signingKeys.rows,
      ∀ k' ∈ (keysAfter cfg projections localNetwork ds).signingKeys.rows, KeyRow.Clash k k' → k = k' := by
    intro k hk k' hk' hclash
    refine Table.eq_of_conflict (fun a b h => ?_) hk hk' hclash
    exact ⟨h.1.symm, h.2.imp Eq.symm Eq.symm⟩
  refine ⟨fun k hk => source_of_key hk, fun k hk k' hk' hidentity hkey => ?_, ?_⟩
  · rw [hone k hk k' hk' ⟨hidentity, .inr hkey⟩]
  · rintro before after rfl
    have hextends := keys_append cfg projections localNetwork before after
    refine ⟨fun k hk hrevoked k' hk' hidentity hsame => ?_, fun r hr k' hk' hidentity hid => ?_⟩
    · obtain ⟨k₁, hk₁, ⟨h1, h2, h3⟩, hkept⟩ := hextends.kept k hk
      have heq : k' = k₁ := hone k' hk' k₁ hk₁ ⟨hidentity.trans h1, hsame.imp (fun h => h.trans h2) fun h => h.trans h3⟩
      rw [heq]
      exact hkept hrevoked
    · exact honoured_deliverAll _ r (hextends.revocations hr) k' hk' hidentity hid

end

end Avalon.KeyAuthority
