/-
Sessions and the credentials that produced them.

A revocation and a recovery delete the sessions that they see, and a session may be minted at that moment. What keeps a session
from being left behind are the locks on the credential's row: who mints shares it, from before the check until the commit, and
who revokes has it alone, from before the sessions are deleted. A signing key of another node has no row here to be shared; the
result is about runs in which no row of a key is written while a session is minted with that key and found none.

Results:
- `session_credentials_live`: no session has a revoked credential, and so no token of one resolves.
-/
import Mathlib.Tactic
import Avalon.Server.Logins

namespace Avalon.Logins

open Avalon.Events Avalon.Identity Avalon.LedgerEntry Avalon.SignatureGate
open Interleaving

/-! ## The invariant -/

/-- the passkey is there -/
def Registered (t : Tables) (identityId : IdentityId) (passkeyId : Uuid) : Prop :=
  ∃ r ∈ t.passkeys, r.id = passkeyId ∧ r.identityId = identityId

/-- the key has a row -/
def Listed (t : Tables) (identityId : IdentityId) (signingKeyId : Uuid) : Prop :=
  ∃ r ∈ t.signingKeys, r.id = signingKeyId ∧ r.identityId = identityId

/-- no row of the key is revoked -/
def Unrevoked (t : Tables) (identityId : IdentityId) (signingKeyId : Uuid) : Prop :=
  ∀ r ∈ t.signingKeys, r.id = signingKeyId → r.identityId = identityId → r.revoked = false

/-- the credential of a session is there and is not revoked -/
structure Live (t : Tables) (s : SessionRow) : Prop where
  passkey : ∀ passkeyId, s.origin.passkeyId = some passkeyId → Registered t s.identityId passkeyId
  signingKey : ∀ signingKeyId, s.origin.signingKeyId = some signingKeyId → Unrevoked t s.identityId signingKeyId

/-- what a call that mints has seen of a key, and may still rely on -/
def KeySeen (t : Tables) (identityId : IdentityId) (signingKeyId : Uuid) (isLocal : Bool) : Prop :=
  if isLocal then Unrevoked t identityId signingKeyId else ¬ Listed t identityId signingKeyId

/-- a session that is minted with a passkey, or with a key -/
inductive Backing (t : Tables) (m : Minting) : Option Row → Prop
  | passkey (passkeyId : Uuid) : m.origin = ⟨some passkeyId, none⟩ → Registered t m.identityId passkeyId →
      Backing t m (some (.passkey passkeyId))
  | signingKey (signingKeyId : Uuid) (isLocal : Bool) : m.origin = ⟨none, some signingKeyId⟩ →
      KeySeen t m.identityId signingKeyId isLocal →
      Backing t m (if isLocal then some (.signingKey m.identityId signingKeyId) else none)

/-- what a call knows -/
def Phase.Holds (t : Tables) : Phase → Prop
  | usable m signingKeyId _ => m.origin = ⟨none, some signingKeyId⟩
  | keyLocked m signingKeyId isLocal => m.origin = ⟨none, some signingKeyId⟩ ∧ KeySeen t m.identityId signingKeyId isLocal
  | minting m held => Backing t m held
  | deviceLocked identityId signingKeyId ids => signingKeyId ∈ ids ∧ Listed t identityId signingKeyId
  | deviceEnded identityId signingKeyId ids sessions => (signingKeyId ∈ ids ∧ Listed t identityId signingKeyId) ∧
      ∀ s ∈ t.sessions, s.identityId = identityId → s.origin.signingKeyId = some signingKeyId → s.tokenHash ∈ sessions
  | passkeyEnded identityId passkeyId _ sessions =>
      ∀ s ∈ t.sessions, s.identityId = identityId → s.origin.passkeyId = some passkeyId → s.tokenHash ∈ sessions
  | sessionsErased r => ∀ s ∈ t.sessions, s.identityId = r.passkey.identityId → ∀ passkeyId ∈ r.deleted,
      s.origin.passkeyId = some passkeyId → s.tokenHash ∈ r.sessions
  | _ => True

/-- the key of a call that mints and has found no row of it -/
def Phase.unlisted : Phase → Option (IdentityId × Uuid)
  | keyLocked m signingKeyId false => some (m.identityId, signingKeyId)
  | minting m none => m.origin.signingKeyId.map (m.identityId, ·)
  | _ => none

/-- no row of a key is written while a call mints with that key and has found none -/
def NewKey (_ : Tables) (others : List Phase) : Phase → Prop
  | .received (.addSigningKey id identityId _) => ∀ q ∈ others, q.unlisted ≠ some (identityId, id)
  | _ => True

instance (t : Tables) (others : List Phase) (p : Phase) : Decidable (NewKey t others p) := by
  unfold NewKey
  split <;> infer_instance

/-- the credentials of all sessions are live; the rows of keys have their own ids -/
structure AllLive (t : Tables) : Prop where
  keyIds : (t.signingKeys.map SigningKeyRow.id).Nodup
  live : ∀ s ∈ t.sessions, Live t s

section

variable {v : Verifier} {t t' : Tables} {p q p' : Phase} {others : List Phase}

/-! ## Operations -/

/-- the credentials are the same, and there are no more sessions -/
structure Still (t t' : Tables) : Prop where
  passkeys : t'.passkeys = t.passkeys
  signingKeys : t'.signingKeys = t.signingKeys
  sessions : ∀ s ∈ t'.sessions, s ∈ t.sessions

theorem Still.refl (t : Tables) : Still t t := ⟨rfl, rfl, fun _ => id⟩

theorem KeySeen.of_eq {identityId : IdentityId} {signingKeyId : Uuid} {isLocal : Bool}
    (h : KeySeen t identityId signingKeyId isLocal) (hkeys : t'.signingKeys = t.signingKeys) :
    KeySeen t' identityId signingKeyId isLocal := by
  unfold KeySeen Unrevoked Listed
  rw [hkeys]
  exact h

theorem Backing.of_eq {m : Minting} {held : Option Row} (h : Backing t m held) (hpasskeys : t'.passkeys = t.passkeys)
    (hkeys : t'.signingKeys = t.signingKeys) : Backing t' m held := by
  cases h with
  | passkey passkeyId horigin hregistered =>
    refine .passkey passkeyId horigin ?_
    unfold Registered
    rw [hpasskeys]
    exact hregistered
  | signingKey signingKeyId isLocal horigin hseen => exact .signingKey signingKeyId isLocal horigin (hseen.of_eq hkeys)

theorem Live.of_eq {s : SessionRow} (h : Live t s) (hpasskeys : t'.passkeys = t.passkeys)
    (hkeys : t'.signingKeys = t.signingKeys) : Live t' s := by
  refine ⟨fun passkeyId horigin => ?_, fun signingKeyId horigin => ?_⟩
  · unfold Registered
    rw [hpasskeys]
    exact h.passkey passkeyId horigin
  · unfold Unrevoked
    rw [hkeys]
    exact h.signingKey signingKeyId horigin

theorem Still.holds (h : Still t t') (hq : q.Holds t) : q.Holds t' := by
  have hlisted : ∀ {identityId signingKeyId}, Listed t identityId signingKeyId → Listed t' identityId signingKeyId := by
    intro identityId signingKeyId hlisted
    unfold Listed
    rw [h.signingKeys]
    exact hlisted
  cases q with
  | usable => exact hq
  | keyLocked => exact ⟨hq.1, hq.2.of_eq h.signingKeys⟩
  | minting => exact hq.of_eq h.passkeys h.signingKeys
  | deviceLocked => exact ⟨hq.1, hlisted hq.2⟩
  | deviceEnded => exact ⟨⟨hq.1.1, hlisted hq.1.2⟩, fun s hs => hq.2 s (h.sessions s hs)⟩
  | passkeyEnded => exact fun s hs => hq s (h.sessions s hs)
  | sessionsErased => exact fun s hs => hq s (h.sessions s hs)
  | _ => trivial

/-- a row that one call has alone is not had by another -/
theorem notMem_shared (h : p.locks.Compatible q.locks) {k : Row} (hp : k ∈ p.locks.alone) : k ∉ q.locks.shared := (h.1 k hp).2

theorem notMem_alone (h : p.locks.Compatible q.locks) {k : Row} (hp : k ∈ p.locks.shared) : k ∉ q.locks.alone :=
  fun hq => h.2 k hq hp

/-- a key that a session is minted with is not revoked -/
theorem KeySeen.unrevoked {identityId : IdentityId} {signingKeyId : Uuid} {isLocal : Bool}
    (h : KeySeen t identityId signingKeyId isLocal) : Unrevoked t identityId signingKeyId := by
  cases isLocal with
  | true => exact h
  | false => exact fun r hr hid hidentity => absurd ⟨r, hr, hid, hidentity⟩ h

/-- a session is minted with a live credential -/
theorem Backing.live {m : Minting} {held : Option Row} (h : Backing t m held) {s : SessionRow}
    (hidentity : s.identityId = m.identityId) (horigin : s.origin = m.origin) : Live t s := by
  refine ⟨fun passkeyId hpasskey => ?_, fun signingKeyId hkey => ?_⟩
  · rw [horigin] at hpasskey
    rw [hidentity]
    cases h with
    | passkey passkeyId' hm hregistered =>
      rw [hm] at hpasskey
      cases hpasskey
      exact hregistered
    | signingKey signingKeyId isLocal hm hseen =>
      rw [hm] at hpasskey
      cases hpasskey
  · rw [horigin] at hkey
    rw [hidentity]
    cases h with
    | passkey passkeyId' hm hregistered =>
      rw [hm] at hkey
      cases hkey
    | signingKey signingKeyId' isLocal hm hseen =>
      rw [hm] at hkey
      cases hkey
      exact hseen.unrevoked

/-- a mint beside a revocation is of another credential -/
theorem holds_mint {m : Minting} {held : Option Row} (h : Backing t m held)
    (hcompatible : (Phase.minting m held).locks.Compatible q.locks) (hq : q.Holds t) (hkeys : t'.signingKeys = t.signingKeys)
    (hpasskeys : t'.passkeys = t.passkeys) {s : SessionRow} (hidentity : s.identityId = m.identityId)
    (horigin : s.origin = m.origin) (hsessions : t'.sessions = t.sessions ++ [s]) : q.Holds t' := by
  -- with the sessions from before it is what the call knew
  have hbefore : q.Holds { t' with sessions := t.sessions } :=
    Still.holds (t := t) ⟨hpasskeys, hkeys, fun _ => id⟩ hq
  have hshared : ∀ k, held = some k → k ∉ q.locks.alone := fun k hk =>
    notMem_alone hcompatible (by
      show k ∈ held.toList
      rw [hk]
      exact List.mem_singleton_self _)
  cases q with
  | deviceEnded identityId signingKeyId ids sessions =>
    refine ⟨hbefore.1, fun s' hs' hs'identity hs'key => ?_⟩
    rw [hsessions] at hs'
    rcases List.mem_append.1 hs' with hs' | hs'
    · exact hbefore.2 s' hs' hs'identity hs'key
    · obtain rfl := List.mem_singleton.1 hs'
      exfalso
      rw [horigin] at hs'key
      cases h with
      | passkey passkeyId hm _ =>
        rw [hm] at hs'key
        cases hs'key
      | signingKey signingKeyId' isLocal hm hseen =>
        rw [hm] at hs'key
        cases hs'key
        rw [hidentity] at hs'identity
        subst hs'identity
        cases isLocal with
        | true => exact hshared _ rfl (List.mem_map_of_mem hq.1.1)
        | false => exact hseen hq.1.2
  | passkeyEnded identityId passkeyId ids sessions =>
    intro s' hs' hs'identity hs'passkey
    rw [hsessions] at hs'
    rcases List.mem_append.1 hs' with hs' | hs'
    · exact hbefore s' hs' hs'identity hs'passkey
    · obtain rfl := List.mem_singleton.1 hs'
      exfalso
      rw [horigin] at hs'passkey
      cases h with
      | passkey passkeyId' hm _ =>
        rw [hm] at hs'passkey
        cases hs'passkey
        exact hshared _ rfl List.mem_cons_self
      | signingKey signingKeyId' isLocal hm _ =>
        rw [hm] at hs'passkey
        cases hs'passkey
  | sessionsErased r =>
    intro s' hs' hs'identity passkeyId hdeleted hs'passkey
    rw [hsessions] at hs'
    rcases List.mem_append.1 hs' with hs' | hs'
    · exact hbefore s' hs' hs'identity passkeyId hdeleted hs'passkey
    · obtain rfl := List.mem_singleton.1 hs'
      exfalso
      rw [horigin] at hs'passkey
      cases h with
      | passkey passkeyId' hm _ =>
        rw [hm] at hs'passkey
        cases hs'passkey
        exact hshared _ rfl (List.mem_append_left _ (List.mem_map_of_mem hdeleted))
      | signingKey signingKeyId' isLocal hm _ =>
        rw [hm] at hs'passkey
        cases hs'passkey
  | minting => exact hbefore.of_eq rfl rfl
  | _ => exact hbefore

/-- what calls know of their credentials, when these change -/
theorem holds_of_credentials (hq : q.Holds t) (hsessions : ∀ s ∈ t'.sessions, s ∈ t.sessions)
    (hlisted : ∀ identityId signingKeyId, Listed t identityId signingKeyId → Listed t' identityId signingKeyId)
    (hregistered : ∀ identityId passkeyId, .passkey passkeyId ∈ q.locks.shared → Registered t identityId passkeyId →
      Registered t' identityId passkeyId)
    (hunrevoked : ∀ identityId signingKeyId, .signingKey identityId signingKeyId ∈ q.locks.shared →
      Unrevoked t identityId signingKeyId → Unrevoked t' identityId signingKeyId)
    (hunlisted : ∀ identityId signingKeyId, q.unlisted = some (identityId, signingKeyId) → ¬ Listed t identityId signingKeyId →
      ¬ Listed t' identityId signingKeyId) : q.Holds t' := by
  cases q with
  | usable => exact hq
  | keyLocked m signingKeyId isLocal =>
    refine ⟨hq.1, ?_⟩
    cases isLocal with
    | true => exact hunrevoked _ _ (List.mem_singleton_self _) hq.2
    | false => exact hunlisted _ _ rfl hq.2
  | minting m held =>
    have hbacking : Backing t m held := hq
    cases hbacking with
    | passkey passkeyId horigin hpasskey =>
      exact .passkey passkeyId horigin (hregistered _ _ (List.mem_singleton_self _) hpasskey)
    | signingKey signingKeyId isLocal horigin hseen =>
      refine .signingKey signingKeyId isLocal horigin ?_
      cases isLocal with
      | true => exact hunrevoked _ _ (List.mem_singleton_self _) hseen
      | false =>
        refine hunlisted _ _ ?_ hseen
        show m.origin.signingKeyId.map (m.identityId, ·) = some (m.identityId, signingKeyId)
        rw [horigin]
        rfl
  | deviceLocked => exact ⟨hq.1, hlisted _ _ hq.2⟩
  | deviceEnded => exact ⟨⟨hq.1.1, hlisted _ _ hq.1.2⟩, fun s hs => hq.2 s (hsessions s hs)⟩
  | passkeyEnded => exact fun s hs => hq s (hsessions s hs)
  | sessionsErased => exact fun s hs => hq s (hsessions s hs)
  | _ => trivial

theorem mem_deleteSessions {sessions : List SessionRow} {hashes : List (FixedBytes 32)} {s : SessionRow} :
    s ∈ deleteSessions sessions hashes ↔ s ∈ sessions ∧ s.tokenHash ∉ hashes := by
  unfold deleteSessions
  rw [List.mem_filter, decide_eq_true_iff]

theorem listed_commitDevice {i identityId : IdentityId} {k signingKeyId : Uuid} {hashes : List (FixedBytes 32)} :
    Listed (commitDevice t identityId signingKeyId hashes) i k ↔ Listed t i k := by
  constructor
  · rintro ⟨r, hr, rfl, rfl⟩
    obtain ⟨r', hr', hid, hidentity, -⟩ := of_mem_revokeKey hr
    exact ⟨r', hr', hid.symm, hidentity.symm⟩
  · rintro ⟨r, hr, rfl, rfl⟩
    exact mem_revokeKey hr

theorem unrevoked_commitDevice {i identityId : IdentityId} {k signingKeyId : Uuid} {hashes : List (FixedBytes 32)}
    (h : Unrevoked t i k) (hne : ¬ (k = signingKeyId ∧ i = identityId)) :
    Unrevoked (commitDevice t identityId signingKeyId hashes) i k := by
  rintro r hr rfl rfl
  obtain ⟨r', hr', hid, hidentity, ⟨rfl, -⟩ | ⟨-, hrevoked⟩⟩ := of_mem_revokeKey hr
  · exact h r hr' rfl rfl
  · exact absurd ⟨hid.trans hrevoked.1, hidentity.trans hrevoked.2⟩ hne

/-! ## Statements -/

/-- what a statement has to give -/
def Outcome (others : List Phase) (t' : Tables) (p' : Phase) : Prop :=
  AllLive t' ∧ p'.Holds t' ∧ ∀ q ∈ others, p'.locks.Compatible q.locks → q.Holds t'

/-- a statement that leaves the credentials and mints nothing -/
theorem outcome_still (hlive : AllLive t) (hothers : ∀ q ∈ others, q.Holds t) (hstill : Still t t') (hp : p'.Holds t') :
    Outcome others t' p' :=
  ⟨⟨hstill.signingKeys ▸ hlive.keyIds, fun s hs => (hlive.live s (hstill.sessions s hs)).of_eq hstill.passkeys hstill.signingKeys⟩,
    hp, fun q hq _ => hstill.holds (hothers q hq)⟩

theorem holds_refuse (m : Minting) : (refuse m).Holds t := by
  unfold refuse
  split <;> trivial

theorem holds_readRequest (flow : Flow) (codeHash : FixedBytes 32) (token : String) (now : OffsetDateTime) :
    (readRequest t flow codeHash token now).Holds t := by
  unfold readRequest
  split
  · trivial
  · split
    · split_ifs <;> trivial
    · split_ifs <;> trivial
    · trivial
    · trivial

theorem outcome_receive (hlive : AllLive t) (hothers : ∀ q ∈ others, q.Holds t) {call : Call}
    (hmeets : NewKey t others (.received call)) (h : receive t others call = some (t', p')) : Outcome others t' p' := by
  have hsame : ∀ {p'' : Phase}, p''.Holds t → Outcome others t p'' := outcome_still hlive hothers (.refl t)
  have hresolve : ∀ {session : String} {next : IdentityId → Phase}, (∀ i, (next i).Holds t) →
      ((resolve t session).elim .ended next).Holds t := by
    intro session next hnext
    cases resolve t session with
    | none => trivial
    | some i => exact hnext i
  cases call with
  | start | poll | deny =>
    cases h
    exact hsame trivial
  | approvePairing | denyPairing | revokeDevice | revokePasskey | logout | revokeSession =>
    cases h
    exact hsame (hresolve fun _ => trivial)
  | submit identityId signingKeyId userCode token =>
    simp only [receive] at h
    cases h
    refine outcome_still hlive hothers ⟨rfl, rfl, fun _ => id⟩ ?_
    cases userCode with
    | none => exact rfl
    | some userCode => trivial
  | sessionStart =>
    simp only [receive] at h
    split_ifs at h
    all_goals
      cases h
      exact outcome_still hlive hothers ⟨rfl, rfl, fun _ => id⟩ trivial
  | sessionFinish =>
    simp only [receive] at h
    split at h
    · cases h
      exact hsame trivial
    · split at h
      · split_ifs at h
        all_goals
          cases h
          exact outcome_still hlive hothers ⟨rfl, rfl, fun _ => id⟩ trivial
      · cases h
        exact outcome_still hlive hothers ⟨rfl, rfl, fun _ => id⟩ trivial
  | finalizeRequest =>
    simp only [receive] at h
    split_ifs at h
    cases h
    exact hsame trivial
  | pruneRequests =>
    simp only [receive] at h
    split_ifs at h
    cases h
    exact outcome_still hlive hothers ⟨rfl, rfl, fun _ => id⟩ trivial
  | pruneSessions =>
    cases h
    exact outcome_still hlive hothers ⟨rfl, rfl, fun _ hs => (List.mem_filter.1 hs).1⟩ trivial
  | addSigningKey id identityId publicKey =>
    simp only [receive] at h
    split_ifs at h
    · cases h
      exact hsame trivial
    · rename_i hnew
      cases h
      -- the new row is not revoked, and nobody relies on its absence
      have hunrevoked : ∀ i k, Unrevoked t i k →
          Unrevoked { t with signingKeys := t.signingKeys ++ [⟨id, identityId, publicKey, false⟩] } i k := by
        intro i k hbefore r hr hid hidentity
        rcases List.mem_append.1 hr with hr | hr
        · exact hbefore r hr hid hidentity
        · obtain rfl := List.mem_singleton.1 hr
          rfl
      refine ⟨⟨?_, fun s hs => ⟨(hlive.live s hs).passkey, fun k hk => hunrevoked _ _ ((hlive.live s hs).signingKey k hk)⟩⟩,
        trivial, fun q hq _ => holds_of_credentials (hothers q hq) (fun _ hs => hs) ?_ (fun _ _ _ hr => hr)
          (fun i k _ => hunrevoked i k) ?_⟩
      · rw [List.map_append]
        refine List.nodup_append.2 ⟨hlive.keyIds, List.nodup_singleton _, fun k hk k' hk' heq => ?_⟩
        obtain ⟨r, hr, rfl⟩ := List.mem_map.1 hk
        obtain rfl := List.mem_singleton.1 hk'
        exact hnew (List.any_eq_true.2 ⟨r, hr, decide_eq_true heq⟩)
      · rintro i k ⟨r, hr, hr'⟩
        exact ⟨r, List.mem_append_left _ hr, hr'⟩
      · rintro i k hq' hbefore ⟨r, hr, hid, hidentity⟩
        rcases List.mem_append.1 hr with hr | hr
        · exact hbefore ⟨r, hr, hid, hidentity⟩
        · obtain rfl := List.mem_singleton.1 hr
          obtain rfl : id = k := hid
          obtain rfl : identityId = i := hidentity
          exact hmeets q hq hq'
  | addPasskey row =>
    simp only [receive] at h
    split_ifs at h
    · cases h
      exact hsame trivial
    · cases h
      have hregistered : ∀ i pk, Registered t i pk → Registered { t with passkeys := t.passkeys ++ [row] } i pk := by
        rintro i pk ⟨r, hr, hr'⟩
        exact ⟨r, List.mem_append_left _ hr, hr'⟩
      exact ⟨⟨hlive.keyIds, fun s hs => ⟨fun pk hpk => hregistered _ _ ((hlive.live s hs).passkey pk hpk),
        (hlive.live s hs).signingKey⟩⟩, trivial, fun q hq _ =>
          holds_of_credentials (hothers q hq) (fun _ => id) (fun _ _ => id) (fun i pk _ => hregistered i pk)
          (fun _ _ _ => id) fun _ _ _ => id⟩
  | mirrorKeyRevocation | mirrorPasskeyRevocation | wait =>
    cases h
    exact outcome_still hlive hothers ⟨rfl, rfl, fun _ => id⟩ trivial

/-- the commit of `revoke_device`: its sessions are gone, and nobody else mints with the key -/
theorem outcome_commitDevice (hlive : AllLive t) {identityId : IdentityId} {signingKeyId : Uuid} {ids : List Uuid}
    {hashes : List (FixedBytes 32)} (hp : (Phase.deviceEnded identityId signingKeyId ids hashes).Holds t)
    (hothers : ∀ q ∈ others, q.Holds t ∧ (Phase.deviceEnded identityId signingKeyId ids hashes).locks.Compatible q.locks) :
    Outcome others (commitDevice t identityId signingKeyId hashes) .ended := by
  refine ⟨⟨?_, fun s hs => ?_⟩, trivial, fun q hq _ => ?_⟩
  · have hids : (revokeKey t.signingKeys identityId signingKeyId).map SigningKeyRow.id = t.signingKeys.map SigningKeyRow.id :=
      ids_revokeKey
    exact hids.symm ▸ hlive.keyIds
  · obtain ⟨hbefore, hkept⟩ := mem_deleteSessions.1 hs
    refine ⟨(hlive.live s hbefore).passkey, fun k hk => unrevoked_commitDevice ((hlive.live s hbefore).signingKey k hk) ?_⟩
    rintro ⟨rfl, hidentity⟩
    exact hkept (hp.2 s hbefore hidentity hk)
  · refine holds_of_credentials (hothers q hq).1 (fun _ hs => (mem_deleteSessions.1 hs).1) (fun i k => listed_commitDevice.2)
      (fun _ _ _ => id) (fun i k hshared hbefore => unrevoked_commitDevice hbefore ?_) (fun i k _ => mt listed_commitDevice.1)
    rintro ⟨rfl, rfl⟩
    exact notMem_shared (hothers q hq).2 (List.mem_map_of_mem hp.1.1) hshared

theorem outcome_commitPasskey (hlive : AllLive t) {identityId : IdentityId} {passkeyId : Uuid} {ids : List Uuid}
    {hashes : List (FixedBytes 32)} (hp : (Phase.passkeyEnded identityId passkeyId ids hashes).Holds t)
    (hothers : ∀ q ∈ others, q.Holds t ∧ (Phase.passkeyEnded identityId passkeyId ids hashes).locks.Compatible q.locks) :
    Outcome others (commitPasskey t identityId passkeyId hashes) .ended := by
  have hregistered : ∀ i pk, ¬ (pk = passkeyId ∧ i = identityId) → Registered t i pk →
      Registered (commitPasskey t identityId passkeyId hashes) i pk := by
    rintro i pk hne ⟨r, hr, rfl, rfl⟩
    exact ⟨r, List.mem_filter.2 ⟨hr, decide_eq_true hne⟩, rfl, rfl⟩
  refine ⟨⟨hlive.keyIds, fun s hs => ?_⟩, trivial, fun q hq _ => ?_⟩
  · obtain ⟨hbefore, hkept⟩ := mem_deleteSessions.1 hs
    refine ⟨fun pk hpk => hregistered _ _ ?_ ((hlive.live s hbefore).passkey pk hpk), (hlive.live s hbefore).signingKey⟩
    rintro ⟨rfl, hidentity⟩
    exact hkept (hp s hbefore hidentity hpk)
  · refine holds_of_credentials (hothers q hq).1 (fun _ hs => (mem_deleteSessions.1 hs).1) (fun _ _ => id)
      (fun i pk hshared => hregistered i pk ?_) (fun _ _ _ => id) fun _ _ _ => id
    rintro ⟨rfl, -⟩
    exact notMem_shared (hothers q hq).2 List.mem_cons_self hshared

theorem outcome_commitRecovery (hlive : AllLive t) {r : Recovery} (hp : (Phase.sessionsErased r).Holds t)
    (hothers : ∀ q ∈ others, q.Holds t ∧ (Phase.sessionsErased r).locks.Compatible q.locks) :
    Outcome others (commitRecovery t r) .ended := by
  have hregistered : ∀ i pk, ¬ (pk ∈ r.deleted ∧ i = r.passkey.identityId) → Registered t i pk →
      Registered (commitRecovery t r) i pk := by
    rintro i pk hne ⟨row, hrow, rfl, rfl⟩
    exact ⟨row, List.mem_append_left _ (List.mem_filter.2 ⟨hrow, decide_eq_true hne⟩), rfl, rfl⟩
  refine ⟨⟨hlive.keyIds, fun s hs => ?_⟩, trivial, fun q hq _ => ?_⟩
  · obtain ⟨hbefore, hkept⟩ := mem_deleteSessions.1 hs
    refine ⟨fun pk hpk => hregistered _ _ ?_ ((hlive.live s hbefore).passkey pk hpk), (hlive.live s hbefore).signingKey⟩
    rintro ⟨hdeleted, hidentity⟩
    exact hkept (hp s hbefore hidentity pk hdeleted hpk)
  · refine holds_of_credentials (hothers q hq).1 (fun _ hs => (mem_deleteSessions.1 hs).1) (fun _ _ => id)
      (fun i pk hshared => hregistered i pk ?_) (fun _ _ _ => id) fun _ _ _ => id
    rintro ⟨hdeleted, -⟩
    exact notMem_shared (hothers q hq).2 (List.mem_append_left _ (List.mem_map_of_mem hdeleted)) hshared

/-- the sessions that a deletion sees -/
theorem mem_sessionsOf {identityId : IdentityId} {test : SessionOrigin → Bool} {s : SessionRow} (hs : s ∈ t.sessions)
    (hidentity : s.identityId = identityId) (htest : test s.origin = true) : s.tokenHash ∈ sessionsOf t identityId test := by
  refine List.mem_map_of_mem (List.mem_filter.2 ⟨hs, ?_⟩)
  rw [htest, Bool.and_true]
  exact decide_eq_true hidentity

theorem statement_outcome (hlive : AllLive t) (hp : p.Holds t)
    (hothers : ∀ q ∈ others, q.Holds t ∧ p.locks.Compatible q.locks) (hmeets : NewKey t others p)
    (h : statement v t others p = some (t', p')) : Outcome others t' p' := by
  have hothers' : ∀ q ∈ others, q.Holds t := fun q hq => (hothers q hq).1
  have hsame : ∀ {p'' : Phase}, p''.Holds t → Outcome others t p'' := outcome_still hlive hothers' (.refl t)
  cases p with
  | received call => exact outcome_receive hlive hothers' hmeets h
  | starting flow expiresAt codes =>
    cases codes with
    | nil =>
      cases h
      exact hsame trivial
    | cons code rest =>
      simp only [statement, insertRequest, Option.some.injEq] at h
      split_ifs at h
      all_goals
        cases h
        exact outcome_still hlive hothers' ⟨rfl, rfl, fun _ => id⟩ trivial
  | polling =>
    cases h
    exact hsame (holds_readRequest ..)
  | expiring | touching | approvingLogin | approvingPairing | denying =>
    obtain ⟨rfl, rfl | ⟨row, -, -, rfl⟩⟩ := phase_updateFound h
    · exact hsame trivial
    · exact outcome_still hlive hothers' ⟨rfl, rfl, fun _ => id⟩ trivial
  | consuming =>
    simp only [statement] at h
    split at h
    · cases h
      exact hsame trivial
    · split_ifs at h
      cases h
      refine hsame ?_
      unfold takeApproval
      split
      · exact rfl
      · trivial
  | usable m signingKeyId requireLocal =>
    obtain ⟨p'', hp', heq⟩ := Option.map_eq_some_iff.1 h
    cases heq
    refine hsame ?_
    unfold lockKey at hp'
    split at hp'
    · rename_i row hfound
      split_ifs at hp' with hfree hrevoked
      · cases hp'
        exact holds_refuse m
      · cases hp'
        -- the row of the key is this one
        refine ⟨hp, fun r hr hid hidentity => ?_⟩
        have hmatch : row.id = signingKeyId ∧ row.identityId = m.identityId := by simpa using List.find?_some hfound
        obtain rfl := List.inj_on_of_nodup_map hlive.keyIds hr (List.mem_of_find?_eq_some hfound) (hid.trans hmatch.1.symm)
        simpa using hrevoked
    · rename_i hnone
      cases hp'
      split_ifs
      · exact holds_refuse m
      · refine ⟨hp, ?_⟩
        rintro ⟨r, hr, hid, hidentity⟩
        exact List.find?_eq_none.1 hnone r hr (decide_eq_true ⟨hid, hidentity⟩)
  | keyLocked m signingKeyId isLocal =>
    cases h
    refine hsame ?_
    unfold checkKey
    split
    · exact holds_refuse m
    · exact .signingKey signingKeyId isLocal hp.1 hp.2
  | minting m held =>
    cases h
    rcases mint_cases t m with hnone | ⟨session, hidentity, horigin, -, hminted⟩
    · rw [hnone]
      exact hsame trivial
    · rw [hminted]
      refine ⟨⟨hlive.keyIds, fun s hs => ?_⟩, trivial, fun q hq _ =>
        holds_mint hp (hothers q hq).2 (hothers q hq).1 rfl rfl hidentity horigin rfl⟩
      rcases List.mem_append.1 hs with hs | hs
      · exact (hlive.live s hs).of_eq rfl rfl
      · obtain rfl := List.mem_singleton.1 hs
        exact (Backing.live hp hidentity horigin).of_eq rfl rfl
  | fetching =>
    simp only [statement] at h
    split at h
    · cases h
      exact hsame trivial
    · cases h
      refine hsame ?_
      split_ifs <;> trivial
  | signing =>
    simp only [statement] at h
    split at h
    all_goals
      cases h
      exact hsame trivial
  | authenticating ceremony identityId credential token =>
    simp only [statement] at h
    split at h
    · cases h
      exact hsame trivial
    · rename_i row hfound
      split_ifs at h
      cases h
      have hmatch : row.credentialId = credential ∧ row.identityId = identityId := by simpa using List.find?_some hfound
      exact hsame (.passkey row.id rfl ⟨row, List.mem_of_find?_eq_some hfound, rfl, hmatch.2⟩)
  | revokingDevice identityId signingKeyId =>
    simp only [statement] at h
    obtain ⟨p'', hp', heq⟩ := Option.map_eq_some_iff.1 h
    cases heq
    rcases lockDevice_eq_some hp' with rfl | ⟨rfl, -, hactive⟩
    · exact hsame trivial
    · refine hsame ⟨hactive, ?_⟩
      obtain ⟨r, hr, rfl⟩ := List.mem_map.1 hactive
      have hmatch := List.mem_filter.1 hr
      rw [Bool.and_eq_true, decide_eq_true_iff] at hmatch
      exact ⟨r, hmatch.1, rfl, hmatch.2.1⟩
  | deviceLocked identityId signingKeyId ids =>
    cases h
    exact hsame ⟨hp, fun s hs hidentity hkey => mem_sessionsOf hs hidentity (decide_eq_true hkey)⟩
  | deviceEnded =>
    cases h
    exact outcome_commitDevice hlive hp hothers
  | revokingPasskey =>
    simp only [statement] at h
    obtain ⟨p'', hp', heq⟩ := Option.map_eq_some_iff.1 h
    cases heq
    rcases lockPasskeys_eq_some hp' with rfl | ⟨rfl, -⟩
    · exact hsame trivial
    · exact hsame trivial
  | passkeysLocked | recovering =>
    simp only [statement] at h
    split_ifs at h
    all_goals
      cases h
      exact hsame trivial
  | passkeyDeleted =>
    cases h
    exact hsame fun s hs hidentity hpasskey => mem_sessionsOf hs hidentity (decide_eq_true hpasskey)
  | passkeyEnded =>
    cases h
    exact outcome_commitPasskey hlive hp hothers
  | passkeysErased | pairingsErased =>
    obtain ⟨r', -, heq⟩ := Option.map_eq_some_iff.1 h
    cases heq
    exact hsame trivial
  | loginsErased r =>
    cases h
    refine hsame fun s hs hidentity _ _ _ => ?_
    show s.tokenHash ∈ sessionsOf t r.passkey.identityId fun _ => true
    exact mem_sessionsOf hs hidentity rfl
  | sessionsErased =>
    cases h
    exact outcome_commitRecovery hlive hp hothers
  | discarding =>
    cases h
    exact outcome_still hlive hothers' ⟨rfl, rfl, fun _ => id⟩ trivial
  | endingSession | endingOwnSession =>
    cases h
    exact outcome_still hlive hothers' ⟨rfl, rfl, fun _ hs => (List.mem_filter.1 hs).1⟩ trivial
  | ended => cases h

end

/-- **The invariant of the credentials** -/
theorem credentials_invariant (v : Verifier) : Invariant (program v) NewKey AllLive (fun t p => p.Holds t)
    (fun p q => p.locks.Compatible q.locks ∧ True) :=
  (disciplined v).invariant (fun _ _ _ => trivial) (fun _ _ _ => ⟨trivial, fun _ => trivial⟩)
    (fun _ _ _ _ => ⟨trivial, fun _ _ => trivial⟩)
    fun _ _ _ _ _ hlive hp hothers hmeets hstep => by
      obtain ⟨hlive', hp', hothers'⟩ := statement_outcome hlive hp (fun q hq => ⟨(hothers q hq).1, (hothers q hq).2.1⟩) hmeets hstep
      exact ⟨hlive', hp', fun q hq hcompatible => ⟨hothers' q hq hcompatible, trivial⟩⟩

/-- **No session outlives its credential.** In every run of any number of calls, statement by statement, in which no row of a key
is written while a session is minted with that key and found none: the passkey of every session is there, its signing key is
revoked in no row of this node, and so a token resolves only to an identity with such a session, not expired and not named by a
mirrored revocation. -/
theorem session_credentials_live (v : Verifier) (now : OffsetDateTime) (ops : List (Op Call))
    (halong : Along (program v) NewKey ⟨.init now, []⟩ ops) :
    let t := (run (program v) ⟨.init now, []⟩ ops).tables
    (∀ s ∈ t.sessions, Live t s) ∧ ∀ token identityId, resolve t token = some identityId →
      ∃ s ∈ t.sessions, s.tokenHash = hashToken token ∧ s.identityId = identityId ∧ t.now < s.expiresAt ∧ Live t s ∧
        originRevoked t s = false := by
  intro t
  have hinit : AllLive (.init now) := ⟨List.nodup_nil, by simp [Tables.init]⟩
  have hlive : AllLive t := (inv_run (credentials_invariant v) (inv_init hinit) halong).tables
  refine ⟨hlive.live, fun token identityId hresolve => ?_⟩
  obtain ⟨s, hfound, rfl⟩ := Option.map_eq_some_iff.1 hresolve
  have hmatch : (s.tokenHash = hashToken token ∧ t.now < s.expiresAt) ∧ originRevoked t s = false := by
    simpa using List.find?_some hfound
  have hs := List.mem_of_find?_eq_some hfound
  exact ⟨s, hs, hmatch.1.1, rfl, hmatch.1.2, hlive.live s hs, hmatch.2⟩

def rejectAll : Verifier := ⟨⟨id, fun _ _ => .replicate 64 0, fun _ _ _ => false⟩, fun _ => false⟩

/-- a grant of a key without a row makes a session, while a row of another key is written -/
def grantLogin : List (Op Call) :=
  [.call (.submit ⟨.replicate 32 1⟩ (.replicate 16 1) none "token"), .advance 0, .advance 0,
    .call (.addSigningKey (.replicate 16 2) ⟨.replicate 32 1⟩ []), .advance 1, .advance 0, .advance 0]

theorem session_credentials_live_grant :
    let t := (run (program rejectAll) ⟨.init 0, []⟩ grantLogin).tables
    (t.sessions.length = 1 ∧ t.signingKeys.length = 1) ∧ ∀ s ∈ t.sessions, Live t s :=
  ⟨by decide +kernel, (session_credentials_live rejectAll 0 grantLogin (by decide +kernel)).1⟩

end Avalon.Logins
