/-
Sessions and how they come about (`crates/server/src/sessions.rs`; `crates/server/src/device_pairing.rs`;
`crates/server/src/cross_node_login.rs`: `start`, `poll`, `submit`, `deny`; `crates/server/src/handlers.rs`: `session_start`,
`session_finish`), and what ends them (`crates/server/src/devices.rs`: `revoke_device`; `crates/server/src/passkeys.rs`:
`revoke_passkey`; `crates/server/src/recovery.rs`: `finalize_request`), statement by statement on PostgreSQL at READ COMMITTED.

A session names the passkey or the signing key that produced it. A login request waits for an approval and is then polled; the
poll takes the approval and mints the session in one transaction. A transaction that mints shares the row of the credential, one
that revokes has it alone, and deletes the sessions that it sees. A login grant is verified by `SelfSigned`; here its nonce has
been stored. WebAuthn, and the checks of a revocation's signature and chain position, are inputs. Uncommitted writes are kept in
the phase of their call. Ids that the database draws are numbers.

Left out: answers; continuation tokens, rate limits and session lists; the recovery request itself; counters and labels of
credentials; the provisioning of an identity that another shard knows.
-/
import Mathlib.Tactic
import Avalon.Core.Bytes
import Avalon.Core.Sha256
import Avalon.Core.Interleaving
import Avalon.Core.Locks
import Avalon.Protocol.LedgerEntry
import Avalon.Protocol.Events
import Avalon.Protocol.IdentityId
import Avalon.Server.SignatureGate

namespace Avalon.Logins

open Avalon.Events Avalon.Identity Avalon.LedgerEntry Avalon.SignatureGate
open Interleaving

/-- ids are tried along their list, not over all there can be -/
local instance (priority := 2000) decidableIds (ids : List Uuid) (P : Uuid → Prop) [DecidablePred P] : Decidable (∀ id ∈ ids, P id) :=
  List.decidableBAll P ids

local instance (priority := 2000) lawfulIds : LawfulBEq Uuid := inferInstance

/-! ## Tables -/

/-- the table of a request: `device_pairings` or `cross_node_login_requests` -/
inductive Flow where
  | devicePairing
  | crossNode
deriving DecidableEq

inductive Status where
  | pending
  | approved
  | denied
  | expired
deriving DecidableEq

structure RequestRow where
  id : ℕ
  flow : Flow
  codeHash : FixedBytes 32
  userCode : String
  status : Status
  identityId : Option IdentityId
  approvedBySigningKeyId : Option Uuid
  expiresAt : OffsetDateTime
  lastPolledAt : Option OffsetDateTime

/-- a row of `webauthn_ceremonies` of kind `authentication` -/
structure CeremonyRow where
  id : ℕ
  identityId : IdentityId
  expiresAt : OffsetDateTime

/-- the credential that produced a session -/
structure SessionOrigin where
  passkeyId : Option Uuid
  signingKeyId : Option Uuid
deriving DecidableEq

/-- a row of `sessions`; the hash of the token is its name here -/
structure SessionRow where
  tokenHash : FixedBytes 32
  identityId : IdentityId
  expiresAt : OffsetDateTime
  origin : SessionOrigin

/-- a row of `identity_keys` -/
structure PasskeyRow where
  id : Uuid
  identityId : IdentityId
  credentialId : Bytes

/-- what leads to a session -/
inductive Via where
  | request (id : ℕ)
  | grant (acceptance : ℕ)
  | ceremony (id : ℕ)
deriving DecidableEq

/-- what an approval rests on -/
inductive Approval where
  | signature (userCode : String) (proof : Proof)
  | grant (acceptance : ℕ)

/-- what is committed -/
inductive Event where
  | started (request : ℕ) (flow : Flow) (userCode : String)
  /-- a ceremony was completed -/
  | authenticated (ceremony : ℕ) (identityId : IdentityId)
  /-- the nonce of a verified grant was stored -/
  | accepted (acceptance : ℕ) (identityId : IdentityId) (signingKeyId : Uuid)
  | approved (request : ℕ) (approval : Approval) (identityId : IdentityId) (signingKeyId : Option Uuid)
  | minted (via : Via) (session : SessionRow)
  | keyAdded (row : SigningKeyRow)
  | keyRevoked (identityId : IdentityId) (signingKeyId : Uuid)

structure Tables where
  now : OffsetDateTime
  nextId : ℕ
  requests : List RequestRow
  ceremonies : List CeremonyRow
  sessions : List SessionRow
  passkeys : List PasskeyRow
  /-- `identity_signing_keys` -/
  signingKeys : List SigningKeyRow
  /-- `indexer_identity_signing_key_revocations` -/
  keyRevocations : List (IdentityId × Uuid)
  /-- `indexer_identity_passkey_revocations` -/
  passkeyRevocations : List (IdentityId × Uuid)
  /-- in commit order -/
  log : List Event

def Tables.init (now : OffsetDateTime) : Tables := ⟨now, 0, [], [], [], [], [], [], [], []⟩

/-! ## Sessions -/

def days (n : ℤ) : ℤ := n * 86400 * 1000000000

def minutes (n : ℤ) : ℤ := n * 60 * 1000000000

def sessionLifetimeDays : ℤ := 30

/-- `REQUEST_TTL_MINUTES` and `PAIRING_TTL_MINUTES` -/
def requestTtlMinutes : ℤ := 10

def ceremonyTtlMinutes : ℤ := 5

/-- `MAX_ATTEMPTS` -/
def maxAttempts : ℕ := 20

def hashToken (token : String) : FixedBytes 32 := Sha256.hash (utf8 token)

/-- a session to be minted, with its token -/
structure Minting where
  via : Via
  identityId : IdentityId
  origin : SessionOrigin
  token : String

/-- the approval that a session takes is gone with it -/
def consume (requests : List RequestRow) : Via → List RequestRow
  | .request id => requests.map fun r => if r.id = id then { r with status := .expired } else r
  | _ => requests

/-- the insert and the commit; nothing if it fails -/
def mint (t : Tables) (m : Minting) : Option Tables :=
  if m.origin.passkeyId = none ∧ m.origin.signingKeyId = none then none
  else if t.sessions.any fun s => decide (s.tokenHash = hashToken m.token) then none
  else
    let session : SessionRow := ⟨hashToken m.token, m.identityId, t.now + days sessionLifetimeDays, m.origin⟩
    some { t with
      requests := consume t.requests m.via
      sessions := t.sessions ++ [session]
      log := t.log ++ [.minted m.via session] }

/-- the origin is named by a mirrored revocation -/
def originRevoked (t : Tables) (s : SessionRow) : Bool :=
  (s.origin.signingKeyId.any fun k => decide ((s.identityId, k) ∈ t.keyRevocations)) ||
    s.origin.passkeyId.any fun p => decide ((s.identityId, p) ∈ t.passkeyRevocations)

def resolve (t : Tables) (token : String) : Option IdentityId :=
  (t.sessions.find? fun s => decide (s.tokenHash = hashToken token ∧ t.now < s.expiresAt) && !originRevoked t s).map
    SessionRow.identityId

/-- the sessions that a DELETE by a condition sees -/
def sessionsOf (t : Tables) (identityId : IdentityId) (test : SessionOrigin → Bool) : List (FixedBytes 32) :=
  (t.sessions.filter fun s => decide (s.identityId = identityId) && test s.origin).map SessionRow.tokenHash

def deleteSessions (sessions : List SessionRow) (hashes : List (FixedBytes 32)) : List SessionRow :=
  sessions.filter fun s => decide (s.tokenHash ∉ hashes)

/-! ## Calls -/

inductive Call where
  /-- with the codes that its attempts would draw -/
  | start (flow : Flow) (codes : List (String × String))
  /-- with the token that it would draw -/
  | poll (flow : Flow) (code token : String)
  | approvePairing (session userCode : String) (proof : Proof)
  | denyPairing (session userCode : String)
  | deny (userCode : String)
  /-- the nonce of a grant is stored, and it is submitted for a waiting client or for a session of its own -/
  | submit (identityId : IdentityId) (signingKeyId : Uuid) (userCode : Option String) (token : String)
  | sessionStart (identityId : IdentityId)
  /-- with the credential that WebAuthn accepts -/
  | sessionFinish (ticket : ℕ) (credential : Option Bytes) (token : String)
  /-- `verified`: the chain is not forked, and the signature of the revoking key covers its head -/
  | revokeDevice (session : String) (signingKeyId revokedBy : Uuid) (verified : Bool)
  | revokePasskey (session : String) (passkeyId : Uuid) (proof : Proof)
  /-- of a request that may be finalized, with its passkey -/
  | finalizeRequest (passkey : PasskeyRow)
  | logout (session : String)
  | revokeSession (session : String) (tokenHash : FixedBytes 32)
  | pruneRequests (ids : List ℕ)
  | pruneSessions (hashes : List (FixedBytes 32))
  | addSigningKey (id : Uuid) (identityId : IdentityId) (publicKey : Bytes)
  | addPasskey (row : PasskeyRow)
  /-- the indexer records a revocation -/
  | mirrorKeyRevocation (identityId : IdentityId) (signingKeyId : Uuid)
  | mirrorPasskeyRevocation (identityId : IdentityId) (passkeyId : Uuid)
  | wait (nanoseconds : ℕ)

/-- the deletions of a recovery -/
structure Recovery where
  passkey : PasskeyRow
  /-- the passkeys that were locked first: they are revoked -/
  locked : List Uuid
  deleted : List Uuid
  requests : List ℕ
  sessions : List (FixedBytes 32)

/-- the rows that transactions lock -/
inductive Row where
  | request (id : ℕ)
  | passkey (id : Uuid)
  | signingKey (identityId : IdentityId) (id : Uuid)
deriving DecidableEq

/-- how far a call has come -/
inductive Phase where
  | received (call : Call)
  | starting (flow : Flow) (expiresAt : OffsetDateTime) (codes : List (String × String))
  | polling (flow : Flow) (codeHash : FixedBytes 32) (token : String) (now : OffsetDateTime)
  | expiring (flow : Flow) (codeHash : FixedBytes 32) (status : Status)
  | touching (flow : Flow) (codeHash : FixedBytes 32) (now : OffsetDateTime)
  | consuming (flow : Flow) (codeHash : FixedBytes 32) (token : String)
  | usable (m : Minting) (signingKeyId : Uuid) (requireLocal : Bool)
  | keyLocked (m : Minting) (signingKeyId : Uuid) (isLocal : Bool)
  /-- with the credential's row, if this transaction shares it -/
  | minting (m : Minting) (held : Option Row)
  /-- an approval whose key may not be used -/
  | discarding (request : ℕ)
  | approvingLogin (userCode : String) (acceptance : ℕ) (identityId : IdentityId) (signingKeyId : Uuid)
  | fetching (identityId : IdentityId) (userCode : String) (proof : Proof)
  | signing (identityId : IdentityId) (request : ℕ) (userCode : String) (proof : Proof)
  | approvingPairing (identityId : IdentityId) (request : ℕ) (userCode : String) (proof : Proof)
  | denying (flow : Flow) (identityId : Option IdentityId) (userCode : String)
  | authenticating (ceremony : ℕ) (identityId : IdentityId) (credential : Bytes) (token : String)
  | revokingDevice (identityId : IdentityId) (signingKeyId revokedBy : Uuid) (verified : Bool)
  | deviceLocked (identityId : IdentityId) (signingKeyId : Uuid) (ids : List Uuid)
  | deviceEnded (identityId : IdentityId) (signingKeyId : Uuid) (ids : List Uuid) (sessions : List (FixedBytes 32))
  | revokingPasskey (identityId : IdentityId) (passkeyId : Uuid) (proof : Proof)
  | passkeysLocked (identityId : IdentityId) (passkeyId : Uuid) (ids : List Uuid)
  | passkeyDeleted (identityId : IdentityId) (passkeyId : Uuid) (ids : List Uuid)
  | passkeyEnded (identityId : IdentityId) (passkeyId : Uuid) (ids : List Uuid) (sessions : List (FixedBytes 32))
  | recovering (passkey : PasskeyRow) (ids : List Uuid)
  | passkeysErased (r : Recovery)
  | pairingsErased (r : Recovery)
  | loginsErased (r : Recovery)
  | sessionsErased (r : Recovery)
  | endingSession (tokenHash : FixedBytes 32)
  | endingOwnSession (identityId : IdentityId) (tokenHash : FixedBytes 32)
  | ended

/-- the row of the request whose approval is being taken -/
def Via.rows : Via → List Row
  | .request id => [.request id]
  | _ => []

def Recovery.rows (r : Recovery) : List Row := r.deleted.map Row.passkey ++ r.requests.map Row.request

/-- the rows that a call has locked -/
def Phase.locks : Phase → Locks Row
  | usable m _ _ => ⟨[], m.via.rows⟩
  | keyLocked m k isLocal => ⟨if isLocal then [.signingKey m.identityId k] else [], m.via.rows⟩
  | minting m held => ⟨held.toList, m.via.rows⟩
  | discarding id => ⟨[], [.request id]⟩
  | deviceLocked identityId _ ids => ⟨[], ids.map (Row.signingKey identityId)⟩
  | deviceEnded identityId _ ids _ => ⟨[], ids.map (Row.signingKey identityId)⟩
  | passkeysLocked _ _ ids => ⟨[], ids.map Row.passkey⟩
  | passkeyDeleted _ passkeyId ids => ⟨[], .passkey passkeyId :: ids.map Row.passkey⟩
  | passkeyEnded _ passkeyId ids _ => ⟨[], .passkey passkeyId :: ids.map Row.passkey⟩
  | recovering _ ids => ⟨[], ids.map Row.passkey⟩
  | passkeysErased r | pairingsErased r | loginsErased r | sessionsErased r => ⟨[], r.rows⟩
  | _ => .none

/-! ## Statements -/

def findCode (t : Tables) (flow : Flow) (codeHash : FixedBytes 32) : Option RequestRow :=
  t.requests.find? fun r => decide (r.flow = flow ∧ r.codeHash = codeHash)

def findCodeWith (t : Tables) (flow : Flow) (codeHash : FixedBytes 32) (status : Status) : Option RequestRow :=
  t.requests.find? fun r => decide (r.flow = flow ∧ r.codeHash = codeHash ∧ r.status = status)

/-- WHERE user_code AND status = 'pending' AND expires_at > now() -/
def findOpen (t : Tables) (flow : Flow) (userCode : String) : Option RequestRow :=
  t.requests.find? fun r => decide (r.flow = flow ∧ r.userCode = userCode ∧ r.status = .pending ∧ t.now < r.expiresAt)

/-- UPDATE of the request with this id -/
def Tables.update (t : Tables) (id : ℕ) (f : RequestRow → RequestRow) : Tables :=
  { t with requests := t.requests.map fun r => if r.id = id then f r else r }

def Tables.approve (t : Tables) (id : ℕ) (approval : Approval) (identityId : IdentityId) (signingKeyId : Option Uuid) :
    Tables :=
  { t.update id fun r => { r with
      status := .approved
      identityId := some identityId
      approvedBySigningKeyId := signingKeyId } with
    log := t.log ++ [.approved id approval identityId signingKeyId] }

/-- what an approver of a pairing signs -/
def pairingMessage (identityId : IdentityId) (userCode : String) : Bytes :=
  canonicalMessage "device_pairing.approve" [identityId.toText, userCode]

/-- one attempt of `start` or `start_pairing` -/
def insertRequest (t : Tables) (flow : Flow) (expiresAt : OffsetDateTime) (codes : List (String × String)) : Tables × Phase :=
  match codes with
  | [] => (t, .ended)
  | (code, userCode) :: rest =>
    -- ON CONFLICT DO NOTHING
    if t.requests.any fun r => decide (r.flow = flow ∧ (r.codeHash = hashToken code ∨ r.userCode = userCode)) then
      (t, .starting flow expiresAt rest)
    else
      ({ t with
        nextId := t.nextId + 1
        requests := t.requests ++ [⟨t.nextId, flow, hashToken code, userCode, .pending, none, none, expiresAt, none⟩]
        log := t.log ++ [.started t.nextId flow userCode] }, .ended)

/-- what `poll` and `poll_pairing` do about the row they read -/
def readRequest (t : Tables) (flow : Flow) (codeHash : FixedBytes 32) (token : String) (now : OffsetDateTime) : Phase :=
  match findCode t flow codeHash with
  | none => .ended
  | some row =>
    match row.status with
    | .pending => if row.expiresAt < now then .expiring flow codeHash .pending else .touching flow codeHash now
    | .approved => if row.expiresAt < now then .expiring flow codeHash .approved else .consuming flow codeHash token
    | .denied => .ended
    | .expired => .ended

/-- the approval that a poll has taken -/
def takeApproval (row : RequestRow) (token : String) : Phase :=
  match row.identityId, row.approvedBySigningKeyId with
  | some identityId, some signingKeyId =>
    .usable ⟨.request row.id, identityId, ⟨none, some signingKeyId⟩, token⟩ signingKeyId (decide (row.flow = .devicePairing))
  | _, _ => .discarding row.id

/-- a session whose key may not be used: a poll still commits what it took -/
def refuse (m : Minting) : Phase :=
  match m.via with
  | .request id => .discarding id
  | _ => .ended

/-- the local part of `signing_key_usable`: SELECT … FOR SHARE; it waits for a revocation under way -/
def lockKey (t : Tables) (others : List Phase) (m : Minting) (signingKeyId : Uuid) (requireLocal : Bool) : Option Phase :=
  match t.signingKeys.find? fun r => decide (r.id = signingKeyId ∧ r.identityId = m.identityId) with
  | some row =>
    if Shareable Phase.locks others (.signingKey m.identityId signingKeyId) then
      some (if row.revoked then refuse m else .keyLocked m signingKeyId true)
    else none
  | none => some (if requireLocal then refuse m else .keyLocked m signingKeyId false)

/-- the rest of it: a mirrored revocation -/
def checkKey (t : Tables) (m : Minting) (signingKeyId : Uuid) (isLocal : Bool) : Phase :=
  if (m.identityId, signingKeyId) ∈ t.keyRevocations then refuse m
  else .minting m (if isLocal then some (.signingKey m.identityId signingKeyId) else none)

def activeKeysOf (t : Tables) (identityId : IdentityId) : List Uuid :=
  (t.signingKeys.filter fun r => decide (r.identityId = identityId) && !r.revoked).map SigningKeyRow.id

/-- `lock_active_signing_keys` and the checks of `revoke_device` -/
def lockDevice (t : Tables) (others : List Phase) (identityId : IdentityId) (signingKeyId revokedBy : Uuid) (verified : Bool) :
    Option Phase :=
  let ids := activeKeysOf t identityId
  if ∀ id ∈ ids, Takable Phase.locks others (.signingKey identityId id) then
    some (if revokedBy ∈ ids ∧ signingKeyId ∈ ids ∧ ids.length ≠ 1 ∧ verified = true then
      .deviceLocked identityId signingKeyId ids else .ended)
  else none

def passkeysOf (t : Tables) (identityId : IdentityId) : List Uuid :=
  (t.passkeys.filter fun r => decide (r.identityId = identityId)).map PasskeyRow.id

/-- the locks and the signature of `revoke_passkey`; the last passkey needs a fresh one -/
def lockPasskeys (v : Verifier) (t : Tables) (others : List Phase) (identityId : IdentityId) (passkeyId : Uuid) (proof : Proof) :
    Option Phase :=
  let ids := passkeysOf t identityId
  if ∀ id ∈ ids, Takable Phase.locks others (.passkey id) then
    some (if ids.length ≤ 1 ∧
        requireFreshSignature v t.signingKeys identityId
          (canonicalMessage "passkey.revoke_last" [uuidText passkeyId, identityId.toText]) proof ≠ .ok () then
      .ended else .passkeysLocked identityId passkeyId ids)
  else none

/-- the requests of a table that a recovery deletes -/
def requestsOf (t : Tables) (flow : Flow) (identityId : IdentityId) : List ℕ :=
  (t.requests.filter fun r => decide (r.flow = flow ∧ r.identityId = some identityId)).map RequestRow.id

/-- `end_all_for_identity`, one table of requests -/
def eraseRequests (t : Tables) (others : List Phase) (r : Recovery) (flow : Flow) : Option Recovery :=
  let ids := requestsOf t flow r.passkey.identityId
  if ∀ id ∈ ids, Takable Phase.locks others (.request id) then some { r with requests := r.requests ++ ids } else none

/-- UPDATE identity_signing_keys SET revoked_at -/
def revokeKey (keys : List SigningKeyRow) (identityId : IdentityId) (signingKeyId : Uuid) : List SigningKeyRow :=
  keys.map fun r => if r.id = signingKeyId ∧ r.identityId = identityId then { r with revoked := true } else r

/-- the commit of `revoke_device` -/
def commitDevice (t : Tables) (identityId : IdentityId) (signingKeyId : Uuid) (sessions : List (FixedBytes 32)) : Tables :=
  { t with
    signingKeys := revokeKey t.signingKeys identityId signingKeyId
    sessions := deleteSessions t.sessions sessions
    keyRevocations := t.keyRevocations ++ [(identityId, signingKeyId)]
    log := t.log ++ [.keyRevoked identityId signingKeyId] }

/-- the commit of `revoke_passkey` -/
def commitPasskey (t : Tables) (identityId : IdentityId) (passkeyId : Uuid) (sessions : List (FixedBytes 32)) : Tables :=
  { t with
    passkeys := t.passkeys.filter fun r => decide (¬ (r.id = passkeyId ∧ r.identityId = identityId))
    sessions := deleteSessions t.sessions sessions
    passkeyRevocations := t.passkeyRevocations ++ [(identityId, passkeyId)] }

/-- the commit of `finalize_request` -/
def commitRecovery (t : Tables) (r : Recovery) : Tables :=
  { t with
    passkeys := (t.passkeys.filter fun p => decide (¬ (p.id ∈ r.deleted ∧ p.identityId = r.passkey.identityId))) ++ [r.passkey]
    requests := t.requests.filter fun q => decide (q.id ∉ r.requests)
    sessions := deleteSessions t.sessions r.sessions
    passkeyRevocations := t.passkeyRevocations ++ r.locked.map (r.passkey.identityId, ·) }

/-- the statement that a call begins with -/
def receive (t : Tables) (others : List Phase) : Call → Option (Tables × Phase)
  | .start flow codes => some (t, .starting flow (t.now + minutes requestTtlMinutes) (codes.take maxAttempts))
  | .poll flow code token => some (t, .polling flow (hashToken code) token t.now)
  | .approvePairing session userCode proof => some (t, (resolve t session).elim .ended fun i => .fetching i userCode proof)
  | .denyPairing session userCode => some (t, (resolve t session).elim .ended fun i => .denying .devicePairing (some i) userCode)
  | .deny userCode => some (t, .denying .crossNode none userCode)
  | .submit identityId signingKeyId userCode token =>
    some ({ t with
      nextId := t.nextId + 1
      log := t.log ++ [.accepted t.nextId identityId signingKeyId] },
      match userCode with
      | none => .usable ⟨.grant t.nextId, identityId, ⟨none, some signingKeyId⟩, token⟩ signingKeyId false
      | some userCode => .approvingLogin userCode t.nextId identityId signingKeyId)
  | .sessionStart identityId =>
    if passkeysOf t identityId = [] then some (t, .ended)
    else
      some ({ t with
        nextId := t.nextId + 1
        ceremonies := t.ceremonies ++ [⟨t.nextId, identityId, t.now + minutes ceremonyTtlMinutes⟩] }, .ended)
  | .sessionFinish ticket credential token =>
    match t.ceremonies.find? fun c => decide (c.id = ticket) with
    | none => some (t, .ended)
    | some ceremony =>
      -- DELETE … RETURNING
      let t' := { t with ceremonies := t.ceremonies.filter fun c => decide (c.id ≠ ticket) }
      match credential with
      | some credential =>
        if ceremony.expiresAt < t.now then some (t', .ended)
        else
          some ({ t' with log := t.log ++ [.authenticated ticket ceremony.identityId] },
            .authenticating ticket ceremony.identityId credential token)
      | none => some (t', .ended)
  | .revokeDevice session signingKeyId revokedBy verified =>
    some (t, (resolve t session).elim .ended fun i => .revokingDevice i signingKeyId revokedBy verified)
  | .revokePasskey session passkeyId proof =>
    some (t, (resolve t session).elim .ended fun i => .revokingPasskey i passkeyId proof)
  | .finalizeRequest passkey =>
    if ∀ id ∈ passkeysOf t passkey.identityId, Takable Phase.locks others (.passkey id) then
      some (t, .recovering passkey (passkeysOf t passkey.identityId))
    else none
  | .logout session => some (t, (resolve t session).elim .ended fun _ => .endingSession (hashToken session))
  | .revokeSession session tokenHash => some (t, (resolve t session).elim .ended fun i => .endingOwnSession i tokenHash)
  | .pruneRequests ids =>
    if ∀ id ∈ ids, Takable Phase.locks others (.request id) then
      some ({ t with
        requests := t.requests.filter fun r => decide (¬ (r.id ∈ ids ∧ r.expiresAt < t.now - days 1)) }, .ended)
    else none
  | .pruneSessions hashes =>
    some ({ t with
      sessions := t.sessions.filter fun s => decide (¬ (s.tokenHash ∈ hashes ∧ s.expiresAt < t.now)) }, .ended)
  | .addSigningKey id identityId publicKey =>
    if t.signingKeys.any fun r => decide (r.id = id) then some (t, .ended)
    else
      some ({ t with
        signingKeys := t.signingKeys ++ [⟨id, identityId, publicKey, false⟩]
        log := t.log ++ [.keyAdded ⟨id, identityId, publicKey, false⟩] }, .ended)
  | .addPasskey row =>
    if t.passkeys.any fun r => decide (r.id = row.id ∨ r.credentialId = row.credentialId) then some (t, .ended)
    else some ({ t with passkeys := t.passkeys ++ [row] }, .ended)
  | .mirrorKeyRevocation identityId signingKeyId =>
    some ({ t with keyRevocations := t.keyRevocations ++ [(identityId, signingKeyId)] }, .ended)
  | .mirrorPasskeyRevocation identityId passkeyId =>
    some ({ t with passkeyRevocations := t.passkeyRevocations ++ [(identityId, passkeyId)] }, .ended)
  | .wait nanoseconds => some ({ t with now := t.now + nanoseconds }, .ended)

/-- an update of the row that a search found, once nobody else has it -/
def updateFound (t : Tables) (others : List Phase) (found : Option RequestRow) (update : RequestRow → Tables) :
    Option (Tables × Phase) :=
  match found with
  | none => some (t, .ended)
  | some row => if Takable Phase.locks others (.request row.id) then some (update row, .ended) else none

/-- the next statement of a call; nothing if it has to wait -/
def statement (v : Verifier) (t : Tables) (others : List Phase) : Phase → Option (Tables × Phase)
  | .received call => receive t others call
  | .starting flow expiresAt codes => some (insertRequest t flow expiresAt codes)
  | .polling flow codeHash token now => some (t, readRequest t flow codeHash token now)
  | .expiring flow codeHash status =>
    updateFound t others (findCodeWith t flow codeHash status) fun row => t.update row.id fun r => { r with status := .expired }
  | .touching flow codeHash now =>
    updateFound t others (findCode t flow codeHash) fun row => t.update row.id fun r => { r with lastPolledAt := some now }
  | .consuming flow codeHash token =>
    match findCodeWith t flow codeHash .approved with
    | none => some (t, .ended)
    | some row => if Takable Phase.locks others (.request row.id) then some (t, takeApproval row token) else none
  | .usable m signingKeyId requireLocal => (lockKey t others m signingKeyId requireLocal).map fun p => (t, p)
  | .keyLocked m signingKeyId isLocal => some (t, checkKey t m signingKeyId isLocal)
  | .minting m _ => some ((mint t m).getD t, .ended)
  | .discarding id => some (t.update id fun r => { r with status := .expired }, .ended)
  | .approvingLogin userCode acceptance identityId signingKeyId =>
    updateFound t others (findOpen t .crossNode userCode) fun row =>
      t.approve row.id (.grant acceptance) identityId (some signingKeyId)
  | .fetching identityId userCode proof =>
    match t.requests.find? fun r => decide (r.flow = .devicePairing ∧ r.userCode = userCode ∧ r.status = .pending) with
    | none => some (t, .ended)
    | some row => some (t, if row.expiresAt < t.now then .ended else .signing identityId row.id userCode proof)
  | .signing identityId request userCode proof =>
    match requireFreshSignature v t.signingKeys identityId (pairingMessage identityId userCode) proof with
    | .error _ => some (t, .ended)
    | .ok () => some (t, .approvingPairing identityId request userCode proof)
  | .approvingPairing identityId request userCode proof =>
    updateFound t others (t.requests.find? fun r => decide (r.id = request ∧ r.status = .pending)) fun row =>
      t.approve row.id (.signature userCode proof) identityId proof.signingKeyId
  | .denying flow identityId userCode =>
    updateFound t others (findOpen t flow userCode) fun row =>
      t.update row.id fun r => { r with status := .denied, identityId := identityId.orElse fun _ => r.identityId }
  | .authenticating ceremony identityId credential token =>
    match t.passkeys.find? fun r => decide (r.credentialId = credential ∧ r.identityId = identityId) with
    | none => some (t, .ended)
    | some row =>
      if Shareable Phase.locks others (.passkey row.id) then
        some (t, .minting ⟨.ceremony ceremony, identityId, ⟨some row.id, none⟩, token⟩ (some (.passkey row.id)))
      else none
  | .revokingDevice identityId signingKeyId revokedBy verified =>
    (lockDevice t others identityId signingKeyId revokedBy verified).map fun p => (t, p)
  | .deviceLocked identityId signingKeyId ids =>
    -- the update of the key, and `end_for_signing_key`
    some (t, .deviceEnded identityId signingKeyId ids
      (sessionsOf t identityId fun origin => decide (origin.signingKeyId = some signingKeyId)))
  | .deviceEnded identityId signingKeyId _ sessions => some (commitDevice t identityId signingKeyId sessions, .ended)
  | .revokingPasskey identityId passkeyId proof => (lockPasskeys v t others identityId passkeyId proof).map fun p => (t, p)
  | .passkeysLocked identityId passkeyId ids =>
    if t.passkeys.any fun r => decide (r.id = passkeyId ∧ r.identityId = identityId) then
      if Takable Phase.locks others (.passkey passkeyId) then some (t, .passkeyDeleted identityId passkeyId ids) else none
    else some (t, .ended)
  | .passkeyDeleted identityId passkeyId ids =>
    -- `end_for_passkey`
    some (t, .passkeyEnded identityId passkeyId ids
      (sessionsOf t identityId fun origin => decide (origin.passkeyId = some passkeyId)))
  | .passkeyEnded identityId passkeyId _ sessions => some (commitPasskey t identityId passkeyId sessions, .ended)
  | .recovering passkey ids =>
    if ∀ id ∈ passkeysOf t passkey.identityId, Takable Phase.locks others (.passkey id) then
      some (t, .passkeysErased ⟨passkey, ids, passkeysOf t passkey.identityId, [], []⟩)
    else none
  | .passkeysErased r => (eraseRequests t others r .devicePairing).map fun r => (t, .pairingsErased r)
  | .pairingsErased r => (eraseRequests t others r .crossNode).map fun r => (t, .loginsErased r)
  | .loginsErased r =>
    some (t, .sessionsErased { r with sessions := sessionsOf t r.passkey.identityId fun _ => true })
  | .sessionsErased r => some (commitRecovery t r, .ended)
  | .endingSession tokenHash => some ({ t with sessions := deleteSessions t.sessions [tokenHash] }, .ended)
  | .endingOwnSession identityId tokenHash =>
    some ({ t with
      sessions := t.sessions.filter fun s => decide (¬ (s.tokenHash = tokenHash ∧ s.identityId = identityId)) }, .ended)
  | .ended => none

def program (v : Verifier) : Program Tables Phase Call where
  start := .received
  statement := statement v
  aborted _ := .ended

/-! ## Minting -/

/-- the tables with a new session -/
def minted (t : Tables) (via : Via) (session : SessionRow) : Tables :=
  { t with
    requests := consume t.requests via
    sessions := t.sessions ++ [session]
    log := t.log ++ [.minted via session] }

theorem mint_cases (t : Tables) (m : Minting) : mint t m = none ∨
    ∃ session : SessionRow, session.identityId = m.identityId ∧ session.origin = m.origin ∧
      session.tokenHash ∉ t.sessions.map SessionRow.tokenHash ∧ mint t m = some (minted t m.via session) := by
  unfold mint
  split_ifs with horigin htoken
  · exact .inl rfl
  · exact .inl rfl
  · refine .inr ⟨⟨hashToken m.token, m.identityId, t.now + days sessionLifetimeDays, m.origin⟩, rfl, rfl, fun hmem => ?_, rfl⟩
    obtain ⟨s, hs, heq⟩ := List.mem_map.1 hmem
    exact htoken (List.any_eq_true.2 ⟨s, hs, decide_eq_true heq⟩)

/-! ## Keys -/

section

variable {keys : List SigningKeyRow} {identityId : IdentityId} {signingKeyId : Uuid}

/-- a row after a revocation: as it was, or it is the key's -/
theorem of_mem_revokeKey {r : SigningKeyRow} (hr : r ∈ revokeKey keys identityId signingKeyId) :
    ∃ r' ∈ keys, r.id = r'.id ∧ r.identityId = r'.identityId ∧
      ((r = r' ∧ ¬ (r'.id = signingKeyId ∧ r'.identityId = identityId)) ∨
        r.revoked = true ∧ r'.id = signingKeyId ∧ r'.identityId = identityId) := by
  obtain ⟨r', hr', rfl⟩ := List.mem_map.1 hr
  refine ⟨r', hr', ?_⟩
  split_ifs with hsame
  · exact ⟨rfl, rfl, .inr ⟨rfl, hsame⟩⟩
  · exact ⟨rfl, rfl, .inl ⟨rfl, hsame⟩⟩

/-- every row is there after a revocation -/
theorem mem_revokeKey {r : SigningKeyRow} (hr : r ∈ keys) :
    ∃ r' ∈ revokeKey keys identityId signingKeyId, r'.id = r.id ∧ r'.identityId = r.identityId := by
  refine ⟨_, List.mem_map_of_mem hr, ?_⟩
  split_ifs <;> exact ⟨rfl, rfl⟩

theorem ids_revokeKey : (revokeKey keys identityId signingKeyId).map SigningKeyRow.id = keys.map SigningKeyRow.id := by
  simp only [revokeKey, List.map_map]
  refine List.map_congr_left fun r _ => ?_
  simp only [Function.comp_apply]
  split_ifs <;> rfl

end

/-! ## Locks -/

theorem locks_refuse (m : Minting) : (refuse m).locks = .none ∨ (refuse m).locks = ⟨[], m.via.rows⟩ := by
  unfold refuse
  split
  · rename_i id hvia
    exact .inr (by rw [hvia]; rfl)
  · exact .inl rfl

theorem locks_readRequest (t : Tables) (flow : Flow) (codeHash : FixedBytes 32) (token : String) (now : OffsetDateTime) :
    (readRequest t flow codeHash token now).locks = .none := by
  unfold readRequest
  split
  · rfl
  · split
    · split_ifs <;> rfl
    · split_ifs <;> rfl
    · rfl
    · rfl

theorem locks_takeApproval (row : RequestRow) (token : String) : (takeApproval row token).locks = ⟨[], [.request row.id]⟩ := by
  unfold takeApproval
  split <;> rfl

/-- fewer shared rows, and the same alone -/
theorem extends_alone {a : Locks Row} {rows : List Row} {b : Locks Row} (h : a = .none ∨ a = ⟨[], rows⟩) (hb : b.alone = rows)
    (c : Locks Row) : a.Extends b c := by
  rcases h with rfl | rfl
  · exact .of_none _ _
  · exact ⟨by simp, fun k hk => .inl (hb ▸ hk)⟩

/-- an update of a found row ends its call -/
theorem phase_updateFound {t t' : Tables} {others : List Phase} {found : Option RequestRow} {update : RequestRow → Tables}
    {p' : Phase} (h : updateFound t others found update = some (t', p')) :
    p' = .ended ∧ (t' = t ∨ ∃ row, found = some row ∧ Takable Phase.locks others (.request row.id) ∧ t' = update row) := by
  unfold updateFound at h
  split at h
  · cases h
    exact ⟨rfl, .inl rfl⟩
  · rename_i row
    split_ifs at h with hfree
    cases h
    exact ⟨rfl, .inr ⟨row, rfl, hfree, rfl⟩⟩

/-- what `revoke_device` has locked -/
theorem lockDevice_eq_some {t : Tables} {others : List Phase} {identityId : IdentityId} {signingKeyId revokedBy : Uuid}
    {verified : Bool} {p' : Phase} (h : lockDevice t others identityId signingKeyId revokedBy verified = some p') :
    p' = .ended ∨ (p' = .deviceLocked identityId signingKeyId (activeKeysOf t identityId) ∧
      (∀ id ∈ activeKeysOf t identityId, Takable Phase.locks others (.signingKey identityId id)) ∧
        signingKeyId ∈ activeKeysOf t identityId) := by
  simp only [lockDevice] at h
  split_ifs at h with hfree hactive
  · cases h
    exact .inr ⟨rfl, hfree, hactive.2.1⟩
  · cases h
    exact .inl rfl

theorem lockPasskeys_eq_some {v : Verifier} {t : Tables} {others : List Phase} {identityId : IdentityId} {passkeyId : Uuid}
    {proof : Proof} {p' : Phase} (h : lockPasskeys v t others identityId passkeyId proof = some p') :
    p' = .ended ∨ (p' = .passkeysLocked identityId passkeyId (passkeysOf t identityId) ∧
      ∀ id ∈ passkeysOf t identityId, Takable Phase.locks others (.passkey id)) := by
  simp only [lockPasskeys] at h
  split_ifs at h with hfree hsigned
  · cases h
    exact .inl rfl
  · cases h
    exact .inr ⟨rfl, hfree⟩

theorem eraseRequests_eq_some {t : Tables} {others : List Phase} {r r' : Recovery} {flow : Flow}
    (h : eraseRequests t others r flow = some r') :
    r' = { r with requests := r.requests ++ requestsOf t flow r.passkey.identityId } ∧
      ∀ id ∈ requestsOf t flow r.passkey.identityId, Takable Phase.locks others (.request id) := by
  simp only [eraseRequests] at h
  split_ifs at h with hfree
  cases h
  exact ⟨rfl, hfree⟩

/-- a call begins with no locks, or with the passkeys that a recovery replaces -/
theorem locks_receive {t t' : Tables} {others : List Phase} {call : Call} {p' : Phase}
    (h : receive t others call = some (t', p')) : p'.locks = .none ∨
      ∃ ids : List Uuid, p'.locks = ⟨[], ids.map Row.passkey⟩ ∧ ∀ id ∈ ids, Takable Phase.locks others (.passkey id) := by
  cases call with
  | finalizeRequest passkey =>
    simp only [receive] at h
    split_ifs at h with hfree
    cases h
    exact .inr ⟨_, rfl, hfree⟩
  | approvePairing session | denyPairing session | revokeDevice session | revokePasskey session | logout session
  | revokeSession session =>
    simp only [receive] at h
    cases h
    cases resolve t session <;> exact .inl rfl
  | submit identityId signingKeyId userCode token =>
    simp only [receive] at h
    cases h
    cases userCode <;> exact .inl rfl
  | sessionStart | pruneRequests | addSigningKey | addPasskey =>
    simp only [receive] at h
    split_ifs at h
    all_goals
      cases h
      exact .inl rfl
  | sessionFinish ticket credential token =>
    simp only [receive] at h
    split at h
    · cases h
      exact .inl rfl
    · split at h
      · split_ifs at h
        all_goals
          cases h
          exact .inl rfl
      · cases h
        exact .inl rfl
  | _ =>
    simp only [receive] at h
    cases h
    exact .inl rfl

/-- **Statements take only rows that nobody else is in the way of** -/
theorem disciplined (v : Verifier) : Disciplined (program v) Phase.locks where
  start _ := rfl
  aborted _ := rfl
  statement t others p t' p' hstep q hq := by
    have hnone : p'.locks = .none → p'.locks.Extends p.locks q.locks := by
      intro h
      rw [h]
      exact .of_none _ _
    -- the rows that were free, and those that it had
    have hextends : ∀ shared alone, p'.locks = ⟨shared, alone⟩ →
        (∀ k ∈ shared, k ∈ p.locks.shared ∨ Shareable Phase.locks others k) →
        (∀ k ∈ alone, k ∈ p.locks.alone ∨ Takable Phase.locks others k) → p'.locks.Extends p.locks q.locks := by
      intro shared alone h hshared halone
      rw [h]
      exact ⟨fun k hk => (hshared k hk).imp_right fun hfree => hfree q hq,
        fun k hk => (halone k hk).imp_right fun hfree => hfree q hq⟩
    change statement v t others p = some (t', p') at hstep
    cases p with
    | received call =>
      rcases locks_receive hstep with h | ⟨ids, h, hfree⟩
      · exact hnone h
      · refine hextends _ _ h (by simp) fun k hk => ?_
        obtain ⟨id, hid, rfl⟩ := List.mem_map.1 hk
        exact .inr (hfree id hid)
    | starting flow expiresAt codes =>
      cases codes with
      | nil =>
        cases hstep
        exact hnone rfl
      | cons code rest =>
        simp only [statement, insertRequest, Option.some.injEq] at hstep
        split_ifs at hstep
        all_goals
          cases hstep
          exact hnone rfl
    | polling flow codeHash token now =>
      cases hstep
      exact hnone (locks_readRequest ..)
    | expiring | touching | approvingLogin | approvingPairing | denying =>
      obtain ⟨rfl, -⟩ := phase_updateFound hstep
      exact hnone rfl
    | consuming flow codeHash token =>
      simp only [statement] at hstep
      split at hstep
      · cases hstep
        exact hnone rfl
      · split_ifs at hstep with hfree
        cases hstep
        refine hextends _ _ (locks_takeApproval ..) (by simp) fun k hk => ?_
        obtain rfl := List.mem_singleton.1 hk
        exact .inr hfree
    | usable m signingKeyId requireLocal =>
      obtain ⟨p', hp', heq⟩ := Option.map_eq_some_iff.1 hstep
      cases heq
      unfold lockKey at hp'
      split at hp'
      · split_ifs at hp' with hfree hrevoked
        · cases hp'
          exact extends_alone (locks_refuse m) rfl _
        · cases hp'
          refine hextends _ _ rfl (fun k hk => ?_) fun k hk => .inl hk
          obtain rfl := List.mem_singleton.1 hk
          exact .inr hfree
      · cases hp'
        split_ifs
        · exact extends_alone (locks_refuse m) rfl _
        · exact .refl _ _
    | keyLocked m signingKeyId isLocal =>
      cases hstep
      unfold checkKey
      split
      · exact extends_alone (locks_refuse m) rfl _
      · cases isLocal <;> exact .refl _ _
    | authenticating ceremony identityId credential token =>
      simp only [statement] at hstep
      split at hstep
      · cases hstep
        exact hnone rfl
      · split_ifs at hstep with hfree
        cases hstep
        refine hextends _ _ rfl (fun k hk => ?_) (by simp [Via.rows])
        obtain rfl := List.mem_singleton.1 hk
        exact .inr hfree
    | fetching identityId userCode proof =>
      simp only [statement] at hstep
      split at hstep
      · cases hstep
        exact hnone rfl
      · cases hstep
        split_ifs <;> exact .of_none _ _
    | signing identityId request userCode proof =>
      simp only [statement] at hstep
      split at hstep
      all_goals
        cases hstep
        exact hnone rfl
    | minting | discarding | deviceEnded | passkeyEnded | sessionsErased | endingSession | endingOwnSession =>
      cases hstep
      exact hnone rfl
    | revokingDevice identityId signingKeyId revokedBy verified =>
      simp only [statement] at hstep
      obtain ⟨p', hp', heq⟩ := Option.map_eq_some_iff.1 hstep
      cases heq
      rcases lockDevice_eq_some hp' with rfl | ⟨rfl, hfree, -⟩
      · exact hnone rfl
      · refine hextends _ _ rfl (by simp) fun k hk => ?_
        obtain ⟨id, hid, rfl⟩ := List.mem_map.1 hk
        exact .inr (hfree id hid)
    | deviceLocked | passkeyDeleted | loginsErased =>
      cases hstep
      exact hextends _ _ rfl (by simp) fun k hk => .inl hk
    | revokingPasskey identityId passkeyId proof =>
      simp only [statement] at hstep
      obtain ⟨p', hp', heq⟩ := Option.map_eq_some_iff.1 hstep
      cases heq
      rcases lockPasskeys_eq_some hp' with rfl | ⟨rfl, hfree⟩
      · exact hnone rfl
      · refine hextends _ _ rfl (by simp) fun k hk => ?_
        obtain ⟨id, hid, rfl⟩ := List.mem_map.1 hk
        exact .inr (hfree id hid)
    | passkeysLocked identityId passkeyId ids =>
      simp only [statement] at hstep
      split_ifs at hstep with hfound hfree
      · cases hstep
        refine hextends _ _ rfl (by simp) fun k hk => ?_
        rcases List.mem_cons.1 hk with rfl | hk
        · exact .inr hfree
        · exact .inl hk
      · cases hstep
        exact hnone rfl
    | recovering passkey ids =>
      simp only [statement] at hstep
      split_ifs at hstep with hfree
      cases hstep
      refine hextends _ _ rfl (by simp) fun k hk => ?_
      simp only [Recovery.rows, List.map_nil, List.append_nil] at hk
      obtain ⟨id, hid, rfl⟩ := List.mem_map.1 hk
      exact .inr (hfree id hid)
    | passkeysErased r | pairingsErased r =>
      obtain ⟨r', hr', heq⟩ := Option.map_eq_some_iff.1 hstep
      cases heq
      obtain ⟨rfl, hfree⟩ := eraseRequests_eq_some hr'
      refine hextends _ _ rfl (by simp) fun k hk => ?_
      simp only [Recovery.rows, List.map_append, List.mem_append] at hk
      rcases hk with hk | hk | hk
      · exact .inl (List.mem_append_left _ hk)
      · exact .inl (List.mem_append_right _ hk)
      · obtain ⟨id, hid, rfl⟩ := List.mem_map.1 hk
        exact .inr (hfree id hid)
    | ended => cases hstep

end Avalon.Logins
