/-
Bindings of identities to integrators and the capabilities granted under them (`crates/server/src/connections.rs`: `connect`,
`revoke_grant`, `disconnect`, `my_grants`), the check of a capability (`crates/server/src/authz.rs`: `require_capability` for an
integrator), and the indexer's copy of the bindings (`crates/indexer/src/projections/integrator_bindings.rs`), statement by
statement on PostgreSQL at READ COMMITTED. Integrators are registered by `crates/server/src/integrators.rs`:
`register_integrator`, here one step.

A transaction has its binding alone: the row, if it found one, or the key of the unique index of active bindings, if it
inserted one. What it wrote is kept in the phase of its call until it commits. The check reads the binding and then the grant,
without a transaction. Ids that are drawn at random are numbers.

Left out: answers, lists of connections and the checks of a registration other than its slug; who the caller is; the ledger
behind the outbox; the precision of stored times.
-/
import Mathlib.Tactic
import Avalon.Core.Bytes
import Avalon.Core.Interleaving
import Avalon.Core.Locks
import Avalon.Protocol.LedgerEntry
import Avalon.Protocol.Events
import Avalon.Protocol.IdentityId
import Avalon.Server.SignatureGate

namespace Avalon.Connections

open Avalon.Events Avalon.Identity Avalon.LedgerEntry Avalon.SignatureGate
open Interleaving

/-! ## Tables -/

structure IntegratorRow where
  id : ℕ
  slug : String
  /-- its rows of `integrator_requested_capabilities` -/
  requestedCapabilities : List String

/-- a row of `bindings`, and of `indexer_integrator_bindings` -/
structure BindingRow where
  id : ℕ
  identityId : IdentityId
  integratorId : ℕ
  establishedAt : OffsetDateTime
  endedAt : Option OffsetDateTime

/-- a row of `permission_grants` -/
structure GrantRow where
  bindingId : ℕ
  capability : String
  grantedAt : OffsetDateTime
  revokedAt : Option OffsetDateTime

/-- what is committed; `keysWritten` and `consented` record what `identity_signing_keys` holds and the signatures that were accepted -/
inductive Event where
  | keysWritten (keys : List SigningKeyRow)
  | registered (integratorId : ℕ) (slug : String) (capabilities : List String)
  | consented (identityId : IdentityId) (integratorId : ℕ) (slug : String) (capabilities : List String) (proof : Proof)
  | established (bindingId : ℕ) (identityId : IdentityId) (integratorId : ℕ) (slug : String) (timestamp : OffsetDateTime)
  | granted (bindingId : ℕ) (identityId : IdentityId) (integratorId : ℕ) (capability : String) (timestamp : OffsetDateTime)
  | revoked (bindingId : ℕ) (identityId : IdentityId) (integratorId : ℕ) (capability : String) (reason : Option String)
    (timestamp : OffsetDateTime)
  | ended (bindingId : ℕ) (identityId : IdentityId) (integratorId : ℕ) (slug : String) (timestamp : OffsetDateTime)

/-- the answer of a check, and how long the log was at its two reads -/
structure Answer where
  identityId : IdentityId
  integratorId : ℕ
  capability : String
  first : ℕ
  last : ℕ
  authorized : Bool

structure Tables where
  now : OffsetDateTime
  nextId : ℕ
  integrators : List IntegratorRow
  /-- `identity_signing_keys` -/
  signingKeys : List SigningKeyRow
  bindings : List BindingRow
  grants : List GrantRow
  /-- `indexer_integrator_bindings` -/
  indexed : List BindingRow
  /-- in commit order -/
  log : List Event
  answers : List Answer

def Tables.init (now : OffsetDateTime) : Tables := ⟨now, 0, [], [], [], [], [], [], []⟩

/-! ## The indexer's copy -/

inductive IntegratorBindingWrite where
  | establish (id : ℕ) (identityId : IdentityId) (integratorId : ℕ) (establishedAt : OffsetDateTime)
  | finish (id : ℕ) (endedAt : OffsetDateTime)

def decode : Event → Option IntegratorBindingWrite
  | .established bindingId identityId integratorId _ timestamp => some (.establish bindingId identityId integratorId timestamp)
  | .ended bindingId _ _ _ timestamp => some (.finish bindingId timestamp)
  | _ => none

def apply (rows : List BindingRow) : IntegratorBindingWrite → List BindingRow
  | .establish id identityId integratorId establishedAt =>
    -- ON CONFLICT (id) DO UPDATE
    if rows.any fun r => decide (r.id = id) then
      rows.map fun r => if r.id = id then ⟨id, identityId, integratorId, establishedAt, r.endedAt⟩ else r
    else rows ++ [⟨id, identityId, integratorId, establishedAt, none⟩]
  | .finish id endedAt => rows.map fun r => if r.id = id then { r with endedAt := some endedAt } else r

/-- `apply_in_tx`, of an event that no projection but this one reads -/
def applyInTx (rows : List BindingRow) (e : Event) : List BindingRow := (decode e).elim rows (apply rows)

structure BindingState where
  integratorId : ℕ
  identityId : IdentityId
  active : Bool

/-- one round of the loop of `fold`; the map is a list, by id -/
def foldStep (byId : List (ℕ × BindingState)) : IntegratorBindingWrite → List (ℕ × BindingState)
  | .establish id identityId integratorId _ =>
    if byId.any fun e => decide (e.1 = id) then
      byId.map fun e => if e.1 = id then (id, ⟨integratorId, identityId, true⟩) else e
    else byId ++ [(id, ⟨integratorId, identityId, true⟩)]
  | .finish id _ => byId.map fun e => if e.1 = id then (e.1, { e.2 with active := false }) else e

def fold (writes : List IntegratorBindingWrite) : List BindingState := (writes.foldl foldStep []).map Prod.snd

def countActivePlayers (states : List BindingState) (integratorId : ℕ) : ℕ :=
  ((states.filter fun s => decide (s.integratorId = integratorId) && s.active).map BindingState.identityId).dedup.length

def countTotalPlayersEver (states : List BindingState) (integratorId : ℕ) : ℕ :=
  ((states.filter fun s => decide (s.integratorId = integratorId)).map BindingState.identityId).dedup.length

/-- the identities that `active_player_count` counts -/
def activePlayers (rows : List BindingRow) (integratorId : ℕ) : List IdentityId :=
  ((rows.filter fun r => decide (r.integratorId = integratorId) && r.endedAt.isNone).map BindingRow.identityId).dedup

def activePlayerCount (rows : List BindingRow) (integratorId : ℕ) : ℕ := (activePlayers rows integratorId).length

def totalPlayersEver (rows : List BindingRow) (integratorId : ℕ) : ℕ :=
  ((rows.filter fun r => decide (r.integratorId = integratorId)).map BindingRow.identityId).dedup.length

/-! ## Reads -/

def fetchIntegratorIdBySlug (t : Tables) (slug : String) : Option ℕ :=
  (t.integrators.find? fun r => decide (r.slug = slug)).map IntegratorRow.id

def requestedCapabilities (t : Tables) (integratorId : ℕ) : List String :=
  (t.integrators.filter fun r => decide (r.id = integratorId)).flatMap IntegratorRow.requestedCapabilities

/-- WHERE identity_id AND integrator_id AND ended_at IS NULL -/
def findActive (t : Tables) (identityId : IdentityId) (integratorId : ℕ) : Option BindingRow :=
  t.bindings.find? fun r => decide (r.identityId = identityId ∧ r.integratorId = integratorId) && r.endedAt.isNone

/-- WHERE binding_id AND capability AND revoked_at IS NULL -/
def isActive (grants : List GrantRow) (bindingId : ℕ) (capability : String) : Bool :=
  grants.any fun r => decide (r.bindingId = bindingId ∧ r.capability = capability) && r.revokedAt.isNone

def activeCapabilities (grants : List GrantRow) (bindingId : ℕ) : List String :=
  (grants.filter fun r => decide (r.bindingId = bindingId) && r.revokedAt.isNone).map GrantRow.capability

def myGrants (t : Tables) (identityId : IdentityId) (integratorId : ℕ) : List String :=
  t.grants.flatMap fun g =>
    (t.bindings.filter fun b => decide (b.id = g.bindingId ∧ b.identityId = identityId ∧ b.integratorId = integratorId) &&
      b.endedAt.isNone && g.revokedAt.isNone).map fun _ => g.capability

structure BindingFacts where
  boundIntegratorId : ℕ
  active : Bool

structure GrantFacts where
  active : Bool

def fetchBinding (t : Tables) (identityId : IdentityId) (integratorId : ℕ) : Option (ℕ × BindingFacts) :=
  (findActive t identityId integratorId).map fun r => (r.id, ⟨r.integratorId, true⟩)

def fetchGrant (t : Tables) (bindingId : ℕ) (capability : String) : Option GrantFacts :=
  if isActive t.grants bindingId capability then some ⟨true⟩ else none

def capabilityAuthorized (callerIntegratorId : ℕ) (binding : Option BindingFacts) (grant : Option GrantFacts) : Bool :=
  match binding with
  | none => false
  | some binding =>
    if binding.boundIntegratorId ≠ callerIntegratorId ∨ binding.active = false then false
    else grant.any GrantFacts.active

/-! ## Calls -/

inductive Call where
  | register (slug : String) (capabilities : List String)
  /-- other calls write `identity_signing_keys` -/
  | writeKeys (keys : List SigningKeyRow)
  | connect (identityId : IdentityId) (slug : String) (capabilities : List String) (proof : Proof)
  | revokeGrant (identityId : IdentityId) (slug capability : String)
  | disconnect (identityId : IdentityId) (slug : String)
  | check (integratorId : ℕ) (identityId : IdentityId) (capability : String)
  | wait (nanoseconds : ℕ)

/-- the binding that a transaction works on -/
structure Held where
  bindingId : ℕ
  identityId : IdentityId
  integratorId : ℕ
  slug : String
  /-- inserted by this transaction -/
  newlyCreated : Bool
  now : OffsetDateTime

/-- what transactions lock: rows, and keys of the index of active bindings -/
inductive Row where
  | binding (id : ℕ)
  | active (identityId : IdentityId) (integratorId : ℕ)
  | grant (bindingId : ℕ) (capability : String)
deriving DecidableEq

/-- how far a call has come -/
inductive Phase where
  | received (call : Call)
  | signing (identityId : IdentityId) (integratorId : ℕ) (slug : String) (capabilities : List String) (proof : Proof)
  | declaring (identityId : IdentityId) (integratorId : ℕ) (slug : String) (capabilities : List String)
  | binding (identityId : IdentityId) (integratorId : ℕ) (slug : String) (capabilities : List String) (now : OffsetDateTime)
  | inserting (identityId : IdentityId) (integratorId : ℕ) (slug : String) (capabilities : List String) (now : OffsetDateTime)
  /-- the loop over the capabilities, with those it has granted -/
  | granting (h : Held) (capabilities granted : List String)
  | writing (h : Held) (capability : String) (capabilities granted : List String)
  | revokingGrant (identityId : IdentityId) (integratorId : ℕ) (slug capability : String)
  | revoking (h : Held) (capability : String)
  | grantRevoked (h : Held) (capability : String)
  | disconnecting (identityId : IdentityId) (integratorId : ℕ) (slug : String)
  | ending (h : Held)
  | grantsRevoked (h : Held) (capabilities : List String)
  | bindingEnded (h : Held) (capabilities : List String)
  | checking (integratorId : ℕ) (identityId : IdentityId) (capability : String) (binding : Option (ℕ × BindingFacts)) (first : ℕ)
  | ended

def Held.row (h : Held) : Row := if h.newlyCreated then .active h.identityId h.integratorId else .binding h.bindingId

/-- the binding, and grants that were written -/
def Held.rows (h : Held) (capabilities : List String) : List Row := h.row :: capabilities.map (Row.grant h.bindingId)

/-- the binding that a call works on, with the capabilities it wrote -/
def Phase.held : Phase → Option (Held × List String)
  | granting h _ granted | writing h _ _ granted => some (h, granted)
  | revoking h _ | ending h => some (h, [])
  | grantRevoked h capability => some (h, [capability])
  | grantsRevoked h capabilities | bindingEnded h capabilities => some (h, capabilities)
  | _ => none

/-- the rows that a call has locked -/
def Phase.locks (p : Phase) : Locks Row :=
  match p.held with
  | some (h, capabilities) => ⟨[], h.rows capabilities⟩
  | none => .none

/-! ## Statements -/

def truncateMicros (now : OffsetDateTime) : OffsetDateTime := now / 1000 * 1000

/-- what the user signs -/
def connectMessage (slug : String) (capabilities : List String) : Bytes :=
  canonicalMessage "integration.connect" [slug, ",".intercalate capabilities]

/-- `active_binding`, with the lock; nothing if it has to wait -/
def activeBinding (t : Tables) (others : List Phase) (identityId : IdentityId) (integratorId : ℕ) : Option (Option ℕ) :=
  match findActive t identityId integratorId with
  | none => some none
  | some row => if Takable Phase.locks others (.binding row.id) then some (some row.id) else none

/-- a call that has ended this binding and not committed -/
def Phase.endsBinding (p : Phase) (id : ℕ) : Bool :=
  match p with
  | bindingEnded h _ => decide (h.bindingId = id)
  | _ => false

/-- the insert of `connect`: it waits for another insert of the key, and for a transaction that is ending the active binding -/
def insertBinding (t : Tables) (others : List Phase) (identityId : IdentityId) (integratorId : ℕ) (slug : String)
    (capabilities : List String) (now : OffsetDateTime) : Option (Tables × Phase) :=
  if Takable Phase.locks others (.active identityId integratorId) then
    match findActive t identityId integratorId with
    | some row => if others.any fun q => q.endsBinding row.id then none else some (t, .ended)
    | none =>
      some ({ t with nextId := t.nextId + 1 }, .granting ⟨t.nextId, identityId, integratorId, slug, true, now⟩ capabilities [])
  else none

/-- UPDATE … SET granted_at, revoked_at = NULL, and INSERT if there was no row -/
def grant (grants : List GrantRow) (bindingId : ℕ) (now : OffsetDateTime) (capability : String) : List GrantRow :=
  if grants.any fun r => decide (r.bindingId = bindingId ∧ r.capability = capability) then
    grants.map fun r =>
      if r.bindingId = bindingId ∧ r.capability = capability then { r with grantedAt := now, revokedAt := none } else r
  else grants ++ [⟨bindingId, capability, now, none⟩]

/-- what a transaction of `connect` sees after its grants -/
def Held.grants (h : Held) (t : Tables) (granted : List String) : List GrantRow :=
  granted.foldl (fun grants capability => grant grants h.bindingId h.now capability) t.grants

def revoke (grants : List GrantRow) (bindingId : ℕ) (now : OffsetDateTime) (capabilities : List String) : List GrantRow :=
  grants.map fun r =>
    if r.bindingId = bindingId ∧ r.capability ∈ capabilities ∧ r.revokedAt = none then { r with revokedAt := some now } else r

def Held.established (h : Held) : Event := .established h.bindingId h.identityId h.integratorId h.slug h.now

def Held.granted (h : Held) (capability : String) : Event := .granted h.bindingId h.identityId h.integratorId capability h.now

def Held.revoked (h : Held) (reason : Option String) (capability : String) : Event :=
  .revoked h.bindingId h.identityId h.integratorId capability reason h.now

def Held.ended (h : Held) : Event := .ended h.bindingId h.identityId h.integratorId h.slug h.now

/-- the commit of `connect`, the binding -/
def commitBinding (t : Tables) (h : Held) : Tables :=
  if h.newlyCreated then
    { t with
      bindings := t.bindings ++ [⟨h.bindingId, h.identityId, h.integratorId, h.now, none⟩]
      indexed := applyInTx t.indexed h.established
      log := t.log ++ [h.established] }
  else t

/-- the commit of `connect` -/
def commitConnect (t : Tables) (h : Held) (granted : List String) : Tables :=
  { commitBinding t h with
    grants := h.grants t granted
    log := (commitBinding t h).log ++ granted.map h.granted }

/-- the commit of `revoke_grant` -/
def commitRevoke (t : Tables) (h : Held) (capability : String) : Tables :=
  { t with
    grants := revoke t.grants h.bindingId h.now [capability]
    log := t.log ++ [h.revoked none capability] }

/-- the commit of `disconnect` -/
def commitDisconnect (t : Tables) (h : Held) (capabilities : List String) : Tables :=
  { t with
    bindings := t.bindings.map fun r => if r.id = h.bindingId then { r with endedAt := some h.now } else r
    grants := revoke t.grants h.bindingId h.now capabilities
    indexed := applyInTx t.indexed h.ended
    log := t.log ++ capabilities.map (h.revoked (some "binding_ended")) ++ [h.ended] }

/-- the second read of `require_capability`, and its answer -/
def answer (t : Tables) (integratorId : ℕ) (identityId : IdentityId) (capability : String) (binding : Option (ℕ × BindingFacts))
    (first : ℕ) : Answer :=
  let grant := match binding with
    | some (bindingId, facts) => if facts.active then fetchGrant t bindingId capability else none
    | none => none
  ⟨identityId, integratorId, capability, first, t.log.length,
    capabilityAuthorized integratorId (binding.map Prod.snd) grant⟩

/-- the statement that a call begins with -/
def receive (t : Tables) : Call → Tables × Phase
  | .register slug capabilities =>
    if t.integrators.any fun r => decide (r.slug = slug) then (t, .ended)
    else
      ({ t with
        nextId := t.nextId + 1
        integrators := t.integrators ++ [⟨t.nextId, slug, capabilities⟩]
        log := t.log ++ [.registered t.nextId slug capabilities] }, .ended)
  | .writeKeys keys => ({ t with signingKeys := keys, log := t.log ++ [.keysWritten keys] }, .ended)
  | .connect identityId slug capabilities proof =>
    (t, (fetchIntegratorIdBySlug t slug).elim .ended fun g => .signing identityId g slug capabilities proof)
  | .revokeGrant identityId slug capability =>
    (t, (fetchIntegratorIdBySlug t slug).elim .ended fun g => .revokingGrant identityId g slug capability)
  | .disconnect identityId slug =>
    (t, (fetchIntegratorIdBySlug t slug).elim .ended fun g => .disconnecting identityId g slug)
  | .check integratorId identityId capability =>
    (t, .checking integratorId identityId capability (fetchBinding t identityId integratorId) t.log.length)
  | .wait nanoseconds => ({ t with now := t.now + nanoseconds }, .ended)

/-- the next statement of a call; nothing if it has to wait -/
def statement (v : Verifier) (t : Tables) (others : List Phase) : Phase → Option (Tables × Phase)
  | .received call => some (receive t call)
  | .signing identityId integratorId slug capabilities proof =>
    match requireFreshSignature v t.signingKeys identityId (connectMessage slug capabilities) proof with
    | .error _ => some (t, .ended)
    | .ok () =>
      some ({ t with log := t.log ++ [.consented identityId integratorId slug capabilities proof] },
        .declaring identityId integratorId slug capabilities)
  | .declaring identityId integratorId slug capabilities =>
    if ∀ capability ∈ capabilities, capability ∈ requestedCapabilities t integratorId then
      some (t, .binding identityId integratorId slug capabilities (truncateMicros t.now))
    else some (t, .ended)
  | .binding identityId integratorId slug capabilities now =>
    (activeBinding t others identityId integratorId).map fun found =>
      (t, found.elim (.inserting identityId integratorId slug capabilities now) fun id =>
        .granting ⟨id, identityId, integratorId, slug, false, now⟩ capabilities [])
  | .inserting identityId integratorId slug capabilities now =>
    insertBinding t others identityId integratorId slug capabilities now
  | .granting h [] granted => some (commitConnect t h granted, .ended)
  | .granting h (capability :: capabilities) granted =>
    some (t, if isActive (h.grants t granted) h.bindingId capability then .granting h capabilities granted
      else .writing h capability capabilities granted)
  | .writing h capability capabilities granted =>
    if Takable Phase.locks others (.grant h.bindingId capability) then
      some (t, .granting h capabilities (granted ++ [capability]))
    else none
  | .revokingGrant identityId integratorId slug capability =>
    (activeBinding t others identityId integratorId).map fun found =>
      (t, found.elim .ended fun id => .revoking ⟨id, identityId, integratorId, slug, false, t.now⟩ capability)
  | .revoking h capability =>
    if isActive t.grants h.bindingId capability then
      if Takable Phase.locks others (.grant h.bindingId capability) then some (t, .grantRevoked h capability) else none
    else some (t, .ended)
  | .grantRevoked h capability => some (commitRevoke t h capability, .ended)
  | .disconnecting identityId integratorId slug =>
    (activeBinding t others identityId integratorId).map fun found =>
      (t, found.elim .ended fun id => .ending ⟨id, identityId, integratorId, slug, false, t.now⟩)
  | .ending h =>
    let capabilities := activeCapabilities t.grants h.bindingId
    if ∀ capability ∈ capabilities, Takable Phase.locks others (.grant h.bindingId capability) then
      some (t, .grantsRevoked h capabilities)
    else none
  | .grantsRevoked h capabilities => some (t, .bindingEnded h capabilities)
  | .bindingEnded h capabilities => some (commitDisconnect t h capabilities, .ended)
  | .checking integratorId identityId capability binding first =>
    some ({ t with answers := t.answers ++ [answer t integratorId identityId capability binding first] }, .ended)
  | .ended => none

def program (v : Verifier) : Program Tables Phase Call where
  start := .received
  statement := statement v
  aborted _ := .ended

/-! ## Locks -/

section

variable {v : Verifier} {t t' : Tables} {others : List Phase} {p p' q : Phase}

@[simp] theorem locks_of_none (h : p.held = none) : p.locks = .none := by
  simp [Phase.locks, h]

theorem locks_of_held {h : Held} {capabilities : List String} (hheld : p.held = some (h, capabilities)) :
    p.locks = ⟨[], h.rows capabilities⟩ := by
  simp [Phase.locks, hheld]

theorem locks_receive (call : Call) : (receive t call).2.locks = .none := by
  cases call with
  | register slug capabilities =>
    simp only [receive]
    split_ifs <;> rfl
  | connect identityId slug capabilities proof =>
    simp only [receive]
    cases fetchIntegratorIdBySlug t slug <;> rfl
  | revokeGrant identityId slug capability =>
    simp only [receive]
    cases fetchIntegratorIdBySlug t slug <;> rfl
  | disconnect identityId slug =>
    simp only [receive]
    cases fetchIntegratorIdBySlug t slug <;> rfl
  | writeKeys | check | wait => rfl

/-- the binding is found, and nobody has it -/
theorem activeBinding_eq_some {identityId : IdentityId} {integratorId : ℕ} {found : Option ℕ}
    (h : activeBinding t others identityId integratorId = some found) :
    found = (findActive t identityId integratorId).map BindingRow.id ∧
      ∀ id, found = some id → Takable Phase.locks others (.binding id) := by
  unfold activeBinding at h
  split at h
  · rename_i hnone
    cases h
    exact ⟨by rw [hnone]; rfl, fun id hid => by cases hid⟩
  · rename_i row hrow
    split_ifs at h with hfree
    cases h
    refine ⟨by rw [hrow]; rfl, fun id hid => ?_⟩
    cases hid
    exact hfree

/-- more rows alone, which were free -/
theorem extends_of_free {a b c : Locks Row} (hshared : a.shared = []) (h : ∀ r ∈ a.alone, r ∈ b.alone ∨ c.Takable r) :
    a.Extends b c :=
  ⟨by simp [hshared], h⟩

theorem extends_found {identityId : IdentityId} {integratorId : ℕ} {found : Option ℕ} {h : ℕ → Held}
    (hfound : activeBinding t others identityId integratorId = some found) (hrow : ∀ id, (h id).row = .binding id) {id : ℕ}
    (hid : found = some id) (hp' : p'.held = some (h id, [])) (hq : q ∈ others) : p'.locks.Extends p.locks q.locks := by
  rw [locks_of_held hp']
  refine extends_of_free rfl fun r hr => .inr ?_
  obtain rfl : r = .binding id := by simpa [Held.rows, hrow] using hr
  exact (activeBinding_eq_some hfound).2 id hid q hq

/-- **Transactions take only what nobody has** -/
theorem disciplined (v : Verifier) : Disciplined (program v) Phase.locks where
  start _ := rfl
  aborted _ := rfl
  statement t others p t' p' hstep q hq := by
    have hended : ∀ p' : Phase, p'.held = none → p'.locks.Extends p.locks q.locks := fun p' hp' => by
      rw [locks_of_none hp']
      exact Locks.Extends.of_none _ _
    have hsame : ∀ p' : Phase, p'.held = p.held → p'.locks.Extends p.locks q.locks := fun p' hp' => by
      rw [Phase.locks, hp', ← Phase.locks]
      exact Locks.Extends.refl _ _
    cases p with
    | received call =>
      simp only [program, statement, Option.some.injEq] at hstep
      have := locks_receive (t := t) call
      rw [hstep] at this
      rw [this]
      exact Locks.Extends.of_none _ _
    | signing identityId integratorId slug capabilities proof =>
      simp only [program, statement] at hstep
      split at hstep <;> cases hstep <;> exact hended _ rfl
    | declaring identityId integratorId slug capabilities =>
      simp only [program, statement] at hstep
      split_ifs at hstep <;> cases hstep <;> exact hended _ rfl
    | binding identityId integratorId slug capabilities now =>
      simp only [program, statement, Option.map_eq_some_iff] at hstep
      obtain ⟨found, hfound, heq⟩ := hstep
      cases found with
      | none => cases heq; exact hended _ rfl
      | some id =>
        cases heq
        exact extends_found (h := fun id => ⟨id, identityId, integratorId, slug, false, now⟩) hfound (fun _ => rfl) rfl rfl hq
    | inserting identityId integratorId slug capabilities now =>
      simp only [program, statement, insertBinding] at hstep
      split_ifs at hstep with hfree
      split at hstep
      · split_ifs at hstep
        cases hstep
        exact hended _ rfl
      · cases hstep
        rw [locks_of_held rfl]
        refine extends_of_free rfl fun r hr => .inr ?_
        obtain rfl : r = .active identityId integratorId := by simpa [Held.rows, Held.row] using hr
        exact hfree q hq
    | granting h capabilities granted =>
      cases capabilities with
      | nil => cases hstep; exact hended _ rfl
      | cons capability capabilities =>
        simp only [program, statement, Option.some.injEq, Prod.mk.injEq] at hstep
        obtain ⟨-, rfl⟩ := hstep
        split_ifs <;> exact hsame _ rfl
    | writing h capability capabilities granted =>
      simp only [program, statement] at hstep
      split_ifs at hstep with hfree
      cases hstep
      refine extends_of_free rfl fun r hr => ?_
      simp only [Phase.locks, Phase.held, Held.rows, List.map_append, List.mem_cons, List.mem_append, List.map_cons,
        List.map_nil, List.not_mem_nil, or_false] at hr ⊢
      rcases hr with hr | hr | rfl
      · exact .inl (.inl hr)
      · exact .inl (.inr hr)
      · exact .inr (hfree q hq)
    | revokingGrant identityId integratorId slug capability =>
      simp only [program, statement, Option.map_eq_some_iff] at hstep
      obtain ⟨found, hfound, heq⟩ := hstep
      cases found with
      | none => cases heq; exact hended _ rfl
      | some id =>
        cases heq
        exact extends_found (h := fun id => ⟨id, identityId, integratorId, slug, false, t.now⟩) hfound (fun _ => rfl) rfl rfl hq
    | revoking h capability =>
      simp only [program, statement] at hstep
      split_ifs at hstep with hactive hfree
      · cases hstep
        refine extends_of_free rfl fun r hr => ?_
        simp only [Phase.locks, Phase.held, Held.rows, List.map_cons, List.map_nil, List.mem_cons, List.not_mem_nil,
          or_false] at hr ⊢
        rcases hr with hr | rfl
        · exact .inl hr
        · exact .inr (hfree q hq)
      · cases hstep
        exact hended _ rfl
    | disconnecting identityId integratorId slug =>
      simp only [program, statement, Option.map_eq_some_iff] at hstep
      obtain ⟨found, hfound, heq⟩ := hstep
      cases found with
      | none => cases heq; exact hended _ rfl
      | some id =>
        cases heq
        exact extends_found (h := fun id => ⟨id, identityId, integratorId, slug, false, t.now⟩) hfound (fun _ => rfl) rfl rfl hq
    | ending h =>
      simp only [program, statement] at hstep
      split_ifs at hstep with hfree
      cases hstep
      refine extends_of_free rfl fun r hr => ?_
      simp only [Phase.locks, Phase.held, Held.rows, List.map_nil, List.mem_cons, List.mem_map, List.not_mem_nil,
        or_false] at hr ⊢
      rcases hr with hr | ⟨capability, hcapability, rfl⟩
      · exact .inl hr
      · exact .inr (hfree capability hcapability q hq)
    | grantsRevoked h capabilities => cases hstep; exact hsame _ rfl
    | grantRevoked | bindingEnded | checking => cases hstep; exact hended _ rfl
    | ended => cases hstep

end

end Avalon.Connections
