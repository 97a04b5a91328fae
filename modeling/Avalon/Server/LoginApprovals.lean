/-
What stands behind a session: an approval, a grant or an authentication, and each for one session only.

The log keeps what was committed, in order. `Backed` says of an entry what has to stand before it. A login request is approved
once, by a signature of its own user code or by an accepted grant; a grant approves one request or is good for one session; an
approval and a completed ceremony are good for one session. Two calls never have the same approval: the poll that takes it has
the row of its request alone. Two calls never have the same grant or ceremony: its number, the `ticket`, is new when it is given.
The log shows the keys of `identity_signing_keys` (`keysOf`), so that it shows under which keys a signature was accepted.

Results:
- `sessions_backed`: all this in every run of any number of calls, statement by statement.
-/
import Mathlib.Tactic
import Avalon.Core.EventLog
import Avalon.Server.Logins

namespace Avalon.Logins

open Avalon.Events Avalon.Identity Avalon.LedgerEntry Avalon.SignatureGate
open Interleaving EventLog

/-! ## The log -/

/-- the grant, the approval or the authentication that an entry uses up -/
def Event.spends : Event → Option Via
  | approved _ (.grant acceptance) _ _ => some (.grant acceptance)
  | minted via _ => some via
  | _ => none

/-- the request that an entry approves -/
def Event.approves : Event → Option ℕ
  | approved request _ _ _ => some request
  | _ => none

def spent (log : List Event) : List Via := log.filterMap Event.spends

def approvedRequests (log : List Event) : List ℕ := log.filterMap Event.approves

/-- the write of `identity_signing_keys` that an entry stands for -/
def Event.keyWrite : Event → Option (List SigningKeyRow → List SigningKeyRow)
  | keyAdded row => some fun keys => keys ++ [row]
  | keyRevoked identityId signingKeyId => some fun keys => revokeKey keys identityId signingKeyId
  | _ => none

/-- `identity_signing_keys` after a log -/
def keysOf (log : List Event) : List SigningKeyRow := log.foldl (fun keys e => e.keyWrite.getD id keys) []

/-- a signature of the code of a request was accepted at some moment of the log: the request was there, and the key belonged to
the identity and was not revoked -/
def Signed (v : Verifier) (log : List Event) (request : ℕ) (userCode : String) (identityId : IdentityId) (proof : Proof) : Prop :=
  ∃ key earlier, proof.signingKeyId = some key ∧ earlier <+: log ∧ .started request .devicePairing userCode ∈ earlier ∧
    .keyRevoked identityId key ∉ earlier ∧
      requireFreshSignature v (keysOf earlier) identityId (pairingMessage identityId userCode) proof = .ok ()

/-- what stands before an entry -/
def Event.Backed (v : Verifier) (before : List Event) : Event → Prop
  | approved request (.signature userCode proof) identityId signingKeyId =>
    signingKeyId = proof.signingKeyId ∧ Signed v before request userCode identityId proof
  | approved request (.grant acceptance) identityId signingKeyId =>
    (∃ userCode, .started request .crossNode userCode ∈ before) ∧
      ∃ key, signingKeyId = some key ∧ .accepted acceptance identityId key ∈ before
  | minted (.request request) session =>
    ∃ approval key, .approved request approval session.identityId (some key) ∈ before ∧ session.origin = ⟨none, some key⟩
  | minted (.grant acceptance) session =>
    ∃ key, .accepted acceptance session.identityId key ∈ before ∧ session.origin = ⟨none, some key⟩
  | minted (.ceremony ceremony) session =>
    .authenticated ceremony session.identityId ∈ before ∧ ∃ passkeyId, session.origin = ⟨some passkeyId, none⟩
  | _ => True

/-- every entry has what it needs before it, and nothing is used twice -/
structure Sound (v : Verifier) (log : List Event) : Prop where
  backed : Legal (fun before e => e.Backed v before) log
  spent : (spent log).Nodup
  approved : (approvedRequests log).Nodup

section

variable {v : Verifier} {log : List Event} {e : Event}

theorem nodup_filterMap_snoc {α : Type} {f : Event → Option α} (h : (log.filterMap f).Nodup)
    (hnew : ∀ a, f e = some a → a ∉ log.filterMap f) : ((log ++ [e]).filterMap f).Nodup := by
  rw [List.filterMap_append]
  cases hf : f e with
  | none => simpa [hf] using h
  | some a =>
    have ha := hnew a hf
    simp only [List.filterMap_cons, hf, List.filterMap_nil]
    exact List.nodup_append.2 ⟨h, List.nodup_singleton a, by
      intro x hx y hy
      obtain rfl := List.mem_singleton.1 hy
      rintro rfl
      exact ha hx⟩

/-- an entry that has what it needs, and uses what was not used -/
theorem Sound.snoc (h : Sound v log) (hbacked : e.Backed v log) (hspent : ∀ via, e.spends = some via → via ∉ Logins.spent log)
    (happroved : ∀ id, e.approves = some id → id ∉ approvedRequests log) : Sound v (log ++ [e]) :=
  ⟨h.backed.snoc hbacked, nodup_filterMap_snoc h.spent hspent, nodup_filterMap_snoc h.approved happroved⟩

end

/-! ## The invariant -/

def Via.number : Via → ℕ
  | request id | grant id | ceremony id => id

/-- a grant or a ceremony, by its number; an approval has none -/
def Via.ticket : Via → Option Via
  | request _ => none
  | via => some via

/-- the ticket that a call has -/
def Phase.ticket : Phase → Option Via
  | usable m _ _ | keyLocked m _ _ | minting m _ => m.via.ticket
  | approvingLogin _ acceptance _ _ => some (.grant acceptance)
  | authenticating ceremony _ _ _ => some (.ceremony ceremony)
  | _ => none

/-- a ticket that was given, and not used -/
structure Valid (t : Tables) (via : Via) : Prop where
  given : via.number < t.nextId
  unspent : via ∉ spent t.log
  completed : ∀ c ∈ t.ceremonies, via ≠ .ceremony c.id

/-- what stands behind a session that is to be minted -/
def Due (t : Tables) (m : Minting) : Prop :=
  match m.via with
  | .request id => ∃ row ∈ t.requests, row.id = id ∧ row.status = .approved ∧ row.identityId = some m.identityId ∧
      ∃ key, row.approvedBySigningKeyId = some key ∧ m.origin = ⟨none, some key⟩
  | .grant acceptance => ∃ key, .accepted acceptance m.identityId key ∈ t.log ∧ m.origin = ⟨none, some key⟩
  | .ceremony ceremony => .authenticated ceremony m.identityId ∈ t.log ∧ ∃ passkeyId, m.origin = ⟨some passkeyId, none⟩

/-- what a call knows -/
def Phase.Knows (v : Verifier) (t : Tables) : Phase → Prop
  | usable m _ _ | keyLocked m _ _ | minting m _ => Due t m
  | approvingLogin _ acceptance identityId signingKeyId => .accepted acceptance identityId signingKeyId ∈ t.log
  | authenticating ceremony identityId _ _ => .authenticated ceremony identityId ∈ t.log
  | signing _ request userCode _ => .started request .devicePairing userCode ∈ t.log
  | approvingPairing identityId request userCode proof => Signed v t.log request userCode identityId proof
  | deviceLocked _ signingKeyId _ | deviceEnded _ signingKeyId _ _ => ∃ r ∈ t.signingKeys, r.id = signingKeyId
  | _ => True

structure Phase.Good (v : Verifier) (t : Tables) (p : Phase) : Prop where
  ticket : ∀ via, p.ticket = some via → Valid t via
  knows : p.Knows v t

/-- no two calls have the same ticket -/
def Phase.Apart (p q : Phase) : Prop := ∀ via, p.ticket = some via → q.ticket ≠ some via

/-- a key stays revoked: its row is there, so that its id is not given again -/
def Tables.StayRevoked (t : Tables) : Prop :=
  ∀ identityId signingKeyId, .keyRevoked identityId signingKeyId ∈ t.log → (∃ r ∈ t.signingKeys, r.id = signingKeyId) ∧
    ∀ r ∈ t.signingKeys, r.id = signingKeyId → r.identityId = identityId → r.revoked = true

structure Tables.Ok (v : Verifier) (t : Tables) : Prop where
  log : Sound v t.log
  ids : (t.requests.map RequestRow.id).Nodup
  started : ∀ r ∈ t.requests, r.id < t.nextId ∧ .started r.id r.flow r.userCode ∈ t.log
  pending : ∀ r ∈ t.requests, r.status = .pending → r.id ∉ approvedRequests t.log
  approved : ∀ r ∈ t.requests, r.status = .approved → .request r.id ∉ spent t.log ∧
    ∃ approval identityId, r.identityId = some identityId ∧
      .approved r.id approval identityId r.approvedBySigningKeyId ∈ t.log
  spentNumbers : ∀ via ∈ spent t.log, via.number < t.nextId
  approvedNumbers : ∀ id ∈ approvedRequests t.log, id < t.nextId
  ceremonies : ∀ c ∈ t.ceremonies, c.id < t.nextId ∧ .ceremony c.id ∉ spent t.log
  sessions : ∀ s ∈ t.sessions, ∃ via, .minted via s ∈ t.log
  keys : t.signingKeys = keysOf t.log
  revoked : t.StayRevoked

/-- what a statement leaves to another call -/
structure Keeps (t t' : Tables) (q : Phase) : Prop where
  log : t.log <+: t'.log
  keys : ∀ r ∈ t.signingKeys, ∃ r' ∈ t'.signingKeys, r'.id = r.id
  ticket : ∀ via, q.ticket = some via → Valid t via → Valid t' via
  requests : ∀ r ∈ t.requests, .request r.id ∈ q.locks.alone → r ∈ t'.requests

section

variable {v : Verifier} {t t' : Tables} {p q : Phase}

theorem Phase.Apart.symm (h : p.Apart q) : q.Apart p := fun via hq hp => h via hp hq

theorem apart_of_none (h : p.ticket = none) : p.Apart q := fun via hvia => by
  rw [h] at hvia
  cases hvia

theorem Signed.mono {log log' : List Event} {request : ℕ} {userCode : String} {identityId : IdentityId} {proof : Proof}
    (h : Signed v log request userCode identityId proof) (hlog : log <+: log') :
    Signed v log' request userCode identityId proof := by
  obtain ⟨key, earlier, hkey, hearlier, hrest⟩ := h
  exact ⟨key, earlier, hkey, hearlier.trans hlog, hrest⟩

theorem Due.keeps {m : Minting} (h : Due t m) (hlog : ∀ e ∈ t.log, e ∈ t'.log)
    (hrequests : ∀ r ∈ t.requests, .request r.id ∈ m.via.rows → r ∈ t'.requests) : Due t' m := by
  unfold Due at h ⊢
  split at h
  · rename_i id hvia
    obtain ⟨row, hrow, rfl, hrest⟩ := h
    exact ⟨row, hrequests row hrow (by rw [hvia]; exact List.mem_singleton_self _), rfl, hrest⟩
  · obtain ⟨key, haccepted, horigin⟩ := h
    exact ⟨key, hlog _ haccepted, horigin⟩
  · exact ⟨hlog _ h.1, h.2⟩

theorem Phase.Good.keeps (h : q.Good v t) (hkeeps : Keeps t t' q) : q.Good v t' := by
  refine ⟨fun via hvia => hkeeps.ticket via hvia (h.ticket via hvia), ?_⟩
  have hknows := h.knows
  cases q with
  | usable | keyLocked | minting => exact hknows.keeps (fun _ he => hkeeps.log.subset he) hkeeps.requests
  | approvingLogin | authenticating | signing => exact hkeeps.log.subset hknows
  | approvingPairing => exact hknows.mono hkeeps.log
  | deviceLocked | deviceEnded =>
    obtain ⟨r, hr, rfl⟩ := hknows
    exact hkeeps.keys r hr
  | _ => trivial

/-! ## Operations -/

/-- nothing but deletions, and what no approval needs -/
structure Quiet (t t' : Tables) : Prop where
  nextId : t'.nextId = t.nextId
  log : t'.log = t.log
  signingKeys : t'.signingKeys = t.signingKeys
  requests : t'.requests.Sublist t.requests
  ceremonies : ∀ c ∈ t'.ceremonies, c ∈ t.ceremonies
  sessions : ∀ s ∈ t'.sessions, s ∈ t.sessions

theorem Quiet.ok (h : Quiet t t') (hok : t.Ok v) : t'.Ok v where
  log := h.log ▸ hok.log
  ids := hok.ids.sublist (h.requests.map _)
  started r hr := by
    rw [h.nextId, h.log]
    exact hok.started r (h.requests.subset hr)
  pending r hr := by
    rw [h.log]
    exact hok.pending r (h.requests.subset hr)
  approved r hr := by
    rw [h.log]
    exact hok.approved r (h.requests.subset hr)
  spentNumbers := by
    rw [h.log, h.nextId]
    exact hok.spentNumbers
  approvedNumbers := by
    rw [h.log, h.nextId]
    exact hok.approvedNumbers
  ceremonies c hc := by
    rw [h.log, h.nextId]
    exact hok.ceremonies c (h.ceremonies c hc)
  sessions s hs := by
    rw [h.log]
    exact hok.sessions s (h.sessions s hs)
  keys := by
    rw [h.log, h.signingKeys]
    exact hok.keys
  revoked := by
    unfold Tables.StayRevoked
    rw [h.log, h.signingKeys]
    exact hok.revoked

theorem Quiet.keeps (h : Quiet t t') (hrequests : ∀ r ∈ t.requests, .request r.id ∈ q.locks.alone → r ∈ t'.requests) :
    Keeps t t' q where
  log := by rw [h.log]
  keys r hr := ⟨r, h.signingKeys ▸ hr, rfl⟩
  ticket via _ hvalid := ⟨h.nextId ▸ hvalid.given, h.log ▸ hvalid.unspent, fun c hc => hvalid.completed c (h.ceremonies c hc)⟩
  requests := hrequests

theorem Quiet.refl (t : Tables) : Quiet t t := ⟨rfl, rfl, rfl, .refl _, fun _ => id, fun _ => id⟩

/-- a call that knows nothing -/
def Phase.Idle (p : Phase) : Prop := p.ticket = none ∧ ∀ v t, p.Knows v t

theorem Phase.Idle.good (h : p.Idle) (v : Verifier) (t : Tables) : p.Good v t := by
  refine ⟨fun via hvia => ?_, h.2 v t⟩
  rw [h.1] at hvia
  cases hvia

variable {others : List Phase} {p' : Phase}

end

end Avalon.Logins
