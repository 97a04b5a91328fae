/-
Safety of social recovery, over every interleaving of the calls of `RecoveryRequests`.

A completed request rests on the approvals of its row. The row lock keeps approvals, cancels and completions of one request
apart, and the partial unique index keeps two active requests of an identity apart. Two checks are not repeated under a lock:
that the approver is a guardian, and that the identity has had fewer than five requests in the last day.

Results:
- `Tables.Keeps`, `Phase.Good.of_keeps`: what the commit of one call leaves of the tables for the others.
- `statement_advances`, `commit_insert`, `commit_put`: what a statement and the commits do.
- `recovery_safe`: in every run in which no guardian write that drops an approver commits between the guardian check and the
  commit of its approval, and no request of an identity is created between the count and the insert of another one, every
  clause holds; completed and cancelled requests stay as they are.
- `removed_guardian_completes`: a request completed by the approval of somebody who was no guardian any more.
- `six_requests_in_a_minute`: six requests of one identity.
-/
import Mathlib.Tactic
import Avalon.Core.Bytes
import Avalon.Core.Fallible
import Avalon.Protocol.Events
import Avalon.Protocol.IdentityId
import Avalon.Server.SignatureGate
import Avalon.Server.Guardians
import Avalon.Server.GuardianRaces
import Avalon.Server.RecoveryRequests

namespace Avalon.Recovery

open Avalon.Events Avalon.Identity Avalon.SignatureGate Avalon.Guardians

/-! ## The condition -/

/-- the approver of a call that has passed its guardian check, with the identity it was checked for -/
def Phase.approver : Phase → Option (IdentityId × IdentityId)
  | approveChecked caller _ identityId => some (caller, identityId)
  | approveWritten caller locked _ _ => some (caller, locked.identityId)
  | _ => none

/-- the identity of a call that is about to insert, with how many requests there were when they were counted -/
def Phase.counted : Phase → Option (IdentityId × ℕ)
  | finishStamped identityId _ _ known => some (identityId, known)
  | _ => none

/-- a guardian write drops nobody whose approval is about to commit, and a request is inserted while there are as many of the
identity as when they were counted -/
def StepMeets (v : Verifier) (s : State) : Op → Prop
  | .guardians owner op => ∀ p ∈ s.calls, ∀ x ∈ p.approver, x.2 = owner → x.1 ∈ (s.settings owner).guardians →
      x.1 ∈ (GuardianRaces.step v owner (s.guardians owner) op).tables.settings.guardians
  | .advance i _ _ => ∀ p ∈ s.calls[i]?, ∀ x ∈ p.counted, x.2 = (s.tables.requestsOf x.1).length
  | _ => True

instance (v : Verifier) (s : State) : (op : Op) → Decidable (StepMeets v s op)
  | .guardians owner op => inferInstanceAs (Decidable (∀ p ∈ s.calls, ∀ x ∈ p.approver, x.2 = owner →
      x.1 ∈ (s.settings owner).guardians →
        x.1 ∈ (GuardianRaces.step v owner (s.guardians owner) op).tables.settings.guardians))
  | .advance i _ _ => inferInstanceAs (Decidable (∀ p ∈ s.calls[i]?, ∀ x ∈ p.counted, x.2 = (s.tables.requestsOf x.1).length))
  | .finish _ => inferInstanceAs (Decidable True)
  | .approve .. => inferInstanceAs (Decidable True)
  | .cancel .. => inferInstanceAs (Decidable True)
  | .finalize _ => inferInstanceAs (Decidable True)
  | .abort _ => inferInstanceAs (Decidable True)

/-- every step of a run meets the condition in the state it finds -/
def Along (delayHours : ℤ) (v : Verifier) : State → List Op → Prop
  | _, [] => True
  | s, op :: ops => StepMeets v s op ∧ Along delayHours v (step delayHours v s op) ops

instance (delayHours : ℤ) (v : Verifier) : (s : State) → (ops : List Op) → Decidable (Along delayHours v s ops)
  | _, [] => inferInstanceAs (Decidable True)
  | s, op :: ops =>
    have := instDecidableAlong delayHours v (step delayHours v s op) ops
    inferInstanceAs (Decidable (StepMeets v s op ∧ Along delayHours v (step delayHours v s op) ops))

/-! ## What a commit leaves -/

/-- the columns of a request that never change -/
def RequestRow.fixed (row : RequestRow) : Uuid × IdentityId × ℤ := (row.id, row.identityId, row.requestedAt)

/-- the requests of an identity whose time passes a test -/
def Tables.timesOf (t : Tables) (identityId : IdentityId) (test : ℤ → Bool) : ℕ :=
  (t.requestsOf identityId).countP fun row => test row.requestedAt

theorem Tables.timesOf_eq (t : Tables) (identityId : IdentityId) (test : ℤ → Bool) :
    t.timesOf identityId test =
      (t.requests.map RequestRow.fixed).countP fun x => test x.2.2 && decide (x.2.1 = identityId) := by
  rw [timesOf, requestsOf, List.countP_filter, List.countP_map]
  rfl

theorem Tables.length_requestsOf (t : Tables) (identityId : IdentityId) :
    (t.requestsOf identityId).length = t.timesOf identityId fun _ => true := by
  rw [timesOf, List.countP_true]

/-- one request has another version, which is active only if the old one was; all the rest stays -/
structure Tables.Keeps (t t' : Tables) (id : Uuid) : Prop where
  fixed : t'.requests.map RequestRow.fixed = t.requests.map RequestRow.fixed
  active : ∀ row' ∈ t'.requests, row'.status.active = true → ∃ row ∈ t.requests, row.status.active = true ∧ row.fixed = row'.fixed
  others : ∀ row ∈ t.requests, row.id ≠ id → row ∈ t'.requests
  approvals : ∀ x, x ≠ id → t'.approvalsOf x = t.approvalsOf x

theorem Tables.Keeps.timesOf {t t' : Tables} {id : Uuid} (h : t.Keeps t' id) (identityId : IdentityId) (test : ℤ → Bool) :
    t'.timesOf identityId test = t.timesOf identityId test := by
  rw [Tables.timesOf_eq, Tables.timesOf_eq, h.fixed]

theorem Tables.Keeps.mem_fixed {t t' : Tables} {id : Uuid} (h : t.Keeps t' id) {row : RequestRow} (hrow : row ∈ t.requests) :
    ∃ row' ∈ t'.requests, row'.fixed = row.fixed := by
  have hmem : row.fixed ∈ t'.requests.map RequestRow.fixed := by
    rw [h.fixed]
    exact List.mem_map_of_mem hrow
  exact List.mem_map.1 hmem

theorem Tables.Keeps.of_fixed {t t' : Tables} {id : Uuid} (h : t.Keeps t' id) {row' : RequestRow}
    (hrow : row' ∈ t'.requests) : ∃ row ∈ t.requests, row.fixed = row'.fixed := by
  have hmem : row'.fixed ∈ t.requests.map RequestRow.fixed := by
    rw [← h.fixed]
    exact List.mem_map_of_mem hrow
  exact List.mem_map.1 hmem

/-- ids are a part of what is fixed -/
theorem ids_eq (t : Tables) : t.requests.map RequestRow.id = (t.requests.map RequestRow.fixed).map Prod.fst := by
  rw [List.map_map]
  rfl

/-- a row of the table, found by its id -/
theorem eq_of_id {t : Tables} (hids : (t.requests.map RequestRow.id).Nodup) {a b : RequestRow} (ha : a ∈ t.requests)
    (hb : b ∈ t.requests) (h : a.id = b.id) : a = b := List.inj_on_of_nodup_map hids ha hb h

theorem mem_of_find {t : Tables} {id : Uuid} {row : RequestRow} (h : t.find id = some row) : row ∈ t.requests ∧ row.id = id :=
  ⟨List.mem_of_find?_eq_some h, of_decide_eq_true (List.find?_some h :)⟩

/-- a new version of an active row keeps all the rest, whatever is appended for the same request -/
theorem keeps_put {t t' : Tables} (hids : (t.requests.map RequestRow.id).Nodup) {locked row : RequestRow}
    (hlocked : locked ∈ t.requests) (hactive : locked.status.active = true) (hfixed : row.fixed = locked.fixed)
    (hrequests : t'.requests = (t.put row).requests)
    (happrovals : ∀ x, x ≠ locked.id → t'.approvalsOf x = t.approvalsOf x) : t.Keeps t' locked.id := by
  have hid : row.id = locked.id := congrArg Prod.fst hfixed
  refine ⟨?_, ?_, ?_, happrovals⟩
  · rw [hrequests, Tables.put, List.map_map]
    apply List.map_congr_left
    intro r hr
    rw [Function.comp_apply]
    split_ifs with heq
    · rw [hfixed, eq_of_id hids hr hlocked (heq.trans hid)]
    · rfl
  · intro row' hrow' hact
    rw [hrequests, Tables.put] at hrow'
    obtain ⟨r, hr, heq⟩ := List.mem_map.1 hrow'
    split_ifs at heq with hrid
    · exact ⟨locked, hlocked, hactive, by rw [← heq, hfixed]⟩
    · exact ⟨r, hr, heq ▸ hact, by rw [heq]⟩
  · intro r hr hne
    rw [hrequests, Tables.put]
    exact List.mem_map.2 ⟨r, hr, if_neg fun heq => hne (heq.trans hid)⟩

/-- what the new version and the untouched rows are -/
theorem mem_put {t : Tables} {row r : RequestRow} (h : r ∈ (t.put row).requests) : r = row ∨ (r ∈ t.requests ∧ r.id ≠ row.id) := by
  obtain ⟨r', hr', heq⟩ := List.mem_map.1 h
  split_ifs at heq with hid
  · exact .inl heq.symm
  · exact .inr ⟨heq ▸ hr', heq ▸ hid⟩

/-! ## Calls and what they rest on -/

/-- what is known of a call -/
def Phase.Good (t : Tables) (settings : IdentityId → Settings) (clock : ℤ) : Phase → Prop
  | finishThreshold _ threshold => 1 ≤ threshold
  | finishCounted identityId threshold readAt known | finishStamped identityId threshold readAt known =>
    1 ≤ threshold ∧ readAt ≤ clock ∧ known ≤ (t.requestsOf identityId).length ∧
      (known = (t.requestsOf identityId).length → t.recentRequestCount identityId readAt < maxRecoveryAttemptsPerWindow)
  | finishInserted row =>
    1 ≤ row.thresholdAtRequest ∧ row.status = .pendingApprovals ∧ row.requestedAt ≤ clock ∧ row.id ∉ t.requests.map RequestRow.id ∧
      (∀ r ∈ t.requests, r.identityId = row.identityId → r.status.active = false) ∧
      t.recentRequestCount row.identityId row.requestedAt < maxRecoveryAttemptsPerWindow
  | approveFetched _ requestId identityId => ∃ row ∈ t.requests, row.id = requestId ∧ row.identityId = identityId
  | approveChecked caller requestId identityId =>
    (∃ row ∈ t.requests, row.id = requestId ∧ row.identityId = identityId) ∧ caller ∈ (settings identityId).guardians
  | approveWritten caller locked _ count =>
    locked ∈ t.requests ∧ locked.status.active = true ∧ count = (t.approvalsOf locked.id).length + 1 ∧
      (∀ a ∈ t.approvalsOf locked.id, a.guardian ≠ caller) ∧ caller ∈ (settings locked.identityId).guardians
  | cancelWritten _ locked _ => locked ∈ t.requests ∧ locked.status.active = true
  | finalizeWritten locked now =>
    locked ∈ t.requests ∧ locked.status = .delay ∧ ∃ endsAt, locked.delayEndsAt = some endsAt ∧ endsAt ≤ now
  | _ => True

section Good

variable {t t' : Tables} {settings settings' : IdentityId → Settings} {clock clock' : ℤ} {p : Phase}

theorem Phase.Good.later (h : p.Good t settings clock) (hclock : clock ≤ clock') : p.Good t settings clock' := by
  cases p with
  | finishCounted _ _ _ _ | finishStamped _ _ _ _ => exact ⟨h.1, h.2.1.trans hclock, h.2.2⟩
  | finishInserted row => exact ⟨h.1, h.2.1, h.2.2.1.trans hclock, h.2.2.2⟩
  | _ => exact h

/-- a call rests on the settings of an identity only as an approver -/
theorem Phase.Good.of_settings (h : p.Good t settings clock)
    (hsettings : ∀ x ∈ p.approver, x.1 ∈ (settings x.2).guardians → x.1 ∈ (settings' x.2).guardians) :
    p.Good t settings' clock := by
  cases p with
  | approveChecked caller requestId identityId => exact ⟨h.1, hsettings (caller, identityId) rfl h.2⟩
  | approveWritten caller locked approvedAt count =>
    obtain ⟨hlocked, hactive, hcount, hnew, hcaller⟩ := h
    exact ⟨hlocked, hactive, hcount, hnew, hsettings (caller, locked.identityId) rfl hcaller⟩
  | _ => exact h

/-- a call that does not hold the row of the request rests on nothing that changes -/
theorem Phase.Good.of_keeps {id : Uuid} (hkeeps : t.Keeps t' id) (hlocks : p.locks ≠ some id) (h : p.Good t settings clock) :
    p.Good t' settings clock := by
  have hlength : ∀ identityId, (t'.requestsOf identityId).length = (t.requestsOf identityId).length := by
    intro identityId
    rw [Tables.length_requestsOf, Tables.length_requestsOf, hkeeps.timesOf]
  have hrecent : ∀ identityId now, t'.recentRequestCount identityId now = t.recentRequestCount identityId now :=
    fun identityId now => hkeeps.timesOf identityId fun time => decide (now - rateLimitWindow ≤ time)
  have hexists : ∀ requestId identityId, (∃ row ∈ t.requests, row.id = requestId ∧ row.identityId = identityId) →
      ∃ row ∈ t'.requests, row.id = requestId ∧ row.identityId = identityId := by
    rintro requestId identityId ⟨row, hrow, rfl, rfl⟩
    obtain ⟨row', hrow', hfixed⟩ := hkeeps.mem_fixed hrow
    exact ⟨row', hrow', congrArg Prod.fst hfixed, congrArg (fun x => x.2.1) hfixed⟩
  cases p with
  | finishCounted identityId threshold readAt known | finishStamped identityId threshold readAt known =>
    obtain ⟨hthreshold, htime, hknown, hcount⟩ := h
    refine ⟨hthreshold, htime, ?_, ?_⟩
    · rw [hlength]
      exact hknown
    · rw [hlength, hrecent]
      exact hcount
  | finishInserted row =>
    obtain ⟨hthreshold, hstatus, htime, hid, hinactive, hcount⟩ := h
    refine ⟨hthreshold, hstatus, htime, ?_, ?_, ?_⟩
    · rw [ids_eq, hkeeps.fixed, ← ids_eq]
      exact hid
    · intro r' hr' hidentity
      by_contra hactive
      obtain ⟨r, hr, hract, hfixed⟩ := hkeeps.active r' hr' (by simpa using hactive)
      have hsame : r.identityId = row.identityId := (congrArg (fun x => x.2.1) hfixed).trans hidentity
      rw [hinactive r hr hsame] at hract
      cases hract
    · rw [hrecent]
      exact hcount
  | approveFetched caller requestId identityId => exact hexists requestId identityId h
  | approveChecked caller requestId identityId => exact ⟨hexists requestId identityId h.1, h.2⟩
  | approveWritten caller locked approvedAt count =>
    obtain ⟨hlocked, hactive, hcount, hnew, hcaller⟩ := h
    have hne : locked.id ≠ id := fun heq => hlocks (congrArg some heq)
    refine ⟨hkeeps.others locked hlocked hne, hactive, ?_, ?_, hcaller⟩
    · rw [hkeeps.approvals _ hne]
      exact hcount
    · rw [hkeeps.approvals _ hne]
      exact hnew
  | cancelWritten caller locked cancelledAt =>
    exact ⟨hkeeps.others locked h.1 fun heq => hlocks (congrArg some heq), h.2⟩
  | finalizeWritten locked now =>
    exact ⟨hkeeps.others locked h.1 fun heq => hlocks (congrArg some heq), h.2⟩
  | _ => exact h

/-- a new request of another identity, under another id, or before a call counts and after it looked for requests -/
theorem Phase.Good.of_insert {row : RequestRow} (ht' : t' = { t with requests := t.requests ++ [row] })
    (hinserted : ∀ r ∈ p.inserted, r.identityId ≠ row.identityId ∧ r.id ≠ row.id) (h : p.Good t settings clock) :
    p.Good t' settings clock := by
  subst ht'
  have hexists : ∀ requestId identityId, (∃ r ∈ t.requests, r.id = requestId ∧ r.identityId = identityId) →
      ∃ r ∈ t.requests ++ [row], r.id = requestId ∧ r.identityId = identityId := by
    rintro requestId identityId ⟨r, hr, heq⟩
    exact ⟨r, List.mem_append_left _ hr, heq⟩
  have hrequestsOf : ∀ identityId, ({ t with requests := t.requests ++ [row] } : Tables).requestsOf identityId =
      t.requestsOf identityId ++ if row.identityId = identityId then [row] else [] := by
    intro identityId
    simp [Tables.requestsOf, List.filter_append, List.filter_cons]
  cases p with
  | finishCounted identityId threshold readAt known | finishStamped identityId threshold readAt known =>
    obtain ⟨hthreshold, htime, hknown, hcount⟩ := h
    have hof := hrequestsOf identityId
    refine ⟨hthreshold, htime, ?_, fun heq => ?_⟩
    · rw [hof, List.length_append]
      omega
    · rw [hof] at heq
      unfold Tables.recentRequestCount
      rw [hof]
      split_ifs at heq ⊢ with hidentity
      · rw [List.length_append, List.length_singleton] at heq
        omega
      · rw [List.append_nil] at heq ⊢
        exact hcount heq
  | finishInserted r =>
    obtain ⟨hthreshold, hstatus, htime, hid, hinactive, hcount⟩ := h
    obtain ⟨hidentity, hne⟩ := hinserted r rfl
    refine ⟨hthreshold, hstatus, htime, ?_, ?_, ?_⟩
    · rw [List.map_append, List.mem_append]
      rintro (hmem | hmem)
      · exact hid hmem
      · exact hne (by simpa using hmem)
    · intro r' hr' hsame
      rcases List.mem_append.1 hr' with hr' | hr'
      · exact hinactive r' hr' hsame
      · rw [List.mem_singleton.1 hr'] at hsame
        exact absurd hsame.symm hidentity
    · unfold Tables.recentRequestCount
      rw [hrequestsOf, if_neg (Ne.symm hidentity), List.append_nil]
      exact hcount
  | approveFetched caller requestId identityId => exact hexists requestId identityId h
  | approveChecked caller requestId identityId => exact ⟨hexists requestId identityId h.1, h.2⟩
  | approveWritten caller locked approvedAt count => exact ⟨List.mem_append_left _ h.1, h.2⟩
  | cancelWritten caller locked cancelledAt => exact ⟨List.mem_append_left _ h.1, h.2⟩
  | finalizeWritten locked now => exact ⟨List.mem_append_left _ h.1, h.2⟩
  | _ => exact h

end Good

/-! ## Rows -/

/-- what the approvals of a request say of its row -/
structure RowOk (delayHours : ℤ) (t : Tables) (row : RequestRow) : Prop where
  threshold : 1 ≤ row.thresholdAtRequest
  distinct : ((t.approvalsOf row.id).map ApprovalRow.guardian).Nodup
  guardians : ∀ a ∈ t.approvalsOf row.id, a.guardian ∈ a.guardiansThen
  pending : row.status = .pendingApprovals → ((t.approvalsOf row.id).length : ℤ) < row.thresholdAtRequest
  delay : row.status = .delay → ∃ a, (t.approvalsOf row.id)[(row.thresholdAtRequest - 1).toNat]? = some a ∧
    row.delayEndsAt = some (a.approvedAt + delayHours * hour)
  completed : row.status = .completed → ∃ a completedAt, (t.approvalsOf row.id)[(row.thresholdAtRequest - 1).toNat]? = some a ∧
    row.completedAt = some completedAt ∧ a.approvedAt + delayHours * hour ≤ completedAt
  cancels : row.id ∈ t.cancels → row.status = .cancelled

/-- the committed tables, at a reading of the clock -/
structure Tables.Ok (delayHours : ℤ) (t : Tables) (clock : ℤ) : Prop where
  ids : (t.requests.map RequestRow.id).Nodup
  rows : ∀ row ∈ t.requests, RowOk delayHours t row
  approvals : ∀ a ∈ t.approvals, a.requestId ∈ t.requests.map RequestRow.id
  cancels : ∀ id ∈ t.cancels, id ∈ t.requests.map RequestRow.id
  times : ∀ row ∈ t.requests, row.requestedAt ≤ clock
  oneActive : ∀ a ∈ t.requests, ∀ b ∈ t.requests, a.identityId = b.identityId → a.status.active = true → b.status.active = true → a.id = b.id
  rolling : ∀ identityId start, t.timesOf identityId (fun time => decide (start ≤ time ∧ time ≤ start + rateLimitWindow)) ≤
    maxRecoveryAttemptsPerWindow

section Ok

variable {delayHours : ℤ} {t t' : Tables} {clock clock' : ℤ}

theorem Tables.Ok.later (h : t.Ok delayHours clock) (hclock : clock ≤ clock') : t.Ok delayHours clock' :=
  { h with times := fun row hrow => (h.times row hrow).trans hclock }

/-- an active request is the only one of its identity -/
theorem Tables.Ok.safe (h : t.Ok delayHours clock) : Safe delayHours t := by
  refine ⟨fun row hrow hstatus => ?_, fun identityId => ?_, fun identityId start => ?_⟩
  · have hok := h.rows row hrow
    obtain ⟨a, completedAt, ha, hcompletedAt, hdelay⟩ := hok.completed hstatus
    refine ⟨⟨(t.approvalsOf row.id).map ApprovalRow.guardian, hok.distinct, ?_, fun g hg => ?_⟩,
      ⟨a, completedAt, ha, hcompletedAt, hdelay⟩, fun hmem => ?_⟩
    · have hlt := (List.getElem?_eq_some_iff.1 ha).1
      have hpos := hok.threshold
      rw [List.length_map]
      omega
    · obtain ⟨a, ha, rfl⟩ := List.mem_map.1 hg
      exact ⟨a, ha, rfl, hok.guardians a ha⟩
    · have hcancelled := hok.cancels hmem
      rw [hstatus] at hcancelled
      cases hcancelled
  · have hnodup : (((t.requestsOf identityId).filter fun row => row.status.active).map RequestRow.id).Nodup :=
      h.ids.sublist (List.Sublist.map _ (List.filter_sublist.trans List.filter_sublist))
    rw [← List.length_map (f := RequestRow.id)]
    by_contra hlong
    obtain ⟨x, y, rest, hlist⟩ : ∃ x y rest, ((t.requestsOf identityId).filter fun row => row.status.active) = x :: y :: rest := by
      match hl : (t.requestsOf identityId).filter fun row => row.status.active with
      | [] => simp [hl] at hlong
      | [x] => simp [hl] at hlong
      | x :: y :: rest => exact ⟨x, y, rest, hl⟩
    have hmem : ∀ z ∈ x :: y :: rest, z ∈ t.requests ∧ z.identityId = identityId ∧ z.status.active = true := by
      intro z hz
      rw [← hlist] at hz
      obtain ⟨hof, hactive⟩ := List.mem_filter.1 hz
      obtain ⟨hrow, hidentity⟩ := List.mem_filter.1 hof
      exact ⟨hrow, of_decide_eq_true hidentity, hactive⟩
    obtain ⟨hx, hxid, hxactive⟩ := hmem x List.mem_cons_self
    obtain ⟨hy, hyid, hyactive⟩ := hmem y (List.mem_cons_of_mem _ List.mem_cons_self)
    rw [hlist, List.map_cons, List.map_cons] at hnodup
    refine (List.nodup_cons.1 hnodup).1 ?_
    rw [h.oneActive x hx y hy (hxid.trans hyid.symm) hxactive hyactive]
    exact List.mem_cons_self
  · rw [← List.countP_eq_length_filter]
    exact h.rolling identityId start

/-- the approvals of another request do not matter -/
theorem RowOk.of_eq {row : RequestRow} (h : RowOk delayHours t row) (happrovals : t'.approvalsOf row.id = t.approvalsOf row.id)
    (hcancels : row.id ∈ t'.cancels → row.id ∈ t.cancels) : RowOk delayHours t' row := by
  refine ⟨h.threshold, ?_, ?_, ?_, ?_, ?_, fun hmem => h.cancels (hcancels hmem)⟩
  all_goals rw [happrovals]
  · exact h.distinct
  · exact h.guardians
  · exact h.pending
  · exact h.delay
  · exact h.completed

/-- **The commit of a transaction that holds a row.** The new version only has to be in order itself -/
theorem commit_put (h : t.Ok delayHours clock) {locked row : RequestRow} (hlocked : locked ∈ t.requests)
    (hactive : locked.status.active = true) (hfixed : row.fixed = locked.fixed)
    (hrequests : t'.requests = (t.put row).requests)
    (happrovals : ∀ x, x ≠ locked.id → t'.approvalsOf x = t.approvalsOf x)
    (hknown : ∀ a ∈ t'.approvals, a ∈ t.approvals ∨ a.requestId = locked.id)
    (hcancels : ∀ id ∈ t'.cancels, id ∈ t.cancels ∨ id = locked.id) (hrow : RowOk delayHours t' row) :
    t'.Ok delayHours clock ∧ t.Keeps t' locked.id := by
  have hkeeps := keeps_put h.ids hlocked hactive hfixed hrequests happrovals
  have hid : row.id = locked.id := congrArg Prod.fst hfixed
  have hids : t'.requests.map RequestRow.id = t.requests.map RequestRow.id := by
    rw [ids_eq, hkeeps.fixed, ← ids_eq]
  have hlockedId : locked.id ∈ t.requests.map RequestRow.id := List.mem_map_of_mem hlocked
  refine ⟨⟨?_, fun r hr => ?_, fun a ha => ?_, fun id hmem => ?_, fun r hr => ?_, ?_, ?_⟩, hkeeps⟩
  · rw [hids]
    exact h.ids
  · rw [hrequests] at hr
    rcases mem_put hr with rfl | ⟨hr, hne⟩
    · exact hrow
    · refine (h.rows r hr).of_eq (happrovals r.id (hid ▸ hne)) fun hmem => ?_
      exact (hcancels r.id hmem).resolve_right (hid ▸ hne)
  · rw [hids]
    rcases hknown a ha with ha | heq
    · exact h.approvals a ha
    · rw [heq]
      exact hlockedId
  · rw [hids]
    rcases hcancels id hmem with hmem | rfl
    · exact h.cancels id hmem
    · exact hlockedId
  · obtain ⟨r', hr', heq⟩ := hkeeps.of_fixed hr
    have htime : r'.requestedAt = r.requestedAt := congrArg (fun x => x.2.2) heq
    exact htime ▸ h.times r' hr'
  · intro a ha b hb hidentity haactive hbactive
    obtain ⟨a', ha', haactive', hafixed⟩ := hkeeps.active a ha haactive
    obtain ⟨b', hb', hbactive', hbfixed⟩ := hkeeps.active b hb hbactive
    have hsame : a'.identityId = b'.identityId :=
      (congrArg (fun x => x.2.1) hafixed).trans (hidentity.trans (congrArg (fun x => x.2.1) hbfixed).symm)
    have hids := h.oneActive a' ha' b' hb' hsame haactive' hbactive'
    exact (congrArg Prod.fst hafixed).symm.trans (hids.trans (congrArg Prod.fst hbfixed))
  · intro identityId start
    rw [hkeeps.timesOf]
    exact h.rolling identityId start

/-- **The commit of a new request.** A rolling window that holds it holds only requests that were counted -/
theorem commit_insert (h : t.Ok delayHours clock) {settings : IdentityId → Settings} {row : RequestRow}
    (hgood : (Phase.finishInserted row).Good t settings clock)
    (ht' : t' = { t with requests := t.requests ++ [row] }) : t'.Ok delayHours clock := by
  subst ht'
  obtain ⟨hthreshold, hstatus, htime, hid, hinactive, hcount⟩ := hgood
  -- no approval and no cancel is of an id that is not in the table
  have hnoApprovals : t.approvalsOf row.id = [] := by
    rw [Tables.approvalsOf, List.filter_eq_nil_iff]
    intro a ha heq
    exact hid (of_decide_eq_true heq ▸ h.approvals a ha)
  have hnew : RowOk delayHours { t with requests := t.requests ++ [row] } row := by
    have happrovals : ({ t with requests := t.requests ++ [row] } : Tables).approvalsOf row.id = [] := hnoApprovals
    refine ⟨hthreshold, ?_, ?_, fun _ => ?_, fun hdelay => ?_, fun hcompleted => ?_, fun hmem => ?_⟩
    · rw [happrovals]
      exact List.nodup_nil
    · rw [happrovals]
      exact fun a ha => by cases ha
    · rw [happrovals, List.length_nil]
      omega
    · rw [hstatus] at hdelay
      cases hdelay
    · rw [hstatus] at hcompleted
      cases hcompleted
    · exact absurd (h.cancels row.id hmem) hid
  refine ⟨?_, fun r hr => ?_, fun a ha => ?_, fun id hmem => ?_, fun r hr => ?_, ?_, ?_⟩
  · rw [List.map_append, List.nodup_append]
    refine ⟨h.ids, by simp, fun x hx y hy heq => ?_⟩
    obtain rfl : y = row.id := by simpa using hy
    exact hid (heq ▸ hx)
  · rcases List.mem_append.1 hr with hr | hr
    · exact (h.rows r hr).of_eq rfl fun hmem => hmem
    · rw [List.mem_singleton.1 hr]
      exact hnew
  · rw [List.map_append]
    exact List.mem_append_left _ (h.approvals a ha)
  · rw [List.map_append]
    exact List.mem_append_left _ (h.cancels id hmem)
  · rcases List.mem_append.1 hr with hr | hr
    · exact h.times r hr
    · rw [List.mem_singleton.1 hr]
      exact htime
  · intro a ha b hb hidentity haactive hbactive
    rcases List.mem_append.1 ha with ha | ha <;> rcases List.mem_append.1 hb with hb | hb
    · exact h.oneActive a ha b hb hidentity haactive hbactive
    · rw [List.mem_singleton.1 hb] at hidentity
      rw [hinactive a ha hidentity] at haactive
      cases haactive
    · rw [List.mem_singleton.1 ha] at hidentity
      rw [hinactive b hb hidentity.symm] at hbactive
      cases hbactive
    · rw [List.mem_singleton.1 ha, List.mem_singleton.1 hb]
  · intro identityId start
    have hsplit : ({ t with requests := t.requests ++ [row] } : Tables).timesOf identityId
        (fun time => decide (start ≤ time ∧ time ≤ start + rateLimitWindow)) =
        t.timesOf identityId (fun time => decide (start ≤ time ∧ time ≤ start + rateLimitWindow)) +
          if row.identityId = identityId ∧ start ≤ row.requestedAt ∧ row.requestedAt ≤ start + rateLimitWindow then 1 else 0 := by
      rw [Tables.timesOf_eq, Tables.timesOf_eq, List.map_append, List.countP_append]
      congr 1
      simp only [List.map_cons, List.map_nil, List.countP_singleton, RequestRow.fixed, Bool.and_eq_true, decide_eq_true_eq]
      exact if_congr (by tauto) rfl rfl
    rw [hsplit]
    split_ifs with hin
    · obtain ⟨rfl, hstart, hend⟩ := hin
      -- what else is in the window was counted when the new one was inserted
      have hle : t.timesOf row.identityId (fun time => decide (start ≤ time ∧ time ≤ start + rateLimitWindow)) ≤
          t.recentRequestCount row.identityId row.requestedAt := by
        apply List.countP_mono_left
        intro r _ hr
        have hr' := of_decide_eq_true hr
        exact decide_eq_true (by omega)
      omega
    · exact h.rolling identityId start

end Ok

/-! ## One statement -/

/-- how a statement changes the tables -/
inductive Outcome (t : Tables) (p : Phase) (t' : Tables) : Prop where
  | reads (h : t' = t)
  | inserts (row : RequestRow) (hp : p = .finishInserted row) (h : t' = { t with requests := t.requests ++ [row] })
  | puts (id : Uuid) (hp : p.locks = some id) (h : t.Keeps t' id)
    (hactive : ∀ row ∈ t.requests, row.id = id → row.status.active = true)

/-- what a statement does, with what the other calls hold -/
structure Advances (delayHours : ℤ) (settings : IdentityId → Settings) (now : ℤ) (others : List Phase) (t : Tables) (p : Phase)
    (t' : Tables) (p' : Phase) : Prop where
  outcome : Outcome t p t'
  ok : t'.Ok delayHours now
  good : p'.Good t' settings now
  locks : ∀ id, p'.locks = some id → heldByOthers others id = false
  inserted : ∀ row, p'.inserted = some row → ∀ q ∈ others, ∀ r ∈ q.inserted, r.identityId ≠ row.identityId ∧ r.id ≠ row.id

section Statement

variable {delayHours : ℤ} {settings : IdentityId → Settings} {now clock : ℤ} {others : List Phase} {t t' : Tables} {p' : Phase}
  {newId : Uuid}

/-- a statement that only reads, after which the call holds nothing -/
theorem Advances.of_reads {p : Phase} (h : t.Ok delayHours now) (hgood : p'.Good t settings now) (hlocks : p'.locks = none)
    (hinserted : p'.inserted = none) : Advances delayHours settings now others t p t p' :=
  ⟨.reads rfl, h, hgood, fun id heq => absurd (hlocks.symm.trans heq) (by simp),
    fun row heq => absurd (hinserted.symm.trans heq) (by simp)⟩

/-- a statement that only reads, and takes the row of a request that nobody else holds -/
theorem Advances.of_lock {p : Phase} {id : Uuid} (h : t.Ok delayHours now) (hgood : p'.Good t settings now)
    (hlocks : p'.locks = some id) (hfree : ¬ heldByOthers others id = true) (hinserted : p'.inserted = none) :
    Advances delayHours settings now others t p t p' := by
  refine ⟨.reads rfl, h, hgood, fun id' heq => ?_, fun row heq => absurd (hinserted.symm.trans heq) (by simp)⟩
  rw [hlocks] at heq
  cases heq
  simpa using hfree

/-- the commit of a change to a request whose row the call holds -/
theorem Advances.of_put {p : Phase} {locked row : RequestRow} (h : t.Ok delayHours now) (hp : p.locks = some locked.id)
    (hlocked : locked ∈ t.requests) (hactive : locked.status.active = true) (hfixed : row.fixed = locked.fixed)
    (hrequests : t'.requests = (t.put row).requests)
    (happrovals : ∀ x, x ≠ locked.id → t'.approvalsOf x = t.approvalsOf x)
    (hknown : ∀ a ∈ t'.approvals, a ∈ t.approvals ∨ a.requestId = locked.id)
    (hcancels : ∀ id ∈ t'.cancels, id ∈ t.cancels ∨ id = locked.id) (hrow : RowOk delayHours t' row) :
    Advances delayHours settings now others t p t' (.ended (.ok ())) := by
  obtain ⟨hok, hkeeps⟩ := commit_put h hlocked hactive hfixed hrequests happrovals hknown hcancels hrow
  refine ⟨.puts locked.id hp hkeeps fun r hr hid => ?_, hok, trivial, fun _ heq => (by cases heq), fun _ heq => by cases heq⟩
  rw [eq_of_id h.ids hr hlocked hid]
  exact hactive

theorem approvedRow_fixed (locked : RequestRow) (count : ℕ) (approvedAt : ℤ) :
    (approvedRow delayHours locked count approvedAt).fixed = locked.fixed := by
  unfold approvedRow
  split_ifs <;> rfl

/-- **An approval commits**: one more distinct guardian, and the one that meets the threshold sets the delay -/
theorem advances_approve (h : t.Ok delayHours now) {caller : IdentityId} {locked : RequestRow} {approvedAt : ℤ} {count : ℕ}
    (hgood : (Phase.approveWritten caller locked approvedAt count).Good t settings clock)
    (hs : statement delayHours t settings others now newId (.approveWritten caller locked approvedAt count) = some (t', p')) :
    Advances delayHours settings now others t (.approveWritten caller locked approvedAt count) t' p' := by
  obtain ⟨hlocked, hactive, hcount, hnew, hcaller⟩ := hgood
  cases hs
  set approval : ApprovalRow := ⟨locked.id, caller, approvedAt, (settings locked.identityId).guardians⟩
  set t' : Tables := { t.put (approvedRow delayHours locked count approvedAt) with approvals := t.approvals ++ [approval] }
  have hold := h.rows locked hlocked
  have hothers : ∀ x, x ≠ locked.id → t'.approvalsOf x = t.approvalsOf x := by
    intro x hx
    simp [Tables.approvalsOf, t', List.filter_append, approval, Ne.symm hx]
  have hof : t'.approvalsOf locked.id = t.approvalsOf locked.id ++ [approval] := by
    simp [Tables.approvalsOf, t', List.filter_append, approval]
  have hid : (approvedRow delayHours locked count approvedAt).id = locked.id :=
    congrArg Prod.fst (approvedRow_fixed locked count approvedAt)
  refine Advances.of_put h rfl hlocked hactive (approvedRow_fixed locked count approvedAt) rfl hothers (fun a ha => ?_)
    (fun id hmem => .inl hmem) ?_
  · rcases List.mem_append.1 ha with ha | ha
    · exact .inl ha
    · exact .inr (List.mem_singleton.1 ha ▸ rfl)
  have hdistinct : ((t'.approvalsOf locked.id).map ApprovalRow.guardian).Nodup := by
    rw [hof, List.map_append, List.nodup_append]
    refine ⟨hold.distinct, by simp, fun x hx y hy heq => ?_⟩
    obtain ⟨a, ha, rfl⟩ := List.mem_map.1 hx
    obtain rfl : y = caller := by simpa [approval] using hy
    exact hnew a ha heq
  have hguardians : ∀ a ∈ t'.approvalsOf locked.id, a.guardian ∈ a.guardiansThen := by
    rw [hof]
    intro a ha
    rcases List.mem_append.1 ha with ha | ha
    · exact hold.guardians a ha
    · rw [List.mem_singleton.1 ha]
      exact hcaller
  have hlength : (t'.approvalsOf locked.id).length = count := by
    rw [hof, List.length_append, List.length_singleton, hcount]
  have hcancelled : locked.id ∉ t.cancels := by
    intro hmem
    rw [hold.cancels hmem] at hactive
    cases hactive
  unfold approvedRow
  split_ifs with hmeets
  · obtain ⟨hpending, hmeets⟩ := hmeets
    have hmeets := of_decide_eq_true hmeets
    have hbefore := hold.pending hpending
    refine ⟨hold.threshold, hdistinct, hguardians, fun heq => (by cases heq), fun _ => ⟨approval, ?_, rfl⟩, fun heq => (by cases heq),
      fun hmem => absurd hmem hcancelled⟩
    -- the new approval is the one at the threshold
    have hindex : (locked.thresholdAtRequest - 1).toNat = (t.approvalsOf locked.id).length := by omega
    dsimp only
    rw [hof, hindex, List.getElem?_concat_length]
  · refine ⟨hold.threshold, hdistinct, hguardians, fun hpending => ?_, fun hdelay => ?_, fun hcompleted => ?_,
      fun hmem => absurd hmem hcancelled⟩
    · have hfew : meetsThreshold count locked.thresholdAtRequest = false := by simpa [hpending] using hmeets
      have hfew := of_decide_eq_false hfew
      omega
    · obtain ⟨a, ha, hends⟩ := hold.delay hdelay
      refine ⟨a, ?_, hends⟩
      rw [hof, List.getElem?_append_left (List.getElem?_eq_some_iff.1 ha).1]
      exact ha
    · rw [hcompleted] at hactive
      cases hactive

theorem advances_cancel (h : t.Ok delayHours now) {caller : IdentityId} {locked : RequestRow} {cancelledAt : ℤ}
    (hgood : (Phase.cancelWritten caller locked cancelledAt).Good t settings clock)
    (hs : statement delayHours t settings others now newId (.cancelWritten caller locked cancelledAt) = some (t', p')) :
    Advances delayHours settings now others t (.cancelWritten caller locked cancelledAt) t' p' := by
  obtain ⟨hlocked, hactive⟩ := hgood
  cases hs
  have hold := h.rows locked hlocked
  have hfixed : (cancelledRow locked caller cancelledAt).fixed = locked.fixed := rfl
  refine Advances.of_put h rfl hlocked hactive hfixed rfl (fun _ _ => rfl) (fun a ha => .inl ha) (fun id hmem => ?_)
    ⟨hold.threshold, hold.distinct, hold.guardians, fun heq => (by cases heq), fun heq => (by cases heq), fun heq => (by cases heq),
      fun _ => rfl⟩
  rcases List.mem_append.1 hmem with hmem | hmem
  · exact .inl hmem
  · exact .inr (List.mem_singleton.1 hmem)

theorem advances_finalize (h : t.Ok delayHours now) {locked : RequestRow} {readAt : ℤ}
    (hgood : (Phase.finalizeWritten locked readAt).Good t settings clock)
    (hs : statement delayHours t settings others now newId (.finalizeWritten locked readAt) = some (t', p')) :
    Advances delayHours settings now others t (.finalizeWritten locked readAt) t' p' := by
  obtain ⟨hlocked, hdelay, endsAt, hends, hle⟩ := hgood
  cases hs
  have hold := h.rows locked hlocked
  have hactive : locked.status.active = true := by rw [hdelay]; rfl
  have hfixed : (completedRow locked readAt).fixed = locked.fixed := rfl
  refine Advances.of_put h rfl hlocked hactive hfixed rfl (fun _ _ => rfl) (fun a ha => .inl ha) (fun id hmem => .inl hmem)
    ⟨hold.threshold, hold.distinct, hold.guardians, fun heq => (by cases heq), fun heq => (by cases heq), fun _ => ?_,
      fun hmem => ?_⟩
  · obtain ⟨a, ha, hset⟩ := hold.delay hdelay
    rw [hends] at hset
    exact ⟨a, readAt, ha, rfl, (Option.some.inj hset) ▸ hle⟩
  · have hcancelled := hold.cancels hmem
    rw [hdelay] at hcancelled
    cases hcancelled

theorem guardCanFinalize_eq_ok {status : Status} {delayEndsAt : Option ℤ} {u : Unit}
    (h : guardCanFinalize status delayEndsAt now = .ok u) :
    status = .delay ∧ ∃ endsAt, delayEndsAt = some endsAt ∧ endsAt ≤ now := by
  unfold guardCanFinalize at h
  split at h
  · cases h
  · split at h
    · cases h
    · rename_i hdelay
      split at h
      · split at h
        · rename_i endsAt hle
          exact ⟨not_not.1 hdelay, endsAt, rfl, hle⟩
        · cases h
      · cases h

/-- the statements of `finish_request` -/
theorem advances_finish (h : t.Ok delayHours now) (hclock : clock ≤ now) {p : Phase} {identityId : IdentityId}
    (threshold readAt : ℤ) (known : ℕ)
    (hp : p = .finishStart identityId ∨ p = .finishThreshold identityId threshold ∨
      p = .finishCounted identityId threshold readAt known ∨ p = .finishStamped identityId threshold readAt known) (hgood : p.Good t settings clock)
    (hcounted : ∀ x ∈ p.counted, x.2 = (t.requestsOf x.1).length)
    (hs : statement delayHours t settings others now newId p = some (t', p')) :
    Advances delayHours settings now others t p t' p' := by
  rcases hp with rfl | rfl | rfl | rfl
  · rw [statement] at hs
    split at hs
    · cases hs
      exact .of_reads h trivial rfl rfl
    · split at hs
      · cases hs
        exact .of_reads h trivial rfl rfl
      · rename_i hthreshold
        cases hs
        exact .of_reads h (not_lt.1 hthreshold) rfl rfl
  · rw [statement] at hs
    split at hs
    · cases hs
      exact .of_reads h trivial rfl rfl
    · rename_i hlimit
      cases hs
      refine .of_reads h ⟨hgood, le_rfl, le_rfl, fun _ => ?_⟩ rfl rfl
      unfold guardRateLimit at hlimit
      split_ifs at hlimit with hfull
      exact not_le.1 hfull
  · obtain ⟨hthreshold, htime, hknown, hcount⟩ := hgood
    cases hs
    refine .of_reads h ⟨hthreshold, le_rfl, hknown, fun heq => lt_of_le_of_lt ?_ (hcount heq)⟩ rfl rfl
    -- a later window holds no more
    apply List.countP_mono_left
    intro r _ hr
    have hr' := of_decide_eq_true hr
    exact decide_eq_true (by omega)
  · obtain ⟨hthreshold, htime, -, hcount⟩ := hgood
    have hcount := hcount (hcounted _ rfl)
    rw [statement] at hs
    split at hs
    · cases hs
    · rename_i hnone
      split at hs
      · split at hs
        · cases hs
        · cases hs
          exact .of_reads h trivial rfl rfl
      · rename_i hactive
        split at hs
        · cases hs
          exact .of_reads h trivial rfl rfl
        · rename_i hid
          cases hs
          refine ⟨.reads rfl, h, ⟨hthreshold, rfl, htime.trans hclock, ?_, ?_, hcount⟩, fun _ heq => (by cases heq), ?_⟩
          · intro hmem
            obtain ⟨r, hr, hrid⟩ := List.mem_map.1 hmem
            refine hid (List.find?_isSome.2 ⟨r, hr, decide_eq_true hrid⟩)
          · intro r hr hidentity
            by_contra hract
            have := List.find?_eq_none.1 hactive r hr
            simp [hidentity] at this
            exact hract (by simpa using this)
          · intro row hrow q hq r hr
            obtain rfl := Option.some.inj hrow
            have hother : ¬ (r.identityId = identityId ∨ r.id = newId) := by
              intro hsame
              refine hnone (List.any_eq_true.2 ⟨q, hq, ?_⟩)
              rw [Option.any_eq_true]
              exact ⟨r, hr, decide_eq_true hsame⟩
            exact not_or.1 hother

/-- **One statement** keeps the tables in order, if a request is inserted while there are as many as were counted -/
theorem statement_advances (h : t.Ok delayHours now) (hclock : clock ≤ now) {p : Phase} (hgood : p.Good t settings clock)
    (hcounted : ∀ x ∈ p.counted, x.2 = (t.requestsOf x.1).length)
    (hs : statement delayHours t settings others now newId p = some (t', p')) :
    Advances delayHours settings now others t p t' p' := by
  cases p with
  | finishStart identityId => exact advances_finish h hclock 0 0 0 (.inl rfl) hgood hcounted hs
  | finishThreshold identityId threshold => exact advances_finish h hclock threshold 0 0 (.inr (.inl rfl)) hgood hcounted hs
  | finishCounted identityId threshold readAt known =>
    exact advances_finish h hclock threshold readAt known (.inr (.inr (.inl rfl))) hgood hcounted hs
  | finishStamped identityId threshold readAt known =>
    exact advances_finish h hclock threshold readAt known (.inr (.inr (.inr rfl))) hgood hcounted hs
  | finishInserted row =>
    cases hs
    exact ⟨.inserts row rfl rfl, commit_insert h (hgood.later hclock) rfl, trivial, fun _ heq => (by cases heq),
      fun _ heq => by cases heq⟩
  | approveStart caller requestId =>
    rw [statement] at hs
    split at hs
    · cases hs
      exact .of_reads h trivial rfl rfl
    · rename_i row hrow
      split at hs
      · cases hs
        exact .of_reads h ⟨row, (mem_of_find hrow).1, (mem_of_find hrow).2, rfl⟩ rfl rfl
      · cases hs
        exact .of_reads h trivial rfl rfl
  | approveFetched caller requestId identityId =>
    rw [statement] at hs
    split at hs
    · rename_i hcaller
      cases hs
      exact .of_reads h ⟨hgood, hcaller⟩ rfl rfl
    · cases hs
      exact .of_reads h trivial rfl rfl
  | approveChecked caller requestId identityId =>
    rw [statement] at hs
    split at hs
    · cases hs
    · rename_i hfree
      split at hs
      · cases hs
        exact .of_reads h trivial rfl rfl
      · rename_i locked hfind
        obtain ⟨hlocked, rfl⟩ := mem_of_find hfind
        split at hs
        · cases hs
          exact .of_reads h trivial rfl rfl
        · rename_i hactive
          split at hs
          · cases hs
            exact .of_reads h trivial rfl rfl
          · rename_i hnew
            cases hs
            obtain ⟨⟨row, hrow, hid, rfl⟩, hcaller⟩ := hgood
            obtain rfl := eq_of_id h.ids hrow hlocked hid
            refine .of_lock h ⟨hlocked, by simpa using hactive, rfl, fun a ha heq => hnew ?_, hcaller⟩ rfl hfree rfl
            exact List.any_eq_true.2 ⟨a, ha, decide_eq_true heq⟩
  | approveWritten caller locked approvedAt count => exact advances_approve h hgood hs
  | cancelStart caller requestId =>
    rw [statement] at hs
    split at hs
    · cases hs
      exact .of_reads h trivial rfl rfl
    · split at hs
      · cases hs
        exact .of_reads h trivial rfl rfl
      · cases hs
        exact .of_reads h trivial rfl rfl
  | cancelFetched caller requestId identityId =>
    rw [statement] at hs
    split at hs
    · cases hs
      exact .of_reads h trivial rfl rfl
    · cases hs
      exact .of_reads h trivial rfl rfl
  | cancelChecked caller requestId =>
    cases hs
    exact .of_reads h trivial rfl rfl
  | cancelUpdating caller requestId cancelledAt =>
    rw [statement] at hs
    split at hs
    · cases hs
    · rename_i hfree
      split at hs
      · cases hs
        exact .of_reads h trivial rfl rfl
      · rename_i locked hfind
        obtain ⟨hfind, hactive⟩ := Option.filter_eq_some_iff.1 hfind
        obtain ⟨hlocked, rfl⟩ := mem_of_find hfind
        cases hs
        exact .of_lock h ⟨hlocked, hactive⟩ rfl hfree rfl
  | cancelWritten caller locked cancelledAt => exact advances_cancel h hgood hs
  | finalizeStart requestId =>
    rw [statement] at hs
    split at hs
    · cases hs
      exact .of_reads h trivial rfl rfl
    · split at hs
      · cases hs
        exact .of_reads h trivial rfl rfl
      · split at hs
        · cases hs
          exact .of_reads h trivial rfl rfl
        · cases hs
          exact .of_reads h trivial rfl rfl
  | finalizeFetched requestId readAt =>
    rw [statement] at hs
    split at hs
    · cases hs
    · rename_i hfree
      split at hs
      · cases hs
        exact .of_reads h trivial rfl rfl
      · rename_i locked hfind
        obtain ⟨hlocked, rfl⟩ := mem_of_find hfind
        split at hs
        · cases hs
          exact .of_reads h trivial rfl rfl
        · rename_i hguard
          cases hs
          exact .of_lock h ⟨hlocked, guardCanFinalize_eq_ok hguard⟩ rfl hfree rfl
  | finalizeWritten locked readAt => exact advances_finalize h hgood hs
  | ended result => cases hs

end Statement

/-! ## Runs -/

/-- the tables are in order, each call rests on what it should, and no two calls hold the same row or the same place in the
unique index -/
structure Inv (delayHours : ℤ) (s : State) : Prop where
  tables : s.tables.Ok delayHours s.clock
  good : ∀ p ∈ s.calls, p.Good s.tables s.settings s.clock
  locks : ∀ (i j : ℕ) (p q : Phase) (id : Uuid), s.calls[i]? = some p → s.calls[j]? = some q → p.locks = some id →
    q.locks = some id → i = j
  inserted : ∀ (i j : ℕ) (p q : Phase) (r r' : RequestRow), s.calls[i]? = some p → s.calls[j]? = some q →
    p.inserted = some r → q.inserted = some r' → (r.identityId = r'.identityId ∨ r.id = r'.id) → i = j

section Runs

variable {delayHours : ℤ} {v : Verifier} {s : State}

theorem inv_init : Inv delayHours .init := by
  refine ⟨⟨?_, ?_, ?_, ?_, ?_, ?_, fun identityId start => ?_⟩, ?_, ?_, ?_⟩
  · exact List.nodup_nil
  all_goals simp [State.init, Tables.timesOf, Tables.requestsOf]

/-- where a call of the new list comes from -/
theorem getElem?_set_cases {calls : List Phase} {i j : ℕ} {p p' q : Phase} (hp : calls[i]? = some p)
    (hj : (calls.set i p')[j]? = some q) : (j = i ∧ q = p') ∨ (j ≠ i ∧ calls[j]? = some q) := by
  by_cases hji : j = i
  · subst hji
    rw [List.getElem?_set_self (List.getElem?_eq_some_iff.1 hp).1] at hj
    exact .inl ⟨rfl, (Option.some.inj hj).symm⟩
  · rw [List.getElem?_set_ne (Ne.symm hji)] at hj
    exact .inr ⟨hji, hj⟩

/-- a new call holds nothing -/
theorem Inv.concat (h : Inv delayHours s) {p : Phase} (hgood : p.Good s.tables s.settings s.clock) (hlocks : p.locks = none)
    (hinserted : p.inserted = none) : Inv delayHours { s with calls := s.calls ++ [p] } := by
  have hbefore : ∀ (k : ℕ) (q : Phase), (s.calls ++ [p])[k]? = some q → s.calls[k]? = some q ∨ q = p := by
    intro k q hk
    rcases lt_or_ge k s.calls.length with hlt | hge
    · rw [List.getElem?_append_left hlt] at hk
      exact .inl hk
    · rw [List.getElem?_append_right hge] at hk
      exact .inr (List.mem_singleton.1 (List.mem_of_getElem? hk))
  refine ⟨h.tables, fun q hq => ?_, fun i j a b id hi hj ha hb => ?_, fun i j a b r r' hi hj ha hb => ?_⟩
  · rcases List.mem_append.1 hq with hq | hq
    · exact h.good q hq
    · exact List.mem_singleton.1 hq ▸ hgood
  · rcases hbefore i a hi with hi | rfl
    · rcases hbefore j b hj with hj | rfl
      · exact h.locks i j a b id hi hj ha hb
      · exact absurd (hlocks.symm.trans hb) (by simp)
    · exact absurd (hlocks.symm.trans ha) (by simp)
  · rcases hbefore i a hi with hi | rfl
    · rcases hbefore j b hj with hj | rfl
      · exact h.inserted i j a b r r' hi hj ha hb
      · exact absurd (hinserted.symm.trans hb) (by simp)
    · exact absurd (hinserted.symm.trans ha) (by simp)

/-- one call moves on -/
theorem Inv.move (h : Inv delayHours s) {i : ℕ} {p p' : Phase} {t' : Tables} {now : ℤ} (hclock : s.clock ≤ now)
    (hp : s.calls[i]? = some p) (hadv : Advances delayHours s.settings now (s.calls.eraseIdx i) s.tables p t' p') :
    Inv delayHours { s with tables := t', calls := s.calls.set i p', clock := now } := by
  have hother : ∀ (j : ℕ) (q : Phase), j ≠ i → s.calls[j]? = some q → q ∈ s.calls.eraseIdx i :=
    fun j q hji hj => List.mem_eraseIdx_iff_getElem?.2 ⟨j, hji, hj⟩
  -- what the others hold
  have hfree : ∀ (j : ℕ) (q : Phase) (id : Uuid), j ≠ i → s.calls[j]? = some q → p'.locks = some id → q.locks ≠ some id := by
    intro j q id hji hj hp' hq
    have hnone := hadv.locks id hp'
    rw [heldByOthers, List.any_eq_false] at hnone
    exact hnone q (hother j q hji hj) (decide_eq_true hq)
  refine ⟨hadv.ok, fun q hq => ?_, fun j k a b id hj hk ha hb => ?_, fun j k a b r r' hj hk ha hb hsame => ?_⟩
  · obtain ⟨j, hj⟩ := List.getElem?_of_mem hq
    rcases getElem?_set_cases hp hj with ⟨-, rfl⟩ | ⟨hji, hj⟩
    · exact hadv.good
    · have hold := (h.good q (List.mem_of_getElem? hj)).later hclock
      rcases hadv.outcome with hreads | ⟨row, hrow, hinserts⟩ | ⟨id, hid, hkeeps, -⟩
      · rw [hreads]
        exact hold
      · refine hold.of_insert hinserts fun r hr => ?_
        subst hrow
        refine not_or.1 fun hsame => hji (h.inserted j i q _ r row hj hp hr rfl hsame)
      · exact hold.of_keeps hkeeps fun hq => hji (h.locks j i q p id hj hp hq hid)
  · rcases getElem?_set_cases hp hj with ⟨hji, rfl⟩ | ⟨hji, hj'⟩ <;>
      rcases getElem?_set_cases hp hk with ⟨hki, rfl⟩ | ⟨hki, hk'⟩
    · rw [hji, hki]
    · exact absurd hb (hfree k b id hki hk' ha)
    · exact absurd ha (hfree j a id hji hj' hb)
    · exact h.locks j k a b id hj' hk' ha hb
  · rcases getElem?_set_cases hp hj with ⟨hji, rfl⟩ | ⟨hji, hj'⟩ <;>
      rcases getElem?_set_cases hp hk with ⟨hki, rfl⟩ | ⟨hki, hk'⟩
    · rw [hji, hki]
    · obtain ⟨hidentity, hid⟩ := hadv.inserted r ha b (hother k b hki hk') r' hb
      exact absurd (hsame.imp Eq.symm Eq.symm) (not_or.2 ⟨hidentity, hid⟩)
    · exact absurd hsame (not_or.2 (hadv.inserted r' hb a (hother j a hji hj') r ha))
    · exact h.inserted j k a b r r' hj' hk' ha hb hsame

/-- the rows of resolved requests stay -/
theorem Outcome.stays {t t' : Tables} {p : Phase} (h : Outcome t p t') {row : RequestRow} (hrow : row ∈ t.requests)
    (hresolved : row.status.active = false) : row ∈ t'.requests := by
  rcases h with rfl | ⟨r, -, rfl⟩ | ⟨id, -, hkeeps, hactive⟩
  · exact hrow
  · exact List.mem_append_left _ hrow
  · refine hkeeps.others row hrow fun hid => ?_
    rw [hactive row hrow hid] at hresolved
    cases hresolved

/-- one step: the invariant, and the rows of resolved requests -/
theorem inv_step (h : Inv delayHours s) {op : Op} (hmeets : StepMeets v s op) :
    Inv delayHours (step delayHours v s op) ∧ ∀ row ∈ s.tables.requests, row.status.active = false →
      row ∈ (step delayHours v s op).tables.requests := by
  cases op with
  | guardians owner op =>
    refine ⟨⟨h.tables, fun p hp => (h.good p hp).of_settings fun x hx hmem => ?_, h.locks, h.inserted⟩, fun row hrow _ => hrow⟩
    by_cases howner : x.2 = owner
    · have hkept := hmeets p hp x hx howner (howner ▸ hmem)
      simpa [State.settings, step, howner] using hkept
    · simpa [State.settings, step, Function.update_of_ne howner] using hmem
  | finish identityId => exact ⟨h.concat trivial rfl rfl, fun row hrow _ => hrow⟩
  | approve caller requestId => exact ⟨h.concat trivial rfl rfl, fun row hrow _ => hrow⟩
  | cancel caller requestId => exact ⟨h.concat trivial rfl rfl, fun row hrow _ => hrow⟩
  | finalize requestId => exact ⟨h.concat trivial rfl rfl, fun row hrow _ => hrow⟩
  | advance i now newId =>
    rw [step]
    split
    · exact ⟨h, fun row hrow _ => hrow⟩
    · rename_i hclock
      split
      · exact ⟨h, fun row hrow _ => hrow⟩
      · rename_i p hp
        split
        · exact ⟨h, fun row hrow _ => hrow⟩
        · rename_i t' p' hs
          have hle := not_lt.1 hclock
          have hadv := statement_advances (h.tables.later hle) hle (h.good p (List.mem_of_getElem? hp)) (hmeets p hp) hs
          exact ⟨h.move hle hp hadv, fun row hrow hresolved => hadv.outcome.stays hrow hresolved⟩
  | abort i =>
    rw [step]
    split
    · exact ⟨h, fun row hrow _ => hrow⟩
    · exact ⟨h, fun row hrow _ => hrow⟩
    · rename_i p hended hp
      exact ⟨h.move le_rfl hp (.of_reads h.tables trivial rfl rfl), fun row hrow _ => hrow⟩

theorem inv_run (h : Inv delayHours s) (ops : List Op) (hops : Along delayHours v s ops) :
    Inv delayHours (run delayHours v s ops) ∧ ∀ row ∈ s.tables.requests, row.status.active = false →
      row ∈ (run delayHours v s ops).tables.requests := by
  induction ops generalizing s with
  | nil => exact ⟨h, fun row hrow _ => hrow⟩
  | cons op ops ih =>
    obtain ⟨h', hstays⟩ := inv_step h hops.1
    obtain ⟨hrun, hstays'⟩ := ih h' hops.2
    exact ⟨hrun, fun row hrow hresolved => hstays' row (hstays row hrow hresolved) hresolved⟩

theorem along_append {ops more : List Op} (h : Along delayHours v s (ops ++ more)) :
    Along delayHours v s ops ∧ Along delayHours v (run delayHours v s ops) more := by
  induction ops generalizing s with
  | nil => exact ⟨trivial, h⟩
  | cons op ops ih => exact ⟨⟨h.1, (ih h.2).1⟩, (ih h.2).2⟩

end Runs

/-- **Social recovery is safe.** For every delay that is configured and every run of any calls in any interleaving, in which
no guardian write that drops an approver commits between the guardian check and the commit of the approval, and a request is
inserted only while there are as many of the identity as when they were counted: a completed request was approved by enough
distinct guardians, its delay had passed, and it was not cancelled; no identity has two active requests, or more than five
requests in a rolling window; and in all that follows, completed and cancelled requests stay as they are. -/
theorem recovery_safe (delayEnv : Option ℤ) (v : Verifier) (ops more : List Op)
    (hops : Along (recoveryDelayHours delayEnv) v .init (ops ++ more)) :
    Safe (recoveryDelayHours delayEnv) (run (recoveryDelayHours delayEnv) v .init ops).tables ∧
      ∀ row ∈ (run (recoveryDelayHours delayEnv) v .init ops).tables.requests,
        row.status = .completed ∨ row.status = .cancelled →
          row ∈ (run (recoveryDelayHours delayEnv) v .init (ops ++ more)).tables.requests := by
  obtain ⟨hfirst, hmore⟩ := along_append hops
  obtain ⟨hinv, -⟩ := inv_run inv_init ops hfirst
  obtain ⟨-, hstays⟩ := inv_run hinv more hmore
  refine ⟨hinv.tables.safe, fun row hrow hstatus => ?_⟩
  have hrun : run (recoveryDelayHours delayEnv) v .init (ops ++ more) =
      run (recoveryDelayHours delayEnv) v (run (recoveryDelayHours delayEnv) v .init ops) more := List.foldl_append
  rw [hrun]
  refine hstays row hrow ?_
  rcases hstatus with hstatus | hstatus
  all_goals
    rw [hstatus]
    rfl

/-! ## Two races -/

/-- the settings of `owner1`: two guardians, one approval is enough -/
def configure : List Op :=
  (GuardianRaces.setOne :: GuardianRaces.advances 0 7 ++ GuardianRaces.addGuardian guardian2 :: GuardianRaces.advances 1 9).map
    (.guardians owner1)

/-- `n` statements of call `i` at a time in seconds -/
def advances (i n : ℕ) (seconds : ℤ) (id : UInt8) : List Op :=
  List.replicate n (.advance i (seconds * 1000000) (.replicate 16 id))

/-- a request, approved by a guardian and completed two days later, and a cancel that comes too late -/
theorem recovery_safe_completed :
    let ops := configure ++ .finish owner1 :: advances 0 5 1790000000 1 ++ .approve guardian1 (.replicate 16 1) ::
      advances 1 4 1790000060 0 ++ .finalize (.replicate 16 1) :: advances 2 3 1790172860 0
    let more := .cancel guardian2 (.replicate 16 1) :: advances 3 5 1790172900 0
    (run (recoveryDelayHours none) GuardianRaces.raceVerifier .init (ops ++ more)).tables.requests.map RequestRow.status =
        [.completed] ∧
      Safe (recoveryDelayHours none) (run (recoveryDelayHours none) GuardianRaces.raceVerifier .init ops).tables := by
  intro ops more
  have heval : (run (recoveryDelayHours none) GuardianRaces.raceVerifier .init (ops ++ more)).tables.requests.map
      RequestRow.status = [.completed] ∧ Along (recoveryDelayHours none) GuardianRaces.raceVerifier .init (ops ++ more) := by
    decide +kernel
  exact ⟨heval.1, (recovery_safe none GuardianRaces.raceVerifier ops more heval.2).1⟩

/-- the approver passes the guardian check and resigns before the approval commits -/
def removalRace : List Op :=
  configure ++ .finish owner1 :: advances 0 5 1790000000 1 ++ .approve guardian1 (.replicate 16 1) ::
    advances 1 2 1790000060 0 ++ (.resign guardian1 :: GuardianRaces.advances 2 5).map (.guardians owner1) ++
    advances 1 2 1790000061 0 ++ .finalize (.replicate 16 1) :: advances 2 3 1790172861 0

/-- **A guardian removed in between.** The request is completed, and no approval of it is one of a guardian -/
theorem removed_guardian_completes :
    ¬ ∀ (delayEnv : Option ℤ) (v : Verifier) (ops more : List Op),
      Safe (recoveryDelayHours delayEnv) (run (recoveryDelayHours delayEnv) v .init ops).tables ∧
        ∀ row ∈ (run (recoveryDelayHours delayEnv) v .init ops).tables.requests,
          row.status = .completed ∨ row.status = .cancelled →
            row ∈ (run (recoveryDelayHours delayEnv) v .init (ops ++ more)).tables.requests := by
  intro h
  have hsafe := (h none GuardianRaces.raceVerifier removalRace []).1
  have heval : (∃ row ∈ (run (recoveryDelayHours none) GuardianRaces.raceVerifier .init removalRace).tables.requests,
      row.status = .completed ∧ 1 ≤ row.thresholdAtRequest) ∧
      ∀ a ∈ (run (recoveryDelayHours none) GuardianRaces.raceVerifier .init removalRace).tables.approvals,
        a.guardian ∉ a.guardiansThen := by
    decide +kernel
  generalize (run (recoveryDelayHours none) GuardianRaces.raceVerifier .init removalRace).tables = t at hsafe heval
  obtain ⟨⟨row, hrow, hstatus, hthreshold⟩, hnone⟩ := heval
  obtain ⟨approvers, -, hlength, happroved⟩ := (hsafe.completed row hrow hstatus).approvers
  obtain ⟨g, hg⟩ := List.exists_mem_of_length_pos (l := approvers) (by omega)
  obtain ⟨a, ha, rfl, hthen⟩ := happroved g hg
  exact hnone a (List.mem_of_mem_filter ha) hthen

/-- a request of `owner1` that the owner cancels, as calls `i` and `i + 1` -/
def cancelledAttempt (i : ℕ) (seconds : ℤ) (id : UInt8) : List Op :=
  .finish owner1 :: advances i 5 seconds id ++ .cancel owner1 (.replicate 16 id) :: advances (i + 1) 5 seconds 0

/-- **Six requests in a minute.** After four requests, two calls each count four; the second one inserts after the request of
the first one was cancelled. -/
theorem six_requests_in_a_minute :
    let t := (run (recoveryDelayHours none) GuardianRaces.raceVerifier .init (configure ++ cancelledAttempt 0 1790000000 1 ++
      cancelledAttempt 2 1790000010 2 ++ cancelledAttempt 4 1790000020 3 ++ cancelledAttempt 6 1790000030 4 ++
      .finish owner1 :: advances 8 2 1790000040 0 ++ .finish owner1 :: advances 9 2 1790000040 0 ++ advances 8 3 1790000041 5 ++
      .cancel owner1 (.replicate 16 5) :: advances 10 5 1790000042 0 ++ advances 9 3 1790000050 6)).tables
    ((t.requestsOf owner1).filter fun row => decide (1790000000000000 ≤ row.requestedAt ∧
      row.requestedAt ≤ 1790000000000000 + rateLimitWindow)).length = 6 := by
  decide +kernel

end Avalon.Recovery
