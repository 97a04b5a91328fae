/-
What rollback reverses, and how often.

`Undoes` says when a plan undoes an event of an identity: it ends the friendship that the identity accepted, ends the membership
that it entered, or restores the membership that it left.

Results:
- `reversal_applies`: what the projections read from a compensating event is the write of its plan.
- `reversals_entitled`: in every run of any number of calls, statement by statement, a compensating event reverses an event of its
  own identity, from the window before a completed recovery, as a plan that undoes it, with a fresh signature.
- `reversed_once`: no event is reversed twice, whatever runs between, if no payload is pruned between the two reads of a call.
-/
import Mathlib.Tactic
import Avalon.Server.Rollback

namespace Avalon.Rollback

open Avalon.Events Avalon.Identity Avalon.IdentityChain Avalon.LedgerEntry Avalon.SignatureGate
open Avalon.Ledger (storedPayload storedTimestamp)
open Avalon.Friendships (orderedPair)
open Interleaving Json

variable {F : Type}

/-! ## Reading compensating events -/

/-- five groups of hex digits between hyphens -/
theorem parseUuid_groups {a b c d e : Bytes} (ha : a.length = 8) (hb : b.length = 4) (hc : c.length = 4) (hd : d.length = 4)
    (he : e.length = 12) {text : String}
    (htext : utf8 text = a ++ 0x2d :: (b ++ 0x2d :: (c ++ 0x2d :: (d ++ 0x2d :: e)))) :
    parseUuid text = (hexPairs (a ++ b ++ c ++ d ++ e)).bind (FixedBytes.ofList? 16) := by
  simp [parseUuid, htext, ha, hb, hc, hd, he, List.drop_append, List.drop_of_length_le]

/-- the text of a UUID parses to it -/
theorem parseUuid_uuidText (id : Uuid) : parseUuid (uuidText id) = some id := by
  have hid : id.toList.length = 16 := List.Vector.toList_length id
  have hhyphen : utf8 "-" = [0x2d] := by decide
  have happend : ∀ s t : String, utf8 (s ++ t) = utf8 s ++ utf8 t := fun s t => by simp [utf8]
  have hlength := NodeRequest.utf8_hexEncode_length
  rw [parseUuid_groups (a := utf8 (hexEncode (id.toList.take 4))) (b := utf8 (hexEncode ((id.toList.drop 4).take 2)))
    (c := utf8 (hexEncode ((id.toList.drop 6).take 2))) (d := utf8 (hexEncode ((id.toList.drop 8).take 2)))
    (e := utf8 (hexEncode (id.toList.drop 10))) (by simp [hlength, hid]) (by simp [hlength, hid]) (by simp [hlength, hid])
    (by simp [hlength, hid]) (by simp [hlength, hid]) (by simp [uuidText, happend, hhyphen])]
  have hgroup : ∀ n, (id.toList.drop n).take 2 ++ id.toList.drop (n + 2) = id.toList.drop n := fun n => by
    rw [← List.drop_drop, List.take_append_drop]
  have hjoin : ∀ bs cs : Bytes, utf8 (hexEncode bs) ++ utf8 (hexEncode cs) = utf8 (hexEncode (bs ++ cs)) := fun bs cs => by
    simp only [utf8_hexEncode, List.flatMap_append]
  rw [List.append_assoc, List.append_assoc, List.append_assoc, hjoin, hgroup 8, hjoin, hgroup 6, hjoin, hgroup 4, hjoin,
    List.take_append_drop, ← hexDecode, hexDecode_hexEncode]
  exact FixedBytes.ofList?_toList id

section

variable (id : Uuid) (identity : IdentityId) (recovery original : Uuid) (now : OffsetDateTime)

theorem reverses_reversalEvent (plan : ReversalPlan) :
    reverses (reversalEvent id identity recovery original plan now : Event F) = some (uuidText original) := by
  cases plan <;>
    simp [reverses, reversesId, reversalEvent, isReversal, payloadText, friendReversal, membershipReversal, ProfileChain.get,
      SortedMap.find, readString]

/-- **A compensating event says what its plan does.** The friendships' projection reads the removal of the pair from it, the
rosters' projection the removal or the restoring of the member, and each of them nothing else. -/
theorem reversal_applies (plan : ReversalPlan) :
    let e : Event F := reversalEvent id identity recovery original plan now
    (∀ counterparty, plan = .removeFriendship counterparty → decodeRoster e = none ∧
      Friendships.decode e = some (.remove (orderedPair identity counterparty).1 (orderedPair identity counterparty).2)) ∧
    (∀ guildId, plan = .removeMembership guildId → Friendships.decode e = none ∧
      decodeRoster e = some (.remove guildId identity)) ∧
    ∀ guildId, plan = .restoreMembership guildId → Friendships.decode e = none ∧
      decodeRoster e = some (.upsert guildId identity 2 now) := by
  refine ⟨?_, ?_, ?_⟩
  · rintro counterparty rfl
    constructor
    · simp [decodeRoster, reversalEvent]
    · simp [Friendships.decode, reversalEvent, Friendships.identityField, friendReversal, ProfileChain.get, SortedMap.find,
        readIdentityId, readString, IdentityId.parse_toText, Except.toOption]
  · rintro guildId rfl
    constructor
    · simp [Friendships.decode, reversalEvent]
    · simp [decodeRoster, reversalEvent, payloadUuid, payloadIdentity, payloadText, membershipReversal, ProfileChain.get,
        SortedMap.find, readUuid, readIdentityId, readString, parseUuid_uuidText, IdentityId.parse_toText, Except.toOption,
        EFFECT_MEMBERSHIP_REMOVED]
  · rintro guildId rfl
    constructor
    · simp [Friendships.decode, reversalEvent]
    · simp [decodeRoster, reversalEvent, payloadUuid, payloadIdentity, payloadText, membershipReversal, ProfileChain.get,
        SortedMap.find, readUuid, readIdentityId, readString, parseUuid_uuidText, IdentityId.parse_toText, Except.toOption,
        EFFECT_MEMBERSHIP_RESTORED, roleIndex, unsigned, MEMBER_ROLE_INDEX]

end

/-! ## Eligibility -/

/-- the plan undoes an event of the identity, of this kind and with this payload -/
inductive Undoes (identity : IdentityId) (payload : Value F) : String → ReversalPlan → Prop
  | friendship {from' to' counterparty : IdentityId} (hfrom : payloadIdentity payload "from" = some from')
    (hto : payloadIdentity payload "to" = some to') (hactor : payloadIdentity payload "actor" = some identity)
    (hparty : counterparty = if from' = identity then to' else from') (hother : counterparty ≠ identity) :
    Undoes identity payload "friend.accepted" (.removeFriendship counterparty)
  | joined {guildId : Uuid} (hmember : payloadIdentity payload "identity_id" = some identity)
    (hguild : payloadUuid payload "guild_id" = some guildId) :
    Undoes identity payload "guild.member_added" (.removeMembership guildId)
  | left {guildId : Uuid} (hmember : payloadIdentity payload "identity_id" = some identity)
    (hactor : payloadIdentity payload "actor" = some identity) (hreason : payloadText payload "reason" = some "left")
    (hguild : payloadUuid payload "guild_id" = some guildId) :
    Undoes identity payload "guild.member_removed" (.restoreMembership guildId)

section

variable {identity : IdentityId} {event : LedgerEvent F} {target : Target} {ctx : Context} {plan : ReversalPlan}

theorem assessInner_eq_plan (h : (assessInner identity event target ctx).plan = some plan) :
    (∃ c, target = .friend c ∧ event.kind = KIND_FRIEND_ACCEPTED ∧ plan = .removeFriendship c) ∨
      (∃ g, target = .guild g ∧ event.kind = KIND_MEMBER_ADDED ∧ plan = .removeMembership g) ∨
      ∃ g, target = .guild g ∧ event.kind = KIND_MEMBER_REMOVED ∧ plan = .restoreMembership g := by
  cases target with
  | friend c =>
    simp only [assessInner] at h
    split_ifs at h with hkind hfriends hremoved
    · cases h
      exact .inl ⟨c, rfl, hkind, rfl⟩
    all_goals cases h
  | guild g =>
    cases hguild : ctx.guild with
    | none =>
      simp only [assessInner, hguild] at h
      split_ifs at h <;> cases h
    | some guild =>
      simp only [assessInner, hguild] at h
      split_ifs at h with hadded _ _ hremoved
      any_goals cases h
      · exact .inr (.inl ⟨g, rfl, hadded, rfl⟩)
      · exact .inr (.inr ⟨g, rfl, hremoved, rfl⟩)

/-- a plan is made only for an event that was not reversed -/
theorem assess_eq_plan (h : (assess identity event target ctx).plan = some plan) :
    ctx.alreadyReversed = false ∧ (assessInner identity event target ctx).plan = some plan := by
  unfold assess at h
  cases hreversed : ctx.alreadyReversed with
  | true => simp [hreversed] at h
  | false => exact ⟨rfl, by simpa [hreversed] using h⟩

/-- **What an assessed plan undoes** -/
theorem undoes_of_assess {window : RollbackWindow} (htarget : extractTarget identity window event = some target)
    (hplan : (assess identity event target ctx).plan = some plan) :
    issuerIdentity event.issuer = some identity ∧ window.contains event.occurredAt = true ∧
      Undoes identity event.payload event.kind plan := by
  simp only [extractTarget, Option.bind_eq_bind, Option.bind_eq_some_iff] at htarget
  obtain ⟨issuer, hissuer, htarget⟩ := htarget
  split_ifs at htarget with hother
  rw [not_or, not_not, Bool.not_eq_true', Bool.not_eq_false] at hother
  obtain ⟨rfl, hcontains⟩ := hother
  refine ⟨hissuer, hcontains, ?_⟩
  rcases assessInner_eq_plan (assess_eq_plan hplan).2 with ⟨c, rfl, hkind, rfl⟩ | ⟨g, rfl, hkind, rfl⟩ | ⟨g, rfl, hkind, rfl⟩
  · rw [hkind] at htarget ⊢
    simp only [kindTarget, if_true, Option.bind_eq_bind, Option.bind_eq_some_iff] at htarget
    obtain ⟨from', hfrom, to', hto, actor, hactor, htarget⟩ := htarget
    by_cases hwrong : actor ≠ issuer ∨ (if from' = issuer then to' else from') = issuer
    · rw [if_pos hwrong] at htarget
      cases htarget
    · rw [if_neg hwrong] at htarget
      rw [not_or, not_not] at hwrong
      obtain ⟨rfl, hother⟩ := hwrong
      cases htarget
      exact .friendship hfrom hto hactor rfl hother
  · rw [hkind] at htarget ⊢
    simp only [kindTarget, KIND_MEMBER_ADDED, KIND_FRIEND_ACCEPTED, KIND_FRIEND_REMOVED, String.reduceEq, if_false, if_true,
      Option.bind_eq_bind, Option.bind_eq_some_iff] at htarget
    obtain ⟨member, hmember, htarget⟩ := htarget
    split_ifs at htarget with hwrong
    obtain rfl := not_not.1 hwrong
    obtain ⟨guildId, hguild, heq⟩ := Option.bind_eq_some_iff.1 htarget
    cases heq
    exact .joined hmember hguild
  · rw [hkind] at htarget ⊢
    simp only [kindTarget, KIND_MEMBER_ADDED, KIND_MEMBER_REMOVED, KIND_FRIEND_ACCEPTED, KIND_FRIEND_REMOVED, String.reduceEq,
      if_false, if_true, Option.bind_eq_bind, Option.bind_eq_some_iff] at htarget
    obtain ⟨member, hmember, actor, hactor, reason, hreason, htarget⟩ := htarget
    split_ifs at htarget with hwrong
    rw [not_or, not_or, not_not, not_not, not_not] at hwrong
    obtain ⟨rfl, rfl, rfl⟩ := hwrong
    obtain ⟨guildId, hguild, heq⟩ := Option.bind_eq_some_iff.1 htarget
    cases heq
    exact .left hmember hactor hreason hguild

end

/-! ## What stands behind a compensating event -/

/-- the owner of the identity signed for this reversal -/
structure Signed (cfg : Config F) (t : Tables F) (r : Request) (since : OffsetDateTime) : Prop where
  since : cfg.parseRfc3339 r.sinceText = some since
  signature : ∃ keys ∈ t.keyStates, requireFreshSignature cfg.verifier keys r.identity r.message r.proof = .ok ()

/-- a recovery of the identity, after the start of the window -/
structure Recovered (t : Tables F) (r : Request) (since : OffsetDateTime) (recovery : RecoveryRow) : Prop where
  row : recovery ∈ t.recoveries
  identity : recovery.identityId = r.identity
  after : since < recovery.completedAt

/-- the event was read from the ledger -/
def Recorded (cfg : Config F) (t : Tables F) (event : LedgerEvent F) : Prop :=
  ∃ row ∈ t.ledger,
    event = ⟨row.event.id, row.event.kind, row.event.issuer, row.eventTimestamp, storedPayload cfg.codec row.event⟩

/-- the event may be reversed by this plan -/
structure Eligible (cfg : Config F) (t : Tables F) (r : Request) (recovery : RecoveryRow) (event : LedgerEvent F)
    (plan : ReversalPlan) : Prop where
  same : event.eventId = r.eventId
  recorded : Recorded cfg t event
  window : ∃ since, Signed cfg t r since ∧ Recovered t r since recovery ∧ since ≤ event.occurredAt ∧
    event.occurredAt < recovery.completedAt
  author : issuerIdentity event.issuer = some r.identity
  undoes : Undoes r.identity event.payload event.kind plan

/-- a compensating event of an eligible event -/
def Entitled (cfg : Config F) (t : Tables F) (e : Event F) : Prop :=
  ∃ r recovery event plan now, e = reversalEvent r.reversalId r.identity recovery.requestId event.eventId plan now ∧
    Eligible cfg t r recovery event plan

/-- the event that a call has read, and what it touches -/
structure Found (cfg : Config F) (t : Tables F) (r : Request) (recovery : RecoveryRow) (event : LedgerEvent F)
    (target : Target) : Prop where
  same : event.eventId = r.eventId
  recorded : Recorded cfg t event
  target : ∃ window, Signed cfg t r window.since ∧ Recovered t r window.since recovery ∧
    window.completedAt = recovery.completedAt ∧ extractTarget r.identity window event = some target

/-- what a call knows of its request -/
def Phase.Knows (cfg : Config F) (t : Tables F) : Phase F → Prop
  | signing r since => cfg.parseRfc3339 r.sinceText = some since
  | locking r since | windowing r since => Signed cfg t r since
  | reading r recovery window =>
    Signed cfg t r window.since ∧ Recovered t r window.since recovery ∧ window.completedAt = recovery.completedAt
  | checking r recovery event target | relating r recovery event target _ | assessing r recovery event target _ =>
    Found cfg t r recovery event target
  | visiting r recovery event guildId _ => Found cfg t r recovery event (.guild guildId)
  | committing r recovery event plan => Eligible cfg t r recovery event plan
  | _ => True

structure Tables.Sound (cfg : Config F) (t : Tables F) : Prop where
  keys : t.signingKeys ∈ t.keyStates
  stored : ∀ row ∈ t.ledger, row.payload = none ∨ row.payload = some (storedPayload cfg.codec row.event)
  sent : ∀ row ∈ t.ledger, ∃ o ∈ t.outbox, o.event = row.event
  entitled : ∀ row ∈ t.outbox, ∀ x, reverses row.event = some x → Entitled cfg t row.event

/-- nothing that was recorded is lost -/
structure Grows (t t' : Tables F) : Prop where
  keyStates : ∀ keys ∈ t.keyStates, keys ∈ t'.keyStates
  recoveries : ∀ r ∈ t.recoveries, r ∈ t'.recoveries
  ledger : ∀ row ∈ t.ledger, ∃ row' ∈ t'.ledger, row'.event = row.event ∧ row'.eventTimestamp = row.eventTimestamp
  outbox : ∀ (i : ℕ) (o : OutboxRow F), t.outbox[i]? = some o → ∃ o', t'.outbox[i]? = some o' ∧ OutboxRow.event o' = o.event

section

variable {cfg : Config F} {t t' : Tables F} {r : Request} {recovery : RecoveryRow} {event : LedgerEvent F} {since : OffsetDateTime}

theorem Grows.refl (t : Tables F) : Grows t t :=
  ⟨fun _ => id, fun _ => id, fun row hrow => ⟨row, hrow, rfl, rfl⟩, fun _ o ho => ⟨o, ho, rfl⟩⟩

theorem Signed.grows (h : Signed cfg t r since) (hgrows : Grows t t') : Signed cfg t' r since := by
  obtain ⟨keys, hkeys, hsigned⟩ := h.signature
  exact ⟨h.since, keys, hgrows.keyStates keys hkeys, hsigned⟩

theorem Recovered.grows (h : Recovered t r since recovery) (hgrows : Grows t t') : Recovered t' r since recovery :=
  ⟨hgrows.recoveries _ h.row, h.identity, h.after⟩

theorem Recorded.grows (h : Recorded cfg t event) (hgrows : Grows t t') : Recorded cfg t' event := by
  obtain ⟨row, hrow, rfl⟩ := h
  obtain ⟨row', hrow', hevent, htimestamp⟩ := hgrows.ledger row hrow
  exact ⟨row', hrow', by rw [hevent, htimestamp]⟩

theorem Eligible.grows {plan : ReversalPlan} (h : Eligible cfg t r recovery event plan) (hgrows : Grows t t') :
    Eligible cfg t' r recovery event plan := by
  obtain ⟨since, hsigned, hrecovered, hwindow⟩ := h.window
  exact ⟨h.same, h.recorded.grows hgrows, ⟨since, hsigned.grows hgrows, hrecovered.grows hgrows, hwindow⟩, h.author, h.undoes⟩

theorem Entitled.grows {e : Event F} (h : Entitled cfg t e) (hgrows : Grows t t') : Entitled cfg t' e := by
  obtain ⟨r, recovery, event, plan, now, rfl, heligible⟩ := h
  exact ⟨r, recovery, event, plan, now, rfl, heligible.grows hgrows⟩

theorem Found.grows {target : Target} (h : Found cfg t r recovery event target) (hgrows : Grows t t') :
    Found cfg t' r recovery event target := by
  obtain ⟨window, hsigned, hrecovered, htarget⟩ := h.target
  exact ⟨h.same, h.recorded.grows hgrows, window, hsigned.grows hgrows, hrecovered.grows hgrows, htarget⟩

theorem Phase.Knows.grows {q : Phase F} (h : q.Knows cfg t) (hgrows : Grows t t') : q.Knows cfg t' := by
  cases q with
  | signing => exact h
  | locking r since | windowing r since => exact Signed.grows h hgrows
  | reading r recovery window => exact ⟨h.1.grows hgrows, h.2.1.grows hgrows, h.2.2⟩
  | checking | relating | assessing => exact Found.grows h hgrows
  | visiting => exact Found.grows h hgrows
  | committing => exact Eligible.grows h hgrows
  | _ => trivial

theorem mem_latest {identity : IdentityId} (h : latestCompletedRecovery t identity = some recovery) :
    recovery ∈ t.recoveries ∧ recovery.identityId = identity := by
  have hfold : ∀ (rows : List RecoveryRow) (best : Option RecoveryRow), rows.foldl later best = some recovery →
      recovery ∈ rows ∨ best = some recovery := by
    intro rows
    induction rows with
    | nil => exact fun best hbest => .inr hbest
    | cons row rows ih =>
      intro best hbest
      rcases ih _ hbest with hmem | hlater
      · exact .inl (List.mem_cons_of_mem _ hmem)
      · unfold later at hlater
        split at hlater
        · cases hlater
          exact .inl (List.mem_cons_self ..)
        · split_ifs at hlater
          · cases hlater
            exact .inl (List.mem_cons_self ..)
          · exact .inr hlater
  rcases hfold _ _ h with hmem | hnone
  · obtain ⟨hmem, hidentity⟩ := List.mem_filter.1 hmem
    exact ⟨hmem, of_decide_eq_true hidentity⟩
  · cases hnone

theorem new_eq_ok {completedAt : OffsetDateTime} {window : RollbackWindow} (h : RollbackWindow.new since completedAt = .ok window) :
    window.since = since ∧ window.completedAt = completedAt := by
  unfold RollbackWindow.new at h
  split_ifs at h
  cases h
  exact ⟨rfl, rfl⟩

/-- the event that is read is recorded -/
theorem recorded_of_read (hsound : t.Sound cfg) {eventId : Uuid} {row : LedgerRow F} (hrow : ledgerRow t eventId = some row)
    (hevent : ledgerEventFromRow row = some event) : event.eventId = eventId ∧ Recorded cfg t event := by
  have hmem := List.mem_of_find?_eq_some hrow
  have hid := List.find?_some hrow
  simp only [decide_eq_true_eq] at hid
  obtain ⟨payload, hpayload, rfl⟩ := Option.map_eq_some_iff.1 hevent
  refine ⟨hid.1, row, hmem, ?_⟩
  rcases hsound.stored row hmem with hnone | hstored
  · rw [hnone] at hpayload
    cases hpayload
  · rw [hstored] at hpayload
    cases hpayload
    rfl

end

/-! ### The statements -/

section

variable {cfg : Config F} {t t' : Tables F} {others : List (Phase F)} {p p' : Phase F}

/-- one more event in the outbox -/
theorem grows_enqueue {row : OutboxRow F} (hkeys : t'.keyStates = t.keyStates) (hrecoveries : t'.recoveries = t.recoveries)
    (hledger : t'.ledger = t.ledger) (houtbox : t'.outbox = t.outbox ++ [row]) : Grows t t' := by
  refine ⟨fun _ h => hkeys ▸ h, fun _ h => hrecoveries ▸ h, fun row hrow => ⟨row, hledger ▸ hrow, rfl, rfl⟩, fun i o ho => ?_⟩
  refine ⟨o, ?_, rfl⟩
  rw [houtbox]
  exact (List.getElem?_append_left (List.getElem?_eq_some_iff.1 ho).1).trans ho

/-- the outbox and the ledger as they were -/
theorem Tables.Sound.same (hsound : t.Sound cfg) (t' : Tables F) (hstates : ∀ keys ∈ t.keyStates, keys ∈ t'.keyStates)
    (hrecoveries : ∀ r ∈ t.recoveries, r ∈ t'.recoveries) (hkeys : t'.signingKeys ∈ t'.keyStates)
    (hledger : t'.ledger = t.ledger) (houtbox : t'.outbox = t.outbox) : Grows t t' ∧ t'.Sound cfg := by
  have hgrows : Grows t t' :=
    ⟨hstates, hrecoveries, fun row hrow => ⟨row, hledger ▸ hrow, rfl, rfl⟩, fun _ o ho => ⟨o, houtbox ▸ ho, rfl⟩⟩
  refine ⟨hgrows, hkeys, ?_, ?_, ?_⟩
  · rw [hledger]
    exact hsound.stored
  · rw [hledger, houtbox]
    exact hsound.sent
  · rw [houtbox]
    exact fun row hrow x hx => (hsound.entitled row hrow x hx).grows hgrows

theorem Tables.Sound.enqueue (hsound : t.Sound cfg) {row : OutboxRow F} (hstates : t'.keyStates = t.keyStates)
    (hkeys : t'.signingKeys = t.signingKeys) (hrecoveries : t'.recoveries = t.recoveries)
    (hledger : t'.ledger = t.ledger) (houtbox : t'.outbox = t.outbox ++ [row])
    (hrow : ∀ x, reverses row.event = some x → Entitled cfg t row.event) : Grows t t' ∧ t'.Sound cfg := by
  have hgrows : Grows t t' := grows_enqueue hstates hrecoveries hledger houtbox
  refine ⟨hgrows, ?_, ?_, ?_, ?_⟩
  · rw [hkeys, hstates]
    exact hsound.keys
  · rw [hledger]
    exact hsound.stored
  · rw [hledger, houtbox]
    intro row hrow
    obtain ⟨o, ho, heq⟩ := hsound.sent row hrow
    exact ⟨o, List.mem_append_left _ ho, heq⟩
  · rw [houtbox]
    intro o ho x hx
    rcases List.mem_append.1 ho with ho | ho
    · exact (hsound.entitled o ho x hx).grows hgrows
    · obtain rfl := List.mem_singleton.1 ho
      exact (hrow x hx).grows hgrows

theorem reverses_of_not_isReversal {event : Event F} (h : ¬ isReversal event.kind) : reverses event = none := by
  simp [reverses, reversesId, h]

/-- what a call's first statement keeps -/
theorem sound_receive (hsound : t.Sound cfg) (call : Call F) :
    Grows t (receive cfg t call).1 ∧ (receive cfg t call).1.Sound cfg ∧
      (receive cfg t call).2.Knows cfg (receive cfg t call).1 := by
  cases call with
  | enqueue event =>
    simp only [receive]
    split_ifs with hreversal
    · exact ⟨Grows.refl t, hsound, trivial⟩
    · have hnone : reverses event = none := reverses_of_not_isReversal hreversal
      obtain ⟨hgrows, hsound'⟩ : Grows t { t with outbox := t.outbox ++ [⟨event, none⟩] } ∧
          Tables.Sound cfg { t with outbox := t.outbox ++ [⟨event, none⟩] } :=
        hsound.enqueue rfl rfl rfl rfl rfl fun x hx => by
          rw [hnone] at hx
          cases hx
      exact ⟨hgrows, hsound', trivial⟩
  | writeKeys keys =>
    obtain ⟨hgrows, hsound'⟩ := hsound.same (receive cfg t (.writeKeys keys)).1 (fun _ => List.mem_append_left _)
      (fun _ => id) (List.mem_append_right _ (List.mem_singleton.2 rfl)) rfl rfl
    exact ⟨hgrows, hsound', trivial⟩
  | completeRecovery requestId identityId =>
    obtain ⟨hgrows, hsound'⟩ := hsound.same (receive cfg t (.completeRecovery requestId identityId)).1 (fun _ => id)
      (fun _ => List.mem_append_left _) hsound.keys rfl rfl
    exact ⟨hgrows, hsound', trivial⟩
  | write friends members guilds =>
    obtain ⟨hgrows, hsound'⟩ := hsound.same (receive cfg t (.write friends members guilds)).1 (fun _ => id)
      (fun _ => id) hsound.keys rfl rfl
    exact ⟨hgrows, hsound', trivial⟩
  | drain rows => exact ⟨Grows.refl t, hsound, trivial⟩
  | prune cutoff =>
    have hgrows : Grows t (receive cfg t (.prune cutoff)).1 := by
      refine ⟨fun _ => id, fun _ => id, fun row hrow => ?_, fun _ o ho => ⟨o, ho, rfl⟩⟩
      exact ⟨row.prune cutoff, List.mem_map_of_mem hrow, rfl, rfl⟩
    refine ⟨hgrows, ⟨hsound.keys, fun row hrow => ?_, fun row hrow => ?_,
      fun row hrow x hx => (hsound.entitled row hrow x hx).grows hgrows⟩, trivial⟩
    · obtain ⟨row, hmem, rfl⟩ := List.mem_map.1 hrow
      simp only [LedgerRow.prune]
      split_ifs
      · exact .inl rfl
      · exact hsound.stored row hmem
    · obtain ⟨row, hmem, rfl⟩ := List.mem_map.1 hrow
      exact hsound.sent row hmem
  | reverse r =>
    refine ⟨Grows.refl t, hsound, ?_⟩
    simp only [receive]
    split
    · trivial
    · next hsince => exact hsince
  | wait nanoseconds =>
    obtain ⟨hgrows, hsound'⟩ := hsound.same (receive cfg t (.wait nanoseconds)).1 (fun _ => id) (fun _ => id) hsound.keys rfl rfl
    exact ⟨hgrows, hsound', trivial⟩

/-- the entries of a batch are its events, each with its payload, at the time of the batch -/
theorem settleRows_eq_some {now : OffsetDateTime} {events : List (Event F)} {entries : List (LedgerRow F)}
    (h : settleRows cfg now events = some entries) :
    (∀ row ∈ entries, row.event ∈ events ∧ row.payload = some (storedPayload cfg.codec row.event) ∧ row.committedAt = now) ∧
      ∀ event ∈ events, ∃ row ∈ entries, row.event = event := by
  induction events generalizing entries with
  | nil =>
    cases h
    simp
  | cons event events ih =>
    simp only [settleRows, List.mapM_cons, Option.bind_eq_bind, Option.bind_eq_some_iff] at h
    obtain ⟨row, hrow, rest, hrest, heq⟩ := h
    cases heq
    obtain ⟨timestamp, -, rfl⟩ := Option.map_eq_some_iff.1 hrow
    obtain ⟨hrows, hevents⟩ := ih hrest
    constructor
    · intro row hrow
      rcases List.mem_cons.1 hrow with rfl | hrow
      · exact ⟨List.mem_cons_self .., rfl, rfl⟩
      · exact ⟨List.mem_cons_of_mem _ (hrows row hrow).1, (hrows row hrow).2⟩
    · intro e he
      rcases List.mem_cons.1 he with rfl | he
      · exact ⟨_, List.mem_cons_self .., rfl⟩
      · obtain ⟨row, hrow, heq⟩ := hevents e he
        exact ⟨row, List.mem_cons_of_mem _ hrow, heq⟩

theorem mem_rowEvents {rows : List ℕ} {event : Event F} (h : event ∈ rowEvents t rows) : ∃ o ∈ t.outbox, o.event = event := by
  obtain ⟨i, -, hi⟩ := List.mem_filterMap.1 h
  obtain ⟨o, ho, rfl⟩ := Option.map_eq_some_iff.1 hi
  exact ⟨o, List.mem_of_getElem? ho, rfl⟩

/-- **Every statement keeps what stands behind the compensating events** -/
theorem sound_statement (hsound : t.Sound cfg) (hknows : p.Knows cfg t) (hstep : statement cfg t others p = some (t', p')) :
    Grows t t' ∧ t'.Sound cfg ∧ p'.Knows cfg t' := by
  -- most statements only read
  have hread : ∀ {q : Phase F}, some (t, q) = some (t', p') → q.Knows cfg t → Grows t t' ∧ t'.Sound cfg ∧ p'.Knows cfg t' := by
    intro q heq hq
    cases heq
    exact ⟨Grows.refl t, hsound, hq⟩
  cases p with
  | received call =>
    simp only [statement, Option.some.injEq] at hstep
    have hreceive := sound_receive hsound call
    rw [hstep] at hreceive
    exact hreceive
  | signing r since =>
    simp only [statement] at hstep
    split at hstep
    · exact hread hstep trivial
    · next hsigned => exact hread hstep ⟨hknows, _, hsound.keys, hsigned⟩
  | locking r since =>
    simp only [statement] at hstep
    split_ifs at hstep
    exact hread hstep hknows
  | windowing r since =>
    simp only [statement] at hstep
    split at hstep
    · exact hread hstep trivial
    · next recovery hlatest =>
      split at hstep
      · exact hread hstep trivial
      · next window hwindow =>
        obtain ⟨hmem, hidentity⟩ := mem_latest hlatest
        obtain ⟨hsince, hcompleted⟩ := new_eq_ok hwindow
        have hordered := window.ordered
        rw [hsince, hcompleted] at hordered
        refine hread hstep ⟨?_, ?_, hcompleted⟩ <;> rw [hsince]
        · exact hknows
        · exact ⟨hmem, hidentity, hordered⟩
  | reading r recovery window =>
    simp only [statement] at hstep
    split at hstep
    · exact hread hstep trivial
    · next row hrow =>
      split at hstep
      · exact hread hstep trivial
      · next event hevent =>
        split at hstep
        · exact hread hstep trivial
        · next target htarget =>
          obtain ⟨hsame, hrecorded⟩ := recorded_of_read hsound hrow hevent
          exact hread hstep ⟨hsame, hrecorded, window, hknows.1, hknows.2.1, hknows.2.2, htarget⟩
  | checking r recovery event target => exact hread hstep hknows
  | relating r recovery event target reversed =>
    refine hread hstep ?_
    cases target with
    | friend counterparty => exact hknows
    | guild guildId => exact hknows
  | visiting r recovery event guildId ctx => exact hread hstep hknows
  | assessing r recovery event target ctx =>
    refine hread hstep ?_
    rcases decidePlan_cases r recovery event target ctx with ⟨e, heq⟩ | ⟨plan, heq, hplan⟩
    · rw [heq]
      trivial
    · rw [heq]
      obtain ⟨window, hsigned, hrecovered, hcompleted, htarget⟩ := hknows.target
      obtain ⟨hauthor, hcontains, hundoes⟩ := undoes_of_assess htarget hplan
      have hcontains := of_decide_eq_true hcontains
      rw [hcompleted] at hcontains
      exact ⟨hknows.same, hknows.recorded, ⟨window.since, hsigned, hrecovered, hcontains⟩, hauthor, hundoes⟩
  | committing r recovery event plan =>
    cases hstep
    obtain ⟨hgrows, hsound'⟩ : Grows t (commitReversal t r recovery event plan) ∧
        (commitReversal t r recovery event plan).Sound cfg :=
      hsound.enqueue rfl rfl rfl rfl rfl fun _ _ => ⟨r, recovery, event, plan, t.now, rfl, hknows⟩
    exact ⟨hgrows, hsound', trivial⟩
  | settling rows =>
    simp only [statement] at hstep
    split at hstep
    · exact hread hstep trivial
    · next entries hentries =>
      cases hstep
      obtain ⟨hrows, -⟩ := settleRows_eq_some hentries
      have hgrows : Grows t { t with ledger := t.ledger ++ entries } :=
        ⟨fun _ => id, fun _ => id, fun row hrow => ⟨row, List.mem_append_left _ hrow, rfl, rfl⟩, fun _ o ho => ⟨o, ho, rfl⟩⟩
      refine ⟨hgrows, ⟨hsound.keys, fun row hrow => ?_, fun row hrow => ?_,
        fun row hrow x hx => (hsound.entitled row hrow x hx).grows hgrows⟩, trivial⟩
      · rcases List.mem_append.1 hrow with hrow | hrow
        · exact hsound.stored row hrow
        · exact .inr (hrows row hrow).2.1
      · rcases List.mem_append.1 hrow with hrow | hrow
        · exact hsound.sent row hrow
        · exact mem_rowEvents (hrows row hrow).1
  | marking rows =>
    cases rows with
    | nil => exact hread hstep trivial
    | cons i rows =>
      cases hstep
      have hevents : ∀ row ∈ t.outbox.modify i fun row => { row with committedAt := some t.now },
          ∃ o ∈ t.outbox, o.event = row.event := by
        intro row hrow
        obtain ⟨j, hj⟩ := List.mem_iff_getElem?.1 hrow
        rw [List.getElem?_modify] at hj
        obtain ⟨o, ho, rfl⟩ := Option.map_eq_some_iff.1 hj
        exact ⟨o, List.mem_of_getElem? ho, by split_ifs <;> rfl⟩
      have hmodified : ∀ (j : ℕ) (o : OutboxRow F), t.outbox[j]? = some o →
          ∃ o', (t.outbox.modify i fun row => { row with committedAt := some t.now })[j]? = some o' ∧ o'.event = o.event := by
        intro j o ho
        refine ⟨_, by rw [List.getElem?_modify, ho]; rfl, ?_⟩
        split_ifs <;> rfl
      have hgrows : Grows t { t with outbox := t.outbox.modify i fun row => { row with committedAt := some t.now } } :=
        ⟨fun _ => id, fun _ => id, fun row hrow => ⟨row, hrow, rfl, rfl⟩, hmodified⟩
      refine ⟨hgrows, ⟨hsound.keys, hsound.stored, fun row hrow => ?_, fun row hrow x hx => ?_⟩, trivial⟩
      · obtain ⟨o, ho, heq⟩ := hsound.sent row hrow
        obtain ⟨j, hj⟩ := List.mem_iff_getElem?.1 ho
        obtain ⟨o', ho', heq'⟩ := hmodified j o hj
        exact ⟨o', List.mem_of_getElem? ho', heq'.trans heq⟩
      · obtain ⟨o, ho, heq⟩ := hevents row hrow
        rw [← heq] at hx ⊢
        exact (hsound.entitled o ho x hx).grows hgrows
  | done | answered => cases hstep

theorem sound_init (now : OffsetDateTime) : (Tables.init now : Tables F).Sound cfg :=
  ⟨by simp [Tables.init], by simp [Tables.init], by simp [Tables.init], by simp [Tables.init]⟩

theorem knows_aborted (p : Phase F) : ((program cfg).aborted p).Knows cfg t := by
  cases p <;> exact trivial

theorem sound_invariant (cfg : Config F) :
    Invariant (program cfg) (fun _ _ _ => True) (Tables.Sound cfg) (fun t p => p.Knows cfg t) (fun _ _ => True) where
  symm _ _ _ := trivial
  start _ _ _ := ⟨trivial, fun _ => trivial⟩
  aborted _ p _ _ := ⟨knows_aborted p, fun _ _ => trivial⟩
  statement t others p t' p' hsound hknows hothers _ hstep := by
    obtain ⟨hgrows, hsound', hknows'⟩ := sound_statement hsound hknows hstep
    exact ⟨hsound', hknows', fun q hq => ⟨(hothers q hq).1.grows hgrows, trivial⟩⟩

end

/-- **Every compensating event is entitled.** Whatever runs side by side, statement by statement, an event of the outbox or the
ledger that reverses another is the compensating event of an eligible event: read from the ledger, by its own identity, in the
window before a completed recovery of it, with a fresh signature for it, and a plan that undoes it. -/
theorem reversals_entitled (cfg : Config F) (now : OffsetDateTime) (ops : List (Op (Call F))) :
    let t := (run (program cfg) ⟨.init now, []⟩ ops).tables
    ∀ e, (∃ row ∈ t.outbox, row.event = e) ∨ (∃ row ∈ t.ledger, row.event = e) →
      ∀ x, reverses e = some x → Entitled cfg t e := by
  intro t e he x hx
  have hinv : Inv _ _ _ (run (program cfg) ⟨.init now, []⟩ ops) :=
    inv_run (sound_invariant cfg) (inv_init (sound_init now)) (along_true ..)
  have hsound : t.Sound cfg := hinv.tables
  rcases he with ⟨row, hrow, rfl⟩ | ⟨row, hrow, rfl⟩
  · exact hsound.entitled row hrow x hx
  · obtain ⟨o, ho, heq⟩ := hsound.sent row hrow
    rw [← heq] at hx ⊢
    exact hsound.entitled o ho x hx

/-! ## No event is reversed twice -/

/-- the events that are reversed, in order -/
def Tables.reversed (t : Tables F) : List String := t.outbox.filterMap fun row => reverses row.event

/-- each event at most once, and its reversal keeps its payload as long as the event itself does -/
structure Tables.Once (t : Tables F) : Prop where
  past : ∀ row ∈ t.ledger, row.committedAt ≤ t.now
  settled : ∀ o ∈ t.outbox, o.committedAt.isSome → ∃ row ∈ t.ledger, row.event = o.event
  once : t.reversed.Nodup
  order : ∀ row ∈ t.ledger, ∀ id, reverses row.event = some (uuidText id) →
    ∃ first, ledgerRow t id = some first ∧ first.committedAt ≤ row.committedAt ∧ (row.payload = none → first.payload = none)

/-- what a call has seen of the outbox and the ledger -/
def Phase.Sees (t : Tables F) : Phase F → Prop
  | relating r _ _ _ reversed => reversed = false → uuidText r.eventId ∉ t.reversed
  | visiting r _ _ _ ctx | assessing r _ _ _ ctx => ctx.alreadyReversed = false → uuidText r.eventId ∉ t.reversed
  | committing r _ _ _ => uuidText r.eventId ∉ t.reversed
  | settling rows => ∀ i ∈ rows, i < t.outbox.length
  | marking rows => ∀ i ∈ rows, ∃ o, t.outbox[i]? = some o ∧ ∃ row ∈ t.ledger, row.event = o.event
  | _ => True

/-- a call that looks for reversals of its event finds the event unpruned, as when it read it -/
def Unpruned (t : Tables F) (_ : List (Phase F)) : Phase F → Prop
  | .checking r _ _ _ => ∀ row ∈ ledgerRow t r.eventId, row.payload.isSome
  | _ => True

instance (t : Tables F) (others : List (Phase F)) : (p : Phase F) → Decidable (Unpruned t others p)
  | .checking r _ _ _ => inferInstanceAs (Decidable (∀ row ∈ ledgerRow t r.eventId, row.payload.isSome))
  | .received .. | .signing .. | .locking .. | .windowing .. | .reading .. | .relating .. | .visiting .. | .assessing ..
  | .committing .. | .settling .. | .marking .. | .done | .answered .. => inferInstanceAs (Decidable True)

theorem uuidText_injective {a b : Uuid} (h : uuidText a = uuidText b) : a = b := by
  have hparse := parseUuid_uuidText a
  rw [h, parseUuid_uuidText] at hparse
  exact (Option.some.inj hparse).symm

theorem Undoes.candidate {identity : IdentityId} {payload : Value F} {kind : String} {plan : ReversalPlan}
    (h : Undoes identity payload kind plan) : kind ∈ CANDIDATE_KINDS := by
  cases h <;> simp [CANDIDATE_KINDS, KIND_FRIEND_ACCEPTED, KIND_MEMBER_ADDED, KIND_MEMBER_REMOVED]

section

variable {cfg : Config F} {t t' : Tables F} {others : List (Phase F)} {p p' : Phase F}

/-- the event that an entitled event reverses is in the ledger -/
theorem Entitled.original {e : Event F} (h : Entitled cfg t e) {id : Uuid} (hid : reverses e = some (uuidText id)) :
    e.identityChain = none ∧ ∃ first, ledgerRow t id = some first := by
  obtain ⟨r, recovery, event, plan, now, rfl, heligible⟩ := h
  rw [reverses_reversalEvent, Option.some.injEq] at hid
  obtain rfl := uuidText_injective hid
  refine ⟨by cases plan <;> rfl, ?_⟩
  obtain ⟨row, hrow, heq⟩ := heligible.recorded
  have hkind := heligible.undoes.candidate
  rw [← Option.isSome_iff_exists, ledgerRow, List.find?_isSome]
  rw [heq] at hkind ⊢
  exact ⟨row, hrow, decide_eq_true ⟨rfl, hkind⟩⟩

/-- a reversal of an event that is still there is found -/
theorem not_mem_reversed (hsound : t.Sound cfg) (honce : t.Once) {id : Uuid}
    (hunpruned : ∀ row ∈ ledgerRow t id, row.payload.isSome) (hnone : alreadyReversed t id = false) :
    uuidText id ∉ t.reversed := by
  intro hmem
  obtain ⟨o, ho, hreverses⟩ := List.mem_filterMap.1 hmem
  simp only [alreadyReversed, Bool.or_eq_false_iff, List.any_eq_false] at hnone
  obtain ⟨hledger, hpending⟩ := hnone
  cases hcommitted : o.committedAt with
  | none => exact hpending o ho (by simp [hcommitted, hreverses])
  | some time =>
    obtain ⟨row, hrow, hevent⟩ := honce.settled o ho (by simp [hcommitted])
    rw [← hevent] at hreverses
    obtain ⟨first, hfirst, -, hpruned⟩ := honce.order row hrow id hreverses
    rcases hsound.stored row hrow with hpayload | hpayload
    · have hsome := hunpruned first hfirst
      rw [hpruned hpayload] at hsome
      cases hsome
    · have hentitled := hsound.entitled o ho _ (hevent ▸ hreverses)
      have hchain := (hentitled.original (hevent ▸ hreverses)).1
      rw [← hevent] at hchain
      have hstored : storedPayload cfg.codec row.event = row.event.payload := by simp [storedPayload, hchain]
      refine hledger row hrow ?_
      rw [hpayload, hstored]
      simpa [reverses] using hreverses

/-- what a call has seen stays, unless its event is reversed -/
theorem Phase.Sees.grows {q : Phase F} (h : q.Sees t) (hgrows : Grows t t')
    (hreversed : ∀ r, q.request = some r → uuidText r.eventId ∈ t'.reversed → uuidText r.eventId ∈ t.reversed) : q.Sees t' := by
  cases q with
  | relating r recovery event target reversed => exact fun hnone hmem => h hnone (hreversed r rfl hmem)
  | visiting r | assessing r => exact fun hnone hmem => h hnone (hreversed r rfl hmem)
  | committing r => exact fun hmem => h (hreversed r rfl hmem)
  | settling rows =>
    intro i hi
    obtain ⟨o', ho', -⟩ := hgrows.outbox i _ (List.getElem?_eq_getElem (h i hi))
    exact (List.getElem?_eq_some_iff.1 ho').1
  | marking rows =>
    intro i hi
    obtain ⟨o, ho, row, hrow, heq⟩ := h i hi
    obtain ⟨o', ho', heq'⟩ := hgrows.outbox i o ho
    obtain ⟨row', hrow', hsame, -⟩ := hgrows.ledger row hrow
    exact ⟨o', ho', row', hrow', by rw [hsame, heq, heq']⟩
  | _ => trivial

/-- the ledger as it was -/
theorem Tables.Once.same (honce : t.Once) (hnow : t.now ≤ t'.now) (hledger : t'.ledger = t.ledger)
    (hsettled : ∀ o ∈ t'.outbox, o.committedAt.isSome → ∃ row ∈ t.ledger, row.event = o.event) (hreversed : t'.reversed.Nodup) :
    t'.Once := by
  refine ⟨?_, ?_, hreversed, ?_⟩
  · rw [hledger]
    exact fun row hrow => (honce.past row hrow).trans hnow
  · rw [hledger]
    exact hsettled
  · rw [hledger, show ledgerRow t' = ledgerRow t by funext id; simp only [ledgerRow, hledger]]
    exact honce.order

theorem ledgerRow_prune (cutoff : OffsetDateTime) (id : Uuid) :
    ledgerRow { t with ledger := prunePayloads t.ledger cutoff } id = (ledgerRow t id).map (LedgerRow.prune cutoff) := by
  rw [ledgerRow, prunePayloads, List.find?_map]
  rfl

/-- a reversal is pruned with its event or after it -/
theorem once_prune (honce : t.Once) (cutoff : OffsetDateTime) : Tables.Once { t with ledger := prunePayloads t.ledger cutoff } := by
  refine ⟨fun row hrow => ?_, fun o ho hsome => ?_, honce.once, fun row hrow id hid => ?_⟩
  · obtain ⟨row, hmem, rfl⟩ := List.mem_map.1 hrow
    exact honce.past row hmem
  · obtain ⟨row, hrow, heq⟩ := honce.settled o ho hsome
    exact ⟨row.prune cutoff, List.mem_map_of_mem hrow, heq⟩
  · obtain ⟨row, hmem, rfl⟩ := List.mem_map.1 hrow
    obtain ⟨first, hfirst, hle, hpruned⟩ := honce.order row hmem id hid
    refine ⟨first.prune cutoff, by rw [ledgerRow_prune, hfirst]; rfl, hle, fun hnone => ?_⟩
    simp only [LedgerRow.prune] at hnone ⊢
    by_cases hold : first.committedAt < cutoff
    · rw [if_pos hold]
    · rw [if_neg hold]
      rw [if_neg fun hlt => hold (lt_of_le_of_lt hle hlt)] at hnone
      exact hpruned hnone

theorem reversed_modify (t : Tables F) (i : ℕ) (time : OffsetDateTime) :
    Tables.reversed { t with outbox := t.outbox.modify i fun row => { row with committedAt := some time } } = t.reversed := by
  have hevents : (t.outbox.modify i fun row => { row with committedAt := some time }).map OutboxRow.event =
      t.outbox.map OutboxRow.event := by
    refine List.ext_getElem? fun j => ?_
    rw [List.getElem?_map, List.getElem?_map, List.getElem?_modify]
    cases t.outbox[j]? with
    | none => rfl
    | some row =>
      simp only [Option.map_eq_map, Option.map_some]
      split_ifs <;> rfl
  have hreversed : ∀ t : Tables F, t.reversed = (t.outbox.map OutboxRow.event).filterMap reverses := fun t => by
    rw [List.filterMap_map]
    rfl
  rw [hreversed, hreversed, hevents]

theorem reversed_append (t : Tables F) (row : OutboxRow F) :
    Tables.reversed { t with outbox := t.outbox ++ [row] } = t.reversed ++ (reverses row.event).toList := by
  cases h : reverses row.event <;> simp [Tables.reversed, h]

theorem once_enqueue (honce : t.Once) {event : Event F} (hnone : reverses event = none) :
    Tables.Once { t with outbox := t.outbox ++ [⟨event, none⟩] } := by
  refine honce.same le_rfl rfl (fun o ho hsome => ?_) ?_
  · rcases List.mem_append.1 ho with ho | ho
    · exact honce.settled o ho hsome
    · obtain rfl := List.mem_singleton.1 ho
      cases hsome
  · rw [reversed_append, hnone]
    simpa using honce.once

/-- a call's first statement reverses nothing -/
theorem once_receive (honce : t.Once) (call : Call F) :
    (receive cfg t call).1.Once ∧ (receive cfg t call).2.Sees (receive cfg t call).1 ∧
      (receive cfg t call).1.reversed = t.reversed := by
  cases call with
  | enqueue event =>
    simp only [receive]
    split_ifs with hreversal
    · exact ⟨honce, trivial, rfl⟩
    · have hnone : reverses event = none := reverses_of_not_isReversal hreversal
      refine ⟨once_enqueue honce hnone, trivial, ?_⟩
      rw [reversed_append, hnone]
      simp
  | drain rows =>
    refine ⟨honce, fun i hi => ?_, rfl⟩
    have hpending := (List.mem_filter.1 hi).2
    change i < t.outbox.length
    by_contra hlong
    rw [isPending, List.getElem?_eq_none (not_lt.1 hlong)] at hpending
    cases hpending
  | prune cutoff => exact ⟨once_prune honce cutoff, trivial, rfl⟩
  | reverse r =>
    refine ⟨honce, ?_, rfl⟩
    simp only [receive]
    split <;> trivial
  | wait nanoseconds =>
    refine ⟨honce.same ?_ rfl honce.settled honce.once, trivial, rfl⟩
    exact le_add_of_nonneg_right (Int.natCast_nonneg _)
  | _ => exact ⟨honce.same le_rfl rfl honce.settled honce.once, trivial, rfl⟩

/-- an event that no call has reversed is reversed once -/
theorem once_commit (honce : t.Once) {r : Request} {recovery : RecoveryRow} {event : LedgerEvent F} {plan : ReversalPlan}
    (hevent : event.eventId = r.eventId) (hsees : uuidText r.eventId ∉ t.reversed) :
    (commitReversal t r recovery event plan).Once ∧
      (commitReversal t r recovery event plan).reversed = t.reversed ++ [uuidText r.eventId] := by
  have hreversed : (commitReversal t r recovery event plan).reversed = t.reversed ++ [uuidText r.eventId] := by
    rw [← hevent]
    change Tables.reversed { t with outbox := t.outbox ++ [⟨reversalEvent .., none⟩] } = _
    rw [reversed_append, reverses_reversalEvent]
    rfl
  refine ⟨honce.same le_rfl rfl (fun o ho hsome => ?_) ?_, hreversed⟩
  · rcases List.mem_append.1 ho with ho | ho
    · exact honce.settled o ho hsome
    · obtain rfl := List.mem_singleton.1 ho
      cases hsome
  · rw [hreversed]
    exact honce.once.append (List.nodup_singleton _) (by simpa using hsees)

/-- the entries of a batch are behind the events that they reverse -/
theorem once_settle (hsound : t.Sound cfg) (honce : t.Once) {rows : List ℕ} {entries : List (LedgerRow F)}
    (hentries : settleRows cfg t.now (rowEvents t rows) = some entries) :
    Tables.Once { t with ledger := t.ledger ++ entries } := by
  obtain ⟨hrows, -⟩ := settleRows_eq_some hentries
  have hfirst : ∀ {id first}, ledgerRow t id = some first → ledgerRow { t with ledger := t.ledger ++ entries } id = some first := by
    intro id first hfirst
    rw [ledgerRow] at hfirst ⊢
    rw [List.find?_append, hfirst]
    rfl
  refine ⟨fun row hrow => ?_, fun o ho hsome => ?_, honce.once, fun row hrow id hid => ?_⟩
  · rcases List.mem_append.1 hrow with hrow | hrow
    · exact honce.past row hrow
    · exact (hrows row hrow).2.2.le
  · obtain ⟨row, hrow, heq⟩ := honce.settled o ho hsome
    exact ⟨row, List.mem_append_left _ hrow, heq⟩
  · rcases List.mem_append.1 hrow with hrow | hrow
    · obtain ⟨first, hold, hle, hpruned⟩ := honce.order row hrow id hid
      exact ⟨first, hfirst hold, hle, hpruned⟩
    · obtain ⟨hmem, hpayload, hcommitted⟩ := hrows row hrow
      obtain ⟨o, ho, heq⟩ := mem_rowEvents hmem
      rw [← heq] at hid
      obtain ⟨-, first, hold⟩ := (hsound.entitled o ho _ hid).original hid
      refine ⟨first, hfirst hold, ?_, fun hnone => ?_⟩
      · rw [hcommitted]
        exact honce.past first (List.mem_of_find?_eq_some hold)
      · rw [hpayload] at hnone
        cases hnone

/-- **Every statement reverses at most the event that its call has locked**, and that only if nothing reverses it -/
theorem once_statement (hsound : t.Sound cfg) (hknows : p.Knows cfg t) (honce : t.Once) (hsees : p.Sees t)
    (hmeets : Unpruned t others p) (hstep : statement cfg t others p = some (t', p')) :
    t'.Once ∧ p'.Sees t' ∧
      (t'.reversed = t.reversed ∨ ∃ r, p.request = some r ∧ t'.reversed = t.reversed ++ [uuidText r.eventId]) := by
  have hread : ∀ {q : Phase F}, some (t, q) = some (t', p') → q.Sees t → t'.Once ∧ p'.Sees t' ∧
      (t'.reversed = t.reversed ∨ ∃ r, p.request = some r ∧ t'.reversed = t.reversed ++ [uuidText r.eventId]) := by
    intro q heq hq
    cases heq
    exact ⟨honce, hq, .inl rfl⟩
  cases p with
  | received call =>
    simp only [statement, Option.some.injEq] at hstep
    have hreceive : (receive cfg t call).1.Once ∧ (receive cfg t call).2.Sees (receive cfg t call).1 ∧
        (receive cfg t call).1.reversed = t.reversed := once_receive honce call
    rw [hstep] at hreceive
    exact ⟨hreceive.1, hreceive.2.1, .inl hreceive.2.2⟩
  | signing r since =>
    simp only [statement] at hstep
    split at hstep <;> exact hread hstep trivial
  | locking r since =>
    simp only [statement] at hstep
    split_ifs at hstep
    exact hread hstep trivial
  | windowing r since =>
    simp only [statement] at hstep
    split at hstep
    · exact hread hstep trivial
    · split at hstep <;> exact hread hstep trivial
  | reading r recovery window =>
    simp only [statement] at hstep
    split at hstep
    · exact hread hstep trivial
    · split at hstep
      · exact hread hstep trivial
      · split at hstep <;> exact hread hstep trivial
  | checking r recovery event target =>
    refine hread hstep fun hnone => ?_
    rw [hknows.same] at hnone
    exact not_mem_reversed hsound honce hmeets hnone
  | relating r recovery event target reversed =>
    refine hread hstep ?_
    cases target with
    | friend counterparty => exact hsees
    | guild guildId => exact hsees
  | visiting r recovery event guildId ctx => exact hread hstep hsees
  | assessing r recovery event target ctx =>
    refine hread hstep ?_
    rcases decidePlan_cases r recovery event target ctx with ⟨e, heq⟩ | ⟨plan, heq, hplan⟩
    · rw [heq]
      trivial
    · rw [heq]
      exact hsees (assess_eq_plan hplan).1
  | committing r recovery event plan =>
    cases hstep
    obtain ⟨honce', hreversed⟩ : (commitReversal t r recovery event plan).Once ∧
        (commitReversal t r recovery event plan).reversed = t.reversed ++ [uuidText r.eventId] :=
      once_commit honce hknows.same hsees
    exact ⟨honce', trivial, .inr ⟨r, rfl, hreversed⟩⟩
  | settling rows =>
    simp only [statement] at hstep
    split at hstep
    · exact hread hstep trivial
    · next entries hentries =>
      cases hstep
      refine ⟨once_settle hsound honce hentries, fun i hi => ?_, .inl rfl⟩
      have hi' := List.getElem?_eq_getElem (hsees i hi)
      obtain ⟨row, hrow, heq⟩ := (settleRows_eq_some hentries).2 _ (List.mem_filterMap.2 ⟨i, hi, by rw [hi']; rfl⟩)
      exact ⟨_, hi', row, List.mem_append_right _ hrow, heq⟩
  | marking rows =>
    cases rows with
    | nil => exact hread hstep trivial
    | cons i rows =>
      have hgrows := (sound_statement hsound hknows hstep).1
      cases hstep
      refine ⟨honce.same le_rfl rfl (fun o ho hsome => ?_) ?_, fun j hj => ?_, .inl (reversed_modify ..)⟩
      · obtain ⟨j, hj⟩ := List.mem_iff_getElem?.1 ho
        rw [List.getElem?_modify] at hj
        obtain ⟨o₀, ho₀, rfl⟩ := Option.map_eq_some_iff.1 hj
        by_cases hij : i = j
        · obtain ⟨o₁, ho₁, row, hrow, heq⟩ := hsees i (List.mem_cons_self ..)
          rw [hij, ho₀, Option.some.injEq] at ho₁
          exact ⟨row, hrow, by rw [if_pos hij, heq, ho₁]⟩
        · rw [if_neg hij] at hsome ⊢
          exact honce.settled o₀ (List.mem_of_getElem? ho₀) hsome
      · rw [reversed_modify]
        exact honce.once
      · obtain ⟨o, ho, row, hrow, heq⟩ := hsees j (List.mem_cons_of_mem _ hj)
        obtain ⟨o', ho', heq'⟩ := hgrows.outbox j o ho
        exact ⟨o', ho', row, hrow, heq.trans heq'.symm⟩
  | done | answered => cases hstep

theorem once_init (now : OffsetDateTime) : (Tables.init now : Tables F).Once :=
  ⟨by simp [Tables.init], by simp [Tables.init], by simp [Tables.init, Tables.reversed], by simp [Tables.init]⟩

theorem sees_aborted (p : Phase F) : ((program cfg).aborted p).Sees t := by
  cases p <;> exact trivial

theorem once_invariant (cfg : Config F) :
    Invariant (program cfg) Unpruned (fun t => t.Sound cfg ∧ t.Once) (fun t p => p.Knows cfg t ∧ p.Sees t)
      (fun p q => (p.locks cfg).Compatible (q.locks cfg) ∧ True) := by
  refine (disciplined cfg).invariant (fun _ _ _ => trivial) (fun _ _ _ => ⟨⟨trivial, trivial⟩, fun _ => trivial⟩)
    (fun _ p _ _ => ⟨⟨knows_aborted p, sees_aborted p⟩, fun _ _ => trivial⟩) ?_
  rintro t others p t' p' ⟨hsound, honce⟩ ⟨hknows, hsees⟩ hothers hmeets hstep
  obtain ⟨hgrows, hsound', hknows'⟩ := sound_statement hsound hknows hstep
  obtain ⟨honce', hsees', hreversed⟩ := once_statement hsound hknows honce hsees hmeets hstep
  refine ⟨⟨hsound', honce'⟩, ⟨hknows', hsees'⟩, fun q hq _ => ?_⟩
  obtain ⟨⟨hknows, hsees⟩, hcompatible, -⟩ := hothers q hq
  refine ⟨⟨hknows.grows hgrows, hsees.grows hgrows fun r' hr' hmem => ?_⟩, trivial⟩
  rcases hreversed with heq | ⟨r, hr, heq⟩
  · rwa [heq] at hmem
  · -- the other call has locked another event
    rw [heq, List.mem_append] at hmem
    refine hmem.resolve_right fun hsame => ?_
    have hsame := uuidText_injective (List.mem_singleton.1 hsame)
    rw [locks_of_request hr, locks_of_request hr', hsame] at hcompatible
    exact (hcompatible.1 _ (List.mem_singleton.2 rfl)).1 (List.mem_singleton.2 rfl)

end

/-- **No event is reversed twice.** Whatever runs side by side, the outbox has at most one compensating event of each event, and
the ledger no other: a drain that fails and sends its batch again sends the same one. The condition is needed: a call reads the
event and then looks for its reversals, and a pruning between the two takes the payloads of both. -/
theorem reversed_once (cfg : Config F) (now : OffsetDateTime) (ops : List (Op (Call F)))
    (halong : Along (program cfg) Unpruned ⟨.init now, []⟩ ops) :
    let t := (run (program cfg) ⟨.init now, []⟩ ops).tables
    (t.outbox.filterMap fun row => reverses row.event).Nodup ∧
      ∀ row ∈ t.ledger, ∀ o ∈ t.outbox, ∀ x, reverses row.event = some x → reverses o.event = some x → row.event = o.event := by
  intro t
  have hinv : Inv _ _ _ (run (program cfg) ⟨.init now, []⟩ ops) :=
    inv_run (once_invariant cfg) (inv_init ⟨sound_init now, once_init now⟩) halong
  obtain ⟨hsound, honce⟩ : t.Sound cfg ∧ t.Once := hinv.tables
  refine ⟨honce.once, fun row hrow o ho x hrow' ho' => ?_⟩
  obtain ⟨o₁, ho₁, heq⟩ := hsound.sent row hrow
  rw [← heq] at hrow' ⊢
  by_contra hne
  have hpairs := List.pairwise_filterMap.1 honce.once
  have hsymm : Std.Symm fun a b : OutboxRow F => ∀ y, reverses a.event = some y → ∀ z, reverses b.event = some z → y ≠ z :=
    ⟨fun a b hab y hy z hz => (hab z hz y hy).symm⟩
  exact hpairs.forall ho₁ ho (fun hsame => hne (by rw [hsame])) x hrow' x ho' rfl

/-- a node whose keys sign everything, on the day of the epoch -/
def epochNode : Config Unit where
  verifier := ⟨⟨id, fun _ _ => .replicate 64 0, fun _ _ _ => true⟩, fun _ => true⟩
  codec := ⟨fun payload _ => payload, fun _ => none⟩
  parseRfc3339 text := if text = "1970-01-01T00:00:00Z" then some 0 else none
  lockKey := String.length

def joiner : IdentityId := ⟨.replicate 32 1⟩

def joinedGuild : Uuid := .replicate 16 4

def joining : Event Unit := ⟨.replicate 16 3, "guild.member_added", identityRef joiner "guild_member_added",
  guildRef joinedGuild "guild_member_added",
  membershipReversal (.replicate 16 0) (.replicate 16 0) joinedGuild joiner "", 0, 1, none⟩

def reverseJoining (reversalId : Uuid) : Call Unit :=
  .reverse ⟨joiner, .replicate 16 3, "1970-01-01T00:00:00Z",
    ⟨some (.replicate 16 2), some (String.ofList (.replicate 86 'A' ++ ['=', '=']))⟩, reversalId⟩

def statements (i n : ℕ) : List (Op (Call Unit)) := .replicate n (.advance i)

/-- a member joins and recovers -/
def recoveredJoiner : List (Op (Call Unit)) :=
  [.call (.writeKeys [⟨.replicate 16 2, joiner, .replicate 32 0, false⟩]), .advance 0, .call (.enqueue joining), .advance 1,
    .call (.wait 1), .advance 2, .call (.completeRecovery (.replicate 16 5) joiner), .advance 3,
    .call (.write ∅ [(joinedGuild, joiner)] [⟨joinedGuild, ⟨.replicate 32 9⟩, "open"⟩]), .advance 4,
    .call (.drain [0]), .advance 5, .advance 5, .advance 5, .call (reverseJoining (.replicate 16 6)),
    .call (reverseJoining (.replicate 16 7))]

def failedDrain : List (Op (Call Unit)) := [.call (.drain [1]), .advance 8, .advance 8, .abort 8]

/-- the joining is reversed twice side by side, while a drain sends the first reversal and fails -/
def reversedJoining : List (Op (Call Unit)) :=
  recoveredJoiner ++ statements 6 5 ++ statements 7 5 ++ statements 6 5 ++ failedDrain ++ statements 7 8

theorem reversed_once_joining :
    let t := (run (program epochNode) ⟨.init 0, []⟩ reversedJoining).tables
    (t.outbox.length = 2 ∧ t.ledger.length = 2 ∧ t.members.length = 0) ∧
      (t.outbox.filterMap fun row => reverses row.event).Nodup :=
  ⟨by decide +kernel, (reversed_once epochNode 0 reversedJoining (by decide +kernel)).1⟩

end Avalon.Rollback
