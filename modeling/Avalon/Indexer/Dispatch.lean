/-
Deliveries to the indexer (`crates/indexer/src/postgres.rs`: `apply_verified`, `dispatch`).

An event is claimed under its id and the shard that delivered it; a delivery that finds the claim taken changes nothing. Behind
the claim the event is verified, recorded in its owner's identity chain, and projected. All of this is one savepoint: a delivery
that ends in an error leaves nothing behind. A chained event whose timestamp is too far ahead of the receiver's clock is
dropped, but that is no error: its claim stays.

`dispatch` takes the answers of the verification and of the projection as arguments; the modules on profiles and keys give
them. Here they are inputs of a delivery, and the chain of one identity is looked at.

Results:
- `dispatch_cases`: what a delivery does to the claims, to the chain and to the projections.
- `held_receiveAll`: what is stored after any deliveries, and what the claims stand for.
- `clock_differences_heal`: two indexers whose clocks differ end with the same chain state, if every event reaches both of them on
  a claim that no earlier delivery has spent.
- `early_delivery_never_heals`: one that was delivered too early is never recorded.
-/
import Mathlib.Tactic
import Avalon.Core.Fallible
import Avalon.Protocol.Events
import Avalon.Protocol.IdentityId
import Avalon.Protocol.IdentityChain
import Avalon.Protocol.IdentityChainWire
import Avalon.Indexer.ChainStore

namespace Avalon.Dispatch

open Json Avalon.Events Avalon.Identity Avalon.IdentityChain Avalon.LedgerEntry Avalon.ChainStore
open Fallible

variable {F : Type} [F64 F]

/-! ## Model -/

/-- the tables of the indexer: `indexer_applied_events`, the identity chains, and the projections -/
structure Indexed (F S : Type) where
  applied : List (Uuid × String)
  chains : IdentityId → Chain F
  projected : S

/-- `record`, on the chain of the event's owner -/
def recordOn (now : OffsetDateTime) (chains : IdentityId → Chain F) (event : Event F) :
    Except StoreError ((IdentityId → Chain F) × Recorded F) :=
  match chainOwner event with
  | none => .ok (chains, .unchained)
  | some owner => (record now (chains owner) event).map fun r => (Function.update chains owner r.1, r.2)

/-- whether the projections follow: not for a duplicate or a dropped event -/
def goesOn : Recorded F → Bool
  | .duplicate | .rejected _ => false
  | .unchained | .chained .. => true

/-- one delivery, with the answer of the verification and what the projections make of it -/
def dispatch {E V S : Type} (storage : StoreError → E) (verify : Except E V) (project : V → Recorded F → Except E S)
    (now : OffsetDateTime) (shardId : String) (s : Indexed F S) (event : Event F) : Except E (Indexed F S) :=
  if (event.id, shardId) ∈ s.applied then .ok s
  else do
    let verified ← verify
    let (chains, recorded) ← (recordOn now s.chains event).mapError storage
    let applied := s.applied ++ [(event.id, shardId)]
    if goesOn recorded then
      return ⟨applied, chains, ← project verified recorded⟩
    else
      return ⟨applied, chains, s.projected⟩

/-- `apply_verified`: the savepoint is rolled back on an error -/
def applyVerified {E S : Type} (s : Indexed F S) (result : Except E (Indexed F S)) : Indexed F S :=
  match result with
  | .ok s' => s'
  | .error _ => s

/-! ## Deliveries of chained events -/

/-- a delivery, with whether the event is verified and projected -/
structure Arrival (F : Type) where
  now : OffsetDateTime
  shardId : String
  event : Event F
  verified : Bool
  projected : Bool

inductive Refusal where
  | verification
  | projection
  | storage (e : StoreError)

/-- the answer of the verification -/
def Arrival.verify (a : Arrival F) : Except Refusal Unit := if a.verified then .ok () else .error .verification

/-- the answer of the projections -/
def Arrival.project (a : Arrival F) (_ : Unit) (_ : Recorded F) : Except Refusal Unit :=
  if a.projected then .ok () else .error .projection

def receive (s : Indexed F Unit) (a : Arrival F) : Indexed F Unit :=
  applyVerified s (dispatch .storage a.verify a.project a.now a.shardId s a.event)

def empty : Indexed F Unit := ⟨[], fun _ => .empty, ()⟩

def receiveAll (as : List (Arrival F)) : Indexed F Unit := as.foldl receive empty

/-- the delivery ends in an error, if the claim is free -/
def Refused (a : Arrival F) : Prop := a.verified = false ∨ (Timely a.now a.event ∧ a.projected = false)

instance (a : Arrival F) : Decidable (Refused a) :=
  inferInstanceAs (Decidable (a.verified = false ∨ (Timely a.now a.event ∧ a.projected = false)))

/-- the delivery takes the claim of an event on a shard, without recording that event -/
def Spends (a : Arrival F) (event : Event F) (shardId : String) : Prop :=
  a.event.id = event.id ∧ a.shardId = shardId ∧ ¬ Refused a ∧ (a.event = event → ¬ Timely a.now a.event)

/-- the event comes when it is timely and is not refused, on a claim that no earlier delivery has spent -/
def Reaches (as : List (Arrival F)) (event : Event F) : Prop :=
  ∃ before a after, as = before ++ a :: after ∧ a.event = event ∧ Timely a.now event ∧ ¬ Refused a ∧
    ∀ b ∈ before, ¬ Spends b event a.shardId

/-- chained events of one identity, no two with one chain hash -/
structure Delivered (owner : IdentityId) (as : List (Arrival F)) : Prop where
  owner : ∀ a ∈ as, chainOwner a.event = some owner
  chained : ∀ a ∈ as, (chainedEvent a.event).isSome
  distinct : ∀ a ∈ as, ∀ b ∈ as, ∀ hash, eventHash a.event = .ok hash → eventHash b.event = .ok hash → a.event = b.event

/-! ## One delivery -/

theorem record_eq_recordLocked {owner : IdentityId} {event : Event F} {ch : ChainedEvent} (howner : chainOwner event = some owner)
    (hch : chainedEvent event = some ch) (now : OffsetDateTime) (c : Chain F) :
    record now c event = recordLocked now (lockState c).1 event := by
  obtain ⟨_, position, _, _, -, hposition, -⟩ := chainedEvent_eq_some.1 hch
  unfold record
  rw [if_neg]
  rw [hposition, howner]
  simp

section

variable {E V S : Type} {storage : StoreError → E} {verify : Except E V} {project : V → Recorded F → Except E S}
  {now : OffsetDateTime} {shardId : String} {s : Indexed F S} {event : Event F}

/-- a redelivery changes nothing -/
theorem dispatch_of_claimed (h : (event.id, shardId) ∈ s.applied) :
    dispatch storage verify project now shardId s event = .ok s := by
  rw [dispatch, if_pos h]

/-- what follows a recorded event -/
def follow (project : V → Recorded F → Except E S) (shardId : String) (s : Indexed F S) (event : Event F) (verified : V)
    (r : (IdentityId → Chain F) × Recorded F) : Except E (Indexed F S) :=
  if goesOn r.2 then (project verified r.2).map fun p => ⟨s.applied ++ [(event.id, shardId)], r.1, p⟩
  else .ok ⟨s.applied ++ [(event.id, shardId)], r.1, s.projected⟩

theorem dispatch_of_free (h : (event.id, shardId) ∉ s.applied) :
    dispatch storage verify project now shardId s event =
      verify.bind fun verified => ((recordOn now s.chains event).mapError storage).bind fun r =>
        follow project shardId s event verified r := by
  rw [dispatch, if_neg h]
  cases verify with
  | error e => rfl
  | ok verified =>
    cases recordOn now s.chains event with
    | error e => rfl
    | ok r =>
      change (if goesOn r.2 = true then _ else _) = (if goesOn r.2 = true then _ else _)
      split_ifs
      · cases project verified r.2 <;> rfl
      · rfl

/-- **What a delivery projects**: nothing, or what follows from its verified event -/
theorem projected_cases :
    (applyVerified s (dispatch storage verify project now shardId s event)).projected = s.projected ∨
      ∃ verified recorded, verify = .ok verified ∧
        project verified recorded = .ok (applyVerified s (dispatch storage verify project now shardId s event)).projected := by
  by_cases hclaimed : (event.id, shardId) ∈ s.applied
  · left
    rw [dispatch_of_claimed hclaimed, applyVerified]
  · cases hresult : dispatch storage verify project now shardId s event with
    | error e => exact .inl rfl
    | ok s' =>
      rw [dispatch_of_free hclaimed] at hresult
      obtain ⟨verified, hverified, hresult⟩ := bind_eq_ok.1 hresult
      obtain ⟨r, -, hresult⟩ := bind_eq_ok.1 hresult
      unfold follow at hresult
      split at hresult
      · cases hproject : project verified r.2 with
        | error e =>
          rw [hproject] at hresult
          cases hresult
        | ok p =>
          rw [hproject] at hresult
          cases hresult
          exact .inr ⟨verified, r.2, hverified, hproject⟩
      · cases hresult
        exact .inl rfl

/-- a delivery that took the claim: the event was dropped or is a duplicate, or it was recorded and projected -/
structure Claimed (verify : Except E V) (project : V → Recorded F → Except E S) (now : OffsetDateTime) (shardId : String)
    (s s' : Indexed F S) (event : Event F) (owner : IdentityId) (ch : ChainedEvent) : Prop where
  free : (event.id, shardId) ∉ s.applied
  applied : s'.applied = s.applied ++ [(event.id, shardId)]
  chain : ∃ verified, verify = .ok verified ∧
    (((¬ Timely now event ∨ heldByOther (s.chains owner).rows ch.eventHash event.id = true) ∧
        s'.chains owner = (lockState (s.chains owner)).1 ∧ s'.projected = s.projected) ∨
      ∃ r, Timely now event ∧ Took (lockState (s.chains owner)).1 (s'.chains owner) event ch.eventHash r ∧
        project verified r = .ok s'.projected)

/-- the delivery left nothing behind: the claim was taken, or it ended in an error -/
def Ignored (verify : Except E V) (project : V → Recorded F → Except E S) (now : OffsetDateTime) (shardId : String)
    (s : Indexed F S) (event : Event F) : Prop :=
  (event.id, shardId) ∈ s.applied ∨ (∃ e, verify = .error e) ∨
    ∃ verified r e, Timely now event ∧ verify = .ok verified ∧ project verified r = .error e

/-- **What a delivery does**: nothing if the claim is taken or it ends in an error, else it takes the claim; the event is recorded
and projected if it is timely and no duplicate -/
theorem dispatch_cases {owner : IdentityId} {ch : ChainedEvent} (hok : (s.chains owner).Ok) (howner : chainOwner event = some owner)
    (hch : chainedEvent event = some ch) :
    (applyVerified s (dispatch storage verify project now shardId s event) = s ∧ Ignored verify project now shardId s event) ∨
      Claimed verify project now shardId s (applyVerified s (dispatch storage verify project now shardId s event)) event owner
        ch := by
  by_cases hclaimed : (event.id, shardId) ∈ s.applied
  · left
    refine ⟨?_, .inl hclaimed⟩
    rw [dispatch_of_claimed hclaimed, applyVerified]
  rw [dispatch_of_free hclaimed]
  cases hverify : verify with
  | error e => exact .inl ⟨rfl, .inr (.inl ⟨e, rfl⟩)⟩
  | ok verified =>
    have hrecord : recordOn now s.chains event =
        (recordLocked now (lockState (s.chains owner)).1 event).map fun r => (Function.update s.chains owner r.1, r.2) := by
      rw [recordOn, howner]
      dsimp only
      rw [record_eq_recordLocked howner hch]
    rw [hrecord]
    rcases recordLocked_cases (ok_lockState hok) rfl now event with ⟨r, hout, hleft⟩ | ⟨ch', c', r, hin, htimely, hch', -, htook⟩
    · right
      have hdropped : (¬ Timely now event ∨ heldByOther (s.chains owner).rows ch.eventHash event.id = true) ∧
          goesOn r = false := by
        cases hleft with
        | unchained hnone =>
          rw [hnone] at hch
          cases hch
        | rejected e hreason =>
          refine ⟨.inl (hreason.resolve_left ?_), rfl⟩
          rw [hch]
          simp
        | duplicate ch' hch' hheld =>
          obtain rfl := Option.some.inj (hch.symm.trans hch')
          exact ⟨.inr hheld, rfl⟩
      have hresult : follow project shardId s event verified (Function.update s.chains owner (lockState (s.chains owner)).1, r) =
          .ok ⟨s.applied ++ [(event.id, shardId)], Function.update s.chains owner (lockState (s.chains owner)).1,
            s.projected⟩ := by
        rw [follow, hdropped.2]
        rfl
      rw [hout]
      change Claimed _ _ _ _ _ (applyVerified s (follow project shardId s event verified
        (Function.update s.chains owner (lockState (s.chains owner)).1, r))) _ _ _
      rw [hresult]
      exact ⟨hclaimed, rfl, verified, rfl, .inl ⟨hdropped.1, Function.update_self .., rfl⟩⟩
    · obtain rfl := Option.some.inj (hch.symm.trans hch')
      have hgoes : goesOn r = true := by
        obtain ⟨displaced, newlyAccepted, rfl, -⟩ := htook.report
        rfl
      have hresult : follow project shardId s event verified (Function.update s.chains owner c', r) =
          (project verified r).map fun p => ⟨s.applied ++ [(event.id, shardId)], Function.update s.chains owner c', p⟩ := by
        rw [follow, if_pos hgoes]
      rw [hin]
      change (applyVerified s (follow project shardId s event verified (Function.update s.chains owner c', r)) = s ∧ _) ∨
        Claimed _ _ _ _ _ (applyVerified s (follow project shardId s event verified (Function.update s.chains owner c', r))) _ _ _
      rw [hresult]
      cases hproject : project verified r with
      | error e => exact .inl ⟨rfl, .inr (.inr ⟨verified, r, e, htimely, rfl, hproject⟩)⟩
      | ok p =>
        refine .inr ⟨hclaimed, rfl, verified, rfl, .inr ⟨r, htimely, ?_, hproject⟩⟩
        change Took _ (Function.update s.chains owner c' owner) _ _ _
        rw [Function.update_self]
        exact htook

end

/-- a delivery changes the tables, and how -/
structure Claims (s s' : Indexed F Unit) (owner : IdentityId) (a : Arrival F) (ch : ChainedEvent) : Prop where
  free : (a.event.id, a.shardId) ∉ s.applied
  kept : ¬ Refused a
  applied : s'.applied = s.applied ++ [(a.event.id, a.shardId)]
  chain : (¬ Timely a.now a.event ∧ s'.chains owner = (lockState (s.chains owner)).1) ∨
    ∃ r, Timely a.now a.event ∧ Took (lockState (s.chains owner)).1 (s'.chains owner) a.event ch.eventHash r

/-- a delivery is ignored or refused, or it takes the claim, and records the event if it is timely -/
theorem receive_cases {s : Indexed F Unit} {a : Arrival F} {owner : IdentityId} {ch : ChainedEvent}
    (hok : (s.chains owner).Ok) (howner : chainOwner a.event = some owner) (hch : chainedEvent a.event = some ch)
    (hheld : heldByOther (s.chains owner).rows ch.eventHash a.event.id = false) :
    (receive s a = s ∧ ((a.event.id, a.shardId) ∈ s.applied ∨ Refused a)) ∨ Claims s (receive s a) owner a ch := by
  have hverify : ∀ e, a.verify = .error e → a.verified = false := by
    intro e he
    cases hverified : a.verified <;> simp [Arrival.verify, hverified] at he ⊢
  have hproject : ∀ u r e, a.project u r = .error e → a.projected = false := by
    intro u r e he
    cases hprojected : a.projected <;> simp [Arrival.project, hprojected] at he ⊢
  have hcases : (receive s a = s ∧ Ignored a.verify a.project a.now a.shardId s a.event) ∨
      Claimed a.verify a.project a.now a.shardId s (receive s a) a.event owner ch := dispatch_cases hok howner hch
  rcases hcases with ⟨hsame, hignored⟩ | hclaimed
  · left
    refine ⟨hsame, hignored.imp id ?_⟩
    rintro (⟨e, he⟩ | ⟨u, r, e, htimely, -, he⟩)
    · exact .inl (hverify e he)
    · exact .inr ⟨htimely, hproject u r e he⟩
  · right
    obtain ⟨u, hverified, hchain⟩ := hclaimed.chain
    refine ⟨hclaimed.free, ?_, hclaimed.applied, ?_⟩
    · rintro (hne | ⟨htimely, hne⟩)
      · simp [Arrival.verify, hne] at hverified
      · rcases hchain with ⟨hout, -⟩ | ⟨r, -, -, hprojected⟩
        · rcases hout with hlate | hother
          · exact hlate htimely
          · rw [hheld] at hother
            cases hother
        · simp [Arrival.project, hne] at hprojected
    · rcases hchain with ⟨hout, hsame, -⟩ | ⟨r, htimely, htook, -⟩
      · refine .inl ⟨hout.resolve_right ?_, hsame⟩
        rw [hheld]
        simp
      · exact .inr ⟨r, htimely, htook⟩

/-! ## Runs of deliveries -/

/-- what is stored after some deliveries, and what the claims stand for -/
structure Held (owner : IdentityId) (as : List (Arrival F)) (s : Indexed F Unit) : Prop where
  ok : (s.chains owner).Ok
  events : ∀ e ∈ (s.chains owner).events, (∃ a ∈ as, a.event = e) ∧ (s.chains owner).state.isSome
  applied : ∀ key ∈ s.applied, ∃ a ∈ as, (a.event.id, a.shardId) = key ∧ ¬ Refused a ∧
    (Timely a.now a.event → a.event ∈ (s.chains owner).events)

theorem Delivered.of_append {owner : IdentityId} {as bs : List (Arrival F)} (h : Delivered owner (as ++ bs)) : Delivered owner as :=
  have hmem : ∀ {a}, a ∈ as → a ∈ as ++ bs := fun ha => List.mem_append_left bs ha
  ⟨fun a ha => h.owner a (hmem ha), fun a ha => h.chained a (hmem ha), fun a ha b hb => h.distinct a (hmem ha) b (hmem hb)⟩

theorem receiveAll_concat (as : List (Arrival F)) (a : Arrival F) : receiveAll (as ++ [a]) = receive (receiveAll as) a := by
  rw [receiveAll, receiveAll, List.foldl_append]
  rfl

theorem held_empty (owner : IdentityId) : Held owner [] (empty : Indexed F Unit) := by
  refine ⟨ok_empty, fun e he => ?_, fun key hkey => ?_⟩
  · cases he
  · cases hkey

section Step

variable {owner : IdentityId} {as : List (Arrival F)} {a : Arrival F} {s : Indexed F Unit} {ch : ChainedEvent}

/-- a stored event with the hash of a delivered one is that event -/
theorem Held.eq_of_hash (h : Held owner as s) (hall : Delivered owner (as ++ [a])) (hch : chainedEvent a.event = some ch)
    {t : Stored F} (ht : t ∈ storedOf (s.chains owner).events) (hhash : t.chained.eventHash = ch.eventHash) :
    t.event = a.event := by
  obtain ⟨hmem, htc⟩ := mem_storedOf.1 ht
  obtain ⟨⟨b, hb, hevent⟩, -⟩ := h.events t.event hmem
  rw [← hevent] at htc ⊢
  exact hall.distinct b (List.mem_append_left _ hb) a (by simp) ch.eventHash (hhash ▸ eventHash_of_chainedEvent htc)
    (eventHash_of_chainedEvent hch)

theorem Held.not_heldByOther (h : Held owner as s) (hall : Delivered owner (as ++ [a])) (hch : chainedEvent a.event = some ch) :
    heldByOther (s.chains owner).rows ch.eventHash a.event.id = false := by
  rw [Bool.eq_false_iff]
  intro hheld
  obtain ⟨t, ht, hhash, hne⟩ := stored_of_heldByOther h.ok hheld
  exact hne (congrArg ProtocolEvent.id (h.eq_of_hash hall hch ht hhash))

/-- the chain after a delivery that took the claim holds what it held, and the event if that was timely -/
theorem Claims.events {s' : Indexed F Unit} (hclaims : Claims s s' owner a ch) (h : Held owner as s)
    (hall : Delivered owner (as ++ [a])) (hch : chainedEvent a.event = some ch) :
    (s'.chains owner).Ok ∧ (s'.chains owner).state.isSome ∧ (s.chains owner).events ⊆ (s'.chains owner).events ∧
      (∀ e ∈ (s'.chains owner).events, e ∈ (s.chains owner).events ∨ e = a.event) ∧
      (Timely a.now a.event → a.event ∈ (s'.chains owner).events) := by
  rcases hclaims.chain with ⟨hlate, hsame⟩ | ⟨r, -, htook⟩
  · rw [hsame]
    exact ⟨ok_lockState h.ok, rfl, fun e he => he, fun e he => .inl he, fun htimely => absurd htimely hlate⟩
  · have hevents : (s'.chains owner).events = eventsWith (s.chains owner).events a.event ch.eventHash := htook.events
    refine ⟨htook.ok, by rw [htook.state]; rfl, ?_, ?_, fun _ => ?_⟩
    · rw [hevents]
      exact subset_eventsWith _ _ _
    · intro e he
      rw [hevents, eventsWith] at he
      split_ifs at he
      · exact .inl he
      · rcases List.mem_append.1 he with he | he
        · exact .inl he
        · exact .inr (List.mem_singleton.1 he)
    · rw [hevents, eventsWith]
      split_ifs with hheld
      · -- the hash is stored already, for this very event
        obtain ⟨t, ht, hhash⟩ := hheld
        exact h.eq_of_hash hall hch ht hhash ▸ (mem_storedOf.1 ht).1
      · simp

theorem held_receive (h : Held owner as s) (hall : Delivered owner (as ++ [a])) : Held owner (as ++ [a]) (receive s a) := by
  have ha : a ∈ as ++ [a] := by simp
  obtain ⟨ch, hch⟩ := Option.isSome_iff_exists.1 (hall.chained a ha)
  rcases receive_cases h.ok (hall.owner a ha) hch (h.not_heldByOther hall hch) with ⟨hsame, -⟩ | hclaims
  · rw [hsame]
    refine ⟨h.ok, fun e he => ?_, fun key hkey => ?_⟩
    · obtain ⟨⟨b, hb, hevent⟩, hstate⟩ := h.events e he
      exact ⟨⟨b, List.mem_append_left _ hb, hevent⟩, hstate⟩
    · obtain ⟨b, hb, hclaim⟩ := h.applied key hkey
      exact ⟨b, List.mem_append_left _ hb, hclaim⟩
  · obtain ⟨hok, hstate, hsub, hnew, hrecorded⟩ := hclaims.events h hall hch
    refine ⟨hok, fun e he => ⟨?_, hstate⟩, fun key hkey => ?_⟩
    · rcases hnew e he with hold | rfl
      · obtain ⟨⟨b, hb, hevent⟩, -⟩ := h.events e hold
        exact ⟨b, List.mem_append_left _ hb, hevent⟩
      · exact ⟨a, ha, rfl⟩
    · rw [hclaims.applied, List.mem_append, List.mem_singleton] at hkey
      rcases hkey with hkey | rfl
      · obtain ⟨b, hb, hid, hkept, hstored⟩ := h.applied key hkey
        exact ⟨b, List.mem_append_left _ hb, hid, hkept, fun htimely => hsub (hstored htimely)⟩
      · exact ⟨a, ha, rfl, hclaims.kept, hrecorded⟩

/-- no delivery loses a stored event -/
theorem events_receive (h : Held owner as s) (hall : Delivered owner (as ++ [a])) :
    (s.chains owner).events ⊆ ((receive s a).chains owner).events := by
  have ha : a ∈ as ++ [a] := by simp
  obtain ⟨ch, hch⟩ := Option.isSome_iff_exists.1 (hall.chained a ha)
  rcases receive_cases h.ok (hall.owner a ha) hch (h.not_heldByOther hall hch) with ⟨hsame, -⟩ | hclaims
  · rw [hsame]
    exact fun e he => he
  · exact (hclaims.events h hall hch).2.2.1

/-- **A timely event on an unspent claim is stored** -/
theorem stored_of_unspent (h : Held owner as s) (hall : Delivered owner (as ++ [a])) (htimely : Timely a.now a.event)
    (hkept : ¬ Refused a) (hunspent : ∀ b ∈ as, ¬ Spends b a.event a.shardId) :
    a.event ∈ ((receive s a).chains owner).events := by
  have ha : a ∈ as ++ [a] := by simp
  obtain ⟨ch, hch⟩ := Option.isSome_iff_exists.1 (hall.chained a ha)
  rcases receive_cases h.ok (hall.owner a ha) hch (h.not_heldByOther hall hch) with ⟨hsame, hclaimed | hrefused⟩ | hclaims
  · -- the claim was taken by a delivery of this very event, when it was timely
    obtain ⟨b, hb, hid, hkeptb, hstored⟩ := h.applied _ hclaimed
    obtain ⟨hid, hshard⟩ := Prod.mk.inj hid
    rw [hsame]
    by_contra hmissing
    refine hunspent b hb ⟨hid, hshard, hkeptb, fun hevent htimelyb => hmissing ?_⟩
    exact hevent ▸ hstored htimelyb
  · exact absurd hrefused hkept
  · exact (hclaims.events h hall hch).2.2.2.2 htimely

end Step

/-- **A run of deliveries** -/
theorem held_receiveAll {owner : IdentityId} {as : List (Arrival F)} (h : Delivered owner as) : Held owner as (receiveAll as) := by
  induction as using List.reverseRecOn with
  | nil => exact held_empty owner
  | append_singleton as a ih =>
    rw [receiveAll_concat]
    exact held_receive (ih h.of_append) h

theorem events_receiveAll_append {owner : IdentityId} {as : List (Arrival F)} (bs : List (Arrival F))
    (h : Delivered owner (as ++ bs)) :
    ((receiveAll as).chains owner).events ⊆ ((receiveAll (as ++ bs)).chains owner).events := by
  induction bs using List.reverseRecOn with
  | nil =>
    rw [List.append_nil]
    exact fun e he => he
  | append_singleton bs b ih =>
    rw [← List.append_assoc] at h ⊢
    rw [receiveAll_concat]
    exact fun e he => events_receive (held_receiveAll h.of_append) h (ih h.of_append he)

/-- an event that reaches the indexer is stored -/
theorem stored_of_reaches {owner : IdentityId} {as : List (Arrival F)} (h : Delivered owner as) {event : Event F}
    (hreach : Reaches as event) : event ∈ ((receiveAll as).chains owner).events := by
  obtain ⟨before, a, after, rfl, rfl, htimely, hkept, hunspent⟩ := hreach
  have hsplit : before ++ a :: after = (before ++ [a]) ++ after := by simp
  rw [hsplit] at h ⊢
  refine events_receiveAll_append after h ?_
  rw [receiveAll_concat]
  exact stored_of_unspent (held_receiveAll h.of_append.of_append) h.of_append htimely hkept hunspent

/-- **Clock differences heal.** Two indexers receive chained events of one identity, no two of them with one chain hash, at any
times of their clocks, in any order and number. If each event that either receives reaches both of them, then both have the
same head, head hash and fork. -/
theorem clock_differences_heal {owner : IdentityId} {as bs : List (Arrival F)} (ha : Delivered owner as) (hb : Delivered owner bs)
    (hreach : ∀ a ∈ as ++ bs, Reaches as a.event ∧ Reaches bs a.event) :
    ((receiveAll as).chains owner).state = ((receiveAll bs).chains owner).state := by
  have hheld := held_receiveAll ha
  have hheld' := held_receiveAll hb
  have hsame : ∀ e, e ∈ ((receiveAll as).chains owner).events ↔ e ∈ ((receiveAll bs).chains owner).events := by
    intro e
    constructor
    · intro he
      obtain ⟨⟨a, hmem, rfl⟩, -⟩ := hheld.events e he
      exact stored_of_reaches hb (hreach a (List.mem_append_left _ hmem)).2
    · intro he
      obtain ⟨⟨b, hmem, rfl⟩, -⟩ := hheld'.events e he
      exact stored_of_reaches ha (hreach b (List.mem_append_right _ hmem)).1
  have hperm := (List.perm_ext_iff_of_nodup hheld.ok.nodup hheld'.ok.nodup).2 hsame
  have hresolved := outcome_perm hheld.ok.distinctHashes hperm
  cases hevents : ((receiveAll as).chains owner).events with
  | nil =>
    -- no event was ever delivered
    have hnone : as = [] ∧ bs = [] := by
      rw [← List.append_eq_nil_iff]
      by_contra hne
      obtain ⟨a, hmem⟩ := List.exists_mem_of_ne_nil _ hne
      have hstored := stored_of_reaches ha (hreach a hmem).1
      rw [hevents] at hstored
      cases hstored
    rw [hnone.1, hnone.2]
  | cons e rest =>
    have he : e ∈ ((receiveAll as).chains owner).events := by rw [hevents]; exact List.mem_cons_self
    obtain ⟨state, hstate⟩ := Option.isSome_iff_exists.1 (hheld.events e he).2
    obtain ⟨state', hstate'⟩ := Option.isSome_iff_exists.1 (hheld'.events e ((hsame e).1 he)).2
    have hrow := hheld.ok.state
    have hrow' := hheld'.ok.state
    rw [hstate, Option.getD_some] at hrow
    rw [hstate', Option.getD_some] at hrow'
    rw [hstate, hstate', hrow, hrow', hresolved]

/-! ## A delivery that comes too early -/

def arrival (now : OffsetDateTime) (shardId : String) (event : Event Decimal) : Arrival Decimal := ⟨now, shardId, event, true, true⟩

theorem delivered_of_received {owner : IdentityId} {ds : List (Delivery F)} (h : Received owner ds) {as : List (Arrival F)}
    (has : ∀ a ∈ as, ∃ d ∈ ds, d.event = a.event) : Delivered owner as := by
  refine ⟨fun a ha => ?_, fun a ha => ?_, fun a ha b hb hash hhash hhash' => ?_⟩
  · obtain ⟨d, hd, hevent⟩ := has a ha
    exact hevent ▸ h.owner d hd
  · obtain ⟨d, hd, hevent⟩ := has a ha
    exact hevent ▸ h.chained d hd
  · obtain ⟨d, hd, hevent⟩ := has a ha
    obtain ⟨d', hd', hevent'⟩ := has b hb
    rw [← hevent] at hhash ⊢
    rw [← hevent'] at hhash' ⊢
    exact h.distinct d hd d' hd' hash hhash hhash'

/-- the first removal comes too early on one shard, and again in time on another; the two removals have one id, so the second
comes on a third shard -/
def removalsHere : List (Arrival Decimal) :=
  [arrival (-3600000000000) "game:arcade" firstRemoval, arrival 2000000000 "core" firstRemoval,
    arrival 2000000000 "game:lobby" secondRemoval]

/-- another order and another clock, and one delivery again -/
def removalsThere : List (Arrival Decimal) :=
  [arrival 5000000000 "core" secondRemoval, arrival 6000000000 "game:lobby" firstRemoval, arrival 7000000000 "core" secondRemoval]

theorem delivered_removalsHere : Delivered ada removalsHere :=
  delivered_of_received received_waitingRemovals (by simp [removalsHere, waitingRemovals, arrival])

theorem delivered_removalsThere : Delivered ada removalsThere :=
  delivered_of_received received_waitingRemovals (by simp [removalsThere, waitingRemovals, arrival])

theorem reaches_removalsHere : Reaches removalsHere firstRemoval ∧ Reaches removalsHere secondRemoval := by
  constructor
  · refine ⟨[arrival (-3600000000000) "game:arcade" firstRemoval], _, _, rfl, rfl, by decide, by decide, ?_⟩
    simp [Spends, arrival]
  · refine ⟨[arrival (-3600000000000) "game:arcade" firstRemoval, arrival 2000000000 "core" firstRemoval], _, _, rfl, rfl,
      by decide, by decide, ?_⟩
    simp [Spends, arrival]

theorem reaches_removalsThere : Reaches removalsThere firstRemoval ∧ Reaches removalsThere secondRemoval := by
  constructor
  · refine ⟨[arrival 5000000000 "core" secondRemoval], _, _, rfl, rfl, by decide, by decide, ?_⟩
    simp [Spends, arrival]
  · refine ⟨[], _, _, rfl, rfl, by decide, by decide, by simp⟩

theorem clock_differences_heal_removals :
    ((receiveAll removalsHere).chains ada).state = ((receiveAll removalsThere).chains ada).state := by
  refine clock_differences_heal delivered_removalsHere delivered_removalsThere fun a ha => ?_
  have hcases : a.event = firstRemoval ∨ a.event = secondRemoval := by
    simp only [removalsHere, removalsThere, List.cons_append, List.nil_append, List.mem_cons, List.not_mem_nil, or_false] at ha
    rcases ha with rfl | rfl | rfl | rfl | rfl | rfl <;> simp [arrival]
  rcases hcases with h | h
  · rw [h]
    exact ⟨reaches_removalsHere.1, reaches_removalsThere.1⟩
  · rw [h]
    exact ⟨reaches_removalsHere.2, reaches_removalsThere.2⟩

/-- the removal of a second past the epoch comes when this clock is an hour behind it, and again when it has passed it -/
def earlyThenAgain : List (Arrival Decimal) :=
  [arrival (-3600000000000) "core" firstRemoval, arrival 2000000000 "core" firstRemoval]

def twiceInTime : List (Arrival Decimal) := [arrival 2000000000 "core" firstRemoval, arrival 2000000000 "core" firstRemoval]

/-- **An event that came too early is never recorded**: the claim of the dropped delivery stays, and the second delivery, which
comes to both indexers after both clocks have passed the event's timestamp, finds it taken -/
theorem early_delivery_never_heals :
    (Delivered ada earlyThenAgain ∧ Delivered ada twiceInTime) ∧
    (∃ a ∈ earlyThenAgain, a.event = firstRemoval ∧ firstRemoval.timestamp ≤ a.now ∧ ¬ Refused a) ∧
    (∃ a ∈ twiceInTime, a.event = firstRemoval ∧ firstRemoval.timestamp ≤ a.now ∧ ¬ Refused a) ∧
    ((receiveAll earlyThenAgain).chains ada).state = some ⟨0, none, none⟩ ∧
    ((receiveAll twiceInTime).chains ada).state =
      some ⟨1, some "1343f269ab76d3942baec7fb8ddb7c4e46001d09e32e0d87bd8aed21f25006c9", none⟩ := by
  refine ⟨⟨?_, ?_⟩, ?_, ?_, ?_, ?_⟩
  · exact delivered_of_received received_waitingRemovals (by simp [earlyThenAgain, waitingRemovals, arrival])
  · exact delivered_of_received received_waitingRemovals (by simp [twiceInTime, waitingRemovals, arrival])
  · exact ⟨arrival 2000000000 "core" firstRemoval, by simp [earlyThenAgain], rfl, by decide, by decide⟩
  · exact ⟨arrival 2000000000 "core" firstRemoval, by simp [twiceInTime], rfl, by decide, by decide⟩
  · decide +kernel
  · decide +kernel

end Avalon.Dispatch
