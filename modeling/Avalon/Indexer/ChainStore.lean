/-
The identity-chain store (`crates/indexer/src/identity_chain_store.rs`; tables `identity_chain_events` and
`identity_chain_state`).

Every chained event of an identity is kept as a row under its chain hash. Recording one re-resolves all rows, writes the
head to the state row, and reports which events are accepted now that were not, and which no longer are. An event of this
node gets the position behind the head first (`assignLocal`).

The tables are those of one identity here: no operation touches another identity's rows. The JSON column of a row holds the
event itself, and the text of a hash sorts as its bytes.

Results:
- `load_eq`: the rows of a store are read back as the events recorded.
- `recordLocked_cases`: what recording does, by the events of the store (`Took`, `LeftOut`).
- `Chain.Ok`: hashes are distinct and the state row is the resolution of all rows; recording keeps it.
- `accepted_perm`: the resolution depends on which events are stored only.
- `record_converges`: two stores that received the same events, in any order and number, agree.
-/
import Mathlib.Tactic
import Avalon.Core.Bytes
import Avalon.Core.Fallible
import Avalon.Core.Json
import Avalon.Protocol.Events
import Avalon.Protocol.IdentityId
import Avalon.Protocol.IdentityChain
import Avalon.Protocol.IdentityChainLaws
import Avalon.Protocol.IdentityChainWire

namespace Avalon.ChainStore

open Json Avalon.SigningBytes Avalon.LedgerEntry Avalon.Events Avalon.Identity Avalon.IdentityChain
open Fallible Replay

abbrev Event (F : Type) := ProtocolEvent (Value F)

/-! ## Tables -/

/-- the resolved head of an identity's chain, as stored -/
structure ChainState where
  seq : Int64
  headHash : Option String
  forkedAtSeq : Option Int64
deriving DecidableEq

/-- a row of `identity_chain_events` -/
structure EventRow (F : Type) where
  eventId : Uuid
  seq : Int64
  prevHash : Option String
  eventHash : EventHash
  chainTimestamp : OffsetDateTime
  event : Event F

/-- the rows of one identity -/
structure Chain (F : Type) where
  state : Option ChainState
  rows : List (EventRow F)

def Chain.empty {F : Type} : Chain F := ⟨none, []⟩

inductive StoreError where
  | decode
  | noPosition
deriving DecidableEq, Repr

/-- what recording an event changed -/
inductive Recorded (F : Type) where
  | unchained
  | rejected (e : ChainEventError)
  | duplicate
  | chained (accepted : Bool) (displaced newlyAccepted acceptedEvents : List (Event F))

structure Stored (F : Type) where
  event : Event F
  chained : ChainedEvent

variable {F : Type} [F64 F]

/-! ## Operations -/

/-- the state row, created where there is none -/
def lockState (c : Chain F) : Chain F × ChainState :=
  let state := c.state.getD ⟨0, none, none⟩
  (⟨some state, c.rows⟩, state)

/-- `Duration::MAX` ahead, any time behind -/
def far : ClockSkewBounds := ⟨9223372036854775807 * 1000000000 + 999999999, none⟩

/-- `ORDER BY seq, event_hash` -/
def sortRows (rows : List (EventRow F)) : List (EventRow F) :=
  rows.insertionSort fun a b => a.seq < b.seq ∨ (a.seq = b.seq ∧ hashKey a.eventHash ≤ hashKey b.eventHash)

/-- the timestamp passed the bounds when the row was recorded -/
def loadRow (row : EventRow F) : Except StoreError (Stored F) := do
  let chained ← (toChainedEvent row.event row.chainTimestamp far).mapError fun _ => .decode
  return ⟨row.event, { chained with timestamp := row.chainTimestamp }⟩

def load (rows : List (EventRow F)) : Except StoreError (List (Stored F)) := (sortRows rows).mapM loadRow

def outcomeOf (stored : List (Stored F)) : ChainOutcome :=
  let recovery := (stored.filter fun s => decide (s.event.kind = "identity.recovered")).map fun s => s.chained.eventHash
  resolveIdentityChain (stored.map Stored.chained) recovery.toFinset

def acceptedOf (stored : List (Stored F)) (outcome : ChainOutcome) : List (Stored F) :=
  outcome.accepted.filterMap fun a => stored.find? fun s => decide (s.chained.eventHash = a.eventHash)

/-- what the state row says of an outcome -/
def stateOf (outcome : ChainOutcome) : ChainState where
  seq := (outcome.head.map fun h => (UInt64.ofNat h.seq).toInt64).getD 0
  headHash := outcome.head.map fun h => hexEncode h.eventHash.toList
  forkedAtSeq := outcome.forkedAt.map fun s => (UInt64.ofNat s).toInt64

def persistState (c : Chain F) (outcome : ChainOutcome) : Chain F := { c with state := c.state.map fun _ => stateOf outcome }

/-- `ON CONFLICT DO NOTHING`: one row for each hash -/
def insertRow (rows : List (EventRow F)) (row : EventRow F) : List (EventRow F) :=
  if rows.any fun r => decide (r.eventHash = row.eventHash) then rows else rows ++ [row]

def rowOf (event : Event F) (chained : ChainedEvent) : Except StoreError (EventRow F) :=
  match event.identityChain with
  | some position =>
    .ok ⟨event.id, position.seq.toInt64, position.prevHash, chained.eventHash, chained.timestamp, event⟩
  | none => .error .noPosition

def hashesOf (outcome : ChainOutcome) : List EventHash := outcome.accepted.map ChainedEvent.eventHash

/-- events accepted before that no longer are -/
def displacedOf (before after : List (Stored F)) : List (Event F) :=
  let oldHashes := hashesOf (outcomeOf before)
  let newHashes := hashesOf (outcomeOf after)
  (before.filter fun s => decide (s.chained.eventHash ∈ oldHashes ∧ s.chained.eventHash ∉ newHashes)).map Stored.event

/-- events other than this one, by its id, accepted only now -/
def newlyAcceptedOf (before after : List (Stored F)) (event : Event F) : List (Event F) :=
  let oldHashes := hashesOf (outcomeOf before)
  ((acceptedOf after (outcomeOf after)).filter fun s =>
    decide (s.event.id ≠ event.id ∧ s.chained.eventHash ∉ oldHashes)).map Stored.event

/-- what changed from the events before to those after -/
def report (before after : List (Stored F)) (event : Event F) (hash : EventHash) : Recorded F :=
  .chained (decide (hash ∈ hashesOf (outcomeOf after))) (displacedOf before after) (newlyAcceptedOf before after event)
    ((acceptedOf after (outcomeOf after)).map Stored.event)

/-- the id the chain holds a hash under -/
def heldUnder (rows : List (EventRow F)) (hash : EventHash) : Option Uuid :=
  (rows.find? fun r => decide (r.eventHash = hash)).map EventRow.eventId

/-- the chain holds the hash under another id -/
def heldByOther (rows : List (EventRow F)) (hash : EventHash) (id : Uuid) : Bool :=
  (heldUnder rows hash).any fun held => decide (held ≠ id)

/-- the insertion of an event, with the resolutions before and after it -/
def insertEvent (c : Chain F) (event : Event F) (chained : ChainedEvent) (hash : EventHash) :
    Except StoreError (Chain F × Recorded F) := do
  let before ← load c.rows
  let row ← rowOf event chained
  let rows := insertRow c.rows row
  let after ← load rows
  return (persistState { c with rows := rows } (outcomeOf after), report before after event hash)

def recordLocked (nodeNow : OffsetDateTime) (c : Chain F) (event : Event F) : Except StoreError (Chain F × Recorded F) :=
  match toChainedEvent event nodeNow .default with
  | .error .notChained => .ok (c, .unchained)
  | .error e => .ok (c, .rejected e)
  | .ok chained =>
    match eventHash event with
    | .error _ => .error .decode
    | .ok hash => if heldByOther c.rows hash event.id then .ok (c, .duplicate) else insertEvent c event chained hash

/-- `record`, on the chain of the event's owner -/
def record (nodeNow : OffsetDateTime) (c : Chain F) (event : Event F) : Except StoreError (Chain F × Recorded F) :=
  if event.identityChain.isNone ∨ (chainOwner event).isNone then .ok (c, .unchained)
  else recordLocked nodeNow (lockState c).1 event

/-- a position under this node's current envelope -/
def currentPosition (seq : UInt64) (prevHash : Option String) : IdentityChainPosition :=
  let envelope := Envelope.current .identityChainEvent
  ⟨seq, prevHash, envelope.layoutVersion, envelope.rulesVersion, envelope.hashAlgo.id, hexEncode envelope.extensions.encode⟩

/-- the event, at the position behind a head -/
def positioned (head : ChainState) (event : Event F) : Event F :=
  { event with
    timestamp := truncateToMicros event.timestamp
    identityChain := some (currentPosition (head.seq.toUInt64 + 1) head.headHash) }

/-- `assign_local` once the head is read; also returns the event as it is then -/
def assignAt (now : OffsetDateTime) (c : Chain F) (head : ChainState) (event : Event F) :
    Except StoreError (Chain F × Event F) :=
  if head.forkedAtSeq.isSome ∧ event.kind ≠ "identity.recovered" then .ok (c, event)
  else (recordLocked now c (positioned head event)).map fun r => (r.1, positioned head event)

/-- `assign_local`, on the chain of the event's owner -/
def assignLocal (now : OffsetDateTime) (c : Chain F) (event : Event F) : Except StoreError (Chain F × Event F) :=
  if (chainOwner event).isNone then .ok (c, event)
  else assignAt now (lockState c).1 (lockState c).2 event

/-! ## Chained events -/

/-- the input of the rule an event gives, whatever the clock -/
def chainedEvent (event : Event F) : Option ChainedEvent :=
  (toChainedEvent event (truncateToMicros event.timestamp) far).toOption

/-- the clock of the receiver is at most five minutes behind the event -/
def Timely (now : OffsetDateTime) (event : Event F) : Prop :=
  truncateToMicros event.timestamp ≤ now + ClockSkewBounds.default.maxFutureSkew

instance (now : OffsetDateTime) (event : Event F) : Decidable (Timely now event) :=
  inferInstanceAs (Decidable (truncateToMicros event.timestamp ≤ now + ClockSkewBounds.default.maxFutureSkew))

theorem clampTimestamp_eq_ok {claimed now t : OffsetDateTime} {bounds : ClockSkewBounds}
    (h : clampTimestamp claimed now bounds = .ok t) : t = claimed := by
  unfold clampTimestamp at h
  split_ifs at h
  split at h
  · split_ifs at h
    cases h
    rfl
  · cases h
    rfl

theorem clampTimestamp_default {claimed now : ℤ} :
    clampTimestamp claimed now .default = .ok claimed ↔ claimed ≤ now + ClockSkewBounds.default.maxFutureSkew := by
  have hskew : ClockSkewBounds.default.maxFutureSkew = 300000000000 := by decide
  unfold clampTimestamp
  rw [hskew]
  by_cases h : claimed > now ∧ claimed - now > (300000000000 : ℤ)
  · rw [if_pos h]
    constructor
    · intro hok
      cases hok
    · intro hle
      have := h.2
      omega
  · rw [if_neg h]
    constructor
    · intro _
      by_contra hlt
      exact h ⟨by omega, by omega⟩
    · exact fun _ => rfl

theorem clampTimestamp_far (claimed : OffsetDateTime) : clampTimestamp claimed claimed far = .ok claimed := by
  unfold clampTimestamp
  rw [if_neg (fun h => absurd h.1 (lt_irrefl _))]
  rfl

/-- what there is to a chained event -/
theorem toChainedEvent_eq_ok {event : Event F} {now : OffsetDateTime} {bounds : ClockSkewBounds} {c : ChainedEvent} :
    toChainedEvent event now bounds = .ok c ↔
      clampTimestamp (truncateToMicros event.timestamp) now bounds = .ok (truncateToMicros event.timestamp) ∧
      ∃ actionClass position prevHash hash, ActionClass.classify (.fromStr event.kind) = some actionClass ∧
        event.identityChain = some position ∧ positionPrev position = .ok prevHash ∧ eventHash event = .ok hash ∧
        c = ⟨position.seq.toNat, prevHash, hash, truncateToMicros event.timestamp, actionClass, authorityOf event.kind⟩ := by
  unfold toChainedEvent
  constructor
  · intro h
    cases hclass : ActionClass.classify (.fromStr event.kind) with
    | none =>
      rw [hclass] at h
      cases h
    | some actionClass =>
      rw [hclass] at h
      cases hposition : event.identityChain with
      | none =>
        rw [hposition] at h
        cases h
      | some position =>
        rw [hposition] at h
        obtain ⟨prevHash, hprev, h⟩ := bind_eq_ok.1 h
        obtain ⟨timestamp, htime, h⟩ := bind_eq_ok.1 h
        obtain ⟨hash, hhash, h⟩ := bind_eq_ok.1 h
        cases h
        have htime := mapError_eq_ok.1 htime
        obtain rfl := clampTimestamp_eq_ok htime
        exact ⟨htime, actionClass, position, prevHash, hash, rfl, rfl, hprev, hhash, rfl⟩
  · rintro ⟨htime, actionClass, position, prevHash, hash, hclass, hposition, hprev, hhash, rfl⟩
    rw [hclass, hposition]
    exact bind_eq_ok.2 ⟨prevHash, hprev, bind_eq_ok.2 ⟨_, mapError_eq_ok.2 htime, bind_eq_ok.2 ⟨hash, hhash, rfl⟩⟩⟩

/-- **The clock only decides**: the rule's input is the same whenever it is made -/
theorem toChainedEvent_iff {event : Event F} {now : OffsetDateTime} {bounds : ClockSkewBounds} {c : ChainedEvent} :
    toChainedEvent event now bounds = .ok c ↔
      clampTimestamp (truncateToMicros event.timestamp) now bounds = .ok (truncateToMicros event.timestamp) ∧
        chainedEvent event = some c := by
  unfold chainedEvent
  rw [toOption_eq_some, toChainedEvent_eq_ok, toChainedEvent_eq_ok, and_congr_right_iff]
  intro _
  exact (and_iff_right (clampTimestamp_far _)).symm

theorem toChainedEvent_default {event : Event F} {now : OffsetDateTime} {c : ChainedEvent} :
    toChainedEvent event now .default = .ok c ↔ Timely now event ∧ chainedEvent event = some c := by
  rw [toChainedEvent_iff, clampTimestamp_default]
  rfl

theorem chainedEvent_eq_some {event : Event F} {c : ChainedEvent} :
    chainedEvent event = some c ↔
      ∃ actionClass position prevHash hash, ActionClass.classify (.fromStr event.kind) = some actionClass ∧
        event.identityChain = some position ∧ positionPrev position = .ok prevHash ∧ eventHash event = .ok hash ∧
        c = ⟨position.seq.toNat, prevHash, hash, truncateToMicros event.timestamp, actionClass, authorityOf event.kind⟩ := by
  unfold chainedEvent
  rw [toOption_eq_some, toChainedEvent_eq_ok]
  exact and_iff_right (clampTimestamp_far _)

/-- only the clock can refuse an event that has a place in a chain -/
theorem toChainedEvent_of_chainedEvent {event : Event F} {c : ChainedEvent} (h : chainedEvent event = some c)
    (now : OffsetDateTime) (bounds : ClockSkewBounds) :
    toChainedEvent event now bounds = .ok c ∨ ∃ e, toChainedEvent event now bounds = .error (.timestamp e) := by
  cases htime : clampTimestamp (truncateToMicros event.timestamp) now bounds with
  | ok t =>
    obtain rfl := clampTimestamp_eq_ok htime
    exact .inl (toChainedEvent_iff.2 ⟨htime, h⟩)
  | error e =>
    right
    obtain ⟨actionClass, position, prevHash, hash, hclass, hposition, hprev, -, -⟩ := chainedEvent_eq_some.1 h
    refine ⟨e, ?_⟩
    unfold toChainedEvent
    rw [hclass, hposition]
    dsimp only
    rw [hprev, htime]
    rfl

theorem eventHash_of_chainedEvent {event : Event F} {c : ChainedEvent} (h : chainedEvent event = some c) :
    eventHash event = .ok c.eventHash := by
  obtain ⟨_, _, _, hash, -, -, -, hhash, rfl⟩ := chainedEvent_eq_some.1 h
  exact hhash

theorem timestamp_of_chainedEvent {event : Event F} {c : ChainedEvent} (h : chainedEvent event = some c) :
    c.timestamp = truncateToMicros event.timestamp := by
  obtain ⟨_, _, _, _, -, -, -, -, rfl⟩ := chainedEvent_eq_some.1 h
  rfl

/-! ## Resolutions of events -/

/-- the events that have a place in a chain, with the rule's input -/
def storedOf (events : List (Event F)) : List (Stored F) := events.filterMap fun e => (chainedEvent e).map fun c => ⟨e, c⟩

def outcome (events : List (Event F)) : ChainOutcome := outcomeOf (storedOf events)

/-- the accepted events, in chain order -/
def accepted (events : List (Event F)) : List (Event F) := (acceptedOf (storedOf events) (outcome events)).map Stored.event

/-- no two of the events have one chain hash -/
def DistinctHashes (events : List (Event F)) : Prop := ((storedOf events).map fun s => s.chained.eventHash).Nodup

theorem mem_storedOf {events : List (Event F)} {s : Stored F} :
    s ∈ storedOf events ↔ s.event ∈ events ∧ chainedEvent s.event = some s.chained := by
  unfold storedOf
  rw [List.mem_filterMap]
  constructor
  · rintro ⟨e, he, hs⟩
    obtain ⟨c, hc, rfl⟩ := Option.map_eq_some_iff.1 hs
    exact ⟨he, hc⟩
  · rintro ⟨he, hc⟩
    exact ⟨s.event, he, Option.map_eq_some_iff.2 ⟨s.chained, hc, rfl⟩⟩

theorem storedOf_cons {e : Event F} {c : ChainedEvent} (h : chainedEvent e = some c) (events : List (Event F)) :
    storedOf (e :: events) = ⟨e, c⟩ :: storedOf events := by
  unfold storedOf
  rw [List.filterMap_cons_some]
  rw [h]
  rfl

theorem storedOf_perm {events events' : List (Event F)} (h : events.Perm events') : (storedOf events).Perm (storedOf events') :=
  h.filterMap _

theorem DistinctHashes.perm {events events' : List (Event F)} (hd : DistinctHashes events) (h : events.Perm events') :
    DistinctHashes events' := ((storedOf_perm h).map _).nodup hd

/-- stored events with one hash are the same -/
theorem DistinctHashes.eq {events : List (Event F)} (hd : DistinctHashes events) {s t : Stored F} (hs : s ∈ storedOf events)
    (ht : t ∈ storedOf events) (h : s.chained.eventHash = t.chained.eventHash) : s = t :=
  List.inj_on_of_nodup_map hd hs ht h

theorem DistinctHashes.hashesIdentify {events : List (Event F)} (hd : DistinctHashes events) :
    HashesIdentify ((storedOf events).map Stored.chained) := by
  apply hashesIdentify_of_nodup
  rw [List.map_map]
  exact hd

theorem outcome_perm {events events' : List (Event F)} (hd : DistinctHashes events) (h : events.Perm events') :
    outcome events = outcome events' := by
  unfold outcome outcomeOf
  have hrecovery := List.toFinset_eq_of_perm _ _
    (((storedOf_perm h).filter fun s => decide (s.event.kind = "identity.recovered")).map fun s => s.chained.eventHash)
  dsimp only
  rw [hrecovery, resolveIdentityChain, resolveIdentityChain,
    resolveWithChoices_perm hd.hashesIdentify ((storedOf_perm h).map Stored.chained)]

/-- with distinct hashes, the event of a hash is found in any order -/
theorem find?_hash {events : List (Event F)} (hd : DistinctHashes events) {s : Stored F} (hs : s ∈ storedOf events)
    {hash : EventHash} (h : s.chained.eventHash = hash) :
    (storedOf events).find? (fun s => decide (s.chained.eventHash = hash)) = some s := by
  cases hfind : (storedOf events).find? fun s => decide (s.chained.eventHash = hash) with
  | none =>
    have hnone := List.find?_eq_none.1 hfind s hs
    simp [h] at hnone
  | some t =>
    have ht : t.chained.eventHash = hash := of_decide_eq_true (List.find?_some hfind :)
    rw [hd.eq (List.mem_of_find?_eq_some hfind) hs (ht.trans h.symm)]

/-- an accepted event is one of the stored ones -/
theorem stored_of_accepted {events : List (Event F)} {a : ChainedEvent} (h : a ∈ (outcome events).accepted) :
    ∃ s ∈ storedOf events, s.chained = a := by
  obtain ⟨f, -, hrun⟩ := resolveIdentityChain_run ((storedOf events).map Stored.chained)
    ((((storedOf events).filter fun s => decide (s.event.kind = "identity.recovered")).map fun s => s.chained.eventHash).toFinset)
  have hmem := (mem_candidates.1 (mem_of_choose (hrun.chosen mem_of_choose h))).1
  obtain ⟨s, hs, hsa⟩ := List.mem_map.1 hmem
  exact ⟨s, hs, hsa⟩

/-- **The accepted events** are the stored events with an accepted hash -/
theorem mem_acceptedOf {events : List (Event F)} (hd : DistinctHashes events) {s : Stored F} :
    s ∈ acceptedOf (storedOf events) (outcome events) ↔ s ∈ storedOf events ∧ s.chained.eventHash ∈ hashesOf (outcome events) := by
  unfold acceptedOf
  rw [List.mem_filterMap]
  constructor
  · rintro ⟨a, ha, hfind⟩
    have hhash : s.chained.eventHash = a.eventHash := of_decide_eq_true (List.find?_some hfind :)
    exact ⟨List.mem_of_find?_eq_some hfind, List.mem_map.2 ⟨a, ha, hhash.symm⟩⟩
  · rintro ⟨hs, hhash⟩
    obtain ⟨a, ha, hha⟩ := List.mem_map.1 hhash
    exact ⟨a, ha, find?_hash hd hs hha.symm⟩

theorem mem_accepted {events : List (Event F)} (hd : DistinctHashes events) {e : Event F} :
    e ∈ accepted events ↔ e ∈ events ∧ ∃ c, chainedEvent e = some c ∧ c.eventHash ∈ hashesOf (outcome events) := by
  unfold accepted
  rw [List.mem_map]
  constructor
  · rintro ⟨s, hs, rfl⟩
    obtain ⟨hstored, hhash⟩ := (mem_acceptedOf hd).1 hs
    obtain ⟨hmem, hc⟩ := mem_storedOf.1 hstored
    exact ⟨hmem, s.chained, hc, hhash⟩
  · rintro ⟨hmem, c, hc, hhash⟩
    exact ⟨⟨e, c⟩, (mem_acceptedOf hd).2 ⟨mem_storedOf.2 ⟨hmem, hc⟩, hhash⟩, rfl⟩

/-- **The accepted events do not depend on the order** of the events -/
theorem accepted_perm {events events' : List (Event F)} (hd : DistinctHashes events) (h : events.Perm events') :
    accepted events = accepted events' := by
  unfold accepted acceptedOf
  rw [← outcome_perm hd h]
  congr 1
  apply List.filterMap_congr
  intro a ha
  obtain ⟨s, hs, rfl⟩ := stored_of_accepted ha
  rw [find?_hash hd hs rfl, find?_hash (hd.perm h) ((storedOf_perm h).mem_iff.1 hs) rfl]

/-! ## Stores -/

def Chain.events (c : Chain F) : List (Event F) := c.rows.map EventRow.event

/-- the row is the one recorded for its event -/
def EventRow.Ok (row : EventRow F) : Prop := ∃ c, chainedEvent row.event = some c ∧ rowOf row.event c = .ok row

/-- what holds of the rows of an identity after every transaction -/
structure Chain.Ok (c : Chain F) : Prop where
  rows : ∀ row ∈ c.rows, row.Ok
  hashes : (c.rows.map EventRow.eventHash).Nodup
  /-- without a state row nothing is stored; the state row is the resolution of what is stored -/
  state : c.state.getD ⟨0, none, none⟩ = stateOf (outcome c.events)

omit [F64 F] in
theorem rowOf_eq_ok {event : Event F} {c : ChainedEvent} {row : EventRow F} (h : rowOf event c = .ok row) :
    row.eventHash = c.eventHash ∧ row.chainTimestamp = c.timestamp ∧ row.event = event ∧ row.eventId = event.id := by
  unfold rowOf at h
  split at h
  · cases h
    exact ⟨rfl, rfl, rfl, rfl⟩
  · cases h

theorem exists_rowOf {event : Event F} {c : ChainedEvent} (h : chainedEvent event = some c) :
    ∃ row, rowOf event c = .ok row := by
  obtain ⟨_, position, _, _, -, hposition, -⟩ := chainedEvent_eq_some.1 h
  unfold rowOf
  rw [hposition]
  exact ⟨_, rfl⟩

theorem EventRow.Ok.chained {row : EventRow F} (h : row.Ok) :
    ∃ c, chainedEvent row.event = some c ∧ row.eventHash = c.eventHash ∧ row.chainTimestamp = c.timestamp ∧
      row.eventId = row.event.id := by
  obtain ⟨c, hc, hrow⟩ := h
  obtain ⟨hhash, htime, -, hid⟩ := rowOf_eq_ok hrow
  exact ⟨c, hc, hhash, htime, hid⟩

theorem loadRow_eq {row : EventRow F} (h : row.Ok) : ∃ c, chainedEvent row.event = some c ∧ loadRow row = .ok ⟨row.event, c⟩ := by
  obtain ⟨c, hc, -, htime, -⟩ := h.chained
  refine ⟨c, hc, bind_eq_ok.2 ⟨c, mapError_eq_ok.2 (toChainedEvent_iff.2 ⟨?_, hc⟩), ?_⟩⟩
  · rw [htime, timestamp_of_chainedEvent hc]
    exact clampTimestamp_far _
  · rw [htime]
    rfl

omit [F64 F] in
theorem sortRows_perm (rows : List (EventRow F)) : (sortRows rows).Perm rows := List.perm_insertionSort _ rows

/-- **The rows are read back** as the events recorded -/
theorem load_eq {rows : List (EventRow F)} (h : ∀ row ∈ rows, row.Ok) :
    load rows = .ok (storedOf ((sortRows rows).map EventRow.event)) := by
  have hsorted : ∀ row ∈ sortRows rows, row.Ok := fun row hrow => h row ((sortRows_perm rows).mem_iff.1 hrow)
  unfold load
  generalize sortRows rows = sorted at hsorted
  rw [mapM_eq_ok]
  induction sorted with
  | nil => exact .nil
  | cons row rest ih =>
    obtain ⟨hrow, hrest⟩ := List.forall_mem_cons.1 hsorted
    obtain ⟨c, hc, hload⟩ := loadRow_eq hrow
    rw [List.map_cons, storedOf_cons hc]
    exact .cons hload (ih hrest)

omit [F64 F] in
theorem events_perm (rows : List (EventRow F)) : ((sortRows rows).map EventRow.event).Perm (rows.map EventRow.event) :=
  (sortRows_perm rows).map _

theorem hashes_storedOf {rows : List (EventRow F)} (h : ∀ row ∈ rows, row.Ok) :
    (storedOf (rows.map EventRow.event)).map (fun s => s.chained.eventHash) = rows.map EventRow.eventHash := by
  induction rows with
  | nil => rfl
  | cons row rest ih =>
    obtain ⟨hrow, hrest⟩ := List.forall_mem_cons.1 h
    obtain ⟨c, hc, hhash, -, -⟩ := hrow.chained
    rw [List.map_cons, storedOf_cons hc, List.map_cons, List.map_cons, ih hrest, hhash]

theorem distinctHashes_rows {rows : List (EventRow F)} (h : ∀ row ∈ rows, row.Ok) (hnodup : (rows.map EventRow.eventHash).Nodup) :
    DistinctHashes (rows.map EventRow.event) := by
  unfold DistinctHashes
  rw [hashes_storedOf h]
  exact hnodup

theorem Chain.Ok.distinctHashes {c : Chain F} (h : c.Ok) : DistinctHashes c.events := distinctHashes_rows h.rows h.hashes

/-- the stored row of an event of the store -/
theorem Chain.Ok.row_of_mem {c : Chain F} (h : c.Ok) {e : Event F} (he : e ∈ c.events) :
    ∃ row ∈ c.rows, row.event = e ∧ ∃ ch, chainedEvent e = some ch ∧ row.eventHash = ch.eventHash := by
  obtain ⟨row, hrow, rfl⟩ := List.mem_map.1 he
  obtain ⟨ch, hch, hhash, -, -⟩ := (h.rows row hrow).chained
  exact ⟨row, hrow, rfl, ch, hch, hhash⟩

theorem outcome_nil : outcome ([] : List (Event F)) = ⟨[], none⟩ := resolveIdentityChain_eq (.done rfl)

theorem ok_empty : (Chain.empty : Chain F).Ok := by
  refine ⟨by simp [Chain.empty], by simp [Chain.empty], ?_⟩
  have hnone : (Chain.empty : Chain F).events = [] := rfl
  rw [hnone, outcome_nil]
  rfl

theorem ok_lockState {c : Chain F} (h : c.Ok) : (lockState c).1.Ok := ⟨h.rows, h.hashes, h.state⟩

/-! ## What recording does -/

/-- the events of the store after an event of that hash was inserted -/
def eventsWith (events : List (Event F)) (e : Event F) (hash : EventHash) : List (Event F) :=
  if ∃ s ∈ storedOf events, s.chained.eventHash = hash then events else events ++ [e]

section Report

variable {old new old' new' : List (Event F)} (hold : DistinctHashes old) (hnew : DistinctHashes new) (hsub : old ⊆ new)
  (hpold : old'.Perm old) (hpnew : new'.Perm new)

include hnew in
theorem mem_accepted_new {e : Event F} {c : ChainedEvent} (hc : chainedEvent e = some c) (he : e ∈ new) :
    e ∈ accepted new ↔ c.eventHash ∈ hashesOf (outcome new) := by
  rw [mem_accepted hnew]
  constructor
  · rintro ⟨-, c', hc', hmem⟩
    rwa [Option.some.inj (hc.symm.trans hc')]
  · exact fun hmem => ⟨he, c, hc, hmem⟩

include hold hnew hsub in
/-- also for an event that came later, being accepted before is a matter of the hash -/
theorem mem_accepted_old {e : Event F} {c : ChainedEvent} (hc : chainedEvent e = some c) (he : e ∈ new) :
    e ∈ accepted old ↔ c.eventHash ∈ hashesOf (outcome old) := by
  rw [mem_accepted hold]
  constructor
  · rintro ⟨-, c', hc', hmem⟩
    rwa [Option.some.inj (hc.symm.trans hc')]
  · intro hmem
    obtain ⟨a, ha, hahash⟩ := List.mem_map.1 hmem
    obtain ⟨s, hs, rfl⟩ := stored_of_accepted ha
    obtain ⟨hsold, hsc⟩ := mem_storedOf.1 hs
    have hsame := hnew.eq (s := ⟨e, c⟩) (mem_storedOf.2 ⟨he, hc⟩) (mem_storedOf.2 ⟨hsub hsold, hsc⟩) hahash.symm
    have hevent : e = s.event := congrArg Stored.event hsame
    exact ⟨hevent ▸ hsold, c, hc, hmem⟩

include hold hnew hsub hpold hpnew

theorem mem_displacedOf {x : Event F} :
    x ∈ displacedOf (storedOf old') (storedOf new') ↔ x ∈ accepted old ∧ x ∉ accepted new := by
  unfold displacedOf
  have houtcome : outcomeOf (storedOf old') = outcome old := outcome_perm (hold.perm hpold.symm) hpold
  have houtcome' : outcomeOf (storedOf new') = outcome new := outcome_perm (hnew.perm hpnew.symm) hpnew
  rw [houtcome, houtcome', List.mem_map]
  constructor
  · rintro ⟨s, hs, rfl⟩
    obtain ⟨hs, hcond⟩ := List.mem_filter.1 hs
    obtain ⟨hmem, hc⟩ := mem_storedOf.1 hs
    obtain ⟨hin, hout⟩ := of_decide_eq_true hcond
    have hmem := hsub (hpold.mem_iff.1 hmem)
    exact ⟨(mem_accepted_old hold hnew hsub hc hmem).2 hin, fun h => hout ((mem_accepted_new hnew hc hmem).1 h)⟩
  · rintro ⟨hin, hout⟩
    obtain ⟨hmem, c, hc, hhash⟩ := (mem_accepted hold).1 hin
    refine ⟨⟨x, c⟩, List.mem_filter.2 ⟨mem_storedOf.2 ⟨hpold.mem_iff.2 hmem, hc⟩, decide_eq_true ⟨hhash, ?_⟩⟩, rfl⟩
    exact fun h => hout ((mem_accepted_new hnew hc (hsub hmem)).2 h)

theorem mem_newlyAcceptedOf {event x : Event F} :
    x ∈ newlyAcceptedOf (storedOf old') (storedOf new') event ↔ x ∈ accepted new ∧ x ∉ accepted old ∧ x.id ≠ event.id := by
  unfold newlyAcceptedOf
  have hnew' := hnew.perm hpnew.symm
  have houtcome : outcomeOf (storedOf old') = outcome old := outcome_perm (hold.perm hpold.symm) hpold
  rw [houtcome, List.mem_map]
  have hacc : ∀ s, s ∈ acceptedOf (storedOf new') (outcomeOf (storedOf new')) ↔
      s ∈ storedOf new' ∧ s.chained.eventHash ∈ hashesOf (outcome new) := by
    intro s
    rw [← outcome_perm hnew' hpnew]
    exact mem_acceptedOf hnew'
  constructor
  · rintro ⟨s, hs, rfl⟩
    obtain ⟨hs, hcond⟩ := List.mem_filter.1 hs
    obtain ⟨hid, hout⟩ := of_decide_eq_true hcond
    obtain ⟨hstored, hin⟩ := (hacc s).1 hs
    obtain ⟨hmem, hc⟩ := mem_storedOf.1 hstored
    have hmem := hpnew.mem_iff.1 hmem
    exact ⟨(mem_accepted_new hnew hc hmem).2 hin, fun h => hout ((mem_accepted_old hold hnew hsub hc hmem).1 h), hid⟩
  · rintro ⟨hin, hout, hid⟩
    obtain ⟨hmem, c, hc, hhash⟩ := (mem_accepted hnew).1 hin
    refine ⟨⟨x, c⟩, List.mem_filter.2 ⟨(hacc _).2 ⟨mem_storedOf.2 ⟨hpnew.mem_iff.2 hmem, hc⟩, hhash⟩, ?_⟩, rfl⟩
    exact decide_eq_true ⟨hid, fun h => hout ((mem_accepted_old hold hnew hsub hc hmem).2 h)⟩

end Report

/-- an event was taken in: what is stored then, and what is reported -/
structure Took (c c' : Chain F) (event : Event F) (hash : EventHash) (r : Recorded F) : Prop where
  ok : c'.Ok
  state : c'.state = some (stateOf (outcome c'.events))
  events : c'.events = eventsWith c.events event hash
  report : ∃ displaced newlyAccepted,
    r = .chained (decide (hash ∈ hashesOf (outcome c'.events))) displaced newlyAccepted (accepted c'.events) ∧
    (∀ x, x ∈ displaced ↔ x ∈ accepted c.events ∧ x ∉ accepted c'.events) ∧
    ∀ x, x ∈ newlyAccepted ↔ x ∈ accepted c'.events ∧ x ∉ accepted c.events ∧ x.id ≠ event.id

theorem subset_eventsWith (events : List (Event F)) (e : Event F) (hash : EventHash) : events ⊆ eventsWith events e hash := by
  unfold eventsWith
  split_ifs
  · exact fun _ h => h
  · exact List.subset_append_left _ _

/-- the hash is among the rows if and only if it is among the stored events -/
theorem any_hash_iff {c : Chain F} (hc : c.Ok) (hash : EventHash) :
    (c.rows.any fun r => decide (r.eventHash = hash)) = true ↔ ∃ s ∈ storedOf c.events, s.chained.eventHash = hash := by
  rw [List.any_eq_true]
  constructor
  · rintro ⟨row, hrow, hhash⟩
    obtain ⟨ch, hch, hrowHash, -, -⟩ := (hc.rows row hrow).chained
    exact ⟨⟨row.event, ch⟩, mem_storedOf.2 ⟨List.mem_map_of_mem hrow, hch⟩, hrowHash.symm.trans (of_decide_eq_true hhash)⟩
  · rintro ⟨s, hs, rfl⟩
    obtain ⟨hmem, hch⟩ := mem_storedOf.1 hs
    obtain ⟨row, hrow, hevent, ch, hch', hhash⟩ := hc.row_of_mem hmem
    rw [Option.some.inj (hch.symm.trans hch')]
    exact ⟨row, hrow, decide_eq_true hhash⟩

omit [F64 F] in
theorem nodup_insertRow {rows : List (EventRow F)} (h : (rows.map EventRow.eventHash).Nodup) (row : EventRow F) :
    ((insertRow rows row).map EventRow.eventHash).Nodup := by
  rw [insertRow]
  split_ifs with hany
  · exact h
  · rw [List.map_append, List.map_singleton, ← List.concat_eq_append]
    refine h.concat ?_
    intro hmem
    obtain ⟨r, hr, hhash⟩ := List.mem_map.1 hmem
    exact hany (List.any_eq_true.2 ⟨r, hr, decide_eq_true hhash⟩)

theorem rows_insertRow {rows : List (EventRow F)} (h : ∀ r ∈ rows, r.Ok) {row : EventRow F} (hrow : row.Ok) :
    ∀ r ∈ insertRow rows row, r.Ok := by
  intro r hr
  rw [insertRow] at hr
  split_ifs at hr
  · exact h r hr
  · rcases List.mem_append.1 hr with hr | hr
    · exact h r hr
    · rw [List.mem_singleton.1 hr]
      exact hrow

/-- **Inserting an event** stores it under its hash, once, and writes the resolution of all that is stored -/
theorem insertEvent_took {c : Chain F} (hc : c.Ok) (hstate : c.state.isSome) {event : Event F} {ch : ChainedEvent}
    (hch : chainedEvent event = some ch) :
    ∃ c' r, insertEvent c event ch ch.eventHash = .ok (c', r) ∧ Took c c' event ch.eventHash r := by
  obtain ⟨row, hrow⟩ := exists_rowOf hch
  obtain ⟨hrowHash, -, hrowEvent, -⟩ := rowOf_eq_ok hrow
  set rows := insertRow c.rows row with hrows
  have hevents : rows.map EventRow.event = eventsWith c.events event ch.eventHash := by
    rw [hrows, insertRow, eventsWith]
    simp only [hrowHash, any_hash_iff hc]
    split_ifs
    · rfl
    · rw [List.map_append, List.map_singleton, hrowEvent]
      rfl
  have hrowOk : row.Ok := ⟨ch, hrowEvent ▸ hch, hrowEvent ▸ hrow⟩
  have hrowsOk := rows_insertRow hc.rows hrowOk
  have hnodup := nodup_insertRow hc.hashes row
  have hdistinct := distinctHashes_rows hrowsOk hnodup
  rw [← hrows] at hrowsOk hnodup hdistinct
  have hsub : c.events ⊆ rows.map EventRow.event := hevents ▸ subset_eventsWith _ _ _
  have hresolved : outcomeOf (storedOf ((sortRows rows).map EventRow.event)) = outcome (rows.map EventRow.event) :=
    outcome_perm (hdistinct.perm (events_perm rows).symm) (events_perm rows)
  have haccepted : (acceptedOf (storedOf ((sortRows rows).map EventRow.event))
      (outcomeOf (storedOf ((sortRows rows).map EventRow.event)))).map Stored.event = accepted (rows.map EventRow.event) :=
    accepted_perm (hdistinct.perm (events_perm rows).symm) (events_perm rows)
  obtain ⟨state, hstate⟩ := Option.isSome_iff_exists.1 hstate
  refine ⟨⟨some (stateOf (outcome (rows.map EventRow.event))), rows⟩,
    report (storedOf ((sortRows c.rows).map EventRow.event)) (storedOf ((sortRows rows).map EventRow.event)) event ch.eventHash,
    ?_, ⟨hrowsOk, hnodup, rfl⟩, rfl, hevents, ?_⟩
  · refine bind_eq_ok.2 ⟨_, load_eq hc.rows, bind_eq_ok.2 ⟨row, hrow, bind_eq_ok.2 ⟨_, load_eq hrowsOk, ?_⟩⟩⟩
    rw [hresolved, persistState, hstate]
    rfl
  · refine ⟨_, _, ?_, fun x => mem_displacedOf hc.distinctHashes hdistinct hsub (events_perm _) (events_perm _),
      fun x => mem_newlyAcceptedOf hc.distinctHashes hdistinct hsub (events_perm _) (events_perm _)⟩
    rw [report, haccepted, hresolved]
    rfl

/-- a hash held under another id is that of a stored event with another id -/
theorem stored_of_heldByOther {c : Chain F} (hc : c.Ok) {hash : EventHash} {id : Uuid} (h : heldByOther c.rows hash id = true) :
    ∃ s ∈ storedOf c.events, s.chained.eventHash = hash ∧ s.event.id ≠ id := by
  unfold heldByOther heldUnder at h
  cases hfind : c.rows.find? fun r => decide (r.eventHash = hash) with
  | none =>
    rw [hfind] at h
    cases h
  | some row =>
    rw [hfind] at h
    have hrow := List.mem_of_find?_eq_some hfind
    have hhash : row.eventHash = hash := of_decide_eq_true (List.find?_some hfind :)
    obtain ⟨ch, hch, hrowHash, -, hid⟩ := (hc.rows row hrow).chained
    refine ⟨⟨row.event, ch⟩, mem_storedOf.2 ⟨List.mem_map_of_mem hrow, hch⟩, hrowHash.symm.trans hhash, ?_⟩
    exact hid ▸ of_decide_eq_true h

/-- the event was left out, and why -/
inductive LeftOut (now : OffsetDateTime) (c : Chain F) (event : Event F) : Recorded F → Prop
  | unchained (h : chainedEvent event = none) : LeftOut now c event .unchained
  | rejected (e : ChainEventError) (h : chainedEvent event = none ∨ ¬ Timely now event) : LeftOut now c event (.rejected e)
  | duplicate (ch : ChainedEvent) (h : chainedEvent event = some ch) (held : heldByOther c.rows ch.eventHash event.id = true) :
    LeftOut now c event .duplicate

/-- **What recording does**: the event is left out and nothing changes, or it is taken in -/
theorem recordLocked_cases {c : Chain F} (hc : c.Ok) (hstate : c.state.isSome) (now : OffsetDateTime) (event : Event F) :
    (∃ r, recordLocked now c event = .ok (c, r) ∧ LeftOut now c event r) ∨
    ∃ ch c' r, recordLocked now c event = .ok (c', r) ∧ Timely now event ∧ chainedEvent event = some ch ∧
      heldByOther c.rows ch.eventHash event.id = false ∧ Took c c' event ch.eventHash r := by
  cases htc : toChainedEvent event now .default with
  | error e =>
    have hout : chainedEvent event = none ∨ ((∃ te, e = .timestamp te) ∧ ¬ Timely now event) := by
      cases hch : chainedEvent event with
      | none => exact .inl rfl
      | some ch =>
        rcases toChainedEvent_of_chainedEvent hch now .default with hok | ⟨te, hte⟩
        · rw [hok] at htc
          cases htc
        · refine .inr ⟨⟨te, Except.error.inj (htc.symm.trans hte)⟩, ?_⟩
          intro htimely
          rw [toChainedEvent_default.2 ⟨htimely, hch⟩] at htc
          cases htc
    left
    unfold recordLocked
    rw [htc]
    cases e with
    | notChained =>
      rcases hout with hnone | ⟨⟨te, hte⟩, -⟩
      · exact ⟨.unchained, rfl, .unchained hnone⟩
      · cases hte
    | _ => exact ⟨_, rfl, .rejected _ (hout.imp id And.right)⟩
  | ok ch =>
    obtain ⟨htimely, hch⟩ := toChainedEvent_default.1 htc
    unfold recordLocked
    rw [htc]
    dsimp only
    rw [eventHash_of_chainedEvent hch]
    dsimp only
    by_cases hheld : heldByOther c.rows ch.eventHash event.id = true
    · rw [if_pos hheld]
      exact .inl ⟨_, rfl, .duplicate ch hch hheld⟩
    · rw [if_neg hheld]
      obtain ⟨c', r, hok, htook⟩ := insertEvent_took hc hstate hch
      exact .inr ⟨ch, c', r, hok, htimely, hch, eq_false_of_ne_true hheld, htook⟩

/-! ## Runs of records -/

structure Delivery (F : Type) where
  now : OffsetDateTime
  event : Event F

/-- the records of one identity's events, from an empty store -/
def recordAll (ds : List (Delivery F)) : Except StoreError (Chain F) :=
  ds.foldlM (fun c d => (record d.now c d.event).map Prod.fst) .empty

/-- events of one identity's chain, at most five minutes ahead of the receiver's clock, with distinct chain hashes; each may
come any number of times -/
structure Received (owner : IdentityId) (ds : List (Delivery F)) : Prop where
  owner : ∀ d ∈ ds, chainOwner d.event = some owner
  chained : ∀ d ∈ ds, (chainedEvent d.event).isSome
  timely : ∀ d ∈ ds, Timely d.now d.event
  distinct : ∀ d ∈ ds, ∀ d' ∈ ds, ∀ hash, eventHash d.event = .ok hash → eventHash d'.event = .ok hash → d.event = d'.event

/-- the store holds exactly the events delivered -/
structure Holds (ds : List (Delivery F)) (c : Chain F) : Prop where
  ok : c.Ok
  state : c.state = if ds = [] then none else some (stateOf (outcome c.events))
  events : ∀ e, e ∈ c.events ↔ ∃ d ∈ ds, d.event = e

theorem Received.of_append {owner : IdentityId} {ds ds' : List (Delivery F)} (h : Received owner (ds ++ ds')) :
    Received owner ds :=
  have hmem : ∀ {d}, d ∈ ds → d ∈ ds ++ ds' := fun hd => List.mem_append_left ds' hd
  ⟨fun d hd => h.owner d (hmem hd), fun d hd => h.chained d (hmem hd), fun d hd => h.timely d (hmem hd),
    fun d hd d' hd' => h.distinct d (hmem hd) d' (hmem hd')⟩

/-- a stored event that holds the hash of a delivered one is that event -/
theorem eq_of_hash {owner : IdentityId} {ds ds' : List (Delivery F)} (h : Received owner ds) {c : Chain F} (hc : Holds ds' c)
    (hsub : ds' ⊆ ds) {d : Delivery F} (hd : d ∈ ds) {ch : ChainedEvent} (hch : chainedEvent d.event = some ch) {s : Stored F}
    (hs : s ∈ storedOf c.events) (hhash : s.chained.eventHash = ch.eventHash) : s.event = d.event := by
  obtain ⟨hmem, hsc⟩ := mem_storedOf.1 hs
  obtain ⟨d', hd', hevent⟩ := (hc.events s.event).1 hmem
  rw [← hevent] at hsc ⊢
  exact h.distinct d' (hsub hd') d hd ch.eventHash (hhash ▸ eventHash_of_chainedEvent hsc) (eventHash_of_chainedEvent hch)

/-- **One delivery**: the event is taken in -/
theorem record_step {owner : IdentityId} {ds : List (Delivery F)} {d : Delivery F} (h : Received owner (ds ++ [d])) {c : Chain F}
    (hc : Holds ds c) :
    ∃ ch c' r, chainedEvent d.event = some ch ∧ record d.now c d.event = .ok (c', r) ∧
      Took (lockState c).1 c' d.event ch.eventHash r ∧ Holds (ds ++ [d]) c' := by
  have hd : d ∈ ds ++ [d] := by simp
  have hsub : ds ⊆ ds ++ [d] := List.subset_append_left _ _
  obtain ⟨ch, hch⟩ := Option.isSome_iff_exists.1 (h.chained d hd)
  obtain ⟨-, position, -, -, -, hposition, -, -, -⟩ := chainedEvent_eq_some.1 hch
  have hlocked := ok_lockState hc.ok
  have hrecord : record d.now c d.event = recordLocked d.now (lockState c).1 d.event := by
    unfold record
    rw [if_neg]
    rw [hposition, h.owner d hd]
    simp
  rcases recordLocked_cases hlocked rfl d.now d.event with ⟨r, -, hout⟩ | ⟨ch', c', r, hok, -, hch', -, htook⟩
  · exfalso
    cases hout with
    | unchained hnone =>
      rw [hnone] at hch
      cases hch
    | rejected e hout =>
      rcases hout with hnone | hlate
      · rw [hnone] at hch
        cases hch
      · exact hlate (h.timely d hd)
    | duplicate ch' hch' hheld =>
      obtain rfl := Option.some.inj (hch.symm.trans hch')
      obtain ⟨s, hs, hhash, hne⟩ := stored_of_heldByOther hlocked hheld
      exact hne (congrArg ProtocolEvent.id (eq_of_hash h hc hsub hd hch hs hhash))
  · obtain rfl := Option.some.inj (hch.symm.trans hch')
    refine ⟨ch, c', r, hch, hrecord.trans hok, htook, htook.ok, ?_, ?_⟩
    · rw [if_neg (by simp)]
      exact htook.state
    · intro e
      rw [htook.events]
      change e ∈ eventsWith c.events d.event ch.eventHash ↔ _
      have hdelivered : (∃ d' ∈ ds ++ [d], d'.event = e) ↔ e ∈ c.events ∨ e = d.event := by
        simp only [List.mem_append, List.mem_singleton, or_and_right, exists_or, exists_eq_left, hc.events e]
        rw [eq_comm (a := e)]
      rw [hdelivered, eventsWith]
      split_ifs with hheld
      · -- the hash is stored already, for this very event
        obtain ⟨s, hs, hhash⟩ := hheld
        have hevent := eq_of_hash h hc hsub hd hch hs hhash
        refine ⟨.inl, ?_⟩
        rintro (he | rfl)
        · exact he
        · exact hevent ▸ (mem_storedOf.1 hs).1
      · rw [List.mem_append, List.mem_singleton]

theorem recordAll_concat {ds : List (Delivery F)} {d : Delivery F} {c : Chain F} (h : recordAll ds = .ok c) :
    recordAll (ds ++ [d]) = (record d.now c d.event).map Prod.fst := by
  unfold recordAll at h ⊢
  rw [List.foldlM_append, h]
  change ([d].foldlM (fun c d => (record d.now c d.event).map Prod.fst) c : Except StoreError (Chain F)) = _
  rw [List.foldlM_cons]
  cases record d.now c d.event <;> rfl

/-- **A run of records** ends with exactly the events delivered -/
theorem holds_recordAll {owner : IdentityId} {ds : List (Delivery F)} (h : Received owner ds) :
    ∃ c, recordAll ds = .ok c ∧ Holds ds c := by
  induction ds using List.reverseRecOn with
  | nil => exact ⟨.empty, rfl, ok_empty, rfl, fun e => by simp [Chain.empty, Chain.events]⟩
  | append_singleton ds d ih =>
    obtain ⟨c, hrun, hc⟩ := ih h.of_append
    obtain ⟨ch, c', r, -, hrecord, -, hc'⟩ := record_step h hc
    refine ⟨c', ?_, hc'⟩
    rw [recordAll_concat hrun, hrecord]
    rfl

theorem Chain.Ok.nodup {c : Chain F} (h : c.Ok) : c.events.Nodup := by
  have hhashes : c.rows.map EventRow.eventHash =
      c.events.map fun e => ((chainedEvent e).map ChainedEvent.eventHash).getD (.replicate 32 0) := by
    unfold Chain.events
    rw [List.map_map]
    apply List.map_congr_left
    intro row hrow
    obtain ⟨ch, hch, hhash, -, -⟩ := (h.rows row hrow).chained
    rw [Function.comp_apply, hch, hhash]
    rfl
  have hnodup := h.hashes
  rw [hhashes] at hnodup
  exact hnodup.of_map

theorem Holds.perm {ds ds' : List (Delivery F)} {c c' : Chain F} (h : Holds ds c) (h' : Holds ds' c')
    (hsame : ∀ e, (∃ d ∈ ds, d.event = e) ↔ ∃ d ∈ ds', d.event = e) : c.events.Perm c'.events := by
  refine (List.perm_ext_iff_of_nodup h.ok.nodup h'.ok.nodup).2 fun e => ?_
  rw [h.events, h'.events, hsame]

/-- stores with the same events agree in the head, its hash, the fork and the accepted events -/
theorem Holds.agree {ds ds' : List (Delivery F)} {c c' : Chain F} (h : Holds ds c) (h' : Holds ds' c')
    (hsame : ∀ e, (∃ d ∈ ds, d.event = e) ↔ ∃ d ∈ ds', d.event = e) :
    c.state = c'.state ∧ accepted c.events = accepted c'.events := by
  have hperm := h.perm h' hsame
  refine ⟨?_, accepted_perm h.ok.distinctHashes hperm⟩
  have hnil : ds = [] ↔ ds' = [] := by
    constructor
    · rintro rfl
      by_contra hne
      obtain ⟨d, hd⟩ := List.exists_mem_of_ne_nil _ hne
      obtain ⟨d', hd', -⟩ := (hsame d.event).2 ⟨d, hd, rfl⟩
      cases hd'
    · rintro rfl
      by_contra hne
      obtain ⟨d, hd⟩ := List.exists_mem_of_ne_nil _ hne
      obtain ⟨d', hd', -⟩ := (hsame d.event).1 ⟨d, hd, rfl⟩
      cases hd'
  rw [h.state, h'.state, outcome_perm h.ok.distinctHashes hperm]
  simp only [hnil]

/-- the report of an event is the difference of the accepted events before and after; the event itself is reported by its flag -/
structure Exact (old new : List (Event F)) (event : Event F) (accepted : Bool) (displaced newlyAccepted : List (Event F)) :
    Prop where
  accepted : accepted = true ↔ event ∈ new
  displaced : ∀ x, x ∈ displaced ↔ x ∈ old ∧ x ∉ new
  newlyAccepted : ∀ x, x ∈ newlyAccepted ↔ x ∈ new ∧ x ∉ old ∧ x ≠ event

/-- an event taken in under its own hash is reported by its flag -/
theorem Took.accepted_iff {c c' : Chain F} {event : Event F} {ch : ChainedEvent} {r : Recorded F}
    (h : Took c c' event ch.eventHash r) (hch : chainedEvent event = some ch) (hmem : event ∈ c'.events) :
    ch.eventHash ∈ hashesOf (outcome c'.events) ↔ event ∈ accepted c'.events :=
  (mem_accepted_new h.ok.distinctHashes hch hmem).symm

/-- **Convergence of the store.** Stores that received the same events agree, and every report is exact, if no other event of
the store has the id of the event received -/
theorem record_converges (owner : IdentityId) (ds ds' : List (Delivery F)) (h : Received owner ds) (h' : Received owner ds')
    (hsame : ∀ e, (∃ d ∈ ds, d.event = e) ↔ ∃ d ∈ ds', d.event = e) :
    (∃ c c', recordAll ds = .ok c ∧ recordAll ds' = .ok c' ∧ c.state = c'.state ∧ accepted c.events = accepted c'.events) ∧
    ∀ before d after, ds = before ++ d :: after → (∀ b ∈ before, b.event.id = d.event.id → b.event = d.event) →
      ∃ c c' isAccepted displaced newlyAccepted, recordAll before = .ok c ∧
        record d.now c d.event = .ok (c', .chained isAccepted displaced newlyAccepted (accepted c'.events)) ∧
        Exact (accepted c.events) (accepted c'.events) d.event isAccepted displaced newlyAccepted := by
  constructor
  · obtain ⟨c, hrun, hc⟩ := holds_recordAll h
    obtain ⟨c', hrun', hc'⟩ := holds_recordAll h'
    obtain ⟨hstate, haccepted⟩ := hc.agree hc' hsame
    exact ⟨c, c', hrun, hrun', hstate, haccepted⟩
  · rintro before d after rfl hids
    have hds : before ++ d :: after = (before ++ [d]) ++ after := by simp
    rw [hds] at h
    have hd := h.of_append
    obtain ⟨c, hrun, hc⟩ := holds_recordAll hd.of_append
    obtain ⟨ch, c', r, hch, hrecord, htook, hc'⟩ := record_step hd hc
    obtain ⟨displaced, newlyAccepted, rfl, hdisplaced, hnewly⟩ := htook.report
    have hmem : d.event ∈ c'.events := (hc'.events d.event).2 ⟨d, by simp, rfl⟩
    refine ⟨c, c', _, displaced, newlyAccepted, hrun, hrecord, ?_, hdisplaced, fun x => ?_⟩
    · rw [decide_eq_true_iff]
      exact htook.accepted_iff hch hmem
    · rw [hnewly x]
      refine and_congr_right fun hx => and_congr_right fun _ => not_congr ?_
      constructor
      · intro hid
        have hxmem := ((mem_accepted hc'.ok.distinctHashes).1 hx).1
        obtain ⟨b, hb, rfl⟩ := (hc'.events x).1 hxmem
        rcases List.mem_append.1 hb with hb | hb
        · exact hids b hb hid
        · rw [List.mem_singleton.1 hb]
      · rintro rfl
        rfl

/-! ## Two events under one id -/

def ada : IdentityId := ⟨.replicate 32 0xaa⟩

/-- ada removes a friend -/
def removal (id : UInt8) (seq : UInt64) (prev : Option String) : Event Decimal where
  id := .replicate 16 id
  kind := "friend.removed"
  issuer := "identity:aaaaaaaaaaaaaaaaaaaaaaaaaaaaaaaaaaaaaaaaaaaaaaaaaaaaaaaaaaaaaaaa"
  subject := "identity:aaaaaaaaaaaaaaaaaaaaaaaaaaaaaaaaaaaaaaaaaaaaaaaaaaaaaaaaaaaaaaaa"
  payload := .object []
  timestamp := 1000000000
  version := 1
  identityChain := some (currentPosition seq prev)

def firstRemoval : Event Decimal := removal 7 1 none

/-- the next one, under the same id -/
def secondRemoval : Event Decimal := removal 7 2 (some "1343f269ab76d3942baec7fb8ddb7c4e46001d09e32e0d87bd8aed21f25006c9")

/-- the second event under an id of its own -/
def laterRemoval : Event Decimal := removal 8 2 (some "1343f269ab76d3942baec7fb8ddb7c4e46001d09e32e0d87bd8aed21f25006c9")

def firstHash : EventHash := .ofHex 32 "1343f269ab76d3942baec7fb8ddb7c4e46001d09e32e0d87bd8aed21f25006c9"

def secondHash : EventHash := .ofHex 32 "f0bb39ab7cb5e0c74c2cdcf598778489cd9719877de8e14b43c81199523bd66c"

def firstChained : ChainedEvent := ⟨1, none, firstHash, 1000000000, .ordinaryEdit, .authenticatedSession⟩

def secondChained : ChainedEvent := ⟨2, some firstHash, secondHash, 1000000000, .ordinaryEdit, .authenticatedSession⟩

def laterChained : ChainedEvent :=
  ⟨2, some firstHash, .ofHex 32 "0f163c47b3eea80ff6d4c500b7eb8fe51c9bf1e80fb0bb29ad6b67bdc8338700", 1000000000, .ordinaryEdit,
    .authenticatedSession⟩

/-- one evaluation, since the texts of the events are the same -/
theorem chainedEvent_removals : chainOwner firstRemoval = some ada ∧ chainedEvent firstRemoval = some firstChained ∧
    chainedEvent secondRemoval = some secondChained ∧ chainedEvent laterRemoval = some laterChained := by
  decide +kernel

theorem chainedEvent_firstRemoval : chainedEvent firstRemoval = some firstChained := chainedEvent_removals.2.1

theorem chainedEvent_secondRemoval : chainedEvent secondRemoval = some secondChained := chainedEvent_removals.2.2.1

theorem chainedEvent_laterRemoval : chainedEvent laterRemoval = some laterChained := chainedEvent_removals.2.2.2

theorem chainOwner_removal (id : UInt8) (seq : UInt64) (prev : Option String) : chainOwner (removal id seq prev) = some ada := by
  have hfirst : chainOwner firstRemoval = some ada := chainedEvent_removals.1
  -- neither the id nor the position counts
  exact hfirst

/-- the second event comes first, and waits -/
def waitingRemovals : List (Delivery Decimal) := [⟨2000000000, secondRemoval⟩, ⟨2000000000, firstRemoval⟩]

/-- another event of ada's, and then the first removal -/
theorem received_before_first {event : Event Decimal} {ch : ChainedEvent} (howner : chainOwner event = some ada)
    (hch : chainedEvent event = some ch) (htimely : Timely 2000000000 event) (hne : ch.eventHash ≠ firstHash) :
    Received ada [⟨2000000000, event⟩, ⟨2000000000, firstRemoval⟩] := by
  have hfirst := eventHash_of_chainedEvent chainedEvent_firstRemoval
  have hevent := eventHash_of_chainedEvent hch
  have hdiff : ∀ hash, eventHash event = .ok hash → eventHash firstRemoval = .ok hash → False := by
    intro hash h h'
    rw [hevent] at h
    rw [hfirst] at h'
    exact hne (Except.ok.inj (h.trans h'.symm))
  refine ⟨?_, ?_, ?_, ?_⟩
  · simp only [List.forall_mem_cons, List.not_mem_nil, false_implies, implies_true, and_true]
    exact ⟨howner, chainOwner_removal _ _ _⟩
  · simp only [List.forall_mem_cons, List.not_mem_nil, false_implies, implies_true, and_true]
    rw [hch, chainedEvent_firstRemoval]
    exact ⟨rfl, rfl⟩
  · simp only [List.forall_mem_cons, List.not_mem_nil, false_implies, implies_true, and_true]
    exact ⟨htimely, by decide⟩
  · simp only [List.forall_mem_cons, List.not_mem_nil, false_implies, implies_true, and_true]
    exact ⟨⟨trivial, fun hash h h' => (hdiff hash h h').elim⟩, fun hash h h' => (hdiff hash h' h).elim⟩

theorem received_waitingRemovals : Received ada waitingRemovals :=
  received_before_first (chainOwner_removal _ _ _) chainedEvent_secondRemoval (by decide) (by decide)

theorem storedOf_second : storedOf [secondRemoval] = [⟨secondRemoval, secondChained⟩] := storedOf_cons chainedEvent_secondRemoval []

theorem storedOf_removals :
    storedOf [secondRemoval, firstRemoval] = [⟨secondRemoval, secondChained⟩, ⟨firstRemoval, firstChained⟩] := by
  rw [storedOf_cons chainedEvent_secondRemoval, storedOf_cons chainedEvent_firstRemoval]
  rfl

/-- without the first event, the second is not accepted -/
theorem outcome_second : outcome [secondRemoval] = ⟨[], none⟩ := by
  rw [outcome, storedOf_second]
  decide +kernel

theorem outcome_removals : outcome [secondRemoval, firstRemoval] = ⟨[firstChained, secondChained], none⟩ := by
  rw [outcome, storedOf_removals]
  decide +kernel

theorem second_ne_first : secondRemoval ≠ firstRemoval := by
  intro heq
  have hposition := congrArg ProtocolEvent.identityChain heq
  revert hposition
  decide

/-- the two events in either order: the stores agree, and the report of the first one, which lets the other in, is exact -/
theorem record_converges_removals :
    let ds : List (Delivery Decimal) := [⟨2000000000, laterRemoval⟩, ⟨2000000000, firstRemoval⟩]
    (∃ c c', recordAll ds = .ok c ∧ recordAll ds.reverse = .ok c' ∧ c.state = c'.state ∧ accepted c.events = accepted c'.events) ∧
      ∃ c c' isAccepted displaced newlyAccepted, recordAll [⟨2000000000, laterRemoval⟩] = .ok c ∧
        record 2000000000 c firstRemoval = .ok (c', .chained isAccepted displaced newlyAccepted (accepted c'.events)) ∧
        Exact (accepted c.events) (accepted c'.events) firstRemoval isAccepted displaced newlyAccepted := by
  intro ds
  have hreceived : Received ada ds :=
    received_before_first (chainOwner_removal _ _ _) chainedEvent_laterRemoval (by decide) (by decide)
  have hreverse : Received ada ds.reverse :=
    ⟨fun d hd => hreceived.owner d (List.mem_reverse.1 hd), fun d hd => hreceived.chained d (List.mem_reverse.1 hd),
      fun d hd => hreceived.timely d (List.mem_reverse.1 hd),
      fun d hd d' hd' => hreceived.distinct d (List.mem_reverse.1 hd) d' (List.mem_reverse.1 hd')⟩
  have hsame : ∀ e, (∃ d ∈ ds, d.event = e) ↔ ∃ d ∈ ds.reverse, d.event = e := by simp only [List.mem_reverse, implies_true]
  obtain ⟨hagree, hexact⟩ := record_converges ada ds ds.reverse hreceived hreverse hsame
  refine ⟨hagree, hexact [⟨2000000000, laterRemoval⟩] ⟨2000000000, firstRemoval⟩ [] rfl ?_⟩
  have hids : laterRemoval.id ≠ firstRemoval.id := by decide
  intro b hb hid
  rw [List.mem_singleton.1 hb] at hid
  exact absurd hid hids

/-- **A newly accepted event goes unreported**: it waited for the event received, under the same id -/
theorem newly_accepted_unreported :
    ¬ ∀ (owner : IdentityId) (ds : List (Delivery Decimal)), Received owner ds → ∀ before d after, ds = before ++ d :: after →
      ∃ c c' isAccepted displaced newlyAccepted, recordAll before = .ok c ∧
        record d.now c d.event = .ok (c', .chained isAccepted displaced newlyAccepted (accepted c'.events)) ∧
        Exact (accepted c.events) (accepted c'.events) d.event isAccepted displaced newlyAccepted := by
  intro h
  have hwaiting : Received ada ([⟨2000000000, secondRemoval⟩] ++ [⟨2000000000, firstRemoval⟩]) := received_waitingRemovals
  have hreceived : Received ada [⟨2000000000, secondRemoval⟩] := hwaiting.of_append
  obtain ⟨c, hrun, hc⟩ := holds_recordAll hreceived
  obtain ⟨ch, c', r, hch, hrecord, htook, hc'⟩ := record_step (d := ⟨2000000000, firstRemoval⟩) received_waitingRemovals hc
  obtain ⟨c₁, c₁', isAccepted, displaced, newlyAccepted, hrun₁, hrecord₁, hexact⟩ :=
    h ada waitingRemovals received_waitingRemovals [⟨2000000000, secondRemoval⟩] ⟨2000000000, firstRemoval⟩ [] rfl
  obtain rfl : c = c₁ := Except.ok.inj (hrun.symm.trans hrun₁)
  obtain ⟨rfl, rfl⟩ := Prod.mk.inj (Except.ok.inj (hrecord.symm.trans hrecord₁))
  obtain ⟨_, newly, hr, -, hnewly⟩ := htook.report
  obtain ⟨-, -, rfl, -⟩ := Recorded.chained.inj hr
  have hevents : c.events.Perm [secondRemoval] := by
    refine (List.perm_ext_iff_of_nodup hc.ok.nodup (List.nodup_singleton _)).2 fun e => ?_
    rw [hc.events]
    simp [eq_comm]
  have hevents' : c'.events.Perm [secondRemoval, firstRemoval] := by
    refine (List.perm_ext_iff_of_nodup hc'.ok.nodup ?_).2 fun e => ?_
    · rw [List.nodup_cons, List.mem_singleton]
      exact ⟨second_ne_first, List.nodup_singleton _⟩
    · rw [hc'.events]
      simp [eq_comm]
  have hout : secondRemoval ∉ accepted c.events := by
    rw [mem_accepted hc.ok.distinctHashes, outcome_perm hc.ok.distinctHashes hevents, outcome_second]
    rintro ⟨-, c, -, hmem⟩
    cases hmem
  have hin : secondRemoval ∈ accepted c'.events := by
    rw [mem_accepted hc'.ok.distinctHashes, outcome_perm hc'.ok.distinctHashes hevents', outcome_removals]
    exact ⟨hevents'.mem_iff.2 (by simp), secondChained, chainedEvent_secondRemoval, by decide⟩
  -- the ids are equal, so the report leaves it out
  exact ((hnewly secondRemoval).1 ((hexact.newlyAccepted secondRemoval).2 ⟨hin, hout, second_ne_first⟩)).2.2 rfl

end Avalon.ChainStore
