/-
Local events at the head of a chain (`crates/indexer/src/identity_chain_store.rs`: `lock_state`, `assign_local`, `record`).

A transaction locks the state row of an identity, reads the head, and inserts its event behind it; the lock is held until the
transaction ends. Between the two, other transactions can do anything but touch this identity's rows.

The stored head is always the end of the resolution of all that is stored, so nothing claims the position behind it, and a
local event is alone there. Events that were recorded before and name its hash as their predecessor follow it; only these
can fork the chain again, behind it.

Results:
- `outcome_append`: an event chosen at the end of the chain is accepted behind all that was.
- `Reachable.ok`: in every interleaving, the rows are consistent, inside and outside of the transaction that holds the lock.
- `reachable_assignLocal`: a call of `assignLocal` alone is a run of the transaction's steps.
- `assign_local_extends`: what a local event does to the chain, in every interleaving.
- `assignment_forks`: a local event that two waiting critical events name as their predecessor forks the chain.
-/
import Mathlib.Tactic
import Avalon.Core.Bytes
import Avalon.Core.Collision
import Avalon.Core.Fallible
import Avalon.Core.Json
import Avalon.Core.Replay
import Avalon.Core.Sha256
import Avalon.Protocol.Events
import Avalon.Protocol.IdentityId
import Avalon.Protocol.IdentityChain
import Avalon.Protocol.IdentityChainLaws
import Avalon.Protocol.IdentityChainWire
import Avalon.Protocol.ChainHash
import Avalon.Protocol.SignedMessages
import Avalon.Indexer.ChainStore

namespace Avalon.ChainStore

open Json Avalon.SigningBytes Avalon.LedgerEntry Avalon.Events Avalon.Identity Avalon.IdentityChain Avalon.SignedMessages
open Fallible Replay Collision

variable {F : Type} [F64 F]

/-! ## The end of the chain -/

/-- the hashes of the recoveries among the events -/
def recoveryHashes (events : List (Event F)) : Finset EventHash :=
  (((storedOf events).filter fun s => decide (s.event.kind = "identity.recovered")).map fun s => s.chained.eventHash).toFinset

/-- the rule's inputs of the events -/
def chainedOf (events : List (Event F)) : List ChainedEvent := (storedOf events).map Stored.chained

/-- the position behind the last accepted event -/
def endOf (events : List (Event F)) : ℕ × Option EventHash := endKey opens genesis (outcome events).accepted

theorem outcome_run (events : List (Event F)) :
    ∃ f, (outcome events).forkedAt = f.map Prod.fst ∧
      ChainRun (recoveryHashes events) (chainedOf events) genesis (outcome events).accepted f :=
  resolveIdentityChain_run _ _

theorem mem_recoveryHashes {events : List (Event F)} {hash : EventHash} :
    hash ∈ recoveryHashes events ↔ ∃ s ∈ storedOf events, s.event.kind = "identity.recovered" ∧ s.chained.eventHash = hash := by
  unfold recoveryHashes
  simp only [List.mem_toFinset, List.mem_map, List.mem_filter, decide_eq_true_eq]
  constructor
  · rintro ⟨s, ⟨hs, hkind⟩, hhash⟩
    exact ⟨s, hs, hkind, hhash⟩
  · rintro ⟨s, hs, hkind, hhash⟩
    exact ⟨s, ⟨hs, hkind⟩, hhash⟩

/-- which hashes are listed matters among the candidates only -/
theorem choose_congr (recoveries recoveries' : Finset EventHash) {cs : List ChainedEvent}
    (h : ∀ c ∈ cs, c.eventHash ∈ recoveries ↔ c.eventHash ∈ recoveries') : choose recoveries cs = choose recoveries' cs := by
  have hfilter : cs.filter (fun e => decide (e.eventHash ∈ recoveries)) =
      cs.filter (fun e => decide (e.eventHash ∈ recoveries')) := by
    apply List.filter_congr
    intro c hc
    rw [decide_eq_decide]
    exact h c hc
  cases cs with
  | nil => rfl
  | cons first others =>
    simp only [choose]
    rcases resolveConflict_cases first others with ⟨-, hr⟩ | ⟨-, -, hr⟩ | ⟨-, -, w, -, -, hr⟩
    · rw [hr]
    · rw [hr]
      dsimp only
      rw [hfilter]
    · rw [hr]

/-- positions are numbered through -/
theorem endKey_fst {recoveries : Finset EventHash} {l acc : List ChainedEvent} {k : ℕ × Option EventHash}
    {f : Option (ℕ × Option EventHash)} (h : ChainRun recoveries l k acc f) :
    (endKey opens k acc).1 = k.1 + acc.length := by
  induction h with
  | done => rfl
  | frozen => rfl
  | @step k w acc f hc _ _ ih =>
    have hseq : w.seq = k.1 := congrArg Prod.fst (mem_candidates.1 (mem_of_choose hc)).2
    rw [endKey, ih, List.length_cons]
    simp only [opens]
    omega

/-- the events before one of a run lie before its end -/
theorem endKey_before {recoveries : Finset EventHash} {l before after : List ChainedEvent} {w : ChainedEvent}
    {k : ℕ × Option EventHash} {f : Option (ℕ × Option EventHash)} (h : ChainRun recoveries l k (before ++ w :: after) f) :
    (endKey opens k before).1 < (endKey opens k (before ++ w :: after)).1 := by
  have htail := endKey_fst h.split.2
  have hw : w.seq = (endKey opens k before).1 := congrArg Prod.fst (h.pos_eq mem_of_choose)
  have happend : endKey opens k (before ++ w :: after) = endKey opens (opens w) after := by
    clear h htail hw
    induction before generalizing k with
    | nil => rfl
    | cons v before ih => exact ih
  rw [happend, htail]
  simp only [opens]
  omega

section Append

variable {events : List (Event F)} {event : Event F} {ch : ChainedEvent} (hch : chainedEvent event = some ch)
  (hfresh : ∀ s ∈ storedOf events, s.chained.eventHash ≠ ch.eventHash)

include hch in
theorem storedOf_append : storedOf (events ++ [event]) = storedOf events ++ [⟨event, ch⟩] := by
  have hlast : storedOf [event] = [⟨event, ch⟩] := storedOf_cons hch []
  rw [← hlast]
  exact List.filterMap_append

include hch in
theorem chainedOf_append : chainedOf (events ++ [event]) = chainedOf events ++ [ch] := by
  unfold chainedOf
  rw [storedOf_append hch, List.map_append]
  rfl

include hch in
theorem candidates_elsewhere {k : ℕ × Option EventHash} (hk : position ch ≠ k) :
    candidates position (chainedOf (events ++ [event])) k = candidates position (chainedOf events) k := by
  rw [chainedOf_append hch, candidates, List.filter_append, candidates]
  simp [hk]

include hch in
theorem candidates_there : candidates position (chainedOf (events ++ [event])) (position ch) =
    candidates position (chainedOf events) (position ch) ++ [ch] := by
  rw [chainedOf_append hch, candidates, List.filter_append, candidates]
  simp

include hch hfresh in
/-- the events there were are recoveries as before -/
theorem recoveryHashes_append {c : ChainedEvent} (hc : c ∈ chainedOf events) :
    c.eventHash ∈ recoveryHashes (events ++ [event]) ↔ c.eventHash ∈ recoveryHashes events := by
  obtain ⟨t, ht, rfl⟩ := List.mem_map.1 hc
  rw [mem_recoveryHashes, mem_recoveryHashes, storedOf_append hch]
  constructor
  · rintro ⟨s, hs, hkind, hhash⟩
    rcases List.mem_append.1 hs with hs | hs
    · exact ⟨s, hs, hkind, hhash⟩
    · rw [List.mem_singleton.1 hs] at hhash
      exact absurd hhash.symm (hfresh t ht)
  · rintro ⟨s, hs, hkind, hhash⟩
    exact ⟨s, List.mem_append_left _ hs, hkind, hhash⟩

include hch hfresh in
/-- **An event chosen at the end of the chain** is accepted behind all that was; what follows are events that waited for it -/
theorem outcome_append (hposition : position ch = endOf events)
    (hchosen : choose (recoveryHashes (events ++ [event])) (candidates position (chainedOf events) (endOf events) ++ [ch]) =
      some ch) :
    ∃ rest f, (outcome (events ++ [event])).accepted = (outcome events).accepted ++ ch :: rest ∧
      (outcome (events ++ [event])).forkedAt = f.map Prod.fst ∧
      ChainRun (recoveryHashes (events ++ [event])) (chainedOf (events ++ [event])) (opens ch) rest f := by
  obtain ⟨f, -, hrun⟩ := outcome_run events
  obtain ⟨f', hf', hrun'⟩ := outcome_run (events ++ [event])
  -- the rule chooses the accepted events and then the new one
  have hall : ∀ before w after, (outcome events).accepted ++ [ch] = before ++ w :: after →
      choose (recoveryHashes (events ++ [event]))
        (candidates position (chainedOf (events ++ [event])) (endKey opens genesis before)) = some w := by
    intro before w after heq
    rcases after.eq_nil_or_concat with rfl | ⟨after, x, rfl⟩
    · obtain ⟨hbefore, hlast⟩ := List.append_inj' heq rfl
      obtain ⟨rfl, -⟩ := List.cons.inj hlast
      rw [← hbefore]
      change choose _ (candidates position _ (endOf events)) = _
      rw [← hposition, candidates_there hch, hposition]
      exact hchosen
    · rw [List.concat_eq_append, ← List.cons_append, ← List.append_assoc] at heq
      obtain ⟨hacc, -⟩ := List.append_inj' heq rfl
      rw [hacc] at hrun
      have hlt := endKey_before hrun
      have hne : position ch ≠ endKey opens genesis before := by
        intro heq
        rw [hposition, endOf, hacc] at heq
        rw [heq] at hlt
        exact lt_irrefl _ hlt
      rw [candidates_elsewhere hch hne, choose_congr _ (recoveryHashes events)]
      · exact hrun.split.1
      · intro c hc
        exact recoveryHashes_append hch hfresh (mem_candidates.1 hc).1
  obtain ⟨rest, hrest, htail⟩ := hrun'.follows hall fun before w after heq hnil => by
    have hw := mem_of_choose (hall before w after heq)
    rw [hnil] at hw
    cases hw
  rw [endKey_concat] at htail
  exact ⟨rest, f', by rw [hrest, List.append_assoc, List.singleton_append], hf', htail⟩

include hch hfresh in
theorem distinctHashes_append (hd : DistinctHashes events) : DistinctHashes (events ++ [event]) := by
  unfold DistinctHashes
  rw [storedOf_append hch, List.map_append, List.map_singleton, ← List.concat_eq_append]
  refine List.Nodup.concat ?_ hd
  intro hmem
  obtain ⟨s, hs, hhash⟩ := List.mem_map.1 hmem
  exact hfresh s hs hhash

include hch hfresh in
/-- the accepted events of an outcome that goes on from another -/
theorem accepted_append (hd : DistinctHashes events) {rest : List ChainedEvent}
    (h : (outcome (events ++ [event])).accepted = (outcome events).accepted ++ ch :: rest) :
    ∃ restEvents, accepted (events ++ [event]) = accepted events ++ event :: restEvents ∧ (rest = [] → restEvents = []) := by
  have hd' := distinctHashes_append hch hfresh hd
  have hmem : ∀ {s}, s ∈ storedOf events → s ∈ storedOf (events ++ [event]) := by
    intro s hs
    rw [storedOf_append hch]
    exact List.mem_append_left _ hs
  set find : ChainedEvent → Option (Stored F) := fun a =>
    (storedOf (events ++ [event])).find? fun s => decide (s.chained.eventHash = a.eventHash) with hfind
  have hold : (outcome events).accepted.filterMap find = acceptedOf (storedOf events) (outcome events) := by
    apply List.filterMap_congr
    intro a ha
    obtain ⟨s, hs, rfl⟩ := stored_of_accepted ha
    rw [hfind, find?_hash hd hs rfl]
    exact find?_hash hd' (hmem hs) rfl
  have hnew : find ch = some ⟨event, ch⟩ := find?_hash hd' (by rw [storedOf_append hch]; simp) rfl
  refine ⟨(rest.filterMap find).map Stored.event, ?_, by rintro rfl; rfl⟩
  rw [accepted, acceptedOf, ← hfind, h, List.filterMap_append, hold, List.filterMap_cons_some hnew, List.map_append]
  rfl

end Append

/-! ## The head -/

/-- the position behind the accepted events, by the head -/
theorem endOf_eq (events : List (Event F)) :
    endOf events = ((outcome events).head.map opens).getD genesis := by
  unfold endOf ChainOutcome.head
  rcases (outcome events).accepted.eq_nil_or_concat with hnil | ⟨acc, w, hacc⟩
  · rw [hnil]
    rfl
  · rw [hacc, List.concat_eq_append, endKey_concat, List.getLast?_concat]
    rfl

theorem seq_lt_of_chainedEvent {event : Event F} {c : ChainedEvent} (h : chainedEvent event = some c) : c.seq < 2 ^ 64 := by
  obtain ⟨_, position, _, _, -, -, -, -, rfl⟩ := chainedEvent_eq_some.1 h
  exact position.seq.toNat_lt

theorem parseEventHash_hexEncode (hash : EventHash) : parseEventHash (hexEncode hash.toList) = some hash := by
  rw [parseEventHash, hexDecode_hexEncode, Option.bind_some, FixedBytes.ofList?_toList]

/-- **The position assigned** is the one behind the accepted events, if it can be numbered -/
theorem position_positioned {events : List (Event F)} {event : Event F} {ch : ChainedEvent}
    (hch : chainedEvent (positioned (stateOf (outcome events)) event) = some ch)
    (hroom : (stateOf (outcome events)).seq.toUInt64.toNat + 1 < 2 ^ 64) : position ch = endOf events := by
  obtain ⟨_, pos, prevHash, hash, -, hpos, hprev, -, rfl⟩ := chainedEvent_eq_some.1 hch
  obtain rfl := Option.some.inj hpos
  rw [endOf_eq]
  have hone : ((stateOf (outcome events)).seq.toUInt64 + 1).toNat = (stateOf (outcome events)).seq.toUInt64.toNat + 1 := by
    rw [UInt64.toNat_add]
    exact Nat.mod_eq_of_lt hroom
  change (((stateOf (outcome events)).seq.toUInt64 + 1).toNat, prevHash) = _
  rw [hone]
  unfold positionPrev currentPosition at hprev
  unfold stateOf at hprev ⊢
  cases hhead : (outcome events).head with
  | none =>
    rw [hhead] at hprev
    cases hprev
    rfl
  | some h =>
    rw [hhead] at hprev
    obtain ⟨s, hs, hsh⟩ := stored_of_accepted (List.mem_of_getLast? hhead)
    have hseq : h.seq < 2 ^ 64 := hsh ▸ seq_lt_of_chainedEvent (mem_storedOf.1 hs).2
    simp only [Option.map_some, parseEventHash_hexEncode] at hprev
    obtain rfl := Except.ok.inj hprev
    have hnat : ((UInt64.ofNat h.seq).toInt64.toUInt64).toNat = h.seq := by
      rw [UInt64.toUInt64_toInt64, UInt64.toNat_ofNat']
      exact Nat.mod_eq_of_lt hseq
    simp only [Option.map_some, Option.getD_some, hnat]
    rfl

/-! ## What a chain hash digests -/

/-- the message whose bytes the chain hash of an event digests -/
def hashedMessage (event : Event F) : Option SignedMessage := do
  let position ← event.identityChain
  let owner ← chainOwner event
  let prev ← (positionPrev position).toOption
  let envelope ← (positionEnvelope position).toOption
  match ← (keyEventContent event owner).toOption with
  | some content => return .keyEvent ⟨owner, position.seq, prev, content⟩
  | none =>
    let payload ← (payloadHash event.payload).toOption
    let micros ← (timestampMicros event.timestamp).toOption
    return .chainEvent ⟨owner, position.seq, prev, event.id, event.kind, event.issuer, event.subject, event.version, micros,
      payload, envelope⟩

def hashedBytes (event : Event F) : Option Bytes := (hashedMessage event).bind SignedMessage.signingBytes

/-- the place in a chain a hashed message names, and the kind where it names that -/
def placeOf : SignedMessage → Option (UInt64 × Option EventHash × Option String)
  | .chainEvent input => some (input.seq, input.prevHash, some input.kind)
  | .keyEvent input => some (input.seq, input.prevHash, none)
  | _ => none

theorem placeOf_agrees {m m' : SignedMessage} (h : m.Agrees m') : placeOf m = placeOf m' := by
  cases m <;> cases m' <;> first | exact h.elim | rfl | (obtain rfl : _ = _ := h; rfl)

/-- **The chain hash** is the digest of the message's bytes -/
theorem hashedBytes_of_eventHash {event : Event F} {hash : EventHash} (h : eventHash event = .ok hash) :
    ∃ message bytes, hashedMessage event = some message ∧ message.signingBytes = some bytes ∧ hash = Sha256.hash bytes := by
  unfold eventHash at h
  cases hposition : event.identityChain with
  | none =>
    rw [hposition] at h
    cases h
  | some position =>
    rw [hposition] at h
    cases howner : chainOwner event with
    | none =>
      rw [howner] at h
      cases h
    | some owner =>
      rw [howner] at h
      obtain ⟨prev, hprev, h⟩ := bind_eq_ok.1 h
      obtain ⟨envelope, henvelope, h⟩ := bind_eq_ok.1 h
      obtain ⟨content, hcontent, h⟩ := bind_eq_ok.1 h
      have hprev := toOption_eq_some.2 hprev
      have henvelope := toOption_eq_some.2 (mapError_eq_ok.1 henvelope)
      have hcontent := toOption_eq_some.2 hcontent
      cases content with
      | some content =>
        obtain ⟨bytes, hbytes, hhash⟩ := bind_eq_ok.1 (mapError_eq_ok.1 h)
        refine ⟨.keyEvent ⟨owner, position.seq, prev, content⟩, bytes, ?_, toOption_eq_some.2 hbytes, (Except.ok.inj hhash).symm⟩
        simp only [hashedMessage, hposition, howner, hprev, henvelope, hcontent, Option.bind_eq_bind, Option.bind_some,
          Option.pure_def]
      | none =>
        obtain ⟨payload, hpayload, h⟩ := bind_eq_ok.1 h
        obtain ⟨micros, hmicros, h⟩ := bind_eq_ok.1 h
        have hpayload := toOption_eq_some.2 (mapError_eq_ok.1 hpayload)
        have hmicros := toOption_eq_some.2 (mapError_eq_ok.1 hmicros)
        obtain ⟨bytes, hbytes, hhash⟩ := bind_eq_ok.1 (mapError_eq_ok.1 h)
        refine ⟨.chainEvent ⟨owner, position.seq, prev, event.id, event.kind, event.issuer, event.subject, event.version, micros,
          payload, envelope⟩, bytes, ?_, toOption_eq_some.2 hbytes, (Except.ok.inj hhash).symm⟩
        simp only [hashedMessage, hposition, howner, hprev, henvelope, hcontent, hpayload, hmicros, Option.bind_eq_bind,
          Option.bind_some, Option.pure_def]

/-- the message of a chained event names its place, and its kind if that is not a key event -/
theorem placeOf_hashedMessage {event : Event F} {ch : ChainedEvent} (hch : chainedEvent event = some ch) {message : SignedMessage}
    (h : hashedMessage event = some message) :
    ∃ seq prev kind, placeOf message = some (seq, prev, kind) ∧ position ch = (seq.toNat, prev) ∧
      (kind = some event.kind ∨ (kind = none ∧ event.kind ≠ "identity.recovered")) := by
  obtain ⟨_, pos, prevHash, _, -, hpos, hprev, -, rfl⟩ := chainedEvent_eq_some.1 hch
  unfold hashedMessage at h
  obtain ⟨pos', hpos', h⟩ := Option.bind_eq_some_iff.1 h
  obtain rfl := Option.some.inj (hpos.symm.trans hpos')
  obtain ⟨owner, -, h⟩ := Option.bind_eq_some_iff.1 h
  obtain ⟨prev, hprev', h⟩ := Option.bind_eq_some_iff.1 h
  obtain rfl := Except.ok.inj (hprev.symm.trans (toOption_eq_some.1 hprev'))
  obtain ⟨envelope, -, h⟩ := Option.bind_eq_some_iff.1 h
  obtain ⟨content, hcontent, h⟩ := Option.bind_eq_some_iff.1 h
  cases content with
  | some content =>
    obtain rfl := Option.some.inj h
    refine ⟨pos.seq, prevHash, none, rfl, rfl, .inr ⟨rfl, fun hkind => ?_⟩⟩
    rw [toOption_eq_some, keyEventContent, hkind, if_neg (by decide), if_neg (by decide)] at hcontent
    cases hcontent
  | none =>
    obtain ⟨payload, -, h⟩ := Option.bind_eq_some_iff.1 h
    obtain ⟨micros, -, h⟩ := Option.bind_eq_some_iff.1 h
    obtain rfl := Option.some.inj h
    exact ⟨pos.seq, prevHash, some event.kind, rfl, rfl, .inl rfl⟩

/-- **Events with one hash** claim one position, and are both recoveries or neither, unless what was hashed collides -/
theorem same_place {event event' : Event F} {ch ch' : ChainedEvent} (hch : chainedEvent event = some ch)
    (hch' : chainedEvent event' = some ch') (hhash : ch.eventHash = ch'.eventHash) {events : List (Event F)} (hmem : event ∈ events)
    (hmem' : event' ∈ events) :
    (position ch = position ch' ∧ (event.kind = "identity.recovered" ↔ event'.kind = "identity.recovered")) ∨
      CollisionIn Sha256.hash (events.filterMap hashedBytes) := by
  obtain ⟨m, bytes, hm, hbytes, hdigest⟩ := hashedBytes_of_eventHash (eventHash_of_chainedEvent hch)
  obtain ⟨m', bytes', hm', hbytes', hdigest'⟩ := hashedBytes_of_eventHash (eventHash_of_chainedEvent hch')
  have hin : bytes ∈ events.filterMap hashedBytes :=
    List.mem_filterMap.2 ⟨event, hmem, by rw [hashedBytes, hm, Option.bind_some, hbytes]⟩
  have hin' : bytes' ∈ events.filterMap hashedBytes :=
    List.mem_filterMap.2 ⟨event', hmem', by rw [hashedBytes, hm', Option.bind_some, hbytes']⟩
  rcases eq_or_collision hin hin' (hdigest.symm.trans (hhash.trans hdigest')) with rfl | hcollision
  · left
    have hagrees := placeOf_agrees (SignedMessage.agrees_of_signingBytes m m' hbytes hbytes')
    obtain ⟨seq, prev, kind, hplace, hpos, hkind⟩ := placeOf_hashedMessage hch hm
    obtain ⟨seq', prev', kind', hplace', hpos', hkind'⟩ := placeOf_hashedMessage hch' hm'
    rw [hplace, hplace', Option.some.injEq, Prod.mk.injEq, Prod.mk.injEq] at hagrees
    obtain ⟨rfl, rfl, rfl⟩ := hagrees
    refine ⟨hpos.trans hpos'.symm, ?_⟩
    rcases hkind with rfl | ⟨rfl, hne⟩
    · rcases hkind' with hkind' | ⟨hnone, -⟩
      · rw [Option.some.inj hkind']
      · cases hnone
    · rcases hkind' with hkind' | ⟨-, hne'⟩
      · cases hkind'
      · exact iff_of_false hne hne'
  · exact .inr hcollision

/-! ## A local event -/

/-- the event is accepted behind all that was accepted before; a fork, if there is one then, lies behind it; and if no stored
event waited for it, it is the last one and there is no fork -/
structure Extends (c c' : Chain F) (event : Event F) (ch : ChainedEvent) : Prop where
  accepted : ∃ rest, accepted c'.events = accepted c.events ++ event :: rest
  fork : ∀ seq, (outcome c'.events).forkedAt = some seq → ch.seq < seq
  alone : (∀ s ∈ storedOf c.events, s.chained.prevHash ≠ some ch.eventHash) →
    ChainStore.accepted c'.events = ChainStore.accepted c.events ++ [event] ∧ (outcome c'.events).forkedAt = none

/-- no recovery is stored at a position -/
def NoRecoveryAt (events : List (Event F)) (k : ℕ × Option EventHash) : Prop :=
  ∀ s ∈ storedOf events, s.event.kind = "identity.recovered" → position s.chained ≠ k

section Local

variable {c : Chain F} (hc : c.Ok) {event : Event F} {ch : ChainedEvent} (hch : chainedEvent event = some ch)
  (hfree : (outcome c.events).forkedAt = none ∨ (event.kind = "identity.recovered" ∧ NoRecoveryAt c.events (endOf c.events)))

theorem candidates_end_of_open {events : List (Event F)} (h : (outcome events).forkedAt = none) :
    candidates position (chainedOf events) (endOf events) = [] := by
  obtain ⟨f, hf, hrun⟩ := outcome_run events
  obtain rfl : f = none := Option.map_eq_none_iff.1 (hf.symm.trans h)
  exact hrun.done_at

include hc hch hfree in
/-- **At the end of the chain** the rule chooses the event: it is alone, or the only recovery -/
theorem choose_at_end (hfresh : ∀ s ∈ storedOf c.events, s.chained.eventHash ≠ ch.eventHash) :
    choose (recoveryHashes (c.events ++ [event])) (candidates position (chainedOf c.events) (endOf c.events) ++ [ch]) =
      some ch := by
  rcases hfree with hopen | ⟨hkind, honly⟩
  · rw [candidates_end_of_open hopen]
    exact choose_singleton _ _
  · have hcritical : ch.actionClass = .chainCritical := by
      obtain ⟨actionClass, _, _, _, hclass, -, -, -, rfl⟩ := chainedEvent_eq_some.1 hch
      rw [hkind] at hclass
      exact (Option.some.inj hclass).symm
    have hlisted : ch.eventHash ∈ recoveryHashes (c.events ++ [event]) := by
      refine mem_recoveryHashes.2 ⟨⟨event, ch⟩, ?_, hkind, rfl⟩
      rw [storedOf_append hch]
      simp
    have hothers : (candidates position (chainedOf c.events) (endOf c.events)).filter
        (fun e => decide (e.eventHash ∈ recoveryHashes (c.events ++ [event]))) = [] := by
      rw [List.filter_eq_nil_iff]
      intro e he hin
      obtain ⟨hmem, hpos⟩ := mem_candidates.1 he
      rw [decide_eq_true_eq, recoveryHashes_append hch hfresh hmem, mem_recoveryHashes] at hin
      obtain ⟨s, hs, hskind, hhash⟩ := hin
      obtain ⟨t, ht, rfl⟩ := List.mem_map.1 hmem
      obtain rfl := hc.distinctHashes.eq hs ht hhash
      exact honly s hs hskind hpos
    refine choose_of_recovery ⟨ch, by simp, hcritical⟩ ?_
    rw [List.filter_append, hothers, List.nil_append, List.filter_singleton, decide_eq_true hlisted]
    rfl

include hch hfree in
/-- no stored event has the hash of the event, unless what was hashed collides -/
theorem fresh_or_collision (hend : position ch = endOf c.events) :
    (∀ s ∈ storedOf c.events, s.chained.eventHash ≠ ch.eventHash) ∨
      CollisionIn Sha256.hash ((c.events ++ [event]).filterMap hashedBytes) := by
  by_cases hcollision : CollisionIn Sha256.hash ((c.events ++ [event]).filterMap hashedBytes)
  · exact .inr hcollision
  left
  intro s hs hhash
  obtain ⟨hmem, hsc⟩ := mem_storedOf.1 hs
  rcases same_place hsc hch hhash (List.mem_append_left [event] hmem) (by simp) with
    ⟨hpos, hkinds⟩ | h
  · rcases hfree with hopen | ⟨hkind, honly⟩
    · have hcandidate : s.chained ∈ candidates position (chainedOf c.events) (endOf c.events) :=
        mem_candidates.2 ⟨List.mem_map_of_mem hs, hpos.trans hend⟩
      rw [candidates_end_of_open hopen] at hcandidate
      cases hcandidate
    · exact honly s hs (hkinds.2 hkind) (hpos.trans hend)
  · exact hcollision h

/-- stored events of different chain hashes hashed nothing that collides -/
theorem not_collides_of_distinct {events : List (Event F)} (hchained : ∀ e ∈ events, (chainedEvent e).isSome)
    (hd : DistinctHashes events) : ¬ CollisionIn Sha256.hash (events.filterMap hashedBytes) := by
  have hdigest : ∀ b ∈ events.filterMap hashedBytes,
      ∃ s ∈ storedOf events, hashedBytes s.event = some b ∧ Sha256.hash b = s.chained.eventHash := by
    intro b hb
    obtain ⟨e, he, hbytes⟩ := List.mem_filterMap.1 hb
    obtain ⟨ch, hch⟩ := Option.isSome_iff_exists.1 (hchained e he)
    obtain ⟨message, bytes, hmessage, hsigning, hhash⟩ := hashedBytes_of_eventHash (eventHash_of_chainedEvent hch)
    have hsame : bytes = b := by
      rw [hashedBytes, hmessage] at hbytes
      exact Option.some.inj (hsigning.symm.trans hbytes)
    exact ⟨⟨e, ch⟩, mem_storedOf.2 ⟨he, hch⟩, hbytes, by rw [← hsame, hhash]⟩
  rintro ⟨x, hx, y, hy, hne, hhash⟩
  obtain ⟨s, hs, hsx, hsh⟩ := hdigest x hx
  obtain ⟨t, ht, hty, hth⟩ := hdigest y hy
  obtain rfl := hd.eq hs ht (by rw [← hsh, hhash, hth])
  exact hne (Option.some.inj (hsx.symm.trans hty))

include hc hch in
/-- an event of a hash not stored yet goes behind the rows there are -/
theorem recordLocked_fresh (hfresh : ∀ s ∈ storedOf c.events, s.chained.eventHash ≠ ch.eventHash) (hstate : c.state.isSome)
    {now : OffsetDateTime} (htimely : Timely now event) :
    ∃ c' r, recordLocked now c event = .ok (c', r) ∧ Took c c' event ch.eventHash r ∧ c'.events = c.events ++ [event] := by
  rcases recordLocked_cases hc hstate now event with ⟨r, -, hout⟩ | ⟨ch', c', r, hok, -, hch', -, htook⟩
  · exfalso
    cases hout with
    | unchained hnone =>
      rw [hnone] at hch
      cases hch
    | rejected e hout =>
      rcases hout with hnone | hlate
      · rw [hnone] at hch
        cases hch
      · exact hlate htimely
    | duplicate ch' hch' hheld =>
      obtain rfl := Option.some.inj (hch.symm.trans hch')
      obtain ⟨s, hs, hhash, -⟩ := stored_of_heldByOther hc hheld
      exact hfresh s hs hhash
  · obtain rfl := Option.some.inj (hch.symm.trans hch')
    refine ⟨c', r, hok, htook, ?_⟩
    rw [htook.events, eventsWith, if_neg]
    rintro ⟨s, hs, hhash⟩
    exact hfresh s hs hhash

include hc hch hfree in
/-- **A local event** at the end of the chain extends it -/
theorem recordLocked_extends (hend : position ch = endOf c.events) (hstate : c.state.isSome) {now : OffsetDateTime}
    (htimely : Timely now event) :
    (∃ c' r, recordLocked now c event = .ok (c', r) ∧ c'.Ok ∧ Extends c c' event ch) ∨
      CollisionIn Sha256.hash ((c.events ++ [event]).filterMap hashedBytes) := by
  rcases fresh_or_collision hch hfree hend with hfresh | hcollision
  · left
    obtain ⟨c', r, hok, htook, hevents⟩ := recordLocked_fresh hc hch hfresh hstate htimely
    obtain ⟨rest, f, haccepted, hfork, htail⟩ := outcome_append hch hfresh hend (choose_at_end hc hch hfree hfresh)
    obtain ⟨restEvents, hrestEvents, hnil⟩ := accepted_append hch hfresh hc.distinctHashes haccepted
    refine ⟨c', r, hok, htook.ok, ?_, ?_, ?_⟩
    · rw [hevents]
      exact ⟨restEvents, hrestEvents⟩
    · intro seq hseq
      rw [hevents, hfork] at hseq
      obtain ⟨k, rfl, rfl⟩ := Option.map_eq_some_iff.1 hseq
      rw [htail.frozen_at, endKey_fst htail]
      simp only [opens]
      omega
    · intro halone
      have hnone : candidates position (chainedOf (c.events ++ [event])) (opens ch) = [] := by
        have hself : position ch ≠ opens ch := by
          intro heq
          have hseq : ch.seq = ch.seq + 1 := congrArg Prod.fst heq
          omega
        rw [candidates_elsewhere hch hself, candidates, List.filter_eq_nil_iff]
        intro e he hpos
        obtain ⟨s, hs, rfl⟩ := List.mem_map.1 he
        exact halone s hs (congrArg Prod.snd (of_decide_eq_true hpos))
      obtain ⟨rfl, rfl⟩ := htail.unique (.done hnone)
      rw [hevents, hfork, hrestEvents, hnil rfl]
      exact ⟨rfl, rfl⟩
  · exact .inr hcollision

end Local

/-! ## Transactions -/

/-- the transaction that holds the lock on the state row -/
structure Holder (F : Type) where
  tx : ℕ
  /-- the rows as it sees them -/
  chain : Chain F
  /-- the head its call of `lock_state` read; a call of `assign_local` or `record` uses it up -/
  head : Option ChainState
  /-- the rows at its open savepoints -/
  saved : List (Chain F)

/-- one identity's rows, as committed, and the transaction that holds the lock -/
structure System (F : Type) where
  chain : Chain F
  holder : Option (Holder F)

inductive Action (F : Type) where
  | lock (tx : ℕ)
  | assign (tx : ℕ) (now : OffsetDateTime) (event : Event F)
  | record (tx : ℕ) (now : OffsetDateTime) (event : Event F)
  | savepoint (tx : ℕ)
  | release (tx : ℕ)
  | rollbackTo (tx : ℕ)
  | commit (tx : ℕ)
  | rollback (tx : ℕ)

/-- what the holder of the lock does; nothing, if that is another transaction -/
def whenHeld (σ : System F) (tx : ℕ) (act : Holder F → Option (System F)) : Option (System F) :=
  match σ.holder with
  | some h => if h.tx = tx then act h else none
  | none => none

/-- the lock is taken, by one transaction at a time; one that has it already reads the head again -/
def lockRow (σ : System F) (tx : ℕ) : Option (System F) :=
  match σ.holder with
  | none => some { σ with holder := some ⟨tx, (lockState σ.chain).1, some (lockState σ.chain).2, []⟩ }
  | some h =>
    if h.tx = tx then
      some { σ with holder := some { h with chain := (lockState h.chain).1, head := some (lockState h.chain).2 } }
    else none

/-- the statement's rows, with the head used up; a failed statement ends the transaction -/
def afterStatement (σ : System F) (h : Holder F) (chain : Except StoreError (Chain F)) : System F :=
  match chain with
  | .ok chain => { σ with holder := some { h with chain := chain, head := none } }
  | .error _ => { σ with holder := none }

def step (σ : System F) : Action F → Option (System F)
  | .lock tx => lockRow σ tx
  | .assign tx now event => whenHeld σ tx fun h =>
    h.head.map fun head => afterStatement σ h ((assignAt now h.chain head event).map Prod.fst)
  | .record tx now event => whenHeld σ tx fun h =>
    h.head.map fun _ => afterStatement σ h ((recordLocked now h.chain event).map Prod.fst)
  | .savepoint tx => whenHeld σ tx fun h => some { σ with holder := some { h with saved := h.chain :: h.saved } }
  | .release tx => whenHeld σ tx fun h => some { σ with holder := some { h with saved := h.saved.tail } }
  | .rollbackTo tx => whenHeld σ tx fun h =>
    -- a lock taken after the savepoint goes with it
    match h.saved with
    | chain :: saved => some { σ with holder := some ⟨h.tx, chain, none, chain :: saved⟩ }
    | [] => some { σ with holder := none }
  | .commit tx => whenHeld σ tx fun h => some ⟨h.chain, none⟩
  | .rollback tx => whenHeld σ tx fun _ => some { σ with holder := none }

/-- the states any interleaving of transactions leads to, from an empty store -/
inductive Reachable : System F → Prop
  | init : Reachable ⟨.empty, none⟩
  | step {σ σ' : System F} (h : Reachable σ) (a : Action F) (hstep : step σ a = some σ') : Reachable σ'

/-! ## Every interleaving -/

/-- the rows are consistent, and there is a state row -/
structure Locked (c : Chain F) : Prop where
  ok : c.Ok
  state : c.state.isSome

/-- what holds of the transaction that holds the lock: the head it read is the one it sees -/
structure Holder.Ok (h : Holder F) : Prop where
  chain : Locked h.chain
  saved : ∀ c ∈ h.saved, Locked c
  head : ∀ head, h.head = some head → h.chain.state = some head

structure System.Ok (σ : System F) : Prop where
  chain : σ.chain.Ok
  holder : ∀ h, σ.holder = some h → h.Ok

theorem locked_lockState {c : Chain F} (h : c.Ok) : Locked (lockState c).1 := ⟨ok_lockState h, rfl⟩

theorem locked_recordLocked {c c' : Chain F} {now : OffsetDateTime} {event : Event F} {r : Recorded F} (h : Locked c)
    (hok : recordLocked now c event = .ok (c', r)) : Locked c' := by
  rcases recordLocked_cases h.ok h.state now event with ⟨r', hok', -⟩ | ⟨ch, c'', r', hok', -, -, -, htook⟩
  · obtain ⟨rfl, -⟩ := Prod.mk.inj (Except.ok.inj (hok.symm.trans hok'))
    exact h
  · obtain ⟨rfl, -⟩ := Prod.mk.inj (Except.ok.inj (hok.symm.trans hok'))
    exact ⟨htook.ok, by rw [htook.state]; rfl⟩

theorem locked_assignAt {c c' : Chain F} {head : ChainState} {now : OffsetDateTime} {event event' : Event F} (h : Locked c)
    (hok : assignAt now c head event = .ok (c', event')) : Locked c' := by
  unfold assignAt at hok
  split_ifs at hok
  · cases hok
    exact h
  · cases hrecord : recordLocked now c (positioned head event) with
    | error e =>
      rw [hrecord] at hok
      cases hok
    | ok r =>
      rw [hrecord] at hok
      cases hok
      exact locked_recordLocked h hrecord

omit [F64 F] in
theorem whenHeld_eq_some {σ σ' : System F} {tx : ℕ} {act : Holder F → Option (System F)} (h : whenHeld σ tx act = some σ') :
    ∃ holder, σ.holder = some holder ∧ holder.tx = tx ∧ act holder = some σ' := by
  unfold whenHeld at h
  split at h
  · rename_i holder hholder
    split_ifs at h with htx
    exact ⟨holder, hholder, htx, h⟩
  · cases h

theorem ok_afterStatement {σ : System F} (hσ : σ.Ok) {h : Holder F} (hh : h.Ok) {chain : Except StoreError (Chain F)}
    (hchain : ∀ c, chain = .ok c → Locked c) : (afterStatement σ h chain).Ok := by
  cases chain with
  | ok c =>
    refine ⟨hσ.chain, fun h' hh' => ?_⟩
    obtain rfl := Option.some.inj hh'
    exact ⟨hchain c rfl, hh.saved, fun _ hhead => by cases hhead⟩
  | error e => exact ⟨hσ.chain, fun _ hh' => by cases hh'⟩

omit [F64 F] in
theorem ok_of_map_fst {α : Type} {x : Except StoreError (Chain F × α)} {c : Chain F} (h : x.map Prod.fst = .ok c) :
    ∃ a, x = .ok (c, a) := by
  cases x with
  | error e => cases h
  | ok p =>
    cases h
    exact ⟨p.2, rfl⟩

/-- **One action** of any transaction -/
theorem ok_step {σ σ' : System F} (hσ : σ.Ok) {a : Action F} (hstep : step σ a = some σ') : σ'.Ok := by
  cases a with
  | lock tx =>
    simp only [step, lockRow] at hstep
    split at hstep
    · obtain rfl := Option.some.inj hstep
      refine ⟨hσ.chain, fun h hh => ?_⟩
      obtain rfl := Option.some.inj hh
      exact ⟨locked_lockState hσ.chain, by simp, fun head hhead => hhead⟩
    · rename_i holder hholder
      split_ifs at hstep
      obtain rfl := Option.some.inj hstep
      have hold := hσ.holder holder hholder
      refine ⟨hσ.chain, fun h hh => ?_⟩
      obtain rfl := Option.some.inj hh
      exact ⟨locked_lockState hold.chain.ok, hold.saved, fun head hhead => hhead⟩
  | assign tx now event =>
    obtain ⟨holder, hholder, -, hact⟩ := whenHeld_eq_some hstep
    obtain ⟨head, -, rfl⟩ := Option.map_eq_some_iff.1 hact
    have hold := hσ.holder holder hholder
    refine ok_afterStatement hσ hold fun c hc => ?_
    obtain ⟨event', hok⟩ := ok_of_map_fst hc
    exact locked_assignAt hold.chain hok
  | record tx now event =>
    obtain ⟨holder, hholder, -, hact⟩ := whenHeld_eq_some hstep
    obtain ⟨head, -, rfl⟩ := Option.map_eq_some_iff.1 hact
    have hold := hσ.holder holder hholder
    refine ok_afterStatement hσ hold fun c hc => ?_
    obtain ⟨r, hok⟩ := ok_of_map_fst hc
    exact locked_recordLocked hold.chain hok
  | savepoint tx =>
    obtain ⟨holder, hholder, -, hact⟩ := whenHeld_eq_some hstep
    obtain rfl := Option.some.inj hact
    have hold := hσ.holder holder hholder
    refine ⟨hσ.chain, fun h hh => ?_⟩
    obtain rfl := Option.some.inj hh
    exact ⟨hold.chain, List.forall_mem_cons.2 ⟨hold.chain, hold.saved⟩, hold.head⟩
  | release tx =>
    obtain ⟨holder, hholder, -, hact⟩ := whenHeld_eq_some hstep
    obtain rfl := Option.some.inj hact
    have hold := hσ.holder holder hholder
    refine ⟨hσ.chain, fun h hh => ?_⟩
    obtain rfl := Option.some.inj hh
    exact ⟨hold.chain, fun c hc => hold.saved c (List.mem_of_mem_tail hc), hold.head⟩
  | rollbackTo tx =>
    obtain ⟨holder, hholder, -, hact⟩ := whenHeld_eq_some hstep
    have hold := hσ.holder holder hholder
    split at hact
    · rename_i chain saved hsaved
      obtain rfl := Option.some.inj hact
      refine ⟨hσ.chain, fun h hh => ?_⟩
      obtain rfl := Option.some.inj hh
      have hall := hold.saved
      rw [hsaved] at hall
      exact ⟨hall chain (by simp), hall, fun _ hhead => by cases hhead⟩
    · obtain rfl := Option.some.inj hact
      exact ⟨hσ.chain, fun _ hh => by cases hh⟩
  | commit tx =>
    obtain ⟨holder, hholder, -, hact⟩ := whenHeld_eq_some hstep
    obtain rfl := Option.some.inj hact
    exact ⟨(hσ.holder holder hholder).chain.ok, fun _ hh => by cases hh⟩
  | rollback tx =>
    obtain ⟨holder, hholder, -, hact⟩ := whenHeld_eq_some hstep
    obtain rfl := Option.some.inj hact
    exact ⟨hσ.chain, fun _ hh => by cases hh⟩

/-- **Every interleaving** keeps the rows consistent, and the head a transaction read the one it sees -/
theorem Reachable.ok {σ : System F} (h : Reachable σ) : σ.Ok := by
  induction h with
  | init => exact ⟨ok_empty, fun _ hh => by cases hh⟩
  | step _ a hstep ih => exact ok_step ih hstep

/-- a call of `assign_local` in a transaction of its own is a lock, an assignment and a commit -/
theorem reachable_assignLocal {σ : System F} (h : Reachable σ) (hfree : σ.holder = none) {now : OffsetDateTime}
    {event event' : Event F} (howner : (chainOwner event).isSome) {c' : Chain F}
    (hok : assignLocal now σ.chain event = .ok (c', event')) : Reachable ⟨c', none⟩ := by
  have hassign : assignAt now (lockState σ.chain).1 (lockState σ.chain).2 event = .ok (c', event') := by
    rw [assignLocal, if_neg (by simp [Option.isSome_iff_ne_none.1 howner])] at hok
    exact hok
  have hlocked : Reachable { σ with holder := some ⟨0, (lockState σ.chain).1, some (lockState σ.chain).2, []⟩ } := by
    refine h.step (.lock 0) ?_
    simp only [step, lockRow, hfree]
  have hassigned : Reachable { σ with holder := some ⟨0, c', none, []⟩ } := by
    refine hlocked.step (.assign 0 now event) ?_
    simp only [step, whenHeld, if_true, Option.map_some, hassign]
    rfl
  exact hassigned.step (.commit 0) rfl

/-- **Local events extend the chain.** In every interleaving, an event passed to `assign_local` is accepted behind the head,
and nothing is displaced: while the chain is not forked, or as the only recovery at its fork, which it then resolves. Other
events get no position while the chain is forked -/
theorem assign_local_extends (σ σ' : System F) (hreach : Reachable σ) (h : Holder F) (hholder : σ.holder = some h)
    (head : ChainState) (hhead : h.head = some head) (now : OffsetDateTime) (event : Event F)
    (hstep : step σ (.assign h.tx now event) = some σ') :
    (∀ ch, chainedEvent (positioned head event) = some ch → Timely now (positioned head event) →
      head.seq.toUInt64.toNat + 1 < 2 ^ 64 →
      (head.forkedAtSeq = none ∨ (event.kind = "identity.recovered" ∧ NoRecoveryAt h.chain.events (endOf h.chain.events))) →
      (∃ c', assignAt now h.chain head event = .ok (c', positioned head event) ∧
        σ'.holder = some { h with chain := c', head := none } ∧ Extends h.chain c' (positioned head event) ch) ∨
      CollisionIn Sha256.hash ((h.chain.events ++ [positioned head event]).filterMap hashedBytes)) ∧
    (head.forkedAtSeq.isSome → event.kind ≠ "identity.recovered" →
      assignAt now h.chain head event = .ok (h.chain, event) ∧ σ'.holder = some { h with head := none }) := by
  have hold := hreach.ok.holder h hholder
  have hstate : head = stateOf (outcome h.chain.events) := by
    rw [← hold.chain.ok.state, hold.head head hhead]
    rfl
  have hafter : σ' = afterStatement σ h ((assignAt now h.chain head event).map Prod.fst) := by
    obtain ⟨holder, hholder', -, hact⟩ := whenHeld_eq_some hstep
    obtain rfl := Option.some.inj (hholder.symm.trans hholder')
    rw [hhead] at hact
    exact (Option.some.inj hact).symm
  constructor
  · intro ch hch htimely hroom hfree
    have hopen : (outcome h.chain.events).forkedAt = none ∨
        ((positioned head event).kind = "identity.recovered" ∧ NoRecoveryAt h.chain.events (endOf h.chain.events)) := by
      refine hfree.imp (fun hnone => ?_) id
      rw [hstate] at hnone
      exact Option.map_eq_none_iff.1 hnone
    have hend : position ch = endOf h.chain.events := by
      rw [hstate] at hch hroom
      exact position_positioned hch hroom
    have hassign : assignAt now h.chain head event =
        (recordLocked now h.chain (positioned head event)).map fun r => (r.1, positioned head event) := by
      unfold assignAt
      rw [if_neg]
      rintro ⟨hsome, hkind⟩
      rcases hfree with hnone | ⟨hrecovered, -⟩
      · rw [hnone] at hsome
        cases hsome
      · exact hkind hrecovered
    rcases recordLocked_extends hold.chain.ok hch hopen hend hold.chain.state htimely with ⟨c', r, hok, -, hextends⟩ | hcollision
    · left
      rw [hok] at hassign
      refine ⟨c', hassign, ?_, hextends⟩
      rw [hafter, hassign]
      rfl
    · exact .inr hcollision
  · intro hsome hkind
    have hassign : assignAt now h.chain head event = .ok (h.chain, event) := if_pos ⟨hsome, hkind⟩
    refine ⟨hassign, ?_⟩
    rw [hafter, hassign]
    rfl

/-! ## Events that wait for the local one -/

/-- ada asks for recovery, behind the first removal -/
def request (id : UInt8) : Event Decimal :=
  { removal id 2 (some "1343f269ab76d3942baec7fb8ddb7c4e46001d09e32e0d87bd8aed21f25006c9") with
    kind := "identity.recovery_requested" }

def requestHash1 : EventHash := .ofHex 32 "49f62e452db58f66105478fcdfe914352743fc55e9f324210f3e61f71a5c06cb"

def requestHash2 : EventHash := .ofHex 32 "5f3a19cba6449585008e6399341fe3be4ea77fe35de7654f6622079efb89cd7e"

def requestChained (hash : EventHash) : ChainedEvent :=
  ⟨2, some firstHash, hash, 1000000000, .chainCritical, .authenticatedSession⟩

/-- the recovery, where the requests conflict -/
def recovery : Event Decimal :=
  { removal 3 2 (some "1343f269ab76d3942baec7fb8ddb7c4e46001d09e32e0d87bd8aed21f25006c9") with kind := "identity.recovered" }

def recoveryChained : ChainedEvent :=
  ⟨2, some firstHash, .ofHex 32 "f258a6c04fe3bcfb5b762cdb8fa98401d0f8d105ab1eb0e559ea0790330dff01", 1000000000, .chainCritical,
    .authenticatedSession⟩

/-- one evaluation, since the texts of the events are the same -/
theorem chainedEvent_requests : chainedEvent (request 1) = some (requestChained requestHash1) ∧
    chainedEvent (request 2) = some (requestChained requestHash2) ∧ chainedEvent recovery = some recoveryChained := by
  decide +kernel

theorem chainedEvent_request1 : chainedEvent (request 1) = some (requestChained requestHash1) := chainedEvent_requests.1

theorem chainedEvent_request2 : chainedEvent (request 2) = some (requestChained requestHash2) := chainedEvent_requests.2.1

theorem chainedEvent_recovery : chainedEvent recovery = some recoveryChained := chainedEvent_requests.2.2

def emptyHead : ChainState := ⟨0, none, none⟩

/-- a removal that has no position yet -/
def localRemoval : Event Decimal := { removal 7 0 none with identityChain := none }

theorem positioned_localRemoval : positioned emptyHead localRemoval = firstRemoval := rfl

/-- a transaction that locked the row -/
def lockedBy (c : Chain Decimal) : System Decimal := ⟨.empty, some ⟨1, (lockState c).1, some (lockState c).2, []⟩⟩

theorem reachable_lockedBy_empty : Reachable (lockedBy .empty) := .step .init (.lock 1) rfl

/-- recording in the transaction, and locking again for the next call -/
theorem reachable_record {c c' : Chain Decimal} {event : Event Decimal} {r : Recorded Decimal} (h : Reachable (lockedBy c))
    (hrecord : recordLocked 2000000000 (lockState c).1 event = .ok (c', r)) : Reachable (lockedBy c') := by
  have hrecorded : Reachable (⟨.empty, some ⟨1, c', none, []⟩⟩ : System Decimal) := by
    refine .step h (.record 1 2000000000 event) ?_
    simp only [step, whenHeld, lockedBy, if_true, hrecord]
    rfl
  exact .step hrecorded (.lock 1) rfl

theorem storedOf_request : storedOf [request 1] = [⟨request 1, requestChained requestHash1⟩] :=
  storedOf_cons chainedEvent_request1 []

theorem storedOf_requests : storedOf [request 1, request 2] =
    [⟨request 1, requestChained requestHash1⟩, ⟨request 2, requestChained requestHash2⟩] := by
  rw [storedOf_cons chainedEvent_request1, storedOf_cons chainedEvent_request2]
  rfl

theorem storedOf_requests_removal : storedOf [request 1, request 2, firstRemoval] =
    [⟨request 1, requestChained requestHash1⟩, ⟨request 2, requestChained requestHash2⟩, ⟨firstRemoval, firstChained⟩] := by
  rw [storedOf_cons chainedEvent_request1, storedOf_cons chainedEvent_request2, storedOf_cons chainedEvent_firstRemoval]
  rfl

/-- without the removal, the requests wait -/
theorem outcome_requests : outcome [request 1, request 2] = ⟨[], none⟩ := by
  rw [outcome, storedOf_requests]
  decide +kernel

/-- behind it they conflict -/
theorem outcome_requests_removal : outcome [request 1, request 2, firstRemoval] = ⟨[firstChained], some 2⟩ := by
  rw [outcome, storedOf_requests_removal]
  decide +kernel

theorem timely_request1 : Timely 2000000000 (request 1) := by decide

theorem timely_request2 : Timely 2000000000 (request 2) := by decide

theorem timely_firstRemoval : Timely 2000000000 firstRemoval := by decide

/-- a transaction recorded both requests -/
theorem reachable_requests : ∃ c, Reachable (lockedBy c) ∧ c.Ok ∧ c.events = [request 1, request 2] ∧ c.state = some emptyHead := by
  obtain ⟨c, r, hrecord, htook, hevents⟩ := recordLocked_fresh (c := (lockState Chain.empty).1)
    (ok_lockState ok_empty) chainedEvent_request1 (by intro s hs; cases hs) rfl timely_request1
  have hevents : c.events = [request 1] := hevents
  have hsome : (lockState c).1.state.isSome := rfl
  obtain ⟨c', r', hrecord', htook', hevents'⟩ := recordLocked_fresh (c := (lockState c).1)
    (ok_lockState htook.ok) chainedEvent_request2
    (by
      intro s hs
      have hs : s ∈ storedOf c.events := hs
      rw [hevents, storedOf_request, List.mem_singleton] at hs
      rw [hs]
      decide)
    hsome timely_request2
  have hevents' : c'.events = [request 1, request 2] := by
    rw [hevents']
    exact congrArg (· ++ [request 2]) hevents
  refine ⟨c', reachable_record (reachable_record reachable_lockedBy_empty hrecord) hrecord', htook'.ok, hevents', ?_⟩
  rw [htook'.state, hevents', outcome_requests]
  rfl

/-- the removal, recorded behind them -/
theorem record_firstRemoval {c : Chain Decimal} (hok : c.Ok) (hevents : c.events = [request 1, request 2]) :
    ∃ c' r, recordLocked 2000000000 (lockState c).1 firstRemoval = .ok (c', r) ∧ c'.Ok ∧
      c'.events = [request 1, request 2, firstRemoval] ∧ c'.state = some (stateOf (outcome c'.events)) := by
  obtain ⟨c', r, hrecord, htook, hevents'⟩ := recordLocked_fresh (c := (lockState c).1) (ok_lockState hok)
    chainedEvent_firstRemoval
    (by
      intro s hs
      have hs : s ∈ storedOf c.events := hs
      rw [hevents, storedOf_requests] at hs
      rcases List.mem_cons.1 hs with rfl | hs
      · decide
      · rw [List.mem_singleton] at hs
        rw [hs]
        decide)
    rfl timely_firstRemoval
  exact ⟨c', r, hrecord, htook.ok, hevents'.trans (congrArg (· ++ [firstRemoval]) hevents), htook.state⟩

/-- where the requests conflict -/
def forkedHead : ChainState := ⟨1, some "1343f269ab76d3942baec7fb8ddb7c4e46001d09e32e0d87bd8aed21f25006c9", some 2⟩

/-- the transaction recorded the removal too, so the chain is forked behind it -/
theorem reachable_fork : ∃ c, Reachable (lockedBy c) ∧ c.events = [request 1, request 2, firstRemoval] ∧
    c.state = some forkedHead := by
  obtain ⟨c, hreach, hok, hevents, -⟩ := reachable_requests
  obtain ⟨c', r, hrecord, -, hevents', hstate⟩ := record_firstRemoval hok hevents
  refine ⟨c', reachable_record hreach hrecord, hevents', ?_⟩
  rw [hstate, hevents', outcome_requests_removal]
  decide +kernel

/-- ada's recovery, completed on this node -/
def localRecovery : Event Decimal := { localRemoval with id := .replicate 16 3, kind := "identity.recovered" }

theorem positioned_localRecovery : positioned forkedHead localRecovery = recovery := rfl

/-- **At a fork**: the recovery goes behind the accepted removal, and the chain is not forked any more -/
theorem assign_local_extends_at_fork :
    ∃ c c', Reachable (lockedBy c) ∧ accepted c.events = [firstRemoval] ∧ (outcome c.events).forkedAt = some 2 ∧
      assignAt 2000000000 (lockState c).1 forkedHead localRecovery = .ok (c', recovery) ∧
      accepted c'.events = [firstRemoval, recovery] ∧ (outcome c'.events).forkedAt = none := by
  obtain ⟨c, hreach, hevents, hstate⟩ := reachable_fork
  have hhead : (lockState c).2 = forkedHead := by
    rw [lockState, hstate]
    rfl
  have haccepted : accepted c.events = [firstRemoval] := by
    rw [hevents, accepted, outcome_requests_removal, storedOf_requests_removal]
    rfl
  have hforked : (outcome c.events).forkedAt = some 2 := by rw [hevents, outcome_requests_removal]
  have hnone : NoRecoveryAt c.events (endOf c.events) := by
    intro s hs hkind
    rw [hevents, storedOf_requests_removal] at hs
    -- the requests are for recovery, they recover nothing
    simp only [List.mem_cons, List.not_mem_nil, or_false] at hs
    rcases hs with rfl | rfl | rfl <;> exact absurd hkind (by decide)
  obtain ⟨σ', hstep⟩ : ∃ σ', step (lockedBy c) (.assign 1 2000000000 localRecovery) = some σ' := ⟨_, rfl⟩
  have hextends := (assign_local_extends (lockedBy c) σ' hreach _ rfl forkedHead (by rw [← hhead]) 2000000000 localRecovery
    hstep).1 recoveryChained chainedEvent_recovery (by decide) (by decide) (.inr ⟨rfl, hnone⟩)
  rcases hextends with ⟨c', hassign, -, h⟩ | hcollision
  · obtain ⟨haccepted', hopen⟩ := h.alone (by
      intro s hs
      have hs : s ∈ storedOf c.events := hs
      rw [hevents, storedOf_requests_removal] at hs
      simp only [List.mem_cons, List.not_mem_nil, or_false] at hs
      rcases hs with rfl | rfl | rfl <;> decide)
    rw [positioned_localRecovery] at haccepted' hassign
    exact ⟨c, c', hreach, haccepted, hforked, hassign, haccepted'.trans (congrArg (· ++ [recovery]) haccepted), hopen⟩
  · have hall : (lockState c).1.events ++ [positioned forkedHead localRecovery] =
        [request 1, request 2, firstRemoval, recovery] := by
      rw [positioned_localRecovery]
      exact congrArg (· ++ [recovery]) hevents
    rw [hall] at hcollision
    refine absurd hcollision (not_collides_of_distinct ?_ ?_)
    · simp [chainedEvent_request1, chainedEvent_request2, chainedEvent_firstRemoval, chainedEvent_recovery]
    · rw [DistinctHashes, storedOf_cons chainedEvent_request1, storedOf_cons chainedEvent_request2,
        storedOf_cons chainedEvent_firstRemoval, storedOf_cons chainedEvent_recovery]
      decide

/-- **A local event forks the chain**: two requests for recovery were recorded that name its hash as their predecessor -/
theorem assignment_forks :
    ¬ ∀ (σ σ' : System Decimal), Reachable σ → ∀ (h : Holder Decimal), σ.holder = some h → ∀ head, h.head = some head →
      ∀ (now : OffsetDateTime) (event : Event Decimal), step σ (.assign h.tx now event) = some σ' →
      ∀ ch, chainedEvent (positioned head event) = some ch → Timely now (positioned head event) → head.forkedAtSeq = none →
      ∃ c', assignAt now h.chain head event = .ok (c', positioned head event) ∧ (outcome c'.events).forkedAt = none := by
  intro h
  obtain ⟨c, hreach, hok, hevents, hstate⟩ := reachable_requests
  have hhead : (lockState c).2 = emptyHead := by
    rw [lockState, hstate]
    rfl
  obtain ⟨c', hassign, hfork⟩ := h (lockedBy c) _ hreach _ rfl _ rfl 2000000000 localRemoval rfl firstChained
    (by rw [hhead]; exact chainedEvent_firstRemoval) (by rw [hhead]; decide) (by rw [hhead]; rfl)
  obtain ⟨c'', r, hrecord, -, hevents', -⟩ := record_firstRemoval hok hevents
  have hassign' : assignAt 2000000000 (lockState c).1 emptyHead localRemoval = .ok (c'', firstRemoval) := by
    unfold assignAt
    rw [if_neg (by decide), positioned_localRemoval, hrecord]
    rfl
  rw [hhead] at hassign
  obtain ⟨rfl, -⟩ := Prod.mk.inj (Except.ok.inj (hassign.symm.trans hassign'))
  rw [hevents', outcome_requests_removal] at hfork
  cases hfork

end Avalon.ChainStore
