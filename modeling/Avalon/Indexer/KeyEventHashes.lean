/-
Chain hashes of owner-signed key events (`crates/protocol/src/identity_chain_wire.rs`: `key_event_content`, `event_hash`).

A key event is stored under a hash of what its signature covers, so a relay that renames a device, changes the event's id or
time, or adds fields to the payload sends the same event again, and not a second one for the position.

- `hashedMessage_keyEvent`: the hashed message of a key event is its owner, position and signed content.
- `key_event_hash_iff`: two key events have one hash exactly when these and the kind agree, unless SHA-256 collides on what was
  hashed, and no event of another kind has it.
-/
import Mathlib.Tactic
import Avalon.Core.Bytes
import Avalon.Core.Collision
import Avalon.Core.Fallible
import Avalon.Core.Json
import Avalon.Core.Sha256
import Avalon.Protocol.Events
import Avalon.Protocol.IdentityId
import Avalon.Protocol.IdentityChain
import Avalon.Protocol.IdentityChainWire
import Avalon.Protocol.ChainHash
import Avalon.Protocol.SignedMessages
import Avalon.Indexer.ChainStore
import Avalon.Indexer.LocalAssignment

namespace Avalon.ChainStore

open Json Avalon.SigningBytes Avalon.LedgerEntry Avalon.Events Avalon.Identity Avalon.IdentityChain Avalon.SignedMessages
open Fallible Collision

variable {F : Type}

/-! ## Signed content and kind -/

/-- the kinds whose events carry the owner's signature -/
def IsKeyEvent (kind : String) : Prop := kind = "identity.signing_key_added" ∨ kind = "identity.signing_key_revoked"

/-- the kind of event that has such content -/
def kindOf : KeyEventContent → String
  | .deviceGrant .. => "identity.signing_key_added"
  | .revocation .. => "identity.signing_key_revoked"

/-- what the signature of an event covers besides its owner and position; none where there is no such signature -/
def signedContent (event : Event F) : Option KeyEventContent :=
  (chainOwner event).bind fun owner => (keyEventContent event owner).toOption.join

/-- the predecessor the event names, as bytes -/
def prevOf (event : Event F) : Option (Option EventHash) :=
  event.identityChain.bind fun position => (positionPrev position).toOption

theorem kindOf_deviceGrantContent {payload : Value F} {owner : IdentityId} {content : KeyEventContent}
    (h : deviceGrantContent payload owner = some content) : kindOf content = "identity.signing_key_added" := by
  unfold deviceGrantContent at h
  split at h
  · obtain ⟨key, -, h⟩ := Option.bind_eq_some_iff.1 h
    obtain ⟨publicKey, -, h⟩ := Option.bind_eq_some_iff.1 h
    obtain ⟨label, -, h⟩ := Option.bind_eq_some_iff.1 h
    obtain ⟨approver, -, h⟩ := Option.bind_eq_some_iff.1 h
    obtain ⟨identity, -, h⟩ := Option.bind_eq_some_iff.1 h
    obtain ⟨kind, -, h⟩ := Option.bind_eq_some_iff.1 h
    obtain ⟨grant, -, h⟩ := Option.bind_eq_some_iff.1 h
    obtain ⟨signature, -, h⟩ := Option.bind_eq_some_iff.1 h
    split_ifs at h
    obtain ⟨rawKey, -, h⟩ := Option.bind_eq_some_iff.1 h
    obtain ⟨rawSignature, -, h⟩ := Option.bind_eq_some_iff.1 h
    cases h
    rfl
  · cases h

theorem kindOf_revocationContent {payload : Value F} {owner : IdentityId} {content : KeyEventContent}
    (h : revocationContent payload owner = some content) : kindOf content = "identity.signing_key_revoked" := by
  unfold revocationContent at h
  split at h
  · obtain ⟨identity, -, h⟩ := Option.bind_eq_some_iff.1 h
    obtain ⟨key, -, h⟩ := Option.bind_eq_some_iff.1 h
    obtain ⟨revoker, -, h⟩ := Option.bind_eq_some_iff.1 h
    obtain ⟨signature, -, h⟩ := Option.bind_eq_some_iff.1 h
    split_ifs at h
    obtain ⟨rawSignature, -, h⟩ := Option.bind_eq_some_iff.1 h
    cases h
    rfl
  · cases h

/-- content is read from events of its kind only, and every other key event is refused -/
theorem keyEventContent_eq_ok {event : Event F} {owner : IdentityId} {content : Option KeyEventContent}
    (h : keyEventContent event owner = .ok content) :
    (∃ c, content = some c ∧ event.kind = kindOf c) ∨ (content = none ∧ ¬IsKeyEvent event.kind) := by
  unfold keyEventContent at h
  split_ifs at h with hadded hrevoked
  · cases hc : deviceGrantContent event.payload owner with
    | none =>
      rw [hc] at h
      cases h
    | some c =>
      rw [hc] at h
      exact .inl ⟨c, (Except.ok.inj h).symm, hadded.trans (kindOf_deviceGrantContent hc).symm⟩
  · cases hc : revocationContent event.payload owner with
    | none =>
      rw [hc] at h
      cases h
    | some c =>
      rw [hc] at h
      exact .inl ⟨c, (Except.ok.inj h).symm, hrevoked.trans (kindOf_revocationContent hc).symm⟩
  · refine .inr ⟨(Except.ok.inj h).symm, ?_⟩
    rintro (hkind | hkind)
    · exact hadded hkind
    · exact hrevoked hkind

/-! ## What is hashed -/

section

variable [F64 F] {event event' : Event F} {message message' : SignedMessage}

/-- a hashed message is that of a key event, with the event's own signed fields, or carries the event's kind -/
theorem hashedMessage_cases (h : hashedMessage event = some message) :
    (∃ input, message = .keyEvent input ∧ event.kind = kindOf input.content ∧ chainOwner event = some input.identityId ∧
      event.identityChain.map IdentityChainPosition.seq = some input.seq ∧ prevOf event = some input.prevHash ∧
      signedContent event = some input.content) ∨
    (∃ input, message = .chainEvent input ∧ ¬IsKeyEvent event.kind ∧ input.kind = event.kind) := by
  unfold hashedMessage at h
  obtain ⟨position, hposition, h⟩ := Option.bind_eq_some_iff.1 h
  obtain ⟨owner, howner, h⟩ := Option.bind_eq_some_iff.1 h
  obtain ⟨prev, hprev, h⟩ := Option.bind_eq_some_iff.1 h
  obtain ⟨envelope, -, h⟩ := Option.bind_eq_some_iff.1 h
  obtain ⟨content, hcontent, h⟩ := Option.bind_eq_some_iff.1 h
  rcases keyEventContent_eq_ok (toOption_eq_some.1 hcontent) with ⟨c, rfl, hkind⟩ | ⟨rfl, hkind⟩
  · obtain rfl := Option.some.inj h
    refine .inl ⟨_, rfl, hkind, howner, ?_, ?_, ?_⟩
    · rw [hposition, Option.map_some]
    · rw [prevOf, hposition, Option.bind_some, hprev]
    · rw [signedContent, howner, Option.bind_some, hcontent]
      rfl
  · obtain ⟨payload, -, h⟩ := Option.bind_eq_some_iff.1 h
    obtain ⟨micros, -, h⟩ := Option.bind_eq_some_iff.1 h
    obtain rfl := Option.some.inj h
    exact .inr ⟨_, rfl, hkind, rfl⟩

/-- kind, owner, sequence number, predecessor and signed content are the same -/
structure SignedAlike (event event' : Event F) : Prop where
  kind : event.kind = event'.kind
  owner : chainOwner event = chainOwner event'
  seq : event.identityChain.map IdentityChainPosition.seq = event'.identityChain.map IdentityChainPosition.seq
  prevHash : prevOf event = prevOf event'
  content : signedContent event = signedContent event'

/-- **One message.** Key events have one hashed message exactly when they are signed alike. -/
theorem hashedMessage_keyEvent (hkey : IsKeyEvent event.kind) (hkey' : IsKeyEvent event'.kind)
    (h : hashedMessage event = some message) (h' : hashedMessage event' = some message') :
    message.Agrees message' ↔ SignedAlike event event' := by
  rcases hashedMessage_cases h with ⟨input, rfl, hkind, howner, hseq, hprev, hcontent⟩ | ⟨_, _, hnot, _⟩
  · rcases hashedMessage_cases h' with ⟨input', rfl, hkind', howner', hseq', hprev', hcontent'⟩ | ⟨_, _, hnot, _⟩
    · constructor
      · intro hagrees
        obtain rfl : input = input' := hagrees
        exact ⟨hkind.trans hkind'.symm, howner.trans howner'.symm, hseq.trans hseq'.symm, hprev.trans hprev'.symm,
          hcontent.trans hcontent'.symm⟩
      · intro halike
        refine KeyEventHashInput.ext ?_ ?_ ?_ ?_
        · exact Option.some.inj (howner.symm.trans (halike.owner.trans howner'))
        · exact Option.some.inj (hseq.symm.trans (halike.seq.trans hseq'))
        · exact Option.some.inj (hprev.symm.trans (halike.prevHash.trans hprev'))
        · exact Option.some.inj (hcontent.symm.trans (halike.content.trans hcontent'))
    · exact absurd hkey' hnot
  · exact absurd hkey hnot

/-- events of different kinds, one of them a key event, have different messages -/
theorem kind_of_agrees (hkey : IsKeyEvent event.kind) (h : hashedMessage event = some message)
    (h' : hashedMessage event' = some message') (hagrees : message.Agrees message') : event.kind = event'.kind := by
  rcases hashedMessage_cases h with ⟨input, rfl, hkind, -⟩ | ⟨_, _, hnot, _⟩
  · rcases hashedMessage_cases h' with ⟨input', rfl, hkind', -⟩ | ⟨input', rfl, -⟩
    · obtain rfl : input = input' := hagrees
      exact hkind.trans hkind'.symm
    · exact hagrees.elim
  · exact absurd hkey hnot

/-- events with one hash have messages that agree, unless their bytes collide -/
theorem agrees_of_eventHash {hash : EventHash} (h : eventHash event = .ok hash) (h' : eventHash event' = .ok hash) :
    (∃ message message', hashedMessage event = some message ∧ hashedMessage event' = some message' ∧
      message.Agrees message') ∨ CollisionIn Sha256.hash ([event, event'].filterMap hashedBytes) := by
  obtain ⟨m, bytes, hm, hbytes, hdigest⟩ := hashedBytes_of_eventHash h
  obtain ⟨m', bytes', hm', hbytes', hdigest'⟩ := hashedBytes_of_eventHash h'
  have hin : bytes ∈ [event, event'].filterMap hashedBytes :=
    List.mem_filterMap.2 ⟨event, by simp, by rw [hashedBytes, hm, Option.bind_some, hbytes]⟩
  have hin' : bytes' ∈ [event, event'].filterMap hashedBytes :=
    List.mem_filterMap.2 ⟨event', by simp, by rw [hashedBytes, hm', Option.bind_some, hbytes']⟩
  rcases eq_or_collision hin hin' (hdigest.symm.trans hdigest') with rfl | hcollision
  · exact .inl ⟨m, m', hm, hm', SignedMessage.agrees_of_signingBytes m m' hbytes hbytes'⟩
  · exact .inr hcollision

/-- key events that are signed alike have one hash -/
theorem eventHash_of_signedAlike {hash hash' : EventHash} (hkey : IsKeyEvent event.kind) (h : eventHash event = .ok hash)
    (h' : eventHash event' = .ok hash') (halike : SignedAlike event event') : hash = hash' := by
  obtain ⟨m, bytes, hm, hbytes, hdigest⟩ := hashedBytes_of_eventHash h
  obtain ⟨m', bytes', hm', hbytes', hdigest'⟩ := hashedBytes_of_eventHash h'
  have hagrees := (hashedMessage_keyEvent hkey (halike.kind ▸ hkey) hm hm').2 halike
  rcases hashedMessage_cases hm with ⟨input, rfl, -⟩ | ⟨_, _, hnot, _⟩
  · rcases hashedMessage_cases hm' with ⟨input', rfl, -⟩ | ⟨_, rfl, -⟩
    · obtain rfl : input = input' := hagrees
      rw [hdigest, hdigest', Option.some.inj (hbytes.symm.trans hbytes')]
    · exact hagrees.elim
  · exact absurd hkey hnot

/-- **One hash for one signed key event.** The chain hash of a key event is that of another one exactly when kind, owner,
sequence number, predecessor and signed content agree, or the bytes that were hashed collide; and if an event of another kind
has it, they do. -/
theorem key_event_hash_iff (event event' : Event F) (hash hash' : EventHash) (hkey : IsKeyEvent event.kind)
    (h : eventHash event = .ok hash) (h' : eventHash event' = .ok hash') :
    (IsKeyEvent event'.kind → (SignedAlike event event' → hash = hash') ∧
      (hash = hash' → SignedAlike event event' ∨ CollisionIn Sha256.hash ([event, event'].filterMap hashedBytes))) ∧
    (event'.kind ≠ event.kind → hash = hash' → CollisionIn Sha256.hash ([event, event'].filterMap hashedBytes)) := by
  refine ⟨fun hkey' => ⟨eventHash_of_signedAlike hkey h h', fun heq => ?_⟩, fun hkind heq => ?_⟩
  · subst heq
    rcases agrees_of_eventHash h h' with ⟨m, m', hm, hm', hagrees⟩ | hcollision
    · exact .inl ((hashedMessage_keyEvent hkey hkey' hm hm').1 hagrees)
    · exact .inr hcollision
  · subst heq
    rcases agrees_of_eventHash h h' with ⟨m, m', hm, hm', hagrees⟩ | hcollision
    · exact absurd (kind_of_agrees hkey hm hm' hagrees).symm hkind
    · exact hcollision

end

/-- ada revokes a key -/
def revocation (id : UInt8) (time : OffsetDateTime) (position : IdentityChainPosition) (payload : Value Decimal) : Event Decimal where
  id := .replicate 16 id
  kind := "identity.signing_key_revoked"
  issuer := "identity:aaaaaaaaaaaaaaaaaaaaaaaaaaaaaaaaaaaaaaaaaaaaaaaaaaaaaaaaaaaaaaaa"
  subject := "identity:aaaaaaaaaaaaaaaaaaaaaaaaaaaaaaaaaaaaaaaaaaaaaaaaaaaaaaaaaaaaaaaa"
  payload := payload
  timestamp := time
  version := 1
  identityChain := some position

def revocationFields : List (String × Value Decimal) :=
  [("identity_id", .string "aaaaaaaaaaaaaaaaaaaaaaaaaaaaaaaaaaaaaaaaaaaaaaaaaaaaaaaaaaaaaaaa"),
    ("revoked_by_signing_key_id", .string "11111111111111111111111111111111"),
    ("signature", .string "AAAAAAAAAAAAAAAAAAAAAAAAAAAAAAAAAAAAAAAAAAAAAAAAAAAAAAAAAAAAAAAAAAAAAAAAAAAAAAAAAAAAAA=="),
    ("signing_key_id", .string "22222222222222222222222222222222")]

/-- the same revocation under another id, at another time, with another envelope and one more field, has the same hash -/
theorem key_event_hash_relabelled :
    let sent := revocation 1 1000000000 (currentPosition 1 none) (.object revocationFields)
    let relabelled := revocation 2 5000000000 { currentPosition 1 none with extensions := "0001000c000000000100" }
      (.object (revocationFields ++ [("unexpected", .null)]))
    ∃ hash, eventHash sent = .ok hash ∧ eventHash relabelled = .ok hash := by
  intro sent relabelled
  have hsent : (eventHash sent).toOption.isSome = true := by decide +kernel
  have hrelabelled : (eventHash relabelled).toOption.isSome = true := by decide +kernel
  obtain ⟨hash, h⟩ := Option.isSome_iff_exists.1 hsent
  obtain ⟨hash', h'⟩ := Option.isSome_iff_exists.1 hrelabelled
  rw [toOption_eq_some] at h h'
  have halike : SignedAlike sent relabelled := ⟨rfl, rfl, rfl, rfl, by decide +kernel⟩
  have heq := ((key_event_hash_iff sent relabelled hash hash' (.inr rfl) h h').1 (.inr rfl)).1 halike
  exact ⟨hash, h, heq ▸ h'⟩

end Avalon.ChainStore
