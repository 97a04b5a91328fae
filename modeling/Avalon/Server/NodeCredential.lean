/-
What an accepted node credential proves (`crates/protocol/src/node_request.rs`: `node_request_signing_message`,
`sign_node_request`, `verify_node_request`; `crates/protocol/src/shard_identity.rs`: `name_binding_signing_message`).

The owner of a key signs node requests, name bindings and messages of a `signing_bytes` builder. The signature that is presented is
no forgery: where it is good for the request, these are bytes of something the owner signed (`Unforged`).

Results:
- `messageWithRecipient_inj`: the bytes of a request determine its fields.
- `request_ne_nameBinding`, `request_ne_built`: they are the bytes of nothing else.
- `checkWindow_eq_ok_iff`: saturation does not move the ends of the window.
- `node_credential_binding`: an accepted credential is one that the owner signed for this request, or two bodies collide; and what is
  signed is accepted.
Witness:
- `signed_request_accepted`
-/
import Mathlib.Tactic
import Avalon.Core.Bytes
import Avalon.Core.Collision
import Avalon.Core.Fallible
import Avalon.Core.Sha256
import Avalon.Core.Wire
import Avalon.Protocol.SigningBytes
import Avalon.Protocol.SigningBytesReader
import Avalon.Protocol.NodeRequest
import Avalon.Protocol.DomainProof
import Avalon.Server.NodeAuth

namespace Avalon.NodeAuth

open Collision Fallible Avalon.SigningBytes Avalon.NodeRequest Avalon.DomainProof Avalon.LedgerEntry

/-! ## Model -/

def verifyNodeRequestBody (auth : NodeRequestAuth) (body : Bytes) : Except NodeRequestError Unit :=
  if Sha256.hash body = auth.bodyHash then .ok () else .error .bodyMismatch

def verifyNodeRequest (cfg : Config) (auth : NodeRequestAuth) (target : NodeRequestTarget) (now maxSkew : Int64) :
    Except NodeRequestError Unit := do
  verifyNodeRequestHead cfg auth target.head now.toInt maxSkew.toInt
  verifyNodeRequestBody auth target.body

/-- what the owner of a key signs with it -/
inductive Signed where
  | request (target : NodeRequestTarget) (recipient peerId : String) (timestamp : Int64) (nonce : FixedBytes 16)
  | nameBinding (selfCertifyingId : String) (key : FixedBytes 32) (name : String) (createdAt : OffsetDateTime)
  | built (tag : DomainTag) (envelope : Envelope) (writes : List Write)

def Signed.bytes : Signed → Option Bytes
  | .request target recipient peerId timestamp nonce => (nodeRequestSigningMessage target recipient peerId timestamp nonce).toOption
  | .nameBinding selfCertifyingId key name createdAt => some (nameBindingSigningMessage selfCertifyingId key name createdAt)
  | .built tag envelope writes => (writes.foldl Builder.apply (Builder.withEnvelope tag envelope)).finish.toOption

/-- the bytes of a request that the credential stands for, to a recipient -/
def credentialMessage (auth : NodeRequestAuth) (head : NodeRequestHead) (recipient : String) : Bytes :=
  messageWithRecipient (messagePrefix head auth.bodyHash) recipient auth.peerId auth.timestamp auth.nonce

/-- where the credential's signature is good for the request, to one of the recipients, the owner of its key signed these bytes -/
def Unforged (cfg : Config) (auth : NodeRequestAuth) (head : NodeRequestHead) (signed : List Signed) : Prop :=
  ∀ recipient ∈ cfg.recipients,
    cfg.ed.verifyStrict auth.publicKey (credentialMessage auth head recipient) auth.signature = true →
    ∃ s ∈ signed, s.bytes = some (credentialMessage auth head recipient)

/-! ## The signed bytes -/

/-- no length of a request's fields is cut -/
structure ShortFields (target : NodeRequestHead) (recipient peerId : String) : Prop where
  method : (utf8 target.method).length < 2 ^ 32
  path : (utf8 target.path).length < 2 ^ 32
  networkId : (utf8 target.networkId).length < 2 ^ 32
  recipient : (utf8 recipient).length < 2 ^ 32
  peerId : (utf8 peerId).length < 2 ^ 32

theorem length_of_validateName {value what : String} {u : Unit} (h : validateName value what = .ok u) :
    (utf8 value).length < 2 ^ 32 := by
  unfold validateName maxNameLen at h
  split at h
  · cases h
  · omega

theorem length_of_validatePath {path : String} {u : Unit} (h : validatePath path = .ok u) : (utf8 path).length < 2 ^ 32 := by
  unfold validatePath maxPathLen at h
  dsimp only at h
  split at h
  · cases h
  · omega

theorem shortFields {target : NodeRequestHead} {recipient peerId what : String} {u v : Unit}
    (hhead : validateHead target peerId = .ok u) (hrecipient : validateName recipient what = .ok v) :
    ShortFields target recipient peerId := by
  unfold validateHead at hhead
  dsimp only at hhead
  split at hhead
  · cases hhead
  · rename_i hmethod
    obtain ⟨_, hpath, hhead⟩ := bind_eq_ok.1 hhead
    obtain ⟨_, hnetwork, hhead⟩ := bind_eq_ok.1 hhead
    split at hhead
    · cases hhead
    · rename_i hpeer
      simp only [validPeerId, Bool.not_eq_true', Bool.not_eq_false, Bool.and_eq_true] at hmethod hpeer
      have hmethod := of_decide_eq_true hmethod.1.2
      have hpeer := of_decide_eq_true hpeer.1.2
      rw [maxMethodLen] at hmethod
      rw [maxPeerIdLen] at hpeer
      exact ⟨by omega, length_of_validatePath hpath, length_of_validateName hnetwork, length_of_validateName hrecipient, by omega⟩

theorem lengthPrefixed_append_inj {a b x y : Bytes} (ha : a.length < 2 ^ 32) (hb : b.length < 2 ^ 32)
    (h : lengthPrefixed a ++ x = lengthPrefixed b ++ y) : a = b ∧ x = y :=
  ByteCursor.prefixed_inverts.append_inj ha hb h

/-- **The bytes of a request determine its fields** -/
theorem messageWithRecipient_inj {target target' : NodeRequestHead} {bodyHash bodyHash' : FixedBytes 32}
    {recipient recipient' peerId peerId' : String} {timestamp timestamp' : Int64} {nonce nonce' : FixedBytes 16}
    (hs : ShortFields target recipient peerId) (hs' : ShortFields target' recipient' peerId')
    (h : messageWithRecipient (messagePrefix target bodyHash) recipient peerId timestamp nonce =
      messageWithRecipient (messagePrefix target' bodyHash') recipient' peerId' timestamp' nonce') :
    target = target' ∧ bodyHash = bodyHash' ∧ recipient = recipient' ∧ peerId = peerId' ∧ timestamp = timestamp' ∧
      nonce = nonce' := by
  simp only [messageWithRecipient, messagePrefix, List.append_assoc] at h
  have h := List.append_cancel_left h
  obtain ⟨hmethod, h⟩ := lengthPrefixed_append_inj hs.method hs'.method h
  obtain ⟨hpath, h⟩ := lengthPrefixed_append_inj hs.path hs'.path h
  obtain ⟨hbody, h⟩ := lengthPrefixed_append_inj (by simp) (by simp) h
  obtain ⟨hnetwork, h⟩ := lengthPrefixed_append_inj hs.networkId hs'.networkId h
  obtain ⟨hrecipient, h⟩ := lengthPrefixed_append_inj hs.recipient hs'.recipient h
  obtain ⟨hpeer, h⟩ := lengthPrefixed_append_inj hs.peerId hs'.peerId h
  obtain ⟨htime, hnonce⟩ := Reader.i64_inverts.append_inj (a := timestamp) (b := timestamp') trivial trivial h
  refine ⟨?_, FixedBytes.toList_inj hbody, utf8_inj hrecipient, utf8_inj hpeer, htime, FixedBytes.toList_inj hnonce⟩
  obtain ⟨method, path, networkId⟩ := target
  obtain ⟨method', path', networkId'⟩ := target'
  rw [NodeRequestHead.mk.injEq]
  exact ⟨utf8_inj hmethod, utf8_inj hpath, utf8_inj hnetwork⟩

/-- messages that start with different tags differ -/
theorem append_ne_of_take {a b x y : Bytes} {n : ℕ} (ha : n ≤ a.length) (hb : n ≤ b.length) (h : a.take n ≠ b.take n) :
    a ++ x ≠ b ++ y := by
  intro heq
  have htake := congrArg (List.take n) heq
  rw [List.take_append_of_le_length ha, List.take_append_of_le_length hb] at htake
  exact h htake

theorem request_eq {target : NodeRequestTarget} {recipient peerId : String} {timestamp : Int64} {nonce : FixedBytes 16}
    {message : Bytes} (h : nodeRequestSigningMessage target recipient peerId timestamp nonce = .ok message) :
    validateHead target.head peerId = .ok () ∧ validateName recipient "recipient" = .ok () ∧
      message = messageWithRecipient (messagePrefix target.head (Sha256.hash target.body)) recipient peerId timestamp nonce := by
  obtain ⟨⟨⟩, hhead, h⟩ := bind_eq_ok.1 h
  obtain ⟨⟨⟩, hrecipient, h⟩ := bind_eq_ok.1 h
  cases h
  exact ⟨hhead, hrecipient, rfl⟩

/-- a request is no name binding -/
theorem request_ne_nameBinding (target : NodeRequestHead) (bodyHash : FixedBytes 32) (recipient peerId : String)
    (timestamp : Int64) (nonce : FixedBytes 16) (selfCertifyingId : String) (key : FixedBytes 32) (name : String)
    (createdAt : OffsetDateTime) : messageWithRecipient (messagePrefix target bodyHash) recipient peerId timestamp nonce ≠
      nameBindingSigningMessage selfCertifyingId key name createdAt := by
  simp only [messageWithRecipient, messagePrefix, nameBindingSigningMessage, List.append_assoc]
  exact append_ne_of_take (n := 22) (by decide +kernel) (by decide +kernel) (by decide +kernel)

/-- a request is no message of a builder: every tag has a dot where the domain of requests has a hyphen -/
theorem request_ne_built (target : NodeRequestHead) (bodyHash : FixedBytes 32) (recipient peerId : String)
    (timestamp : Int64) (nonce : FixedBytes 16) (tag : DomainTag) (envelope : Envelope) (writes : List Write) :
    (writes.foldl Builder.apply (Builder.withEnvelope tag envelope)).finish ≠
      .ok (messageWithRecipient (messagePrefix target bodyHash) recipient peerId timestamp nonce) := by
  intro h
  obtain ⟨-, -, -, x, -, -, hmessage⟩ := finish_eq_ok_iff.1 h
  have htags : ∀ t ∈ DomainTag.all, 7 ≤ (utf8 t.asStr).length ∧ nodeRequestDomain.take 7 ≠ (utf8 t.asStr).take 7 := by
    decide +kernel
  obtain ⟨hlength, hne⟩ := htags tag tag.mem_all
  simp only [messageWithRecipient, messagePrefix, header, List.append_assoc] at hmessage
  exact append_ne_of_take (by decide +kernel) hlength hne hmessage

/-! ## The clock window -/

/-- saturation does not move the ends of the window, as every clock value and timestamp is of 64 bits -/
theorem checkWindow_eq_ok_iff {timestamp now maxSkew : Int64} (hskew : 0 ≤ maxSkew.toInt) :
    checkWindow timestamp.toInt now.toInt maxSkew.toInt = .ok () ↔
      now.toInt - maxSkew.toInt ≤ timestamp.toInt ∧ timestamp.toInt ≤ now.toInt + maxSkew.toInt := by
  have hlow := timestamp.le_toInt
  have hhigh := timestamp.toInt_lt
  have hnowLow := now.le_toInt
  have hnowHigh := now.toInt_lt
  unfold checkWindow saturatingSub saturatingAdd i64Max i64Min
  constructor
  · intro h
    split at h
    · cases h
    · split at h
      · cases h
      · omega
  · rintro ⟨hold, hnew⟩
    rw [if_neg (by omega), if_neg (by omega)]

/-! ## Acceptance -/

/-- what an accepted credential has passed -/
structure Passed (cfg : Config) (auth : NodeRequestAuth) (head : NodeRequestHead) (now maxSkew : ℤ) : Prop where
  fields : validateHead head auth.peerId = .ok ()
  nonempty : cfg.recipients ≠ []
  recipients : ∀ recipient ∈ cfg.recipients, validateName recipient "recipient" = .ok ()
  skew : 0 ≤ maxSkew
  window : checkWindow auth.timestamp.toInt now maxSkew = .ok ()
  key : cfg.validKey auth.publicKey = true
  signature : ∃ recipient ∈ cfg.recipients, cfg.ed.verifyStrict auth.publicKey
    (messageWithRecipient (messagePrefix head auth.bodyHash) recipient auth.peerId auth.timestamp auth.nonce) auth.signature = true

theorem verifyNodeRequestHead_eq_ok {cfg : Config} {auth : NodeRequestAuth} {head : NodeRequestHead} {now maxSkew : ℤ} :
    verifyNodeRequestHead cfg auth head now maxSkew = .ok () ↔ Passed cfg auth head now maxSkew := by
  unfold verifyNodeRequestHead
  constructor
  · intro h
    obtain ⟨⟨⟩, hhead, h⟩ := bind_eq_ok.1 h
    dsimp only at h
    split at h
    · cases h
    rename_i hempty
    obtain ⟨⟨⟩, hrecipients, h⟩ := bind_eq_ok.1 h
    split at h
    · cases h
    rename_i hskew
    obtain ⟨⟨⟩, hwindow, h⟩ := bind_eq_ok.1 h
    split at h
    · cases h
    rename_i hkey
    split at h
    · rename_i hverified
      exact ⟨hhead, fun hnil => hempty (List.isEmpty_iff.2 hnil), forM_eq_ok.1 hrecipients, not_lt.1 hskew, hwindow,
        by simpa using hkey, List.any_eq_true.1 hverified⟩
    · cases h
  · intro h
    refine bind_eq_ok.2 ⟨(), h.fields, ?_⟩
    rw [if_neg fun hempty => h.nonempty (List.isEmpty_iff.1 hempty)]
    refine bind_eq_ok.2 ⟨(), forM_eq_ok.2 h.recipients, ?_⟩
    rw [if_neg (not_lt.2 h.skew)]
    refine bind_eq_ok.2 ⟨(), h.window, ?_⟩
    rw [if_neg (by simp [h.key])]
    dsimp only
    rw [if_pos (List.any_eq_true.2 h.signature)]
    rfl

theorem verifyNodeRequest_eq_ok {cfg : Config} {auth : NodeRequestAuth} {target : NodeRequestTarget} {now maxSkew : Int64} :
    verifyNodeRequest cfg auth target now maxSkew = .ok () ↔
      Passed cfg auth target.head now.toInt maxSkew.toInt ∧ Sha256.hash target.body = auth.bodyHash := by
  unfold verifyNodeRequest verifyNodeRequestBody
  constructor
  · intro h
    obtain ⟨⟨⟩, hhead, h⟩ := bind_eq_ok.1 h
    split at h
    · rename_i hbody
      exact ⟨verifyNodeRequestHead_eq_ok.1 hhead, hbody⟩
    · cases h
  · rintro ⟨hhead, hbody⟩
    refine bind_eq_ok.2 ⟨(), verifyNodeRequestHead_eq_ok.2 hhead, ?_⟩
    rw [if_pos hbody]

/-- the owner signed the request that a credential was accepted for, to one of the recipients -/
theorem signed_of_accepted {cfg : Config} {auth : NodeRequestAuth} {target : NodeRequestTarget} {now maxSkew : Int64}
    {signed : List Signed} (hed : Unforged cfg auth target.head signed)
    (h : verifyNodeRequest cfg auth target now maxSkew = .ok ()) :
    ∃ target' recipient, .request target' recipient auth.peerId auth.timestamp auth.nonce ∈ signed ∧ recipient ∈ cfg.recipients ∧
      target'.head = target.head ∧ (target'.body = target.body ∨ CollisionIn Sha256.hash [target'.body, target.body]) := by
  obtain ⟨hpassed, hbody⟩ := verifyNodeRequest_eq_ok.1 h
  obtain ⟨recipient, hrecipient, hverified⟩ := hpassed.signature
  obtain ⟨s, hs, hbytes⟩ := hed recipient hrecipient hverified
  cases s with
  | request target' recipient' peerId timestamp nonce =>
    obtain ⟨hhead', hrecipient', hmessage⟩ := request_eq (toOption_eq_some.1 hbytes)
    have hshort := shortFields hpassed.fields (hpassed.recipients recipient hrecipient)
    obtain ⟨hhead, hhash, rfl, rfl, rfl, rfl⟩ := messageWithRecipient_inj hshort (shortFields hhead' hrecipient') hmessage
    refine ⟨target', recipient, hs, hrecipient, hhead.symm, eq_or_collision (by simp) (by simp) ?_⟩
    rw [hbody, hhash]
  | nameBinding selfCertifyingId key name createdAt =>
    exact absurd (Option.some.inj hbytes).symm (request_ne_nameBinding _ _ _ _ _ _ _ _ _ _)
  | built tag envelope writes => exact absurd (toOption_eq_some.1 hbytes) (request_ne_built _ _ _ _ _ _ _ _ _)

/-- a credential that was signed is accepted within its window, where its signature verifies -/
theorem accepted_of_signed {cfg : Config} {signingKey : FixedBytes 32} {peerId recipient : String} {target : NodeRequestTarget}
    {timestamp now maxSkew : Int64} {nonce : FixedBytes 16} {auth : NodeRequestAuth}
    (hsigned : signNodeRequest cfg.ed signingKey peerId target recipient timestamp nonce = .ok auth)
    (hkey : cfg.validKey (cfg.ed.verifyingKey signingKey) = true)
    (hverifies : ∀ message, nodeRequestSigningMessage target recipient peerId timestamp nonce = .ok message →
      cfg.ed.verifyStrict (cfg.ed.verifyingKey signingKey) message (cfg.ed.sign signingKey message) = true)
    (hrecipient : recipient ∈ cfg.recipients) (hvalid : ∀ r ∈ cfg.recipients, validateName r "recipient" = .ok ())
    (hskew : 0 ≤ maxSkew.toInt) (hold : now.toInt - maxSkew.toInt ≤ timestamp.toInt)
    (hnew : timestamp.toInt ≤ now.toInt + maxSkew.toInt) : verifyNodeRequest cfg auth target now maxSkew = .ok () := by
  obtain ⟨message, hmessage, h⟩ := bind_eq_ok.1 hsigned
  cases h
  obtain ⟨hhead, -, heq⟩ := request_eq hmessage
  have hverified := hverifies message hmessage
  rw [heq] at hverified
  rw [verifyNodeRequest_eq_ok]
  refine ⟨⟨hhead, List.ne_nil_of_mem hrecipient, hvalid, hskew, (checkWindow_eq_ok_iff hskew).2 ⟨hold, hnew⟩, hkey, ?_⟩, rfl⟩
  refine ⟨recipient, hrecipient, ?_⟩
  rw [heq]
  exact hverified

/-- **What a node credential binds.**
- The bytes of valid requests determine method, path, network, body hash, recipient, peer id, timestamp and nonce, and are no name
  binding and no message of a builder.
- An accepted credential is within the skew of the clock, and the owner of its key signed its request to one of the accepted
  recipients, with this body or one that collides with it.
- Where a credential that was signed for an accepted recipient verifies under its key, it is accepted within the skew, at every clock
  value. -/
theorem node_credential_binding :
    (∀ target target' recipient recipient' peerId peerId' timestamp timestamp' nonce nonce' message,
      nodeRequestSigningMessage target recipient peerId timestamp nonce = .ok message →
      nodeRequestSigningMessage target' recipient' peerId' timestamp' nonce' = .ok message →
      target.head = target'.head ∧ Sha256.hash target.body = Sha256.hash target'.body ∧ recipient = recipient' ∧
        peerId = peerId' ∧ timestamp = timestamp' ∧ nonce = nonce') ∧
    (∀ target recipient peerId timestamp nonce message,
      nodeRequestSigningMessage target recipient peerId timestamp nonce = .ok message →
      (∀ selfCertifyingId key name createdAt, nameBindingSigningMessage selfCertifyingId key name createdAt ≠ message) ∧
        ∀ tag envelope (writes : List Write),
          (writes.foldl Builder.apply (Builder.withEnvelope tag envelope)).finish ≠ .ok message) ∧
    (∀ (cfg : Config) auth target now maxSkew signed, Unforged cfg auth target.head signed →
      verifyNodeRequest cfg auth target now maxSkew = .ok () →
      (now.toInt - maxSkew.toInt ≤ auth.timestamp.toInt ∧ auth.timestamp.toInt ≤ now.toInt + maxSkew.toInt) ∧
        ∃ target' recipient, .request target' recipient auth.peerId auth.timestamp auth.nonce ∈ signed ∧
          recipient ∈ cfg.recipients ∧ target'.head = target.head ∧
          (target'.body = target.body ∨ CollisionIn Sha256.hash [target'.body, target.body])) ∧
    ∀ (cfg : Config) signingKey peerId target recipient timestamp nonce auth (now maxSkew : Int64),
      signNodeRequest cfg.ed signingKey peerId target recipient timestamp nonce = .ok auth →
      cfg.validKey (cfg.ed.verifyingKey signingKey) = true →
      (∀ message, nodeRequestSigningMessage target recipient peerId timestamp nonce = .ok message →
        cfg.ed.verifyStrict (cfg.ed.verifyingKey signingKey) message (cfg.ed.sign signingKey message) = true) →
      recipient ∈ cfg.recipients → (∀ r ∈ cfg.recipients, validateName r "recipient" = .ok ()) → 0 ≤ maxSkew.toInt →
      now.toInt - maxSkew.toInt ≤ timestamp.toInt → timestamp.toInt ≤ now.toInt + maxSkew.toInt →
      verifyNodeRequest cfg auth target now maxSkew = .ok () := by
  refine ⟨?_, ?_, ?_, ?_⟩
  · intro target target' recipient recipient' peerId peerId' timestamp timestamp' nonce nonce' message h h'
    obtain ⟨hhead, hrecipient, hmessage⟩ := request_eq h
    obtain ⟨hhead', hrecipient', hmessage'⟩ := request_eq h'
    exact messageWithRecipient_inj (shortFields hhead hrecipient) (shortFields hhead' hrecipient') (hmessage.symm.trans hmessage')
  · intro target recipient peerId timestamp nonce message h
    obtain ⟨-, -, rfl⟩ := request_eq h
    exact ⟨fun _ _ _ _ => (request_ne_nameBinding _ _ _ _ _ _ _ _ _ _).symm, fun _ _ _ => request_ne_built _ _ _ _ _ _ _ _ _⟩
  · intro cfg auth target now maxSkew signed hed h
    have hpassed := (verifyNodeRequest_eq_ok.1 h).1
    exact ⟨(checkWindow_eq_ok_iff hpassed.skew).1 hpassed.window, signed_of_accepted hed h⟩
  · intro cfg signingKey peerId target recipient timestamp nonce auth now maxSkew hsigned hkey hverifies hrecipient hvalid hskew
      hold hnew
    exact accepted_of_signed hsigned hkey hverifies hrecipient hvalid hskew hold hnew

/-! ## A signed request -/

def testPeerId : String := "12D3KooWExampleSignerPeerId"

def testNonce : FixedBytes 16 := .replicate 16 7

def testMessage : Bytes :=
  messageWithRecipient (messagePrefix testTarget.head (Sha256.hash testTarget.body)) "node-b" testPeerId 1790000000 testNonce

theorem testMessage_ok : nodeRequestSigningMessage testTarget "node-b" testPeerId 1790000000 testNonce = .ok testMessage := by
  have hhead : validateHead testTarget.head testPeerId = .ok () := by decide +kernel
  have hname : validateName "node-b" "recipient" = .ok () := by decide +kernel
  exact bind_eq_ok.2 ⟨(), hhead, bind_eq_ok.2 ⟨(), hname, rfl⟩⟩

/-- Ed25519 restricted to the key of `nodeEd25519` and this message -/
def testEd25519 : Ed25519 where
  verifyingKey := nodeEd25519.verifyingKey
  sign := nodeEd25519.sign
  verifyStrict key message signature :=
    decide (key = nodeEd25519.verifyingKey (.replicate 32 0x42) ∧ message = testMessage ∧
      signature = nodeEd25519.sign (.replicate 32 0x42) testMessage)

/-- a node that goes by two names -/
def testConfig : Config where
  ed := testEd25519
  validKey _ := true
  peerIdOfKey _ := none
  peerIdText _ := testPeerId
  networkId := "avalon-test"
  recipients := ["node-a", "node-b"]

def signedAuth : NodeRequestAuth where
  peerId := testPeerId
  publicKey := testEd25519.verifyingKey (.replicate 32 0x42)
  timestamp := 1790000000
  nonce := testNonce
  bodyHash := Sha256.hash testTarget.body
  signature := testEd25519.sign (.replicate 32 0x42) testMessage

theorem signedAuth_ok :
    signNodeRequest testEd25519 (.replicate 32 0x42) testPeerId testTarget "node-b" 1790000000 testNonce = .ok signedAuth :=
  bind_eq_ok.2 ⟨testMessage, testMessage_ok, rfl⟩

/-- the credential is accepted a minute later, and its acceptance leads back to the request -/
theorem signed_request_accepted : verifyNodeRequest testConfig signedAuth testTarget 1790000060 60 = .ok () ∧
    ∃ target' recipient, .request target' recipient testPeerId 1790000000 testNonce ∈
        [Signed.request testTarget "node-b" testPeerId 1790000000 testNonce] ∧ recipient ∈ ["node-a", "node-b"] ∧
      target'.head = testTarget.head ∧
      (target'.body = testTarget.body ∨ CollisionIn Sha256.hash [target'.body, testTarget.body]) := by
  have hverifies : ∀ message, nodeRequestSigningMessage testTarget "node-b" testPeerId 1790000000 testNonce = .ok message →
      testEd25519.verifyStrict (testEd25519.verifyingKey (.replicate 32 0x42)) message
        (testEd25519.sign (.replicate 32 0x42) message) = true := by
    intro message hmessage
    obtain rfl : testMessage = message := Except.ok.inj (testMessage_ok.symm.trans hmessage)
    simp only [testEd25519, and_self, decide_true]
  have haccepted : verifyNodeRequest testConfig signedAuth testTarget 1790000060 60 = .ok () :=
    node_credential_binding.2.2.2 testConfig _ testPeerId testTarget "node-b" 1790000000 testNonce signedAuth 1790000060 60
      signedAuth_ok rfl hverifies (by decide) (by decide +kernel) (by decide) (by decide) (by decide)
  have hunforged : Unforged testConfig signedAuth testTarget.head
      [.request testTarget "node-b" testPeerId 1790000000 testNonce] := by
    intro recipient _ h
    simp only [testConfig, testEd25519, decide_eq_true_eq] at h
    refine ⟨_, List.mem_singleton_self _, ?_⟩
    rw [h.2.1, Signed.bytes]
    exact toOption_eq_some.2 testMessage_ok
  exact ⟨haccepted, (node_credential_binding.2.2.1 testConfig signedAuth testTarget 1790000060 60 _ hunforged haccepted).2⟩

end Avalon.NodeAuth
