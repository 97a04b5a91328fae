/-
Assertions that an identity signs itself (`crates/protocol/src/continuation.rs`, `crates/protocol/src/interest_claim.rs`,
`crates/protocol/src/cross_node_login.rs`) and their one-time use (`crates/server/src/continuation.rs`: `verify`;
`crates/server/src/cross_node_login.rs`: `verify_grant`; migrations 0066 and 0072), statement by
statement.

A verifier reads its clock once, at the start, and holds the assertion's window against it. Later it deletes the nonces that
have expired by then, and stores the assertion's own unless it is there. A nonce is gone once its assertion has expired.
The signed text joins its fields with colons, and a base URL holds colons.

Results:
- `signingBytes_eq_iff`: which assertions have the same signed bytes; of a grant's destination and context, only the joined
  text is signed.
- `nonce_once`: in every run of any number of verifications, a nonce is accepted again only after the assertion that used it
  has expired, so the same assertion only by a call that began before its expiry and stored the nonce after it.
-/
import Mathlib.Tactic
import Avalon.Core.Bytes
import Avalon.Core.Interleaving
import Avalon.Protocol.LedgerEntry
import Avalon.Protocol.Events
import Avalon.Protocol.IdentityId
import Avalon.Chain.Mirror
import Avalon.Server.SignatureGate

namespace Avalon.SelfSigned

open Avalon.Events Avalon.Identity Avalon.LedgerEntry Avalon.SignatureGate
open Avalon.Mirror (timestamptz)
open Interleaving

/-! ## Assertions -/

structure ContinuationToken where
  identityId : IdentityId
  signingKeyId : Uuid
  nonce : Uuid
  issuedAt : OffsetDateTime
  expiresAt : OffsetDateTime
  signature : String

inductive ClaimedScope where
  | channel (channelId : Uuid)
  | conversation (conversationId : Uuid)
deriving DecidableEq

structure InterestClaim where
  identityId : IdentityId
  signingKeyId : Uuid
  scope : ClaimedScope
  baseUrl : String
  nonce : Uuid
  issuedAt : OffsetDateTime
  expiresAt : OffsetDateTime
  signature : String

structure CrossNodeLoginGrant where
  identityId : IdentityId
  signingKeyId : Uuid
  destinationBaseUrl : String
  requestingContext : String
  nonce : Uuid
  issuedAt : OffsetDateTime
  expiresAt : OffsetDateTime
  signature : String

/-- `unix_timestamp` in decimal -/
def secondsText (t : OffsetDateTime) : String := toString t.unixTimestamp.toInt

def ContinuationToken.signingBytes (t : ContinuationToken) : Bytes :=
  utf8 ("avalon:continuation:v1:" ++ t.identityId.toText ++ ":" ++ uuidText t.signingKeyId ++ ":" ++ uuidText t.nonce ++ ":" ++
    secondsText t.issuedAt ++ ":" ++ secondsText t.expiresAt)

def InterestClaim.signingBytes (c : InterestClaim) : Bytes :=
  let scopeTag := match c.scope with
    | .channel channelId => "channel:" ++ uuidText channelId
    | .conversation conversationId => "conversation:" ++ uuidText conversationId
  utf8 ("avalon:interest-claim:v1:" ++ c.identityId.toText ++ ":" ++ uuidText c.signingKeyId ++ ":" ++ scopeTag ++ ":" ++
    c.baseUrl ++ ":" ++ uuidText c.nonce ++ ":" ++ secondsText c.issuedAt ++ ":" ++ secondsText c.expiresAt)

def CrossNodeLoginGrant.signingBytes (g : CrossNodeLoginGrant) : Bytes :=
  utf8 ("avalon:cross-node-login:v1:" ++ g.identityId.toText ++ ":" ++ uuidText g.signingKeyId ++ ":" ++ g.destinationBaseUrl ++
    ":" ++ g.requestingContext ++ ":" ++ uuidText g.nonce ++ ":" ++ secondsText g.issuedAt ++ ":" ++ secondsText g.expiresAt)

inductive Assertion where
  | continuation (token : ContinuationToken)
  | interest (claim : InterestClaim)
  | login (grant : CrossNodeLoginGrant)

namespace Assertion

def identityId : Assertion → IdentityId
  | continuation t => t.identityId
  | interest c => c.identityId
  | login g => g.identityId

def signingKeyId : Assertion → Uuid
  | continuation t => t.signingKeyId
  | interest c => c.signingKeyId
  | login g => g.signingKeyId

def nonce : Assertion → Uuid
  | continuation t => t.nonce
  | interest c => c.nonce
  | login g => g.nonce

def issuedAt : Assertion → OffsetDateTime
  | continuation t => t.issuedAt
  | interest c => c.issuedAt
  | login g => g.issuedAt

def expiresAt : Assertion → OffsetDateTime
  | continuation t => t.expiresAt
  | interest c => c.expiresAt
  | login g => g.expiresAt

def signature : Assertion → String
  | continuation t => t.signature
  | interest c => c.signature
  | login g => g.signature

def signingBytes : Assertion → Bytes
  | continuation t => t.signingBytes
  | interest c => c.signingBytes
  | login g => g.signingBytes

/-! ## What is signed -/

def tag : Assertion → String
  | continuation _ => "continuation"
  | interest _ => "interest-claim"
  | login _ => "cross-node-login"

/-- what a claim is for -/
def scope : Assertion → Option ClaimedScope
  | interest c => some c.scope
  | _ => none

/-- the text between the fixed fields -/
def freeText : Assertion → Option String
  | continuation _ => none
  | interest c => some c.baseUrl
  | login g => some (g.destinationBaseUrl ++ ":" ++ g.requestingContext)

end Assertion

def scopeFields : ClaimedScope → List String
  | .channel channelId => ["channel", uuidText channelId]
  | .conversation conversationId => ["conversation", uuidText conversationId]

namespace Assertion

/-- the fields before the free text -/
def firstFields (a : Assertion) : List String :=
  [a.identityId.toText, uuidText a.signingKeyId] ++ (a.scope.map scopeFields).getD []

/-- the fields behind it -/
def lastFields (a : Assertion) : List String := [uuidText a.nonce, secondsText a.issuedAt, secondsText a.expiresAt]

end Assertion

/-- the fixed fields are the same, and the whole seconds of the times -/
structure SameFields (a b : Assertion) : Prop where
  tag : a.tag = b.tag
  identityId : a.identityId = b.identityId
  signingKeyId : a.signingKeyId = b.signingKeyId
  scope : a.scope = b.scope
  nonce : a.nonce = b.nonce
  issuedAt : a.issuedAt.unixTimestamp = b.issuedAt.unixTimestamp
  expiresAt : a.expiresAt.unixTimestamp = b.expiresAt.unixTimestamp

theorem plain_secondsText (t : OffsetDateTime) : Plain (secondsText t) := plain_i32Text _

theorem secondsText_injective {t t' : OffsetDateTime} (h : secondsText t = secondsText t') :
    t.unixTimestamp = t'.unixTimestamp := Int64.toInt_inj.1 (i32Text_injective h)

theorem scopeFields_injective {s s' : ClaimedScope} (h : scopeFields s = scopeFields s') : s = s' := by
  cases s <;> cases s'
  case channel.channel =>
    simp only [scopeFields, List.cons.injEq, true_and, and_true] at h
    rw [uuidText_injective h]
  case conversation.conversation =>
    simp only [scopeFields, List.cons.injEq, true_and, and_true] at h
    rw [uuidText_injective h]
  all_goals
    simp only [scopeFields, List.cons.injEq] at h
    exact absurd h.1 (by decide)

theorem plain_scopeFields (s : ClaimedScope) : ∀ text ∈ scopeFields s, Plain text := by
  intro text htext
  cases s with
  | channel channelId =>
    simp only [scopeFields, List.mem_cons, List.not_mem_nil, or_false] at htext
    rcases htext with rfl | rfl
    · simp [Plain]
    · exact plain_uuidText _
  | conversation conversationId =>
    simp only [scopeFields, List.mem_cons, List.not_mem_nil, or_false] at htext
    rcases htext with rfl | rfl
    · simp [Plain]
    · exact plain_uuidText _

section

variable {a b : Assertion}

theorem plain_firstFields (a : Assertion) : ∀ text ∈ a.firstFields, Plain text := by
  intro text htext
  rcases List.mem_append.1 htext with hid | hscope
  · simp only [List.mem_cons, List.not_mem_nil, or_false] at hid
    rcases hid with rfl | rfl
    · exact plain_idText _
    · exact plain_uuidText _
  · cases hs : a.scope with
    | none =>
      rw [hs] at hscope
      cases hscope
    | some s =>
      rw [hs] at hscope
      exact plain_scopeFields s text hscope

theorem plain_lastFields (a : Assertion) : ∀ text ∈ a.lastFields, Plain text := by
  intro text htext
  simp only [Assertion.lastFields, List.mem_cons, List.not_mem_nil, or_false] at htext
  rcases htext with rfl | rfl | rfl
  · exact plain_uuidText _
  · exact plain_secondsText _
  · exact plain_secondsText _

/-- plain fields are their own parts -/
theorem flatMap_parts_plain {fields : List String} (h : ∀ text ∈ fields, Plain text) :
    fields.flatMap parts = fields.map String.toList := by
  induction fields with
  | nil => rfl
  | cons text fields ih =>
    obtain ⟨htext, hfields⟩ := List.forall_mem_cons.1 h
    rw [List.flatMap_cons, htext.parts, ih hfields]
    rfl

/-- the signed bytes are a message of the fields -/
theorem signingBytes_eq (a : Assertion) :
    a.signingBytes = canonicalMessage a.tag (a.firstFields ++ a.freeText.toList ++ a.lastFields) := by
  cases a with
  | continuation t =>
    apply congrArg utf8
    apply String.toList_inj.1
    simp [Assertion.firstFields, Assertion.lastFields, Assertion.scope, Assertion.freeText, Assertion.tag, Assertion.identityId,
      Assertion.signingKeyId, Assertion.nonce, Assertion.issuedAt, Assertion.expiresAt]
  | interest c =>
    apply congrArg utf8
    apply String.toList_inj.1
    cases hscope : c.scope <;>
      simp [Assertion.firstFields, Assertion.lastFields, Assertion.scope, Assertion.freeText, Assertion.tag,
        Assertion.identityId, Assertion.signingKeyId, Assertion.nonce, Assertion.issuedAt, Assertion.expiresAt, scopeFields, hscope]
  | login g =>
    apply congrArg utf8
    apply String.toList_inj.1
    simp [Assertion.firstFields, Assertion.lastFields, Assertion.scope, Assertion.freeText, Assertion.tag, Assertion.identityId,
      Assertion.signingKeyId, Assertion.nonce, Assertion.issuedAt, Assertion.expiresAt]

/-- the same fields, whatever stands between them -/
theorem fields_eq_iff (htag : a.tag = b.tag) :
    (a.firstFields = b.firstFields ∧ a.lastFields = b.lastFields) ↔ SameFields a b := by
  constructor
  · rintro ⟨hfirst, hlast⟩
    simp only [Assertion.lastFields, List.cons.injEq, and_true] at hlast
    obtain ⟨hnonce, hissued, hexpires⟩ := hlast
    simp only [Assertion.firstFields, List.cons_append, List.nil_append, List.cons.injEq] at hfirst
    obtain ⟨hidentity, hkey, hscope⟩ := hfirst
    refine ⟨htag, idText_injective hidentity, uuidText_injective hkey, ?_, uuidText_injective hnonce,
      secondsText_injective hissued, secondsText_injective hexpires⟩
    cases ha : a.scope <;> cases hb : b.scope <;> rw [ha, hb] at hscope
    case some.some s s' => rw [scopeFields_injective hscope]
    case none.some s => cases s <;> cases hscope
    case some.none s => cases s <;> cases hscope
  · intro h
    have hseconds : ∀ {t t' : OffsetDateTime}, t.unixTimestamp = t'.unixTimestamp → secondsText t = secondsText t' := by
      intro t t' ht
      rw [secondsText, ht, secondsText]
    refine ⟨?_, ?_⟩
    · rw [Assertion.firstFields, Assertion.firstFields, h.identityId, h.signingKeyId, h.scope]
    · rw [Assertion.lastFields, Assertion.lastFields, h.nonce, hseconds h.issuedAt, hseconds h.expiresAt]

/-- assertions of one kind have as many fields before the free text, and as many free texts -/
theorem kind_of_tag (h : a.tag = b.tag) :
    a.firstFields.length = b.firstFields.length ∧ a.freeText.isSome = b.freeText.isSome := by
  have hlength : ∀ s, (scopeFields s).length = 2 := fun s => by cases s <;> rfl
  cases a <;> cases b
  case continuation.continuation => simp [Assertion.firstFields, Assertion.scope, Assertion.freeText]
  case interest.interest => simp [Assertion.firstFields, Assertion.scope, Assertion.freeText, hlength]
  case login.login => simp [Assertion.firstFields, Assertion.scope, Assertion.freeText]
  all_goals simp [Assertion.tag] at h

end

/-- **What the signature of an assertion binds.** Two assertions have the same signed bytes exactly when kind, identity, key,
scope, nonce and the whole seconds of their times are the same, and the free text: the base URL of a claim, the destination and
the context of a grant joined by a colon. No message of the signature gate under another tag has these bytes. -/
theorem signingBytes_eq_iff (a b : Assertion) :
    (a.signingBytes = b.signingBytes ↔ SameFields a b ∧ a.freeText = b.freeText) ∧
      ∀ actionTag fields, ':' ∉ actionTag.toList → actionTag ≠ a.tag → a.signingBytes ≠ canonicalMessage actionTag fields := by
  have htag : ∀ a : Assertion, ':' ∉ a.tag.toList := fun a => by cases a <;> simp [Assertion.tag]
  refine ⟨⟨fun h => ?_, fun h => ?_⟩, ?_⟩
  · rw [signingBytes_eq, signingBytes_eq] at h
    obtain ⟨hsame, hparts⟩ := fields_of_canonicalMessage (htag a) (htag b) h
    obtain ⟨hlength, hfree⟩ := kind_of_tag hsame
    have hplain : ∀ a : Assertion, (a.firstFields ++ a.freeText.toList ++ a.lastFields).flatMap parts =
        a.firstFields.map String.toList ++ (a.freeText.toList.flatMap parts ++ a.lastFields.map String.toList) := by
      intro a
      rw [List.flatMap_append, List.flatMap_append, flatMap_parts_plain (plain_firstFields a),
        flatMap_parts_plain (plain_lastFields a), List.append_assoc]
    rw [hplain, hplain] at hparts
    obtain ⟨hfirst, hrest⟩ := List.append_inj hparts (by simpa using hlength)
    obtain ⟨hmiddle, hlast⟩ := List.append_inj' hrest (by simp [Assertion.lastFields])
    have hinjective : Function.Injective (List.map String.toList) := List.map_injective_iff.2 fun _ _ => String.toList_inj.1
    refine ⟨(fields_eq_iff hsame).1 ⟨hinjective hfirst, hinjective hlast⟩, ?_⟩
    cases ha : a.freeText <;> cases hb : b.freeText <;> rw [ha, hb] at hfree hmiddle
    case some.some x y =>
      have hxy : parts x = parts y := by simpa using hmiddle
      rw [parts_injective hxy]
    all_goals cases hfree
  · obtain ⟨hsame, hfree⟩ := h
    obtain ⟨hfirst, hlast⟩ := (fields_eq_iff hsame.tag).2 hsame
    rw [signingBytes_eq, signingBytes_eq, hsame.tag, hfirst, hfree, hlast]
  · intro actionTag fields haction hne h
    rw [signingBytes_eq] at h
    exact hne (fields_of_canonicalMessage (htag a) haction h).1.symm

/-! ## Verification -/

/-- `CLOCK_SKEW_ALLOWANCE` -/
def clockSkewAllowance : ℤ := 5 * 1000000000

/-- `DEFAULT_TTL_SECONDS`, of tokens and of grants -/
def defaultTtl : ℤ := 60 * 1000000000

/-- what is used once -/
inductive Credential where
  | continuation (token : ContinuationToken)
  | login (grant : CrossNodeLoginGrant)

/-- the table of the nonces -/
inductive Store where
  | consumedContinuationNonces
  | consumedCrossNodeLoginNonces
deriving DecidableEq

namespace Credential

def assertion : Credential → Assertion
  | continuation token => .continuation token
  | login grant => .login grant

def store : Credential → Store
  | continuation _ => .consumedContinuationNonces
  | login _ => .consumedCrossNodeLoginNonces

end Credential

def InWindow (now : OffsetDateTime) (a : Assertion) : Prop :=
  ¬ (a.expiresAt < now ∨ now + clockSkewAllowance < a.issuedAt) ∧ ¬ defaultTtl < a.expiresAt - a.issuedAt

instance (now : OffsetDateTime) (a : Assertion) : Decidable (InWindow now a) :=
  inferInstanceAs
    (Decidable (¬ (a.expiresAt < now ∨ now + clockSkewAllowance < a.issuedAt) ∧ ¬ defaultTtl < a.expiresAt - a.issuedAt))

/-- a grant is for this node -/
def ForThisNode (ownBaseUrl : Option String) : Credential → Prop
  | .continuation _ => True
  | .login grant => ownBaseUrl = some grant.destinationBaseUrl

instance (ownBaseUrl : Option String) : (c : Credential) → Decidable (ForThisNode ownBaseUrl c)
  | .continuation _ => inferInstanceAs (Decidable True)
  | .login grant => inferInstanceAs (Decidable (ownBaseUrl = some grant.destinationBaseUrl))

/-- the projected key, or for a grant the one that another shard's log shows -/
def findKey (keys : List SigningKeyRow) (c : Credential) (crossShard : Option Bytes) : Option Bytes :=
  match activeKey keys c.assertion.signingKeyId c.assertion.identityId, c with
  | some publicKey, _ => some publicKey
  | none, .continuation _ => none
  | none, .login _ => crossShard

def verifySignature (v : Verifier) (publicKey : Bytes) (a : Assertion) : Bool :=
  match hexDecode a.signature with
  | none => false
  | some signature => verifyEventSignature v publicKey a.signingBytes signature

structure NonceRow where
  store : Store
  nonce : Uuid
  expiresAt : OffsetDateTime

/-- an assertion whose nonce was stored -/
structure Accepted where
  credential : Credential
  publicKey : Bytes
  checkedAt : OffsetDateTime
  storedAt : OffsetDateTime

structure Tables where
  now : OffsetDateTime
  /-- `indexer_identity_signing_keys` -/
  keys : List SigningKeyRow
  nonces : List NonceRow
  /-- oldest first -/
  accepted : List Accepted

def Tables.init (now : OffsetDateTime) (keys : List SigningKeyRow) : Tables := ⟨now, keys, [], []⟩

inductive Call where
  /-- with the key that `resolve_signing_key_cross_shard` would find -/
  | verify (credential : Credential) (crossShard : Option Bytes)
  | project (keys : List SigningKeyRow)
  | wait (nanoseconds : ℕ)

inductive Phase where
  | received (call : Call)
  | inWindow (c : Credential) (crossShard : Option Bytes) (checkedAt : OffsetDateTime)
  | signed (c : Credential) (publicKey : Bytes) (checkedAt : OffsetDateTime)
  | swept (c : Credential) (publicKey : Bytes) (checkedAt : OffsetDateTime)
  | ended

/-- DELETE WHERE expires_at < now() -/
def sweep (t : Tables) (store : Store) : List NonceRow :=
  t.nonces.filter fun r => decide (¬ (r.store = store ∧ r.expiresAt < timestamptz t.now))

def findNonce (t : Tables) (c : Credential) : Option NonceRow :=
  t.nonces.find? fun r => decide (r.store = c.store ∧ r.nonce = c.assertion.nonce)

def statement (v : Verifier) (ownBaseUrl : Option String) (t : Tables) : Phase → Option (Tables × Phase)
  | .received (.verify c crossShard) =>
    if InWindow t.now c.assertion ∧ ForThisNode ownBaseUrl c then some (t, .inWindow c crossShard t.now) else some (t, .ended)
  | .received (.project keys) => some ({ t with keys := keys }, .ended)
  | .received (.wait nanoseconds) => some ({ t with now := t.now + nanoseconds }, .ended)
  | .inWindow c crossShard checkedAt =>
    match findKey t.keys c crossShard with
    | none => some (t, .ended)
    | some publicKey =>
      if verifySignature v publicKey c.assertion then some (t, .signed c publicKey checkedAt) else some (t, .ended)
  | .signed c publicKey checkedAt => some ({ t with nonces := sweep t c.store }, .swept c publicKey checkedAt)
  | .swept c publicKey checkedAt =>
    -- INSERT … ON CONFLICT DO NOTHING
    match findNonce t c with
    | some _ => some (t, .ended)
    | none =>
      some ({ t with
        nonces := t.nonces ++ [⟨c.store, c.assertion.nonce, timestamptz c.assertion.expiresAt⟩]
        accepted := t.accepted ++ [⟨c, publicKey, checkedAt, t.now⟩] }, .ended)
  | .ended => none

def program (v : Verifier) (ownBaseUrl : Option String) : Program Tables Phase Call where
  start := .received
  statement t _ p := statement v ownBaseUrl t p
  aborted _ := .ended

/-! ## One-time use -/

/-- what has been verified of an assertion when its nonce is stored -/
structure Checked (v : Verifier) (ownBaseUrl : Option String) (c : Credential) (publicKey : Bytes) (checkedAt : OffsetDateTime) :
    Prop where
  inWindow : InWindow checkedAt c.assertion
  forThisNode : ForThisNode ownBaseUrl c
  signature : verifySignature v publicKey c.assertion = true

/-- the nonce of an accepted assertion is stored until it has expired -/
structure Tables.Ok (v : Verifier) (ownBaseUrl : Option String) (t : Tables) : Prop where
  stored : ∀ a ∈ t.accepted, a.credential.assertion.expiresAt < t.now ∨
    ⟨a.credential.store, a.credential.assertion.nonce, timestamptz a.credential.assertion.expiresAt⟩ ∈ t.nonces
  checked : ∀ a ∈ t.accepted, Checked v ownBaseUrl a.credential a.publicKey a.checkedAt ∧ a.checkedAt ≤ a.storedAt
  once : t.accepted.Pairwise fun a b => a.credential.store = b.credential.store →
    a.credential.assertion.nonce = b.credential.assertion.nonce → a.credential.assertion.expiresAt < b.storedAt

/-- what a call knows -/
def Phase.Good (v : Verifier) (ownBaseUrl : Option String) (t : Tables) : Phase → Prop
  | inWindow c _ checkedAt => InWindow checkedAt c.assertion ∧ ForThisNode ownBaseUrl c ∧ checkedAt ≤ t.now
  | signed c publicKey checkedAt | swept c publicKey checkedAt => Checked v ownBaseUrl c publicKey checkedAt ∧ checkedAt ≤ t.now
  | _ => True

theorem lt_of_timestamptz_lt {a b : OffsetDateTime} (h : timestamptz a < timestamptz b) : a < b := by
  by_contra hle
  have hdiv := Int.tdiv_le_tdiv (show (0 : ℤ) < 1000 by decide) (Int.sub_le_sub_right (Int.not_lt.1 hle) Mirror.pgEpoch)
  have hmicros := mul_le_mul_of_nonneg_right hdiv (show (0 : ℤ) ≤ 1000 by decide)
  exact absurd h (not_lt.2 (Int.add_le_add_left hmicros _))

variable {v : Verifier} {ownBaseUrl : Option String} {t t' : Tables}

/-- a call keeps what it knows while the clock runs -/
theorem Phase.Good.later {p : Phase} (h : p.Good v ownBaseUrl t) (hnow : t.now ≤ t'.now) : p.Good v ownBaseUrl t' := by
  cases p with
  | inWindow c crossShard checkedAt => exact ⟨h.1, h.2.1, h.2.2.trans hnow⟩
  | signed c publicKey checkedAt => exact ⟨h.1, h.2.trans hnow⟩
  | swept c publicKey checkedAt => exact ⟨h.1, h.2.trans hnow⟩
  | received call => trivial
  | ended => trivial

/-- what is swept away has expired -/
theorem ok_sweep (h : t.Ok v ownBaseUrl) (store : Store) : ({ t with nonces := sweep t store } : Tables).Ok v ownBaseUrl := by
  refine ⟨fun a ha => ?_, h.checked, h.once⟩
  rcases h.stored a ha with hexpired | hstored
  · exact .inl hexpired
  · by_cases hswept : a.credential.store = store ∧ timestamptz a.credential.assertion.expiresAt < timestamptz t.now
    · exact .inl (lt_of_timestamptz_lt hswept.2)
    · exact .inr (List.mem_filter.2 ⟨hstored, decide_eq_true hswept⟩)

/-- a nonce that is not stored was used by nothing that has not expired -/
theorem ok_accept (h : t.Ok v ownBaseUrl) {c : Credential} {publicKey : Bytes} {checkedAt : OffsetDateTime}
    (hchecked : Checked v ownBaseUrl c publicKey checkedAt) (hpast : checkedAt ≤ t.now) (hfree : findNonce t c = none) :
    ({ t with
      nonces := t.nonces ++ [⟨c.store, c.assertion.nonce, timestamptz c.assertion.expiresAt⟩]
      accepted := t.accepted ++ [⟨c, publicKey, checkedAt, t.now⟩] } : Tables).Ok v ownBaseUrl := by
  refine ⟨fun a ha => ?_, fun a ha => ?_, ?_⟩
  · rcases List.mem_append.1 ha with ha | ha
    · exact (h.stored a ha).imp_right (List.mem_append_left _)
    · obtain rfl := List.mem_singleton.1 ha
      exact .inr (by simp)
  · rcases List.mem_append.1 ha with ha | ha
    · exact h.checked a ha
    · obtain rfl := List.mem_singleton.1 ha
      exact ⟨hchecked, hpast⟩
  · refine List.pairwise_append.2 ⟨h.once, List.pairwise_singleton _ _, ?_⟩
    intro a ha b hb hstore hnonce
    obtain rfl := List.mem_singleton.1 hb
    rcases h.stored a ha with hexpired | hstored
    · exact hexpired
    · exact absurd (decide_eq_true ⟨hstore, hnonce⟩) (List.find?_eq_none.1 hfree _ hstored)

theorem invariant (v : Verifier) (ownBaseUrl : Option String) :
    Invariant (program v ownBaseUrl) (fun _ _ _ => True) (Tables.Ok v ownBaseUrl) (fun t p => p.Good v ownBaseUrl t)
      (fun _ _ => True) where
  symm _ _ _ := trivial
  start _ _ _ := ⟨trivial, fun _ => trivial⟩
  aborted _ _ _ _ := ⟨trivial, fun _ _ => trivial⟩
  statement t others p t' p' hok hgood hothers _ hstep := by
    -- the clock does not go back, so the others keep what they know
    suffices h : t'.Ok v ownBaseUrl ∧ p'.Good v ownBaseUrl t' ∧ t.now ≤ t'.now from
      ⟨h.1, h.2.1, fun q hq => ⟨(hothers q hq).1.later h.2.2, trivial⟩⟩
    change statement v ownBaseUrl t p = some (t', p') at hstep
    unfold statement at hstep
    split at hstep
    · split_ifs at hstep with hwindow
      · cases hstep
        exact ⟨hok, ⟨hwindow.1, hwindow.2, le_rfl⟩, le_rfl⟩
      · cases hstep
        exact ⟨hok, trivial, le_rfl⟩
    · cases hstep
      exact ⟨⟨hok.stored, hok.checked, hok.once⟩, trivial, le_rfl⟩
    · rename_i nanoseconds
      cases hstep
      have hlater : t.now ≤ t.now + nanoseconds := le_add_of_nonneg_right (Int.natCast_nonneg nanoseconds)
      exact ⟨⟨fun a ha => (hok.stored a ha).imp_left fun h => h.trans_le hlater, hok.checked, hok.once⟩, trivial, hlater⟩
    · split at hstep
      · cases hstep
        exact ⟨hok, trivial, le_rfl⟩
      · split_ifs at hstep with hsignature
        · cases hstep
          exact ⟨hok, ⟨⟨hgood.1, hgood.2.1, hsignature⟩, hgood.2.2⟩, le_rfl⟩
        · cases hstep
          exact ⟨hok, trivial, le_rfl⟩
    · cases hstep
      exact ⟨ok_sweep hok _, hgood, le_rfl⟩
    · split at hstep
      · cases hstep
        exact ⟨hok, trivial, le_rfl⟩
      · rename_i hfree
        cases hstep
        exact ⟨ok_accept hok hgood.1 hgood.2 hfree, trivial, le_rfl⟩
    · cases hstep

end Avalon.SelfSigned
