/-
The replay cache of node credentials (`crates/server/src/node_auth.rs`: `ReplayCache`, `Budget`, `verify_head`,
`begin_read`, as `require_node_auth` calls them; `crates/protocol/src/node_request.rs`: `verify_node_request_head`).

A request reads the clock once, on arrival. Its two steps on the shared cache use that reading, whenever they run: the check
of `verify_head`, and the admission and recording of `begin_read`. Both drop what has expired at their own reading. A
recorded nonce is kept for 121 seconds from the reading of its request, one second longer than its credential can be
accepted by the clock. But the readings that reach the cache need not ascend: a request that arrived in the last second in
which a credential is accepted can run after one that arrived a second later, which has dropped the nonce.

Inputs: whether a peer has standing, whether the earlier gates of `begin_read` (failures, reads in flight, stages) let a
request through, and whether the emptied cache gives its memory back. libp2p's peer ids of keys and their texts are
parameters, as is which keys Ed25519 accepts.

Results:
- `ReplayCache.expire_keeps`: a step keeps what has not expired at its reading.
- `inv_step`: a nonce that passed is in the queue until its retention is over at some reading.
- `credential_passes_once`: in every run in which every read begins before any reading reached the cache that is past the
  retention of an earlier pass of the same nonce, no (signer, nonce) passes twice.
- `unexpired_of_fresh`: a credential that no reading has found stale is such a one.
- `overtaken_credential_passes_twice`: a captured header, passed at the two ends of its window.
-/
import Mathlib.Tactic
import Avalon.Core.Bytes
import Avalon.Core.Sha256
import Avalon.Core.Fallible
import Avalon.Protocol.SigningBytes
import Avalon.Protocol.NodeRequest

namespace Avalon.NodeAuth

open Avalon.SigningBytes Avalon.NodeRequest
open Fallible

/-! ## Times -/

def i64Max : ℤ := 2 ^ 63 - 1

def i64Min : ℤ := -2 ^ 63

def saturatingAdd (a b : ℤ) : ℤ := max i64Min (min i64Max (a + b))

def saturatingSub (a b : ℤ) : ℤ := max i64Min (min i64Max (a - b))

/-- the unix seconds of an `OffsetDateTime`: years -9999 to 9999 -/
def UnixTime := { t : ℤ // -377705116800 ≤ t ∧ t ≤ 253402300799 }
deriving DecidableEq

def maxSkewSecs : ℤ := 60

def replayRetentionSecs : ℤ := 2 * maxSkewSecs + 1

/-! ## The cache -/

/-- the bytes of a libp2p peer id -/
abbrev PeerId := Bytes

inductive NodeAuthError where
  | missing
  | invalid (e : NodeRequestError)
  | peerMismatch
  | replay
  | noStanding
  | rateLimited
  | replayCacheFull
  | busy
  | signerBusy
deriving DecidableEq, Repr

/-- the first 16 bytes of SHA-256 over the signer's id and the nonce -/
def nonceKey (signer : PeerId) (nonce : FixedBytes 16) : ℕ := beNat ((Sha256.hash (signer ++ nonce.toList)).toList.take 16)

structure Queued where
  expiresAt : ℤ
  key : ℕ
  slot : ℕ

structure ReplayCache where
  seen : Finset ℕ
  /-- in the order of insertion -/
  order : List Queued
  /-- live nonces of a signer, with its slot: (slot, count) -/
  perSigner : PeerId → Option (ℕ × ℕ)
  slots : List (Option PeerId)
  freeSlots : List ℕ
  maxTotal : ℕ
  maxPerSigner : ℕ

namespace ReplayCache

def new (maxTotal maxPerSigner : ℕ) : ReplayCache := ⟨∅, [], fun _ => none, [], [], maxTotal, maxPerSigner⟩

/-- one live nonce less; the last one gives the signer's slot back -/
def releaseSlot (c : ReplayCache) (slot : ℕ) : ReplayCache :=
  match (c.slots[slot]?).join with
  | none => c
  | some signer =>
    match c.perSigner signer with
    | none => c
    | some (own, n) =>
      if n - 1 = 0 then
        { c with
          perSigner := Function.update c.perSigner signer none
          slots := c.slots.set slot none
          freeSlots := slot :: c.freeSlots }
      else { c with perSigner := Function.update c.perSigner signer (some (own, n - 1)) }

def forgetFront (c : ReplayCache) : ReplayCache :=
  match c.order with
  | [] => c
  | front :: rest => { c with order := rest, seen := c.seen.erase front.key }.releaseSlot front.slot

/-- as long as the front has expired; the queue bounds the rounds -/
def expireLoop (now : ℤ) : ℕ → ReplayCache → ReplayCache
  | 0, c => c
  | fuel + 1, c => if c.order.head?.any fun q => decide (q.expiresAt ≤ now) then expireLoop now fuel c.forgetFront else c

/-- drops expired entries; an emptied cache may start over -/
def expire (c : ReplayCache) (now : ℤ) (oversized : Bool) : ReplayCache :=
  let c := expireLoop now c.order.length c
  if c.order.isEmpty && oversized then new c.maxTotal c.maxPerSigner else c

def isLive (c : ReplayCache) (signer : PeerId) (nonce : FixedBytes 16) (now : ℤ) (oversized : Bool) : ReplayCache × Bool :=
  (c.expire now oversized, decide (nonceKey signer nonce ∈ (c.expire now oversized).seen))

def admitNonce (c : ReplayCache) (signer : PeerId) (nonce : FixedBytes 16) (now : ℤ) (oversized : Bool) :
    ReplayCache × Except NodeAuthError Unit :=
  let (c, live) := c.isLive signer nonce now oversized
  if live then (c, .error .replay)
  else if c.maxPerSigner ≤ ((c.perSigner signer).map Prod.snd).getD 0 then (c, .error .rateLimited)
  else if c.maxTotal ≤ c.seen.card then (c, .error .replayCacheFull)
  else (c, .ok ())

/-- the slot of a signer with one nonce more: its own, a free one, or a new one -/
def takeSlot (c : ReplayCache) (signer : PeerId) : ReplayCache × ℕ :=
  match c.perSigner signer with
  | some (slot, n) => ({ c with perSigner := Function.update c.perSigner signer (some (slot, n + 1)) }, slot)
  | none =>
    let (slot, freeSlots, slots) := match c.freeSlots with
      | slot :: rest => (slot, rest, c.slots)
      | [] => (c.slots.length, [], c.slots ++ [none])
    ({ c with
      perSigner := Function.update c.perSigner signer (some (slot, 1))
      slots := slots.set slot (some signer)
      freeSlots := freeSlots }, slot)

def record (c : ReplayCache) (signer : PeerId) (nonce : FixedBytes 16) (now : ℤ) : ReplayCache :=
  let key := nonceKey signer nonce
  let (c, slot) := c.takeSlot signer
  { c with
    seen := insert key c.seen
    order := c.order ++ [⟨saturatingAdd now replayRetentionSecs, key, slot⟩] }

end ReplayCache

/-! ## Request budgets -/

/-- requests per key in the current minute; a full table refuses a new key -/
structure Budget where
  windows : List (PeerId × ℤ × ℕ)
  perMinute : ℕ
  maxKeys : ℕ

/-- spends one request of the key's minute -/
def Budget.charge (b : Budget) (key : PeerId) (now : ℤ) : Budget × Bool :=
  let minute := now / 60
  let known := b.windows.any fun w => decide (w.1 = key)
  let full := decide (b.maxKeys ≤ b.windows.length) && !known
  let windows := if full then b.windows.filter fun w => decide (w.2.1 = minute) else b.windows
  if full && decide (b.maxKeys ≤ windows.length) then ({ b with windows := windows }, false)
  else
    let count := match windows.find? fun w => decide (w.1 = key) with
      | some (_, window, count) => if window = minute then count else 0
      | none => 0
    let others := windows.filter fun w => decide (w.1 ≠ key)
    if b.perMinute ≤ count then ({ b with windows := (key, minute, count) :: others }, false)
    else ({ b with windows := (key, minute, min (count + 1) b.perMinute) :: others }, true)

/-! ## Credentials -/

/-- what this node is configured with, and what libp2p and Ed25519 say of keys -/
structure Config where
  ed : Ed25519
  validKey : FixedBytes 32 → Bool
  peerIdOfKey : FixedBytes 32 → Option PeerId
  peerIdText : PeerId → String
  networkId : String
  recipients : List String

structure VerifiedHead where
  signer : PeerId
  auth : NodeRequestAuth
deriving DecidableEq

/-- the values of the credential header, each as text where it is text -/
def headerText : List (Option String) → Except NodeAuthError String
  | [] => .error .missing
  | [some text] => .ok text
  | [none] => .error (.invalid (.malformed "non-ascii"))
  | _ => .error (.invalid (.malformed "repeated header"))

def checkWindow (timestamp now maxSkew : ℤ) : Except NodeRequestError Unit :=
  if timestamp < saturatingSub now maxSkew then .error .stale
  else if saturatingAdd now maxSkew < timestamp then .error .future
  else .ok ()

def verifyNodeRequestHead (cfg : Config) (auth : NodeRequestAuth) (head : NodeRequestHead) (now maxSkew : ℤ) :
    Except NodeRequestError Unit := do
  validateHead head auth.peerId
  if cfg.recipients.isEmpty then throw (.invalidRequest "recipients")
  cfg.recipients.forM fun recipient => validateName recipient "recipient"
  if maxSkew < 0 then throw (.invalidRequest "max_skew")
  checkWindow auth.timestamp.toInt now maxSkew
  if !cfg.validKey auth.publicKey then throw .invalidKey
  let start := messagePrefix head auth.bodyHash
  let verified := cfg.recipients.any fun recipient =>
    cfg.ed.verifyStrict auth.publicKey (messageWithRecipient start recipient auth.peerId auth.timestamp auth.nonce)
      auth.signature
  if verified then return () else throw .badSignature

/-- what `verify_head` checks of a parsed credential before it looks at the cache -/
def checkAuth (cfg : Config) (auth : NodeRequestAuth) (method path : String) (now : ℤ) (standing : PeerId → Bool) :
    Except NodeAuthError VerifiedHead := do
  (checkWindow auth.timestamp.toInt now maxSkewSecs).mapError .invalid
  match (cfg.peerIdOfKey auth.publicKey).filter fun id => decide (cfg.peerIdText id = auth.peerId) with
  | none => throw .peerMismatch
  | some signer =>
    if !standing signer then throw .noStanding
    (verifyNodeRequestHead cfg auth ⟨method, path, cfg.networkId⟩ now maxSkewSecs).mapError .invalid
    return ⟨signer, auth⟩

structure Request where
  headers : List (Option String)
  method : String
  path : String
  now : UnixTime

def checkHead (cfg : Config) (request : Request) (standing : PeerId → Bool) : Except NodeAuthError VerifiedHead := do
  let text ← headerText request.headers
  let auth ← (parseNodeRequestHeader text).mapError .invalid
  checkAuth cfg auth request.method request.path request.now.1 standing

/-- everything `verify_head` checks before it looks at the cache: `checkHead` of a configuration -/
abbrev Checks := Request → (PeerId → Bool) → Except NodeAuthError VerifiedHead

/-- also returns whether the cache was looked at -/
def verifyHead (checks : Checks) (cache : ReplayCache) (request : Request) (standing : PeerId → Bool) (oversized : Bool) :
    ReplayCache × Bool × Except NodeAuthError VerifiedHead :=
  match checks request standing with
  | .error e => (cache, false, .error e)
  | .ok head =>
    let (cache, live) := cache.isLive head.signer head.auth.nonce request.now.1 oversized
    (cache, true, if live then .error .replay else .ok head)

/-- also returns whether the cache was looked at -/
def beginRead (cache : ReplayCache) (budget : Budget) (head : VerifiedHead) (now : ℤ) (gate : Except NodeAuthError Unit)
    (oversized : Bool) : ReplayCache × Budget × Bool × Except NodeAuthError Unit :=
  match gate with
  | .error e => (cache, budget, false, .error e)
  | .ok () =>
    match cache.admitNonce head.signer head.auth.nonce now oversized with
    | (cache, .error e) => (cache, budget, true, .error e)
    | (cache, .ok ()) =>
      match budget.charge head.signer now with
      | (budget, false) => (cache, budget, true, .error .rateLimited)
      | (budget, true) => (cache.record head.signer head.auth.nonce now, budget, true, .ok ())

/-! ## Runs -/

/-- how far a request has come -/
inductive Phase where
  | arrived
  | verified (head : VerifiedHead)
  | ended

/-- a nonce whose read began -/
structure Passage where
  signer : PeerId
  nonce : FixedBytes 16
  timestamp : ℤ
  now : ℤ

structure State where
  clock : Option UnixTime
  requests : List (Request × Phase)
  cache : ReplayCache
  budget : Budget
  /-- history: the reads that began, and the clock readings the cache was used with -/
  passed : List Passage
  readings : List ℤ

inductive Op where
  | arrive (request : Request)
  | verify (i : ℕ) (standing : PeerId → Bool) (oversized : Bool)
  | begin (i : ℕ) (gate : Except NodeAuthError Unit) (oversized : Bool)

def State.init (cache : ReplayCache) (budget : Budget) : State := ⟨none, [], cache, budget, [], []⟩

/-- the clock does not go back; the steps of the requests that arrived run in any order -/
def step (checks : Checks) (s : State) : Op → State
  | .arrive request =>
    if s.clock.all fun clock => decide (clock.1 ≤ request.now.1) then
      { s with clock := some request.now, requests := s.requests ++ [(request, .arrived)] }
    else s
  | .verify i standing oversized =>
    match s.requests[i]? with
    | some (request, .arrived) =>
      let (cache, looked, result) := verifyHead checks s.cache request standing oversized
      { s with
        cache := cache
        requests := s.requests.set i (request, match result with | .ok head => .verified head | .error _ => .ended)
        readings := if looked then request.now.1 :: s.readings else s.readings }
    | _ => s
  | .begin i gate oversized =>
    match s.requests[i]? with
    | some (request, .verified head) =>
      let (cache, budget, looked, result) := beginRead s.cache s.budget head request.now.1 gate oversized
      { s with
        cache := cache
        budget := budget
        requests := s.requests.set i (request, .ended)
        passed := match result with
          | .ok () => ⟨head.signer, head.auth.nonce, head.auth.timestamp.toInt, request.now.1⟩ :: s.passed
          | .error _ => s.passed
        readings := if looked then request.now.1 :: s.readings else s.readings }
    | _ => s

def run (checks : Checks) (s : State) (ops : List Op) : State := ops.foldl (step checks) s

/-! ## What the steps drop -/

namespace ReplayCache

variable {c : ReplayCache} {now : ℤ}

@[simp] theorem releaseSlot_order (c : ReplayCache) (slot : ℕ) : (c.releaseSlot slot).order = c.order := by
  unfold releaseSlot
  split
  · rfl
  · split
    · rfl
    · split_ifs <;> rfl

@[simp] theorem releaseSlot_seen (c : ReplayCache) (slot : ℕ) : (c.releaseSlot slot).seen = c.seen := by
  unfold releaseSlot
  split
  · rfl
  · split
    · rfl
    · split_ifs <;> rfl

@[simp] theorem takeSlot_order (c : ReplayCache) (signer : PeerId) : (c.takeSlot signer).1.order = c.order := by
  unfold takeSlot
  split <;> rfl

@[simp] theorem takeSlot_seen (c : ReplayCache) (signer : PeerId) : (c.takeSlot signer).1.seen = c.seen := by
  unfold takeSlot
  split <;> rfl

/-- the cache holds exactly the nonces in its queue, each once -/
structure Ok (c : ReplayCache) : Prop where
  distinct : (c.order.map Queued.key).Nodup
  mem_seen : ∀ key, key ∈ c.seen ↔ key ∈ c.order.map Queued.key

theorem ok_new (maxTotal maxPerSigner : ℕ) : (new maxTotal maxPerSigner).Ok := ⟨List.nodup_nil, by simp [new]⟩

theorem Ok.forgetFront (h : c.Ok) : c.forgetFront.Ok := by
  unfold ReplayCache.forgetFront
  split
  · exact h
  · rename_i front rest horder
    obtain ⟨hdistinct, hseen⟩ := h
    rw [horder, List.map_cons] at hdistinct hseen
    obtain ⟨hfront, hrest⟩ := List.nodup_cons.1 hdistinct
    refine ⟨by simpa using hrest, fun key => ?_⟩
    simp only [releaseSlot_seen, releaseSlot_order, Finset.mem_erase, hseen, List.mem_cons]
    constructor
    · exact fun ⟨hne, hmem⟩ => hmem.resolve_left hne
    · exact fun hmem => ⟨fun heq => hfront (heq ▸ hmem), .inr hmem⟩

/-- **Expiry** keeps the cache consistent and every entry that has not expired -/
theorem expireLoop_keeps (h : c.Ok) (now : ℤ) (fuel : ℕ) :
    (expireLoop now fuel c).Ok ∧ ∀ q ∈ c.order, now < q.expiresAt → q ∈ (expireLoop now fuel c).order := by
  induction fuel generalizing c with
  | zero => exact ⟨h, fun q hq _ => hq⟩
  | succ fuel ih =>
    rw [expireLoop]
    split
    · rename_i hfront
      obtain ⟨hok, hkeeps⟩ := ih h.forgetFront
      refine ⟨hok, fun q hq hlt => hkeeps q ?_ hlt⟩
      unfold ReplayCache.forgetFront
      cases horder : c.order with
      | nil => simp [horder] at hq
      | cons front rest =>
        rw [horder] at hq hfront
        simp only [List.head?_cons, Option.any_some, decide_eq_true_eq] at hfront
        rw [releaseSlot_order]
        refine (List.mem_cons.1 hq).resolve_left ?_
        rintro rfl
        exact absurd hlt (not_lt.2 hfront)
    · exact ⟨h, fun q hq _ => hq⟩

theorem expire_keeps (h : c.Ok) (now : ℤ) (oversized : Bool) :
    (c.expire now oversized).Ok ∧ ∀ q ∈ c.order, now < q.expiresAt → q ∈ (c.expire now oversized).order := by
  obtain ⟨hok, hkeeps⟩ := expireLoop_keeps h now c.order.length
  unfold expire
  dsimp only
  split
  · rename_i hempty
    rw [Bool.and_eq_true, List.isEmpty_iff] at hempty
    refine ⟨ok_new _ _, fun q hq hlt => ?_⟩
    have hmem := hkeeps q hq hlt
    rw [hempty.1] at hmem
    cases hmem
  · exact ⟨hok, hkeeps⟩

theorem record_order (c : ReplayCache) (signer : PeerId) (nonce : FixedBytes 16) (now : ℤ) :
    ∃ slot, (c.record signer nonce now).order =
      c.order ++ [⟨saturatingAdd now replayRetentionSecs, nonceKey signer nonce, slot⟩] := by
  refine ⟨(c.takeSlot signer).2, ?_⟩
  rw [← takeSlot_order c signer]
  rfl

theorem Ok.record (h : c.Ok) {signer : PeerId} {nonce : FixedBytes 16} (hnew : nonceKey signer nonce ∉ c.seen) (now : ℤ) :
    (c.record signer nonce now).Ok := by
  have hkey : nonceKey signer nonce ∉ c.order.map Queued.key := fun hmem => hnew ((h.mem_seen _).2 hmem)
  unfold ReplayCache.record
  dsimp only
  refine ⟨?_, fun key => ?_⟩
  · simp only [takeSlot_order, List.map_append, List.map_singleton]
    rw [List.nodup_append_comm]
    exact List.nodup_cons.2 ⟨hkey, h.distinct⟩
  · simp only [takeSlot_order, takeSlot_seen, List.map_append, List.map_singleton, Finset.mem_insert, List.mem_append,
      List.mem_singleton, h.mem_seen]
    exact or_comm

/-- an admitted nonce was not held -/
theorem admitNonce_eq_ok {c' : ReplayCache} {signer : PeerId} {nonce : FixedBytes 16} {oversized : Bool} {u : Unit}
    (h : c.admitNonce signer nonce now oversized = (c', .ok u)) :
    c' = c.expire now oversized ∧ nonceKey signer nonce ∉ (c.expire now oversized).seen := by
  unfold admitNonce isLive at h
  dsimp only at h
  split at h
  · cases (Prod.mk.inj h).2
  · rename_i hlive
    rw [decide_eq_true_eq] at hlive
    split at h
    · cases (Prod.mk.inj h).2
    · split at h
      · cases (Prod.mk.inj h).2
      · cases h
        exact ⟨rfl, hlive⟩

theorem admit_cache (c : ReplayCache) (signer : PeerId) (nonce : FixedBytes 16) (now : ℤ) (oversized : Bool) :
    (c.admitNonce signer nonce now oversized).1 = c.expire now oversized := by
  unfold admitNonce isLive
  dsimp only
  split
  · rfl
  · split
    · rfl
    · split <;> rfl

end ReplayCache

/-! ## One step -/

theorem expiresAt_eq (now : UnixTime) : saturatingAdd now.1 replayRetentionSecs = now.1 + replayRetentionSecs := by
  obtain ⟨t, h1, h2⟩ := now
  unfold saturatingAdd replayRetentionSecs maxSkewSecs i64Max i64Min
  dsimp only
  omega

theorem checkWindow_eq_ok {timestamp : ℤ} {now : UnixTime} {u : Unit}
    (h : checkWindow timestamp now.1 maxSkewSecs = .ok u) : timestamp ≤ now.1 + maxSkewSecs := by
  obtain ⟨t, h1, h2⟩ := now
  unfold checkWindow saturatingSub saturatingAdd maxSkewSecs i64Max i64Min at h
  dsimp only at h
  unfold maxSkewSecs
  split at h
  · cases h
  · split at h
    · cases h
    · dsimp only
      omega

/-- an accepted credential is at most a minute ahead of the clock -/
theorem checkHead_eq_ok {cfg : Config} {request : Request} {standing : PeerId → Bool} {head : VerifiedHead}
    (h : checkHead cfg request standing = .ok head) : head.auth.timestamp.toInt ≤ request.now.1 + maxSkewSecs := by
  unfold checkHead at h
  obtain ⟨text, -, h⟩ := bind_eq_ok.1 h
  obtain ⟨auth, -, h⟩ := bind_eq_ok.1 h
  unfold checkAuth at h
  obtain ⟨_, hwindow, h⟩ := bind_eq_ok.1 h
  split at h
  · cases h
  · split at h
    · cases h
    · obtain ⟨_, -, h⟩ := bind_eq_ok.1 h
      cases h
      exact checkWindow_eq_ok (mapError_eq_ok.1 hwindow)

/-- a nonce that passed is in the queue until its retention is over at some reading -/
structure Inv (s : State) : Prop where
  cache : s.cache.Ok
  kept : ∀ p ∈ s.passed, (∀ t ∈ s.readings, t < p.now + replayRetentionSecs) →
    ∃ q ∈ s.cache.order, q.key = nonceKey p.signer p.nonce ∧ q.expiresAt = p.now + replayRetentionSecs
  verified : ∀ request head, (request, Phase.verified head) ∈ s.requests →
    request.now.1 ∈ s.readings ∧ head.auth.timestamp.toInt ≤ request.now.1 + maxSkewSecs
  window : ∀ p ∈ s.passed, p.timestamp ≤ p.now + maxSkewSecs

theorem inv_init {cache : ReplayCache} (h : cache.Ok) (budget : Budget) : Inv (.init cache budget) :=
  ⟨h, by simp [State.init], by simp [State.init], by simp [State.init]⟩

/-- expiring at a reading keeps what has not expired at it -/
theorem Inv.expire {s : State} (h : Inv s) (now : ℤ) (oversized : Bool) {p : Passage} (hp : p ∈ s.passed)
    (hreadings : ∀ t ∈ now :: s.readings, t < p.now + replayRetentionSecs) :
    ∃ q ∈ (s.cache.expire now oversized).order, q.key = nonceKey p.signer p.nonce ∧
      q.expiresAt = p.now + replayRetentionSecs := by
  obtain ⟨hnow, hrest⟩ := List.forall_mem_cons.1 hreadings
  obtain ⟨q, hq, hkey, hexpires⟩ := h.kept p hp hrest
  exact ⟨q, (ReplayCache.expire_keeps h.cache now oversized).2 q hq (hexpires ▸ hnow), hkey, hexpires⟩

/-- the nonce has not passed before, or all readings are within the retention of that pass -/
def Unexpired (s : State) (head : VerifiedHead) : Prop :=
  ∀ p ∈ s.passed, p.signer = head.signer → p.nonce = head.auth.nonce →
    ∀ t ∈ s.readings, t < p.now + replayRetentionSecs

instance (s : State) (head : VerifiedHead) : Decidable (Unexpired s head) :=
  inferInstanceAs (Decidable (∀ p ∈ s.passed, p.signer = head.signer → p.nonce = head.auth.nonce →
    ∀ t ∈ s.readings, t < p.now + replayRetentionSecs))

/-- the credential of a request whose read may begin -/
def State.mayBegin (s : State) (i : ℕ) : Option VerifiedHead :=
  match s.requests[i]? with
  | some (_, .verified head) => some head
  | _ => none

/-- a read begins in a state where its nonce is unexpired -/
def StepMeets (s : State) : Op → Prop
  | .begin i _ _ => ∀ head ∈ s.mayBegin i, Unexpired s head
  | _ => True

instance (s : State) : (op : Op) → Decidable (StepMeets s op)
  | .arrive _ => inferInstanceAs (Decidable True)
  | .verify .. => inferInstanceAs (Decidable True)
  | .begin i _ _ => inferInstanceAs (Decidable (∀ head ∈ s.mayBegin i, Unexpired s head))

/-- every step of a run meets the condition in the state it finds -/
def Along (checks : Checks) : State → List Op → Prop
  | _, [] => True
  | s, op :: ops => StepMeets s op ∧ Along checks (step checks s op) ops

instance (checks : Checks) : (s : State) → (ops : List Op) → Decidable (Along checks s ops)
  | _, [] => inferInstanceAs (Decidable True)
  | s, op :: ops =>
    have := instDecidableAlong checks (step checks s op) ops
    inferInstanceAs (Decidable (StepMeets s op ∧ Along checks (step checks s op) ops))

def State.credentials (s : State) : List (PeerId × FixedBytes 16) := s.passed.map fun p => (p.signer, p.nonce)

/-- the requests that are still to begin their read, when one request changes its phase -/
theorem mem_verified_set {requests : List (Request × Phase)} {i : ℕ} {request r : Request} {phase : Phase}
    {head : VerifiedHead} (h : (r, Phase.verified head) ∈ requests.set i (request, phase)) :
    (r, Phase.verified head) ∈ requests ∨ (r = request ∧ phase = .verified head) := by
  rcases List.mem_or_eq_of_mem_set h with hmem | heq
  · exact .inl hmem
  · cases heq
    exact .inr ⟨rfl, rfl⟩

/-- what a check does to the cache: nothing, or it expires -/
theorem verifyHead_cases (cfg : Config) (cache : ReplayCache) (request : Request) (standing : PeerId → Bool)
    (oversized : Bool) :
    (∃ e, verifyHead (checkHead cfg) cache request standing oversized = (cache, false, .error e)) ∨
    (∃ e, verifyHead (checkHead cfg) cache request standing oversized =
      (cache.expire request.now.1 oversized, true, .error e)) ∨
    ∃ head, verifyHead (checkHead cfg) cache request standing oversized =
      (cache.expire request.now.1 oversized, true, .ok head) ∧
        head.auth.timestamp.toInt ≤ request.now.1 + maxSkewSecs := by
  unfold verifyHead
  split
  · exact .inl ⟨_, rfl⟩
  · rename_i head hcheck
    dsimp only [ReplayCache.isLive]
    split
    · exact .inr (.inl ⟨_, rfl⟩)
    · exact .inr (.inr ⟨head, rfl, checkHead_eq_ok hcheck⟩)

/-- what an admission does to the cache: nothing, or it expires, and then records a nonce that is not held -/
theorem beginRead_cases (cache : ReplayCache) (budget : Budget) (head : VerifiedHead) (now : ℤ)
    (gate : Except NodeAuthError Unit) (oversized : Bool) :
    (∃ e, beginRead cache budget head now gate oversized = (cache, budget, false, .error e)) ∨
    (∃ budget' e, beginRead cache budget head now gate oversized = (cache.expire now oversized, budget', true, .error e)) ∨
    ∃ budget', beginRead cache budget head now gate oversized =
        ((cache.expire now oversized).record head.signer head.auth.nonce now, budget', true, .ok ()) ∧
      nonceKey head.signer head.auth.nonce ∉ (cache.expire now oversized).seen := by
  unfold beginRead
  split
  · exact .inl ⟨_, rfl⟩
  · have hcache := ReplayCache.admit_cache cache head.signer head.auth.nonce now oversized
    split
    · rename_i cache' e hadmitted
      rw [hadmitted] at hcache
      subst hcache
      exact .inr (.inl ⟨budget, e, rfl⟩)
    · rename_i cache' hadmitted
      obtain ⟨rfl, hnew⟩ := ReplayCache.admitNonce_eq_ok hadmitted
      split
      · exact .inr (.inl ⟨_, _, rfl⟩)
      · exact .inr (.inr ⟨_, rfl, hnew⟩)

theorem inv_verify {cfg : Config} {s : State} (h : Inv s) (i : ℕ) (standing : PeerId → Bool) (oversized : Bool) :
    Inv (step (checkHead cfg) s (.verify i standing oversized)) := by
  rw [step]
  split
  · rename_i request hrequest
    rcases verifyHead_cases cfg s.cache request standing oversized with ⟨e, heq⟩ | ⟨e, heq⟩ | ⟨head, heq, hwindow⟩
    · rw [heq]
      refine ⟨h.cache, h.kept, fun r head hmem => ?_, h.window⟩
      rcases mem_verified_set hmem with hmem | ⟨-, hphase⟩
      · exact h.verified r head hmem
      · cases hphase
    · rw [heq]
      refine ⟨(ReplayCache.expire_keeps h.cache _ oversized).1, fun p hp => h.expire _ oversized hp, fun r head hmem => ?_,
        h.window⟩
      rcases mem_verified_set hmem with hmem | ⟨-, hphase⟩
      · obtain ⟨hread, hwindow⟩ := h.verified r head hmem
        exact ⟨List.mem_cons_of_mem _ hread, hwindow⟩
      · cases hphase
    · rw [heq]
      refine ⟨(ReplayCache.expire_keeps h.cache _ oversized).1, fun p hp => h.expire _ oversized hp, fun r head' hmem => ?_,
        h.window⟩
      rcases mem_verified_set hmem with hmem | ⟨rfl, hphase⟩
      · obtain ⟨hread, hwindow⟩ := h.verified r head' hmem
        exact ⟨List.mem_cons_of_mem _ hread, hwindow⟩
      · cases hphase
        exact ⟨List.mem_cons_self, hwindow⟩
  · exact h

/-- **A read that begins** has a nonce that has not passed -/
theorem inv_begin {cfg : Config} {s : State} (h : Inv s) (hcredentials : s.credentials.Nodup) (i : ℕ)
    (gate : Except NodeAuthError Unit) (oversized : Bool) (hmeets : StepMeets s (.begin i gate oversized)) :
    Inv (step (checkHead cfg) s (.begin i gate oversized)) ∧ (step (checkHead cfg) s (.begin i gate oversized)).credentials.Nodup := by
  rw [step]
  split
  · rename_i request head hrequest
    obtain ⟨hread, hwindow⟩ := h.verified request head (List.mem_of_getElem? hrequest)
    obtain ⟨hok, -⟩ := ReplayCache.expire_keeps h.cache request.now.1 oversized
    -- the requests that are still to begin are the others
    have hverified : ∀ r head', (r, Phase.verified head') ∈ s.requests.set i (request, .ended) →
        r.now.1 ∈ s.readings ∧ head'.auth.timestamp.toInt ≤ r.now.1 + maxSkewSecs := by
      intro r head' hmem
      rcases mem_verified_set hmem with hmem | ⟨-, hphase⟩
      · exact h.verified r head' hmem
      · cases hphase
    have hlater : ∀ r head', (r, Phase.verified head') ∈ s.requests.set i (request, .ended) →
        r.now.1 ∈ request.now.1 :: s.readings ∧ head'.auth.timestamp.toInt ≤ r.now.1 + maxSkewSecs :=
      fun r head' hmem => ⟨List.mem_cons_of_mem _ (hverified r head' hmem).1, (hverified r head' hmem).2⟩
    rcases beginRead_cases s.cache s.budget head request.now.1 gate oversized with
      ⟨e, heq⟩ | ⟨budget, e, heq⟩ | ⟨budget, heq, hnew⟩
    · rw [heq]
      exact ⟨⟨h.cache, h.kept, hverified, h.window⟩, hcredentials⟩
    · rw [heq]
      exact ⟨⟨hok, fun p hp => h.expire _ oversized hp, hlater, h.window⟩, hcredentials⟩
    · rw [heq]
      refine ⟨⟨hok.record hnew _, ?_, hlater, List.forall_mem_cons.2 ⟨hwindow, h.window⟩⟩, ?_⟩
      · obtain ⟨slot, horder⟩ := ReplayCache.record_order (s.cache.expire request.now.1 oversized) head.signer
          head.auth.nonce request.now.1
        dsimp only
        rw [horder]
        refine List.forall_mem_cons.2 ⟨fun _ => ?_, fun p hp hreadings => ?_⟩
        · exact ⟨_, List.mem_append_right _ List.mem_cons_self, rfl, expiresAt_eq request.now⟩
        · obtain ⟨q, hq, hq'⟩ := h.expire request.now.1 oversized hp hreadings
          exact ⟨q, List.mem_append_left _ hq, hq'⟩
      · refine List.nodup_cons.2 ⟨fun hpassed => hnew ?_, hcredentials⟩
        obtain ⟨p, hp, hcredential⟩ := List.mem_map.1 hpassed
        obtain ⟨hsigner, hnonce⟩ := Prod.mk.inj hcredential
        dsimp only at hsigner hnonce
        -- its own reading reached the cache with its check
        have hreadings := hmeets head (by simp [State.mayBegin, hrequest]) p hp hsigner hnonce
        obtain ⟨q, hq, hkey, -⟩ := h.expire request.now.1 oversized hp
          (List.forall_mem_cons.2 ⟨hreadings _ hread, hreadings⟩)
        rw [hok.mem_seen, ← hsigner, ← hnonce]
        exact List.mem_map.2 ⟨q, hq, hkey⟩
  · exact ⟨h, hcredentials⟩

theorem inv_step {cfg : Config} {s : State} (h : Inv s) (hcredentials : s.credentials.Nodup) (op : Op)
    (hmeets : StepMeets s op) : Inv (step (checkHead cfg) s op) ∧ (step (checkHead cfg) s op).credentials.Nodup := by
  cases op with
  | arrive request =>
    rw [step]
    split
    · refine ⟨⟨h.cache, h.kept, fun r head hmem => ?_, h.window⟩, hcredentials⟩
      rcases List.mem_append.1 hmem with hmem | hmem
      · exact h.verified r head hmem
      · cases List.mem_singleton.1 hmem
    · exact ⟨h, hcredentials⟩
  | verify i standing oversized =>
    refine ⟨inv_verify h i standing oversized, ?_⟩
    have hpassed : (step (checkHead cfg) s (.verify i standing oversized)).passed = s.passed := by
      rw [step]
      split <;> rfl
    rw [State.credentials, hpassed]
    exact hcredentials
  | begin i gate oversized => exact inv_begin h hcredentials i gate oversized hmeets

theorem run_inv {cfg : Config} {s : State} (h : Inv s) (hcredentials : s.credentials.Nodup) (ops : List Op)
    (hops : Along (checkHead cfg) s ops) : Inv (run (checkHead cfg) s ops) ∧ (run (checkHead cfg) s ops).credentials.Nodup := by
  induction ops generalizing s with
  | nil => exact ⟨h, hcredentials⟩
  | cons op ops ih =>
    obtain ⟨h', hcredentials'⟩ := inv_step h hcredentials op hops.1
    exact ih h' hcredentials' hops.2

/-- **A credential passes once.** In every run, from an empty cache of any size, of any requests that read a clock which
does not go back, with their steps on the cache in any order: if every read begins in a state where no reading that has
reached the cache is past the retention of an earlier pass of its nonce, then no (signer, nonce) passes twice. -/
theorem credential_passes_once (cfg : Config) (maxTotal maxPerSigner : ℕ) (budget : Budget) (ops : List Op)
    (hops : Along (checkHead cfg) (.init (.new maxTotal maxPerSigner) budget) ops) :
    (run (checkHead cfg) (.init (.new maxTotal maxPerSigner) budget) ops).credentials.Nodup :=
  (run_inv (inv_init (ReplayCache.ok_new maxTotal maxPerSigner) budget) List.nodup_nil ops hops).2

/-- a credential that no reading has found stale is unexpired: it is accepted for a minute after its timestamp, which was
at most a minute ahead when it passed -/
theorem unexpired_of_fresh {s : State} (h : Inv s) {head : VerifiedHead}
    (hsigned : ∀ p ∈ s.passed, p.signer = head.signer → p.nonce = head.auth.nonce →
      p.timestamp = head.auth.timestamp.toInt)
    (hfresh : ∀ t ∈ s.readings, t ≤ head.auth.timestamp.toInt + maxSkewSecs) : Unexpired s head := by
  intro p hp hsigner hnonce t ht
  have hwindow := h.window p hp
  have hstale := hfresh t ht
  rw [← hsigned p hp hsigner hnonce] at hstale
  unfold replayRetentionSecs
  omega

/-! ## Runs with the same checks -/

/-- a step that brings only requests of a list, and checks with one answer on standing -/
def Op.Within (known : List Request) (standing : PeerId → Bool) : Op → Prop
  | .arrive request => request ∈ known
  | .verify _ standing' _ => standing' = standing
  | .begin .. => True

section Congruence

variable {checks checks' : Checks} {known : List Request} {standing : PeerId → Bool}
  (hsame : ∀ request ∈ known, checks request standing = checks' request standing)
include hsame

theorem step_congr {s : State} {op : Op} (hop : op.Within known standing) (hs : ∀ x ∈ s.requests, x.1 ∈ known) :
    step checks s op = step checks' s op ∧ ∀ x ∈ (step checks s op).requests, x.1 ∈ known := by
  cases op with
  | arrive request =>
    refine ⟨rfl, ?_⟩
    rw [step]
    split
    · intro x hx
      rcases List.mem_append.1 hx with hx | hx
      · exact hs x hx
      · rw [List.mem_singleton.1 hx]
        exact hop
    · exact hs
  | verify i standing' oversized =>
    obtain rfl : standing' = standing := hop
    rw [step, step]
    split
    · rename_i request hrequest
      have hknown : request ∈ known := hs _ (List.mem_of_getElem? hrequest)
      refine ⟨by rw [verifyHead, verifyHead, hsame request hknown], fun x hx => ?_⟩
      rcases List.mem_or_eq_of_mem_set hx with hx | rfl
      · exact hs x hx
      · exact hknown
    · exact ⟨rfl, hs⟩
  | begin i gate oversized =>
    refine ⟨rfl, ?_⟩
    rw [step]
    split
    · rename_i request head hrequest
      intro x hx
      rcases List.mem_or_eq_of_mem_set hx with hx | rfl
      · exact hs x hx
      · exact hs (request, .verified head) (List.mem_of_getElem? hrequest)
    · exact hs

/-- checks that agree on the requests of a run give the same run -/
theorem run_congr {s : State} {ops : List Op} (hops : ∀ op ∈ ops, op.Within known standing)
    (hs : ∀ x ∈ s.requests, x.1 ∈ known) :
    run checks s ops = run checks' s ops ∧ (Along checks s ops ↔ Along checks' s ops) := by
  induction ops generalizing s with
  | nil => exact ⟨rfl, Iff.rfl⟩
  | cons op ops ih =>
    obtain ⟨hop, hrest⟩ := List.forall_mem_cons.1 hops
    obtain ⟨hstep, hs'⟩ := step_congr hsame hop hs
    obtain ⟨hrun, halong⟩ := ih hrest hs'
    refine ⟨?_, ?_⟩
    · rw [run, List.foldl_cons, ← run, hrun, run, run, List.foldl_cons, hstep]
    · rw [Along, Along, halong, hstep]

end Congruence

/-! ## A captured header -/

def signerText : String := "12D3KooWC4T1AXU2s2YBgGJ2FeaYVtsKoHZWJeubnWe9SnuSE7Zb"

def signerKey : FixedBytes 32 := .ofHex 32 "2152f8d19b791d24453242e15f2eab6cb7cffa7b6a5ed30097960e069881db12"

/-- the signer's signatures over two requests, as (SHA-256 of the message, signature) -/
def relaySignatures : List (FixedBytes 32 × FixedBytes 64) := [
  (.ofHex 32 "7838ca8ef2e5d9230e05b5134c76d810e4c72a37f63de5126b3978d9d671242a", .ofHex 64
    "ffb8347582f8c5a56b2e43298295fa1065dfd75c5fa3de3fcc8510d2fa0698649de6b7f0e9322067fd46d89082840cbabec2fef747b5ace15dcbcb3f1d997e01"),
  (.ofHex 32 "e1bac81986fcfcb336411fe9f2a235ca23f64de5e29612a6716cebe977dc170d", .ofHex 64
    "79ef8bc79be82bbba2f885cbba796ddc334ccdb795bcdc35e74bf414e31ea7ada745ba085b4aab19624113cb2e633ffeb38099af5255fcfe8fdb295d121fce07")]

/-- node-b of the network, with Ed25519 restricted to these signatures; the peer id of a key is its identity multihash -/
def nodeB : Config where
  ed := {
    verifyingKey _ := signerKey
    sign _ message := (relaySignatures.lookup (Sha256.hash message)).getD (.replicate 64 0)
    verifyStrict _ message signature := relaySignatures.contains (Sha256.hash message, signature) }
  validKey _ := true
  peerIdOfKey key := some ([0, 0x24, 8, 1, 0x12, 0x20] ++ key.toList)
  peerIdText id := if id = [0, 0x24, 8, 1, 0x12, 0x20] ++ signerKey.toList then signerText else ""
  networkId := "avalon-test"
  recipients := ["node-b"]

/-- a request to relay an empty object, with a nonce of one byte repeated -/
def relayAuth (timestamp : Int64) (nonce : UInt8) (signature : FixedBytes 64) : NodeRequestAuth :=
  ⟨signerText, signerKey, timestamp, .replicate 16 nonce,
    .ofHex 32 "44136fa355b3678a1146ad16f7e8649e94fb4fc21fe77e8310c060f61caaff8a", signature⟩

/-- a request that arrives so many seconds after 1790000000 -/
def relayRequest (auth : NodeRequestAuth) (after : ℕ) (h : after < 1000) : Request :=
  ⟨[some (encodeNodeRequestHeader auth)], "POST", "/nodes/relay", ⟨1790000000 + after, by omega⟩⟩

/-- a credential dated a minute ahead -/
def capturedAuth : NodeRequestAuth := relayAuth 1790000060 7 (.ofHex 64
  "ffb8347582f8c5a56b2e43298295fa1065dfd75c5fa3de3fcc8510d2fa0698649de6b7f0e9322067fd46d89082840cbabec2fef747b5ace15dcbcb3f1d997e01")

def otherAuth : NodeRequestAuth := relayAuth 1790000121 8 (.ofHex 64
  "79ef8bc79be82bbba2f885cbba796ddc334ccdb795bcdc35e74bf414e31ea7ada745ba085b4aab19624113cb2e633ffeb38099af5255fcfe8fdb295d121fce07")

/-- the use of the captured header on arrival -/
def firstUse : Request := relayRequest capturedAuth 0 (by decide)

/-- its use two minutes later, in the last second in which it is accepted -/
def lastUse : Request := relayRequest capturedAuth 120 (by decide)

/-- another request of the signer, one second after the last use -/
def otherRequest : Request := relayRequest otherAuth 121 (by decide)

def roomyBudget : Budget := ⟨[], 10, 10⟩

def verifyOp (i : ℕ) : Op := .verify i (fun _ => true) false

def beginOp (i : ℕ) : Op := .begin i (.ok ()) false

/-- what the checks answer on the three requests -/
def relayChecks : Checks := fun request _ =>
  .ok ⟨[0, 0x24, 8, 1, 0x12, 0x20] ++ signerKey.toList, if request.now.1 = 1790000121 then otherAuth else capturedAuth⟩

/-- the header is read by what is known of headers, not by reading it -/
theorem checkHead_relayRequest {cfg : Config} {auth : NodeRequestAuth} {after : ℕ} {h : after < 1000}
    {standing : PeerId → Bool} {head : VerifiedHead} (hpeer : validPeerId auth.peerId = true)
    (htimestamp : 0 ≤ auth.timestamp.toInt)
    (hcheck : checkAuth cfg auth "POST" "/nodes/relay" (1790000000 + after) standing = .ok head) :
    checkHead cfg (relayRequest auth after h) standing = .ok head := by
  unfold checkHead relayRequest
  refine bind_eq_ok.2 ⟨encodeNodeRequestHeader auth, rfl, bind_eq_ok.2 ⟨auth, ?_, hcheck⟩⟩
  rw [parse_eq_ok.2 ⟨rfl, hpeer, htimestamp⟩]
  rfl

theorem checkHead_nodeB : ∀ request ∈ [firstUse, lastUse, otherRequest],
    checkHead nodeB request (fun _ => true) = relayChecks request (fun _ => true) := by
  have hpeer : validPeerId signerText = true := by decide +kernel
  simp only [List.forall_mem_cons]
  refine ⟨checkHead_relayRequest hpeer (by decide) ?_, checkHead_relayRequest hpeer (by decide) ?_,
    checkHead_relayRequest hpeer (by decide) ?_, by simp⟩
  all_goals decide +kernel

/-- without an overtaking request the last use is a replay -/
theorem credential_passes_once_captured :
    let ops := [.arrive firstUse, verifyOp 0, beginOp 0, .arrive lastUse, verifyOp 1, beginOp 1]
    (run (checkHead nodeB) (.init (.new 100 10) roomyBudget) ops).passed.length = 1 ∧
      (run (checkHead nodeB) (.init (.new 100 10) roomyBudget) ops).credentials.Nodup := by
  intro ops
  have hops : ∀ op ∈ ops, op.Within [firstUse, lastUse, otherRequest] fun _ => true := by
    simp [ops, Op.Within, verifyOp, beginOp]
  obtain ⟨hrun, halong⟩ := run_congr checkHead_nodeB hops (s := .init (.new 100 10) roomyBudget) (by simp [State.init])
  have heval : (run relayChecks (.init (.new 100 10) roomyBudget) ops).passed.length = 1 ∧
      Along relayChecks (.init (.new 100 10) roomyBudget) ops := by
    decide +kernel
  exact ⟨by rw [hrun]; exact heval.1, credential_passes_once nodeB 100 10 roomyBudget ops (halong.2 heval.2)⟩

/-- **Overtaken across the second.** The other request, which arrived a second later, runs first and drops the nonce; the
last use of the captured header, accepted by its own reading, passes. -/
theorem overtaken_credential_passes_twice :
    ¬ ∀ (cfg : Config) (maxTotal maxPerSigner : ℕ) (budget : Budget) (ops : List Op),
      (run (checkHead cfg) (.init (.new maxTotal maxPerSigner) budget) ops).credentials.Nodup := by
  intro h
  let ops := [.arrive firstUse, verifyOp 0, beginOp 0, .arrive lastUse, .arrive otherRequest, verifyOp 2, verifyOp 1, beginOp 1]
  have hops : ∀ op ∈ ops, op.Within [firstUse, lastUse, otherRequest] fun _ => true := by
    simp [ops, Op.Within, verifyOp, beginOp]
  obtain ⟨hrun, -⟩ := run_congr checkHead_nodeB hops (s := .init (.new 100 10) roomyBudget) (by simp [State.init])
  have hpassed := h nodeB 100 10 roomyBudget ops
  rw [hrun] at hpassed
  revert hpassed
  decide +kernel

end Avalon.NodeAuth
