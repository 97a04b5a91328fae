/-
Payload retention (`crates/chain/src/retention.rs`, `crates/server/src/retention.rs`, the pruning statements of
`crates/chain/src/postgres.rs`): a hot node drops payloads older than its window, once enough archive peers report that
they have mirrored them.

A pass takes its cutoff, reads the highest prunable seq, asks the archive peers one after the other, and runs the update.
Commits may happen between any two of these steps. `committed_at` is the start of the transaction that inserts the row. A
cutoff that cannot be represented panics, and nothing is pruned.

Results:
- `Pass.Sound`: what a pass knows at each step, and `sound_step` that every step keeps it.
- `pruned_entries_confirmed`: when no archive peer is listed twice, or one confirmation is enough, and no transaction older
  than the window commits between the read of the boundary and the update, every payload lost in any run is older than the
  window and confirmed by the required number of different peers in that pass.
- `one_peer_confirms_twice`: a peer that is listed twice is counted twice.
-/
import Mathlib.Tactic
import Avalon.Core.Json
import Avalon.Chain.Ledger
import Avalon.Chain.Mirror
import Avalon.Protocol.LedgerEntry
import Avalon.Protocol.NodeRequest
import Avalon.Server.OverlayRouting

namespace Avalon.Retention

open Avalon.LedgerEntry Avalon.Ledger Avalon.Mirror OverlayRouting NodeRequest Json

/-! ## Configuration -/

inductive RetentionTier where
  | full
  | hot (windowDays : Int64)
deriving DecidableEq, Repr

/-- nanoseconds of a day -/
def day : ℤ := 86400 * 1000000000

/-- `none` also where the subtraction panics -/
def RetentionTier.cutoff (tier : RetentionTier) (now : OffsetDateTime) : Option OffsetDateTime :=
  match tier with
  | .full => none
  | .hot windowDays => OffsetDateTime.fromUnixTimestampNanos (now - windowDays.toInt * day)

structure RetentionConfig where
  tier : RetentionTier
  pruningEnabled : Bool
  archivePeers : List String
  minArchiveConfirmations : ℕ
deriving DecidableEq, Repr

namespace RetentionConfig

def requiresArchiveConfirmation (config : RetentionConfig) : Bool :=
  !config.archivePeers.isEmpty && decide (config.minArchiveConfirmations > 0)

def shouldPrune (config : RetentionConfig) : Bool :=
  (match config.tier with
    | .hot _ => true
    | .full => false) && config.pruningEnabled

def pruneCutoff (config : RetentionConfig) (now : OffsetDateTime) : Option OffsetDateTime :=
  if !config.shouldPrune then none else config.tier.cutoff now

end RetentionConfig

inductive RetentionConfigError where
  | missingHotWindow
  | invalidHotWindow (raw : String)
  | unknownTier (raw : String)
  | invalidPruningFlag (raw : String)
  | invalidMinArchiveConfirmations (raw : String)
deriving DecidableEq, Repr

/-- `str::parse` for usize: an optional plus, then digits -/
def parseUsize (cs : List Char) : Option ℕ :=
  let digits := match cs with
    | '+' :: digits => digits
    | digits => digits
  if IsDigits digits ∧ digitsValue digits < 2 ^ 64 then some (digitsValue digits) else none

def trimStr (s : String) : String := String.ofList (trim s.toList)

def readTier (tierVar windowVar : Option String) : Except RetentionConfigError RetentionTier :=
  match tierVar.map trimStr with
  | none | some "" | some "full" => .ok .full
  | some "hot" =>
    match windowVar with
    | none => .error .missingHotWindow
    | some raw =>
      match parseI64 (trim raw.toList) with
      | none => .error (.invalidHotWindow raw)
      | some windowDays => if windowDays ≤ 0 then .error (.invalidHotWindow raw) else .ok (.hot windowDays)
  | some other => .error (.unknownTier other)

def readPruningFlag (pruningVar : Option String) : Except RetentionConfigError Bool :=
  match pruningVar.map trimStr with
  | none | some "" => .ok false
  | some "true" | some "1" => .ok true
  | some "false" | some "0" => .ok false
  | some other => .error (.invalidPruningFlag other)

/-- repetitions stay -/
def readArchivePeers (archivePeersVar : Option String) : List String :=
  (((archivePeersVar.getD "").toList.splitOn ',').map fun cs =>
    String.ofList (trimEndMatches (· == '/') (trim cs))).filter (· ≠ "")

def readMinConfirmations (archivePeers : List String) (minVar : Option String) : Except RetentionConfigError ℕ :=
  if archivePeers.isEmpty then .ok 0
  else
    match minVar.map trimStr with
    | none | some "" => .ok 1
    | some raw =>
      match parseUsize raw.toList with
      | none => .error (.invalidMinArchiveConfirmations raw)
      | some n => .ok n

def fromVars (tierVar windowVar pruningVar archivePeersVar minVar : Option String) :
    Except RetentionConfigError RetentionConfig := do
  let tier ← readTier tierVar windowVar
  let pruningEnabled ← readPruningFlag pruningVar
  let archivePeers := readArchivePeers archivePeersVar
  let minArchiveConfirmations ← readMinConfirmations archivePeers minVar
  return ⟨tier, pruningEnabled, archivePeers, minArchiveConfirmations⟩

example : fromVars (some "hot") (some "30") (some "true") (some "http://a.example, http://a.example/") (some "2") =
    .ok ⟨.hot 30, true, ["http://a.example", "http://a.example"], 2⟩ := by
  decide +kernel

/-! ## The statements -/

/-- a row of the ledger with its pruning column; the time columns hold whole microseconds -/
structure StoredEntry (P : Type) extends LedgerEntryRow P where
  payloadPrunedAt : Option OffsetDateTime
  whole : 1000 ∣ committedAt

variable {P : Type}

/-- committed_at < $1 AND payload_pruned_at IS NULL -/
def StoredEntry.Prunable (e : StoredEntry P) (cutoff : OffsetDateTime) : Prop :=
  e.committedAt < timestamptz cutoff ∧ e.payloadPrunedAt = none

instance (e : StoredEntry P) (cutoff : OffsetDateTime) : Decidable (e.Prunable cutoff) :=
  inferInstanceAs (Decidable (_ ∧ _))

/-- SELECT MAX(seq) over the prunable rows -/
def maxSeqBefore (ledger : List (StoredEntry P)) (cutoff : OffsetDateTime) : Option ℤ :=
  ((ledger.filter fun e => decide (e.Prunable cutoff)).map fun e => e.seq).max?

/-- UPDATE .. SET payload = NULL, payload_pruned_at = now() on the prunable rows -/
def prunePayloadsOlderThan (ledger : List (StoredEntry P)) (cutoff dbNow : OffsetDateTime) : List (StoredEntry P) :=
  ledger.map fun e => if e.Prunable cutoff then { e with payload := none, payloadPrunedAt := some dbNow } else e

/-! ## A pass among commits -/

/-- how a peer answers GET /ledger/mirror-progress: not at all, or with a status and a body that may not parse -/
inductive Answer where
  | unreachable
  | response (success : Bool) (lastSeq : Option ℤ)

def Answer.reported : Answer → Option ℤ
  | .response true lastSeq => lastSeq
  | _ => none

def peerConfirmsCoverage (answer : Answer) (boundarySeq : ℤ) : Bool :=
  answer.reported.any fun lastSeq => decide (lastSeq ≥ boundarySeq)

/-- where the worker is: between passes, about to read the boundary, asking the remaining peers, about to prune -/
inductive Phase where
  | idle
  | started (cutoff : OffsetDateTime)
  | asking (cutoff : OffsetDateTime) (boundarySeq : ℤ) (remaining : List String) (confirmations : ℕ)
  | confirmed (cutoff : OffsetDateTime)

structure Node (P : Type) where
  ledger : List (StoredEntry P)
  phase : Phase
  /-- when the running pass took its cutoff -/
  now : OffsetDateTime
  /-- what the peers have reported in the running pass -/
  reports : List (String × ℤ)

inductive Action (P : Type) where
  | commit (rows : List (StoredEntry P))
  | start (now : OffsetDateTime)
  | readBoundary
  | answer (a : Answer)
  | prune (dbNow : OffsetDateTime)
  /-- a statement fails, and the pass ends -/
  | fail

/-- the loop over the archive peers, after one more answer -/
def afterAnswer (config : RetentionConfig) (cutoff : OffsetDateTime) (boundarySeq : ℤ) (rest : List String)
    (confirmations : ℕ) (a : Answer) : Phase :=
  let confirmations := if peerConfirmsCoverage a boundarySeq then confirmations + 1 else confirmations
  if peerConfirmsCoverage a boundarySeq ∧ confirmations ≥ config.minArchiveConfirmations then .confirmed cutoff
  else if rest.isEmpty then .idle
  else .asking cutoff boundarySeq rest confirmations

/-- `prune_once`, one statement or query at a time -/
def step (config : RetentionConfig) (s : Node P) : Action P → Option (Node P)
  | .commit rows => some { s with ledger := s.ledger ++ rows }
  | .start now =>
    match s.phase, config.pruneCutoff now with
    | .idle, some cutoff =>
      let phase := if config.requiresArchiveConfirmation then .started cutoff else .confirmed cutoff
      some { s with phase := phase, now := now, reports := [] }
    | .idle, none => some s
    | _, _ => none
  | .readBoundary =>
    match s.phase with
    | .started cutoff =>
      match maxSeqBefore s.ledger cutoff with
      | none => some { s with phase := .idle }
      | some boundarySeq => some { s with phase := .asking cutoff boundarySeq config.archivePeers 0 }
    | _ => none
  | .answer a =>
    match s.phase with
    | .asking cutoff boundarySeq (peer :: rest) confirmations =>
      some { s with
        phase := afterAnswer config cutoff boundarySeq rest confirmations a
        reports := s.reports ++ (a.reported.map fun lastSeq => (peer, lastSeq)).toList }
    | _ => none
  | .prune dbNow =>
    match s.phase with
    | .confirmed cutoff => some { s with ledger := prunePayloadsOlderThan s.ledger cutoff dbNow, phase := .idle }
    | _ => none
  | .fail =>
    match s.phase with
    | .idle => none
    | _ => some { s with phase := .idle }

def run (config : RetentionConfig) (s : Node P) (actions : List (Action P)) : Option (Node P) :=
  actions.foldlM (step config) s

def Node.init (ledger : List (StoredEntry P)) : Node P := ⟨ledger, .idle, 0, []⟩

/-! ## What a pass knows -/

/-- a peer that is listed twice cannot be counted twice -/
def DistinctPeers (config : RetentionConfig) : Prop :=
  config.archivePeers.Nodup ∨ config.minArchiveConfirmations ≤ 1 ∨
    config.archivePeers.length < config.minArchiveConfirmations

/-- no transaction older than the window commits between the read of the boundary and the update -/
def Timely (s : Node P) : Action P → Prop
  | .commit rows =>
    match s.phase with
    | .asking cutoff _ _ _ | .confirmed cutoff => ∀ row ∈ rows, cutoff ≤ row.committedAt
    | _ => True
  | _ => True

/-- every step of the run is timely -/
def TimelyRun (config : RetentionConfig) (s : Node P) (actions : List (Action P)) : Prop :=
  ∀ before a after, actions = before ++ a :: after → ∀ s', run config s before = some s' → Timely s' a

/-- the required number of different peers reported the seq in the running pass -/
def Confirmed (config : RetentionConfig) (reports : List (String × ℤ)) (seq : ℤ) : Prop :=
  ∃ peers : List String, peers.Nodup ∧ config.minArchiveConfirmations ≤ peers.length ∧
    ∀ peer ∈ peers, peer ∈ config.archivePeers ∧ ∃ lastSeq, (peer, lastSeq) ∈ reports ∧ seq ≤ lastSeq

/-- the peers that confirmed the boundary so far, in the order they were asked -/
structure Asked (config : RetentionConfig) (reports : List (String × ℤ)) (boundarySeq : ℤ) (remaining : List String)
    (confirming : List String) : Prop where
  sublist : ∃ asked, config.archivePeers = asked ++ remaining ∧ confirming.Sublist asked
  reported : ∀ peer ∈ confirming, ∃ lastSeq, (peer, lastSeq) ∈ reports ∧ boundarySeq ≤ lastSeq

/-- what holds while a pass runs -/
def Sound (config : RetentionConfig) (s : Node P) : Prop :=
  match s.phase with
  | .idle => True
  | .started cutoff => config.pruneCutoff s.now = some cutoff
  | .asking cutoff boundarySeq remaining confirmations =>
    config.pruneCutoff s.now = some cutoff ∧ (∀ e ∈ s.ledger, e.Prunable cutoff → e.seq ≤ boundarySeq) ∧
      ∃ confirming, Asked config s.reports boundarySeq remaining confirming ∧ confirming.length = confirmations
  | .confirmed cutoff =>
    config.pruneCutoff s.now = some cutoff ∧ ∀ e ∈ s.ledger, e.Prunable cutoff → Confirmed config s.reports e.seq

theorem mul_lt_of_lt_tdiv {m d : ℤ} (h : m < d.tdiv 1000) : 1000 * m < d := by
  rcases le_total 0 d with hd | hd
  · rw [Int.tdiv_eq_ediv_of_nonneg hd] at h
    omega
  · have hneg : d.tdiv 1000 = -(-d / 1000) := by
      rw [← Int.tdiv_eq_ediv_of_nonneg (by omega), Int.neg_tdiv, neg_neg]
    omega

/-- cutting the cutoff to microseconds moves no whole microsecond under it -/
theorem lt_of_lt_timestamptz {t cutoff : OffsetDateTime} (hwhole : 1000 ∣ t) (h : t < timestamptz cutoff) : t < cutoff := by
  obtain ⟨m, rfl⟩ := hwhole
  have hm : m - 946684800 * 1000000 < (cutoff - pgEpoch).tdiv 1000 := by
    rw [timestamptz, pgEpoch] at h
    rw [pgEpoch]
    linarith
  have hlt := mul_lt_of_lt_tdiv hm
  rw [pgEpoch] at hlt
  linarith

theorem le_maxSeqBefore {ledger : List (StoredEntry P)} {cutoff : OffsetDateTime} {boundarySeq : ℤ}
    (h : maxSeqBefore ledger cutoff = some boundarySeq) {e : StoredEntry P} (he : e ∈ ledger) (hp : e.Prunable cutoff) :
    e.seq ≤ boundarySeq := by
  have hmem : e.seq ∈ (ledger.filter fun e => decide (e.Prunable cutoff)).map fun e => e.seq :=
    List.mem_map.2 ⟨e, List.mem_filter.2 ⟨he, by simpa using hp⟩, rfl⟩
  exact (List.max?_eq_some_iff.1 h).2 _ hmem

/-- the confirming peers are different, whenever they are enough -/
theorem Asked.confirmed {config : RetentionConfig} {reports : List (String × ℤ)} {boundarySeq seq : ℤ}
    {remaining confirming : List String} (h : Asked config reports boundarySeq remaining confirming)
    (hdistinct : DistinctPeers config) (hk : 1 ≤ config.minArchiveConfirmations)
    (henough : config.minArchiveConfirmations ≤ confirming.length) (hseq : seq ≤ boundarySeq) :
    Confirmed config reports seq := by
  obtain ⟨asked, hpeers, hsub⟩ := h.sublist
  have hsub : confirming.Sublist config.archivePeers := hpeers ▸ hsub.trans (List.sublist_append_left _ _)
  have hmem : ∀ peer ∈ confirming, peer ∈ config.archivePeers ∧ ∃ lastSeq, (peer, lastSeq) ∈ reports ∧ seq ≤ lastSeq := by
    intro peer hpeer
    obtain ⟨lastSeq, hreport, hlast⟩ := h.reported peer hpeer
    exact ⟨hsub.subset hpeer, lastSeq, hreport, hseq.trans hlast⟩
  rcases hdistinct with hnodup | hone | hmany
  · exact ⟨confirming, hsub.nodup hnodup, henough, hmem⟩
  · -- one confirmation is required: the first confirming peer is enough
    obtain ⟨peer, hpeer⟩ := List.exists_mem_of_length_pos (by omega : 0 < confirming.length)
    exact ⟨[peer], by simp, by simpa using hone, by simpa using hmem peer hpeer⟩
  · have := hsub.length_le
    omega

theorem Asked.skip {config : RetentionConfig} {reports : List (String × ℤ)} {boundarySeq : ℤ} {peer : String}
    {rest confirming : List String} (h : Asked config reports boundarySeq (peer :: rest) confirming)
    (more : List (String × ℤ)) : Asked config (reports ++ more) boundarySeq rest confirming := by
  obtain ⟨asked, hpeers, hsub⟩ := h.sublist
  refine ⟨⟨asked ++ [peer], by simp [hpeers], hsub.trans (List.sublist_append_left _ _)⟩, ?_⟩
  intro p hp
  obtain ⟨lastSeq, hreport, hlast⟩ := h.reported p hp
  exact ⟨lastSeq, List.mem_append_left _ hreport, hlast⟩

theorem Asked.take {config : RetentionConfig} {reports : List (String × ℤ)} {boundarySeq lastSeq : ℤ} {peer : String}
    {rest confirming : List String} (h : Asked config reports boundarySeq (peer :: rest) confirming)
    (hlast : boundarySeq ≤ lastSeq) :
    Asked config (reports ++ [(peer, lastSeq)]) boundarySeq rest (confirming ++ [peer]) := by
  obtain ⟨asked, hpeers, hsub⟩ := h.sublist
  refine ⟨⟨asked ++ [peer], by simp [hpeers], hsub.append (List.Sublist.refl _)⟩, ?_⟩
  intro p hp
  rcases List.mem_append.1 hp with hp | hp
  · exact (h.skip [(peer, lastSeq)]).reported p hp
  · obtain rfl := List.mem_singleton.1 hp
    exact ⟨lastSeq, by simp, hlast⟩

theorem peerConfirmsCoverage_iff {a : Answer} {boundarySeq : ℤ} :
    peerConfirmsCoverage a boundarySeq = true ↔ ∃ lastSeq, a.reported = some lastSeq ∧ boundarySeq ≤ lastSeq := by
  cases h : a.reported <;> simp [peerConfirmsCoverage, h]

/-! ## Steps and runs -/

section Runs

variable {config : RetentionConfig}

/-- rows of a timely commit are not prunable -/
theorem not_prunable_of_le {e : StoredEntry P} {cutoff : OffsetDateTime} (h : cutoff ≤ e.committedAt) :
    ¬ e.Prunable cutoff := fun hp => absurd (lt_of_lt_timestamptz e.whole hp.1) (not_lt.2 h)

theorem sound_commit {s : Node P} {rows : List (StoredEntry P)} (hs : Sound config s) (htimely : Timely s (.commit rows)) :
    Sound config { s with ledger := s.ledger ++ rows } := by
  obtain ⟨ledger, phase, now, reports⟩ := s
  cases phase with
  | idle => trivial
  | started cutoff => exact hs
  | asking cutoff boundarySeq remaining confirmations =>
    obtain ⟨hcutoff, hboundary, hasked⟩ := hs
    refine ⟨hcutoff, fun e he hp => ?_, hasked⟩
    rcases List.mem_append.1 he with he | he
    · exact hboundary e he hp
    · exact absurd hp (not_prunable_of_le (htimely e he))
  | confirmed cutoff =>
    obtain ⟨hcutoff, hconfirmed⟩ := hs
    refine ⟨hcutoff, fun e he hp => ?_⟩
    rcases List.mem_append.1 he with he | he
    · exact hconfirmed e he hp
    · exact absurd hp (not_prunable_of_le (htimely e he))

theorem sound_start (hrequired : config.requiresArchiveConfirmation = true) {s s' : Node P} {now : OffsetDateTime}
    (hs : Sound config s) (h : step config s (.start now) = some s') : Sound config s' := by
  obtain ⟨ledger, phase, now₀, reports⟩ := s
  simp only [step] at h
  split at h
  · rename_i hphase hcutoff
    cases h
    simpa only [Sound, hrequired, if_true] using hcutoff
  · cases h
    exact hs
  · cases h

theorem sound_readBoundary {s s' : Node P} (hs : Sound config s) (h : step config s .readBoundary = some s') :
    Sound config s' := by
  obtain ⟨ledger, phase, now, reports⟩ := s
  cases phase with
  | started cutoff =>
    simp only [step] at h
    split at h
    · cases h
      trivial
    · rename_i boundarySeq hmax
      cases h
      refine ⟨hs, fun e he hp => le_maxSeqBefore hmax he hp, [], ⟨⟨[], rfl, List.Sublist.refl _⟩, ?_⟩, rfl⟩
      intro peer hpeer
      cases hpeer
  | idle => cases h
  | asking => cases h
  | confirmed => cases h

theorem sound_answer (hdistinct : DistinctPeers config) (hk : 1 ≤ config.minArchiveConfirmations) {s s' : Node P}
    {a : Answer} (hs : Sound config s) (h : step config s (.answer a) = some s') : Sound config s' := by
  obtain ⟨ledger, phase, now, reports⟩ := s
  simp only [step] at h
  split at h
  · rename_i cutoff boundarySeq peer rest confirmations
    obtain ⟨hcutoff, hboundary, confirming, hasked, rfl⟩ := hs
    cases h
    by_cases hconfirms : peerConfirmsCoverage a boundarySeq = true
    · obtain ⟨lastSeq, hreported, hlast⟩ := peerConfirmsCoverage_iff.1 hconfirms
      have htaken := hasked.take hlast
      simp only [afterAnswer, hconfirms, if_true, true_and, hreported, Option.map_some, Option.toList_some]
      split_ifs with henough hrest
      · refine ⟨hcutoff, fun e he hp => ?_⟩
        exact htaken.confirmed hdistinct hk (by simpa using henough) (hboundary e he hp)
      · trivial
      · exact ⟨hcutoff, hboundary, _, htaken, by simp⟩
    · simp only [afterAnswer, hconfirms, Bool.false_eq_true, if_false, false_and]
      split_ifs with hrest
      · trivial
      · exact ⟨hcutoff, hboundary, confirming, hasked.skip _, rfl⟩
  · cases h

/-- **Every timely step keeps what a pass knows** -/
theorem sound_step (hdistinct : DistinctPeers config) (hpeers : config.archivePeers ≠ [])
    (hk : 1 ≤ config.minArchiveConfirmations) {s s' : Node P} {a : Action P} (hs : Sound config s) (htimely : Timely s a)
    (h : step config s a = some s') : Sound config s' := by
  cases a with
  | commit rows =>
    cases h
    exact sound_commit hs htimely
  | start now =>
    refine sound_start ?_ hs h
    simp only [RetentionConfig.requiresArchiveConfirmation, Bool.and_eq_true, Bool.not_eq_true', List.isEmpty_eq_false_iff,
      decide_eq_true_eq]
    exact ⟨hpeers, hk⟩
  | readBoundary => exact sound_readBoundary hs h
  | answer a => exact sound_answer hdistinct hk hs h
  | prune dbNow =>
    simp only [step] at h
    split at h
    · cases h
      trivial
    · cases h
  | fail =>
    simp only [step] at h
    split at h
    · cases h
    · cases h
      trivial

theorem sound_run (hdistinct : DistinctPeers config) (hpeers : config.archivePeers ≠ [])
    (hk : 1 ≤ config.minArchiveConfirmations) {s s' : Node P} {actions : List (Action P)} (hs : Sound config s)
    (htimely : TimelyRun config s actions) (h : run config s actions = some s') : Sound config s' := by
  induction actions using List.reverseRecOn generalizing s' with
  | nil =>
    cases h
    exact hs
  | append_singleton actions a ih =>
    simp only [run, List.foldlM_append, List.foldlM_cons, List.foldlM_nil, bind_pure] at h
    obtain ⟨s₁, hrun, hstep⟩ := Option.bind_eq_some_iff.1 h
    refine sound_step hdistinct hpeers hk (ih ?_ hrun) (htimely actions a [] rfl s₁ hrun) hstep
    intro before b after hactions
    exact htimely before b (after ++ [a]) (by simp [hactions])

/-! ## What is lost -/

/-- all columns but the payload and its pruning time are equal -/
def SameColumns (e e' : StoredEntry P) : Prop :=
  { e' with payload := e.payload, payloadPrunedAt := e.payloadPrunedAt } = e

/-- older than the window when the pass began, and confirmed in that pass -/
structure MayLose (config : RetentionConfig) (s : Node P) (e : StoredEntry P) : Prop where
  old : ∃ windowDays, config.tier = .hot windowDays ∧ e.committedAt < s.now - windowDays.toInt * day
  confirmed : Confirmed config s.reports e.seq

/-- a row keeps its place and its other columns, and it loses its payload only in the update of a confirmed pass -/
theorem step_row {s s' : Node P} {a : Action P} (h : step config s a = some s') {i : ℕ} {e : StoredEntry P}
    (hi : s.ledger[i]? = some e) :
    ∃ e', s'.ledger[i]? = some e' ∧ SameColumns e e' ∧
      (e' = e ∨ ∃ cutoff, s.phase = .confirmed cutoff ∧ e.Prunable cutoff) := by
  have kept : s'.ledger = s.ledger → ∃ e', s'.ledger[i]? = some e' ∧ SameColumns e e' ∧
      (e' = e ∨ ∃ cutoff, s.phase = .confirmed cutoff ∧ e.Prunable cutoff) :=
    fun hledger => ⟨e, hledger ▸ hi, rfl, Or.inl rfl⟩
  cases a with
  | commit rows =>
    cases h
    have hlt := (List.getElem?_eq_some_iff.1 hi).1
    exact ⟨e, by simp [List.getElem?_append_left hlt, hi], rfl, Or.inl rfl⟩
  | start now =>
    simp only [step] at h
    split at h <;> cases h <;> exact kept rfl
  | readBoundary =>
    simp only [step] at h
    split at h
    · split at h <;> cases h <;> exact kept rfl
    · cases h
  | answer a =>
    simp only [step] at h
    split at h <;> cases h
    exact kept rfl
  | prune dbNow =>
    simp only [step] at h
    split at h
    · rename_i cutoff hphase
      cases h
      have hget : (prunePayloadsOlderThan s.ledger cutoff dbNow)[i]? =
          some (if e.Prunable cutoff then { e with payload := none, payloadPrunedAt := some dbNow } else e) := by
        rw [prunePayloadsOlderThan, List.getElem?_map, hi]
        rfl
      refine ⟨_, hget, ?_⟩
      split_ifs with hp
      · exact ⟨rfl, Or.inr ⟨cutoff, hphase, hp⟩⟩
      · exact ⟨rfl, Or.inl rfl⟩
    · cases h
  | fail =>
    simp only [step] at h
    split at h <;> cases h
    exact kept rfl

theorem old_of_prunable {now cutoff : OffsetDateTime} (hcutoff : config.pruneCutoff now = some cutoff) {e : StoredEntry P}
    (hp : e.Prunable cutoff) :
    ∃ windowDays, config.tier = .hot windowDays ∧ e.committedAt < now - windowDays.toInt * day := by
  have hlt := lt_of_lt_timestamptz e.whole hp.1
  simp only [RetentionConfig.pruneCutoff] at hcutoff
  split_ifs at hcutoff
  cases htier : config.tier with
  | full =>
    rw [htier] at hcutoff
    cases hcutoff
  | hot windowDays =>
    simp only [htier, RetentionTier.cutoff, OffsetDateTime.fromUnixTimestampNanos] at hcutoff
    split_ifs at hcutoff
    cases hcutoff
    exact ⟨windowDays, rfl, hlt⟩

/-- **Pruning never outruns its confirmations.** Where no archive peer is listed twice (or one confirmation is enough, or
more are required than peers are listed), in every run in which no transaction older than the window commits between the
read of a boundary and its update: each row keeps its place and all columns but the payload and its pruning time, and it
loses a payload only when it is older than the window and the required number of different archive peers has reported its
seq in the running pass. -/
theorem pruned_entries_confirmed (hdistinct : DistinctPeers config) (hpeers : config.archivePeers ≠ [])
    (hk : 1 ≤ config.minArchiveConfirmations) {ledger : List (StoredEntry P)} {actions : List (Action P)} {s s' : Node P}
    {a : Action P} (hrun : run config (Node.init ledger) actions = some s)
    (htimely : TimelyRun config (Node.init ledger) actions) (hstep : step config s a = some s') {i : ℕ}
    {e : StoredEntry P} (hi : s.ledger[i]? = some e) :
    ∃ e', s'.ledger[i]? = some e' ∧ SameColumns e e' ∧ (e.payload ≠ none → e'.payload = none → MayLose config s e) := by
  have hsound : Sound config s := sound_run hdistinct hpeers hk (s := Node.init ledger) trivial htimely hrun
  obtain ⟨e', hi', hsame, hchange⟩ := step_row hstep hi
  refine ⟨e', hi', hsame, fun hpayload hlost => ?_⟩
  rcases hchange with rfl | ⟨cutoff, hphase, hp⟩
  · exact absurd hlost hpayload
  · simp only [Sound, hphase] at hsound
    obtain ⟨hcutoff, hconfirmed⟩ := hsound
    exact ⟨old_of_prunable hcutoff hp, hconfirmed e (List.mem_of_getElem? hi) hp⟩

end Runs

/-! ## A peer that is listed twice -/

/-- the row of an entry, with nothing in the columns that pruning does not read -/
def entryRow (seq committedAt : ℤ) (h : 1000 ∣ committedAt) : StoredEntry Unit where
  seq := seq
  eventId := FixedBytes.replicate 16 0
  kind := "profile.updated"
  issuer := "identity:ada:self:profile"
  subject := "identity:ada"
  payload := some ()
  payloadHash := ""
  eventTimestamp := committedAt
  version := 1
  prevHash := ""
  entryHash := ""
  batchId := FixedBytes.replicate 16 0
  committedAt := committedAt
  envelope := ⟨1, 1, 1, []⟩
  payloadPrunedAt := none
  whole := h

/-- one entry, committed at the epoch -/
def oneEntry : List (StoredEntry Unit) := [entryRow 7 0 (by decide)]

/-- two archive peers, and both must confirm -/
def twoPeers (first second : String) : RetentionConfig := ⟨.hot 30, true, [first, second], 2⟩

/-- a pass a hundred days later, in which every query is answered with the seq of the entry -/
def answeredPass : List (Action Unit) :=
  [.start (100 * day), .readBoundary, .answer (.response true (some 7)), .answer (.response true (some 7))]

/-- the pass right before the update -/
def answeredNode (first second : String) : Node Unit :=
  ⟨oneEntry, .confirmed (70 * day), 100 * day, [(first, 7), (second, 7)]⟩

theorem run_answeredPass (first second : String) :
    run (twoPeers first second) (Node.init oneEntry) answeredPass = some (answeredNode first second) := rfl

theorem timely_answeredPass (first second : String) :
    TimelyRun (twoPeers first second) (Node.init oneEntry) answeredPass := by
  intro before a after hactions s' _
  have hmem : a ∈ answeredPass := by simp [hactions]
  cases a with
  | commit rows => simp [answeredPass] at hmem
  | _ => trivial

/-- two different peers report the entry, and it loses its payload -/
theorem two_peers_confirm :
    ∃ e', (prunePayloadsOlderThan oneEntry (70 * day) 0)[0]? = some e' ∧ SameColumns (entryRow 7 0 (by decide)) e' ∧
      (some () ≠ none → e'.payload = none →
        MayLose (twoPeers "http://a.example" "http://b.example") (answeredNode "http://a.example" "http://b.example")
          (entryRow 7 0 (by decide))) := by
  have hdistinct : DistinctPeers (twoPeers "http://a.example" "http://b.example") := Or.inl (by decide)
  have hstep : step (twoPeers "http://a.example" "http://b.example") (answeredNode "http://a.example" "http://b.example")
      (.prune 0) = some { answeredNode "http://a.example" "http://b.example" with
        ledger := prunePayloadsOlderThan oneEntry (70 * day) 0, phase := .idle } := rfl
  have hi : (answeredNode "http://a.example" "http://b.example").ledger[0]? = some (entryRow 7 0 (by decide)) := rfl
  exact pruned_entries_confirmed hdistinct (by decide) (by decide) (run_answeredPass _ _) (timely_answeredPass _ _) hstep hi

/-- **A peer that is listed twice is counted twice**: the payload is lost, and only one peer has reported the entry -/
theorem one_peer_confirms_twice :
    fromVars (some "hot") (some "30") (some "true") (some "http://a.example, http://a.example/") (some "2") =
      .ok (twoPeers "http://a.example" "http://a.example") ∧
    ∃ s s' e e', run (twoPeers "http://a.example" "http://a.example") (Node.init oneEntry) answeredPass = some s ∧
      step (twoPeers "http://a.example" "http://a.example") s (.prune 0) = some s' ∧
      s.ledger[0]? = some e ∧ s'.ledger[0]? = some e' ∧ e.payload ≠ none ∧ e'.payload = none ∧
      ¬ Confirmed (twoPeers "http://a.example" "http://a.example") s.reports e.seq := by
  refine ⟨by decide +kernel, _, _, _, _, run_answeredPass _ _, rfl, rfl, rfl, by decide, by decide, ?_⟩
  rintro ⟨peers, hnodup, hcount, hpeers⟩
  have hsub : peers ⊆ ["http://a.example"] := by
    intro peer hpeer
    simpa [twoPeers] using (hpeers peer hpeer).1
  have hlength := (hnodup.subperm hsub).length_le
  exact absurd (hcount.trans hlength) (by decide)

end Avalon.Retention
