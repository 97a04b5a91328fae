/-
The cosigning decision of a witness (`crates/server/src/witness_cosign.rs`: `decide`, `cosign_and_record`,
`ensure_own_cosignature_stored`; `crates/chain/src/mirror.rs`: `record_witness_checkpoint`).

Any number of runs of `decide` interleave, each database statement atomic. A run can stop for good between any two
statements, a statement can fail, and it can take effect and its answer get lost. Heads, proofs, times and the equivocation
flag of the head gossip are arbitrary. `signed` holds every cosignature made, stored or not.

`record_witness_checkpoint` moves the checkpoint only forward and reports success also when it moved nothing, so a run that
judged its head against an older checkpoint goes on to sign it.

Results:
- `step_inv`: what a step keeps, when a record step finds the checkpoint that its run read, with that head signed, or finds
  the run's own head (`recordOk`).
- `cosigned_heads_consistent`: in every run of such steps no two roots are signed at one size, and of two signed heads the
  larger one is reached from the smaller by accepted consistency proofs that start at signed heads.
- `two_bootstraps_cosign_two_roots`: two runs that both find no checkpoint sign two roots at one size.
-/
import Mathlib.Tactic
import Mathlib.Logic.Relation
import Avalon.Core.Bytes
import Avalon.Core.Sha256
import Avalon.Core.Fallible
import Avalon.Protocol.SigningBytes
import Avalon.Protocol.LedgerEntry
import Avalon.Protocol.Sth
import Avalon.Protocol.Witness
import Avalon.Protocol.CosignedSth
import Avalon.Chain.Merkle
import Avalon.Chain.Ledger
import Avalon.Chain.WitnessStore

namespace Avalon.WitnessCosign

open Avalon.SigningBytes Avalon.LedgerEntry Avalon.Sth Avalon.Witness Avalon.CosignedSth Avalon.Merkle Avalon.Ledger
open Avalon.WitnessStore Fallible

/-! ## Checkpoints and proofs -/

structure WitnessCheckpoint where
  treeSize : Int64
  rootHash : String
  witnessKeyId : String
deriving DecidableEq

inductive CheckpointDecision where
  | bootstrap
  | alreadyCosigned
  | conflictingRootAtSameSize
  | notForward
  | needsConsistencyProof (checkpoint : WitnessCheckpoint)
deriving DecidableEq

def classifyAgainstCheckpoint (checkpoint : Option WitnessCheckpoint) (treeSize : Int64) (rootHash : String) :
    CheckpointDecision :=
  match checkpoint with
  | none => .bootstrap
  | some checkpoint =>
    if treeSize = checkpoint.treeSize then
      if checkpoint.rootHash = rootHash then .alreadyCosigned else .conflictingRootAtSameSize
    else if treeSize < checkpoint.treeSize then .notForward
    else .needsConsistencyProof checkpoint

inductive CosignOutcome where
  | disabled
  | noHead
  | equivocating
  | cosigned
  | alreadyCosigned
  | conflictingRoot
  | notForward
  | consistencyFailed
  | storageError
deriving DecidableEq, Repr

structure ConsistencyProofDto where
  firstRootHash : String
  secondRootHash : String
  proof : List String

def decodeRoot (hexValue : String) : Option Hash := (hexDecode hexValue).bind (FixedBytes.ofList? 32)

def decodeProofNodes (hexNodes : List String) : Option (List Hash) := hexNodes.mapM decodeRoot

/-- an i64 as usize -/
def asUsize (size : Int64) : ℕ := size.toBitVec.toNat

/-- what the proof source answers; a request that fails, or an answer that is none, is `none` -/
inductive ProofAnswer where
  | peer (dto : Option ConsistencyProofDto)
  | ownLedger (proof : Option (List Hash))

def proofExtendsCheckpoint (algo : HashAlgo) (checkpoint : WitnessCheckpoint) (treeSize : Int64) (rootHash : String)
    (proof : List Hash) : Bool :=
  match decodeRoot checkpoint.rootHash, decodeRoot rootHash with
  | some oldRoot, some newRoot =>
    verifyConsistencyProof algo (asUsize checkpoint.treeSize) (asUsize treeSize) proof oldRoot newRoot
  | _, _ => false

/-- a peer must name the two roots this node holds -/
def verifyConsistencyExtendsCheckpoint (algo : HashAlgo) (checkpoint : WitnessCheckpoint) (treeSize : Int64)
    (rootHash : String) (dto : ConsistencyProofDto) : Bool :=
  if dto.firstRootHash ≠ checkpoint.rootHash ∨ dto.secondRootHash ≠ rootHash then false
  else
    match decodeRoot dto.firstRootHash, decodeRoot dto.secondRootHash, decodeProofNodes dto.proof with
    | some oldRoot, some newRoot, some proof =>
      verifyConsistencyProof algo (asUsize checkpoint.treeSize) (asUsize treeSize) proof oldRoot newRoot
    | _, _, _ => false

def ProofAnswer.shows (answer : ProofAnswer) (checkpoint : WitnessCheckpoint) (head : SignedTreeHead) : Bool :=
  match answer with
  | .peer none => false
  | .peer (some dto) =>
    verifyConsistencyExtendsCheckpoint head.envelope.hashAlgo checkpoint head.treeSize head.rootHash dto
  | .ownLedger none => false
  | .ownLedger (some proof) => proofExtendsCheckpoint head.envelope.hashAlgo checkpoint head.treeSize head.rootHash proof

/-! ## Runs of the decision -/

/-- what becomes of a database statement -/
inductive Fate where
  | done
  | failed
  | unacknowledged
deriving DecidableEq, Repr

/-- the next thing a run does; `recorded`: after its own record step, else for a head found checkpointed -/
inductive Phase where
  | reading
  | proving (checkpoint : WitnessCheckpoint)
  | recording (checkpoint : Option WitnessCheckpoint)
  | listing (recorded : Bool)
  | signing (recorded : Bool)
  | inserting (recorded : Bool) (cosig : WitnessCosignature)
  | selecting (recorded : Bool) (cosig : WitnessCosignature)
  | refreshing (recorded : Bool) (cosig : WitnessCosignature)
  | ended (outcome : CosignOutcome)
deriving DecidableEq

structure Run where
  shardId : String
  head : SignedTreeHead
  phase : Phase
deriving DecidableEq

/-- the witness and its column type for times -/
structure Node where
  ed : Ed25519
  signingKey : FixedBytes 32
  witnessKeyId : String
  timestamptz : Timestamptz

structure State where
  /-- by network and shard -/
  checkpoints : String × String → Option WitnessCheckpoint
  cosignatures : List CosignatureRow
  runs : ℕ → Option Run
  /-- every cosignature made, with its shard -/
  signed : List (String × WitnessCosignature)

def State.init : State := ⟨fun _ => none, [], fun _ => none, []⟩

inductive RunOp where
  | readCheckpoint (failed : Bool)
  | prove (answer : ProofAnswer)
  | record (fate : Fate)
  | list (failed : Bool)
  | sign (observedAt : OffsetDateTime)
  | insert (fate : Fate)
  | select (failed : Bool)
  | refresh (fate : Fate)

inductive Op where
  /-- run i begins; the flag is what the head gossip says of the shard -/
  | start (i : ℕ) (shardId : String) (head : SignedTreeHead) (equivocating : Bool)
  | run (i : ℕ) (op : RunOp)

def State.setPhase (s : State) (i : ℕ) (r : Run) (phase : Phase) : State :=
  { s with runs := Function.update s.runs i (some { r with phase := phase }) }

/-- the upsert: an insert, or a move forward -/
def recordWitnessCheckpoint (stored : Option WitnessCheckpoint) (new : WitnessCheckpoint) : WitnessCheckpoint :=
  match stored with
  | none => new
  | some checkpoint => if checkpoint.treeSize < new.treeSize then new else checkpoint

/-- the end of `ensure_own_cosignature_stored`; a head found checkpointed does not ask how it went -/
def finish (recorded ok : Bool) : Phase :=
  .ended (if !recorded then .alreadyCosigned else if ok then .cosigned else .storageError)

def Run.log (r : Run) : String × String := (r.head.networkId, r.shardId)

/-- the record step of a run, on the checkpoint of its log -/
def State.record (s : State) (r : Run) (witnessKeyId : String) : State :=
  let new : WitnessCheckpoint := ⟨r.head.treeSize, r.head.rootHash, witnessKeyId⟩
  { s with
    checkpoints := Function.update s.checkpoints r.log (some (recordWitnessCheckpoint (s.checkpoints r.log) new)) }

/-- one statement of run i, or one of its computations; an op that is not the next one does nothing -/
def runStep (node : Node) (s : State) (i : ℕ) (r : Run) : RunOp → State
  | .readCheckpoint failed =>
    match r.phase with
    | .reading =>
      if failed then s.setPhase i r (.ended .storageError)
      else
        match classifyAgainstCheckpoint (s.checkpoints r.log) r.head.treeSize r.head.rootHash with
        | .alreadyCosigned => s.setPhase i r (.listing false)
        | .conflictingRootAtSameSize => s.setPhase i r (.ended .conflictingRoot)
        | .notForward => s.setPhase i r (.ended .notForward)
        | .bootstrap => s.setPhase i r (.recording none)
        | .needsConsistencyProof checkpoint => s.setPhase i r (.proving checkpoint)
    | _ => s
  | .prove answer =>
    match r.phase with
    | .proving checkpoint =>
      if answer.shows checkpoint r.head then s.setPhase i r (.recording (some checkpoint))
      else s.setPhase i r (.ended .consistencyFailed)
    | _ => s
  | .record fate =>
    match r.phase with
    | .recording _ =>
      match fate with
      | .done => (s.record r node.witnessKeyId).setPhase i r (.listing true)
      | .failed => s.setPhase i r (.ended .storageError)
      | .unacknowledged => (s.record r node.witnessKeyId).setPhase i r (.ended .storageError)
    | _ => s
  | .list failed =>
    match r.phase with
    | .listing recorded =>
      if failed then s.setPhase i r (finish recorded false)
      else
        match listWitnessCosignatures s.cosignatures r.head.networkId r.shardId r.head.treeSize with
        | .error _ => s.setPhase i r (finish recorded false)
        | .ok existing =>
          if existing.any fun c => c.witnessKeyId = node.witnessKeyId then s.setPhase i r (finish recorded true)
          else s.setPhase i r (.signing recorded)
    | _ => s
  | .sign observedAt =>
    match r.phase with
    | .signing recorded =>
      match signWitnessCosignature node.ed node.signingKey node.witnessKeyId r.head observedAt with
      | .error _ => s.setPhase i r (finish recorded false)
      | .ok cosig => { s.setPhase i r (.inserting recorded cosig) with signed := s.signed ++ [(r.shardId, cosig)] }
    | _ => s
  | .insert fate =>
    match r.phase with
    | .inserting recorded cosig =>
      match EnvelopeRow.fromEnvelope cosig.envelope with
      | .error _ => s.setPhase i r (finish recorded false)
      | .ok envelope =>
        let new := CosignatureRow.ofCosignature node.timestamptz r.shardId cosig envelope
        if !new.checks then s.setPhase i r (finish recorded false)
        else
          match s.cosignatures.find? fun row => row.sameKey r.shardId cosig, fate with
          | none, .failed => s.setPhase i r (finish recorded false)
          | none, fate =>
            { s.setPhase i r (finish recorded (fate == .done)) with cosignatures := s.cosignatures ++ [new] }
          | some _, .done => s.setPhase i r (.selecting recorded cosig)
          | some _, _ => s.setPhase i r (finish recorded false)
    | _ => s
  | .select failed =>
    match r.phase with
    | .selecting recorded cosig =>
      match s.cosignatures.find? fun row => row.sameKey r.shardId cosig with
      | none => s.setPhase i r (finish recorded false)
      | some row =>
        if failed then s.setPhase i r (finish recorded false)
        else if row.signature = cosig.signature then s.setPhase i r (finish recorded true)
        else if row.rootHash = cosig.rootHash ∧ row.authorKeyId = cosig.authorKeyId ∧
            row.authorSignature = cosig.authorSignature ∧ row.observedAt < cosig.observedAt then
          s.setPhase i r (.refreshing recorded cosig)
        else s.setPhase i r (finish recorded false)
    | _ => s
  | .refresh fate =>
    match r.phase with
    | .refreshing recorded cosig =>
      let rows := (refreshWitnessCosignature node.timestamptz s.cosignatures r.shardId cosig).1
      { s.setPhase i r (finish recorded (fate == .done)) with
        cosignatures := if fate = .failed then s.cosignatures else rows }
    | _ => s

def step (node : Node) (s : State) : Op → State
  | .start i shardId head equivocating =>
    match s.runs i with
    | some _ => s
    | none =>
      let phase := if equivocating then .ended .equivocating else .reading
      { s with runs := Function.update s.runs i (some ⟨shardId, head, phase⟩) }
  | .run i op =>
    match s.runs i with
    | none => s
    | some r => runStep node s i r op

def run (node : Node) (s : State) (ops : List Op) : State := ops.foldl (step node) s

/-! ## Signed heads -/

/-- a head as it is judged: size and root -/
abbrev Point := Int64 × String

def WitnessCheckpoint.point (c : WitnessCheckpoint) : Point := (c.treeSize, c.rootHash)

def Run.point (r : Run) : Point := (r.head.treeSize, r.head.rootHash)

/-- the heads signed for a log -/
def State.signedHeads (s : State) (log : String × String) : List Point :=
  s.signed.filterMap fun (shardId, cosig) =>
    if (cosig.networkId, shardId) = log then some (cosig.treeSize, cosig.rootHash) else none

def State.current (s : State) (log : String × String) : Option Point := (s.checkpoints log).map WitnessCheckpoint.point

/-- an accepted consistency proof from one head to a larger one -/
def Shown (a b : Point) : Prop :=
  a.1 < b.1 ∧ ∃ algo proof oldRoot newRoot, decodeRoot a.2 = some oldRoot ∧ decodeRoot b.2 = some newRoot ∧
    verifyConsistencyProof algo (asUsize a.1) (asUsize b.1) proof oldRoot newRoot = true

/-- accepted proofs from head to head, each from a head of the set -/
def Chain (heads : List Point) : Point → Point → Prop := Relation.ReflTransGen fun a b => a ∈ heads ∧ Shown a b

/-- the record step finds the checkpoint that its run read, and that head signed; or the run's own head -/
def recordOk (s : State) (r : Run) (read : Option WitnessCheckpoint) : Bool :=
  (s.current r.log = read.map WitnessCheckpoint.point && (s.current r.log).all fun p => p ∈ s.signedHeads r.log) ||
    s.current r.log = some r.point

def stepOk (s : State) : Op → Bool
  | .run i (.record fate) =>
    match s.runs i with
    | some ⟨shardId, head, .recording read⟩ => fate == .failed || recordOk s ⟨shardId, head, .recording read⟩ read
    | _ => true
  | _ => true

/-- every step of the sequence, in the state it finds -/
def stepsOk (node : Node) (s : State) : List Op → Bool
  | [] => true
  | op :: ops => stepOk s op && stepsOk node (step node s op) ops

/-! ## What a step keeps -/

theorem Chain.le {heads : List Point} {a b : Point} (h : Chain heads a b) : a = b ∨ a.1 < b.1 := by
  induction h with
  | refl => exact .inl rfl
  | tail _ hstep ih =>
    right
    rcases ih with rfl | hlt
    · exact hstep.2.1
    · exact Int64.lt_trans hlt hstep.2.1

theorem Chain.mono {heads heads' : List Point} (hsub : heads ⊆ heads') {a b : Point} (h : Chain heads a b) :
    Chain heads' a b :=
  Relation.ReflTransGen.mono (fun _ _ hstep => ⟨hsub hstep.1, hstep.2⟩) a b h

theorem shows_shown {answer : ProofAnswer} {checkpoint : WitnessCheckpoint} {head : SignedTreeHead}
    (hlt : checkpoint.treeSize < head.treeSize) (h : answer.shows checkpoint head = true) :
    Shown checkpoint.point (head.treeSize, head.rootHash) := by
  refine ⟨hlt, ?_⟩
  unfold ProofAnswer.shows at h
  split at h
  · cases h
  · rename_i dto
    unfold verifyConsistencyExtendsCheckpoint at h
    split_ifs at h with hroots
    obtain ⟨hfirst, hsecond⟩ := not_or.1 hroots
    rw [not_not] at hfirst hsecond
    split at h
    · rename_i oldRoot newRoot proof hold hnew hproof
      exact ⟨_, proof, oldRoot, newRoot, by rw [← hold, hfirst]; rfl, by rw [← hnew, hsecond], h⟩
    · cases h
  · cases h
  · rename_i proof
    unfold proofExtendsCheckpoint at h
    split at h
    · rename_i oldRoot newRoot hold hnew
      exact ⟨_, proof, oldRoot, newRoot, hold, hnew, h⟩
    · cases h

theorem signWitnessCosignature_head {ed : Ed25519} {key : FixedBytes 32} {keyId : String} {head : SignedTreeHead}
    {observedAt : OffsetDateTime} {cosig : WitnessCosignature}
    (h : signWitnessCosignature ed key keyId head observedAt = .ok cosig) :
    cosig.treeSize = head.treeSize ∧ cosig.rootHash = head.rootHash ∧ cosig.networkId = head.networkId := by
  unfold signWitnessCosignature signUnsigned at h
  obtain ⟨authorSignature, -, h⟩ := bind_eq_ok.1 h
  obtain ⟨message, -, h⟩ := bind_eq_ok.1 h
  cases h
  exact ⟨rfl, rfl, rfl⟩

/-- a head that is checkpointed or signed -/
def Known (s : State) (log : String × String) (p : Point) : Prop := s.current log = some p ∨ p ∈ s.signedHeads log

/-- what a run has established at the statement it is at -/
def Established (s : State) (r : Run) : Prop :=
  match r.phase with
  | .proving checkpoint => checkpoint.treeSize < r.head.treeSize
  | .recording (some checkpoint) => Shown checkpoint.point r.point
  | .listing _ => Known s r.log r.point
  | .signing _ => Known s r.log r.point
  | _ => True

structure Inv (s : State) : Prop where
  /-- nothing is signed before the first checkpoint -/
  first : ∀ log, s.current log = none → s.signedHeads log = []
  /-- the checkpoint extends every signed head -/
  latest : ∀ log c, s.current log = some c → ∀ p ∈ s.signedHeads log, Chain (s.signedHeads log) p c
  linked : ∀ log, ∀ p ∈ s.signedHeads log, ∀ q ∈ s.signedHeads log,
    Chain (s.signedHeads log) p q ∨ Chain (s.signedHeads log) q p
  established : ∀ i r, s.runs i = some r → Established s r

theorem inv_init : Inv .init := by
  refine ⟨fun _ _ => rfl, ?_, ?_, ?_⟩
  · intro log c h
    cases h
  · intro log p hp
    cases hp
  · intro i r h
    cases h

section steps

variable {node : Node} {s : State} {i : ℕ} {r : Run}

/-- the other runs keep what they have established when known heads stay known -/
theorem established_update {s' : State} (h : Inv s) (hknown : ∀ log p, Known s log p → Known s' log p) {phase : Phase}
    (hphase : Established s' { r with phase := phase }) {j : ℕ} {b : Run}
    (hb : Function.update s.runs i (some { r with phase := phase }) j = some b) : Established s' b := by
  by_cases hj : j = i
  · subst hj
    rw [Function.update_self] at hb
    cases hb
    exact hphase
  · rw [Function.update_of_ne hj] at hb
    have hold := h.established j b hb
    unfold Established at hold ⊢
    split
    · simpa only [*] using hold
    · simpa only [*] using hold
    · simp only [*] at hold
      exact hknown _ _ hold
    · simp only [*] at hold
      exact hknown _ _ hold
    · trivial

/-- a step that changes one run and rows of the table, nothing else -/
theorem Inv.setPhase (h : Inv s) {phase : Phase} (hphase : Established s { r with phase := phase })
    (rows : List CosignatureRow) : Inv { s.setPhase i r phase with cosignatures := rows } :=
  ⟨h.first, h.latest, h.linked, fun _ _ hb => established_update h (fun _ _ hp => hp) hphase hb⟩

/-- the record step makes the run's head the checkpoint, and that extends what was signed -/
theorem record_facts (h : Inv s) {read : Option WitnessCheckpoint} (hr : Established s r)
    (hphase : r.phase = .recording read) (hok : recordOk s r read = true) (witnessKeyId : String) :
    (s.record r witnessKeyId).current r.log = some r.point ∧
      (∀ p, s.current r.log = some p → p ∈ s.signedHeads r.log ∨ p = r.point) ∧
      ∀ p ∈ s.signedHeads r.log, Chain (s.signedHeads r.log) p r.point := by
  have hrecord : (s.record r witnessKeyId).current r.log = some (recordWitnessCheckpoint (s.checkpoints r.log)
      ⟨r.head.treeSize, r.head.rootHash, witnessKeyId⟩).point := by
    simp [State.record, State.current]
  rw [hrecord]
  simp only [recordOk, Bool.or_eq_true, Bool.and_eq_true, decide_eq_true_eq] at hok
  rcases hok with ⟨hread, hsigned⟩ | hown
  · cases hc : s.checkpoints r.log with
    | none =>
      have hnone : s.current r.log = none := by rw [State.current, hc]; rfl
      refine ⟨rfl, ?_, ?_⟩
      · intro p hp
        rw [hnone] at hp
        cases hp
      · rw [h.first _ hnone]
        intro p hp
        cases hp
    | some c =>
      have hcurrent : s.current r.log = some c.point := by rw [State.current, hc]; rfl
      rw [hcurrent] at hread hsigned
      have hmem : c.point ∈ s.signedHeads r.log := by simpa using hsigned
      have hshown : Shown c.point r.point := by
        unfold Established at hr
        cases read with
        | none => cases hread
        | some c' =>
          rw [hphase] at hr
          rw [Option.some.inj hread]
          exact hr
      have hmoved : recordWitnessCheckpoint (some c) ⟨r.head.treeSize, r.head.rootHash, witnessKeyId⟩ =
          ⟨r.head.treeSize, r.head.rootHash, witnessKeyId⟩ := if_pos hshown.1
      rw [hmoved]
      refine ⟨rfl, ?_, ?_⟩
      · intro p hp
        rw [hcurrent] at hp
        exact .inl (Option.some.inj hp ▸ hmem)
      · intro p hp
        exact (h.latest _ _ hcurrent p hp).tail ⟨hmem, hshown⟩
  · obtain ⟨c, hc, hpoint⟩ := Option.map_eq_some_iff.1 hown
    have hstays : recordWitnessCheckpoint (some c) ⟨r.head.treeSize, r.head.rootHash, witnessKeyId⟩ = c := by
      have hsize : c.treeSize = r.head.treeSize := congrArg Prod.fst hpoint
      refine if_neg ?_
      rw [hsize]
      exact Int64.lt_irrefl
    rw [hc, hstays, hpoint]
    refine ⟨rfl, ?_, ?_⟩
    · intro p hp
      rw [hown] at hp
      exact .inr (Option.some.inj hp).symm
    · intro p hp
      exact h.latest _ _ hown p hp

/-- **The record step** of a run that meets the condition -/
theorem Inv.record (h : Inv s) {read : Option WitnessCheckpoint} (hr : Established s r)
    (hphase : r.phase = .recording read) (hok : recordOk s r read = true) (witnessKeyId : String) {phase : Phase}
    (hnext : phase = .listing true ∨ ∃ outcome, phase = .ended outcome) :
    Inv ((s.record r witnessKeyId).setPhase i r phase) := by
  obtain ⟨hcurrent, hkept, hchain⟩ := record_facts h hr hphase hok witnessKeyId
  have hother : ∀ log, log ≠ r.log → (s.record r witnessKeyId).current log = s.current log := by
    intro log hlog
    simp [State.record, State.current, Function.update_of_ne hlog]
  refine ⟨?_, ?_, h.linked, ?_⟩
  · intro log hnone
    by_cases hlog : log = r.log
    · subst hlog
      exact absurd (hcurrent.symm.trans hnone) (by simp)
    · exact h.first log ((hother log hlog).symm.trans hnone)
  · intro log c hc p hp
    by_cases hlog : log = r.log
    · subst hlog
      obtain rfl := Option.some.inj (hcurrent.symm.trans hc)
      exact hchain p hp
    · exact h.latest log c ((hother log hlog).symm.trans hc) p hp
  · intro j b hb
    refine established_update h ?_ ?_ hb
    · intro log p hp
      by_cases hlog : log = r.log
      · subst hlog
        rcases hp with hp | hp
        · rcases hkept p hp with hmem | rfl
          · exact .inr hmem
          · exact .inl hcurrent
        · exact .inr hp
      · exact hp.imp_left fun hp => (hother log hlog).trans hp
    · rcases hnext with rfl | ⟨outcome, rfl⟩
      · exact .inl hcurrent
      · trivial

theorem signedHeads_append (s : State) (shardId : String) (cosig : WitnessCosignature) (log : String × String) :
    State.signedHeads { s with signed := s.signed ++ [(shardId, cosig)] } log = s.signedHeads log ++
      if (cosig.networkId, shardId) = log then [(cosig.treeSize, cosig.rootHash)] else [] := by
  unfold State.signedHeads
  rw [List.filterMap_append]
  congr 1
  split_ifs with hlog <;> simp [hlog]

/-- **The sign step** adds a head that is checkpointed or was signed before -/
theorem Inv.sign (h : Inv s) {recorded : Bool} (hr : Established s r) (hphase : r.phase = .signing recorded)
    {cosig : WitnessCosignature} (hhead : cosig.treeSize = r.head.treeSize ∧ cosig.rootHash = r.head.rootHash ∧
      cosig.networkId = r.head.networkId) :
    Inv { s.setPhase i r (.inserting recorded cosig) with signed := s.signed ++ [(r.shardId, cosig)] } := by
  obtain ⟨hsize, hroot, hnetwork⟩ := hhead
  have hknown : Known s r.log r.point := by
    unfold Established at hr
    rwa [hphase] at hr
  have hheads : ∀ log, State.signedHeads { s.setPhase i r (.inserting recorded cosig) with
      signed := s.signed ++ [(r.shardId, cosig)] } log = s.signedHeads log ++ if r.log = log then [r.point] else [] := by
    intro log
    have happend := signedHeads_append s r.shardId cosig log
    rw [hsize, hroot, hnetwork] at happend
    exact happend
  have hsub : ∀ log, s.signedHeads log ⊆ s.signedHeads log ++ if r.log = log then [r.point] else [] :=
    fun log => List.subset_append_left _ _
  have hmem : ∀ log p, p ∈ s.signedHeads log ++ (if r.log = log then [r.point] else []) →
      p ∈ s.signedHeads log ∨ r.log = log ∧ p = r.point := by
    intro log p hp
    rcases List.mem_append.1 hp with hp | hp
    · exact .inl hp
    · split_ifs at hp with hlog
      · exact .inr ⟨hlog, List.mem_singleton.1 hp⟩
      · cases hp
  refine ⟨?_, ?_, ?_, ?_⟩
  · intro log hnone
    have hempty := h.first log hnone
    have hlog : r.log ≠ log := by
      rintro rfl
      rcases hknown with hcurrent | hsigned
      · exact absurd (hcurrent.symm.trans hnone) (by simp)
      · rw [hempty] at hsigned
        cases hsigned
    rw [hheads, hempty, if_neg hlog]
    rfl
  · intro log c hc p hp
    rw [hheads] at hp ⊢
    rcases hmem log p hp with hp | ⟨rfl, rfl⟩
    · exact (h.latest log c hc p hp).mono (hsub log)
    · rcases hknown with hcurrent | hsigned
      · obtain rfl := Option.some.inj (hcurrent.symm.trans hc)
        exact .refl
      · exact (h.latest _ c hc _ hsigned).mono (hsub _)
  · -- the new head is the checkpoint, which extends the others, or is not new
    have hnew : ∀ p ∈ s.signedHeads r.log, Chain (s.signedHeads r.log) p r.point ∨ Chain (s.signedHeads r.log) r.point p := by
      intro p hp
      rcases hknown with hcurrent | hsigned
      · exact .inl (h.latest _ _ hcurrent p hp)
      · exact h.linked _ p hp _ hsigned
    intro log p hp q hq
    rw [hheads] at hp hq ⊢
    rcases hmem log p hp with hp | ⟨rfl, rfl⟩
    · rcases hmem log q hq with hq | ⟨rfl, rfl⟩
      · exact (h.linked log p hp q hq).imp (.mono (hsub _)) (.mono (hsub _))
      · exact (hnew p hp).imp (.mono (hsub _)) (.mono (hsub _))
    · rcases hmem _ q hq with hq | ⟨-, rfl⟩
      · exact (hnew q hq).symm.imp (.mono (hsub _)) (.mono (hsub _))
      · exact .inl .refl
  · intro j b hb
    refine established_update h ?_ ?_ hb
    · intro log p hp
      refine hp.imp_right ?_
      intro hp
      rw [hheads]
      exact hsub log hp
    · trivial

/-- the statements that change neither checkpoints nor what is signed -/
theorem Inv.other (h : Inv s) {phase : Phase} (hphase : Established s { r with phase := phase }) :
    Inv (s.setPhase i r phase) := h.setPhase hphase s.cosignatures

theorem classify_proof {checkpoint : Option WitnessCheckpoint} {treeSize : Int64} {rootHash : String}
    {c : WitnessCheckpoint} (h : classifyAgainstCheckpoint checkpoint treeSize rootHash = .needsConsistencyProof c) :
    c.treeSize < treeSize := by
  unfold classifyAgainstCheckpoint at h
  split at h
  · cases h
  · split_ifs at h with hsize hroot hless
    cases h
    exact Int64.lt_of_le_of_ne (Int64.not_lt.1 hless) (Ne.symm hsize)

theorem classify_same {checkpoint : Option WitnessCheckpoint} {treeSize : Int64} {rootHash : String}
    (h : classifyAgainstCheckpoint checkpoint treeSize rootHash = .alreadyCosigned) :
    checkpoint.map WitnessCheckpoint.point = some (treeSize, rootHash) := by
  unfold classifyAgainstCheckpoint at h
  split at h
  · cases h
  · split_ifs at h with hsize hroot
    rw [hsize, ← hroot]
    rfl

/-- **One step** that meets the condition -/
theorem step_inv (h : Inv s) (op : Op) (hok : stepOk s op = true) : Inv (step node s op) := by
  cases op with
  | start i shardId head equivocating =>
    simp only [step]
    split
    · exact h
    · refine ⟨h.first, h.latest, h.linked, ?_⟩
      intro j b hb
      refine established_update (r := ⟨shardId, head, .reading⟩) h (fun _ _ hp => hp) ?_ hb
      cases equivocating <;> trivial
  | run i op =>
    cases hi : s.runs i with
    | none => simpa only [step, hi] using h
    | some r =>
      have hr := h.established i r hi
      obtain ⟨shardId, head, phase⟩ := r
      simp only [step, hi]
      cases op with
      | readCheckpoint failed =>
        simp only [runStep]
        split
        · split_ifs
          · exact h.other trivial
          · split
            · rename_i hsame
              exact h.other (.inl (classify_same hsame))
            · exact h.other trivial
            · exact h.other trivial
            · exact h.other trivial
            · rename_i c hproof
              exact h.other (classify_proof hproof)
        · exact h
      | prove answer =>
        simp only [runStep]
        split
        · rename_i c
          split_ifs with hshows
          · exact h.other (shows_shown hr hshows)
          · exact h.other trivial
        · exact h
      | record fate =>
        simp only [runStep]
        split
        · rename_i read
          have hrecord : fate ≠ .failed → recordOk s ⟨shardId, head, .recording read⟩ read = true := by
            intro hfate
            simpa [stepOk, hi, hfate] using hok
          cases fate with
          | done => exact h.record hr rfl (hrecord (by decide)) node.witnessKeyId (.inl rfl)
          | failed => exact h.other trivial
          | unacknowledged => exact h.record hr rfl (hrecord (by decide)) node.witnessKeyId (.inr ⟨_, rfl⟩)
        · exact h
      | list failed =>
        simp only [runStep]
        split
        · rename_i recorded
          repeat' split
          all_goals first
            | exact h.other trivial
            | exact h.other hr
        · exact h
      | sign observedAt =>
        simp only [runStep]
        split
        · rename_i recorded
          split
          · exact h.other trivial
          · rename_i cosig hcosig
            exact h.sign hr rfl (signWitnessCosignature_head hcosig)
        · exact h
      | insert fate =>
        simp only [runStep]
        repeat' split
        all_goals first
          | exact h
          | exact h.other trivial
          | (apply h.setPhase; trivial)
      | select failed =>
        simp only [runStep]
        repeat' split
        all_goals first
          | exact h
          | exact h.other trivial
      | refresh fate =>
        simp only [runStep]
        split
        · apply h.setPhase
          trivial
        · exact h

end steps

/-- **Every run** of steps that meet the condition -/
theorem run_inv {node : Node} {s : State} (h : Inv s) (ops : List Op) (hok : stepsOk node s ops = true) :
    Inv (run node s ops) := by
  induction ops generalizing s with
  | nil => exact h
  | cons op ops ih =>
    rw [stepsOk, Bool.and_eq_true] at hok
    exact ih (step_inv h op hok.1) hok.2

/-- no two roots at one size; of two heads the larger is reached from the smaller by accepted proofs from heads of the set -/
def Consistent (heads : List Point) : Prop :=
  ∀ p ∈ heads, ∀ q ∈ heads, (p.1 = q.1 → p.2 = q.2) ∧ (p.1 < q.1 → Chain heads p q)

theorem stepsOk_initial {node : Node} {s : State} {seen ops : List Op} (hseen : seen <+: ops)
    (h : stepsOk node s ops = true) : stepsOk node s seen = true := by
  obtain ⟨rest, rfl⟩ := hseen
  induction seen generalizing s with
  | nil => rfl
  | cons op seen ih =>
    rw [List.cons_append, stepsOk, Bool.and_eq_true] at h
    rw [stepsOk, Bool.and_eq_true]
    exact ⟨h.1, ih h.2⟩

/-- **Cosigned heads are consistent**: in every state reached by runs of the decision, interleaved and cut off in any way,
whose record steps find the checkpoint they judged against, with its head signed, or their own head. -/
theorem cosigned_heads_consistent (node : Node) (ops : List Op) (hok : stepsOk node .init ops = true) (seen : List Op)
    (hseen : seen <+: ops) (log : String × String) : Consistent ((run node .init seen).signedHeads log) := by
  have hinv := run_inv inv_init seen (stepsOk_initial hseen hok)
  intro p hp q hq
  constructor
  · intro hsize
    rcases hinv.linked log p hp q hq with hchain | hchain
    · rcases hchain.le with rfl | hlt
      · rfl
      · exact absurd (hsize ▸ hlt) Int64.lt_irrefl
    · rcases hchain.le with rfl | hlt
      · rfl
      · exact absurd (hsize ▸ hlt) Int64.lt_irrefl
  · intro hlt
    rcases hinv.linked log p hp q hq with hchain | hchain
    · exact hchain
    · rcases hchain.le with rfl | hlt'
      · exact .refl
      · exact absurd (Int64.lt_trans hlt hlt') Int64.lt_irrefl

/-! ## Two runs -/

/-- the author's heads over the first and over both of two leaves -/
def headOne : SignedTreeHead :=
  ⟨1, "022a6979e6dab7aa5ae4c3e5e45f7e977112a7e63593820dbec1ec738a24f93c", "avalon-conformance-test",
    "settlement-operator-1",
    "5ba9ef1dabf068a8d9c6b7553a81c5922f3545a4af146cd5a7e4d567e645d9ebc88eb860c00690c5c1c5dcd3c25bf1617906e5a1a5889ee5d46bd64bf9bc8505",
    1790000000000000000, .current .settlementSth⟩

def headTwo : SignedTreeHead :=
  ⟨2, "b137985ff484fb600db93107c77b0365c80d78f5b429ded0fd97361d077999eb", "avalon-conformance-test",
    "settlement-operator-1",
    "64b4c5c54aa247dc8601b2c310fe86871cc2fba318fdf8504fe77398c7b5450295d47e809f9b073caab17c1f0d951f57639f0eb257529fcafcb318ee271feb01",
    1790000000000000000, .current .settlementSth⟩

/-- the hash of the second leaf, which is the consistency proof -/
def secondLeaf : String := "57eb35615d47f34ec714cacdf5fd74608a5e8e102724e80b24b287c0c27b6a31"

/-- the witness's signatures over these heads, as (SHA-256 of the signed bytes, signature) -/
def witnessSignatures : List (FixedBytes 32 × FixedBytes 64) := [
  (.ofHex 32 "70534cb802f8f2a33502cfa318df9a64ebeb999c792a32262fe7cd0df395a0c3", .ofHex 64
    "2b17962f4f8d1d27cd49f9181b23285182757c6702baf8f43b1ec60c7895b379bed22f345b521f505742b098e81b7a80c988bd26830d0d2e059efb0add147706"),
  (.ofHex 32 "7c34d60d5d8dbaabaf01e7a3c6588a0933fa84d8d900665c2818d927191ca2e9", .ofHex 64
    "c6c2259016d5d7c9444b03394639bfd5e5e09c0b84de83b9b252bcb2e6ce8d3f7e9549cca3741b70037f199b5901d9def4f39a30caec08b6b886a6675e593e0a"),
  (.ofHex 32 "c38935c53a2176d549ca395cb34dbaa99b670c21ff8f4114e9a9cdacd71630ff", .ofHex 64 witnessSigAb),
  (.ofHex 32 "ad7f0943bedc68a18b55df878cf1e2432760845a029c611af2b952a175a6b993", .ofHex 64 witnessSigCd)]

/-- a witness restricted to its signatures over the heads here -/
def testNode : Node where
  ed := {
    verifyingKey := fun _ => witnessKey
    sign := fun _ message => (witnessSignatures.lookup (Sha256.hash message)).getD (FixedBytes.replicate 64 0)
    verifyStrict := fun _ message signature => witnessSignatures.contains (Sha256.hash message, signature) }
  signingKey := FixedBytes.replicate 32 0x22
  witnessKeyId := "witness-1"
  timestamptz := Mirror.timestamptz

/-- run i takes the steps from its list to its insert -/
def signRun (i : ℕ) : List Op :=
  [.run i (.list false), .run i (.sign 1790000600000000000), .run i (.insert .done)]

def testLog : String × String := ("avalon-conformance-test", "core")

/-- one run bootstraps with the first head; then another extends it -/
def extendedOnce : List Op :=
  [.start 0 "core" headOne false, .run 0 (.readCheckpoint false), .run 0 (.record .done)] ++ signRun 0 ++
    [.start 1 "core" headTwo false, .run 1 (.readCheckpoint false),
      .run 1 (.prove (.peer (some ⟨headOne.rootHash, headTwo.rootHash, [secondLeaf]⟩))), .run 1 (.record .done)] ++
    signRun 1

/-- an insert signs nothing -/
theorem signedHeads_insert (node : Node) (s : State) (i : ℕ) (fate : Fate) (log : String × String) :
    (step node s (.run i (.insert fate))).signedHeads log = s.signedHeads log := by
  have hsigned : (step node s (.run i (.insert fate))).signed = s.signed := by
    simp only [step]
    split
    · rfl
    · simp only [runStep]
      split
      · split
        · rfl
        · split
          · rfl
          · split <;> rfl
      · rfl
  rw [State.signedHeads, hsigned, State.signedHeads]

theorem cosigned_heads_consistent_extended :
    ((run testNode .init extendedOnce).signedHeads testLog).map Prod.fst = [1, 2] ∧
      Consistent ((run testNode .init extendedOnce).signedHeads testLog) := by
  -- one evaluation, since the run is the same; the last step signs nothing
  have hevaluated : (((extendedOnce.take 12).foldl (step testNode) .init).signedHeads testLog).map Prod.fst = [1, 2] ∧
      stepsOk testNode .init extendedOnce = true := by
    decide +kernel
  obtain ⟨hsizes, hok⟩ := hevaluated
  constructor
  · have hops : extendedOnce = extendedOnce.take 12 ++ [.run 1 (.insert .done)] := rfl
    rw [hops, run, List.foldl_append, List.foldl_cons, List.foldl_nil, signedHeads_insert]
    exact hsizes
  · exact cosigned_heads_consistent testNode extendedOnce hok extendedOnce List.prefix_rfl testLog

/-- two runs find no checkpoint; the second record moves nothing and reports success -/
def bootstrappedTwice : List Op :=
  [.start 0 "core" headAb.sth false, .start 1 "core" headCd.sth false, .run 0 (.readCheckpoint false),
    .run 1 (.readCheckpoint false), .run 0 (.record .done), .run 1 (.record .done), .run 0 (.list false),
    .run 1 (.list false), .run 0 (.sign 1790000600000000000), .run 1 (.sign 1790000600000000000)]

/-- **Two roots at one size.** Both runs sign. -/
theorem two_bootstraps_cosign_two_roots :
    ¬ ∀ (node : Node) (ops : List Op) (log : String × String), Consistent ((run node .init ops).signedHeads log) := by
  intro h
  have hheads : (run testNode .init bootstrappedTwice).signedHeads testLog =
      [(12, headAb.sth.rootHash), (12, headCd.sth.rootHash)] := by
    decide +kernel
  have hconsistent := h testNode bootstrappedTwice testLog
  rw [hheads] at hconsistent
  have hroots := (hconsistent (12, headAb.sth.rootHash) (by simp) (12, headCd.sth.rootHash) (by simp)).1 rfl
  exact absurd hroots (by decide)

end Avalon.WitnessCosign
