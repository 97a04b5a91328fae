/-
The integrity of the stored chain (`crates/chain/src/postgres.rs`: `hash_entry`, `list_entries`, `verify`).

Insertion hashes values in memory; `list_entries` and `verify` recompute from stored, truncated and possibly pruned columns.
- Intact: in every run of commits and prunings every listed entry is intact (`runActions_chained`). A commitment that a run
  returned is accepted by `verify` in every later state, when the run's cache steps are the ones of `cacheStepOk`: `Settled`
  ties each batch row to a segment of the entries and to the root of everything up to it.
- Tamper evident: `Tampered` is a row with another hashed column and its old entry hash, or only another entry hash, or
  another payload under the old payload hash. The two rows then hash to one value (`contentIntact_message`), so they are one
  message, or the explicit list `hashedInputs` holds a collision.

Results:
- `ledger_integrity`: both directions, for every run.
- `payload_change_unreported`: a payload that is taken away, or replaced by one with the same canonical form, is not reported.
-/
import Mathlib.Tactic
import Avalon.Core.Bytes
import Avalon.Core.Collision
import Avalon.Core.Fallible
import Avalon.Core.Json
import Avalon.Core.Sha256
import Avalon.Protocol.CanonicalPayload
import Avalon.Protocol.SigningBytes
import Avalon.Protocol.SigningBytesReader
import Avalon.Protocol.LedgerEntry
import Avalon.Protocol.Events
import Avalon.Protocol.Sth
import Avalon.Protocol.IdentityChainWire
import Avalon.Protocol.SignedMessages
import Avalon.Chain.Ledger
import Avalon.Chain.LedgerHeads
import Avalon.Chain.LedgerReads

namespace Avalon.Ledger

open Avalon.SigningBytes Avalon.LedgerEntry Avalon.Events Avalon.Sth Avalon.Merkle Avalon.SignedMessages
open Fallible Collision

variable {P : Type}

/-! ## Cache steps in runs with pruning -/

def actionOk (s : State P) : Action P → Bool
  | .op o => cacheStepOk s o
  | .prune _ => true

/-- every cache step of a run with prunings finds few enough leaves -/
def actionsOk (cfg : Config P) : State P → List (Action P) → Bool
  | _, [] => true
  | s, action :: actions => actionOk s action && actionsOk cfg (act cfg s action) actions

section prune

variable {cfg : Config P} {s : State P} (cutoff : OffsetDateTime)

theorem Continues.prune {entries rows : List (LedgerEntryRow P)} (h : Continues entries rows) :
    Continues (entries.map (pruneRow cutoff)) rows := by
  refine ⟨?_, h.hex, h.nonempty⟩
  have hasc := h.ascending
  unfold Ascending at hasc ⊢
  rw [List.pairwise_append] at hasc ⊢
  obtain ⟨h1, h2, h3⟩ := hasc
  refine ⟨Ascending.prune cutoff h1, h2, ?_⟩
  intro r hr q hq
  obtain ⟨old, hold, rfl⟩ := List.mem_map.1 hr
  rw [pruneRow_seq]
  exact h3 old hold q hq

theorem HeadCorrect.prune {db : Db P} {head : SignedTreeHead} (h : HeadCorrect db head) (hasc : Ascending db.entries) :
    HeadCorrect (prunePayloadsOlderThan cutoff db).1 head := by
  obtain ⟨n, hn, hsize, hroot⟩ := h
  rw [entryHashes_of_ascending hasc] at hroot
  refine ⟨n, by simpa [prunePayloadsOlderThan] using hn, hsize, ?_⟩
  rw [prunePayloadsOlderThan, entryHashes_of_ascending (hasc.prune cutoff), map_pruneRow_entryHash]
  exact hroot

/-- a pruning pass keeps the invariant of the heads -/
theorem Inv.prune (h : Inv s) : Inv (act cfg s (.prune cutoff)) := by
  have hmap : ∀ rows : List (LedgerEntryRow P), ((s.db.entries.map (pruneRow cutoff)) ++ rows).map LedgerEntryRow.entryHash =
      (s.db.entries ++ rows).map LedgerEntryRow.entryHash := by
    intro rows
    rw [List.map_append, List.map_append, map_pruneRow_entryHash]
  refine ⟨h.ascending.prune cutoff, ?_, h.rep, ?_, ?_, ?_⟩
  · intro r hr
    obtain ⟨old, hold, rfl⟩ := List.mem_map.1 hr
    rw [pruneRow_entryHash]
    exact h.hex old hold
  · intro i a ha
    have hphase := h.phases i a ha
    cases hp : a.phase with
    | locked => rw [hp] at hphase; exact hphase
    | inserted rows => rw [hp] at hphase; exact ⟨hphase.1, hphase.2.prune cutoff⟩
    | computed rows treeSize root =>
      rw [hp] at hphase
      obtain ⟨hl, hcont, hsize, hroot⟩ := hphase
      exact ⟨hl, hcont.prune cutoff, by simpa [act_prune_entries] using hsize, by
        rw [act_prune_entries, hmap]; exact hroot⟩
    | persisted rows treeSize root batchRow head =>
      rw [hp] at hphase
      obtain ⟨hl, hcont, hsize, hroot, hhead⟩ := hphase
      exact ⟨hl, hcont.prune cutoff, by simpa [act_prune_entries] using hsize, by
        rw [act_prune_entries, hmap]; exact hroot, hhead⟩
    | _ => trivial
  · cases hp : s.pending with
    | some rows =>
      refine (cacheOk_of_pending (s := act cfg s (.prune cutoff)) hp).2 ?_
      rw [act_prune_entries, hmap]
      exact (cacheOk_of_pending hp).1 h.cache
    | none =>
      refine (cacheOk_of_not_pending (s := act cfg s (.prune cutoff)) hp).2 ?_
      rw [CachedBetween, act_prune_entries, map_pruneRow_entryHash, List.length_map]
      exact (cacheOk_of_not_pending hp).1 h.cache
  · intro head hhead
    exact (h.heads head hhead).prune cutoff h.ascending

end prune

/-! ## Batch rows -/

/-- the batch is a segment of the entries, and its root is that of everything up to its last entry -/
def BatchOk (db : Db P) (b : LedgerBatchRow) : Prop :=
  ∃ before rows after, db.entries = before ++ rows ++ after ∧ rows ≠ [] ∧ (∀ r ∈ rows, r.batchId = b.batchId) ∧
    (∀ r ∈ before ++ after, r.batchId ≠ b.batchId) ∧ b.lastSeq = (rows.map LedgerEntryRow.seq).getLastD 0 ∧
    ∃ root, mthOfHexHashes ledgerHashAlgo ((before ++ rows).map LedgerEntryRow.entryHash) = .ok root ∧
      b.batchRoot = hexEncode root.toList

/-- the commitment names a batch row and carries its root -/
def Returned (db : Db P) (c : Commitment) : Prop :=
  ∃ b ∈ db.batches, b.batchId = c.batchId ∧ c.proof = utf8 b.batchRoot

/-- a batch row that is about to be committed -/
structure PendingBatch (db : Db P) (a : Attempt P) (rows : List (LedgerEntryRow P)) (root : Hash)
    (b : LedgerBatchRow) : Prop where
  batchId : b.batchId = a.batch.id
  fresh : a.batch.id ∉ db.batches.map LedgerBatchRow.batchId
  lastSeq : b.lastSeq = (rows.map LedgerEntryRow.seq).getLastD 0
  batchRoot : b.batchRoot = hexEncode root.toList

/-- what the batch table and the attempts say of each other -/
structure Settled (s : State P) : Prop where
  batches : ∀ b ∈ s.db.batches, BatchOk s.db b
  unique : (s.db.batches.map LedgerBatchRow.batchId).Nodup
  covered : ∀ r ∈ s.db.entries, r.batchId ∈ s.db.batches.map LedgerBatchRow.batchId
  pending : ∀ i a rows treeSize root b head, s.attempts i = some a →
    a.phase = .persisted rows treeSize root b head → PendingBatch s.db a rows root b
  returned : ∀ i a c, s.attempts i = some a → a.phase = .ended (.ok c) → Returned s.db c

theorem settled_init : Settled (State.init : State P) := by
  constructor <;> simp [State.init]

theorem persistRows_pending {cfg : Config P} {db : Db P} {a : Attempt P} {rows : List (LedgerEntryRow P)} {treeSize : ℕ}
    {root : Hash} {key : Option (FixedBytes 32 × String)} {b : LedgerBatchRow} {head : SignedTreeHead}
    (h : persistRows cfg db a rows treeSize root key = .ok (b, head)) : PendingBatch db a rows root b := by
  unfold persistRows at h
  obtain ⟨⟨⟩, hfree, h⟩ := bind_eq_ok.1 h
  obtain ⟨head', -, h⟩ := bind_eq_ok.1 h
  obtain ⟨-, -, h⟩ := bind_eq_ok.1 h
  cases h
  refine ⟨rfl, ?_, rfl, rfl⟩
  intro hmem
  obtain ⟨b, hb, hid⟩ := List.mem_map.1 hmem
  have htaken : (db.batches.any fun b => decide (b.batchId = a.batch.id)) = true :=
    List.any_eq_true.2 ⟨b, hb, decide_eq_true hid⟩
  rw [htaken] at hfree
  cases hfree

theorem returned_of_getCommitment {db : Db P} {batchId : Uuid} {existing : Commitment}
    (h : getCommitment db batchId = some existing) (mode : Mode) : Returned db (replayed mode existing) := by
  obtain ⟨b, hb, rfl⟩ := Option.map_eq_some_iff.1 h
  have hid := List.find?_some hb
  refine ⟨b, List.mem_of_find?_eq_some hb, ?_⟩
  cases mode with
  | commit => exact ⟨of_decide_eq_true hid, rfl⟩
  | finalize createdAt keyId signature key => exact ⟨of_decide_eq_true hid, rfl⟩

section settled

variable {cfg : Config P} {s : State P} {i : ℕ} {a : Attempt P}

/-- moving one attempt -/
theorem Settled.setPhase (h : Settled s) {phase : Phase P} (cache : LedgerCache)
    (hpending : ∀ rows treeSize root b head, phase = .persisted rows treeSize root b head →
      PendingBatch s.db a rows root b)
    (hreturned : ∀ c, phase = .ended (.ok c) → Returned s.db c) :
    Settled { s.setPhase i a phase with cache := cache } := by
  refine ⟨h.batches, h.unique, h.covered, ?_, ?_⟩
  · intro j b rows treeSize root batchRow head hb hphase
    rcases attempts_setPhase hb with ⟨rfl, rfl⟩ | ⟨-, hb⟩
    · obtain ⟨h1, h2, h3, h4⟩ := hpending rows treeSize root batchRow head hphase
      exact ⟨h1, h2, h3, h4⟩
    · exact h.pending j b rows treeSize root batchRow head hb hphase
  · intro j b c hb hphase
    rcases attempts_setPhase hb with ⟨rfl, rfl⟩ | ⟨-, hb⟩
    · exact hreturned c hphase
    · exact h.returned j b c hb hphase

/-- a phase that has neither a batch row nor a commitment -/
def Phase.quiet : Phase P → Bool
  | .persisted .. | .ended (.ok _) => false
  | _ => true

theorem Settled.setQuiet (h : Settled s) {phase : Phase P} (cache : LedgerCache) (hquiet : phase.quiet = true) :
    Settled { s.setPhase i a phase with cache := cache } := by
  refine h.setPhase cache ?_ ?_
  · intro rows treeSize root b head he
    rw [he] at hquiet
    cases hquiet
  · intro c he
    rw [he] at hquiet
    cases hquiet

/-- a batch stays settled as rows of other batches are appended -/
theorem BatchOk.append {db : Db P} {b : LedgerBatchRow} (h : BatchOk db b) {rows : List (LedgerEntryRow P)}
    {batches : List LedgerBatchRow} {heads : List SignedTreeHead} (hrows : ∀ r ∈ rows, r.batchId ≠ b.batchId) :
    BatchOk ⟨db.entries ++ rows, batches, heads⟩ b := by
  obtain ⟨before, segment, after, hentries, hne, hin, hout, hlast, hroot⟩ := h
  refine ⟨before, segment, after ++ rows, ?_, hne, hin, ?_, hlast, hroot⟩
  · dsimp only
    rw [hentries, List.append_assoc (before ++ segment)]
  · rw [← List.append_assoc]
    exact List.forall_mem_append.2 ⟨hout, hrows⟩

theorem commit_settled (hinv : Inv s) (hchain : Chained cfg s) (h : Settled s) (ha : s.attempts i = some a)
    {rows : List (LedgerEntryRow P)} {treeSize : ℕ} {root : Hash} {b : LedgerBatchRow} {head : SignedTreeHead}
    (hphase : a.phase = .persisted rows treeSize root b head) (reported : Bool) :
    Settled { s.setPhase i a (if reported then .ended (.ok (commitResult a b head)) else .failing (.storage .database)) with
      db := ⟨s.db.entries ++ rows, s.db.batches ++ [b], s.db.heads ++ [head]⟩
      lock := none } := by
  obtain ⟨hid, hfresh, hlast, hroot⟩ := h.pending i a rows treeSize root b head ha hphase
  obtain ⟨hcont, -, -, hcolumns⟩ := hchain.append ha (by rw [hphase]; rfl) rows (by rw [hphase]; rfl)
  have hok := hinv.phases i a ha
  rw [hphase] at hok
  obtain ⟨hl, -, -, hmth, -⟩ := hok
  have hrows : ∀ r ∈ rows, r.batchId = b.batchId := fun r hr => (hcolumns r hr).1.trans hid.symm
  have hfresh' : b.batchId ∉ s.db.batches.map LedgerBatchRow.batchId := hid ▸ hfresh
  have hnew : BatchOk ⟨s.db.entries ++ rows, s.db.batches ++ [b], s.db.heads ++ [head]⟩ b := by
    refine ⟨s.db.entries, rows, [], (List.append_nil _).symm, hcont.nonempty, hrows, ?_, hlast, root, hmth, hroot⟩
    rw [List.append_nil]
    intro r hr he
    exact hfresh' (he ▸ h.covered r hr)
  have holds : ∀ j c, s.attempts j = some c → c.phase.holds = true → j = i := by
    intro j c hc hholds
    have hl' := (hchain.holding j c hc hholds).lock
    rw [hl] at hl'
    exact (Option.some.inj hl').symm
  refine ⟨?_, ?_, ?_, ?_, ?_⟩
  · refine List.forall_mem_append.2 ⟨?_, List.forall_mem_singleton.2 hnew⟩
    intro b' hb'
    refine (h.batches b' hb').append ?_
    intro r hr he
    exact hfresh' (hrows r hr ▸ he ▸ List.mem_map_of_mem hb')
  · rw [List.map_append, List.map_singleton]
    exact h.unique.append (List.nodup_singleton _) (List.disjoint_singleton.2 hfresh')
  · rw [List.map_append, List.map_singleton]
    refine List.forall_mem_append.2 ⟨?_, ?_⟩
    · exact fun r hr => List.mem_append_left _ (h.covered r hr)
    · exact fun r hr => List.mem_append_right _ (List.mem_singleton.2 (hrows r hr))
  · intro j c rows' treeSize' root' b' head' hc hc'
    rcases attempts_setPhase hc with ⟨rfl, rfl⟩ | ⟨hj, hc⟩
    · cases reported <;> cases hc'
    · exact absurd (holds j c hc (by rw [hc']; rfl)) hj
  · intro j c commitment hc hc'
    rcases attempts_setPhase hc with ⟨rfl, rfl⟩ | ⟨-, hc⟩
    · cases reported with
      | true =>
        cases hc'
        exact ⟨b, by simp, hid, rfl⟩
      | false => cases hc'
    · obtain ⟨b', hb', hret⟩ := h.returned j c commitment hc hc'
      exact ⟨b', List.mem_append_left _ hb', hret⟩

/-- **One op** keeps batch rows and commitments in step -/
theorem Effect.settled (hinv : Inv s) (hchain : Chained cfg s) (h : Settled s) {s' : State P} (heffect : Effect cfg s s') :
    Settled s' := by
  cases heffect with
  | stay cache => exact ⟨h.batches, h.unique, h.covered, h.pending, h.returned⟩
  | move cache ha hmove =>
    cases hmove with
    | insert hphase hrows => exact h.setQuiet cache rfl
    | compute hphase hroot => exact h.setQuiet cache rfl
    | persist hphase hrow =>
      refine h.setPhase cache ?_ (fun _ he => by cases he)
      intro rows treeSize root b head he
      cases he
      exact persistRows_pending hrow
    | fail e => exact h.setQuiet cache rfl
    | drop => exact h.setQuiet cache rfl
    | reset hphase => exact h.setQuiet cache rfl
  | begin hfree hnew => exact h.setQuiet s.cache rfl
  | replay hfree hold =>
    refine h.setPhase s.cache (fun _ _ _ _ _ he => by cases he) ?_
    intro c he
    cases he
    exact returned_of_getCommitment hold _
  | acquire ha hphase hne hcheck hl =>
    rename_i i a
    have hs : Settled { s.setPhase i a .locked with cache := s.cache } := h.setQuiet s.cache rfl
    exact ⟨hs.batches, hs.unique, hs.covered, hs.pending, hs.returned⟩
  | commit reported ha hphase => exact commit_settled hinv hchain h ha hphase reported
  | release ha hphase hl => exact ⟨h.batches, h.unique, h.covered, h.pending, h.returned⟩
  | restart => exact ⟨h.batches, h.unique, h.covered, by simp, by simp⟩

end settled

theorem BatchOk.prune {db : Db P} {b : LedgerBatchRow} (h : BatchOk db b) (cutoff : OffsetDateTime) :
    BatchOk (prunePayloadsOlderThan cutoff db).1 b := by
  obtain ⟨before, rows, after, hentries, hne, hin, hout, hlast, hroot⟩ := h
  refine ⟨before.map (pruneRow cutoff), rows.map (pruneRow cutoff), after.map (pruneRow cutoff), ?_, ?_, ?_, ?_, ?_, ?_⟩
  · rw [← List.map_append, ← List.map_append, ← hentries]
    rfl
  · simpa using hne
  · simpa using hin
  · rw [← List.map_append]
    intro r hr
    obtain ⟨old, hold, rfl⟩ := List.mem_map.1 hr
    rw [pruneRow_batchId]
    exact hout old hold
  · rw [map_pruneRow_seq, hlast]
  · rw [← List.map_append, map_pruneRow_entryHash]
    exact hroot

theorem Settled.prune {cfg : Config P} {s : State P} (h : Settled s) (cutoff : OffsetDateTime) :
    Settled (act cfg s (.prune cutoff)) := by
  refine ⟨fun b hb => (h.batches b hb).prune cutoff, h.unique, ?_, ?_, h.returned⟩
  · intro r hr
    obtain ⟨old, hold, rfl⟩ := List.mem_map.1 hr
    rw [pruneRow_batchId]
    exact h.covered old hold
  · intro i a rows treeSize root b head ha hphase
    obtain ⟨h1, h2, h3, h4⟩ := h.pending i a rows treeSize root b head ha hphase
    exact ⟨h1, h2, h3, h4⟩

/-- everything a run with few enough leaves at its cache steps keeps -/
structure Sound (cfg : Config P) (s : State P) : Prop where
  inv : Inv s
  chained : Chained cfg s
  settled : Settled s

theorem sound_init (cfg : Config P) : Sound cfg .init := ⟨inv_init, chained_init cfg, settled_init⟩

section runs

variable {cfg : Config P} {s : State P}

theorem Sound.act (h : Sound cfg s) (action : Action P) (hok : actionOk s action = true) :
    Sound cfg (act cfg s action) := by
  cases action with
  | op o => exact ⟨step_inv h.inv o hok, Effect.chained h.chained (step_effect o),
      Effect.settled h.inv h.chained h.settled (step_effect o)⟩
  | prune cutoff => exact ⟨h.inv.prune cutoff, h.chained.prune cutoff, h.settled.prune cutoff⟩

/-- **Every run** whose cache steps all find few enough leaves keeps it -/
theorem runActions_sound (h : Sound cfg s) (actions : List (Action P)) (hok : actionsOk cfg s actions = true) :
    Sound cfg (runActions cfg s actions) := by
  induction actions generalizing s with
  | nil => exact h
  | cons action actions ih =>
    rw [actionsOk, Bool.and_eq_true] at hok
    exact ih (h.act action hok.1) hok.2

theorem runActions_append (cfg : Config P) (s : State P) (xs ys : List (Action P)) :
    runActions cfg s (xs ++ ys) = runActions cfg (runActions cfg s xs) ys := by
  rw [runActions, runActions, runActions, List.foldl_append]

theorem actionsOk_append {xs ys : List (Action P)} :
    actionsOk cfg s (xs ++ ys) = true ↔ actionsOk cfg s xs = true ∧ actionsOk cfg (runActions cfg s xs) ys = true := by
  induction xs generalizing s with
  | nil => simp [actionsOk, runActions]
  | cons action xs ih =>
    rw [List.cons_append, actionsOk, actionsOk, Bool.and_eq_true, Bool.and_eq_true, ih, and_assoc]
    rfl

/-- batch rows stay -/
theorem Effect.batches_grow {s' : State P} (h : Effect cfg s s') : s.db.batches <+: s'.db.batches := by
  cases h with
  | commit reported ha hphase => exact List.prefix_append _ _
  | _ => exact List.prefix_rfl

theorem runActions_batches_grow (s : State P) (actions : List (Action P)) :
    s.db.batches <+: (runActions cfg s actions).db.batches := by
  induction actions generalizing s with
  | nil => exact List.prefix_rfl
  | cons action actions ih =>
    cases action with
    | op o => exact (step_effect o).batches_grow.trans (ih _)
    | prune cutoff => exact ih (act cfg s (.prune cutoff))

end runs

/-! ## Verifying what was returned -/

/-- the replay of intact rows succeeds, from the hash they entered at -/
theorem replay_of_intact {cfg : Config P} {expectedPrev : String} {rows : List (LedgerEntryRow P)}
    (h : Intact cfg expectedPrev rows) :
    ∃ envelopes, rows.mapM (fun r => r.envelope.toEnvelope .ledgerEntry) = .ok envelopes ∧
      replayIntact cfg expectedPrev (rows.zip envelopes) = true := by
  induction rows generalizing expectedPrev with
  | nil => exact ⟨[], rfl, rfl⟩
  | cons row rows ih =>
    obtain ⟨⟨hcontent, hprev⟩, hrest⟩ := intact_cons.1 h
    obtain ⟨envelopes, hmap, hreplay⟩ := ih hrest
    unfold contentIntact at hcontent
    split at hcontent
    · rename_i envelope henvelope
      refine ⟨envelope :: envelopes, ?_, ?_⟩
      · rw [List.mapM_cons, henvelope, hmap]
        rfl
      · rw [List.zip_cons_cons, replayIntact, hcontent, hreplay, Bool.and_true, Bool.and_true, decide_eq_true_eq]
        exact hprev
    · cases hcontent

/-- a batch row is found by its id -/
theorem find_batch {batches : List LedgerBatchRow} (hunique : (batches.map LedgerBatchRow.batchId).Nodup)
    {b : LedgerBatchRow} (hb : b ∈ batches) : batches.find? (fun c => decide (c.batchId = b.batchId)) = some b := by
  cases hfind : batches.find? (fun c => decide (c.batchId = b.batchId)) with
  | none => exact absurd (decide_eq_true rfl) (List.find?_eq_none.1 hfind b hb)
  | some c =>
    have hid : c.batchId = b.batchId := by simpa using List.find?_some hfind
    rw [List.inj_on_of_nodup_map hunique (List.mem_of_find?_eq_some hfind) hb hid]

/-- the rows up to the last seq of a segment are the segment and what is before it -/
theorem filter_segment {before rows after : List (LedgerEntryRow P)} (hasc : Ascending (before ++ rows ++ after))
    (hhex : HexRows rows) (hne : rows ≠ []) :
    (before ++ rows ++ after).filter (fun r => decide (r.seq ≤ (rows.map LedgerEntryRow.seq).getLastD 0)) =
      before ++ rows := by
  obtain ⟨h1, -, h3⟩ := List.pairwise_append.1 hasc
  have hafter : after.filter (fun r => decide (r.seq ≤ (rows.map LedgerEntryRow.seq).getLastD 0)) = [] := by
    rw [List.filter_eq_nil_iff]
    intro r hr
    obtain ⟨init, last, rfl⟩ := rows.eq_nil_or_concat.resolve_left hne
    rw [List.concat_eq_append, List.map_append, List.map_singleton, List.getLastD_concat, decide_eq_true_eq, not_le]
    exact h3 last (by simp) r hr
  rw [List.filter_append, filter_lastSeq ⟨h1, hhex, hne⟩, hafter, List.append_nil]

/-- **A returned commitment verifies** -/
theorem verify_of_returned {cfg : Config P} {s : State P} (h : Sound cfg s) {c : Commitment} (hc : Returned s.db c) :
    verify cfg s.db c = .ok true := by
  obtain ⟨b, hb, hid, hproof⟩ := hc
  obtain ⟨before, rows, after, hentries, hne, hin, hout, hlast, root, hroot, hhex⟩ := h.settled.batches b hb
  have hasc : Ascending (before ++ rows ++ after) := hentries ▸ h.inv.ascending
  have hhexRows : HexRows rows := fun r hr => h.inv.hex r (by rw [hentries]; simp [hr])
  have hascRows : Ascending rows := (List.pairwise_append.1 (List.pairwise_append.1 hasc).1).2.1
  have hfilter : (before ++ rows ++ after).filter (fun r => decide (r.batchId = c.batchId)) = rows := by
    rw [List.filter_append, List.filter_append, List.filter_eq_nil_iff.2, List.filter_eq_self.2,
      List.filter_eq_nil_iff.2, List.nil_append, List.append_nil]
    · intro r hr
      simpa [← hid] using hout r (List.mem_append_right _ hr)
    · intro r hr
      simpa [← hid] using hin r hr
    · intro r hr
      simpa [← hid] using hout r (List.mem_append_left _ hr)
  have hintact : Intact cfg ((before.map LedgerEntryRow.entryHash).getLastD genesisHash) rows := by
    have := h.chained.intact
    rw [hentries, intact_append, intact_append] at this
    exact this.1.2
  obtain ⟨envelopes, hmap, hreplay⟩ := replay_of_intact hintact
  have hleaves : entryHashes ((before ++ rows ++ after).filter fun r => decide (r.seq ≤ b.lastSeq)) =
      (before ++ rows).map LedgerEntryRow.entryHash := by
    rw [hlast, filter_segment hasc hhexRows hne, entryHashes_of_ascending (List.pairwise_append.1 hasc).1]
  unfold verify
  rw [hentries, hfilter, orderBySeq_of_ascending hascRows, ← hid, find_batch h.settled.unique hb]
  obtain ⟨first, rest, rfl⟩ := List.exists_cons_of_ne_nil hne
  dsimp only
  rw [hmap]
  have hfirst := (intact_cons.1 hintact).1.2
  rw [hleaves, hroot, hproof, hhex, hfirst]
  change Except.ok (replayIntact cfg _ _ && decide _) = _
  rw [hreplay, Bool.true_and, decide_eq_true rfl]

/-! ## The message of a row -/

/-- what the entry hash covers, read from the columns -/
def LedgerEntryRow.input (cfg : Config P) (row : LedgerEntryRow P) : Except EntryHashError EntryHashInput := do
  let envelope ← (row.envelope.toEnvelope .ledgerEntry).mapError fun _ => .outOfRange "envelope"
  let prev ← parseHash "prev_hash" row.prevHash
  let payloadHash ← parseHash "payload_hash" row.payloadHash
  let seq ← seqToU64 row.seq
  let micros ← timestampMicros row.eventTimestamp
  let version ← versionToU32 row.version
  return {
    networkId := cfg.networkId
    shardId := cfg.shardId
    seq := seq
    prevHash := prev
    eventId := row.eventId
    kind := row.kind
    issuer := row.issuer
    subject := row.subject
    payloadHash := payloadHash
    timestampMicros := micros
    eventVersion := version
    envelope := envelope }

/-- the bytes it digests -/
def LedgerEntryRow.message (cfg : Config P) (row : LedgerEntryRow P) : Except EntryHashError Bytes := do
  let input ← row.input cfg
  entrySigningBytes input

/-- an intact row: its entry hash is that of its message -/
theorem contentIntact_message {cfg : Config P} {row : LedgerEntryRow P} (h : contentIntact cfg row = true) :
    payloadMatches cfg.codec row.payload row.payloadHash = true ∧
      ∃ m, row.message cfg = .ok m ∧ row.entryHash = hexEncode (Sha256.hash m).toList := by
  unfold contentIntact at h
  split at h
  · rename_i envelope henvelope
    rw [entryContentIntact, Bool.and_eq_true] at h
    obtain ⟨hpayload, h⟩ := h
    refine ⟨hpayload, ?_⟩
    split at h
    · rename_i hash hhash
      rw [← of_decide_eq_true h]
      unfold hashEntry at hhash
      obtain ⟨prev, hprev, hhash⟩ := bind_eq_ok.1 hhash
      obtain ⟨digest, hdigest, hhash⟩ := bind_eq_ok.1 hhash
      obtain ⟨seq, hseq, hhash⟩ := bind_eq_ok.1 hhash
      obtain ⟨micros, hmicros, hhash⟩ := bind_eq_ok.1 hhash
      obtain ⟨version, hversion, hhash⟩ := bind_eq_ok.1 hhash
      obtain ⟨d, hd, hhash⟩ := bind_eq_ok.1 hhash
      obtain ⟨m, hm, hd⟩ := bind_eq_ok.1 hd
      cases hhash
      cases hd
      refine ⟨m, bind_eq_ok.2 ⟨_, ?_, hm⟩, rfl⟩
      rw [LedgerEntryRow.input, henvelope]
      exact bind_eq_ok.2 ⟨_, rfl, bind_eq_ok.2 ⟨_, hprev, bind_eq_ok.2 ⟨_, hdigest, bind_eq_ok.2 ⟨_, hseq,
        bind_eq_ok.2 ⟨_, hmicros, bind_eq_ok.2 ⟨_, hversion, rfl⟩⟩⟩⟩⟩⟩
    · cases h
  · cases h

/-- the hashed columns of two rows are equal; the time column holds whole microseconds -/
structure SameColumns (row row' : LedgerEntryRow P) : Prop where
  seq : row'.seq = row.seq
  eventId : row'.eventId = row.eventId
  kind : row'.kind = row.kind
  issuer : row'.issuer = row.issuer
  subject : row'.subject = row.subject
  payloadHash : row'.payloadHash = row.payloadHash
  eventTimestamp : row'.eventTimestamp / 1000 = row.eventTimestamp / 1000
  version : row'.version = row.version
  prevHash : row'.prevHash = row.prevHash
  envelope : row'.envelope = row.envelope

theorem SameColumns.input {cfg : Config P} {row row' : LedgerEntryRow P} (h : SameColumns row row') :
    row'.input cfg = row.input cfg := by
  rw [LedgerEntryRow.input, LedgerEntryRow.input, timestampMicros, timestampMicros, h.seq, h.eventId, h.kind, h.issuer,
    h.subject, h.payloadHash, h.eventTimestamp, h.version, h.prevHash, h.envelope]

theorem seqToU64_inj {a b : ℤ} {n : UInt64} (ha : seqToU64 a = .ok n) (hb : seqToU64 b = .ok n) : a = b := by
  have key : ∀ x : ℤ, seqToU64 x = .ok n → x = n.toNat := by
    intro x hx
    unfold seqToU64 at hx
    split_ifs at hx with hrange
    rw [← Except.ok.inj hx, UInt64.toNat_ofNat']
    omega
  rw [key a ha, key b hb]

theorem versionToU32_inj {a b : Int32} {n : UInt32} (ha : versionToU32 a = .ok n) (hb : versionToU32 b = .ok n) :
    a = b := by
  have key : ∀ x : Int32, versionToU32 x = .ok n → x = n.toInt32 := by
    intro x hx
    unfold versionToU32 at hx
    split_ifs at hx
    rw [← Except.ok.inj hx]
    rfl
  rw [key a ha, key b hb]

theorem timestampMicros_inj {a b : OffsetDateTime} {n : Int64} (ha : timestampMicros a = .ok n)
    (hb : timestampMicros b = .ok n) : a / 1000 = b / 1000 := by
  have key : ∀ x : OffsetDateTime, timestampMicros x = .ok n → x / 1000 = n.toInt := by
    intro x hx
    unfold timestampMicros at hx
    dsimp only at hx
    split_ifs at hx with hrange
    rw [← Except.ok.inj hx, Int64.toInt_ofInt_of_le]
    · exact hrange.1
    · exact Int.lt_of_le_sub_one hrange.2
  rw [key a ha, key b hb]

/-- envelope columns that read back as the current envelope are the ones that are written for it -/
theorem envelopeRow_of_current {row row' : EnvelopeRow}
    (h : EnvelopeRow.fromEnvelope (.current .ledgerEntry) = .ok row)
    (h' : row'.toEnvelope .ledgerEntry = .ok (.current .ledgerEntry)) : row' = row := by
  rw [EnvelopeRow.toEnvelope, mapError_eq_ok, EnvelopeWire.toEnvelope] at h'
  obtain ⟨bytes, hbytes, h'⟩ := bind_eq_ok.1 h'
  obtain rfl := Except.ok.inj ((decodeLowerHex_hexEncode _).symm.trans hbytes)
  obtain ⟨hl, hr, halgo, hx⟩ := Envelope.fromParts_eq_ok h'
  obtain rfl : (⟨1, 1, 1, [0, 0]⟩ : EnvelopeRow) = row := by
    have : EnvelopeRow.fromEnvelope (.current .ledgerEntry) = .ok ⟨1, 1, 1, [0, 0]⟩ := by decide +kernel
    rw [this] at h
    exact Except.ok.inj h
  obtain ⟨layoutVersion, rulesVersion, hashAlgo, extensions⟩ := row'
  dsimp only [EnvelopeRow.toWire] at hl hr halgo hx
  have hlayout : layoutVersion = 1 := by
    have hnat : 1 = layoutVersion.toInt.toNat % 2 ^ 16 := congrArg UInt16.toNat hl
    have hle := layoutVersion.le_toInt
    have hlt := layoutVersion.toInt_lt
    exact Int16.toInt_inj.1 (by change layoutVersion.toInt = 1; omega)
  have hrules : rulesVersion = 1 := by
    have hnat : 1 = rulesVersion.toInt.toNat % 2 ^ 32 := congrArg UInt32.toNat hr
    have hle := rulesVersion.le_toInt
    have hlt := rulesVersion.toInt_lt
    exact Int32.toInt_inj.1 (by change rulesVersion.toInt = 1; omega)
  have hhash : hashAlgo = 1 := by
    unfold HashAlgo.fromId at halgo
    split_ifs at halgo with hrange hid hid
    · have hnat : hashAlgo.toInt.toNat % 2 ^ 8 = 1 := congrArg UInt8.toNat hid
      exact Int16.toInt_inj.1 (by change hashAlgo.toInt = 1; omega)
    · exact absurd hid (by decide)
  have hext : extensions = [0, 0] := hx.trans (by decide +kernel)
  rw [hlayout, hrules, hhash, hext]

/-- rows with one message have the same hashed columns, when one of them was written under the current envelope -/
theorem sameColumns_of_message {cfg : Config P} {row row' : LedgerEntryRow P} {m : Bytes}
    (hcurrent : EnvelopeRow.fromEnvelope (.current .ledgerEntry) = .ok row.envelope) (h : row.message cfg = .ok m)
    (h' : row'.message cfg = .ok m) : SameColumns row row' := by
  obtain ⟨input, hinput, hm⟩ := bind_eq_ok.1 h
  obtain ⟨input', hinput', hm'⟩ := bind_eq_ok.1 h'
  obtain rfl : input = input' := SignedMessage.agrees_of_signingBytes (.ledgerEntry input)
    (.ledgerEntry input') (toOption_eq_some.2 hm) (toOption_eq_some.2 hm')
  rw [LedgerEntryRow.input, toEnvelope_current hcurrent] at hinput
  obtain ⟨envelope, henvelope, hinput⟩ := bind_eq_ok.1 hinput
  obtain ⟨prev, hprev, hinput⟩ := bind_eq_ok.1 hinput
  obtain ⟨digest, hdigest, hinput⟩ := bind_eq_ok.1 hinput
  obtain ⟨seq, hseq, hinput⟩ := bind_eq_ok.1 hinput
  obtain ⟨micros, hmicros, hinput⟩ := bind_eq_ok.1 hinput
  obtain ⟨version, hversion, hinput⟩ := bind_eq_ok.1 hinput
  rw [LedgerEntryRow.input] at hinput'
  obtain ⟨envelope', henvelope', hinput'⟩ := bind_eq_ok.1 hinput'
  obtain ⟨prev', hprev', hinput'⟩ := bind_eq_ok.1 hinput'
  obtain ⟨digest', hdigest', hinput'⟩ := bind_eq_ok.1 hinput'
  obtain ⟨seq', hseq', hinput'⟩ := bind_eq_ok.1 hinput'
  obtain ⟨micros', hmicros', hinput'⟩ := bind_eq_ok.1 hinput'
  obtain ⟨version', hversion', hinput'⟩ := bind_eq_ok.1 hinput'
  cases henvelope
  cases hinput
  injection Except.ok.inj hinput' with _ _ hs hp hid hkind hissuer hsubject hd ht hv he
  subst hs hp hd ht hv he
  exact ⟨seqToU64_inj hseq' hseq, hid, hkind, hissuer, hsubject, parseHash_inj hdigest' hdigest,
    timestampMicros_inj hmicros' hmicros, versionToU32_inj hversion' hversion, parseHash_inj hprev' hprev,
    envelopeRow_of_current hcurrent (mapError_eq_ok.1 henvelope')⟩

/-! ## Tampering -/

/-- a row whose content is not intact is reported, wherever it is listed -/
theorem reported_of_content {cfg : Config P} {row : LedgerEntryRow P} {rows : List (LedgerEntryRow P)} (hrow : row ∈ rows)
    (h : contentIntact cfg row = false) (expectedPrev : String) :
    ∃ v ∈ viewsFrom cfg expectedPrev rows, v.chainIntact = false := by
  induction rows generalizing expectedPrev with
  | nil => cases hrow
  | cons first rest ih =>
    rcases List.mem_cons.1 hrow with rfl | hrest
    · exact ⟨_, List.mem_cons_self, by rw [LedgerEntryRow.view, h, Bool.false_and]⟩
    · obtain ⟨v, hv, hfalse⟩ := ih hrest first.entryHash
      exact ⟨v, List.mem_cons_of_mem _ hv, hfalse⟩

section json

open Json Avalon.CanonicalPayload Avalon.IdentityChain

variable {F : Type} [F64 F] {networkId shardId : String} {ed : Ed25519}

/-- the canonical form of a surviving payload, as bytes -/
def canonicalBytes (row : LedgerEntryRow (Value F)) : Option Bytes :=
  row.payload.bind fun payload => (canonicalize payload).toOption.map utf8

/-- everything that is hashed for these rows -/
def hashedInputs (cfg : Config (Value F)) (rows : List (LedgerEntryRow (Value F))) : List Bytes :=
  rows.filterMap (fun row => (row.message cfg).toOption) ++ rows.filterMap canonicalBytes

/-- a stored row changed: a hashed column under the old entry hash, the entry hash alone, or a surviving payload for one
with another canonical form (or none) under the old payload hash -/
def Tampered (row row' : LedgerEntryRow (Value F)) : Prop :=
  (row'.entryHash = row.entryHash ∧ ¬ SameColumns row row') ∨ (row'.entryHash ≠ row.entryHash ∧ SameColumns row row') ∨
    (row'.payloadHash = row.payloadHash ∧ ∃ payload payload', row.payload = some payload ∧ row'.payload = some payload' ∧
      canonicalize payload' ≠ canonicalize payload)

/-- the payload hash of an intact row is that of its payload's canonical form -/
theorem canonical_of_matches {row : LedgerEntryRow (Value F)} {payload : Value F}
    (h : payloadMatches (jsonCodec F) row.payload row.payloadHash = true) (hpayload : row.payload = some payload) :
    ∃ text, canonicalize payload = .ok text ∧ canonicalBytes row = some (utf8 text) ∧
      row.payloadHash = hexEncode (Sha256.hash (utf8 text)).toList := by
  rw [hpayload, payloadMatches] at h
  split at h
  · rename_i digest hdigest
    obtain ⟨text, htext, hhash⟩ := bind_eq_ok.1 (toOption_eq_some.1 hdigest)
    refine ⟨text, htext, ?_, ?_⟩
    · rw [canonicalBytes, hpayload, Option.bind_some, htext]
      rfl
    · rw [← of_decide_eq_true h, ← Except.ok.inj hhash]
  · cases h

/-- an intact row and a changed one that is intact too hash a collision -/
theorem collision_of_tampered {row row' : LedgerEntryRow (Value F)}
    (hcurrent : EnvelopeRow.fromEnvelope (.current .ledgerEntry) = .ok row.envelope)
    (h : contentIntact (jsonConfig F networkId shardId ed) row = true)
    (h' : contentIntact (jsonConfig F networkId shardId ed) row' = true) (htampered : Tampered row row') :
    CollisionIn Sha256.hash (hashedInputs (jsonConfig F networkId shardId ed) [row, row']) := by
  obtain ⟨hpayload, m, hm, hhash⟩ := contentIntact_message h
  obtain ⟨hpayload', m', hm', hhash'⟩ := contentIntact_message h'
  have hmem : m ∈ hashedInputs (jsonConfig F networkId shardId ed) [row, row'] :=
    List.mem_append_left _ (List.mem_filterMap.2 ⟨row, by simp, by rw [hm]; rfl⟩)
  have hmem' : m' ∈ hashedInputs (jsonConfig F networkId shardId ed) [row, row'] :=
    List.mem_append_left _ (List.mem_filterMap.2 ⟨row', by simp, by rw [hm']; rfl⟩)
  rcases htampered with ⟨hsame, hcolumns⟩ | ⟨hother, hcolumns⟩ | ⟨hsame, p, p', hp, hp', hne⟩
  · have hdigest : Sha256.hash m = Sha256.hash m' := FixedBytes.hexEncode_inj (by rw [← hhash, ← hhash', hsame])
    refine (eq_or_collision hmem hmem' hdigest).resolve_left ?_
    rintro rfl
    exact hcolumns (sameColumns_of_message hcurrent hm hm')
  · -- equal columns have one message, whose hash is both entry hashes
    have hmessage : row'.message (jsonConfig F networkId shardId ed) = row.message (jsonConfig F networkId shardId ed) := by
      rw [LedgerEntryRow.message, LedgerEntryRow.message, hcolumns.input]
    rw [hm, hm'] at hmessage
    rw [hhash, hhash', Except.ok.inj hmessage] at hother
    exact absurd rfl hother
  · obtain ⟨text, htext, hbytes, hdigest⟩ := canonical_of_matches hpayload hp
    obtain ⟨text', htext', hbytes', hdigest'⟩ := canonical_of_matches hpayload' hp'
    have hequal : Sha256.hash (utf8 text) = Sha256.hash (utf8 text') := FixedBytes.hexEncode_inj (by rw [← hdigest, ← hdigest', hsame])
    refine (eq_or_collision (List.mem_append_right _ (List.mem_filterMap.2 ⟨row, by simp, hbytes⟩))
      (List.mem_append_right _ (List.mem_filterMap.2 ⟨row', by simp, hbytes'⟩)) hequal).resolve_left ?_
    intro htexts
    rw [htext, htext', utf8_inj htexts] at hne
    exact hne rfl

/-- **The integrity of the chain.** After every run of ops and pruning passes:
- list_entries reports every stored entry as intact;
- verify accepts every commitment the run returned, if each of the run's cache steps found fewer leaves cached than the
  ledger has rows with its batch;
- if one stored row is changed, list_entries reports some entry as not intact, or the rows show a SHA-256 collision. -/
theorem ledger_integrity (networkId shardId : String) (ed : Ed25519) (actions : List (Action (Value F))) :
    (∀ v ∈ listEntries (jsonConfig F networkId shardId ed)
        (runActions (jsonConfig F networkId shardId ed) .init actions).db, v.chainIntact = true) ∧
    (actionsOk (jsonConfig F networkId shardId ed) .init actions = true → ∀ seen, seen <+: actions → ∀ i a c,
      (runActions (jsonConfig F networkId shardId ed) .init seen).attempts i = some a → a.phase = .ended (.ok c) →
      verify (jsonConfig F networkId shardId ed) (runActions (jsonConfig F networkId shardId ed) .init actions).db c =
        .ok true) ∧
    (∀ before row after row',
      (runActions (jsonConfig F networkId shardId ed) .init actions).db.entries = before ++ row :: after →
      Tampered row row' →
      (∃ v ∈ listEntries (jsonConfig F networkId shardId ed)
        { (runActions (jsonConfig F networkId shardId ed) .init actions).db with entries := before ++ row' :: after },
        v.chainIntact = false) ∨
      CollisionIn Sha256.hash (hashedInputs (jsonConfig F networkId shardId ed) [row, row'])) := by
  have hchain := runActions_chained (chained_init (jsonConfig F networkId shardId ed)) actions
  refine ⟨?_, ?_, ?_⟩
  · rw [listEntries_of_ascending _ hchain.ascending]
    exact hchain.intact
  · intro hok seen hseen i a c ha hphase
    obtain ⟨later, rfl⟩ := hseen
    obtain ⟨hok1, -⟩ := actionsOk_append.1 hok
    have hsound := runActions_sound (sound_init _) _ hok
    have hseen := runActions_sound (sound_init _) seen hok1
    obtain ⟨b, hb, hreturned⟩ := hseen.settled.returned i a c ha hphase
    refine verify_of_returned hsound ⟨b, ?_, hreturned⟩
    rw [runActions_append]
    exact (runActions_batches_grow _ later).subset hb
  · intro before row after row' hentries htampered
    have hrow : row ∈ (runActions (jsonConfig F networkId shardId ed) .init actions).db.entries := by
      rw [hentries]
      simp
    have hcontent : contentIntact (jsonConfig F networkId shardId ed) row = true := by
      have hintact := hchain.intact
      rw [hentries, intact_append, intact_cons] at hintact
      exact hintact.2.1.1
    cases hchanged : contentIntact (jsonConfig F networkId shardId ed) row' with
    | true => exact .inr (collision_of_tampered (hchain.current row hrow) hcontent hchanged htampered)
    | false =>
      left
      refine reported_of_content ?_ hchanged genesisHash
      exact (List.mem_insertionSort _).2 (by simp)

/-! ## An edit that is committed and pruned -/

/-- the commitment an attempt returned -/
def returnedCommitment (s : State P) (i : ℕ) : Option Commitment :=
  match s.attempts i with
  | some ⟨_, _, _, .ended (.ok c)⟩ => some c
  | _ => none

theorem exists_returned {s : State P} {i : ℕ} (h : (returnedCommitment s i).isSome = true) :
    ∃ a c, s.attempts i = some a ∧ a.phase = .ended (.ok c) := by
  unfold returnedCommitment at h
  split at h
  · rename_i ha
    exact ⟨_, _, ha, rfl⟩
  · cases h

/-- an edit without a chain position -/
def levelEdit : ProtocolEvent (Value Decimal) := profileEvent (.object [("level", .number (.posInt 1))]) none

/-- the operator's signature over the head of the run -/
def levelEd25519 : Ed25519 := operatorSigning [
  (.ofHex 32 "c1dba37146ecd0da6ef4172316503237191dc5d5f1de96c4749d0f763669444c", .ofHex 64
    "0a74b1624aecdfacb66775125680ab0138e70f453e9c70a18535c10bc537b5389d2051ea1d18bccf1befc1911eb370b106c19c62ba4b72833f6190154495f20a")]

def levelConfig : Config (Value Decimal) := jsonConfig Decimal "avalon-conformance-test" "shard-1" levelEd25519

def committedEdit : List (Action (Value Decimal)) := (untilCommit levelEdit).map .op ++ [.op (.attempt 0 (.commit true))]

def prunedEdit : List (Action (Value Decimal)) := committedEdit ++ [.prune 1790000001000000000]

/-- the commitment of a pruned edit verifies, and another kind is reported -/
theorem ledger_integrity_pruned_edit :
    (∃ a c, (runActions levelConfig .init prunedEdit).attempts 0 = some a ∧
      a.phase = .ended (.ok c) ∧
      verify levelConfig (runActions levelConfig .init prunedEdit).db c = .ok true) ∧
    ∃ row, (runActions levelConfig .init prunedEdit).db.entries = [row] ∧
      ((∃ v ∈ listEntries levelConfig
        { (runActions levelConfig .init prunedEdit).db with entries := [{ row with kind := "profile.removed" }] }, v.chainIntact = false) ∨
      CollisionIn Sha256.hash (hashedInputs levelConfig [row, { row with kind := "profile.removed" }])) := by
  have hrun : (returnedCommitment (runActions levelConfig .init prunedEdit) 0).isSome = true ∧
      actionsOk levelConfig .init prunedEdit = true ∧
      (runActions levelConfig .init prunedEdit).db.entries.map LedgerEntryRow.kind = ["profile.updated"] := by
    decide +kernel
  obtain ⟨hreturned, hok, hkinds⟩ := hrun
  obtain ⟨a, c, ha, hphase⟩ := exists_returned hreturned
  have hintegrity := ledger_integrity (F := Decimal) "avalon-conformance-test" "shard-1" levelEd25519 prunedEdit
  rw [show jsonConfig _ "avalon-conformance-test" "shard-1" levelEd25519 = levelConfig from rfl] at hintegrity
  obtain ⟨-, hverify, htamper⟩ := hintegrity
  refine ⟨⟨a, c, ha, hphase, hverify hok _ List.prefix_rfl 0 a c ha hphase⟩, ?_⟩
  obtain ⟨row, hrow, hkind⟩ := List.map_eq_singleton_iff.1 hkinds
  refine ⟨row, hrow, htamper [] row [] _ hrow (.inl ⟨rfl, ?_⟩)⟩
  intro hcolumns
  have hsame : "profile.removed" = row.kind := hcolumns.kind
  rw [hkind] at hsame
  exact absurd hsame (by decide)

/-- the payload is the number 1 under one key -/
def isLevelOne : Option (Value Decimal) → Bool
  | some (.object [(_, .number (.posInt n))]) => decide (n = 1)
  | _ => false

/-- over all runs, an entry whose stored payload is changed to this one is reported, or what was hashed collides -/
def ChangeReported (changed : Option (Value Decimal)) : Prop :=
  ∀ (actions : List (Action (Value Decimal))) (before : List (LedgerEntryRow (Value Decimal)))
    (row : LedgerEntryRow (Value Decimal)) (after : List (LedgerEntryRow (Value Decimal))),
    (runActions levelConfig .init actions).db.entries = before ++ row :: after → row.payload.isSome = true →
    changed ≠ row.payload →
    (∃ v ∈ listEntries levelConfig { (runActions levelConfig .init actions).db with
      entries := before ++ { row with payload := changed } :: after }, v.chainIntact = false) ∨
    CollisionIn Sha256.hash (hashedInputs levelConfig [row, { row with payload := changed }])

def levelOneAsFloat : Option (Value Decimal) := some (.object [("level", .number (.float (⟨false, 1, 0⟩ : Decimal)))])

theorem not_changeReported {changed : Option (Value Decimal)} (hchanged : changed ∈ [none, levelOneAsFloat]) :
    ¬ ChangeReported changed := by
  have hevaluated : (∀ changed ∈ [none, levelOneAsFloat],
      ∀ row ∈ (runActions levelConfig .init committedEdit).db.entries, isLevelOne row.payload = true ∧
        (∀ v ∈ listEntries levelConfig { (runActions levelConfig .init committedEdit).db with
          entries := [{ row with payload := changed }] }, v.chainIntact = true) ∧
        ¬ CollisionIn Sha256.hash (hashedInputs levelConfig [row, { row with payload := changed }])) ∧
      (runActions levelConfig .init committedEdit).db.entries.length = 1 := by
    decide +kernel
  obtain ⟨hunreported, hone⟩ := hevaluated
  intro h
  obtain ⟨row, hrow⟩ := List.length_eq_one_iff.1 hone
  obtain ⟨hlevel, hintact, hcollision⟩ := hunreported changed hchanged row (by rw [hrow]; exact List.mem_singleton_self _)
  have hsome : row.payload.isSome = true := by
    cases hp : row.payload with
    | none => rw [hp] at hlevel; cases hlevel
    | some payload => rfl
  have hne : changed ≠ row.payload := by
    rintro rfl
    simp only [List.mem_cons, List.not_mem_nil, or_false] at hchanged
    rcases hchanged with hnone | hfloat
    · rw [hnone] at hsome
      cases hsome
    · rw [hfloat] at hlevel
      cases hlevel
  rcases h committedEdit [] row [] hrow hsome hne with ⟨v, hv, hfalse⟩ | hcollides
  · rw [hintact v hv] at hfalse
    cases hfalse
  · exact hcollision hcollides

/-- **Unreported changes**: a stored payload that is taken away, or whose 1 is replaced by 1.0 -/
theorem payload_change_unreported : ¬ ChangeReported none ∧ ¬ ChangeReported levelOneAsFloat :=
  ⟨not_changeReported (by simp), not_changeReported (by simp)⟩

end json

end Avalon.Ledger
