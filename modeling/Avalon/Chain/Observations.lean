/-
Observed tree heads (`crates/chain/src/mirror.rs`: `insert_observation`, `observations_at`, `detect_equivocation`), and the
mirror-watcher's check of each new one against those on record.

The table keeps one row for each source, network, shard and tree size; a later observation under the same four is not
stored and not checked. Inserting an observation and checking it are two steps: other observations may be inserted in
between. A node's own signed history, which the watcher compares as one more source, is left out.

Results:
- `mem_detectEquivocation`: whom a finding accuses.
- `findings_of_first_observations`: whatever the order, there is a finding for a tree size of a shard exactly if the first
  observations of two sources differ; if no source takes a root back, exactly if two observations differ.
- `second_root_unseen`: one source with two roots goes unnoticed.
-/
import Mathlib.Tactic
import Avalon.Core.Fallible
import Avalon.Protocol.SigningBytes
import Avalon.Protocol.LedgerEntry
import Avalon.Chain.Ledger
import Avalon.Chain.Mirror

namespace Avalon.Observations

open Avalon.SigningBytes Avalon.LedgerEntry Avalon.Ledger
open Fallible
open Mirror (timestamptz)

/-! ## The table -/

/-- a verified tree head and where it came from, with its envelope as received or as stored -/
structure Observed (E : Type) where
  sourceUrl : String
  networkId : String
  shardId : String
  treeSize : Int64
  rootHash : String
  signature : String
  signingKeyId : String
  createdAt : OffsetDateTime
  observedAt : OffsetDateTime
  envelope : E
deriving DecidableEq

abbrev ObservedSth := Observed Envelope

abbrev ObservedRow := Observed EnvelopeRow

structure EquivocationFinding where
  networkId : String
  shardId : String
  treeSize : Int64
  sourceA : String
  rootHashA : String
  sourceB : String
  rootHashB : String
  resolvedAt : Option OffsetDateTime
  resolvedRootHash : Option String
deriving DecidableEq

variable {E E' : Type}

/-- the unique constraint of the table -/
def Observed.SameKey (a : Observed E) (b : Observed E') : Prop :=
  a.sourceUrl = b.sourceUrl ∧ a.networkId = b.networkId ∧ a.shardId = b.shardId ∧ a.treeSize = b.treeSize

instance (a : Observed E) (b : Observed E') : Decidable (a.SameKey b) := inferInstanceAs (Decidable (_ ∧ _ ∧ _ ∧ _))

def detectEquivocation (existing : List ObservedSth) (candidate : ObservedSth) : List EquivocationFinding :=
  (existing.filter fun e =>
    decide (e.networkId = candidate.networkId ∧ e.shardId = candidate.shardId ∧ e.treeSize = candidate.treeSize ∧
      e.sourceUrl ≠ candidate.sourceUrl ∧ e.rootHash ≠ candidate.rootHash)).map fun e =>
    { networkId := candidate.networkId
      shardId := candidate.shardId
      treeSize := candidate.treeSize
      sourceA := e.sourceUrl
      rootHashA := e.rootHash
      sourceB := candidate.sourceUrl
      rootHashB := candidate.rootHash
      resolvedAt := none
      resolvedRootHash := none }

/-- false when the source has a row at that network, shard and tree size, and nothing was written -/
def insertObservation (rows : List ObservedRow) (obs : ObservedSth) : Except SettlementError (List ObservedRow × Bool) := do
  let envelope ← EnvelopeRow.fromEnvelope obs.envelope
  return if rows.any fun r => decide (r.SameKey obs) then (rows, false)
    else (rows ++ [{ obs with
      createdAt := timestamptz obs.createdAt, observedAt := timestamptz obs.observedAt, envelope := envelope }], true)

def observedSthFromRow (row : ObservedRow) : Except SettlementError ObservedSth := do
  let envelope ← row.envelope.toEnvelope .settlementSth
  return { row with envelope := envelope }

def observationsAt (rows : List ObservedRow) (networkId shardId : String) (treeSize : Int64) :
    Except SettlementError (List ObservedSth) :=
  (rows.filter fun r => decide (r.networkId = networkId ∧ r.shardId = shardId ∧ r.treeSize = treeSize)).mapM observedSthFromRow

/-! ## The watcher -/

structure Watcher where
  rows : List ObservedRow
  /-- inserted as new, and not yet checked -/
  pending : List ObservedSth
  findings : List EquivocationFinding

def Watcher.init : Watcher := ⟨[], [], []⟩

inductive Action where
  | insert (obs : ObservedSth)
  | check (obs : ObservedSth)

/-- a failed statement is logged, and that observation is done with -/
def step (s : Watcher) : Action → Option Watcher
  | .insert obs =>
    match insertObservation s.rows obs with
    | .ok (rows, isNew) => some { s with rows := rows, pending := if isNew then obs :: s.pending else s.pending }
    | .error _ => some s
  | .check obs =>
    if obs ∈ s.pending then
      match observationsAt s.rows obs.networkId obs.shardId obs.treeSize with
      | .ok existing =>
        some { s with pending := s.pending.erase obs, findings := s.findings ++ detectEquivocation existing obs }
      | .error _ => some { s with pending := s.pending.erase obs }
    else none

def run (actions : List Action) : Option Watcher := actions.foldlM step .init

/-- the observations in the order they are inserted -/
def arrivals (actions : List Action) : List ObservedSth :=
  actions.filterMap fun
    | .insert obs => some obs
    | .check _ => none

/-! ## What is stored -/

/-- the envelope fits its columns and reads back -/
def Readable (obs : ObservedSth) : Prop :=
  ∃ envelope, EnvelopeRow.fromEnvelope obs.envelope = .ok envelope ∧ envelope.toEnvelope .settlementSth = .ok obs.envelope

/-- what a stored observation reads back as -/
def readBack (obs : ObservedSth) : ObservedSth :=
  { obs with createdAt := timestamptz obs.createdAt, observedAt := timestamptz obs.observedAt }

/-- the row holds the observation -/
def RowOf (obs : ObservedSth) (row : ObservedRow) : Prop := observedSthFromRow row = .ok (readBack obs)

/-- the first observation of each source at each network, shard and tree size -/
def firsts : List ObservedSth → List ObservedSth :=
  List.foldl (fun kept obs => if kept.any fun k => decide (k.SameKey obs) then kept else kept ++ [obs]) []

theorem firsts_concat (os : List ObservedSth) (obs : ObservedSth) :
    firsts (os ++ [obs]) = if (firsts os).any fun k => decide (k.SameKey obs) then firsts os else firsts os ++ [obs] :=
  List.foldl_concat ..

theorem firsts_subset (os : List ObservedSth) : firsts os ⊆ os := by
  induction os using List.reverseRecOn with
  | nil => exact fun _ h => h
  | append_singleton os obs ih =>
    rw [firsts_concat]
    split_ifs
    · exact fun o ho => List.mem_append_left _ (ih ho)
    · intro o ho
      rcases List.mem_append.1 ho with ho | ho
      · exact List.mem_append_left _ (ih ho)
      · exact List.mem_append_right _ ho

/-- every observation has a first one under its key -/
theorem exists_first {os : List ObservedSth} {obs : ObservedSth} (h : obs ∈ os) : ∃ o ∈ firsts os, o.SameKey obs := by
  induction os using List.reverseRecOn with
  | nil => cases h
  | append_singleton os last ih =>
    rw [firsts_concat]
    rcases List.mem_append.1 h with h | h
    · obtain ⟨o, ho, hkey⟩ := ih h
      split_ifs
      · exact ⟨o, ho, hkey⟩
      · exact ⟨o, List.mem_append_left _ ho, hkey⟩
    · obtain rfl := List.mem_singleton.1 h
      split_ifs with hany
      · obtain ⟨o, ho, hkey⟩ := List.any_eq_true.1 hany
        exact ⟨o, ho, of_decide_eq_true hkey⟩
      · exact ⟨obs, List.mem_append_right _ (List.mem_singleton_self obs), rfl, rfl, rfl, rfl⟩

/-- and only one -/
theorem eq_of_sameKey {os : List ObservedSth} {a b : ObservedSth} (ha : a ∈ firsts os) (hb : b ∈ firsts os) (h : a.SameKey b) :
    a = b := by
  induction os using List.reverseRecOn with
  | nil => cases ha
  | append_singleton os last ih =>
    rw [firsts_concat] at ha hb
    split_ifs at ha hb with hany
    · exact ih ha hb
    · have hnew : ∀ o ∈ firsts os, ¬ o.SameKey last := by
        intro o ho hkey
        exact hany (List.any_eq_true.2 ⟨o, ho, decide_eq_true hkey⟩)
      rcases List.mem_append.1 ha with hold | hlast <;> rcases List.mem_append.1 hb with hold' | hlast'
      · exact ih hold hold'
      · rw [List.mem_singleton.1 hlast'] at h
        exact absurd h (hnew a hold)
      · rw [List.mem_singleton.1 hlast] at h
        exact absurd ⟨h.1.symm, h.2.1.symm, h.2.2.1.symm, h.2.2.2.symm⟩ (hnew b hold')
      · rw [List.mem_singleton.1 hlast, List.mem_singleton.1 hlast']

theorem RowOf.fields {obs : ObservedSth} {row : ObservedRow} (h : RowOf obs row) :
    row.sourceUrl = obs.sourceUrl ∧ row.networkId = obs.networkId ∧ row.shardId = obs.shardId ∧ row.treeSize = obs.treeSize := by
  obtain ⟨envelope, -, hrow⟩ := bind_eq_ok.1 h
  have heq : { row with envelope := envelope } = readBack obs := Except.ok.inj hrow
  exact ⟨congrArg Observed.sourceUrl heq, congrArg Observed.networkId heq, congrArg Observed.shardId heq,
    congrArg Observed.treeSize heq⟩

theorem any_sameKey {stored : List ObservedSth} {rows : List ObservedRow} (h : List.Forall₂ RowOf stored rows) (obs : ObservedSth) :
    rows.any (fun r => decide (r.SameKey obs)) = stored.any fun o => decide (o.SameKey obs) := by
  induction h with
  | nil => rfl
  | cons hrow _ ih =>
    obtain ⟨hsource, hnetwork, hshard, hsize⟩ := hrow.fields
    rename_i first row _ _ _
    have hkey : row.SameKey obs ↔ first.SameKey obs := by
      rw [Observed.SameKey, Observed.SameKey, hsource, hnetwork, hshard, hsize]
    rw [List.any_cons, List.any_cons, ih, decide_eq_decide.2 hkey]

/-- **Reading** the rows of a tree size gives the observations stored there -/
theorem observationsAt_eq {stored : List ObservedSth} {rows : List ObservedRow} (h : List.Forall₂ RowOf stored rows)
    (networkId shardId : String) (treeSize : Int64) :
    observationsAt rows networkId shardId treeSize =
      .ok ((stored.filter fun o => decide (o.networkId = networkId ∧ o.shardId = shardId ∧ o.treeSize = treeSize)).map readBack) := by
  unfold observationsAt
  induction h with
  | nil => rfl
  | cons hrow _ ih =>
    obtain ⟨-, hnetwork, hshard, hsize⟩ := hrow.fields
    simp only [List.filter_cons, hnetwork, hshard, hsize]
    split_ifs
    · rw [List.mapM_cons, hrow, ih]
      rfl
    · exact ih

/-- **Storing** an observation -/
theorem insertObservation_eq {stored : List ObservedSth} {rows : List ObservedRow} (h : List.Forall₂ RowOf stored rows)
    {obs : ObservedSth} (hread : Readable obs) :
    (stored.any (fun o => decide (o.SameKey obs)) = true ∧ insertObservation rows obs = .ok (rows, false)) ∨
      (stored.any (fun o => decide (o.SameKey obs)) = false ∧
        ∃ row, RowOf obs row ∧ insertObservation rows obs = .ok (rows ++ [row], true)) := by
  obtain ⟨envelope, hfits, hreads⟩ := hread
  unfold insertObservation
  rw [hfits, any_sameKey h]
  cases hany : stored.any fun o => decide (o.SameKey obs) with
  | true => exact .inl ⟨rfl, rfl⟩
  | false =>
    refine .inr ⟨rfl, _, ?_, rfl⟩
    rw [RowOf, observedSthFromRow, hreads]
    rfl

/-! ## Findings -/

/-- two observations of one tree size of a shard that differ in their root -/
def Conflict (a b : ObservedSth) : Prop :=
  a.networkId = b.networkId ∧ a.shardId = b.shardId ∧ a.treeSize = b.treeSize ∧ a.rootHash ≠ b.rootHash

/-- the finding names the sources and roots of the two observations -/
structure Accuses (f : EquivocationFinding) (a b : ObservedSth) : Prop where
  network : f.networkId = a.networkId ∧ f.networkId = b.networkId
  shard : f.shardId = a.shardId ∧ f.shardId = b.shardId
  treeSize : f.treeSize = a.treeSize ∧ f.treeSize = b.treeSize
  sources : f.sourceA = a.sourceUrl ∧ f.sourceB = b.sourceUrl ∧ a.sourceUrl ≠ b.sourceUrl
  roots : f.rootHashA = a.rootHash ∧ f.rootHashB = b.rootHash ∧ a.rootHash ≠ b.rootHash

/-- **Whom a finding accuses**: an observation on record and the one checked -/
theorem mem_detectEquivocation {stored : List ObservedSth} {obs : ObservedSth} {f : EquivocationFinding} :
    f ∈ detectEquivocation ((stored.filter fun o =>
        decide (o.networkId = obs.networkId ∧ o.shardId = obs.shardId ∧ o.treeSize = obs.treeSize)).map readBack) obs →
      ∃ a ∈ stored, Accuses f a obs := by
  intro hf
  obtain ⟨e, he, rfl⟩ := List.mem_map.1 hf
  obtain ⟨hin, hconflict⟩ := List.mem_filter.1 he
  obtain ⟨a, ha, rfl⟩ := List.mem_map.1 hin
  obtain ⟨hnetwork, hshard, hsize, hsource, hroot⟩ := of_decide_eq_true hconflict
  exact ⟨a, (List.mem_filter.1 ha).1, ⟨hnetwork.symm, rfl⟩, ⟨hshard.symm, rfl⟩, ⟨hsize.symm, rfl⟩, ⟨rfl, rfl, hsource⟩, rfl, rfl, hroot⟩

/-- **A conflict on record** with the one checked is found -/
theorem exists_mem_detectEquivocation {stored : List ObservedSth} {a obs : ObservedSth} (ha : a ∈ stored) (h : Conflict a obs)
    (hsource : a.sourceUrl ≠ obs.sourceUrl) :
    ∃ f ∈ detectEquivocation ((stored.filter fun o =>
        decide (o.networkId = obs.networkId ∧ o.shardId = obs.shardId ∧ o.treeSize = obs.treeSize)).map readBack) obs,
      Accuses f a obs := by
  obtain ⟨hnetwork, hshard, hsize, hroot⟩ := h
  refine ⟨_, List.mem_map.2 ⟨readBack a, List.mem_filter.2 ⟨List.mem_map_of_mem (List.mem_filter.2 ⟨ha, ?_⟩), ?_⟩, rfl⟩, ?_⟩
  · exact decide_eq_true ⟨hnetwork, hshard, hsize⟩
  · exact decide_eq_true ⟨hnetwork, hshard, hsize, hsource, hroot⟩
  · exact ⟨⟨hnetwork.symm, rfl⟩, ⟨hshard.symm, rfl⟩, ⟨hsize.symm, rfl⟩, ⟨rfl, rfl, hsource⟩, rfl, rfl, hroot⟩

/-! ## Every order -/

structure Inv (os : List ObservedSth) (s : Watcher) : Prop where
  rows : List.Forall₂ RowOf (firsts os) s.rows
  pending : ∀ o ∈ s.pending, o ∈ firsts os
  sound : ∀ f ∈ s.findings, ∃ a ∈ firsts os, ∃ b ∈ firsts os, Accuses f a b
  complete : ∀ a ∈ firsts os, ∀ b ∈ firsts os, Conflict a b →
    a ∈ s.pending ∨ b ∈ s.pending ∨ ∃ f ∈ s.findings, Accuses f a b ∨ Accuses f b a

theorem Conflict.symm {a b : ObservedSth} (h : Conflict a b) : Conflict b a :=
  ⟨h.1.symm, h.2.1.symm, h.2.2.1.symm, h.2.2.2.symm⟩

/-- first observations that conflict are of different sources -/
theorem Conflict.source_ne {os : List ObservedSth} {a b : ObservedSth} (h : Conflict a b) (ha : a ∈ firsts os) (hb : b ∈ firsts os) :
    a.sourceUrl ≠ b.sourceUrl := by
  intro hsource
  exact h.2.2.2 (congrArg Observed.rootHash (eq_of_sameKey ha hb ⟨hsource, h.1, h.2.1, h.2.2.1⟩))

theorem inv_insert {os : List ObservedSth} {s s' : Watcher} (h : Inv os s) {obs : ObservedSth} (hread : Readable obs)
    (hstep : step s (.insert obs) = some s') : Inv (os ++ [obs]) s' := by
  simp only [step] at hstep
  rcases insertObservation_eq h.rows hread with ⟨hany, hinsert⟩ | ⟨hany, row, hrow, hinsert⟩
  · rw [hinsert] at hstep
    obtain rfl := Option.some.inj hstep
    have hsame : firsts (os ++ [obs]) = firsts os := by
      rw [firsts_concat, if_pos hany]
    exact ⟨hsame ▸ h.rows, hsame ▸ h.pending, hsame ▸ h.sound, hsame ▸ h.complete⟩
  · rw [hinsert] at hstep
    obtain rfl := Option.some.inj hstep
    have hnew : firsts (os ++ [obs]) = firsts os ++ [obs] := by
      rw [firsts_concat, if_neg (by rw [hany]; exact Bool.false_ne_true)]
    refine ⟨?_, ?_, ?_, ?_⟩
    · rw [hnew]
      exact List.rel_append h.rows (.cons hrow .nil)
    · intro o ho
      rw [hnew]
      rcases List.mem_cons.1 ho with rfl | ho
      · exact List.mem_append_right _ (List.mem_singleton_self o)
      · exact List.mem_append_left _ (h.pending o ho)
    · intro f hf
      obtain ⟨a, ha, b, hb, haccuses⟩ := h.sound f hf
      rw [hnew]
      exact ⟨a, List.mem_append_left _ ha, b, List.mem_append_left _ hb, haccuses⟩
    · -- the new one waits for its check
      intro a ha b hb hconflict
      rw [hnew] at ha hb
      rcases List.mem_append.1 ha with hold | hlast
      · rcases List.mem_append.1 hb with hold' | hlast'
        · rcases h.complete a hold b hold' hconflict with hp | hp | hf
          · exact .inl (List.mem_cons_of_mem _ hp)
          · exact .inr (.inl (List.mem_cons_of_mem _ hp))
          · exact .inr (.inr hf)
        · rw [List.mem_singleton.1 hlast']
          exact .inr (.inl List.mem_cons_self)
      · rw [List.mem_singleton.1 hlast]
        exact .inl List.mem_cons_self

theorem inv_check {os : List ObservedSth} {s s' : Watcher} (h : Inv os s) {obs : ObservedSth}
    (hstep : step s (.check obs) = some s') : Inv os s' := by
  simp only [step] at hstep
  split_ifs at hstep with hpending
  rw [observationsAt_eq h.rows] at hstep
  obtain rfl := Option.some.inj hstep
  have hobs := h.pending obs hpending
  refine ⟨h.rows, fun o ho => h.pending o (List.mem_of_mem_erase ho), ?_, ?_⟩
  · intro f hf
    rcases List.mem_append.1 hf with hf | hf
    · exact h.sound f hf
    · obtain ⟨a, ha, haccuses⟩ := mem_detectEquivocation hf
      exact ⟨a, ha, obs, hobs, haccuses⟩
  · intro a ha b hb hconflict
    -- the one checked meets the other on record
    by_cases haobs : a = obs
    · subst haobs
      obtain ⟨f, hf, haccuses⟩ := exists_mem_detectEquivocation hb hconflict.symm (hconflict.symm.source_ne hb ha)
      exact .inr (.inr ⟨f, List.mem_append_right _ hf, .inr haccuses⟩)
    · by_cases hbobs : b = obs
      · subst hbobs
        obtain ⟨f, hf, haccuses⟩ := exists_mem_detectEquivocation ha hconflict (hconflict.source_ne ha hb)
        exact .inr (.inr ⟨f, List.mem_append_right _ hf, .inl haccuses⟩)
      · rcases h.complete a ha b hb hconflict with hp | hp | ⟨f, hf, haccuses⟩
        · exact .inl ((List.mem_erase_of_ne haobs).2 hp)
        · exact .inr (.inl ((List.mem_erase_of_ne hbobs).2 hp))
        · exact .inr (.inr ⟨f, List.mem_append_left _ hf, haccuses⟩)

theorem inv_init : Inv [] .init :=
  ⟨.nil, fun _ h => (by cases h), fun _ h => (by cases h), fun _ h => (by cases h)⟩

theorem inv_run {actions : List Action} {s : Watcher} (hrun : run actions = some s)
    (hread : ∀ obs ∈ arrivals actions, Readable obs) : Inv (arrivals actions) s := by
  induction actions using List.reverseRecOn generalizing s with
  | nil =>
    obtain rfl := Option.some.inj hrun
    exact inv_init
  | append_singleton actions action ih =>
    rw [run, List.foldlM_append] at hrun
    obtain ⟨s', hrun', hlast⟩ := Option.bind_eq_some_iff.1 hrun
    have hstep : step s' action = some s := by
      rw [List.foldlM_cons] at hlast
      obtain ⟨s'', hstep, hnil⟩ := Option.bind_eq_some_iff.1 hlast
      exact Option.some.inj hnil ▸ hstep
    have happend : arrivals (actions ++ [action]) = arrivals actions ++ arrivals [action] := List.filterMap_append
    rw [happend] at hread ⊢
    have hinv := ih hrun' fun obs hobs => hread obs (List.mem_append_left _ hobs)
    cases action with
    | insert obs => exact inv_insert hinv (hread obs (List.mem_append_right _ (List.mem_singleton_self obs))) hstep
    | check obs =>
      have hnone : arrivals [.check obs] = [] := rfl
      rw [hnone, List.append_nil]
      exact inv_check hinv hstep

/-- the finding is about that tree size of the shard -/
def EquivocationFinding.At (f : EquivocationFinding) (networkId shardId : String) (treeSize : Int64) : Prop :=
  f.networkId = networkId ∧ f.shardId = shardId ∧ f.treeSize = treeSize

def Observed.At (obs : Observed E) (networkId shardId : String) (treeSize : Int64) : Prop :=
  obs.networkId = networkId ∧ obs.shardId = shardId ∧ obs.treeSize = treeSize

/-- the first observation of its source at its tree size -/
def First (os : List ObservedSth) (obs : ObservedSth) : Prop :=
  ∃ before after, os = before ++ obs :: after ∧ ∀ o ∈ before, ¬ o.SameKey obs

theorem mem_firsts_iff {os : List ObservedSth} {obs : ObservedSth} : obs ∈ firsts os ↔ First os obs := by
  induction os using List.reverseRecOn with
  | nil =>
    refine ⟨fun h => (by cases h), ?_⟩
    rintro ⟨before, after, heq, -⟩
    cases before <;> cases heq
  | append_singleton os last ih =>
    rw [firsts_concat]
    constructor
    · intro h
      have hcases : obs ∈ firsts os ∨ (obs = last ∧ (firsts os).any (fun k => decide (k.SameKey last)) = false) := by
        split_ifs at h with hany
        · exact .inl h
        · rcases List.mem_append.1 h with h | h
          · exact .inl h
          · exact .inr ⟨List.mem_singleton.1 h, Bool.eq_false_iff.2 hany⟩
      rcases hcases with h | ⟨rfl, hany⟩
      · obtain ⟨before, after, rfl, hbefore⟩ := ih.1 h
        exact ⟨before, after ++ [last], by simp, hbefore⟩
      · refine ⟨os, [], rfl, fun o ho hkey => ?_⟩
        obtain ⟨k, hk, hkey'⟩ := exists_first ho
        have htrue : (firsts os).any (fun k => decide (k.SameKey obs)) = true :=
          List.any_eq_true.2 ⟨k, hk, decide_eq_true ⟨hkey'.1.trans hkey.1, hkey'.2.1.trans hkey.2.1,
            hkey'.2.2.1.trans hkey.2.2.1, hkey'.2.2.2.trans hkey.2.2.2⟩⟩
        rw [hany] at htrue
        cases htrue
    · rintro ⟨before, after, heq, hbefore⟩
      rcases List.eq_nil_or_concat after with rfl | ⟨after, last', rfl⟩
      · obtain ⟨rfl, hlast⟩ := List.append_inj' heq rfl
        obtain rfl := List.singleton_inj.1 hlast
        have hany : ¬ (firsts os).any (fun k => decide (k.SameKey last)) = true := by
          intro htrue
          obtain ⟨k, hk, hkey⟩ := List.any_eq_true.1 htrue
          exact hbefore k (firsts_subset os hk) (of_decide_eq_true hkey)
        rw [if_neg hany]
        exact List.mem_append_right _ (List.mem_singleton_self _)
      · rw [List.concat_eq_append, ← List.cons_append, ← List.append_assoc] at heq
        obtain ⟨rfl, -⟩ := List.append_inj' heq rfl
        have hold := ih.2 ⟨before, after, rfl, hbefore⟩
        split_ifs
        · exact hold
        · exact List.mem_append_left _ hold

/-- **Equivocation detection.** However insertions and checks interleave, once every new observation was checked there is a
finding for a tree size of a shard exactly if the first observations of two sources there differ in their root. If no source
reports two roots for one tree size, that is exactly if two observations there differ. A finding names two observations of
that network, shard and tree size -/
theorem findings_of_first_observations (actions : List Action) (s : Watcher) (hrun : run actions = some s) (hdone : s.pending = [])
    (hread : ∀ obs ∈ arrivals actions, Readable obs) (networkId shardId : String) (treeSize : Int64) :
    ((∃ f ∈ s.findings, f.At networkId shardId treeSize) ↔
      ∃ a b, First (arrivals actions) a ∧ First (arrivals actions) b ∧ a.At networkId shardId treeSize ∧
        b.At networkId shardId treeSize ∧ a.rootHash ≠ b.rootHash) ∧
    ((∀ a ∈ arrivals actions, ∀ b ∈ arrivals actions, a.SameKey b → a.rootHash = b.rootHash) →
      ((∃ f ∈ s.findings, f.At networkId shardId treeSize) ↔
        ∃ a ∈ arrivals actions, ∃ b ∈ arrivals actions, a.At networkId shardId treeSize ∧ b.At networkId shardId treeSize ∧
          a.rootHash ≠ b.rootHash)) ∧
    ∀ f ∈ s.findings, ∃ a ∈ arrivals actions, ∃ b ∈ arrivals actions, Accuses f a b := by
  have hinv := inv_run hrun hread
  have hexact : (∃ f ∈ s.findings, f.At networkId shardId treeSize) ↔
      ∃ a b, First (arrivals actions) a ∧ First (arrivals actions) b ∧ a.At networkId shardId treeSize ∧
        b.At networkId shardId treeSize ∧ a.rootHash ≠ b.rootHash := by
    constructor
    · rintro ⟨f, hf, rfl, rfl, rfl⟩
      obtain ⟨a, ha, b, hb, h⟩ := hinv.sound f hf
      exact ⟨a, b, mem_firsts_iff.1 ha, mem_firsts_iff.1 hb, ⟨h.network.1.symm, h.shard.1.symm, h.treeSize.1.symm⟩,
        ⟨h.network.2.symm, h.shard.2.symm, h.treeSize.2.symm⟩, h.roots.2.2⟩
    · rintro ⟨a, b, ha, hb, hat, hbt, hroot⟩
      have hconflict : Conflict a b := ⟨hat.1.trans hbt.1.symm, hat.2.1.trans hbt.2.1.symm, hat.2.2.trans hbt.2.2.symm, hroot⟩
      rcases hinv.complete a (mem_firsts_iff.2 ha) b (mem_firsts_iff.2 hb) hconflict with hp | hp | ⟨f, hf, h⟩
      · rw [hdone] at hp
        cases hp
      · rw [hdone] at hp
        cases hp
      · refine ⟨f, hf, ?_⟩
        rcases h with h | h
        · exact ⟨h.network.1.trans hat.1, h.shard.1.trans hat.2.1, h.treeSize.1.trans hat.2.2⟩
        · exact ⟨h.network.1.trans hbt.1, h.shard.1.trans hbt.2.1, h.treeSize.1.trans hbt.2.2⟩
  refine ⟨hexact, fun hsteady => ?_, ?_⟩
  · rw [hexact]
    constructor
    · rintro ⟨a, b, ha, hb, hat, hbt, hroot⟩
      exact ⟨a, firsts_subset _ (mem_firsts_iff.2 ha), b, firsts_subset _ (mem_firsts_iff.2 hb), hat, hbt, hroot⟩
    · rintro ⟨a, ha, b, hb, hat, hbt, hroot⟩
      -- the first observation of a source has the root of all of its observations
      obtain ⟨a', ha', hkey⟩ := exists_first ha
      obtain ⟨b', hb', hkey'⟩ := exists_first hb
      have hroota := hsteady a' (firsts_subset _ ha') a ha hkey
      have hrootb := hsteady b' (firsts_subset _ hb') b hb hkey'
      refine ⟨a', b', mem_firsts_iff.1 ha', mem_firsts_iff.1 hb', ?_, ?_, ?_⟩
      · exact ⟨hkey.2.1.trans hat.1, hkey.2.2.1.trans hat.2.1, hkey.2.2.2.trans hat.2.2⟩
      · exact ⟨hkey'.2.1.trans hbt.1, hkey'.2.2.1.trans hbt.2.1, hkey'.2.2.2.trans hbt.2.2⟩
      · rwa [hroota, hrootb]
  · intro f hf
    obtain ⟨a, ha, b, hb, h⟩ := hinv.sound f hf
    exact ⟨a, firsts_subset _ ha, b, firsts_subset _ hb, h⟩

/-! ## Two roots of one source -/

def head (source root : String) : ObservedSth :=
  ⟨source, "avalon", "core", 10, root, "00", "key", 946684800000000000, 946684800000000000, .current .settlementSth⟩

theorem readable_head (source root : String) : Readable (head source root) := by
  have hfits : ∃ envelope, EnvelopeRow.fromEnvelope (.current .settlementSth) = .ok envelope ∧
      envelope.toEnvelope .settlementSth = .ok (.current .settlementSth) := by
    refine ⟨⟨1, 1, 1, [0, 0]⟩, ?_, ?_⟩
    · decide
    · decide
  exact hfits

/-- two sources disagree, and both are inserted before either is checked -/
def disagreement : List Action := [.insert (head "a" "aa"), .insert (head "b" "bb"), .check (head "a" "aa"), .check (head "b" "bb")]

theorem findings_of_disagreement : ∃ s, run disagreement = some s ∧ ∃ f ∈ s.findings, f.At "avalon" "core" 10 := by
  have hrun : ∃ s, run disagreement = some s ∧ s.pending = [] := by decide +kernel
  obtain ⟨s, hrun, hdone⟩ := hrun
  refine ⟨s, hrun, (findings_of_first_observations disagreement s hrun hdone ?_ "avalon" "core" 10).1.2 ?_⟩
  · intro obs hobs
    rcases List.mem_cons.1 hobs with rfl | hobs
    · exact readable_head _ _
    · rw [List.mem_singleton.1 hobs]
      exact readable_head _ _
  · refine ⟨head "a" "aa", head "b" "bb", ⟨[], [head "b" "bb"], rfl, fun o ho => by cases ho⟩, ⟨[head "a" "aa"], [], rfl, ?_⟩,
      ⟨rfl, rfl, rfl⟩, ⟨rfl, rfl, rfl⟩, by decide⟩
    intro o ho
    rw [List.mem_singleton.1 ho]
    decide

/-- **A second root of one source** is not stored and not checked -/
theorem second_root_unseen :
    ¬ ∀ actions s, run actions = some s → s.pending = [] → (∀ obs ∈ arrivals actions, Readable obs) →
      ∀ networkId shardId treeSize, (∃ f ∈ s.findings, f.At networkId shardId treeSize) ↔
        ∃ a ∈ arrivals actions, ∃ b ∈ arrivals actions, a.At networkId shardId treeSize ∧ b.At networkId shardId treeSize ∧
          a.rootHash ≠ b.rootHash := by
  intro h
  have hrun : ∃ s, run [.insert (head "a" "aa"), .check (head "a" "aa"), .insert (head "a" "bb")] = some s ∧ s.pending = [] ∧
      s.findings = [] := by decide +kernel
  obtain ⟨s, hrun, hdone, hnone⟩ := hrun
  have hiff := h _ s hrun hdone (by
    intro obs hobs
    rcases List.mem_cons.1 hobs with rfl | hobs
    · exact readable_head _ _
    · rw [List.mem_singleton.1 hobs]
      exact readable_head _ _) "avalon" "core" 10
  obtain ⟨f, hf, -⟩ := hiff.2 ⟨head "a" "aa", List.mem_cons_self, head "a" "bb", List.mem_cons_of_mem _ List.mem_cons_self,
    ⟨rfl, rfl, rfl⟩, ⟨rfl, rfl, rfl⟩, by decide⟩
  rw [hnone] at hf
  cases hf

end Avalon.Observations
