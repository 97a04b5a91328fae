/-
Counts that are kept twice (`crates/indexer/src/projections/attestations.rs`, `integrator_bindings.rs`): `apply` writes a table
that the registry counts from, and `fold` replays the same writes in memory.

The two part where a write finds something under its id. The table keeps an attestation as it was first issued, and its first
revocation; the fold takes the last of each, and an issue takes a revocation back (`reissue_takes_a_revocation_back`). The table
keeps the end of a binding that is established again; the fold starts it anew. And a time column holds whole microseconds.

The subjects are known identities: an event of another one is put off, since the table refers to `identities`.

Results:
- `folds_agree`: where no write of a run does so, the fold shows the table's rows and all counts agree; where one does, the two
  differ from there on. Both for attestations and for bindings; that of all players ever agrees in every run.
-/
import Mathlib.Tactic
import Mathlib.Data.Finset.Card
import Avalon.Core.TableView
import Avalon.Protocol.Events
import Avalon.Protocol.IdentityId
import Avalon.Chain.Mirror

namespace Avalon.FoldedCounts

open TableView Avalon.LedgerEntry Avalon.Events Avalon.Identity Avalon.Mirror

/-! ## Attestations -/

inductive AttestationWrite where
  | issue (id : Uuid) (issuer : String) (subject : IdentityId) (achievement : String) (issuedAt : OffsetDateTime)
  | revoke (id : Uuid) (revokedAt : OffsetDateTime)

/-- the stream that delivers an event -/
structure EventOrigin where
  networkId : String
  shardId : String

/-- a row of `indexer_attestations` under its id -/
structure AttestationRow where
  issuer : String
  subject : IdentityId
  achievement : String
  issuedAt : OffsetDateTime
  networkId : String
  shardId : String
  revokedAt : Option OffsetDateTime

abbrev Attestations := Table Uuid AttestationRow

def originNetwork (origin : Option EventOrigin) : String := origin.elim "" EventOrigin.networkId

def originShard (origin : Option EventOrigin) : String := origin.elim "" EventOrigin.shardId

def applyAttestation (origin : Option EventOrigin) (t : Attestations) : AttestationWrite → Attestations
  | .issue id issuer subject achievement issuedAt =>
    -- ON CONFLICT (id) DO NOTHING
    match t.lookup id with
    | some _ => t
    | none =>
      t.insert id ⟨issuer, subject, achievement, timestamptz issuedAt, originNetwork origin, originShard origin, none⟩
  | .revoke id revokedAt =>
    match t.lookup id with
    | some row =>
      -- AND network_id = $3 AND shard_id = $4 AND revoked_at IS NULL
      if row.networkId = originNetwork origin ∧ row.shardId = originShard origin ∧ row.revokedAt = none then
        t.insert id { row with revokedAt := some (timestamptz revokedAt) }
      else t
    | none => t

structure AttestationState where
  issuer : String
  subject : IdentityId
  revokedAt : Option OffsetDateTime
  deriving DecidableEq

/-- one write, to the map by id -/
def foldAttestation (byId : Table Uuid AttestationState) : AttestationWrite → Table Uuid AttestationState
  | .issue id issuer subject _ _ => byId.insert id ⟨issuer, subject, none⟩
  | .revoke id revokedAt =>
    match byId.lookup id with
    | some state => byId.insert id { state with revokedAt := some revokedAt }
    | none => byId

def attestationsById (writes : List AttestationWrite) : Table Uuid AttestationState := writes.foldl foldAttestation ∅

/-- `attestations::fold`; the order of a map's values is not fixed -/
def fold (writes : List AttestationWrite) : List AttestationState := values (attestationsById writes)

def countIssued (states : List AttestationState) (issuer : String) : ℕ :=
  (states.filter fun s => s.issuer = issuer).length

def countRevoked (states : List AttestationState) (issuer : String) : ℕ :=
  (states.filter fun s => s.issuer = issuer && s.revokedAt.isSome).length

/-- no revocation, or one to come -/
def heldAt (revokedAt : Option OffsetDateTime) (now : OffsetDateTime) : Bool :=
  match revokedAt with
  | some revokedAt => revokedAt > now
  | none => true

def countUniqueHolders (states : List AttestationState) (issuer : String) (now : OffsetDateTime) : ℕ :=
  ((states.filter fun s => s.issuer = issuer && heldAt s.revokedAt now).map AttestationState.subject).toFinset.card

/-- SELECT COUNT(*) .. WHERE issuer = $1 -/
def issuedCount (t : Attestations) (issuer : String) : ℕ := ((values t).filter fun row => row.issuer = issuer).length

/-- AND revoked_at IS NOT NULL -/
def revokedCount (t : Attestations) (issuer : String) : ℕ :=
  ((values t).filter fun row => row.issuer = issuer && row.revokedAt.isSome).length

/-- SELECT COUNT(DISTINCT subject) .. AND (revoked_at IS NULL OR revoked_at > now()) -/
def uniqueHolderCount (t : Attestations) (issuer : String) (now : OffsetDateTime) : ℕ :=
  ((values t).filter fun row => row.issuer = issuer &&
    (row.revokedAt.isNone || row.revokedAt.any fun revokedAt => revokedAt > now)).map AttestationRow.subject |>.dedup.length

def AttestationRow.state (row : AttestationRow) : AttestationState := ⟨row.issuer, row.subject, row.revokedAt⟩

/-! ## Bindings -/

inductive IntegratorBindingWrite where
  | establish (id : Uuid) (identityId : IdentityId) (integratorId : Uuid) (establishedAt : OffsetDateTime)
  | ended (id : Uuid) (endedAt : OffsetDateTime)

/-- a row of `indexer_integrator_bindings` under its id -/
structure BindingRow where
  identityId : IdentityId
  integratorId : Uuid
  establishedAt : OffsetDateTime
  endedAt : Option OffsetDateTime

abbrev Bindings := Table Uuid BindingRow

def applyBinding (t : Bindings) : IntegratorBindingWrite → Bindings
  | .establish id identityId integratorId establishedAt =>
    match t.lookup id with
    | some row =>
      -- ON CONFLICT (id) DO UPDATE leaves ended_at alone
      t.insert id { row with identityId := identityId, integratorId := integratorId, establishedAt := timestamptz establishedAt }
    | none => t.insert id ⟨identityId, integratorId, timestamptz establishedAt, none⟩
  | .ended id endedAt =>
    match t.lookup id with
    | some row => t.insert id { row with endedAt := some (timestamptz endedAt) }
    | none => t

structure BindingState where
  integratorId : Uuid
  identityId : IdentityId
  active : Bool

def foldBinding (byId : Table Uuid BindingState) : IntegratorBindingWrite → Table Uuid BindingState
  | .establish id identityId integratorId _ => byId.insert id ⟨integratorId, identityId, true⟩
  | .ended id _ =>
    match byId.lookup id with
    | some state => byId.insert id { state with active := false }
    | none => byId

def bindingsById (writes : List IntegratorBindingWrite) : Table Uuid BindingState := writes.foldl foldBinding ∅

/-- `integrator_bindings::fold` -/
def foldBindings (writes : List IntegratorBindingWrite) : List BindingState := values (bindingsById writes)

def countActivePlayers (states : List BindingState) (integratorId : Uuid) : ℕ :=
  ((states.filter fun s => s.integratorId = integratorId && s.active).map BindingState.identityId).toFinset.card

def countTotalPlayersEver (states : List BindingState) (integratorId : Uuid) : ℕ :=
  ((states.filter fun s => s.integratorId = integratorId).map BindingState.identityId).toFinset.card

/-- SELECT COUNT(DISTINCT identity_id) .. WHERE integrator_id = $1 AND ended_at IS NULL -/
def activePlayerCount (t : Bindings) (integratorId : Uuid) : ℕ :=
  ((values t).filter fun row => row.integratorId = integratorId && row.endedAt.isNone).map BindingRow.identityId |>.dedup.length

def totalPlayersEver (t : Bindings) (integratorId : Uuid) : ℕ :=
  ((values t).filter fun row => row.integratorId = integratorId).map BindingRow.identityId |>.dedup.length

def BindingRow.state (row : BindingRow) : BindingState := ⟨row.integratorId, row.identityId, row.endedAt.isNone⟩

/-! ## Counting a table and what shows it -/

section Counting

variable {A B I : Type} [DecidableEq I] {view : A → B} {rows : List A} {states : List B}

theorem count_of_view (h : (rows.map view).Perm states) (p : B → Bool) :
    (states.filter p).length = (rows.filter fun r => p (view r)).length := by
  rw [← (h.filter p).length_eq, List.filter_map, List.length_map]
  rfl

theorem distinct_of_view (h : (rows.map view).Perm states) (p : B → Bool) (f : B → I) :
    ((states.filter p).map f).toFinset.card = ((rows.filter fun r => p (view r)).map fun r => f (view r)).dedup.length := by
  rw [← List.toFinset_eq_of_perm _ _ ((h.filter p).map f), List.card_toFinset, List.filter_map, List.map_map]
  rfl

end Counting

/-! ## Where the two agree -/

/-- a write of which table and fold make the same: no issue changes an attestation, no revocation changes another one, and the
time of one is whole microseconds -/
def SameAttestation (t : Attestations) : AttestationWrite → Prop
  | .issue id issuer subject _ _ => ∀ row ∈ t.lookup id, row.state = ⟨issuer, subject, none⟩
  | .revoke id revokedAt => ∀ row ∈ t.lookup id, row.revokedAt.getD (timestamptz revokedAt) = revokedAt

/-- no binding that has ended is established again -/
def SameBinding (t : Bindings) : IntegratorBindingWrite → Prop
  | .establish id _ _ _ => ∀ row ∈ t.lookup id, row.endedAt = none
  | .ended _ _ => True

instance (t : Attestations) (write : AttestationWrite) : Decidable (SameAttestation t write) := by
  unfold SameAttestation
  split <;> infer_instance

instance (t : Bindings) (write : IntegratorBindingWrite) : Decidable (SameBinding t write) := by
  unfold SameBinding
  split <;> infer_instance

/-- the rows of one stream -/
def OfStream (origin : Option EventOrigin) (t : Attestations) : Prop :=
  ∀ id, ∀ row ∈ t.lookup id, row.networkId = originNetwork origin ∧ row.shardId = originShard origin

variable {origin : Option EventOrigin} {t : Attestations} {byId : Table Uuid AttestationState}

theorem OfStream.insert (h : OfStream origin t) {id : Uuid} {row : AttestationRow}
    (hrow : row.networkId = originNetwork origin ∧ row.shardId = originShard origin) : OfStream origin (t.insert id row) := by
  intro id' row' hrow'
  rw [Option.mem_def, lookup_insert_eq] at hrow'
  split_ifs at hrow'
  · cases hrow'
    exact hrow
  · exact h id' row' hrow'

theorem ofStream_apply (h : OfStream origin t) (write : AttestationWrite) : OfStream origin (applyAttestation origin t write) := by
  cases write with
  | issue id issuer subject achievement issuedAt =>
    rw [applyAttestation]
    split
    · exact h
    · exact h.insert ⟨rfl, rfl⟩
  | revoke id revokedAt =>
    rw [applyAttestation]
    split
    · rename_i row hrow
      split_ifs
      · exact h.insert (h id row hrow)
      · exact h
    · exact h

theorem ofStream_applyAll (origin : Option EventOrigin) (writes : List AttestationWrite) :
    OfStream origin (writes.foldl (applyAttestation origin) ∅) := by
  suffices h : ∀ t, OfStream origin t → OfStream origin (writes.foldl (applyAttestation origin) t) from
    h ∅ (by simp [OfStream])
  induction writes with
  | nil => exact fun _ h => h
  | cons write writes ih => exact fun t h => ih _ (ofStream_apply h write)

/-- **A write to an attestation** that both show alike -/
theorem attestation_step (h : Shows AttestationRow.state t byId) (hstream : OfStream origin t) (write : AttestationWrite) :
    Shows AttestationRow.state (applyAttestation origin t write) (foldAttestation byId write) ↔ SameAttestation t write := by
  cases write with
  | issue id issuer subject achievement issuedAt =>
    rw [applyAttestation, foldAttestation, SameAttestation]
    cases hrow : t.lookup id with
    | none =>
      dsimp only
      rw [insert_shows_iff h]
      simp [AttestationRow.state]
    | some row =>
      dsimp only
      rw [insert_right_shows_iff h, hrow]
      simp
  | revoke id revokedAt =>
    rw [applyAttestation, foldAttestation, SameAttestation, ← h.lookup id]
    cases hrow : t.lookup id with
    | none => simpa using h
    | some row =>
      obtain ⟨hnetwork, hshard⟩ := hstream id row hrow
      simp only [Option.map_some, Option.mem_def, Option.some.injEq, forall_eq', hnetwork, hshard, true_and]
      cases hrevoked : row.revokedAt with
      | none =>
        rw [if_pos rfl, insert_shows_iff h]
        simp [AttestationRow.state]
      | some old =>
        -- the table keeps the first revocation, the fold the last
        rw [if_neg (by simp), insert_right_shows_iff h, hrow]
        simp [AttestationRow.state, hrevoked]

variable {b : Bindings} {bindings : Table Uuid BindingState}

/-- **A write to a binding** that both show alike -/
theorem binding_step (h : Shows BindingRow.state b bindings) (write : IntegratorBindingWrite) :
    Shows BindingRow.state (applyBinding b write) (foldBinding bindings write) ↔ SameBinding b write := by
  cases write with
  | establish id identityId integratorId establishedAt =>
    rw [applyBinding, foldBinding, SameBinding]
    cases hrow : b.lookup id with
    | none =>
      dsimp only
      rw [insert_shows_iff h]
      simp [BindingRow.state]
    | some row =>
      dsimp only
      rw [insert_shows_iff h]
      simp [BindingRow.state]
  | ended id endedAt =>
    rw [applyBinding, foldBinding, SameBinding, ← h.lookup id]
    cases hrow : b.lookup id with
    | none => simpa using h
    | some row =>
      simp only [Option.map_some, iff_true]
      rw [insert_shows_iff h]
      simp [BindingRow.state]

/-- the table after some writes of one stream -/
def attestationTable (origin : Option EventOrigin) (writes : List AttestationWrite) : Attestations :=
  writes.foldl (applyAttestation origin) ∅

def bindingTable (writes : List IntegratorBindingWrite) : Bindings := writes.foldl applyBinding ∅

theorem attestations_shown_iff (origin : Option EventOrigin) (writes : List AttestationWrite) :
    (∀ l, l <+: writes → Shows AttestationRow.state (attestationTable origin l) (attestationsById l)) ↔
      Along (applyAttestation origin) SameAttestation ∅ writes := by
  have hstep : ∀ t byId write, Shows AttestationRow.state t byId ∧ OfStream origin t →
      (Shows AttestationRow.state (applyAttestation origin t write) (foldAttestation byId write) ∧
        OfStream origin (applyAttestation origin t write) ↔ SameAttestation t write) := by
    intro t byId write h
    rw [attestation_step h.1 h.2, and_iff_left (ofStream_apply h.2 write)]
  have hrelated := prefixes_related_iff (applyAttestation origin) foldAttestation
    (fun t byId => Shows AttestationRow.state t byId ∧ OfStream origin t) hstep ⟨alike_empty, by simp [OfStream]⟩ writes
  rw [← hrelated]
  exact forall₂_congr fun l _ => (and_iff_left (ofStream_applyAll origin l)).symm

theorem bindings_shown_iff (writes : List IntegratorBindingWrite) :
    (∀ l, l <+: writes → Shows BindingRow.state (bindingTable l) (bindingsById l)) ↔ Along applyBinding SameBinding ∅ writes :=
  prefixes_related_iff applyBinding foldBinding (Shows BindingRow.state) (fun _ _ write h => binding_step h write) alike_empty
    writes

/-- the counts of a stream's attestations, from any order of the fold's values -/
def AttestationCountsAgree (origin : Option EventOrigin) (writes : List AttestationWrite) : Prop :=
  ∀ states, states.Perm (fold writes) → ∀ issuer,
    countIssued states issuer = issuedCount (attestationTable origin writes) issuer ∧
    countRevoked states issuer = revokedCount (attestationTable origin writes) issuer ∧
    ∀ now, countUniqueHolders states issuer now = uniqueHolderCount (attestationTable origin writes) issuer now

def ActiveCountsAgree (writes : List IntegratorBindingWrite) : Prop :=
  ∀ states, states.Perm (foldBindings writes) → ∀ integratorId,
    countActivePlayers states integratorId = activePlayerCount (bindingTable writes) integratorId

def TotalCountsAgree (writes : List IntegratorBindingWrite) : Prop :=
  ∀ states, states.Perm (foldBindings writes) → ∀ integratorId,
    countTotalPlayersEver states integratorId = totalPlayersEver (bindingTable writes) integratorId

theorem heldAt_eq (revokedAt : Option OffsetDateTime) (now : OffsetDateTime) :
    heldAt revokedAt now = (revokedAt.isNone || revokedAt.any fun revokedAt => revokedAt > now) := by
  cases revokedAt <;> simp [heldAt]

theorem attestationCounts_of_shows {writes : List AttestationWrite}
    (h : Shows AttestationRow.state (attestationTable origin writes) (attestationsById writes)) :
    AttestationCountsAgree origin writes := by
  intro states hstates issuer
  have hview := h.values_perm.trans hstates.symm
  refine ⟨?_, ?_, ?_⟩
  · exact count_of_view hview _
  · exact count_of_view hview _
  · intro now
    rw [countUniqueHolders, distinct_of_view hview, uniqueHolderCount]
    simp only [heldAt_eq]
    rfl

theorem activeCounts_of_shows {writes : List IntegratorBindingWrite}
    (h : Shows BindingRow.state (bindingTable writes) (bindingsById writes)) : ActiveCountsAgree writes :=
  fun _ hstates _ => distinct_of_view (h.values_perm.trans hstates.symm) _ _

/-- whose a binding is -/
def BindingRow.parties (row : BindingRow) : Uuid × IdentityId := (row.integratorId, row.identityId)

def BindingState.parties (state : BindingState) : Uuid × IdentityId := (state.integratorId, state.identityId)

/-- of that, table and fold agree in every run -/
theorem parties_step (h : Alike BindingRow.parties BindingState.parties b bindings) (write : IntegratorBindingWrite) :
    Alike BindingRow.parties BindingState.parties (applyBinding b write) (foldBinding bindings write) := by
  cases write with
  | establish id identityId integratorId establishedAt =>
    rw [applyBinding, foldBinding]
    cases b.lookup id <;> exact (insert_alike_iff h _ _ _).2 rfl
  | ended id endedAt =>
    have hid := h id
    rw [applyBinding, foldBinding]
    cases hrow : b.lookup id with
    | none =>
      rw [hrow, Option.map_none, eq_comm, Option.map_eq_none_iff] at hid
      rw [hid]
      exact h
    | some row =>
      rw [hrow, Option.map_some, eq_comm, Option.map_eq_some_iff] at hid
      obtain ⟨state, hstate, hsame⟩ := hid
      rw [hstate]
      exact (insert_alike_iff h _ _ _).2 hsame.symm

theorem parties_run (writes : List IntegratorBindingWrite) :
    Alike BindingRow.parties BindingState.parties (bindingTable writes) (bindingsById writes) := by
  suffices h : ∀ b bindings, Alike BindingRow.parties BindingState.parties b bindings →
      Alike BindingRow.parties BindingState.parties (writes.foldl applyBinding b) (writes.foldl foldBinding bindings) from
    h ∅ ∅ alike_empty
  induction writes with
  | nil => exact fun _ _ h => h
  | cons write writes ih => exact fun b bindings h => ih _ _ (parties_step h write)

theorem totalCounts (writes : List IntegratorBindingWrite) : TotalCountsAgree writes := by
  intro states hstates integratorId
  have hview := (parties_run writes).values_perm.trans (hstates.symm.map _)
  have hcount := distinct_of_view hview (fun p => p.1 = integratorId) Prod.snd
  rw [List.filter_map, List.map_map] at hcount
  exact hcount

/-! ## Both -/

/-- **Folds and tables agree.** For any writes of one stream and any writes of bindings:
- the fold shows the table's attestations after every prefix exactly if no issue changes an attestation, no revocation changes
  another one, and the times of revocation are whole microseconds; then all counts agree after every prefix;
- the fold shows the table's bindings after every prefix exactly if no binding that has ended is established again; then the
  counts of active players agree after every prefix;
- the counts of all players ever agree in any case. -/
theorem folds_agree (origin : Option EventOrigin) (writes : List AttestationWrite) (bindingWrites : List IntegratorBindingWrite) :
    ((∀ l, l <+: writes → Shows AttestationRow.state (attestationTable origin l) (attestationsById l)) ↔
      Along (applyAttestation origin) SameAttestation ∅ writes) ∧
    (Along (applyAttestation origin) SameAttestation ∅ writes → ∀ l, l <+: writes → AttestationCountsAgree origin l) ∧
    ((∀ l, l <+: bindingWrites → Shows BindingRow.state (bindingTable l) (bindingsById l)) ↔
      Along applyBinding SameBinding ∅ bindingWrites) ∧
    (Along applyBinding SameBinding ∅ bindingWrites → ∀ l, l <+: bindingWrites → ActiveCountsAgree l) ∧
    TotalCountsAgree bindingWrites := by
  refine ⟨attestations_shown_iff origin writes, ?_, bindings_shown_iff bindingWrites, ?_, totalCounts bindingWrites⟩
  · intro halong l hl
    exact attestationCounts_of_shows ((attestations_shown_iff origin writes).2 halong l hl)
  · intro halong l hl
    exact activeCounts_of_shows ((bindings_shown_iff bindingWrites).2 halong l hl)

/-! ## Ids that are used again -/

def anId : Uuid := .replicate 16 1

def aHolder : IdentityId := ⟨.replicate 32 2⟩

/-- an attestation is issued, revoked, and issued again -/
def issuedAgain : List AttestationWrite :=
  [.issue anId "game" aHolder "first" 0, .revoke anId 1000, .issue anId "game" aHolder "first" 0]

/-- a binding is established, ended, and established again -/
def establishedAgain : List IntegratorBindingWrite :=
  [.establish anId aHolder anId 0, .ended anId 1000, .establish anId aHolder anId 2000]

/-- the fold counts no revocation and one active player, where the tables have one and none -/
theorem reissue_takes_a_revocation_back :
    (¬ ∀ (origin : Option EventOrigin) (writes : List AttestationWrite), AttestationCountsAgree origin writes) ∧
      ¬ ∀ writes : List IntegratorBindingWrite, ActiveCountsAgree writes := by
  refine ⟨?_, ?_⟩
  · intro hclaim
    have hrevoked := (hclaim none issuedAgain _ (List.Perm.refl _) "game").2.1
    revert hrevoked
    decide +kernel
  · intro hclaim
    have hactive := hclaim establishedAgain _ (List.Perm.refl _) anId
    revert hactive
    decide +kernel

/-- up to the second issue, and up to the second establishment, the counts agree -/
theorem folds_agree_before_reuse :
    AttestationCountsAgree none (issuedAgain.take 2) ∧ ActiveCountsAgree (establishedAgain.take 2) := by
  obtain ⟨-, hissued, -, hactive, -⟩ := folds_agree none (issuedAgain.take 2) (establishedAgain.take 2)
  exact ⟨hissued (by decide +kernel) _ List.prefix_rfl, hactive (by decide +kernel) _ List.prefix_rfl⟩

end Avalon.FoldedCounts
