/-
Persisted tree heads and the committed entries (`crates/chain/src/postgres.rs`).

A persisted head is correct (`HeadCorrect`) when its root is the tree hash of the first tree-size committed entry hashes
in seq order. The cache is trusted by its length, so what matters is what the shared cache holds when an attempt reaches
its cache step:
- `Inv`: the cached tree represents the cached leaves; while an attempt that has passed its cache step holds the lock the
  cached leaves are a prefix of the committed hashes and its own; at all other times they are a prefix of the committed
  hashes, or there are more of them than committed rows.
- `cacheStepOk`: an attempt's cache step finds fewer leaves cached than the ledger has rows with its batch. It fails only
  on leaves that an attempt left in the cache without committing and nobody cleared.

Results:
- `step_inv`, `run_inv`: every op, and every run whose cache steps are all of that kind, keeps the invariant.
- `persisted_heads_correct`: in every such run, every persisted head is correct in every state reached.
- `stale_cache_signs_wrong_root`: without it a wrong root is signed: a dropped attempt leaves its leaf in the cache, the
  next commit of equal length does not replace it, and the one after extends it.
-/
import Mathlib.Tactic
import Avalon.Core.Bytes
import Avalon.Core.Fallible
import Avalon.Chain.Merkle
import Avalon.Chain.IncrementalMerkle
import Avalon.Chain.Ledger

namespace Avalon.Ledger

open Avalon.SigningBytes Avalon.LedgerEntry Avalon.Events Avalon.Sth Avalon.Merkle Avalon.IncrementalMerkle
open Fallible

variable {P : Type}

/-! ## Statement -/

/-- the head's root is the tree hash of the first tree-size committed entry hashes in seq order -/
def HeadCorrect (db : Db P) (head : SignedTreeHead) : Prop :=
  ∃ n, n ≤ db.entries.length ∧ head.treeSize = Int64.ofNat n ∧
    (mthOfHexHashes ledgerHashAlgo ((entryHashes db.entries).take n)).map (fun root => hexEncode root.toList) =
      .ok head.rootHash

/-- the cache step of an attempt finds fewer leaves cached than the ledger has rows with its batch -/
def cacheStepOk (s : State P) : Op P → Bool
  | .attempt i .compute =>
    match s.attempts i with
    | some ⟨_, _, _, .inserted rows⟩ => decide (s.cache.leaves.length < s.db.entries.length + rows.length)
    | _ => true
  | _ => true

/-- every cache step of a run is of that kind -/
def cacheStepsOk (cfg : Config P) : State P → List (Op P) → Bool
  | _, [] => true
  | s, op :: ops => cacheStepOk s op && cacheStepsOk cfg (step cfg s op) ops

/-! ## Rows -/

/-- the entry hashes are hex of 32 bytes -/
def HexRows (rows : List (LedgerEntryRow P)) : Prop := ∀ r ∈ rows, ∃ h : Hash, r.entryHash = hexEncode h.toList

/-- seq increases from row to row -/
def Ascending (rows : List (LedgerEntryRow P)) : Prop := rows.Pairwise fun a b => a.seq < b.seq

theorem orderBySeq_of_ascending {rows : List (LedgerEntryRow P)} (h : Ascending rows) : orderBySeq rows = rows :=
  (h.imp le_of_lt).insertionSort_eq

theorem entryHashes_of_ascending {rows : List (LedgerEntryRow P)} (h : Ascending rows) :
    entryHashes rows = rows.map LedgerEntryRow.entryHash := by
  rw [entryHashes, orderBySeq_of_ascending h]

theorem seq_le_maxSeq {rows : List (LedgerEntryRow P)} {r : LedgerEntryRow P} (h : r ∈ rows) :
    r.seq ≤ maxSeq rows := by
  have hmem : r.seq ∈ rows.map LedgerEntryRow.seq := List.mem_map_of_mem h
  obtain ⟨m, hm⟩ := Option.ne_none_iff_exists'.1 (mt List.max?_eq_none_iff.1 (List.ne_nil_of_mem hmem))
  rw [maxSeq, hm, Option.getD_some]
  exact (List.max?_eq_some_iff.1 hm).2 _ hmem

theorem hashEntry_hex {networkId shardId prevHash entryHash : String} {content : EntryContent}
    (h : hashEntry networkId shardId prevHash content = .ok entryHash) :
    ∃ d : Hash, entryHash = hexEncode d.toList := by
  unfold hashEntry at h
  obtain ⟨prev, -, h⟩ := bind_eq_ok.1 h
  obtain ⟨payloadHash, -, h⟩ := bind_eq_ok.1 h
  obtain ⟨seq, -, h⟩ := bind_eq_ok.1 h
  obtain ⟨micros, -, h⟩ := bind_eq_ok.1 h
  obtain ⟨version, -, h⟩ := bind_eq_ok.1 h
  obtain ⟨d, -, h⟩ := bind_eq_ok.1 h
  exact ⟨d, (Except.ok.inj h).symm⟩

theorem hashEvent_hex {cfg : Config P} {seq : ℤ} {prevHash payloadHash entryHash : String} {event : ProtocolEvent P}
    (h : hashEvent cfg seq prevHash event payloadHash = .ok entryHash) :
    ∃ d : Hash, entryHash = hexEncode d.toList := by
  obtain ⟨timestamp, -, h⟩ := bind_eq_ok.1 h
  exact hashEntry_hex (mapError_eq_ok.1 h)

/-- the row that is written for an event -/
structure RowOf (cfg : Config P) (batchId : Uuid) (now : OffsetDateTime) (prevHash : String) (seq : ℤ)
    (event : ProtocolEvent P) (row : LedgerEntryRow P) : Prop where
  entryHash : hashEvent cfg seq prevHash event row.payloadHash = .ok row.entryHash
  seq : row.seq = seq
  eventId : row.eventId = event.id
  kind : row.kind = event.kind
  issuer : row.issuer = event.issuer
  subject : row.subject = event.subject
  payload : row.payload = some (storedPayload cfg.codec event)
  payloadHash : ∃ digest, cfg.codec.payloadHash (storedPayload cfg.codec event) = some digest ∧
    row.payloadHash = hexEncode digest.toList
  eventTimestamp : storedTimestamp event = .ok row.eventTimestamp
  version : row.version = event.version.toInt32
  prevHash : row.prevHash = prevHash
  batchId : row.batchId = batchId
  committedAt : row.committedAt = now
  envelope : EnvelopeRow.fromEnvelope (.current .ledgerEntry) = .ok row.envelope

/-- the first row of a batch, and the rows after it -/
theorem batchRows_cons {cfg : Config P} {batchId : Uuid} {now : OffsetDateTime} {event : ProtocolEvent P}
    {events : List (ProtocolEvent P)} {prevHash : String} {seq : ℤ} {rows : List (LedgerEntryRow P)}
    (h : batchRows cfg batchId now prevHash seq (event :: events) = .ok rows) :
    ∃ row rest, rows = row :: rest ∧ RowOf cfg batchId now prevHash seq event row ∧
      batchRows cfg batchId now row.entryHash (seq + 1) events = .ok rest := by
  unfold batchRows at h
  obtain ⟨envelope, henvelope, h⟩ := bind_eq_ok.1 h
  cases hd : cfg.codec.payloadHash (storedPayload cfg.codec event) with
  | none => rw [hd] at h; cases h
  | some digest =>
    rw [hd] at h
    obtain ⟨entryHash, hhash, h⟩ := bind_eq_ok.1 h
    obtain ⟨eventTimestamp, htime, h⟩ := bind_eq_ok.1 h
    obtain ⟨rest, hrest, h⟩ := bind_eq_ok.1 h
    exact ⟨_, rest, (Except.ok.inj h).symm,
      ⟨hhash, rfl, rfl, rfl, rfl, rfl, rfl, ⟨digest, hd, rfl⟩, htime, rfl, rfl, rfl, rfl, henvelope⟩, hrest⟩

/-- the rows of a batch: hex hashes, one seq after the other from the given one -/
theorem batchRows_spec {cfg : Config P} {batchId : Uuid} {now : OffsetDateTime} {events : List (ProtocolEvent P)}
    {prevHash : String} {seq : ℤ} {rows : List (LedgerEntryRow P)}
    (h : batchRows cfg batchId now prevHash seq events = .ok rows) :
    HexRows rows ∧ Ascending rows ∧ (∀ r ∈ rows, seq ≤ r.seq) ∧ rows.length = events.length := by
  induction events generalizing prevHash seq rows with
  | nil =>
    obtain rfl : [] = rows := Except.ok.inj h
    exact ⟨by simp [HexRows], .nil, by simp, rfl⟩
  | cons event events ih =>
    obtain ⟨row, rest, rfl, hrow, hrest⟩ := batchRows_cons h
    obtain ⟨ihex, iasc, ile, ilen⟩ := ih hrest
    have hseq : row.seq = seq := hrow.seq
    refine ⟨?_, ?_, ?_, by simp [ilen]⟩
    · exact List.forall_mem_cons.2 ⟨hashEvent_hex hrow.entryHash, ihex⟩
    · refine List.pairwise_cons.2 ⟨?_, iasc⟩
      intro r hr
      have := ile r hr
      omega
    · refine List.forall_mem_cons.2 ⟨hseq.ge, ?_⟩
      intro r hr
      have := ile r hr
      omega

/-- rows that continue the ledger -/
structure Continues (entries rows : List (LedgerEntryRow P)) : Prop where
  ascending : Ascending (entries ++ rows)
  hex : HexRows rows
  nonempty : rows ≠ []

/-- the rows inserted under the lock continue the ledger -/
theorem batchRows_continues {cfg : Config P} {batchId : Uuid} {now : OffsetDateTime}
    {events : List (ProtocolEvent P)} {prevHash : String} {entries rows : List (LedgerEntryRow P)}
    (hasc : Ascending entries) (hne : events ≠ [])
    (h : batchRows cfg batchId now prevHash (maxSeq entries + 1) events = .ok rows) : Continues entries rows := by
  obtain ⟨hhex, hasc', hle, hlen⟩ := batchRows_spec h
  refine ⟨List.pairwise_append.2 ⟨hasc, hasc', ?_⟩, hhex, ?_⟩
  · intro a ha b hb
    have h1 := seq_le_maxSeq ha
    have h2 := hle b hb
    omega
  · rw [← List.length_pos_iff, hlen]
    exact List.length_pos_iff.2 hne

/-! ## The cache -/

/-- the cached leaves decode, and the cached tree represents them -/
def CacheRep (c : LedgerCache) : Prop :=
  ∃ data, c.leaves.mapM hexDecode = some data ∧ Represents ledgerHashAlgo data c.tree

theorem cacheRep_empty : CacheRep .empty := ⟨[], rfl, represents_new _⟩

theorem mapM_hexDecode {rows : List (LedgerEntryRow P)} (h : HexRows rows) :
    ∃ data, (rows.map LedgerEntryRow.entryHash).mapM hexDecode = some data := by
  induction rows with
  | nil => exact ⟨[], rfl⟩
  | cons r rows ih =>
    obtain ⟨⟨d, hd⟩, hrows⟩ := List.forall_mem_cons.1 h
    obtain ⟨data, hdata⟩ := ih hrows
    exact ⟨d.toList :: data, by simp [hd, hexDecode_hexEncode, hdata]⟩

/-- extending by hashes that decode appends them to leaves and tree -/
theorem extend_spec {c : LedgerCache} {hashes : List String} {data : List Bytes} (hrep : CacheRep c)
    (hdata : hashes.mapM hexDecode = some data) :
    ∃ tree, c.extend hashes = (⟨c.leaves ++ hashes, tree⟩, .ok ()) ∧ CacheRep ⟨c.leaves ++ hashes, tree⟩ := by
  induction hashes generalizing c data with
  | nil =>
    rw [List.append_nil]
    exact ⟨c.tree, rfl, hrep⟩
  | cons hash rest ih =>
    rw [List.mapM_cons] at hdata
    obtain ⟨bytes, hbytes, hdata⟩ := Option.bind_eq_some_iff.1 hdata
    obtain ⟨restData, hrest, -⟩ := Option.bind_eq_some_iff.1 hdata
    obtain ⟨cached, hcached, htree⟩ := hrep
    have hrep' : CacheRep ⟨c.leaves ++ [hash], c.tree.append bytes⟩ :=
      ⟨cached ++ [bytes], by simp [List.mapM_append, hcached, hbytes], append_represents bytes htree⟩
    obtain ⟨tree, hext, htree'⟩ := ih hrep' hrest
    rw [List.append_assoc, List.singleton_append] at hext htree'
    exact ⟨tree, by rw [LedgerCache.extend, hbytes]; exact hext, htree'⟩

theorem rebuild_spec {c : LedgerCache} {hashes : List String} {data : List Bytes}
    (hdata : hashes.mapM hexDecode = some data) :
    ∃ tree, c.rebuild hashes = (⟨hashes, tree⟩, .ok ()) ∧ CacheRep ⟨hashes, tree⟩ := by
  refine ⟨.fromLeaves ledgerHashAlgo data, ?_, data, hdata, fromLeaves_represents _ _⟩
  rw [LedgerCache.rebuild, hdata]

/-- the root of a represented cache is that of its leaves, computed from scratch -/
theorem root_of_cacheRep {c : LedgerCache} (h : CacheRep c) :
    ∃ root, c.tree.root c.leaves.length = some (some root) ∧ mthOfHexHashes ledgerHashAlgo c.leaves = .ok root := by
  obtain ⟨data, hdata, htree⟩ := h
  have hlen : data.length = c.leaves.length := length_of_mapM hdata
  refine ⟨mth ledgerHashAlgo data, ?_, by rw [mthOfHexHashes, hdata]⟩
  rw [← hlen, root_represents htree le_rfl, List.take_length]

/-- what the shared cache holds, between attempts -/
def CachedBetween (entries : List (LedgerEntryRow P)) (leaves : List String) : Prop :=
  leaves <+: entries.map LedgerEntryRow.entryHash ∨ entries.length < leaves.length

/-- the rows up to the last seq of the batch are all rows -/
theorem filter_lastSeq {entries rows : List (LedgerEntryRow P)} (h : Continues entries rows) :
    (entries ++ rows).filter (fun r => decide (r.seq ≤ (rows.map LedgerEntryRow.seq).getLastD 0)) =
      entries ++ rows := by
  rw [List.filter_eq_self]
  intro r hr
  obtain ⟨init, last, rfl⟩ := rows.eq_nil_or_concat.resolve_left h.nonempty
  have hasc := h.ascending
  rw [List.concat_eq_append, ← List.append_assoc] at hr hasc
  rw [List.concat_eq_append, List.map_append, List.map_singleton, List.getLastD_concat, decide_eq_true_eq]
  rcases List.mem_append.1 hr with hr | hr
  · exact ((List.pairwise_append.1 hasc).2.2 r hr last List.mem_cons_self).le
  · rw [List.mem_singleton.1 hr]

/-- **The cache step.** On a cache that holds fewer leaves than the ledger has rows with the batch, the step returns the
number of those rows and their tree hash, and leaves exactly their hashes cached. -/
theorem computeRoot_spec {cache : LedgerCache} {entries rows : List (LedgerEntryRow P)} (hhex : HexRows entries)
    (hrows : Continues entries rows) (hrep : CacheRep cache) (hcache : CachedBetween entries cache.leaves)
    (hfew : cache.leaves.length < entries.length + rows.length) :
    ∃ cache' root, computeRoot cache entries rows = (cache', some (.ok (entries.length + rows.length, root))) ∧
      cache'.leaves = (entries ++ rows).map LedgerEntryRow.entryHash ∧ CacheRep cache' ∧
      mthOfHexHashes ledgerHashAlgo ((entries ++ rows).map LedgerEntryRow.entryHash) = .ok root := by
  have hprev : (entries ++ rows).length - (rows.map LedgerEntryRow.entryHash).length = entries.length := by simp
  unfold computeRoot
  dsimp only
  rw [hprev, filter_lastSeq hrows, entryHashes_of_ascending hrows.ascending]
  split_ifs with hlen
  · -- as many leaves cached as rows committed: they are the committed ones
    have hleaves : cache.leaves = entries.map LedgerEntryRow.entryHash := by
      rcases hcache with hpre | hlong
      · exact hpre.eq_of_length (by simpa using hlen)
      · omega
    obtain ⟨data, hdata⟩ := mapM_hexDecode hrows.hex
    obtain ⟨tree, hext, hrep'⟩ := extend_spec hrep hdata
    rw [hleaves, ← List.map_append] at hext hrep'
    obtain ⟨root, hroot, hmth⟩ := root_of_cacheRep hrep'
    refine ⟨_, root, ?_, rfl, hrep', hmth⟩
    rw [fastPath, hext]
    dsimp only at hroot ⊢
    rw [hroot]
    simp
  · have hall : HexRows (entries ++ rows) := List.forall_mem_append.2 ⟨hhex, hrows.hex⟩
    obtain ⟨data, hdata⟩ := mapM_hexDecode hall
    obtain ⟨tree, hreb, hrep'⟩ := rebuild_spec (c := cache) hdata
    have hmth : mthOfHexHashes ledgerHashAlgo ((entries ++ rows).map LedgerEntryRow.entryHash) =
        .ok (mth ledgerHashAlgo data) := by rw [mthOfHexHashes, hdata]
    refine ⟨_, mth ledgerHashAlgo data, ?_, rfl, hrep', hmth⟩
    rw [slowPath, if_pos (by simpa using hfew), hreb]
    dsimp only
    rw [hmth]
    simp

theorem ensureCacheCovers_spec {cache : LedgerCache} {entries : List (LedgerEntryRow P)} (hasc : Ascending entries)
    (hhex : HexRows entries) (hrep : CacheRep cache) (treeSize : ℕ) :
    CacheRep (ensureCacheCovers cache entries treeSize) ∧
      ((ensureCacheCovers cache entries treeSize).leaves = cache.leaves ∨
        (ensureCacheCovers cache entries treeSize).leaves <+: entries.map LedgerEntryRow.entryHash) := by
  unfold ensureCacheCovers
  dsimp only
  split_ifs with hcovered hmore
  · exact ⟨hrep, .inl rfl⟩
  · rw [entryHashes_of_ascending hasc, ← List.map_take] at hmore ⊢
    have htaken : HexRows (entries.take treeSize) := fun r hr => hhex r (List.mem_of_mem_take hr)
    obtain ⟨data, hdata⟩ := mapM_hexDecode htaken
    obtain ⟨tree, hreb, hrep'⟩ := rebuild_spec (c := cache) hdata
    rw [hreb]
    refine ⟨hrep', .inr ?_⟩
    rw [List.map_take]
    exact List.take_prefix _ _
  · exact ⟨hrep, .inl rfl⟩

/-! ## The invariant -/

/-- what an attempt's phase says of its batch, the ledger and the lock -/
def PhaseOk (db : Db P) (lock : Option ℕ) (i : ℕ) (batch : EventBatch P) : Phase P → Prop
  | .locked => lock = some i ∧ batch.events ≠ []
  | .inserted rows => lock = some i ∧ Continues db.entries rows
  | .computed rows treeSize root =>
    lock = some i ∧ Continues db.entries rows ∧ treeSize = db.entries.length + rows.length ∧
      mthOfHexHashes ledgerHashAlgo ((db.entries ++ rows).map LedgerEntryRow.entryHash) = .ok root
  | .persisted rows treeSize root _ head =>
    lock = some i ∧ Continues db.entries rows ∧ treeSize = db.entries.length + rows.length ∧
      mthOfHexHashes ledgerHashAlgo ((db.entries ++ rows).map LedgerEntryRow.entryHash) = .ok root ∧
      head.treeSize = Int64.ofNat treeSize ∧ head.rootHash = hexEncode root.toList
  | _ => True

/-- the rows an attempt has put into the cache and not committed yet -/
def Phase.cachedRows : Phase P → Option (List (LedgerEntryRow P))
  | .computed rows _ _ => some rows
  | .persisted rows _ _ _ _ => some rows
  | _ => none

/-- those rows of the attempt that holds the lock -/
def State.pending (s : State P) : Option (List (LedgerEntryRow P)) :=
  s.lock.bind fun i => (s.attempts i).bind fun a => a.phase.cachedRows

def CacheOk (s : State P) : Prop :=
  match s.pending with
  | some rows => s.cache.leaves <+: (s.db.entries ++ rows).map LedgerEntryRow.entryHash
  | none => CachedBetween s.db.entries s.cache.leaves

structure Inv (s : State P) : Prop where
  ascending : Ascending s.db.entries
  hex : HexRows s.db.entries
  rep : CacheRep s.cache
  phases : ∀ i a, s.attempts i = some a → PhaseOk s.db s.lock i a.batch a.phase
  cache : CacheOk s
  heads : ∀ head ∈ s.db.heads, HeadCorrect s.db head

theorem inv_init : Inv (State.init : State P) :=
  ⟨.nil, by simp [State.init, HexRows], cacheRep_empty, by simp [State.init], .inl (List.nil_prefix), by
    simp [State.init]⟩

/-- a prefix of a longer list is a prefix of its first part or longer than it -/
theorem cachedBetween_initial {entries rows : List (LedgerEntryRow P)} {leaves : List String}
    (h : leaves <+: (entries ++ rows).map LedgerEntryRow.entryHash) : CachedBetween entries leaves := by
  rcases Nat.lt_or_ge entries.length leaves.length with hlong | hshort
  · exact .inr hlong
  · refine .inl (List.prefix_of_prefix_length_le h ?_ (by simpa using hshort))
    rw [List.map_append]
    exact List.prefix_append _ _

theorem cacheOk_of_pending {s : State P} {rows : List (LedgerEntryRow P)} (hp : s.pending = some rows) :
    CacheOk s ↔ s.cache.leaves <+: (s.db.entries ++ rows).map LedgerEntryRow.entryHash := by
  rw [CacheOk, hp]

theorem cacheOk_of_not_pending {s : State P} (hp : s.pending = none) :
    CacheOk s ↔ CachedBetween s.db.entries s.cache.leaves := by
  rw [CacheOk, hp]

theorem CacheOk.between {s : State P} (h : CacheOk s) : CachedBetween s.db.entries s.cache.leaves := by
  unfold CacheOk at h
  split at h
  · exact cachedBetween_initial h
  · exact h

theorem pending_setPhase (s : State P) (i : ℕ) (a : Attempt P) (phase : Phase P) :
    (s.setPhase i a phase).pending = if s.lock = some i then phase.cachedRows else s.pending := by
  unfold State.pending State.setPhase
  cases hl : s.lock with
  | none => simp
  | some j =>
    by_cases hj : j = i
    · subst hj
      simp
    · simp [hj]

/-- a phase that has nothing in the cache keeps the cache condition -/
theorem CacheOk.setPhase {s : State P} (h : CacheOk s) (i : ℕ) (a : Attempt P) {phase : Phase P}
    (hp : phase.cachedRows = none) : CacheOk (s.setPhase i a phase) := by
  unfold CacheOk
  rw [pending_setPhase]
  split_ifs with hl
  · rw [hp]
    exact h.between
  · exact h

/-- after an attempt moved to a phase: it is there, the others are where they were -/
theorem attempts_setPhase {s : State P} {i j : ℕ} {a b : Attempt P} {phase : Phase P}
    (h : (s.setPhase i a phase).attempts j = some b) :
    (j = i ∧ b = { a with phase := phase }) ∨ (j ≠ i ∧ s.attempts j = some b) := by
  by_cases hj : j = i
  · subst hj
    simp only [State.setPhase, Function.update_self, Option.some.injEq] at h
    exact .inl ⟨rfl, h.symm⟩
  · simp only [State.setPhase, Function.update_of_ne hj] at h
    exact .inr ⟨hj, h⟩

/-- **Updating one attempt.** -/
theorem Inv.update {s : State P} (h : Inv s) {i : ℕ} {a : Attempt P} {phase : Phase P} {cache : LedgerCache}
    (hphase : PhaseOk s.db s.lock i a.batch phase) (hrep : CacheRep cache)
    (hcache : CacheOk { s.setPhase i a phase with cache := cache }) :
    Inv { s.setPhase i a phase with cache := cache } := by
  refine ⟨h.ascending, h.hex, hrep, ?_, hcache, h.heads⟩
  intro j b hb
  rcases attempts_setPhase hb with ⟨rfl, rfl⟩ | ⟨-, hb⟩
  · exact hphase
  · exact h.phases j b hb

/-- an attempt that moves to a phase with nothing in the cache -/
theorem Inv.setPhase {s : State P} (h : Inv s) {i : ℕ} {a : Attempt P} {phase : Phase P}
    (hphase : PhaseOk s.db s.lock i a.batch phase) (hp : phase.cachedRows = none) : Inv (s.setPhase i a phase) :=
  h.update hphase h.rep (h.cache.setPhase i a hp)

/-- heads stay correct as rows are appended -/
theorem HeadCorrect.append {db : Db P} {rows : List (LedgerEntryRow P)} {batches : List LedgerBatchRow}
    {heads : List SignedTreeHead} {head : SignedTreeHead} (h : HeadCorrect db head) (hasc : Ascending db.entries)
    (hasc' : Ascending (db.entries ++ rows)) : HeadCorrect ⟨db.entries ++ rows, batches, heads⟩ head := by
  obtain ⟨n, hn, hsize, hroot⟩ := h
  refine ⟨n, by simp; omega, hsize, ?_⟩
  rw [entryHashes_of_ascending hasc] at hroot
  rw [entryHashes_of_ascending hasc', List.map_append, List.take_append_of_le_length (by simpa using hn)]
  exact hroot

/-- an attempt without the lock has nothing the ledger or the lock could change -/
theorem PhaseOk.of_not_holder {db db' : Db P} {lock lock' : Option ℕ} {i : ℕ} {batch : EventBatch P} {phase : Phase P}
    (h : PhaseOk db lock i batch phase) (hl : lock ≠ some i) : PhaseOk db' lock' i batch phase := by
  cases phase with
  | locked => exact absurd h.1 hl
  | inserted rows => exact absurd h.1 hl
  | computed rows treeSize root => exact absurd h.1 hl
  | persisted rows treeSize root batchRow head => exact absurd h.1 hl
  | _ => trivial

/-- leaves that are all committed are fine at any time -/
theorem cacheOk_of_committed {s : State P} (h : s.cache.leaves <+: s.db.entries.map LedgerEntryRow.entryHash) :
    CacheOk s := by
  unfold CacheOk
  split
  · rw [List.map_append]
    exact h.trans (List.prefix_append _ _)
  · exact .inl h

/-- only the leaves of the cache matter -/
theorem CacheOk.of_leaves_eq {s : State P} (h : CacheOk s) {cache : LedgerCache}
    (hleaves : cache.leaves = s.cache.leaves) : CacheOk { s with cache := cache } := by
  unfold CacheOk at h ⊢
  simp only [hleaves]
  exact h

/-- an attempt in this phase that holds the lock has these rows pending -/
theorem pending_of_holder {s : State P} {i : ℕ} {a : Attempt P} (hl : s.lock = some i) (ha : s.attempts i = some a) :
    s.pending = a.phase.cachedRows := by
  simp [State.pending, hl, ha]

/-! ## One op -/

section steps

variable {cfg : Config P} {s : State P} {i : ℕ} {a : Attempt P}

/-- taking the free lock -/
theorem lock_inv (h : Inv s) (hl : s.lock = none) (hne : a.batch.events ≠ []) :
    Inv { s.setPhase i a .locked with lock := some i } := by
  refine ⟨h.ascending, h.hex, h.rep, ?_, ?_, h.heads⟩
  · intro j b hb
    rcases attempts_setPhase hb with ⟨rfl, rfl⟩ | ⟨-, hb⟩
    · exact ⟨rfl, hne⟩
    · exact (h.phases j b hb).of_not_holder (by rw [hl]; simp)
  · have hpending : State.pending { s.setPhase i a .locked with lock := some i } = none := by
      simp [State.pending, State.setPhase, Phase.cachedRows]
    exact (cacheOk_of_not_pending hpending).2 h.cache.between

theorem acquire_inv (h : Inv s) : Inv (attemptStep cfg s i a .acquire) := by
  simp only [attemptStep]
  split
  · by_cases hempty : a.batch.events.isEmpty
    · rw [if_pos hempty]
      exact h.setPhase trivial rfl
    · rw [if_neg hempty]
      split
      · exact h.setPhase trivial rfl
      · split_ifs with hl
        · exact lock_inv h hl (by simpa using hempty)
        · exact h
  · exact h

theorem insert_inv (h : Inv s) (ha : s.attempts i = some a) : Inv (attemptStep cfg s i a .insert) := by
  simp only [attemptStep]
  split
  · rename_i hphase
    have hok := h.phases i a ha
    rw [hphase] at hok
    split
    · exact h.setPhase trivial rfl
    · rename_i rows hrows
      split_ifs
      · exact h.setPhase ⟨hok.1, batchRows_continues h.ascending hok.2 hrows⟩ rfl
      · exact h.setPhase trivial rfl
  · exact h

theorem compute_inv (h : Inv s) (ha : s.attempts i = some a)
    (hfew : ∀ rows, a.phase = .inserted rows → s.cache.leaves.length < s.db.entries.length + rows.length) :
    Inv (attemptStep cfg s i a .compute) := by
  simp only [attemptStep]
  split
  · rename_i rows hphase
    have hok := h.phases i a ha
    rw [hphase] at hok
    obtain ⟨hl, hrows⟩ := hok
    obtain ⟨cache, root, hcompute, hleaves, hrep, hroot⟩ :=
      computeRoot_spec h.hex hrows h.rep h.cache.between (hfew rows hphase)
    rw [hcompute]
    refine h.update ⟨hl, hrows, rfl, hroot⟩ hrep ?_
    have hpending : State.pending { s.setPhase i a (.computed rows (s.db.entries.length + rows.length) root) with
        cache := cache } = some rows := by
      simp [State.pending, State.setPhase, hl, Phase.cachedRows]
    exact (cacheOk_of_pending hpending).2 (hleaves ▸ List.prefix_refl _)
  · exact h

/-- a tree head to persist carries the computed size and root -/
theorem treeHead_fields {mode : Mode} {now : OffsetDateTime} {key : Option (FixedBytes 32 × String)} {treeSize : ℕ}
    {batchRoot : String} {head : SignedTreeHead} (h : treeHead cfg mode now key treeSize batchRoot = .ok head) :
    head.treeSize = Int64.ofNat treeSize ∧ head.rootHash = batchRoot := by
  unfold treeHead at h
  split at h
  · split at h
    · cases h
    · obtain ⟨message, -, rfl⟩ := signTreeHeadWith_fields (mapError_eq_ok.1 h)
      exact ⟨rfl, rfl⟩
  · dsimp only at h
    split_ifs at h
    cases h
    exact ⟨rfl, rfl⟩

theorem persistRows_fields {rows : List (LedgerEntryRow P)} {treeSize : ℕ} {root : Hash}
    {key : Option (FixedBytes 32 × String)} {r : LedgerBatchRow × SignedTreeHead}
    (h : persistRows cfg s.db a rows treeSize root key = .ok r) :
    r.2.treeSize = Int64.ofNat treeSize ∧ r.2.rootHash = hexEncode root.toList := by
  unfold persistRows at h
  obtain ⟨-, -, h⟩ := bind_eq_ok.1 h
  obtain ⟨head, hhead, h⟩ := bind_eq_ok.1 h
  obtain ⟨-, -, h⟩ := bind_eq_ok.1 h
  cases h
  exact treeHead_fields hhead

theorem persist_inv (h : Inv s) (ha : s.attempts i = some a) (key : Option (FixedBytes 32 × String)) :
    Inv (attemptStep cfg s i a (.persist key)) := by
  simp only [attemptStep]
  split
  · rename_i rows treeSize root hphase
    have hok := h.phases i a ha
    rw [hphase] at hok
    obtain ⟨hl, hrows, hsize, hroot⟩ := hok
    split
    · exact h.setPhase trivial rfl
    · rename_i batchRow head hpersist
      refine h.update ⟨hl, hrows, hsize, hroot, persistRows_fields hpersist⟩ h.rep ?_
      have hpending : s.pending = some rows := by rw [pending_of_holder hl ha, hphase]; rfl
      have hpending' : (s.setPhase i a (.persisted rows treeSize root batchRow head)).pending = some rows := by
        rw [pending_setPhase, if_pos hl]; rfl
      exact (cacheOk_of_pending hpending').2 ((cacheOk_of_pending hpending).1 h.cache)
  · exact h

theorem commit_inv (h : Inv s) (ha : s.attempts i = some a) (reported : Bool) :
    Inv (attemptStep cfg s i a (.commit reported)) := by
  simp only [attemptStep]
  split
  · rename_i rows treeSize root batchRow head hphase
    have hok := h.phases i a ha
    rw [hphase] at hok
    obtain ⟨hl, hrows, rfl, hroot, hsize, hhead⟩ := hok
    have hhex : HexRows (s.db.entries ++ rows) := List.forall_mem_append.2 ⟨h.hex, hrows.hex⟩
    refine ⟨hrows.ascending, hhex, h.rep, ?_, ?_, ?_⟩
    · intro j b hb
      rcases attempts_setPhase hb with ⟨rfl, rfl⟩ | ⟨hj, hb⟩
      · cases reported <;> trivial
      · exact (h.phases j b hb).of_not_holder (by rw [hl]; simpa using Ne.symm hj)
    · -- the cached leaves were a prefix of what is now committed
      have hpending : s.pending = some rows := by rw [pending_of_holder hl ha, hphase]; rfl
      exact .inl ((cacheOk_of_pending hpending).1 h.cache)
    · intro hd hmem
      rcases List.mem_append.1 hmem with hold | hnew
      · exact (h.heads hd hold).append h.ascending hrows.ascending
      · rw [List.mem_singleton.1 hnew]
        refine ⟨s.db.entries.length + rows.length, by simp, hsize, ?_⟩
        rw [entryHashes_of_ascending hrows.ascending, List.take_of_length_le (by simp), hroot, hhead]
        rfl
  · exact h

theorem rollback_inv (h : Inv s) (ha : s.attempts i = some a) : Inv (attemptStep cfg s i a .rollback) := by
  have release (hn : a.phase.cachedRows = none) (hfree : ∀ db lock, PhaseOk db lock i a.batch a.phase)
      (hl : s.lock = some i) : Inv { s with lock := none } := by
    refine ⟨h.ascending, h.hex, h.rep, ?_, ?_, h.heads⟩
    · intro j b hb
      by_cases hj : j = i
      · subst hj
        rw [ha] at hb
        cases hb
        exact hfree _ _
      · exact (h.phases j b hb).of_not_holder (by rw [hl]; simpa using Ne.symm hj)
    · exact h.cache.between
  simp only [attemptStep]
  split
  all_goals first
    | exact h
    | rename_i hphase
      split_ifs with hl
      · exact release (by rw [hphase]; rfl) (fun _ _ => by rw [hphase]; trivial) hl
      · exact h

theorem reset_inv (h : Inv s) : Inv (attemptStep cfg s i a .reset) := by
  simp only [attemptStep]
  split
  · exact h.update trivial cacheRep_empty (cacheOk_of_committed List.nil_prefix)
  · exact h

theorem fail_inv (h : Inv s) : Inv (attemptStep cfg s i a .fail) := by
  simp only [attemptStep]
  split
  all_goals first
    | exact h
    | exact h.setPhase trivial rfl

theorem drop_inv (h : Inv s) : Inv (attemptStep cfg s i a .drop) := by
  simp only [attemptStep]
  split
  all_goals first
    | exact h
    | exact h.setPhase trivial rfl

/-- **One op** keeps the invariant, when its cache step finds few enough leaves -/
theorem step_inv (h : Inv s) (op : Op P) (hok : cacheStepOk s op = true) : Inv (step cfg s op) := by
  cases op with
  | start i batch mode now =>
    simp only [step]
    split
    · exact h
    · split
      · exact h.setPhase trivial rfl
      · exact h.setPhase trivial rfl
  | attempt i op =>
    cases ha : s.attempts i with
    | none => simpa only [step, ha] using h
    | some a =>
      simp only [step, ha]
      cases op with
      | acquire => exact acquire_inv h
      | insert => exact insert_inv h ha
      | compute =>
        refine compute_inv h ha ?_
        intro rows hphase
        obtain ⟨batch, mode, now, phase⟩ := a
        dsimp only at hphase
        subst hphase
        simpa [cacheStepOk, ha] using hok
      | persist key => exact persist_inv h ha key
      | commit reported => exact commit_inv h ha reported
      | fail => exact fail_inv h
      | drop => exact drop_inv h
      | rollback => exact rollback_inv h ha
      | reset => exact reset_inv h
  | cover treeSize =>
    obtain ⟨hrep, hleaves⟩ := ensureCacheCovers_spec h.ascending h.hex h.rep treeSize
    refine ⟨h.ascending, h.hex, hrep, h.phases, ?_, h.heads⟩
    rcases hleaves with hsame | hpre
    · exact h.cache.of_leaves_eq hsame
    · exact cacheOk_of_committed hpre
  | restart => exact ⟨h.ascending, h.hex, cacheRep_empty, by simp [step], .inl List.nil_prefix, h.heads⟩

/-- **Every run** whose cache steps all find few enough leaves keeps the invariant -/
theorem run_inv (h : Inv s) (ops : List (Op P)) (hok : cacheStepsOk cfg s ops = true) : Inv (run cfg s ops) := by
  induction ops generalizing s with
  | nil => exact h
  | cons op ops ih =>
    rw [cacheStepsOk, Bool.and_eq_true] at hok
    exact ih (step_inv h op hok.1) hok.2

theorem cacheStepsOk_initial {seen ops : List (Op P)} (hpre : seen <+: ops) (hok : cacheStepsOk cfg s ops = true) :
    cacheStepsOk cfg s seen = true := by
  obtain ⟨rest, rfl⟩ := hpre
  induction seen generalizing s with
  | nil => rfl
  | cons op seen ih =>
    rw [List.cons_append, cacheStepsOk, Bool.and_eq_true] at hok
    rw [cacheStepsOk, hok.1, ih hok.2]
    rfl

end steps

/-- **Persisted tree heads.** In every interleaving of any number of attempts whose cache steps each find fewer leaves
cached than the ledger has rows with their batch, in every state reached, every persisted head carries the tree hash of
the first tree-size committed entry hashes in seq order. -/
theorem persisted_heads_correct (cfg : Config P) (ops : List (Op P)) (hok : cacheStepsOk cfg .init ops = true)
    (seen : List (Op P)) (hseen : seen <+: ops) :
    ∀ head ∈ (run cfg .init seen).db.heads, HeadCorrect (run cfg .init seen).db head :=
  (run_inv inv_init seen (cacheStepsOk_initial hseen hok)).heads

/-! ## Runs on an empty ledger -/

instance (db : Db P) (head : SignedTreeHead) : Decidable (HeadCorrect db head) :=
  inferInstanceAs (Decidable (∃ n, n ≤ db.entries.length ∧ head.treeSize = Int64.ofNat n ∧
    (mthOfHexHashes ledgerHashAlgo ((entryHashes db.entries).take n)).map (fun root => hexEncode root.toList) =
      .ok head.rootHash))

/-- payloads as canonical JSON texts -/
def canonicalText : PayloadCodec String where
  embedPosition payload _ := payload
  payloadHash payload := some (Sha256.hash (utf8 payload))

/-- the operator's signatures over the heads of these runs, as (SHA-256 of the signed bytes, signature) -/
def operatorSignatures : List (FixedBytes 32 × FixedBytes 64) := [
  (.ofHex 32 "dab3c82d6e9abab2effe2938acb614e1255f3a956285b0369cc92b96a50ed61d", .ofHex 64
    "343ff41a4f78c73f17f7ca3bb447ac6514dc6d32ee6ffd0a9f7e64bb5424931908c608e74cea39c2a08081ec08bdc8b365b66a1d7cc317c900c0ca2c7501ee08"),
  (.ofHex 32 "3db0e1d618b3e33b7a7e016682bf844b200a85bc6f3ceb1135246cdc2cbf41c3", .ofHex 64
    "1dafa4297d54075c32c63c35775b0fb1793fdcbc6b00312d4ee9eb8deb64c6d437d6b9cd9d07b0954fbe79151dd8c7d111df717e3443ca180bcd71997e72e506")]

/-- Ed25519 restricted to the operator's key and signatures -/
def operatorEd25519 : Ed25519 where
  verifyingKey _ := .ofHex 32 "d04ab232742bb4ab3a1368bd4615e4e6d0224ab71a016baf8520a332c9778737"
  sign _ message := (operatorSignatures.lookup (Sha256.hash message)).getD (FixedBytes.replicate 64 0)
  verifyStrict _ message signature := operatorSignatures.contains (Sha256.hash message, signature)

def testConfig : Config String := ⟨"avalon-conformance-test", "shard-1", canonicalText, operatorEd25519⟩

/-- a batch of one event, told apart by its id -/
def testBatch (n : UInt8) : EventBatch String :=
  ⟨FixedBytes.replicate 16 n, [{
    id := FixedBytes.replicate 16 n
    kind := "test.event_0"
    issuer := "identity:1:self:test_event"
    subject := "identity:1:self:test_event"
    payload := "\x7b\x7d"
    timestamp := 1790000000000000000
    version := 1
    identityChain := none }]⟩

/-- attempt i runs a batch up to its cache step -/
def upToCacheStep (i : ℕ) (n : UInt8) : List (Op String) :=
  [.start i (testBatch n) .commit 1790000000000000000, .attempt i .acquire, .attempt i .insert, .attempt i .compute]

/-- attempt i commits a batch -/
def commitRun (i : ℕ) (n : UInt8) : List (Op String) :=
  upToCacheStep i n ++
    [.attempt i (.persist (some (FixedBytes.replicate 32 0x11, "settlement-operator-1"))), .attempt i (.commit true)]

/-- an attempt fails after its cache step, rolls back and clears the cache; then another commits -/
def failedThenCommitted : List (Op String) :=
  upToCacheStep 0 1 ++ [.attempt 0 .fail, .attempt 0 .rollback, .attempt 0 .reset] ++ commitRun 1 2

theorem persisted_heads_correct_after_failure :
    (run testConfig .init failedThenCommitted).db.heads.length = 1 ∧
      ∀ head ∈ (run testConfig .init failedThenCommitted).db.heads,
        HeadCorrect (run testConfig .init failedThenCommitted).db head := by
  have hevaluated : (run testConfig .init failedThenCommitted).db.heads.length = 1 ∧
      cacheStepsOk testConfig .init failedThenCommitted = true := by
    decide +kernel
  obtain ⟨hone, hok⟩ := hevaluated
  exact ⟨hone, persisted_heads_correct testConfig failedThenCommitted hok _ List.prefix_rfl⟩

/-- an attempt is dropped after its cache step; then two others commit -/
def droppedThenCommitted : List (Op String) :=
  upToCacheStep 0 1 ++ [.attempt 0 .drop, .attempt 0 .rollback] ++ commitRun 1 2 ++ commitRun 2 3

/-- the second commit signs a root over the leaf of the dropped attempt -/
theorem stale_cache_signs_wrong_root :
    ¬ ∀ (ops : List (Op String)), ∀ head ∈ (run testConfig .init ops).db.heads,
      HeadCorrect (run testConfig .init ops).db head := by
  intro h
  have hwrong : ¬ ∀ head ∈ (run testConfig .init droppedThenCommitted).db.heads,
      HeadCorrect (run testConfig .init droppedThenCommitted).db head := by
    decide +kernel
  exact hwrong (h droppedThenCommitted)

end Avalon.Ledger
