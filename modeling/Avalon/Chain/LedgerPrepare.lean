/-
Prepare and finalize (`crates/chain/src/postgres.rs`: `prepare`, `finalize`).

`prepare` previews a head from scratch; `finalize` inserts the batch, recomputes the head under the append lock and checks
the caller's signature against what it computed. Any ops of other attempts can lie between the two.
- The preview hashes what the insertion would (`prepareHashes_eq`), so with nothing appended in between the two heads are
  equal (`previewed_of_computed`).
- The computed size is the number of rows with the batch in every run (`Sized`), whatever is cached. Sizes stay below 2^64,
  since seq is hashed as 64 bits, so a head over more rows is another message.
- `PrefixCached`: in a run whose cache steps are those of `cacheStepOk`, the cached leaves and the committed hashes are one a
  prefix of the other, so `root_at` answers every committed size with the tree hash (`rootAt_spec`).

Results:
- `prepare_finalize`: with nothing appended in between, finalize recomputes and persists the prepared head; with something
  appended it returns an error and changes neither tables nor roots, unless the one signature is good for two messages.
- `replayed_finalize_succeeds`: a batch that was itself committed in between is answered with its commitment.
-/
import Mathlib.Tactic
import Avalon.Core.Bytes
import Avalon.Core.Collision
import Avalon.Core.Fallible
import Avalon.Core.Sha256
import Avalon.Protocol.SigningBytes
import Avalon.Protocol.SigningBytesReader
import Avalon.Protocol.LedgerEntry
import Avalon.Protocol.Events
import Avalon.Protocol.Sth
import Avalon.Protocol.SignedMessages
import Avalon.Chain.Merkle
import Avalon.Chain.IncrementalMerkle
import Avalon.Chain.Ledger
import Avalon.Chain.LedgerHeads
import Avalon.Chain.LedgerReads
import Avalon.Chain.LedgerIntegrity

namespace Avalon.Ledger

open Avalon.SigningBytes Avalon.LedgerEntry Avalon.Events Avalon.Sth Avalon.Merkle Avalon.IncrementalMerkle
open Avalon.SignedMessages Fallible Collision

variable {P : Type}

/-! ## The preview -/

/-- the preview hashes what the insertion of the batch would -/
theorem prepareHashes_eq (cfg : Config P) (batchId : Uuid) (now : OffsetDateTime) (prevHash : String) (seq : ℤ)
    (events : List (ProtocolEvent P)) :
    prepareHashes cfg prevHash seq events =
      (batchRows cfg batchId now prevHash (seq + 1) events).map (List.map LedgerEntryRow.entryHash) := by
  induction events generalizing prevHash seq with
  | nil => rfl
  | cons event events ih =>
    have henvelope : EnvelopeRow.fromEnvelope (.current .ledgerEntry) = .ok ⟨1, 1, 1, [0, 0]⟩ := by decide +kernel
    rw [prepareHashes, batchRows, henvelope]
    cases cfg.codec.payloadHash (storedPayload cfg.codec event) with
    | none => rfl
    | some digest =>
      cases hhash : hashEvent cfg (seq + 1) prevHash event (hexEncode digest.toList) with
      | error e =>
        dsimp only
        rw [hhash]
        rfl
      | ok entryHash =>
        obtain ⟨timestamp, htime, -⟩ := bind_eq_ok.1 hhash
        dsimp only
        rw [hhash, htime]
        change (prepareHashes cfg entryHash (seq + 1) events >>= fun hashes => .ok (entryHash :: hashes)) =
          Except.map _ (batchRows cfg batchId now entryHash (seq + 1 + 1) events >>= _)
        rw [ih]
        cases batchRows cfg batchId now entryHash (seq + 1 + 1) events <;> rfl

/-- what a preview says of the ledger it was made on, whenever the batch's transaction starts -/
structure Previewed (cfg : Config P) (db : Db P) (batch : EventBatch P) (p : PreparedTreeHead) (now : OffsetDateTime)
    (rows : List (LedgerEntryRow P)) (root : Hash) : Prop where
  inserted : batchRows cfg batch.id now (tipHash db.entries) (maxSeq db.entries + 1) batch.events = .ok rows
  hashed : mthOfHexHashes ledgerHashAlgo ((db.entries ++ rows).map LedgerEntryRow.entryHash) = .ok root
  treeSize : p.treeSize = Int64.ofNat (db.entries.length + rows.length)
  rootHash : p.rootHash = hexEncode root.toList
  networkId : p.networkId = cfg.networkId
  envelope : p.envelope = .ofEnvelope (.current .settlementSth)
  nonempty : batch.events ≠ []
  checked : checkBatch batch = .ok ()

theorem prepare_spec {cfg : Config P} {db : Db P} {batch : EventBatch P} {now : OffsetDateTime} {p : PreparedTreeHead}
    (hasc : Ascending db.entries) (h : prepare cfg db batch now = .ok p) (now' : OffsetDateTime) :
    ∃ rows root, Previewed cfg db batch p now' rows root := by
  unfold prepare at h
  by_cases hempty : batch.events.isEmpty
  · rw [if_pos hempty] at h
    cases h
  · rw [if_neg hempty] at h
    obtain ⟨⟨⟩, hcheck, h⟩ := bind_eq_ok.1 h
    obtain ⟨hashes, hhashes, h⟩ := bind_eq_ok.1 h
    obtain ⟨root, hroot, h⟩ := bind_eq_ok.1 h
    rw [prepareHashes_eq cfg batch.id now'] at hhashes
    cases hrows : batchRows cfg batch.id now' (tipHash db.entries) (maxSeq db.entries + 1) batch.events with
    | error e => rw [hrows] at hhashes; cases hhashes
    | ok rows =>
      rw [hrows] at hhashes
      obtain rfl : rows.map LedgerEntryRow.entryHash = hashes := Except.ok.inj hhashes
      rw [entryHashes_of_ascending hasc, ← List.map_append] at hroot h
      cases h
      refine ⟨rows, root, hrows, hroot, ?_, rfl, rfl, rfl, by simpa using hempty, hcheck⟩
      rw [List.length_map, List.length_append]

/-! ## Sizes -/

theorem extend_length {c c' : LedgerCache} {hashes : List String} (h : c.extend hashes = (c', .ok ())) :
    c'.leaves.length = c.leaves.length + hashes.length := by
  induction hashes generalizing c with
  | nil =>
    cases h
    rfl
  | cons hash rest ih =>
    rw [LedgerCache.extend] at h
    split at h
    · cases h
    · rw [ih h, List.length_append, List.length_cons, List.length_nil, List.length_cons]
      omega

/-- the computed size is the number of rows with the batch, whatever is cached -/
theorem computeRoot_size {cache : LedgerCache} {entries rows : List (LedgerEntryRow P)} {treeSize : ℕ} {root : Hash}
    (hrows : Continues entries rows) (h : (computeRoot cache entries rows).2 = some (.ok (treeSize, root))) :
    treeSize = entries.length + rows.length := by
  have hprev : (entries ++ rows).length - (rows.map LedgerEntryRow.entryHash).length = entries.length := by simp
  unfold computeRoot at h
  dsimp only at h
  rw [hprev, filter_lastSeq hrows, entryHashes_of_ascending hrows.ascending] at h
  split_ifs at h with hlen
  · unfold fastPath at h
    split at h
    · cases h
    · rename_i cache' hextend
      split at h
      · cases h
        rw [extend_length hextend, hlen, List.length_map]
      · cases h
  · unfold slowPath at h
    dsimp only at h
    split at h
    · cases h
    · split at h
      · cases h
      · cases h
        simp

/-- the size an attempt computed counts the rows with its batch, and the head it is about to persist is the one it signed
or checked -/
def SizeOk (cfg : Config P) (db : Db P) (a : Attempt P) : Prop :=
  match a.phase with
  | .computed rows treeSize _ => treeSize = db.entries.length + rows.length
  | .persisted rows treeSize root _ head => treeSize = db.entries.length + rows.length ∧
      ∃ key, treeHead cfg a.mode a.now key treeSize (hexEncode root.toList) = .ok head
  | _ => True

def Sized (cfg : Config P) (s : State P) : Prop := ∀ i a, s.attempts i = some a → SizeOk cfg s.db a

theorem SizeOk.of_free {cfg : Config P} {db : Db P} {a : Attempt P} (h : a.phase.holds = false) : SizeOk cfg db a := by
  unfold SizeOk
  split
  · rename_i hphase
    rw [hphase] at h
    cases h
  · rename_i hphase
    rw [hphase] at h
    cases h
  · trivial

theorem persistRows_head {cfg : Config P} {db : Db P} {a : Attempt P} {rows : List (LedgerEntryRow P)} {treeSize : ℕ}
    {root : Hash} {key : Option (FixedBytes 32 × String)} {b : LedgerBatchRow} {head : SignedTreeHead}
    (h : persistRows cfg db a rows treeSize root key = .ok (b, head)) :
    treeHead cfg a.mode a.now key treeSize (hexEncode root.toList) = .ok head := by
  unfold persistRows at h
  obtain ⟨⟨⟩, -, h⟩ := bind_eq_ok.1 h
  obtain ⟨head', hhead, h⟩ := bind_eq_ok.1 h
  obtain ⟨⟨⟩, -, h⟩ := bind_eq_ok.1 h
  cases h
  exact hhead

section sized

variable {cfg : Config P} {s : State P} {i : ℕ} {a : Attempt P}

theorem Sized.setPhase (h : Sized cfg s) {phase : Phase P} (hphase : SizeOk cfg s.db { a with phase := phase })
    (cache : LedgerCache) : Sized cfg { s.setPhase i a phase with cache := cache } := by
  intro j b hb
  rcases attempts_setPhase hb with ⟨rfl, rfl⟩ | ⟨-, hb⟩
  · exact hphase
  · exact h j b hb

theorem Moves.sized (hchain : Chained cfg s) (h : Sized cfg s) (ha : s.attempts i = some a) {phase : Phase P}
    (hmove : Moves cfg s a phase) : SizeOk cfg s.db { a with phase := phase } := by
  cases hmove with
  | compute hphase hroot =>
    obtain ⟨hcont, -⟩ := hchain.append ha (by rw [hphase]; rfl) _ (by rw [hphase]; rfl)
    exact computeRoot_size hcont hroot
  | persist hphase hrow =>
    have hsize := h i a ha
    unfold SizeOk at hsize
    rw [hphase] at hsize
    exact ⟨hsize, _, persistRows_head hrow⟩
  | insert hphase hrows => trivial
  | fail e => trivial
  | drop => trivial
  | reset hphase => trivial

/-- **One op** keeps the sizes -/
theorem Effect.sized (hchain : Chained cfg s) (h : Sized cfg s) {s' : State P} (heffect : Effect cfg s s') :
    Sized cfg s' := by
  cases heffect with
  | stay cache => exact h
  | move cache ha hmove => exact h.setPhase (hmove.sized hchain h ha) cache
  | begin hfree hnew => exact h.setPhase (.of_free rfl) s.cache
  | replay hfree hold => exact h.setPhase (.of_free rfl) s.cache
  | acquire ha hphase hne hcheck hl =>
    intro j b hb
    rcases attempts_setPhase hb with ⟨rfl, rfl⟩ | ⟨-, hb⟩
    · trivial
    · exact h j b hb
  | commit reported ha hphase =>
    rename_i i a rows treeSize root batchRow head
    intro j b hb
    rcases attempts_setPhase hb with ⟨rfl, rfl⟩ | ⟨hj, hb⟩
    · cases reported <;> exact .of_free rfl
    · refine .of_free (Bool.eq_false_iff.2 ?_)
      intro hholds
      have hl := (hchain.holding i a ha (by rw [hphase]; rfl)).lock
      have hl' := (hchain.holding j b hb hholds).lock
      rw [hl] at hl'
      exact hj (Option.some.inj hl').symm
  | release ha hphase hl => exact h
  | restart => intro j b hb; cases hb

theorem run_sized (hchain : Chained cfg s) (h : Sized cfg s) (ops : List (Op P)) : Sized cfg (run cfg s ops) := by
  induction ops generalizing s with
  | nil => exact h
  | cons op ops ih => exact ih (Effect.chained hchain (step_effect op)) (Effect.sized hchain h (step_effect op))

theorem sized_init (cfg : Config P) : Sized cfg .init := by
  intro i a ha
  cases ha

end sized

/-- seq is hashed as 64 bits and starts at one, so there are less than 2^64 intact rows -/
theorem length_lt_of_intact {cfg : Config P} {rows : List (LedgerEntryRow P)} {expectedPrev : String}
    (hasc : Ascending rows) (hpos : ∀ row ∈ rows, 1 ≤ row.seq) (h : Intact cfg expectedPrev rows) :
    rows.length < 2 ^ 64 := by
  have hrange : ∀ row ∈ rows, row.seq < 2 ^ 64 := by
    clear hasc hpos
    induction rows generalizing expectedPrev with
    | nil => simp
    | cons row rows ih =>
      obtain ⟨⟨hcontent, -⟩, hrest⟩ := intact_cons.1 h
      refine List.forall_mem_cons.2 ⟨?_, ih hrest⟩
      obtain ⟨-, m, hm, -⟩ := contentIntact_message hcontent
      obtain ⟨input, hinput, -⟩ := bind_eq_ok.1 hm
      unfold LedgerEntryRow.input at hinput
      obtain ⟨envelope, -, hinput⟩ := bind_eq_ok.1 hinput
      obtain ⟨prev, -, hinput⟩ := bind_eq_ok.1 hinput
      obtain ⟨digest, -, hinput⟩ := bind_eq_ok.1 hinput
      obtain ⟨seq, hseq, -⟩ := bind_eq_ok.1 hinput
      unfold seqToU64 at hseq
      split_ifs at hseq with hlt
      exact hlt.2
  have hnodup : (rows.map LedgerEntryRow.seq).Nodup := (List.pairwise_map.2 hasc).imp ne_of_lt
  have hsub : (rows.map LedgerEntryRow.seq).toFinset ⊆ Finset.Icc 1 (2 ^ 64 - 1) := by
    intro x hx
    obtain ⟨row, hrow, rfl⟩ := List.mem_map.1 (List.mem_toFinset.1 hx)
    have h1 := hpos row hrow
    have h2 := hrange row hrow
    exact Finset.mem_Icc.2 ⟨h1, by omega⟩
  have hcard := Finset.card_le_card hsub
  rw [List.toFinset_card_of_nodup hnodup, List.length_map, Int.card_Icc] at hcard
  omega

theorem int64_ofNat_ne {m n : ℕ} (h : m < n) (hn : n < 2 ^ 64) : Int64.ofNat m ≠ Int64.ofNat n := by
  intro he
  have hmod := congrArg (fun x : Int64 => x.toBitVec.toNat) he
  simp only [Int64.toBitVec_ofNat', BitVec.toNat_ofNat] at hmod
  omega

/-! ## Roots -/

/-- cached leaves and committed hashes are one a prefix of the other -/
def PrefixCached (s : State P) : Prop :=
  s.cache.leaves <+: s.db.entries.map LedgerEntryRow.entryHash ∨ s.db.entries.map LedgerEntryRow.entryHash <+: s.cache.leaves

section roots

variable {cfg : Config P} {s : State P} {i : ℕ} {a : Attempt P}

/-- the ops that touch neither cache nor tables -/
theorem attemptStep_frame (cfg : Config P) (s : State P) (i : ℕ) (a : Attempt P) (op : AttemptOp) (hcompute : op ≠ .compute) (hreset : op ≠ .reset)
    (hcommit : ∀ reported, op ≠ .commit reported) :
    (attemptStep cfg s i a op).cache = s.cache ∧ (attemptStep cfg s i a op).db = s.db := by
  cases op with
  | compute => exact absurd rfl hcompute
  | reset => exact absurd rfl hreset
  | commit reported => exact absurd rfl (hcommit reported)
  | _ =>
    simp only [attemptStep]
    repeat' split
    all_goals exact ⟨rfl, rfl⟩

/-- only a commit writes the tables -/
theorem step_db (op : Op P) (hcommit : ∀ i reported, op ≠ .attempt i (.commit reported)) : (step cfg s op).db = s.db := by
  cases op with
  | start i batch mode now =>
    simp only [step]
    repeat' split
    all_goals rfl
  | attempt i op =>
    cases ha : s.attempts i with
    | none => simp only [step, ha]
    | some a =>
      simp only [step, ha]
      cases op with
      | commit reported => exact absurd rfl (hcommit i reported)
      | _ =>
        simp only [attemptStep]
        repeat' split
        all_goals rfl
  | cover treeSize => rfl
  | restart => rfl

theorem run_db (ops : List (Op P)) (hcommit : ∀ i reported, Op.attempt i (.commit reported) ∉ ops) :
    (run cfg s ops).db = s.db := by
  induction ops generalizing s with
  | nil => rfl
  | cons op ops ih =>
    have hop : ∀ i reported, op ≠ .attempt i (.commit reported) := by
      intro i reported he
      exact hcommit i reported (he ▸ List.mem_cons_self)
    have hops : ∀ i reported, Op.attempt i (.commit reported) ∉ ops := by
      intro i reported hmem
      exact hcommit i reported (List.mem_cons_of_mem _ hmem)
    exact (ih hops).trans (step_db op hop)

theorem PrefixCached.of_eq {s' : State P} (h : PrefixCached s) (hcache : s'.cache.leaves = s.cache.leaves)
    (hdb : s'.db = s.db) : PrefixCached s' := by
  rw [PrefixCached, hcache, hdb]
  exact h

/-- **One op** keeps the cached leaves comparable, when its cache step finds few enough leaves -/
theorem step_prefixCached (hinv : Inv s) (h : PrefixCached s) (op : Op P) (hok : cacheStepOk s op = true) :
    PrefixCached (step cfg s op) := by
  cases op with
  | start i batch mode now =>
    simp only [step]
    repeat' split
    all_goals exact h.of_eq rfl rfl
  | attempt i op =>
    cases ha : s.attempts i with
    | none => simpa only [step, ha] using h
    | some a =>
      simp only [step, ha]
      by_cases hcompute : op = .compute
      · subst hcompute
        simp only [attemptStep]
        split
        · rename_i rows hphase
          have hphaseOk := hinv.phases i a ha
          rw [hphase] at hphaseOk
          have hfew : s.cache.leaves.length < s.db.entries.length + rows.length := by
            obtain ⟨batch, mode, now, phase⟩ := a
            dsimp only at hphase
            subst hphase
            simpa [cacheStepOk, ha] using hok
          obtain ⟨cache, root, hroot, hleaves, -, -⟩ :=
            computeRoot_spec hinv.hex hphaseOk.2 hinv.rep hinv.cache.between hfew
          rw [hroot]
          right
          dsimp only [State.setPhase]
          rw [hleaves, List.map_append]
          exact List.prefix_append _ _
        · exact h
      · by_cases hreset : op = .reset
        · subst hreset
          simp only [attemptStep]
          split
          · exact .inl List.nil_prefix
          · exact h
        · by_cases hcommit : ∃ reported, op = .commit reported
          · obtain ⟨reported, rfl⟩ := hcommit
            simp only [attemptStep]
            split
            · rename_i rows treeSize root batchRow head hphase
              have hphaseOk := hinv.phases i a ha
              rw [hphase] at hphaseOk
              have hpending : s.pending = some rows := by rw [pending_of_holder hphaseOk.1 ha, hphase]; rfl
              exact .inl ((cacheOk_of_pending hpending).1 hinv.cache)
            · exact h
          · obtain ⟨hcache, hdb⟩ := attemptStep_frame cfg s i a op hcompute hreset
              (fun reported he => hcommit ⟨reported, he⟩)
            exact h.of_eq (by rw [hcache]) hdb
  | cover treeSize =>
    obtain ⟨-, hsame | hpre⟩ := ensureCacheCovers_spec hinv.ascending hinv.hex hinv.rep treeSize
    · exact h.of_eq hsame rfl
    · exact .inl hpre
  | restart => exact .inl List.nil_prefix

theorem run_prefixCached (hinv : Inv s) (h : PrefixCached s) (ops : List (Op P)) (hok : cacheStepsOk cfg s ops = true) :
    PrefixCached (run cfg s ops) := by
  induction ops generalizing s with
  | nil => exact h
  | cons op ops ih =>
    rw [cacheStepsOk, Bool.and_eq_true] at hok
    exact ih (step_inv hinv op hok.1) (step_prefixCached hinv h op hok.1) hok.2

theorem mapM_take {α β : Type} {f : α → Option β} {l : List α} {bs : List β} (h : l.mapM f = some bs) (n : ℕ) :
    (l.take n).mapM f = some (bs.take n) := by
  induction l generalizing bs n with
  | nil =>
    obtain rfl : [] = bs := Option.some.inj h
    simp
  | cons x l ih =>
    rw [List.mapM_cons] at h
    obtain ⟨b, hb, h⟩ := Option.bind_eq_some_iff.1 h
    obtain ⟨bs', hbs, h⟩ := Option.bind_eq_some_iff.1 h
    obtain rfl : b :: bs' = bs := Option.some.inj h
    cases n with
    | zero => rfl
    | succ n => simp [hb, ih hbs n]

/-- **root_at** answers every committed size with the tree hash of that many entries -/
theorem rootAt_spec (hinv : Inv s) (h : PrefixCached s) {n : ℕ} (hn : n ≤ s.db.entries.length) :
    ∃ root, rootAt s n = some (.ok (some root)) ∧
      mthOfHexHashes ledgerHashAlgo ((s.db.entries.map LedgerEntryRow.entryHash).take n) = .ok root := by
  have htake : ((s.db.entries.map LedgerEntryRow.entryHash).take n).length = n := by simpa using hn
  unfold rootAt
  dsimp only
  rw [entryHashes_of_ascending hinv.ascending]
  split_ifs with hcovered
  · -- the first n cached leaves are the committed ones
    have hlen : n ≤ s.cache.leaves.length := by omega
    have hleaves : s.cache.leaves.take n = (s.db.entries.map LedgerEntryRow.entryHash).take n := by
      rcases h with ⟨rest, hrest⟩ | ⟨rest, hrest⟩
      · rw [← hrest, List.take_append_of_le_length hlen]
      · rw [← hrest, List.take_append_of_le_length (by simpa using hn)]
    obtain ⟨data, hdata, htree⟩ := hinv.rep
    refine ⟨mth ledgerHashAlgo (data.take n), ?_, ?_⟩
    · dsimp only
      rw [root_represents htree (by rw [length_of_mapM hdata]; exact hlen)]
      rfl
    · rw [← hleaves, mthOfHexHashes, mapM_take hdata n]
  · have htaken : HexRows (s.db.entries.take n) := fun r hr => hinv.hex r (List.mem_of_mem_take hr)
    obtain ⟨data, hdata⟩ := mapM_hexDecode htaken
    rw [List.map_take] at hdata
    obtain ⟨tree, hrebuild, hrep⟩ := rebuild_spec (c := s.cache) hdata
    obtain ⟨root, hroot, hmth⟩ := root_of_cacheRep hrep
    dsimp only at hroot
    rw [htake] at hroot
    rw [hrebuild]
    exact ⟨root, by dsimp only; rw [hroot]; rfl, hmth⟩

/-- two such states over the same entries answer alike -/
theorem rootAt_eq {s' : State P} (hinv : Inv s) (h : PrefixCached s) (hinv' : Inv s') (h' : PrefixCached s')
    (hdb : s'.db = s.db) {n : ℕ} (hn : n ≤ s.db.entries.length) : rootAt s' n = rootAt s n := by
  obtain ⟨root, hroot, hmth⟩ := rootAt_spec hinv h hn
  have hn' : n ≤ s'.db.entries.length := by rw [hdb]; exact hn
  obtain ⟨root', hroot', hmth'⟩ := rootAt_spec hinv' h' hn'
  rw [hdb, hmth] at hmth'
  rw [hroot, hroot', Except.ok.inj hmth']

end roots

/-! ## Signed previews -/

/-- the head a caller signs: the preview, under the caller's key id -/
def PreparedTreeHead.signedHead (p : PreparedTreeHead) (signingKeyId signature : String) :
    Except SigningBytesError SignedTreeHead := do
  let envelope ← p.envelope.toEnvelope .settlementSth
  return {
    treeSize := p.treeSize
    rootHash := p.rootHash
    networkId := p.networkId
    signingKeyId := signingKeyId
    signature := signature
    createdAt := p.createdAt
    envelope := envelope }

/-- the signature is good for the prepared head -/
def Signs (ed : Ed25519) (key : FixedBytes 32) (p : PreparedTreeHead) (signingKeyId signature : String) : Prop :=
  ∃ head, p.signedHead signingKeyId signature = .ok head ∧ verifyTreeHead ed key head = true

/-- one signature that is good for two messages under one key -/
def TwoMessages (ed : Ed25519) (key : FixedBytes 32) (signature : String) : Prop :=
  ∃ s m m', (hexDecode signature).bind (FixedBytes.ofList? 64) = some s ∧ m ≠ m' ∧ ed.verifyStrict key m s = true ∧
    ed.verifyStrict key m' s = true

theorem verifyTreeHead_message {ed : Ed25519} {key : FixedBytes 32} {head : SignedTreeHead}
    (h : verifyTreeHead ed key head = true) :
    ∃ m s, signingMessage head.treeSize head.rootHash head.networkId head.signingKeyId head.createdAt head.envelope = .ok m ∧
      (hexDecode head.signature).bind (FixedBytes.ofList? 64) = some s ∧ ed.verifyStrict key m s = true := by
  unfold verifyTreeHead verifyHexSignature at h
  split at h
  · cases h
  · rename_i m hm
    split at h
    · cases h
    · rename_i s hs
      exact ⟨m, s, hm, hs, h⟩

/-- heads of different sizes are different messages -/
theorem twoMessages_of_sizes {ed : Ed25519} {key : FixedBytes 32} {head head' : SignedTreeHead}
    (h : verifyTreeHead ed key head = true) (h' : verifyTreeHead ed key head' = true)
    (hsignature : head'.signature = head.signature) (hsize : head.treeSize ≠ head'.treeSize) :
    TwoMessages ed key head.signature := by
  obtain ⟨m, s, hm, hs, hv⟩ := verifyTreeHead_message h
  obtain ⟨m', s', hm', hs', hv'⟩ := verifyTreeHead_message h'
  rw [hsignature, hs] at hs'
  cases hs'
  refine ⟨s, m, m', hs, ?_, hv, hv'⟩
  rintro rfl
  have hagrees := SignedMessage.agrees_of_signingBytes
    (.treeHead head.treeSize head.rootHash head.networkId head.signingKeyId head.createdAt head.envelope)
    (.treeHead head'.treeSize head'.rootHash head'.networkId head'.signingKeyId head'.createdAt head'.envelope)
    (toOption_eq_some.2 hm) (toOption_eq_some.2 hm')
  exact hsize hagrees.1

theorem signedHead_of_previewed {cfg : Config P} {db : Db P} {batch : EventBatch P} {p : PreparedTreeHead}
    {now : OffsetDateTime} {rows : List (LedgerEntryRow P)} {root : Hash} (h : Previewed cfg db batch p now rows root)
    (signingKeyId signature : String) :
    p.signedHead signingKeyId signature = .ok {
      treeSize := Int64.ofNat (db.entries.length + rows.length)
      rootHash := hexEncode root.toList
      networkId := cfg.networkId
      signingKeyId := signingKeyId
      signature := signature
      createdAt := p.createdAt
      envelope := .current .settlementSth } := by
  have hcurrent : (EnvelopeWire.ofEnvelope (.current .settlementSth)).toEnvelope .settlementSth =
      .ok (.current .settlementSth) := by decide +kernel
  rw [PreparedTreeHead.signedHead, h.envelope, hcurrent, h.treeSize, h.rootHash, h.networkId]
  rfl

/-! ## Finalizing the prepared head -/

section finalize

variable {cfg : Config P} {s : State P} {i : ℕ} {a : Attempt P} {db : Db P} {batch : EventBatch P} {now : OffsetDateTime}
  {p : PreparedTreeHead} {rows : List (LedgerEntryRow P)} {treeSize : ℕ} {root : Hash}

/-- an attempt of the prepared batch on the prepared ledger computes the prepared head -/
theorem previewed_of_computed (hinv : Inv s) (hchain : Chained cfg s) (hprepare : prepare cfg db batch now = .ok p)
    (hentries : s.db.entries = db.entries) (ha : s.attempts i = some a) (hbatch : a.batch = batch)
    (hphase : a.phase = .computed rows treeSize root) :
    Previewed cfg db batch p a.now rows root ∧ treeSize = db.entries.length + rows.length := by
  obtain ⟨rows', root', hp⟩ := prepare_spec (hentries ▸ hchain.ascending) hprepare a.now
  have hrows := (hchain.holding i a ha (by rw [hphase]; rfl)).rows rows (by rw [hphase]; rfl)
  have hok := hinv.phases i a ha
  rw [hphase] at hok
  obtain ⟨-, -, hsize, hroot⟩ := hok
  rw [hbatch, hentries, hp.inserted] at hrows
  obtain rfl : rows' = rows := Except.ok.inj hrows
  rw [hentries, hp.hashed] at hroot
  obtain rfl : root' = root := Except.ok.inj hroot
  exact ⟨hp, hentries ▸ hsize⟩

/-- the size of a computed head is not taken yet -/
theorem treeSize_free (hinv : Inv s) (hchain : Chained cfg s) (ha : s.attempts i = some a)
    (hphase : a.phase = .computed rows treeSize root) :
    ∀ head ∈ s.db.heads, head.treeSize ≠ Int64.ofNat treeSize := by
  intro head hhead
  obtain ⟨n, hn, hsize, -⟩ := hinv.heads head hhead
  obtain ⟨hcont, hpositive, hintact, -⟩ := hchain.append ha (by rw [hphase]; rfl) rows (by rw [hphase]; rfl)
  have hok := hinv.phases i a ha
  rw [hphase] at hok
  have hlt := length_lt_of_intact hcont.ascending hpositive hintact
  have hne := List.length_pos_iff.2 hcont.nonempty
  rw [List.length_append] at hlt
  rw [hsize, hok.2.2.1]
  exact int64_ofNat_ne (by omega) hlt

theorem getCommitment_eq_none (h : getCommitment s.db batch.id = none) :
    (s.db.batches.any fun b => decide (b.batchId = batch.id)) = false := by
  rw [getCommitment, Option.map_eq_none_iff] at h
  rw [List.any_eq_false]
  exact List.find?_eq_none.1 h

theorem persistRows_of_free (rows : List (LedgerEntryRow P)) {key : Option (FixedBytes 32 × String)} {head : SignedTreeHead}
    (hbatch : (s.db.batches.any fun b => decide (b.batchId = a.batch.id)) = false)
    (hhead : treeHead cfg a.mode a.now key treeSize (hexEncode root.toList) = .ok head)
    (hsize : (s.db.heads.any fun h => decide (h.treeSize = head.treeSize)) = false) :
    ∃ batchRow, persistRows cfg s.db a rows treeSize root key = .ok (batchRow, head) := by
  refine ⟨⟨a.batch.id, (rows.map LedgerEntryRow.seq).headD 0, (rows.map LedgerEntryRow.seq).getLastD 0,
    hexEncode root.toList, a.now⟩, ?_⟩
  unfold persistRows
  rw [hbatch]
  exact bind_eq_ok.2 ⟨(), rfl, bind_eq_ok.2 ⟨head, hhead, bind_eq_ok.2 ⟨(), by rw [hsize]; rfl, rfl⟩⟩⟩

/-- the signed preview is what finalize persists -/
theorem persistRows_of_computed (hinv : Inv s) (hchain : Chained cfg s) (hprepare : prepare cfg db batch now = .ok p)
    (hentries : s.db.entries = db.entries) (ha : s.attempts i = some a) (hbatch : a.batch = batch)
    (hphase : a.phase = .computed rows treeSize root) {signingKeyId signature : String} {verifyKey : FixedBytes 32}
    (hsigned : Signs cfg.ed verifyKey p signingKeyId signature)
    (hmode : a.mode = .finalize p.createdAt signingKeyId signature verifyKey)
    (hnew : getCommitment s.db batch.id = none) (key : Option (FixedBytes 32 × String)) :
    ∃ batchRow head, persistRows cfg s.db a rows treeSize root key = .ok (batchRow, head) ∧
      p.signedHead signingKeyId signature = .ok head := by
  obtain ⟨hp, hsize⟩ := previewed_of_computed hinv hchain hprepare hentries ha hbatch hphase
  obtain ⟨head, hhead, hverify⟩ := hsigned
  have hfree := treeSize_free hinv hchain ha hphase
  rw [signedHead_of_previewed hp, ← hsize] at hhead ⊢
  have hfields := Except.ok.inj hhead
  have htree : treeHead cfg a.mode a.now key treeSize (hexEncode root.toList) = .ok head := by
    rw [hmode, treeHead, hfields, if_pos hverify]
  have htaken : (s.db.heads.any fun h => decide (h.treeSize = head.treeSize)) = false := by
    rw [List.any_eq_false]
    intro head' hhead'
    rw [← hfields]
    simpa using hfree head' hhead'
  obtain ⟨batchRow, hrow⟩ := persistRows_of_free rows
    (by rw [hbatch]; exact getCommitment_eq_none hnew) htree htaken
  exact ⟨batchRow, head, hrow, hhead⟩

/-- on a longer ledger the signature of the preview is good for another head only if it is good for two messages -/
theorem twoMessages_of_longer (hasc : Ascending db.entries) (hprepare : prepare cfg db batch now = .ok p)
    {signingKeyId signature : String} {verifyKey : FixedBytes 32}
    (hsigned : Signs cfg.ed verifyKey p signingKeyId signature) (hlonger : db.entries.length < s.db.entries.length)
    (hchain : Chained cfg s) (ha : s.attempts i = some a) (hholds : a.phase.holds = true)
    (hrows : a.phase.rows = some rows) (hbatch : a.batch = batch)
    (hmode : a.mode = .finalize p.createdAt signingKeyId signature verifyKey) {key : Option (FixedBytes 32 × String)}
    {batchRoot : String} {head : SignedTreeHead}
    (hhead : treeHead cfg a.mode a.now key (s.db.entries.length + rows.length) batchRoot = .ok head) :
    TwoMessages cfg.ed verifyKey signature := by
  obtain ⟨rows', root', hp⟩ := prepare_spec hasc hprepare a.now
  obtain ⟨prepared, hprepared, hverify⟩ := hsigned
  rw [signedHead_of_previewed hp] at hprepared
  have hfields := Except.ok.inj hprepared
  have hbatchRows := (hchain.holding i a ha hholds).rows rows hrows
  have hlen : rows'.length = rows.length := by
    rw [(batchRows_spec hp.inserted).2.2.2, (batchRows_spec hbatchRows).2.2.2, hbatch]
  obtain ⟨hcont, hpositive, hintact, -⟩ := hchain.append ha hholds rows hrows
  have hlt := length_lt_of_intact hcont.ascending hpositive hintact
  rw [List.length_append] at hlt
  rw [hmode, treeHead] at hhead
  split_ifs at hhead with hverify'
  have hsize : Int64.ofNat (db.entries.length + rows'.length) ≠ Int64.ofNat (s.db.entries.length + rows.length) :=
    int64_ofNat_ne (by omega) hlt
  have htwo := twoMessages_of_sizes hverify hverify' (by rw [← hfields]) (by rw [← hfields]; exact hsize)
  rwa [← hfields] at htwo

end finalize

/-! ## One attempt on its own -/

/-- the state with attempt i there, and this cache and lock -/
def State.at (s : State P) (i : ℕ) (a : Attempt P) (cache : LedgerCache) (lock : Option ℕ) : State P :=
  ⟨s.db, cache, lock, Function.update s.attempts i (some a)⟩

/-- a call of finalize that nothing interrupts: to its commit, or through the error path -/
def finalizeOps (i : ℕ) (batch : EventBatch P) (mode : Mode) (now : OffsetDateTime) : List (Op P) :=
  [.start i batch mode now, .attempt i .acquire, .attempt i .insert, .attempt i .compute, .attempt i (.persist none),
    .attempt i (.commit true), .attempt i .rollback, .attempt i .reset]

section alone

variable (cfg : Config P) (s : State P) (i : ℕ) (a : Attempt P) (cache : LedgerCache) (lock : Option ℕ)

theorem at_attempts : (s.at i a cache lock).attempts i = some a := by simp [State.at]

theorem step_at (op : AttemptOp) : step cfg (s.at i a cache lock) (.attempt i op) =
    attemptStep cfg (s.at i a cache lock) i a op := by
  simp only [step, at_attempts]

theorem at_setPhase (phase : Phase P) : (s.at i a cache lock).setPhase i a phase =
    s.at i { a with phase := phase } cache lock := by
  simp [State.at, State.setPhase]

/-- the error path: rollback, then reset -/
theorem run_failing (e : SettlementError) (hlock : lock = some i ∨ lock = none) :
    run cfg (s.at i { a with phase := .failing e } cache lock) [.attempt i .rollback, .attempt i .reset] =
      s.at i { a with phase := .ended (.error e) } .empty none := by
  rcases hlock with rfl | rfl <;>
  simp [run, step, State.at, attemptStep, State.setPhase]

/-- the ops that are not enabled in the error path -/
theorem run_not_enabled (e : SettlementError) (ops : List AttemptOp)
    (hops : ∀ op ∈ ops, op ≠ .rollback ∧ op ≠ .reset ∧ op ≠ .drop) :
    run cfg (s.at i { a with phase := .failing e } cache lock) (ops.map (.attempt i)) =
      s.at i { a with phase := .failing e } cache lock := by
  induction ops with
  | nil => rfl
  | cons op ops ih =>
    obtain ⟨hop, hops⟩ := List.forall_mem_cons.1 hops
    have hstep : step cfg (s.at i { a with phase := .failing e } cache lock) (.attempt i op) =
        s.at i { a with phase := .failing e } cache lock := by
      rw [step_at]
      cases op with
      | rollback => exact absurd rfl hop.1
      | reset => exact absurd rfl hop.2.1
      | drop => exact absurd rfl hop.2.2
      | _ => rfl
    rw [List.map_cons]
    change run cfg (step cfg _ _) _ = _
    rw [hstep]
    exact ih hops

end alone

section call

variable {cfg : Config P} {s : State P} {i : ℕ} {batch : EventBatch P} {mode : Mode} {now : OffsetDateTime}
  {rows : List (LedgerEntryRow P)}

theorem run_cons (op : Op P) (ops : List (Op P)) : run cfg s (op :: ops) = run cfg (step cfg s op) ops := rfl

/-- up to the inserted rows, which fails if the batch does not hash or an entry hash is taken -/
theorem run_toInsert (cfg : Config P) (mode : Mode) (now : OffsetDateTime) (hfree : s.attempts i = none) (hlock : s.lock = none) (hnew : getCommitment s.db batch.id = none)
    (hne : batch.events ≠ []) (hcheck : checkBatch batch = .ok ()) :
    ∃ phase, run cfg s [.start i batch mode now, .attempt i .acquire, .attempt i .insert] =
        s.at i ⟨batch, mode, now, phase⟩ s.cache (some i) ∧
      ((∃ rows, phase = .inserted rows) ∨ (∃ e, phase = .failing e) ∧
        ∀ rows, batchRows cfg batch.id now (tipHash s.db.entries) (maxSeq s.db.entries + 1) batch.events = .ok rows →
          ¬ ((s.db.entries ++ rows).map LedgerEntryRow.entryHash).Nodup) := by
  have hstart : step cfg s (.start i batch mode now) = s.at i ⟨batch, mode, now, .begun⟩ s.cache none := by
    simp only [step, hfree, hnew]
    rw [← hlock]
    rfl
  have hacquire : step cfg (s.at i ⟨batch, mode, now, .begun⟩ s.cache none) (.attempt i .acquire) =
      s.at i ⟨batch, mode, now, .locked⟩ s.cache (some i) := by
    rw [step_at]
    simp [attemptStep, hcheck, hne, State.at, State.setPhase]
  rw [run_cons, hstart, run_cons, hacquire, run_cons, step_at]
  have hdb : (s.at i ⟨batch, mode, now, .locked⟩ s.cache (some i)).db = s.db := rfl
  simp only [attemptStep, hdb]
  split
  · rename_i e hrows
    refine ⟨.failing e, at_setPhase .., .inr ⟨⟨e, rfl⟩, ?_⟩⟩
    intro rows hok
    rw [hrows] at hok
    cases hok
  · rename_i rows hrows
    split_ifs with hnodup
    · exact ⟨.inserted rows, at_setPhase .., .inl ⟨rows, rfl⟩⟩
    · refine ⟨.failing _, at_setPhase .., .inr ⟨⟨_, rfl⟩, ?_⟩⟩
      intro rows' hok
      rw [hrows] at hok
      cases hok
      exact hnodup

/-- the cache step of an attempt that has inserted its rows -/
theorem step_compute (cfg : Config P) (s : State P) (i : ℕ) (a : Attempt P) (lock : Option ℕ)
    {cache cache' : LedgerCache} {treeSize : ℕ} {root : Hash}
    (hphase : a.phase = .inserted rows)
    (hroot : computeRoot cache s.db.entries rows = (cache', some (.ok (treeSize, root)))) :
    step cfg (s.at i a cache lock) (.attempt i .compute) =
      s.at i { a with phase := .computed rows treeSize root } cache' lock := by
  rw [step_at]
  have hroot' : computeRoot (s.at i a cache lock).cache (s.at i a cache lock).db.entries rows =
    (cache', some (.ok (treeSize, root))) := hroot
  simp only [attemptStep, hphase, hroot']
  rw [at_setPhase]
  rfl

/-- from the computed head to the end of the call -/
theorem run_fromComputed (cfg : Config P) (s : State P) (i : ℕ) (a : Attempt P) (cache : LedgerCache) {treeSize : ℕ} {root : Hash}
    (hphase : a.phase = .computed rows treeSize root) :
    (∃ e, persistRows cfg s.db a rows treeSize root none = .error e ∧
      run cfg (s.at i a cache (some i)) [.attempt i (.persist none), .attempt i (.commit true), .attempt i .rollback,
        .attempt i .reset] = s.at i { a with phase := .ended (.error e) } .empty none) ∨
    (∃ batchRow head, persistRows cfg s.db a rows treeSize root none = .ok (batchRow, head) ∧
      run cfg (s.at i a cache (some i)) [.attempt i (.persist none), .attempt i (.commit true), .attempt i .rollback,
        .attempt i .reset] =
      { s.at i { a with phase := .ended (.ok (commitResult a batchRow head)) } cache none with
        db := ⟨s.db.entries ++ rows, s.db.batches ++ [batchRow], s.db.heads ++ [head]⟩ }) := by
  cases hpersist : persistRows cfg s.db a rows treeSize root none with
  | error e =>
    left
    refine ⟨e, rfl, ?_⟩
    have hstep : step cfg (s.at i a cache (some i)) (.attempt i (.persist none)) =
        s.at i { a with phase := .failing e } cache (some i) := by
      rw [step_at]
      have hpersist' : persistRows cfg (s.at i a cache (some i)).db a rows treeSize root none = .error e := hpersist
      simp only [attemptStep, hphase, hpersist']
      exact at_setPhase ..
    rw [run_cons, hstep]
    change run cfg (run cfg _ ([AttemptOp.commit true].map (.attempt i))) _ = _
    rw [run_not_enabled cfg s i a cache (some i) e [.commit true] (by simp), run_failing cfg s i a cache _ e (.inl rfl)]
  | ok result =>
    obtain ⟨batchRow, head⟩ := result
    right
    refine ⟨batchRow, head, rfl, ?_⟩
    have hstep : step cfg (s.at i a cache (some i)) (.attempt i (.persist none)) =
        s.at i { a with phase := .persisted rows treeSize root batchRow head } cache (some i) := by
      rw [step_at]
      have hpersist' : persistRows cfg (s.at i a cache (some i)).db a rows treeSize root none = .ok (batchRow, head) :=
        hpersist
      simp only [attemptStep, hphase, hpersist']
      exact at_setPhase ..
    rw [run_cons, hstep]
    simp [run, step, State.at, attemptStep, State.setPhase, commitResult]

theorem cacheStepsOk_append {xs ys : List (Op P)} :
    cacheStepsOk cfg s (xs ++ ys) = true ↔ cacheStepsOk cfg s xs = true ∧ cacheStepsOk cfg (run cfg s xs) ys = true := by
  induction xs generalizing s with
  | nil => simp [cacheStepsOk, run]
  | cons op xs ih =>
    rw [List.cons_append, cacheStepsOk, cacheStepsOk, Bool.and_eq_true, Bool.and_eq_true, ih, and_assoc]
    rfl

/-- **A call of finalize** on its own fails before its cache step, or fails to persist the head it computed, or commits that
head -/
theorem run_finalizeOps (hinv : Inv s) (hchain : Chained cfg s)
    (hok : cacheStepsOk cfg s (finalizeOps i batch mode now) = true) (hfree : s.attempts i = none) (hlock : s.lock = none)
    (hnew : getCommitment s.db batch.id = none) (hne : batch.events ≠ []) (hcheck : checkBatch batch = .ok ()) :
    ((∃ e, run cfg s (finalizeOps i batch mode now) = s.at i ⟨batch, mode, now, .ended (.error e)⟩ .empty none) ∧
      ∀ rows, batchRows cfg batch.id now (tipHash s.db.entries) (maxSeq s.db.entries + 1) batch.events = .ok rows →
        ¬ ((s.db.entries ++ rows).map LedgerEntryRow.entryHash).Nodup) ∨
    ∃ (c : State P) (rows : List (LedgerEntryRow P)) (treeSize : ℕ) (root : Hash),
      Inv c ∧ Chained cfg c ∧ c.db = s.db ∧ c.attempts i = some ⟨batch, mode, now, .computed rows treeSize root⟩ ∧
      ((∃ e, persistRows cfg s.db ⟨batch, mode, now, .computed rows treeSize root⟩ rows treeSize root none = .error e ∧
        run cfg s (finalizeOps i batch mode now) = s.at i ⟨batch, mode, now, .ended (.error e)⟩ .empty none) ∨
      ∃ batchRow head cache,
        persistRows cfg s.db ⟨batch, mode, now, .computed rows treeSize root⟩ rows treeSize root none =
          .ok (batchRow, head) ∧
        run cfg s (finalizeOps i batch mode now) =
          { s.at i ⟨batch, mode, now, .ended (.ok (commitResult ⟨batch, mode, now, .begun⟩ batchRow head))⟩ cache none with
            db := ⟨s.db.entries ++ rows, s.db.batches ++ [batchRow], s.db.heads ++ [head]⟩ }) := by
  have hsplit : finalizeOps i batch mode now =
      [.start i batch mode now, .attempt i .acquire, .attempt i .insert] ++ .attempt i .compute ::
        [.attempt i (.persist none), .attempt i (.commit true), .attempt i .rollback, .attempt i .reset] := rfl
  obtain ⟨phase, hinsert, hphase⟩ := run_toInsert cfg mode now hfree hlock hnew hne hcheck
  rw [hsplit] at hok ⊢
  obtain ⟨hok1, hok2⟩ := cacheStepsOk_append.1 hok
  have hinv1 := run_inv hinv _ hok1
  have hchain1 := run_chained hchain [.start i batch mode now, .attempt i .acquire, .attempt i .insert]
  rw [run_append]
  rw [hinsert] at hok2 hinv1 hchain1 ⊢
  rcases hphase with ⟨rows, rfl⟩ | ⟨⟨e, rfl⟩, hduplicate⟩
  · right
    rw [cacheStepsOk, Bool.and_eq_true] at hok2
    have hfew : s.cache.leaves.length < s.db.entries.length + rows.length := by
      have hstep := hok2.1
      simp only [cacheStepOk, at_attempts] at hstep
      exact of_decide_eq_true hstep
    have hphase := hinv1.phases i _ (at_attempts ..)
    obtain ⟨cache, root, hroot, -, -, -⟩ := computeRoot_spec hinv.hex hphase.2 hinv.rep hinv.cache.between hfew
    have hcompute := step_compute cfg s i ⟨batch, mode, now, .inserted rows⟩ (some i) rfl hroot
    have hinv2 : Inv (step cfg _ _) := step_inv hinv1 _ hok2.1
    have hchain2 := Effect.chained hchain1 (step_effect (.attempt i .compute))
    rw [run_cons]
    rw [hcompute] at hinv2 hchain2 ⊢
    refine ⟨_, rows, s.db.entries.length + rows.length, root, hinv2, hchain2, rfl, at_attempts .., ?_⟩
    rcases run_fromComputed cfg s i
      ⟨batch, mode, now, .computed rows (s.db.entries.length + rows.length) root⟩ cache rfl with
      ⟨e, hpersist, hrun⟩ | ⟨batchRow, head, hpersist, hrun⟩
    · exact .inl ⟨e, hpersist, hrun⟩
    · exact .inr ⟨batchRow, head, cache, hpersist, hrun⟩
  · left
    refine ⟨⟨e, ?_⟩, hduplicate⟩
    change run cfg (run cfg _ ([AttemptOp.compute, .persist none, .commit true].map (.attempt i))) _ = _
    rw [run_not_enabled cfg s i ⟨batch, mode, now, .begun⟩ s.cache (some i) e [.compute, .persist none, .commit true]
      (by simp), run_failing cfg s i ⟨batch, mode, now, .begun⟩ s.cache _ e (.inl rfl)]

end call

/-! ## Duplicate entry hashes -/

/-- everything that is hashed for the entries of these rows -/
def entryMessages (cfg : Config P) (rows : List (LedgerEntryRow P)) : List Bytes :=
  rows.filterMap fun row => (row.message cfg).toOption

theorem seq_of_message {cfg : Config P} {row row' : LedgerEntryRow P} {m : Bytes} (h : row.message cfg = .ok m)
    (h' : row'.message cfg = .ok m) : row.seq = row'.seq := by
  obtain ⟨input, hinput, hm⟩ := bind_eq_ok.1 h
  obtain ⟨input', hinput', hm'⟩ := bind_eq_ok.1 h'
  obtain rfl : input = input' := SignedMessage.agrees_of_signingBytes (.ledgerEntry input)
    (.ledgerEntry input') (toOption_eq_some.2 hm) (toOption_eq_some.2 hm')
  have key : ∀ r : LedgerEntryRow P, r.input cfg = .ok input → seqToU64 r.seq = .ok input.seq := by
    intro r hr
    rw [LedgerEntryRow.input] at hr
    obtain ⟨envelope, -, hr⟩ := bind_eq_ok.1 hr
    obtain ⟨prev, -, hr⟩ := bind_eq_ok.1 hr
    obtain ⟨digest, -, hr⟩ := bind_eq_ok.1 hr
    obtain ⟨seq, hseq, hr⟩ := bind_eq_ok.1 hr
    obtain ⟨micros, -, hr⟩ := bind_eq_ok.1 hr
    obtain ⟨version, -, hr⟩ := bind_eq_ok.1 hr
    cases hr
    exact hseq
  exact seqToU64_inj (key row hinput) (key row' hinput')

theorem contentIntact_of_mem {cfg : Config P} {expectedPrev : String} {rows : List (LedgerEntryRow P)}
    (h : Intact cfg expectedPrev rows) : ∀ row ∈ rows, contentIntact cfg row = true := by
  induction rows generalizing expectedPrev with
  | nil => simp
  | cons row rows ih =>
    obtain ⟨⟨hcontent, -⟩, hrest⟩ := intact_cons.1 h
    exact List.forall_mem_cons.2 ⟨hcontent, ih hrest⟩

/-- intact rows of different seq have different entry hashes, or show a collision -/
theorem nodup_or_collision {cfg : Config P} {expectedPrev : String} {rows : List (LedgerEntryRow P)}
    (hasc : Ascending rows) (h : Intact cfg expectedPrev rows) :
    (rows.map LedgerEntryRow.entryHash).Nodup ∨ CollisionIn Sha256.hash (entryMessages cfg rows) := by
  by_cases hcollision : CollisionIn Sha256.hash (entryMessages cfg rows)
  · exact .inr hcollision
  · left
    refine List.pairwise_map.2 (hasc.imp_of_mem ?_)
    intro a b ha hb hlt hhash
    obtain ⟨-, m, hm, hdigest⟩ := contentIntact_message (contentIntact_of_mem h a ha)
    obtain ⟨-, m', hm', hdigest'⟩ := contentIntact_message (contentIntact_of_mem h b hb)
    have hequal : Sha256.hash m = Sha256.hash m' := FixedBytes.hexEncode_inj (by rw [← hdigest, ← hdigest', hhash])
    have hmem : m ∈ entryMessages cfg rows := List.mem_filterMap.2 ⟨a, ha, by rw [hm]; rfl⟩
    have hmem' : m' ∈ entryMessages cfg rows := List.mem_filterMap.2 ⟨b, hb, by rw [hm']; rfl⟩
    obtain rfl := (eq_or_collision hmem hmem' hequal).resolve_right hcollision
    have hseq := seq_of_message hm hm'
    omega

/-! ## Prepare and finalize -/

section prepareFinalize

variable (cfg : Config P) (batch : EventBatch P) (p : PreparedTreeHead) (signingKeyId signature : String)
  (verifyKey : FixedBytes 32)

/-- how finalize is called with the signature over the preview -/
def signedMode : Mode := .finalize p.createdAt signingKeyId signature verifyKey

/-- **Agreement** on the ledger of the preview: an attempt that reached its cache step has computed the prepared head and
persists it; a call on its own commits it, or a row it inserts shows a SHA-256 collision with another -/
structure Agreement (history : List (Op P)) : Prop where
  interleaved : cacheStepsOk cfg .init history = true → ∀ i a rows treeSize root,
    (run cfg .init history).attempts i = some a → a.batch = batch → a.phase = .computed rows treeSize root →
    Int64.ofNat treeSize = p.treeSize ∧ hexEncode root.toList = p.rootHash ∧
      (a.mode = signedMode p signingKeyId signature verifyKey →
        getCommitment (run cfg .init history).db batch.id = none → ∀ key, ∃ batchRow head,
          persistRows cfg (run cfg .init history).db a rows treeSize root key = .ok (batchRow, head) ∧
            p.signedHead signingKeyId signature = .ok head)
  alone : ∀ i now, (run cfg .init history).attempts i = none → (run cfg .init history).lock = none →
    getCommitment (run cfg .init history).db batch.id = none →
    cacheStepsOk cfg .init (history ++ finalizeOps i batch (signedMode p signingKeyId signature verifyKey) now) = true →
    (∃ a c head, (run cfg .init (history ++
        finalizeOps i batch (signedMode p signingKeyId signature verifyKey) now)).attempts i = some a ∧
      a.phase = .ended (.ok c) ∧ p.signedHead signingKeyId signature = .ok head ∧
      (run cfg .init (history ++ finalizeOps i batch (signedMode p signingKeyId signature verifyKey) now)).db.heads =
        (run cfg .init history).db.heads ++ [head]) ∨
    ∃ rows, batchRows cfg batch.id now (tipHash (run cfg .init history).db.entries)
        (maxSeq (run cfg .init history).db.entries + 1) batch.events = .ok rows ∧
      CollisionIn Sha256.hash (entryMessages cfg ((run cfg .init history).db.entries ++ rows))

/-- **Refusal** on any other ledger: no op of such an attempt changes a table, nor makes it succeed, nor changes a root of
the ledger; a call on its own ends in an error with tables and roots as they were -/
structure Refusal (history : List (Op P)) : Prop where
  interleaved : ∀ i a op, (run cfg .init history).attempts i = some a → a.batch = batch →
    a.mode = signedMode p signingKeyId signature verifyKey →
    (step cfg (run cfg .init history) (.attempt i op)).db = (run cfg .init history).db ∧
    (∀ b c, (step cfg (run cfg .init history) (.attempt i op)).attempts i = some b → b.phase = .ended (.ok c) →
      a.phase = .ended (.ok c)) ∧
    (cacheStepsOk cfg .init (history ++ [.attempt i op]) = true →
      ∀ n ≤ (run cfg .init history).db.entries.length,
        rootAt (step cfg (run cfg .init history) (.attempt i op)) n = rootAt (run cfg .init history) n)
  alone : ∀ i now, (run cfg .init history).attempts i = none → (run cfg .init history).lock = none →
    getCommitment (run cfg .init history).db batch.id = none →
    cacheStepsOk cfg .init (history ++ finalizeOps i batch (signedMode p signingKeyId signature verifyKey) now) = true →
    (∃ a e, (run cfg .init (history ++
        finalizeOps i batch (signedMode p signingKeyId signature verifyKey) now)).attempts i = some a ∧
      a.phase = .ended (.error e)) ∧
    (run cfg .init (history ++ finalizeOps i batch (signedMode p signingKeyId signature verifyKey) now)).db =
      (run cfg .init history).db ∧
    ∀ n ≤ (run cfg .init history).db.entries.length,
      rootAt (run cfg .init (history ++ finalizeOps i batch (signedMode p signingKeyId signature verifyKey) now)) n =
        rootAt (run cfg .init history) n

variable {cfg batch p signingKeyId signature verifyKey} {before between : List (Op P)} {now : OffsetDateTime}

theorem agreement_of_prepare (hprepare : prepare cfg (run cfg .init before).db batch now = .ok p)
    (hsigned : Signs cfg.ed verifyKey p signingKeyId signature)
    (hsame : (run cfg .init (before ++ between)).db.entries = (run cfg .init before).db.entries) :
    Agreement cfg batch p signingKeyId signature verifyKey (before ++ between) := by
  have hchain := run_chained (chained_init cfg) (before ++ between)
  constructor
  · intro hok i a rows treeSize root ha hbatch hphase
    have hinv := run_inv inv_init _ hok
    obtain ⟨hp, hsize⟩ := previewed_of_computed hinv hchain hprepare hsame ha hbatch hphase
    refine ⟨by rw [hp.treeSize, hsize], hp.rootHash.symm, ?_⟩
    intro hmode hnew key
    exact persistRows_of_computed hinv hchain hprepare hsame ha hbatch hphase hsigned hmode hnew key
  · intro i now' hfree hlock hnew hok
    obtain ⟨hok1, hok2⟩ := cacheStepsOk_append.1 hok
    have hinv := run_inv inv_init _ hok1
    obtain ⟨rows, root, hp⟩ := prepare_spec (run_chained (chained_init cfg) before).ascending hprepare now'
    have hinserted := hp.inserted
    rw [← hsame] at hinserted
    rw [run_append]
    rcases run_finalizeOps hinv hchain hok2 hfree hlock hnew hp.nonempty hp.checked with
      ⟨-, hduplicate⟩ | ⟨c, rows', treeSize, root', hinvc, hchainc, hdb, hattempt, hcall⟩
    · right
      refine ⟨rows, hinserted, ?_⟩
      have hintact : Intact cfg genesisHash ((run cfg .init (before ++ between)).db.entries ++ rows) := by
        refine intact_append.2 ⟨hchain.intact, ?_⟩
        rw [← tipHash_of_ascending hchain.ascending]
        exact batchRows_intact hinserted (versionFits_of_checkBatch hp.checked)
      have hcont := batchRows_continues hchain.ascending hp.nonempty hinserted
      exact (nodup_or_collision hcont.ascending hintact).resolve_left (hduplicate rows hinserted)
    · left
      have hsame' : c.db.entries = (run cfg .init before).db.entries := by rw [hdb, hsame]
      obtain ⟨batchRow, head, hpersist, hhead⟩ := persistRows_of_computed hinvc hchainc hprepare hsame' hattempt rfl rfl
        hsigned rfl (by rw [hdb]; exact hnew) none
      rw [hdb] at hpersist
      rcases hcall with ⟨e, herror, -⟩ | ⟨batchRow', head', cache, hok', hrun⟩
      · rw [hpersist] at herror
        cases herror
      · rw [hpersist] at hok'
        cases hok'
        rw [hrun]
        exact ⟨_, _, head, at_attempts _ _ _ cache none, rfl, hhead, rfl⟩

/-- an attempt that has nothing to commit: no op of its own changes a table or makes it succeed -/
theorem attemptStep_unpersisted (cfg : Config P) (s : State P) {i : ℕ} {a : Attempt P} (ha : s.attempts i = some a)
    (hnot : ∀ rows treeSize root batchRow head, a.phase ≠ .persisted rows treeSize root batchRow head) (op : AttemptOp) :
    (step cfg s (.attempt i op)).db = s.db ∧
      ∀ b c, (step cfg s (.attempt i op)).attempts i = some b → b.phase = .ended (.ok c) → a.phase = .ended (.ok c) := by
  have stays : ∀ t : State P, t.db = s.db → t.attempts = s.attempts → t.db = s.db ∧
      ∀ b c, t.attempts i = some b → b.phase = .ended (.ok c) → a.phase = .ended (.ok c) := by
    intro t hdb hattempts
    refine ⟨hdb, ?_⟩
    intro b c hb hphase
    rw [hattempts, ha] at hb
    cases hb
    exact hphase
  have moves : ∀ (phase : Phase P) (cache : LedgerCache) (lock : Option ℕ), (∀ c, phase ≠ .ended (.ok c)) →
      ({ s.setPhase i a phase with cache := cache, lock := lock }).db = s.db ∧
      ∀ b c, ({ s.setPhase i a phase with cache := cache, lock := lock }).attempts i = some b →
        b.phase = .ended (.ok c) → a.phase = .ended (.ok c) := by
    intro phase cache lock hphase
    refine ⟨rfl, ?_⟩
    intro b c hb hended
    rcases attempts_setPhase hb with ⟨-, rfl⟩ | ⟨hne, -⟩
    · exact absurd hended (hphase c)
    · exact absurd rfl hne
  simp only [step, ha]
  cases op with
  | commit reported =>
    -- only a persisted attempt commits
    simp only [attemptStep]
    exact ⟨trivial, (stays s rfl rfl).2⟩
  | _ =>
    simp only [attemptStep]
    repeat' split
    all_goals first
      | exact stays _ rfl rfl
      | exact moves _ _ _ (by intro _ he; cases he)

/-- on a longer ledger no attempt gets to persist under the signature of the preview -/
theorem not_persisted_of_prepare (hprepare : prepare cfg (run cfg .init before).db batch now = .ok p)
    (hsigned : Signs cfg.ed verifyKey p signingKeyId signature)
    (hother : (run cfg .init (before ++ between)).db.entries ≠ (run cfg .init before).db.entries)
    (htwo : ¬ TwoMessages cfg.ed verifyKey signature) {s : State P} (hchain : Chained cfg s)
    (hdb : s.db = (run cfg .init (before ++ between)).db) {i : ℕ} {a : Attempt P} (ha : s.attempts i = some a)
    (hbatch : a.batch = batch) (hmode : a.mode = signedMode p signingKeyId signature verifyKey)
    (hholds : a.phase.holds = true) {rows : List (LedgerEntryRow P)} (hrows : a.phase.rows = some rows)
    {key : Option (FixedBytes 32 × String)} {batchRoot : String} {head : SignedTreeHead} :
    treeHead cfg a.mode a.now key (s.db.entries.length + rows.length) batchRoot ≠ .ok head := by
  intro hhead
  have hgrow := run_entries_grow cfg (run cfg .init before) between
  rw [← run_append, ← hdb] at hgrow
  have hlonger : (run cfg .init before).db.entries.length < s.db.entries.length := by
    refine lt_of_le_of_ne hgrow.length_le ?_
    intro hlen
    rw [hdb] at hgrow hlen
    exact hother (hgrow.eq_of_length hlen).symm
  exact htwo (twoMessages_of_longer (run_chained (chained_init cfg) before).ascending hprepare hsigned hlonger hchain ha
    hholds hrows hbatch hmode hhead)

theorem refusal_of_prepare (hprepare : prepare cfg (run cfg .init before).db batch now = .ok p)
    (hsigned : Signs cfg.ed verifyKey p signingKeyId signature)
    (hother : (run cfg .init (before ++ between)).db.entries ≠ (run cfg .init before).db.entries)
    (htwo : ¬ TwoMessages cfg.ed verifyKey signature) :
    Refusal cfg batch p signingKeyId signature verifyKey (before ++ between) := by
  have hchain := run_chained (chained_init cfg) (before ++ between)
  have hsized := run_sized (chained_init cfg) (sized_init cfg) (before ++ between)
  constructor
  · intro i a op ha hbatch hmode
    have hnot : ∀ rows treeSize root batchRow head, a.phase ≠ .persisted rows treeSize root batchRow head := by
      intro rows treeSize root batchRow head hphase
      have hsize := hsized i a ha
      unfold SizeOk at hsize
      rw [hphase] at hsize
      obtain ⟨rfl, key, hhead⟩ := hsize
      exact not_persisted_of_prepare hprepare hsigned hother htwo hchain rfl ha hbatch hmode (by rw [hphase]; rfl)
        (by rw [hphase]; rfl) hhead
    obtain ⟨hdb, hended⟩ := attemptStep_unpersisted cfg (run cfg .init (before ++ between)) ha hnot op
    refine ⟨hdb, hended, ?_⟩
    intro hok n hn
    obtain ⟨hok1, hok2⟩ := cacheStepsOk_append.1 hok
    rw [cacheStepsOk, Bool.and_eq_true] at hok2
    have hinv := run_inv inv_init _ hok1
    have hcached := run_prefixCached inv_init (.inl List.nil_prefix) _ hok1
    exact rootAt_eq hinv hcached (step_inv hinv _ hok2.1) (step_prefixCached hinv hcached _ hok2.1) hdb hn
  · intro i now' hfree hlock hnew hok
    obtain ⟨hok1, hok2⟩ := cacheStepsOk_append.1 hok
    have hinv := run_inv inv_init _ hok1
    have hcached := run_prefixCached inv_init (.inl List.nil_prefix) _ hok1
    have hinv' := run_inv inv_init _ hok
    have hcached' := run_prefixCached inv_init (.inl List.nil_prefix) _ hok
    obtain ⟨_, _, hp⟩ := prepare_spec (run_chained (chained_init cfg) before).ascending hprepare now'
    have hends : ∃ e, run cfg .init (before ++ between ++
        finalizeOps i batch (signedMode p signingKeyId signature verifyKey) now') =
        (run cfg .init (before ++ between)).at i
          ⟨batch, signedMode p signingKeyId signature verifyKey, now', .ended (.error e)⟩ .empty none := by
      rw [run_append cfg .init (before ++ between)]
      rcases run_finalizeOps hinv hchain hok2 hfree hlock hnew hp.nonempty hp.checked with
        ⟨hfail, -⟩ | ⟨c, rows, treeSize, root, hinvc, hchainc, hdb, hattempt, hcall⟩
      · exact hfail
      · rcases hcall with ⟨e, -, hrun⟩ | ⟨batchRow, head, cache, hpersist, -⟩
        · exact ⟨e, hrun⟩
        · have hphase := hinvc.phases i _ hattempt
          obtain ⟨-, -, rfl, -⟩ := hphase
          exact absurd (persistRows_head hpersist) (not_persisted_of_prepare hprepare hsigned hother htwo hchainc hdb
            hattempt rfl rfl rfl rfl)
    obtain ⟨e, hrun⟩ := hends
    have hdb : (run cfg .init (before ++ between ++
        finalizeOps i batch (signedMode p signingKeyId signature verifyKey) now')).db =
        (run cfg .init (before ++ between)).db := by rw [hrun]; rfl
    refine ⟨⟨_, e, by rw [hrun]; exact at_attempts .., rfl⟩, hdb, ?_⟩
    intro n hn
    exact rootAt_eq hinv hcached hinv' hcached' hdb hn

end prepareFinalize

/-- **Prepare / finalize agreement.** Let a head be prepared in any state of a run and signed, and let any ops follow. If they
committed no append, finalize with that signature recomputes and persists the prepared head. If they did, it changes nothing
and does not succeed, or the signature is good for two messages. -/
theorem prepare_finalize (cfg : Config P) (before between : List (Op P)) (batch : EventBatch P) (now : OffsetDateTime)
    (p : PreparedTreeHead) (signingKeyId signature : String) (verifyKey : FixedBytes 32)
    (hprepare : prepare cfg (run cfg .init before).db batch now = .ok p)
    (hsigned : Signs cfg.ed verifyKey p signingKeyId signature) :
    ((run cfg .init (before ++ between)).db.entries = (run cfg .init before).db.entries →
      Agreement cfg batch p signingKeyId signature verifyKey (before ++ between)) ∧
    ((run cfg .init (before ++ between)).db.entries ≠ (run cfg .init before).db.entries →
      Refusal cfg batch p signingKeyId signature verifyKey (before ++ between) ∨
        TwoMessages cfg.ed verifyKey signature) := by
  refine ⟨agreement_of_prepare hprepare hsigned, ?_⟩
  intro hother
  by_cases htwo : TwoMessages cfg.ed verifyKey signature
  · exact .inr htwo
  · exact .inl (refusal_of_prepare hprepare hsigned hother htwo)

/-- the head of the second test batch on an empty ledger, as prepared -/
def preparedHead : PreparedTreeHead where
  batchId := FixedBytes.replicate 16 2
  treeSize := 1
  rootHash := "b3087498bd0a11a3ef49ff962ada6c58ae16fefe5f3c1f68c1143cdc06f98958"
  networkId := "avalon-conformance-test"
  createdAt := 1790000000000000000
  envelope := .ofEnvelope (.current .settlementSth)

/-- the operator's signature over it, in hex -/
def preparedSignature : String :=
  "343ff41a4f78c73f17f7ca3bb447ac6514dc6d32ee6ffd0a9f7e64bb5424931908c608e74cea39c2a08081ec08bdc8b365b66a1d7cc317c900c0ca2c7501ee08"

def operatorKey : FixedBytes 32 := .ofHex 32 "d04ab232742bb4ab3a1368bd4615e4e6d0224ab71a016baf8520a332c9778737"

theorem preparedHead_signed : Signs testConfig.ed operatorKey preparedHead "settlement-operator-1" preparedSignature :=
  ⟨_, rfl, by decide +kernel⟩

/-- finalize of that batch by attempt i with the signature -/
def finalizePrepared (i : ℕ) : List (Op String) :=
  finalizeOps i (testBatch 2) (signedMode preparedHead "settlement-operator-1" preparedSignature operatorKey)
    1790000000000000000

/-- the head of a third test batch behind the second, as prepared -/
def secondHead : PreparedTreeHead :=
  { preparedHead with
    batchId := FixedBytes.replicate 16 3
    treeSize := 2
    rootHash := "137a9e31dc61ef6b36745f72e3ac20c315efce5b597623314b0906e3674f8304" }

def secondSignature : String :=
  "df99b5482d447d00b9778bc2486df836aba7490d602ff35054af0821ad63ad6940d5909c548710b79a23346adb7a3cf8e77f0498e13563a056d42bff58af5a07"

def secondMessage : Bytes :=
  (signingMessage 2 secondHead.rootHash secondHead.networkId "settlement-operator-1" secondHead.createdAt
    (.current .settlementSth)).toOption.getD []

/-- the operator's signatures over the heads that these runs commit -/
def commitSignatures : List (FixedBytes 32 × FixedBytes 64) :=
  (.ofHex 32 "ce931193e1e593cf69d0ef954dc7971c8fd6f49b98c02cc3509e9ae7130640ec", .ofHex 64
    "8fbf09cb7e5502ba28a65158137bd80702a1550029cfc2e9adb709bd797d5725a2d04e93c6fd41535f27745c679a6dff1465b0dd8919cd4bbd866a0e52121902") ::
    operatorSignatures

/-- Ed25519 restricted to the operator's key: signatures over these heads, and a check that knows the second head only -/
def secondEd25519 : Ed25519 where
  verifyingKey := operatorEd25519.verifyingKey
  sign _ message := (commitSignatures.lookup (Sha256.hash message)).getD (FixedBytes.replicate 64 0)
  verifyStrict key message signature :=
    key == operatorKey && message == secondMessage && signature == .ofHex 64 secondSignature

def secondConfig : Config String := { testConfig with ed := secondEd25519 }

theorem not_twoMessages_second : ¬ TwoMessages secondConfig.ed operatorKey secondSignature := by
  rintro ⟨s, m, m', -, hne, h, h'⟩
  simp only [secondConfig, secondEd25519, Bool.and_eq_true, beq_iff_eq] at h h'
  exact hne (h.1.2.trans h'.1.2.symm)

/-- attempt i fails behind its cache step, rolls back and clears the cache -/
def abortedRun (i : ℕ) (n : UInt8) : List (Op String) :=
  upToCacheStep i n ++ [.attempt i .fail, .attempt i .rollback, .attempt i .reset]

/-- behind one entry: with an aborted attempt in between finalize persists the prepared head, with a commit it is refused -/
theorem prepare_finalize_behind_entry :
    Agreement secondConfig (testBatch 3) secondHead "settlement-operator-1" secondSignature operatorKey
        (commitRun 0 2 ++ abortedRun 1 1) ∧
      (run secondConfig .init (commitRun 0 2 ++ abortedRun 1 1 ++ finalizeOps 2 (testBatch 3)
        (signedMode secondHead "settlement-operator-1" secondSignature operatorKey)
        1790000000000000000)).db.heads.length = 2 ∧
      Refusal secondConfig (testBatch 3) secondHead "settlement-operator-1" secondSignature operatorKey
        (commitRun 0 2 ++ commitRun 1 1) := by
  have hevaluated : prepare secondConfig (run secondConfig .init (commitRun 0 2)).db (testBatch 3) 1790000000000000000 =
        .ok secondHead ∧
      (run secondConfig .init (commitRun 0 2 ++ commitRun 1 1)).db.entries.length ≠
        (run secondConfig .init (commitRun 0 2)).db.entries.length ∧
      (run secondConfig .init (commitRun 0 2 ++ abortedRun 1 1 ++ finalizeOps 2 (testBatch 3)
        (signedMode secondHead "settlement-operator-1" secondSignature operatorKey)
        1790000000000000000)).db.heads.length = 2 := by
    decide +kernel
  obtain ⟨hprepare, hlonger, htwo⟩ := hevaluated
  have hsigned : Signs secondConfig.ed operatorKey secondHead "settlement-operator-1" secondSignature :=
    ⟨_, rfl, by decide +kernel⟩
  have hkept : (run secondConfig .init (commitRun 0 2 ++ abortedRun 1 1)).db.entries =
      (run secondConfig .init (commitRun 0 2)).db.entries := by
    rw [run_append, run_db _ (by simp [abortedRun, upToCacheStep])]
  have hgrown : (run secondConfig .init (commitRun 0 2 ++ commitRun 1 1)).db.entries ≠
      (run secondConfig .init (commitRun 0 2)).db.entries := ne_of_apply_ne List.length hlonger
  refine ⟨?_, htwo, ?_⟩
  · exact (prepare_finalize secondConfig (commitRun 0 2) (abortedRun 1 1) (testBatch 3) 1790000000000000000 secondHead
      "settlement-operator-1" secondSignature operatorKey hprepare hsigned).1 hkept
  · exact ((prepare_finalize secondConfig (commitRun 0 2) (commitRun 1 1) (testBatch 3) 1790000000000000000 secondHead
      "settlement-operator-1" secondSignature operatorKey hprepare hsigned).2 hgrown).resolve_right not_twoMessages_second

/-- how the attempt ended -/
def outcome (s : State P) (i : ℕ) : Option (Except SettlementError Commitment) :=
  match s.attempts i with
  | some ⟨_, _, _, .ended outcome⟩ => some outcome
  | _ => none

/-- the batch is committed by another attempt after the preview: the ledger has grown and finalize does not err -/
theorem replayed_finalize_succeeds :
    ¬ ∀ (between : List (Op String)) (batch : EventBatch String) (now : OffsetDateTime) (p : PreparedTreeHead)
      (signingKeyId signature : String) (verifyKey : FixedBytes 32),
      prepare testConfig (run testConfig .init []).db batch now = .ok p →
      Signs testConfig.ed verifyKey p signingKeyId signature →
      (run testConfig .init between).db.entries ≠ (run testConfig .init []).db.entries →
      ∃ e, outcome (run testConfig .init
        (between ++ finalizeOps 1 batch (signedMode p signingKeyId signature verifyKey) now)) 1 = some (.error e) := by
  intro h
  have hevaluated : prepare testConfig (run testConfig .init []).db (testBatch 2) 1790000000000000000 = .ok preparedHead ∧
      (run testConfig .init (commitRun 0 2)).db.entries.length ≠ (run testConfig .init []).db.entries.length ∧
      (outcome (run testConfig .init (commitRun 0 2 ++ finalizePrepared 1)) 1).map Except.isOk = some true := by
    decide +kernel
  obtain ⟨hprepare, hlonger, hanswered⟩ := hevaluated
  have hgrown : (run testConfig .init (commitRun 0 2)).db.entries ≠ (run testConfig .init []).db.entries :=
    ne_of_apply_ne List.length hlonger
  obtain ⟨e, he⟩ := h _ _ _ _ _ _ _ hprepare preparedHead_signed hgrown
  unfold finalizePrepared at hanswered
  rw [he] at hanswered
  cases hanswered

end Avalon.Ledger
