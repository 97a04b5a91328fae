/-
When a mirror's copy of a shard is complete (`crates/chain/src/mirror.rs`: `mirrored_chain_breaks`, `evaluate_convergence`,
`check_convergence`, and the queries they use).

The order of the rows in a list stands for the order in which the database finds them, where a query leaves that open. Counts and
tree sizes are compared only. `check_convergence` reads the tables in several queries; here they are the same for all of them.

Results:
- `mirroredChainBreaks_eq_nil`: there is no break exactly if each entry names its predecessor's hash.
- `evaluateConvergence_eq_converged`: which inputs converge.
- `holdsHistory_of_check`, `check_of_holdsHistory`: what the tables of a converged mirror hold, and that such are found converged.
- `converged_mirror`: the authority's history, up to a collision, and the root of a plan made from it.
-/
import Mathlib.Tactic
import Mathlib.Data.List.Sort
import Avalon.Core.Bytes
import Avalon.Core.Collision
import Avalon.Core.Fallible
import Avalon.Protocol.SigningBytes
import Avalon.Protocol.LedgerEntry
import Avalon.Chain.Merkle
import Avalon.Chain.Ledger
import Avalon.Chain.Mirror
import Avalon.Chain.Observations
import Avalon.Chain.Promotion

namespace Avalon.Convergence

open Avalon.SigningBytes Avalon.LedgerEntry Avalon.Merkle Avalon.Ledger Avalon.Mirror Avalon.Observations Avalon.Promotion
open Avalon.Events Fallible Collision

variable {P : Type}

/-! ## Queries -/

/-- `mirrored_entries`, `observed_sths` and `equivocation_findings` -/
structure MirrorTables (P : Type) where
  entries : List (MirroredRow P)
  sths : List ObservedRow
  findings : List EquivocationFinding

/-- LAG(entry_hash) OVER (ORDER BY seq) -/
def lagged (before : Option String) (rows : List (MirroredRow P)) : List (Option String) :=
  before :: rows.map fun r => some r.entryHash

/-- the seqs of the rows that do not name what stands before them -/
def breaksAfter (before : Option String) (rows : List (MirroredRow P)) : List ℤ :=
  ((rows.zip (lagged before rows)).filter fun (r, expected) => decide (∃ hash ∈ expected, r.prevHash ≠ hash)).map fun p => p.1.seq

def mirroredChainBreaks (rows : List (MirroredRow P)) (networkId shardId : String) (sourceUrl : Option String) : List ℤ :=
  breaksAfter none (orderBySeq (rowsOf rows networkId shardId sourceUrl))

/-- the heads of a shard, optionally of one source -/
def sthsOf (sths : List ObservedRow) (networkId shardId : String) (sourceUrl : Option String) : List ObservedRow :=
  sths.filter fun r => decide (r.networkId = networkId ∧ r.shardId = shardId ∧ ∀ url ∈ sourceUrl, r.sourceUrl = url)

/-- the first row of a query, read -/
def readFirst : List ObservedRow → Except SettlementError (Option ObservedSth)
  | [] => .ok none
  | row :: _ => (observedSthFromRow row).map some

/-- ORDER BY tree_size DESC LIMIT 1 -/
def latestObservedSth (sths : List ObservedRow) (networkId shardId : String) (sourceUrl : Option String) :
    Except SettlementError (Option ObservedSth) :=
  readFirst ((sthsOf sths networkId shardId sourceUrl).insertionSort fun a b => b.treeSize.toInt ≤ a.treeSize.toInt)

def observedSthMatchingRoot (sths : List ObservedRow) (networkId shardId : String) (treeSize : ℤ) (rootHash : String)
    (sourceUrl : Option String) : Except SettlementError (Option ObservedSth) :=
  readFirst ((sthsOf sths networkId shardId sourceUrl).filter fun r =>
    decide (r.treeSize.toInt = treeSize ∧ r.rootHash = rootHash))

def unresolvedEquivocations (findings : List EquivocationFinding) (networkId shardId : String) : List EquivocationFinding :=
  findings.filter fun f => decide (f.networkId = networkId ∧ f.shardId = shardId ∧ f.resolvedAt = none)

/-! ## Verdict -/

structure ConvergenceInputs where
  mirroredCount : ℤ
  latestObservedTreeSize : Option ℤ
  matchingSthAtMirroredCount : Bool
  chainBreaks : List ℤ
  unresolvedEquivocations : ℕ

inductive ConvergenceVerdict where
  | converged (treeSize : ℤ)
  | nothingMirrored
  | behind (mirrored observed : ℤ)
  | noObservedSth
  | rootMismatch (treeSize : ℤ)
  | chainBroken (breaks : ℕ)
  | blockedByEquivocation (findings : ℕ)
deriving DecidableEq

def evaluateConvergence (inputs : ConvergenceInputs) : ConvergenceVerdict :=
  if inputs.unresolvedEquivocations > 0 then .blockedByEquivocation inputs.unresolvedEquivocations
  else if inputs.chainBreaks ≠ [] then .chainBroken inputs.chainBreaks.length
  else if inputs.mirroredCount = 0 then .nothingMirrored
  else
    match inputs.latestObservedTreeSize with
    | none => .noObservedSth
    | some observed =>
      if observed > inputs.mirroredCount then .behind inputs.mirroredCount observed
      else if inputs.matchingSthAtMirroredCount then .converged inputs.mirroredCount
      else .rootMismatch inputs.mirroredCount

structure ConvergenceReport where
  mirroredCount : ℤ
  recomputedRoot : Option String
  latestObserved : Option ObservedSth
  chainBreaks : List ℤ
  unresolvedEquivocations : ℕ
  verdict : ConvergenceVerdict

/-- the hex root over the mirrored entries, if there are any -/
def recomputedRoot (hashes : List String) : Except SettlementError (Option String) :=
  if hashes = [] then .ok none
  else (mthOfHexHashes ledgerHashAlgo hashes).map fun root => some (hexEncode root.toList)

/-- the head with the recomputed root -/
def matchingSth (sths : List ObservedRow) (networkId shardId : String) (treeSize : ℤ) (root : Option String)
    (sourceUrl : Option String) : Except SettlementError (Option ObservedSth) :=
  match root with
  | some root => observedSthMatchingRoot sths networkId shardId treeSize root sourceUrl
  | none => .ok none

def checkConvergence (t : MirrorTables P) (networkId shardId : String) (sourceUrl : Option String) :
    Except SettlementError ConvergenceReport := do
  let progress := mirroredProgress t.entries networkId shardId sourceUrl
  let recomputedRoot ←
    recomputedRoot (mirroredEntryHashesUpTo t.entries networkId shardId progress.verifiedCount sourceUrl)
  let latestObserved ← latestObservedSth t.sths networkId shardId sourceUrl
  let matching ← matchingSth t.sths networkId shardId progress.verifiedCount recomputedRoot sourceUrl
  let chainBreaks := mirroredChainBreaks t.entries networkId shardId sourceUrl
  let unresolved := (unresolvedEquivocations t.findings networkId shardId).length
  return {
    mirroredCount := progress.verifiedCount
    recomputedRoot := recomputedRoot
    latestObserved := latestObserved
    chainBreaks := chainBreaks
    unresolvedEquivocations := unresolved
    verdict := evaluateConvergence {
      mirroredCount := progress.verifiedCount
      latestObservedTreeSize := latestObserved.map fun sth => sth.treeSize.toInt
      matchingSthAtMirroredCount := matching.isSome
      chainBreaks := chainBreaks
      unresolvedEquivocations := unresolved } }

/-! ## The parts of the verdict -/

/-- **The link query** finds nothing exactly if each row names the one before it -/
theorem breaksAfter_eq_nil {before : Option String} {rows : List (MirroredRow P)} :
    breaksAfter before rows = [] ↔
      (∀ hash ∈ before, ∀ r ∈ rows.head?, r.prevHash = hash) ∧ rows.IsChain fun a b => b.prevHash = a.entryHash := by
  induction rows generalizing before with
  | nil => simp [breaksAfter, lagged]
  | cons r rest ih =>
    have hcons : breaksAfter before (r :: rest) =
        (if ∃ hash ∈ before, r.prevHash ≠ hash then [r.seq] else []) ++ breaksAfter (some r.entryHash) rest := by
      unfold breaksAfter lagged
      rw [List.map_cons, List.zip_cons_cons, List.filter_cons]
      simp only [decide_eq_true_eq]
      split_ifs <;> rfl
    rw [hcons, List.append_eq_nil_iff, ih, List.isChain_cons]
    constructor
    · rintro ⟨hfirst, hnext, hchain⟩
      refine ⟨fun hash hhash r' hr' => ?_, fun r' hr' => hnext _ rfl r' hr', hchain⟩
      obtain rfl := Option.some.inj hr'
      by_contra hne
      rw [if_pos ⟨hash, hhash, hne⟩] at hfirst
      cases hfirst
    · rintro ⟨hfirst, hnext, hchain⟩
      refine ⟨if_neg ?_, fun hash hhash r' hr' => ?_, hchain⟩
      · rintro ⟨hash, hhash, hne⟩
        exact hne (hfirst hash hhash r rfl)
      · obtain rfl := Option.some.inj hhash
        exact hnext r' hr'

theorem mirroredChainBreaks_eq_nil {rows : List (MirroredRow P)} {networkId shardId : String} {sourceUrl : Option String} :
    mirroredChainBreaks rows networkId shardId sourceUrl = [] ↔
      (orderBySeq (rowsOf rows networkId shardId sourceUrl)).IsChain fun a b => b.prevHash = a.entryHash := by
  rw [mirroredChainBreaks, breaksAfter_eq_nil]
  simp

/-- **Which inputs converge** -/
theorem evaluateConvergence_eq_converged {inputs : ConvergenceInputs} {n : ℤ} :
    evaluateConvergence inputs = .converged n ↔ n = inputs.mirroredCount ∧ n ≠ 0 ∧ inputs.unresolvedEquivocations = 0 ∧
      inputs.chainBreaks = [] ∧ inputs.matchingSthAtMirroredCount = true ∧
      ∃ observed ∈ inputs.latestObservedTreeSize, observed ≤ n := by
  unfold evaluateConvergence
  constructor
  · intro h
    split at h
    · cases h
    split at h
    · cases h
    split at h
    · cases h
    rename_i hfindings hbreaks hzero
    split at h
    · cases h
    · rename_i observed hobserved
      split_ifs at h with hbehind hmatching
      cases h
      exact ⟨rfl, hzero, by omega, not_not.1 hbreaks, hmatching, observed, hobserved, not_lt.1 hbehind⟩
  · rintro ⟨rfl, hzero, hfindings, hbreaks, hmatching, observed, hobserved, hle⟩
    rw [if_neg (by omega), if_neg (not_not.2 hbreaks), if_neg hzero, Option.mem_def.1 hobserved]
    dsimp only
    rw [if_neg (not_lt.2 hle), if_pos hmatching]

theorem readFirst_eq_ok {rows : List ObservedRow} {sth : ObservedSth} (h : readFirst rows = .ok (some sth)) :
    ∃ row ∈ rows.head?, row.treeSize = sth.treeSize ∧ row.rootHash = sth.rootHash := by
  cases rows with
  | nil => cases h
  | cons row rest =>
    obtain ⟨sth', hread, hsth⟩ := map_eq_ok h
    obtain rfl := Option.some.inj hsth
    obtain ⟨envelope, -, hrow⟩ := bind_eq_ok.1 hread
    cases hrow
    exact ⟨row, rfl, rfl, rfl⟩

/-- no head of the shard is larger than the latest one -/
theorem le_latestObservedSth {sths : List ObservedRow} {networkId shardId : String} {sourceUrl : Option String} {sth : ObservedSth}
    (h : latestObservedSth sths networkId shardId sourceUrl = .ok (some sth)) :
    ∀ row ∈ sthsOf sths networkId shardId sourceUrl, row.treeSize.toInt ≤ sth.treeSize.toInt := by
  obtain ⟨first, hfirst, hsize, -⟩ := readFirst_eq_ok h
  intro row hrow
  rw [← hsize]
  have hsorted := List.pairwise_insertionSort (fun a b : ObservedRow => b.treeSize.toInt ≤ a.treeSize.toInt)
    (sthsOf sths networkId shardId sourceUrl)
  have hmem := (List.mem_insertionSort fun a b : ObservedRow => b.treeSize.toInt ≤ a.treeSize.toInt).2 hrow
  generalize (sthsOf sths networkId shardId sourceUrl).insertionSort
    (fun a b : ObservedRow => b.treeSize.toInt ≤ a.treeSize.toInt) = sorted at hfirst hsorted hmem
  cases sorted with
  | nil => cases hfirst
  | cons x rest =>
    obtain rfl := Option.some.inj hfirst
    rcases List.mem_cons.1 hmem with rfl | hrest
    · exact le_rfl
    · exact (List.pairwise_cons.1 hsorted).1 row hrest

/-! ## What a converged mirror holds -/

/-- the mirrored entries of a shard, in order -/
def mirrored (t : MirrorTables P) (networkId shardId : String) (sourceUrl : Option String) : List (MirroredRow P) :=
  orderBySeq (rowsOf t.entries networkId shardId sourceUrl)

def entryHashes (rows : List (MirroredRow P)) : List String := rows.map fun r => r.entryHash

/-- n entries with these leaves, as an observed head of that size says, and no larger one observed -/
structure HoldsHistory (t : MirrorTables P) (networkId shardId : String) (sourceUrl : Option String) (n : ℤ)
    (leaves : List Bytes) : Prop where
  positive : 0 < n
  count : (rowsOf t.entries networkId shardId sourceUrl).length = n
  links : (mirrored t networkId shardId sourceUrl).IsChain fun a b => b.prevHash = a.entryHash
  decoded : (entryHashes (mirrored t networkId shardId sourceUrl)).mapM hexDecode = some leaves
  observed : ∃ sth ∈ sthsOf t.sths networkId shardId sourceUrl, sth.treeSize.toInt = n ∧
    sth.rootHash = hexEncode (mth ledgerHashAlgo leaves).toList
  largest : ∀ sth ∈ sthsOf t.sths networkId shardId sourceUrl, sth.treeSize.toInt ≤ n
  resolved : ∀ f ∈ t.findings, f.networkId = networkId → f.shardId = shardId → f.resolvedAt ≠ none

section

variable {t : MirrorTables P} {networkId shardId : String} {sourceUrl : Option String} {n : ℤ} {leaves : List Bytes}

theorem mthOfHexHashes_eq_ok {hashes : List String} {root : Hash} (h : mthOfHexHashes ledgerHashAlgo hashes = .ok root) :
    ∃ leaves, hashes.mapM hexDecode = some leaves ∧ root = mth ledgerHashAlgo leaves := by
  unfold mthOfHexHashes at h
  split at h
  · cases h
  · rename_i leaves hleaves
    cases h
    exact ⟨leaves, hleaves, rfl⟩

/-- all the entries are read -/
theorem mirroredEntryHashesUpTo_all (t : MirrorTables P) (networkId shardId : String) (sourceUrl : Option String) :
    mirroredEntryHashesUpTo t.entries networkId shardId (mirroredProgress t.entries networkId shardId sourceUrl).verifiedCount
      sourceUrl = entryHashes (mirrored t networkId shardId sourceUrl) := by
  have hall : (orderBySeq (rowsOf t.entries networkId shardId sourceUrl)).length ≤
      (mirroredProgress t.entries networkId shardId sourceUrl).verifiedCount := by
    rw [Mirror.orderBySeq, List.length_insertionSort]
    exact le_rfl
  rw [mirroredEntryHashesUpTo, List.take_of_length_le hall]
  rfl

theorem resolved_of_none {findings : List EquivocationFinding}
    (h : (unresolvedEquivocations findings networkId shardId).length = 0) :
    ∀ f ∈ findings, f.networkId = networkId → f.shardId = shardId → f.resolvedAt ≠ none := by
  intro f hf hnetwork hshard hnone
  have hmem : f ∈ unresolvedEquivocations findings networkId shardId :=
    List.mem_filter.2 ⟨hf, decide_eq_true ⟨hnetwork, hshard, hnone⟩⟩
  rw [List.length_eq_zero_iff.1 h] at hmem
  cases hmem

theorem holdsHistory_of_check {report : ConvergenceReport}
    (h : checkConvergence t networkId shardId sourceUrl = .ok report) (hverdict : report.verdict = .converged n) :
    ∃ leaves, HoldsHistory t networkId shardId sourceUrl n leaves := by
  unfold checkConvergence at h
  obtain ⟨root, hroot, h⟩ := bind_eq_ok.1 h
  obtain ⟨latest, hlatest, h⟩ := bind_eq_ok.1 h
  obtain ⟨matching, hmatching, h⟩ := bind_eq_ok.1 h
  cases h
  obtain ⟨rfl, hzero, hfindings, hbreaks, hsome, observed, hobserved, hle⟩ := evaluateConvergence_eq_converged.1 hverdict
  obtain ⟨latest, rfl, rfl⟩ := Option.map_eq_some_iff.1 hobserved
  obtain ⟨sth, rfl⟩ := Option.isSome_iff_exists.1 hsome
  rw [mirroredEntryHashesUpTo_all] at hroot
  unfold recomputedRoot at hroot
  split_ifs at hroot with hempty
  · cases hroot
    cases hmatching
  · obtain ⟨digest, hdigest, rfl⟩ := map_eq_ok hroot
    obtain ⟨leaves, hleaves, rfl⟩ := mthOfHexHashes_eq_ok hdigest
    obtain ⟨row, hrow, -⟩ := readFirst_eq_ok hmatching
    obtain ⟨hmem, hrow⟩ := List.mem_filter.1 (List.mem_of_head? hrow)
    obtain ⟨hsize, hrootHash⟩ := of_decide_eq_true hrow
    refine ⟨leaves, ?_⟩
    exact {
      positive := by
        dsimp only at hzero ⊢
        omega
      count := rfl
      links := mirroredChainBreaks_eq_nil.1 hbreaks
      decoded := hleaves
      observed := ⟨row, hmem, hsize, hrootHash⟩
      largest := fun sth hsth => (le_latestObservedSth hlatest sth hsth).trans hle
      resolved := resolved_of_none hfindings }

theorem exists_readFirst {rows : List ObservedRow} (hread : ∀ row ∈ rows, ∃ sth, observedSthFromRow row = .ok sth)
    (hne : rows ≠ []) : ∃ row ∈ rows, ∃ sth, readFirst rows = .ok (some sth) ∧ sth.treeSize = row.treeSize := by
  cases rows with
  | nil => exact absurd rfl hne
  | cons row rest =>
    obtain ⟨sth, hsth⟩ := hread row List.mem_cons_self
    refine ⟨row, List.mem_cons_self, sth, by rw [readFirst, hsth]; rfl, ?_⟩
    obtain ⟨envelope, -, hrow⟩ := bind_eq_ok.1 hsth
    cases hrow
    rfl

/-- where the heads are readable, such a mirror is found converged -/
theorem check_of_holdsHistory (h : HoldsHistory t networkId shardId sourceUrl n leaves)
    (hread : ∀ row ∈ sthsOf t.sths networkId shardId sourceUrl, ∃ sth, observedSthFromRow row = .ok sth) :
    ∃ report, checkConvergence t networkId shardId sourceUrl = .ok report ∧ report.verdict = .converged n := by
  obtain ⟨head, hhead, hsize, hrootHash⟩ := h.observed
  have hcount := h.count
  have hpos := h.positive
  have hne : entryHashes (mirrored t networkId shardId sourceUrl) ≠ [] := by
    rw [← List.length_pos_iff, entryHashes, List.length_map, mirrored, Mirror.orderBySeq, List.length_insertionSort]
    omega
  have hroot : recomputedRoot (mirroredEntryHashesUpTo t.entries networkId shardId
      (mirroredProgress t.entries networkId shardId sourceUrl).verifiedCount sourceUrl) = .ok (some head.rootHash) := by
    rw [mirroredEntryHashesUpTo_all, recomputedRoot, if_neg hne, mthOfHexHashes, h.decoded, hrootHash]
    rfl
  obtain ⟨last, hlast, latest, hlatest, hlatestSize⟩ : ∃ row ∈ sthsOf t.sths networkId shardId sourceUrl, ∃ sth,
      latestObservedSth t.sths networkId shardId sourceUrl = .ok (some sth) ∧ sth.treeSize = row.treeSize := by
    have hsorted := (List.mem_insertionSort fun a b : ObservedRow => b.treeSize.toInt ≤ a.treeSize.toInt).2 hhead
    obtain ⟨row, hrow, hfound⟩ := exists_readFirst (fun row hrow => hread row ((List.mem_insertionSort _).1 hrow))
      (List.ne_nil_of_mem hsorted)
    exact ⟨row, (List.mem_insertionSort _).1 hrow, hfound⟩
  obtain ⟨found, hfound⟩ : ∃ sth, matchingSth t.sths networkId shardId
      (mirroredProgress t.entries networkId shardId sourceUrl).verifiedCount (some head.rootHash) sourceUrl = .ok (some sth) := by
    have hmatches : head ∈ (sthsOf t.sths networkId shardId sourceUrl).filter fun r => decide (r.treeSize.toInt =
        ((mirroredProgress t.entries networkId shardId sourceUrl).verifiedCount : ℤ) ∧ r.rootHash = head.rootHash) :=
      List.mem_filter.2 ⟨hhead, decide_eq_true ⟨hsize.trans hcount.symm, rfl⟩⟩
    obtain ⟨-, -, sth, hsth, -⟩ := exists_readFirst (fun row hrow => hread row (List.mem_of_mem_filter hrow))
      (List.ne_nil_of_mem hmatches)
    exact ⟨sth, hsth⟩
  have hresolved : (unresolvedEquivocations t.findings networkId shardId).length = 0 := by
    rw [List.length_eq_zero_iff, unresolvedEquivocations, List.filter_eq_nil_iff]
    intro f hf hopen
    obtain ⟨hnetwork, hshard, hnone⟩ := of_decide_eq_true hopen
    exact h.resolved f hf hnetwork hshard hnone
  unfold checkConvergence
  dsimp only
  rw [hroot, hlatest]
  change ∃ report, (matchingSth _ _ _ _ _ _ >>= _) = _ ∧ _
  rw [hfound]
  refine ⟨_, rfl, evaluateConvergence_eq_converged.2 ⟨hcount.symm, hpos.ne', hresolved, mirroredChainBreaks_eq_nil.2 h.links, rfl,
    _, rfl, ?_⟩⟩
  change latest.treeSize.toInt ≤ n
  rw [hlatestSize]
  exact h.largest last hlast

/-! ## The authority's history -/

/-- each text is the hex of some bytes, in lower case -/
def Spelled (texts : List String) : Prop := ∀ text ∈ texts, ∃ bytes : Bytes, text = hexEncode bytes

theorem hexEncode_of_spelled {texts : List String} (h : Spelled texts) {leaves : List Bytes}
    (hleaves : texts.mapM hexDecode = some leaves) : texts = leaves.map hexEncode := by
  induction texts generalizing leaves with
  | nil =>
    cases hleaves
    rfl
  | cons text texts ih =>
    rw [List.mapM_cons] at hleaves
    obtain ⟨leaf, hleaf, hleaves⟩ := Option.bind_eq_some_iff.1 hleaves
    obtain ⟨rest, hrest, hleaves⟩ := Option.bind_eq_some_iff.1 hleaves
    cases hleaves
    obtain ⟨bytes, rfl⟩ := h text List.mem_cons_self
    rw [hexDecode_hexEncode] at hleaf
    cases hleaf
    rw [List.map_cons, ← ih (fun t ht => h t (List.mem_cons_of_mem _ ht)) hrest]

theorem HoldsHistory.length (h : HoldsHistory t networkId shardId sourceUrl n leaves) : leaves.length = n := by
  rw [length_of_mapM h.decoded, entryHashes, List.length_map, mirrored, Mirror.orderBySeq, List.length_insertionSort]
  exact h.count

/-- **One root, one history**: a log whose first n entries have the root holds the mirrored ones, or there is a collision -/
theorem HoldsHistory.same_log (h : HoldsHistory t networkId shardId sourceUrl n leaves) {log : List String} (hlong : n ≤ log.length)
    {root : Hash} (hroot : mthOfHexHashes ledgerHashAlgo (log.take n.toNat) = .ok root)
    (hsame : hexEncode root.toList = hexEncode (mth ledgerHashAlgo leaves).toList) :
    ∃ leaves', (log.take n.toNat).mapM hexDecode = some leaves' ∧
      (leaves' = leaves ∨ CollisionIn ledgerHashAlgo.digest (mthInputs ledgerHashAlgo leaves' ++ mthInputs ledgerHashAlgo leaves)) := by
  obtain ⟨leaves', hleaves', rfl⟩ := mthOfHexHashes_eq_ok hroot
  have hpos := h.positive
  have hlen := h.length
  have hlen' : leaves'.length = n.toNat := by
    rw [length_of_mapM hleaves', List.length_take]
    omega
  refine ⟨leaves', hleaves', ?_⟩
  exact mth_inj_or n.toNat (by omega) leaves' leaves hlen' (by omega) (List.subset_append_left _ _) (List.subset_append_right _ _)
    (FixedBytes.hexEncode_inj hsame)

theorem map_leaf {rows : List (MirroredRow P)} {leaves : List Bytes} (h : (entryHashes rows).mapM hexDecode = some leaves) :
    (rows.map mirroredEntryFromRow).map leaf = leaves := by
  unfold entryHashes at h
  induction rows generalizing leaves with
  | nil =>
    cases h
    rfl
  | cons row rows ih =>
    rw [List.map_cons, List.mapM_cons] at h
    obtain ⟨bytes, hbytes, h⟩ := Option.bind_eq_some_iff.1 h
    obtain ⟨rest, hrest, h⟩ := Option.bind_eq_some_iff.1 h
    cases h
    rw [List.map_cons, List.map_cons, ih hrest]
    have hleaf : leaf (mirroredEntryFromRow row) = bytes := by
      unfold leaf
      rw [show (mirroredEntryFromRow row).entryHash = row.entryHash from rfl, hbytes]
      rfl
    rw [hleaf]

/-- a plan of the mirrored entries has their root -/
theorem HoldsHistory.plan (h : HoldsHistory t networkId shardId sourceUrl n leaves) {codec : PayloadCodec P} {b : PlanBuilder}
    (hb : PlanBuilder.pushAll codec (.new networkId shardId) ((mirrored t networkId shardId sourceUrl).map mirroredEntryFromRow) =
      .ok b) :
    ∃ plan, b.finish = some (.ok plan) ∧ plan.treeSize = n ∧
      plan.finalRoot = some (hexEncode (mth ledgerHashAlgo leaves).toList) := by
  have hlen := h.length
  have hpos := h.positive
  have hleaves := map_leaf h.decoded
  rcases builds_iff codec networkId shardId ((mirrored t networkId shardId sourceUrl).map mirroredEntryFromRow) with
    ⟨-, b', hb', hholds⟩ | ⟨-, err, herr⟩
  · obtain rfl : b = b' := Except.ok.inj (hb.symm.trans hb')
    have hne : (mirrored t networkId shardId sourceUrl).map mirroredEntryFromRow ≠ [] := by
      intro hnil
      rw [hnil] at hleaves
      rw [← hleaves] at hlen
      simp only [List.map_nil, List.length_nil] at hlen
      omega
    obtain ⟨plan, hplan, hof⟩ := finish_holds hholds hne
    refine ⟨plan, hplan, ?_, ?_⟩
    · rw [hof.treeSize, ← hlen, ← hleaves, List.length_map, List.length_map, List.length_map]
    · rw [hof.finalRoot, hleaves]
      rfl
  · rw [herr] at hb
    cases hb

end

/-- **A converged mirror holds the authority's history.** If the check of some tables says converged at n, then n is the number of
mirrored entries and the largest size of an observed head; each entry names the hash of the one before it; a head of size n was
observed with the root over the entry hashes; and the shard's findings are resolved. If that is the root over the first n entry
hashes of a log, the mirrored ones are these, or the two trees hash a collision. And a plan made from the entries has that root. -/
theorem converged_mirror (t : MirrorTables P) (networkId shardId : String) (sourceUrl : Option String)
    (report : ConvergenceReport) (n : ℤ) (h : checkConvergence t networkId shardId sourceUrl = .ok report)
    (hverdict : report.verdict = .converged n) :
    ∃ leaves, HoldsHistory t networkId shardId sourceUrl n leaves ∧
      (∀ log : List String, n ≤ log.length →
        (mthOfHexHashes ledgerHashAlgo (log.take n.toNat)).map (fun root => hexEncode root.toList) =
          .ok (hexEncode (mth ledgerHashAlgo leaves).toList) →
        ∃ leaves', (log.take n.toNat).mapM hexDecode = some leaves' ∧
          (leaves' = leaves ∧ (Spelled log → Spelled (entryHashes (mirrored t networkId shardId sourceUrl)) →
              entryHashes (mirrored t networkId shardId sourceUrl) = log.take n.toNat) ∨
            CollisionIn ledgerHashAlgo.digest (mthInputs ledgerHashAlgo leaves' ++ mthInputs ledgerHashAlgo leaves))) ∧
      ∀ (codec : PayloadCodec P) (b : PlanBuilder),
        PlanBuilder.pushAll codec (.new networkId shardId) ((mirrored t networkId shardId sourceUrl).map mirroredEntryFromRow) =
          .ok b →
        ∃ plan, b.finish = some (.ok plan) ∧ plan.treeSize = n ∧
          plan.finalRoot = some (hexEncode (mth ledgerHashAlgo leaves).toList) := by
  obtain ⟨leaves, hholds⟩ := holdsHistory_of_check h hverdict
  refine ⟨leaves, hholds, fun log hlong hroot => ?_, fun _ _ hb => hholds.plan hb⟩
  obtain ⟨root, hroot, hsame⟩ := map_eq_ok hroot
  obtain ⟨leaves', hleaves', hequal | hcollision⟩ := hholds.same_log hlong hroot hsame
  · refine ⟨leaves', hleaves', .inl ⟨hequal, fun hlog hmirrored => ?_⟩⟩
    rw [hexEncode_of_spelled hmirrored hholds.decoded, hexEncode_of_spelled (fun text ht => hlog text (List.mem_of_mem_take ht)) hleaves',
      hequal]
  · exact ⟨leaves', hleaves', .inr hcollision⟩

/-! ## A mirror of two linked entries -/

/-- the row an entry of the first layout is stored as -/
def storedRow (entry : MirroredEntry String) : MirroredRow String := rowOf pgEpoch entry ⟨1, 1, 1, [0, 0]⟩

theorem mirroredEntryFromRow_storedRow (prev : Hash) (seq : UInt64) (batch : Uuid) :
    mirroredEntryFromRow (storedRow (bareEntry prev seq batch)) = bareEntry prev seq batch := by
  have henvelope : (⟨1, 1, 1, [0, 0]⟩ : EnvelopeRow).toWire = .ofEnvelope (.current .ledgerEntry) := by decide +kernel
  have htime : timestamptz 0 = 0 := by decide
  unfold mirroredEntryFromRow storedEntry storedRow rowOf bareEntry
  simp only [henvelope, htime]

def twoRows : List (MirroredRow String) := twoBatches.map storedRow

/-- the hashes of the two entries -/
def twoLeaves : List Bytes := [(bareHash genesisDigest 1).toList, (bareHash (bareHash genesisDigest 1) 2).toList]

/-- the authority's log, one entry longer -/
def threeHashes : List String := twoLeaves.map hexEncode ++ [hexEncode (bareHash (bareHash (bareHash genesisDigest 1) 2) 3).toList]

/-- the head over the two entries -/
def twoHead : ObservedRow where
  sourceUrl := ""
  networkId := ""
  shardId := ""
  treeSize := 2
  rootHash := hexEncode (mth ledgerHashAlgo twoLeaves).toList
  signature := ""
  signingKeyId := ""
  createdAt := pgEpoch
  observedAt := pgEpoch
  envelope := ⟨1, 1, 1, [0, 0]⟩

def twoMirror : MirrorTables String := ⟨twoRows, [twoHead], []⟩

theorem mirrored_twoMirror : mirrored twoMirror "" "" none = twoRows := by
  have hall : rowsOf twoMirror.entries "" "" none = twoRows :=
    List.filter_eq_self.2 (by simp [twoMirror, twoRows, twoBatches, storedRow, rowOf, bareEntry])
  have hsorted : twoRows.Pairwise fun a b => a.seq ≤ b.seq := by
    simp [twoRows, twoBatches, storedRow, rowOf, bareEntry]
  rw [mirrored, hall, Mirror.orderBySeq, hsorted.insertionSort_eq]

theorem mapM_hexDecode (leaves : List Bytes) : (leaves.map hexEncode).mapM hexDecode = some leaves := by
  induction leaves with
  | nil => rfl
  | cons leaf leaves ih => simp [hexDecode_hexEncode, ih]

theorem holdsHistory_twoMirror : HoldsHistory twoMirror "" "" none 2 twoLeaves where
  positive := two_pos
  count := by simp [rowsOf, twoMirror, twoRows, twoBatches, storedRow, rowOf, bareEntry]
  links := by
    rw [mirrored_twoMirror]
    exact .cons_cons rfl (.singleton _)
  decoded := by
    rw [mirrored_twoMirror]
    exact mapM_hexDecode twoLeaves
  observed := ⟨twoHead, by simp [sthsOf, twoMirror, twoHead], rfl, rfl⟩
  largest := by
    intro sth hsth
    obtain rfl := List.mem_singleton.1 (List.mem_of_mem_filter hsth)
    exact le_rfl
  resolved := by simp [twoMirror]

/-- the tables are found converged; they hold the first two entries of the log, and a plan made from them ends at its root -/
theorem converged_twoMirror : ∃ leaves, HoldsHistory twoMirror "" "" none 2 leaves ∧
    (entryHashes (mirrored twoMirror "" "" none) = threeHashes.take 2 ∨
      CollisionIn ledgerHashAlgo.digest (mthInputs ledgerHashAlgo twoLeaves ++ mthInputs ledgerHashAlgo leaves)) ∧
    ∃ b plan, PlanBuilder.pushAll rawText (.new "" "") twoBatches = .ok b ∧ b.finish = some (.ok plan) ∧ plan.treeSize = 2 ∧
      plan.finalRoot = some (hexEncode (mth ledgerHashAlgo leaves).toList) := by
  have hread : ∀ row ∈ sthsOf twoMirror.sths "" "" none, ∃ sth, observedSthFromRow row = .ok sth := by
    intro row hrow
    obtain rfl := List.mem_singleton.1 (List.mem_of_mem_filter hrow)
    exact ⟨_, rfl⟩
  obtain ⟨report, hreport, hverdict⟩ := check_of_holdsHistory holdsHistory_twoMirror hread
  obtain ⟨leaves, hholds, hlog, hplan⟩ := converged_mirror twoMirror "" "" none report 2 hreport hverdict
  have hleaves : leaves = twoLeaves := Option.some.inj (hholds.decoded.symm.trans holdsHistory_twoMirror.decoded)
  have htaken : (threeHashes.take (2 : ℤ).toNat).mapM hexDecode = some twoLeaves := mapM_hexDecode twoLeaves
  obtain ⟨leaves', hleaves', hsame⟩ := hlog threeHashes (by simp [threeHashes, twoLeaves]) (by
    rw [mthOfHexHashes, htaken, hleaves]
    rfl)
  obtain rfl : twoLeaves = leaves' := Option.some.inj (htaken.symm.trans hleaves')
  have hrows : (mirrored twoMirror "" "" none).map mirroredEntryFromRow = twoBatches := by
    rw [mirrored_twoMirror, twoRows, List.map_map, twoBatches]
    simp only [List.map_cons, List.map_nil, Function.comp_apply, mirroredEntryFromRow_storedRow]
  obtain ⟨b, hb⟩ := (promotion_plan_correct rawText "" "" twoBatches (by simp [twoBatches])).1.2 (twoBatches_promotable rawText)
  obtain ⟨plan, hfinish, hsize, hroot⟩ := hplan rawText b (hrows ▸ hb)
  refine ⟨leaves, hholds, ?_, b, plan, hb, hfinish, Int.ofNat_inj.1 hsize, hroot⟩
  refine hsame.imp (fun h => h.2 ?_ ?_) id
  · intro text htext
    simp only [threeHashes, twoLeaves, List.map_cons, List.map_nil, List.cons_append, List.nil_append, List.mem_cons,
      List.not_mem_nil, or_false] at htext
    obtain rfl | rfl | rfl := htext <;> exact ⟨_, rfl⟩
  · intro text htext
    rw [mirrored_twoMirror] at htext
    have hmem : text ∈ twoLeaves.map hexEncode := htext
    obtain ⟨bytes, -, rfl⟩ := List.mem_map.1 hmem
    exact ⟨bytes, rfl⟩

end Avalon.Convergence
