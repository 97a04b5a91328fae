/-
Delivery order of one witness's cosignatures over one head (`crates/chain/src/postgres.rs`: `store_witness_cosignature`,
`refresh_witness_cosignature`).

A witness attests a head again and again, and gossip delivers its attestations in any order. The store tells a replay, a
fresher attestation and an equivocation apart by the signature of the stored row, its head and its time. An attestation
that is older than the stored one is none of the first two, and is refused as a possible equivocation. A replay is known
by its signature, which covers whole seconds: an attestation of the same second with a later fraction counts as one.

Results:
- `store_same_head`: what one call does to the row of its head.
- `other_root_unchanged`: a cosignature over another root changes nothing.
- `order_insensitive_iff`: when no call fails and the newest time is stored throughout.
- `older_attestation_refused`: two attestations of one head, the newer first.
-/
import Mathlib.Tactic
import Avalon.Core.Bytes
import Avalon.Protocol.SigningBytes
import Avalon.Protocol.LedgerEntry
import Avalon.Protocol.Sth
import Avalon.Protocol.Witness
import Avalon.Protocol.CosignedSth
import Avalon.Chain.Ledger
import Avalon.Chain.WitnessStore

namespace Avalon.WitnessStore

open Avalon.SigningBytes Avalon.LedgerEntry Avalon.Sth Avalon.Witness Avalon.CosignedSth Avalon.Ledger

section order

variable (ts : Timestamptz) (shardId : String) (table : List CosignatureRow)

/-! ## Deliveries -/

/-- cosignatures of one witness over one head differ in their time and signature only -/
def SameHead (head cosig : WitnessCosignature) : Prop :=
  cosig = { head with observedAt := cosig.observedAt, signature := cosig.signature }

instance (head cosig : WitnessCosignature) : Decidable (SameHead head cosig) :=
  inferInstanceAs (Decidable (cosig = { head with observedAt := cosig.observedAt, signature := cosig.signature }))

/-- the table after these deliveries to one shard -/
def deliver (cosigs : List WitnessCosignature) : List CosignatureRow := run ts table (cosigs.map (Call.mk shardId))

/-- a cosignature with the newest stored time; among equal ones the first -/
def newest (cosigs : List WitnessCosignature) : Option WitnessCosignature :=
  cosigs.foldl (fun m c => some (m.elim c fun m => if ts m.observedAt < ts c.observedAt then c else m)) none

/-- the stored row of a head has the newest of these times -/
def NewestStored (rows : List CosignatureRow) (cosigs : List WitnessCosignature) (head : WitnessCosignature) : Prop :=
  ∃ row, rows.find? (fun row => row.sameKey shardId head) = some row ∧ (∃ c ∈ cosigs, row.observedAt = ts c.observedAt) ∧
    ∀ c ∈ cosigs, ts c.observedAt ≤ row.observedAt

/-- at every delivery: no error, and the newest time is stored -/
def OrderInsensitive (cosigs : List WitnessCosignature) : Prop :=
  ∀ before c, before ++ [c] <+: cosigs →
    (storeWitnessCosignature ts (deliver ts shardId table before) shardId c).2 = .ok () ∧
      NewestStored ts shardId (deliver ts shardId table (before ++ [c])) (before ++ [c]) c

/-- the columns can hold the cosignature -/
def Storable (cosig : WitnessCosignature) : Prop :=
  ∃ envelope, EnvelopeRow.fromEnvelope cosig.envelope = .ok envelope ∧
    (CosignatureRow.ofCosignature ts shardId cosig envelope).checks = true

/-- against the newest one before it: the same signature and no later time, or a later time -/
def NextInOrder (before : List WitnessCosignature) (c : WitnessCosignature) : Prop :=
  Storable ts shardId c ∧ ∀ m, newest ts before = some m →
    if c.signature = m.signature then ts c.observedAt ≤ ts m.observedAt else ts m.observedAt < c.observedAt

def ArrivesInOrder (cosigs : List WitnessCosignature) : Prop :=
  ∀ before c, before ++ [c] <+: cosigs → NextInOrder ts shardId before c

end order

variable {ts : Timestamptz} {shardId : String} {table : List CosignatureRow} {cosigs : List WitnessCosignature}
  {head c m : WitnessCosignature}

theorem deliver_concat (cosigs : List WitnessCosignature) (c : WitnessCosignature) :
    deliver ts shardId table (cosigs ++ [c]) =
      (storeWitnessCosignature ts (deliver ts shardId table cosigs) shardId c).1 := by
  unfold deliver
  generalize table = start
  induction cosigs generalizing start with
  | nil => rfl
  | cons d cosigs ih => exact ih _

theorem newest_concat (cosigs : List WitnessCosignature) (c : WitnessCosignature) :
    newest ts (cosigs ++ [c]) =
      some ((newest ts cosigs).elim c fun m => if ts m.observedAt < ts c.observedAt then c else m) := by
  unfold newest
  rw [List.foldl_append]
  rfl

theorem newest_eq_none (h : newest ts cosigs = none) : cosigs = [] := by
  rcases List.eq_nil_or_concat' cosigs with hnil | ⟨init, last, rfl⟩
  · exact hnil
  · rw [newest_concat] at h
    cases h

/-- the newest is one of them, and none has a later stored time -/
theorem newest_eq_some (h : newest ts cosigs = some m) :
    m ∈ cosigs ∧ ∀ c ∈ cosigs, ts c.observedAt ≤ ts m.observedAt := by
  induction cosigs using List.reverseRecOn generalizing m with
  | nil => cases h
  | append_singleton cosigs c ih =>
    rw [newest_concat, Option.some.injEq] at h
    cases hn : newest ts cosigs with
    | none =>
      rw [hn] at h
      subst h
      rw [newest_eq_none hn]
      simp
    | some m0 =>
      obtain ⟨hmem, hle⟩ := ih hn
      rw [hn, Option.elim_some] at h
      split_ifs at h with hlt
      · subst h
        refine ⟨by simp, fun d hd => ?_⟩
        rcases List.mem_append.1 hd with hd | hd
        · exact (hle d hd).trans hlt.le
        · rw [List.mem_singleton.1 hd]
      · subst h
        refine ⟨List.mem_append_left _ hmem, fun d hd => ?_⟩
        rcases List.mem_append.1 hd with hd | hd
        · exact hle d hd
        · rw [List.mem_singleton.1 hd]
          exact not_lt.1 hlt

/-! ## One delivery -/

/-- **Another root** never replaces the stored row -/
theorem other_root_unchanged {row : CosignatureRow} (hrow : table.find? (fun row => row.sameKey shardId c) = some row)
    (hroot : row.rootHash ≠ c.rootHash) : (storeWitnessCosignature ts table shardId c).1 = table := by
  unfold storeWitnessCosignature
  split
  · rfl
  dsimp only
  split
  · rfl
  · rw [hrow]
    dsimp only
    split
    · rfl
    · rw [if_neg fun h => hroot h.1]

theorem sameKey_of_sameHead (hc : SameHead head c) (row : CosignatureRow) : row.sameKey shardId c = row.sameKey shardId head := by
  rw [hc]
  rfl

/-- a refresh leaves the row of the newer of the two -/
theorem find_refresh {envelope : EnvelopeRow} (hm : SameHead head m) (hc : SameHead head c)
    (hrow : table.find? (fun row => row.sameKey shardId head) = some (.ofCosignature ts shardId m envelope)) :
    (refreshWitnessCosignature ts table shardId c).1.find? (fun row => row.sameKey shardId head) =
      some (.ofCosignature ts shardId (if ts m.observedAt < ts c.observedAt then c else m) envelope) := by
  have hkey : ((fun row : CosignatureRow => row.sameKey shardId head) ∘ fun row : CosignatureRow =>
      if row.refreshable ts shardId c then row.refreshed ts c else row) = fun row => row.sameKey shardId head := by
    funext row
    simp only [Function.comp_apply]
    split_ifs <;> rfl
  have hrefreshable : (CosignatureRow.ofCosignature ts shardId m envelope).refreshable ts shardId c =
      decide (ts m.observedAt < ts c.observedAt) := by
    rw [Bool.eq_iff_iff, decide_eq_true_iff, hm, hc]
    simp only [CosignatureRow.refreshable, CosignatureRow.sameKey, CosignatureRow.key, CosignatureRow.ofCosignature,
      decide_true, Bool.true_and, Bool.and_true]
    exact decide_eq_true_iff
  rw [refreshWitnessCosignature, List.find?_map, hkey, hrow, Option.map_some, hrefreshable]
  simp only [decide_eq_true_eq]
  split_ifs
  · rw [hm, hc]
    rfl
  · rfl

/-- **One delivery** over the head of a stored row: a replay, a refresh, or an error -/
theorem store_same_head {envelope : EnvelopeRow} (hm : SameHead head m) (hc : SameHead head c)
    (hstorable : Storable ts shardId c)
    (hrow : table.find? (fun row => row.sameKey shardId head) = some (.ofCosignature ts shardId m envelope)) :
    storeWitnessCosignature ts table shardId c =
      if c.signature = m.signature then (table, .ok ())
      else if ts m.observedAt < c.observedAt then ((refreshWitnessCosignature ts table shardId c).1, .ok ())
      else (table, .error (.storage (.possibleEquivocation c.witnessKeyId c.treeSize c.networkId shardId))) := by
  obtain ⟨envelope', henvelope', hchecks⟩ := hstorable
  have hrow' : table.find? (fun row => row.sameKey shardId c) = some (.ofCosignature ts shardId m envelope) := by
    simp only [sameKey_of_sameHead hc]
    exact hrow
  have hroot : m.rootHash = c.rootHash := by rw [hm, hc]
  have hauthor : m.authorKeyId = c.authorKeyId := by rw [hm, hc]
  have hsignature : m.authorSignature = c.authorSignature := by rw [hm, hc]
  unfold storeWitnessCosignature
  rw [henvelope']
  dsimp only
  rw [hchecks, hrow']
  simp only [CosignatureRow.ofCosignature, Bool.not_true, Bool.false_eq_true, if_false, hroot, hauthor, hsignature,
    true_and, eq_comm (a := m.signature)]

theorem store_unstorable (h : ¬ Storable ts shardId c) : (storeWitnessCosignature ts table shardId c).2 ≠ .ok () := by
  unfold storeWitnessCosignature
  split
  · simp
  · rename_i envelope henvelope
    dsimp only
    split
    · simp
    · rename_i hchecks
      exact absurd ⟨envelope, henvelope, by simpa using hchecks⟩ h

theorem store_first (hstorable : Storable ts shardId c)
    (hnone : table.find? (fun row => row.sameKey shardId c) = none) :
    ∃ envelope, EnvelopeRow.fromEnvelope c.envelope = .ok envelope ∧
      storeWitnessCosignature ts table shardId c = (table ++ [.ofCosignature ts shardId c envelope], .ok ()) := by
  obtain ⟨envelope, henvelope, hchecks⟩ := hstorable
  refine ⟨envelope, henvelope, ?_⟩
  unfold storeWitnessCosignature
  rw [henvelope]
  dsimp only
  rw [hchecks, hnone]
  rfl

/-! ## All deliveries -/

/-- the stored row of the head is that of the newest cosignature, or there is none yet -/
def StoresNewest (ts : Timestamptz) (shardId : String) (rows : List CosignatureRow) (cosigs : List WitnessCosignature)
    (head : WitnessCosignature) : Prop :=
  match newest ts cosigs with
  | none => rows.find? (fun row => row.sameKey shardId head) = none
  | some m => ∃ envelope, EnvelopeRow.fromEnvelope head.envelope = .ok envelope ∧
      rows.find? (fun row => row.sameKey shardId head) = some (.ofCosignature ts shardId m envelope)

/-- the newest time is stored -/
theorem StoresNewest.newestStored {rows : List CosignatureRow} (h : StoresNewest ts shardId rows (cosigs ++ [c]) head)
    (hc : SameHead head c) : NewestStored ts shardId rows (cosigs ++ [c]) c := by
  unfold StoresNewest at h
  rw [newest_concat] at h
  obtain ⟨envelope, -, hrow⟩ := h
  have hnewest : newest ts (cosigs ++ [c]) = _ := newest_concat cosigs c
  obtain ⟨hmem, hle⟩ := newest_eq_some hnewest
  refine ⟨.ofCosignature ts shardId _ envelope, ?_, ⟨_, hmem, rfl⟩, hle⟩
  simp only [sameKey_of_sameHead hc]
  exact hrow

/-- the first delivery -/
theorem storesNewest_first {rows : List CosignatureRow} (hc : SameHead head c) (hstorable : Storable ts shardId c)
    (hnone : rows.find? (fun row => row.sameKey shardId head) = none) :
    (storeWitnessCosignature ts rows shardId c).2 = .ok () ∧
      StoresNewest ts shardId (storeWitnessCosignature ts rows shardId c).1 [c] head := by
  have hnone' : rows.find? (fun row => row.sameKey shardId c) = none := by
    simp only [sameKey_of_sameHead hc]
    exact hnone
  obtain ⟨envelope, henvelope, hstore⟩ := store_first hstorable hnone'
  rw [hstore]
  refine ⟨rfl, envelope, ?_, ?_⟩
  · rw [← henvelope, hc]
  · have hown : (CosignatureRow.ofCosignature ts shardId c envelope).sameKey shardId head = true := by
      rw [← sameKey_of_sameHead hc]
      simp [CosignatureRow.sameKey, CosignatureRow.key, CosignatureRow.ofCosignature]
    rw [List.find?_append, hnone]
    simp [hown]

/-- a delivery in order keeps the newest -/
theorem storesNewest_next {rows : List CosignatureRow} {envelope : EnvelopeRow} (hm : SameHead head m) (hc : SameHead head c)
    (hstorable : Storable ts shardId c) (hnewest : newest ts cosigs = some m)
    (henvelope : EnvelopeRow.fromEnvelope head.envelope = .ok envelope)
    (hrow : rows.find? (fun row => row.sameKey shardId head) = some (.ofCosignature ts shardId m envelope))
    (horder : if c.signature = m.signature then ts c.observedAt ≤ ts m.observedAt else ts m.observedAt < c.observedAt) :
    (storeWitnessCosignature ts rows shardId c).2 = .ok () ∧
      StoresNewest ts shardId (storeWitnessCosignature ts rows shardId c).1 (cosigs ++ [c]) head := by
  unfold StoresNewest
  rw [newest_concat, hnewest, Option.elim_some, store_same_head hm hc hstorable hrow]
  by_cases hsig : c.signature = m.signature
  · rw [if_pos hsig] at horder
    rw [if_pos hsig, if_neg (not_lt.2 horder)]
    exact ⟨rfl, envelope, henvelope, hrow⟩
  · rw [if_neg hsig] at horder
    rw [if_neg hsig, if_pos horder]
    exact ⟨rfl, envelope, henvelope, find_refresh hm hc hrow⟩

/-- **A delivery in order** leaves the row of the newest -/
theorem storesNewest_concat {rows : List CosignatureRow} (hsame : ∀ d ∈ cosigs ++ [c], SameHead head d)
    (h : StoresNewest ts shardId rows cosigs head) (hnext : NextInOrder ts shardId cosigs c) :
    (storeWitnessCosignature ts rows shardId c).2 = .ok () ∧
      StoresNewest ts shardId (storeWitnessCosignature ts rows shardId c).1 (cosigs ++ [c]) head := by
  have hc : SameHead head c := hsame c (by simp)
  obtain ⟨hstorable, horder⟩ := hnext
  unfold StoresNewest at h
  cases hn : newest ts cosigs with
  | none =>
    rw [hn] at h
    rw [newest_eq_none hn]
    exact storesNewest_first hc hstorable h
  | some m =>
    rw [hn] at h
    obtain ⟨envelope, henvelope, hrow⟩ := h
    have hm : SameHead head m := hsame m (List.mem_append_left _ (newest_eq_some hn).1)
    exact storesNewest_next hm hc hstorable hn henvelope hrow (horder m hn)

/-- **One more delivery** is fine exactly when it is in order -/
theorem delivery_iff {rows : List CosignatureRow} (hsame : ∀ d ∈ cosigs ++ [c], SameHead head d)
    (h : StoresNewest ts shardId rows cosigs head) :
    ((storeWitnessCosignature ts rows shardId c).2 = .ok () ∧
        NewestStored ts shardId (storeWitnessCosignature ts rows shardId c).1 (cosigs ++ [c]) c) ↔
      NextInOrder ts shardId cosigs c := by
  have hc : SameHead head c := hsame c (by simp)
  refine ⟨fun ⟨hok, hnewest⟩ => ?_, fun hnext => ?_⟩
  · have hstorable : Storable ts shardId c := by
      by_contra hnot
      exact store_unstorable hnot hok
    refine ⟨hstorable, fun m hm => ?_⟩
    unfold StoresNewest at h
    rw [hm] at h
    obtain ⟨envelope, -, hrow⟩ := h
    have hmsame : SameHead head m := hsame m (List.mem_append_left _ (newest_eq_some hm).1)
    rw [store_same_head hmsame hc hstorable hrow] at hok hnewest
    split_ifs at hok hnewest ⊢ with hsig hlt
    · -- a replay leaves the row, so the row's time is the newest one
      obtain ⟨row, hfind, -, hle⟩ := hnewest
      simp only [sameKey_of_sameHead hc] at hfind
      rw [hrow] at hfind
      cases hfind
      exact hle c (by simp)
    · exact hlt
  · obtain ⟨hok, hstores⟩ := storesNewest_concat hsame h hnext
    exact ⟨hok, hstores.newestStored hc⟩

theorem forall_prefix_concat {Q : List WitnessCosignature → WitnessCosignature → Prop} :
    (∀ before d, before ++ [d] <+: cosigs ++ [c] → Q before d) ↔ (∀ before d, before ++ [d] <+: cosigs → Q before d) ∧ Q cosigs c := by
  refine ⟨fun h => ⟨fun before d hd => h before d (hd.trans (List.prefix_append _ _)), h cosigs c (List.prefix_rfl)⟩, ?_⟩
  intro h before d hd
  rcases List.prefix_concat_iff.1 hd with heq | hd
  · obtain ⟨hbefore, hlast⟩ := List.append_inj' heq rfl
    rw [hbefore, List.singleton_inj.1 hlast]
    exact h.2
  · exact h.1 before d hd

/-- **All deliveries**: fine exactly when each is in order, and then the row is that of the newest -/
theorem deliveries_iff (hnew : table.find? (fun row => row.sameKey shardId head) = none)
    (hsame : ∀ d ∈ cosigs, SameHead head d) :
    (OrderInsensitive ts shardId table cosigs ↔ ArrivesInOrder ts shardId cosigs) ∧
      (ArrivesInOrder ts shardId cosigs → StoresNewest ts shardId (deliver ts shardId table cosigs) cosigs head) := by
  induction cosigs using List.reverseRecOn with
  | nil =>
    have hnone : ∀ (before : List WitnessCosignature) (d : WitnessCosignature), ¬ before ++ [d] <+: [] := by
      intro before d hd
      exact absurd (List.prefix_nil.1 hd) (by simp)
    exact ⟨⟨fun _ before d hd => absurd hd (hnone before d), fun _ before d hd => absurd hd (hnone before d)⟩, fun _ => hnew⟩
  | append_singleton cosigs c ih =>
    obtain ⟨hiff, hstores⟩ := ih fun d hd => hsame d (List.mem_append_left _ hd)
    have hone : ArrivesInOrder ts shardId cosigs →
        (((storeWitnessCosignature ts (deliver ts shardId table cosigs) shardId c).2 = .ok () ∧
          NewestStored ts shardId (deliver ts shardId table (cosigs ++ [c])) (cosigs ++ [c]) c) ↔
        NextInOrder ts shardId cosigs c) := by
      intro h
      rw [deliver_concat]
      exact delivery_iff hsame (hstores h)
    constructor
    · unfold OrderInsensitive ArrivesInOrder at hiff hone ⊢
      rw [forall_prefix_concat, forall_prefix_concat, hiff]
      exact and_congr_right hone
    · intro h
      obtain ⟨hbefore, hlast⟩ := forall_prefix_concat.1 h
      rw [deliver_concat]
      exact (storesNewest_concat hsame (hstores hbefore) hlast).2

/-- **When delivery order does not matter.** For every table without a row of the witness for this head and every sequence
of its cosignatures over the head, whatever their times and signatures: at every delivery there is no error and the newest
time is stored exactly when every delivery can be stored and is, against the newest one before it, a replay of no later
time or an attestation of a later one. And a cosignature over another root never changes the table. -/
theorem order_insensitive_iff (ts : Timestamptz) (shardId : String) (table : List CosignatureRow) (head : WitnessCosignature)
    (hnew : table.find? (fun row => row.sameKey shardId head) = none) (cosigs : List WitnessCosignature)
    (hsame : ∀ c ∈ cosigs, SameHead head c) :
    (OrderInsensitive ts shardId table cosigs ↔ ArrivesInOrder ts shardId cosigs) ∧
      ∀ (table : List CosignatureRow) (row : CosignatureRow) (c : WitnessCosignature),
        table.find? (fun row => row.sameKey shardId c) = some row → row.rootHash ≠ c.rootHash →
        (storeWitnessCosignature ts table shardId c).1 = table :=
  ⟨(deliveries_iff hnew hsame).1, fun _ _ _ hrow hroot => other_root_unchanged hrow hroot⟩

/-- Ed25519 restricted to the witness's signatures over two observations of head ab.. -/
def reattestEd25519 : Ed25519 where
  verifyingKey _ := witnessKey
  sign _ _ := FixedBytes.replicate 64 0
  verifyStrict key message signature :=
    recordedSignatures.contains (key, Sha256.hash message, signature) ||
      decide ((key, Sha256.hash message, signature) = (witnessKey,
        FixedBytes.ofHex 32 "afea507c5b7604bd03e5c94ead212303fcff7f8d90afa1b7d921e7a94e51beb8",
        FixedBytes.ofHex 64 laterSignature))

/-- a head attested twice, in order -/
theorem order_insensitive_reattested :
    OrderInsensitive Mirror.timestamptz "core" [] [firstCosignature, laterCosignature] := by
  refine (order_insensitive_iff Mirror.timestamptz "core" [] firstCosignature rfl ([] ++ [firstCosignature] ++ [laterCosignature])
    ?_).1.2 ?_
  · intro c hc
    rcases List.mem_pair.1 hc with rfl | rfl <;> rfl
  · have hfirst : Storable Mirror.timestamptz "core" firstCosignature := ⟨_, rfl, by decide +kernel⟩
    have hlater : Storable Mirror.timestamptz "core" laterCosignature := ⟨_, rfl, by decide +kernel⟩
    refine forall_prefix_concat.2 ⟨forall_prefix_concat.2 ⟨?_, ?_⟩, ?_⟩
    · intro before d hd
      exact absurd (List.prefix_nil.1 hd) (by simp)
    · exact ⟨hfirst, by simp [newest]⟩
    · refine ⟨hlater, fun m hm => ?_⟩
      cases hm
      decide +kernel

/-- **An older attestation is refused.** Both cosignatures of the witness verify and are over one head; when the newer one
comes first, storing the older one fails. -/
theorem older_attestation_refused :
    ¬ ∀ cosigs : List WitnessCosignature,
      (∀ c ∈ cosigs, SameHead firstCosignature c ∧ verifyWitnessCosignature reattestEd25519 witnessKey c = true) →
      OrderInsensitive Mirror.timestamptz "core" [] cosigs := by
  intro h
  have hfails : (storeWitnessCosignature Mirror.timestamptz (deliver Mirror.timestamptz "core" [] [laterCosignature]) "core"
      firstCosignature).2 ≠ .ok () := by
    decide +kernel
  have hsigned : ∀ c ∈ [laterCosignature, firstCosignature],
      SameHead firstCosignature c ∧ verifyWitnessCosignature reattestEd25519 witnessKey c = true := by
    decide +kernel
  exact hfails (h _ hsigned [laterCosignature] firstCosignature (List.prefix_refl _)).1

end Avalon.WitnessStore
