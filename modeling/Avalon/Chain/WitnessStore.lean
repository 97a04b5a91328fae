/-
Stored witness cosignatures (`crates/chain/src/postgres.rs`: `store_witness_cosignature`,
`refresh_witness_cosignature`, `list_witness_cosignatures`).

One row per (network, shard, tree size, witness). A second cosignature of a witness over the same head with a later
observation time refreshes the row in place: the statement rewrites `observed_at` and `signature` only. The envelope
columns keep the values of the first cosignature, while the signature covers the envelope of the second.

Times are kept by the column type `timestamptz`, a parameter. The column that the driver writes (`Mirror.timestamptz`) gives
back the second that is signed (`KeepsSeconds`) of every time from 2000 on; before 2000 a time in the last microsecond of its
second moves to the next one.

Results:
- `store_rows`: what one call does to the table, with the condition that a refresh brings the envelope of its row.
- `keepsSeconds_of_le`: the driver's column keeps the seconds of times from 2000 on.
- `stored_cosignatures_verifiable`: in every sequence of calls that meets this condition, every listed cosignature is one
  that was passed in, in all signed fields and in the signature, so it verifies under the same keys.
- `refresh_with_extension`: a witness that re-attests with an extension; the listed row verifies no more.
-/
import Mathlib.Tactic
import Avalon.Core.Bytes
import Avalon.Core.Sha256
import Avalon.Core.Fallible
import Avalon.Protocol.SigningBytes
import Avalon.Protocol.SigningBytesReader
import Avalon.Protocol.LedgerEntry
import Avalon.Protocol.Sth
import Avalon.Protocol.Witness
import Avalon.Protocol.CosignedSth
import Avalon.Chain.Ledger
import Avalon.Chain.Mirror

namespace Avalon.WitnessStore

open Avalon.SigningBytes Avalon.LedgerEntry Avalon.Sth Avalon.Witness Avalon.CosignedSth Avalon.Ledger

/-! ## The table -/

/-- a row of `witness_cosignatures` -/
structure CosignatureRow where
  networkId : String
  shardId : String
  treeSize : Int64
  witnessKeyId : String
  rootHash : String
  authorCreatedAt : OffsetDateTime
  authorKeyId : String
  authorSignature : String
  observedAt : OffsetDateTime
  signature : String
  envelope : EnvelopeRow
deriving DecidableEq

/-- a `timestamptz` column: the instant that comes back for an instant stored -/
abbrev Timestamptz := OffsetDateTime → OffsetDateTime

namespace CosignatureRow

/-- the values a cosignature is inserted with -/
def ofCosignature (timestamptz : Timestamptz) (shardId : String) (cosig : WitnessCosignature) (envelope : EnvelopeRow) :
    CosignatureRow :=
  { networkId := cosig.networkId
    shardId := shardId
    treeSize := cosig.treeSize
    witnessKeyId := cosig.witnessKeyId
    rootHash := cosig.rootHash
    authorCreatedAt := timestamptz cosig.authorCreatedAt
    authorKeyId := cosig.authorKeyId
    authorSignature := cosig.authorSignature
    observedAt := timestamptz cosig.observedAt
    signature := cosig.signature
    envelope := envelope }

/-- the CHECK constraints, and that text columns hold no NUL -/
def checks (row : CosignatureRow) : Bool :=
  row.authorSignature.length = 128 && 1 ≤ row.envelope.layoutVersion.toInt && 1 ≤ row.envelope.rulesVersion.toInt &&
    1 ≤ row.envelope.hashAlgo.toInt && row.envelope.hashAlgo.toInt ≤ 255 &&
    [row.networkId, row.shardId, row.witnessKeyId, row.rootHash, row.authorKeyId, row.authorSignature,
      row.signature].all fun text => !(utf8 text).contains 0

/-- the primary key -/
def key (row : CosignatureRow) : String × String × Int64 × String :=
  (row.networkId, row.shardId, row.treeSize, row.witnessKeyId)

def sameKey (row : CosignatureRow) (shardId : String) (cosig : WitnessCosignature) : Bool :=
  row.key = (cosig.networkId, shardId, cosig.treeSize, cosig.witnessKeyId)

/-- the WHERE clause of a refresh -/
def refreshable (timestamptz : Timestamptz) (row : CosignatureRow) (shardId : String) (cosig : WitnessCosignature) :
    Bool :=
  row.sameKey shardId cosig && row.rootHash = cosig.rootHash &&
    row.authorCreatedAt = timestamptz cosig.authorCreatedAt && row.observedAt < timestamptz cosig.observedAt &&
    row.authorKeyId = cosig.authorKeyId && row.authorSignature = cosig.authorSignature

/-- SET observed_at, signature -/
def refreshed (timestamptz : Timestamptz) (row : CosignatureRow) (cosig : WitnessCosignature) : CosignatureRow :=
  { row with observedAt := timestamptz cosig.observedAt, signature := cosig.signature }

def toCosignature (row : CosignatureRow) (envelope : Envelope) : WitnessCosignature :=
  { treeSize := row.treeSize
    rootHash := row.rootHash
    networkId := row.networkId
    authorCreatedAt := row.authorCreatedAt
    authorKeyId := row.authorKeyId
    authorSignature := row.authorSignature
    witnessKeyId := row.witnessKeyId
    observedAt := row.observedAt
    signature := row.signature
    envelope := envelope }

end CosignatureRow

/-! ## Storing, refreshing, listing -/

/-- the table after the update, and whether a row was updated -/
def refreshWitnessCosignature (timestamptz : Timestamptz) (table : List CosignatureRow) (shardId : String)
    (cosig : WitnessCosignature) : List CosignatureRow × Bool :=
  (table.map fun row => if row.refreshable timestamptz shardId cosig then row.refreshed timestamptz cosig else row,
    table.any fun row => row.refreshable timestamptz shardId cosig)

/-- the table after the call, and its result -/
def storeWitnessCosignature (timestamptz : Timestamptz) (table : List CosignatureRow) (shardId : String)
    (cosig : WitnessCosignature) : List CosignatureRow × Except SettlementError Unit :=
  match EnvelopeRow.fromEnvelope cosig.envelope with
  | .error e => (table, .error e)
  | .ok envelope =>
    let new := CosignatureRow.ofCosignature timestamptz shardId cosig envelope
    if !new.checks then (table, .error (.storage .checkViolation))
    else
      match table.find? fun row => row.sameKey shardId cosig with
      | none => (table ++ [new], .ok ())
      | some row =>
        if row.signature = cosig.signature then (table, .ok ())
        else if row.rootHash = cosig.rootHash ∧ row.authorKeyId = cosig.authorKeyId ∧
            row.authorSignature = cosig.authorSignature ∧ row.observedAt < cosig.observedAt then
          ((refreshWitnessCosignature timestamptz table shardId cosig).1, .ok ())
        else (table, .error (.storage
          (.possibleEquivocation cosig.witnessKeyId cosig.treeSize cosig.networkId shardId)))

/-- rows this node cannot read are left out; any other envelope error is returned -/
def readRows : List CosignatureRow → Except SettlementError (List WitnessCosignature)
  | [] => .ok []
  | row :: rest =>
    match row.envelope.toEnvelope .witnessCosign with
    | .ok envelope => do
      let cosigs ← readRows rest
      return row.toCosignature envelope :: cosigs
    | .error (.needsNewerVersion _ _) => readRows rest
    | .error other => .error other

def listWitnessCosignatures (table : List CosignatureRow) (networkId shardId : String) (treeSize : Int64) :
    Except SettlementError (List WitnessCosignature) :=
  readRows (table.filter fun row => row.networkId = networkId && row.shardId = shardId && row.treeSize = treeSize)

/-- one call of `store_witness_cosignature` -/
structure Call where
  shardId : String
  cosig : WitnessCosignature

/-- the table after a sequence of calls; a failed call is followed by the next -/
def run (timestamptz : Timestamptz) (table : List CosignatureRow) : List Call → List CosignatureRow
  | [] => table
  | call :: calls => run timestamptz (storeWitnessCosignature timestamptz table call.shardId call.cosig).1 calls

/-! ## Calls that keep rows whole -/

/-- the row was written from the call's cosignature -/
def WrittenBy (timestamptz : Timestamptz) (row : CosignatureRow) (call : Call) : Prop :=
  ∃ envelope, EnvelopeRow.fromEnvelope call.cosig.envelope = .ok envelope ∧
    row = .ofCosignature timestamptz call.shardId call.cosig envelope

/-- a row the call refreshes has the envelope of the call's cosignature -/
def KeepsEnvelope (timestamptz : Timestamptz) (table : List CosignatureRow) (call : Call) : Prop :=
  ∀ row ∈ table, row.refreshable timestamptz call.shardId call.cosig = true → row.signature ≠ call.cosig.signature →
    EnvelopeRow.fromEnvelope call.cosig.envelope = .ok row.envelope

instance (timestamptz : Timestamptz) (table : List CosignatureRow) (call : Call) :
    Decidable (KeepsEnvelope timestamptz table call) :=
  inferInstanceAs (Decidable (∀ row ∈ table, row.refreshable timestamptz call.shardId call.cosig = true →
    row.signature ≠ call.cosig.signature → EnvelopeRow.fromEnvelope call.cosig.envelope = .ok row.envelope))

/-- every call of the sequence keeps envelopes, in the state it finds -/
def callsKeepEnvelope (timestamptz : Timestamptz) (table : List CosignatureRow) : List Call → Bool
  | [] => true
  | call :: calls => decide (KeepsEnvelope timestamptz table call) &&
      callsKeepEnvelope timestamptz (storeWitnessCosignature timestamptz table call.shardId call.cosig).1 calls

/-- a refreshed row with the call's envelope is the row the call would insert -/
theorem refreshed_eq {timestamptz : Timestamptz} {row : CosignatureRow} {call : Call}
    (h : row.refreshable timestamptz call.shardId call.cosig = true) :
    row.refreshed timestamptz call.cosig = .ofCosignature timestamptz call.shardId call.cosig row.envelope := by
  simp only [CosignatureRow.refreshable, CosignatureRow.sameKey, CosignatureRow.key, Bool.and_eq_true,
    decide_eq_true_eq, Prod.mk.injEq] at h
  obtain ⟨⟨⟨⟨⟨⟨h1, h2, h3, h4⟩, h5⟩, h6⟩, -⟩, h7⟩, h8⟩ := h
  simp only [CosignatureRow.refreshed, CosignatureRow.ofCosignature, ← h1, ← h2, ← h3, ← h4, ← h5, ← h6, ← h7, ← h8]

/-- the primary key is unique -/
def UniqueKeys (table : List CosignatureRow) : Prop := (table.map CosignatureRow.key).Nodup

theorem refresh_keys (timestamptz : Timestamptz) (table : List CosignatureRow) (shardId : String)
    (cosig : WitnessCosignature) :
    (refreshWitnessCosignature timestamptz table shardId cosig).1.map CosignatureRow.key =
      table.map CosignatureRow.key := by
  rw [refreshWitnessCosignature, List.map_map]
  apply List.map_congr_left
  intro row _
  simp only [Function.comp_apply]
  split_ifs <;> rfl

/-- what one call does: it changes nothing, inserts a row under a new key, or refreshes the row of its key -/
theorem store_cases (timestamptz : Timestamptz) (table : List CosignatureRow) (call : Call) :
    (storeWitnessCosignature timestamptz table call.shardId call.cosig).1 = table ∨
    (∃ row, WrittenBy timestamptz row call ∧ row.key ∉ table.map CosignatureRow.key ∧
      (storeWitnessCosignature timestamptz table call.shardId call.cosig).1 = table ++ [row]) ∨
    ∃ row ∈ table, row.sameKey call.shardId call.cosig = true ∧ row.signature ≠ call.cosig.signature ∧
      (storeWitnessCosignature timestamptz table call.shardId call.cosig).1 =
        (refreshWitnessCosignature timestamptz table call.shardId call.cosig).1 := by
  rw [storeWitnessCosignature]
  split
  · exact Or.inl rfl
  · rename_i envelope henv
    dsimp only
    split_ifs with hchecks
    · exact Or.inl rfl
    split
    · rename_i hnone
      refine Or.inr (Or.inl ⟨_, ⟨envelope, henv, rfl⟩, ?_, rfl⟩)
      intro hmem
      obtain ⟨row, hrow, hkey⟩ := List.mem_map.1 hmem
      rw [List.find?_eq_none] at hnone
      exact hnone row hrow (decide_eq_true hkey)
    · rename_i row hfind
      have hkey := List.find?_some hfind
      split_ifs with hsig
      · exact Or.inl rfl
      · exact Or.inr (Or.inr ⟨row, List.mem_of_find?_eq_some hfind, hkey, hsig, rfl⟩)
      · exact Or.inl rfl

theorem store_uniqueKeys {timestamptz : Timestamptz} {table : List CosignatureRow} (h : UniqueKeys table) (call : Call) :
    UniqueKeys (storeWitnessCosignature timestamptz table call.shardId call.cosig).1 := by
  rcases store_cases timestamptz table call with he | ⟨row, -, hnew, he⟩ | ⟨_, -, -, -, he⟩
  · rwa [he]
  · rw [he, UniqueKeys, List.map_append, List.map_singleton, List.nodup_append_comm]
    exact List.nodup_cons.2 ⟨hnew, h⟩
  · rw [he, UniqueKeys, refresh_keys]
    exact h

/-- **What a call leaves.** Each row afterwards was there before or is written by the call. -/
theorem store_rows {timestamptz : Timestamptz} {table : List CosignatureRow} {call : Call} (hu : UniqueKeys table)
    (hkeep : KeepsEnvelope timestamptz table call) :
    ∀ row ∈ (storeWitnessCosignature timestamptz table call.shardId call.cosig).1,
      row ∈ table ∨ WrittenBy timestamptz row call := by
  intro row hrow
  rcases store_cases timestamptz table call with he | ⟨new, hnew, -, he⟩ | ⟨found, hfound, hkey, hsig, he⟩
  · rw [he] at hrow
    exact Or.inl hrow
  · rw [he] at hrow
    rcases List.mem_append.1 hrow with hrow | hrow
    · exact Or.inl hrow
    · obtain rfl := List.mem_singleton.1 hrow
      exact Or.inr hnew
  · rw [he] at hrow
    obtain ⟨old, hold, rfl⟩ := List.mem_map.1 hrow
    by_cases hr : old.refreshable timestamptz call.shardId call.cosig = true
    · -- the key is unique, so the row that is refreshed is the row whose signature was compared
      have hsame : old.sameKey call.shardId call.cosig = true := by
        simp only [CosignatureRow.refreshable, Bool.and_eq_true] at hr
        exact hr.1.1.1.1.1
      have hkeys : old.key = found.key := (of_decide_eq_true hsame).trans (of_decide_eq_true hkey).symm
      obtain rfl := List.inj_on_of_nodup_map hu hold hfound hkeys
      rw [if_pos hr]
      exact Or.inr ⟨old.envelope, hkeep old hold hr hsig, refreshed_eq hr⟩
    · rw [if_neg hr]
      exact Or.inl hold

/-- **Every sequence** of calls that keep envelopes leaves rows that were there or are written by one of them -/
theorem run_rows {timestamptz : Timestamptz} (calls : List Call) {table : List CosignatureRow} (hu : UniqueKeys table)
    (hkeep : callsKeepEnvelope timestamptz table calls = true) :
    ∀ row ∈ run timestamptz table calls, row ∈ table ∨ ∃ call ∈ calls, WrittenBy timestamptz row call := by
  induction calls generalizing table with
  | nil => exact fun row hrow => Or.inl hrow
  | cons call calls ih =>
    intro row hrow
    rw [callsKeepEnvelope, Bool.and_eq_true, decide_eq_true_eq] at hkeep
    rcases ih (store_uniqueKeys hu call) hkeep.2 row hrow with hold | ⟨later, hmem, hw⟩
    · rcases store_rows hu hkeep.1 row hold with hold | hw
      · exact Or.inl hold
      · exact Or.inr ⟨call, List.mem_cons_self, hw⟩
    · exact Or.inr ⟨later, List.mem_cons_of_mem _ hmem, hw⟩

/-- every listed cosignature is a row with its envelope -/
theorem mem_readRows {rows : List CosignatureRow} {cosigs : List WitnessCosignature} (h : readRows rows = .ok cosigs) :
    ∀ c ∈ cosigs, ∃ row ∈ rows, ∃ envelope, row.envelope.toEnvelope .witnessCosign = .ok envelope ∧
      c = row.toCosignature envelope := by
  induction rows generalizing cosigs with
  | nil =>
    cases h
    simp
  | cons row rest ih =>
    intro c hc
    rw [readRows] at h
    split at h
    · rename_i envelope henv
      obtain ⟨cs, hcs, h⟩ := Fallible.bind_eq_ok.1 h
      cases h
      rcases List.mem_cons.1 hc with rfl | hc
      · exact ⟨row, List.mem_cons_self, envelope, henv, rfl⟩
      · obtain ⟨r, hr, hrest⟩ := ih hcs c hc
        exact ⟨r, List.mem_cons_of_mem _ hr, hrest⟩
    · obtain ⟨r, hr, hrest⟩ := ih h c hc
      exact ⟨r, List.mem_cons_of_mem _ hr, hrest⟩
    · cases h

/-! ## Stored cosignatures -/

/-- the column type keeps the signed seconds of a cosignature's times -/
def KeepsSeconds (timestamptz : Timestamptz) (cosig : WitnessCosignature) : Prop :=
  (timestamptz cosig.authorCreatedAt).unixTimestamp = cosig.authorCreatedAt.unixTimestamp ∧
    (timestamptz cosig.observedAt).unixTimestamp = cosig.observedAt.unixTimestamp

instance (timestamptz : Timestamptz) (cosig : WitnessCosignature) : Decidable (KeepsSeconds timestamptz cosig) :=
  inferInstanceAs (Decidable ((timestamptz cosig.authorCreatedAt).unixTimestamp = cosig.authorCreatedAt.unixTimestamp ∧
    (timestamptz cosig.observedAt).unixTimestamp = cosig.observedAt.unixTimestamp))

theorem unixTimestamp_of_micros {a b : OffsetDateTime} (h : a / 1000 = b / 1000) : a.unixTimestamp = b.unixTimestamp := by
  have hseconds : a / 1000000000 = b / 1000000000 := by
    rw [show (1000000000 : ℤ) = 1000 * 1000000 from rfl, ← Int.ediv_ediv_of_nonneg (by decide), h,
      Int.ediv_ediv_of_nonneg (by decide)]
  rw [OffsetDateTime.unixTimestamp, hseconds, OffsetDateTime.unixTimestamp]

/-- the driver's column keeps the seconds from 2000 on -/
theorem keepsSeconds_of_le {cosig : WitnessCosignature} (hcreated : Mirror.pgEpoch ≤ cosig.authorCreatedAt)
    (hobserved : Mirror.pgEpoch ≤ cosig.observedAt) : KeepsSeconds Mirror.timestamptz cosig :=
  ⟨unixTimestamp_of_micros (Mirror.timestamptz_of_le hcreated), unixTimestamp_of_micros (Mirror.timestamptz_of_le hobserved)⟩

/-- equal in every signed field, times to the second as they are signed, and in the signature -/
structure SameStatement (c d : WitnessCosignature) : Prop where
  treeSize : c.treeSize = d.treeSize
  rootHash : c.rootHash = d.rootHash
  networkId : c.networkId = d.networkId
  authorCreatedAt : c.authorCreatedAt.unixTimestamp = d.authorCreatedAt.unixTimestamp
  authorKeyId : c.authorKeyId = d.authorKeyId
  authorSignature : c.authorSignature = d.authorSignature
  witnessKeyId : c.witnessKeyId = d.witnessKeyId
  observedAt : c.observedAt.unixTimestamp = d.observedAt.unixTimestamp
  envelope : c.envelope = d.envelope
  signature : c.signature = d.signature

theorem SameStatement.verify_eq {c d : WitnessCosignature} (h : SameStatement c d) (ed : Ed25519) (key : FixedBytes 32) :
    verifyWitnessCosignature ed key c = verifyWitnessCosignature ed key d := by
  simp only [verifyWitnessCosignature, witnessSigningMessage, h.treeSize, h.rootHash, h.networkId, h.authorCreatedAt,
    h.authorKeyId, h.authorSignature, h.witnessKeyId, h.observedAt, h.envelope, h.signature]

theorem sameStatement_of_writtenBy {timestamptz : Timestamptz} {row : CosignatureRow} {call : Call} {envelope : Envelope}
    (h : WrittenBy timestamptz row call) (hs : KeepsSeconds timestamptz call.cosig)
    (he : row.envelope.toEnvelope .witnessCosign = .ok envelope) :
    SameStatement (row.toCosignature envelope) call.cosig := by
  obtain ⟨columns, hcolumns, rfl⟩ := h
  obtain rfl := EnvelopeRow.toEnvelope_of_fromEnvelope hcolumns he
  exact ⟨rfl, rfl, rfl, hs.1, rfl, rfl, rfl, hs.2, rfl, rfl⟩

/-- **Stored cosignatures stay verifiable.** In every sequence of calls from an empty table in which each call that
refreshes a row brings that row's envelope, whatever is listed in a state reached is one of the cosignatures stored, in every
signed field and in the signature, and verifies under each key that one verifies under. -/
theorem stored_cosignatures_verifiable (timestamptz : Timestamptz) (calls : List Call)
    (hs : ∀ call ∈ calls, KeepsSeconds timestamptz call.cosig)
    (hkeep : callsKeepEnvelope timestamptz [] calls = true) (networkId shardId : String) (treeSize : Int64)
    (cosigs : List WitnessCosignature)
    (hlist : listWitnessCosignatures (run timestamptz [] calls) networkId shardId treeSize = .ok cosigs) :
    ∀ c ∈ cosigs, ∃ call ∈ calls, call.shardId = shardId ∧ SameStatement c call.cosig ∧
      ∀ ed key, verifyWitnessCosignature ed key call.cosig = true → verifyWitnessCosignature ed key c = true := by
  intro c hc
  obtain ⟨row, hrow, envelope, henv, rfl⟩ := mem_readRows hlist c hc
  rw [List.mem_filter, Bool.and_eq_true, Bool.and_eq_true, decide_eq_true_eq, decide_eq_true_eq] at hrow
  have hempty : UniqueKeys [] := List.nodup_nil
  rcases run_rows calls hempty hkeep row hrow.1 with hnil | ⟨call, hcall, hw⟩
  · cases hnil
  have hsame := sameStatement_of_writtenBy hw (hs call hcall) henv
  refine ⟨call, hcall, ?_, hsame, ?_⟩
  · obtain ⟨_, -, rfl⟩ := hw
    exact hrow.2.1.2
  · intro ed key hv
    rw [hsame.verify_eq]
    exact hv

/-! ## A witness that attests one head twice -/

/-- the witness's signatures over a later observation of head ab.., without and with an extension -/
def laterSignature : String :=
  "4bb55f0f40a5214e47a1eaa18211ba7ad5eec43cceed5185eb9e5f15c7b464b1bcaf3daa4a04d7358bd5ebc6fd9a87f0ea3e046b5ebd99b94dfa477d4d1b3e04"
def extendedSignature : String :=
  "002d03a3c6a761a37867f4f78a475210cefe72d6e1925edcd70fc6cba2a8b046759f308b2ee86732662eebd8d703752696233673915cd3e24dadf66f5cffb004"

/-- Ed25519 restricted to the recorded signatures and the one with the extension -/
def attestationEd25519 : Ed25519 where
  verifyingKey _ := witnessKey
  sign _ _ := FixedBytes.replicate 64 0
  verifyStrict key message signature :=
    recordedSignatures.contains (key, Sha256.hash message, signature) ||
      decide ((key, Sha256.hash message, signature) = (witnessKey,
        FixedBytes.ofHex 32 "1f188c54044a2ee991632b2159389265ba99d45611c19af68f27444c6383d14b",
        FixedBytes.ofHex 64 extendedSignature))

/-- the witness's cosignature of head ab.. -/
def firstCosignature : WitnessCosignature :=
  ⟨12, headAb.sth.rootHash, headAb.sth.networkId, headAb.sth.createdAt, headAb.sth.signingKeyId, headAb.sth.signature,
    "witness-1", 1790000600000000000, witnessSigAb, .current .witnessCosign⟩

/-- the same head an hour later -/
def laterCosignature : WitnessCosignature :=
  { firstCosignature with observedAt := 1790004200000000000, signature := laterSignature }

/-- the same head an hour later, with a non-critical extension -/
def extendedCosignature : WitnessCosignature :=
  { firstCosignature with
    observedAt := 1790004200000000000
    signature := extendedSignature
    envelope := { Envelope.current .witnessCosign with extensions := ⟨[⟨1, false, [7]⟩], .singleton _, 1, by decide⟩ } }

/-- a re-attestation with the same envelope is listed as it was passed in -/
theorem stored_cosignatures_verifiable_reattested :
    let calls : List Call := [⟨"core", firstCosignature⟩, ⟨"core", laterCosignature⟩]
    ∃ c, listWitnessCosignatures (run Mirror.timestamptz [] calls) headAb.sth.networkId "core" 12 = .ok [c] ∧
      ∃ call ∈ calls, SameStatement c call.cosig := by
  intro calls
  -- one evaluation, since the calls are the same
  have hevaluated : listWitnessCosignatures (run Mirror.timestamptz [] calls) headAb.sth.networkId "core" 12 =
        .ok [laterCosignature] ∧
      (∀ call ∈ calls, Mirror.pgEpoch ≤ call.cosig.authorCreatedAt ∧ Mirror.pgEpoch ≤ call.cosig.observedAt) ∧
      callsKeepEnvelope Mirror.timestamptz [] calls = true := by
    decide +kernel
  obtain ⟨hlist, hlate, hkeep⟩ := hevaluated
  have hkeeps : ∀ call ∈ calls, KeepsSeconds Mirror.timestamptz call.cosig := fun call hcall =>
    keepsSeconds_of_le (hlate call hcall).1 (hlate call hcall).2
  obtain ⟨call, hcall, -, hsame, -⟩ := stored_cosignatures_verifiable Mirror.timestamptz calls hkeeps hkeep
    _ _ _ _ hlist laterCosignature List.mem_cons_self
  exact ⟨laterCosignature, hlist, call, hcall, hsame⟩

/-- **A refresh mixes two statements.** Both cosignatures verify; after storing one and then the other, the listed row
carries the second signature over the first envelope, equals neither, and does not verify. -/
theorem refresh_with_extension :
    let calls : List Call := [⟨"core", firstCosignature⟩, ⟨"core", extendedCosignature⟩]
    (∀ call ∈ calls, verifyWitnessCosignature attestationEd25519 witnessKey call.cosig = true) ∧
      ∃ c, listWitnessCosignatures (run Mirror.timestamptz [] calls) headAb.sth.networkId "core" 12 = .ok [c] ∧
        (∀ call ∈ calls, ¬ SameStatement c call.cosig) ∧
        verifyWitnessCosignature attestationEd25519 witnessKey c = false := by
  intro calls
  have hevaluated : (∀ call ∈ calls, verifyWitnessCosignature attestationEd25519 witnessKey call.cosig = true) ∧
      listWitnessCosignatures (run Mirror.timestamptz [] calls) headAb.sth.networkId "core" 12 =
        .ok [{ extendedCosignature with envelope := .current .witnessCosign }] ∧
      verifyWitnessCosignature attestationEd25519 witnessKey { extendedCosignature with envelope := .current .witnessCosign } =
        false ∧
      ∀ call ∈ calls, call.cosig.signature ≠ extendedSignature ∨ call.cosig.envelope ≠ .current .witnessCosign := by
    decide +kernel
  obtain ⟨hverified, hlist, hfails, hdiff⟩ := hevaluated
  refine ⟨hverified, _, hlist, ?_, hfails⟩
  intro call hcall hsame
  rcases hdiff call hcall with h | h
  · exact h hsame.signature.symm
  · exact h hsame.envelope.symm

end Avalon.WitnessStore
