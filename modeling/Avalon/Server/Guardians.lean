/-
Recovery guardians (`crates/server/src/recovery.rs`: `validate_guardian_settings`, `set_guardians`, `fetch_guardian_settings`,
`resign_guardian`; the tables `recovery_guardians` and `recovery_guardian_settings` of migration 0029).

The settings of one identity, and the two calls that write them, each here as a whole: a call that fails leaves the settings
as they were. Replacing the set takes a fresh signature if it removes a guardian or raises the threshold. A guardian who
resigns lowers the threshold to the number of guardians left, and the table refuses a threshold below 1.

Results:
- `uniqueGuardians_nodup`: what is stored names each guardian once.
- `satisfiable_run`: after every sequence of calls, nothing is configured or 1 ≤ threshold ≤ number of guardians.
- `resign_iff`: after every sequence of calls, a guardian's resignation succeeds as it should if and only if another
  guardian is left.
- `last_guardian_cannot_resign`: the only guardian.
-/
import Mathlib.Tactic
import Avalon.Core.Bytes
import Avalon.Core.Fallible
import Avalon.Protocol.IdentityId
import Avalon.Server.SignatureGate

namespace Avalon.Guardians

open Avalon.SigningBytes Avalon.Events Avalon.Identity Avalon.SignatureGate
open Fallible

/-! ## Validation -/

def maxGuardians : ℕ := 10

def validateGuardianSettings (guardianCount : ℕ) (threshold : ℤ) : Except AppError Unit :=
  if guardianCount = 0 then .error .invalidGuardianSet
  else if maxGuardians < guardianCount then .error .invalidGuardianSet
  else if threshold < 1 ∨ (guardianCount : ℤ) < threshold then .error .invalidGuardianSet
  else .ok ()

/-- the order of ids: by their bytes -/
def idKey (id : IdentityId) : ℕ := beNat id.asBytes.toList

/-- `Vec::dedup`: of equal neighbours one stays -/
def dedup : List IdentityId → List IdentityId
  | [] => []
  | [a] => [a]
  | a :: b :: rest => if a = b then dedup (b :: rest) else a :: dedup (b :: rest)

def uniqueGuardians (ids : List IdentityId) : List IdentityId :=
  dedup (ids.insertionSort fun a b => idKey a ≤ idKey b)

structure SetGuardiansRequest where
  guardianIds : List IdentityId
  threshold : ℤ
  proof : Proof

/-- the checks of a request by itself and against the caller's friends -/
def checkGuardians (owner : IdentityId) (friends : List IdentityId) (request : SetGuardiansRequest) :
    Except AppError (List IdentityId) :=
  let guardians := uniqueGuardians request.guardianIds
  if guardians.length ≠ request.guardianIds.length then .error .invalidGuardianSet
  else if owner ∈ guardians then .error .invalidGuardianSet
  else
    match validateGuardianSettings guardians.length request.threshold with
    | .error e => .error e
    | .ok () => if ∀ g ∈ guardians, g ∈ friends then .ok guardians else .error .invalidGuardianSet

/-! ## The settings -/

/-- the rows of one identity; no settings row if it never configured guardians -/
@[ext] structure Settings where
  guardians : List IdentityId
  threshold : Option ℤ
deriving DecidableEq

/-- as `fetch_guardian_settings` answers it -/
def Settings.thresholdOrZero (s : Settings) : ℤ := s.threshold.getD 0

/-- removing a guardian or raising the threshold -/
def needsSignature (previous : Settings) (guardians : List IdentityId) (threshold : ℤ) : Bool :=
  let removesAGuardian := !previous.guardians.all fun g => decide (g ∈ guardians)
  let raisesThreshold := decide (previous.thresholdOrZero < threshold)
  removesAGuardian || raisesThreshold

def guardiansMessage (owner : IdentityId) (guardians : List IdentityId) (threshold : ℤ) : Bytes :=
  canonicalMessage "recovery.guardians.set"
    [owner.toText, ",".intercalate (guardians.map IdentityId.toText), i32Text threshold]

/-- also returns whether a signature was verified -/
def authorizeGuardians (v : Verifier) (keys : List SigningKeyRow) (owner : IdentityId) (previous : Settings)
    (guardians : List IdentityId) (request : SetGuardiansRequest) : Except AppError Bool :=
  if needsSignature previous guardians request.threshold then
    match requireFreshSignature v keys owner (guardiansMessage owner guardians request.threshold) request.proof with
    | .error e => .error e
    | .ok () => .ok true
  else .ok false

/-- the table's `CHECK (threshold >= 1)` -/
def checkThreshold (threshold : ℤ) : Except AppError Unit := if 1 ≤ threshold then .ok () else .error .database

/-- what else a call reads -/
structure Surroundings where
  friends : List IdentityId
  keys : List SigningKeyRow
  forked : Bool

/-- `set_guardians`, from the checks to the commit; also returns whether a signature was verified -/
def setGuardians (v : Verifier) (owner : IdentityId) (env : Surroundings) (s : Settings) (request : SetGuardiansRequest) :
    Except AppError (Settings × Bool) := do
  let guardians ← checkGuardians owner env.friends request
  let signed ← authorizeGuardians v env.keys owner s guardians request
  if env.forked then throw .identityChainForked
  checkThreshold request.threshold
  return (⟨guardians, some request.threshold⟩, signed)

/-- the threshold after `LEAST(threshold, remaining) WHERE threshold > remaining` -/
def clampThreshold (threshold : Option ℤ) (remaining : ℕ) : Except AppError (Option ℤ) :=
  match threshold with
  | none => .ok none
  | some t =>
    if (remaining : ℤ) < t then
      match checkThreshold (min t remaining) with
      | .error e => .error e
      | .ok () => .ok (some (min t remaining))
    else .ok (some t)

def resignGuardian (s : Settings) (caller : IdentityId) : Except AppError Settings :=
  if caller ∉ s.guardians then .error .notAGuardian
  else
    let rest := s.guardians.filter fun g => decide (g ≠ caller)
    match clampThreshold s.threshold rest.length with
    | .error e => .error e
    | .ok threshold => .ok ⟨rest, threshold⟩

/-- `start_request` and `finish_request` refuse an identity without a threshold of at least 1 -/
def recoveryAvailable (s : Settings) : Bool := s.threshold.any fun t => decide (1 ≤ t)

/-! ## Sequences of calls -/

inductive Op where
  | set (env : Surroundings) (request : SetGuardiansRequest)
  | resign (caller : IdentityId)

def step (v : Verifier) (owner : IdentityId) (s : Settings) : Op → Settings
  | .set env request =>
    match setGuardians v owner env s request with
    | .ok (s', _) => s'
    | .error _ => s
  | .resign caller =>
    match resignGuardian s caller with
    | .ok s' => s'
    | .error _ => s

def unconfigured : Settings := ⟨[], none⟩

def run (v : Verifier) (owner : IdentityId) (ops : List Op) : Settings := ops.foldl (step v owner) unconfigured

/-! ## Each guardian once -/

theorem idKey_injective {a b : IdentityId} (h : idKey a = idKey b) : a = b := by
  have hbytes : ∀ id : IdentityId, beBytes 32 (idKey id) = id.asBytes.toList := by
    intro id
    have hread := beBytes_beNat id.asBytes.toList
    rwa [List.Vector.toList_length] at hread
  apply IdentityId.ext
  apply FixedBytes.toList_inj
  rw [← hbytes a, ← hbytes b, h]

theorem mem_of_mem_dedup {ids : List IdentityId} {x : IdentityId} (h : x ∈ dedup ids) : x ∈ ids := by
  fun_induction dedup ids with
  | case1 => exact h
  | case2 a => exact h
  | case3 b rest ih => exact List.mem_cons_of_mem _ (ih h)
  | case4 a b rest hne ih =>
    rcases List.mem_cons.1 h with rfl | h
    · exact List.mem_cons_self
    · exact List.mem_cons_of_mem _ (ih h)

/-- without equal neighbours, a sorted list ascends strictly -/
theorem dedup_ascending {ids : List IdentityId} (h : ids.Pairwise fun a b => idKey a ≤ idKey b) :
    (dedup ids).Pairwise fun a b => idKey a < idKey b := by
  fun_induction dedup ids with
  | case1 => exact List.Pairwise.nil
  | case2 a => exact List.pairwise_singleton _ _
  | case3 b rest ih => exact ih (List.pairwise_cons.1 h).2
  | case4 a b rest hne ih =>
    obtain ⟨ha, hrest⟩ := List.pairwise_cons.1 h
    refine List.pairwise_cons.2 ⟨fun x hx => ?_, ih hrest⟩
    have hab : idKey a < idKey b :=
      lt_of_le_of_ne (ha b List.mem_cons_self) fun heq => hne (idKey_injective heq)
    rcases List.mem_cons.1 (mem_of_mem_dedup hx) with rfl | hx
    · exact hab
    · exact hab.trans_le ((List.pairwise_cons.1 hrest).1 x hx)

theorem uniqueGuardians_nodup (ids : List IdentityId) : (uniqueGuardians ids).Nodup := by
  have hsorted : (ids.insertionSort fun a b => idKey a ≤ idKey b).Pairwise fun a b => idKey a ≤ idKey b := by
    have : Std.Total fun a b : IdentityId => idKey a ≤ idKey b := ⟨fun a b => le_total _ _⟩
    have : IsTrans IdentityId fun a b => idKey a ≤ idKey b := ⟨fun _ _ _ => le_trans⟩
    exact List.pairwise_insertionSort _ ids
  exact (dedup_ascending hsorted).imp fun hlt heq => absurd (heq ▸ hlt) (lt_irrefl _)

/-! ## The settings stay satisfiable -/

theorem validateGuardianSettings_eq_ok {count : ℕ} {threshold : ℤ} {u : Unit}
    (h : validateGuardianSettings count threshold = .ok u) : 1 ≤ threshold ∧ threshold ≤ count := by
  unfold validateGuardianSettings at h
  split_ifs at h
  omega

theorem checkGuardians_eq_ok {owner : IdentityId} {friends guardians : List IdentityId} {request : SetGuardiansRequest}
    (h : checkGuardians owner friends request = .ok guardians) :
    guardians = uniqueGuardians request.guardianIds ∧ 1 ≤ request.threshold ∧ request.threshold ≤ guardians.length := by
  unfold checkGuardians at h
  dsimp only at h
  split at h
  · cases h
  · split at h
    · cases h
    · split at h
      · cases h
      · rename_i hvalid
        split at h
        · cases h
          exact ⟨rfl, validateGuardianSettings_eq_ok hvalid⟩
        · cases h

/-- what a call that succeeds has stored -/
theorem setGuardians_eq_ok {v : Verifier} {owner : IdentityId} {env : Surroundings} {s s' : Settings}
    {request : SetGuardiansRequest} {signed : Bool} (h : setGuardians v owner env s request = .ok (s', signed)) :
    checkGuardians owner env.friends request = .ok s'.guardians ∧
      authorizeGuardians v env.keys owner s s'.guardians request = .ok signed ∧ s'.threshold = some request.threshold := by
  unfold setGuardians at h
  obtain ⟨guardians, hcheck, h⟩ := bind_eq_ok.1 h
  obtain ⟨signed', hauth, h⟩ := bind_eq_ok.1 h
  split at h
  · cases h
  · obtain ⟨u, -, h⟩ := bind_eq_ok.1 h
    cases h
    exact ⟨hcheck, hauth, rfl⟩

/-- nothing is configured, or the threshold can be met by the guardians, each stored once -/
def Satisfiable (s : Settings) : Prop :=
  s = unconfigured ∨ s.guardians.Nodup ∧ ∃ t, s.threshold = some t ∧ 1 ≤ t ∧ t ≤ s.guardians.length

/-- a threshold within the guardians is clamped to what is left of them, or the table refuses it -/
theorem clampThreshold_some {t : ℤ} {remaining : ℕ} (ht : 1 ≤ t) :
    clampThreshold (some t) remaining = if remaining = 0 then .error .database else .ok (some (min t remaining)) := by
  unfold clampThreshold checkThreshold
  dsimp only
  rcases Nat.eq_zero_or_pos remaining with rfl | hpos
  · rw [if_pos (by omega), if_neg (by omega), if_pos rfl]
  · rw [if_neg hpos.ne']
    split
    · rw [if_pos (by omega)]
    · rw [min_eq_left (by omega)]

/-- what a resignation does to settings that are configured -/
theorem resignGuardian_of_satisfiable {s : Settings} {t : ℤ} (ht : s.threshold = some t) (hle : 1 ≤ t) {caller : IdentityId}
    (hcaller : caller ∈ s.guardians) :
    resignGuardian s caller =
      if (s.guardians.filter fun g => decide (g ≠ caller)) = [] then .error .database
      else .ok ⟨s.guardians.filter fun g => decide (g ≠ caller),
        some (min t (s.guardians.filter fun g => decide (g ≠ caller)).length)⟩ := by
  unfold resignGuardian
  rw [if_neg (not_not.2 hcaller), ht]
  dsimp only
  rw [clampThreshold_some hle]
  by_cases hnil : (s.guardians.filter fun g => decide (g ≠ caller)) = []
  · rw [if_pos hnil, if_pos (by rw [hnil]; rfl)]
  · rw [if_neg hnil, if_neg (by rwa [List.length_eq_zero_iff])]

theorem satisfiable_step {v : Verifier} {owner : IdentityId} {s : Settings} (h : Satisfiable s) (op : Op) :
    Satisfiable (step v owner s op) := by
  cases op with
  | set env request =>
    rw [step]
    split
    · rename_i s' signed hset
      obtain ⟨hcheck, -, hthreshold⟩ := setGuardians_eq_ok hset
      obtain ⟨hguardians, hle, hge⟩ := checkGuardians_eq_ok hcheck
      exact .inr ⟨hguardians ▸ uniqueGuardians_nodup _, request.threshold, hthreshold, hle, hge⟩
    · exact h
  | resign caller =>
    rw [step]
    split
    · rename_i s' hresign
      have hcaller : caller ∈ s.guardians := by
        by_contra hnot
        rw [resignGuardian, if_pos hnot] at hresign
        cases hresign
      rcases h with rfl | ⟨hnodup, t, ht, hle, hge⟩
      · simp [unconfigured] at hcaller
      · rw [resignGuardian_of_satisfiable ht hle hcaller] at hresign
        split_ifs at hresign with hnil
        cases hresign
        have hpos := List.length_pos_iff.2 hnil
        exact .inr ⟨hnodup.filter _, _, rfl, by omega, by dsimp only; omega⟩
    · exact h

theorem satisfiable_run (v : Verifier) (owner : IdentityId) (ops : List Op) : Satisfiable (run v owner ops) := by
  have hfold : ∀ (ops : List Op) (s : Settings), Satisfiable s → Satisfiable (ops.foldl (step v owner) s) := by
    intro ops
    induction ops with
    | nil => exact fun s h => h
    | cons op ops ih => exact fun s h => ih _ (satisfiable_step h op)
  exact hfold ops unconfigured (.inl rfl)

/-! ## Resigning -/

/-- the resignation succeeds, removes exactly this guardian, and leaves nobody and no recovery, or a threshold that can be
met -/
def ResignsAsItShould (s : Settings) (caller : IdentityId) : Prop :=
  ∃ s', resignGuardian s caller = .ok s' ∧ (∀ g, g ∈ s'.guardians ↔ g ∈ s.guardians ∧ g ≠ caller) ∧
    ((s'.guardians = [] ∧ recoveryAvailable s' = false) ∨
      ∃ t, s'.threshold = some t ∧ 1 ≤ t ∧ t ≤ s'.guardians.length)

/-- **Resigning works for all but the last.** After every sequence of calls, the resignation of a current guardian does what
it should if and only if another guardian is left. -/
theorem resign_iff (v : Verifier) (owner : IdentityId) (ops : List Op) (caller : IdentityId)
    (hcaller : caller ∈ (run v owner ops).guardians) :
    ResignsAsItShould (run v owner ops) caller ↔ ∃ g ∈ (run v owner ops).guardians, g ≠ caller := by
  rcases satisfiable_run v owner ops with hnone | ⟨-, t, ht, hle, -⟩
  · rw [hnone] at hcaller
    simp [unconfigured] at hcaller
  generalize run v owner ops = s at hcaller ht ⊢
  unfold ResignsAsItShould
  rw [resignGuardian_of_satisfiable ht hle hcaller]
  constructor
  · rintro ⟨s', hresign, -⟩
    split_ifs at hresign with hnil
    obtain ⟨g, hg⟩ := List.exists_mem_of_ne_nil _ hnil
    obtain ⟨hmem, hne⟩ := List.mem_filter.1 hg
    exact ⟨g, hmem, of_decide_eq_true hne⟩
  · rintro ⟨g, hmem, hne⟩
    have hg : g ∈ s.guardians.filter fun g => decide (g ≠ caller) := List.mem_filter.2 ⟨hmem, decide_eq_true hne⟩
    have hpos := List.length_pos_of_mem hg
    rw [if_neg (List.ne_nil_of_mem hg)]
    refine ⟨_, rfl, fun g => by simp, .inr ⟨_, rfl, ?_, ?_⟩⟩
    · omega
    · dsimp only
      omega

/-! ## The only guardian -/

def owner1 : IdentityId := ⟨.replicate 32 1⟩

def guardian1 : IdentityId := ⟨.replicate 32 2⟩

def guardian2 : IdentityId := ⟨.replicate 32 3⟩

def keyRow : SigningKeyRow :=
  ⟨.replicate 16 5, owner1, (FixedBytes.ofHex 32 "2152f8d19b791d24453242e15f2eab6cb7cffa7b6a5ed30097960e069881db12").toList, false⟩

def singleSignature : FixedBytes 64 := .ofHex 64
  "39d8cc2260ac25ff21f3b83fe3e8d030c57491f9f8f45628d99f28a5f491b744f0b57c2a81c34c35cef7a379c2dd32fc1cbbef405c73aa6534433adfb94f570c"

/-- Ed25519 restricted to the owner's signature over naming one guardian -/
def singleVerifier : Verifier where
  ed := {
    verifyingKey _ := .ofHex 32 "2152f8d19b791d24453242e15f2eab6cb7cffa7b6a5ed30097960e069881db12"
    sign _ _ := singleSignature
    verifyStrict _ message signature :=
      decide (message = guardiansMessage owner1 [guardian1] 1) && decide (signature = singleSignature) }
  validKey _ := true

def nameOne : Op := .set ⟨[guardian1, guardian2], [keyRow], false⟩ ⟨[guardian1], 1, some keyRow.id, some
  "OdjMImCsJf8h87g/4+jQMMV0kfn49FYo2Z8opfSRt0TwtXwqgcNMNc73o3nC3TL8HLvvQFxzqmU0QzrfuU9XDA=="⟩

/-- adding a guardian takes no signature -/
def nameTwo : Op := .set ⟨[guardian1, guardian2], [keyRow], false⟩ ⟨[guardian2, guardian1], 1, none, none⟩

theorem run_nameOne : run singleVerifier owner1 [nameOne] = ⟨[guardian1], some 1⟩ := by
  decide +kernel

theorem step_nameTwo : step singleVerifier owner1 ⟨[guardian1], some 1⟩ nameTwo = ⟨[guardian1, guardian2], some 1⟩ := by
  decide +kernel

/-- one of two guardians can resign -/
theorem resign_iff_two : ResignsAsItShould (run singleVerifier owner1 [nameOne, nameTwo]) guardian1 := by
  have hrun : run singleVerifier owner1 [nameOne, nameTwo] = ⟨[guardian1, guardian2], some 1⟩ := by
    rw [← step_nameTwo, ← run_nameOne, run, run, List.foldl_cons, List.foldl_cons, List.foldl_nil, List.foldl_cons,
      List.foldl_nil]
  refine (resign_iff singleVerifier owner1 [nameOne, nameTwo] guardian1 ?_).2 ?_
  · rw [hrun]
    decide
  · rw [hrun]
    exact ⟨guardian2, by decide, by decide⟩

/-- **The only guardian** cannot resign: the threshold would become 0, which the table refuses -/
theorem last_guardian_cannot_resign :
    ¬ ∀ (v : Verifier) (owner : IdentityId) (ops : List Op) (caller : IdentityId),
      caller ∈ (run v owner ops).guardians → ResignsAsItShould (run v owner ops) caller := by
  intro h
  have hresign := h singleVerifier owner1 [nameOne] guardian1
  rw [run_nameOne] at hresign
  obtain ⟨s', hok, -⟩ := hresign (by decide)
  have herror : resignGuardian ⟨[guardian1], some 1⟩ guardian1 = .error .database := by decide
  rw [herror] at hok
  cases hok

end Avalon.Guardians
