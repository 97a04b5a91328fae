/-
Per-identity event chains (`crates/protocol/src/identity_chain.rs`, `resolve_identity_chain` of
`identity_chain_wire.rs`).

An event claims the position (seq, hash of its predecessor). The source replays an identity's events from the genesis
position: it gathers the candidates, resolves them (`resolveConflict`) and continues behind the winner. A fork is resolved
when exactly one candidate there is listed as a guardian-approved recovery (`resolveIdentityChain`).

Results:
- `applyChain_run`: the loop of the source is a replay (`Replay.Run`) whose rule is `choose` without recoveries.
- `resolveIdentityChain_run`: the loop that discards the losers of a recovered fork and starts over is the single
  replay whose rule is `choose`.
- `winsAmong_of_choose`, `choose_of_winsAmong`: whom the rule chooses, stated without sorting (`WinsAmong`).
-/
import Mathlib.Tactic
import Avalon.Core.Bytes
import Avalon.Core.Replay
import Avalon.Protocol.Events

namespace Avalon.IdentityChain

open Avalon.LedgerEntry Avalon.Events Replay

/-! ## Events -/

abbrev EventHash := FixedBytes 32

inductive ActionClass where
  | ordinaryEdit
  | monotonic
  | chainCritical
deriving DecidableEq, Repr

/-- the class of a kind; `none` for a kind that is part of no identity's chain -/
def ActionClass.classify : ProtocolEventKind → Option ActionClass
  | .other _ => none
  | .known v =>
    match v with
    | .profileUpdated | .friendRequested | .friendAccepted | .friendRemoved | .guildMemberAdded | .guildMemberRemoved
    | .identityPasskeyRegistered | .identityPasskeyRevoked => some .ordinaryEdit
    | .friendRelationshipReversed | .guildMembershipReversed => some .monotonic
    | .identitySigningKeyAdded | .identitySigningKeyRevoked | .identityRecoveryConfigured | .identityRecoveryRequested
    | .identityRecoveryApproved | .identityRecoveryCancelled | .identityRecovered => some .chainCritical
    | _ => none

inductive EventAuthority where
  | ownerSigned
  | authenticatedSession
deriving DecidableEq, Repr

structure ChainedEvent where
  seq : ℕ
  prevHash : Option EventHash
  eventHash : EventHash
  timestamp : OffsetDateTime
  actionClass : ActionClass
  authority : EventAuthority
deriving DecidableEq

/-! ## The conflict rule -/

inductive ConflictResolution where
  | resolved (winner : ChainedEvent)
  | forked (candidates : List ChainedEvent)

/-- the bytes of a hash as compared: the first difference decides -/
def hashKey (h : EventHash) : List ℕ := h.toList.map UInt8.toNat

/-- the comparator of the sort: the later timestamp first, a tie broken by the smaller hash -/
def sortsBefore (a b : ChainedEvent) : Bool :=
  decide (b.timestamp < a.timestamp ∨ (b.timestamp = a.timestamp ∧ hashKey a.eventHash ≤ hashKey b.eventHash))

/-- the source's stable sort -/
def sorted (l : List ChainedEvent) : List ChainedEvent := l.insertionSort fun a b => sortsBefore a b

/-- resolves a nonempty list of events that claim one position, given as its first element and the others -/
def resolveConflict (first : ChainedEvent) (others : List ChainedEvent) : ConflictResolution :=
  let candidates := first :: others
  if candidates.length = 1 then .resolved first
  else if candidates.any fun c => c.actionClass == .chainCritical then .forked candidates
  else
    let highestClassPresent :=
      if candidates.any fun c => c.actionClass == .monotonic then ActionClass.monotonic else .ordinaryEdit
    let inClass := candidates.filter fun c => c.actionClass == highestClassPresent
    .resolved ((sorted inClass).headD first) -- never empty: the class is present

structure ChainOutcome where
  accepted : List ChainedEvent
  forkedAt : Option ℕ
deriving DecidableEq

def ChainOutcome.head (o : ChainOutcome) : Option ChainedEvent := o.accepted.getLast?

/-- the event validly extends the current head -/
def extendsHead (nextSeq : ℕ) (headHash : Option EventHash) (e : ChainedEvent) : Bool :=
  e.seq == nextSeq && e.prevHash == headHash

/-- the events left after the candidates of a position were taken out -/
def remaining (events : List ChainedEvent) (nextSeq : ℕ) (headHash : Option EventHash) : List ChainedEvent :=
  events.filter fun e => !extendsHead nextSeq headHash e

theorem remaining_length_lt {events : List ChainedEvent} {nextSeq : ℕ} {headHash : Option EventHash}
    (h : events.filter (extendsHead nextSeq headHash) ≠ []) :
    (remaining events nextSeq headHash).length < events.length := by
  obtain ⟨e, he⟩ := List.exists_mem_of_ne_nil _ h
  obtain ⟨h1, h2⟩ := List.mem_filter.1 he
  exact List.length_filter_lt_length_iff_exists.2 ⟨e, h1, by simp [h2]⟩

/-- the loop of `apply_chain` -/
def applyLoop (events accepted : List ChainedEvent) (headHash : Option EventHash) (nextSeq : ℕ) : ChainOutcome :=
  match _hm : events.filter (extendsHead nextSeq headHash) with
  | [] => ⟨accepted, none⟩
  | first :: others =>
    match resolveConflict first others with
    | .resolved winner =>
      applyLoop (remaining events nextSeq headHash) (accepted ++ [winner]) (some winner.eventHash) (nextSeq + 1)
    | .forked _ => ⟨accepted, some nextSeq⟩
termination_by events.length
decreasing_by exact remaining_length_lt (by rw [_hm]; exact List.cons_ne_nil _ _)

def applyChain (events : List ChainedEvent) : ChainOutcome := applyLoop events [] none 1

/-! ## The rule, without sorting -/

/-- the candidate the rule lets through: the winner, or at a fork the only listed recovery -/
def choose (recoveryHashes : Finset EventHash) : List ChainedEvent → Option ChainedEvent
  | [] => none
  | first :: others =>
    match resolveConflict first others with
    | .resolved winner => some winner
    | .forked candidates =>
      match candidates.filter fun e => decide (e.eventHash ∈ recoveryHashes) with
      | [winner] => some winner
      | _ => none

/-- a ranks before b: a monotonic action before an ordinary edit, within a class the order of the sort -/
def Outranks (a b : ChainedEvent) : Prop :=
  (a.actionClass = .monotonic ∧ b.actionClass = .ordinaryEdit) ∨
    (a.actionClass = b.actionClass ∧ sortsBefore a b = true)

/-- w wins among the candidates of its position: it is alone, or nothing there is critical and it ranks before the
others, or something there is critical and it is the only listed recovery -/
def WinsAmong (recoveryHashes : Finset EventHash) (candidates : List ChainedEvent) (w : ChainedEvent) : Prop :=
  candidates = [w] ∨
  ((∀ c ∈ candidates, c.actionClass ≠ .chainCritical) ∧ w ∈ candidates ∧ ∀ c ∈ candidates, Outranks w c) ∨
  ((∃ c ∈ candidates, c.actionClass = .chainCritical) ∧
    candidates.filter (fun e => decide (e.eventHash ∈ recoveryHashes)) = [w])

theorem hashKey_inj {a b : EventHash} (h : hashKey a = hashKey b) : a = b :=
  FixedBytes.toList_inj (List.map_injective_iff.2 (fun _ _ => UInt8.toNat_inj.1) h)

theorem sortsBefore_total (a b : ChainedEvent) : (sortsBefore a b || sortsBefore b a) = true := by
  simp only [sortsBefore, Bool.or_eq_true, decide_eq_true_eq]
  rcases lt_trichotomy a.timestamp b.timestamp with h | h | h
  · exact .inr (.inl h)
  · rcases le_total (hashKey a.eventHash) (hashKey b.eventHash) with hh | hh
    · exact .inl (.inr ⟨h.symm, hh⟩)
    · exact .inr (.inr ⟨h, hh⟩)
  · exact .inl (.inl h)

theorem sortsBefore_refl (a : ChainedEvent) : sortsBefore a a = true := by
  simpa using sortsBefore_total a a

theorem sortsBefore_trans (a b c : ChainedEvent) (hab : sortsBefore a b = true) (hbc : sortsBefore b c = true) :
    sortsBefore a c = true := by
  simp only [sortsBefore, decide_eq_true_eq] at *
  rcases hab with hab | ⟨hab, hh⟩
  · rcases hbc with hbc | ⟨hbc, -⟩
    · exact .inl (hbc.trans hab)
    · exact .inl (hbc ▸ hab)
  · rcases hbc with hbc | ⟨hbc, hh'⟩
    · exact .inl (hab ▸ hbc)
    · exact .inr ⟨hbc.trans hab, hh.trans hh'⟩

/-- two events that sort before each other have the same timestamp and hash -/
theorem sortsBefore_antisymm {a b : ChainedEvent} (hab : sortsBefore a b = true) (hba : sortsBefore b a = true) :
    a.timestamp = b.timestamp ∧ a.eventHash = b.eventHash := by
  simp only [sortsBefore, decide_eq_true_eq] at *
  rcases hab with hab | ⟨hab, hh⟩
  · rcases hba with hba | ⟨hba, -⟩
    · exact absurd hab hba.asymm
    · rw [hba] at hab
      exact absurd hab (lt_irrefl _)
  · rcases hba with hba | ⟨-, hh'⟩
    · rw [hab] at hba
      exact absurd hba (lt_irrefl _)
    · exact ⟨hab.symm, hashKey_inj (le_antisymm hh hh')⟩

instance : Std.Total fun a b : ChainedEvent => sortsBefore a b = true :=
  ⟨fun a b => by simpa using sortsBefore_total a b⟩

instance : IsTrans ChainedEvent fun a b => sortsBefore a b = true := ⟨sortsBefore_trans⟩

/-- the head of the sorted list ranks before every element -/
theorem head_sorted {l : List ChainedEvent} {d : ChainedEvent} (h : l ≠ []) :
    (sorted l).headD d ∈ l ∧ ∀ c ∈ l, sortsBefore ((sorted l).headD d) c = true := by
  have hsorted : (sorted l).Pairwise fun a b => sortsBefore a b = true := List.pairwise_insertionSort _ l
  have hmem : ∀ x, x ∈ sorted l ↔ x ∈ l := fun x => List.mem_insertionSort _
  cases hl : sorted l with
  | nil =>
    obtain ⟨x, hx⟩ := List.exists_mem_of_ne_nil l h
    rw [← hmem, hl] at hx
    cases hx
  | cons w rest =>
    rw [hl] at hsorted hmem
    refine ⟨(hmem w).1 List.mem_cons_self, ?_⟩
    intro c hc
    rcases List.mem_cons.1 ((hmem c).2 hc) with rfl | hrest
    · exact sortsBefore_refl c
    · exact (List.pairwise_cons.1 hsorted).1 c hrest

/-- the sort is stable: its head is the first of the elements that sort before it -/
theorem find?_head_sorted {l : List ChainedEvent} {v : ChainedEvent} (h : (sorted l).head? = some v) :
    l.find? (fun e => sortsBefore e v) = some v := by
  induction l generalizing v with
  | nil => cases h
  | cons a l ih =>
    rw [sorted, List.insertionSort_cons, ← sorted] at h
    cases hl : sorted l with
    | nil =>
      rw [hl] at h
      obtain rfl : a = v := Option.some.inj h
      rw [List.find?_cons, sortsBefore_refl]
    | cons b rest =>
      rw [hl, List.orderedInsert_cons] at h
      by_cases hab : sortsBefore a b = true
      · rw [if_pos hab] at h
        obtain rfl : a = v := Option.some.inj h
        rw [List.find?_cons, sortsBefore_refl]
      · rw [if_neg hab] at h
        obtain rfl : b = v := Option.some.inj h
        rw [List.find?_cons, eq_false_of_ne_true hab]
        exact ih (by rw [hl]; rfl)

/-- the class the sort is over -/
def topClass (cs : List ChainedEvent) : ActionClass :=
  if cs.any fun c => c.actionClass == .monotonic then .monotonic else .ordinaryEdit

theorem topClass_of_mem {cs : List ChainedEvent} {m : ChainedEvent} (h : m ∈ cs) (hm : m.actionClass = .monotonic) :
    topClass cs = .monotonic :=
  if_pos (List.any_eq_true.2 ⟨m, h, by simp [hm]⟩)

/-- without a critical candidate the first of the sorted top class wins, also when it is alone -/
theorem resolveConflict_of_not_critical {first : ChainedEvent} {others : List ChainedEvent}
    (h : ∀ c ∈ first :: others, c.actionClass ≠ .chainCritical) :
    resolveConflict first others = .resolved ((sorted ((first :: others).filter fun c =>
      c.actionClass == topClass (first :: others))).headD first) := by
  rcases others with _ | ⟨second, others⟩
  · have htop : topClass [first] = first.actionClass := by
      cases hc : first.actionClass with
      | ordinaryEdit => simp [topClass, hc]
      | monotonic => simp [topClass, hc]
      | chainCritical => exact absurd hc (h first List.mem_cons_self)
    simp [resolveConflict, htop, sorted]
  · have hcrit : ((first :: second :: others).any fun c => c.actionClass == .chainCritical) = false :=
      List.any_eq_false.2 fun c hc => by simpa using h c hc
    simp only [resolveConflict, hcrit, topClass, sorted]
    rw [if_neg (by simp), if_neg Bool.false_ne_true]

/-- the three ways a position resolves -/
theorem resolveConflict_cases (first : ChainedEvent) (others : List ChainedEvent) :
    (others = [] ∧ resolveConflict first others = .resolved first) ∨
    (others ≠ [] ∧ (∃ c ∈ first :: others, c.actionClass = .chainCritical) ∧
      resolveConflict first others = .forked (first :: others)) ∨
    (others ≠ [] ∧ (∀ c ∈ first :: others, c.actionClass ≠ .chainCritical) ∧
      ∃ w ∈ first :: others, (∀ c ∈ first :: others, Outranks w c) ∧
        resolveConflict first others = .resolved w) := by
  rcases others with _ | ⟨second, others⟩
  · exact .inl ⟨rfl, rfl⟩
  refine .inr ?_
  set cs := first :: second :: others with hcs
  have hlen : ¬ cs.length = 1 := by simp [hcs]
  by_cases hcrit : ∃ c ∈ cs, c.actionClass = .chainCritical
  · refine .inl ⟨List.cons_ne_nil _ _, hcrit, ?_⟩
    simp only [resolveConflict, ← hcs]
    rw [if_neg hlen, if_pos (by simpa using hcrit)]
  refine .inr ⟨List.cons_ne_nil _ _, fun c hc hcc => hcrit ⟨c, hc, hcc⟩, ?_⟩
  have hcrit' : ∀ c ∈ cs, c.actionClass ≠ .chainCritical := fun c hc hcc => hcrit ⟨c, hc, hcc⟩
  have hres := resolveConflict_of_not_critical (hcs ▸ hcrit')
  rw [← hcs] at hres
  by_cases hmono : ∃ c ∈ cs, c.actionClass = .monotonic
  · obtain ⟨m, hm, hmc⟩ := hmono
    have hne : (cs.filter fun c => c.actionClass == .monotonic) ≠ [] :=
      List.ne_nil_of_mem (List.mem_filter.2 ⟨hm, by simp [hmc]⟩)
    obtain ⟨hw, hbest⟩ := head_sorted (d := first) hne
    refine ⟨_, (List.mem_filter.1 hw).1, ?_, topClass_of_mem hm hmc ▸ hres⟩
    intro c hc
    have hwc : ((sorted (cs.filter fun c => c.actionClass == .monotonic)).headD first).actionClass =
        .monotonic := by simpa using (List.mem_filter.1 hw).2
    cases hcc : c.actionClass with
    | ordinaryEdit => exact .inl ⟨hwc, hcc⟩
    | monotonic => exact .inr ⟨hwc.trans hcc.symm, hbest c (List.mem_filter.2 ⟨hc, by simp [hcc]⟩)⟩
    | chainCritical => exact absurd ⟨c, hc, hcc⟩ hcrit
  · -- nothing monotonic, nothing critical: every candidate is an ordinary edit
    have hord : ∀ c ∈ cs, c.actionClass = .ordinaryEdit := by
      intro c hc
      cases hcc : c.actionClass with
      | ordinaryEdit => rfl
      | monotonic => exact absurd ⟨c, hc, hcc⟩ hmono
      | chainCritical => exact absurd ⟨c, hc, hcc⟩ hcrit
    have hall : (cs.filter fun c => c.actionClass == .ordinaryEdit) = cs :=
      List.filter_eq_self.2 fun c hc => by simp [hord c hc]
    obtain ⟨hw, hbest⟩ := head_sorted (l := cs) (d := first) (List.cons_ne_nil _ _)
    refine ⟨_, hw, fun c hc => .inr ⟨(hord _ hw).trans (hord c hc).symm, hbest c hc⟩, ?_⟩
    rw [hres, topClass, if_neg (by simpa using hmono), hall]

/-- a chosen event wins among the candidates -/
theorem winsAmong_of_choose {recoveryHashes : Finset EventHash} {cs : List ChainedEvent} {w : ChainedEvent}
    (h : choose recoveryHashes cs = some w) : WinsAmong recoveryHashes cs w := by
  cases cs with
  | nil => cases h
  | cons first others =>
    simp only [choose] at h
    rcases resolveConflict_cases first others with ⟨rfl, hr⟩ | ⟨-, hcrit, hr⟩ | ⟨-, hcrit, v, hv, hbest, hr⟩
    · rw [hr] at h
      cases h
      exact .inl rfl
    · rw [hr] at h
      refine .inr (.inr ⟨hcrit, ?_⟩)
      dsimp only at h
      split at h
      · rename_i v hf
        cases h
        exact hf
      · cases h
    · rw [hr] at h
      cases h
      exact .inr (.inl ⟨hcrit, hv, hbest⟩)

theorem choose_singleton (recoveryHashes : Finset EventHash) (w : ChainedEvent) :
    choose recoveryHashes [w] = some w := rfl

/-- at a fork only the listed recoveries matter -/
theorem choose_of_critical {recoveryHashes : Finset EventHash} {cs : List ChainedEvent} (hlen : 2 ≤ cs.length)
    (hcrit : ∃ c ∈ cs, c.actionClass = .chainCritical) :
    choose recoveryHashes cs =
      match cs.filter fun e => decide (e.eventHash ∈ recoveryHashes) with
      | [winner] => some winner
      | _ => none := by
  obtain ⟨first, others, rfl⟩ := List.exists_cons_of_length_pos (by omega : 0 < cs.length)
  simp only [choose]
  rcases resolveConflict_cases first others with ⟨rfl, -⟩ | ⟨-, -, hr⟩ | ⟨-, hnone, -⟩
  · simp at hlen
  · rw [hr]
  · obtain ⟨c, hc, hcc⟩ := hcrit
    exact absurd hcc (hnone c hc)

/-- a single listed recovery is chosen where something is critical -/
theorem choose_of_recovery {recoveryHashes : Finset EventHash} {cs : List ChainedEvent} {w : ChainedEvent}
    (hcrit : ∃ c ∈ cs, c.actionClass = .chainCritical)
    (hw : cs.filter (fun e => decide (e.eventHash ∈ recoveryHashes)) = [w]) : choose recoveryHashes cs = some w := by
  have hmem : w ∈ cs := List.mem_of_mem_filter (hw ▸ List.mem_cons_self)
  rcases Nat.lt_or_ge cs.length 2 with hlen | hlen
  · have := List.length_pos_of_mem hmem
    obtain ⟨c, rfl⟩ := List.length_eq_one_iff.1 (by omega : cs.length = 1)
    rw [List.mem_singleton.1 hmem]
    rfl
  · rw [choose_of_critical hlen hcrit, hw]

/-- the rule freezes exactly at a fork without a single listed recovery -/
theorem choose_eq_none {recoveryHashes : Finset EventHash} {cs : List ChainedEvent} (hne : cs ≠ []) :
    choose recoveryHashes cs = none ↔ 2 ≤ cs.length ∧ (∃ c ∈ cs, c.actionClass = .chainCritical) ∧
      ∀ w, cs.filter (fun e => decide (e.eventHash ∈ recoveryHashes)) ≠ [w] := by
  constructor
  · intro h
    obtain ⟨first, others, rfl⟩ := List.exists_cons_of_ne_nil hne
    rcases resolveConflict_cases first others with ⟨rfl, -⟩ | ⟨hne', hcrit, -⟩ | ⟨-, -, v, -, -, hr⟩
    · cases h
    · have hlen : 2 ≤ (first :: others).length := by
        have := List.length_pos_iff.2 hne'
        rw [List.length_cons]; omega
      rw [choose_of_critical hlen hcrit] at h
      refine ⟨hlen, hcrit, ?_⟩
      intro w hw
      rw [hw] at h
      cases h
    · simp only [choose, hr] at h
      cases h
  · rintro ⟨hlen, hcrit, hnone⟩
    rw [choose_of_critical hlen hcrit]
    split
    · rename_i w hw
      exact absurd hw (hnone w)
    · rfl

/-- candidates of one position that outrank each other have the same hash -/
theorem Outranks.antisymm {a b : ChainedEvent} (hab : Outranks a b) (hba : Outranks b a) :
    a.actionClass = b.actionClass ∧ a.timestamp = b.timestamp ∧ a.eventHash = b.eventHash := by
  rcases hab with ⟨ha, hb⟩ | ⟨hc, hab⟩
  · rcases hba with ⟨hb', -⟩ | ⟨hc, -⟩
    · rw [hb] at hb'; cases hb'
    · rw [ha, hb] at hc; cases hc
  · rcases hba with ⟨hb, ha⟩ | ⟨-, hba⟩
    · rw [ha, hb] at hc; cases hc
    · exact ⟨hc, sortsBefore_antisymm hab hba⟩

/-- among the candidates of a position, winners have one hash, class and timestamp -/
theorem WinsAmong.unique {recoveryHashes : Finset EventHash} {cs : List ChainedEvent} {v w : ChainedEvent}
    (hv : WinsAmong recoveryHashes cs v) (hw : WinsAmong recoveryHashes cs w) :
    v.actionClass = w.actionClass ∧ v.timestamp = w.timestamp ∧ v.eventHash = w.eventHash := by
  have alone : ∀ {a b}, cs = [a] → WinsAmong recoveryHashes cs b → a = b := by
    rintro a b rfl (hb | ⟨-, hb, -⟩ | ⟨-, hb⟩)
    · exact (List.cons.inj hb).1
    · exact (List.mem_singleton.1 hb).symm
    · have hmem : b ∈ [a] := List.mem_of_mem_filter (hb ▸ List.mem_cons_self)
      exact (List.mem_singleton.1 hmem).symm
  rcases hv with hv | ⟨hv, hvm, hvb⟩ | ⟨⟨c, hc, hcc⟩, hv⟩
  · obtain rfl := alone hv hw
    exact ⟨rfl, rfl, rfl⟩
  · rcases hw with hw | ⟨-, hwm, hwb⟩ | ⟨⟨c, hc, hcc⟩, -⟩
    · obtain rfl := alone hw (.inr (.inl ⟨hv, hvm, hvb⟩))
      exact ⟨rfl, rfl, rfl⟩
    · exact (hvb w hwm).antisymm (hwb v hvm)
    · exact absurd hcc (hv c hc)
  · rcases hw with hw | ⟨hw, -, -⟩ | ⟨-, hw⟩
    · obtain rfl := alone hw (.inr (.inr ⟨⟨c, hc, hcc⟩, hv⟩))
      exact ⟨rfl, rfl, rfl⟩
    · exact absurd hcc (hw c hc)
    · obtain rfl : v = w := (List.cons.inj (hv.symm.trans hw)).1
      exact ⟨rfl, rfl, rfl⟩

theorem WinsAmong.mem {recoveryHashes : Finset EventHash} {cs : List ChainedEvent} {w : ChainedEvent}
    (h : WinsAmong recoveryHashes cs w) : w ∈ cs := by
  rcases h with rfl | ⟨-, h, -⟩ | ⟨-, h⟩
  · exact List.mem_singleton.2 rfl
  · exact h
  · exact List.mem_of_mem_filter (h ▸ List.mem_cons_self)

/-- where somebody wins, the rule chooses an event of the same hash, class and timestamp -/
theorem choose_of_winsAmong {recoveryHashes : Finset EventHash} {cs : List ChainedEvent} {w : ChainedEvent}
    (h : WinsAmong recoveryHashes cs w) : ∃ v, choose recoveryHashes cs = some v ∧
      v.actionClass = w.actionClass ∧ v.timestamp = w.timestamp ∧ v.eventHash = w.eventHash := by
  cases hc : choose recoveryHashes cs with
  | some v => exact ⟨v, rfl, (winsAmong_of_choose hc).unique h⟩
  | none =>
    obtain ⟨hlen, ⟨c, hcm, hcc⟩, hnone⟩ := (choose_eq_none (List.ne_nil_of_mem h.mem)).1 hc
    rcases h with rfl | ⟨hcrit, -, -⟩ | ⟨-, hw⟩
    · simp at hlen
    · exact absurd hcc (hcrit c hcm)
    · exact absurd hw (hnone w)

theorem mem_of_choose {recoveryHashes : Finset EventHash} {cs : List ChainedEvent} {w : ChainedEvent}
    (h : choose recoveryHashes cs = some w) : w ∈ cs :=
  (winsAmong_of_choose h).mem

/-! ## The loop is a replay -/

/-- the position an event claims -/
def position (e : ChainedEvent) : ℕ × Option EventHash := (e.seq, e.prevHash)

/-- the position behind an event -/
def opens (e : ChainedEvent) : ℕ × Option EventHash := (e.seq + 1, some e.eventHash)

/-- the position of the first event of an identity -/
def genesis : ℕ × Option EventHash := (1, none)

/-- a replay of an identity's events under the rule -/
abbrev ChainRun (recoveryHashes : Finset EventHash) (events : List ChainedEvent) :
    ℕ × Option EventHash → List ChainedEvent → Option (ℕ × Option EventHash) → Prop :=
  Run position opens (choose recoveryHashes) events

theorem filter_extendsHead (events : List ChainedEvent) (seq : ℕ) (head : Option EventHash) :
    events.filter (extendsHead seq head) = candidates position events (seq, head) := by
  apply List.filter_congr
  intro e _
  rw [Bool.eq_iff_iff]
  simp [extendsHead, position]

/-- taking the candidates of a position out changes no later position -/
theorem candidates_remaining {events : List ChainedEvent} {seq : ℕ} {head : Option EventHash}
    {k : ℕ × Option EventHash} (hk : seq < k.1) :
    candidates position (remaining events seq head) k = candidates position events k := by
  rw [candidates, remaining, List.filter_filter]
  apply List.filter_congr
  intro e _
  by_cases he : position e = k
  · have hseq : e.seq = k.1 := congrArg Prod.fst he
    have hne : e.seq ≠ seq := by omega
    simp [he, extendsHead, hne]
  · simp [he]

theorem choose_empty (first : ChainedEvent) (others : List ChainedEvent) :
    choose ∅ (first :: others) =
      match resolveConflict first others with
      | .resolved winner => some winner
      | .forked _ => none := by
  simp only [choose]
  cases resolveConflict first others with
  | resolved winner => rfl
  | forked candidates => simp

/-- **The loop of `apply_chain`** adds a replay from its position to what it had accepted -/
theorem applyLoop_run (events accepted : List ChainedEvent) (headHash : Option EventHash) (nextSeq : ℕ) :
    ∃ acc f, applyLoop events accepted headHash nextSeq = ⟨accepted ++ acc, f.map Prod.fst⟩ ∧
      ChainRun ∅ events (nextSeq, headHash) acc f := by
  induction hn : events.length using Nat.strong_induction_on generalizing events accepted headHash nextSeq with
  | _ n ih =>
    rw [applyLoop]
    split
    · rename_i hm
      rw [filter_extendsHead] at hm
      exact ⟨[], none, by simp, .done hm⟩
    · rename_i first others hm
      have hnonempty : events.filter (extendsHead nextSeq headHash) ≠ [] := by
        rw [hm]
        exact List.cons_ne_nil _ _
      have hne := remaining_length_lt hnonempty
      rw [filter_extendsHead] at hm
      have hchoose := choose_empty first others
      rw [← hm] at hchoose
      split
      · rename_i winner hr
        rw [hr] at hchoose
        obtain ⟨acc, f, heq, hrun⟩ := ih _ (hn ▸ hne) (remaining events nextSeq headHash) (accepted ++ [winner])
          (some winner.eventHash) (nextSeq + 1) rfl
        have hpos : position winner = (nextSeq, headHash) := (mem_candidates.1 (mem_of_choose hchoose)).2
        have hseq : winner.seq = nextSeq := congrArg Prod.fst hpos
        have hopens : (nextSeq + 1, some winner.eventHash) = opens winner := by rw [opens, hseq]
        refine ⟨winner :: acc, f, by rw [heq, List.append_assoc, List.singleton_append], ?_⟩
        refine .step hchoose (by rw [hm]; exact List.cons_ne_nil _ _) ?_
        rw [hopens] at hrun
        refine hrun.congr_on (fun k => nextSeq < k.1) ?_ ?_ ?_ ?_
        · intro k w hk hw
          have hw' : w.seq = k.1 := congrArg Prod.fst (mem_candidates.1 (mem_of_choose hw)).2
          simp only [opens]; omega
        · intro k hk
          rw [candidates_remaining hk]
        · intro k hk
          rw [candidates_remaining hk]
        · rw [← hopens]; simp
      · rename_i hr
        rw [hr] at hchoose
        exact ⟨[], some (nextSeq, headHash), by simp, .frozen (by rw [hm]; exact List.cons_ne_nil _ _) hchoose⟩

/-- **`apply_chain` is a replay** without recoveries -/
theorem applyChain_run (events : List ChainedEvent) :
    ∃ f, (applyChain events).forkedAt = f.map Prod.fst ∧ ChainRun ∅ events genesis (applyChain events).accepted f := by
  obtain ⟨acc, f, heq, hrun⟩ := applyLoop_run events [] none 1
  rw [applyChain, heq]
  exact ⟨f, rfl, hrun⟩

/-- replays with the same result give the same outcome -/
theorem applyChain_eq {events : List ChainedEvent} {acc : List ChainedEvent} {f : Option (ℕ × Option EventHash)}
    (h : ChainRun ∅ events genesis acc f) : applyChain events = ⟨acc, f.map Prod.fst⟩ := by
  obtain ⟨f', hf', hrun⟩ := applyChain_run events
  obtain ⟨hacc, rfl⟩ := hrun.unique h
  rw [← hacc, ← hf']

/-- the position behind accepted events: their number and the hash of the last one -/
theorem endKey_snd (acc : List ChainedEvent) (k : ℕ × Option EventHash) :
    (endKey opens k acc).2 = (acc.getLast?.map ChainedEvent.eventHash).or k.2 := by
  rcases acc.eq_nil_or_concat with rfl | ⟨acc, w, rfl⟩
  · simp [endKey]
  · rw [List.concat_eq_append, endKey_concat, List.getLast?_concat]
    rfl

/-! ## Fork recovery -/

/-- the events at a fork that are listed as recoveries -/
def resolvers (events : List ChainedEvent) (recoveryHashes : Finset EventHash) (forkSeq : ℕ)
    (head : Option EventHash) : List EventHash :=
  (events.filter fun e => e.seq == forkSeq && e.prevHash == head && decide (e.eventHash ∈ recoveryHashes)).map
    ChainedEvent.eventHash

/-- drops the candidates at a fork other than the winner -/
def retainWinner (events : List ChainedEvent) (forkSeq : ℕ) (head : Option EventHash) (winner : EventHash) :
    List ChainedEvent :=
  events.filter fun e => !(e.seq == forkSeq && e.prevHash == head && e.eventHash != winner)

theorem resolvers_eq (events : List ChainedEvent) (recoveryHashes : Finset EventHash) (k : ℕ × Option EventHash) :
    resolvers events recoveryHashes k.1 k.2 = ((candidates position events k).filter fun e =>
      decide (e.eventHash ∈ recoveryHashes)).map ChainedEvent.eventHash := by
  rw [resolvers, candidates, List.filter_filter]
  refine congrArg (List.map ChainedEvent.eventHash) (List.filter_congr ?_)
  intro e _
  rw [Bool.eq_iff_iff]
  simp [position, Prod.ext_iff, and_comm]

theorem candidates_retainWinner_of_ne {events : List ChainedEvent} {k k' : ℕ × Option EventHash} (winner : EventHash)
    (h : k' ≠ k) : candidates position (retainWinner events k.1 k.2 winner) k' = candidates position events k' := by
  rw [candidates, retainWinner, List.filter_filter]
  apply List.filter_congr
  intro e _
  by_cases he : position e = k'
  · have hne : ¬ (e.seq = k.1 ∧ e.prevHash = k.2) := fun hk => h (he.symm.trans (Prod.ext hk.1 hk.2))
    simp only [he, decide_true, Bool.true_and, Bool.not_eq_true', Bool.and_eq_false_imp, beq_iff_eq, Bool.and_eq_true]
    intro hk
    exact absurd hk hne
  · simp [he]

theorem candidates_retainWinner_self (events : List ChainedEvent) (k : ℕ × Option EventHash) (winner : EventHash) :
    candidates position (retainWinner events k.1 k.2 winner) k =
      (candidates position events k).filter fun e => e.eventHash == winner := by
  rw [candidates, retainWinner, List.filter_filter, candidates, List.filter_filter]
  apply List.filter_congr
  intro e _
  by_cases he : position e = k
  · have h1 : e.seq = k.1 := congrArg Prod.fst he
    have h2 : e.prevHash = k.2 := congrArg Prod.snd he
    simp [he, h1, h2, bne]
  · simp [he]

/-- the position behind the accepted events -/
def ChainOutcome.forkKey (o : ChainOutcome) (forkSeq : ℕ) : ℕ × Option EventHash :=
  (forkSeq, o.head.map ChainedEvent.eventHash)

/-- at a fork at least two candidates extend the last accepted event, one of them critical -/
theorem applyChain_forked {events : List ChainedEvent} {forkSeq : ℕ} (h : (applyChain events).forkedAt = some forkSeq) :
    ChainRun ∅ events genesis (applyChain events).accepted (some ((applyChain events).forkKey forkSeq)) ∧
      2 ≤ (candidates position events ((applyChain events).forkKey forkSeq)).length ∧
      ∃ c ∈ candidates position events ((applyChain events).forkKey forkSeq), c.actionClass = .chainCritical := by
  obtain ⟨f, hf, hrun⟩ := applyChain_run events
  rw [h] at hf
  obtain ⟨k, rfl, hk⟩ := Option.map_eq_some_iff.1 hf.symm
  have hkey : k = (applyChain events).forkKey forkSeq := by
    refine Prod.ext hk ?_
    rw [hrun.frozen_at, endKey_snd]
    simp [genesis, ChainOutcome.forkKey, ChainOutcome.head]
  subst hkey
  obtain ⟨hne, hnone⟩ := hrun.frozen_choose
  obtain ⟨hlen, hcrit, -⟩ := (choose_eq_none hne).1 hnone
  exact ⟨hrun, hlen, hcrit⟩

/-- a single listed recovery is the only candidate with its hash -/
theorem filter_winner {cs : List ChainedEvent} {recoveryHashes : Finset EventHash} {winner : EventHash}
    (h : (cs.filter fun e => decide (e.eventHash ∈ recoveryHashes)).map ChainedEvent.eventHash = [winner]) :
    ∃ w, w.eventHash = winner ∧ (cs.filter fun e => decide (e.eventHash ∈ recoveryHashes)) = [w] ∧
      (cs.filter fun e => e.eventHash == winner) = [w] := by
  obtain ⟨w, hw, hwh⟩ := List.map_eq_singleton_iff.1 h
  have hmem : w ∈ cs.filter fun e => decide (e.eventHash ∈ recoveryHashes) := hw ▸ List.mem_cons_self
  have hlisted : winner ∈ recoveryHashes := by simpa [hwh] using (List.mem_filter.1 hmem).2
  refine ⟨w, hwh, hw, ?_⟩
  have hsub : (cs.filter fun e => e.eventHash == winner) =
      (cs.filter fun e => decide (e.eventHash ∈ recoveryHashes)).filter fun e => e.eventHash == winner := by
    rw [List.filter_filter]
    apply List.filter_congr
    intro e _
    by_cases he : e.eventHash = winner
    · simp [he, hlisted]
    · simp [he]
  rw [hsub, hw]
  simp [hwh]

/-- each recovered fork drops an event -/
theorem retainWinner_length_lt {events : List ChainedEvent} {recoveryHashes : Finset EventHash} {forkSeq : ℕ}
    {winner : EventHash} (h : (applyChain events).forkedAt = some forkSeq)
    (hr : resolvers events recoveryHashes forkSeq ((applyChain events).head.map ChainedEvent.eventHash) = [winner]) :
    (retainWinner events forkSeq ((applyChain events).head.map ChainedEvent.eventHash) winner).length <
      events.length := by
  obtain ⟨-, hlen, -⟩ := applyChain_forked h
  set k := (applyChain events).forkKey forkSeq with hk
  have hr' := (resolvers_eq events recoveryHashes k).symm.trans hr
  obtain ⟨w, -, -, hw⟩ := filter_winner hr'
  have hdrop : ((candidates position events k).filter fun e => e.eventHash == winner).length <
      (candidates position events k).length := by
    rw [hw]
    exact hlen
  obtain ⟨e, he, hne⟩ := List.length_filter_lt_length_iff_exists.1 hdrop
  obtain ⟨hmem, hpos⟩ := mem_candidates.1 he
  have h1 : e.seq = forkSeq := congrArg Prod.fst hpos
  have h2 : e.prevHash = (applyChain events).head.map ChainedEvent.eventHash := congrArg Prod.snd hpos
  refine List.length_filter_lt_length_iff_exists.2 ⟨e, hmem, ?_⟩
  simpa [h1, h2] using hne

/-- `resolve_identity_chain`, with the recoveries it picked -/
def resolveWithChoices (events : List ChainedEvent) (recoveryHashes : Finset EventHash) :
    ChainOutcome × List EventHash :=
  let outcome := applyChain events
  match _hf : outcome.forkedAt with
  | none => (outcome, [])
  | some forkSeq =>
    let head := outcome.head.map ChainedEvent.eventHash
    match _hr : resolvers events recoveryHashes forkSeq head with
    | [winner] =>
      let r := resolveWithChoices (retainWinner events forkSeq head winner) recoveryHashes
      (r.1, winner :: r.2)
    | _ => (outcome, [])
termination_by events.length
decreasing_by exact retainWinner_length_lt _hf _hr

def resolveIdentityChain (events : List ChainedEvent) (recoveryHashes : Finset EventHash) : ChainOutcome :=
  (resolveWithChoices events recoveryHashes).1

section equations

variable {events : List ChainedEvent} {recoveryHashes : Finset EventHash} {forkSeq : ℕ} {winner : EventHash}

theorem resolveWithChoices_of_open (h : (applyChain events).forkedAt = none) :
    resolveWithChoices events recoveryHashes = (applyChain events, []) := by
  rw [resolveWithChoices]
  dsimp only
  split
  · rfl
  · rename_i hf
    rw [h] at hf
    cases hf

theorem resolveWithChoices_of_forked (h : (applyChain events).forkedAt = some forkSeq)
    (hr : ∀ winner, resolvers events recoveryHashes forkSeq ((applyChain events).head.map ChainedEvent.eventHash) ≠
      [winner]) :
    resolveWithChoices events recoveryHashes = (applyChain events, []) := by
  rw [resolveWithChoices]
  dsimp only
  split
  · rfl
  · rename_i forkSeq' hf
    obtain rfl : forkSeq = forkSeq' := Option.some.inj (h.symm.trans hf)
    split
    · rename_i winner hw
      exact absurd hw (hr winner)
    · rfl

theorem resolveWithChoices_of_recovered (h : (applyChain events).forkedAt = some forkSeq)
    (hr : resolvers events recoveryHashes forkSeq ((applyChain events).head.map ChainedEvent.eventHash) = [winner]) :
    resolveWithChoices events recoveryHashes =
      ((resolveWithChoices (retainWinner events forkSeq ((applyChain events).head.map ChainedEvent.eventHash) winner)
        recoveryHashes).1, winner :: (resolveWithChoices (retainWinner events forkSeq
          ((applyChain events).head.map ChainedEvent.eventHash) winner) recoveryHashes).2) := by
  rw [resolveWithChoices]
  dsimp only
  split
  · rename_i hf
    rw [h] at hf
    cases hf
  · rename_i forkSeq' hf
    obtain rfl : forkSeq = forkSeq' := Option.some.inj (h.symm.trans hf)
    split
    · rename_i winner' hw
      obtain rfl : winner = winner' := (List.cons.inj (hr.symm.trans hw)).1
      rfl
    · rename_i hw
      exact absurd hr (hw winner)

end equations

/-- the rule without recoveries agrees with the rule where it chooses -/
theorem choose_of_choose_empty {recoveryHashes : Finset EventHash} {cs : List ChainedEvent} {w : ChainedEvent}
    (h : choose ∅ cs = some w) : choose recoveryHashes cs = some w := by
  cases cs with
  | nil => cases h
  | cons first others =>
    rw [choose_empty] at h
    simp only [choose]
    cases hr : resolveConflict first others with
    | resolved winner => rw [hr] at h; exact h
    | forked candidates => rw [hr] at h; cases h

/-- a replay without recoveries is one with recoveries, up to what happens at its fork -/
theorem chainRun_of_empty {recoveryHashes : Finset EventHash} {events acc : List ChainedEvent}
    {k : ℕ × Option EventHash} {f : Option (ℕ × Option EventHash)} (h : ChainRun ∅ events k acc f)
    (hf : ∀ k', f = some k' → choose recoveryHashes (candidates position events k') = none) :
    ChainRun recoveryHashes events k acc f := by
  induction h with
  | done hc => exact .done hc
  | frozen hne hc => exact .frozen hne (hf _ rfl)
  | step hc hne _ ih => exact .step (choose_of_choose_empty hc) hne (ih hf)

/-- **`resolve_identity_chain` is one replay**: discarding the losers of a recovered fork and starting over gives what
a single pass with the listed recoveries gives -/
theorem resolveIdentityChain_run (events : List ChainedEvent) (recoveryHashes : Finset EventHash) :
    ∃ f, (resolveIdentityChain events recoveryHashes).forkedAt = f.map Prod.fst ∧
      ChainRun recoveryHashes events genesis (resolveIdentityChain events recoveryHashes).accepted f := by
  induction hn : events.length using Nat.strong_induction_on generalizing events with
  | _ n ih =>
    obtain ⟨f, hf, hrun⟩ := applyChain_run events
    cases hfork : (applyChain events).forkedAt with
    | none =>
      obtain rfl : f = none := Option.map_eq_none_iff.1 (hf.symm.trans hfork)
      rw [resolveIdentityChain, resolveWithChoices_of_open hfork]
      exact ⟨none, hfork, chainRun_of_empty hrun (by simp)⟩
    | some forkSeq =>
      obtain ⟨hrun, hlen, hcrit⟩ := applyChain_forked hfork
      set k := (applyChain events).forkKey forkSeq with hk
      have hne : candidates position events k ≠ [] := by
        intro hnil
        rw [hnil] at hlen
        simp at hlen
      have hres := resolvers_eq events recoveryHashes k
      by_cases hr : ∃ winner, resolvers events recoveryHashes k.1 k.2 = [winner]
      · obtain ⟨winner, hr⟩ := hr
        rw [resolveIdentityChain, resolveWithChoices_of_recovered hfork hr]
        obtain ⟨f', hf', hrun'⟩ := ih _ (hn ▸ retainWinner_length_lt hfork hr) _ rfl
        refine ⟨f', hf', ?_⟩
        obtain ⟨w, -, hw, hw'⟩ := filter_winner (hres.symm.trans hr)
        -- the rule chooses the recovery at the fork, before and after its rivals are gone
        have hchoose : ∀ k', choose recoveryHashes (candidates position events k') =
            choose recoveryHashes (candidates position (retainWinner events k.1 k.2 winner) k') := by
          intro k'
          by_cases hk' : k' = k
          · subst hk'
            rw [candidates_retainWinner_self, hw', choose_singleton, choose_of_recovery hcrit hw]
          · rw [candidates_retainWinner_of_ne _ hk']
        have hnil : ∀ k', candidates position events k' = [] ↔
            candidates position (retainWinner events k.1 k.2 winner) k' = [] := by
          intro k'
          by_cases hk' : k' = k
          · subst hk'
            rw [candidates_retainWinner_self, hw']
            simp [hne]
          · rw [candidates_retainWinner_of_ne _ hk']
        exact hrun'.congr_on (fun _ => True) (fun _ _ _ _ => trivial) (fun k' _ => hchoose k') (fun k' _ => hnil k')
          trivial
      · rw [not_exists] at hr
        rw [resolveIdentityChain, resolveWithChoices_of_forked hfork hr]
        refine ⟨some k, hfork, chainRun_of_empty hrun ?_⟩
        intro k' hk'
        obtain rfl := Option.some.inj hk'
        refine (choose_eq_none hne).2 ⟨hlen, hcrit, fun w hw => hr w.eventHash ?_⟩
        rw [hw] at hres
        exact hres

/-- replays with the same result give the same resolution -/
theorem resolveIdentityChain_eq {events : List ChainedEvent} {recoveryHashes : Finset EventHash}
    {acc : List ChainedEvent} {f : Option (ℕ × Option EventHash)} (h : ChainRun recoveryHashes events genesis acc f) :
    resolveIdentityChain events recoveryHashes = ⟨acc, f.map Prod.fst⟩ := by
  obtain ⟨f', hf', hrun⟩ := resolveIdentityChain_run events recoveryHashes
  obtain ⟨hacc, rfl⟩ := hrun.unique h
  rw [← hacc, ← hf']

end Avalon.IdentityChain
