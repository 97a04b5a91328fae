/-
What identity-chain resolution guarantees across arrival orders, late arrivals and redelivery
(`crates/protocol/src/identity_chain.rs`, `identity_chain_wire.rs`).

`Leads recoveryHashes events w` says, without running the code, that w is on the chain of the events: it wins its
position, and that position is reached from the genesis position over winners.

Results:
- `order_independence`: with pairwise distinct hashes, every permutation of the events gives the same accepted chain, the
  same fork position and the same recoveries picked.
- `monotonic_permanence`: ordinary edits that arrive late keep every accepted monotonic event exactly when none of them
  displaces a leading event at or before one (`NothingDisplaced`). A late edit that beats an ordinary predecessor does
  displace it: `monotonic_reverted`.
- `redelivery`: repeated events change nothing exactly when no leading event at a position with a critical event is
  repeated (`CriticalOnce`) and ties are broken as before (`FirstKept`). A critical event that arrives twice freezes the
  identity: `redelivery_freezes`.
-/
import Mathlib.Tactic
import Avalon.Core.Replay
import Avalon.Protocol.IdentityChain

namespace Avalon.IdentityChain

open Replay

/-! ## Order independence -/

/-- the hash of an event identifies it -/
def HashesIdentify (events : List ChainedEvent) : Prop :=
  ∀ a ∈ events, ∀ b ∈ events, a.eventHash = b.eventHash → a = b

theorem WinsAmong.perm {recoveryHashes : Finset EventHash} {cs cs' : List ChainedEvent} {w : ChainedEvent}
    (hp : cs.Perm cs') (h : WinsAmong recoveryHashes cs w) : WinsAmong recoveryHashes cs' w := by
  rcases h with rfl | ⟨hcrit, hw, hbest⟩ | ⟨⟨c, hc, hcc⟩, hw⟩
  · exact .inl (List.perm_singleton.1 hp.symm)
  · exact .inr (.inl ⟨fun c hc => hcrit c (hp.mem_iff.2 hc), hp.mem_iff.1 hw, fun c hc => hbest c (hp.mem_iff.2 hc)⟩)
  · refine .inr (.inr ⟨⟨c, hp.mem_iff.1 hc, hcc⟩, ?_⟩)
    have hf := hp.filter fun e => decide (e.eventHash ∈ recoveryHashes)
    rw [hw] at hf
    exact List.perm_singleton.1 hf.symm

/-- the rule does not depend on the order of the candidates -/
theorem choose_perm {recoveryHashes : Finset EventHash} {cs cs' : List ChainedEvent} (hid : HashesIdentify cs)
    (hp : cs.Perm cs') : choose recoveryHashes cs = choose recoveryHashes cs' := by
  cases hc : choose recoveryHashes cs with
  | some w =>
    obtain ⟨v, hv, -, -, hh⟩ := choose_of_winsAmong ((winsAmong_of_choose hc).perm hp)
    rw [hv, hid w (mem_of_choose hc) v (hp.mem_iff.2 (mem_of_choose hv)) hh.symm]
  | none =>
    cases hc' : choose recoveryHashes cs' with
    | none => rfl
    | some v =>
      obtain ⟨w, hw, -⟩ := choose_of_winsAmong ((winsAmong_of_choose hc').perm hp.symm)
      rw [hc] at hw
      cases hw

theorem HashesIdentify.mono {events events' : List ChainedEvent} (h : HashesIdentify events) (hs : events' ⊆ events) :
    HashesIdentify events' :=
  fun a ha b hb hab => h a (hs ha) b (hs hb) hab

theorem hashesIdentify_of_nodup {events : List ChainedEvent} (h : (events.map ChainedEvent.eventHash).Nodup) :
    HashesIdentify events :=
  fun _ ha _ hb hab => List.inj_on_of_nodup_map h ha hb hab

theorem applyChain_perm {events events' : List ChainedEvent} (hid : HashesIdentify events)
    (hp : events.Perm events') : applyChain events = applyChain events' := by
  obtain ⟨f, hf, hrun⟩ := applyChain_run events
  have hcs (k : ℕ × Option EventHash) : (candidates position events k).Perm (candidates position events' k) :=
    hp.filter _
  have hrun' : ChainRun ∅ events' genesis (applyChain events).accepted f := by
    refine hrun.congr_on (fun _ => True) (fun _ _ _ _ => trivial) ?_ ?_ trivial
    · intro k _
      exact (choose_perm (hid.mono (List.filter_subset_self _)) (hcs k)).symm
    · intro k _
      rw [← List.length_eq_zero_iff, ← List.length_eq_zero_iff, (hcs k).length_eq]
  rw [applyChain_eq hrun', ← hf]

theorem resolveWithChoices_perm {recoveryHashes : Finset EventHash} {events events' : List ChainedEvent}
    (hid : HashesIdentify events) (hp : events.Perm events') :
    resolveWithChoices events recoveryHashes = resolveWithChoices events' recoveryHashes := by
  induction hn : events.length using Nat.strong_induction_on generalizing events events' with
  | _ n ih =>
    have happly := applyChain_perm hid hp
    cases hfork : (applyChain events).forkedAt with
    | none => rw [resolveWithChoices_of_open hfork, resolveWithChoices_of_open (happly ▸ hfork), happly]
    | some forkSeq =>
      set head := (applyChain events).head.map ChainedEvent.eventHash with hhead
      have hperm : (resolvers events recoveryHashes forkSeq head).Perm
          (resolvers events' recoveryHashes forkSeq head) := (hp.filter _).map _
      by_cases hr : ∃ winner, resolvers events recoveryHashes forkSeq head = [winner]
      · obtain ⟨winner, hr⟩ := hr
        have hr' := hperm.symm
        rw [hr] at hr'
        have hrec := ih _ (hn ▸ retainWinner_length_lt hfork hr) (hid.mono (List.filter_subset_self _))
          (hp.filter fun e => !(e.seq == forkSeq && e.prevHash == head && e.eventHash != winner)) rfl
        have hfork' : (applyChain events').forkedAt = some forkSeq := happly ▸ hfork
        have heq' := resolveWithChoices_of_recovered hfork' (by rw [← happly]; exact List.perm_singleton.1 hr')
        rw [← happly] at heq'
        rw [resolveWithChoices_of_recovered hfork hr, heq']
        exact congrArg (fun r => (r.1, winner :: r.2)) hrec
      · rw [not_exists] at hr
        have hr' (winner : EventHash) : resolvers events' recoveryHashes forkSeq head ≠ [winner] := by
          intro hw
          rw [hw] at hperm
          exact hr winner (List.perm_singleton.1 hperm)
        rw [resolveWithChoices_of_forked hfork hr, happly]
        exact (resolveWithChoices_of_forked (by rw [← happly]; exact hfork) (by rw [← happly]; exact hr')).symm

/-- **Order independence.** With pairwise distinct event hashes, any two arrival orders give the same accepted chain and
fork position, with and without recoveries, and pick the same recoveries. -/
theorem order_independence (events events' : List ChainedEvent) (recoveryHashes : Finset EventHash)
    (hd : (events.map ChainedEvent.eventHash).Nodup) (hp : events.Perm events') :
    applyChain events = applyChain events' ∧
    resolveIdentityChain events recoveryHashes = resolveIdentityChain events' recoveryHashes ∧
    (resolveWithChoices events recoveryHashes).2 = (resolveWithChoices events' recoveryHashes).2 := by
  have hid := hashesIdentify_of_nodup hd
  have hres : resolveWithChoices events recoveryHashes = resolveWithChoices events' recoveryHashes :=
    resolveWithChoices_perm hid hp
  exact ⟨applyChain_perm hid hp, congrArg Prod.fst hres, congrArg Prod.snd hres⟩

/-- an event with hashes of one repeated byte -/
def event (seq : ℕ) (prev : Option UInt8) (hash : UInt8) (timestamp : ℤ) (actionClass : ActionClass) : ChainedEvent :=
  ⟨seq, prev.map (FixedBytes.replicate 32), FixedBytes.replicate 32 hash, timestamp, actionClass, .authenticatedSession⟩

/-- two key changes race; the guardians approved the second -/
theorem order_independence_recovered_fork :
    (resolveWithChoices [event 1 none 1 10 .chainCritical, event 1 none 2 20 .chainCritical]
      {FixedBytes.replicate 32 2}).2 =
    (resolveWithChoices [event 1 none 2 20 .chainCritical, event 1 none 1 10 .chainCritical]
      {FixedBytes.replicate 32 2}).2 :=
  (order_independence [event 1 none 1 10 .chainCritical, event 1 none 2 20 .chainCritical]
    [event 1 none 2 20 .chainCritical, event 1 none 1 10 .chainCritical] {FixedBytes.replicate 32 2} (by decide)
    (List.Perm.swap _ _ [])).2.2

/-! ## Leading events -/

/-- w wins the position it claims -/
def Wins (recoveryHashes : Finset EventHash) (events : List ChainedEvent) (w : ChainedEvent) : Prop :=
  WinsAmong recoveryHashes (candidates position events (position w)) w

/-- the position is reached from the genesis position over winners -/
def ReachedFrom (recoveryHashes : Finset EventHash) (events : List ChainedEvent) (k : ℕ × Option EventHash) : Prop :=
  Reached position opens (Wins recoveryHashes events) genesis k

/-- w is on the chain of the events -/
def Leads (recoveryHashes : Finset EventHash) (events : List ChainedEvent) (w : ChainedEvent) : Prop :=
  ReachedFrom recoveryHashes events (position w) ∧ Wins recoveryHashes events w

section runs

variable {recoveryHashes : Finset EventHash} {events acc : List ChainedEvent} {f : Option (ℕ × Option EventHash)}
  {w : ChainedEvent}

theorem wins_of_choose {k : ℕ × Option EventHash}
    (h : choose recoveryHashes (candidates position events k) = some w) : Wins recoveryHashes events w := by
  have hpos := (mem_candidates.1 (mem_of_choose h)).2
  rw [Wins, hpos]
  exact winsAmong_of_choose h

/-- accepted events lead -/
theorem leads_of_mem (h : ChainRun recoveryHashes events genesis acc f) (hw : w ∈ acc) :
    Leads recoveryHashes events w :=
  ⟨h.reached_pos mem_of_choose wins_of_choose .root w hw, wins_of_choose (h.chosen mem_of_choose hw)⟩

/-- **Leading events are accepted**, up to an event of the same position, hash, class and timestamp -/
theorem mem_of_leads (h : ChainRun recoveryHashes events genesis acc f) (hw : Leads recoveryHashes events w) :
    ∃ v ∈ acc, choose recoveryHashes (candidates position events (position w)) = some v ∧ position v = position w ∧
      v.actionClass = w.actionClass ∧ v.timestamp = w.timestamp ∧ v.eventHash = w.eventHash := by
  have hopens : ∀ {u}, Wins recoveryHashes events u →
      ∃ u', choose recoveryHashes (candidates position events (position u)) = some u' ∧ opens u' = opens u := by
    intro u hu
    obtain ⟨u', hu', -, -, hhash⟩ := choose_of_winsAmong hu
    have hseq : u'.seq = u.seq := congrArg Prod.fst (mem_candidates.1 (mem_of_choose hu')).2
    exact ⟨u', hu', by rw [opens, opens, hseq, hhash]⟩
  obtain ⟨before, after, rfl, -, hrun⟩ := h.visits mem_of_choose hopens hw.1
  obtain ⟨v, hv, hclass, htime, hhash⟩ := choose_of_winsAmong hw.2
  have hpos := (mem_candidates.1 (mem_of_choose hv)).2
  cases hrun with
  | done hd =>
    rw [hd] at hv
    cases hv
  | frozen _ hf =>
    rw [hf] at hv
    cases hv
  | @step _ u after _ hs _ _ =>
    obtain rfl : u = v := Option.some.inj (hs.symm.trans hv)
    exact ⟨u, by simp, hv, hpos, hclass, htime, hhash⟩

end runs

/-! ## Monotonic events and late ordinary edits -/

/-- every accepted monotonic event stays accepted when the late events arrive -/
def Permanent (events late : List ChainedEvent) : Prop :=
  ∀ m ∈ (applyChain events).accepted, m.actionClass = .monotonic → m ∈ (applyChain (events ++ late)).accepted

/-- an ordinary edit at the position of v takes it from v: v is critical, or an ordinary edit that ranks behind -/
def Displaces (o v : ChainedEvent) : Prop :=
  v.actionClass = .chainCritical ∨ (v.actionClass = .ordinaryEdit ∧ sortsBefore v o = false)

/-- no late event displaces a leading event at or before a leading monotonic event -/
def NothingDisplaced (events late : List ChainedEvent) : Prop :=
  ∀ v m, Leads ∅ events v → Leads ∅ events m → m.actionClass = .monotonic → v.seq ≤ m.seq →
    ∀ o ∈ late, position o = position v → ¬ Displaces o v

theorem candidates_append (events late : List ChainedEvent) (k : ℕ × Option EventHash) :
    candidates position (events ++ late) k = candidates position events k ++ candidates position late k :=
  List.filter_append ..

/-- without recoveries a winner is alone or beats its rivals -/
theorem winsAmong_empty {cs : List ChainedEvent} {w : ChainedEvent} (h : WinsAmong ∅ cs w) :
    cs = [w] ∨ ((∀ c ∈ cs, c.actionClass ≠ .chainCritical) ∧ w ∈ cs ∧ ∀ c ∈ cs, Outranks w c) := by
  rcases h with h | h | ⟨-, h⟩
  · exact .inl h
  · exact .inr h
  · simp at h

/-- a winner that is not critical beats its rivals -/
theorem winsAmong_not_critical {cs : List ChainedEvent} {w : ChainedEvent} (h : WinsAmong ∅ cs w)
    (hw : w.actionClass ≠ .chainCritical) :
    (∀ c ∈ cs, c.actionClass ≠ .chainCritical) ∧ w ∈ cs ∧ ∀ c ∈ cs, Outranks w c := by
  rcases winsAmong_empty h with rfl | h
  · simp only [List.mem_singleton, forall_eq]
    exact ⟨hw, trivial, .inr ⟨rfl, sortsBefore_refl w⟩⟩
  · exact h

/-- ordinary edits change nothing for a monotonic winner -/
theorem choose_append_monotonic {cs late : List ChainedEvent} {w : ChainedEvent}
    (hlate : ∀ o ∈ late, o.actionClass = .ordinaryEdit) (hw : choose ∅ cs = some w)
    (hm : w.actionClass = .monotonic) : choose ∅ (cs ++ late) = some w := by
  obtain ⟨hcrit, hmem, -⟩ := winsAmong_not_critical (winsAmong_of_choose hw) (by rw [hm]; decide)
  have htop : topClass cs = .monotonic := topClass_of_mem hmem hm
  have htop' : topClass (cs ++ late) = .monotonic := topClass_of_mem (List.mem_append_left late hmem) hm
  have hnone : (late.filter fun c => c.actionClass == .monotonic) = [] := by
    rw [List.filter_eq_nil_iff]
    intro o ho
    simp [hlate o ho]
  obtain ⟨first, others, rfl⟩ := List.exists_cons_of_ne_nil (List.ne_nil_of_mem hmem)
  have hcrit' : ∀ c ∈ first :: (others ++ late), c.actionClass ≠ .chainCritical := by
    intro c hc
    rcases List.mem_append.1 (List.cons_append ▸ hc : c ∈ (first :: others) ++ late) with hc | hc
    · exact hcrit c hc
    · rw [hlate c hc]; decide
  rw [choose_empty, resolveConflict_of_not_critical hcrit, htop] at hw
  rw [List.cons_append, choose_empty, resolveConflict_of_not_critical hcrit', ← List.cons_append, htop',
    List.filter_append, hnone, List.append_nil]
  exact hw

/-- **One position.** A winner that no late ordinary edit displaces wins again, or an edit of its hash does. -/
theorem choose_append {events late : List ChainedEvent} {k : ℕ × Option EventHash} {w : ChainedEvent}
    (hlate : ∀ o ∈ late, o.actionClass = .ordinaryEdit) (hw : choose ∅ (candidates position events k) = some w)
    (hkeep : ∀ o ∈ late, position o = position w → ¬ Displaces o w) :
    ∃ w', choose ∅ (candidates position (events ++ late) k) = some w' ∧ w'.eventHash = w.eventHash ∧
      (w.actionClass = .monotonic → w' = w) := by
  have hpos : position w = k := (mem_candidates.1 (mem_of_choose hw)).2
  have hlate' : ∀ o ∈ candidates position late k, o.actionClass = .ordinaryEdit ∧ ¬ Displaces o w := by
    intro o ho
    obtain ⟨ho, hk⟩ := mem_candidates.1 ho
    exact ⟨hlate o ho, hkeep o ho (hk.trans hpos.symm)⟩
  have hwins := winsAmong_of_choose hw
  rw [candidates_append]
  cases hclass : w.actionClass with
  | monotonic => exact ⟨w, choose_append_monotonic (fun o ho => (hlate' o ho).1) hw hclass, rfl, fun _ => rfl⟩
  | ordinaryEdit =>
    obtain ⟨hcrit, hmem, hbest⟩ := winsAmong_not_critical hwins (by rw [hclass]; decide)
    have hwins' : WinsAmong ∅ (candidates position events k ++ candidates position late k) w := by
      refine .inr (.inl ⟨?_, List.mem_append_left _ hmem, ?_⟩)
      · intro c hc
        rcases List.mem_append.1 hc with hc | hc
        · exact hcrit c hc
        · rw [(hlate' c hc).1]; decide
      · intro c hc
        rcases List.mem_append.1 hc with hc | hc
        · exact hbest c hc
        · obtain ⟨hord, hkeep⟩ := hlate' c hc
          rw [Displaces, hclass] at hkeep
          exact .inr ⟨hclass.trans hord.symm, by simpa using hkeep⟩
    obtain ⟨w', hw', -, -, hhash⟩ := choose_of_winsAmong hwins'
    exact ⟨w', hw', hhash, fun h => by cases h⟩
  | chainCritical =>
    -- a critical winner is alone, and no late event joins it
    have hnil : candidates position late k = [] := by
      rw [List.eq_nil_iff_forall_not_mem]
      exact fun o ho => (hlate' o ho).2 (.inl hclass)
    rw [hnil, List.append_nil]
    exact ⟨w, hw, rfl, fun _ => rfl⟩

/-- the events of a replay have at least the sequence number it starts from -/
theorem le_seq_of_run {recoveryHashes : Finset EventHash} {events acc : List ChainedEvent} {k : ℕ × Option EventHash}
    {f : Option (ℕ × Option EventHash)} (h : ChainRun recoveryHashes events k acc f) : ∀ m ∈ acc, k.1 ≤ m.seq := by
  induction h with
  | done => simp
  | frozen => simp
  | @step k w acc f hc _ _ ih =>
    have hseq : w.seq = k.1 := congrArg Prod.fst (mem_candidates.1 (mem_of_choose hc)).2
    intro m hm
    rcases List.mem_cons.1 hm with rfl | hm
    · exact hseq.ge
    · have := ih m hm
      simp only [opens] at this
      omega

theorem permanent_of_nothingDisplaced {events late : List ChainedEvent}
    (hlate : ∀ o ∈ late, o.actionClass = .ordinaryEdit) (h : NothingDisplaced events late) :
    Permanent events late := by
  obtain ⟨f, -, hrun⟩ := applyChain_run events
  obtain ⟨f', -, hrun'⟩ := applyChain_run (events ++ late)
  have hleads : ∀ v ∈ (applyChain events).accepted, Leads ∅ events v := fun v hv => leads_of_mem hrun hv
  unfold Permanent
  generalize (applyChain events).accepted = acc at hrun hleads ⊢
  generalize (applyChain (events ++ late)).accepted = acc' at hrun' ⊢
  generalize genesis = k at hrun hrun'
  -- both replays pass the same positions up to the monotonic event
  induction hrun generalizing acc' with
  | done => simp
  | frozen => simp
  | @step k w acc f hc hne tail ih =>
    intro m hm hmono
    have hpos : position w = k := (mem_candidates.1 (mem_of_choose hc)).2
    have hle : w.seq ≤ m.seq := by
      rcases List.mem_cons.1 hm with rfl | hm
      · exact le_rfl
      · have := le_seq_of_run tail m hm
        simp only [opens] at this
        omega
    have hkeep := h w m (hleads w List.mem_cons_self) (hleads m hm) hmono hle
    obtain ⟨w', hw', hhash, heq⟩ := choose_append hlate hc hkeep
    have hpos' : position w' = k := (mem_candidates.1 (mem_of_choose hw')).2
    have hseq : w'.seq = w.seq := congrArg Prod.fst (hpos'.trans hpos.symm)
    cases hrun' with
    | done hd => rw [hd] at hw'; cases hw'
    | frozen _ hf => rw [hf] at hw'; cases hw'
    | @step _ u acc' _ hs _ tail' =>
      obtain rfl : u = w' := Option.some.inj (hs.symm.trans hw')
      rcases List.mem_cons.1 hm with rfl | hm
      · rw [heq hmono]
        exact List.mem_cons_self
      · rw [show opens u = opens w by rw [opens, opens, hseq, hhash]] at tail'
        exact List.mem_cons_of_mem u
          (ih (fun v hv => hleads v (List.mem_cons_of_mem w hv)) acc' tail' m hm hmono)

/-- an event that an ordinary edit displaces does not win -/
theorem not_winsAmong_of_displaces {cs : List ChainedEvent} {o v : ChainedEvent} (ho : o ∈ cs)
    (hord : o.actionClass = .ordinaryEdit) (hdis : Displaces o v) : ¬ WinsAmong ∅ cs v := by
  intro hwins
  rcases hdis with hcrit | ⟨hvord, hbehind⟩
  · rcases winsAmong_empty hwins with halone | ⟨hnone, hvmem, -⟩
    · rw [halone, List.mem_singleton] at ho
      rw [ho, hcrit] at hord
      cases hord
    · exact hnone v hvmem hcrit
  · obtain ⟨-, -, hbest⟩ := winsAmong_not_critical hwins (by rw [hvord]; decide)
    rcases hbest o ho with ⟨hvmono, -⟩ | ⟨-, hbefore⟩
    · rw [hvord] at hvmono
      cases hvmono
    · rw [hbehind] at hbefore
      cases hbefore

theorem nothingDisplaced_of_permanent {events late : List ChainedEvent}
    (hlate : ∀ o ∈ late, o.actionClass = .ordinaryEdit) (hid : HashesIdentify (events ++ late))
    (h : Permanent events late) : NothingDisplaced events late := by
  intro v m hv hm hmono hle o ho hpos hdis
  obtain ⟨f, -, hrun⟩ := applyChain_run events
  obtain ⟨f', -, hrun'⟩ := applyChain_run (events ++ late)
  have hmem {w : ChainedEvent} (hw : w ∈ (applyChain events).accepted) : w ∈ events ++ late :=
    List.mem_append_left late (mem_candidates.1 (mem_of_choose (hrun.chosen mem_of_choose hw))).1
  have hmem' {w : ChainedEvent} (hw : w ∈ (applyChain (events ++ late)).accepted) : w ∈ events ++ late :=
    (mem_candidates.1 (mem_of_choose (hrun'.chosen mem_of_choose hw))).1
  have haccepted {w : ChainedEvent} (hw : Leads ∅ events w) : w ∈ (applyChain events).accepted := by
    obtain ⟨u, hu, -, -, -, -, hhash⟩ := mem_of_leads hrun hw
    have hwe : w ∈ events := (mem_candidates.1 hw.2.mem).1
    rwa [← hid u (hmem hu) w (List.mem_append_left late hwe) hhash]
  have hmacc := haccepted hm
  obtain ⟨before, after, hsplit⟩ := List.append_of_mem hmacc
  obtain ⟨before', after', hsplit'⟩ := List.append_of_mem (h m hmacc hmono)
  rw [hsplit] at hrun
  rw [hsplit'] at hrun'
  have hshared : before = before' := by
    refine hrun.shared_prefix mem_of_choose hrun' ?_ ?_
    · intro e he
      exact absurd (congrArg Prod.snd he) (by simp [opens, genesis])
    · intro a ha b hb hab
      refine hid a (hmem ?_) b (hmem' ?_) (Option.some.inj (congrArg Prod.snd hab))
      · rw [hsplit]; exact List.mem_append_left _ ha
      · rw [hsplit']; exact List.mem_append_left _ hb
  -- v is at or before m, so it is accepted among the late events too
  have hvacc : v ∈ before' ++ m :: after' := by
    have hv' := haccepted hv
    rw [hsplit, List.mem_append, List.mem_cons] at hv'
    rcases hv' with hv' | rfl | hv'
    · exact List.mem_append_left _ (hshared ▸ hv')
    · simp
    · have := le_seq_of_run hrun.split.2 v hv'
      simp only [opens] at this
      omega
  have hocand : o ∈ candidates position (events ++ late) (position v) :=
    mem_candidates.2 ⟨List.mem_append_right events ho, hpos⟩
  apply not_winsAmong_of_displaces hocand (hlate o ho) hdis
  exact winsAmong_of_choose (hrun'.chosen mem_of_choose hvacc)

/-- **Permanence of monotonic events.** Late ordinary edits keep every accepted monotonic event when none of them
displaces a leading event at or before a leading monotonic one; and only then, unless two different events carry one
hash. -/
theorem monotonic_permanence (events late : List ChainedEvent) (hlate : ∀ o ∈ late, o.actionClass = .ordinaryEdit) :
    (NothingDisplaced events late → Permanent events late) ∧
    (Permanent events late → NothingDisplaced events late ∨
      ∃ a ∈ events ++ late, ∃ b ∈ events ++ late, a ≠ b ∧ a.eventHash = b.eventHash) := by
  refine ⟨permanent_of_nothingDisplaced hlate, ?_⟩
  intro h
  by_cases hid : HashesIdentify (events ++ late)
  · exact .inl (nothingDisplaced_of_permanent hlate hid h)
  · simp only [HashesIdentify, not_forall] at hid
    obtain ⟨a, ha, b, hb, hhash, hne⟩ := hid
    exact .inr ⟨a, ha, b, hb, hne, hhash⟩

/-- an edit, an edit on top of it, and a reversal on top of that -/
def editedThenReversed : List ChainedEvent :=
  [event 1 none 1 10 .ordinaryEdit, event 2 (some 1) 2 100 .ordinaryEdit, event 3 (some 2) 3 150 .monotonic]

/-- **A merely concurrent edit reverts a monotonic event**: it beats the edit the reversal was built on -/
theorem monotonic_reverted : ¬ ∀ events late : List ChainedEvent,
    (∀ o ∈ late, o.actionClass = .ordinaryEdit) → Permanent events late := by
  intro h
  have hm := h editedThenReversed [event 2 (some 1) 4 200 .ordinaryEdit] (by decide)
    (event 3 (some 2) 3 150 .monotonic) (by decide +kernel) rfl
  revert hm
  decide +kernel

/-- an older edit at the same position reverts nothing -/
theorem monotonic_permanence_older_edit :
    Permanent editedThenReversed [event 2 (some 1) 4 50 .ordinaryEdit] := by
  refine (monotonic_permanence editedThenReversed [event 2 (some 1) 4 50 .ordinaryEdit] (by decide)).1 ?_
  intro v m hv _ _ _ o ho hpos
  have hv' : v ∈ editedThenReversed := (mem_candidates.1 hv.2.mem).1
  obtain rfl := List.mem_singleton.1 ho
  simp only [editedThenReversed, List.mem_cons, List.not_mem_nil, or_false] at hv'
  rcases hv' with rfl | rfl | rfl
  · exact absurd hpos (by decide)
  · unfold Displaces
    decide +kernel
  · exact absurd hpos (by decide)

/-! ## Redelivery -/

/-- the same outcomes on both lists -/
def SameOutcome (recoveryHashes : Finset EventHash) (events delivered : List ChainedEvent) : Prop :=
  applyChain delivered = applyChain events ∧
    resolveIdentityChain delivered recoveryHashes = resolveIdentityChain events recoveryHashes

/-- every leading event at a position with a critical event arrived once -/
def CriticalOnce (recoveryHashes : Finset EventHash) (events delivered : List ChainedEvent) : Prop :=
  ∀ w, Leads recoveryHashes events w → (∃ c ∈ events, position c = position w ∧ c.actionClass = .chainCritical) →
    delivered.count w = 1

/-- two events that differ in nothing but who is authoritative for them -/
def twins (w e : ChainedEvent) : Bool := decide ({ e with authority := w.authority } = w)

/-- of a leading event and its twins, the one that came first still does -/
def FirstKept (recoveryHashes : Finset EventHash) (events delivered : List ChainedEvent) : Prop :=
  ∀ w, Leads recoveryHashes events w → (∀ c ∈ events, position c = position w → c.actionClass ≠ .chainCritical) →
    delivered.find? (twins w) = events.find? (twins w)

/-- a winner without recoveries wins with them -/
theorem leads_of_leads_empty {recoveryHashes : Finset EventHash} {events : List ChainedEvent} {w : ChainedEvent}
    (h : Leads ∅ events w) : Leads recoveryHashes events w := by
  have hwins : ∀ {v}, Wins ∅ events v → Wins recoveryHashes events v := fun hv =>
    (winsAmong_empty hv).imp id .inl
  have hreached : ∀ {k}, ReachedFrom ∅ events k → ReachedFrom recoveryHashes events k := by
    intro k hk
    induction hk with
    | root => exact .root
    | next _ hv ih => exact .next ih (hwins hv)
  exact ⟨hreached h.1, hwins h.2⟩

section redelivery

variable {recoveryHashes : Finset EventHash} {events delivered : List ChainedEvent}

/-- a repeated element of a list of copies -/
theorem eq_singleton_of_count {cs : List ChainedEvent} {w : ChainedEvent} (hall : ∀ c ∈ cs, c = w)
    (hcount : cs.count w = 1) : cs = [w] := by
  rw [List.eq_replicate_of_mem hall] at hcount ⊢
  rw [List.count_replicate_self] at hcount
  rw [hcount]
  rfl

/-- an element that passes a test alone occurs once -/
theorem count_of_filter {cs : List ChainedEvent} {p : ChainedEvent → Bool} {w : ChainedEvent} (h : cs.filter p = [w]) :
    cs.count w = 1 := by
  have hw : p w = true := (List.mem_filter.1 (h ▸ List.mem_cons_self : w ∈ cs.filter p)).2
  rw [← List.count_filter hw, h, List.count_singleton_self]

theorem twins_iff {w e : ChainedEvent} : twins w e = true ↔ position e = position w ∧
    e.actionClass = w.actionClass ∧ e.timestamp = w.timestamp ∧ e.eventHash = w.eventHash := by
  cases w
  cases e
  simp only [twins, position, decide_eq_true_eq, ChainedEvent.mk.injEq, Prod.mk.injEq]
  tauto

/-- twins have the same twins -/
theorem twins_congr {v w : ChainedEvent} (h : twins w v = true) : twins v = twins w := by
  obtain ⟨hpos, hclass, htime, hhash⟩ := twins_iff.1 h
  funext e
  rw [Bool.eq_iff_iff, twins_iff, twins_iff, hpos, hclass, htime, hhash]

theorem find?_candidates (events : List ChainedEvent) (w : ChainedEvent) :
    (candidates position events (position w)).find? (twins w) = events.find? (twins w) := by
  rw [candidates, List.find?_filter]
  congr 1
  funext e
  rw [Bool.eq_iff_iff]
  simp only [decide_eq_true_eq, and_iff_right_iff_imp]
  exact fun h => (twins_iff.1 h).1

/-- where nothing is critical, the chosen event is the first of its twins -/
theorem find?_of_choose {cs : List ChainedEvent} {v : ChainedEvent}
    (hnone : ∀ c ∈ cs, c.actionClass ≠ .chainCritical) (h : choose recoveryHashes cs = some v) :
    cs.find? (twins v) = some v := by
  have hself : twins v v = true := twins_iff.2 ⟨rfl, rfl, rfl, rfl⟩
  obtain ⟨first, others, rfl⟩ := List.exists_cons_of_ne_nil (List.ne_nil_of_mem (mem_of_choose h))
  rw [choose, resolveConflict_of_not_critical hnone] at h
  have hhead := Option.some.inj h
  cases hsorted : sorted ((first :: others).filter fun c => c.actionClass == topClass (first :: others)) with
  | nil =>
    rw [hsorted] at hhead
    obtain rfl : first = v := hhead
    rw [List.find?_cons, hself]
  | cons m rest =>
    rw [hsorted] at hhead
    obtain rfl : m = v := hhead
    have hfirst := find?_head_sorted (congrArg List.head? hsorted)
    rw [List.find?_filter] at hfirst
    obtain ⟨hm, before, after, heq, hbefore⟩ := List.find?_eq_some_iff_append.1 hfirst
    refine List.find?_eq_some_iff_append.2 ⟨hself, before, after, heq, ?_⟩
    intro e he
    -- a twin sorts as the chosen event does
    have hnot := hbefore e he
    contrapose! hnot
    obtain ⟨-, hclass, htime, hhash⟩ := twins_iff.1 (by simpa using hnot)
    simp only [decide_eq_true_eq, beq_iff_eq] at hm ⊢
    simpa [sortsBefore, hclass, htime, hhash] using hm.1

/-- a listed event of the redelivered candidates is one of the candidates -/
theorem mem_filter_of_redelivered {cs cs' : List ChainedEvent} {p : ChainedEvent → Bool} {c : ChainedEvent}
    (hsup : cs' ⊆ cs) (h : c ∈ cs'.filter p) : c ∈ cs.filter p :=
  List.mem_filter.2 ⟨hsup (List.mem_filter.1 h).1, (List.mem_filter.1 h).2⟩

/-- a fork stays a fork -/
theorem choose_redelivered_none {cs cs' : List ChainedEvent} (hsub : cs.Sublist cs') (hsup : cs' ⊆ cs)
    (h : choose recoveryHashes cs = none) : choose recoveryHashes cs' = none := by
  rcases eq_or_ne cs [] with rfl | hne
  · rw [List.subset_nil.1 hsup]
    rfl
  obtain ⟨hlen, ⟨c, hcm, hcc⟩, hnone⟩ := (choose_eq_none hne).1 h
  have hne' : cs' ≠ [] := List.ne_nil_of_mem (hsub.subset hcm)
  refine (choose_eq_none hne').2 ⟨hlen.trans hsub.length_le, ⟨c, hsub.subset hcm, hcc⟩, ?_⟩
  intro w hw
  -- the listed recoveries are the same events: none, or at least two
  have hfilter := hsub.filter fun e => decide (e.eventHash ∈ recoveryHashes)
  rw [hw] at hfilter
  rcases List.sublist_singleton.1 hfilter with hnil | hsingle
  · have hwm := mem_filter_of_redelivered hsup (hw ▸ List.mem_cons_self)
    rw [hnil] at hwm
    cases hwm
  · exact hnone w hsingle

/-- at a position with a critical event, a winner that arrived once stays the winner -/
theorem choose_redelivered_critical {cs cs' : List ChainedEvent} {w : ChainedEvent} (hsub : cs.Sublist cs')
    (hsup : cs' ⊆ cs) (hcrit : ∃ c ∈ cs, c.actionClass = .chainCritical) (hcount : cs'.count w = 1)
    (h : choose recoveryHashes cs = some w) : choose recoveryHashes cs' = some w := by
  obtain ⟨c, hcm, hcc⟩ := hcrit
  rcases winsAmong_of_choose h with halone | ⟨hnone, -, -⟩ | ⟨-, hfilter⟩
  · have hall : ∀ c ∈ cs', c = w := fun c hc => by simpa [halone] using hsup hc
    rw [eq_singleton_of_count hall hcount]
    rfl
  · exact absurd hcc (hnone c hcm)
  · have hlisted := (List.mem_filter.1 (hfilter ▸ List.mem_cons_self : w ∈ cs.filter _)).2
    have hall : ∀ c ∈ cs'.filter (fun e => decide (e.eventHash ∈ recoveryHashes)), c = w := fun c hc =>
      List.mem_singleton.1 (hfilter ▸ mem_filter_of_redelivered hsup hc)
    have honce : (cs'.filter fun e => decide (e.eventHash ∈ recoveryHashes)).count w = 1 :=
      (List.count_filter (p := fun e => decide (e.eventHash ∈ recoveryHashes)) hlisted).trans hcount
    exact choose_of_recovery ⟨c, hsub.subset hcm, hcc⟩ (eq_singleton_of_count hall honce)

/-- where nothing is critical, a winner that came first of its twins stays the winner -/
theorem choose_redelivered_first {cs cs' : List ChainedEvent} {w : ChainedEvent} (hsub : cs.Sublist cs')
    (hsup : cs' ⊆ cs) (hpos : ∀ a ∈ cs, ∀ b ∈ cs, position a = position b)
    (hnone : ∀ c ∈ cs, c.actionClass ≠ .chainCritical) (hfirst : cs'.find? (twins w) = some w)
    (h : choose recoveryHashes cs = some w) : choose recoveryHashes cs' = some w := by
  have hwm := mem_of_choose h
  have hbest : ∀ c ∈ cs, Outranks w c := by
    rcases winsAmong_of_choose h with rfl | ⟨-, -, hbest⟩ | ⟨⟨c, hcm, hcc⟩, -⟩
    · simp only [List.mem_singleton, forall_eq]
      exact .inr ⟨rfl, sortsBefore_refl w⟩
    · exact hbest
    · exact absurd hcc (hnone c hcm)
  obtain ⟨v, hv, hsame⟩ := choose_of_winsAmong (.inr (.inl ⟨fun c hcm => hnone c (hsup hcm),
    hsub.subset hwm, fun c hcm => hbest c (hsup hcm)⟩) : WinsAmong recoveryHashes cs' w)
  have htwin : twins w v = true := twins_iff.2 ⟨hpos v (hsup (mem_of_choose hv)) w hwm, hsame⟩
  have hfirst' := find?_of_choose (fun c hcm => hnone c (hsup hcm)) hv
  rw [twins_congr htwin, hfirst] at hfirst'
  rw [hv, hfirst']

/-- where the conditions hold, both lists replay alike -/
theorem run_redelivered (hsub : events.Sublist delivered) (hsup : delivered ⊆ events)
    (honce : CriticalOnce recoveryHashes events delivered) (hkept : FirstKept recoveryHashes events delivered)
    {acc : List ChainedEvent} {f : Option (ℕ × Option EventHash)}
    (h : ChainRun recoveryHashes events genesis acc f) : ChainRun recoveryHashes delivered genesis acc f := by
  have hsub' (k : ℕ × Option EventHash) :
      (candidates position events k).Sublist (candidates position delivered k) := hsub.filter _
  have hsup' (k : ℕ × Option EventHash) : candidates position delivered k ⊆ candidates position events k := by
    intro c hc
    obtain ⟨hc, hk⟩ := mem_candidates.1 hc
    exact mem_candidates.2 ⟨hsup hc, hk⟩
  refine h.congr_on (ReachedFrom recoveryHashes events) ?_ ?_ ?_ .root
  · intro k w hk hw
    have hpos := (mem_candidates.1 (mem_of_choose hw)).2
    exact .next (hpos ▸ hk) (wins_of_choose hw)
  · intro k hk
    cases hc : choose recoveryHashes (candidates position events k) with
    | none => exact choose_redelivered_none (hsub' k) (hsup' k) hc
    | some w =>
      obtain rfl := (mem_candidates.1 (mem_of_choose hc)).2
      have hw : Leads recoveryHashes events w := ⟨hk, wins_of_choose hc⟩
      by_cases hcrit : ∃ c ∈ candidates position events (position w), c.actionClass = .chainCritical
      · obtain ⟨c, hcm, hcc⟩ := hcrit
        have hcount := honce w hw ⟨c, (mem_candidates.1 hcm).1, (mem_candidates.1 hcm).2, hcc⟩
        rw [← List.count_filter (p := fun e => decide (position e = position w)) (by simp)] at hcount
        exact choose_redelivered_critical (hsub' _) (hsup' _) ⟨c, hcm, hcc⟩ hcount hc
      · have hnone : ∀ c ∈ candidates position events (position w), c.actionClass ≠ .chainCritical :=
          fun c hcm hcc => hcrit ⟨c, hcm, hcc⟩
        have hfirst := hkept w hw fun c hcm hpos => hnone c (mem_candidates.2 ⟨hcm, hpos⟩)
        rw [← find?_candidates events, find?_of_choose hnone hc, ← find?_candidates delivered] at hfirst
        refine choose_redelivered_first (hsub' _) (hsup' _) ?_ hnone hfirst hc
        intro a ha b hb
        exact (mem_candidates.1 ha).2.trans (mem_candidates.1 hb).2.symm
  · intro k _
    constructor
    · exact fun hnil => List.sublist_nil.1 (hnil ▸ hsub' k)
    · exact fun hnil => List.subset_nil.1 (hnil ▸ hsup' k)

theorem sameOutcome_of_criticalOnce (hsub : events.Sublist delivered) (hsup : delivered ⊆ events)
    (honce : CriticalOnce recoveryHashes events delivered) (hkept : FirstKept recoveryHashes events delivered) :
    SameOutcome recoveryHashes events delivered := by
  have honce' : CriticalOnce ∅ events delivered := fun w hw hcrit => honce w (leads_of_leads_empty hw) hcrit
  have hkept' : FirstKept ∅ events delivered := fun w hw hnone => hkept w (leads_of_leads_empty hw) hnone
  obtain ⟨f, hf, hrun⟩ := applyChain_run events
  obtain ⟨g, hg, hrun'⟩ := resolveIdentityChain_run events recoveryHashes
  constructor
  · rw [applyChain_eq (run_redelivered hsub hsup honce' hkept' hrun), ← hf]
  · rw [resolveIdentityChain_eq (run_redelivered hsub hsup honce hkept hrun'), ← hg]

/-- on lists of the same outcome, a leading event or its twin is chosen from both -/
theorem chosen_of_sameOutcome {w : ChainedEvent} (h : SameOutcome recoveryHashes events delivered)
    (hw : Leads recoveryHashes events w) :
    ∃ v, twins w v = true ∧ choose recoveryHashes (candidates position events (position w)) = some v ∧
      choose recoveryHashes (candidates position delivered (position w)) = some v := by
  obtain ⟨f, -, hrun⟩ := resolveIdentityChain_run events recoveryHashes
  obtain ⟨f', -, hrun'⟩ := resolveIdentityChain_run delivered recoveryHashes
  rw [h.2] at hrun'
  obtain ⟨v, hv, hvc, hpos, hsame⟩ := mem_of_leads hrun hw
  exact ⟨v, twins_iff.2 ⟨hpos, hsame⟩, hvc, hpos ▸ hrun'.chosen mem_of_choose hv⟩

theorem criticalOnce_of_sameOutcome (hsub : events.Sublist delivered)
    (h : SameOutcome recoveryHashes events delivered) : CriticalOnce recoveryHashes events delivered := by
  rintro w hw ⟨c, hc, hpos, hcc⟩
  have hcand : c ∈ candidates position events (position w) := mem_candidates.2 ⟨hc, hpos⟩
  have hcand' : c ∈ candidates position delivered (position w) := mem_candidates.2 ⟨hsub.subset hc, hpos⟩
  -- at a position with a critical event the leading event itself is accepted
  have hchosen : choose recoveryHashes (candidates position events (position w)) = some w := by
    rcases hw.2 with halone | ⟨hnone, -, -⟩ | hrecovered
    · rw [halone]
      rfl
    · exact absurd hcc (hnone c hcand)
    · exact choose_of_recovery hrecovered.1 hrecovered.2
  obtain ⟨v, -, hv, hv'⟩ := chosen_of_sameOutcome h hw
  obtain rfl : v = w := Option.some.inj (hv.symm.trans hchosen)
  rcases winsAmong_of_choose hv' with halone | ⟨hnone, -, -⟩ | ⟨-, hfilter⟩
  · exact count_of_filter halone
  · exact absurd hcc (hnone c hcand')
  · have hcount := count_of_filter hfilter
    rwa [candidates, List.count_filter (by simp)] at hcount

theorem firstKept_of_sameOutcome (hsup : delivered ⊆ events) (h : SameOutcome recoveryHashes events delivered) :
    FirstKept recoveryHashes events delivered := by
  intro w hw hnone
  obtain ⟨v, htwin, hv, hv'⟩ := chosen_of_sameOutcome h hw
  have hfirst := find?_of_choose (fun c hc => hnone c (mem_candidates.1 hc).1 (mem_candidates.1 hc).2) hv
  have hfirst' := find?_of_choose (fun c hc => hnone c (hsup (mem_candidates.1 hc).1) (mem_candidates.1 hc).2) hv'
  rw [twins_congr htwin, find?_candidates] at hfirst hfirst'
  rw [hfirst, hfirst']

end redelivery

/-- **Redelivery.** For every list of events and every list with some of its elements repeated, the outcomes agree exactly
when each leading event at a position with a critical event arrived once, and each other leading event still comes first
of those that differ from it in nothing but who is authoritative for them. -/
theorem redelivery (recoveryHashes : Finset EventHash) (events delivered : List ChainedEvent)
    (hsub : events.Sublist delivered) (hsup : delivered ⊆ events) :
    SameOutcome recoveryHashes events delivered ↔
      CriticalOnce recoveryHashes events delivered ∧ FirstKept recoveryHashes events delivered := by
  constructor
  · exact fun h => ⟨criticalOnce_of_sameOutcome hsub h, firstKept_of_sameOutcome hsup h⟩
  · exact fun h => sameOutcome_of_criticalOnce hsub hsup h.1 h.2

/-- **A critical event that arrives twice freezes the identity** -/
theorem redelivery_freezes : ¬ ∀ (recoveryHashes : Finset EventHash) (events delivered : List ChainedEvent),
    events.Sublist delivered → delivered ⊆ events → SameOutcome recoveryHashes events delivered := by
  intro h
  have hsame := (h ∅ [event 1 none 1 10 .chainCritical] [event 1 none 1 10 .chainCritical,
    event 1 none 1 10 .chainCritical] (by simp) (by simp)).1
  revert hsame
  decide +kernel

/-- a repeated ordinary edit changes nothing -/
theorem redelivery_ordinary_edit :
    SameOutcome ∅ [event 1 none 1 10 .ordinaryEdit] [event 1 none 1 10 .ordinaryEdit, event 1 none 1 10 .ordinaryEdit] := by
  refine (redelivery ∅ [event 1 none 1 10 .ordinaryEdit] [event 1 none 1 10 .ordinaryEdit,
    event 1 none 1 10 .ordinaryEdit] (by simp) (by simp)).2 ⟨?_, fun w _ _ => ?_⟩
  · rintro w - ⟨c, hc, -, hcc⟩
    rw [List.mem_singleton.1 hc] at hcc
    cases hcc
  · cases htwin : twins w (event 1 none 1 10 .ordinaryEdit) <;> simp [htwin]

end Avalon.IdentityChain
