/-
The accepted chain (`crates/protocol/src/identity_chain.rs`: `resolve_conflict`, `apply_chain`; `identity_chain_wire.rs`:
`resolve_identity_chain`).

What the two loops return, said without them: the accepted events form one hash-linked chain from the start, each of them wins at its
position, and the chain ends where nobody extends it or where the rule decides nothing. The hashes of the given events are distinct.

Results:
- `runs_from`: a chain in which every event is the choice at its position is a replay.
- `accepted_chain_iff`: `AcceptedChain` describes the outcome of `apply_chain`, and no other outcome.
- `recovered_or_kept`: at a fork one listed recovery is chosen, or the outcome stays as it is.
- `fork_recovery`: what `resolve_identity_chain` makes of a fork.
-/
import Mathlib.Tactic
import Avalon.Core.Replay
import Avalon.Protocol.IdentityChain
import Avalon.Protocol.IdentityChainLaws

namespace Avalon.IdentityChain

open Replay

/-! ## The statement -/

/-- the position behind an outcome: the number of the next event, and the hash it has to name -/
def ChainOutcome.next (o : ChainOutcome) : ℕ × Option EventHash := o.forkKey (o.accepted.length + 1)

/-- the event wins the conflict of these events -/
def WinsConflict (cs : List ChainedEvent) (w : ChainedEvent) : Prop :=
  ∃ first others, cs = first :: others ∧ resolveConflict first others = .resolved w

/-- two different events of which one is critical -/
def Contested (cs : List ChainedEvent) : Prop :=
  ∃ a ∈ cs, ∃ b ∈ cs, a ≠ b ∧ (a.actionClass = .chainCritical ∨ b.actionClass = .chainCritical)

/-- the outcome is the accepted chain of the events -/
structure AcceptedChain (events : List ChainedEvent) (o : ChainOutcome) : Prop where
  /-- numbered from 1, each event names the hash of the one before it -/
  linked : ∀ before w after, o.accepted = before ++ w :: after →
    position w = (before.length + 1, before.getLast?.map ChainedEvent.eventHash)
  wins : ∀ w ∈ o.accepted, WinsConflict (candidates position events (position w)) w
  maximal : candidates position events o.next = [] ∨ o.forkedAt.isSome
  forked : ∀ s, o.forkedAt = some s ↔ s = o.accepted.length + 1 ∧ Contested (candidates position events o.next)

/-- a listed recovery that claims the position -/
def IsRecovery (events : List ChainedEvent) (recoveryHashes : Finset EventHash) (k : ℕ × Option EventHash) (w : ChainedEvent) :
    Prop :=
  w ∈ candidates position events k ∧ w.eventHash ∈ recoveryHashes

/-- the events after an event, over any number of events between them -/
inductive BuildsOn (events : List ChainedEvent) (w : ChainedEvent) : ChainedEvent → Prop
  | next {e : ChainedEvent} : e ∈ events → position e = opens w → BuildsOn events w e
  | later {v e : ChainedEvent} : BuildsOn events w v → e ∈ events → position e = opens v → BuildsOn events w e

open Classical in
noncomputable def building (events : List ChainedEvent) (w : ChainedEvent) : List ChainedEvent :=
  events.filter fun e => decide (BuildsOn events w e)

/-- the resolution of a fork: the accepted chain goes on with the recovery, and then with the resolution of what builds on it -/
def GoesOn (events : List ChainedEvent) (recoveryHashes : Finset EventHash) (before : List ChainedEvent) (w : ChainedEvent)
    (o : ChainOutcome) : Prop :=
  ∃ tail f, o.accepted = before ++ w :: tail ∧ ChainRun recoveryHashes (building events w) (opens w) tail f ∧
    o.forkedAt = f.map Prod.fst

/-! ## Choices -/

variable {events : List ChainedEvent} {recoveryHashes : Finset EventHash}

theorem winsConflict_iff {cs : List ChainedEvent} {w : ChainedEvent} : WinsConflict cs w ↔ choose ∅ cs = some w := by
  cases cs with
  | nil =>
    constructor
    · rintro ⟨first, others, h, -⟩
      cases h
    · intro h
      cases h
  | cons first others =>
    rw [choose_empty]
    constructor
    · rintro ⟨first', others', h, hw⟩
      cases h
      rw [hw]
    · intro h
      refine ⟨first, others, rfl, ?_⟩
      cases hr : resolveConflict first others with
      | resolved winner =>
        rw [hr] at h
        rw [Option.some.inj h]
      | forked cs =>
        rw [hr] at h
        cases h

/-- with distinct hashes, two candidates are different events -/
theorem contested_iff {cs : List ChainedEvent} (hd : (cs.map ChainedEvent.eventHash).Nodup) :
    Contested cs ↔ 2 ≤ cs.length ∧ ∃ c ∈ cs, c.actionClass = .chainCritical := by
  constructor
  · rintro ⟨a, ha, b, hb, hne, hcritical⟩
    constructor
    · by_contra hlt
      obtain ⟨c, rfl⟩ := List.length_eq_one_iff.1 (by have := List.length_pos_of_mem ha; omega : cs.length = 1)
      exact hne ((List.mem_singleton.1 ha).trans (List.mem_singleton.1 hb).symm)
    · rcases hcritical with h | h
      · exact ⟨a, ha, h⟩
      · exact ⟨b, hb, h⟩
  · rintro ⟨hlen, c, hc, hcritical⟩
    -- another candidate stands beside the critical one
    have hother : ∃ b ∈ cs, b ≠ c := by
      by_contra hall
      push Not at hall
      obtain ⟨a, b, rest, rfl⟩ : ∃ a b rest, cs = a :: b :: rest := by
        match cs, hlen with
        | a :: b :: rest, _ => exact ⟨a, b, rest, rfl⟩
      have hsame : a = b := (hall a (by simp)).trans (hall b (by simp)).symm
      rw [hsame, List.map_cons, List.map_cons, List.nodup_cons] at hd
      exact hd.1 List.mem_cons_self
    obtain ⟨b, hb, hne⟩ := hother
    exact ⟨b, hb, c, hc, hne, .inr hcritical⟩

theorem nodup_candidates (hd : (events.map ChainedEvent.eventHash).Nodup) (k : ℕ × Option EventHash) :
    ((candidates position events k).map ChainedEvent.eventHash).Nodup :=
  hd.sublist (List.filter_sublist.map _)

/-- without recoveries the rule chooses nobody exactly where the candidates are contested -/
theorem choose_eq_none_iff_contested {cs : List ChainedEvent} (hd : (cs.map ChainedEvent.eventHash).Nodup) (hne : cs ≠ []) :
    choose ∅ cs = none ↔ Contested cs := by
  rw [choose_eq_none hne, contested_iff hd]
  simp

/-! ## Positions -/

/-- a numbered chain ends at the position behind its last event -/
theorem endKey_linked {acc : List ChainedEvent}
    (h : ∀ before w after, acc = before ++ w :: after →
      position w = (before.length + 1, before.getLast?.map ChainedEvent.eventHash)) :
    endKey opens genesis acc = (acc.length + 1, acc.getLast?.map ChainedEvent.eventHash) := by
  rcases acc.eq_nil_or_concat with rfl | ⟨before, w, rfl⟩
  · rfl
  · rw [List.concat_eq_append] at h ⊢
    have hpos := h before w [] rfl
    have hseq : w.seq = before.length + 1 := congrArg Prod.fst hpos
    rw [endKey_concat, opens, hseq, List.getLast?_concat, List.length_append, List.length_singleton]
    rfl

/-- the events of a run are numbered from 1 and linked -/
theorem linked_of_run {acc : List ChainedEvent} {f : Option (ℕ × Option EventHash)}
    (h : ChainRun recoveryHashes events genesis acc f) : ∀ before w after, acc = before ++ w :: after →
      position w = (before.length + 1, before.getLast?.map ChainedEvent.eventHash) := by
  intro before
  induction hn : before.length using Nat.strong_induction_on generalizing before with
  | _ n ih =>
    intro w after hacc
    rw [hacc] at h
    rw [h.pos_eq mem_of_choose, ← hn]
    apply endKey_linked
    intro before' v after' hbefore
    have hlt : before'.length < n := by
      rw [← hn, hbefore, List.length_append, List.length_cons]
      omega
    exact ih _ hlt before' rfl v (after' ++ w :: after) (by rw [hacc, hbefore, List.append_assoc, List.cons_append])

/-- the position behind the accepted chain of a run -/
theorem endKey_next {o : ChainOutcome} {f : Option (ℕ × Option EventHash)}
    (h : ChainRun recoveryHashes events genesis o.accepted f) : endKey opens genesis o.accepted = o.next :=
  endKey_linked (linked_of_run h)

/-- **Replays from choices.** A list of events in which each is the choice behind those before it is a replay, with the end that the
position behind it has. -/
theorem runs_from {k : ℕ × Option EventHash} {acc : List ChainedEvent} {f : Option (ℕ × Option EventHash)}
    (hchosen : ∀ before w after, acc = before ++ w :: after →
      choose recoveryHashes (candidates position events (endKey opens k before)) = some w)
    (hend : ChainRun recoveryHashes events (endKey opens k acc) [] f) : ChainRun recoveryHashes events k acc f := by
  induction acc generalizing k with
  | nil => exact hend
  | cons w acc ih =>
    have hw : choose recoveryHashes (candidates position events k) = some w := hchosen [] w acc rfl
    refine .step hw (List.ne_nil_of_mem (mem_of_choose hw)) (ih ?_ hend)
    intro before v after hacc
    exact hchosen (w :: before) v after (by rw [hacc]; rfl)

/-! ## The accepted chain -/

theorem accepted_chain (hd : (events.map ChainedEvent.eventHash).Nodup) : AcceptedChain events (applyChain events) := by
  obtain ⟨f, hforked, hrun⟩ := applyChain_run events
  have hnext := endKey_next hrun
  have hcontested := choose_eq_none_iff_contested (nodup_candidates hd (applyChain events).next)
  cases f with
  | none =>
    have hdone := hrun.done_at
    rw [hnext] at hdone
    refine ⟨linked_of_run hrun, fun w hw => winsConflict_iff.2 (hrun.chosen mem_of_choose hw), .inl hdone, ?_⟩
    intro s
    rw [hforked, hdone]
    constructor
    · intro h
      cases h
    · rintro ⟨-, a, ha, -⟩
      cases ha
  | some k =>
    obtain rfl : k = (applyChain events).next := hrun.frozen_at.trans hnext
    obtain ⟨hne, hnone⟩ := hrun.frozen_choose
    refine ⟨linked_of_run hrun, fun w hw => winsConflict_iff.2 (hrun.chosen mem_of_choose hw), .inr (by rw [hforked]; rfl), ?_⟩
    intro s
    rw [hforked, Option.map_some, Option.some_inj]
    constructor
    · rintro rfl
      exact ⟨rfl, (hcontested hne).1 hnone⟩
    · rintro ⟨rfl, -⟩
      rfl

/-- **Accepted chains.** The outcome of `apply_chain` is the accepted chain of the events, and the only one. -/
theorem accepted_chain_iff (events : List ChainedEvent) (hd : (events.map ChainedEvent.eventHash).Nodup) (o : ChainOutcome) :
    o = applyChain events ↔ AcceptedChain events o := by
  constructor
  · rintro rfl
    exact accepted_chain hd
  · intro h
    have hnext : endKey opens genesis o.accepted = o.next := endKey_linked h.linked
    have hchosen : ∀ before w after, o.accepted = before ++ w :: after →
        choose ∅ (candidates position events (endKey opens genesis before)) = some w := by
      intro before w after hacc
      have hbefore : endKey opens genesis before = position w := by
        rw [h.linked before w after hacc]
        apply endKey_linked
        intro before' v after' hsplit
        exact h.linked before' v (after' ++ w :: after) (by rw [hacc, hsplit, List.append_assoc, List.cons_append])
      rw [hbefore]
      exact winsConflict_iff.1 (h.wins w (by rw [hacc]; simp))
    have hcontested := choose_eq_none_iff_contested (nodup_candidates hd o.next)
    cases hforked : o.forkedAt with
    | none =>
      have hdone : candidates position events o.next = [] := h.maximal.resolve_right (by rw [hforked]; simp)
      have hrun : ChainRun ∅ events genesis o.accepted none := runs_from hchosen (hnext ▸ .done hdone)
      rw [applyChain_eq hrun, Option.map_none, ← hforked]
    | some s =>
      obtain ⟨hs, hfork⟩ := (h.forked s).1 hforked
      have hne : candidates position events o.next ≠ [] := by
        obtain ⟨a, ha, -⟩ := hfork
        exact List.ne_nil_of_mem ha
      have hrun : ChainRun ∅ events genesis o.accepted (some o.next) := by
        refine runs_from hchosen ?_
        rw [hnext]
        exact .frozen hne ((hcontested hne).2 hfork)
      have hfst : some o.next.1 = o.forkedAt := by
        rw [hforked, hs]
        rfl
      rw [applyChain_eq hrun, Option.map_some, hfst]

/-- two critical events after the first, and a recovery beside them with an event on top -/
def forkedEvents : List ChainedEvent :=
  [event 1 none 1 0 .chainCritical, event 2 (some 1) 2 1 .chainCritical, event 2 (some 1) 3 1 .chainCritical,
    event 2 (some 1) 4 2 .chainCritical, event 3 (some 4) 5 3 .ordinaryEdit]

theorem accepted_chain_iff_forked_events : AcceptedChain forkedEvents (applyChain forkedEvents) :=
  (accepted_chain_iff forkedEvents (by decide) (applyChain forkedEvents)).1 rfl

/-! ## Fork recovery -/

/-- distinct hashes leave the only recovery alone in the list of recoveries -/
theorem recoveries_eq_singleton_iff (hd : (events.map ChainedEvent.eventHash).Nodup) {k : ℕ × Option EventHash} {w : ChainedEvent} :
    (candidates position events k).filter (fun e => decide (e.eventHash ∈ recoveryHashes)) = [w] ↔
      ∀ v, IsRecovery events recoveryHashes k v ↔ v = w := by
  have hmem : ∀ v, v ∈ (candidates position events k).filter (fun e => decide (e.eventHash ∈ recoveryHashes)) ↔
      IsRecovery events recoveryHashes k v := by
    intro v
    rw [List.mem_filter, decide_eq_true_eq]
    rfl
  constructor
  · intro h v
    rw [← hmem, h, List.mem_singleton]
  · intro h
    have hnodup : ((candidates position events k).filter fun e => decide (e.eventHash ∈ recoveryHashes)).Nodup :=
      (hd.of_map _).sublist (List.filter_sublist.trans List.filter_sublist)
    refine List.perm_singleton.1 ((List.perm_ext_iff_of_nodup hnodup (List.nodup_singleton w)).2 fun v => ?_)
    rw [hmem, h, List.mem_singleton]

/-- behind an event, only what builds on it can be chosen -/
theorem run_building {w : ChainedEvent} {tail : List ChainedEvent} {f : Option (ℕ × Option EventHash)}
    (h : ChainRun recoveryHashes events (opens w) tail f) : ChainRun recoveryHashes (building events w) (opens w) tail f := by
  let behind : ℕ × Option EventHash → Prop := fun k => k = opens w ∨ ∃ v, BuildsOn events w v ∧ k = opens v
  have hbuilds : ∀ k, behind k → ∀ e ∈ events, position e = k → BuildsOn events w e := by
    rintro k (rfl | ⟨v, hv, rfl⟩) e he hpos
    · exact .next he hpos
    · exact .later hv he hpos
  have hsame : ∀ k, behind k → candidates position (building events w) k = candidates position events k := by
    intro k hk
    rw [candidates, building, List.filter_filter]
    refine List.filter_congr fun e he => ?_
    by_cases hpos : position e = k
    · simp [hpos, hbuilds k hk e he hpos]
    · simp [hpos]
  refine h.congr_on behind ?_ (fun k hk => by rw [hsame k hk]) (fun k hk => by rw [hsame k hk]) (.inl rfl)
  intro k v hk hv
  obtain ⟨hmem, hpos⟩ := mem_candidates.1 (mem_of_choose hv)
  exact .inr ⟨v, hbuilds k hk v hmem hpos, rfl⟩

/-- **At a fork** the chain goes on with the only listed recovery, or the outcome stays as it is -/
theorem recovered_or_kept (recoveryHashes : Finset EventHash) (hd : (events.map ChainedEvent.eventHash).Nodup) {s : ℕ}
    (hforked : (applyChain events).forkedAt = some s) :
    (∃ w, (∀ v, IsRecovery events recoveryHashes (applyChain events).next v ↔ v = w) ∧
        GoesOn events recoveryHashes (applyChain events).accepted w (resolveIdentityChain events recoveryHashes)) ∨
      ((¬ ∃! w, IsRecovery events recoveryHashes (applyChain events).next w) ∧
        resolveIdentityChain events recoveryHashes = applyChain events) := by
  obtain ⟨hrun, hlen, hcritical⟩ := applyChain_forked hforked
  have hnext : (applyChain events).forkKey s = (applyChain events).next := hrun.frozen_at.trans (endKey_next hrun)
  rw [hnext] at hrun hlen hcritical
  have hne : candidates position events (applyChain events).next ≠ [] := by
    intro hnil
    rw [hnil] at hlen
    simp at hlen
  by_cases hone : ∃! w, IsRecovery events recoveryHashes (applyChain events).next w
  · left
    obtain ⟨w, hw, honly⟩ := hone
    have hiff : ∀ v, IsRecovery events recoveryHashes (applyChain events).next v ↔ v = w :=
      fun v => ⟨honly v, by rintro rfl; exact hw⟩
    have hchosen : choose recoveryHashes (candidates position events (applyChain events).next) = some w :=
      choose_of_recovery hcritical ((recoveries_eq_singleton_iff hd).2 hiff)
    refine ⟨w, hiff, ?_⟩
    -- the resolution follows the accepted events, then takes the recovery
    obtain ⟨f, hf, hres⟩ := resolveIdentityChain_run events recoveryHashes
    have hfollows : ∀ before v after, (applyChain events).accepted = before ++ v :: after →
        choose ∅ (candidates position events (endKey opens genesis before)) = some v := by
      intro before v after hacc
      have hsplit : ChainRun ∅ events genesis (before ++ v :: after) (some (applyChain events).next) := by
        rw [← hacc]
        exact hrun
      exact hsplit.split.1
    obtain ⟨rest, hrest, hrun'⟩ := hres.follows
      (fun before v after hacc => choose_of_choose_empty (hfollows before v after hacc))
      (fun before v after hacc => List.ne_nil_of_mem (mem_of_choose (hfollows before v after hacc)))
    rw [endKey_next hrun] at hrun'
    cases hrun' with
    | done hd' => exact absurd hd' hne
    | frozen _ hnone =>
      rw [hchosen] at hnone
      cases hnone
    | @step _ v tail _ hv _ htail =>
      obtain rfl : v = w := Option.some.inj (hv.symm.trans hchosen)
      exact ⟨tail, f, hrest, run_building htail, hf⟩
  · right
    refine ⟨hone, ?_⟩
    have hnone : choose recoveryHashes (candidates position events (applyChain events).next) = none := by
      rw [choose_eq_none hne]
      refine ⟨hlen, hcritical, fun w hw => hone ⟨w, ?_, ?_⟩⟩
      · exact ((recoveries_eq_singleton_iff hd).1 hw w).2 rfl
      · exact fun v => ((recoveries_eq_singleton_iff hd).1 hw v).1
    have hsame := resolveIdentityChain_eq (chainRun_of_empty hrun fun k hk => by rwa [← Option.some.inj hk])
    rw [hsame, Option.map_some]
    have hfst : some (applyChain events).next.1 = (applyChain events).forkedAt := by
      rw [hforked, ← hnext]
      rfl
    rw [hfst]

/-- **Fork recovery.** Without a fork nothing changes. At a fork the accepted events stay, and the chain goes on exactly if one listed
recovery extends the last of them: with that recovery, and then with the resolution of the events that build on it. -/
theorem fork_recovery (events : List ChainedEvent) (recoveryHashes : Finset EventHash)
    (hd : (events.map ChainedEvent.eventHash).Nodup) :
    ((applyChain events).forkedAt = none → resolveIdentityChain events recoveryHashes = applyChain events) ∧
    ∀ s, (applyChain events).forkedAt = some s →
      (applyChain events).accepted.length + 1 = s ∧
      (applyChain events).accepted <+: (resolveIdentityChain events recoveryHashes).accepted ∧
      (s ≤ (resolveIdentityChain events recoveryHashes).accepted.length ↔
        ∃! w, IsRecovery events recoveryHashes (applyChain events).next w) ∧
      (∀ w, (∀ v, IsRecovery events recoveryHashes (applyChain events).next v ↔ v = w) →
        GoesOn events recoveryHashes (applyChain events).accepted w (resolveIdentityChain events recoveryHashes)) ∧
      ((¬ ∃! w, IsRecovery events recoveryHashes (applyChain events).next w) →
        resolveIdentityChain events recoveryHashes = applyChain events) := by
  constructor
  · intro h
    rw [resolveIdentityChain, resolveWithChoices_of_open h]
  · intro s hs
    have hlen : (applyChain events).accepted.length + 1 = s := (((accepted_chain hd).forked s).1 hs).1.symm
    refine ⟨hlen, ?_⟩
    rcases recovered_or_kept recoveryHashes hd hs with ⟨w, hiff, hgoes⟩ | ⟨hnot, hsame⟩
    · have hone : ∃! w, IsRecovery events recoveryHashes (applyChain events).next w :=
        ⟨w, (hiff w).2 rfl, fun v => (hiff v).1⟩
      have hlonger := hgoes
      obtain ⟨tail, f, hacc, -, -⟩ := hlonger
      refine ⟨⟨w :: tail, hacc.symm⟩, ⟨fun _ => hone, fun _ => ?_⟩, ?_, fun hnot => absurd hone hnot⟩
      · rw [hacc, List.length_append, List.length_cons]
        omega
      · intro v hv
        obtain rfl : w = v := (hv w).1 ((hiff w).2 rfl)
        exact hgoes
    · rw [hsame]
      refine ⟨List.prefix_refl _, ⟨fun h => ?_, fun h => absurd h hnot⟩, fun w hw => ?_, fun _ => rfl⟩
      · omega
      · exact absurd ⟨w, (hw w).2 rfl, fun v => (hw v).1⟩ hnot

theorem fork_recovery_forked_events :
    GoesOn forkedEvents {FixedBytes.replicate 32 4} (applyChain forkedEvents).accepted (event 2 (some 1) 4 2 .chainCritical)
      (resolveIdentityChain forkedEvents {FixedBytes.replicate 32 4}) := by
  have hd : (forkedEvents.map ChainedEvent.eventHash).Nodup := by decide
  have hforked : (applyChain forkedEvents).forkedAt = some 2 := by decide +kernel
  have hone : (candidates position forkedEvents (applyChain forkedEvents).next).filter
      (fun e => decide (e.eventHash ∈ ({FixedBytes.replicate 32 4} : Finset EventHash))) =
        [event 2 (some 1) 4 2 .chainCritical] := by decide +kernel
  exact ((fork_recovery forkedEvents {FixedBytes.replicate 32 4} hd).2 2 hforked).2.2.2.1 _
    ((recoveries_eq_singleton_iff hd).1 hone)

end Avalon.IdentityChain
