/-
Replay of linked events.

Every event claims one position (`pos`) and opens the next one (`next`). A replay starts at a root position, gathers the
events that claim it (`candidates`), lets a rule choose one of them, and continues at the position the chosen event
opens. It is done where nobody claims the position and frozen where the rule chooses nobody. The rule sees only the
candidates of one position.

- `Run.unique`: a replay has one result.
- `Run.congr_on`: two event lists on which the rule sees no difference replay alike.
- `Reached`: the positions reached when each reached position may be left over any of its winners; `Run.visits` and
  `Run.reached_pos` say that these are the positions a run passes, when the rule agrees with the winners up to the
  position they open.
- `Run.shared_prefix`: when the position an event opens determines the event, two runs that share an event share
  everything before it.
-/
import Mathlib.Tactic

namespace Replay

variable {ε κ : Type} [DecidableEq κ] {pos next : ε → κ} {choose choose' : List ε → Option ε} {l l' : List ε}

/-- the events that claim a position -/
def candidates (pos : ε → κ) (l : List ε) (k : κ) : List ε := l.filter fun e => decide (pos e = k)

theorem mem_candidates {k : κ} {e : ε} : e ∈ candidates pos l k ↔ e ∈ l ∧ pos e = k := by
  simp [candidates]

/-- a run from a position: the events chosen, in order, and the position where the rule chose nobody -/
inductive Run (pos next : ε → κ) (choose : List ε → Option ε) (l : List ε) : κ → List ε → Option κ → Prop
  | done {k : κ} (h : candidates pos l k = []) : Run pos next choose l k [] none
  | frozen {k : κ} (hne : candidates pos l k ≠ []) (h : choose (candidates pos l k) = none) :
    Run pos next choose l k [] (some k)
  | step {k : κ} {w : ε} {acc : List ε} {f : Option κ} (h : choose (candidates pos l k) = some w)
    (hne : candidates pos l k ≠ []) (tail : Run pos next choose l (next w) acc f) :
    Run pos next choose l k (w :: acc) f

/-- **A replay has one result** -/
theorem Run.unique {k : κ} {acc acc' : List ε} {f f' : Option κ} (h : Run pos next choose l k acc f)
    (h' : Run pos next choose l k acc' f') : acc = acc' ∧ f = f' := by
  induction h generalizing acc' f' with
  | done hc =>
    cases h' with
    | done => exact ⟨rfl, rfl⟩
    | frozen hne => exact absurd hc hne
    | step _ hne => exact absurd hc hne
  | frozen hne hc =>
    cases h' with
    | done hd => exact absurd hd hne
    | frozen => exact ⟨rfl, rfl⟩
    | step hs => rw [hc] at hs; cases hs
  | step hc hne _ ih =>
    cases h' with
    | done hd => exact absurd hd hne
    | frozen _ hf => rw [hc] at hf; cases hf
    | step hs _ tail =>
      rw [hc] at hs
      cases hs
      obtain ⟨rfl, rfl⟩ := ih tail
      exact ⟨rfl, rfl⟩

/-- **Replays depend on what the rule sees.** On a set of positions closed under the chosen events, lists with the same
choices replay alike. -/
theorem Run.congr_on (P : κ → Prop)
    (hnext : ∀ k w, P k → choose (candidates pos l k) = some w → P (next w))
    (hchoose : ∀ k, P k → choose' (candidates pos l' k) = choose (candidates pos l k))
    (hnil : ∀ k, P k → (candidates pos l' k = [] ↔ candidates pos l k = []))
    {k : κ} {acc : List ε} {f : Option κ} (hk : P k) (h : Run pos next choose l k acc f) :
    Run pos next choose' l' k acc f := by
  induction h with
  | done hc => exact .done ((hnil _ hk).2 hc)
  | frozen hne hc => exact .frozen (fun hn => hne ((hnil _ hk).1 hn)) ((hchoose _ hk).trans hc)
  | step hc hne _ ih =>
    exact .step ((hchoose _ hk).trans hc) (fun hn => hne ((hnil _ hk).1 hn)) (ih (hnext _ _ hk hc))

/-! ## The shape of a run -/

/-- the position behind a list of events -/
def endKey (next : ε → κ) : κ → List ε → κ
  | k, [] => k
  | _, w :: acc => endKey next (next w) acc

omit [DecidableEq κ] in
theorem endKey_concat (k : κ) (acc : List ε) (w : ε) : endKey next k (acc ++ [w]) = next w := by
  induction acc generalizing k with
  | nil => rfl
  | cons v acc ih => exact ih (next v)

/-- a run freezes at the position behind its last event -/
theorem Run.frozen_at {k k' : κ} {acc : List ε} (h : Run pos next choose l k acc (some k')) :
    k' = endKey next k acc := by
  generalize hf : some k' = f at h
  induction h with
  | done => cases hf
  | frozen => exact Option.some.inj hf
  | step _ _ _ ih => exact ih hf

/-- nobody claims the position behind a run that is done -/
theorem Run.done_at {k : κ} {acc : List ε} (h : Run pos next choose l k acc none) : candidates pos l (endKey next k acc) = [] := by
  generalize hf : (none : Option κ) = f at h
  induction h with
  | done hd => exact hd
  | frozen => cases hf
  | step _ _ _ ih => exact ih hf

/-- nobody is chosen where a run freezes -/
theorem Run.frozen_choose {k k' : κ} {acc : List ε} (h : Run pos next choose l k acc (some k')) :
    candidates pos l k' ≠ [] ∧ choose (candidates pos l k') = none := by
  generalize hf : some k' = f at h
  induction h with
  | done => cases hf
  | frozen hne hc =>
    obtain rfl := Option.some.inj hf
    exact ⟨hne, hc⟩
  | step _ _ _ ih => exact ih hf

/-- a run splits at each of its events -/
theorem Run.split {k : κ} {before after : List ε} {w : ε} {f : Option κ}
    (h : Run pos next choose l k (before ++ w :: after) f) :
    choose (candidates pos l (endKey next k before)) = some w ∧ Run pos next choose l (next w) after f := by
  induction before generalizing k with
  | nil => cases h with | step hc _ tail => exact ⟨hc, tail⟩
  | cons v before ih => cases h with | step _ _ tail => exact ih tail

/-- a run goes along with any list of events that the rule chooses one after the other -/
theorem Run.follows {k : κ} {acc acc' : List ε} {f : Option κ} (h : Run pos next choose l k acc' f)
    (hchosen : ∀ before w after, acc = before ++ w :: after → choose (candidates pos l (endKey next k before)) = some w)
    (hne : ∀ before w after, acc = before ++ w :: after → candidates pos l (endKey next k before) ≠ []) :
    ∃ rest, acc' = acc ++ rest ∧ Run pos next choose l (endKey next k acc) rest f := by
  induction acc generalizing k acc' with
  | nil => exact ⟨acc', rfl, h⟩
  | cons w acc ih =>
    have hw : choose (candidates pos l k) = some w := hchosen [] w acc rfl
    cases h with
    | done hd => exact absurd hd (hne [] w acc rfl)
    | frozen _ hf =>
      rw [hw] at hf
      cases hf
    | step hs _ tail =>
      rw [hw] at hs
      obtain rfl := Option.some.inj hs
      obtain ⟨rest, rfl, hrun⟩ := ih tail (fun before v after heq => hchosen (w :: before) v after (by rw [heq]; rfl))
        (fun before v after heq => hne (w :: before) v after (by rw [heq]; rfl))
      exact ⟨rest, rfl, hrun⟩

/-- the positions reached from a root over winners -/
inductive Reached (pos next : ε → κ) (wins : ε → Prop) (root : κ) : κ → Prop
  | root : Reached pos next wins root root
  | next {w : ε} (h : Reached pos next wins root (pos w)) (hw : wins w) : Reached pos next wins root (next w)

variable (hmem : ∀ {cs : List ε} {w : ε}, choose cs = some w → w ∈ cs)
include hmem

theorem Run.pos_eq {k : κ} {before after : List ε} {w : ε} {f : Option κ}
    (h : Run pos next choose l k (before ++ w :: after) f) : pos w = endKey next k before :=
  (mem_candidates.1 (hmem h.split.1)).2

/-- a chosen event is the choice at the position it claims -/
theorem Run.chosen {k : κ} {acc : List ε} {w : ε} {f : Option κ} (h : Run pos next choose l k acc f) (hw : w ∈ acc) :
    choose (candidates pos l (pos w)) = some w := by
  obtain ⟨before, after, rfl⟩ := List.append_of_mem hw
  rw [h.pos_eq hmem]
  exact h.split.1

/-- **Shared prefix.** When the position an event opens determines it and no event opens the root, runs that share an
event share everything before it. -/
theorem Run.shared_prefix {root : κ} {before before' after after' : List ε} {w : ε} {f f' : Option κ}
    (h : Run pos next choose l root (before ++ w :: after) f)
    (h' : Run pos next choose l' root (before' ++ w :: after') f') (hroot : ∀ e, next e ≠ root)
    (hinj : ∀ a ∈ before, ∀ b ∈ before', next a = next b → a = b) : before = before' := by
  induction before using List.reverseRecOn generalizing before' w after after' with
  | nil =>
    rcases before'.eq_nil_or_concat with rfl | ⟨q, p, rfl⟩
    · rfl
    · have hpos := (h.pos_eq hmem).symm.trans (h'.pos_eq hmem)
      rw [List.concat_eq_append, endKey_concat] at hpos
      exact absurd hpos.symm (hroot p)
  | append_singleton before p ih =>
    rcases before'.eq_nil_or_concat with rfl | ⟨before', p', rfl⟩
    · have hpos := (h.pos_eq hmem).symm.trans (h'.pos_eq hmem)
      rw [endKey_concat] at hpos
      exact absurd hpos (hroot p)
    · rw [List.concat_eq_append] at h' hinj ⊢
      have hpos := (h.pos_eq hmem).symm.trans (h'.pos_eq hmem)
      rw [endKey_concat, endKey_concat] at hpos
      obtain rfl := hinj p (by simp) p' (by simp) hpos
      rw [List.append_assoc] at h h'
      rw [ih h h' fun a ha b hb => hinj a (by simp [ha]) b (by simp [hb])]

/-! ## Reached positions -/

/-- a run's events claim reached positions -/
theorem Run.reached_pos {wins : ε → Prop} {root k : κ} {acc : List ε} {f : Option κ}
    (hwins : ∀ {k w}, choose (candidates pos l k) = some w → wins w) (hk : Reached pos next wins root k)
    (h : Run pos next choose l k acc f) : ∀ w ∈ acc, Reached pos next wins root (pos w) := by
  induction h with
  | done => simp
  | frozen => simp
  | step hc _ _ ih =>
    have hpos := (mem_candidates.1 (hmem hc)).2
    intro v hv
    rcases List.mem_cons.1 hv with rfl | hv
    · rwa [hpos]
    · exact ih (.next (hpos ▸ hk) (hwins hc)) v hv

/-- **Reached positions are passed** by the run from the root -/
theorem Run.visits {wins : ε → Prop} {root k : κ} {acc : List ε} {f : Option κ}
    (hwins : ∀ {w}, wins w → ∃ w', choose (candidates pos l (pos w)) = some w' ∧ next w' = next w)
    (h : Run pos next choose l root acc f) (hk : Reached pos next wins root k) :
    ∃ before after, acc = before ++ after ∧ endKey next root before = k ∧ Run pos next choose l k after f := by
  induction hk with
  | root => exact ⟨[], acc, rfl, rfl, h⟩
  | @next w _ hw ih =>
    obtain ⟨before, after, rfl, -, hrun⟩ := ih
    obtain ⟨w', hc, hnext⟩ := hwins hw
    cases hrun with
    | done hd =>
      rw [hd] at hc
      exact absurd (hmem hc) List.not_mem_nil
    | frozen _ hf => rw [hc] at hf; cases hf
    | @step _ v after _ hs _ tail =>
      obtain rfl : v = w' := Option.some.inj (hs.symm.trans hc)
      exact ⟨before ++ [v], after, by simp, by rw [endKey_concat, hnext], hnext ▸ tail⟩

end Replay
