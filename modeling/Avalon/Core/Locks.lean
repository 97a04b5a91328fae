/-
Row locks of calls that run side by side.

A call shares some keys and has others alone until its transaction ends. Calls are compatible if neither has alone what the
other has; `Disciplined` says that a program's statements take only what nobody else is in the way of. `Disciplined.invariant`
is the rule for such a program: any two calls stay compatible, and what a statement must keep may rest on that.
-/
import Mathlib.Tactic
import Avalon.Core.Interleaving

namespace Interleaving

variable {T P R K : Type}

structure Locks (K : Type) where
  shared : List K
  alone : List K

namespace Locks

def none : Locks K := ⟨[], []⟩

/-- neither has alone what the other has -/
def Compatible (a b : Locks K) : Prop := (∀ k ∈ a.alone, k ∉ b.alone ∧ k ∉ b.shared) ∧ ∀ k ∈ b.alone, k ∉ a.shared

theorem Compatible.symm {a b : Locks K} (h : Compatible a b) : Compatible b a :=
  ⟨fun k hk => ⟨fun hka => (h.1 k hka).1 hk, h.2 k hk⟩, fun k hka => (h.1 k hka).2⟩

theorem compatible_none (b : Locks K) : Compatible none b := ⟨by simp [none], by simp [none]⟩

/-- what b has does not keep another call from sharing k -/
def Shareable (b : Locks K) (k : K) : Prop := k ∉ b.alone

/-- what b has does not keep another call from having k alone -/
def Takable (b : Locks K) (k : K) : Prop := k ∉ b.alone ∧ k ∉ b.shared

instance [DecidableEq K] (b : Locks K) (k : K) : Decidable (Shareable b k) := inferInstanceAs (Decidable (k ∉ b.alone))

instance [DecidableEq K] (b : Locks K) (k : K) : Decidable (Takable b k) :=
  inferInstanceAs (Decidable (k ∉ b.alone ∧ k ∉ b.shared))

/-- what a has beyond b was free for it beside c -/
structure Extends (a b c : Locks K) : Prop where
  shared : ∀ k ∈ a.shared, k ∈ b.shared ∨ Shareable c k
  alone : ∀ k ∈ a.alone, k ∈ b.alone ∨ Takable c k

theorem Extends.refl (a c : Locks K) : Extends a a c := ⟨fun _ => .inl, fun _ => .inl⟩

theorem Extends.of_none (a c : Locks K) : Extends none a c := ⟨by simp [none], by simp [none]⟩

theorem Extends.compatible {a b c : Locks K} (h : Extends a b c) (hcompatible : Compatible b c) : Compatible a c := by
  refine ⟨fun k hk => ?_, fun k hk hshared => ?_⟩
  · rcases h.alone k hk with hb | hfree
    · exact hcompatible.1 k hb
    · exact hfree
  · rcases h.shared k hshared with hb | hfree
    · exact hcompatible.2 k hk hb
    · exact hfree hk

end Locks

/-- k may be shared beside the others -/
def Shareable (locks : P → Locks K) (others : List P) (k : K) : Prop := ∀ q ∈ others, (locks q).Shareable k

/-- k may be had alone beside the others -/
def Takable (locks : P → Locks K) (others : List P) (k : K) : Prop := ∀ q ∈ others, (locks q).Takable k

instance [DecidableEq K] (locks : P → Locks K) (others : List P) (k : K) : Decidable (Shareable locks others k) :=
  inferInstanceAs (Decidable (∀ q ∈ others, (locks q).Shareable k))

instance [DecidableEq K] (locks : P → Locks K) (others : List P) (k : K) : Decidable (Takable locks others k) :=
  inferInstanceAs (Decidable (∀ q ∈ others, (locks q).Takable k))

/-- a call begins with no locks, a rollback gives them up, and a statement takes only what is free -/
structure Disciplined (prog : Program T P R) (locks : P → Locks K) : Prop where
  start : ∀ r, locks (prog.start r) = .none
  aborted : ∀ p, locks (prog.aborted p) = .none
  statement : ∀ t others p t' p', prog.statement t others p = some (t', p') →
    ∀ q ∈ others, (locks p').Extends (locks p) (locks q)

theorem Disciplined.compatible {prog : Program T P R} {locks : P → Locks K} (h : Disciplined prog locks) {t t' : T}
    {others : List P} {p p' q : P} (hstep : prog.statement t others p = some (t', p')) (hq : q ∈ others)
    (hcompatible : (locks p).Compatible (locks q)) : (locks p').Compatible (locks q) :=
  (h.statement t others p t' p' hstep q hq).compatible hcompatible

/-- **Locks exclude.** An invariant of the tables, of each call and of any two calls that is kept by statements beside compatible
calls is an invariant with compatible calls -/
theorem Disciplined.invariant {prog : Program T P R} {locks : P → Locks K} (h : Disciplined prog locks)
    {meets : T → List P → P → Prop} {G : T → Prop} {L : T → P → Prop} {C : P → P → Prop} (hsymm : ∀ p q, C p q → C q p)
    (hstart : ∀ t r, G t → L t (prog.start r) ∧ ∀ q, C (prog.start r) q)
    (haborted : ∀ t p, G t → L t p → L t (prog.aborted p) ∧ ∀ q, C p q → C (prog.aborted p) q)
    (hstatement : ∀ t others p t' p', G t → L t p → (∀ q ∈ others, L t q ∧ (locks p).Compatible (locks q) ∧ C p q) →
      meets t others p → prog.statement t others p = some (t', p') →
        G t' ∧ L t' p' ∧ ∀ q ∈ others, (locks p').Compatible (locks q) → L t' q ∧ C p' q) :
    Invariant prog meets G L (fun p q => (locks p).Compatible (locks q) ∧ C p q) where
  symm p q hc := ⟨hc.1.symm, hsymm p q hc.2⟩
  start t r hg := by
    refine ⟨(hstart t r hg).1, fun q => ⟨?_, (hstart t r hg).2 q⟩⟩
    rw [h.start]
    exact Locks.compatible_none _
  aborted t p hg hl := by
    refine ⟨(haborted t p hg hl).1, fun q hc => ⟨?_, (haborted t p hg hl).2 q hc.2⟩⟩
    rw [h.aborted]
    exact Locks.compatible_none _
  statement t others p t' p' hg hl hothers hmeets hstep := by
    obtain ⟨hg', hl', hrest⟩ := hstatement t others p t' p' hg hl hothers hmeets hstep
    have hcompatible : ∀ q ∈ others, (locks p').Compatible (locks q) := fun q hq =>
      h.compatible hstep hq (hothers q hq).2.1
    exact ⟨hg', hl', fun q hq => ⟨(hrest q hq (hcompatible q hq)).1, hcompatible q hq, (hrest q hq (hcompatible q hq)).2⟩⟩

end Interleaving
