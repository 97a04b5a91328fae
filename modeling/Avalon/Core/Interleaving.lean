/-
Calls that run side by side on shared tables, one statement at a time.

A `Program` says how a call starts and what its next statement does: to the tables, given where the other calls are, so that
it can wait for what they hold. A run starts calls, advances any of them, and rolls any of them back, in any order.

`Invariant` is the rule for such runs: a property G of the tables, a property L of each call, and a relation C between any two
calls. A statement may use all of these, and must restore them for its own call and keep L for the others. `inv_run` then
gives G, L and C in every state of every run. `Along` restricts a run to statements that meet a condition when they run.
-/
import Mathlib.Tactic

namespace Interleaving

variable {T P R : Type}

structure State (T P : Type) where
  tables : T
  calls : List P

structure Program (T P R : Type) where
  start : R → P
  /-- the next statement of a call, with the other calls; nothing if it has to wait, or is over -/
  statement : T → List P → P → Option (T × P)
  /-- where a call is after its transaction was rolled back -/
  aborted : P → P

inductive Op (R : Type) where
  | call (request : R)
  | advance (i : ℕ)
  | abort (i : ℕ)

def step (prog : Program T P R) (s : State T P) : Op R → State T P
  | .call request => { s with calls := s.calls ++ [prog.start request] }
  | .advance i =>
    match s.calls[i]? with
    | none => s
    | some p =>
      match prog.statement s.tables (s.calls.eraseIdx i) p with
      | none => s
      | some (tables, p') => ⟨tables, s.calls.set i p'⟩
  | .abort i =>
    match s.calls[i]? with
    | none => s
    | some p => { s with calls := s.calls.set i (prog.aborted p) }

def run (prog : Program T P R) (s : State T P) (ops : List (Op R)) : State T P := ops.foldl (step prog) s

/-- the statement that runs next, if one does, meets the condition -/
def StepMeets (meets : T → List P → P → Prop) (s : State T P) : Op R → Prop
  | .advance i => ∀ p ∈ s.calls[i]?, meets s.tables (s.calls.eraseIdx i) p
  | _ => True

/-- every statement of the run meets the condition in the state it finds -/
def Along (prog : Program T P R) (meets : T → List P → P → Prop) : State T P → List (Op R) → Prop
  | _, [] => True
  | s, op :: ops => StepMeets meets s op ∧ Along prog meets (step prog s op) ops

instance {meets : T → List P → P → Prop} [∀ t others p, Decidable (meets t others p)] (s : State T P) :
    (op : Op R) → Decidable (StepMeets meets s op)
  | .call _ => inferInstanceAs (Decidable True)
  | .abort _ => inferInstanceAs (Decidable True)
  | .advance i => inferInstanceAs (Decidable (∀ p ∈ s.calls[i]?, meets s.tables (s.calls.eraseIdx i) p))

instance decidableAlong (prog : Program T P R) (meets : T → List P → P → Prop)
    [∀ t others p, Decidable (meets t others p)] : (s : State T P) → (ops : List (Op R)) → Decidable (Along prog meets s ops)
  | _, [] => inferInstanceAs (Decidable True)
  | s, op :: ops =>
    have := decidableAlong prog meets (step prog s op) ops
    inferInstanceAs (Decidable (StepMeets meets s op ∧ Along prog meets (step prog s op) ops))

/-- every run meets a condition that always holds -/
theorem along_true (prog : Program T P R) (s : State T P) (ops : List (Op R)) : Along prog (fun _ _ _ => True) s ops := by
  induction ops generalizing s with
  | nil => trivial
  | cons op ops ih =>
    refine ⟨?_, ih _⟩
    cases op with
    | call request => trivial
    | advance i => exact fun _ _ => trivial
    | abort i => trivial

/-- what every statement that meets the condition has to keep -/
structure Invariant (prog : Program T P R) (meets : T → List P → P → Prop) (G : T → Prop) (L : T → P → Prop)
    (C : P → P → Prop) : Prop where
  symm : ∀ p q, C p q → C q p
  start : ∀ t r, G t → L t (prog.start r) ∧ ∀ q, C (prog.start r) q
  aborted : ∀ t p, G t → L t p → L t (prog.aborted p) ∧ ∀ q, C p q → C (prog.aborted p) q
  statement : ∀ t others p t' p', G t → L t p → (∀ q ∈ others, L t q ∧ C p q) → meets t others p →
    prog.statement t others p = some (t', p') → G t' ∧ L t' p' ∧ ∀ q ∈ others, L t' q ∧ C p' q

/-- the invariant of a state -/
structure Inv (G : T → Prop) (L : T → P → Prop) (C : P → P → Prop) (s : State T P) : Prop where
  tables : G s.tables
  calls : ∀ p ∈ s.calls, L s.tables p
  pairs : s.calls.Pairwise C

theorem inv_init {G : T → Prop} {L : T → P → Prop} {C : P → P → Prop} {t : T} (h : G t) : Inv G L C ⟨t, []⟩ :=
  ⟨h, by simp, List.Pairwise.nil⟩

/-- one call, the calls before it and those behind it -/
theorem split_of_getElem? {calls : List P} {i : ℕ} {p : P} (h : calls[i]? = some p) :
    ∃ pre post, calls = pre ++ p :: post ∧ calls.eraseIdx i = pre ++ post ∧ ∀ p', calls.set i p' = pre ++ p' :: post := by
  obtain ⟨hi, rfl⟩ := List.getElem?_eq_some_iff.1 h
  refine ⟨calls.take i, calls.drop (i + 1), ?_, ?_, fun p' => ?_⟩
  · rw [← List.drop_eq_getElem_cons hi, List.take_append_drop]
  · exact List.eraseIdx_eq_take_drop_succ ..
  · rw [List.set_eq_take_append_cons_drop, if_pos hi]

section Rule

variable {prog : Program T P R} {meets : T → List P → P → Prop} {G : T → Prop} {L : T → P → Prop} {C : P → P → Prop}

/-- a call among the others -/
theorem inv_middle (hsymm : ∀ p q, C p q → C q p) {t : T} {pre post : List P} {p : P} :
    Inv G L C ⟨t, pre ++ p :: post⟩ ↔
      G t ∧ L t p ∧ (∀ q ∈ pre ++ post, L t q ∧ C p q) ∧ (pre ++ post).Pairwise C := by
  have hpairs : (pre ++ p :: post).Pairwise C ↔ (∀ q ∈ pre ++ post, C p q) ∧ (pre ++ post).Pairwise C := by
    rw [List.pairwise_middle (fun {p q} => hsymm p q), List.pairwise_cons]
  constructor
  · rintro ⟨hg, hl, hc⟩
    have hc := hpairs.1 hc
    refine ⟨hg, hl p (by simp), fun q hq => ⟨hl q ?_, hc.1 q hq⟩, hc.2⟩
    simp only [List.mem_append, List.mem_cons] at hq ⊢
    tauto
  · rintro ⟨hg, hp, hothers, hc⟩
    refine ⟨hg, fun q hq => ?_, hpairs.2 ⟨fun q hq => (hothers q hq).2, hc⟩⟩
    simp only [List.mem_append, List.mem_cons] at hq
    rcases hq with hq | rfl | hq
    · exact (hothers q (by simp [hq])).1
    · exact hp
    · exact (hothers q (by simp [hq])).1

/-- **Every step keeps the invariant**, if its statement meets the condition -/
theorem inv_step (h : Invariant prog meets G L C) {s : State T P} (hs : Inv G L C s) {op : Op R}
    (hmeets : StepMeets meets s op) : Inv G L C (step prog s op) := by
  obtain ⟨t, calls⟩ := s
  cases op with
  | call request =>
    obtain ⟨hl, hc⟩ := h.start t request hs.tables
    refine (inv_middle h.symm).2 ⟨hs.tables, hl, fun q hq => ⟨hs.calls q (by simpa using hq), hc q⟩, by simpa using hs.pairs⟩
  | advance i =>
    simp only [step]
    cases hi : calls[i]? with
    | none => exact hs
    | some p =>
      obtain ⟨pre, post, rfl, herase, hset⟩ := split_of_getElem? hi
      obtain ⟨hg, hl, hothers, hpairs⟩ := (inv_middle h.symm).1 hs
      have hmeets : meets t (pre ++ post) p := herase ▸ hmeets p hi
      simp only [herase]
      cases hstatement : prog.statement t (pre ++ post) p with
      | none => exact hs
      | some r =>
        obtain ⟨t', p'⟩ := r
        obtain ⟨hg', hl', hothers'⟩ := h.statement t _ p t' p' hg hl hothers hmeets hstatement
        simp only [hset]
        exact (inv_middle h.symm).2 ⟨hg', hl', hothers', hpairs⟩
  | abort i =>
    simp only [step]
    cases hi : calls[i]? with
    | none => exact hs
    | some p =>
      obtain ⟨pre, post, rfl, -, hset⟩ := split_of_getElem? hi
      obtain ⟨hg, hl, hothers, hpairs⟩ := (inv_middle h.symm).1 hs
      obtain ⟨hl', hc'⟩ := h.aborted t p hg hl
      simp only [hset]
      exact (inv_middle h.symm).2 ⟨hg, hl', fun q hq => ⟨(hothers q hq).1, hc' q (hothers q hq).2⟩, hpairs⟩

/-- **Every run keeps the invariant**, if its statements meet the condition -/
theorem inv_run (h : Invariant prog meets G L C) {s : State T P} (hs : Inv G L C s) {ops : List (Op R)}
    (halong : Along prog meets s ops) : Inv G L C (run prog s ops) := by
  induction ops generalizing s with
  | nil => exact hs
  | cons op ops ih => exact ih (inv_step h hs halong.1) halong.2

end Rule

end Interleaving
