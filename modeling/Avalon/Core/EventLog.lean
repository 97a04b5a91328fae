/-
Logs whose every entry was allowed by what stands before it.

- `legal_snoc`: a log grows by an entry that it allows, and only so.
- `Legal.induct`: what the empty log has, and every allowed entry keeps, every legal log has.
- `exists_change`: between a part of a log that has a property and the whole log that has not, an entry changed it.
-/
import Mathlib.Tactic

namespace EventLog

variable {E : Type} {allowed : List E → E → Prop} {log before after : List E} {e : E}

def Legal (allowed : List E → E → Prop) (log : List E) : Prop :=
  ∀ before e after, log = before ++ e :: after → allowed before e

theorem legal_nil : Legal allowed [] := fun before e after heq => by simp at heq

theorem Legal.of_append (h : Legal allowed (before ++ after)) : Legal allowed before := fun b e a heq =>
  h b e (a ++ after) (by simp [heq])

theorem Legal.snoc (h : Legal allowed log) (he : allowed log e) : Legal allowed (log ++ [e]) := by
  intro before e' after heq
  rcases List.eq_nil_or_concat after with rfl | ⟨after, last, rfl⟩
  · obtain ⟨rfl, hlast⟩ := List.append_inj' heq rfl
    cases hlast
    exact he
  · rw [List.concat_eq_append, ← List.cons_append, ← List.append_assoc] at heq
    exact h before e' after (List.append_inj' heq rfl).1

theorem legal_snoc : Legal allowed (log ++ [e]) ↔ Legal allowed log ∧ allowed log e :=
  ⟨fun h => ⟨h.of_append, h log e [] rfl⟩, fun h => h.1.snoc h.2⟩

/-- **What allowed entries keep** -/
theorem Legal.induct {P : List E → Prop} (h : Legal allowed log) (nil : P [])
    (snoc : ∀ log e, Legal allowed log → allowed log e → P log → P (log ++ [e])) : P log := by
  induction log using List.reverseRecOn with
  | nil => exact nil
  | append_singleton log e ih =>
    obtain ⟨hlog, he⟩ := legal_snoc.1 h
    exact snoc log e hlog he (ih hlog)

/-- an entry at which a property of the log is lost -/
theorem exists_change {P : List E → Prop} (hbefore : P before) (hlog : ¬ P (before ++ after)) :
    ∃ mid e rest, after = mid ++ e :: rest ∧ P (before ++ mid) ∧ ¬ P (before ++ mid ++ [e]) := by
  induction after generalizing before with
  | nil => exact absurd (by simpa using hbefore) hlog
  | cons e after ih =>
    by_cases he : P (before ++ [e])
    · obtain ⟨mid, e', rest, rfl, hmid, hchange⟩ := ih he (by simpa using hlog)
      exact ⟨e :: mid, e', rest, rfl, by simpa using hmid, by simpa using hchange⟩
    · exact ⟨[], e, after, rfl, by simpa using hbefore, by simpa using he⟩

end EventLog
