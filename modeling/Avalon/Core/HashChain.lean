/-
Hash chains: messages that each name the digest of the one before.

A message is a value with its encoding; `prev` is the digest it names. Nothing is asked of the hash function: where two
chains would have to be equal and are not, their encodings show a collision.

- `linked_concat`: a chain grows by a message that names its tip.
- `eq_or_collision_of_tip`: chains of one length, from one start, with one tip, are equal or collide.
-/
import Mathlib.Tactic
import Avalon.Core.Collision

namespace HashChain

open Collision

variable {α β γ : Type} (hash : γ → β) (encode : α → γ) (prev : α → β)

/-- the first message names the start, each further one the digest of the message before -/
def Linked (start : β) : List α → Prop
  | [] => True
  | a :: rest => prev a = start ∧ Linked (hash (encode a)) rest

/-- the digest the next message has to name -/
def tip (start : β) (l : List α) : β := (l.map fun a => hash (encode a)).getLastD start

@[simp] theorem tip_nil (start : β) : tip hash encode start [] = start := rfl

@[simp] theorem tip_cons (start : β) (a : α) (l : List α) :
    tip hash encode start (a :: l) = tip hash encode (hash (encode a)) l := by
  simp only [tip, List.map_cons, List.getLastD_cons]

@[simp] theorem tip_concat (start : β) (l : List α) (a : α) : tip hash encode start (l ++ [a]) = hash (encode a) := by
  simp [tip]

variable {hash encode prev}

theorem linked_concat {start : β} {l : List α} {a : α} :
    Linked hash encode prev start (l ++ [a]) ↔
      Linked hash encode prev start l ∧ prev a = tip hash encode start l := by
  induction l generalizing start with
  | nil => simp [Linked]
  | cons b l ih => simp [Linked, ih, and_assoc]

/-- **The tip pins the chain**: two chains of one length with one start and one tip are equal, or listed encodings
collide -/
theorem eq_or_collision_of_tip (hinj : Function.Injective encode) {start : β} {S : List γ} {l l' : List α}
    (hlen : l.length = l'.length) (hl : Linked hash encode prev start l) (hl' : Linked hash encode prev start l')
    (hS : l.map encode ⊆ S) (hS' : l'.map encode ⊆ S) (htip : tip hash encode start l = tip hash encode start l') :
    l = l' ∨ CollisionIn hash S := by
  -- from the end: equal tips are one message, which names one digest before it
  induction l using List.reverseRecOn generalizing l' with
  | nil =>
    left
    exact (List.length_eq_zero_iff.1 hlen.symm).symm
  | append_singleton l a ih =>
    rcases List.eq_nil_or_concat' l' with rfl | ⟨l', a', rfl⟩
    · simp at hlen
    rw [tip_concat, tip_concat] at htip
    rw [linked_concat] at hl hl'
    rw [List.map_append, List.append_subset] at hS hS'
    rcases eq_or_collision (hS.2 (by simp)) (hS'.2 (by simp)) htip with hmessage | hcol
    · obtain rfl := hinj hmessage
      have hlen' : l.length = l'.length := by simpa using hlen
      rcases ih hlen' hl.1 hl'.1 hS.1 hS'.1 (hl.2.symm.trans hl'.2) with rfl | hcol
      · exact .inl rfl
      · exact .inr hcol
    · exact .inr hcol

end HashChain
