/-
Explicit hash collisions.

Every hash function with fixed-width digests has collisions, so "or a collision exists" says nothing. Here a collision
is found in a given finite list of inputs: `CollisionIn H l` has both colliding inputs in l, and `findCollision H l`
computes them. A reduction lists the inputs that the honest computation and the adversary's run hash, and shows
that a forgery puts a collision in that list.

- `eq_or_collision`: inputs of the list with equal digests are equal, or the list has a collision.
- `collisionIn_iff`: the list has a collision exactly when `findCollision` returns one.
-/
import Mathlib.Tactic

namespace Collision

variable {α β : Type}

/-- two different inputs of the list with the same digest -/
def CollisionIn (H : α → β) (l : List α) : Prop := ∃ x ∈ l, ∃ y ∈ l, x ≠ y ∧ H x = H y

instance [DecidableEq α] [DecidableEq β] (H : α → β) (l : List α) : Decidable (CollisionIn H l) :=
  inferInstanceAs (Decidable (∃ x ∈ l, ∃ y ∈ l, x ≠ y ∧ H x = H y))

/-- the first colliding pair of the list, if it has one -/
def findCollision [DecidableEq α] [DecidableEq β] (H : α → β) (l : List α) : Option (α × α) :=
  (l ×ˢ l).find? fun p => p.1 ≠ p.2 ∧ H p.1 = H p.2

/-- listed inputs with one digest are equal, or collide -/
theorem eq_or_collision {H : α → β} {l : List α} {x y : α} (hx : x ∈ l) (hy : y ∈ l) (h : H x = H y) :
    x = y ∨ CollisionIn H l := by
  by_cases hxy : x = y
  · exact Or.inl hxy
  · exact Or.inr ⟨x, hx, y, hy, hxy, h⟩

/-- **The extractor is exact**: a list with a collision yields one, and what it yields is a collision -/
theorem collisionIn_iff [DecidableEq α] [DecidableEq β] {H : α → β} {l : List α} :
    CollisionIn H l ↔ ∃ x y, findCollision H l = some (x, y) ∧ x ≠ y ∧ H x = H y := by
  constructor
  · rintro ⟨x, hx, y, hy, hne, he⟩
    cases hf : findCollision H l with
    | none =>
      rw [findCollision, List.find?_eq_none] at hf
      exact absurd (by simp [hne, he]) (hf (x, y) (List.mem_product.2 ⟨hx, hy⟩))
    | some p =>
      have hp := List.find?_some hf
      simp only [decide_eq_true_eq] at hp
      exact ⟨p.1, p.2, rfl, hp.1, hp.2⟩
  · rintro ⟨x, y, hf, hne, he⟩
    have hm := List.mem_product.1 (List.mem_of_find?_eq_some hf)
    exact ⟨x, hm.1, y, hm.2, hne, he⟩

end Collision
