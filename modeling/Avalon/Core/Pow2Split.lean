/-
Splitting a length at the largest power of two strictly below it: the shape of a left-balanced binary tree.

`pow2Below n` is the largest power of two strictly below n (for n ≥ 2). A tree over n leaves has its first
`pow2Below n` leaves on the left and the rest on the right.
- `pow2Below_pos`, `pow2Below_lt`: both sides are non-empty, so recursion on the split terminates.
- `le_two_mul_pow2Below`: the right side is no longer than the left.
- `pow2Below_of_lt`: a shorter length that still reaches past the split has the same split.
- `pow2_induction`: the induction rule every tree argument uses, one case for a single leaf and one for a split.
-/
import Mathlib.Tactic

/-- the largest power of two strictly below n, for n ≥ 2 -/
def pow2Below (n : ℕ) : ℕ := 2 ^ Nat.log2 (n - 1)

theorem pow2Below_pos (n : ℕ) : 0 < pow2Below n := Nat.two_pow_pos _

theorem pow2Below_lt {n : ℕ} (h : 2 ≤ n) : pow2Below n < n := by
  have := Nat.log2_self_le (n := n - 1) (by omega)
  unfold pow2Below
  omega

theorem le_two_mul_pow2Below (n : ℕ) : n ≤ 2 * pow2Below n := by
  have := Nat.lt_log2_self (n := n - 1)
  rw [pow_succ] at this
  unfold pow2Below
  omega

/-- a power of two is the split of every length between itself (excluded) and its double (included) -/
theorem pow2Below_eq {n j : ℕ} (h1 : 2 ^ j < n) (h2 : n ≤ 2 ^ (j + 1)) : pow2Below n = 2 ^ j := by
  have : Nat.log2 (n - 1) = j := by
    rw [Nat.log2_eq_iff (by omega)]
    omega
  rw [pow2Below, this]

theorem pow2Below_two_pow (j : ℕ) : pow2Below (2 ^ (j + 1)) = 2 ^ j :=
  pow2Below_eq (Nat.pow_lt_pow_right (by omega) (by omega)) le_rfl

theorem pow2Below_of_lt {m n : ℕ} (h1 : pow2Below n < m) (h2 : m ≤ n) : pow2Below m = pow2Below n := by
  have h3 := le_two_mul_pow2Below n
  unfold pow2Below at h1 h3 ⊢
  rw [← pow_succ'] at h3
  exact pow2Below_eq h1 (h2.trans h3)

theorem one_le_sub_pow2Below {n : ℕ} (h : 2 ≤ n) : 1 ≤ n - pow2Below n := by
  have := pow2Below_lt h
  omega

/-- **Induction on the split**: one leaf, or the two sides of the split -/
theorem pow2_induction {P : (n : ℕ) → 1 ≤ n → Prop} (one : P 1 le_rfl)
    (split : ∀ (n : ℕ) (hn : 2 ≤ n), P (pow2Below n) (pow2Below_pos n) →
      P (n - pow2Below n) (one_le_sub_pow2Below hn) → P n (by omega)) (n : ℕ) (hn : 1 ≤ n) : P n hn := by
  induction n using Nat.strong_induction_on with
  | _ n ih =>
    rcases Nat.lt_or_ge n 2 with h | h
    · have : n = 1 := by omega
      subst this; exact one
    · have h1 := pow2Below_pos n
      have h2 := pow2Below_lt h
      exact split n h (ih _ h2 h1) (ih _ (by omega) (by omega))
