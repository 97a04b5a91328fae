/-
One value from a list by a binary operation, in two shapes: split at the largest power of two below the length, or
paired level by level with an unpaired last value carried up. The operation is any one, neither associative nor
commutative.

- `splitFold_pairUp`: one level of pairing does not change what the split computes.
- `splitSiblings_pairUp`: on the way up from a leaf, the split meets the leaf's sibling in its level first, where it has
  one, and then what it meets from the pair above.
Both by `pow2_induction`: a split is at an even place unless there are two values, so it cuts no pair.
-/
import Mathlib.Data.Nat.Bitwise
import Mathlib.Tactic
import Avalon.Core.Pow2Split

namespace LayeredFold

variable {α : Type} (f : α → α → α) (e : α)

/-- top down: split at the largest power of two below the length -/
def splitFold : List α → α
  | [] => e
  | [a] => a
  | a :: b :: rest =>
    let k := pow2Below (rest.length + 2)
    f (splitFold ((a :: b :: rest).take k)) (splitFold ((a :: b :: rest).drop k))
termination_by l => l.length
decreasing_by
  · have := pow2Below_lt (n := rest.length + 2) (by omega)
    simp only [List.length_take, List.length_cons]; omega
  · have := pow2Below_pos (rest.length + 2)
    simp only [List.length_drop, List.length_cons]; omega

/-- what the split joins to value m, from the bottom up -/
def splitSiblings (m : ℕ) (l : List α) : List α :=
  if _h : l.length ≤ 1 then []
  else
    let k := pow2Below l.length
    if m < k then splitSiblings m (l.take k) ++ [splitFold f e (l.drop k)]
    else splitSiblings (m - k) (l.drop k) ++ [splitFold f e (l.take k)]
termination_by l.length
decreasing_by
  · have := pow2Below_lt (n := l.length) (by omega)
    simp only [List.length_take]; omega
  · have := pow2Below_pos l.length
    simp only [List.length_drop]; omega

/-- the next level: neighbours joined, an unpaired last value as it is -/
def pairUp : List α → List α
  | a :: b :: rest => f a b :: pairUp rest
  | rest => rest

/-- the other value of m's pair -/
def sibling (m : ℕ) (l : List α) : Option α := l[m ^^^ 1]?

@[simp] theorem pairUp_nil : pairUp f [] = [] := by simp [pairUp]

@[simp] theorem pairUp_singleton (a : α) : pairUp f [a] = [a] := by simp [pairUp]

@[simp] theorem pairUp_cons_cons (a b : α) (rest : List α) : pairUp f (a :: b :: rest) = f a b :: pairUp f rest := by
  rw [pairUp]

theorem length_pairUp (l : List α) : (pairUp f l).length = (l.length + 1) / 2 := by
  fun_induction pairUp f l with
  | case1 a b rest ih => simp only [List.length_cons, ih]; omega
  | case2 rest h =>
    match rest, h with
    | [], _ => simp
    | [_], _ => simp
    | a :: b :: rest, h => exact (h a b rest rfl).elim

theorem xor_one (m : ℕ) : m ^^^ 1 = if m % 2 = 0 then m + 1 else m - 1 := by
  split
  · exact Nat.xor_one_of_even (Nat.even_iff.2 ‹_›)
  · exact Nat.xor_one_of_odd (Nat.odd_iff.2 (by omega))

/-- an even place cuts no pair -/
theorem pairUp_take (k : ℕ) (l : List α) : (pairUp f l).take k = pairUp f (l.take (2 * k)) := by
  induction k generalizing l with
  | zero => simp
  | succ k ih =>
    match l with
    | [] => simp
    | [a] => simp [Nat.mul_succ]
    | a :: b :: rest => simp [Nat.mul_succ, ih rest]

theorem pairUp_drop (k : ℕ) (l : List α) : (pairUp f l).drop k = pairUp f (l.drop (2 * k)) := by
  induction k generalizing l with
  | zero => simp
  | succ k ih =>
    match l with
    | [] => simp
    | [a] => simp [Nat.mul_succ]
    | a :: b :: rest => simp [Nat.mul_succ, ih rest]

theorem splitFold_split {l : List α} (h : 2 ≤ l.length) :
    splitFold f e l =
      f (splitFold f e (l.take (pow2Below l.length))) (splitFold f e (l.drop (pow2Below l.length))) := by
  match l, h with
  | a :: b :: rest, _ => rw [splitFold]; rfl

@[simp] theorem splitFold_singleton (a : α) : splitFold f e [a] = a := by rw [splitFold]

theorem splitSiblings_of_le_one (m : ℕ) {l : List α} (h : l.length ≤ 1) : splitSiblings f e m l = [] := by
  rw [splitSiblings, dif_pos h]

theorem splitSiblings_split (m : ℕ) {l : List α} (h : 2 ≤ l.length) :
    splitSiblings f e m l =
      if m < pow2Below l.length then
        splitSiblings f e m (l.take (pow2Below l.length)) ++ [splitFold f e (l.drop (pow2Below l.length))]
      else splitSiblings f e (m - pow2Below l.length) (l.drop (pow2Below l.length)) ++
        [splitFold f e (l.take (pow2Below l.length))] := by
  rw [splitSiblings, dif_neg (by omega)]

/-- the split of the next level is half the split of this one -/
theorem pow2Below_half {n : ℕ} (h : 3 ≤ n) : pow2Below n = 2 * pow2Below ((n + 1) / 2) := by
  have h1 := pow2Below_lt (n := (n + 1) / 2) (by omega)
  have h2 := le_two_mul_pow2Below ((n + 1) / 2)
  unfold pow2Below at h1 h2 ⊢
  rw [← pow_succ'] at h2 ⊢
  exact pow2Below_eq (by rw [pow_succ']; omega) (by rw [pow_succ']; omega)

theorem splitFold_pairUp (l : List α) : splitFold f e (pairUp f l) = splitFold f e l := by
  rcases Nat.eq_zero_or_pos l.length with h0 | hpos
  · rw [List.length_eq_zero_iff.1 h0, pairUp_nil]
  obtain ⟨n, hn⟩ : ∃ n, l.length = n := ⟨_, rfl⟩
  rw [hn] at hpos
  induction n, hpos using pow2_induction generalizing l with
  | one =>
    obtain ⟨a, rfl⟩ := List.length_eq_one_iff.1 hn
    rw [pairUp_singleton]
  | split n h2 ihl ihr =>
    rcases h2.eq_or_lt with rfl | h3
    · obtain ⟨a, b, rfl⟩ := List.length_eq_two.1 hn
      rw [splitFold_split f e (l := [a, b]) le_rfl]
      simp [show pow2Below 2 = 1 from pow2Below_two_pow 0]
    · have hm := length_pairUp f l
      rw [splitFold_split f e (l := l) (by omega), splitFold_split f e (l := pairUp f l) (by omega), hm, pairUp_take,
        pairUp_drop, ← pow2Below_half (by omega), ihl _ (by simp [hn, (pow2Below_lt h2).le]), ihr _ (by simp [hn])]

theorem sibling_take {m k : ℕ} (hm : m < 2 * k) (l : List α) : sibling m (l.take (2 * k)) = sibling m l := by
  have hx : m ^^^ 1 < 2 * k := by rw [xor_one]; split <;> omega
  rw [sibling, List.getElem?_take_of_lt hx, sibling]

theorem sibling_drop {m k : ℕ} (hm : 2 * k ≤ m) (l : List α) : sibling (m - 2 * k) (l.drop (2 * k)) = sibling m l := by
  have hx : 2 * k + ((m - 2 * k) ^^^ 1) = m ^^^ 1 := by rw [xor_one, xor_one]; split <;> split <;> omega
  rw [sibling, List.getElem?_drop, hx, sibling]

theorem splitSiblings_pairUp {m : ℕ} (l : List α) (hm : m < l.length) :
    splitSiblings f e m l = (sibling m l).toList ++ splitSiblings f e (m / 2) (pairUp f l) := by
  obtain ⟨n, hn⟩ : ∃ n, l.length = n := ⟨_, rfl⟩
  have hpos : 1 ≤ n := by omega
  induction n, hpos using pow2_induction generalizing l m with
  | one =>
    obtain ⟨a, rfl⟩ := List.length_eq_one_iff.1 hn
    obtain rfl : m = 0 := by simpa using hm
    simp [splitSiblings_of_le_one, sibling]
  | split n h2 ihl ihr =>
    rcases h2.eq_or_lt with rfl | h3
    · obtain ⟨a, b, rfl⟩ := List.length_eq_two.1 hn
      rw [splitSiblings_split f e m (l := [a, b]) le_rfl]
      obtain rfl | rfl : m = 0 ∨ m = 1 := by simp at hm; omega
      · simp [show pow2Below 2 = 1 from pow2Below_two_pow 0, splitSiblings_of_le_one, sibling]
      · simp [show pow2Below 2 = 1 from pow2Below_two_pow 0, splitSiblings_of_le_one, sibling]
    · have hp := length_pairUp f l
      have hhalf := pow2Below_half (n := n) (by omega)
      have hlt := pow2Below_lt h2
      rw [splitSiblings_split f e m (l := l) (by omega), splitSiblings_split f e (m / 2) (l := pairUp f l) (by omega), hp,
        pairUp_take, pairUp_drop, splitFold_pairUp, splitFold_pairUp, hn, ← hhalf]
      by_cases hside : m < pow2Below n
      · rw [if_pos hside, if_pos (by omega), ihl (m := m) _ (by simp; omega) (by simp; omega), hhalf,
          sibling_take (by omega), List.append_assoc]
      · have hdiv : m / 2 - pow2Below ((n + 1) / 2) = (m - pow2Below n) / 2 := by omega
        rw [if_neg hside, if_neg (by omega), ihr (m := m - pow2Below n) _ (by simp; omega) (by simp; omega), hdiv]
        conv_lhs => rw [hhalf]
        rw [sibling_drop (by omega), ← hhalf, List.append_assoc]

end LayeredFold
