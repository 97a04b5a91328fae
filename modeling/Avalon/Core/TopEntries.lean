/-
Keeping the k greatest entries of a map whose entries only grow. A map is a function to `WithBot T`, ⊥ where nothing is
bound; entries are compared by value, then by key.

Results: `keepTop_sup` (keeping the greatest before more entries are joined in, and again after, is keeping them once),
`mem_drop_iff` (the last k of an ascending list are those that fewer than k others are above), `mem_take_iff` (the first k
are those that at most k, themselves among them, are up to).
-/
import Mathlib.Tactic
import Mathlib.Data.Prod.Lex
import Mathlib.Data.Set.Card
import Mathlib.Order.WithBot

namespace TopEntries

variable {K T : Type} [LinearOrder K] [LinearOrder T]

/-- what entries are compared by -/
def entry (f : K → WithBot T) (x : K) : Lex (WithBot T × K) := toLex (f x, x)

def Above (f : K → WithBot T) (x y : K) : Prop := entry f x < entry f y

/-- fewer than k entries are greater -/
def Among (k : ℕ) (f : K → WithBot T) (x : K) : Prop := {y | Above f x y}.encard < k

open Classical in
noncomputable def keepTop (k : ℕ) (f : K → WithBot T) (x : K) : WithBot T := if Among k f x then f x else ⊥

/-- what is bound -/
def support (f : K → WithBot T) : Set K := {x | f x ≠ ⊥}

omit [LinearOrder K] [LinearOrder T] in
theorem entry_injective (f : K → WithBot T) : Function.Injective (entry f) := by
  intro x y h
  exact congrArg (fun e => (ofLex e).2) h

theorem entry_mono {f g : K → WithBot T} {x : K} (h : f x ≤ g x) : entry f x ≤ entry g x := by
  rcases h.lt_or_eq with hlt | heq
  · exact (Prod.Lex.toLex_lt_toLex.2 (.inl hlt)).le
  · rw [entry, entry, heq]

omit [LinearOrder K] in
theorem support_mono {f g : K → WithBot T} (h : f ≤ g) : support f ⊆ support g := by
  intro x hx hbot
  exact hx (le_bot_iff.1 (hbot ▸ h x))

theorem keepTop_of_among {k : ℕ} {f : K → WithBot T} {x : K} (h : Among k f x) : keepTop k f x = f x := if_pos h

theorem keepTop_of_not_among {k : ℕ} {f : K → WithBot T} {x : K} (h : ¬ Among k f x) : keepTop k f x = ⊥ := if_neg h

theorem keepTop_le (k : ℕ) (f : K → WithBot T) : keepTop k f ≤ f := by
  intro x
  unfold keepTop
  split_ifs
  · exact le_rfl
  · exact bot_le

theorem keepTop_eq_bot {k : ℕ} {f : K → WithBot T} {x : K} (h : f x = ⊥) : keepTop k f x = ⊥ :=
  le_bot_iff.1 (h ▸ keepTop_le k f x)

/-- what is greater than something bound is bound -/
theorem Above.mem_support {f : K → WithBot T} {x y : K} (h : Above f x y) (hx : x ∈ support f) : y ∈ support f := by
  intro hbot
  rcases Prod.Lex.toLex_lt_toLex.1 h with hlt | ⟨heq, -⟩
  · exact not_lt_bot (hbot ▸ hlt)
  · exact hx (heq.trans hbot)

/-- when g keeps x and binds no other key higher, no entry comes above x -/
theorem Among.anti {k : ℕ} {f g : K → WithBot T} (h : g ≤ f) {x : K} (heq : g x = f x) (hx : Among k f x) : Among k g x := by
  refine lt_of_le_of_lt (Set.encard_le_encard ?_) hx
  intro y hy
  have hsame : entry f x = entry g x := by
    rw [entry, entry, heq]
  exact hsame.trans_lt (lt_of_lt_of_le hy (entry_mono (h y)))

/-! ## The greatest of a finite set -/

open Classical in
/-- of k or more keys, k have fewer than k others above them -/
theorem le_card_top (f : K → WithBot T) (s : Finset K) (k : ℕ) (h : k ≤ s.card) :
    k ≤ (s.filter fun y => (s.filter fun z => Above f y z).card < k).card := by
  induction s using Finset.induction_on_max_value (entry f) generalizing k with
  | empty =>
    rw [Finset.card_empty] at h
    omega
  | insert a s ha hmax ih =>
    have habove : ∀ y ∈ s, Above f y a := by
      intro y hy
      refine lt_of_le_of_ne (hmax y hy) fun heq => ha ?_
      exact entry_injective f heq ▸ hy
    rcases k with - | k
    · exact Nat.zero_le _
    · have hk : k ≤ s.card := by
        rw [Finset.card_insert_of_notMem ha] at h
        omega
      -- a has none above it; every other key has one more than in s
      have hsub : insert a (s.filter fun y => (s.filter fun z => Above f y z).card < k) ⊆
          (insert a s).filter fun y => ((insert a s).filter fun z => Above f y z).card < k + 1 := by
        intro y hy
        rcases Finset.mem_insert.1 hy with rfl | hy
        · refine Finset.mem_filter.2 ⟨Finset.mem_insert_self _ _, ?_⟩
          have hnone : (insert y s).filter (fun z => Above f y z) = ∅ := by
            refine Finset.filter_eq_empty_iff.2 fun z hz habove' => ?_
            rcases Finset.mem_insert.1 hz with rfl | hz
            · exact lt_irrefl _ habove'
            · exact lt_asymm habove' (habove z hz)
          rw [hnone]
          exact Nat.succ_pos k
        · obtain ⟨hys, hlt⟩ := Finset.mem_filter.1 hy
          refine Finset.mem_filter.2 ⟨Finset.mem_insert_of_mem hys, ?_⟩
          rw [Finset.filter_insert, if_pos (habove y hys), Finset.card_insert_of_notMem (by simp [ha])]
          omega
      have hcard := Finset.card_le_card hsub
      rw [Finset.card_insert_of_notMem (by simp [ha])] at hcard
      have := ih k hk
      omega

/-- when k entries are above x, k of the kept ones are -/
theorem le_encard_among {k : ℕ} {f : K → WithBot T} (hf : (support f).Finite) {x : K} (hx : x ∈ support f)
    (h : ¬ Among k f x) : (k : ℕ∞) ≤ {y | Above f x y ∧ Among k f y}.encard := by
  classical
  have hfin : {y | Above f x y}.Finite := hf.subset fun y hy => Above.mem_support hy hx
  have hk : k ≤ hfin.toFinset.card := by
    have hle := not_lt.1 h
    rw [hfin.encard_eq_coe_toFinset_card] at hle
    exact_mod_cast hle
  have hcard := le_card_top f hfin.toFinset k hk
  refine le_trans (Nat.cast_le.2 hcard) ?_
  rw [← Set.encard_coe_eq_coe_finsetCard]
  refine Set.encard_le_encard fun y hy => ?_
  obtain ⟨hy, hlt⟩ := Finset.mem_filter.1 hy
  have hxy : Above f x y := hfin.mem_toFinset.1 hy
  refine ⟨hxy, ?_⟩
  -- what is above y is above x, so it was counted
  have hset : {z | Above f y z} = ↑(hfin.toFinset.filter fun z => Above f y z) := by
    ext z
    rw [Finset.mem_coe, Finset.mem_filter, hfin.mem_toFinset]
    exact ⟨fun hz => ⟨lt_trans hxy hz, hz⟩, fun hz => hz.2⟩
  rw [Among, hset, Set.encard_coe_eq_coe_finsetCard]
  exact_mod_cast hlt

/-- no more than k entries are kept -/
theorem encard_support_keepTop_le {k : ℕ} {f : K → WithBot T} (hf : (support f).Finite) :
    (support (keepTop k f)).encard ≤ k := by
  have hfin : (support (keepTop k f)).Finite := hf.subset (support_mono (keepTop_le k f))
  rw [hfin.encard_eq_coe_toFinset_card]
  by_contra hlt
  have hcard : k < hfin.toFinset.card := by exact_mod_cast not_le.1 hlt
  obtain ⟨x, hx, hmin⟩ := Finset.exists_min_image hfin.toFinset (entry f) (Finset.card_pos.1 (Nat.zero_lt_of_lt hcard))
  have hamong : Among k f x := by
    by_contra hnot
    exact hfin.mem_toFinset.1 hx (keepTop_of_not_among hnot)
  -- all the others are above the least one
  have habove : ((hfin.toFinset.erase x : Finset K) : Set K) ⊆ {y | Above f x y} := by
    intro y hy
    obtain ⟨hne, hy⟩ := Finset.mem_erase.1 (Finset.mem_coe.1 hy)
    exact lt_of_le_of_ne (hmin y hy) fun heq => hne (entry_injective f heq).symm
  have hle := Set.encard_le_encard habove
  rw [Set.encard_coe_eq_coe_finsetCard, Finset.card_erase_of_mem hx] at hle
  have hlt := lt_of_le_of_lt hle hamong
  rw [Nat.cast_lt] at hlt
  omega

/-! ## Joining -/

section Joining

variable {k : ℕ} {f g : K → WithBot T}

/-- an entry kept of the join is not lost when f was cut before -/
theorem sup_keepTop_eq {x : K} (h : Among k (f ⊔ g) x) : (keepTop k f ⊔ g) x = (f ⊔ g) x := by
  simp only [Pi.sup_apply]
  rcases le_total (f x) (g x) with hle | hle
  · rw [sup_eq_right.2 hle, sup_eq_right.2 ((keepTop_le k f x).trans hle)]
  · have hamong : Among k f x := h.anti le_sup_left (by rw [Pi.sup_apply, sup_eq_left.2 hle])
    rw [keepTop_of_among hamong]

/-- **Cutting early.** Entries cut before more are joined in would have been cut after, also when they are offered again -/
theorem keepTop_sup (hf : (support f).Finite) (hg : (support g).Finite) :
    keepTop k (keepTop k f ⊔ g) = keepTop k (f ⊔ g) := by
  have hle : keepTop k f ⊔ g ≤ f ⊔ g := sup_le_sup_right (keepTop_le k f) g
  have hsupport : (support (f ⊔ g)).Finite := by
    refine (hf.union hg).subset fun x hx => ?_
    by_contra hnot
    rw [Set.mem_union, not_or] at hnot
    refine hx ?_
    rw [Pi.sup_apply, not_not.1 hnot.1, not_not.1 hnot.2, bot_sup_eq]
  funext x
  by_cases hx : Among k (f ⊔ g) x
  · have heq := sup_keepTop_eq hx
    rw [keepTop_of_among (hx.anti hle heq), keepTop_of_among hx, heq]
  · rw [keepTop_of_not_among hx]
    by_cases hbot : (keepTop k f ⊔ g) x = ⊥
    · exact keepTop_eq_bot hbot
    · refine keepTop_of_not_among ?_
      -- the k kept entries above x in the join are above it here
      refine not_lt.2 (le_trans (le_encard_among hsupport (support_mono hle hbot) hx) (Set.encard_le_encard ?_))
      rintro y ⟨hxy, hy⟩
      have hsame : entry (keepTop k f ⊔ g) y = entry (f ⊔ g) y := by
        rw [entry, entry, sup_keepTop_eq hy]
      exact lt_of_le_of_lt (entry_mono (hle x)) (hsame ▸ hxy)

end Joining

/-! ## Ascending lists -/

/-- the last k of an ascending list -/
theorem mem_drop_iff {α : Type} [LinearOrder α] {l : List α} (h : l.Pairwise (· < ·)) (k : ℕ) {x : α} :
    x ∈ l.drop (l.length - k) ↔ x ∈ l ∧ (l.filter fun y => decide (x < y)).length < k := by
  induction l with
  | nil => simp
  | cons a l ih =>
    obtain ⟨hlt, hl⟩ := List.pairwise_cons.1 h
    have hcount : ∀ y ∈ l, ((a :: l).filter fun z => decide (y < z)) = l.filter fun z => decide (y < z) := by
      intro y hy
      rw [List.filter_cons_of_neg]
      simpa using (hlt y hy).le
    have hfirst : ((a :: l).filter fun z => decide (a < z)) = l := by
      rw [List.filter_cons_of_neg (by simp), List.filter_eq_self]
      intro z hz
      simpa using hlt z hz
    by_cases hk : l.length < k
    · have hall : (a :: l).length - k = 0 := by
        rw [List.length_cons]
        omega
      rw [hall, List.drop_zero]
      refine ⟨fun hx => ⟨hx, lt_of_le_of_lt ?_ hk⟩, fun hx => hx.1⟩
      rcases List.mem_cons.1 hx with rfl | hx
      · rw [hfirst]
      · rw [hcount x hx]
        exact List.length_filter_le _ _
    · have hdrop : (a :: l).length - k = (l.length - k) + 1 := by
        rw [List.length_cons]
        omega
      rw [hdrop, List.drop_succ_cons, ih hl]
      constructor
      · rintro ⟨hx, hlen⟩
        exact ⟨List.mem_cons_of_mem _ hx, by rwa [hcount x hx]⟩
      · rintro ⟨hx, hlen⟩
        rcases List.mem_cons.1 hx with rfl | hx
        · rw [hfirst] at hlen
          omega
        · exact ⟨hx, by rwa [hcount x hx] at hlen⟩

/-- the first k of an ascending list, with a relation that need not be antisymmetric elsewhere -/
theorem mem_take_iff {α : Type} {le : α → α → Prop} [DecidableRel le] {l : List α} (h : l.Pairwise le) (hnodup : l.Nodup)
    (k : ℕ) {x : α} (hx : x ∈ l) (hrefl : le x x) (hanti : ∀ y ∈ l, le x y → le y x → x = y) :
    x ∈ l.take k ↔ (l.filter fun y => decide (le y x)).length ≤ k := by
  rw [← List.take_append_drop k l] at h hnodup hx
  obtain ⟨-, -, hacross⟩ := List.pairwise_append.1 h
  obtain ⟨-, -, hdisj⟩ := List.nodup_append.1 hnodup
  have hfilter : (l.filter fun y => decide (le y x)) =
      ((l.take k).filter fun y => decide (le y x)) ++ (l.drop k).filter fun y => decide (le y x) := by
    rw [← List.filter_append, List.take_append_drop]
  rw [hfilter, List.length_append]
  constructor
  · intro hin
    have hnone : (l.drop k).filter (fun y => decide (le y x)) = [] := by
      rw [List.filter_eq_nil_iff]
      intro y hy hyx
      have hsame := hanti y (List.mem_of_mem_drop hy) (hacross x hin y hy) (of_decide_eq_true hyx)
      exact hdisj x hin y hy hsame
    rw [hnone, List.length_nil, Nat.add_zero]
    exact (List.length_filter_le _ _).trans (List.length_take_le _ _)
  · intro hle
    by_contra hout
    -- then x is behind a full selection, all of it up to x
    have hxdrop : x ∈ l.drop k := (List.mem_append.1 hx).resolve_left hout
    have hfull : (l.take k).filter (fun y => decide (le y x)) = l.take k := by
      rw [List.filter_eq_self]
      exact fun y hy => decide_eq_true (hacross y hy x hxdrop)
    have hlong : k < l.length := by
      by_contra hshort
      rw [List.drop_eq_nil_of_le (not_lt.1 hshort)] at hxdrop
      cases hxdrop
    have hpos : 0 < ((l.drop k).filter fun y => decide (le y x)).length :=
      List.length_pos_of_mem (List.mem_filter.2 ⟨hxdrop, decide_eq_true hrefl⟩)
    rw [hfull, List.length_take, min_eq_left hlong.le] at hle
    omega

end TopEntries
