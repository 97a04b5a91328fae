/-
Maps as lists of entries in ascending key order, without repeated keys: what an ordered map iterates over.

Results: `insert` and `erase` keep the order, `insertAll_of_perm` (inserting the entries of a map in any order rebuilds
it), `erase_insert` (what was inserted under a new key is taken out again).
-/
import Mathlib.Tactic
import Mathlib.Data.List.Perm.Basic

namespace SortedMap

variable {K V : Type} [LinearOrder K]

/-- the keys ascend, so no key is there twice -/
def Ascending (m : List (K × V)) : Prop := m.Pairwise fun a b => a.1 < b.1

def find (m : List (K × V)) (k : K) : Option V := (m.find? fun e => decide (e.1 = k)).map Prod.snd

/-- the map with k bound to v, whatever it was bound to before -/
def insert (k : K) (v : V) : List (K × V) → List (K × V)
  | [] => [(k, v)]
  | e :: m => if k < e.1 then (k, v) :: e :: m else if k = e.1 then (k, v) :: m else e :: insert k v m

def erase (k : K) (m : List (K × V)) : List (K × V) := m.filter fun e => decide (e.1 ≠ k)

/-- the entries inserted one after the other -/
def insertAll (m : List (K × V)) (entries : List (K × V)) : List (K × V) :=
  entries.foldl (fun m e => insert e.1 e.2 m) m

theorem find_eq_none_iff {m : List (K × V)} {k : K} : find m k = none ↔ k ∉ m.map Prod.fst := by
  simp only [find, Option.map_eq_none_iff, List.find?_eq_none, decide_eq_true_eq, List.mem_map, not_exists, not_and]

theorem mem_of_find {m : List (K × V)} {k : K} {v : V} (h : find m k = some v) : (k, v) ∈ m := by
  obtain ⟨e, he, rfl⟩ := Option.map_eq_some_iff.1 h
  have hk : e.1 = k := by simpa using List.find?_some he
  subst hk
  exact List.mem_of_find?_eq_some he

/-! ## Inserting -/

/-- every key of the map with a binding added is the new one or was there -/
theorem key_of_mem_insert {m : List (K × V)} {k : K} {v : V} {e : K × V} (h : e ∈ insert k v m) :
    e = (k, v) ∨ e ∈ m := by
  induction m with
  | nil => exact .inl (List.mem_singleton.1 h)
  | cons a m ih =>
    rw [insert] at h
    split_ifs at h with h1 h2
    · exact List.mem_cons.1 h
    · rcases List.mem_cons.1 h with h | h
      · exact .inl h
      · exact .inr (List.mem_cons_of_mem _ h)
    · rcases List.mem_cons.1 h with rfl | h
      · exact .inr List.mem_cons_self
      · exact (ih h).imp id (List.mem_cons_of_mem _)

theorem mem_keys_insert {m : List (K × V)} {k k' : K} {v : V} :
    k' ∈ (insert k v m).map Prod.fst ↔ k' = k ∨ k' ∈ m.map Prod.fst := by
  induction m with
  | nil => simp [insert]
  | cons a m ih =>
    rw [insert]
    split_ifs with h1 h2
    · simp
    · subst h2
      simp
    · simp only [List.map_cons, List.mem_cons, ih]
      tauto

theorem ascending_insert {m : List (K × V)} (h : Ascending m) (k : K) (v : V) : Ascending (insert k v m) := by
  induction m with
  | nil => exact List.pairwise_singleton _ _
  | cons a m ih =>
    obtain ⟨hlt, hm⟩ := List.pairwise_cons.1 h
    rw [insert]
    split_ifs with h1 h2
    · refine List.pairwise_cons.2 ⟨?_, h⟩
      intro e he
      rcases List.mem_cons.1 he with rfl | he
      · exact h1
      · exact h1.trans (hlt e he)
    · subst h2
      exact List.pairwise_cons.2 ⟨hlt, hm⟩
    · have hgt : a.1 < k := lt_of_le_of_ne (not_lt.1 h1) (Ne.symm h2)
      refine List.pairwise_cons.2 ⟨?_, ih hm⟩
      intro e he
      rcases key_of_mem_insert he with rfl | he
      · exact hgt
      · exact hlt e he

/-- under a new key nothing is lost -/
theorem perm_insert {m : List (K × V)} {k : K} (v : V) (h : k ∉ m.map Prod.fst) :
    (insert k v m).Perm ((k, v) :: m) := by
  induction m with
  | nil => exact List.Perm.refl _
  | cons a m ih =>
    have hne : k ≠ a.1 := fun he => h (he ▸ List.mem_cons_self)
    have hrest : k ∉ m.map Prod.fst := fun hm => h (List.mem_cons_of_mem _ hm)
    rw [insert]
    split_ifs with h1
    · exact List.Perm.refl _
    · exact ((ih hrest).cons a).trans (List.Perm.swap _ _ _)

/-- entries in ascending order are determined by which they are -/
theorem Ascending.eq_of_perm {m n : List (K × V)} (hm : Ascending m) (hn : Ascending n) (h : m.Perm n) : m = n := by
  refine h.eq_of_pairwise ?_ hm hn
  intro a b _ _ hab hba
  exact absurd hab hba.asymm

theorem insertAll_perm (entries : List (K × V)) {m : List (K × V)} (h : Ascending m)
    (hkeys : ((m ++ entries).map Prod.fst).Nodup) :
    Ascending (insertAll m entries) ∧ (insertAll m entries).Perm (m ++ entries) := by
  induction entries generalizing m with
  | nil => exact ⟨h, by simp [insertAll]⟩
  | cons e entries ih =>
    have hmid : (m ++ e :: entries).Perm ((e :: m) ++ entries) := by
      rw [List.cons_append]
      exact List.perm_middle
    have hkeys' : (((e :: m) ++ entries).map Prod.fst).Nodup := ((hmid.map Prod.fst).nodup_iff).1 hkeys
    have hnew : e.1 ∉ m.map Prod.fst := by
      rw [List.cons_append, List.map_cons, List.nodup_cons, List.map_append, List.mem_append, not_or] at hkeys'
      exact hkeys'.1.1
    have hins := perm_insert e.2 hnew
    have hstep : ((insert e.1 e.2 m ++ entries).map Prod.fst).Nodup :=
      (((hins.append_right entries).map Prod.fst).nodup_iff).2 hkeys'
    obtain ⟨hasc, hperm⟩ := ih (ascending_insert h e.1 e.2) hstep
    exact ⟨hasc, hperm.trans ((hins.append_right entries).trans hmid.symm)⟩

theorem Ascending.nodup_keys {m : List (K × V)} (h : Ascending m) : (m.map Prod.fst).Nodup :=
  List.pairwise_map.2 (h.imp fun hab => hab.ne)

/-- **Order of insertion.** The entries of a map, inserted in any order, give the map. -/
theorem insertAll_of_perm {m entries : List (K × V)} (h : Ascending m) (hperm : entries.Perm m) :
    insertAll [] entries = m := by
  have hkeys : (([] ++ entries).map Prod.fst).Nodup := ((hperm.map Prod.fst).nodup_iff).2 h.nodup_keys
  obtain ⟨hasc, hp⟩ := insertAll_perm entries List.Pairwise.nil hkeys
  exact hasc.eq_of_perm h (hp.trans hperm)

theorem mem_insertAll {entries m : List (K × V)} {e : K × V} (h : e ∈ insertAll m entries) : e ∈ m ∨ e ∈ entries := by
  induction entries generalizing m with
  | nil => exact .inl h
  | cons a entries ih =>
    rcases ih h with h | h
    · rcases key_of_mem_insert h with rfl | h
      · exact .inr List.mem_cons_self
      · exact .inl h
    · exact .inr (List.mem_cons_of_mem _ h)

/-! ## Erasing -/

theorem find_insert_self (m : List (K × V)) (k : K) (v : V) : find (insert k v m) k = some v := by
  induction m with
  | nil => simp [insert, find]
  | cons a m ih =>
    rw [insert]
    split_ifs with h1 h2
    · simp [find]
    · simp [find]
    · have hne : a.1 ≠ k := Ne.symm h2
      rw [find, List.find?_cons_of_neg (by simpa using hne), ← find]
      exact ih

theorem erase_of_notMem {m : List (K × V)} {k : K} (h : k ∉ m.map Prod.fst) : erase k m = m := by
  refine List.filter_eq_self.2 ?_
  intro e he
  exact decide_eq_true fun hk => h (hk ▸ List.mem_map_of_mem he)

/-- **Taking an insertion back.** -/
theorem erase_insert {m : List (K × V)} {k : K} (v : V) (h : k ∉ m.map Prod.fst) : erase k (insert k v m) = m := by
  induction m with
  | nil => simp [insert, erase]
  | cons a m ih =>
    have hne : k ≠ a.1 := fun he => h (he ▸ List.mem_cons_self)
    have hrest : k ∉ m.map Prod.fst := fun hm => h (List.mem_cons_of_mem _ hm)
    rw [insert]
    split_ifs with h1
    · rw [erase, List.filter_cons_of_neg (by simp), ← erase, erase_of_notMem h]
    · rw [erase, List.filter_cons_of_pos (by simpa using hne.symm), ← erase, ih hrest]

theorem notMem_erase (m : List (K × V)) (k : K) : k ∉ (erase k m).map Prod.fst := by
  intro h
  obtain ⟨e, he, rfl⟩ := List.mem_map.1 h
  simpa using (List.mem_filter.1 he).2

end SortedMap
