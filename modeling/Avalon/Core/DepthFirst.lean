/-
Depth-first search with a hop limit, over any node type and any rule that chooses candidates.

The state of a search is the list of nodes entered so far. `choose v entered` gives the candidates of v in order; a
candidate that was entered meanwhile is skipped, a branch that fails leaves its nodes entered.

- `search_entered`: no node is entered twice, whatever the rule and the limit.
- `search_exhausts`: a search that fails has closed what it entered: every neighbour of a node entered by it is entered.
- `search_reaches`: with a limit of at least the number of nodes, and a rule that offers the target or all neighbours not
  entered yet, the search reaches every target that is reachable.
-/
import Mathlib.Tactic

namespace DepthFirst

variable {α : Type} {V : Finset α}

/-- what a search leaves: the nodes entered before, then new ones, none twice, all within bounds -/
structure Extends (V : Finset α) (before after : List α) : Prop where
  initial : before <+: after
  nodup : after.Nodup
  bounded : ∀ u ∈ after, u ∈ V

theorem Extends.trans {a b c : List α} (h : Extends V a b) (h' : Extends V b c) : Extends V a c :=
  ⟨h.initial.trans h'.initial, h'.nodup, h'.bounded⟩

theorem Extends.length_le {a b : List α} (h : Extends V a b) : a.length ≤ b.length := h.initial.length_le

theorem extends_concat {entered : List α} {v : α} (hn : entered.Nodup) (hb : ∀ u ∈ entered, u ∈ V) (hv : v ∈ V)
    (hnew : v ∉ entered) : Extends V entered (entered ++ [v]) := by
  refine ⟨List.prefix_append _ _, ?_, ?_⟩
  · rw [List.nodup_append_comm]
    exact List.nodup_cons.2 ⟨hnew, hn⟩
  · intro u hu
    rcases List.mem_append.1 hu with hu | hu
    · exact hb u hu
    · obtain rfl := List.mem_singleton.1 hu
      exact hv

variable [DecidableEq α]

/-- tries the candidates in order, skips those entered, stops at the first success -/
def tryEach (enter : α → List α → Bool × List α) : List α → List α → Bool × List α
  | [], entered => (false, entered)
  | c :: cs, entered =>
    if c ∈ entered then tryEach enter cs entered
    else
      match enter c entered with
      | (true, entered') => (true, entered')
      | (false, entered') => tryEach enter cs entered'

/-- enters v, then its candidates; the limit counts the hops left -/
def search (choose : α → List α → List α) (dst : α) : ℕ → α → List α → Bool × List α
  | 0, v, entered => (decide (v = dst), entered ++ [v])
  | ttl + 1, v, entered =>
    if v = dst then (true, entered ++ [v])
    else tryEach (search choose dst ttl) (choose v (entered ++ [v])) (entered ++ [v])

variable {choose : α → List α → List α} {dst : α}

theorem tryEach_entered {enter : α → List α → Bool × List α}
    (henter : ∀ c ∈ V, ∀ e : List α, e.Nodup → (∀ u ∈ e, u ∈ V) → c ∉ e → Extends V e (enter c e).2) :
    ∀ (cs entered : List α), (∀ c ∈ cs, c ∈ V) → entered.Nodup → (∀ u ∈ entered, u ∈ V) →
      Extends V entered (tryEach enter cs entered).2
  | [], entered, _, hn, hb => ⟨List.prefix_rfl, hn, hb⟩
  | c :: cs, entered, hcs, hn, hb => by
    rw [List.forall_mem_cons] at hcs
    rw [tryEach]
    split_ifs with hmem
    · exact tryEach_entered henter cs entered hcs.2 hn hb
    · have hc := henter c hcs.1 entered hn hb hmem
      split
      · rename_i e' he
        rwa [he] at hc
      · rename_i e' he
        rw [he] at hc
        exact hc.trans (tryEach_entered henter cs e' hcs.2 hc.nodup hc.bounded)

/-- **No node is entered twice.** -/
theorem search_entered (hV : ∀ v ∈ V, ∀ e, ∀ w ∈ choose v e, w ∈ V) :
    ∀ (ttl : ℕ) (v : α) (entered : List α), v ∈ V → entered.Nodup → (∀ u ∈ entered, u ∈ V) → v ∉ entered →
      Extends V entered (search choose dst ttl v entered).2
  | 0, v, entered, hv, hn, hb, hnew => extends_concat hn hb hv hnew
  | ttl + 1, v, entered, hv, hn, hb, hnew => by
    have h := extends_concat hn hb hv hnew
    rw [search]
    split_ifs
    · exact h
    · refine h.trans (tryEach_entered ?_ _ _ (hV v hv _) h.nodup h.bounded)
      exact fun c hc e hn hb hnew => search_entered hV ttl c e hc hn hb hnew

theorem tryEach_subset {enter : α → List α → Bool × List α} (henter : ∀ c e, e ⊆ (enter c e).2) :
    ∀ cs entered : List α, entered ⊆ (tryEach enter cs entered).2
  | [], _ => List.Subset.refl _
  | c :: cs, entered => by
    rw [tryEach]
    split_ifs
    · exact tryEach_subset henter cs entered
    · have hc := henter c entered
      generalize enter c entered = r at *
      obtain ⟨_ | _, e'⟩ := r
      · exact List.Subset.trans hc (tryEach_subset henter cs e')
      · exact hc

theorem search_subset : ∀ (ttl : ℕ) (v : α) (entered : List α),
    entered ++ [v] ⊆ (search choose dst ttl v entered).2
  | 0, _, _ => List.Subset.refl _
  | ttl + 1, v, entered => by
    rw [search]
    split_ifs
    · exact List.Subset.refl _
    · exact tryEach_subset (fun c e => List.Subset.trans (List.subset_append_left e [c]) (search_subset ttl c e)) _ _

theorem mem_search (ttl : ℕ) (v : α) (entered : List α) : v ∈ (search choose dst ttl v entered).2 :=
  search_subset ttl v entered (by simp)

theorem tryEach_found {enter : α → List α → Bool × List α} (henter : ∀ c e, (enter c e).1 = true → dst ∈ (enter c e).2) :
    ∀ cs entered : List α, (tryEach enter cs entered).1 = true → dst ∈ (tryEach enter cs entered).2
  | [], _, h => by cases h
  | c :: cs, entered, h => by
    rw [tryEach] at h ⊢
    split_ifs at h ⊢
    · exact tryEach_found henter cs entered h
    · have hc := henter c entered
      generalize enter c entered = r at *
      obtain ⟨_ | _, e'⟩ := r
      · exact tryEach_found henter cs e' h
      · exact hc rfl

/-- a search that succeeds entered the target -/
theorem search_found : ∀ (ttl : ℕ) (v : α) (entered : List α), (search choose dst ttl v entered).1 = true →
    dst ∈ (search choose dst ttl v entered).2
  | 0, v, entered, h => by
    obtain rfl : v = dst := of_decide_eq_true h
    exact mem_search 0 v entered
  | ttl + 1, v, entered, h => by
    by_cases hv : v = dst
    · subst hv
      exact mem_search _ v entered
    · rw [search, if_neg hv] at h ⊢
      exact tryEach_found (search_found ttl) _ _ h

/-! ## Failed searches -/

/-- a failed search did not find the target, and entered every neighbour of each node it entered -/
structure Exhausted (adj : α → α → Prop) (dst : α) (before after : List α) : Prop where
  missed : dst ∉ after
  closed : ∀ u ∈ after, u ∉ before → ∀ w, adj u w → w ∈ after

variable {adj : α → α → Prop}

theorem Exhausted.trans {a b c : List α} (h : Exhausted adj dst a b) (h' : Exhausted adj dst b c) (hbc : b <+: c) :
    Exhausted adj dst a c := by
  refine ⟨h'.missed, ?_⟩
  intro u hu hnew w hw
  by_cases hub : u ∈ b
  · exact hbc.subset (h.closed u hub hnew w hw)
  · exact h'.closed u hu hub w hw

/-- when every single candidate exhausts, so does the loop, and every candidate is entered -/
theorem tryEach_exhausts {enter : α → List α → Bool × List α} {n : ℕ}
    (henter : ∀ c ∈ V, ∀ e : List α, e.Nodup → (∀ u ∈ e, u ∈ V) → c ∉ e → dst ∉ e → n ≤ e.length →
      Extends V e (enter c e).2 ∧ c ∈ (enter c e).2 ∧ ((enter c e).1 = false → Exhausted adj dst e (enter c e).2)) :
    ∀ (cs entered : List α), (∀ c ∈ cs, c ∈ V) → entered.Nodup → (∀ u ∈ entered, u ∈ V) → dst ∉ entered →
      n ≤ entered.length → (tryEach enter cs entered).1 = false →
      Exhausted adj dst entered (tryEach enter cs entered).2 ∧ entered <+: (tryEach enter cs entered).2 ∧
        ∀ c ∈ cs, c ∈ (tryEach enter cs entered).2
  | [], entered, _, _, _, hd, _, _ => ⟨⟨hd, fun u hu hnew => absurd hu hnew⟩, List.prefix_rfl, by simp⟩
  | c :: cs, entered, hcs, hn, hb, hd, hlen, hfalse => by
    rw [List.forall_mem_cons] at hcs
    rw [tryEach] at hfalse ⊢
    split_ifs at hfalse ⊢ with hmem
    · obtain ⟨h1, h2, h3⟩ := tryEach_exhausts henter cs entered hcs.2 hn hb hd hlen hfalse
      exact ⟨h1, h2, List.forall_mem_cons.2 ⟨h2.subset hmem, h3⟩⟩
    · obtain ⟨hext, hin, hex⟩ := henter c hcs.1 entered hn hb hmem hd hlen
      generalize enter c entered = r at *
      obtain ⟨_ | _, e'⟩ := r
      · have hex := hex rfl
        obtain ⟨h1, h2, h3⟩ := tryEach_exhausts henter cs e' hcs.2 hext.nodup hext.bounded hex.missed
          (hlen.trans hext.length_le) hfalse
        exact ⟨hex.trans h1 h2, hext.initial.trans h2, List.forall_mem_cons.2 ⟨h2.subset hin, h3⟩⟩
      · cases hfalse

/-- **A failed search is exhausted.** While the hops left and the nodes entered make up the number of nodes, the limit
is never what stops the search. -/
theorem search_exhausts (hV : ∀ v ∈ V, ∀ e, ∀ w ∈ choose v e, w ∈ V)
    (hcover : ∀ v ∈ V, v ≠ dst → ∀ e, dst ∈ choose v e ∨ ∀ w, adj v w → w ∈ e ∨ w ∈ choose v e) :
    ∀ (ttl : ℕ) (v : α) (entered : List α), v ∈ V → entered.Nodup → (∀ u ∈ entered, u ∈ V) → v ∉ entered →
      dst ∉ entered → V.card ≤ ttl + entered.length → (search choose dst ttl v entered).1 = false →
      Exhausted adj dst entered (search choose dst ttl v entered).2
  | 0, v, entered, hv, hn, hb, hnew, _, hcard, _ => by
    -- all nodes would be entered already, v among them
    have hsub : insert v entered.toFinset ⊆ V := by
      intro u hu
      rcases Finset.mem_insert.1 hu with rfl | hu
      · exact hv
      · exact hb u (List.mem_toFinset.1 hu)
    have hle := Finset.card_le_card hsub
    rw [Finset.card_insert_of_notMem (fun h => hnew (List.mem_toFinset.1 h)), List.toFinset_card_of_nodup hn] at hle
    omega
  | ttl + 1, v, entered, hv, hn, hb, hnew, hd, hcard, hfalse => by
    have h := extends_concat hn hb hv hnew
    rw [search] at hfalse ⊢
    split_ifs at hfalse ⊢ with hdst
    have hd' : dst ∉ entered ++ [v] := by
      rw [List.mem_append, List.mem_singleton]
      exact not_or.2 ⟨hd, fun he => hdst he.symm⟩
    have hlen : (entered ++ [v]).length = entered.length + 1 := by simp
    obtain ⟨hex, hpre, hall⟩ := tryEach_exhausts (n := entered.length + 1) (fun c hc e hn hb hnew hd hle =>
        ⟨search_entered hV ttl c e hc hn hb hnew, mem_search ttl c e,
          search_exhausts hV hcover ttl c e hc hn hb hnew hd (by omega)⟩)
      (choose v (entered ++ [v])) (entered ++ [v]) (hV v hv _) h.nodup h.bounded hd' hlen.ge hfalse
    refine ⟨hex.missed, ?_⟩
    intro u hu hnew w hw
    by_cases huv : u = v
    · subst huv
      rcases hcover u hv hdst (entered ++ [u]) with htarget | hcov
      · exact absurd (hall dst htarget) hex.missed
      · rcases hcov w hw with hw | hw
        · exact hpre.subset hw
        · exact hall w hw
    · exact hex.closed u hu (by simp [hnew, huv]) w hw

/-- **Reachable targets are reached** when the limit is at least the number of nodes -/
theorem search_reaches (hV : ∀ v ∈ V, ∀ e, ∀ w ∈ choose v e, w ∈ V)
    (hcover : ∀ v ∈ V, v ≠ dst → ∀ e, dst ∈ choose v e ∨ ∀ w, adj v w → w ∈ e ∨ w ∈ choose v e) {src : α} {ttl : ℕ}
    (hsrc : src ∈ V) (httl : V.card ≤ ttl) (hreach : Relation.ReflTransGen adj src dst) :
    (search choose dst ttl src []).1 = true := by
  by_contra hfalse
  rw [Bool.not_eq_true] at hfalse
  have hex := search_exhausts hV hcover ttl src [] hsrc List.nodup_nil (by simp) (by simp) (by simp) (by simpa using httl)
    hfalse
  have hin : ∀ u, Relation.ReflTransGen adj src u → u ∈ (search choose dst ttl src []).2 := by
    intro u hu
    induction hu with
    | refl => exact mem_search ttl src []
    | tail _ hstep ih => exact hex.closed _ ih (by simp) _ hstep
  exact hex.missed (hin dst hreach)

end DepthFirst
