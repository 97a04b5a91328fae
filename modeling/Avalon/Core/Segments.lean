/-
Lists cut into consecutive segments.

`Contiguous` says that equal labels stand together. A `Cut` of a list assigns to each of its consecutive segments a value that
covers it; what covering means may depend on what stands before the segment.

- `contiguous_concat`: a label may follow if it is new or the last one.
- `Cut.last`: the last segment and what stands before it.
- `Cut.map`: replacing the values.
-/
import Mathlib.Tactic

namespace Segments

variable {α β γ ι : Type}

/-- no label comes back after another one -/
def Contiguous (labels : List ι) : Prop :=
  ∀ (i j k : ℕ) (label : ι), i ≤ j → j ≤ k → labels[i]? = some label → labels[k]? = some label → labels[j]? = some label

theorem contiguous_nil : Contiguous ([] : List ι) := by
  intro i j k label _ _ h
  simp at h

theorem contiguous_concat {labels : List ι} {label : ι} :
    Contiguous (labels ++ [label]) ↔ Contiguous labels ∧ (label ∈ labels → labels.getLast? = some label) := by
  have hold : ∀ i, i < labels.length → (labels ++ [label])[i]? = labels[i]? := fun i hi => List.getElem?_append_left hi
  have hnew : (labels ++ [label])[labels.length]? = some label := by simp
  constructor
  · intro h
    constructor
    · intro i j k other hij hjk hi hk
      have hklt := (List.getElem?_eq_some_iff.1 hk).1
      rw [← hold j (by omega)]
      exact h i j k other hij hjk (by rwa [hold i (by omega)]) (by rwa [hold k hklt])
    · intro hmem
      obtain ⟨i, hilt, hi⟩ := List.mem_iff_getElem.1 hmem
      rw [List.getLast?_eq_getElem?, ← hold (labels.length - 1) (by omega)]
      refine h i (labels.length - 1) labels.length label (by omega) (by omega) ?_ hnew
      rw [hold i hilt, List.getElem?_eq_getElem hilt, hi]
  · rintro ⟨h, hlast⟩ i j k other hij hjk hi hk
    rcases Nat.lt_or_ge k labels.length with hklt | hkge
    · rw [hold _ (by omega)] at hi hk ⊢
      exact h i j k other hij hjk hi hk
    -- the last label: if it stood before, it was the last one then
    obtain rfl : k = labels.length := by
      have := (List.getElem?_eq_some_iff.1 hk).1
      rw [List.length_append, List.length_singleton] at this
      omega
    obtain rfl : label = other := Option.some.inj (hnew.symm.trans hk)
    rcases Nat.lt_or_ge j labels.length with hjlt | hjge
    · rw [hold _ (by omega)] at hi ⊢
      have hbefore := hlast (List.mem_of_getElem? hi)
      rw [List.getLast?_eq_getElem?] at hbefore
      exact h i j _ label hij (by omega) hi hbefore
    · obtain rfl : j = labels.length := by omega
      exact hk

/-- the values cover consecutive segments of the list: `covers before segment value` -/
inductive Cut (covers : List α → List α → β → Prop) : List β → List α → Prop
  | nil : Cut covers [] []
  | snoc {values : List β} {before segment : List α} {value : β} : Cut covers values before → covers before segment value →
      Cut covers (values ++ [value]) (before ++ segment)

theorem Cut.last {covers : List α → List α → β → Prop} {values : List β} {value : β} {l : List α}
    (h : Cut covers (values ++ [value]) l) :
    ∃ before segment, l = before ++ segment ∧ Cut covers values before ∧ covers before segment value := by
  generalize hall : values ++ [value] = all at h
  cases h with
  | nil => simp at hall
  | snoc hcut hcovers =>
    obtain ⟨rfl, hvalue⟩ := List.append_inj' hall rfl
    cases hvalue
    exact ⟨_, _, rfl, hcut, hcovers⟩

/-- the last value covers the end of the list -/
theorem Cut.getLast? {covers : List α → List α → β → Prop} {values : List β} {l : List α} (h : Cut covers values l) (hne : l ≠ []) :
    ∃ before segment value, l = before ++ segment ∧ values.getLast? = some value ∧ covers before segment value := by
  cases h with
  | nil => exact absurd rfl hne
  | snoc hcut hcovers => exact ⟨_, _, _, rfl, List.getLast?_concat, hcovers⟩

/-- the values may be replaced where the new ones cover the same segments -/
theorem Cut.map {covers : List α → List α → β → Prop} {covers' : List α → List α → γ → Prop} {f : β → γ} {values : List β}
    {l : List α} (h : Cut covers values l)
    (hcovers : ∀ before segment value, before ++ segment <+: l → covers before segment value → covers' before segment (f value)) :
    Cut covers' (values.map f) l := by
  induction h with
  | nil => exact .nil
  | snoc hcut hlast ih =>
    rw [List.map_append]
    refine .snoc (ih fun before segment value hprefix => hcovers before segment value ?_) (hcovers _ _ _ (List.prefix_refl _) hlast)
    exact hprefix.trans (List.prefix_append _ _)

end Segments
