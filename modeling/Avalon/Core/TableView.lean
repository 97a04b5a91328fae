/-
Two tables that are kept side by side, one of them showing the rows of the other through a view.

A table is a finite map from its primary key. Two tables are `Alike` if under every key they have rows that look the same, each
through a view of its own; then their values look the same up to order, and so is all that is counted of them. `Shows` is the case
where the second table holds the views themselves.

Results: `Alike.values_perm`, `insert_alike_iff`, `insert_right_alike_iff` (when a change of both, or of one, keeps the tables
alike), `prefixes_related_iff` (a relation that a step keeps exactly under a condition holds all along two runs exactly if every
step meets the condition).
-/
import Mathlib.Tactic
import Mathlib.Data.List.AList

namespace TableView

abbrev Table (K V : Type) := AList fun _ : K => V

variable {K A B C : Type} [DecidableEq K] {view : A → C} {view' : B → C} {a : Table K A} {b : Table K B}

omit [DecidableEq K] in
/-- the rows, in whatever order the table holds them -/
def values (t : Table K A) : List A := t.entries.map fun e => e.2

def Alike (view : A → C) (view' : B → C) (a : Table K A) (b : Table K B) : Prop :=
  ∀ k, (a.lookup k).map view = (b.lookup k).map view'

theorem alike_empty : Alike view view' (∅ : Table K A) (∅ : Table K B) := fun _ => rfl

omit [DecidableEq K] in
theorem nodupKeys_views (view : A → C) (t : Table K A) :
    (t.entries.map (.map id fun _ => view) : List (Σ _ : K, C)).NodupKeys := t.nodupKeys.map₂ _ _

/-- **The rows of the one look like the rows of the other** -/
theorem Alike.values_perm (h : Alike view view' a b) : ((values a).map view).Perm ((values b).map view') := by
  have hperm : (a.entries.map (.map id fun _ => view) : List (Σ _ : K, C)).Perm (b.entries.map (.map id fun _ => view')) := by
    apply List.lookup_ext (nodupKeys_views view a) (nodupKeys_views view' b)
    intro k y
    have hk : (a.entries.dlookup k).map view = (b.entries.dlookup k).map view' := h k
    rw [List.dlookup_map₂ (δ := fun _ => C) (f := fun _ => view) k, List.dlookup_map₂ (δ := fun _ => C) (f := fun _ => view') k, hk]
  have hmap := hperm.map fun e => e.2
  rw [List.map_map, List.map_map] at hmap
  rw [values, values, List.map_map, List.map_map]
  exact hmap

theorem lookup_insert_eq (t : Table K A) (k k' : K) (x : A) :
    (t.insert k x).lookup k' = if k' = k then some x else t.lookup k' := by
  by_cases hk : k' = k
  · subst hk
    rw [if_pos rfl, AList.lookup_insert]
  · rw [if_neg hk, AList.lookup_insert_ne hk]

/-- a key is there once or not at all -/
theorem length_filter_key (t : Table K A) (k : K) :
    (t.entries.filter fun e => decide (e.1 = k)).length = if (t.lookup k).isSome then 1 else 0 := by
  have hcount : (t.entries.filter fun e => decide (e.1 = k)).length = t.keys.count k := by
    rw [AList.keys, List.keys, List.count_eq_countP, List.countP_map, List.countP_eq_length_filter]
    rfl
  rw [hcount]
  split_ifs with h
  · exact List.count_eq_one_of_mem t.keys_nodup (AList.mem_keys.1 (AList.lookup_isSome.1 h))
  · rw [List.count_eq_zero]
    exact fun hmem => h (AList.lookup_isSome.2 (AList.mem_keys.2 hmem))

/-- both get a row under the key -/
theorem insert_alike_iff (h : Alike view view' a b) (k : K) (x : A) (y : B) :
    Alike view view' (a.insert k x) (b.insert k y) ↔ view x = view' y := by
  constructor
  · intro hins
    have hk := hins k
    rw [AList.lookup_insert, AList.lookup_insert] at hk
    exact Option.some.inj hk
  · intro hxy k'
    rw [lookup_insert_eq, lookup_insert_eq]
    split_ifs
    · rw [Option.map_some, Option.map_some, hxy]
    · exact h k'

/-- only the second one gets a row -/
theorem insert_right_alike_iff (h : Alike view view' a b) (k : K) (y : B) :
    Alike view view' a (b.insert k y) ↔ (a.lookup k).map view = some (view' y) := by
  constructor
  · intro hins
    rw [hins k, AList.lookup_insert, Option.map_some]
  · intro hy k'
    rw [lookup_insert_eq]
    split_ifs with hk
    · rw [hk, hy, Option.map_some]
    · exact h k'

/-- the second table holds the views of the first one's rows -/
def Shows (view : A → B) (a : Table K A) (b : Table K B) : Prop := Alike view id a b

theorem Shows.lookup {view : A → B} (h : Shows view a b) (k : K) : (a.lookup k).map view = b.lookup k := by
  rw [h k, Option.map_id, id]

theorem insert_shows_iff {view : A → B} (h : Shows view a b) (k : K) (x : A) (y : B) :
    Shows view (a.insert k x) (b.insert k y) ↔ view x = y := insert_alike_iff h k x y

theorem insert_right_shows_iff {view : A → B} (h : Shows view a b) (k : K) (y : B) :
    Shows view a (b.insert k y) ↔ (a.lookup k).map view = some y := insert_right_alike_iff h k y

theorem Shows.values_perm {view : A → B} (h : Shows view a b) : ((values a).map view).Perm (values b) := by
  simpa using Alike.values_perm h

/-! ## Runs -/

/-- every step of the run meets the condition in the state it finds -/
def Along {S W : Type} (step : S → W → S) (ok : S → W → Prop) : S → List W → Prop
  | _, [] => True
  | s, w :: ws => ok s w ∧ Along step ok (step s w) ws

instance decidableAlong {S W : Type} {step : S → W → S} {ok : S → W → Prop} [∀ s w, Decidable (ok s w)] :
    (s : S) → (ws : List W) → Decidable (Along step ok s ws)
  | _, [] => .isTrue trivial
  | s, w :: ws => @instDecidableAnd _ _ _ (decidableAlong (step s w) ws)

/-- **A relation holds all along two runs** over the same inputs exactly if each step keeps it -/
theorem prefixes_related_iff {S S' W : Type} (step : S → W → S) (step' : S' → W → S') {ok : S → W → Prop}
    (related : S → S' → Prop) (hstep : ∀ s s' w, related s s' → (related (step s w) (step' s' w) ↔ ok s w)) {s : S} {s' : S'}
    (hs : related s s') (ws : List W) :
    (∀ l, l <+: ws → related (l.foldl step s) (l.foldl step' s')) ↔ Along step ok s ws := by
  induction ws generalizing s s' with
  | nil =>
    refine ⟨fun _ => trivial, ?_⟩
    rintro - l hl
    rw [List.prefix_nil.1 hl]
    exact hs
  | cons w ws ih =>
    constructor
    · intro hall
      have hone : related (step s w) (step' s' w) := hall [w] ⟨ws, rfl⟩
      refine ⟨(hstep s s' w hs).1 hone, (ih hone).1 ?_⟩
      intro l hl
      exact hall (w :: l) (List.cons_prefix_cons.2 ⟨rfl, hl⟩)
    · rintro ⟨hok, halong⟩ l hl
      have hone : related (step s w) (step' s' w) := (hstep s s' w hs).2 hok
      cases l with
      | nil => exact hs
      | cons w' l =>
        obtain ⟨rfl, hl'⟩ := List.cons_prefix_cons.1 hl
        exact (ih hone).2 halong l hl'

end TableView
