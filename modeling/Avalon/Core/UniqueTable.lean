/-
Tables with unique constraints, over any rows: which two rows cannot stand in one table together is a relation.

A row is inserted unless it conflicts with one that is there, and rows are updated in a way that brings no two of them into
conflict. `Table` carries that no two of its rows conflict.

- `mem_insert`: an inserted row is there, next to all others.
- `insertIgnore_cases`: what a statement that skips conflicts does.
- `eq_of_conflict`: conflicting rows of a table are one row.
-/
import Mathlib.Tactic

namespace UniqueTable

/-- rows of which no two conflict -/
structure Table {α : Type} (conflict : α → α → Prop) where
  rows : List α
  apart : rows.Pairwise fun a b => ¬ conflict a b

namespace Table

variable {α : Type} {conflict : α → α → Prop} {t t' : Table conflict} {a b : α}

def empty : Table conflict := ⟨[], .nil⟩

/-- INSERT; none if a constraint is violated -/
def insert [DecidableRel conflict] (t : Table conflict) (a : α) : Option (Table conflict) :=
  if h : ∀ x ∈ t.rows, ¬ conflict x a then
    some ⟨t.rows ++ [a], List.pairwise_append.2 ⟨t.apart, List.pairwise_singleton _ _, by simpa using h⟩⟩
  else none

/-- INSERT .. ON CONFLICT DO NOTHING, with whether the row was inserted -/
def insertIgnore [DecidableRel conflict] (t : Table conflict) (a : α) : Table conflict × Bool :=
  match t.insert a with
  | some t' => (t', true)
  | none => (t, false)

/-- UPDATE of the rows that satisfy p, which brings no two rows into conflict -/
def update (t : Table conflict) (p : α → Bool) (f : α → α)
    (hf : ∀ a b, conflict (if p a then f a else a) (if p b then f b else b) → conflict a b) : Table conflict :=
  ⟨t.rows.map fun a => if p a then f a else a,
    List.pairwise_map.2 (t.apart.imp fun {a b} hab h => hab (hf a b h))⟩

/-- UPDATE of the rows that satisfy p; none if it violates a constraint -/
def tryUpdate [DecidableRel conflict] (t : Table conflict) (p : α → Bool) (f : α → α) : Option (Table conflict) :=
  if h : (t.rows.map fun a => if p a then f a else a).Pairwise fun a b => ¬ conflict a b then some ⟨_, h⟩ else none

@[simp] theorem rows_empty : (empty : Table conflict).rows = [] := rfl

section

variable [DecidableRel conflict]

theorem insert_eq_some (h : t.insert a = some t') : t'.rows = t.rows ++ [a] ∧ ∀ x ∈ t.rows, ¬ conflict x a := by
  unfold insert at h
  split_ifs at h with hfree
  obtain rfl := Option.some.inj h
  exact ⟨rfl, hfree⟩

/-- a refused row conflicts with one that is there -/
theorem insert_eq_none (h : t.insert a = none) : ∃ x ∈ t.rows, conflict x a := by
  unfold insert at h
  split_ifs at h with hfree
  simpa using hfree

theorem mem_insert (h : t.insert a = some t') : b ∈ t'.rows ↔ b ∈ t.rows ∨ b = a := by
  rw [(insert_eq_some h).1, List.mem_append, List.mem_singleton]

/-- a statement that skips conflicts adds the row, or leaves the table as it is because of a row that is there -/
theorem insertIgnore_cases (t : Table conflict) (a : α) :
    ((t.insertIgnore a).2 = true ∧ t.insert a = some (t.insertIgnore a).1) ∨
      (t.insertIgnore a = (t, false) ∧ ∃ x ∈ t.rows, conflict x a) := by
  unfold insertIgnore
  cases h : t.insert a with
  | some t' => exact .inl ⟨rfl, rfl⟩
  | none => exact .inr ⟨rfl, insert_eq_none h⟩

theorem mem_insertIgnore : b ∈ (t.insertIgnore a).1.rows → b ∈ t.rows ∨ b = a := by
  intro h
  rcases insertIgnore_cases t a with ⟨-, hinsert⟩ | ⟨heq, -⟩
  · exact (mem_insert hinsert).1 h
  · rw [heq] at h
    exact .inl h

theorem mem_insertIgnore_of_mem (h : b ∈ t.rows) : b ∈ (t.insertIgnore a).1.rows := by
  rcases insertIgnore_cases t a with ⟨-, hinsert⟩ | ⟨heq, -⟩
  · exact (mem_insert hinsert).2 (.inl h)
  · rw [heq]
    exact h

theorem tryUpdate_eq_some {p : α → Bool} {f : α → α} (h : t.tryUpdate p f = some t') :
    t'.rows = t.rows.map fun a => if p a then f a else a := by
  unfold tryUpdate at h
  split_ifs at h
  obtain rfl := Option.some.inj h
  rfl

end

@[simp] theorem rows_update {p : α → Bool} {f : α → α}
    {hf : ∀ a b, conflict (if p a then f a else a) (if p b then f b else b) → conflict a b} :
    (t.update p f hf).rows = t.rows.map fun a => if p a then f a else a := rfl

/-- rows of one table that conflict are one row -/
theorem eq_of_conflict (hsymm : ∀ a b, conflict a b → conflict b a) (ha : a ∈ t.rows) (hb : b ∈ t.rows) (h : conflict a b) :
    a = b := by
  have hsym : Std.Symm fun a b => ¬ conflict a b := ⟨fun x y hxy hyx => hxy (hsymm y x hyx)⟩
  by_contra hne
  exact t.apart.forall ha hb hne h

end Table

end UniqueTable
