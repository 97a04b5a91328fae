/-
Rebuilding the projections from the events alone (`crates/indexer/src/postgres.rs`: `rebuild_from_scratch`).

The projection tables are emptied and the events applied, all in one transaction. An event that waits for something later in the
history is kept for another pass over what is left, until nothing is left or a pass decides no event at all. A refused event is
dropped. Each event is applied in a savepoint of its own, which is rolled back unless the event was applied.

What applying an event does is a parameter: a function of the tables and the event that may write before it fails. The other
statements may fail at any time, by a schedule of faults. The pending events are references into the given list, so they are its
positions here. Of the attempts that were made a log is kept; it is no part of the code's state.

Results:
- `runPass_spec`: one pass tries every pending event once, in order.
- `loop_spec`: what the passes together do.
- `rebuild_reaches_fixed_point`: the rebuilt tables are the empty ones with the applied events performed; what is left still waits.
-/
import Mathlib.Tactic
import Avalon.Core.Fallible

namespace Avalon.Rebuild

open Fallible

/-! ## Model -/

inductive IndexError where
  | storage (message : String)
  | displayNameTaken
  | rejected (reason : String)
  | deferred (reason : String)
  | awaitingKey (reason : String)
  | displayNameNotPermitted
  | remoteUnreachable (reason : String)
  | unavailable (reason : String)
  deriving DecidableEq

/-- the tables an indexer owns -/
inductive ProjectionTable where
  | appliedEvents
  | profiles
  | friendships
  | guildMembers
  | attestations
  | integratorBindings
  | integratorDataInstances
  | integratorRecognitions
  | integratorSchemaMappings
  | integratorSchemas
  | identityPasskeys
  | identitySigningKeys
  | identitySigningKeyRevocations
  | identityPasskeyRevocations
  | issuers
  | issuerKeys
  | issuerKeyRevocations
  | chainEvents
  | chainState
  deriving DecidableEq

def projectionTables : List ProjectionTable :=
  [.appliedEvents, .profiles, .friendships, .guildMembers, .attestations, .integratorBindings, .integratorDataInstances,
    .integratorRecognitions, .integratorSchemaMappings, .integratorSchemas, .identityPasskeys, .identitySigningKeys,
    .identitySigningKeyRevocations, .identityPasskeyRevocations, .issuers, .issuerKeys, .issuerKeyRevocations, .chainEvents,
    .chainState]

/-- the projection tables, and the tables that a rebuild keeps (such as `identities`) -/
@[ext]
structure Tables (Row : ProjectionTable → Type) (Kept : Type) where
  rows : ∀ table, List (Row table)
  kept : Kept

variable {Row : ProjectionTable → Type} {Kept E : Type}

def truncate (db : Tables Row Kept) (table : ProjectionTable) : Tables Row Kept :=
  { db with rows := Function.update db.rows table [] }

/-- no projection has a row -/
def cleared (db : Tables Row Kept) : Tables Row Kept := { db with rows := fun _ => [] }

/-- what an attempt to apply an event came to -/
inductive Answer where
  | applied
  | deferred
  | refused
  deriving DecidableEq

/-- `apply_verified`: its answer, and the tables as it leaves them -/
abbrev Apply (Row : ProjectionTable → Type) (Kept E : Type) := Tables Row Kept → E → Except IndexError Unit × Tables Row Kept

/-- the error with which the n-th statement fails, if it does -/
abbrev Faults := ℕ → Option IndexError

/-- an open transaction; `attempts` is the log of the attempts at the events -/
structure Tx (Row : ProjectionTable → Type) (Kept ι : Type) where
  tables : Tables Row Kept
  statements : ℕ
  attempts : List (ι × Answer)

structure RebuildOutcome where
  applied : ℕ
  refused : ℕ
  deriving DecidableEq

variable {ι : Type}

/-- a statement that may fail: BEGIN, TRUNCATE, SAVEPOINT, RELEASE, ROLLBACK TO, COMMIT -/
def execute (faults : Faults) (tx : Tx Row Kept ι) (tables : Tables Row Kept) : Except IndexError (Tx Row Kept ι) :=
  match faults tx.statements with
  | some e => .error e
  | none => .ok { tx with tables := tables, statements := tx.statements + 1 }

def truncateAll (faults : Faults) : List ProjectionTable → Tx Row Kept ι → Except IndexError (Tx Row Kept ι)
  | [], tx => .ok tx
  | table :: rest, tx => execute faults tx (truncate tx.tables table) >>= truncateAll faults rest

def Tx.log (tx : Tx Row Kept ι) (i : ι) (answer : Answer) : Tx Row Kept ι :=
  { tx with attempts := tx.attempts ++ [(i, answer)] }

/-- one event in its own savepoint; any other error ends the rebuild -/
def tryEvent (faults : Faults) (apply : Apply Row Kept E) (event : ι → E) (tx : Tx Row Kept ι) (i : ι) :
    Except IndexError (Tx Row Kept ι × Answer) := do
  let savepoint ← execute faults tx tx.tables
  match apply savepoint.tables (event i) with
  | (.ok (), tables) =>
    let tx ← execute faults savepoint tables
    return (tx.log i .applied, .applied)
  | (.error (.deferred _), _) | (.error (.awaitingKey _), _) =>
    let tx ← execute faults savepoint tx.tables
    return (tx.log i .deferred, .deferred)
  | (.error .displayNameNotPermitted, _) | (.error .displayNameTaken, _) | (.error (.rejected _), _) =>
    let tx ← execute faults savepoint tx.tables
    return (tx.log i .refused, .refused)
  | (.error other, _) => throw other

/-- the variables of a pass -/
structure Pass (Row : ProjectionTable → Type) (Kept ι : Type) where
  tx : Tx Row Kept ι
  deferred : List ι
  refused : ℕ

def Pass.next (p : Pass Row Kept ι) (i : ι) (tx : Tx Row Kept ι) : Answer → Pass Row Kept ι
  | .applied => { p with tx := tx }
  | .deferred => { p with tx := tx, deferred := p.deferred ++ [i] }
  | .refused => { p with tx := tx, refused := p.refused + 1 }

def runPass (faults : Faults) (apply : Apply Row Kept E) (event : ι → E) :
    List ι → Pass Row Kept ι → Except IndexError (Pass Row Kept ι)
  | [], p => .ok p
  | i :: rest, p => do
    let (tx, answer) ← tryEvent faults apply event p.tx i
    runPass faults apply event rest (p.next i tx answer)

/-- passes over what is left, until nothing is left or a pass makes no progress -/
def loop (faults : Faults) (apply : Apply Row Kept E) (event : ι → E) (pending : List ι) (tx : Tx Row Kept ι) (refused : ℕ) :
    Except IndexError (Pass Row Kept ι) :=
  match runPass faults apply event pending ⟨tx, [], refused⟩ with
  | .error e => .error e
  | .ok p =>
    if _h : p.deferred = [] ∨ ¬ p.deferred.length < pending.length then .ok p
    else loop faults apply event p.deferred p.tx p.refused
termination_by pending.length
decreasing_by exact (not_not.1 (not_or.1 _h).2)

/-- the transaction of a rebuild, up to its commit -/
def rebuildTx (faults : Faults) (apply : Apply Row Kept E) (db : Tables Row Kept) (events : List E) :
    Except IndexError (Tx Row Kept (Fin events.length) × RebuildOutcome) := do
  let tx ← execute faults ⟨db, 0, []⟩ db
  let tx ← truncateAll faults projectionTables tx
  let p ← loop faults apply events.get (List.finRange events.length) tx 0
  let refused := p.refused + p.deferred.length
  let tx ← execute faults p.tx p.tx.tables
  return (tx, ⟨events.length - refused, refused⟩)

/-- the tables afterwards, and what the caller gets: without a commit the transaction leaves nothing behind -/
def rebuildFromScratch (faults : Faults) (apply : Apply Row Kept E) (db : Tables Row Kept) (events : List E) :
    Tables Row Kept × Except IndexError RebuildOutcome :=
  match rebuildTx faults apply db events with
  | .error e => (db, .error e)
  | .ok (tx, outcome) => (tx.tables, .ok outcome)

/-! ## What a rebuild should do -/

/-- the event waits: it is not applied to these tables, but may be later -/
def Defers (apply : Apply Row Kept E) (s : Tables Row Kept) (e : E) : Prop :=
  ∃ reason, (apply s e).1 = .error (.deferred reason) ∨ (apply s e).1 = .error (.awaitingKey reason)

/-- a validity rule refuses the event -/
def Refuses (apply : Apply Row Kept E) (s : Tables Row Kept) (e : E) : Prop :=
  (apply s e).1 = .error .displayNameNotPermitted ∨ (apply s e).1 = .error .displayNameTaken ∨
    ∃ reason, (apply s e).1 = .error (.rejected reason)

/-- an attempt: only an applied event changes the tables -/
def Tried (apply : Apply Row Kept E) (s : Tables Row Kept) (e : E) (s' : Tables Row Kept) : Answer → Prop
  | .applied => apply s e = (.ok (), s')
  | .deferred => Defers apply s e ∧ s' = s
  | .refused => Refuses apply s e ∧ s' = s

/-- the attempts, one after the other, with the answers of the log -/
def Replays (apply : Apply Row Kept E) (event : ι → E) : Tables Row Kept → List (ι × Answer) → Tables Row Kept → Prop
  | s, [], s' => s' = s
  | s, (i, answer) :: rest, s' => ∃ mid, Tried apply s (event i) mid answer ∧ Replays apply event mid rest s'

/-- the events performed one after the other -/
def Performs (apply : Apply Row Kept E) : Tables Row Kept → List E → Tables Row Kept → Prop
  | s, [], s' => s' = s
  | s, e :: rest, s' => ∃ mid, apply s e = (.ok (), mid) ∧ Performs apply mid rest s'

/-- the positions with an answer, in the order of the log -/
def answered (answer : Answer) (attempts : List (ι × Answer)) : List ι :=
  (attempts.filter fun a => a.2 = answer).map Prod.fst

/-- the outcome of a rebuild of the `start` tables -/
structure Rebuilt (apply : Apply Row Kept E) (events : List E) (start final : Tables Row Kept)
    (attempts : List (Fin events.length × Answer)) (outcome : RebuildOutcome) : Prop where
  replays : Replays apply events.get start attempts final
  performs : Performs apply start ((answered .applied attempts).map events.get) final
  inOrder : ((answered .applied attempts).filter fun i => i ∉ answered .deferred attempts).Pairwise (· < ·)
  applied : outcome.applied = (answered .applied attempts).length
  total : outcome.applied + outcome.refused = events.length
  left : ∃ left : List (Fin events.length),
    (answered .applied attempts ++ answered .refused attempts ++ left).Perm (List.finRange events.length) ∧
      (∀ i ∈ left, Defers apply final (events.get i)) ∧ outcome.refused = (answered .refused attempts).length + left.length

/-! ## Logs of attempts -/

@[simp] theorem answered_nil (answer : Answer) : answered answer ([] : List (ι × Answer)) = [] := rfl

@[simp] theorem answered_cons (answer : Answer) (a : ι × Answer) (l : List (ι × Answer)) :
    answered answer (a :: l) = if a.2 = answer then a.1 :: answered answer l else answered answer l := by
  unfold answered
  by_cases h : a.2 = answer <;> simp [h]

@[simp] theorem answered_append (answer : Answer) (l l' : List (ι × Answer)) :
    answered answer (l ++ l') = answered answer l ++ answered answer l' := by
  simp [answered]

theorem answered_sublist (answer : Answer) (l : List (ι × Answer)) : (answered answer l).Sublist (l.map Prod.fst) :=
  (List.filter_sublist).map _

/-- every attempt has one of the three answers -/
theorem answered_perm (l : List (ι × Answer)) :
    (answered .applied l ++ answered .refused l ++ answered .deferred l).Perm (l.map Prod.fst) := by
  induction l with
  | nil => exact .nil
  | cons a l ih =>
    obtain ⟨i, answer⟩ := a
    cases answer with
    | applied => simpa using ih
    | refused =>
      have hmiddle : (answered .applied l ++ i :: (answered .refused l ++ answered .deferred l)).Perm _ := List.perm_middle
      simp only [answered_cons, List.append_assoc] at ih ⊢
      exact hmiddle.trans (ih.cons i)
    | deferred =>
      have hmiddle : (answered .applied l ++ answered .refused l ++ i :: answered .deferred l).Perm _ := List.perm_middle
      simp only [answered_cons] at ih ⊢
      exact hmiddle.trans (ih.cons i)

variable {apply : Apply Row Kept E} {event : ι → E}

theorem Replays.append {s mid s' : Tables Row Kept} {l l' : List (ι × Answer)} (h : Replays apply event s l mid)
    (h' : Replays apply event mid l' s') : Replays apply event s (l ++ l') s' := by
  induction l generalizing s with
  | nil =>
    cases h
    exact h'
  | cons a l ih =>
    obtain ⟨next, htried, hrest⟩ := h
    exact ⟨next, htried, ih hrest⟩

/-- only the applied events count -/
theorem Replays.performs {s s' : Tables Row Kept} {l : List (ι × Answer)} (h : Replays apply event s l s') :
    Performs apply s ((answered .applied l).map event) s' := by
  induction l generalizing s with
  | nil => exact h
  | cons a l ih =>
    obtain ⟨i, answer⟩ := a
    obtain ⟨mid, htried, hrest⟩ := h
    cases answer with
    | applied =>
      exact ⟨mid, htried, ih hrest⟩
    | deferred =>
      obtain ⟨-, rfl⟩ := htried
      exact ih hrest
    | refused =>
      obtain ⟨-, rfl⟩ := htried
      exact ih hrest

/-- a pass in which every event waits changes nothing, and every event still waits -/
theorem Replays.of_deferred {s s' : Tables Row Kept} {l : List (ι × Answer)} (h : Replays apply event s l s')
    (hall : ∀ a ∈ l, a.2 = .deferred) : s' = s ∧ ∀ a ∈ l, Defers apply s (event a.1) := by
  induction l with
  | nil => exact ⟨h, by simp⟩
  | cons a l ih =>
    obtain ⟨i, answer⟩ := a
    obtain rfl : answer = .deferred := hall _ List.mem_cons_self
    obtain ⟨mid, ⟨hdefers, rfl⟩, hrest⟩ := h
    obtain ⟨hsame, hothers⟩ := ih hrest fun a ha => hall a (List.mem_cons_of_mem _ ha)
    refine ⟨hsame, fun a ha => ?_⟩
    rcases List.mem_cons.1 ha with rfl | ha
    · exact hdefers
    · exact hothers a ha

/-- as many waiting events as attempts -/
theorem all_deferred {l : List (ι × Answer)} (h : ¬ (answered .deferred l).length < l.length) :
    ∀ a ∈ l, a.2 = .deferred := by
  have hlen : (l.filter fun a => a.2 = .deferred).length = l.length := by
    have hle : (answered .deferred l).length ≤ l.length := by simpa using (answered_sublist .deferred l).length_le
    simp only [answered, List.length_map] at h hle
    omega
  have := List.length_filter_eq_length_iff.1 hlen
  simpa using this

/-! ## The statements of a rebuild -/

section

variable {faults : Faults}

theorem execute_eq_ok {tx tx' : Tx Row Kept ι} {tables : Tables Row Kept} (h : execute faults tx tables = .ok tx') :
    tx'.tables = tables ∧ tx'.attempts = tx.attempts := by
  unfold execute at h
  split at h
  · cases h
  · cases h
    exact ⟨rfl, rfl⟩

theorem truncateAll_spec {tables : List ProjectionTable} {tx tx' : Tx Row Kept ι} (h : truncateAll faults tables tx = .ok tx') :
    tx'.tables = tables.foldl truncate tx.tables ∧ tx'.attempts = tx.attempts := by
  induction tables generalizing tx with
  | nil =>
    cases h
    exact ⟨rfl, rfl⟩
  | cons table rest ih =>
    obtain ⟨mid, hmid, hrest⟩ := bind_eq_ok.1 h
    obtain ⟨htables, hattempts⟩ := execute_eq_ok hmid
    obtain ⟨htables', hattempts'⟩ := ih hrest
    exact ⟨by rw [htables', htables]; rfl, by rw [hattempts', hattempts]⟩

/-- every projection table is in the list -/
theorem truncate_projectionTables (db : Tables Row Kept) : projectionTables.foldl truncate db = cleared db := by
  refine Tables.ext ?_ rfl
  funext table
  cases table <;> rfl

/-- the end of a savepoint -/
theorem ended_eq_ok {tx tx' : Tx Row Kept ι} {tables : Tables Row Kept} {i : ι} {a answer : Answer}
    (h : (execute faults tx tables >>= fun tx => pure (tx.log i a, a)) = .ok (tx', answer)) :
    answer = a ∧ tx'.tables = tables ∧ tx'.attempts = tx.attempts ++ [(i, a)] := by
  obtain ⟨done, hdone, h⟩ := bind_eq_ok.1 h
  obtain ⟨htables, hattempts⟩ := execute_eq_ok hdone
  cases h
  exact ⟨rfl, htables, by rw [← hattempts]; rfl⟩

theorem tryEvent_spec {tx tx' : Tx Row Kept ι} {i : ι} {answer : Answer}
    (h : tryEvent faults apply event tx i = .ok (tx', answer)) :
    Tried apply tx.tables (event i) tx'.tables answer ∧ tx'.attempts = tx.attempts ++ [(i, answer)] := by
  obtain ⟨savepoint, hsavepoint, h⟩ := bind_eq_ok.1 h
  obtain ⟨htables, hattempts⟩ := execute_eq_ok hsavepoint
  rw [htables] at h
  rw [← hattempts]
  split at h
  case h_1 tables happly =>
    obtain ⟨rfl, rfl, hlog⟩ := ended_eq_ok h
    exact ⟨happly, hlog⟩
  case h_2 reason tables happly =>
    obtain ⟨rfl, hrolled, hlog⟩ := ended_eq_ok h
    exact ⟨⟨⟨reason, .inl (by rw [happly])⟩, hrolled⟩, hlog⟩
  case h_3 reason tables happly =>
    obtain ⟨rfl, hrolled, hlog⟩ := ended_eq_ok h
    exact ⟨⟨⟨reason, .inr (by rw [happly])⟩, hrolled⟩, hlog⟩
  case h_4 tables happly =>
    obtain ⟨rfl, hrolled, hlog⟩ := ended_eq_ok h
    exact ⟨⟨.inl (by rw [happly]), hrolled⟩, hlog⟩
  case h_5 tables happly =>
    obtain ⟨rfl, hrolled, hlog⟩ := ended_eq_ok h
    exact ⟨⟨.inr (.inl (by rw [happly])), hrolled⟩, hlog⟩
  case h_6 reason tables happly =>
    obtain ⟨rfl, hrolled, hlog⟩ := ended_eq_ok h
    exact ⟨⟨.inr (.inr ⟨reason, by rw [happly]⟩), hrolled⟩, hlog⟩
  case h_7 => cases h

/-! ## The passes -/

theorem Pass.next_tx (p : Pass Row Kept ι) (i : ι) (tx : Tx Row Kept ι) (answer : Answer) : (p.next i tx answer).tx = tx := by
  cases answer <;> rfl

theorem Pass.next_deferred (p : Pass Row Kept ι) (i : ι) (tx : Tx Row Kept ι) (answer : Answer) :
    (p.next i tx answer).deferred = p.deferred ++ answered .deferred [(i, answer)] := by
  cases answer <;> simp [Pass.next]

theorem Pass.next_refused (p : Pass Row Kept ι) (i : ι) (tx : Tx Row Kept ι) (answer : Answer) :
    (p.next i tx answer).refused = p.refused + (answered .refused [(i, answer)]).length := by
  cases answer <;> simp [Pass.next]

/-- one pass: every pending event is tried once, in order -/
theorem runPass_spec {pending : List ι} {p p' : Pass Row Kept ι} (h : runPass faults apply event pending p = .ok p') :
    ∃ new, new.map Prod.fst = pending ∧ p'.tx.attempts = p.tx.attempts ++ new ∧
      Replays apply event p.tx.tables new p'.tx.tables ∧ p'.deferred = p.deferred ++ answered .deferred new ∧
      p'.refused = p.refused + (answered .refused new).length := by
  induction pending generalizing p with
  | nil =>
    cases h
    exact ⟨[], rfl, by simp, rfl, by simp, rfl⟩
  | cons i rest ih =>
    obtain ⟨⟨tx, answer⟩, htry, hrest⟩ := bind_eq_ok.1 h
    obtain ⟨htried, hlog⟩ := tryEvent_spec htry
    obtain ⟨new, hpositions, hattempts, hreplays, hdeferred, hrefused⟩ := ih hrest
    rw [Pass.next_tx] at hattempts hreplays
    rw [Pass.next_deferred] at hdeferred
    rw [Pass.next_refused] at hrefused
    refine ⟨(i, answer) :: new, by rw [List.map_cons, hpositions], ?_, ⟨tx.tables, htried, hreplays⟩, ?_, ?_⟩
    · rw [hattempts, hlog, List.append_assoc]
      rfl
    · rw [hdeferred, List.append_assoc, ← answered_append]
      rfl
    · rw [hrefused, add_assoc, ← List.length_append, ← answered_append]
      rfl

/-- what the passes over the pending events did, from `s` to `s'` -/
structure Passes (apply : Apply Row Kept E) (event : ι → E) (pending : List ι) (s s' : Tables Row Kept)
    (new : List (ι × Answer)) (left : List ι) : Prop where
  replays : Replays apply event s new s'
  answers : (answered .applied new ++ answered .refused new ++ left).Perm pending
  left : ∀ i ∈ left, Defers apply s' (event i)
  subset : ∀ a ∈ new, a.1 ∈ pending

/-- the events that never waited were applied in the order of the pending ones -/
def InOrder [DecidableEq ι] (pending : List ι) (new : List (ι × Answer)) : Prop :=
  ((answered .applied new).filter fun i => i ∉ answered .deferred new).Sublist pending

theorem mem_answered {answer : Answer} {i : ι} {l : List (ι × Answer)} : i ∈ answered answer l ↔ (i, answer) ∈ l := by
  simp [answered]

/-- the last pass -/
theorem passes_last {pending : List ι} {s s' : Tables Row Kept} {new : List (ι × Answer)} (hpositions : new.map Prod.fst = pending)
    (hreplays : Replays apply event s new s')
    (hstop : answered .deferred new = [] ∨ ¬ (answered .deferred new).length < pending.length) :
    Passes apply event pending s s' new (answered .deferred new) where
  replays := hreplays
  answers := hpositions ▸ answered_perm new
  left := by
    intro i hi
    rcases hstop with hnone | hall
    · rw [hnone] at hi
      cases hi
    · rw [← hpositions, List.length_map] at hall
      obtain ⟨hsame, hdefers⟩ := hreplays.of_deferred (all_deferred hall)
      rw [hsame]
      exact hdefers _ (mem_answered.1 hi)
  subset := fun a ha => hpositions ▸ List.mem_map_of_mem ha

/-- a pass that is followed by passes over what it deferred -/
theorem passes_more {pending : List ι} {s mid s' : Tables Row Kept} {first rest : List (ι × Answer)} {left : List ι}
    (hpositions : first.map Prod.fst = pending) (hreplays : Replays apply event s first mid)
    (h : Passes apply event (answered .deferred first) mid s' rest left) :
    Passes apply event pending s s' (first ++ rest) left where
  replays := hreplays.append h.replays
  answers := by
    rw [answered_append, answered_append]
    have hsplit := (answered_perm first).symm.trans (h.answers.symm.append_left (answered .applied first ++ answered .refused first))
    rw [hpositions] at hsplit
    refine List.Perm.trans ?_ hsplit.symm
    classical
    rw [List.perm_iff_count]
    intro a
    simp only [List.count_append]
    omega
  left := h.left
  subset := by
    intro a ha
    rcases List.mem_append.1 ha with ha | ha
    · exact hpositions ▸ List.mem_map_of_mem ha
    · exact hpositions ▸ (answered_sublist .deferred first).subset (h.subset a ha)

/-- only events that waited are tried again -/
theorem inOrder_more [DecidableEq ι] {pending : List ι} {first rest : List (ι × Answer)} (hpositions : first.map Prod.fst = pending)
    (hrest : ∀ a ∈ rest, a.1 ∈ answered .deferred first) : InOrder pending (first ++ rest) := by
  unfold InOrder
  rw [answered_append .applied, List.filter_append]
  have hnone : (answered .applied rest).filter (fun i => i ∉ answered .deferred (first ++ rest)) = [] := by
    rw [List.filter_eq_nil_iff]
    intro i hi
    have := hrest _ (mem_answered.1 hi)
    simp [this]
  rw [hnone, List.append_nil, ← hpositions]
  exact List.filter_sublist.trans (answered_sublist .applied first)

/-- **The passes.** Whenever they end without a fault, every pending event was applied once, was refused, or is left waiting. -/
theorem loop_spec [DecidableEq ι] {pending : List ι} {tx : Tx Row Kept ι} {refused : ℕ} {p : Pass Row Kept ι}
    (h : loop faults apply event pending tx refused = .ok p) :
    ∃ new, p.tx.attempts = tx.attempts ++ new ∧ Passes apply event pending tx.tables p.tx.tables new p.deferred ∧
      InOrder pending new ∧ p.refused = refused + (answered .refused new).length := by
  induction pending, tx, refused using loop.induct faults apply event with
  | case1 pending tx refused e he =>
    rw [loop, he] at h
    cases h
  | case2 pending tx refused p' hp hstop =>
    rw [loop, hp] at h
    simp only [hstop, dite_true] at h
    cases h
    obtain ⟨new, hpositions, hattempts, hreplays, hdeferred, hrefused⟩ := runPass_spec hp
    rw [List.nil_append] at hdeferred
    rw [hdeferred] at hstop ⊢
    refine ⟨new, hattempts, passes_last hpositions hreplays hstop, ?_, hrefused⟩
    have hmore := inOrder_more hpositions (fun a (ha : a ∈ []) => nomatch ha)
    rwa [List.append_nil] at hmore
  | case3 pending tx refused p' hp hgo ih =>
    rw [loop, hp] at h
    simp only [hgo, dite_false] at h
    obtain ⟨first, hpositions, hattempts, hreplays, hdeferred, hrefused⟩ := runPass_spec hp
    obtain ⟨rest, hattempts', hpasses, -, hrefused'⟩ := ih h
    rw [hdeferred, List.nil_append] at hpasses
    refine ⟨first ++ rest, ?_, passes_more hpositions hreplays hpasses, inOrder_more hpositions hpasses.subset, ?_⟩
    · rw [hattempts', hattempts, List.append_assoc]
    · rw [hrefused', hrefused, answered_append, List.length_append, add_assoc]

/-! ## Rebuilds -/

theorem rebuildTx_spec {db : Tables Row Kept} {events : List E} {tx : Tx Row Kept (Fin events.length)} {outcome : RebuildOutcome}
    (h : rebuildTx faults apply db events = .ok (tx, outcome)) :
    Rebuilt apply events (cleared db) tx.tables tx.attempts outcome := by
  obtain ⟨begun, hbegun, h⟩ := bind_eq_ok.1 h
  obtain ⟨emptied, hemptied, h⟩ := bind_eq_ok.1 h
  obtain ⟨p, hloop, h⟩ := bind_eq_ok.1 h
  obtain ⟨done, hdone, h⟩ := bind_eq_ok.1 h
  cases h
  obtain ⟨hbegunTables, hbegunLog⟩ := execute_eq_ok hbegun
  obtain ⟨hemptiedTables, hemptiedLog⟩ := truncateAll_spec hemptied
  obtain ⟨hdoneTables, hdoneLog⟩ := execute_eq_ok hdone
  obtain ⟨new, hattempts, hpasses, horder, hrefused⟩ := loop_spec hloop
  rw [hemptiedTables, hbegunTables, truncate_projectionTables] at hpasses
  rw [hemptiedLog, hbegunLog, List.nil_append] at hattempts
  rw [hdoneTables, hdoneLog, hattempts]
  have hlength := hpasses.answers.length_eq
  simp only [List.length_append, List.length_finRange] at hlength
  rw [zero_add] at hrefused
  exact {
    replays := hpasses.replays
    performs := hpasses.replays.performs
    inOrder := (List.pairwise_lt_finRange _).sublist horder
    applied := by
      change events.length - (p.refused + p.deferred.length) = _
      omega
    total := by
      change events.length - (p.refused + p.deferred.length) + (p.refused + p.deferred.length) = _
      omega
    left := ⟨p.deferred, hpasses.answers, hpasses.left, by
      change p.refused + p.deferred.length = _
      omega⟩ }

end

/-- **Rebuild.** A rebuild always ends. If a statement or an event fails, the tables are as before. Else they are the empty ones with
the applied events performed once each, in the given order unless an event had to wait; refused events have done nothing, and what
is left still waits. -/
theorem rebuild_reaches_fixed_point (faults : Faults) (apply : Apply Row Kept E) (db : Tables Row Kept) (events : List E) :
    match rebuildFromScratch faults apply db events with
    | (final, .error _) => final = db
    | (final, .ok outcome) => ∃ tx, rebuildTx faults apply db events = .ok (tx, outcome) ∧ tx.tables = final ∧
        Rebuilt apply events (cleared db) final tx.attempts outcome := by
  unfold rebuildFromScratch
  cases h : rebuildTx faults apply db events with
  | error e => rfl
  | ok result =>
    obtain ⟨tx, outcome⟩ := result
    exact ⟨tx, rfl, rfl, rebuildTx_spec h⟩

end Avalon.Rebuild
