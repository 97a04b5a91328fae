/-
The profile of an identity, projected through its chain (`crates/indexer/src/postgres.rs`: `apply_profile_chained`;
`crates/indexer/src/projections/profiles.rs`: `decode`, `revert_of`, `apply`).

A `profile.updated` event sets some fields of a profile. One that is accepted behind all others is applied to the row as it is.
One that changes which other events are accepted has the fields of the displaced updates cleared, but for the name, and all
accepted updates applied again. Events of other kinds change the chain only: an update that waited for one of them, or is
displaced by it, stays as it is in the row.

Eight fields hold a text or nothing and two hold a list of texts: they are indexed here by the keys of the payload. Whether a name
may be taken (it is permitted, and no other identity holds it) is a parameter. The verification, and the projections of
other kinds, which do not touch profiles, are inputs of a delivery as in `Dispatch`.

Results:
- `prefix_of_indexed`, `accepted_grows`: events of a chain are numbered through, so that one accepted next to all others comes last.
- `row_replayed`: clearing the displaced updates and applying the accepted ones gives what the accepted ones alone give, but for
  a displaced name.
- `profile_of_accepted`: in every run in which events of other kinds leave the accepted updates as they are, and no name is
  displaced without another one, the row is the creation profile with the accepted updates applied in chain order.
- `waiting_update_not_projected`: an update that waited for an event of another kind is accepted, and not applied.
-/
import Mathlib.Tactic
import Avalon.Core.Fallible
import Avalon.Core.Json
import Avalon.Core.Replay
import Avalon.Core.SortedMap
import Avalon.Protocol.Events
import Avalon.Protocol.IdentityId
import Avalon.Protocol.IdentityChain
import Avalon.Protocol.IdentityChainWire
import Avalon.Indexer.ChainStore
import Avalon.Indexer.Dispatch

namespace Avalon.ProfileChain

open Json Avalon.Events Avalon.Identity Avalon.IdentityChain Avalon.LedgerEntry Avalon.ChainStore Avalon.Dispatch
open Fallible Replay

variable {F : Type} [F64 F]

/-! ## Writes -/

/-- the fields that hold a text or nothing -/
inductive TextField where
  | avatarUrl
  | bio
  | pronouns
  | bannerUrl
  | status
  | timezone
  | themeColor
  | location
deriving DecidableEq

instance : Fintype TextField :=
  ⟨{.avatarUrl, .bio, .pronouns, .bannerUrl, .status, .timezone, .themeColor, .location}, fun f => by cases f <;> decide⟩

def TextField.key : TextField → String
  | avatarUrl => "avatar_url"
  | bio => "bio"
  | pronouns => "pronouns"
  | bannerUrl => "banner_url"
  | status => "status"
  | timezone => "timezone"
  | themeColor => "theme_color"
  | location => "location"

/-- the fields that hold a list of texts -/
inductive ListField where
  | favoriteGenres
  | links
deriving DecidableEq

instance : Fintype ListField := ⟨{.favoriteGenres, .links}, fun f => by cases f <;> decide⟩

def ListField.key : ListField → String
  | favoriteGenres => "favorite_genres"
  | links => "links"

/-- what an update sets; none leaves a field alone, and some none clears it -/
structure ProfileWrite where
  identityId : IdentityId
  displayName : Option String
  text : TextField → Option (Option String)
  list : ListField → Option (List String)
  mainGuild : Option (Option Uuid)
deriving DecidableEq

/-- the value under a key of an object -/
def get (v : Value F) (key : String) : Option (Value F) :=
  match v with
  | .object entries => SortedMap.find entries key
  | _ => none

def asStr : Value F → Option String
  | .string s => some s
  | _ => none

/-- the texts of an array; other items are left out, and what is no array is empty -/
def texts : Value F → List String
  | .array items => items.filterMap asStr
  | _ => []

def identityIdFromGlobalId (id : String) : Option IdentityId := (identityPart id).bind fun part => (IdentityId.parse part).toOption

def decode (event : Event F) : Option ProfileWrite :=
  if event.kind = "profile.updated" then do
    let identityId ← identityIdFromGlobalId event.subject
    return {
      identityId
      displayName := (get event.payload "display_name").bind asStr
      text := fun f => (get event.payload f.key).map asStr
      list := fun f => (get event.payload f.key).map texts
      mainGuild := (get event.payload "main_guild").map fun v => (asStr v).bind parseUuid }
  else none

/-- clears every field the write sets, but for the name -/
def revertOf (w : ProfileWrite) : ProfileWrite where
  identityId := w.identityId
  displayName := none
  text f := (w.text f).map fun _ => none
  list f := (w.list f).map fun _ => []
  mainGuild := w.mainGuild.map fun _ => none

/-! ## Rows -/

/-- a row of `profiles` -/
structure ProfileRow where
  displayName : String
  text : TextField → Option String
  list : ListField → List String
  mainGuild : Option Uuid
deriving DecidableEq

/-- the row of a new profile -/
def ProfileRow.named (name : String) : ProfileRow := ⟨name, fun _ => none, fun _ => [], none⟩

def ProfileRow.set (row : ProfileRow) (w : ProfileWrite) : ProfileRow where
  displayName := w.displayName.getD row.displayName
  text f := (w.text f).getD (row.text f)
  list f := (w.list f).getD (row.list f)
  mainGuild := w.mainGuild.getD row.mainGuild

abbrev Rows := IdentityId → Option ProfileRow

/-- INSERT .. ON CONFLICT (identity_id) DO UPDATE; without a row and a name it is skipped -/
def apply (mayHold : IdentityId → String → Bool) (rows : Rows) (w : ProfileWrite) : Except Refusal Rows :=
  if w.displayName.all (mayHold w.identityId) then
    match rows w.identityId, w.displayName with
    | some row, _ => .ok (Function.update rows w.identityId (some (row.set w)))
    | none, some name => .ok (Function.update rows w.identityId (some ((ProfileRow.named name).set w)))
    | none, none => .ok rows
  else .error .projection

def applyAll (mayHold : IdentityId → String → Bool) (rows : Rows) (ws : List ProfileWrite) : Except Refusal Rows :=
  ws.foldlM (apply mayHold) rows

/-- the writes of the updates among some events -/
def updates (events : List (Event F)) : List ProfileWrite :=
  (events.filter fun e => decide (e.kind = "profile.updated")).filterMap decode

def applyProfileChained (mayHold : IdentityId → String → Bool) (rows : Rows) (event : Event F) (accepted : Bool)
    (displaced : List (Event F)) (gapFilled : Bool) (acceptedEvents : List (Event F)) : Except Refusal Rows :=
  if displaced.isEmpty && !gapFilled then
    if accepted then applyAll mayHold rows (decode event).toList else .ok rows
  else do
    let rows ← applyAll mayHold rows ((updates displaced).map revertOf)
    applyAll mayHold rows (updates acceptedEvents)

/-! ## Deliveries -/

/-- what the projections make of an event -/
def projectProfile (mayHold : IdentityId → String → Bool) (rows : Rows) (a : Arrival F) (_ : Unit) (r : Recorded F) :
    Except Refusal Rows :=
  if a.event.kind = "profile.updated" then
    match r with
    | .chained accepted displaced newlyAccepted acceptedEvents =>
      applyProfileChained mayHold rows a.event accepted displaced (!newlyAccepted.isEmpty) acceptedEvents
    | _ => applyAll mayHold rows (decode a.event).toList
  else if a.projected then .ok rows
  else .error .projection

def receiveProfile (mayHold : IdentityId → String → Bool) (s : Indexed F Rows) (a : Arrival F) : Indexed F Rows :=
  applyVerified s (dispatch .storage a.verify (projectProfile mayHold s.projected a) a.now a.shardId s a.event)

def receiveProfiles (mayHold : IdentityId → String → Bool) (s : Indexed F Rows) (as : List (Arrival F)) : Indexed F Rows :=
  as.foldl (receiveProfile mayHold) s

/-- the updates of an identity's own profile among some events -/
def writesOf (owner : IdentityId) (events : List (Event F)) : List ProfileWrite :=
  (updates events).filter fun w => decide (w.identityId = owner)

/-- a profile with the updates among some events applied in their order -/
def replay (owner : IdentityId) (row : ProfileRow) (events : List (Event F)) : ProfileRow :=
  (writesOf owner events).foldl ProfileRow.set row

/-! ## One field -/

/-- a field after some writes to it -/
def settle {α : Type} (v : α) (ws : List (Option α)) : α := ws.foldl (fun v w => w.getD v) v

section Settle

variable {α : Type} {v v' d : α} {ws old new : List (Option α)}

theorem settle_of_none (h : ∀ w ∈ ws, w = none) : settle v ws = v := by
  induction ws with
  | nil => rfl
  | cons w ws ih =>
    obtain ⟨rfl, hrest⟩ := List.forall_mem_cons.1 h
    exact ih hrest

/-- a write hides what was there before -/
theorem settle_of_some (h : ∃ w ∈ ws, w ≠ none) : settle v ws = settle v' ws := by
  induction ws generalizing v v' with
  | nil => simp at h
  | cons w ws ih =>
    cases w with
    | some a => rfl
    | none =>
      obtain ⟨w, hw, hne⟩ := h
      rcases List.mem_cons.1 hw with rfl | hw
      · exact absurd rfl hne
      · exact ih ⟨w, hw, hne⟩

/-- a field that is cleared when it was set at all -/
theorem settle_cleared : settle v (ws.map fun w => w.map fun _ => d) = if ∀ w ∈ ws, w = none then v else d := by
  induction ws generalizing v with
  | nil => simp [settle]
  | cons w ws ih =>
    cases w with
    | none =>
      have hstep : settle v ((none :: ws).map fun w => w.map fun _ => d) = settle v (ws.map fun w => w.map fun _ => d) := rfl
      rw [hstep, ih]
      simp
    | some a =>
      have hstep : settle v ((some a :: ws).map fun w => w.map fun _ => d) = settle d (ws.map fun w => w.map fun _ => d) := rfl
      rw [hstep, ih]
      simp

/-- **Clearing the displaced writes and repeating the accepted ones** gives what the accepted ones alone give -/
theorem settle_replayed {displaced : List (Option α)} (h : ∀ w ∈ old, w ∈ new ∨ w ∈ displaced) :
    settle (settle (settle d old) (displaced.map fun w => w.map fun _ => d)) new = settle d new := by
  by_cases hnew : ∃ w ∈ new, w ≠ none
  · exact settle_of_some hnew
  · simp only [ne_eq, not_exists, not_and, not_not] at hnew
    rw [settle_of_none hnew, settle_of_none hnew, settle_cleared]
    split_ifs with hdisplaced
    · -- then nothing was written at all
      refine settle_of_none fun w hw => ?_
      rcases h w hw with hw | hw
      · exact hnew w hw
      · exact hdisplaced w hw
    · rfl

/-- without clearing, nothing may be left of the old writes -/
theorem settle_repeated (h : (∃ w ∈ new, w ≠ none) ∨ ∀ w ∈ old, w = none) : settle (settle v old) new = settle v new := by
  rcases h with hnew | hold
  · exact settle_of_some hnew
  · rw [settle_of_none hold]

end Settle

/-! ## Rows -/

@[simp] theorem displayName_setAll (row : ProfileRow) (ws : List ProfileWrite) :
    (ws.foldl ProfileRow.set row).displayName = settle row.displayName (ws.map ProfileWrite.displayName) := by
  induction ws generalizing row with
  | nil => rfl
  | cons w ws ih => exact ih (row.set w)

@[simp] theorem text_setAll (row : ProfileRow) (ws : List ProfileWrite) (f : TextField) :
    (ws.foldl ProfileRow.set row).text f = settle (row.text f) (ws.map fun w => w.text f) := by
  induction ws generalizing row with
  | nil => rfl
  | cons w ws ih => exact ih (row.set w)

@[simp] theorem list_setAll (row : ProfileRow) (ws : List ProfileWrite) (f : ListField) :
    (ws.foldl ProfileRow.set row).list f = settle (row.list f) (ws.map fun w => w.list f) := by
  induction ws generalizing row with
  | nil => rfl
  | cons w ws ih => exact ih (row.set w)

@[simp] theorem mainGuild_setAll (row : ProfileRow) (ws : List ProfileWrite) :
    (ws.foldl ProfileRow.set row).mainGuild = settle row.mainGuild (ws.map ProfileWrite.mainGuild) := by
  induction ws generalizing row with
  | nil => rfl
  | cons w ws ih => exact ih (row.set w)

theorem ProfileRow.ext' {row row' : ProfileRow} (hname : row.displayName = row'.displayName) (htext : ∀ f, row.text f = row'.text f)
    (hlist : ∀ f, row.list f = row'.list f) (hguild : row.mainGuild = row'.mainGuild) : row = row' := by
  cases row
  cases row'
  simp only [ProfileRow.mk.injEq]
  exact ⟨hname, funext htext, funext hlist, hguild⟩

/-- **Replayed rows.** From a new profile with the old updates applied: with the displaced ones cleared and the new ones
applied, it is the new profile with the new updates applied, unless a displaced update left a name -/
theorem row_replayed {name : String} {old displaced new : List ProfileWrite} (h : ∀ w ∈ old, w ∈ new ∨ w ∈ displaced)
    (hname : (∃ w ∈ new, w.displayName ≠ none) ∨ ∀ w ∈ old, w.displayName = none) :
    new.foldl ProfileRow.set ((displaced.map revertOf).foldl ProfileRow.set (old.foldl ProfileRow.set (.named name))) =
      new.foldl ProfileRow.set (.named name) := by
  have hmem : ∀ {α : Type} (g : ProfileWrite → Option α), ∀ w ∈ old.map g, w ∈ new.map g ∨ w ∈ displaced.map g := by
    intro α g w hw
    obtain ⟨x, hx, rfl⟩ := List.mem_map.1 hw
    exact (h x hx).imp (fun h => List.mem_map.2 ⟨x, h, rfl⟩) fun h => List.mem_map.2 ⟨x, h, rfl⟩
  apply ProfileRow.ext'
  · have hcleared : (displaced.map revertOf).map ProfileWrite.displayName = displaced.map fun _ => none := by
      rw [List.map_map]
      rfl
    simp only [displayName_setAll, hcleared]
    rw [settle_of_none (by simp : ∀ w ∈ displaced.map fun _ => (none : Option String), w = none)]
    refine settle_repeated (hname.imp ?_ ?_)
    · rintro ⟨w, hw, hne⟩
      exact ⟨_, List.mem_map.2 ⟨w, hw, rfl⟩, hne⟩
    · intro hnone w hw
      obtain ⟨x, hx, rfl⟩ := List.mem_map.1 hw
      exact hnone x hx
  · intro f
    have hcleared : (displaced.map revertOf).map (fun w => w.text f) =
        (displaced.map fun w => w.text f).map fun w => w.map fun _ => none := by
      rw [List.map_map, List.map_map]
      rfl
    simp only [text_setAll, hcleared]
    exact settle_replayed (hmem fun w => w.text f)
  · intro f
    have hcleared : (displaced.map revertOf).map (fun w => w.list f) =
        (displaced.map fun w => w.list f).map fun w => w.map fun _ => [] := by
      rw [List.map_map, List.map_map]
      rfl
    simp only [list_setAll, hcleared]
    exact settle_replayed (hmem fun w => w.list f)
  · have hcleared : (displaced.map revertOf).map ProfileWrite.mainGuild =
        (displaced.map ProfileWrite.mainGuild).map fun w => w.map fun _ => none := by
      rw [List.map_map, List.map_map]
      rfl
    simp only [mainGuild_setAll, hcleared]
    exact settle_replayed (hmem ProfileWrite.mainGuild)

/-! ## Accepted events -/

/-- events that are numbered through from one start: those of one list among those of the other come first there -/
theorem prefix_of_indexed {α : Type} {g : α → ℕ} {k : ℕ} {l l' : List α} (h : l.map g = List.range' k l.length)
    (h' : l'.map g = List.range' k l'.length) (hsub : l ⊆ l') : l <+: l' := by
  induction l generalizing k l' with
  | nil => exact List.nil_prefix
  | cons a t ih =>
    cases l' with
    | nil => exact absurd (hsub List.mem_cons_self) (by simp)
    | cons b t' =>
      simp only [List.map_cons, List.length_cons, List.range'_succ, List.cons.injEq] at h h'
      have hlater : ∀ x, x ∈ t' ∨ x ∈ t → g x ≠ k := by
        intro x hx heq
        have hmem : g x ∈ List.range' (k + 1) t'.length ∨ g x ∈ List.range' (k + 1) t.length := by
          rw [← h.2, ← h'.2]
          exact hx.imp (fun h => List.mem_map_of_mem h) fun h => List.mem_map_of_mem h
        simp only [List.mem_range'_1] at hmem
        omega
      have hab : a = b := by
        rcases List.mem_cons.1 (hsub List.mem_cons_self) with hab | hmem
        · exact hab
        · exact absurd h.1 (hlater a (.inl hmem))
      subst hab
      refine (List.prefix_cons_inj a).2 (ih h.2 h'.2 fun x hx => ?_)
      rcases List.mem_cons.1 (hsub (List.mem_cons_of_mem _ hx)) with rfl | hmem
      · exact absurd h.1 (hlater x (.inr hx))
      · exact hmem

theorem seqs_of_run {recoveries : Finset EventHash} {l acc : List ChainedEvent} {k : ℕ × Option EventHash}
    {f : Option (ℕ × Option EventHash)} (h : ChainRun recoveries l k acc f) :
    acc.map ChainedEvent.seq = List.range' k.1 acc.length := by
  induction h with
  | done => rfl
  | frozen => rfl
  | @step k w acc f hchoose _ _ ih =>
    have hpos : position w = k := (mem_candidates.1 (mem_of_choose hchoose)).2
    have hseq : w.seq = k.1 := congrArg Prod.fst hpos
    rw [List.map_cons, ih, List.length_cons, List.range'_succ, hseq]
    simp [opens, hseq]

/-- the sequence number of a chained event -/
def seqOf (event : Event F) : ℕ := ((chainedEvent event).map ChainedEvent.seq).getD 0

theorem chained_acceptedOf {events : List (Event F)} (hd : DistinctHashes events) :
    (acceptedOf (storedOf events) (outcome events)).map Stored.chained = (outcome events).accepted := by
  unfold acceptedOf
  have hfind : ∀ a ∈ (outcome events).accepted, ∃ s,
      (storedOf events).find? (fun s => decide (s.chained.eventHash = a.eventHash)) = some s ∧ s.chained = a := by
    intro a ha
    obtain ⟨s, hs, rfl⟩ := stored_of_accepted ha
    exact ⟨s, find?_hash hd hs rfl, rfl⟩
  generalize (outcome events).accepted = acc at hfind
  induction acc with
  | nil => rfl
  | cons a acc ih =>
    obtain ⟨hfirst, hrest⟩ := List.forall_mem_cons.1 hfind
    obtain ⟨s, hs, hchained⟩ := hfirst
    simp only [List.filterMap_cons, hs, List.map_cons, hchained, ih hrest]

/-- **Accepted events are numbered through** -/
theorem seqs_accepted {events : List (Event F)} (hd : DistinctHashes events) :
    (accepted events).map seqOf = List.range' 1 (accepted events).length := by
  have hseqs : (accepted events).map seqOf = (outcome events).accepted.map ChainedEvent.seq := by
    rw [← chained_acceptedOf hd, accepted, List.map_map, List.map_map]
    apply List.map_congr_left
    intro s hs
    obtain ⟨hstored, -⟩ := (mem_acceptedOf hd).1 hs
    simp [seqOf, (mem_storedOf.1 hstored).2]
  have hlength : (accepted events).length = (outcome events).accepted.length := by
    rw [← chained_acceptedOf hd, accepted, List.length_map, List.length_map]
  obtain ⟨f, -, hrun⟩ := resolveIdentityChain_run ((storedOf events).map Stored.chained)
    ((((storedOf events).filter fun s => decide (s.event.kind = "identity.recovered")).map fun s => s.chained.eventHash).toFinset)
  rw [hseqs, hlength]
  exact seqs_of_run hrun

/-- **One event next to all others comes last** -/
theorem accepted_grows {events events' : List (Event F)} {event : Event F} (hd : DistinctHashes events)
    (hd' : DistinctHashes events') (hkept : accepted events ⊆ accepted events')
    (honly : ∀ x ∈ accepted events', x ∈ accepted events ∨ x = event) :
    accepted events' = accepted events ∨ accepted events' = accepted events ++ [event] := by
  have hseqs := seqs_accepted hd
  have hseqs' := seqs_accepted hd'
  obtain ⟨t, ht⟩ := prefix_of_indexed hseqs hseqs' hkept
  have hnodup : (accepted events').Nodup := by
    refine List.Nodup.of_map seqOf ?_
    rw [hseqs']
    exact List.nodup_range'
  rw [← ht] at hnodup honly ⊢
  have hdisjoint := (List.nodup_append.1 hnodup).2.2
  have htail : ∀ x ∈ t, x = event := by
    intro x hx
    refine (honly x (List.mem_append_right _ hx)).resolve_left fun hold => ?_
    exact hdisjoint x hold x hx rfl
  cases t with
  | nil => exact .inl (List.append_nil _)
  | cons x rest =>
    right
    have hrest : rest = [] := by
      cases rest with
      | nil => rfl
      | cons y rest =>
        have hxy : x = y := (htail x (by simp)).trans (htail y (by simp)).symm
        have := (List.nodup_append.1 hnodup).2.1
        simp [hxy] at this
    rw [hrest, htail x (by simp)]

/-! ## Writes to the rows -/

section Rows

variable {mayHold : IdentityId → String → Bool} {owner : IdentityId} {row : ProfileRow}

theorem apply_row {rows rows' : Rows} {w : ProfileWrite} (h : apply mayHold rows w = .ok rows') (hrow : rows owner = some row) :
    rows' owner = some (if w.identityId = owner then row.set w else row) := by
  unfold apply at h
  split_ifs at h
  by_cases hown : w.identityId = owner
  · rw [hown, hrow] at h
    cases h
    rw [Function.update_self, if_pos hown]
  · rw [if_neg hown]
    split at h
    · cases h
      rw [Function.update_of_ne (Ne.symm hown), hrow]
    · cases h
      rw [Function.update_of_ne (Ne.symm hown), hrow]
    · cases h
      exact hrow

theorem applyAll_row {rows rows' : Rows} {ws : List ProfileWrite} (h : applyAll mayHold rows ws = .ok rows')
    (hrow : rows owner = some row) :
    rows' owner = some ((ws.filter fun w => decide (w.identityId = owner)).foldl ProfileRow.set row) := by
  induction ws generalizing rows row with
  | nil =>
    cases h
    exact hrow
  | cons w ws ih =>
    rw [applyAll, List.foldlM_cons] at h
    obtain ⟨next, happly, h⟩ := bind_eq_ok.1 h
    have hnext := ih h (apply_row happly hrow)
    by_cases hown : w.identityId = owner
    · simpa [List.filter_cons, hown] using hnext
    · simpa [List.filter_cons, hown] using hnext

omit [F64 F] in
theorem mem_writesOf {events : List (Event F)} {w : ProfileWrite} :
    w ∈ writesOf owner events ↔ ∃ e ∈ events, e.kind = "profile.updated" ∧ decode e = some w ∧ w.identityId = owner := by
  simp only [writesOf, updates, List.mem_filter, List.mem_filterMap, decide_eq_true_eq]
  constructor
  · rintro ⟨⟨e, ⟨he, hkind⟩, hdecode⟩, hown⟩
    exact ⟨e, he, hkind, hdecode, hown⟩
  · rintro ⟨e, he, hkind, hdecode, hown⟩
    exact ⟨⟨e, ⟨he, hkind⟩, hdecode⟩, hown⟩

omit [F64 F] in
theorem replay_concat (events : List (Event F)) {event : Event F} (hkind : event.kind = "profile.updated") :
    replay owner row (events ++ [event]) =
      ((decode event).toList.filter fun w => decide (w.identityId = owner)).foldl ProfileRow.set (replay owner row events) := by
  have hlast : updates [event] = (decode event).toList := by
    cases hdecode : decode event <;> simp [updates, hkind, hdecode]
  rw [replay, replay, writesOf, writesOf, ← hlast, ← List.foldl_append, ← List.filter_append]
  congr 2
  simp only [updates, List.filter_append, List.filterMap_append]

omit [F64 F] in
theorem filter_revertOf (ws : List ProfileWrite) :
    (ws.map revertOf).filter (fun w => decide (w.identityId = owner)) =
      (ws.filter fun w => decide (w.identityId = owner)).map revertOf := by
  rw [List.filter_map]
  rfl

end Rows

/-! ## What should hold, and when -/

/-- the condition for an event that is to be recorded. An event of another kind leaves the accepted updates as they are. An update
is not stored yet, nor any event under its id; and if no accepted update sets the name then, none did before. -/
def Meets (owner : IdentityId) (s : Indexed F Rows) (a : Arrival F) : Prop :=
  ∀ ch ∈ chainedEvent a.event, a.verified = true → (a.event.id, a.shardId) ∉ s.applied → Timely a.now a.event →
    if a.event.kind = "profile.updated" then
      (∀ t ∈ storedOf (s.chains owner).events, t.chained.eventHash ≠ ch.eventHash) ∧
      (∀ e ∈ (s.chains owner).events, e.id ≠ a.event.id) ∧
      ((∃ w ∈ writesOf owner (accepted (eventsWith (s.chains owner).events a.event ch.eventHash)), w.displayName ≠ none) ∨
        ∀ w ∈ writesOf owner (accepted (s.chains owner).events), w.displayName = none)
    else
      writesOf owner (accepted (eventsWith (s.chains owner).events a.event ch.eventHash)) =
        writesOf owner (accepted (s.chains owner).events)

instance (owner : IdentityId) (s : Indexed F Rows) (a : Arrival F) : Decidable (Meets owner s a) :=
  inferInstanceAs (Decidable (∀ ch ∈ chainedEvent a.event, _))

/-- every delivery meets the condition in the state it finds -/
def Along (mayHold : IdentityId → String → Bool) (owner : IdentityId) : Indexed F Rows → List (Arrival F) → Prop
  | _, [] => True
  | s, a :: as => Meets owner s a ∧ Along mayHold owner (receiveProfile mayHold s a) as

instance decidableAlong (mayHold : IdentityId → String → Bool) (owner : IdentityId) :
    (s : Indexed F Rows) → (as : List (Arrival F)) → Decidable (Along mayHold owner s as)
  | _, [] => inferInstanceAs (Decidable True)
  | s, a :: as =>
    have := decidableAlong mayHold owner (receiveProfile mayHold s a) as
    inferInstanceAs (Decidable (Meets owner s a ∧ Along mayHold owner (receiveProfile mayHold s a) as))

/-- the row is the creation profile with the accepted updates applied -/
structure Projected (owner : IdentityId) (name : String) (s : Indexed F Rows) : Prop where
  ok : (s.chains owner).Ok
  row : s.projected owner = some (replay owner (.named name) (accepted (s.chains owner).events))

/-! ## One delivery -/

section Step

variable {mayHold : IdentityId → String → Bool} {owner : IdentityId} {name : String} {a : Arrival F} {ch : ChainedEvent}
  {old new displaced newlyAccepted : List (Event F)} {rows rows' : Rows}

omit [F64 F] in
/-- an update that changes which other events are accepted -/
theorem row_of_replayed (hrow : rows owner = some (replay owner (.named name) old))
    (hdisplaced : ∀ x, x ∈ displaced ↔ x ∈ old ∧ x ∉ new)
    (hname : (∃ w ∈ writesOf owner new, w.displayName ≠ none) ∨ ∀ w ∈ writesOf owner old, w.displayName = none)
    (h : (do
      let rows ← applyAll mayHold rows ((updates displaced).map revertOf)
      applyAll mayHold rows (updates new)) = Except.ok rows') :
    rows' owner = some (replay owner (.named name) new) := by
  obtain ⟨cleared, hclear, h⟩ := bind_eq_ok.1 h
  have hcleared := applyAll_row hclear hrow
  rw [filter_revertOf] at hcleared
  rw [applyAll_row h hcleared]
  congr 1
  refine row_replayed (fun w hw => ?_) hname
  obtain ⟨e, he, hkind, hdecode, hown⟩ := mem_writesOf.1 hw
  by_cases hin : e ∈ new
  · exact .inl (mem_writesOf.2 ⟨e, hin, hkind, hdecode, hown⟩)
  · exact .inr (mem_writesOf.2 ⟨e, (hdisplaced e).2 ⟨he, hin⟩, hkind, hdecode, hown⟩)

/-- an update that changes nothing for the other events -/
theorem row_of_applied {c c' : Chain F} {r : Recorded F} (hc : c.Ok) (htook : Took c c' a.event ch.eventHash r)
    (hch : chainedEvent a.event = some ch) (hkind : a.event.kind = "profile.updated") (hevents : c'.events = c.events ++ [a.event])
    (hfresh : ∀ t ∈ storedOf c.events, t.chained.eventHash ≠ ch.eventHash) (hkept : accepted c.events ⊆ accepted c'.events)
    (honly : ∀ x ∈ accepted c'.events, x ∈ accepted c.events ∨ x = a.event)
    (hrow : rows owner = some (replay owner (.named name) (accepted c.events)))
    (h : (if ch.eventHash ∈ hashesOf (outcome c'.events) then applyAll mayHold rows (decode a.event).toList else .ok rows) =
      Except.ok rows') :
    rows' owner = some (replay owner (.named name) (accepted c'.events)) := by
  have hgrows := accepted_grows hc.distinctHashes htook.ok.distinctHashes hkept honly
  have hmem : a.event ∈ c'.events := by simp [hevents]
  have haccepted := htook.accepted_iff hch hmem
  have hnew : a.event ∉ accepted c.events := by
    intro hold
    obtain ⟨hin, ch', hch', -⟩ := (mem_accepted hc.distinctHashes).1 hold
    obtain rfl := Option.some.inj (hch.symm.trans hch')
    exact hfresh ⟨a.event, ch⟩ (mem_storedOf.2 ⟨hin, hch⟩) rfl
  split_ifs at h with hin
  · -- it is accepted, and comes last
    have hlast : accepted c'.events = accepted c.events ++ [a.event] := by
      refine hgrows.resolve_left fun hsame => hnew ?_
      rw [← hsame]
      exact haccepted.1 hin
    rw [applyAll_row h hrow, hlast, replay_concat _ hkind]
  · have hsame : accepted c'.events = accepted c.events := by
      refine hgrows.resolve_right fun hlast => hin (haccepted.2 ?_)
      simp [hlast]
    cases h
    rw [hrow, hsame]

end Step

/-- **One delivery** keeps the row what the accepted updates say -/
theorem projected_receiveProfile {mayHold : IdentityId → String → Bool} {owner : IdentityId} {name : String} {s : Indexed F Rows}
    {a : Arrival F} (hs : Projected owner name s) (howner : chainOwner a.event = some owner)
    (hchained : (chainedEvent a.event).isSome) (hmeets : Meets owner s a) : Projected owner name (receiveProfile mayHold s a) := by
  obtain ⟨ch, hch⟩ := Option.isSome_iff_exists.1 hchained
  have hcases : (receiveProfile mayHold s a = s ∧ Ignored a.verify (projectProfile mayHold s.projected a) a.now a.shardId s a.event) ∨
      Claimed a.verify (projectProfile mayHold s.projected a) a.now a.shardId s (receiveProfile mayHold s a) a.event owner ch :=
    dispatch_cases hs.ok howner hch
  rcases hcases with ⟨hsame, -⟩ | hclaimed
  · rw [hsame]
    exact hs
  obtain ⟨u, hverified, ⟨-, hchain, hrows⟩ | ⟨r, htimely, htook, hproject⟩⟩ := hclaimed.chain
  · refine ⟨hchain ▸ ok_lockState hs.ok, ?_⟩
    rw [hrows, hchain]
    exact hs.row
  refine ⟨htook.ok, ?_⟩
  have hverified : a.verified = true := by
    cases hv : a.verified
    · simp [Arrival.verify, hv] at hverified
    · rfl
  have hmeets := hmeets ch hch hverified hclaimed.free htimely
  have hevents : ((receiveProfile mayHold s a).chains owner).events = eventsWith (s.chains owner).events a.event ch.eventHash :=
    htook.events
  unfold projectProfile at hproject
  split_ifs at hproject hmeets with hkind hprojected
  · obtain ⟨hfresh, hids, hname⟩ := hmeets
    have hevents' : ((receiveProfile mayHold s a).chains owner).events = (s.chains owner).events ++ [a.event] := by
      rw [hevents, eventsWith, if_neg]
      rintro ⟨t, ht, hhash⟩
      exact hfresh t ht hhash
    rw [← hevents] at hname
    obtain ⟨displaced, newlyAccepted, rfl, hdisplaced, hnewly⟩ := htook.report
    have hdisplaced : ∀ x, x ∈ displaced ↔ x ∈ accepted (s.chains owner).events ∧
      x ∉ accepted ((receiveProfile mayHold s a).chains owner).events := hdisplaced
    have hnewly : ∀ x, x ∈ newlyAccepted ↔ x ∈ accepted ((receiveProfile mayHold s a).chains owner).events ∧
      x ∉ accepted (s.chains owner).events ∧ x.id ≠ a.event.id := hnewly
    simp only [applyProfileChained, Bool.not_not, Bool.and_eq_true, List.isEmpty_iff, decide_eq_true_eq] at hproject
    by_cases hnone : displaced = [] ∧ newlyAccepted = []
    · rw [if_pos hnone] at hproject
      refine row_of_applied (ok_lockState hs.ok) htook hch hkind hevents' hfresh ?_ ?_ hs.row hproject
      · intro x hx
        by_contra hout
        have hmem := (hdisplaced x).2 ⟨hx, hout⟩
        rw [hnone.1] at hmem
        cases hmem
      · intro x hx
        by_contra hother
        rw [not_or] at hother
        have hid : x.id ≠ a.event.id := by
          have hstored := ((mem_accepted htook.ok.distinctHashes).1 hx).1
          rw [hevents', List.mem_append, List.mem_singleton] at hstored
          exact hids x (hstored.resolve_right hother.2)
        have hmem := (hnewly x).2 ⟨hx, hother.1, hid⟩
        rw [hnone.2] at hmem
        cases hmem
    · rw [if_neg hnone] at hproject
      exact row_of_replayed hs.row hdisplaced hname hproject
  · rw [← Except.ok.inj hproject, hs.row, replay, replay, hevents, hmeets]

/-- **The profile of the accepted events.** From a new profile: after any deliveries of chained events of the identity, at any
times, with any refusals and repetitions, that all meet the condition, the row is the creation profile with the accepted
updates of the chain applied in chain order. -/
theorem profile_of_accepted {mayHold : IdentityId → String → Bool} {owner : IdentityId} {name : String} {s : Indexed F Rows}
    (hchain : s.chains owner = .empty) (hrow : s.projected owner = some (.named name)) {as : List (Arrival F)}
    (hchained : ∀ a ∈ as, chainOwner a.event = some owner ∧ (chainedEvent a.event).isSome) (halong : Along mayHold owner s as) :
    (receiveProfiles mayHold s as).projected owner =
      some (replay owner (.named name) (accepted ((receiveProfiles mayHold s as).chains owner).events)) := by
  have hstart : Projected owner name s := by
    refine ⟨hchain ▸ ok_empty, ?_⟩
    have hnone : accepted (s.chains owner).events = [] := by
      rw [hchain, accepted, acceptedOf]
      have hevents : (Chain.empty : Chain F).events = [] := rfl
      rw [hevents, outcome_nil]
      rfl
    rw [hrow, hnone]
    rfl
  clear hchain hrow
  suffices hend : Projected owner name (receiveProfiles mayHold s as) from hend.row
  induction as generalizing s with
  | nil => exact hstart
  | cons a as ih =>
    obtain ⟨hfirst, hrest⟩ := List.forall_mem_cons.1 hchained
    exact ih hrest halong.2 (projected_receiveProfile hstart hfirst.1 hfirst.2 halong.1)

/-! ## An update that waits for an event of another kind -/

/-- an update of ada's bio -/
def bioUpdate (seq : UInt64) (prev : Option String) : Event Decimal :=
  { removal 8 seq prev with
    kind := "profile.updated"
    payload := .object [("bio", .string "mathematician")] }

/-- behind the removal of a friend -/
def secondBio : Event Decimal := bioUpdate 2 (some "1343f269ab76d3942baec7fb8ddb7c4e46001d09e32e0d87bd8aed21f25006c9")

/-- ada's profile was created, and nothing else was delivered -/
def created : Indexed Decimal Rows := ⟨[], fun _ => .empty, Function.update (fun _ => none) ada (some (.named "Ada"))⟩

/-- the removal comes before the update -/
def inOrder : List (Arrival Decimal) := [arrival 2000000000 "core" firstRemoval, arrival 2000000000 "core" secondBio]

/-- the update comes first, and waits -/
def updateFirst : List (Arrival Decimal) := [arrival 2000000000 "core" secondBio, arrival 2000000000 "core" firstRemoval]

/-- what evaluation says of the two orders, in one evaluation since the events are the same -/
theorem evaluated :
    ((∀ a ∈ inOrder, chainOwner a.event = some ada ∧ (chainedEvent a.event).isSome) ∧
      Along (fun _ _ => true) ada created inOrder) ∧
    (∀ a ∈ updateFirst, chainOwner a.event = some ada ∧ (chainedEvent a.event).isSome) ∧
    (accepted ((receiveProfiles (fun _ _ => true) created updateFirst).chains ada).events).map ProtocolEvent.id =
      [firstRemoval.id, secondBio.id] ∧
    (receiveProfiles (fun _ _ => true) created updateFirst).projected ada = some (.named "Ada") ∧
    (replay ada (.named "Ada") (accepted ((receiveProfiles (fun _ _ => true) created updateFirst).chains ada).events)).text .bio =
      some "mathematician" := by
  decide +kernel

theorem profile_of_accepted_inOrder :
    (receiveProfiles (fun _ _ => true) created inOrder).projected ada =
      some (replay ada (.named "Ada") (accepted ((receiveProfiles (fun _ _ => true) created inOrder).chains ada).events)) := by
  obtain ⟨hchained, halong⟩ := evaluated.1
  have hrow : created.projected ada = some (.named "Ada") := by simp [created]
  exact profile_of_accepted rfl hrow hchained halong

/-- **An accepted update is not in the profile**: it waited for the removal of a friend, and that event does not apply it -/
theorem waiting_update_not_projected :
    (∀ a ∈ updateFirst, chainOwner a.event = some ada ∧ (chainedEvent a.event).isSome) ∧
    (accepted ((receiveProfiles (fun _ _ => true) created updateFirst).chains ada).events).map ProtocolEvent.id =
      [firstRemoval.id, secondBio.id] ∧
    (receiveProfiles (fun _ _ => true) created updateFirst).projected ada = some (.named "Ada") ∧
    (replay ada (.named "Ada") (accepted ((receiveProfiles (fun _ _ => true) created updateFirst).chains ada).events)).text .bio =
      some "mathematician" :=
  evaluated.2

end Avalon.ProfileChain
