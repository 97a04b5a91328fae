/-
The witness known list (`crates/server/src/known_list.rs`): admission under three caps, probation, freshness pruning and
tenure-ranked refill.

Times are nanoseconds. A call runs under the list's lock, so a run is a list of calls, each at a time of its own. The one
call that can panic is the scaling of the freshness window (`Duration::mul_f64` past 2^64 seconds); it poisons the lock, and
the calls after it find the list as the panic left it. Writing the file is left out: it does not change the list.

Results:
- `Inv`: ids are unique, and total, anchors and prefixes keep their caps; every part of a call keeps it.
- `step_slot`: after a call a slot is fresh, or descends from one slot before: refreshed by an observation, confirmed by
  `confirm_due`, else as it was.
- `known_list_invariants`: the caps hold after every run, and each confirmed slot that is no anchor was confirmed by a tick
  of the run, after its probation and observed within the freshness window.
-/
import Mathlib.Tactic
import Mathlib.Data.List.Sort
import Mathlib.Data.Prod.Lex
import Mathlib.Data.String.Basic
import Avalon.Protocol.LedgerEntry
import Avalon.Protocol.Witness

namespace Avalon.KnownList

open Avalon.LedgerEntry Avalon.Witness

/-! ## Durations -/

/-- `std::time::Duration`, in nanoseconds -/
abbrev Duration := ℕ

/-- n / d to the nearest integer, ties to even -/
def roundTiesEven (n d : ℕ) : ℕ :=
  let q := n / d
  let r := 2 * (n % d)
  if r < d ∨ (r = d ∧ q % 2 = 0) then q else q + 1

/-- `Duration::from_secs_f64`; `none` where it panics -/
def fromSecsF64 (secs : Float) : Option Duration :=
  let bits := secs.toBits.toNat
  let mantissa := bits % 2 ^ 52 + 2 ^ 52
  let exponent : ℤ := (bits / 2 ^ 52 % 2 ^ 11 : ℕ) - 1023
  if secs < 0.0 then none
  else if exponent < -31 then some 0
  else if exponent < 52 then some (roundTiesEven (mantissa * 10 ^ 9) (2 ^ (52 - exponent).toNat))
  else if exponent < 64 then some (mantissa * 2 ^ (exponent - 52).toNat * 10 ^ 9)
  else none

def asSecsF64 (duration : Duration) : Float :=
  Float.ofNat (duration / 10 ^ 9) + Float.ofNat (duration % 10 ^ 9) / 1000000000.0

/-- `Duration::mul_f64`; `none` where it panics -/
def mulF64 (duration : Duration) (factor : Float) : Option Duration := fromSecsF64 (factor * asSecsF64 duration)

def clampF64 (x lower upper : Float) : Float := if x < lower then lower else if x > upper then upper else x

/-! ## The list -/

inductive SlotStatus where
  | probationary
  | confirmed
deriving DecidableEq, Repr

structure KnownSlot where
  witnessKeyId : String
  netPrefix : String
  isAnchor : Bool
  admittedAt : OffsetDateTime
  lastObservedAt : OffsetDateTime
  status : SlotStatus
deriving DecidableEq, Repr

structure DiscoveredCandidate where
  witnessKeyId : String
  netPrefix : String
  isAnchor : Bool
deriving DecidableEq, Repr

structure KnownListConfig where
  capacity : ℕ
  anchorCapacity : ℕ
  maxPerPrefix : ℕ
  freshnessWindow : Duration
  probationWindow : Duration
  freshnessFloor : Float

/-- the configuration as `new` takes it over -/
def KnownListConfig.clamped (cfg : KnownListConfig) : KnownListConfig :=
  { cfg with
    anchorCapacity := min cfg.anchorCapacity cfg.capacity
    freshnessFloor := if cfg.freshnessFloor > 0.0 && cfg.freshnessFloor ≤ 1.0 then cfg.freshnessFloor else 0.4 }

structure KnownListInner where
  cfg : KnownListConfig
  slots : List KnownSlot
  candidateFirstSeen : String → Option OffsetDateTime

namespace KnownListInner

def new (cfg : KnownListConfig) : KnownListInner := ⟨cfg.clamped, [], fun _ => none⟩

def anchorCount (list : KnownListInner) : ℕ := list.slots.countP (·.isAnchor)

def prefixCount (list : KnownListInner) (netPrefix : String) : ℕ := list.slots.countP (·.netPrefix = netPrefix)

def contains (list : KnownListInner) (witnessKeyId : String) : Bool :=
  list.slots.any (·.witnessKeyId = witnessKeyId)

/-- the slot of a newcomer: an anchor starts confirmed -/
def newSlot (witnessKeyId netPrefix : String) (isAnchor : Bool) (now : OffsetDateTime) : KnownSlot where
  witnessKeyId := witnessKeyId
  netPrefix := netPrefix
  isAnchor := isAnchor
  admittedAt := now
  lastObservedAt := now
  status := if isAnchor then .confirmed else .probationary

def tryAdmit (list : KnownListInner) (witnessKeyId netPrefix : String) (isAnchor : Bool) (now : OffsetDateTime) :
    KnownListInner × Bool :=
  if list.contains witnessKeyId then (list, false)
  else if isAnchor && decide (list.anchorCount ≥ list.cfg.anchorCapacity) then (list, false)
  else if list.slots.length ≥ list.cfg.capacity then (list, false)
  else if list.prefixCount netPrefix ≥ list.cfg.maxPerPrefix then (list, false)
  else ({ list with slots := list.slots ++ [newSlot witnessKeyId netPrefix isAnchor now] }, true)

/-- the tenure of these ids is forgotten -/
def forget (list : KnownListInner) (witnessKeyIds : List String) : KnownListInner :=
  { list with candidateFirstSeen := fun id => if id ∈ witnessKeyIds then none else list.candidateFirstSeen id }

def remove (list : KnownListInner) (witnessKeyId : String) : KnownListInner × Bool :=
  let slots := list.slots.filter fun s => s.witnessKeyId ≠ witnessKeyId
  (forget { list with slots := slots } [witnessKeyId], slots.length ≠ list.slots.length)

/-- the first slot of the id is refreshed -/
def observeSlots (witnessKeyId : String) (now : OffsetDateTime) : List KnownSlot → List KnownSlot
  | [] => []
  | slot :: slots =>
    if slot.witnessKeyId = witnessKeyId then { slot with lastObservedAt := now } :: slots
    else slot :: observeSlots witnessKeyId now slots

def observe (list : KnownListInner) (witnessKeyId : String) (now : OffsetDateTime) : KnownListInner × Bool :=
  ({ list with slots := observeSlots witnessKeyId now list.slots }, list.contains witnessKeyId)

/-- past probation since admission, and observed within the freshness window -/
def due (list : KnownListInner) (now : OffsetDateTime) (slot : KnownSlot) : Bool :=
  slot.status = .probationary && now - slot.admittedAt ≥ list.cfg.probationWindow &&
    now - slot.lastObservedAt ≤ list.cfg.freshnessWindow

def confirmDue (list : KnownListInner) (now : OffsetDateTime) : KnownListInner × List String :=
  ({ list with slots := list.slots.map fun s => if list.due now s then { s with status := .confirmed } else s },
    (list.slots.filter (list.due now)).map (·.witnessKeyId))

/-- the failures a list of n confirmed witnesses tolerates -/
def tolerance (n : ℕ) : ℕ := n - majorityThreshold n

def effectiveFreshnessWindow (list : KnownListInner) (confirmed : ℕ) : Option Duration :=
  let maxTolerance := tolerance list.cfg.capacity
  if confirmed ≤ 1 ∨ maxTolerance = 0 then some list.cfg.freshnessWindow
  else
    let ratio := Float.ofNat (tolerance confirmed) / Float.ofNat maxTolerance
    mulF64 list.cfg.freshnessWindow (clampF64 ratio list.cfg.freshnessFloor 1.0)

/-- `none` where scaling the window panics -/
def pruneStale (list : KnownListInner) (now : OffsetDateTime) : Option (KnownListInner × List KnownSlot) := do
  let confirmed := list.slots.countP (·.status = .confirmed)
  let confirmedWindow ← list.effectiveFreshnessWindow confirmed
  let stale (s : KnownSlot) : Bool :=
    now - s.lastObservedAt > if s.status = .confirmed then confirmedWindow else list.cfg.freshnessWindow
  let removed := list.slots.filter stale
  return (forget { list with slots := list.slots.filter fun s => !stale s } (removed.map (·.witnessKeyId)), removed)

/-- the candidates that are slots are refreshed, and each gets a first-seen time -/
def observeAll (list : KnownListInner) (candidates : List DiscoveredCandidate) (now : OffsetDateTime) : KnownListInner :=
  candidates.foldl (fun list c =>
    let list := (list.observe c.witnessKeyId now).1
    { list with candidateFirstSeen := fun id =>
        if id = c.witnessKeyId then some ((list.candidateFirstSeen id).getD now) else list.candidateFirstSeen id }) list

/-- tenure is kept for candidates on offer and for slots -/
def retainOffered (list : KnownListInner) (candidates : List DiscoveredCandidate) : KnownListInner :=
  { list with candidateFirstSeen := fun id =>
      if candidates.any (·.witnessKeyId = id) || list.contains id then list.candidateFirstSeen id else none }

/-- longest tenure first, then by id -/
def ranked (list : KnownListInner) (candidates : List DiscoveredCandidate) (now : OffsetDateTime) :
    List DiscoveredCandidate :=
  let rankOf (c : DiscoveredCandidate) : ℤ ×ₗ String :=
    toLex ((list.candidateFirstSeen c.witnessKeyId).getD now, c.witnessKeyId)
  (candidates.filter fun c => !list.contains c.witnessKeyId).insertionSort fun a b => rankOf a ≤ rankOf b

/-- each candidate is offered a slot; the ids that got one -/
def admitAll (list : KnownListInner) (now : OffsetDateTime) : List DiscoveredCandidate → KnownListInner × List String
  | [] => (list, [])
  | c :: rest =>
    let (list, admitted) := list.tryAdmit c.witnessKeyId c.netPrefix c.isAnchor now
    let (list, ids) := list.admitAll now rest
    (list, if admitted then c.witnessKeyId :: ids else ids)

def refill (list : KnownListInner) (candidates : List DiscoveredCandidate) (now : OffsetDateTime) :
    KnownListInner × List String :=
  let list := (list.observeAll candidates now).retainOffered candidates
  list.admitAll now (list.ranked candidates now)

end KnownListInner

/-! ## Calls on the handle -/

structure TickReport where
  admitted : List String
  promoted : List String
  removed : List String
deriving DecidableEq, Repr

structure KnownListHandle where
  inner : KnownListInner
  /-- a call panicked while it held the lock -/
  poisoned : Bool

namespace KnownListHandle

def new (cfg : KnownListConfig) : KnownListHandle := ⟨.new cfg, false⟩

/-- `none` where the call panics -/
def tick (handle : KnownListHandle) (candidates : List DiscoveredCandidate) (now : OffsetDateTime) :
    KnownListHandle × Option TickReport :=
  if handle.poisoned then (handle, none)
  else
    let (list, promoted) := handle.inner.confirmDue now
    match list.pruneStale now with
    | none => (⟨list, true⟩, none)
    | some (list, removed) =>
      let (list, admitted) := list.refill candidates now
      (⟨list, false⟩, some ⟨admitted, promoted, removed.map (·.witnessKeyId)⟩)

end KnownListHandle

inductive Call where
  | tryAdmit (witnessKeyId netPrefix : String) (isAnchor : Bool)
  | remove (witnessKeyId : String)
  | observe (witnessKeyId : String)
  | tick (candidates : List DiscoveredCandidate)

/-- a call at a time -/
structure Op where
  call : Call
  now : OffsetDateTime

def step (handle : KnownListHandle) (op : Op) : KnownListHandle :=
  match op.call with
  | .tryAdmit id netPrefix isAnchor =>
    if handle.poisoned then handle else { handle with inner := (handle.inner.tryAdmit id netPrefix isAnchor op.now).1 }
  | .remove id => if handle.poisoned then handle else { handle with inner := (handle.inner.remove id).1 }
  | .observe id => if handle.poisoned then handle else { handle with inner := (handle.inner.observe id op.now).1 }
  | .tick candidates => (handle.tick candidates op.now).1

def run (cfg : KnownListConfig) (ops : List Op) : KnownListHandle := ops.foldl step (.new cfg)

/-! ## Caps -/

/-- what the caps judge a slot by -/
def KnownSlot.key (s : KnownSlot) : String × String × Bool := (s.witnessKeyId, s.netPrefix, s.isAnchor)

structure Inv (list : KnownListInner) : Prop where
  unique : (list.slots.map KnownSlot.witnessKeyId).Nodup
  total : list.slots.length ≤ list.cfg.capacity
  anchors : list.anchorCount ≤ list.cfg.anchorCapacity
  prefixes : ∀ netPrefix, list.prefixCount netPrefix ≤ list.cfg.maxPerPrefix

namespace KnownListInner

variable {list list' : KnownListInner}

/-- a list whose keys are some of the keys there, in their order -/
theorem inv_of_keys (h : Inv list) (hcfg : list'.cfg = list.cfg)
    (hkeys : (list'.slots.map KnownSlot.key).Sublist (list.slots.map KnownSlot.key)) : Inv list' := by
  have hids : ∀ slots : List KnownSlot, slots.map KnownSlot.witnessKeyId = (slots.map KnownSlot.key).map Prod.fst := by
    intro slots
    rw [List.map_map]
    rfl
  have hcount : ∀ p : String × String × Bool → Bool,
      list'.slots.countP (fun s => p s.key) ≤ list.slots.countP (fun s => p s.key) := by
    intro p
    have hle := hkeys.countP_le (p := p)
    rw [List.countP_map, List.countP_map] at hle
    exact hle
  constructor
  · rw [hids]
    exact (hids list.slots ▸ h.unique).sublist (hkeys.map _)
  · rw [hcfg]
    exact le_trans (by simpa using hkeys.length_le) h.total
  · rw [hcfg]
    exact le_trans (hcount fun k => k.2.2) h.anchors
  · intro netPrefix
    rw [hcfg]
    exact le_trans (hcount fun k => decide (k.2.1 = netPrefix)) (h.prefixes netPrefix)

theorem inv_of_sublist (h : Inv list) (hcfg : list'.cfg = list.cfg) (hsub : list'.slots.Sublist list.slots) : Inv list' :=
  inv_of_keys h hcfg (hsub.map _)

theorem inv_new (cfg : KnownListConfig) : Inv (new cfg) := by
  constructor <;> simp [new, anchorCount, prefixCount]

/-- an admission adds one slot, that all the caps have room for -/
theorem tryAdmit_cases (list : KnownListInner) (id netPrefix : String) (isAnchor : Bool) (now : OffsetDateTime) :
    list.tryAdmit id netPrefix isAnchor now = (list, false) ∨
      list.tryAdmit id netPrefix isAnchor now =
        ({ list with slots := list.slots ++ [newSlot id netPrefix isAnchor now] }, true) ∧
      list.contains id = false ∧ (isAnchor = true → list.anchorCount < list.cfg.anchorCapacity) ∧
      list.slots.length < list.cfg.capacity ∧ list.prefixCount netPrefix < list.cfg.maxPerPrefix := by
  unfold tryAdmit
  split_ifs with hcontains hanchor hfull hcap
  · exact .inl rfl
  · exact .inl rfl
  · exact .inl rfl
  · exact .inl rfl
  · refine .inr ⟨rfl, by simpa using hcontains, ?_, by omega, by omega⟩
    intro hisAnchor
    simpa [hisAnchor] using hanchor

theorem contains_eq_true {id : String} : list.contains id = true ↔ ∃ s ∈ list.slots, s.witnessKeyId = id := by
  simp [contains]

theorem inv_tryAdmit (h : Inv list) (id netPrefix : String) (isAnchor : Bool) (now : OffsetDateTime) :
    Inv (list.tryAdmit id netPrefix isAnchor now).1 := by
  obtain heq | ⟨heq, habsent, hanchor, hfull, hcap⟩ := tryAdmit_cases list id netPrefix isAnchor now
  · rw [heq]
    exact h
  rw [heq]
  constructor
  · dsimp only
    rw [List.map_append, List.map_singleton]
    refine h.unique.append (List.nodup_singleton _) ?_
    intro x hx hnew
    obtain ⟨s, hs, rfl⟩ := List.mem_map.1 hx
    have hpresent : list.contains id = true := contains_eq_true.2 ⟨s, hs, List.mem_singleton.1 hnew⟩
    rw [habsent] at hpresent
    cases hpresent
  · simpa using hfull
  · have hold := h.anchors
    unfold anchorCount at hanchor hold ⊢
    cases isAnchor with
    | false => simpa [newSlot] using hold
    | true => simpa [newSlot] using hanchor rfl
  · intro p
    have hold := h.prefixes p
    unfold prefixCount at hcap hold ⊢
    by_cases hp : netPrefix = p
    · subst hp
      simpa [newSlot] using hcap
    · simpa [newSlot, hp] using hold

theorem tryAdmit_cfg (id netPrefix : String) (isAnchor : Bool) (now : OffsetDateTime) :
    (list.tryAdmit id netPrefix isAnchor now).1.cfg = list.cfg := by
  obtain heq | ⟨heq, -⟩ := tryAdmit_cases list id netPrefix isAnchor now <;> rw [heq]

theorem inv_remove (h : Inv list) (id : String) : Inv (list.remove id).1 := inv_of_sublist h rfl List.filter_sublist

theorem observeSlots_keys (id : String) (now : OffsetDateTime) (slots : List KnownSlot) :
    (observeSlots id now slots).map KnownSlot.key = slots.map KnownSlot.key := by
  induction slots with
  | nil => rfl
  | cons slot slots ih =>
    unfold observeSlots
    split_ifs with hid
    · rfl
    · rw [List.map_cons, List.map_cons, ih]

theorem inv_observe (h : Inv list) (id : String) (now : OffsetDateTime) : Inv (list.observe id now).1 :=
  inv_of_keys h rfl (by rw [observe, observeSlots_keys])

theorem inv_confirmDue (h : Inv list) (now : OffsetDateTime) : Inv (list.confirmDue now).1 := by
  have hkeys : (list.confirmDue now).1.slots.map KnownSlot.key = list.slots.map KnownSlot.key := by
    rw [confirmDue, List.map_map]
    apply List.map_congr_left
    intro s _
    dsimp only [Function.comp]
    split_ifs <;> rfl
  exact inv_of_keys h rfl (by rw [hkeys])

theorem pruneStale_sublist {now : OffsetDateTime} {removed : List KnownSlot}
    (h : list.pruneStale now = some (list', removed)) : list'.cfg = list.cfg ∧ list'.slots.Sublist list.slots := by
  unfold pruneStale at h
  obtain ⟨window, -, h⟩ := Option.bind_eq_some_iff.1 h
  cases h
  exact ⟨rfl, List.filter_sublist⟩

theorem observeAll_keys (list : KnownListInner) (candidates : List DiscoveredCandidate) (now : OffsetDateTime) :
    (list.observeAll candidates now).cfg = list.cfg ∧
      (list.observeAll candidates now).slots.map KnownSlot.key = list.slots.map KnownSlot.key := by
  unfold observeAll
  induction candidates generalizing list with
  | nil => exact ⟨rfl, rfl⟩
  | cons c rest ih =>
    rw [List.foldl_cons]
    obtain ⟨hcfg, hkeys⟩ := ih _
    refine ⟨hcfg, hkeys.trans ?_⟩
    exact observeSlots_keys c.witnessKeyId now list.slots

theorem inv_admitAll (h : Inv list) (now : OffsetDateTime) (candidates : List DiscoveredCandidate) :
    Inv (list.admitAll now candidates).1 := by
  induction candidates generalizing list with
  | nil => exact h
  | cons c rest ih => exact ih (inv_tryAdmit h c.witnessKeyId c.netPrefix c.isAnchor now)

theorem admitAll_cfg (now : OffsetDateTime) (candidates : List DiscoveredCandidate) :
    (list.admitAll now candidates).1.cfg = list.cfg := by
  induction candidates generalizing list with
  | nil => rfl
  | cons c rest ih => exact ih.trans (tryAdmit_cfg c.witnessKeyId c.netPrefix c.isAnchor now)

theorem inv_refill (h : Inv list) (candidates : List DiscoveredCandidate) (now : OffsetDateTime) :
    Inv (list.refill candidates now).1 := by
  apply inv_admitAll
  obtain ⟨hcfg, hkeys⟩ := observeAll_keys list candidates now
  exact inv_of_keys h hcfg (by rw [← hkeys]; rfl)

theorem refill_cfg (candidates : List DiscoveredCandidate) (now : OffsetDateTime) :
    (list.refill candidates now).1.cfg = list.cfg :=
  (admitAll_cfg now _).trans (observeAll_keys list candidates now).1

end KnownListInner

open KnownListInner

/-- **One call** keeps the caps, and the configuration -/
theorem step_inv {handle : KnownListHandle} (h : Inv handle.inner) (op : Op) :
    Inv (step handle op).inner ∧ (step handle op).inner.cfg = handle.inner.cfg := by
  unfold step
  split
  · split_ifs
    · exact ⟨h, rfl⟩
    · exact ⟨inv_tryAdmit h _ _ _ _, tryAdmit_cfg ..⟩
  · split_ifs
    · exact ⟨h, rfl⟩
    · exact ⟨inv_remove h _, rfl⟩
  · split_ifs
    · exact ⟨h, rfl⟩
    · exact ⟨inv_observe h _ _, rfl⟩
  · have hconfirmed := inv_confirmDue h op.now
    unfold KnownListHandle.tick
    split_ifs
    · exact ⟨h, rfl⟩
    · dsimp only
      split
      · exact ⟨hconfirmed, rfl⟩
      · rename_i list removed hprune
        obtain ⟨hcfg, hsub⟩ := pruneStale_sublist hprune
        exact ⟨inv_refill (inv_of_sublist hconfirmed hcfg hsub) _ _, (refill_cfg ..).trans hcfg⟩

theorem run_append (cfg : KnownListConfig) (ops : List Op) (op : Op) : run cfg (ops ++ [op]) = step (run cfg ops) op := by
  rw [run, List.foldl_append]
  rfl

/-- **Every run** keeps the caps -/
theorem run_inv (cfg : KnownListConfig) (ops : List Op) :
    Inv (run cfg ops).inner ∧ (run cfg ops).inner.cfg = cfg.clamped := by
  induction ops using List.reverseRecOn with
  | nil => exact ⟨inv_new cfg, rfl⟩
  | append_singleton ops op ih =>
    obtain ⟨hinv, hcfg⟩ := step_inv ih.1 op
    rw [run_append]
    exact ⟨hinv, hcfg.trans ih.2⟩

/-! ## The history of a slot -/

/-- the call names the id as seen now -/
def Op.observes (op : Op) (id : String) : Bool :=
  match op.call with
  | .tryAdmit id' _ _ => id' = id
  | .remove _ => false
  | .observe id' => id' = id
  | .tick candidates => candidates.any (·.witnessKeyId = id)

/-- the ids the call gives a slot -/
def admitted (handle : KnownListHandle) (op : Op) : List String :=
  match op.call with
  | .tryAdmit id netPrefix isAnchor =>
    if !handle.poisoned && (handle.inner.tryAdmit id netPrefix isAnchor op.now).2 then [id] else []
  | .tick candidates => ((handle.tick candidates op.now).2.map TickReport.admitted).getD []
  | _ => []

/-- the ids the call confirms, also if the tick panics right after -/
def promoted (handle : KnownListHandle) (op : Op) : List String :=
  match op.call with
  | .tick _ => if handle.poisoned then [] else (handle.inner.confirmDue op.now).2
  | _ => []

/-- a slot as the call leaves it, and the slot it was before -/
structure Descends (handle : KnownListHandle) (op : Op) (old new : KnownSlot) : Prop where
  key : new.key = old.key
  admittedAt : new.admittedAt = old.admittedAt
  observed : new.lastObservedAt = old.lastObservedAt ∨ op.observes old.witnessKeyId = true ∧ new.lastObservedAt = op.now
  status : new.status = old.status ∨
    old.witnessKeyId ∈ promoted handle op ∧ handle.inner.due op.now old = true

/-- a slot that the call admits -/
structure Fresh (handle : KnownListHandle) (op : Op) (slot : KnownSlot) : Prop where
  admitted : slot.witnessKeyId ∈ admitted handle op
  observes : op.observes slot.witnessKeyId = true
  new : slot = newSlot slot.witnessKeyId slot.netPrefix slot.isAnchor op.now

namespace KnownListInner

variable {list : KnownListInner} {slot : KnownSlot} {now : OffsetDateTime}

theorem mem_tryAdmit {id netPrefix : String} {isAnchor : Bool}
    (h : slot ∈ (list.tryAdmit id netPrefix isAnchor now).1.slots) :
    slot ∈ list.slots ∨ slot = newSlot id netPrefix isAnchor now ∧ (list.tryAdmit id netPrefix isAnchor now).2 = true := by
  obtain heq | ⟨heq, -⟩ := tryAdmit_cases list id netPrefix isAnchor now
  · rw [heq] at h
    exact .inl h
  · rw [heq] at h
    exact (List.mem_append.1 h).imp_right fun hnew => ⟨List.mem_singleton.1 hnew, by rw [heq]⟩

theorem mem_admitAll {candidates : List DiscoveredCandidate} (h : slot ∈ (list.admitAll now candidates).1.slots) :
    slot ∈ list.slots ∨ ∃ c ∈ candidates, slot = newSlot c.witnessKeyId c.netPrefix c.isAnchor now ∧
      c.witnessKeyId ∈ (list.admitAll now candidates).2 := by
  induction candidates generalizing list with
  | nil => exact .inl h
  | cons c rest ih =>
    simp only [admitAll]
    obtain hmem | ⟨d, hd, hslot, hid⟩ := ih h
    · obtain hold | ⟨hnew, hadmitted⟩ := mem_tryAdmit hmem
      · exact .inl hold
      · refine .inr ⟨c, List.mem_cons_self, hnew, ?_⟩
        rw [if_pos hadmitted]
        exact List.mem_cons_self
    · refine .inr ⟨d, List.mem_cons_of_mem _ hd, hslot, ?_⟩
      split_ifs
      · exact List.mem_cons_of_mem _ hid
      · exact hid

theorem mem_observeSlots {id : String} {slots : List KnownSlot} (h : slot ∈ observeSlots id now slots) :
    slot ∈ slots ∨ ∃ old ∈ slots, old.witnessKeyId = id ∧ slot = { old with lastObservedAt := now } := by
  induction slots with
  | nil => cases h
  | cons s slots ih =>
    unfold observeSlots at h
    split_ifs at h with hid
    · rcases List.mem_cons.1 h with rfl | h
      · exact .inr ⟨s, List.mem_cons_self, hid, rfl⟩
      · exact .inl (List.mem_cons_of_mem _ h)
    · rcases List.mem_cons.1 h with rfl | h
      · exact .inl List.mem_cons_self
      · obtain h | ⟨old, hold, hrest⟩ := ih h
        · exact .inl (List.mem_cons_of_mem _ h)
        · exact .inr ⟨old, List.mem_cons_of_mem _ hold, hrest⟩

/-- a slot of the refreshed list is one from before, refreshed if its id is among the candidates -/
theorem mem_observeAll {candidates : List DiscoveredCandidate} (h : slot ∈ (list.observeAll candidates now).slots) :
    slot ∈ list.slots ∨ ∃ old ∈ list.slots, candidates.any (·.witnessKeyId = old.witnessKeyId) = true ∧
      slot = { old with lastObservedAt := now } := by
  unfold observeAll at h
  induction candidates generalizing list with
  | nil => exact .inl h
  | cons c rest ih =>
    rw [List.foldl_cons] at h
    obtain hmem | ⟨old, hold, hrest, rfl⟩ := ih h
    · obtain hmem | ⟨old, hold, hid, rfl⟩ := mem_observeSlots hmem
      · exact .inl hmem
      · exact .inr ⟨old, hold, by simp [hid], rfl⟩
    · obtain hmem | ⟨older, holder, hid, rfl⟩ := mem_observeSlots hold
      · exact .inr ⟨old, hmem, by simp only [List.any_cons, hrest, Bool.or_true], rfl⟩
      · exact .inr ⟨older, holder, by simp [hid], rfl⟩

theorem mem_confirmDue (h : slot ∈ (list.confirmDue now).1.slots) :
    slot ∈ list.slots ∨ ∃ old ∈ list.slots, list.due now old = true ∧ slot = { old with status := .confirmed } := by
  obtain ⟨old, hold, hslot⟩ := List.mem_map.1 h
  split_ifs at hslot with hdue
  · exact .inr ⟨old, hold, hdue, hslot.symm⟩
  · exact .inl (hslot ▸ hold)

theorem mem_promoted (hslot : slot ∈ list.slots) (hdue : list.due now slot = true) :
    slot.witnessKeyId ∈ (list.confirmDue now).2 :=
  List.mem_map_of_mem (List.mem_filter.2 ⟨hslot, hdue⟩)

end KnownListInner

section slots

variable {handle : KnownListHandle} {op : Op} {slot old new : KnownSlot}

theorem Descends.refl (handle : KnownListHandle) (op : Op) (slot : KnownSlot) : Descends handle op slot slot :=
  ⟨rfl, rfl, .inl rfl, .inl rfl⟩

theorem Descends.witnessKeyId (h : Descends handle op old new) : new.witnessKeyId = old.witnessKeyId :=
  congrArg Prod.fst h.key

theorem Descends.refresh (h : Descends handle op old new) (hop : op.observes new.witnessKeyId = true) :
    Descends handle op old { new with lastObservedAt := op.now } :=
  ⟨h.key, h.admittedAt, .inr ⟨h.witnessKeyId ▸ hop, rfl⟩, h.status⟩

/-- **One call**: each slot it leaves is fresh or descends from one before -/
theorem step_slot (h : slot ∈ (step handle op).inner.slots) :
    Fresh handle op slot ∨ ∃ old ∈ handle.inner.slots, Descends handle op old slot := by
  have stays : slot ∈ handle.inner.slots → Fresh handle op slot ∨ ∃ old ∈ handle.inner.slots, Descends handle op old slot :=
    fun hmem => .inr ⟨slot, hmem, .refl handle op slot⟩
  obtain ⟨call, now⟩ := op
  by_cases hpoisoned : handle.poisoned = true
  · have heq : step handle ⟨call, now⟩ = handle := by
      cases call <;> simp [step, KnownListHandle.tick, hpoisoned]
    rw [heq] at h
    exact stays h
  cases call with
  | tryAdmit id netPrefix isAnchor =>
    simp only [step, hpoisoned] at h
    obtain hmem | ⟨rfl, hadmitted⟩ := mem_tryAdmit h
    · exact stays hmem
    · refine .inl ⟨?_, by simp [Op.observes, newSlot], rfl⟩
      simp [admitted, hadmitted, hpoisoned, newSlot]
  | remove id =>
    simp only [step, hpoisoned] at h
    exact stays (List.mem_of_mem_filter h)
  | observe id =>
    simp only [step, hpoisoned] at h
    obtain hmem | ⟨old, hold, hid, rfl⟩ := mem_observeSlots h
    · exact stays hmem
    · exact .inr ⟨old, hold, (Descends.refl handle _ old).refresh (by simp [Op.observes, hid])⟩
  | tick candidates =>
    -- confirm, then prune, then refill
    have hconfirm : ∀ s ∈ (handle.inner.confirmDue now).1.slots,
        ∃ old ∈ handle.inner.slots, Descends handle ⟨.tick candidates, now⟩ old s := by
      intro s hs
      obtain hmem | ⟨old, hold, hdue, rfl⟩ := mem_confirmDue hs
      · exact ⟨s, hmem, .refl handle _ s⟩
      · refine ⟨old, hold, rfl, rfl, .inl rfl, .inr ⟨?_, hdue⟩⟩
        simpa [promoted, hpoisoned] using mem_promoted hold hdue
    simp only [step, KnownListHandle.tick, hpoisoned] at h
    cases hprune : (handle.inner.confirmDue now).1.pruneStale now with
    | none =>
      simp only [hprune] at h
      exact .inr (hconfirm slot h)
    | some pruned =>
      obtain ⟨list, removed⟩ := pruned
      simp only [hprune] at h
      have hsub := (pruneStale_sublist hprune).2
      obtain hmem | ⟨c, hc, hslot, hadmitted⟩ := mem_admitAll h
      · obtain hmem | ⟨mid, hmid, hoffered, rfl⟩ := mem_observeAll hmem
        · exact .inr (hconfirm slot (hsub.subset hmem))
        · obtain ⟨old, hold, hdesc⟩ := hconfirm mid (hsub.subset hmid)
          exact .inr ⟨old, hold, hdesc.refresh hoffered⟩
      · have hid : slot.witnessKeyId = c.witnessKeyId := by rw [hslot]; rfl
        refine .inl ⟨?_, ?_, by rw [hslot]; rfl⟩
        · rw [hid]
          simpa [admitted, KnownListHandle.tick, hpoisoned, hprune, refill] using hadmitted
        · rw [hid]
          have hoffered := (List.mem_filter.1 ((List.mem_insertionSort _).1 hc)).1
          simp only [Op.observes, List.any_eq_true, decide_eq_true_eq]
          exact ⟨c, hoffered, rfl⟩

end slots

/-! ## Runs -/

/-- the run admitted the id at a time and has kept it since, and a call of that stretch observed it at the other time -/
def Tenure (cfg : KnownListConfig) (ops : List Op) (id : String) (admittedAt lastObservedAt : OffsetDateTime) : Prop :=
  ∃ before op after, ops = before ++ op :: after ∧ op.now = admittedAt ∧ id ∈ admitted (run cfg before) op ∧
    (∃ seen ∈ op :: after, seen.observes id = true ∧ seen.now = lastObservedAt) ∧
    ∀ seen, seen <+: after → (run cfg (before ++ op :: seen)).inner.contains id = true

/-- a tick of the run confirmed the id, past probation and observed within the freshness window, and the run kept it -/
def ConfirmedInTime (cfg : KnownListConfig) (ops : List Op) (id : String) (admittedAt : OffsetDateTime) : Prop :=
  ∃ before op after lastObservedAt, ops = before ++ op :: after ∧ id ∈ promoted (run cfg before) op ∧
    Tenure cfg before id admittedAt lastObservedAt ∧ op.now - admittedAt ≥ cfg.probationWindow ∧
    op.now - lastObservedAt ≤ cfg.freshnessWindow ∧
    ∀ seen, seen <+: after → (run cfg (before ++ op :: seen)).inner.contains id = true

section runs

variable {cfg : KnownListConfig} {ops : List Op} {op : Op} {id : String} {admittedAt lastObservedAt : OffsetDateTime}

/-- an id kept up to a call, and by the call -/
theorem kept_append {before after : List Op} {first : Op}
    (h : ∀ seen, seen <+: after → (run cfg (before ++ first :: seen)).inner.contains id = true)
    (hop : (run cfg (before ++ first :: (after ++ [op]))).inner.contains id = true) (seen : List Op)
    (hseen : seen <+: after ++ [op]) : (run cfg (before ++ first :: seen)).inner.contains id = true := by
  rcases List.prefix_concat_iff.1 hseen with rfl | hseen
  · exact hop
  · exact h seen hseen

theorem Tenure.append (h : Tenure cfg ops id admittedAt lastObservedAt)
    (hop : (run cfg (ops ++ [op])).inner.contains id = true) {time : OffsetDateTime}
    (htime : time = lastObservedAt ∨ op.observes id = true ∧ time = op.now) : Tenure cfg (ops ++ [op]) id admittedAt time := by
  obtain ⟨before, first, after, rfl, hnow, hadmitted, ⟨seen, hseen, hobserves, hlast⟩, hkept⟩ := h
  rw [List.append_assoc, List.cons_append] at hop
  refine ⟨before, first, after ++ [op], by rw [List.append_assoc, List.cons_append], hnow, hadmitted, ?_, kept_append hkept hop⟩
  rcases htime with rfl | ⟨hobserves', rfl⟩
  · exact ⟨seen, List.mem_append_left [op] hseen, hobserves, hlast⟩
  · exact ⟨op, by simp, hobserves', rfl⟩

theorem ConfirmedInTime.append (h : ConfirmedInTime cfg ops id admittedAt)
    (hop : (run cfg (ops ++ [op])).inner.contains id = true) : ConfirmedInTime cfg (ops ++ [op]) id admittedAt := by
  obtain ⟨before, first, after, last, rfl, hpromoted, htenure, hprobation, hfresh, hkept⟩ := h
  rw [List.append_assoc, List.cons_append] at hop
  exact ⟨before, first, after ++ [op], last, by rw [List.append_assoc, List.cons_append], hpromoted, htenure, hprobation,
    hfresh, kept_append hkept hop⟩

/-- what a run says of a slot of its list -/
structure History (cfg : KnownListConfig) (ops : List Op) (slot : KnownSlot) : Prop where
  tenure : Tenure cfg ops slot.witnessKeyId slot.admittedAt slot.lastObservedAt
  confirmed : slot.isAnchor = false → slot.status = .confirmed →
    ConfirmedInTime cfg ops slot.witnessKeyId slot.admittedAt

theorem History.fresh {slot : KnownSlot} (h : Fresh (run cfg ops) op slot)
    (hslot : (run cfg (ops ++ [op])).inner.contains slot.witnessKeyId = true) : History cfg (ops ++ [op]) slot := by
  have hadmittedAt : slot.admittedAt = op.now := by rw [h.new]; rfl
  have hobservedAt : slot.lastObservedAt = op.now := by rw [h.new]; rfl
  have hstatus : slot.isAnchor = false → slot.status = .probationary := by
    intro hanchor
    rw [h.new, hanchor]
    rfl
  constructor
  · refine ⟨ops, op, [], rfl, hadmittedAt.symm, h.admitted, ⟨op, List.mem_singleton_self op, h.observes, hobservedAt.symm⟩, ?_⟩
    intro seen hseen
    obtain rfl := List.prefix_nil.1 hseen
    exact hslot
  · intro hanchor hconfirmed
    rw [hstatus hanchor] at hconfirmed
    cases hconfirmed

theorem History.descend {old new : KnownSlot} (h : History cfg ops old) (hdesc : Descends (run cfg ops) op old new)
    (hslot : (run cfg (ops ++ [op])).inner.contains new.witnessKeyId = true) : History cfg (ops ++ [op]) new := by
  have hcfg := (run_inv cfg ops).2
  have hid := hdesc.witnessKeyId
  rw [hid] at hslot
  constructor
  · rw [hid, hdesc.admittedAt]
    exact h.tenure.append hslot hdesc.observed
  · intro hanchor hconfirmed
    have hanchor' : old.isAnchor = false := by rw [← hanchor]; exact congrArg (·.2.2) hdesc.key.symm
    rw [hid, hdesc.admittedAt]
    rcases hdesc.status with hstatus | ⟨hpromoted, hdue⟩
    · exact (h.confirmed hanchor' (hstatus ▸ hconfirmed)).append hslot
    · unfold KnownListInner.due at hdue
      simp only [hcfg, Bool.and_eq_true, decide_eq_true_eq] at hdue
      refine ⟨ops, op, [], old.lastObservedAt, rfl, hpromoted, h.tenure, hdue.1.2, hdue.2, ?_⟩
      intro seen hseen
      obtain rfl := List.prefix_nil.1 hseen
      exact hslot

/-- **Every run** accounts for the slots of its list -/
theorem run_history (cfg : KnownListConfig) (ops : List Op) : ∀ slot ∈ (run cfg ops).inner.slots, History cfg ops slot := by
  induction ops using List.reverseRecOn with
  | nil => intro slot hslot; cases hslot
  | append_singleton ops op ih =>
    intro slot hslot
    have hcontains : (run cfg (ops ++ [op])).inner.contains slot.witnessKeyId = true :=
      contains_eq_true.2 ⟨slot, hslot, rfl⟩
    rw [run_append] at hslot
    rcases step_slot hslot with hfresh | ⟨old, hold, hdesc⟩
    · exact .fresh hfresh hcontains
    · exact (ih old hold).descend hdesc hcontains

end runs

/-- **Known-list invariants.** After every run of calls on an empty list, whatever the configuration and the times, ids are
unique and total, anchors and prefixes are within their caps, and every confirmed slot that is no anchor was confirmed by a
tick that came the probation window or more after its admission and found it observed within the freshness window. -/
theorem known_list_invariants (cfg : KnownListConfig) (ops : List Op) :
    ((run cfg ops).inner.slots.map KnownSlot.witnessKeyId).Nodup ∧
    (run cfg ops).inner.slots.length ≤ cfg.capacity ∧
    (run cfg ops).inner.anchorCount ≤ min cfg.anchorCapacity cfg.capacity ∧
    (∀ netPrefix, (run cfg ops).inner.prefixCount netPrefix ≤ cfg.maxPerPrefix) ∧
    ∀ slot ∈ (run cfg ops).inner.slots, slot.isAnchor = false → slot.status = .confirmed →
      ConfirmedInTime cfg ops slot.witnessKeyId slot.admittedAt := by
  obtain ⟨hinv, hcfg⟩ := run_inv cfg ops
  obtain ⟨hunique, htotal, hanchors, hprefixes⟩ := hinv
  rw [hcfg] at htotal hanchors hprefixes
  exact ⟨hunique, htotal, hanchors, hprefixes, fun slot hslot => (run_history cfg ops slot hslot).confirmed⟩

/-- two same-prefix candidates beyond the cap are refused, and the two admitted get confirmed by a later tick -/
example :
    let cfg : KnownListConfig := ⟨5, 2, 2, 600, 1800, 0.4⟩
    let flood := ["a", "b", "c"].map fun id => (⟨id, "net", false⟩ : DiscoveredCandidate)
    let handle := run cfg [⟨.tick flood, 0⟩, ⟨.observe "a", 1500⟩, ⟨.observe "b", 1100⟩]
    (handle.inner.slots.map (·.witnessKeyId), (handle.inner.confirmDue 1800).2) = (["a", "b"], ["a"]) := by
  decide +kernel

end Avalon.KnownList
