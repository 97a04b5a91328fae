/-
What the log says about consent, and that tables, reads and checks agree with it.

`View` is what a log of events says: whose binding an id names, which binding is active between an identity and an integrator,
and what is granted under it. `Allowed` says when an entry may follow a log: a binding is established where none is active, with
an id that was never used; a capability is granted under the active binding, if it is not granted, was declared by the integrator
and is among those that the identity signed for; it is revoked if it is granted; a binding ends when nothing is granted under it.

Results:
- `connections_follow_log`: in every run of any number of calls, statement by statement, each entry of the log is allowed where it
  stands, and the tables are what the log says.
- `checks_linearize`: an answer of the check is right at one moment between its two reads.
- `registry_counts`: the indexer's copy is the replay of the log, and its counts of players are those of the log.
-/
import Mathlib.Tactic
import Avalon.Core.EventLog
import Avalon.Server.Connections

namespace Avalon.Connections

open Avalon.Events Avalon.Identity Avalon.LedgerEntry Avalon.SignatureGate
open Interleaving EventLog

/-! ## The view -/

structure View where
  /-- what an integrator declared -/
  declared : ℕ → List String
  /-- whose binding an id names -/
  owner : ℕ → Option (IdentityId × ℕ)
  /-- the active binding -/
  binding : IdentityId → ℕ → Option ℕ
  granted : ℕ → String → Bool

namespace View

def empty : View := ⟨fun _ => [], fun _ => none, fun _ _ => none, fun _ _ => false⟩

def apply (w : View) : Event → View
  | .registered g _ capabilities => { w with declared := fun g' => if g' = g then capabilities else w.declared g' }
  | .established b i g _ _ =>
    { w with
      owner := fun b' => if b' = b then some (i, g) else w.owner b'
      binding := fun i' g' => if i' = i ∧ g' = g then some b else w.binding i' g' }
  | .granted b _ _ c _ => { w with granted := fun b' c' => if b' = b ∧ c' = c then true else w.granted b' c' }
  | .revoked b _ _ c _ _ => { w with granted := fun b' c' => if b' = b ∧ c' = c then false else w.granted b' c' }
  | .ended _ i g _ _ => { w with binding := fun i' g' => if i' = i ∧ g' = g then none else w.binding i' g' }
  | _ => w

/-- an active binding under which the capability is granted -/
def Authorized (w : View) (i : IdentityId) (g : ℕ) (c : String) : Prop := ∃ b, w.binding i g = some b ∧ w.granted b c = true

end View

def view (log : List Event) : View := log.foldl View.apply .empty

@[simp] theorem view_nil : view [] = .empty := rfl

@[simp] theorem view_snoc (log : List Event) (e : Event) : view (log ++ [e]) = (view log).apply e := by
  simp [view, List.foldl_append]

/-- when an entry may follow a log -/
def Event.Allowed (v : Verifier) (before : List Event) : Event → Prop
  | keysWritten _ => True
  | registered g slug _ => ∀ g' slug' capabilities, .registered g' slug' capabilities ∈ before → g' ≠ g ∧ slug' ≠ slug
  | consented i g slug capabilities proof =>
    (∃ declared, .registered g slug declared ∈ before) ∧ ∃ keys, .keysWritten keys ∈ before ∧
      requireFreshSignature v keys i (connectMessage slug capabilities) proof = .ok ()
  | established b i g slug _ =>
    (view before).owner b = none ∧ (view before).binding i g = none ∧
      ∃ capabilities proof, .consented i g slug capabilities proof ∈ before
  | granted b i g c _ =>
    (view before).binding i g = some b ∧ (view before).granted b c = false ∧ c ∈ (view before).declared g ∧
      ∃ slug capabilities proof, .consented i g slug capabilities proof ∈ before ∧ c ∈ capabilities
  | revoked b i g c _ _ => (view before).binding i g = some b ∧ (view before).granted b c = true
  | ended b i g _ _ => (view before).binding i g = some b ∧ ∀ c, (view before).granted b c = false

def LegalLog (v : Verifier) (log : List Event) : Prop := Legal (fun before e => e.Allowed v before) log

/-- what a legal log says -/
structure View.Sound (w : View) : Prop where
  bound : ∀ i g b, w.binding i g = some b → w.owner b = some (i, g)
  active : ∀ b c, w.granted b c = true → ∃ i g, w.binding i g = some b

theorem sound_of_legal {v : Verifier} {log : List Event} (h : LegalLog v log) : (view log).Sound := by
  refine h.induct (P := fun log => (view log).Sound)
    ⟨fun i g b hb => by simp [View.empty] at hb, fun b c hc => by simp [View.empty] at hc⟩ ?_
  intro log e _ he hsound
  rw [view_snoc]
  cases e with
  | keysWritten | registered | consented => exact ⟨hsound.bound, hsound.active⟩
  | established b i g slug timestamp =>
    obtain ⟨howner, hbinding, -⟩ := he
    refine ⟨fun i' g' b' hb' => ?_, fun b' c hc => ?_⟩
    · simp only [View.apply] at hb' ⊢
      split_ifs at hb' with hpair
      · obtain ⟨rfl, rfl⟩ := hpair
        cases hb'
        rw [if_pos rfl]
      · have hold := hsound.bound i' g' b' hb'
        rw [if_neg fun heq => by rw [heq, howner] at hold; cases hold]
        exact hold
    · obtain ⟨i', g', hb'⟩ := hsound.active b' c hc
      refine ⟨i', g', ?_⟩
      simp only [View.apply]
      rw [if_neg fun hpair => by rw [hpair.1, hpair.2, hbinding] at hb'; cases hb']
      exact hb'
  | granted b i g c timestamp =>
    refine ⟨hsound.bound, fun b' c' hc => ?_⟩
    simp only [View.apply] at hc ⊢
    split_ifs at hc with heq
    · exact ⟨i, g, heq.1 ▸ he.1⟩
    · exact hsound.active b' c' hc
  | revoked b i g c reason timestamp =>
    refine ⟨hsound.bound, fun b' c' hc => ?_⟩
    simp only [View.apply] at hc ⊢
    split_ifs at hc
    exact hsound.active b' c' hc
  | ended b i g slug timestamp =>
    obtain ⟨hbinding, hnone⟩ := he
    refine ⟨fun i' g' b' hb' => ?_, fun b' c hc => ?_⟩
    · simp only [View.apply] at hb' ⊢
      split_ifs at hb'
      exact hsound.bound i' g' b' hb'
    · obtain ⟨i', g', hb'⟩ := hsound.active b' c hc
      -- nothing is granted under the binding that ends
      have hother : ¬ (i' = i ∧ g' = g) := fun hpair => by
        rw [hpair.1, hpair.2, hbinding] at hb'
        cases hb'
        exact Bool.false_ne_true ((hnone c).symm.trans hc)
      refine ⟨i', g', ?_⟩
      simp only [View.apply]
      rw [if_neg hother]
      exact hb'

/-- a binding is lost only when it ends -/
theorem binding_lost {v : Verifier} {log : List Event} {e : Event} (he : e.Allowed v log) {i : IdentityId} {g b : ℕ}
    (hbefore : (view log).binding i g = some b) (hafter : (view (log ++ [e])).binding i g ≠ some b) :
    (view (log ++ [e])).binding i g = none := by
  rw [view_snoc] at hafter ⊢
  cases e with
  | established b' i' g' slug timestamp =>
    simp only [View.apply] at hafter
    split_ifs at hafter with hpair
    · obtain ⟨rfl, rfl⟩ := hpair
      rw [he.2.1] at hbefore
      cases hbefore
    · exact absurd hbefore hafter
  | ended b' i' g' slug timestamp =>
    simp only [View.apply] at hafter ⊢
    split_ifs at hafter ⊢ with hpair
    · rfl
    · exact absurd hbefore hafter
  | _ => exact absurd hbefore hafter

/-- between a log under which a binding is active and a later one under which it is not, none was -/
theorem exists_unbound {v : Verifier} {before after : List Event} (hlegal : LegalLog v (before ++ after)) {i : IdentityId}
    {g b : ℕ} (hbefore : (view before).binding i g = some b) (hafter : (view (before ++ after)).binding i g ≠ some b) :
    ∃ mid rest, after = mid ++ rest ∧ (view (before ++ mid)).binding i g = none := by
  obtain ⟨mid, e, rest, rfl, hmid, hlost⟩ := exists_change (P := fun log => (view log).binding i g = some b) hbefore hafter
  refine ⟨mid ++ [e], rest, by simp, ?_⟩
  rw [← List.append_assoc]
  exact binding_lost (hlegal (before ++ mid) e rest (by simp)) hmid hlost

/-! ## Tables and view -/

/-- the bindings are what the view says -/
structure BindingsOk (nextId : ℕ) (bindings : List BindingRow) (w : View) : Prop where
  ids : (bindings.map BindingRow.id).Nodup
  owned : ∀ r ∈ bindings, w.owner r.id = some (r.identityId, r.integratorId)
  unused : ∀ b, nextId ≤ b → w.owner b = none
  active : ∀ i g b, w.binding i g = some b ↔
    ∃ r ∈ bindings, r.id = b ∧ r.identityId = i ∧ r.integratorId = g ∧ r.endedAt = none

def GrantRow.key (r : GrantRow) : ℕ × String := (r.bindingId, r.capability)

/-- the grants are what the view says, and no two are for the same capability -/
structure GrantsOk (grants : List GrantRow) (w : View) : Prop where
  keys : (grants.map GrantRow.key).Nodup
  active : ∀ b c, isActive grants b c = w.granted b c

structure IntegratorsOk (t : Tables) : Prop where
  old : ∀ r ∈ t.integrators, r.id < t.nextId
  registered : ∀ g slug capabilities, .registered g slug capabilities ∈ t.log ↔ ⟨g, slug, capabilities⟩ ∈ t.integrators
  declared : ∀ g, requestedCapabilities t g = (view t.log).declared g

section

variable {t : Tables} {w : View} {grants : List GrantRow} {i : IdentityId} {g b : ℕ} {c : String}

theorem isActive_iff : isActive grants b c = true ↔ ∃ r ∈ grants, r.bindingId = b ∧ r.capability = c ∧ r.revokedAt = none := by
  simp [isActive, and_assoc]

theorem mem_activeCapabilities : c ∈ activeCapabilities grants b ↔ isActive grants b c = true := by
  rw [isActive_iff]
  simp only [activeCapabilities, List.mem_map, List.mem_filter, Bool.and_eq_true, decide_eq_true_eq, Option.isNone_iff_eq_none]
  constructor
  · rintro ⟨r, ⟨hr, hb, hrevoked⟩, hc⟩
    exact ⟨r, hr, hb, hc, hrevoked⟩
  · rintro ⟨r, hr, hb, hc, hrevoked⟩
    exact ⟨r, ⟨hr, hb, hrevoked⟩, hc⟩

theorem nodup_activeCapabilities (h : (grants.map GrantRow.key).Nodup) : (activeCapabilities grants b).Nodup := by
  have hsub : ((grants.filter fun r => decide (r.bindingId = b) && r.revokedAt.isNone).map GrantRow.key).Nodup :=
    h.sublist (List.filter_sublist.map _)
  refine List.Nodup.of_map (fun c => (b, c)) ?_
  rw [activeCapabilities, List.map_map]
  refine (List.map_congr_left fun r hr => ?_) ▸ hsub
  obtain ⟨-, hkeep⟩ := List.mem_filter.1 hr
  simp only [Bool.and_eq_true, decide_eq_true_eq] at hkeep
  simp [GrantRow.key, hkeep.1]

/-- the binding that is found is the active one -/
theorem findActive_map (h : BindingsOk t.nextId t.bindings w) : (findActive t i g).map BindingRow.id = w.binding i g := by
  cases hfound : findActive t i g with
  | none =>
    cases hbinding : w.binding i g with
    | none => rfl
    | some b =>
      obtain ⟨r, hr, -, hi, hg, hended⟩ := (h.active i g b).1 hbinding
      have := List.find?_eq_none.1 hfound r hr
      simp [hi, hg, hended] at this
  | some row =>
    have hrow := List.find?_some hfound
    simp only [Bool.and_eq_true, decide_eq_true_eq, Option.isNone_iff_eq_none] at hrow
    exact ((h.active i g row.id).2 ⟨row, List.mem_of_find?_eq_some hfound, rfl, hrow.1.1, hrow.1.2, hrow.2⟩).symm

theorem mem_myGrants (hbindings : BindingsOk t.nextId t.bindings w) (hgrants : GrantsOk t.grants w) :
    c ∈ myGrants t i g ↔ w.Authorized i g c := by
  simp only [myGrants, List.mem_flatMap, List.mem_map, List.mem_filter, Bool.and_eq_true, decide_eq_true_eq,
    Option.isNone_iff_eq_none]
  constructor
  · rintro ⟨r, hr, row, ⟨hrow, ⟨⟨hid, hi, hg⟩, hended⟩, hrevoked⟩, rfl⟩
    refine ⟨row.id, (hbindings.active i g row.id).2 ⟨row, hrow, rfl, hi, hg, hended⟩, ?_⟩
    rw [← hgrants.active, isActive_iff]
    exact ⟨r, hr, hid.symm, rfl, hrevoked⟩
  · rintro ⟨b, hbinding, hgranted⟩
    obtain ⟨row, hrow, hid, hi, hg, hended⟩ := (hbindings.active i g b).1 hbinding
    rw [← hgrants.active, isActive_iff] at hgranted
    obtain ⟨r, hr, hb, hc, hrevoked⟩ := hgranted
    exact ⟨r, hr, row, ⟨hrow, ⟨⟨hid.trans hb.symm, hi, hg⟩, hended⟩, hrevoked⟩, hc⟩

/-! ## Writes -/

theorem isActive_grant {now : OffsetDateTime} {b' : ℕ} {c' : String} :
    isActive (grant grants b now c) b' c' = if b' = b ∧ c' = c then true else isActive grants b' c' := by
  rw [Bool.eq_iff_iff]
  unfold grant
  split_ifs with hany hsame hsame
  · obtain ⟨r, hr, hkey⟩ := List.any_eq_true.1 hany
    have hkey := of_decide_eq_true hkey
    refine iff_of_true (isActive_iff.2 ⟨_, List.mem_map_of_mem hr, ?_⟩) rfl
    rw [if_pos hkey]
    exact ⟨hkey.1.trans hsame.1.symm, hkey.2.trans hsame.2.symm, rfl⟩
  · simp only [isActive_iff, List.mem_map, exists_exists_and_eq_and]
    refine exists_congr fun r => and_congr_right fun _ => ?_
    split_ifs with hkey
    · -- the rows of the granted capability are not asked for
      refine iff_of_false (fun h => ?_) (fun h => ?_)
      · exact hsame ⟨h.1.symm.trans hkey.1, h.2.1.symm.trans hkey.2⟩
      · exact hsame ⟨h.1.symm.trans hkey.1, h.2.1.symm.trans hkey.2⟩
    · exact Iff.rfl
  · exact iff_of_true (isActive_iff.2 ⟨_, List.mem_append_right _ (List.mem_singleton_self _), hsame.1.symm, hsame.2.symm, rfl⟩) rfl
  · simp only [isActive_iff, List.mem_append, List.mem_singleton]
    constructor
    · rintro ⟨r, hr | rfl, hb, hc, hrevoked⟩
      · exact ⟨r, hr, hb, hc, hrevoked⟩
      · exact absurd ⟨hb.symm, hc.symm⟩ hsame
    · rintro ⟨r, hr, hrest⟩
      exact ⟨r, .inl hr, hrest⟩

theorem nodup_grant {now : OffsetDateTime} (h : (grants.map GrantRow.key).Nodup) :
    ((grant grants b now c).map GrantRow.key).Nodup := by
  unfold grant
  split_ifs with hany
  · rw [List.map_map]
    refine (List.map_congr_left fun r _ => ?_) ▸ h
    simp only [Function.comp]
    split_ifs <;> rfl
  · rw [List.map_append, List.map_singleton]
    refine List.Nodup.append h (List.nodup_singleton _) fun key hkey hnew => hany ?_
    obtain rfl := List.mem_singleton.1 hnew
    obtain ⟨r, hr, heq⟩ := List.mem_map.1 hkey
    exact List.any_eq_true.2 ⟨r, hr, decide_eq_true ⟨congrArg Prod.fst heq, congrArg Prod.snd heq⟩⟩

theorem isActive_revoke {now : OffsetDateTime} {b' : ℕ} {c' : String} :
    isActive (revoke grants b now [c]) b' c' = if b' = b ∧ c' = c then false else isActive grants b' c' := by
  rw [Bool.eq_iff_iff]
  unfold revoke
  simp only [isActive_iff, List.mem_map, exists_exists_and_eq_and, List.mem_singleton]
  split_ifs with hsame
  · obtain ⟨rfl, rfl⟩ := hsame
    refine iff_of_false ?_ id
    rintro ⟨r, -, hb, hc, hrevoked⟩
    split_ifs at hb hc hrevoked with hkey
    exact hkey ⟨hb, hc, hrevoked⟩
  · rw [isActive_iff]
    refine exists_congr fun r => and_congr_right fun _ => ?_
    split_ifs with hkey
    · refine iff_of_false (fun h => ?_) (fun h => ?_)
      · exact hsame ⟨h.1.symm.trans hkey.1, h.2.1.symm.trans hkey.2.1⟩
      · exact hsame ⟨h.1.symm.trans hkey.1, h.2.1.symm.trans hkey.2.1⟩
    · exact Iff.rfl

theorem nodup_revoke {now : OffsetDateTime} {capabilities : List String} (h : (grants.map GrantRow.key).Nodup) :
    ((revoke grants b now capabilities).map GrantRow.key).Nodup := by
  unfold revoke
  rw [List.map_map]
  refine (List.map_congr_left fun r _ => ?_) ▸ h
  simp only [Function.comp]
  split_ifs <;> rfl

/-- one after the other -/
theorem revoke_cons {now : OffsetDateTime} {capabilities : List String} :
    revoke grants b now (c :: capabilities) = revoke (revoke grants b now [c]) b now capabilities := by
  unfold revoke
  rw [List.map_map]
  refine List.map_congr_left fun r _ => ?_
  simp only [Function.comp, List.mem_cons, List.not_mem_nil, or_false]
  by_cases hc : r.bindingId = b ∧ r.capability = c ∧ r.revokedAt = none
  · rw [if_pos hc, if_pos ⟨hc.1, .inl hc.2.1, hc.2.2⟩, if_neg fun h => by cases h.2.2]
  · rw [if_neg hc]
    refine if_congr ⟨fun h => ⟨h.1, h.2.1.resolve_left fun heq => hc ⟨h.1, heq, h.2.2⟩, h.2.2⟩, fun h => ?_⟩ rfl rfl
    exact ⟨h.1, .inr h.2.1, h.2.2⟩

theorem revoke_nil {now : OffsetDateTime} : revoke grants b now [] = grants := by
  simp [revoke]

end

/-! ## Commits, entry by entry -/

def grantOne (h : Held) (t : Tables) (c : String) : Tables :=
  { t with grants := grant t.grants h.bindingId h.now c, log := t.log ++ [h.granted c] }

def revokeOne (h : Held) (reason : Option String) (t : Tables) (c : String) : Tables :=
  { t with grants := revoke t.grants h.bindingId h.now [c], log := t.log ++ [h.revoked reason c] }

def endBinding (t : Tables) (h : Held) : Tables :=
  { t with
    bindings := t.bindings.map fun r => if r.id = h.bindingId then { r with endedAt := some h.now } else r
    indexed := applyInTx t.indexed h.ended
    log := t.log ++ [h.ended] }

section

variable {t : Tables} {h : Held} {capabilities : List String}

theorem foldl_grantOne : capabilities.foldl (grantOne h) t =
    { t with
      grants := capabilities.foldl (fun grants c => grant grants h.bindingId h.now c) t.grants
      log := t.log ++ capabilities.map h.granted } := by
  induction capabilities generalizing t with
  | nil => simp
  | cons c capabilities ih =>
    rw [List.foldl_cons, ih]
    simp [grantOne]

theorem commitConnect_eq : commitConnect t h capabilities = capabilities.foldl (grantOne h) (commitBinding t h) := by
  rw [foldl_grantOne]
  have hgrants : (commitBinding t h).grants = t.grants := by
    unfold commitBinding
    split_ifs <;> rfl
  rw [hgrants]
  rfl

theorem foldl_revokeOne (reason : Option String) : capabilities.foldl (revokeOne h reason) t =
    { t with
      grants := revoke t.grants h.bindingId h.now capabilities
      log := t.log ++ capabilities.map (h.revoked reason) } := by
  induction capabilities generalizing t with
  | nil => simp [revoke_nil]
  | cons c capabilities ih =>
    rw [List.foldl_cons, ih, revoke_cons (c := c)]
    simp [revokeOne]

theorem commitDisconnect_eq :
    commitDisconnect t h capabilities = endBinding (capabilities.foldl (revokeOne h (some "binding_ended")) t) h := by
  rw [foldl_revokeOne]
  rfl

end

/-! ## The invariant -/

/-- the entry of a row in the map of `fold` -/
def BindingRow.entry (r : BindingRow) : ℕ × BindingState := (r.id, ⟨r.integratorId, r.identityId, r.endedAt.isNone⟩)

/-- an answer is right at a moment between its reads -/
def Answer.Right (log : List Event) (a : Answer) : Prop :=
  ∃ n, a.first ≤ n ∧ n ≤ a.last ∧ a.last ≤ log.length ∧
    (a.authorized = true ↔ (view (log.take n)).Authorized a.identityId a.integratorId a.capability)

structure Tables.Ok (v : Verifier) (t : Tables) : Prop where
  legal : LegalLog v t.log
  integrators : IntegratorsOk t
  bindings : BindingsOk t.nextId t.bindings (view t.log)
  grants : GrantsOk t.grants (view t.log)
  keys : t.signingKeys = [] ∨ .keysWritten t.signingKeys ∈ t.log
  indexed : t.indexed = t.bindings
  replayed : t.indexed = t.log.foldl applyInTx []
  folded : (t.log.filterMap decode).foldl foldStep [] = t.bindings.map BindingRow.entry
  answers : ∀ a ∈ t.answers, a.Right t.log

/-- what a transaction knows of its binding -/
def Held.Holds (t : Tables) (h : Held) : Prop :=
  if h.newlyCreated then
    h.bindingId < t.nextId ∧ (view t.log).owner h.bindingId = none ∧
      (view t.log).binding h.identityId h.integratorId = none
  else (view t.log).binding h.identityId h.integratorId = some h.bindingId

/-- the capabilities that are left and those that were granted are declared and signed for; the latter were not granted before -/
structure Granting (t : Tables) (h : Held) (capabilities granted : List String) : Prop where
  signed : ∃ all proof, .consented h.identityId h.integratorId h.slug all proof ∈ t.log ∧
    ∀ c, c ∈ capabilities ∨ c ∈ granted → c ∈ all ∧ c ∈ (view t.log).declared h.integratorId
  nodup : granted.Nodup
  new : ∀ c ∈ granted, (view t.log).granted h.bindingId c = false

/-- what a call knows -/
def Phase.Knows (t : Tables) : Phase → Prop
  | signing _ g slug _ _ => ∃ declared, .registered g slug declared ∈ t.log
  | declaring i g slug capabilities => ∃ proof, .consented i g slug capabilities proof ∈ t.log
  | binding i g slug capabilities _ | inserting i g slug capabilities _ =>
    ∃ proof, .consented i g slug capabilities proof ∈ t.log ∧ ∀ c ∈ capabilities, c ∈ (view t.log).declared g
  | granting h capabilities granted => Granting t h capabilities granted
  | writing h c capabilities granted =>
    Granting t h (c :: capabilities) granted ∧ c ∉ granted ∧ (view t.log).granted h.bindingId c = false
  | grantRevoked h c => h.newlyCreated = false ∧ (view t.log).granted h.bindingId c = true
  | revoking h _ | ending h => h.newlyCreated = false
  | grantsRevoked h capabilities | bindingEnded h capabilities =>
    h.newlyCreated = false ∧ capabilities.Nodup ∧ ∀ c, c ∈ capabilities ↔ (view t.log).granted h.bindingId c = true
  | checking g i _ found first =>
    first ≤ t.log.length ∧ found = ((view (t.log.take first)).binding i g).map fun b => (b, ⟨g, true⟩)
  | _ => True

structure Phase.Good (t : Tables) (p : Phase) : Prop where
  holds : ∀ h capabilities, p.held = some (h, capabilities) → h.Holds t
  knows : p.Knows t

/-- the id of the binding that a call has inserted -/
def Phase.fresh (p : Phase) : Option ℕ := p.held.bind fun x => if x.1.newlyCreated then some x.1.bindingId else none

/-- no two calls have inserted the same id -/
def Phase.Apart (p q : Phase) : Prop := ∀ id, p.fresh = some id → q.fresh ≠ some id

/-- the view keeps what it says of a binding -/
structure Frame (w w' : View) (h : Held) : Prop where
  owner : w'.owner h.bindingId = w.owner h.bindingId
  binding : w'.binding h.identityId h.integratorId = w.binding h.identityId h.integratorId
  granted : ∀ c, w'.granted h.bindingId c = w.granted h.bindingId c

/-- what a statement leaves to another call -/
structure Keeps (t t' : Tables) (q : Phase) : Prop where
  log : t.log <+: t'.log
  nextId : t.nextId ≤ t'.nextId
  declared : ∀ g c, c ∈ (view t.log).declared g → c ∈ (view t'.log).declared g
  held : ∀ h capabilities, q.held = some (h, capabilities) → Frame (view t.log) (view t'.log) h

section

variable {v : Verifier} {t t' : Tables} {h : Held} {p q : Phase}

theorem Phase.Apart.symm (h : p.Apart q) : q.Apart p := fun id hq hp => h id hp hq

theorem fresh_of_held {capabilities : List String} (hheld : p.held = some (h, capabilities)) :
    p.fresh = if h.newlyCreated then some h.bindingId else none := by
  simp [Phase.fresh, hheld]

theorem apart_of_none (h : p.held = none) : p.Apart q := fun id hid => by
  simp [Phase.fresh, h] at hid

theorem apart_of_old {capabilities : List String} (hheld : p.held = some (h, capabilities)) (hold : h.newlyCreated = false) :
    p.Apart q := fun id hid => by
  simp [fresh_of_held hheld, hold] at hid

theorem Held.Holds.keeps (hholds : h.Holds t) (hnext : t.nextId ≤ t'.nextId) (hframe : Frame (view t.log) (view t'.log) h) :
    h.Holds t' := by
  unfold Held.Holds at hholds ⊢
  rw [hframe.owner, hframe.binding]
  split_ifs at hholds ⊢
  · exact ⟨hholds.1.trans_le hnext, hholds.2⟩
  · exact hholds

theorem Granting.keeps {capabilities granted : List String} (hg : Granting t h capabilities granted)
    (hlog : t.log <+: t'.log) (hdeclared : ∀ g c, c ∈ (view t.log).declared g → c ∈ (view t'.log).declared g)
    (hframe : Frame (view t.log) (view t'.log) h) : Granting t' h capabilities granted := by
  obtain ⟨all, proof, hconsented, hall⟩ := hg.signed
  refine ⟨⟨all, proof, hlog.subset hconsented, fun c hc => ⟨(hall c hc).1, hdeclared _ c (hall c hc).2⟩⟩, hg.nodup, ?_⟩
  intro c hc
  rw [hframe.granted]
  exact hg.new c hc

theorem Phase.Good.keeps (hgood : q.Good t) (hkeeps : Keeps t t' q) : q.Good t' := by
  refine ⟨fun h capabilities hheld => (hgood.holds h capabilities hheld).keeps hkeeps.nextId (hkeeps.held h capabilities hheld), ?_⟩
  have hknows := hgood.knows
  cases q with
  | signing i g slug capabilities proof =>
    obtain ⟨declared, hregistered⟩ := hknows
    exact ⟨declared, hkeeps.log.subset hregistered⟩
  | declaring i g slug capabilities =>
    obtain ⟨proof, hconsented⟩ := hknows
    exact ⟨proof, hkeeps.log.subset hconsented⟩
  | binding i g slug capabilities now | inserting i g slug capabilities now =>
    obtain ⟨proof, hconsented, hdeclared⟩ := hknows
    exact ⟨proof, hkeeps.log.subset hconsented, fun c hc => hkeeps.declared g c (hdeclared c hc)⟩
  | granting h capabilities granted => exact Granting.keeps hknows hkeeps.log hkeeps.declared (hkeeps.held h _ rfl)
  | writing h c capabilities granted =>
    obtain ⟨hgranting, hc, hgranted⟩ := hknows
    have hframe := hkeeps.held h _ rfl
    exact ⟨hgranting.keeps hkeeps.log hkeeps.declared hframe, hc, (hframe.granted c).trans hgranted⟩
  | grantRevoked h c => exact ⟨hknows.1, ((hkeeps.held h _ rfl).granted c).trans hknows.2⟩
  | revoking | ending => exact hknows
  | grantsRevoked h capabilities | bindingEnded h capabilities =>
    obtain ⟨hold, hnodup, hcapabilities⟩ := hknows
    refine ⟨hold, hnodup, fun c => ?_⟩
    rw [(hkeeps.held h _ rfl).granted]
    exact hcapabilities c
  | checking g i c found first =>
    obtain ⟨hfirst, hfound⟩ := hknows
    refine ⟨hfirst.trans hkeeps.log.length_le, ?_⟩
    obtain ⟨suffix, hlog⟩ := hkeeps.log
    rw [← hlog, List.take_append_of_le_length hfirst]
    exact hfound
  | _ => trivial

theorem Answer.Right.mono {log log' : List Event} {a : Answer} (h : a.Right log) (hlog : log <+: log') : a.Right log' := by
  obtain ⟨n, hfirst, hn, hlast, hright⟩ := h
  obtain ⟨suffix, rfl⟩ := hlog
  refine ⟨n, hfirst, hn, hlast.trans (by simp), ?_⟩
  rw [List.take_append_of_le_length (hn.trans hlast)]
  exact hright

/-! ## Operations -/

/-- an entry that is not about a binding's beginning or end, nor a registration -/
structure Minor (e : Event) : Prop where
  decode : decode e = none
  other : ∀ g slug capabilities, e ≠ .registered g slug capabilities

theorem Minor.view {e : Event} (h : Minor e) (w : View) :
    (w.apply e).owner = w.owner ∧ (w.apply e).binding = w.binding ∧ (w.apply e).declared = w.declared := by
  have hdecode := h.decode
  cases e with
  | established | ended => cases hdecode
  | registered g slug capabilities => exact absurd rfl (h.other g slug capabilities)
  | _ => exact ⟨rfl, rfl, rfl⟩

theorem IntegratorsOk.snoc (hok : IntegratorsOk t) {e : Event} (hother : ∀ g slug capabilities, e ≠ .registered g slug capabilities)
    (hlog : t'.log = t.log ++ [e]) (hintegrators : t'.integrators = t.integrators) (hnext : t.nextId ≤ t'.nextId)
    (hdeclared : ((view t.log).apply e).declared = (view t.log).declared) : IntegratorsOk t' where
  old r hr := (hok.old r (hintegrators ▸ hr)).trans_le hnext
  registered g slug capabilities := by
    rw [hlog, hintegrators, ← hok.registered, List.mem_append, List.mem_singleton]
    exact or_iff_left fun heq => hother g slug capabilities heq.symm
  declared g := by
    rw [hlog, view_snoc, hdeclared, ← hok.declared, requestedCapabilities, hintegrators, requestedCapabilities]

/-- an entry is appended, and the grants follow it -/
theorem Tables.Ok.snoc (hok : t.Ok v) {e : Event} (hminor : Minor e) (hallowed : e.Allowed v t.log) {grants : List GrantRow}
    (hgrants : GrantsOk grants (view (t.log ++ [e]))) : ({ t with grants := grants, log := t.log ++ [e] } : Tables).Ok v := by
  obtain ⟨howner, hbinding, hdeclared⟩ := hminor.view (view t.log)
  refine
    { legal := hok.legal.snoc hallowed
      integrators := hok.integrators.snoc hminor.other rfl rfl le_rfl hdeclared
      bindings := ?_
      grants := hgrants
      keys := hok.keys.imp_right (List.mem_append_left _)
      indexed := hok.indexed
      replayed := ?_
      folded := ?_
      answers := fun a ha => (hok.answers a ha).mono (List.prefix_append _ _) }
  · obtain ⟨hids, howned, hunused, hactive⟩ := hok.bindings
    refine ⟨hids, ?_, ?_, ?_⟩ <;> simp only [view_snoc, howner, hbinding] <;> assumption
  · simp only [List.foldl_append, List.foldl_cons, List.foldl_nil]
    rw [applyInTx, hminor.decode]
    exact hok.replayed
  · simp only [List.filterMap_append, List.filterMap_cons, hminor.decode, List.filterMap_nil, List.append_nil]
    exact hok.folded

/-- an entry that grants nothing and revokes nothing -/
theorem Tables.Ok.note (hok : t.Ok v) {e : Event} (hminor : Minor e) (hallowed : e.Allowed v t.log)
    (hgranted : ((view t.log).apply e).granted = (view t.log).granted) :
    ({ t with log := t.log ++ [e] } : Tables).Ok v := by
  refine hok.snoc hminor hallowed ⟨hok.grants.keys, fun b c => ?_⟩
  rw [view_snoc, hgranted]
  exact hok.grants.active b c

theorem ok_writeKeys (hok : t.Ok v) (keys : List SigningKeyRow) :
    ({ t with signingKeys := keys, log := t.log ++ [.keysWritten keys] } : Tables).Ok v := by
  obtain ⟨hlegal, hintegrators, hbindings, hgrants, -, hindexed, hreplayed, hfolded, hanswers⟩ :=
    hok.note (e := .keysWritten keys) ⟨rfl, fun _ _ _ => by simp⟩ trivial rfl
  refine ⟨hlegal, ?_, hbindings, hgrants, .inr (List.mem_append_right _ (List.mem_singleton_self _)), hindexed, hreplayed, hfolded,
    hanswers⟩
  exact ⟨hintegrators.old, hintegrators.registered, hintegrators.declared⟩

theorem ok_grantOne (hok : t.Ok v) {c : String} (hallowed : (h.granted c).Allowed v t.log) : (grantOne h t c).Ok v := by
  refine hok.snoc ⟨rfl, fun _ _ _ => by simp [Held.granted]⟩ hallowed ⟨nodup_grant hok.grants.keys, fun b' c' => ?_⟩
  rw [isActive_grant, view_snoc]
  simp only [Held.granted, View.apply, hok.grants.active]

theorem ok_revokeOne (hok : t.Ok v) {c : String} {reason : Option String} (hallowed : (h.revoked reason c).Allowed v t.log) :
    (revokeOne h reason t c).Ok v := by
  refine hok.snoc ⟨rfl, fun _ _ _ => by simp [Held.revoked]⟩ hallowed ⟨nodup_revoke hok.grants.keys, fun b' c' => ?_⟩
  rw [isActive_revoke, view_snoc]
  simp only [Held.revoked, View.apply, hok.grants.active]

/-- a new integrator -/
theorem ok_register (hok : t.Ok v) {slug : String} (capabilities : List String)
    (hslug : ¬ (t.integrators.any fun r => decide (r.slug = slug)) = true) :
    ({ t with
      nextId := t.nextId + 1
      integrators := t.integrators ++ [⟨t.nextId, slug, capabilities⟩]
      log := t.log ++ [.registered t.nextId slug capabilities] } : Tables).Ok v := by
  refine
    { legal := hok.legal.snoc fun g slug' capabilities' hregistered => ?_
      integrators := ⟨fun r hr => ?_, fun g slug' capabilities' => ?_, fun g => ?_⟩
      bindings := ⟨hok.bindings.ids, ?_, fun b hb => ?_, ?_⟩
      grants := ⟨hok.grants.keys, ?_⟩
      keys := hok.keys.imp_right (List.mem_append_left _)
      indexed := hok.indexed
      replayed := ?_
      folded := ?_
      answers := fun a ha => (hok.answers a ha).mono (List.prefix_append _ _) }
  · have hrow := (hok.integrators.registered g slug' capabilities').1 hregistered
    refine ⟨(hok.integrators.old _ hrow).ne, fun heq => hslug ?_⟩
    exact List.any_eq_true.2 ⟨_, hrow, decide_eq_true heq⟩
  · rcases List.mem_append.1 hr with hr | hr
    · exact Nat.lt_succ_of_lt (hok.integrators.old r hr)
    · obtain rfl := List.mem_singleton.1 hr
      exact Nat.lt_succ_self _
  · simp only [List.mem_append, List.mem_singleton, hok.integrators.registered, Event.registered.injEq, IntegratorRow.mk.injEq]
  · -- the new id has declared nothing before
    have hold : requestedCapabilities t t.nextId = [] := by
      rw [requestedCapabilities, List.filter_eq_nil_iff.2 fun r hr => ?_, List.flatMap_nil]
      simpa using (hok.integrators.old r hr).ne
    rw [view_snoc]
    simp only [View.apply, requestedCapabilities, List.filter_append, List.flatMap_append]
    rw [← requestedCapabilities]
    split_ifs with hg
    · subst hg
      simp [hold]
    · simp [hok.integrators.declared, Ne.symm hg]
  · rw [view_snoc]
    exact hok.bindings.owned
  · rw [view_snoc]
    exact hok.bindings.unused b (Nat.le_of_succ_le hb)
  · rw [view_snoc]
    exact hok.bindings.active
  · rw [view_snoc]
    exact hok.grants.active
  · simp only [List.foldl_append, List.foldl_cons, List.foldl_nil]
    exact hok.replayed
  · simp only [List.filterMap_append, List.filterMap_cons, decode, List.filterMap_nil, List.append_nil]
    exact hok.folded

theorem ok_nextId (hok : t.Ok v) : ({ t with nextId := t.nextId + 1 } : Tables).Ok v :=
  { hok with
    integrators := ⟨fun r hr => Nat.lt_succ_of_lt (hok.integrators.old r hr), hok.integrators.registered, hok.integrators.declared⟩
    bindings := { hok.bindings with unused := fun b hb => hok.bindings.unused b (Nat.le_of_succ_le hb) } }

theorem ok_now (hok : t.Ok v) (now : OffsetDateTime) : ({ t with now := now } : Tables).Ok v :=
  { hok with integrators := ⟨hok.integrators.old, hok.integrators.registered, hok.integrators.declared⟩ }

theorem ok_answer (hok : t.Ok v) {a : Answer} (ha : a.Right t.log) : ({ t with answers := t.answers ++ [a] } : Tables).Ok v :=
  { hok with
    integrators := ⟨hok.integrators.old, hok.integrators.registered, hok.integrators.declared⟩
    answers := fun a' ha' => by
      rcases List.mem_append.1 ha' with ha' | ha'
      · exact hok.answers a' ha'
      · exact List.mem_singleton.1 ha' ▸ ha }

/-- a new binding -/
theorem ok_established (hok : t.Ok v) (hallowed : h.established.Allowed v t.log) (hid : h.bindingId < t.nextId) :
    ({ t with
      bindings := t.bindings ++ [⟨h.bindingId, h.identityId, h.integratorId, h.now, none⟩]
      indexed := applyInTx t.indexed h.established
      log := t.log ++ [h.established] } : Tables).Ok v := by
  obtain ⟨howner, hbinding, -⟩ := id hallowed
  have hnew : ∀ r ∈ t.bindings, r.id ≠ h.bindingId := fun r hr heq => by
    have := hok.bindings.owned r hr
    rw [heq, howner] at this
    cases this
  have hindexed : applyInTx t.indexed h.established =
      t.bindings ++ [⟨h.bindingId, h.identityId, h.integratorId, h.now, none⟩] := by
    simp only [applyInTx, Held.established, decode, Option.elim_some, Connections.apply, hok.indexed]
    exact if_neg (by simpa using hnew)
  refine
    { legal := hok.legal.snoc hallowed
      integrators := hok.integrators.snoc (by simp [Held.established]) rfl rfl le_rfl rfl
      bindings := ⟨?_, fun r hr => ?_, fun b hb => ?_, fun i g b => ?_⟩
      grants := ⟨hok.grants.keys, ?_⟩
      keys := hok.keys.imp_right (List.mem_append_left _)
      indexed := hindexed
      replayed := ?_
      folded := ?_
      answers := fun a ha => (hok.answers a ha).mono (List.prefix_append _ _) }
  · rw [List.map_append, List.map_singleton]
    refine List.Nodup.append hok.bindings.ids (List.nodup_singleton _) fun b hb heq => ?_
    obtain rfl := List.mem_singleton.1 heq
    obtain ⟨r, hr, hrid⟩ := List.mem_map.1 hb
    exact hnew r hr hrid
  · rw [view_snoc]
    simp only [Held.established, View.apply]
    rcases List.mem_append.1 hr with hr | hr
    · rw [if_neg (hnew r hr)]
      exact hok.bindings.owned r hr
    · obtain rfl := List.mem_singleton.1 hr
      rw [if_pos rfl]
  · rw [view_snoc]
    simp only [Held.established, View.apply]
    rw [if_neg (hid.trans_le hb).ne']
    exact hok.bindings.unused b hb
  · rw [view_snoc]
    simp only [Held.established, View.apply, List.mem_append, List.mem_singleton]
    split_ifs with hpair
    · -- no older binding of the pair is active
      obtain ⟨rfl, rfl⟩ := hpair
      constructor
      · intro heq
        cases heq
        exact ⟨_, .inr rfl, rfl, rfl, rfl, rfl⟩
      · rintro ⟨r, hr | rfl, hrid, hi, hg, hended⟩
        · have := (hok.bindings.active _ _ r.id).2 ⟨r, hr, rfl, hi, hg, hended⟩
          rw [hbinding] at this
          cases this
        · exact congrArg some hrid
    · rw [hok.bindings.active]
      constructor
      · rintro ⟨r, hr, hrest⟩
        exact ⟨r, .inl hr, hrest⟩
      · rintro ⟨r, hr | rfl, hrid, hi, hg, hended⟩
        · exact ⟨r, hr, hrid, hi, hg, hended⟩
        · exact absurd ⟨hi.symm, hg.symm⟩ hpair
  · rw [view_snoc]
    exact hok.grants.active
  · simp only [List.foldl_append, List.foldl_cons, List.foldl_nil]
    rw [← hok.replayed]
  · simp only [List.filterMap_append, List.filterMap_cons, Held.established, decode, List.filterMap_nil, List.foldl_append,
      List.foldl_cons, List.foldl_nil, hok.folded, foldStep, List.map_append, List.map_singleton]
    refine if_neg fun hany => ?_
    obtain ⟨e, he, heq⟩ := List.any_eq_true.1 hany
    obtain ⟨r, hr, rfl⟩ := List.mem_map.1 he
    exact hnew r hr (of_decide_eq_true heq)

/-- the end of a binding -/
theorem ok_endBinding (hok : t.Ok v) (hallowed : h.ended.Allowed v t.log) : (endBinding t h).Ok v := by
  obtain ⟨hbinding, -⟩ := id hallowed
  have howner := (sound_of_legal hok.legal).bound _ _ _ hbinding
  refine
    { legal := hok.legal.snoc hallowed
      integrators := hok.integrators.snoc (by simp [Held.ended]) rfl rfl le_rfl rfl
      bindings := ⟨?_, fun r hr => ?_, ?_, fun i g b => ?_⟩
      grants := ⟨hok.grants.keys, ?_⟩
      keys := hok.keys.imp_right (List.mem_append_left _)
      indexed := ?_
      replayed := ?_
      folded := ?_
      answers := fun a ha => (hok.answers a ha).mono (List.prefix_append _ _) }
  · simp only [endBinding, List.map_map]
    refine (List.map_congr_left fun r _ => ?_) ▸ hok.bindings.ids
    simp only [Function.comp]
    split_ifs <;> rfl
  · simp only [endBinding, view_snoc, Held.ended, View.apply] at hr ⊢
    obtain ⟨r', hr', rfl⟩ := List.mem_map.1 hr
    have := hok.bindings.owned r' hr'
    split_ifs <;> exact this
  · simp only [endBinding, view_snoc]
    exact hok.bindings.unused
  · simp only [endBinding, view_snoc, Held.ended, View.apply, List.mem_map, exists_exists_and_eq_and]
    split_ifs with hpair
    · -- the pair had no other active binding
      obtain ⟨rfl, rfl⟩ := hpair
      refine iff_of_false (by simp) ?_
      rintro ⟨r, hr, -, hi, hg, hended⟩
      split_ifs at hi hg hended with hid
      have := (hok.bindings.active _ _ r.id).2 ⟨r, hr, rfl, hi, hg, hended⟩
      exact hid (Option.some.inj (this.symm.trans hbinding))
    · rw [hok.bindings.active]
      refine exists_congr fun r => and_congr_right fun hr => ?_
      split_ifs with hid
      · -- the row that ends belongs to the other pair
        have := hok.bindings.owned r hr
        rw [hid, howner, Option.some.injEq, Prod.mk.injEq] at this
        refine iff_of_false (fun hr => ?_) (fun hr => ?_)
        · exact hpair ⟨hr.2.1.symm.trans this.1.symm, hr.2.2.1.symm.trans this.2.symm⟩
        · exact hpair ⟨hr.2.1.symm.trans this.1.symm, hr.2.2.1.symm.trans this.2.symm⟩
      · exact Iff.rfl
  · simp only [endBinding, view_snoc]
    exact hok.grants.active
  · simp only [endBinding, applyInTx, Held.ended, decode, Option.elim_some, Connections.apply, hok.indexed]
  · simp only [endBinding, List.foldl_append, List.foldl_cons, List.foldl_nil]
    rw [← hok.replayed]
  · simp only [endBinding, List.filterMap_append, List.filterMap_cons, Held.ended, decode, List.filterMap_nil, List.foldl_append,
      List.foldl_cons, List.foldl_nil, hok.folded, foldStep, List.map_map]
    refine List.map_congr_left fun r _ => ?_
    simp only [Function.comp]
    by_cases hid : r.id = h.bindingId
    · rw [if_pos hid]
      exact if_pos (show r.entry.1 = h.bindingId from hid)
    · rw [if_neg hid]
      exact if_neg (show ¬ r.entry.1 = h.bindingId from hid)

/-! ## Answers -/

/-- a binding keeps its owner -/
theorem owner_append {before after : List Event} (hlegal : LegalLog v (before ++ after)) {b : ℕ} {owner : IdentityId × ℕ}
    (howner : (view before).owner b = some owner) : (view (before ++ after)).owner b = some owner := by
  induction after using List.reverseRecOn with
  | nil => simpa using howner
  | append_singleton after e ih =>
    rw [← List.append_assoc] at hlegal ⊢
    obtain ⟨hlegal, he⟩ := legal_snoc.1 hlegal
    have hold := ih hlegal
    rw [view_snoc]
    cases e with
    | established b' i g slug timestamp =>
      have hnew : (view (before ++ after)).owner b' = none := he.1
      simp only [View.apply]
      rw [if_neg fun heq => by rw [heq, hnew] at hold; cases hold]
      exact hold
    | _ => exact hold

/-- **The check is right at a moment between its reads.** A capability that is granted at the second read is granted under the
binding of the first, which is then still active; if it is refused and the binding is not active any more, it was refused rightly
when the binding ended -/
theorem answer_right (hok : t.Ok v) {g first : ℕ} {i : IdentityId} {c : String} (hfirst : first ≤ t.log.length) :
    (answer t g i c (((view (t.log.take first)).binding i g).map fun b => (b, ⟨g, true⟩)) first).Right t.log := by
  have hlegal : LegalLog v (t.log.take first ++ t.log.drop first) := by
    rw [List.take_append_drop]
    exact hok.legal
  cases hbinding : (view (t.log.take first)).binding i g with
  | none =>
    refine ⟨first, le_rfl, hfirst, le_rfl, iff_of_false ?_ ?_⟩
    · simp [answer, capabilityAuthorized]
    · rintro ⟨b, hb, -⟩
      cases hbinding.symm.trans hb
  | some b =>
    have hanswer : (answer t g i c (some (b, ⟨g, true⟩)) first).authorized = (view t.log).granted b c := by
      rw [← hok.grants.active]
      simp only [answer, capabilityAuthorized, Option.map_some, fetchGrant, if_true]
      cases isActive t.grants b c <;> simp
    have hsound := sound_of_legal hok.legal
    cases hgranted : (view t.log).granted b c with
    | true =>
      obtain ⟨i', g', hactive⟩ := hsound.active b c hgranted
      -- the owner of the granted binding is the one of the first read
      have howner := owner_append hlegal ((sound_of_legal hlegal.of_append).bound i g b hbinding)
      rw [List.take_append_drop, hsound.bound i' g' b hactive] at howner
      cases howner
      refine ⟨t.log.length, hfirst, le_rfl, le_rfl, iff_of_true (hanswer.trans hgranted) ?_⟩
      rw [List.take_length]
      exact ⟨b, hactive, hgranted⟩
    | false =>
      have hrefused : ¬ (answer t g i c (some (b, ⟨g, true⟩)) first).authorized = true := by simp [hanswer, hgranted]
      by_cases hnow : (view t.log).binding i g = some b
      · refine ⟨t.log.length, hfirst, le_rfl, le_rfl, iff_of_false hrefused ?_⟩
        rw [List.take_length]
        rintro ⟨b', hb', hgranted'⟩
        cases hnow.symm.trans hb'
        exact Bool.false_ne_true (hgranted.symm.trans hgranted')
      · obtain ⟨mid, rest, hdrop, hended⟩ := exists_unbound hlegal hbinding (by rwa [List.take_append_drop])
        have hlength : first + mid.length ≤ t.log.length := by
          have := congrArg List.length hdrop
          simp only [List.length_drop, List.length_append] at this
          omega
        have htake : t.log.take (first + mid.length) = t.log.take first ++ mid := by
          rw [List.take_add, hdrop, List.take_left]
        refine ⟨first + mid.length, Nat.le_add_right .., hlength, le_rfl, iff_of_false hrefused ?_⟩
        rw [htake]
        rintro ⟨b', hb', -⟩
        cases hended.symm.trans hb'

/-! ## Frames -/

/-- the binding that an entry is about -/
def Event.about : Event → Option (ℕ × IdentityId × ℕ)
  | established b i g _ _ | granted b i g _ _ | revoked b i g _ _ _ | ended b i g _ _ => some (b, i, g)
  | _ => none

theorem frame_refl (w : View) (h : Held) : Frame w w h := ⟨rfl, rfl, fun _ => rfl⟩

theorem frame_apply {e : Event} {b : ℕ} {i : IdentityId} {g : ℕ} (habout : e.about = some (b, i, g)) (w : View)
    (hid : h.bindingId ≠ b) (hpair : ¬ (h.identityId = i ∧ h.integratorId = g)) : Frame w (w.apply e) h := by
  cases e with
  | established b' i' g' slug timestamp =>
    cases habout
    exact ⟨if_neg hid, if_neg hpair, fun _ => rfl⟩
  | granted b' i' g' c' timestamp =>
    cases habout
    exact ⟨rfl, rfl, fun c => if_neg fun heq => hid heq.1⟩
  | revoked b' i' g' c' reason timestamp =>
    cases habout
    exact ⟨rfl, rfl, fun c => if_neg fun heq => hid heq.1⟩
  | ended b' i' g' slug timestamp =>
    cases habout
    exact ⟨rfl, if_neg hpair, fun _ => rfl⟩
  | _ => cases habout

theorem frame_append {log es : List Event} {b : ℕ} {i : IdentityId} {g : ℕ} (habout : ∀ e ∈ es, e.about = some (b, i, g))
    (hid : h.bindingId ≠ b) (hpair : ¬ (h.identityId = i ∧ h.integratorId = g)) :
    Frame (view log) (view (log ++ es)) h := by
  induction es using List.reverseRecOn with
  | nil =>
    rw [List.append_nil]
    exact frame_refl _ _
  | append_singleton es e ih =>
    have hframe := ih fun e' he' => habout e' (List.mem_append_left _ he')
    have hframe' :=
      frame_apply (habout e (List.mem_append_right _ (List.mem_singleton_self e))) (view (log ++ es)) hid hpair
    rw [← List.append_assoc, view_snoc]
    exact ⟨hframe'.owner.trans hframe.owner, hframe'.binding.trans hframe.binding, fun c =>
      (hframe'.granted c).trans (hframe.granted c)⟩

/-- entries about bindings declare nothing -/
theorem declared_append {log es : List Event} {about : ℕ × IdentityId × ℕ} (habout : ∀ e ∈ es, e.about = some about) :
    (view (log ++ es)).declared = (view log).declared := by
  induction es using List.reverseRecOn with
  | nil => rw [List.append_nil]
  | append_singleton es e ih =>
    have he := habout e (List.mem_append_right _ (List.mem_singleton_self e))
    rw [← List.append_assoc, view_snoc, ← ih fun e' he' => habout e' (List.mem_append_left _ he')]
    cases e with
    | registered => cases he
    | _ => rfl

/-- two calls work on different bindings of different pairs -/
theorem held_ne {h' : Held} {capabilities capabilities' : List String} (hlegal : LegalLog v t.log)
    (hp : p.held = some (h, capabilities)) (hq : q.held = some (h', capabilities')) (hholds : h.Holds t) (hholds' : h'.Holds t)
    (hcompatible : p.locks.Compatible q.locks) (hapart : p.Apart q) :
    h'.bindingId ≠ h.bindingId ∧ ¬ (h'.identityId = h.identityId ∧ h'.integratorId = h.integratorId) := by
  have hsound := sound_of_legal hlegal
  have hrow : h'.row ≠ h.row := fun heq => by
    rw [locks_of_held hp, locks_of_held hq] at hcompatible
    exact (hcompatible.1 h.row (List.mem_cons_self ..)).1 (heq ▸ List.mem_cons_self ..)
  unfold Held.Holds at hholds hholds'
  unfold Held.row at hrow
  unfold Phase.Apart at hapart
  rw [fresh_of_held hp, fresh_of_held hq] at hapart
  cases hnew : h.newlyCreated <;> cases hnew' : h'.newlyCreated <;>
    simp only [hnew, hnew', if_true, if_false, Bool.false_eq_true] at hholds hholds' hrow hapart
  · -- both bindings were found
    refine ⟨fun heq => hrow (by rw [heq]), fun hpair => ?_⟩
    rw [hpair.1, hpair.2, hholds] at hholds'
    exact hrow (by rw [Option.some.inj hholds'])
  · refine ⟨fun heq => ?_, fun hpair => ?_⟩
    · have := hsound.bound _ _ _ hholds
      rw [← heq, hholds'.2.1] at this
      cases this
    · rw [hpair.1, hpair.2, hholds] at hholds'
      cases hholds'.2.2
  · refine ⟨fun heq => ?_, fun hpair => ?_⟩
    · have := hsound.bound _ _ _ hholds'
      rw [heq, hholds.2.1] at this
      cases this
    · rw [hpair.1, hpair.2, hholds.2.2] at hholds'
      cases hholds'
  · -- both bindings are new
    refine ⟨fun heq => hapart _ rfl (by rw [heq]), fun hpair => hrow ?_⟩
    rw [hpair.1, hpair.2]

/-- what a commit leaves to another call -/
theorem keeps_commit {capabilities : List String} {es : List Event} (hlegal : LegalLog v t.log) (hp : p.held = some (h, capabilities))
    (hholds : h.Holds t) (hq : q.Good t) (hcompatible : p.locks.Compatible q.locks) (hapart : p.Apart q)
    (habout : ∀ e ∈ es, e.about = some (h.bindingId, h.identityId, h.integratorId)) (hlog : t'.log = t.log ++ es)
    (hnext : t'.nextId = t.nextId) : Keeps t t' q where
  log := hlog ▸ List.prefix_append _ _
  nextId := hnext.ge
  declared g c hc := by
    rw [hlog, declared_append habout]
    exact hc
  held h' capabilities' hheld := by
    obtain ⟨hid, hpair⟩ := held_ne hlegal hp hheld hholds (hq.holds h' capabilities' hheld) hcompatible hapart
    rw [hlog]
    exact frame_append habout hid hpair

/-! ## Commits -/

theorem isActive_grants {granted : List String} {c : String} :
    isActive (h.grants t granted) h.bindingId c = true ↔ isActive t.grants h.bindingId c = true ∨ c ∈ granted := by
  unfold Held.grants
  induction granted using List.reverseRecOn with
  | nil => simp
  | append_singleton granted c' ih =>
    rw [List.foldl_append, List.foldl_cons, List.foldl_nil, isActive_grant, List.mem_append, List.mem_singleton]
    split_ifs with hc
    · exact iff_of_true rfl (.inr (.inr hc.2))
    · rw [ih, ← or_assoc]
      exact (or_iff_left fun heq => hc ⟨rfl, heq⟩).symm

theorem granted_grantOne (c c' : String) : (view (grantOne h t c).log).granted h.bindingId c' =
    if c' = c then true else (view t.log).granted h.bindingId c' := by
  simp [grantOne, Held.granted, View.apply]

theorem granted_revokeOne (reason : Option String) (c c' : String) :
    (view (revokeOne h reason t c).log).granted h.bindingId c' =
      if c' = c then false else (view t.log).granted h.bindingId c' := by
  simp [revokeOne, Held.revoked, View.apply]

/-- capabilities are granted, each for the first time -/
theorem ok_granted (hok : t.Ok v) {granted : List String}
    (hbinding : (view t.log).binding h.identityId h.integratorId = some h.bindingId) (hgranting : Granting t h [] granted) :
    (granted.foldl (grantOne h) t).Ok v := by
  induction granted generalizing t with
  | nil => exact hok
  | cons c granted ih =>
    obtain ⟨all, proof, hconsented, hall⟩ := hgranting.signed
    obtain ⟨hc, hnodup⟩ := List.nodup_cons.1 hgranting.nodup
    have hfirst := hall c (.inr (List.mem_cons_self ..))
    have hallowed : (h.granted c).Allowed v t.log :=
      ⟨hbinding, hgranting.new c (List.mem_cons_self ..), hfirst.2, h.slug, all, proof, hconsented, hfirst.1⟩
    refine ih (ok_grantOne hok hallowed) ?_
      ⟨⟨all, proof, List.mem_append_left _ hconsented, fun c' hc' => ?_⟩, hnodup, fun c' hc' => ?_⟩
    · simp only [grantOne, view_snoc]
      exact hbinding
    · simp only [grantOne, view_snoc]
      exact hall c' (hc'.imp_right (List.mem_cons_of_mem _))
    · rw [granted_grantOne, if_neg (ne_of_mem_of_not_mem hc' hc)]
      exact hgranting.new c' (List.mem_cons_of_mem _ hc')

/-- capabilities are revoked -/
theorem ok_revoked (hok : t.Ok v) (reason : Option String) {capabilities : List String}
    (hbinding : (view t.log).binding h.identityId h.integratorId = some h.bindingId) (hnodup : capabilities.Nodup)
    (hgranted : ∀ c ∈ capabilities, (view t.log).granted h.bindingId c = true) :
    (capabilities.foldl (revokeOne h reason) t).Ok v ∧
      (view (capabilities.foldl (revokeOne h reason) t).log).binding h.identityId h.integratorId = some h.bindingId ∧
      ∀ c, (view (capabilities.foldl (revokeOne h reason) t).log).granted h.bindingId c = true →
        (view t.log).granted h.bindingId c = true ∧ c ∉ capabilities := by
  induction capabilities generalizing t with
  | nil => exact ⟨hok, hbinding, fun c hc => ⟨hc, List.not_mem_nil⟩⟩
  | cons c capabilities ih =>
    obtain ⟨hc, hnodup⟩ := List.nodup_cons.1 hnodup
    have hallowed : (h.revoked reason c).Allowed v t.log := ⟨hbinding, hgranted c (List.mem_cons_self ..)⟩
    obtain ⟨hok', hbinding', hrest⟩ := ih (ok_revokeOne hok hallowed) (by simpa [revokeOne, Held.revoked, View.apply] using hbinding)
      hnodup fun c' hc' => by
        rw [granted_revokeOne, if_neg (ne_of_mem_of_not_mem hc' hc)]
        exact hgranted c' (List.mem_cons_of_mem _ hc')
    refine ⟨hok', hbinding', fun c' hc' => ?_⟩
    obtain ⟨hleft, hother⟩ := hrest c' hc'
    rw [granted_revokeOne] at hleft
    split_ifs at hleft with heq
    exact ⟨hleft, List.not_mem_cons_of_ne_of_not_mem heq hother⟩

theorem ok_connect (hok : t.Ok v) {granted : List String} (hholds : h.Holds t) (hgranting : Granting t h [] granted) :
    (commitConnect t h granted).Ok v := by
  rw [commitConnect_eq]
  unfold commitBinding
  unfold Held.Holds at hholds
  split_ifs at hholds ⊢
  · obtain ⟨hid, howner, hbinding⟩ := hholds
    obtain ⟨all, proof, hconsented, hall⟩ := hgranting.signed
    have hallowed : h.established.Allowed v t.log := ⟨howner, hbinding, all, proof, hconsented⟩
    refine ok_granted (ok_established hok hallowed hid) ?_ ⟨⟨all, proof, List.mem_append_left _ hconsented, ?_⟩, hgranting.nodup, ?_⟩
    · simp [Held.established, View.apply]
    · simp only [view_snoc]
      exact hall
    · simp only [view_snoc]
      exact hgranting.new
  · exact ok_granted hok hholds hgranting

theorem ok_disconnect (hok : t.Ok v) {capabilities : List String} (hholds : h.Holds t) (hold : h.newlyCreated = false)
    (hnodup : capabilities.Nodup) (hcapabilities : ∀ c, c ∈ capabilities ↔ (view t.log).granted h.bindingId c = true) :
    (commitDisconnect t h capabilities).Ok v := by
  simp only [Held.Holds, hold, Bool.false_eq_true, if_false] at hholds
  obtain ⟨hok', hbinding, hrest⟩ :=
    ok_revoked hok (some "binding_ended") hholds hnodup fun c hc => (hcapabilities c).1 hc
  rw [commitDisconnect_eq]
  refine ok_endBinding hok' ⟨hbinding, fun c => Bool.eq_false_iff.2 fun hc => ?_⟩
  obtain ⟨hgranted, hother⟩ := hrest c hc
  exact hother ((hcapabilities c).2 hgranted)

theorem ok_revoke (hok : t.Ok v) {c : String} (hholds : h.Holds t) (hold : h.newlyCreated = false)
    (hgranted : (view t.log).granted h.bindingId c = true) : (commitRevoke t h c).Ok v := by
  simp only [Held.Holds, hold, Bool.false_eq_true, if_false] at hholds
  exact ok_revokeOne hok ⟨hholds, hgranted⟩

/-! ## Statements keep the invariant -/

theorem keeps_refl (t : Tables) (q : Phase) : Keeps t t q := ⟨List.prefix_rfl, le_rfl, fun _ _ => id, fun _ _ _ => frame_refl _ _⟩

/-- the log is as it was -/
theorem keeps_quiet (hlog : t'.log = t.log) (hnext : t.nextId ≤ t'.nextId) : Keeps t t' q := by
  refine ⟨hlog ▸ List.prefix_rfl, hnext, ?_, ?_⟩ <;> rw [hlog]
  · exact fun _ _ => id
  · exact fun _ _ _ => frame_refl _ _

/-- an entry that changes no binding and no grant -/
theorem keeps_note {e : Event} (hlog : t'.log = t.log ++ [e]) (hnext : t.nextId ≤ t'.nextId)
    (howner : ((view t.log).apply e).owner = (view t.log).owner) (hbinding : ((view t.log).apply e).binding = (view t.log).binding)
    (hgranted : ((view t.log).apply e).granted = (view t.log).granted)
    (hdeclared : ∀ g c, c ∈ (view t.log).declared g → c ∈ ((view t.log).apply e).declared g) : Keeps t t' q := by
  refine ⟨hlog ▸ List.prefix_append _ _, hnext, ?_, fun h' capabilities _ => ⟨?_, ?_, fun c => ?_⟩⟩ <;> rw [hlog, view_snoc]
  · exact hdeclared
  · rw [howner]
  · rw [hbinding]
  · rw [hgranted]

/-- a call that works on no binding -/
theorem good_of_none (hheld : p.held = none) (hknows : p.Knows t) : p.Good t := by
  refine ⟨fun h capabilities hsome => ?_, hknows⟩
  rw [hheld] at hsome
  cases hsome

theorem good_ended (t : Tables) : Phase.ended.Good t := good_of_none rfl trivial

theorem holds_found {identityId : IdentityId} {integratorId : ℕ} {slug : String} {now : OffsetDateTime} {others : List Phase}
    {id : ℕ} (hok : t.Ok v) (hfound : activeBinding t others identityId integratorId = some (some id)) :
    (⟨id, identityId, integratorId, slug, false, now⟩ : Held).Holds t := by
  have hmap := (activeBinding_eq_some hfound).1
  rw [findActive_map hok.bindings] at hmap
  exact hmap.symm

theorem keys_of_signed (hok : t.Ok v) {identityId : IdentityId} {message : Bytes} {proof : Proof}
    (hsigned : requireFreshSignature v t.signingKeys identityId message proof = .ok ()) : .keysWritten t.signingKeys ∈ t.log := by
  rcases hok.keys with hkeys | hkeys
  · obtain ⟨_, _, _, _, _, _, _, _, hactive, _⟩ := requireFreshSignature_eq_ok hsigned
    rw [hkeys] at hactive
    cases hactive
  · exact hkeys

variable {others : List Phase} {p' : Phase}

/-- what a statement keeps -/
def Kept (v : Verifier) (t' : Tables) (others : List Phase) (p' : Phase) : Prop :=
  t'.Ok v ∧ p'.Good t' ∧ ∀ q ∈ others, p'.locks.Compatible q.locks → q.Good t' ∧ p'.Apart q

theorem kept_of_keeps (hok : t'.Ok v) (hgood : p'.Good t') (hothers : ∀ q ∈ others, q.Good t)
    (hkeeps : ∀ q ∈ others, Keeps t t' q) (hapart : ∀ q ∈ others, p'.Apart q) : Kept v t' others p' :=
  ⟨hok, hgood, fun q hq _ => ⟨(hothers q hq).keeps (hkeeps q hq), hapart q hq⟩⟩

/-- nothing is written -/
theorem kept_same (hok : t.Ok v) (hgood : p'.Good t) (hothers : ∀ q ∈ others, q.Good t) (hapart : ∀ q ∈ others, p'.Apart q) :
    Kept v t others p' :=
  kept_of_keeps hok hgood hothers (fun q _ => keeps_refl t q) hapart

theorem kept_ended (hok : t.Ok v) (hothers : ∀ q ∈ others, q.Good t) : Kept v t others .ended :=
  kept_same hok (good_ended t) hothers fun _ _ => apart_of_none rfl

/-- a commit -/
theorem kept_commit (es : List Event) {capabilities : List String} (hlegal : LegalLog v t.log) (hok : t'.Ok v)
    (hp : p.held = some (h, capabilities)) (hholds : h.Holds t)
    (hothers : ∀ q ∈ others, q.Good t ∧ p.locks.Compatible q.locks ∧ p.Apart q)
    (habout : ∀ e ∈ es, e.about = some (h.bindingId, h.identityId, h.integratorId)) (hlog : t'.log = t.log ++ es)
    (hnext : t'.nextId = t.nextId) : Kept v t' others .ended := by
  refine kept_of_keeps hok (good_ended t') (fun q hq => (hothers q hq).1) (fun q hq => ?_) fun _ _ => apart_of_none rfl
  obtain ⟨hgood, hcompatible, hapart⟩ := hothers q hq
  exact keeps_commit hlegal hp hholds hgood hcompatible hapart habout hlog hnext

theorem kept_receive (hok : t.Ok v) (hothers : ∀ q ∈ others, q.Good t) (call : Call) :
    Kept v (receive t call).1 others (receive t call).2 := by
  cases call with
  | register slug capabilities =>
    simp only [receive]
    split_ifs with hslug
    · exact kept_ended hok hothers
    · have hok' := ok_register hok capabilities hslug
      refine kept_of_keeps hok' (good_ended _) hothers (fun q hq => keeps_note rfl (Nat.le_succ _) rfl rfl rfl ?_)
        fun _ _ => apart_of_none rfl
      intro g c hc
      simp only [View.apply]
      split_ifs with hg
      · -- the new id had declared nothing
        rw [← hok.integrators.declared, hg] at hc
        obtain ⟨r, hr, -⟩ := List.mem_flatMap.1 hc
        obtain ⟨hr, heq⟩ := List.mem_filter.1 hr
        exact absurd (of_decide_eq_true heq) (hok.integrators.old r hr).ne
      · exact hc
  | writeKeys keys =>
    exact kept_of_keeps (ok_writeKeys hok keys) (good_ended _) hothers
      (fun q hq => keeps_note rfl le_rfl rfl rfl rfl fun _ _ => id) fun _ _ => apart_of_none rfl
  | connect identityId slug capabilities proof =>
    simp only [receive, fetchIntegratorIdBySlug]
    cases hrow : t.integrators.find? fun r => decide (r.slug = slug) with
    | none => exact kept_ended hok hothers
    | some row =>
      refine kept_same hok (good_of_none rfl ⟨row.requestedCapabilities, ?_⟩) hothers fun _ _ => apart_of_none rfl
      obtain rfl : row.slug = slug := by simpa using List.find?_some hrow
      exact (hok.integrators.registered ..).2 (List.mem_of_find?_eq_some hrow)
  | revokeGrant identityId slug capability =>
    simp only [receive]
    cases fetchIntegratorIdBySlug t slug with
    | none => exact kept_ended hok hothers
    | some g => exact kept_same hok (good_of_none rfl trivial) hothers fun _ _ => apart_of_none rfl
  | disconnect identityId slug =>
    simp only [receive]
    cases fetchIntegratorIdBySlug t slug with
    | none => exact kept_ended hok hothers
    | some g => exact kept_same hok (good_of_none rfl trivial) hothers fun _ _ => apart_of_none rfl
  | check integratorId identityId capability =>
    refine kept_same hok (good_of_none rfl ⟨le_rfl, ?_⟩) hothers fun _ _ => apart_of_none rfl
    change fetchBinding t identityId integratorId = ((view (t.log.take t.log.length)).binding identityId integratorId).map _
    rw [List.take_length, ← findActive_map hok.bindings, fetchBinding, Option.map_map]
    refine Option.map_congr fun row hrow => ?_
    have hrow := List.find?_some hrow
    simp only [Bool.and_eq_true, decide_eq_true_eq] at hrow
    simp [hrow.1.2]
  | wait nanoseconds =>
    exact kept_of_keeps (ok_now hok _) (good_ended _) hothers (fun q hq => keeps_quiet rfl le_rfl) fun _ _ => apart_of_none rfl

/-- **Every statement keeps the invariant** -/
theorem kept_statement (hok : t.Ok v) (hgood : p.Good t)
    (hothers : ∀ q ∈ others, q.Good t ∧ p.locks.Compatible q.locks ∧ p.Apart q) (hstep : statement v t others p = some (t', p')) :
    Kept v t' others p' := by
  have hgoods : ∀ q ∈ others, q.Good t := fun q hq => (hothers q hq).1
  have hholds := hgood.holds
  have hknows := hgood.knows
  cases p with
  | received call =>
    simp only [statement, Option.some.injEq] at hstep
    have := kept_receive hok hgoods call
    rwa [hstep] at this
  | signing i g slug capabilities proof =>
    simp only [statement] at hstep
    split at hstep
    · cases hstep
      exact kept_ended hok hgoods
    · rename_i hsigned
      cases hstep
      have hallowed : (Event.consented i g slug capabilities proof).Allowed v t.log :=
        ⟨hknows, _, keys_of_signed hok hsigned, hsigned⟩
      refine kept_of_keeps (hok.note ⟨rfl, fun _ _ _ => by simp⟩ hallowed rfl) (good_of_none rfl ⟨proof, ?_⟩) hgoods
        (fun q hq => keeps_note rfl le_rfl rfl rfl rfl fun _ _ => id) fun _ _ => apart_of_none rfl
      exact List.mem_append_right _ (List.mem_singleton_self _)
  | declaring i g slug capabilities =>
    simp only [statement] at hstep
    split_ifs at hstep with hdeclared
    · cases hstep
      obtain ⟨proof, hconsented⟩ := hknows
      refine kept_same hok (good_of_none rfl ⟨proof, hconsented, fun c hc => ?_⟩) hgoods fun _ _ => apart_of_none rfl
      rw [← hok.integrators.declared]
      exact hdeclared c hc
    · cases hstep
      exact kept_ended hok hgoods
  | binding i g slug capabilities now =>
    simp only [statement, Option.map_eq_some_iff] at hstep
    obtain ⟨found, hfound, heq⟩ := hstep
    cases found with
    | none =>
      cases heq
      exact kept_same hok (good_of_none rfl hknows) hgoods fun _ _ => apart_of_none rfl
    | some id =>
      cases heq
      obtain ⟨proof, hconsented, hdeclared⟩ := hknows
      refine kept_same hok ⟨fun h granted hheld => ?_, ⟨capabilities, proof, hconsented, fun c hc => ?_⟩, List.nodup_nil, ?_⟩ hgoods
        fun _ _ => apart_of_old rfl rfl
      · cases hheld
        exact holds_found hok hfound
      · have hc := hc.resolve_right List.not_mem_nil
        exact ⟨hc, hdeclared c hc⟩
      · exact fun c hc => absurd hc List.not_mem_nil
  | inserting i g slug capabilities now =>
    simp only [statement, insertBinding] at hstep
    split_ifs at hstep with hfree
    cases hfound : findActive t i g with
    | some row =>
      simp only [hfound] at hstep
      split_ifs at hstep
      cases hstep
      exact kept_ended hok hgoods
    | none =>
      simp only [hfound] at hstep
      cases hstep
      obtain ⟨proof, hconsented, hdeclared⟩ := hknows
      refine kept_of_keeps (ok_nextId hok)
        ⟨fun h granted hheld => ?_, ⟨capabilities, proof, hconsented, fun c hc => ?_⟩, List.nodup_nil, ?_⟩ hgoods
        (fun q hq => keeps_quiet rfl (Nat.le_succ _)) fun q hq id hid hid' => ?_
      · cases hheld
        refine ⟨Nat.lt_succ_self _, hok.bindings.unused _ le_rfl, ?_⟩
        rw [← findActive_map (t := t) hok.bindings, hfound]
        rfl
      · have hc := hc.resolve_right List.not_mem_nil
        exact ⟨hc, hdeclared c hc⟩
      · exact fun c hc => absurd hc List.not_mem_nil
      · -- the new id is above those of the others
        cases hid
        unfold Phase.fresh at hid'
        obtain ⟨x, hx, hxid⟩ := Option.bind_eq_some_iff.1 hid'
        have hnew := (hgoods q hq).holds x.1 x.2 hx
        unfold Held.Holds at hnew
        split_ifs at hnew hxid
        exact absurd (Option.some.inj hxid ▸ hnew.1) (lt_irrefl _)
  | granting h capabilities granted =>
    cases capabilities with
    | nil =>
      cases hstep
      refine kept_commit ((if h.newlyCreated then [h.established] else []) ++ granted.map h.granted) hok.legal
        (ok_connect hok (hholds h granted rfl) hknows) rfl (hholds h granted rfl) hothers (fun e he => ?_) ?_ ?_
      · rcases List.mem_append.1 he with he | he
        · split_ifs at he
          · obtain rfl := List.mem_singleton.1 he
            rfl
          · cases he
        · obtain ⟨c, -, rfl⟩ := List.mem_map.1 he
          rfl
      · simp only [commitConnect, commitBinding]
        split_ifs <;> simp
      · simp only [commitConnect, commitBinding]
        split_ifs <;> rfl
    | cons c capabilities =>
      simp only [statement, Option.some.injEq, Prod.mk.injEq] at hstep
      obtain ⟨rfl, rfl⟩ := hstep
      have hgranting : Granting t h (c :: capabilities) granted := hknows
      split_ifs with hactive
      · refine kept_same hok ⟨hholds, ?_, hgranting.nodup, hgranting.new⟩ hgoods fun q hq => (hothers q hq).2.2
        obtain ⟨all, proof, hconsented, hall⟩ := hgranting.signed
        exact ⟨all, proof, hconsented, fun c' hc' => hall c' (hc'.imp_left (List.mem_cons_of_mem _))⟩
      · rw [isActive_grants, not_or, hok.grants.active] at hactive
        refine kept_same hok ⟨hholds, hgranting, hactive.2, Bool.eq_false_iff.2 hactive.1⟩ hgoods fun q hq => (hothers q hq).2.2
  | writing h c capabilities granted =>
    simp only [statement] at hstep
    split_ifs at hstep
    cases hstep
    obtain ⟨hgranting, hc, hgranted⟩ := hknows
    obtain ⟨all, proof, hconsented, hall⟩ := hgranting.signed
    refine kept_same hok ⟨fun h' granted' hheld => ?_, ⟨all, proof, hconsented, fun c' hc' => hall c' ?_⟩, ?_, fun c' hc' => ?_⟩
      hgoods fun q hq => (hothers q hq).2.2
    · cases hheld
      exact hholds h granted rfl
    · rcases hc' with hc' | hc'
      · exact .inl (List.mem_cons_of_mem _ hc')
      · rcases List.mem_append.1 hc' with hc' | hc'
        · exact .inr hc'
        · exact .inl (List.mem_singleton.1 hc' ▸ List.mem_cons_self ..)
    · exact List.Nodup.append hgranting.nodup (List.nodup_singleton _) fun x hx hx' => hc (List.mem_singleton.1 hx' ▸ hx)
    · rcases List.mem_append.1 hc' with hc' | hc'
      · exact hgranting.new c' hc'
      · exact List.mem_singleton.1 hc' ▸ hgranted
  | revokingGrant i g slug c =>
    simp only [statement, Option.map_eq_some_iff] at hstep
    obtain ⟨found, hfound, heq⟩ := hstep
    cases found with
    | none =>
      cases heq
      exact kept_ended hok hgoods
    | some id =>
      cases heq
      refine kept_same hok ⟨fun h granted hheld => ?_, rfl⟩ hgoods fun _ _ => apart_of_old rfl rfl
      cases hheld
      exact holds_found hok hfound
  | revoking h c =>
    simp only [statement] at hstep
    split_ifs at hstep with hactive
    · cases hstep
      rw [hok.grants.active] at hactive
      refine kept_same hok ⟨fun h' granted hheld => ?_, hknows, hactive⟩ hgoods fun _ _ => apart_of_old rfl hknows
      cases hheld
      exact hholds h [] rfl
    · cases hstep
      exact kept_ended hok hgoods
  | grantRevoked h c =>
    cases hstep
    refine kept_commit [h.revoked none c] hok.legal (ok_revoke hok (hholds h [c] rfl) hknows.1 hknows.2) rfl
      (hholds h [c] rfl) hothers (fun e he => ?_) rfl rfl
    obtain rfl := List.mem_singleton.1 he
    rfl
  | disconnecting i g slug =>
    simp only [statement, Option.map_eq_some_iff] at hstep
    obtain ⟨found, hfound, heq⟩ := hstep
    cases found with
    | none =>
      cases heq
      exact kept_ended hok hgoods
    | some id =>
      cases heq
      refine kept_same hok ⟨fun h granted hheld => ?_, rfl⟩ hgoods fun _ _ => apart_of_old rfl rfl
      cases hheld
      exact holds_found hok hfound
  | ending h =>
    simp only [statement] at hstep
    split_ifs at hstep
    cases hstep
    refine kept_same hok ⟨fun h' granted hheld => ?_, hknows, nodup_activeCapabilities hok.grants.keys, fun c => ?_⟩ hgoods
      fun _ _ => apart_of_old rfl hknows
    · cases hheld
      exact hholds h [] rfl
    · rw [mem_activeCapabilities, hok.grants.active]
  | grantsRevoked h capabilities =>
    cases hstep
    exact kept_same hok ⟨hholds, hknows⟩ hgoods fun _ _ => apart_of_old rfl hknows.1
  | bindingEnded h capabilities =>
    cases hstep
    obtain ⟨hold, hnodup, hcapabilities⟩ := hknows
    refine kept_commit (capabilities.map (h.revoked (some "binding_ended")) ++ [h.ended]) hok.legal
      (ok_disconnect hok (hholds h capabilities rfl) hold hnodup hcapabilities) rfl (hholds h capabilities rfl) hothers
      (fun e he => ?_) (by simp [commitDisconnect]) rfl
    rcases List.mem_append.1 he with he | he
    · obtain ⟨c, -, rfl⟩ := List.mem_map.1 he
      rfl
    · obtain rfl := List.mem_singleton.1 he
      rfl
  | checking g i c found first =>
    cases hstep
    obtain ⟨hfirst, rfl⟩ := hknows
    exact kept_of_keeps (ok_answer hok (answer_right hok hfirst)) (good_ended _) hgoods (fun q hq => keeps_quiet rfl le_rfl)
      fun _ _ => apart_of_none rfl
  | ended => cases hstep

end

/-- **The invariant of connections** -/
theorem connections_invariant (v : Verifier) : Invariant (program v) (fun _ _ _ => True) (Tables.Ok v) (fun t p => p.Good t)
    (fun p q => p.locks.Compatible q.locks ∧ p.Apart q) :=
  (disciplined v).invariant (fun _ _ => Phase.Apart.symm)
    (fun _ call _ => ⟨good_of_none (p := .received call) rfl trivial, fun _ => apart_of_none (p := .received call) rfl⟩)
    (fun _ _ _ _ => ⟨good_ended _, fun _ _ => apart_of_none (p := .ended) rfl⟩)
    fun _ _ _ _ _ hok hgood hothers _ hstep => kept_statement hok hgood hothers hstep

theorem ok_init (v : Verifier) (now : OffsetDateTime) : (Tables.init now).Ok v where
  legal := legal_nil
  integrators := ⟨by simp [Tables.init], by simp [Tables.init], fun _ => rfl⟩
  bindings := ⟨List.nodup_nil, by simp [Tables.init], fun _ _ => rfl, by simp [Tables.init, View.empty]⟩
  grants := ⟨List.nodup_nil, fun _ _ => rfl⟩
  keys := .inl rfl
  indexed := rfl
  replayed := rfl
  folded := rfl
  answers := by simp [Tables.init]

theorem ok_run (v : Verifier) (now : OffsetDateTime) (ops : List (Op Call)) :
    (run (program v) ⟨.init now, []⟩ ops).tables.Ok v :=
  (inv_run (connections_invariant v) (inv_init (ok_init v now)) (along_true _ _ ops)).tables

/-! ## Results -/

/-- **Connections follow their log.** In every run of any number of calls, statement by statement: every entry of the log is
allowed where it stands, so that a binding is established only where none is active, and a capability is granted once, under the
active binding, as declared by the integrator and signed for by the identity; a row of `bindings` is active exactly if the log
says so, and there is one at most for a pair; and `my_grants` reads the capabilities that the log grants. -/
theorem connections_follow_log (v : Verifier) (now : OffsetDateTime) (ops : List (Op Call)) :
    let t := (run (program v) ⟨.init now, []⟩ ops).tables
    (∀ before e after, t.log = before ++ e :: after → e.Allowed v before) ∧ (t.bindings.map BindingRow.id).Nodup ∧
      (∀ r ∈ t.bindings, r.endedAt = none ↔ (view t.log).binding r.identityId r.integratorId = some r.id) ∧
      ∀ i g c, c ∈ myGrants t i g ↔ (view t.log).Authorized i g c := by
  intro t
  have hok : t.Ok v := ok_run v now ops
  refine ⟨hok.legal, hok.bindings.ids, fun r hr => ?_, fun i g c => mem_myGrants hok.bindings hok.grants⟩
  rw [hok.bindings.active]
  constructor
  · exact fun hended => ⟨r, hr, rfl, rfl, rfl, hended⟩
  · rintro ⟨r', hr', hid, -, -, hended⟩
    obtain rfl := List.inj_on_of_nodup_map hok.bindings.ids hr' hr hid
    exact hended

/-- **Checks linearize.** Every answer of `require_capability`, in every run, is what the log said at one moment between the
check's two reads, whatever ran between them -/
theorem checks_linearize (v : Verifier) (now : OffsetDateTime) (ops : List (Op Call)) :
    let t := (run (program v) ⟨.init now, []⟩ ops).tables
    ∀ a ∈ t.answers, ∃ n, a.first ≤ n ∧ n ≤ a.last ∧ a.last ≤ t.log.length ∧
      (a.authorized = true ↔ (view (t.log.take n)).Authorized a.identityId a.integratorId a.capability) :=
  (ok_run v now ops).answers

theorem countActivePlayers_entries (rows : List BindingRow) (g : ℕ) :
    countActivePlayers ((rows.map BindingRow.entry).map Prod.snd) g = activePlayerCount rows g := by
  rw [countActivePlayers, activePlayerCount, activePlayers, List.map_map, List.filter_map, List.map_map]
  rfl

theorem countTotalPlayersEver_entries (rows : List BindingRow) (g : ℕ) :
    countTotalPlayersEver ((rows.map BindingRow.entry).map Prod.snd) g = totalPlayersEver rows g := by
  rw [countTotalPlayersEver, totalPlayersEver, List.map_map, List.filter_map, List.map_map]
  rfl

/-- **The registry counts what the log says.** In every run, the indexer's copy of the bindings is the replay of the log, and the
table itself; the counts that SQL reads from it are those of `fold`; and the players of an integrator are the identities that the
log binds to it. -/
theorem registry_counts (v : Verifier) (now : OffsetDateTime) (ops : List (Op Call)) :
    let t := (run (program v) ⟨.init now, []⟩ ops).tables
    t.indexed = t.log.foldl applyInTx [] ∧ t.indexed = t.bindings ∧ ∀ g,
      activePlayerCount t.indexed g = countActivePlayers (fold (t.log.filterMap decode)) g ∧
      totalPlayersEver t.indexed g = countTotalPlayersEver (fold (t.log.filterMap decode)) g ∧
      ∀ i, i ∈ activePlayers t.indexed g ↔ ∃ b, (view t.log).binding i g = some b := by
  intro t
  have hok : t.Ok v := ok_run v now ops
  refine ⟨hok.replayed, hok.indexed, fun g => ⟨?_, ?_, fun i => ?_⟩⟩
  · rw [fold, hok.folded, countActivePlayers_entries, hok.indexed]
  · rw [fold, hok.folded, countTotalPlayersEver_entries, hok.indexed]
  · rw [hok.indexed]
    simp only [activePlayers, List.mem_dedup, List.mem_map, List.mem_filter, Bool.and_eq_true, decide_eq_true_eq,
      Option.isNone_iff_eq_none, hok.bindings.active]
    constructor
    · rintro ⟨r, ⟨hr, hg, hended⟩, hi⟩
      exact ⟨r.id, r, hr, rfl, hi, hg, hended⟩
    · rintro ⟨b, r, hr, -, hi, hg, hended⟩
      exact ⟨r, ⟨hr, hg, hended⟩, hi⟩

end Avalon.Connections
