/-
Friendships (`crates/indexer/src/projections/friendships.rs`; migrations 0015 and 0083): a row for each pair of friends, the lesser
identity first, as a constraint of the table demands.

An accepted request and a reversal are decoded with their pair in order, whichever way round the payload names it. A removal is
not: one that names the greater identity first deletes a row that the table cannot hold, and the friendship stays
(`removal_the_other_way_round`). The identities that the database knows are a parameter; a row of others is refused.

Results:
- `friends_iff`: after any events two identities are friends exactly if the last event about them, such removals apart, is an
  accepted request.
- `friendship_follows_last_event`: so the last event decides, unless it is such a removal of friends; and every pair of friends is
  listed once for each of the two.
-/
import Mathlib.Tactic
import Mathlib.Data.List.Lex
import Avalon.Core.Bytes
import Avalon.Core.Json
import Avalon.Core.SortedMap
import Avalon.Core.TableView
import Avalon.Protocol.Events
import Avalon.Protocol.IdentityId
import Avalon.Protocol.IdentityChainWire
import Avalon.Chain.Mirror
import Avalon.Indexer.ChainStore
import Avalon.Indexer.ProfileChain

namespace Avalon.Friendships

open Json TableView Avalon.LedgerEntry Avalon.Events Avalon.Identity Avalon.IdentityChain Avalon.Mirror Avalon.ChainStore
open Avalon.ProfileChain (get)

variable {F : Type}

/-! ## Model -/

/-- ids are ordered by their bytes -/
def idKey (id : IdentityId) : List ℕ := id.asBytes.toList.map UInt8.toNat

theorem idKey_injective : Function.Injective idKey := by
  intro x y h
  have hbytes : x.asBytes.toList = y.asBytes.toList := List.map_injective_iff.2 (fun _ _ h => UInt8.toNat_inj.1 h) h
  exact IdentityId.ext (FixedBytes.toList_inj hbytes)

instance : LinearOrder IdentityId := LinearOrder.lift' idKey idKey_injective

abbrev IdentityPair := IdentityId × IdentityId

def orderedPair (x y : IdentityId) : IdentityPair := if x < y then (x, y) else (y, x)

inductive FriendshipWrite where
  | upsert (a b : IdentityId) (since : OffsetDateTime)
  | remove (a b : IdentityId)

def identityField (payload : Value F) (key : String) : Option IdentityId := readIdentityId (get payload key)

def decode (event : Event F) : Option FriendshipWrite :=
  if event.kind = "friend.accepted" then do
    let from' ← identityField event.payload "from"
    let to' ← identityField event.payload "to"
    let (a, b) := orderedPair from' to'
    return .upsert a b event.timestamp
  else if event.kind = "friend.removed" then do
    let a ← identityField event.payload "a"
    let b ← identityField event.payload "b"
    return .remove a b
  else if event.kind = "friend.relationship_reversed" then do
    let identityId ← identityField event.payload "identity_id"
    let counterpartyId ← identityField event.payload "counterparty_id"
    let (a, b) := orderedPair identityId counterpartyId
    return .remove a b
  else none

/-- `indexer_friendships`, by its primary key -/
abbrev FriendTable := Table IdentityPair OffsetDateTime

/-- one write; a new row has to be of two known identities in order -/
def apply (known : IdentityId → Bool) (t : FriendTable) : FriendshipWrite → Option FriendTable
  | .upsert a b since =>
    if a < b then
      if (t.lookup (a, b)).isSome then some t
      else if known a && known b then some (t.insert (a, b) (timestamptz since))
      else none
    else none
  | .remove a b => some (t.erase (a, b))

/-- a delivery: an event that is not decoded changes nothing, and one that fails is rolled back -/
def receive (known : IdentityId → Bool) (t : FriendTable) (event : Event F) : FriendTable :=
  match decode event with
  | some write => (apply known t write).getD t
  | none => t

def receiveAll (known : IdentityId → Bool) (events : List (Event F)) : FriendTable := events.foldl (receive known) ∅

def areFriends (t : FriendTable) (x y : IdentityId) : Bool := (t.lookup (orderedPair x y)).isSome

structure FriendshipRow where
  a : IdentityId
  b : IdentityId
  since : OffsetDateTime

def rows (t : FriendTable) : List FriendshipRow := t.entries.map fun e => ⟨e.1.1, e.1.2, e.2⟩

/-- WHERE a = $1 OR b = $1 -/
def listFor (t : FriendTable) (identityId : IdentityId) : List FriendshipRow :=
  (rows t).filter fun r => decide (r.a = identityId ∨ r.b = identityId)

/-! ## What an event is about -/

/-- the fields in which an event names its two identities -/
def partyFields (kind : String) : Option (String × String) :=
  if kind = "friend.accepted" then some ("from", "to")
  else if kind = "friend.removed" then some ("a", "b")
  else if kind = "friend.relationship_reversed" then some ("identity_id", "counterparty_id")
  else none

/-- the two identities of a well-formed event, as it names them -/
def parties (event : Event F) : Option IdentityPair := do
  let (first, second) ← partyFields event.kind
  let x ← identityField event.payload first
  let y ← identityField event.payload second
  return (x, y)

def isAccepted (event : Event F) : Bool := event.kind = "friend.accepted"

/-- the event names x and y, either way round -/
def About (x y : IdentityId) (event : Event F) : Bool := (parties event).any fun p => orderedPair p.1 p.2 = orderedPair x y

/-- a removal that names the greater identity first -/
def Misordered (event : Event F) : Bool := event.kind = "friend.removed" && (parties event).any fun p => p.2 < p.1

theorem orderedPair_comm (x y : IdentityId) : orderedPair x y = orderedPair y x := by
  unfold orderedPair
  rcases lt_trichotomy x y with h | rfl | h
  · rw [if_pos h, if_neg h.asymm]
  · rfl
  · rw [if_neg h.asymm, if_pos h]

theorem orderedPair_eq_of_lt {x y : IdentityId} (h : x < y) : orderedPair x y = (x, y) := if_pos h

/-- the lesser one comes first -/
theorem orderedPair_le (x y : IdentityId) : (orderedPair x y).1 ≤ (orderedPair x y).2 := by
  unfold orderedPair
  split_ifs with h
  · exact h.le
  · exact not_lt.1 h

theorem orderedPair_lt {x y : IdentityId} (h : x ≠ y) : (orderedPair x y).1 < (orderedPair x y).2 := by
  unfold orderedPair
  split_ifs with hlt
  · exact hlt
  · exact lt_of_le_of_ne (not_lt.1 hlt) h.symm

theorem orderedPair_eq_of_le {x y : IdentityId} (h : x ≤ y) : orderedPair x y = (x, y) := by
  rcases h.lt_or_eq with h | rfl
  · exact if_pos h
  · exact ite_self _

theorem decode_eq (event : Event F) : decode event = (parties event).map fun p =>
    if isAccepted event then .upsert (orderedPair p.1 p.2).1 (orderedPair p.1 p.2).2 event.timestamp
    else if event.kind = "friend.removed" then .remove p.1 p.2
    else .remove (orderedPair p.1 p.2).1 (orderedPair p.1 p.2).2 := by
  by_cases h1 : event.kind = "friend.accepted"
  · have haccepted : isAccepted event = true := decide_eq_true h1
    rw [decode, parties, partyFields, if_pos h1, if_pos h1, haccepted]
    simp only [Option.bind_eq_bind, Option.bind_some, if_true]
    cases identityField event.payload "from" <;> cases identityField event.payload "to" <;> simp
  · have hnot : ¬ isAccepted event = true := fun h => h1 (of_decide_eq_true h)
    rw [decode, parties, partyFields, if_neg h1, if_neg h1]
    simp only [if_neg hnot]
    by_cases h2 : event.kind = "friend.removed"
    · rw [if_pos h2, if_pos h2]
      simp only [Option.bind_eq_bind, Option.bind_some, if_pos h2]
      cases identityField event.payload "a" <;> cases identityField event.payload "b" <;> simp
    · rw [if_neg h2, if_neg h2]
      simp only [if_neg h2]
      split_ifs
      · simp only [Option.bind_eq_bind, Option.bind_some]
        cases identityField event.payload "identity_id" <;> cases identityField event.payload "counterparty_id" <;> simp
      · rfl

/-! ## What an event does -/

theorem lookup_erase_eq (t : FriendTable) (p q : IdentityPair) :
    (t.erase p).lookup q = if q = p then none else t.lookup q := by
  by_cases h : q = p
  · rw [h, if_pos rfl, AList.lookup_erase]
  · rw [if_neg h, AList.lookup_erase_ne h]

/-- an accepted request makes friends of its two identities, if they are known and not one -/
theorem lookup_upsert {known : IdentityId → Bool} {x y : IdentityId} (hxy : x ≠ y) (hx : known x = true) (hy : known y = true)
    (t : FriendTable) (p : IdentityPair) (since : OffsetDateTime) :
    ((((apply known t (.upsert (orderedPair p.1 p.2).1 (orderedPair p.1 p.2).2 since)).getD t).lookup (orderedPair x y)).isSome) =
      (decide (orderedPair p.1 p.2 = orderedPair x y) || (t.lookup (orderedPair x y)).isSome) := by
  have hknown : known (orderedPair x y).1 = true ∧ known (orderedPair x y).2 = true := by
    unfold orderedPair
    split_ifs
    · exact ⟨hx, hy⟩
    · exact ⟨hy, hx⟩
  rw [apply]
  by_cases hq : orderedPair p.1 p.2 = orderedPair x y
  · rw [hq, if_pos (orderedPair_lt hxy), hknown.1, hknown.2]
    split_ifs with hrow
    · simpa using hrow
    · simp [AList.lookup_insert]
    · exact absurd rfl ‹_›
  · rw [decide_eq_false hq, Bool.false_or]
    split_ifs
    · rfl
    · rw [Option.getD_some, AList.lookup_insert_ne (Ne.symm hq)]
    · rfl
    · rfl

variable {known : IdentityId → Bool} {x y : IdentityId}

/-- **What an event does** to a pair: an event about it that is no misordered removal decides, every other one changes nothing -/
theorem areFriends_receive (hxy : x ≠ y) (hx : known x = true) (hy : known y = true) (t : FriendTable) (event : Event F) :
    areFriends (receive known t event) x y =
      if About x y event && !Misordered event then isAccepted event else areFriends t x y := by
  unfold areFriends receive About Misordered
  rw [decode_eq]
  cases hparties : parties event with
  | none => simp
  | some p =>
    simp only [Option.map_some, Option.any_some]
    by_cases haccepted : isAccepted event = true
    · have hkind : event.kind ≠ "friend.removed" := by
        rw [of_decide_eq_true haccepted]
        decide
      simp only [haccepted, if_true, lookup_upsert hxy hx hy, hkind, decide_false, Bool.false_and, Bool.not_false, Bool.and_true]
      by_cases hq : orderedPair p.1 p.2 = orderedPair x y <;> simp [hq]
    · have hnot : isAccepted event = false := Bool.eq_false_iff.2 haccepted
      by_cases hremoved : event.kind = "friend.removed"
      · simp only [hnot, hremoved, Bool.false_eq_true, if_false, if_true, apply, Option.getD_some, lookup_erase_eq, decide_true,
          Bool.true_and]
        by_cases horder : p.2 < p.1
        · -- the row it names is not in order, and so not that of the pair
          have hne : orderedPair x y ≠ (p.1, p.2) := by
            intro heq
            have hle := orderedPair_le x y
            rw [heq] at hle
            exact absurd horder (not_lt.2 hle)
          simp [horder, hne]
        · rw [orderedPair_eq_of_le (not_lt.1 horder)]
          by_cases hq : orderedPair x y = (p.1, p.2)
          · simp [hq, horder]
          · simp [hq, horder, Ne.symm hq]
      · simp only [hnot, hremoved, Bool.false_eq_true, if_false, apply, Option.getD_some, lookup_erase_eq, decide_false,
          Bool.false_and, Bool.not_false, Bool.and_true]
        by_cases hq : orderedPair x y = orderedPair p.1 p.2
        · simp [hq]
        · simp [hq, Ne.symm hq]

/-! ## After any events -/

/-- the last of some events is an accepted request -/
def lastAccepts (events : List (Event F)) : Bool := events.getLast?.any isAccepted

/-- the events about a pair, such removals apart -/
def effective (x y : IdentityId) (events : List (Event F)) : List (Event F) :=
  events.filter fun e => About x y e && !Misordered e

/-- **Who are friends**: the last event about them, misordered removals apart, decides -/
theorem friends_iff (hxy : x ≠ y) (hx : known x = true) (hy : known y = true) (events : List (Event F)) :
    areFriends (receiveAll known events) x y = lastAccepts (effective x y events) := by
  induction events using List.reverseRecOn with
  | nil => rfl
  | append_singleton events event ih =>
    rw [receiveAll, List.foldl_append, List.foldl_cons, List.foldl_nil, ← receiveAll, areFriends_receive hxy hx hy, effective,
      List.filter_append]
    split_ifs with h
    · have hkept : [event].filter (fun e => About x y e && !Misordered e) = [event] := by rw [List.filter_singleton, h, cond_true]
      rw [hkept, lastAccepts, List.getLast?_append]
      simp
    · have hdropped : [event].filter (fun e => About x y e && !Misordered e) = [] := by
        rw [List.filter_singleton, Bool.eq_false_iff.2 h, cond_false]
      rw [hdropped, List.append_nil]
      exact ih

/-- the last event about a pair is a misordered removal, and before it they were friends -/
def MissedRemoval (x y : IdentityId) (events : List (Event F)) : Prop :=
  (events.filter (About x y)).getLast?.any Misordered = true ∧ lastAccepts (effective x y events) = true

instance (x y : IdentityId) (events : List (Event F)) : Decidable (MissedRemoval x y events) :=
  inferInstanceAs (Decidable (_ ∧ _))

theorem effective_eq (x y : IdentityId) (events : List (Event F)) :
    effective x y events = (events.filter (About x y)).filter fun e => !Misordered e := by
  rw [effective, List.filter_filter]
  exact List.filter_congr fun e _ => Bool.and_comm _ _

theorem not_isAccepted_of_misordered {event : Event F} (h : Misordered event = true) : isAccepted event = false := by
  simp only [Misordered, Bool.and_eq_true, decide_eq_true_eq] at h
  rw [isAccepted, h.1]
  decide

/-- the last event about a pair speaks for the effective ones, unless a removal was missed -/
theorem lastAccepts_iff (x y : IdentityId) (events : List (Event F)) :
    lastAccepts (effective x y events) = lastAccepts (events.filter (About x y)) ↔ ¬ MissedRemoval x y events := by
  unfold MissedRemoval
  rw [effective_eq]
  cases hlast : (events.filter (About x y)).getLast? with
  | none =>
    rw [List.getLast?_eq_none_iff] at hlast
    simp [hlast, lastAccepts]
  | some e =>
    obtain ⟨before, hbefore⟩ := List.getLast?_eq_some_iff.1 hlast
    rw [hbefore]
    by_cases hmis : Misordered e = true
    · simp [lastAccepts, hmis, not_isAccepted_of_misordered hmis]
    · simp [lastAccepts, hmis]

/-! ## Listing -/

/-- every row is of two identities in order -/
def InOrder (t : FriendTable) : Prop := ∀ p ∈ t.keys, p.1 < p.2

theorem inOrder_receive {t : FriendTable} (h : InOrder t) (event : Event F) : InOrder (receive known t event) := by
  unfold receive
  cases decode event with
  | none => exact h
  | some write =>
    cases write with
    | upsert a b since =>
      dsimp only
      rw [apply]
      split_ifs with hlt
      · exact h
      · intro p hp
        rw [Option.getD_some, ← AList.mem_keys, AList.mem_insert] at hp
        rcases hp with rfl | hp
        · exact hlt
        · exact h p (AList.mem_keys.1 hp)
      · exact h
      · exact h
    | remove a b =>
      intro p hp
      dsimp only at hp
      rw [apply, Option.getD_some, ← AList.mem_keys, AList.mem_erase] at hp
      exact h p (AList.mem_keys.1 hp.2)

theorem inOrder_receiveAll (known : IdentityId → Bool) (events : List (Event F)) : InOrder (receiveAll known events) := by
  induction events using List.reverseRecOn with
  | nil => simp [InOrder, receiveAll]
  | append_singleton events event ih =>
    rw [receiveAll, List.foldl_append]
    exact inOrder_receive ih event

/-- a row of two identities stands in the list of each of them -/
theorem listed_once {t : FriendTable} (h : InOrder t) (x y : IdentityId) :
    ((listFor t x).filter fun r => decide (orderedPair r.a r.b = orderedPair x y)).length = if areFriends t x y then 1 else 0 := by
  rw [areFriends, ← length_filter_key, listFor, rows, List.filter_filter, List.filter_map, List.length_map]
  congr 1
  apply List.filter_congr
  intro e he
  have horder : orderedPair e.1.1 e.1.2 = e.1 := orderedPair_eq_of_lt (h e.1 (List.mem_map_of_mem he))
  simp only [Function.comp_apply, horder, Bool.and_eq_left_iff_imp, decide_eq_true_eq]
  intro heq
  rw [heq, orderedPair]
  split_ifs
  · exact .inl rfl
  · exact .inr rfl

/-- **Friendship follows the last event.** After any events, for any two known identities:
- they are friends just as the last event about them says, exactly if that one is not a removal that names the greater identity
  first while the last of their other events is an accepted request;
- if they are friends, the list of each has one row of them, and otherwise none. -/
theorem friendship_follows_last_event (known : IdentityId → Bool) (events : List (Event F)) (x y : IdentityId) (hxy : x ≠ y)
    (hx : known x = true) (hy : known y = true) :
    (areFriends (receiveAll known events) x y = lastAccepts (events.filter (About x y)) ↔ ¬ MissedRemoval x y events) ∧
      ∀ z, z = x ∨ z = y →
        ((listFor (receiveAll known events) z).filter fun r => decide (orderedPair r.a r.b = orderedPair x y)).length =
          if areFriends (receiveAll known events) x y then 1 else 0 := by
  refine ⟨?_, ?_⟩
  · rw [friends_iff hxy hx hy]
    exact lastAccepts_iff x y events
  · have hinorder := inOrder_receiveAll known events
    rintro z (rfl | rfl)
    · exact listed_once hinorder z y
    · have hlisted := listed_once hinorder z x
      rw [areFriends, orderedPair_comm z x] at hlisted
      exact hlisted

/-! ## A removal the other way round -/

/-- an event of that kind which names two identities under those keys -/
def naming (kind first second : String) (x y : IdentityId) : Event Decimal where
  id := .replicate 16 1
  kind := kind
  issuer := "identity:a:self:b"
  subject := "identity:a:self:b"
  payload := .object [(first, .string x.toText), (second, .string y.toText)]
  timestamp := 0
  version := 1
  identityChain := none

def accepted : IdentityId → IdentityId → Event Decimal := naming "friend.accepted" "from" "to"

def removed : IdentityId → IdentityId → Event Decimal := naming "friend.removed" "a" "b"

@[simp] theorem kind_accepted (x y : IdentityId) : (accepted x y).kind = "friend.accepted" := rfl

@[simp] theorem kind_removed (x y : IdentityId) : (removed x y).kind = "friend.removed" := rfl

theorem parties_accepted (x y : IdentityId) : parties (accepted x y) = some (x, y) := by
  simp [parties, accepted, naming, partyFields, identityField, ProfileChain.get, SortedMap.find, readIdentityId, readString,
    IdentityId.parse_toText, Except.toOption]

theorem parties_removed (x y : IdentityId) : parties (removed x y) = some (x, y) := by
  simp [parties, removed, naming, partyFields, identityField, ProfileChain.get, SortedMap.find, readIdentityId, readString,
    IdentityId.parse_toText, Except.toOption]

def lesser : IdentityId := ⟨.replicate 32 1⟩

def greater : IdentityId := ⟨.replicate 32 2⟩

theorem lesser_lt_greater : lesser < greater := by decide

theorem missed_removal : MissedRemoval lesser greater [accepted lesser greater, removed greater lesser] := by
  have habout : ([accepted lesser greater, removed greater lesser].filter (About lesser greater)) =
      [accepted lesser greater, removed greater lesser] := by
    simp [About, parties_accepted, parties_removed, orderedPair_comm greater lesser]
  have hremoved : Misordered (removed greater lesser) = true := by
    simp [Misordered, parties_removed, lesser_lt_greater]
  have haccepted : Misordered (accepted lesser greater) = false := by
    simp [Misordered]
  refine ⟨by simp [habout, hremoved], ?_⟩
  rw [effective_eq, habout]
  simp [hremoved, haccepted, lastAccepts, isAccepted]

/-- friends who are removed with the greater identity named first stay friends -/
theorem removal_the_other_way_round :
    ¬ ∀ (known : IdentityId → Bool) (events : List (Event Decimal)) (x y : IdentityId), x ≠ y → known x = true → known y = true →
      areFriends (receiveAll known events) x y = lastAccepts (events.filter (About x y)) := by
  intro hclaim
  have hsame := hclaim (fun _ => true) [accepted lesser greater, removed greater lesser] lesser greater lesser_lt_greater.ne rfl rfl
  rw [friends_iff lesser_lt_greater.ne rfl rfl, lastAccepts_iff] at hsame
  exact hsame missed_removal

def third : IdentityId := ⟨.replicate 32 3⟩

/-- friends, no longer friends, a friend of another, and friends again -/
def onAndOff : List (Event Decimal) :=
  [accepted greater lesser, removed lesser greater, accepted lesser third, accepted greater lesser]

theorem about_onAndOff : onAndOff.filter (About lesser greater) =
    [accepted greater lesser, removed lesser greater, accepted greater lesser] := by
  have hother : orderedPair lesser third ≠ orderedPair lesser greater := by decide
  simp [onAndOff, About, parties_accepted, parties_removed, orderedPair_comm greater lesser, hother]

theorem not_misordered_removed : Misordered (removed lesser greater) = false := by
  simp [Misordered, parties_removed, lesser_lt_greater.not_gt]

/-- friends again after a removal, listed once for each; and not after one more -/
theorem friendship_follows_last_event_on_and_off :
    (areFriends (receiveAll (fun _ => true) onAndOff) lesser greater = true ∧
      ((listFor (receiveAll (fun _ => true) onAndOff) greater).filter
        fun r => decide (orderedPair r.a r.b = orderedPair lesser greater)).length = 1) ∧
    areFriends (receiveAll (fun _ => true) (onAndOff ++ [removed lesser greater])) lesser greater = false := by
  obtain ⟨hlast, hlisted⟩ := friendship_follows_last_event (fun _ => true) onAndOff lesser greater lesser_lt_greater.ne rfl rfl
  obtain ⟨hlast', -⟩ := friendship_follows_last_event (fun _ => true) (onAndOff ++ [removed lesser greater]) lesser greater
    lesser_lt_greater.ne rfl rfl
  have hremoval : [removed lesser greater].filter (About lesser greater) = [removed lesser greater] := by
    simp [About, parties_removed]
  have hfriends : areFriends (receiveAll (fun _ => true) onAndOff) lesser greater = true := by
    rw [hlast.2, about_onAndOff]
    · rfl
    · simp [MissedRemoval, about_onAndOff, Misordered]
  refine ⟨⟨hfriends, ?_⟩, ?_⟩
  · rw [hlisted greater (.inr rfl), hfriends, if_pos rfl]
  · rw [hlast'.2, List.filter_append, about_onAndOff, hremoval]
    · rfl
    · simp [MissedRemoval, List.filter_append, about_onAndOff, hremoval, not_misordered_removed]

end Avalon.Friendships
