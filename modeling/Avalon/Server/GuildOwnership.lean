/-
Concurrent transfers of a guild (`crates/server/src/guilds.rs`: `transfer_ownership`; `crates/server/src/outbox.rs`: `enqueue`),
statement by statement on PostgreSQL at READ COMMITTED.

A call reads the guild and is judged against the owner it read, outside of a transaction. Its transaction then sets the owner
of the guild, whoever that is by then, and enqueues the event that names the owner it read. The update locks the row of the
guild until the transaction ends.

Results:
- `invariant`: what each statement keeps, while every update finds the owner that its call read.
- `transfers_form_chain`: in every run in which this is so, the committed transfers form a chain from the first owner to the
  stored one, and each was made by the owner at that time.
- `two_transfers_fork`: the owner transfers the guild twice at once.
-/
import Mathlib.Tactic
import Avalon.Core.Interleaving
import Avalon.Protocol.Events
import Avalon.Protocol.IdentityId
import Avalon.Server.SignatureGate
import Avalon.Server.GuildRoles

namespace Avalon.GuildOwnership

open Avalon.Events Avalon.Identity Avalon.SignatureGate Avalon.Guardians Avalon.Guilds
open Interleaving

/-! ## Model -/

/-- a `guild.owner_transferred` event: its issuer and its payload -/
structure Transfer where
  actor : IdentityId
  fromOwner : IdentityId
  toOwner : IdentityId
deriving DecidableEq

/-- what is committed: the tables, and the events in commit order -/
structure Tables where
  db : Db
  log : List Transfer

structure Call where
  actor : IdentityId
  recipient : IdentityId
  proof : Proof

/-- how far a call has come; from `updated` on its transaction is open and holds the row of the guild -/
inductive Phase where
  | received (call : Call)
  | judged (event : Transfer)
  | updated (event : Transfer)
  | enqueued (event : Transfer)
  | ended

def Phase.holdsGuild : Phase → Bool
  | updated _ => true
  | enqueued _ => true
  | _ => false

/-- UPDATE guilds SET owner = $2 WHERE id = $1 -/
def setOwner (db : Db) (guildId : Uuid) (owner : IdentityId) : Db :=
  { db with guilds := db.guilds.map fun g => if g.1 = guildId then (guildId, owner) else g }

section

variable (v : Verifier) (guildId : Uuid)

/-- the next statement of a call; nothing if it has to wait -/
def statement (t : Tables) (others : List Phase) : Phase → Option (Tables × Phase)
  -- the checks of the handler, against the guild as it is read here
  | .received call =>
    match transferOwnership v t.db call.actor guildId call.recipient call.proof, fetchGuild t.db guildId with
    | .ok _, .ok owner => some (t, .judged ⟨call.actor, owner, call.recipient⟩)
    | _, _ => some (t, .ended)
  | .judged event => if others.any Phase.holdsGuild then none else some (t, .updated event)
  | .updated event => some (t, .enqueued event)
  | .enqueued event => some (⟨setOwner t.db guildId event.toOwner, t.log ++ [event]⟩, .ended)
  | .ended => none

def program : Program Tables Phase Call where
  start := .received
  statement := statement v guildId
  aborted _ := .ended

/-! ## The chain -/

/-- each transfer is by, and from, the owner that the one before it made; the last one makes the last owner -/
def ChainFrom : IdentityId → List Transfer → IdentityId → Prop
  | first, [], last => first = last
  | first, event :: rest, last => event.actor = first ∧ event.fromOwner = first ∧ ChainFrom event.toOwner rest last

/-- the condition: an update finds the owner that its call read -/
def FindsOwner (t : Tables) (_others : List Phase) : Phase → Prop
  | .judged event => fetchGuild t.db guildId = .ok event.fromOwner
  | _ => True

instance (t : Tables) (others : List Phase) : (p : Phase) → Decidable (FindsOwner guildId t others p)
  | .judged event => inferInstanceAs (Decidable (fetchGuild t.db guildId = .ok event.fromOwner))
  | .received _ => inferInstanceAs (Decidable True)
  | .updated _ => inferInstanceAs (Decidable True)
  | .enqueued _ => inferInstanceAs (Decidable True)
  | .ended => inferInstanceAs (Decidable True)

/-! ## The invariant -/

/-- the transfers lead from the first owner to the stored one -/
def Chained (first : IdentityId) (t : Tables) : Prop :=
  ∃ owner, fetchGuild t.db guildId = .ok owner ∧ ChainFrom first t.log owner

/-- a call was judged to be the owner's, and from its update on the stored owner is the one it read -/
def Holds (t : Tables) : Phase → Prop
  | .judged event => event.actor = event.fromOwner
  | .updated event => event.actor = event.fromOwner ∧ fetchGuild t.db guildId = .ok event.fromOwner
  | .enqueued event => event.actor = event.fromOwner ∧ fetchGuild t.db guildId = .ok event.fromOwner
  | _ => True

end

/-- one transaction at a time holds the row of the guild -/
def Apart (p q : Phase) : Prop := ¬ (p.holdsGuild = true ∧ q.holdsGuild = true)

theorem chainFrom_concat {first last : IdentityId} {log : List Transfer} {event : Transfer} (h : ChainFrom first log last)
    (hactor : event.actor = last) (hfrom : event.fromOwner = last) : ChainFrom first (log ++ [event]) event.toOwner := by
  induction log generalizing first with
  | nil =>
    obtain rfl : first = last := h
    exact ⟨hactor, hfrom, rfl⟩
  | cons e log ih => exact ⟨h.1, h.2.1, ih h.2.2⟩

section

variable {v : Verifier} {guildId : Uuid}

theorem fetchGuild_setOwner {db : Db} {before : IdentityId} (owner : IdentityId) (h : fetchGuild db guildId = .ok before) :
    fetchGuild (setOwner db guildId owner) guildId = .ok owner := by
  have hfind : ∀ guilds : List (Uuid × IdentityId), (∃ g ∈ guilds, g.1 = guildId) →
      (guilds.map fun g => if g.1 = guildId then (guildId, owner) else g).find? (fun g => decide (g.1 = guildId)) =
        some (guildId, owner) := by
    intro guilds hex
    induction guilds with
    | nil => simp at hex
    | cons g guilds ih =>
      by_cases hg : g.1 = guildId
      · simp [hg]
      · simp only [List.map_cons, hg, if_false, List.find?_cons, decide_false]
        exact ih (by simpa [hg] using hex)
  have hex : ∃ g ∈ db.guilds, g.1 = guildId := by
    unfold fetchGuild at h
    split at h
    · rename_i g hg
      exact ⟨g, List.mem_of_find?_eq_some hg, by simpa using List.find?_some hg⟩
    · cases h
  simp only [fetchGuild, setOwner, hfind db.guilds hex]

/-- an accepted call is by the owner it read -/
theorem actor_of_transferOwnership {db db' : Db} {actor recipient owner : IdentityId} {proof : Proof}
    (h : transferOwnership v db actor guildId recipient proof = .ok db') (howner : fetchGuild db guildId = .ok owner) :
    actor = owner := by
  unfold transferOwnership at h
  rw [howner] at h
  obtain ⟨read, hread, h⟩ := Fallible.bind_eq_ok.1 h
  obtain rfl := Except.ok.inj hread
  obtain ⟨_, hactor, _⟩ := Fallible.bind_eq_ok.1 h
  by_contra hne
  simp [refuseIf, hne] at hactor

/-- **What each statement keeps**, while every update finds the owner that its call read -/
theorem invariant (first : IdentityId) :
    Invariant (program v guildId) (FindsOwner guildId) (Chained guildId first) (Holds guildId) Apart where
  symm p q h := fun hqp => h hqp.symm
  start t call _ := ⟨trivial, fun q h => by cases h.1⟩
  aborted t p _ _ := ⟨trivial, fun q _ h => by cases h.1⟩
  statement t others p t' p' hg hl hothers hmeets h := by
    simp only [program] at h
    cases p with
    | received call =>
      simp only [statement] at h
      split at h
      · rename_i db' owner haccepted howner
        cases h
        exact ⟨hg, actor_of_transferOwnership haccepted howner, fun q hq => ⟨(hothers q hq).1, fun h => by cases h.1⟩⟩
      · cases h
        exact ⟨hg, trivial, fun q hq => ⟨(hothers q hq).1, fun h => by cases h.1⟩⟩
    | judged event =>
      simp only [statement] at h
      split_ifs at h with hheld
      cases h
      refine ⟨hg, ⟨hl, hmeets⟩, fun q hq => ⟨(hothers q hq).1, fun h => hheld ?_⟩⟩
      exact List.any_eq_true.2 ⟨q, hq, h.2⟩
    | updated event =>
      cases h
      exact ⟨hg, hl, fun q hq => hothers q hq⟩
    | enqueued event =>
      cases h
      obtain ⟨hactor, hstored⟩ := hl
      obtain ⟨owner, howner, hchain⟩ := hg
      obtain rfl : owner = event.fromOwner := Except.ok.inj (howner.symm.trans hstored)
      refine ⟨⟨event.toOwner, fetchGuild_setOwner _ howner, chainFrom_concat hchain hactor rfl⟩, trivial, fun q hq => ?_⟩
      -- no other call holds the guild, so none has to find the owner unchanged
      have hq := hothers q hq
      refine ⟨?_, fun h => by cases h.1⟩
      cases q with
      | received call => trivial
      | judged other => exact hq.1
      | updated other => exact absurd ⟨rfl, rfl⟩ hq.2
      | enqueued other => exact absurd ⟨rfl, rfl⟩ hq.2
      | ended => trivial
    | ended => cases h

/-- **Ownership transfers form one chain.** In every run of transfer requests on a guild, with calls and rollbacks in any
order, in which each update finds the owner that its call read: the committed transfers lead from the first owner to the
stored one, each from the owner before it, and each made by that owner. -/
theorem transfers_form_chain {db : Db} {first : IdentityId} (hfirst : fetchGuild db guildId = .ok first)
    {calls : List (Op Call)} (halong : Along (program v guildId) (FindsOwner guildId) ⟨⟨db, []⟩, []⟩ calls) :
    ∃ owner, fetchGuild (run (program v guildId) ⟨⟨db, []⟩, []⟩ calls).tables.db guildId = .ok owner ∧
      ChainFrom first (run (program v guildId) ⟨⟨db, []⟩, []⟩ calls).tables.log owner := by
  have hstart : Chained guildId first ⟨db, []⟩ := ⟨first, hfirst, rfl⟩
  exact (inv_run (invariant first) (inv_init hstart) halong).tables

end

/-! ## Two transfers at once -/

def transferMessage (recipient : IdentityId) : Bytes :=
  canonicalMessage "guild.transfer_ownership" [uuidText guild1, owner1.toText, recipient.toText]

/-- Ed25519 restricted to the owner's signatures over two transfers -/
def transferVerifier : Verifier where
  ed := {
    verifyingKey _ := .ofHex 32 "2152f8d19b791d24453242e15f2eab6cb7cffa7b6a5ed30097960e069881db12"
    sign _ _ := .replicate 64 0
    verifyStrict _ message signature :=
      (decide (message = transferMessage guardian1) && decide (signature = .ofHex 64
        "7bd195c764c8de5b9b953c98ddd2e384cc9ad45f4d2745c17c6649f32495d8b767288ec334d3e1046b61c6a5a13bd18bf061546060a59f1e6be777b92e0ec205")) ||
      (decide (message = transferMessage guardian2) && decide (signature = .ofHex 64
        "289eeab020d9116f8a40162d715939f79e52253ad9ee6e14938f19cfd99cdfe682ebe0818ff5e4ab296be64ed251794cb65da521f1fc0d7404e18ce1449e400b")) }
  validKey _ := true

/-- the guild, its owner and two more identities -/
def transferGuild : Db := { ownedGuild with identities := [owner1, guardian1, guardian2] }

def transferFirst : Call := ⟨owner1, guardian1, some keyRow.id, some
  "e9GVx2TI3lublTyY3dLjhMya1F9NJ0XBfGZJ8ySV2LdnKI7DNNPhBGthxqWhO9GL8GFUYGClnx5r53e5Lg7CBQ=="⟩

def transferSecond : Call := ⟨owner1, guardian2, some keyRow.id, some
  "KJ7qsCDZEW+KQBYtcVk5955SJTrZ7m4Uk48Zz9mc3+aC6+CBj/Xkqylr5k7SUXlMtl2lIfH8DXQE4YzhRJ5ACw=="⟩

/-- both calls are judged before the first one updates the guild -/
def bothJudged : List (Op Call) :=
  [.call transferFirst, .call transferSecond, .advance 0, .advance 1, .advance 0, .advance 0, .advance 0,
    .advance 1, .advance 1, .advance 1]

/-- one after the other: the second call is no longer the owner's -/
def oneByOne : List (Op Call) :=
  [.call transferFirst, .advance 0, .advance 0, .advance 0, .advance 0, .call transferSecond, .advance 1]

theorem transfers_form_chain_oneByOne :
    ∃ owner, fetchGuild (run (program transferVerifier guild1) ⟨⟨transferGuild, []⟩, []⟩ oneByOne).tables.db guild1 = .ok owner ∧
      ChainFrom owner1 (run (program transferVerifier guild1) ⟨⟨transferGuild, []⟩, []⟩ oneByOne).tables.log owner := by
  have hfirst : fetchGuild transferGuild guild1 = .ok owner1 := by decide +kernel
  have halong : Along (program transferVerifier guild1) (FindsOwner guild1) ⟨⟨transferGuild, []⟩, []⟩ oneByOne := by
    decide +kernel
  exact transfers_form_chain hfirst halong

/-- **Two transfers of one owner**: both are judged before either updates the guild, and both commit, each from the first
owner -/
theorem two_transfers_fork :
    fetchGuild transferGuild guild1 = .ok owner1 ∧
    (run (program transferVerifier guild1) ⟨⟨transferGuild, []⟩, []⟩ bothJudged).tables.log =
      [⟨owner1, owner1, guardian1⟩, ⟨owner1, owner1, guardian2⟩] ∧
    ∀ owner, ¬ ChainFrom owner1 (run (program transferVerifier guild1) ⟨⟨transferGuild, []⟩, []⟩ bothJudged).tables.log owner := by
  have hlog : (run (program transferVerifier guild1) ⟨⟨transferGuild, []⟩, []⟩ bothJudged).tables.log =
      [⟨owner1, owner1, guardian1⟩, ⟨owner1, owner1, guardian2⟩] := by
    decide +kernel
  refine ⟨by decide +kernel, hlog, ?_⟩
  rw [hlog]
  intro owner hchain
  exact absurd hchain.2.2.1 (by decide)

end Avalon.GuildOwnership
