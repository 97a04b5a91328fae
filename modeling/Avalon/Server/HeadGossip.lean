/-
Head gossip (`crates/server/src/nodes.rs`, `HeadGossipTracker`): the roots that peers report for a shard at a tree size, and
the conflicts that a merge finds among them.

A summary is tracked under its shard, size and root. The root is a text: validation accepts hex of either case, and the
comparison is of the texts. The order in which the source's hash map is iterated does not show in what is proved; the list
`seen` stands for it.

A call is taken apart into the summaries it examines (`examined`), so that the step lemmas are about one observation.
Results:
- `tracks_run`: in every run the tracker stays bounded, and a conflict is of two reported texts.
- `complete_run`: in a run that delivers few heads and marks no shard, every two spellings are found.
- `head_gossip`: the conflicts are of different hashes, and all of them, exactly when no hash is spelled in two ways.
-/
import Mathlib.Tactic
import Avalon.Core.Bytes
import Avalon.Protocol.LedgerEntry

namespace Avalon.HeadGossip

open LedgerEntry (OffsetDateTime)

/-! ## Model -/

def maxHeadSummariesPerExchange : ℕ := 5

def maxTrackedHeadSummaries : ℕ := 4096

def maxShardIdLen : ℕ := 128

structure HeadSummary where
  shardId : String
  treeSize : ℤ
  rootHash : String
  cosignatureCount : ℕ
deriving DecidableEq, Repr

def shardIdOk (shardId : String) : Bool := shardId != "" && decide ((utf8 shardId).length ≤ maxShardIdLen)

def headSummaryWellFormed (summary : HeadSummary) : Bool :=
  shardIdOk summary.shardId && decide (summary.treeSize ≥ 0) &&
    (hexDecode summary.rootHash).any fun bytes => decide (bytes.length = 32)

structure HeadConflict where
  shardId : String
  treeSize : ℤ
  rootHashA : String
  sourceA : String
  rootHashB : String
  sourceB : String
deriving DecidableEq, Repr

structure TrackedHeadSummary where
  summary : HeadSummary
  reportedBy : String
  lastSeenAt : OffsetDateTime
deriving DecidableEq, Repr

/-- shard, size and root -/
abbrev TrackedHeadKey := String × ℤ × String

def HeadSummary.key (s : HeadSummary) : TrackedHeadKey := (s.shardId, s.treeSize, s.rootHash)

/-- seen before the other, or at once and with the lower key -/
def TrackedHeadSummary.older (a b : TrackedHeadSummary) : Bool :=
  (((compare a.lastSeenAt b.lastSeenAt).then (compare a.summary.shardId b.summary.shardId)).then
    (compare a.summary.treeSize b.summary.treeSize)).then (compare a.summary.rootHash b.summary.rootHash) == .lt

def leastRecentlySeen : List TrackedHeadSummary → Option TrackedHeadSummary
  | [] => none
  | t :: ts => some ((leastRecentlySeen ts).elim t fun u => if u.older t then u else t)

structure HeadGossipTracker where
  seen : List TrackedHeadSummary
  /-- a map has each key once -/
  distinct : (seen.map fun t => t.summary.key).Nodup
  equivocatingShards : Finset String

namespace HeadGossipTracker

def new : HeadGossipTracker := ⟨[], .nil, ∅⟩

def keys (tr : HeadGossipTracker) : List TrackedHeadKey := tr.seen.map fun t => t.summary.key

def remove (tr : HeadGossipTracker) (key : TrackedHeadKey) : HeadGossipTracker :=
  { tr with
    seen := tr.seen.filter fun t => t.summary.key ≠ key
    distinct := tr.distinct.sublist (List.filter_sublist.map _) }

/-- under its key, in the place of what was there -/
def insert (tr : HeadGossipTracker) (t : TrackedHeadSummary) : HeadGossipTracker :=
  { tr with
    seen := t :: (tr.remove t.summary.key).seen
    distinct := by
      rw [List.map_cons, List.nodup_cons]
      refine ⟨?_, (tr.remove t.summary.key).distinct⟩
      simp [remove] }

def evictIfFull (tr : HeadGossipTracker) (key : TrackedHeadKey) : HeadGossipTracker :=
  if key ∈ tr.keys ∨ tr.seen.length < maxTrackedHeadSummaries then tr
  else
    match leastRecentlySeen tr.seen with
    | some victim => tr.remove victim.summary.key
    | none => tr

def conflictsWith (tr : HeadGossipTracker) (fromPeer : String) (summary : HeadSummary) : List HeadConflict :=
  tr.seen.filterMap fun tracked =>
    if tracked.summary.shardId = summary.shardId ∧ tracked.summary.treeSize = summary.treeSize ∧
        tracked.summary.rootHash ≠ summary.rootHash then
      some ⟨summary.shardId, summary.treeSize, summary.rootHash, fromPeer, tracked.summary.rootHash, tracked.reportedBy⟩
    else none

/-- one well-formed summary of a call: the tracker behind it and the conflicts it adds -/
def observe (tr : HeadGossipTracker) (fromPeer : String) (now : OffsetDateTime) (summary : HeadSummary) :
    HeadGossipTracker × List HeadConflict :=
  let alreadyEquivocating := decide (summary.shardId ∈ tr.equivocatingShards)
  let tr := (tr.evictIfFull summary.key).insert ⟨summary, fromPeer, now⟩
  (tr, if alreadyEquivocating then [] else tr.conflictsWith fromPeer summary)

/-- what a call gives back -/
structure Merged where
  admitted : List HeadSummary
  conflicts : List HeadConflict
  rejected : ℕ

def mergeLoop (tr : HeadGossipTracker) (fromPeer : String) (now : OffsetDateTime) :
    List HeadSummary → HeadGossipTracker × Merged
  | [] => (tr, ⟨[], [], 0⟩)
  | summary :: rest =>
    if headSummaryWellFormed summary then
      let (tr, conflicts) := tr.observe fromPeer now summary
      let (tr, merged) := mergeLoop tr fromPeer now rest
      (tr, { merged with admitted := summary :: merged.admitted, conflicts := conflicts ++ merged.conflicts })
    else
      let (tr, merged) := mergeLoop tr fromPeer now rest
      (tr, { merged with rejected := merged.rejected + 1 })

/-- at most so many of a call's summaries are looked at; the others count as rejected -/
def merge (tr : HeadGossipTracker) (fromPeer : String) (incoming : List HeadSummary) (now : OffsetDateTime) :
    HeadGossipTracker × Merged :=
  let (tr, merged) := tr.mergeLoop fromPeer now (incoming.take maxHeadSummariesPerExchange)
  (tr, { merged with rejected := merged.rejected + (incoming.length - maxHeadSummariesPerExchange) })

def markEquivocating (tr : HeadGossipTracker) (shardId : String) : HeadGossipTracker :=
  { tr with equivocatingShards := tr.equivocatingShards ∪ {shardId} }

end HeadGossipTracker

/-! ## Runs -/

inductive Op where
  | merge (fromPeer : String) (incoming : List HeadSummary) (now : OffsetDateTime)
  | markEquivocating (shardId : String)

def step (tr : HeadGossipTracker) : Op → HeadGossipTracker × List HeadConflict
  | .merge fromPeer incoming now =>
    let (tr, merged) := tr.merge fromPeer incoming now
    (tr, merged.conflicts)
  | .markEquivocating shardId => (tr.markEquivocating shardId, [])

/-- the tracker behind a run, and all conflicts its calls gave back -/
def run (tr : HeadGossipTracker) : List Op → HeadGossipTracker × List HeadConflict
  | [] => (tr, [])
  | op :: ops =>
    let (tr, conflicts) := step tr op
    let (tr, later) := run tr ops
    (tr, conflicts ++ later)

/-- the summaries that a call takes, with who reported them -/
def examined : Op → List (String × HeadSummary)
  | .merge fromPeer incoming _ =>
    ((incoming.take maxHeadSummariesPerExchange).filter headSummaryWellFormed).map fun s => (fromPeer, s)
  | .markEquivocating _ => []

def reported (ops : List Op) : List (String × HeadSummary) := ops.flatMap examined

/-! ## What one observation does -/

theorem mem_of_leastRecentlySeen {l : List TrackedHeadSummary} {t : TrackedHeadSummary} (h : leastRecentlySeen l = some t) :
    t ∈ l := by
  induction l generalizing t with
  | nil => cases h
  | cons a l ih =>
    obtain rfl := Option.some.inj h
    cases hrest : leastRecentlySeen l with
    | none => exact List.mem_cons_self ..
    | some u =>
      simp only [Option.elim_some]
      split_ifs
      · exact List.mem_cons_of_mem _ (ih hrest)
      · exact List.mem_cons_self ..

theorem leastRecentlySeen_eq_none {l : List TrackedHeadSummary} (h : leastRecentlySeen l = none) : l = [] := by
  cases l with
  | nil => rfl
  | cons a l => cases h

namespace HeadGossipTracker

variable {tr : HeadGossipTracker} {fromPeer : String} {now : OffsetDateTime} {s : HeadSummary}

theorem length_remove_le (key : TrackedHeadKey) : (tr.remove key).seen.length ≤ tr.seen.length := List.length_filter_le ..

theorem length_remove_lt {key : TrackedHeadKey} (h : key ∈ tr.keys) : (tr.remove key).seen.length < tr.seen.length := by
  obtain ⟨t, ht, rfl⟩ := List.mem_map.1 h
  exact List.length_filter_lt_length_iff_exists.2 ⟨t, ht, by simp⟩

theorem mem_insert {t t' : TrackedHeadSummary} :
    t' ∈ (tr.insert t).seen ↔ t' = t ∨ t' ∈ tr.seen ∧ t'.summary.key ≠ t.summary.key := by
  simp [insert, remove]

theorem seen_evictIfFull_subset (key : TrackedHeadKey) : (tr.evictIfFull key).seen ⊆ tr.seen := by
  unfold evictIfFull
  split_ifs
  · exact List.Subset.refl _
  · split
    · exact List.filter_subset_self _
    · exact List.Subset.refl _

/-- behind an eviction there is room, or the key takes the place of its own entry -/
theorem room_evictIfFull (h : tr.seen.length ≤ maxTrackedHeadSummaries) (key : TrackedHeadKey) :
    (tr.evictIfFull key).seen.length < maxTrackedHeadSummaries ∨
      (tr.evictIfFull key = tr ∧ key ∈ tr.keys) := by
  unfold evictIfFull
  split_ifs with hroom
  · exact hroom.symm.imp_right fun hkey => ⟨rfl, hkey⟩
  · left
    split
    · rename_i victim hvictim
      have hmem := mem_of_leastRecentlySeen hvictim
      exact lt_of_lt_of_le (length_remove_lt (List.mem_map_of_mem hmem)) h
    · rename_i hnone
      rw [leastRecentlySeen_eq_none hnone]
      decide

theorem length_observe (h : tr.seen.length ≤ maxTrackedHeadSummaries) :
    (tr.observe fromPeer now s).1.seen.length ≤ maxTrackedHeadSummaries := by
  have hinsert : ∀ (tr : HeadGossipTracker) (t : TrackedHeadSummary),
      (tr.insert t).seen.length = (tr.remove t.summary.key).seen.length + 1 := fun _ _ => rfl
  rw [observe, hinsert]
  rcases room_evictIfFull h s.key with hroom | ⟨heq, hkey⟩
  · exact Nat.succ_le_of_lt (lt_of_le_of_lt (length_remove_le _) hroom)
  · rw [heq]
    exact Nat.succ_le_of_lt (lt_of_lt_of_le (length_remove_lt hkey) h)

theorem mem_conflictsWith {c : HeadConflict} :
    c ∈ tr.conflictsWith fromPeer s ↔ ∃ t ∈ tr.seen, t.summary.shardId = s.shardId ∧ t.summary.treeSize = s.treeSize ∧
      t.summary.rootHash ≠ s.rootHash ∧
        c = ⟨s.shardId, s.treeSize, s.rootHash, fromPeer, t.summary.rootHash, t.reportedBy⟩ := by
  simp only [conflictsWith, List.mem_filterMap]
  refine exists_congr fun t => and_congr_right fun _ => ?_
  split_ifs with h
  · simp only [Option.some.injEq, h, ne_eq, not_false_eq_true, true_and]
    exact eq_comm
  · simp only [false_iff]
    rintro ⟨h1, h2, h3, -⟩
    exact h ⟨h1, h2, h3⟩

end HeadGossipTracker

/-! ## What holds in every run -/

/-- the two texts are reported for the conflict's shard and size, by the peers it names -/
def Reports (past : List (String × HeadSummary)) (c : HeadConflict) : Prop :=
  c.rootHashA ≠ c.rootHashB ∧ ∃ a b : HeadSummary, (c.sourceA, a) ∈ past ∧ (c.sourceB, b) ∈ past ∧
    a.shardId = c.shardId ∧ a.treeSize = c.treeSize ∧ a.rootHash = c.rootHashA ∧
    b.shardId = c.shardId ∧ b.treeSize = c.treeSize ∧ b.rootHash = c.rootHashB

theorem Reports.mono {past past' : List (String × HeadSummary)} {c : HeadConflict} (h : Reports past c) (hsub : past ⊆ past') :
    Reports past' c := by
  obtain ⟨hne, a, b, ha, hb, hplace⟩ := h
  exact ⟨hne, a, b, hsub ha, hsub hb, hplace⟩

/-- what is tracked was reported, and is not too much -/
structure Tracks (past : List (String × HeadSummary)) (tr : HeadGossipTracker) : Prop where
  bounded : tr.seen.length ≤ maxTrackedHeadSummaries
  reported : ∀ t ∈ tr.seen, (t.reportedBy, t.summary) ∈ past

variable {past : List (String × HeadSummary)} {tr : HeadGossipTracker} {fromPeer : String} {now : OffsetDateTime}

theorem tracks_new : Tracks [] .new := ⟨Nat.zero_le _, fun _ ht => by cases ht⟩

theorem tracks_observe (fromPeer : String) (now : OffsetDateTime) (h : Tracks past tr) (s : HeadSummary) :
    Tracks (past ++ [(fromPeer, s)]) (tr.observe fromPeer now s).1 ∧
      ∀ c ∈ (tr.observe fromPeer now s).2, Reports (past ++ [(fromPeer, s)]) c := by
  have hreported : ∀ t ∈ ((tr.evictIfFull s.key).insert ⟨s, fromPeer, now⟩).seen,
      (t.reportedBy, t.summary) ∈ past ++ [(fromPeer, s)] := by
    intro t ht
    rcases HeadGossipTracker.mem_insert.1 ht with rfl | ⟨ht, -⟩
    · simp
    · exact List.mem_append_left _ (h.reported t (HeadGossipTracker.seen_evictIfFull_subset _ ht))
  refine ⟨⟨HeadGossipTracker.length_observe h.bounded, hreported⟩, fun c hc => ?_⟩
  rw [HeadGossipTracker.observe] at hc
  split_ifs at hc
  · cases hc
  · obtain ⟨t, ht, hshard, hsize, hroot, rfl⟩ := HeadGossipTracker.mem_conflictsWith.1 hc
    exact ⟨hroot.symm, s, t.summary, by simp, hreported t ht, rfl, rfl, rfl, hshard, hsize, rfl⟩

theorem tracks_mergeLoop (incoming : List HeadSummary) (h : Tracks past tr) :
    Tracks (past ++ (incoming.filter headSummaryWellFormed).map fun s => (fromPeer, s)) (tr.mergeLoop fromPeer now incoming).1 ∧
      ∀ c ∈ (tr.mergeLoop fromPeer now incoming).2.conflicts,
        Reports (past ++ (incoming.filter headSummaryWellFormed).map fun s => (fromPeer, s)) c := by
  induction incoming generalizing tr past with
  | nil => exact ⟨by simpa [HeadGossipTracker.mergeLoop] using h, fun c hc => by cases hc⟩
  | cons s rest ih =>
    unfold HeadGossipTracker.mergeLoop
    split
    · rename_i hwf
      obtain ⟨hfirst, hconflicts⟩ := tracks_observe fromPeer now h s
      obtain ⟨hrest, hlater⟩ := ih hfirst
      rw [List.filter_cons_of_pos hwf, List.map_cons, List.append_cons]
      refine ⟨hrest, fun c hc => ?_⟩
      rcases List.mem_append.1 hc with hc | hc
      · exact (hconflicts c hc).mono (List.subset_append_left _ _)
      · exact hlater c hc
    · rename_i hwf
      rw [List.filter_cons_of_neg hwf]
      exact ih h

theorem tracks_step (h : Tracks past tr) (op : Op) :
    Tracks (past ++ examined op) (step tr op).1 ∧ ∀ c ∈ (step tr op).2, Reports (past ++ examined op) c := by
  cases op with
  | merge fromPeer incoming now => exact tracks_mergeLoop (incoming.take maxHeadSummariesPerExchange) h
  | markEquivocating shardId => exact ⟨⟨h.bounded, by simpa [examined, step, HeadGossipTracker.markEquivocating] using h.reported⟩, fun c hc => by cases hc⟩

theorem tracks_run (ops : List Op) (h : Tracks past tr) :
    Tracks (past ++ reported ops) (run tr ops).1 ∧ ∀ c ∈ (run tr ops).2, Reports (past ++ reported ops) c := by
  induction ops generalizing tr past with
  | nil => exact ⟨by simpa [reported, run] using h, fun c hc => by cases hc⟩
  | cons op ops ih =>
    obtain ⟨hfirst, hconflicts⟩ := tracks_step h op
    obtain ⟨hrest, hlater⟩ := ih hfirst
    rw [reported, List.flatMap_cons, ← List.append_assoc]
    refine ⟨hrest, fun c hc => ?_⟩
    rcases List.mem_append.1 hc with hc | hc
    · exact (hconflicts c hc).mono (List.subset_append_left _ _)
    · exact hlater c hc

/-! ## Runs that evict nothing -/

/-- the conflict is of these two summaries, either way round -/
def Names (c : HeadConflict) (a b : HeadSummary) : Prop :=
  (c.shardId = a.shardId ∧ c.treeSize = a.treeSize) ∧
    (c.rootHashA = a.rootHash ∧ c.rootHashB = b.rootHash ∨ c.rootHashA = b.rootHash ∧ c.rootHashB = a.rootHash)

theorem Names.symm {c : HeadConflict} {a b : HeadSummary} (hshard : a.shardId = b.shardId) (hsize : a.treeSize = b.treeSize)
    (h : Names c a b) : Names c b a := ⟨⟨h.1.1.trans hshard, h.1.2.trans hsize⟩, h.2.symm⟩

/-- every report is tracked and every two texts for one place were found -/
structure Complete (past : List (String × HeadSummary)) (tr : HeadGossipTracker) (found : List HeadConflict) : Prop where
  tracked : ∀ r ∈ past, r.2.key ∈ tr.keys
  unmarked : tr.equivocatingShards = ∅
  found : ∀ a ∈ past, ∀ b ∈ past, a.2.shardId = b.2.shardId → a.2.treeSize = b.2.treeSize → a.2.rootHash ≠ b.2.rootHash →
    ∃ c ∈ found, Names c a.2 b.2

/-- nothing is evicted for a report among few enough -/
theorem evictIfFull_of_few {heads : Finset HeadSummary} (hfew : heads.card ≤ maxTrackedHeadSummaries)
    (h : Tracks past tr) (hpast : ∀ r ∈ past, r.2 ∈ heads) {s : HeadSummary} (hs : s ∈ heads) : tr.evictIfFull s.key = tr := by
  rw [HeadGossipTracker.evictIfFull]
  refine if_pos (or_iff_not_imp_left.2 fun hnew => ?_)
  -- the tracked keys and the new one are keys of the heads
  have hnodup : (s.key :: tr.keys).Nodup := List.nodup_cons.2 ⟨hnew, tr.distinct⟩
  have hsub : (s.key :: tr.keys).toFinset ⊆ heads.image HeadSummary.key := by
    intro k hk
    rcases List.mem_cons.1 (List.mem_toFinset.1 hk) with rfl | hk
    · exact Finset.mem_image_of_mem _ hs
    · obtain ⟨t, ht, rfl⟩ := List.mem_map.1 hk
      exact Finset.mem_image_of_mem _ (hpast _ (h.reported t ht))
  have hcard := (Finset.card_le_card hsub).trans (Finset.card_image_le.trans hfew)
  rw [List.toFinset_card_of_nodup hnodup, List.length_cons, HeadGossipTracker.keys, List.length_map] at hcard
  exact hcard

theorem complete_observe (fromPeer : String) (now : OffsetDateTime) {heads : Finset HeadSummary}
    (hfew : heads.card ≤ maxTrackedHeadSummaries) (h : Tracks past tr) (hpast : ∀ r ∈ past, r.2 ∈ heads) {found : List HeadConflict} (hcomplete : Complete past tr found) {s : HeadSummary}
    (hs : s ∈ heads) :
    Complete (past ++ [(fromPeer, s)]) (tr.observe fromPeer now s).1 (found ++ (tr.observe fromPeer now s).2) := by
  have hseen : (tr.observe fromPeer now s).1 = tr.insert ⟨s, fromPeer, now⟩ := by
    rw [HeadGossipTracker.observe, evictIfFull_of_few hfew h hpast hs]
  have hconflicts : (tr.observe fromPeer now s).2 = (tr.insert ⟨s, fromPeer, now⟩).conflictsWith fromPeer s := by
    rw [HeadGossipTracker.observe, evictIfFull_of_few hfew h hpast hs, hcomplete.unmarked]
    simp
  -- a conflict of s with a report of the past
  have hnew : ∀ b ∈ past, b.2.shardId = s.shardId → b.2.treeSize = s.treeSize → b.2.rootHash ≠ s.rootHash →
      ∃ c ∈ (tr.observe fromPeer now s).2, Names c s b.2 := by
    intro b hb hshard hsize hroot
    obtain ⟨t, ht, hkey⟩ := List.mem_map.1 (hcomplete.tracked b hb)
    obtain ⟨hshard', hsize', hroot'⟩ : t.summary.shardId = b.2.shardId ∧ t.summary.treeSize = b.2.treeSize ∧
        t.summary.rootHash = b.2.rootHash := by simpa [HeadSummary.key] using hkey
    rw [hconflicts]
    refine ⟨_, HeadGossipTracker.mem_conflictsWith.2 ⟨t, HeadGossipTracker.mem_insert.2 (Or.inr ⟨ht, ?_⟩),
      hshard'.trans hshard, hsize'.trans hsize, hroot' ▸ hroot, rfl⟩, ⟨rfl, rfl⟩, Or.inl ⟨rfl, hroot'⟩⟩
    intro heq
    exact hroot (hroot'.symm.trans (congrArg (fun k => k.2.2) heq))
  constructor
  · intro r hr
    rw [hseen]
    rcases List.mem_append.1 hr with hr | hr
    · obtain ⟨t, ht, hkey⟩ := List.mem_map.1 (hcomplete.tracked r hr)
      by_cases heq : t.summary.key = s.key
      · rw [← hkey, heq]
        exact List.mem_map_of_mem (HeadGossipTracker.mem_insert.2 (Or.inl rfl))
      · rw [← hkey]
        exact List.mem_map_of_mem (HeadGossipTracker.mem_insert.2 (Or.inr ⟨ht, heq⟩))
    · rw [List.mem_singleton.1 hr]
      exact List.mem_map_of_mem (HeadGossipTracker.mem_insert.2 (Or.inl rfl))
  · rw [hseen]
    exact hcomplete.unmarked
  · intro a ha b hb hshard hsize hroot
    rcases List.mem_append.1 ha with ha | ha
    · rcases List.mem_append.1 hb with hb | hb
      · obtain ⟨c, hc, hnames⟩ := hcomplete.found a ha b hb hshard hsize hroot
        exact ⟨c, List.mem_append_left _ hc, hnames⟩
      · obtain rfl := List.mem_singleton.1 hb
        obtain ⟨c, hc, hnames⟩ := hnew a ha hshard hsize hroot
        exact ⟨c, List.mem_append_right _ hc, hnames.symm hshard.symm hsize.symm⟩
    · obtain rfl := List.mem_singleton.1 ha
      rcases List.mem_append.1 hb with hb | hb
      · obtain ⟨c, hc, hnames⟩ := hnew b hb hshard.symm hsize.symm hroot.symm
        exact ⟨c, List.mem_append_right _ hc, hnames⟩
      · obtain rfl := List.mem_singleton.1 hb
        exact absurd rfl hroot

theorem complete_mergeLoop (fromPeer : String) (now : OffsetDateTime) {heads : Finset HeadSummary}
    (hfew : heads.card ≤ maxTrackedHeadSummaries) (h : Tracks past tr) (hpast : ∀ r ∈ past, r.2 ∈ heads) {found : List HeadConflict} (hcomplete : Complete past tr found)
    {incoming : List HeadSummary} (hincoming : ∀ s ∈ incoming, s ∈ heads) :
    Complete (past ++ (incoming.filter headSummaryWellFormed).map fun s => (fromPeer, s))
      (tr.mergeLoop fromPeer now incoming).1 (found ++ (tr.mergeLoop fromPeer now incoming).2.conflicts) := by
  induction incoming generalizing tr past found with
  | nil => simpa [HeadGossipTracker.mergeLoop] using hcomplete
  | cons s rest ih =>
    obtain ⟨hs, hrest⟩ := List.forall_mem_cons.1 hincoming
    unfold HeadGossipTracker.mergeLoop
    split
    · rename_i hwf
      have hpast' : ∀ r ∈ past ++ [(fromPeer, s)], r.2 ∈ heads := by
        intro r hr
        rcases List.mem_append.1 hr with hr | hr
        · exact hpast r hr
        · exact List.mem_singleton.1 hr ▸ hs
      have hfirst := complete_observe fromPeer now hfew h hpast hcomplete hs
      have hlater := ih (tracks_observe fromPeer now h s).1 hpast' hfirst hrest
      rw [List.filter_cons_of_pos hwf, List.map_cons, List.append_cons]
      rw [List.append_assoc found] at hlater
      exact hlater
    · rename_i hwf
      rw [List.filter_cons_of_neg hwf]
      exact ih h hpast hcomplete hrest

/-- the calls of a run bring exactly these summaries, in batches that are looked at whole -/
structure Delivers (ops : List Op) (heads : Finset HeadSummary) : Prop where
  calls : ∀ op ∈ ops, ∃ fromPeer incoming now, op = .merge fromPeer incoming now ∧
    incoming.length ≤ maxHeadSummariesPerExchange ∧ ∀ s ∈ incoming, s ∈ heads
  all : ∀ s ∈ heads, ∃ fromPeer incoming now, Op.merge fromPeer incoming now ∈ ops ∧ s ∈ incoming

theorem examined_mem {ops : List Op} {heads : Finset HeadSummary} (h : Delivers ops heads) {r : String × HeadSummary}
    (hr : r ∈ reported ops) : r.2 ∈ heads := by
  obtain ⟨op, hop, hr⟩ := List.mem_flatMap.1 hr
  obtain ⟨fromPeer, incoming, now, rfl, -, hheads⟩ := h.calls op hop
  obtain ⟨s, hs, rfl⟩ := List.mem_map.1 hr
  exact hheads s (List.mem_of_mem_take (List.mem_of_mem_filter hs))

theorem reported_of_mem {ops : List Op} {heads : Finset HeadSummary} (h : Delivers ops heads)
    (hwf : ∀ s ∈ heads, headSummaryWellFormed s = true) {s : HeadSummary} (hs : s ∈ heads) :
    ∃ fromPeer, (fromPeer, s) ∈ reported ops := by
  obtain ⟨fromPeer, incoming, now, hop, hmem⟩ := h.all s hs
  obtain ⟨_, _, _, heq, hlen, -⟩ := h.calls _ hop
  obtain ⟨rfl, rfl, rfl⟩ := Op.merge.inj heq
  refine ⟨fromPeer, List.mem_flatMap.2 ⟨_, hop, List.mem_map_of_mem (List.mem_filter.2 ⟨?_, hwf s hs⟩)⟩⟩
  rwa [List.take_of_length_le hlen]

/-- every two texts that are reported for a place are found -/
theorem complete_run {heads : Finset HeadSummary} (hfew : heads.card ≤ maxTrackedHeadSummaries) {ops : List Op}
    (hops : ∀ op ∈ ops, ∃ fromPeer incoming now, op = .merge fromPeer incoming now ∧ ∀ s ∈ incoming, s ∈ heads)
    (h : Tracks past tr) (hpast : ∀ r ∈ past, r.2 ∈ heads) {found : List HeadConflict} (hcomplete : Complete past tr found) :
    Complete (past ++ reported ops) (run tr ops).1 (found ++ (run tr ops).2) := by
  induction ops generalizing tr past found with
  | nil => simpa [reported, run] using hcomplete
  | cons op ops ih =>
    obtain ⟨⟨fromPeer, incoming, now, rfl, hincoming⟩, hrest⟩ := List.forall_mem_cons.1 hops
    have htaken : ∀ s ∈ incoming.take maxHeadSummariesPerExchange, s ∈ heads := fun s hs =>
      hincoming s (List.mem_of_mem_take hs)
    have hfirst := complete_mergeLoop fromPeer now hfew h hpast hcomplete htaken
    have hpast' : ∀ r ∈ past ++ examined (.merge fromPeer incoming now), r.2 ∈ heads := by
      intro r hr
      rcases List.mem_append.1 hr with hr | hr
      · exact hpast r hr
      · obtain ⟨s, hs, rfl⟩ := List.mem_map.1 hr
        exact htaken s (List.mem_of_mem_filter hs)
    have hlater := ih hrest (tracks_step h (.merge fromPeer incoming now)).1 hpast' hfirst
    rw [reported, List.flatMap_cons, ← List.append_assoc]
    rw [List.append_assoc found] at hlater
    exact hlater

/-! ## Texts and hashes -/

/-- the conflict's roots are two 32-byte hashes -/
def DifferentHashes (c : HeadConflict) : Prop :=
  ∃ a b : FixedBytes 32, hexDecode c.rootHashA = some a.toList ∧ hexDecode c.rootHashB = some b.toList ∧ a ≠ b

/-- no hash is spelled in two ways for one shard and size -/
def SpelledOnce (heads : HeadSummary → Prop) : Prop :=
  ∀ a b, heads a → heads b → a.shardId = b.shardId → a.treeSize = b.treeSize →
    hexDecode a.rootHash = hexDecode b.rootHash → a.rootHash = b.rootHash

theorem hash_of_wellFormed {s : HeadSummary} (h : headSummaryWellFormed s = true) :
    ∃ a : FixedBytes 32, hexDecode s.rootHash = some a.toList := by
  rw [headSummaryWellFormed, Bool.and_eq_true, Option.any_eq_true] at h
  obtain ⟨-, bytes, hbytes, hlen⟩ := h
  exact ⟨⟨bytes, of_decide_eq_true hlen⟩, hbytes⟩

theorem wellFormed_of_reported {ops : List Op} {r : String × HeadSummary} (h : r ∈ reported ops) :
    headSummaryWellFormed r.2 = true := by
  obtain ⟨op, -, hr⟩ := List.mem_flatMap.1 h
  cases op with
  | merge fromPeer incoming now =>
    obtain ⟨s, hs, rfl⟩ := List.mem_map.1 hr
    exact (List.mem_filter.1 hs).2
  | markEquivocating shardId => cases hr

/-- a conflict of texts is one of hashes unless they spell the same -/
theorem differentHashes_iff {ops : List Op} {c : HeadConflict} (h : Reports (reported ops) c) :
    DifferentHashes c ↔ hexDecode c.rootHashA ≠ hexDecode c.rootHashB := by
  obtain ⟨-, a, b, ha, hb, -, -, hroot, -, -, hroot'⟩ := h
  obtain ⟨x, hx⟩ := hash_of_wellFormed (wellFormed_of_reported ha)
  obtain ⟨y, hy⟩ := hash_of_wellFormed (wellFormed_of_reported hb)
  rw [hroot] at hx
  rw [hroot'] at hy
  constructor
  · rintro ⟨x', y', hx', hy', hne⟩ heq
    rw [hx', hy'] at heq
    exact hne (FixedBytes.toList_inj (Option.some.inj heq))
  · intro hne
    refine ⟨x, y, hx, hy, ?_⟩
    rintro rfl
    exact hne (hx.trans hy.symm)

/-- some call gave back a conflict for the place -/
def Found (ops : List Op) (shardId : String) (treeSize : ℤ) : Prop :=
  ∃ c ∈ (run .new ops).2, c.shardId = shardId ∧ c.treeSize = treeSize

/-- two hashes are reported for the place -/
def Forked (heads : Finset HeadSummary) (shardId : String) (treeSize : ℤ) : Prop :=
  ∃ a ∈ heads, ∃ b ∈ heads, (a.shardId = shardId ∧ a.treeSize = treeSize) ∧ (b.shardId = shardId ∧ b.treeSize = treeSize) ∧
    hexDecode a.rootHash ≠ hexDecode b.rootHash

theorem reports_of_run {ops : List Op} {c : HeadConflict} (h : c ∈ (run .new ops).2) : Reports (reported ops) c :=
  (tracks_run ops tracks_new).2 c h

/-- in a delivery of few heads, a conflict is found for a place as soon as two texts are reported for it -/
theorem found_of_texts {ops : List Op} {heads : Finset HeadSummary} (hfew : heads.card ≤ maxTrackedHeadSummaries)
    (hwf : ∀ s ∈ heads, headSummaryWellFormed s = true) (hdelivers : Delivers ops heads) {a b : HeadSummary}
    (ha : a ∈ heads) (hb : b ∈ heads) (hshard : a.shardId = b.shardId) (hsize : a.treeSize = b.treeSize)
    (hroot : a.rootHash ≠ b.rootHash) : ∃ c ∈ (run .new ops).2, Names c a b := by
  have hempty : Complete [] .new [] :=
    ⟨fun _ hr => (nomatch hr), rfl, fun _ hr => (nomatch hr)⟩
  have hops : ∀ op ∈ ops, ∃ fromPeer incoming now, op = .merge fromPeer incoming now ∧ ∀ s ∈ incoming, s ∈ heads := by
    intro op hop
    obtain ⟨fromPeer, incoming, now, rfl, -, hincoming⟩ := hdelivers.calls op hop
    exact ⟨fromPeer, incoming, now, rfl, hincoming⟩
  obtain ⟨p, hp⟩ := reported_of_mem hdelivers hwf ha
  obtain ⟨q, hq⟩ := reported_of_mem hdelivers hwf hb
  exact (complete_run hfew hops tracks_new (fun _ hr => (nomatch hr)) hempty).found _ hp _ hq hshard hsize hroot

/-- a conflict is of two texts that the heads have for its place -/
theorem texts_of_found {ops : List Op} {heads : Finset HeadSummary} (hdelivers : Delivers ops heads) {c : HeadConflict}
    (h : c ∈ (run .new ops).2) : ∃ a ∈ heads, ∃ b ∈ heads, (a.shardId = c.shardId ∧ a.treeSize = c.treeSize) ∧
      (b.shardId = c.shardId ∧ b.treeSize = c.treeSize) ∧ a.rootHash = c.rootHashA ∧ b.rootHash = c.rootHashB ∧
        a.rootHash ≠ b.rootHash := by
  obtain ⟨hne, a, b, ha, hb, hshard, hsize, hroot, hshard', hsize', hroot'⟩ := reports_of_run h
  exact ⟨a, examined_mem hdelivers ha, b, examined_mem hdelivers hb, ⟨hshard, hsize⟩, ⟨hshard', hsize'⟩, hroot, hroot',
    by rwa [hroot, hroot']⟩

/-- **Conflicts of head gossip.** In every run: few summaries are tracked; every conflict is of two texts that were reported
for its shard and size by the peers it names; where no hash is spelled in two ways, it is of two hashes. And for every
finite set of well-formed heads, few enough, however it is delivered: the conflicts are of two hashes each and found for
exactly the places with two hashes, if and only if no hash is spelled in two ways for one place. -/
theorem head_gossip (ops : List Op) :
    (run .new ops).1.seen.length ≤ maxTrackedHeadSummaries ∧
    (∀ c ∈ (run .new ops).2, Reports (reported ops) c) ∧
    (SpelledOnce (fun s => ∃ fromPeer, (fromPeer, s) ∈ reported ops) → ∀ c ∈ (run .new ops).2, DifferentHashes c) ∧
    ∀ heads : Finset HeadSummary, heads.card ≤ maxTrackedHeadSummaries →
      (∀ s ∈ heads, headSummaryWellFormed s = true) → Delivers ops heads →
        (((∀ c ∈ (run .new ops).2, DifferentHashes c) ∧
            ∀ shardId treeSize, Found ops shardId treeSize ↔ Forked heads shardId treeSize) ↔
          SpelledOnce (· ∈ heads)) := by
  refine ⟨(tracks_run ops tracks_new).1.bounded, fun c hc => reports_of_run hc, ?_, ?_⟩
  · intro hspelled c hc
    have hreports := reports_of_run hc
    obtain ⟨hne, a, b, ha, hb, hshard, hsize, hroot, hshard', hsize', hroot'⟩ := id hreports
    rw [differentHashes_iff hreports, ← hroot, ← hroot']
    intro heq
    rw [← hroot, ← hroot'] at hne
    exact hne (hspelled a b ⟨_, ha⟩ ⟨_, hb⟩ (hshard.trans hshard'.symm) (hsize.trans hsize'.symm) heq)
  · intro heads hfew hwf hdelivers
    constructor
    · rintro ⟨hdifferent, -⟩ a b ha hb hshard hsize heq
      by_contra hroot
      obtain ⟨c, hc, -, htexts⟩ := found_of_texts hfew hwf hdelivers ha hb hshard hsize hroot
      have hne := (differentHashes_iff (reports_of_run hc)).1 (hdifferent c hc)
      rcases htexts with ⟨hA, hB⟩ | ⟨hA, hB⟩
      · exact hne (by rw [hA, hB, heq])
      · exact hne (by rw [hA, hB, heq])
    · intro hspelled
      refine ⟨fun c hc => ?_, fun shardId treeSize => ⟨?_, ?_⟩⟩
      · obtain ⟨a, ha, b, hb, ⟨hshard, hsize⟩, ⟨hshard', hsize'⟩, hroot, hroot', hne⟩ := texts_of_found hdelivers hc
        rw [differentHashes_iff (reports_of_run hc), ← hroot, ← hroot']
        exact fun heq => hne (hspelled a b ha hb (hshard.trans hshard'.symm) (hsize.trans hsize'.symm) heq)
      · rintro ⟨c, hc, rfl, rfl⟩
        obtain ⟨a, ha, b, hb, hplace, hplace', -, -, hne⟩ := texts_of_found hdelivers hc
        refine ⟨a, ha, b, hb, hplace, hplace', fun heq => hne (hspelled a b ha hb ?_ ?_ heq)⟩
        · exact hplace.1.trans hplace'.1.symm
        · exact hplace.2.trans hplace'.2.symm
      · rintro ⟨a, ha, b, hb, ⟨rfl, rfl⟩, ⟨hshard, hsize⟩, hne⟩
        obtain ⟨c, hc, hplace, -⟩ := found_of_texts hfew hwf hdelivers ha hb hshard.symm hsize.symm
          fun heq => hne (congrArg hexDecode heq)
        exact ⟨c, hc, hplace⟩

/-- a head of the core shard -/
def coreHead (digit : Char) : HeadSummary := ⟨"core", 5, String.ofList (List.replicate 64 digit), 2⟩

/-- 0xaa in either case -/
theorem hexDecode_coreHead (digit : Char) (b : UInt8) (hb : String.utf8EncodeChar digit = [b]) (hvalue : hexValue b = some 10) :
    hexDecode (coreHead digit).rootHash = some (List.replicate 32 0xaa) := by
  have hpairs : ∀ n : ℕ, hexPairs (List.replicate (2 * n) b) = some (List.replicate n 0xaa) := by
    intro n
    induction n with
    | zero => rfl
    | succ n ih =>
      rw [Nat.mul_succ, List.replicate_succ, List.replicate_succ, hexPairs, hvalue, ih]
      rfl
  rw [hexDecode, coreHead, utf8_ofList, List.flatMap_replicate, hb, List.flatten_replicate_singleton]
  exact hpairs 32

/-- **One root is reported as a conflict**: of its two spellings -/
theorem respelled_root_conflicts :
    headSummaryWellFormed (coreHead 'a') = true ∧ headSummaryWellFormed (coreHead 'A') = true ∧
      ∃ c ∈ (run .new [.merge "http://peer-a" [coreHead 'a'] 0, .merge "http://peer-b" [coreHead 'A'] 1]).2,
        ¬ DifferentHashes c := by
  have hlower := hexDecode_coreHead 'a' 0x61 (by decide) (by decide)
  have hupper := hexDecode_coreHead 'A' 0x41 (by decide) (by decide)
  have hwf : ∀ digit, hexDecode (coreHead digit).rootHash = some (List.replicate 32 0xaa) →
      headSummaryWellFormed (coreHead digit) = true := by
    intro digit h
    have hshard : shardIdOk (coreHead digit).shardId = true := show shardIdOk "core" = true by decide +kernel
    rw [headSummaryWellFormed, h, hshard]
    rfl
  refine ⟨hwf _ hlower, hwf _ hupper, ?_⟩
  have hdelivers : Delivers [.merge "http://peer-a" [coreHead 'a'] 0, .merge "http://peer-b" [coreHead 'A'] 1]
      {coreHead 'a', coreHead 'A'} := by
    constructor
    · intro op hop
      simp only [List.mem_cons, List.not_mem_nil, or_false] at hop
      rcases hop with rfl | rfl
      · exact ⟨_, _, _, rfl, by decide, by simp⟩
      · exact ⟨_, _, _, rfl, by decide, by simp⟩
    · intro s hs
      rcases Finset.mem_insert.1 hs with rfl | hs
      · exact ⟨_, _, _, .head _, .head _⟩
      · rw [Finset.mem_singleton.1 hs]
        exact ⟨_, _, _, .tail _ (.head _), .head _⟩
  have hheads : ∀ s ∈ ({coreHead 'a', coreHead 'A'} : Finset HeadSummary), headSummaryWellFormed s = true := by
    intro s hs
    rcases Finset.mem_insert.1 hs with rfl | hs
    · exact hwf _ hlower
    · exact Finset.mem_singleton.1 hs ▸ hwf _ hupper
  have hfew : ({coreHead 'a', coreHead 'A'} : Finset HeadSummary).card ≤ maxTrackedHeadSummaries :=
    Finset.card_le_two.trans (by decide)
  have htexts : (coreHead 'a').rootHash ≠ (coreHead 'A').rootHash := by
    rw [coreHead, coreHead, Ne, String.ofList_inj]
    decide
  obtain ⟨c, hc, -, hnames⟩ := found_of_texts hfew hheads hdelivers (a := coreHead 'a') (b := coreHead 'A') (by simp)
    (by simp) rfl rfl htexts
  refine ⟨c, hc, fun hdifferent => (differentHashes_iff (reports_of_run hc)).1 hdifferent ?_⟩
  rcases hnames with ⟨hA, hB⟩ | ⟨hA, hB⟩
  · rw [hA, hB, hlower, hupper]
  · rw [hA, hB, hlower, hupper]

end Avalon.HeadGossip
