/-
Cross-shard and family roots (`crates/chain/src/cross_shard.rs`): a Merkle tree over the heads of all shards, and one over
the heads of the shards of one owner.

The heads are sorted by shard id before they are hashed, with a stable sort: heads with one shard id keep the order they
came in. String lengths are written in four bytes, so a length of 2^32 or more is cut.

Results:
- `mth_inj_of_any_length`: equal roots have equal leaves, whatever the lengths, or the trees hash a collision.
- `leafBytes_injective`: the leaf of a head has one kind, one owner and one content.
- `root_of_reordering`: heads that agree whenever their shard ids do have one root in every order.
- `roots_commit_to_heads`: the roots are independent of the order exactly for these lists, and equal roots are of one kind
  over the same heads, or the digested strings collide.
-/
import Mathlib.Tactic
import Mathlib.Data.List.Sort
import Mathlib.Data.String.Basic
import Avalon.Core.Bytes
import Avalon.Core.Collision
import Avalon.Chain.Merkle
import Avalon.Protocol.LedgerEntry
import Avalon.Protocol.Shard
import Avalon.Protocol.Sth

namespace Avalon.CrossShard

open Avalon.SigningBytes Avalon.LedgerEntry Avalon.Sth Merkle Shard Collision

/-! ## Model -/

def treeAlgo : HashAlgo := .sha256

structure ShardTreeHead where
  shardId : String
  sth : SignedTreeHead
deriving DecidableEq

structure CrossShardRoot where
  rootHash : String
  shardCount : ℕ
  computedAt : OffsetDateTime
  isPartial : Bool
  missingShardIds : List String

/-- the length is cut to four bytes -/
def lengthPrefixedStr (s : String) : Bytes := beBytes 4 (utf8 s).length ++ utf8 s

def shardFields (shardId : String) (sth : SignedTreeHead) : Bytes :=
  lengthPrefixedStr shardId ++ beBytes 8 sth.treeSize.toBitVec.toNat ++ lengthPrefixedStr sth.rootHash ++
    lengthPrefixedStr sth.signingKeyId ++ lengthPrefixedStr sth.signature

def shardLeafTag : Bytes := utf8 "avalon-cross-shard-leaf-v1"

def shardLeafBytes (shardId : String) (sth : SignedTreeHead) : Bytes := shardLeafTag ++ shardFields shardId sth

/-- by shard id, byte-wise: UTF-8 keeps the order of the code points. The sort is stable -/
def canonicalOrder (shards : List ShardTreeHead) : List ShardTreeHead :=
  shards.insertionSort fun a b => a.shardId ≤ b.shardId

def computeCrossShardRoot (shards : List ShardTreeHead) (computedAt : OffsetDateTime) : CrossShardRoot :=
  let ordered := canonicalOrder shards
  let leaves := ordered.map fun s => shardLeafBytes s.shardId s.sth
  { rootHash := hexEncode (mth treeAlgo leaves).toList
    shardCount := ordered.length
    computedAt := computedAt
    isPartial := false
    missingShardIds := [] }

/-- known ids in ascending order; the root is over the shards that are there -/
def computeCrossShardRootChecked (knownShardIds : List String) (shards : List ShardTreeHead)
    (computedAt : OffsetDateTime) : CrossShardRoot :=
  let present := shards.map (·.shardId)
  let missing := knownShardIds.filter (· ∉ present)
  { computeCrossShardRoot shards computedAt with isPartial := !missing.isEmpty, missingShardIds := missing }

def familyLeafTag : Bytes := utf8 "avalon-shard-family-leaf-v1"

def familyEmptyTag : Bytes := utf8 "avalon-shard-family-empty-v1"

def familyLeafBytes (owner shardId : String) (sth : SignedTreeHead) : Bytes :=
  familyLeafTag ++ lengthPrefixedStr owner ++ shardFields shardId sth

def isFamilyMember (owner shardId : String) : Bool := (shardFamilyOwner shardId).any (· == owner)

/-- heads of other owners, of core and of node shards are dropped -/
def familyMembers (owner : String) (shards : List ShardTreeHead) : List ShardTreeHead :=
  canonicalOrder (shards.filter fun s => isFamilyMember owner s.shardId)

def familyLeaves (owner : String) (ordered : List ShardTreeHead) : List Bytes :=
  ordered.map fun s => familyLeafBytes owner s.shardId s.sth

structure ShardFamilyHead where
  owner : String
  rootHash : String
  shardCount : ℕ
  members : List ShardTreeHead
  isPartial : Bool
  missingShardIds : List String

/-- what is digested for a family without members -/
def familyEmptyMessage (owner : String) : Bytes := familyEmptyTag ++ lengthPrefixedStr owner

def computeShardFamilyHead (owner : String) (knownShardIds : List String) (shards : List ShardTreeHead) :
    ShardFamilyHead :=
  let members := familyMembers owner shards
  let root := if members.isEmpty then treeAlgo.digest (familyEmptyMessage owner)
    else mth treeAlgo (familyLeaves owner members)
  let present := members.map (·.shardId)
  let missing := knownShardIds.filter fun id => isFamilyMember owner id && decide (id ∉ present)
  { owner := owner
    rootHash := hexEncode root.toList
    shardCount := members.length
    members := members
    isPartial := !missing.isEmpty
    missingShardIds := missing }

/-! ## Trees of any length -/

section Trees

variable {algo : HashAlgo} {S : List Bytes}

/-- the first byte of what is digested for the root of n leaves -/
def rootTag : ℕ → Option UInt8
  | 0 => none
  | 1 => some leafHashPrefix
  | _ => some nodeHashPrefix

/-- the root is the digest of a listed string, which starts as the number of leaves says -/
theorem mth_eq_digest (algo : HashAlgo) (l : List Bytes) :
    ∃ r ∈ mthInputs algo l, mth algo l = algo.digest r ∧ r.head? = rootTag l.length := by
  match l with
  | [] => exact ⟨[], by simp [mthInputs], mth_nil algo, rfl⟩
  | [d] => exact ⟨leafInput d, by simp [mthInputs], mth_singleton algo d, rfl⟩
  | d0 :: d1 :: rest =>
    refine ⟨_, ?_, mth_split algo (d0 :: d1 :: rest) (by simp), rfl⟩
    rw [mthInputs_split algo _ (by simp)]
    exact List.mem_cons_self ..

/-- a root and a digest of a string with another first byte differ, or collide -/
theorem root_ne_or {l : List Bytes} {x : Bytes} (hl : mthInputs algo l ⊆ S) (hx : x ∈ S)
    (hhead : x.head? ≠ rootTag l.length) (h : mth algo l = algo.digest x) : CollisionIn algo.digest S := by
  obtain ⟨r, hr, hroot, hhead'⟩ := mth_eq_digest algo l
  rcases eq_or_collision (hl hr) hx (hroot ▸ h) with rfl | hcol
  · exact absurd hhead' hhead
  · exact hcol

/-- **The root pins the leaves**, and how many there are, or the two trees hash a collision -/
theorem mth_inj_of_any_length (l l' : List Bytes) (hl : mthInputs algo l ⊆ S) (hl' : mthInputs algo l' ⊆ S)
    (h : mth algo l = mth algo l') : l = l' ∨ CollisionIn algo.digest S := by
  induction hn : l.length using Nat.strong_induction_on generalizing l l' with
  | _ n ih =>
    by_cases htag : rootTag l'.length = rootTag l.length
    · match l, l', htag with
      | [], [], _ => exact Or.inl rfl
      | [d], [d'], _ =>
        rw [mth_singleton, mth_singleton] at h
        rw [mthInputs_singleton] at hl hl'
        rcases leaf_inj_or (hl (by simp)) (hl' (by simp)) h with rfl | hcol
        · exact Or.inl rfl
        · exact Or.inr hcol
      | d0 :: d1 :: rest, e0 :: e1 :: rest', _ =>
        generalize hL : d0 :: d1 :: rest = L at *
        generalize hL' : e0 :: e1 :: rest' = L' at *
        have h2 : 2 ≤ L.length := by simp [← hL]
        have h2' : 2 ≤ L'.length := by simp [← hL']
        have hk := splitPoint_lt (n := L.length) (by omega)
        have hpos := splitPoint_pos L.length
        rw [mth_split algo L h2, mth_split algo L' h2'] at h
        rw [mthInputs_split algo L h2, List.cons_subset, List.append_subset] at hl
        rw [mthInputs_split algo L' h2', List.cons_subset, List.append_subset] at hl'
        rcases node_inj_or hl.1 hl'.1 h with ⟨hleft, hright⟩ | hcol
        · rcases ih _ (by simp; omega) _ _ hl.2.1 hl'.2.1 hleft rfl with eleft | hcol
          · rcases ih _ (by simp; omega) _ _ hl.2.2 hl'.2.2 hright rfl with eright | hcol
            · left
              rw [← List.take_append_drop (splitPoint L.length) L, ← List.take_append_drop (splitPoint L'.length) L',
                eleft, eright]
            · exact Or.inr hcol
          · exact Or.inr hcol
        · exact Or.inr hcol
      | [], [_], htag | [], _ :: _ :: _, htag | [_], [], htag | [_], _ :: _ :: _, htag | _ :: _ :: _, [], htag
      | _ :: _ :: _, [_], htag => simp [rootTag, leafHashPrefix, nodeHashPrefix] at htag
    · obtain ⟨r, hr, hroot, hhead⟩ := mth_eq_digest algo l'
      exact Or.inr (root_ne_or hl (hl' hr) (hhead ▸ htag) (h.trans hroot))

end Trees

/-! ## What a leaf says -/

/-- the kind of a root -/
inductive RootKind where
  | network
  | family (owner : String)
deriving DecidableEq, Repr

def rootHash (kind : RootKind) (computedAt : OffsetDateTime) (knownShardIds : List String)
    (shards : List ShardTreeHead) : String :=
  match kind with
  | .network => (computeCrossShardRoot shards computedAt).rootHash
  | .family owner => (computeShardFamilyHead owner knownShardIds shards).rootHash

/-- the heads a root is over -/
def committed (kind : RootKind) (shards : List ShardTreeHead) : List ShardTreeHead :=
  match kind with
  | .network => shards
  | .family owner => shards.filter fun s => isFamilyMember owner s.shardId

/-- what heads are compared by -/
def content (s : ShardTreeHead) : String × Int64 × String × String × String :=
  (s.shardId, s.sth.treeSize, s.sth.rootHash, s.sth.signingKeyId, s.sth.signature)

def leafBytes (kind : RootKind) (s : ShardTreeHead) : Bytes :=
  match kind with
  | .network => shardLeafBytes s.shardId s.sth
  | .family owner => familyLeafBytes owner s.shardId s.sth

def leaves (kind : RootKind) (shards : List ShardTreeHead) : List Bytes :=
  (canonicalOrder (committed kind shards)).map (leafBytes kind)

/-- the byte strings that are digested for a root -/
def hashed (kind : RootKind) (shards : List ShardTreeHead) : List Bytes :=
  match kind with
  | .network => mthInputs treeAlgo (leaves .network shards)
  | .family owner =>
    if leaves (.family owner) shards = [] then [familyEmptyMessage owner] else mthInputs treeAlgo (leaves (.family owner) shards)

/-- the length fits four bytes -/
def Short (s : String) : Prop := (utf8 s).length < 2 ^ 32

/-- no length is cut -/
structure Encodable (kind : RootKind) (shards : List ShardTreeHead) : Prop where
  owner : ∀ owner, kind = .family owner → Short owner
  shardId : ∀ s ∈ committed kind shards, Short s.shardId
  rootHash : ∀ s ∈ committed kind shards, Short s.sth.rootHash
  signingKeyId : ∀ s ∈ committed kind shards, Short s.sth.signingKeyId
  signature : ∀ s ∈ committed kind shards, Short s.sth.signature

/-- heads of one shard agree -/
def Consistent (shards : List ShardTreeHead) : Prop :=
  ∀ a ∈ shards, ∀ b ∈ shards, a.shardId = b.shardId → content a = content b

theorem lengthPrefixedStr_append_inj {s t : String} {a b : Bytes} (hs : Short s) (ht : Short t)
    (h : lengthPrefixedStr s ++ a = lengthPrefixedStr t ++ b) : s = t ∧ a = b := by
  simp only [lengthPrefixedStr, List.append_assoc] at h
  obtain ⟨hlength, h⟩ := List.append_inj h (by simp)
  have hlength := beBytes_inj (by simpa [Short] using hs) (by simpa [Short] using ht) hlength
  obtain ⟨hst, hab⟩ := List.append_inj h hlength
  exact ⟨utf8_inj hst, hab⟩

/-- the strings of a head fit their length fields -/
structure ShortHead (s : ShardTreeHead) : Prop where
  shardId : Short s.shardId
  rootHash : Short s.sth.rootHash
  signingKeyId : Short s.sth.signingKeyId
  signature : Short s.sth.signature

theorem Encodable.head {kind : RootKind} {shards : List ShardTreeHead} (h : Encodable kind shards) {s : ShardTreeHead}
    (hs : s ∈ committed kind shards) : ShortHead s :=
  ⟨h.shardId s hs, h.rootHash s hs, h.signingKeyId s hs, h.signature s hs⟩

theorem shardFields_inj {s t : ShardTreeHead} (hs : ShortHead s) (ht : ShortHead t)
    (h : shardFields s.shardId s.sth = shardFields t.shardId t.sth) : content s = content t := by
  rw [shardFields, shardFields, ← List.append_nil (lengthPrefixedStr s.sth.signature),
    ← List.append_nil (lengthPrefixedStr t.sth.signature)] at h
  simp only [List.append_assoc] at h
  obtain ⟨hid, h⟩ := lengthPrefixedStr_append_inj hs.shardId ht.shardId h
  obtain ⟨hsize, h⟩ := List.append_inj h (by simp)
  obtain ⟨hroot, h⟩ := lengthPrefixedStr_append_inj hs.rootHash ht.rootHash h
  obtain ⟨hkey, h⟩ := lengthPrefixedStr_append_inj hs.signingKeyId ht.signingKeyId h
  obtain ⟨hsig, -⟩ := lengthPrefixedStr_append_inj hs.signature ht.signature h
  have hsize : s.sth.treeSize = t.sth.treeSize := by
    apply Int64.toBitVec_inj.1
    apply BitVec.eq_of_toNat_eq
    exact beBytes_inj (s.sth.treeSize.toBitVec.isLt) (t.sth.treeSize.toBitVec.isLt) hsize
  simp only [content, hid, hsize, hroot, hkey, hsig]

theorem shardLeaf_ne_familyLeaf (x y : Bytes) : shardLeafTag ++ x ≠ familyLeafTag ++ y := by
  intro h
  have hnetwork : (shardLeafTag ++ x).take 8 = shardLeafTag.take 8 := List.take_append_of_le_length (by decide +kernel)
  have hfamily : (familyLeafTag ++ y).take 8 = familyLeafTag.take 8 := List.take_append_of_le_length (by decide +kernel)
  have htags : shardLeafTag.take 8 ≠ familyLeafTag.take 8 := by decide +kernel
  exact htags (hnetwork.symm.trans ((congrArg (List.take 8) h).trans hfamily))

/-- **A leaf has one reading**: its kind, owner and head are determined by its bytes -/
theorem leafBytes_injective {kind kind' : RootKind} {s t : ShardTreeHead} (hs : ShortHead s) (ht : ShortHead t)
    (howner : ∀ owner, kind = .family owner → Short owner) (howner' : ∀ owner, kind' = .family owner → Short owner)
    (h : leafBytes kind s = leafBytes kind' t) : kind = kind' ∧ content s = content t := by
  cases kind with
  | network =>
    cases kind' with
    | network =>
      have hfields := List.append_cancel_left h
      exact ⟨rfl, shardFields_inj hs ht hfields⟩
    | family owner' =>
      simp only [leafBytes, shardLeafBytes, familyLeafBytes, List.append_assoc] at h
      exact absurd h (shardLeaf_ne_familyLeaf _ _)
  | family owner =>
    cases kind' with
    | network =>
      simp only [leafBytes, shardLeafBytes, familyLeafBytes, List.append_assoc] at h
      exact absurd h.symm (shardLeaf_ne_familyLeaf _ _)
    | family owner' =>
      simp only [leafBytes, familyLeafBytes, List.append_assoc] at h
      obtain ⟨rfl, hfields⟩ :=
        lengthPrefixedStr_append_inj (howner owner rfl) (howner' owner' rfl) (List.append_cancel_left h)
      exact ⟨rfl, shardFields_inj hs ht hfields⟩

/-- equal lists of leaves are over heads that agree one by one -/
theorem contents_of_leaves {kind : RootKind} (howner : ∀ owner, kind = .family owner → Short owner)
    {l l' : List ShardTreeHead} (hl : ∀ s ∈ l, ShortHead s) (hl' : ∀ s ∈ l', ShortHead s)
    (h : l.map (leafBytes kind) = l'.map (leafBytes kind)) : l.map content = l'.map content := by
  induction l generalizing l' with
  | nil => simp_all
  | cons s l ih =>
    cases l' with
    | nil => simp at h
    | cons t l' =>
      simp only [List.map_cons, List.cons.injEq] at h ⊢
      refine ⟨(leafBytes_injective (hl s (by simp)) (hl' t (by simp)) howner howner h.1).2, ih ?_ ?_ h.2⟩
      · exact fun s' hs' => hl s' (List.mem_cons_of_mem _ hs')
      · exact fun s' hs' => hl' s' (List.mem_cons_of_mem _ hs')

/-! ## The canonical order -/

theorem canonicalOrder_perm (shards : List ShardTreeHead) : (canonicalOrder shards).Perm shards :=
  List.perm_insertionSort _ shards

theorem canonicalOrder_sorted (shards : List ShardTreeHead) :
    (canonicalOrder shards).Pairwise fun a b => a.shardId ≤ b.shardId := by
  have : IsTrans ShardTreeHead fun a b => a.shardId ≤ b.shardId := ⟨fun _ _ _ => le_trans⟩
  have : Std.Total fun (a b : ShardTreeHead) => a.shardId ≤ b.shardId := ⟨fun _ _ => le_total _ _⟩
  exact List.pairwise_insertionSort _ shards

theorem mem_canonicalOrder {shards : List ShardTreeHead} {s : ShardTreeHead} :
    s ∈ canonicalOrder shards ↔ s ∈ shards := (canonicalOrder_perm shards).mem_iff

/-- the order of consistent heads is one, as far as a leaf shows -/
theorem canonicalOrder_contents {l l' : List ShardTreeHead} (hperm : l.Perm l') (hconsistent : Consistent l) :
    (canonicalOrder l).map content = (canonicalOrder l').map content := by
  have hmap : ((canonicalOrder l).map content).Perm ((canonicalOrder l').map content) :=
    (((canonicalOrder_perm l).trans hperm).trans (canonicalOrder_perm l').symm).map content
  have hsorted : ∀ shards, ((canonicalOrder shards).map content).Pairwise fun a b => a.1 ≤ b.1 := by
    intro shards
    rw [List.pairwise_map]
    exact canonicalOrder_sorted shards
  refine hmap.eq_of_pairwise ?_ (hsorted l) (hsorted l')
  -- two entries of the lists that are not ordered have one shard id
  intro a b ha hb hab hba
  obtain ⟨s, hs, rfl⟩ := List.mem_map.1 ha
  obtain ⟨t, ht, rfl⟩ := List.mem_map.1 hb
  have hs := mem_canonicalOrder.1 hs
  have ht := hperm.mem_iff.2 (mem_canonicalOrder.1 ht)
  exact hconsistent s hs t ht (le_antisymm hab hba)

/-- of two equivalent elements, the one inserted last stands first -/
theorem orderedInsert_pair {α : Type} (r : α → α → Prop) [DecidableRel r] {a b : α} (hab : r a b)
    (hsame : ∀ c, r a c ↔ r b c) (l : List α) :
    (l.orderedInsert r b).orderedInsert r a =
      l.takeWhile (fun c => ¬ r a c) ++ a :: b :: l.dropWhile (fun c => ¬ r a c) := by
  induction l with
  | nil => simp [hab]
  | cons c l ih =>
    by_cases hc : r a c
    · simp [hab, hc, (hsame c).1 hc]
    · have hbc : ¬ r b c := fun h => hc ((hsame c).2 h)
      simp [hc, hbc, ih]

/-- two heads of one shard keep the order they came in -/
theorem canonicalOrder_pair {a b : ShardTreeHead} (h : a.shardId = b.shardId) (rest : List ShardTreeHead) :
    ∃ low high, canonicalOrder (a :: b :: rest) = low ++ a :: b :: high ∧
      canonicalOrder (b :: a :: rest) = low ++ b :: a :: high := by
  have key : ∀ {a b : ShardTreeHead}, a.shardId = b.shardId → canonicalOrder (a :: b :: rest) =
      (canonicalOrder rest).takeWhile (fun c => ¬ a.shardId ≤ c.shardId) ++ a :: b ::
        (canonicalOrder rest).dropWhile (fun c => ¬ a.shardId ≤ c.shardId) := by
    intro a b h
    apply orderedInsert_pair fun a b : ShardTreeHead => a.shardId ≤ b.shardId
    · exact h.le
    · exact fun c => by rw [h]
  refine ⟨_, _, key h, ?_⟩
  rw [key h.symm, h]

/-! ## The roots -/

/-- the digest that a root writes in hex -/
def root (kind : RootKind) (shards : List ShardTreeHead) : Hash :=
  match kind with
  | .network => mth treeAlgo (leaves .network shards)
  | .family owner =>
    if leaves (.family owner) shards = [] then treeAlgo.digest (familyEmptyMessage owner)
    else mth treeAlgo (leaves (.family owner) shards)

theorem rootHash_eq (kind : RootKind) (computedAt : OffsetDateTime) (knownShardIds : List String)
    (shards : List ShardTreeHead) :
    rootHash kind computedAt knownShardIds shards = hexEncode (root kind shards).toList := by
  cases kind with
  | network => rfl
  | family owner =>
    simp only [rootHash, computeShardFamilyHead, root, leaves, List.map_eq_nil_iff, familyMembers, committed,
      List.isEmpty_iff]
    rfl

theorem rootHash_inj {kind kind' : RootKind} {at₁ at₂ : OffsetDateTime} {known known' : List String}
    {shards shards' : List ShardTreeHead} :
    rootHash kind at₁ known shards = rootHash kind' at₂ known' shards' ↔ root kind shards = root kind' shards' := by
  rw [rootHash_eq, rootHash_eq]
  constructor
  · intro h
    exact FixedBytes.hexEncode_inj h
  · intro h
    rw [h]

/-- the root reads of the heads what a leaf shows, in order -/
theorem root_congr {kind : RootKind} {shards shards' : List ShardTreeHead}
    (h : (canonicalOrder (committed kind shards)).map content = (canonicalOrder (committed kind shards')).map content) :
    root kind shards = root kind shards' := by
  have hleaf : ∀ l : List ShardTreeHead, l.map (leafBytes kind) = (l.map content).map fun c =>
      leafBytes kind ⟨c.1, ⟨c.2.1, c.2.2.1, "", c.2.2.2.1, c.2.2.2.2, 0, .current .settlementSth⟩⟩ := by
    intro l
    rw [List.map_map]
    apply List.map_congr_left
    intro s _
    cases kind <;> rfl
  have hleaves : leaves kind shards = leaves kind shards' := by rw [leaves, leaves, hleaf, hleaf, h]
  cases kind <;> simp only [root, hleaves]

theorem committed_perm (kind : RootKind) {l l' : List ShardTreeHead} (h : l.Perm l') :
    (committed kind l).Perm (committed kind l') := by
  cases kind with
  | network => exact h
  | family owner => exact h.filter _

/-- the order of the list does not show in the root of consistent heads -/
theorem root_of_reordering {kind : RootKind} {l l' : List ShardTreeHead} (hconsistent : Consistent (committed kind l))
    (hperm : l.Perm l') : root kind l = root kind l' :=
  root_congr (canonicalOrder_contents (committed_perm kind hperm) hconsistent)

/-- a root is that of a tree, with a leaf if it is a family's, or that of an empty family -/
theorem root_cases (kind : RootKind) (shards : List ShardTreeHead) :
    (root kind shards = mth treeAlgo (leaves kind shards) ∧ hashed kind shards = mthInputs treeAlgo (leaves kind shards) ∧
      (leaves kind shards = [] → kind = .network)) ∨
    ∃ owner, kind = .family owner ∧ leaves kind shards = [] ∧
      root kind shards = treeAlgo.digest (familyEmptyMessage owner) ∧ hashed kind shards = [familyEmptyMessage owner] := by
  cases kind with
  | network => exact Or.inl ⟨rfl, rfl, fun _ => rfl⟩
  | family owner =>
    by_cases hleaves : leaves (.family owner) shards = []
    · exact Or.inr ⟨owner, rfl, hleaves, by simp [root, hleaves], by simp [hashed, hleaves]⟩
    · exact Or.inl ⟨by simp [root, hleaves], by simp [hashed, hleaves], fun h => absurd h hleaves⟩

theorem head_familyEmptyMessage (owner : String) (n : ℕ) : (familyEmptyMessage owner).head? ≠ rootTag n := by
  have htag : familyEmptyTag.head? = some 0x61 := by decide +kernel
  have hhead : (familyEmptyMessage owner).head? = some 0x61 := by
    rw [familyEmptyMessage, List.head?_append, htag]
    rfl
  rw [hhead]
  match n with
  | 0 => simp [rootTag]
  | 1 => simp [rootTag, leafHashPrefix]
  | _ + 2 => simp [rootTag, nodeHashPrefix]

theorem familyEmptyMessage_inj {owner owner' : String} (h : Short owner) (h' : Short owner')
    (heq : familyEmptyMessage owner = familyEmptyMessage owner') : owner = owner' := by
  have hprefixed := List.append_cancel_left heq
  rw [← List.append_nil (lengthPrefixedStr owner), ← List.append_nil (lengthPrefixedStr owner')] at hprefixed
  exact (lengthPrefixedStr_append_inj h h' hprefixed).1

theorem Encodable.ordered {kind : RootKind} {shards : List ShardTreeHead} (h : Encodable kind shards) :
    ∀ s ∈ canonicalOrder (committed kind shards), ShortHead s := fun _ hs => h.head (mem_canonicalOrder.1 hs)

/-- equal leaves are of one kind and over the same contents -/
theorem heads_of_leaves {kind kind' : RootKind} {l l' : List ShardTreeHead} (he : Encodable kind l)
    (he' : Encodable kind' l') (hnil : leaves kind l = [] → kind = .network) (hnil' : leaves kind' l' = [] → kind' = .network)
    (h : leaves kind l = leaves kind' l') :
    kind = kind' ∧
      (canonicalOrder (committed kind l)).map content = (canonicalOrder (committed kind' l')).map content := by
  have hkind : kind = kind' := by
    cases hl : leaves kind l with
    | nil => rw [hnil hl, hnil' (h ▸ hl)]
    | cons x xs =>
      have hx : x ∈ leaves kind l := by simp [hl]
      obtain ⟨s, hs, rfl⟩ := List.mem_map.1 hx
      obtain ⟨t, ht, heq⟩ := List.mem_map.1 (h ▸ hx)
      exact (leafBytes_injective (he.ordered s hs) (he'.ordered t ht) he.owner he'.owner heq.symm).1
  subst hkind
  exact ⟨rfl, contents_of_leaves he.owner he.ordered he'.ordered h⟩

/-- **The root pins the heads**: equal roots are of one kind and over the same contents in order, or there is a collision -/
theorem heads_of_root {kind kind' : RootKind} {l l' : List ShardTreeHead} (he : Encodable kind l)
    (he' : Encodable kind' l') (h : root kind l = root kind' l') :
    (kind = kind' ∧
      (canonicalOrder (committed kind l)).map content = (canonicalOrder (committed kind' l')).map content) ∨
    CollisionIn treeAlgo.digest (hashed kind l ++ hashed kind' l') := by
  rcases root_cases kind l with ⟨hroot, hhashed, hnil⟩ | ⟨owner, rfl, hleaves, hroot, hhashed⟩
  · rcases root_cases kind' l' with ⟨hroot', hhashed', hnil'⟩ | ⟨owner', rfl, hleaves', hroot', hhashed'⟩
    · rw [hroot, hroot'] at h
      rw [hhashed, hhashed']
      rcases mth_inj_of_any_length _ _ (List.subset_append_left _ _) (List.subset_append_right _ _) h with heq | hcol
      · exact Or.inl (heads_of_leaves he he' hnil hnil' heq)
      · exact Or.inr hcol
    · rw [hroot, hroot'] at h
      rw [hhashed, hhashed']
      exact Or.inr (root_ne_or (List.subset_append_left _ _) (by simp) (head_familyEmptyMessage owner' _) h)
  · rcases root_cases kind' l' with ⟨hroot', hhashed', hnil'⟩ | ⟨owner', rfl, hleaves', hroot', hhashed'⟩
    · rw [hroot, hroot'] at h
      rw [hhashed, hhashed']
      exact Or.inr (root_ne_or (List.subset_append_right _ _) (by simp) (head_familyEmptyMessage owner _) h.symm)
    · rw [hroot, hroot'] at h
      rw [hhashed, hhashed']
      rcases eq_or_collision (List.mem_append_left _ (List.mem_singleton_self _))
        (List.mem_append_right _ (List.mem_singleton_self _)) h with heq | hcol
      · have howner := familyEmptyMessage_inj (he.owner owner rfl) (he'.owner owner' rfl) heq
        subst howner
        rw [leaves, List.map_eq_nil_iff] at hleaves hleaves'
        exact Or.inl ⟨rfl, by rw [hleaves, hleaves']⟩
      · exact Or.inr hcol

theorem Encodable.perm {kind : RootKind} {l l' : List ShardTreeHead} (h : Encodable kind l) (hperm : l.Perm l') :
    Encodable kind l' := by
  have hmem : ∀ {s}, s ∈ committed kind l' → s ∈ committed kind l := fun hs => (committed_perm kind hperm).mem_iff.2 hs
  exact ⟨h.owner, fun s hs => h.shardId s (hmem hs), fun s hs => h.rootHash s (hmem hs),
    fun s hs => h.signingKeyId s (hmem hs), fun s hs => h.signature s (hmem hs)⟩

/-- heads of one shard that differ give two orders with different leaves, or a collision -/
theorem orders_of_inconsistent {kind : RootKind} {l : List ShardTreeHead} (he : Encodable kind l)
    (h : ¬ Consistent (committed kind l)) :
    ∃ l₁ l₂, l.Perm l₁ ∧ l.Perm l₂ ∧
      (root kind l₁ = root kind l₂ → CollisionIn treeAlgo.digest (hashed kind l₁ ++ hashed kind l₂)) := by
  simp only [Consistent, not_forall, exists_prop] at h
  obtain ⟨a, ha, b, hb, hid, hne⟩ := h
  have hmem : ∀ {s}, s ∈ committed kind l → s ∈ l ∧ ∀ rest, committed kind (s :: rest) = s :: committed kind rest := by
    intro s hs
    cases kind with
    | network => exact ⟨hs, fun _ => rfl⟩
    | family owner =>
      obtain ⟨hs, hmember⟩ := List.mem_filter.1 hs
      exact ⟨hs, fun rest => by simp only [committed, List.filter_cons, hmember, if_true]⟩
  have hab : a ≠ b := fun h => hne (h ▸ rfl)
  obtain ⟨rest, hrest⟩ : ∃ rest, l.Perm (a :: b :: rest) := by
    refine ⟨(l.erase a).erase b, (List.perm_cons_erase (hmem ha).1).trans (List.Perm.cons a ?_)⟩
    exact List.perm_cons_erase ((List.mem_erase_of_ne hab.symm).2 (hmem hb).1)
  have hswap := hrest.trans (List.Perm.swap b a rest)
  refine ⟨_, _, hrest, hswap, fun hroot => ?_⟩
  rcases heads_of_root (he.perm hrest) (he.perm hswap) hroot with ⟨-, hcontents⟩ | hcol
  · obtain ⟨low, high, hfirst, hsecond⟩ := canonicalOrder_pair hid (committed kind rest)
    rw [(hmem ha).2, (hmem hb).2, (hmem hb).2, (hmem ha).2, hfirst, hsecond, List.map_append, List.map_append] at hcontents
    have hheads := List.append_cancel_left hcontents
    exact absurd (List.cons.inj hheads).1 hne
  · exact hcol

/-- the order the heads come in does not show -/
def OrderIndependent (kind : RootKind) (computedAt : OffsetDateTime) (knownShardIds : List String)
    (shards : List ShardTreeHead) : Prop :=
  ∀ shards' : List ShardTreeHead, shards.Perm shards' →
    rootHash kind computedAt knownShardIds shards = rootHash kind computedAt knownShardIds shards'

/-- **The roots commit to the set of heads.** When the heads of each shard agree, every order of the list gives the same
root. When two heads of one shard differ, two orders give different roots, or their trees hash an explicit collision. And
lists with the same root, no length of which is cut, are of one kind and owner and hold, up to order, the same heads, or
their trees hash an explicit collision. -/
theorem roots_commit_to_heads (kind kind' : RootKind) (at₁ at₂ : OffsetDateTime) (known known' : List String)
    (l l' : List ShardTreeHead) :
    (Consistent (committed kind l) → OrderIndependent kind at₁ known l) ∧
    (Encodable kind l → OrderIndependent kind at₁ known l → ¬ Consistent (committed kind l) →
      ∃ l₁ l₂, l.Perm l₁ ∧ l.Perm l₂ ∧ CollisionIn treeAlgo.digest (hashed kind l₁ ++ hashed kind l₂)) ∧
    (Encodable kind l → Encodable kind' l' → rootHash kind at₁ known l = rootHash kind' at₂ known' l' →
      (kind = kind' ∧ ((committed kind l).map content).Perm ((committed kind' l').map content)) ∨
      CollisionIn treeAlgo.digest (hashed kind l ++ hashed kind' l')) := by
  refine ⟨?_, ?_, ?_⟩
  · intro hconsistent shards' hperm
    exact rootHash_inj.2 (root_of_reordering hconsistent hperm)
  · intro he hindependent hconsistent
    obtain ⟨l₁, l₂, h₁, h₂, hcollision⟩ := orders_of_inconsistent he hconsistent
    have hroots := (rootHash_inj.1 (hindependent l₁ h₁)).symm.trans (rootHash_inj.1 (hindependent l₂ h₂))
    exact ⟨l₁, l₂, h₁, h₂, hcollision hroots⟩
  · intro he he' hroot
    rcases heads_of_root he he' (rootHash_inj.1 hroot) with ⟨hkind, hcontents⟩ | hcol
    · refine Or.inl ⟨hkind, ?_⟩
      have hordered := (canonicalOrder_perm (committed kind l)).map content
      have hordered' := (canonicalOrder_perm (committed kind' l')).map content
      exact hordered.symm.trans (hcontents ▸ hordered')
    · exact Or.inr hcol

/-- a head of the core shard -/
def coreHead (treeSize : Int64) : ShardTreeHead :=
  ⟨"core", ⟨treeSize, "aa", "avalon-test", "k1", "deadbeef", 0, .current .settlementSth⟩⟩

/-- a head of a game's shard -/
def gameHead : ShardTreeHead :=
  ⟨"game:wow/2", ⟨3, "bb", "avalon-test", "k2", "cafe", 0, .current .settlementSth⟩⟩

theorem encodable_twoHeads : Encodable .network [coreHead 5, gameHead] := by
  have hshort : ∀ s ∈ [coreHead 5, gameHead], (utf8 s.shardId).length < 100 ∧ (utf8 s.sth.rootHash).length < 100 ∧
      (utf8 s.sth.signingKeyId).length < 100 ∧ (utf8 s.sth.signature).length < 100 := by decide +kernel
  constructor
  · intro owner h
    cases h
  · exact fun s hs => (hshort s hs).1.trans (by norm_num)
  · exact fun s hs => (hshort s hs).2.1.trans (by norm_num)
  · exact fun s hs => (hshort s hs).2.2.1.trans (by norm_num)
  · exact fun s hs => (hshort s hs).2.2.2.trans (by norm_num)

/-- two shards in the two orders: one root, and what equal roots of the two lists say -/
theorem roots_of_two_shards :
    rootHash .network 0 [] [coreHead 5, gameHead] = rootHash .network 0 [] [gameHead, coreHead 5] ∧
    ((RootKind.network = .network ∧ ([coreHead 5, gameHead].map content).Perm ([gameHead, coreHead 5].map content)) ∨
      CollisionIn treeAlgo.digest (hashed .network [coreHead 5, gameHead] ++ hashed .network [gameHead, coreHead 5])) := by
  have he := encodable_twoHeads
  have hconsistent : Consistent [coreHead 5, gameHead] := by
    intro a ha b hb
    revert a b
    decide +kernel
  have hswap : [coreHead 5, gameHead].Perm [gameHead, coreHead 5] := List.Perm.swap ..
  obtain ⟨hindependent, -, hpinned⟩ := roots_commit_to_heads .network .network 0 0 [] [] [coreHead 5, gameHead]
    [gameHead, coreHead 5]
  have hroot := hindependent hconsistent _ hswap
  exact ⟨hroot, hpinned he (he.perm hswap) hroot⟩

/-- two heads of one shard, in the two orders, give two roots -/
theorem roots_of_two_orders :
    [coreHead 5, coreHead 6].Perm [coreHead 6, coreHead 5] ∧
    (computeCrossShardRoot [coreHead 5, coreHead 6] 0).rootHash ≠
      (computeCrossShardRoot [coreHead 6, coreHead 5] 0).rootHash := by
  refine ⟨List.Perm.swap .., ?_⟩
  decide +kernel

end Avalon.CrossShard
