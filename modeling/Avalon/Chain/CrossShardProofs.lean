/-
Membership proofs under a cross-shard or family root (`crates/chain/src/cross_shard.rs`): a head's audit path in the tree
over all heads, or over the heads of one owner.

The index and the size of the tree are the prover's word: the verifier knows the root only. `verifyInclusionProof_member`
says what acceptance means whatever they are. The leaf is an encoding of a head, so acceptance means membership where no
listed head is encoded as the presented one without being it (`Unambiguous`): lengths are cut to four bytes.

Results: `membership_proofs`, and `cut_head_accepted` for two heads of 2^32 bytes with one encoding.
-/
import Mathlib.Tactic
import Avalon.Core.Bytes
import Avalon.Core.Collision
import Avalon.Chain.CrossShard

namespace Avalon.Merkle

open Avalon.SigningBytes Collision CrossShard

variable {algo : HashAlgo} {S : List Bytes}

/-! ## What an accepted proof says, for any index and size -/

/-- the last hash of a path is a node's unless the claimed tree is a leaf -/
theorem verifyPath_member {n : ℕ} (hn : 1 ≤ n) (l : List Bytes) (m : ℕ) (data : Bytes) (proof : List Hash)
    (hl : mthInputs algo l ⊆ S) (hdata : leafInput data ∈ S)
    (hv : verifyPathInputs algo m n (leafHash algo data) proof ⊆ S)
    (h : verifyPath algo m n (leafHash algo data) proof = some (mth algo l)) :
    data ∈ l ∨ CollisionIn algo.digest S := by
  induction n, hn using pow2_induction generalizing l m proof with
  | one =>
    rw [verifyPath_one] at h
    split_ifs at h
    have hroot := Option.some.inj h
    by_cases hone : l.length = 1
    · obtain ⟨d, rfl⟩ := List.length_eq_one_iff.1 hone
      rw [mthInputs_singleton] at hl
      rw [mth_singleton] at hroot
      rcases leaf_inj_or hdata (hl (by simp)) hroot with rfl | hcol
      · exact Or.inl (by simp)
      · exact Or.inr hcol
    · refine Or.inr (root_ne_or hl hdata ?_ hroot.symm)
      rcases l with _ | ⟨a, _ | ⟨b, rest⟩⟩
      · simp [rootTag, leafInput]
      · exact absurd rfl hone
      · simp [rootTag, leafInput, leafHashPrefix, nodeHashPrefix]
  | split n hn ihl ihr =>
    rw [← splitPoint_eq] at ihl ihr
    rcases List.eq_nil_or_concat' proof with rfl | ⟨rest, last, rfl⟩
    · rw [verifyPath_nil algo m _ hn] at h
      cases h
    rw [verifyPath_concat algo m _ last rest hn] at h
    rw [verifyPathInputs_concat algo m _ last rest hn] at hv
    -- a node against the root of l: its children are the two sides of l, or l is too short to have any
    have hnode : ∀ a b, nodeInput a b ∈ S → nodeHash algo a b = mth algo l →
        (2 ≤ l.length ∧ a = mth algo (l.take (splitPoint l.length)) ∧ b = mth algo (l.drop (splitPoint l.length))) ∨
          CollisionIn algo.digest S := by
      intro a b hab hroot
      by_cases h2 : 2 ≤ l.length
      · rw [mth_split algo l h2] at hroot
        rw [mthInputs_split algo l h2, List.cons_subset] at hl
        rcases node_inj_or hab hl.1 hroot with hsides | hcol
        · exact Or.inl ⟨h2, hsides⟩
        · exact Or.inr hcol
      · refine Or.inr (root_ne_or hl hab ?_ hroot.symm)
        rcases l with _ | ⟨a, _ | ⟨b, rest⟩⟩
        · simp [rootTag, nodeInput]
        · simp [rootTag, nodeInput, leafHashPrefix, nodeHashPrefix]
        · simp at h2
    have hside : 2 ≤ l.length → mthInputs algo (l.take (splitPoint l.length)) ⊆ S ∧
        mthInputs algo (l.drop (splitPoint l.length)) ⊆ S := by
      intro h2
      rw [mthInputs_split algo l h2, List.cons_subset, List.append_subset] at hl
      exact hl.2
    split_ifs at h hv with hmk
    · obtain ⟨left, hleft, hroot⟩ := Option.map_eq_some_iff.1 h
      rw [hleft, Option.map_some, Option.toList_some, List.singleton_append, List.cons_subset] at hv
      rcases hnode left last hv.1 hroot with ⟨h2, rfl, -⟩ | hcol
      · exact (ihl _ m rest (hside h2).1 hv.2 hleft).imp_left List.mem_of_mem_take
      · exact Or.inr hcol
    · obtain ⟨right, hright, hroot⟩ := Option.map_eq_some_iff.1 h
      rw [hright, Option.map_some, Option.toList_some, List.singleton_append, List.cons_subset] at hv
      rcases hnode last right hv.1 hroot with ⟨h2, -, rfl⟩ | hcol
      · exact (ihr _ _ rest (hside h2).2 hv.2 hright).imp_left List.mem_of_mem_drop
      · exact Or.inr hcol

/-- what a verifier digests -/
def verifyInputs (algo : HashAlgo) (data : Bytes) (leafIndex treeSize : ℕ) (proof : List Hash) : List Bytes :=
  leafInput data :: verifyPathInputs algo leafIndex treeSize (leafHash algo data) proof

theorem verifyPath_of_accepted {data : Bytes} {i n : ℕ} {proof : List Hash} {root : Hash}
    (h : verifyInclusionProof algo data i n proof root = true) :
    1 ≤ n ∧ verifyPath algo i n (leafHash algo data) proof = some root := by
  rw [verifyInclusionProof] at h
  split_ifs at h with hge
  refine ⟨by omega, ?_⟩
  split at h
  · rename_i r hr
    rw [hr, beq_iff_eq.1 h]
  · cases h

/-- **An accepted proof is of a leaf**, at whatever index and size it claims, or there is a collision -/
theorem verifyInclusionProof_member {data : Bytes} {i n : ℕ} {proof : List Hash} {l : List Bytes}
    (h : verifyInclusionProof algo data i n proof (mth algo l) = true) :
    data ∈ l ∨ CollisionIn algo.digest (mthInputs algo l ++ verifyInputs algo data i n proof) := by
  obtain ⟨hn, hpath⟩ := verifyPath_of_accepted h
  apply verifyPath_member hn l i data proof
  · exact List.subset_append_left _ _
  · exact List.mem_append_right _ (List.mem_cons_self ..)
  · exact fun x hx => List.mem_append_right _ (List.mem_cons_of_mem _ hx)
  · exact hpath

/-- the last string a path digests starts with a leaf's or a node's mark -/
theorem verifyPath_digest {n : ℕ} (hn : 1 ≤ n) {m : ℕ} {data : Bytes} {proof : List Hash} {root : Hash}
    (h : verifyPath algo m n (leafHash algo data) proof = some root) :
    ∃ x ∈ verifyInputs algo data m n proof, root = algo.digest x ∧
      (x.head? = some leafHashPrefix ∨ x.head? = some nodeHashPrefix) := by
  rcases (show n = 1 ∨ 2 ≤ n by omega) with rfl | h2
  · rw [verifyPath_one] at h
    split_ifs at h
    exact ⟨leafInput data, List.mem_cons_self .., (Option.some.inj h).symm, Or.inl rfl⟩
  · rcases List.eq_nil_or_concat' proof with rfl | ⟨rest, last, rfl⟩
    · rw [verifyPath_nil algo m _ h2] at h
      cases h
    rw [verifyPath_concat algo m _ last rest h2] at h
    rw [verifyInputs, verifyPathInputs_concat algo m _ last rest h2]
    split_ifs at h ⊢ with hmk
    · obtain ⟨left, hleft, rfl⟩ := Option.map_eq_some_iff.1 h
      exact ⟨nodeInput left last, by simp [hleft], rfl, Or.inr rfl⟩
    · obtain ⟨right, hright, rfl⟩ := Option.map_eq_some_iff.1 h
      exact ⟨nodeInput last right, by simp [hright], rfl, Or.inr rfl⟩

theorem leafInput_mem_mthInputs (l : List Bytes) {data : Bytes} (h : data ∈ l) : leafInput data ∈ mthInputs algo l := by
  fun_induction mthInputs algo l with
  | case1 => cases h
  | case2 d => rw [List.mem_singleton.1 h]; exact List.mem_singleton_self _
  | case3 d0 d1 rest k left right ihl ihr =>
    rw [← List.take_append_drop k (d0 :: d1 :: rest), List.mem_append] at h
    apply List.mem_cons_of_mem
    rw [List.mem_append]
    exact h.imp ihl ihr

/-- the honest path digests nothing that the tree does not -/
theorem verifyPathInputs_path {n : ℕ} (hn : 1 ≤ n) (l : List Bytes) (i : ℕ) (hl : l.length = n) (hi : i < l.length) :
    verifyPathInputs algo i n (leafHash algo l[i]) (path algo i l) ⊆ mthInputs algo l := by
  induction n, hn using pow2_induction generalizing l i with
  | one =>
    unfold verifyPathInputs
    simp
  | split n hn ihl ihr =>
    have hk := splitPoint_lt (n := n) (by omega)
    rw [← splitPoint_eq] at ihl ihr
    rw [path_split algo i (by omega), mthInputs_split algo l (by omega), hl]
    split_ifs with hmk
    · have hpath := verifyPath_path algo _ (splitPoint_pos n) (l.take (splitPoint n)) i (by simp; omega) (by simp; omega)
      have ih := ihl (l.take (splitPoint n)) i (by simp; omega) (by simp; omega)
      simp only [List.getElem_take] at ih hpath
      rw [verifyPathInputs_concat algo i _ _ _ hn, if_pos hmk, hpath]
      exact List.cons_subset_cons _ (List.Subset.trans ih (List.subset_append_left _ _))
    · have hpath := verifyPath_path algo (n - splitPoint n) (by omega) (l.drop (splitPoint n)) (i - splitPoint n)
        (by simp; omega) (by simp; omega)
      have ih := ihr (l.drop (splitPoint n)) (i - splitPoint n) (by simp; omega) (by simp; omega)
      simp only [List.getElem_drop, Nat.add_sub_cancel' (not_lt.1 hmk)] at ih hpath
      rw [verifyPathInputs_concat algo i _ _ _ hn, if_neg hmk, hpath]
      exact List.cons_subset_cons _ (List.Subset.trans ih (List.subset_append_right _ _))

end Avalon.Merkle

namespace Avalon.CrossShard

open Avalon.SigningBytes Avalon.LedgerEntry Avalon.Sth Merkle Shard Collision

/-! ## Model -/

/-- none when the list has no head of the shard -/
def inclusionProofForShard (shards : List ShardTreeHead) (shardId : String) : Option (Except String (List Hash)) :=
  let ordered := canonicalOrder shards
  (ordered.findIdx? fun s => s.shardId == shardId).map fun index =>
    inclusionProof treeAlgo index (ordered.map fun s => shardLeafBytes s.shardId s.sth)

/-- the text of the hex error is the codec's -/
inductive RootHashError where
  | hex
  | length
deriving DecidableEq, Repr

def decodeRootHash (rootHash : String) : Except RootHashError Hash :=
  match hexDecode rootHash with
  | none => .error .hex
  | some rootBytes =>
    match FixedBytes.ofList? 32 rootBytes with
    | none => .error .length
    | some root => .ok root

def verifyShardInclusion (rootHash : String) (treeSize leafIndex : ℕ) (shardId : String) (sth : SignedTreeHead)
    (proof : List Hash) : Except RootHashError Bool :=
  (decodeRootHash rootHash).map fun root =>
    verifyInclusionProof treeAlgo (shardLeafBytes shardId sth) leafIndex treeSize proof root

structure FamilyInclusionProof where
  leafIndex : ℕ
  treeSize : ℕ
  path : List Hash

def familyInclusionProof (owner : String) (shards : List ShardTreeHead) (shardId : String) :
    Option (Except String FamilyInclusionProof) :=
  let members := familyMembers owner shards
  (members.findIdx? fun s => s.shardId == shardId).map fun leafIndex =>
    let leaves := familyLeaves owner members
    (inclusionProof treeAlgo leafIndex leaves).map fun path => ⟨leafIndex, leaves.length, path⟩

def verifyFamilyInclusion (owner rootHash : String) (proof : FamilyInclusionProof) (shardId : String)
    (sth : SignedTreeHead) : Except RootHashError Bool :=
  if !isFamilyMember owner shardId then .ok false
  else
    (decodeRootHash rootHash).map fun root =>
      verifyInclusionProof treeAlgo (familyLeafBytes owner shardId sth) proof.leafIndex proof.treeSize proof.path root

/-! ## Acceptance -/

/-- the verifier of a kind of root accepts -/
def Accepts (kind : RootKind) (rootHash : String) (proof : FamilyInclusionProof) (s : ShardTreeHead) : Prop :=
  match kind with
  | .network => verifyShardInclusion rootHash proof.treeSize proof.leafIndex s.shardId s.sth proof.path = .ok true
  | .family owner => verifyFamilyInclusion owner rootHash proof s.shardId s.sth = .ok true

/-- the verifier takes heads of this shard -/
def Admits (kind : RootKind) (shardId : String) : Prop := ∀ owner, kind = .family owner → isFamilyMember owner shardId = true

theorem decodeRootHash_hexEncode (root : Hash) : decodeRootHash (hexEncode root.toList) = .ok root := by
  rw [decodeRootHash, hexDecode_hexEncode]
  dsimp only
  rw [FixedBytes.ofList?_toList]

theorem accepts_iff {kind kind' : RootKind} {at₁ : OffsetDateTime} {known : List String} {shards : List ShardTreeHead}
    {proof : FamilyInclusionProof} {s : ShardTreeHead} :
    Accepts kind (rootHash kind' at₁ known shards) proof s ↔ Admits kind s.shardId ∧
      verifyInclusionProof treeAlgo (leafBytes kind s) proof.leafIndex proof.treeSize proof.path (root kind' shards) = true := by
  rw [rootHash_eq]
  cases kind with
  | network =>
    simp only [Accepts, verifyShardInclusion, decodeRootHash_hexEncode, Admits, reduceCtorEq, IsEmpty.forall_iff,
      implies_true, true_and]
    exact ⟨fun h => Except.ok.inj h, fun h => congrArg Except.ok h⟩
  | family owner =>
    have hadmits : Admits (.family owner) s.shardId ↔ isFamilyMember owner s.shardId = true :=
      ⟨fun h => h owner rfl, fun h owner' heq => RootKind.family.inj heq ▸ h⟩
    rw [hadmits]
    by_cases hmember : isFamilyMember owner s.shardId = true
    · simp only [Accepts, verifyFamilyInclusion, hmember, decodeRootHash_hexEncode, Bool.not_true, Bool.false_eq_true,
        if_false, true_and]
      exact ⟨fun h => Except.ok.inj h, fun h => congrArg Except.ok h⟩
    · simp only [Accepts, verifyFamilyInclusion, hmember, Bool.not_false, if_true, Bool.false_eq_true, false_and,
        Except.ok.injEq]

/-- the list holds the head, under a root of this kind -/
def Held (kind kind' : RootKind) (shards : List ShardTreeHead) (s : ShardTreeHead) : Prop :=
  kind = kind' ∧ (∃ t ∈ shards, content t = content s) ∧
    ∀ owner, kind' = .family owner → shardFamilyOwner s.shardId = some owner

/-- whatever is accepted is held, or the strings digested by the list's tree and by the verifier collide -/
def Sound (kind kind' : RootKind) (at₁ : OffsetDateTime) (known : List String) (shards : List ShardTreeHead)
    (s : ShardTreeHead) : Prop :=
  ∀ proof, Accepts kind (rootHash kind' at₁ known shards) proof s → Held kind kind' shards s ∨
    CollisionIn treeAlgo.digest (hashed kind' shards ++
      verifyInputs treeAlgo (leafBytes kind s) proof.leafIndex proof.treeSize proof.path)

/-- where a listed head has the leaf of s, s is listed -/
def Unambiguous (kind kind' : RootKind) (shards : List ShardTreeHead) (s : ShardTreeHead) : Prop :=
  Admits kind s.shardId → ∀ t ∈ committed kind' shards, leafBytes kind' t = leafBytes kind s →
    kind = kind' ∧ ∃ t' ∈ committed kind' shards, content t' = content s

theorem mem_committed {kind : RootKind} {shards : List ShardTreeHead} {s : ShardTreeHead} :
    s ∈ committed kind shards ↔ s ∈ shards ∧ Admits kind s.shardId := by
  cases kind with
  | network => simp [committed, Admits]
  | family owner => simp [committed, Admits]

theorem mem_leaves {kind : RootKind} {shards : List ShardTreeHead} {leaf : Bytes} :
    leaf ∈ leaves kind shards ↔ ∃ t ∈ committed kind shards, leafBytes kind t = leaf := by
  simp only [leaves, List.mem_map, mem_canonicalOrder]

theorem admits_family_iff {owner shardId : String} :
    Admits (.family owner) shardId ↔ shardFamilyOwner shardId = some owner := by
  simp [Admits, isFamilyMember, Option.any_eq_true]

/-- a committed head that agrees with s has s held -/
theorem held_of_mem {kind : RootKind} {shards : List ShardTreeHead} {s t : ShardTreeHead} (ht : t ∈ committed kind shards)
    (h : content t = content s) : Held kind kind shards s := by
  obtain ⟨hmem, hadmits⟩ := mem_committed.1 ht
  refine ⟨rfl, ⟨t, hmem, h⟩, ?_⟩
  rintro owner rfl
  have hid : t.shardId = s.shardId := congrArg Prod.fst h
  rw [← hid]
  exact admits_family_iff.1 hadmits

/-- acceptance against a root means that the leaf is in its tree, or there is a collision -/
theorem leaf_of_accepted {kind' : RootKind} {shards : List ShardTreeHead} {data : Bytes} {i n : ℕ} {path : List Hash}
    (h : verifyInclusionProof treeAlgo data i n path (root kind' shards) = true) :
    data ∈ leaves kind' shards ∨ CollisionIn treeAlgo.digest (hashed kind' shards ++ verifyInputs treeAlgo data i n path) := by
  rcases root_cases kind' shards with ⟨hroot, hhashed, -⟩ | ⟨owner, rfl, -, hroot, hhashed⟩
  · rw [hroot] at h
    rw [hhashed]
    exact verifyInclusionProof_member h
  · -- the message of an empty family starts with its tag, and no string of a verifier does
    obtain ⟨hn, hpath⟩ := verifyPath_of_accepted h
    obtain ⟨x, hx, hdigest, hhead⟩ := verifyPath_digest hn hpath
    rw [hroot] at hdigest
    rw [hhashed]
    refine Or.inr ⟨_, List.mem_append_left _ (List.mem_singleton_self _), x, List.mem_append_right _ hx, ?_, hdigest⟩
    rintro rfl
    rcases hhead with hleaf | hnode
    · exact head_familyEmptyMessage owner 1 hleaf
    · exact head_familyEmptyMessage owner 2 hnode

/-- every leaf has a proof that is accepted and digests nothing that the tree does not -/
theorem proof_of_leaf {kind' : RootKind} {shards : List ShardTreeHead} {data : Bytes} (h : data ∈ leaves kind' shards) :
    ∃ proof : FamilyInclusionProof,
      verifyInclusionProof treeAlgo data proof.leafIndex proof.treeSize proof.path (root kind' shards) = true ∧
        verifyInputs treeAlgo data proof.leafIndex proof.treeSize proof.path ⊆ hashed kind' shards := by
  rcases root_cases kind' shards with ⟨hroot, hhashed, -⟩ | ⟨owner, rfl, hnil, -⟩
  · obtain ⟨i, hi, rfl⟩ := List.getElem_of_mem h
    refine ⟨⟨i, (leaves kind' shards).length, path treeAlgo i (leaves kind' shards)⟩, ?_⟩
    rw [hroot, hhashed]
    refine ⟨verifyInclusionProof_path treeAlgo _ i hi, List.cons_subset.2 ⟨?_, ?_⟩⟩
    · exact leafInput_mem_mthInputs _ h
    · exact verifyPathInputs_path (by omega) _ i rfl hi
  · rw [hnil] at h
    cases h

/-- **When acceptance means membership**: exactly when no other listed head has the presented head's leaf, or the list's
own tree digests a collision -/
theorem sound_iff {kind kind' : RootKind} {at₁ : OffsetDateTime} {known : List String} {shards : List ShardTreeHead}
    {s : ShardTreeHead} :
    Sound kind kind' at₁ known shards s ↔
      Unambiguous kind kind' shards s ∨ CollisionIn treeAlgo.digest (hashed kind' shards) := by
  constructor
  · intro hsound
    by_contra hneither
    rw [not_or, Unambiguous] at hneither
    obtain ⟨hambiguous, hno⟩ := hneither
    apply hambiguous
    intro hadmits t ht hleaf
    obtain ⟨proof, haccepted, hinputs⟩ := proof_of_leaf (mem_leaves.2 ⟨t, ht, hleaf⟩)
    rcases hsound proof (accepts_iff.2 ⟨hadmits, haccepted⟩) with ⟨hkind, ⟨t', ht', heq⟩, howner⟩ | ⟨x, hx, y, hy, hxy⟩
    · refine ⟨hkind, t', mem_committed.2 ⟨ht', ?_⟩, heq⟩
      rw [show t'.shardId = s.shardId from congrArg Prod.fst heq, ← hkind]
      exact hadmits
    · -- the honest proof digests what the tree does
      have hsub : hashed kind' shards ++ verifyInputs treeAlgo (leafBytes kind s) proof.leafIndex proof.treeSize proof.path ⊆
          hashed kind' shards := List.append_subset.2 ⟨List.Subset.refl _, hinputs⟩
      exact (hno ⟨x, hsub hx, y, hsub hy, hxy⟩).elim
  · rintro (hunambiguous | ⟨x, hx, y, hy, hxy⟩) proof haccepts
    · obtain ⟨hadmits, haccepted⟩ := accepts_iff.1 haccepts
      rcases leaf_of_accepted haccepted with hleaf | hcol
      · obtain ⟨t, ht, hleaf⟩ := mem_leaves.1 hleaf
        obtain ⟨rfl, t', ht', heq⟩ := hunambiguous hadmits t ht hleaf
        exact Or.inl (held_of_mem ht' heq)
      · exact Or.inr hcol
    · exact Or.inr ⟨x, List.mem_append_left _ hx, y, List.mem_append_left _ hy, hxy⟩

/-- no length is cut: a leaf has one reading -/
theorem unambiguous_of_short {kind kind' : RootKind} {shards : List ShardTreeHead} {s : ShardTreeHead}
    (he : Encodable kind' shards) (hs : ShortHead s) (howner : ∀ owner, kind = .family owner → Short owner) :
    Unambiguous kind kind' shards s := by
  intro _ t ht hleaf
  obtain ⟨hkind, hcontent⟩ := leafBytes_injective (he.head ht) hs he.owner howner hleaf
  exact ⟨hkind.symm, t, ht, hcontent⟩

/-! ## Proofs of members -/

/-- place in shard id order -/
def rank (shards : List ShardTreeHead) (shardId : String) : ℕ := (shards.filter fun t => t.shardId < shardId).length

/-- in an order without repetition, a head stands at its rank -/
theorem rank_of_sorted {l : List ShardTreeHead} (hsorted : l.Pairwise fun a b => a.shardId < b.shardId) {i : ℕ}
    (hi : i < l.length) : rank l l[i].shardId = i := by
  induction l generalizing i with
  | nil => simp at hi
  | cons a l ih =>
    obtain ⟨hfirst, hrest⟩ := List.pairwise_cons.1 hsorted
    cases i with
    | zero =>
      rw [List.getElem_cons_zero, rank, List.filter_cons_of_neg (by rw [decide_eq_true_eq]; exact lt_irrefl _), List.length_eq_zero_iff, List.filter_eq_nil_iff]
      intro t ht
      rw [decide_eq_true_eq]
      exact (hfirst t ht).le.not_gt
    | succ i =>
      rw [List.length_cons] at hi
      have ha : a.shardId < l[i].shardId := hfirst _ (List.getElem_mem _)
      rw [List.getElem_cons_succ, rank, List.filter_cons_of_pos (by exact decide_eq_true ha), List.length_cons]
      exact congrArg (· + 1) (ih hrest (by omega))

theorem rank_perm {l l' : List ShardTreeHead} (h : l.Perm l') (shardId : String) : rank l shardId = rank l' shardId :=
  (h.filter _).length_eq

/-- heads of different shards -/
def DistinctShards (shards : List ShardTreeHead) : Prop := (shards.map (·.shardId)).Nodup

theorem canonicalOrder_strict {shards : List ShardTreeHead} (h : DistinctShards shards) :
    (canonicalOrder shards).Pairwise fun a b => a.shardId < b.shardId := by
  have hdistinct : (canonicalOrder shards).Pairwise fun a b => a.shardId ≠ b.shardId :=
    List.pairwise_map.1 (((canonicalOrder_perm shards).map _).nodup_iff.2 h)
  exact (canonicalOrder_sorted shards).imp₂ (fun _ _ hle hne => lt_of_le_of_ne hle hne) hdistinct

/-- a listed head is found at its rank -/
theorem findIdx?_canonicalOrder {shards : List ShardTreeHead} (h : DistinctShards shards) {s : ShardTreeHead}
    (hs : s ∈ shards) : ∃ hi : rank shards s.shardId < (canonicalOrder shards).length,
      (canonicalOrder shards)[rank shards s.shardId] = s ∧
        (canonicalOrder shards).findIdx? (fun t => t.shardId == s.shardId) = some (rank shards s.shardId) := by
  have hstrict := canonicalOrder_strict h
  obtain ⟨i, hi, rfl⟩ := List.getElem_of_mem (mem_canonicalOrder.2 hs)
  have hrank : rank shards (canonicalOrder shards)[i].shardId = i := by
    rw [← rank_perm (canonicalOrder_perm shards), rank_of_sorted hstrict hi]
  simp only [hrank]
  refine ⟨hi, trivial, List.findIdx?_eq_some_iff_getElem.2 ⟨hi, by simp, fun j hji => ?_⟩⟩
  have hlt := List.pairwise_iff_getElem.1 hstrict j i (by omega) hi hji
  simpa using hlt.ne

/-- the tree over the ordered heads, whatever their leaves are, has the proof of a listed head at its rank -/
theorem proof_at_rank {shards : List ShardTreeHead} (h : DistinctShards shards) (leaf : ShardTreeHead → Bytes)
    {s : ShardTreeHead} (hs : s ∈ shards) :
    ∃ path, inclusionProof treeAlgo (rank shards s.shardId) ((canonicalOrder shards).map leaf) = .ok path ∧
      verifyInclusionProof treeAlgo (leaf s) (rank shards s.shardId) (canonicalOrder shards).length path
        (mth treeAlgo ((canonicalOrder shards).map leaf)) = true := by
  obtain ⟨hi, hget, -⟩ := findIdx?_canonicalOrder h hs
  obtain ⟨path, hpath, hverify⟩ := inclusion_complete treeAlgo ((canonicalOrder shards).map leaf) (rank shards s.shardId)
    (by rwa [List.length_map])
  rw [List.getElem_map, hget, List.length_map] at hverify
  exact ⟨path, hpath, hverify⟩

/-- the network's proof of a listed head -/
theorem shard_proof_accepted {shards : List ShardTreeHead} (h : DistinctShards shards) (at₁ : OffsetDateTime)
    {s : ShardTreeHead} (hs : s ∈ shards) : ∃ proof, inclusionProofForShard shards s.shardId = some (.ok proof) ∧
      verifyShardInclusion (computeCrossShardRoot shards at₁).rootHash (computeCrossShardRoot shards at₁).shardCount
        (rank shards s.shardId) s.shardId s.sth proof = .ok true := by
  obtain ⟨-, -, hfind⟩ := findIdx?_canonicalOrder h hs
  obtain ⟨path, hpath, hverify⟩ := proof_at_rank h (fun t => shardLeafBytes t.shardId t.sth) hs
  refine ⟨path, ?_, ?_⟩
  · rw [inclusionProofForShard, hfind, Option.map_some, hpath]
  · rw [verifyShardInclusion, computeCrossShardRoot]
    dsimp only
    rw [decodeRootHash_hexEncode, Except.map, hverify]

/-- the family's proof of a member -/
theorem family_proof_accepted {shards : List ShardTreeHead} (h : DistinctShards shards) (known : List String)
    {owner : String} {s : ShardTreeHead} (hs : s ∈ shards) (hmember : isFamilyMember owner s.shardId = true) :
    ∃ proof, familyInclusionProof owner shards s.shardId = some (.ok proof) ∧
      verifyFamilyInclusion owner (computeShardFamilyHead owner known shards).rootHash proof s.shardId s.sth = .ok true := by
  have hmembers : DistinctShards (shards.filter fun t => isFamilyMember owner t.shardId) :=
    h.sublist (List.filter_sublist.map _)
  have hs' : s ∈ shards.filter fun t => isFamilyMember owner t.shardId := List.mem_filter.2 ⟨hs, hmember⟩
  obtain ⟨-, -, hfind⟩ := findIdx?_canonicalOrder hmembers hs'
  obtain ⟨path, hpath, hverify⟩ := proof_at_rank hmembers (fun t => familyLeafBytes owner t.shardId t.sth) hs'
  have hnonempty : (familyMembers owner shards).isEmpty = false := by
    rw [List.isEmpty_eq_false_iff]
    exact List.ne_nil_of_mem (mem_canonicalOrder.2 hs')
  refine ⟨⟨rank (shards.filter fun t => isFamilyMember owner t.shardId) s.shardId,
    (familyLeaves owner (familyMembers owner shards)).length, path⟩, ?_, ?_⟩
  · rw [familyInclusionProof, familyMembers, hfind, Option.map_some]
    dsimp only
    rw [familyLeaves, hpath]
    rfl
  · rw [verifyFamilyInclusion, hmember, computeShardFamilyHead]
    dsimp only
    rw [hnonempty]
    simp only [Bool.not_true, Bool.false_eq_true, if_false]
    rw [decodeRootHash_hexEncode, Except.map, familyLeaves, List.length_map, familyMembers, hverify]

/-- **Membership proofs.** With heads of different shards, every head's proof is made and accepted at its rank, and every
member's under its owner's root. Conversely, for every list, kind of verifier, kind of root and presented head: acceptance,
whatever the proof, index and size, means that the head is listed, under the root's kind and owner, or that the digested
strings collide, if and only if s is listed where a listed head has its leaf or the tree itself digests a collision. The
first holds where no length is cut. -/
theorem membership_proofs (at₁ : OffsetDateTime) (known : List String) (shards : List ShardTreeHead) :
    (DistinctShards shards → ∀ s ∈ shards,
      (∃ proof, inclusionProofForShard shards s.shardId = some (.ok proof) ∧
        verifyShardInclusion (computeCrossShardRoot shards at₁).rootHash (computeCrossShardRoot shards at₁).shardCount
          (rank shards s.shardId) s.shardId s.sth proof = .ok true) ∧
      ∀ owner, isFamilyMember owner s.shardId = true →
        ∃ proof, familyInclusionProof owner shards s.shardId = some (.ok proof) ∧
          verifyFamilyInclusion owner (computeShardFamilyHead owner known shards).rootHash proof s.shardId s.sth =
            .ok true) ∧
    (∀ kind kind' s, Sound kind kind' at₁ known shards s ↔
      Unambiguous kind kind' shards s ∨ CollisionIn treeAlgo.digest (hashed kind' shards)) ∧
    ∀ kind kind' s, Encodable kind' shards → ShortHead s → (∀ owner, kind = .family owner → Short owner) →
      Unambiguous kind kind' shards s := by
  refine ⟨fun h s hs => ⟨shard_proof_accepted h at₁ hs, fun owner hmember => family_proof_accepted h known hs hmember⟩, ?_, ?_⟩
  · exact fun kind kind' s => sound_iff
  · exact fun kind kind' s => unambiguous_of_short

/-- the proofs of a game's head beside the core's, under both roots, and no proof of another head of the core -/
theorem membership_proofs_two_heads :
    (∃ proof, inclusionProofForShard [coreHead 5, gameHead] gameHead.shardId = some (.ok proof) ∧
      verifyShardInclusion (computeCrossShardRoot [coreHead 5, gameHead] 0).rootHash 2 1 gameHead.shardId gameHead.sth proof =
        .ok true) ∧
    (∃ proof, familyInclusionProof "game:wow" [coreHead 5, gameHead] gameHead.shardId = some (.ok proof) ∧
      verifyFamilyInclusion "game:wow" (computeShardFamilyHead "game:wow" [] [coreHead 5, gameHead]).rootHash proof gameHead.shardId
        gameHead.sth = .ok true) ∧
    ∀ proof, Accepts .network (rootHash .network 0 [] [coreHead 5, gameHead]) proof (coreHead 6) →
      CollisionIn treeAlgo.digest (hashed .network [coreHead 5, gameHead] ++
        verifyInputs treeAlgo (leafBytes .network (coreHead 6)) proof.leafIndex proof.treeSize proof.path) := by
  obtain ⟨hmade, hsound, hshort⟩ := membership_proofs 0 [] [coreHead 5, gameHead]
  have hdistinct : DistinctShards [coreHead 5, gameHead] := by
    unfold DistinctShards
    decide +kernel
  obtain ⟨hnetwork, hfamily⟩ := hmade hdistinct gameHead (by simp)
  have hrank : rank [coreHead 5, gameHead] gameHead.shardId = 1 := by decide +kernel
  rw [hrank] at hnetwork
  refine ⟨hnetwork, hfamily "game:wow" (by decide +kernel), fun proof haccepts => ?_⟩
  -- the two heads of the core differ in the size only
  have hcore : ShortHead (coreHead 5) := encodable_twoHeads.head (by simp [committed])
  have hother : ShortHead (coreHead 6) := ⟨hcore.shardId, hcore.rootHash, hcore.signingKeyId, hcore.signature⟩
  have hunambiguous := hshort .network .network (coreHead 6) encodable_twoHeads hother (fun owner h => by cases h)
  rcases (hsound .network .network (coreHead 6)).2 (.inl hunambiguous) proof haccepts with ⟨-, ⟨t, ht, hcontent⟩, -⟩ | hcollision
  · have hnone : ∀ t ∈ [coreHead 5, gameHead], content t ≠ content (coreHead 6) := by decide +kernel
    exact absurd hcontent (hnone t ht)
  · exact hcollision

/-! ## Two heads with one leaf -/

def zeros (n : ℕ) : String := String.ofList (List.replicate n (Char.ofNat 0))

/-- a head whose strings but shard id and signature are empty -/
def zeroHead (shardId signature : String) : ShardTreeHead :=
  ⟨shardId, ⟨0, "", "avalon-test", "", signature, 0, .current .settlementSth⟩⟩

theorem utf8_zeros (n : ℕ) : utf8 (zeros n) = List.replicate n 0 := by
  rw [zeros, utf8_ofList, List.flatMap_replicate, show String.utf8EncodeChar (Char.ofNat 0) = [0] from by decide,
    List.flatten_replicate_singleton]

theorem lengthPrefixedStr_zeros {n : ℕ} (h : beBytes 4 n = List.replicate 4 0) :
    lengthPrefixedStr (zeros n) = List.replicate (4 + n) 0 := by
  rw [lengthPrefixedStr, utf8_zeros, List.length_replicate, h, List.replicate_append_replicate]

theorem lengthPrefixedStr_empty : lengthPrefixedStr "" = List.replicate 4 0 := lengthPrefixedStr_zeros (n := 0) rfl

/-- with a length that is cut to 0, the zeros can be the shard id or the signature -/
theorem leaf_of_zeros {n : ℕ} (h : beBytes 4 n = List.replicate 4 0) :
    leafBytes .network (zeroHead (zeros n) "") = leafBytes .network (zeroHead "" (zeros n)) := by
  have hsize : beBytes 8 (0 : Int64).toBitVec.toNat = List.replicate 8 0 := rfl
  simp only [leafBytes, shardLeafBytes, shardFields, zeroHead, lengthPrefixedStr_zeros h, lengthPrefixedStr_empty, hsize,
    List.replicate_append_replicate]
  congr 2
  omega

/-- **A head that is not listed is accepted**: its leaf is that of the one listed head, without any collision -/
theorem cut_head_accepted :
    DistinctShards [zeroHead (zeros (2 ^ 32)) ""] ∧
      ¬ Sound .network .network 0 [] [zeroHead (zeros (2 ^ 32)) ""] (zeroHead "" (zeros (2 ^ 32))) := by
  have hleaf := leaf_of_zeros (n := 2 ^ 32) (by decide)
  refine ⟨List.nodup_singleton _, fun hsound => ?_⟩
  have hpos : 0 < 2 ^ 32 := by norm_num
  generalize 2 ^ 32 = n at hleaf hsound hpos
  have hleaves : leaves .network [zeroHead (zeros n) ""] = [leafBytes .network (zeroHead "" (zeros n))] := by
    rw [← hleaf]
    rfl
  have haccepted : Accepts .network (rootHash .network 0 [] [zeroHead (zeros n) ""]) ⟨0, 1, []⟩ (zeroHead "" (zeros n)) := by
    have hpath := verifyInclusionProof_path treeAlgo [leafBytes .network (zeroHead "" (zeros n))] 0 (by simp)
    rw [path, dif_pos (by simp)] at hpath
    rw [accepts_iff, root, hleaves]
    refine ⟨?_, hpath⟩
    intro owner howner
    cases howner
  rcases hsound _ haccepted with ⟨-, ⟨t, ht, hcontent⟩, -⟩ | ⟨x, hx, y, hy, hne, -⟩
  · have hid : zeros n = "" := by
      obtain rfl := List.mem_singleton.1 ht
      exact congrArg Prod.fst hcontent
    have hlen := congrArg List.length (utf8_zeros n)
    rw [hid, List.length_replicate] at hlen
    exact hpos.ne hlen
  · -- the tree and the verifier digest one string
    rw [hashed, hleaves, mthInputs_singleton, verifyInputs, verifyPathInputs, dif_pos le_rfl] at hx hy
    simp only [List.singleton_append, List.mem_cons, List.not_mem_nil, or_false, or_self] at hx hy
    exact hne (hx.trans hy.symm)

end Avalon.CrossShard
