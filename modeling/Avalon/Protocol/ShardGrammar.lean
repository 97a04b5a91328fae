/-
The grammar of shard ids, and the parser against it.

`ShardIdText` says which texts are ids, without the parser. `parse_eq_ok_iff` says what the parser accepts and with which
parts: those that are well formed and whose text the input is. The other results are read off it: the accepted texts are
the grammatical ones, the parts give the text back, and the family owner of an id is an id of the family.
-/
import Mathlib.Tactic
import Avalon.Core.Fallible
import Avalon.Protocol.Shard

namespace Avalon.Shard

open OverlayRouting (isWhitespace)

/-! ## The grammar -/

def Between (low high : Char) (c : Char) : Prop := low.toNat ≤ c.toNat ∧ c.toNat ≤ high.toNat

/-- 64 lowercase hex digits -/
structure KeyHashText (s : String) : Prop where
  length : s.toList.length = 64
  digits : ∀ c ∈ s.toList, Between '0' '9' c ∨ Between 'a' 'f' c

structure OwnerText (s : String) : Prop where
  ne_empty : s ≠ ""
  chars : ∀ c ∈ s.toList, isWhitespace c = false ∧ c ≠ ':' ∧ c ≠ '/'

def Alphanumeric (c : Char) : Prop := Between 'a' 'z' c ∨ Between '0' '9' c

/-- 1 to 64 characters of [a-z0-9-], the first of [a-z0-9] -/
structure InstanceText (s : String) : Prop where
  length : 1 ≤ s.toList.length ∧ s.toList.length ≤ 64
  first : ∀ c ∈ s.toList.head?, Alphanumeric c
  chars : ∀ c ∈ s.toList, Alphanumeric c ∨ c = '-'

inductive ShardIdText : String → Prop where
  | core : ShardIdText "core"
  | node {keyHash : String} (h : KeyHashText keyHash) : ShardIdText ("node:" ++ keyHash)
  | owner {ns owner : String} (hns : ns ∈ ["game", "app", "service"]) (ho : OwnerText owner) :
      ShardIdText (ns ++ ":" ++ owner)
  | ownerInstance {ns owner inst : String} (hns : ns ∈ ["game", "app", "service"]) (ho : OwnerText owner)
      (hi : InstanceText inst) : ShardIdText (ns ++ ":" ++ owner ++ "/" ++ inst)

/-- the text of parsed parts -/
def reassemble : ParsedShardId → String
  | .core => "core"
  | .selfCertifying keyHashHex => "node:" ++ keyHashHex
  | .owned ns owner none => ns ++ ":" ++ owner
  | .owned ns owner (some inst) => ns ++ ":" ++ owner ++ "/" ++ inst

def WellFormed : ParsedShardId → Prop
  | .core => True
  | .selfCertifying keyHashHex => KeyHashText keyHashHex
  | .owned ns owner inst =>
    ns ∈ ["game", "app", "service"] ∧ OwnerText owner ∧ ∀ i ∈ inst, InstanceText i

theorem shardIdText_iff {id : String} : ShardIdText id ↔ ∃ p, WellFormed p ∧ reassemble p = id := by
  constructor
  · intro h
    cases h with
    | core => exact ⟨.core, trivial, rfl⟩
    | node h => exact ⟨.selfCertifying _, h, rfl⟩
    | owner hns ho => exact ⟨.owned _ _ none, ⟨hns, ho, by simp⟩, rfl⟩
    | ownerInstance hns ho hi => exact ⟨.owned _ _ (some _), ⟨hns, ho, by simpa⟩, rfl⟩
  · rintro ⟨p, hp, rfl⟩
    match p, hp with
    | .core, _ => exact .core
    | .selfCertifying _, h => exact .node h
    | .owned _ _ none, ⟨hns, ho, _⟩ => exact .owner hns ho
    | .owned _ _ (some i), ⟨hns, ho, hi⟩ => exact .ownerInstance hns ho (hi i rfl)

/-! ## The parts -/

theorem splitOnce_eq_some {c : Char} {cs before after : List Char} :
    splitOnce c cs = some (before, after) ↔ cs = before ++ c :: after ∧ c ∉ before := by
  induction cs generalizing before with
  | nil => simp [splitOnce]
  | cons d ds ih =>
    rw [splitOnce]
    cases before with
    | nil =>
      split
      · rename_i hd
        simp [hd, eq_comm]
      · rename_i hd
        simp [hd]
    | cons b bs =>
      split
      · rename_i hd
        simp [hd]
        tauto
      · rename_i hd
        have hmap : (splitOnce c ds).map (fun x => (d :: x.1, x.2)) = some (b :: bs, after) ↔
            d = b ∧ splitOnce c ds = some (bs, after) := by
          cases splitOnce c ds with
          | none => simp
          | some x => simp [Prod.ext_iff, and_assoc]
        rw [hmap, ih]
        constructor
        · rintro ⟨rfl, rfl, hnot⟩
          exact ⟨rfl, by simp [hnot, Ne.symm hd]⟩
        · rintro ⟨heq, hnot⟩
          obtain ⟨rfl, rfl⟩ := List.cons.inj heq
          exact ⟨rfl, rfl, fun h => hnot (List.mem_cons_of_mem _ h)⟩

theorem splitOnce_eq_none {c : Char} {cs : List Char} : splitOnce c cs = none ↔ c ∉ cs := by
  induction cs with
  | nil => simp [splitOnce]
  | cons d ds ih =>
    rw [splitOnce]
    split
    · rename_i hd
      simp [hd]
    · rename_i hd
      rw [Option.map_eq_none_iff, ih, List.mem_cons, not_or]
      exact ⟨fun h => ⟨Ne.symm hd, h⟩, fun h => h.2⟩

/-- only an ASCII character has no byte from 0x80 on -/
theorem ascii_of_utf8EncodeChar {c : Char} (h : ∀ b ∈ String.utf8EncodeChar c, b < 0x80) : c.toNat < 128 := by
  have hhigh : ∀ b : UInt8, ¬ (b &&& 0x3f ||| 0x80) < 0x80 := by
    intro b
    rw [UInt8.lt_iff_toNat_lt, UInt8.toNat_or, not_lt]
    exact Nat.right_le_or
  rw [String.utf8EncodeChar_eq_utf8EncodeCharFast] at h
  unfold String.utf8EncodeCharFast at h
  dsimp only at h
  -- the last byte of a longer encoding carries the mark 0x80
  split_ifs at h with h1 h2 h3
  · rw [UInt32.le_iff_toNat_le] at h1
    exact Nat.lt_succ_of_le h1
  · exact (hhigh _ (h _ (.tail _ (.head _)))).elim
  · exact (hhigh _ (h _ (.tail _ (.tail _ (.head _))))).elim
  · exact (hhigh _ (h _ (.tail _ (.tail _ (.tail _ (.head _)))))).elim

theorem utf8EncodeChar_ascii {c : Char} (h : c.toNat < 128) : String.utf8EncodeChar c = [UInt8.ofNat c.toNat] := by
  rw [String.utf8EncodeChar_eq_singleton (Char.utf8Size_eq_one_iff.2 (UInt32.le_iff_toNat_le.2 (Nat.le_of_lt_succ h)))]
  rfl

theorem utf8_ascii {s : String} (h : ∀ c ∈ s.toList, c.toNat < 128) :
    utf8 s = s.toList.map fun c => UInt8.ofNat c.toNat := by
  rw [← String.ofList_toList (s := s), utf8_ofList, String.toList_ofList, List.map_eq_flatMap]
  exact List.flatMap_congr fun c hc => utf8EncodeChar_ascii (h c hc)

theorem ascii_of_utf8 {s : String} (h : ∀ b ∈ utf8 s, b < 0x80) : ∀ c ∈ s.toList, c.toNat < 128 := by
  intro c hc
  refine ascii_of_utf8EncodeChar fun b hb => h b ?_
  rw [← String.ofList_toList (s := s), utf8_ofList]
  exact List.mem_flatMap.2 ⟨c, hc, hb⟩

theorem lowerHexByte_iff {b : UInt8} : ((0x30 ≤ b && b ≤ 0x39) || (0x61 ≤ b && b ≤ 0x66)) = true ↔
    (48 ≤ b.toNat ∧ b.toNat ≤ 57) ∨ (97 ≤ b.toNat ∧ b.toNat ≤ 102) := by
  simp [UInt8.le_iff_toNat_le]

theorem validKeyHashHex_iff {s : String} : validKeyHashHex s = true ↔ KeyHashText s := by
  simp only [validKeyHashHex, keyHashHexLen, Bool.and_eq_true, List.all_eq_true, lowerHexByte_iff]
  have hbyte : ∀ c : Char, c.toNat < 128 → (UInt8.ofNat c.toNat).toNat = c.toNat := fun c hc => by
    rw [UInt8.toNat_ofNat', Nat.mod_eq_of_lt (by omega)]
  constructor
  · rintro ⟨hlen, hall⟩
    have hascii : ∀ c ∈ s.toList, c.toNat < 128 := ascii_of_utf8 fun b hb => by
      have := hall b hb
      rw [UInt8.lt_iff_toNat_lt]
      change b.toNat < 128
      omega
    rw [utf8_ascii hascii] at hlen hall
    refine ⟨by simpa using hlen, fun c hc => ?_⟩
    have := hall _ (List.mem_map_of_mem hc)
    rwa [hbyte c (hascii c hc)] at this
  · rintro ⟨hlen, hdigits⟩
    have hrange : ∀ c ∈ s.toList, (48 ≤ c.toNat ∧ c.toNat ≤ 57) ∨ (97 ≤ c.toNat ∧ c.toNat ≤ 102) := hdigits
    have hascii : ∀ c ∈ s.toList, c.toNat < 128 := fun c hc => by have := hrange c hc; omega
    rw [utf8_ascii hascii]
    refine ⟨by simpa using hlen, List.forall_mem_map.2 fun c hc => ?_⟩
    rw [hbyte c (hascii c hc)]
    exact hrange c hc

theorem lowerOrDigit_iff {c : Char} : (c.isLower || c.isDigit) = true ↔ Alphanumeric c := by
  have hlower : c.isLower = true ↔ Between 'a' 'z' c := by
    change (decide (c.val ≥ 'a'.val) && decide (c.val ≤ 'z'.val)) = true ↔ _
    simp only [ge_iff_le, Bool.and_eq_true, decide_eq_true_eq, UInt32.le_iff_toNat_le]
    exact Iff.rfl
  rw [Bool.or_eq_true, hlower, Char.isDigit_iff_toNat]
  exact Iff.rfl

theorem Alphanumeric.ascii {c : Char} (h : Alphanumeric c) : c.toNat < 128 := by
  have h : (97 ≤ c.toNat ∧ c.toNat ≤ 122) ∨ (48 ≤ c.toNat ∧ c.toNat ≤ 57) := h
  omega

theorem validInstance_iff {s : String} : validInstance s = true ↔ InstanceText s := by
  have hascii : (∀ c ∈ s.toList, Alphanumeric c ∨ c = '-') → (utf8 s).length = s.toList.length := by
    intro h
    rw [utf8_ascii, List.length_map]
    intro c hc
    rcases h c hc with hal | rfl
    · exact hal.ascii
    · decide
  unfold validInstance
  split
  · rename_i hs
    simp only [Bool.false_eq_true, false_iff]
    intro h
    have := h.length.1
    rw [hs] at this
    exact absurd this (by simp)
  · rename_i first chars hs
    simp only [Bool.and_eq_true, List.all_eq_true, lowerOrDigit_iff, maxInstanceLen]
    have hrest : ∀ c : Char, (c.isLower || c.isDigit || c == '-') = true ↔ Alphanumeric c ∨ c = '-' := fun c => by
      rw [Bool.or_eq_true, lowerOrDigit_iff, beq_iff_eq]
    constructor
    · rintro ⟨⟨hlen, hfirst⟩, hchars⟩
      have hall : ∀ c ∈ s.toList, Alphanumeric c ∨ c = '-' := by
        rw [hs]
        exact List.forall_mem_cons.2 ⟨.inl hfirst, fun c hc => (hrest c).1 (hchars c hc)⟩
      refine ⟨⟨by simp [hs], hascii hall ▸ of_decide_eq_true hlen⟩, fun c hc => ?_, hall⟩
      rw [hs] at hc
      exact Option.some.inj hc ▸ hfirst
    · rintro ⟨⟨-, hlen⟩, hfirst, hchars⟩
      refine ⟨⟨decide_eq_true (hascii hchars ▸ hlen), hfirst first (by rw [hs]; rfl)⟩, fun c hc => (hrest c).2 (hchars c ?_)⟩
      rw [hs]
      exact List.mem_cons_of_mem _ hc

theorem ownerText_ofList_iff {cs : List Char} : OwnerText (String.ofList cs) ↔
    cs ≠ [] ∧ (cs.any fun c => isWhitespace c || c == ':' || c == '/') = false := by
  have hempty : String.ofList cs = "" ↔ cs = [] := by
    rw [← String.ofList_nil, String.ofList_inj]
  constructor
  · rintro ⟨hne, hchars⟩
    refine ⟨fun h => hne (hempty.2 h), List.any_eq_false.2 fun c hc => ?_⟩
    obtain ⟨hw, hcolon, hslash⟩ := hchars c (by rwa [String.toList_ofList])
    simp [hw, hcolon, hslash]
  · rintro ⟨hne, hchars⟩
    refine ⟨fun h => hne (hempty.1 h), fun c hc => ?_⟩
    have := List.any_eq_false.1 hchars c (by rwa [String.toList_ofList] at hc)
    simpa [and_assoc] using this

/-! ## The parser -/

/-- the owner and the instance behind the namespace -/
def ownedParts (rest : List Char) : List Char × Option String :=
  match splitOnce '/' rest with
  | some (owner, inst) => (owner, some (String.ofList inst))
  | none => (rest, none)

/-- the checks of an owned id's parts -/
def checkOwned (ns owner : List Char) (inst : Option String) : Except ShardIdError ParsedShardId :=
  if owner = [] then .error .emptyOwner
  else if owner.any fun c => isWhitespace c || c == ':' || c == '/' then .error (.invalidOwner (String.ofList owner))
  else
    match inst with
    | some i =>
      if validInstance i then .ok (.owned (String.ofList ns) (String.ofList owner) inst) else .error (.invalidInstance i)
    | none => .ok (.owned (String.ofList ns) (String.ofList owner) none)

theorem parseShardId_of_split {id : String} {ns rest : List Char} (h : splitOnce ':' id.toList = some (ns, rest)) :
    parseShardId id =
      if String.ofList ns = selfCertifyingNamespace then
        if validKeyHashHex (String.ofList rest) then .ok (.selfCertifying (String.ofList rest))
        else .error (.invalidKeyHash (String.ofList rest))
      else if String.ofList ns ∉ ["game", "app", "service"] then .error (.unknownNamespace (String.ofList ns))
      else checkOwned ns (ownedParts rest).1 (ownedParts rest).2 := by
  have hcolon : ':' ∈ id.toList := by
    rw [(splitOnce_eq_some.1 h).1]
    simp
  have hempty : id ≠ "" := by
    rintro rfl
    exact absurd hcolon (by decide)
  have hcore : id ≠ coreShardId := by
    rintro rfl
    exact absurd hcolon (by decide)
  unfold parseShardId
  rw [if_neg hempty, if_neg hcore, h]
  dsimp only
  split
  · split <;> rfl
  · split
    · rfl
    · unfold checkOwned ownedParts
      rcases splitOnce '/' rest with - | ⟨owner, inst⟩
      · dsimp only
        split
        · rfl
        · split <;> rfl
      · dsimp only
        split
        · rfl
        · split
          · rfl
          · cases validInstance (String.ofList inst) <;> rfl

theorem parseShardId_of_no_split {id : String} (h : splitOnce ':' id.toList = none) :
    parseShardId id =
      if id = "" then .error .empty else if id = coreShardId then .ok .core else .error (.unknownNamespace id) := by
  unfold parseShardId
  rw [h]
  dsimp only
  by_cases hempty : id = ""
  · rw [if_pos hempty, if_pos hempty]
    rfl
  · rw [if_neg hempty, if_neg hempty]
    by_cases hcore : id = coreShardId
    · rw [if_pos hcore, if_pos hcore]
      rfl
    · rw [if_neg hcore, if_neg hcore]
      rfl

theorem checkOwned_eq_ok {ns owner : List Char} {inst : Option String} {p : ParsedShardId} :
    checkOwned ns owner inst = .ok p ↔
      OwnerText (String.ofList owner) ∧ (∀ i ∈ inst, InstanceText i) ∧
        p = .owned (String.ofList ns) (String.ofList owner) inst := by
  rw [ownerText_ofList_iff]
  unfold checkOwned
  split
  · rename_i hempty
    simp [hempty]
  · rename_i hempty
    split
    · rename_i hchars
      simp [hchars]
    · rename_i hchars
      rw [Bool.not_eq_true] at hchars
      cases inst with
      | none => simp [hempty, hchars, eq_comm]
      | some i =>
        dsimp only
        split
        · rename_i hvalid
          simp [hempty, hchars, validInstance_iff.1 hvalid, eq_comm]
        · rename_i hinvalid
          have := mt validInstance_iff.2 hinvalid
          simp [this]

/-- what the instance adds to the text -/
def instanceSuffix : Option String → List Char
  | some inst => '/' :: inst.toList
  | none => []

theorem toList_owned (ns owner : String) (inst : Option String) :
    (reassemble (.owned ns owner inst)).toList = ns.toList ++ ':' :: (owner.toList ++ instanceSuffix inst) := by
  cases inst <;> simp [reassemble, instanceSuffix, String.toList_append]

theorem ownedParts_suffix {owner : List Char} (h : '/' ∉ owner) (inst : Option String) :
    ownedParts (owner ++ instanceSuffix inst) = (owner, inst) := by
  cases inst with
  | none => rw [instanceSuffix, List.append_nil, ownedParts, splitOnce_eq_none.2 h]
  | some i =>
    rw [instanceSuffix, ownedParts, splitOnce_eq_some.2 ⟨rfl, h⟩]
    dsimp only
    rw [String.ofList_toList]

theorem suffix_ownedParts (rest : List Char) : (ownedParts rest).1 ++ instanceSuffix (ownedParts rest).2 = rest := by
  unfold ownedParts
  rcases hs : splitOnce '/' rest with - | ⟨owner, inst⟩
  · exact List.append_nil _
  · dsimp only [instanceSuffix]
    rw [String.toList_ofList, (splitOnce_eq_some.1 hs).1]

theorem parse_of_wellFormed {p : ParsedShardId} (h : WellFormed p) : parseShardId (reassemble p) = .ok p := by
  match p, h with
  | .core, _ => rfl
  | .selfCertifying keyHash, h =>
    have hsplit : splitOnce ':' (reassemble (.selfCertifying keyHash)).toList = some ("node".toList, keyHash.toList) := by
      rw [splitOnce_eq_some]
      exact ⟨by simp [reassemble, String.toList_append], by decide⟩
    rw [parseShardId_of_split hsplit, if_pos (by rw [String.ofList_toList]; rfl), String.ofList_toList,
      if_pos (validKeyHashHex_iff.2 h)]
  | .owned ns owner inst, ⟨hns, howner, hinst⟩ =>
    have hstart : ∀ ns ∈ ["game", "app", "service"], ':' ∉ ns.toList ∧ ns ≠ selfCertifyingNamespace := by decide
    have hslash : '/' ∉ owner.toList := fun hmem => (howner.chars _ hmem).2.2 rfl
    rw [parseShardId_of_split (splitOnce_eq_some.2 ⟨toList_owned ns owner inst, (hstart ns hns).1⟩),
      ownedParts_suffix hslash, String.ofList_toList, if_neg (hstart ns hns).2, if_neg (not_not.2 hns), checkOwned_eq_ok,
      String.ofList_toList, String.ofList_toList]
    exact ⟨howner, hinst, rfl⟩

theorem wellFormed_of_parse {id : String} {p : ParsedShardId} (h : parseShardId id = .ok p) :
    WellFormed p ∧ reassemble p = id := by
  rcases hs : splitOnce ':' id.toList with - | ⟨ns, rest⟩
  · rw [parseShardId_of_no_split hs] at h
    split_ifs at h with hempty hcore
    obtain rfl := Except.ok.inj h
    exact ⟨trivial, hcore.symm⟩
  · rw [parseShardId_of_split hs] at h
    obtain ⟨hid, -⟩ := splitOnce_eq_some.1 hs
    split_ifs at h with hnode hvalid hns
    · obtain rfl := Except.ok.inj h
      refine ⟨validKeyHashHex_iff.1 hvalid, String.toList_inj.1 ?_⟩
      have hnode' : ns = "node".toList := by rw [← String.toList_ofList (l := ns), hnode]; rfl
      rw [hid, hnode']
      simp [reassemble, String.toList_append]
    · obtain ⟨howner, hinst, rfl⟩ := checkOwned_eq_ok.1 h
      refine ⟨⟨hns, howner, hinst⟩, String.toList_inj.1 ?_⟩
      rw [toList_owned, hid, String.toList_ofList, String.toList_ofList, suffix_ownedParts]

/-- **What the parser accepts**: the well-formed parts whose text is the input -/
theorem parse_eq_ok_iff {id : String} {p : ParsedShardId} :
    parseShardId id = .ok p ↔ WellFormed p ∧ reassemble p = id := by
  constructor
  · exact wellFormed_of_parse
  · rintro ⟨hp, rfl⟩
    exact parse_of_wellFormed hp

/-! ## Families -/

theorem shardAuthority_eq_some {id ns owner : String} :
    shardAuthority id = some (ns, owner) ↔ ∃ inst, parseShardId id = .ok (.owned ns owner inst) := by
  unfold shardAuthority
  split
  · rename_i hp
    simp [hp]
  · rename_i hno
    simp only [reduceCtorEq, false_iff, not_exists]
    exact fun inst hp => hno ns owner inst hp

theorem shardFamilyOwner_eq_some {id o : String} :
    shardFamilyOwner id = some o ↔ ∃ ns owner inst, parseShardId id = .ok (.owned ns owner inst) ∧ ns ++ ":" ++ owner = o := by
  simp only [shardFamilyOwner, Option.map_eq_some_iff, Prod.exists, shardAuthority_eq_some]
  constructor
  · rintro ⟨ns, owner, ⟨inst, hp⟩, ho⟩
    exact ⟨ns, owner, inst, hp, ho⟩
  · rintro ⟨ns, owner, inst, hp, ho⟩
    exact ⟨ns, owner, ⟨inst, hp⟩, ho⟩

/-- the owner of an owned id is an id itself, without instance -/
theorem parse_owner {id ns owner : String} {inst : Option String} (h : parseShardId id = .ok (.owned ns owner inst)) :
    parseShardId (ns ++ ":" ++ owner) = .ok (.owned ns owner none) := by
  obtain ⟨⟨hns, howner, -⟩, -⟩ := parse_eq_ok_iff.1 h
  exact parse_eq_ok_iff.2 ⟨⟨hns, howner, by simp⟩, rfl⟩

theorem shardFamilyOwner_of_owned {id ns owner : String} {inst : Option String}
    (h : parseShardId id = .ok (.owned ns owner inst)) : shardFamilyOwner id = some (ns ++ ":" ++ owner) :=
  shardFamilyOwner_eq_some.2 ⟨ns, owner, inst, h, rfl⟩

theorem isFamilyOwnerId_iff {owner : String} :
    isFamilyOwnerId owner = true ↔ ∃ ns slug, parseShardId owner = .ok (.owned ns slug none) := by
  unfold isFamilyOwnerId
  split
  · rename_i hp
    simp [hp]
  · rename_i hno
    simp only [Bool.false_eq_true, false_iff, not_exists]
    exact fun ns slug hp => hno ns slug hp

/-- **Shard ids**: exactly the grammatical texts are accepted and the parts give the text back; the owned ids are parted
into families, of which each is named by an id of its own. -/
theorem shard_id_grammar :
    (∀ id, (∃ p, parseShardId id = .ok p) ↔ ShardIdText id) ∧
      (∀ id p, parseShardId id = .ok p → reassemble p = id) ∧
      (∀ id, (shardFamilyOwner id).isSome = true ↔ ∃ ns owner inst, parseShardId id = .ok (.owned ns owner inst)) ∧
      (∀ id o, shardFamilyOwner id = some o → isFamilyOwnerId o = true ∧ shardFamilyOwner o = some o) ∧
      ∀ id id' ns ns' owner owner' inst inst', parseShardId id = .ok (.owned ns owner inst) →
        parseShardId id' = .ok (.owned ns' owner' inst') →
        (shardFamilyOwner id = shardFamilyOwner id' ↔ ns = ns' ∧ owner = owner') := by
  refine ⟨fun id => ?_, fun id p h => (parse_eq_ok_iff.1 h).2, fun id => ?_, fun id o h => ?_, ?_⟩
  · rw [shardIdText_iff]
    exact exists_congr fun p => parse_eq_ok_iff
  · simp only [Option.isSome_iff_exists, shardFamilyOwner_eq_some]
    constructor
    · rintro ⟨o, ns, owner, inst, hp, -⟩
      exact ⟨ns, owner, inst, hp⟩
    · rintro ⟨ns, owner, inst, hp⟩
      exact ⟨_, ns, owner, inst, hp, rfl⟩
  · obtain ⟨ns, owner, inst, hp, rfl⟩ := shardFamilyOwner_eq_some.1 h
    exact ⟨isFamilyOwnerId_iff.2 ⟨ns, owner, parse_owner hp⟩, shardFamilyOwner_of_owned (parse_owner hp)⟩
  · intro id id' ns ns' owner owner' inst inst' hp hp'
    rw [shardFamilyOwner_of_owned hp, shardFamilyOwner_of_owned hp', Option.some.injEq]
    constructor
    · intro heq
      -- one text has one parse
      have hparse := parse_owner hp
      rw [heq, parse_owner hp'] at hparse
      injection hparse with hparse
      injection hparse with hns howner
      exact ⟨hns.symm, howner.symm⟩
    · rintro ⟨rfl, rfl⟩
      rfl

end Avalon.Shard
