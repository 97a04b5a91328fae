/-
Display names (`crates/protocol/src/identity_id.rs`: `is_invisible`, `display_name_mimics_identity_id`,
`display_name_permitted`).

A name is shown next to identity ids, and found without regard to case. One that reads like an id when invisible characters are
dropped, white space is trimmed and capitals are lowered is refused.

- `readsAs_of_lowercase`: a text that is an id but for its capitals reads as that id.
- `not_mimics_of_mem`: a text with a visible character that no id has reads like no id.
-/
import Mathlib.Tactic
import Avalon.Core.Bytes
import Avalon.Protocol.LedgerEntry
import Avalon.Protocol.IdentityId
import Avalon.Server.OverlayRouting

namespace Avalon.Identity

open Avalon.LedgerEntry
open OverlayRouting (isWhitespace trim trimEndMatches)

/-! ## Names -/

/-- general category Cc -/
def isControl (c : Char) : Bool := decide (c.toNat ≤ 0x1f) || (decide (0x7f ≤ c.toNat) && decide (c.toNat ≤ 0x9f))

/-- first and last code points -/
def invisibleRanges : List (ℕ × ℕ) :=
  [(0xad, 0xad), (0x34f, 0x34f), (0x61c, 0x61c), (0x115f, 0x1160), (0x17b4, 0x17b5), (0x180b, 0x180f), (0x200b, 0x200f),
    (0x2028, 0x202e), (0x2060, 0x206f), (0x3164, 0x3164), (0xfe00, 0xfe0f), (0xfeff, 0xfeff), (0xffa0, 0xffa0),
    (0xfff0, 0xfff8), (0x1bca0, 0x1bca3), (0x1d173, 0x1d17a), (0xe0000, 0xe0fff)]

/-- characters that render as nothing, or reorder text -/
def isInvisible (c : Char) : Bool :=
  isControl c || invisibleRanges.any fun r => decide (r.1 ≤ c.toNat) && decide (c.toNat ≤ r.2)

/-- the joiners that glue emoji sequences -/
def isJoiner (c : Char) : Bool := c.toNat == 0x200c || c.toNat == 0x200d

/-- the name without invisible characters, trimmed, in ASCII lowercase -/
def readsAs (name : String) : String :=
  let visible := name.toList.filter fun c => !isInvisible c
  String.ofList ((trim visible).map Char.toLower)

def displayNameMimicsIdentityId (name : String) : Bool := (IdentityId.parse (readsAs name)).isOk

def maxDisplayNameChars : ℕ := 128

def displayNamePermitted (name : String) : Bool :=
  let length := (trim name.toList).length
  if length = 0 ∨ length > maxDisplayNameChars then false
  else
    let hidden := name.toList.any fun c => isInvisible c && !isJoiner c
    !hidden && !displayNameMimicsIdentityId name

/-! ## Trimming -/

section

variable {cs ds : List Char}

theorem trimEnd_append {c : Char} {p : Char → Bool} (hc : p c = false) (cs : List Char) :
    trimEndMatches p (cs ++ [c]) = cs ++ [c] := by
  rw [trimEndMatches, List.reverse_append, List.reverse_singleton, List.singleton_append, List.dropWhile_cons_of_neg (by simp [hc]),
    List.reverse_cons, List.reverse_reverse]

/-- a list that begins and ends with what is kept is not trimmed -/
theorem trim_eq_self (hhead : ∀ c ∈ cs.head?, isWhitespace c = false) (hlast : ∀ c ∈ cs.getLast?, isWhitespace c = false) :
    trim cs = cs := by
  have hstart : cs.dropWhile isWhitespace = cs := by
    cases cs with
    | nil => rfl
    | cons c cs => exact List.dropWhile_cons_of_neg (by simp [hhead c rfl])
  rw [trim, hstart]
  induction cs using List.reverseRecOn with
  | nil => rfl
  | append_singleton cs c ih => exact trimEnd_append (hlast c (by simp)) cs

theorem mem_trimEnd {p : Char → Bool} {c : Char} (h : c ∈ trimEndMatches p cs) : c ∈ cs := by
  rw [trimEndMatches, List.mem_reverse] at h
  exact List.mem_reverse.1 ((List.dropWhile_sublist p).subset h)

theorem mem_trim {c : Char} (h : c ∈ trim cs) : c ∈ cs := (List.dropWhile_sublist isWhitespace).subset (mem_trimEnd h)

theorem length_trimEnd_le {p : Char → Bool} : (trimEndMatches p cs).length ≤ cs.length := by
  rw [trimEndMatches, List.length_reverse]
  exact ((List.dropWhile_sublist p).length_le).trans_eq List.length_reverse

theorem length_trim_le : (trim cs).length ≤ cs.length := length_trimEnd_le.trans (List.dropWhile_sublist _).length_le

/-- a visible character is still there when white space is trimmed -/
theorem mem_trim_of_mem {c : Char} (h : c ∈ cs) (hc : isWhitespace c = false) : c ∈ trim cs := by
  have hkept : ∀ (l : List Char), c ∈ l → c ∈ l.dropWhile isWhitespace := by
    intro l hl
    induction l with
    | nil => exact hl
    | cons d l ih =>
      rcases List.mem_cons.1 hl with rfl | hl
      · rw [List.dropWhile_cons_of_neg (by simp [hc])]
        exact List.mem_cons_self
      · rw [List.dropWhile_cons]
        split_ifs
        · exact ih hl
        · exact List.mem_cons_of_mem _ hl
  rw [trim, trimEndMatches, List.mem_reverse]
  exact hkept _ (List.mem_reverse.2 (hkept _ h))

end

/-! ## Names that read like an id -/

theorem hexDigit_of_mem {bs : Bytes} {c : Char} (h : c ∈ (hexEncode bs).toList) : ∃ n < 16, c = hexDigit n := by
  rw [hexEncode, String.toList_ofList, List.mem_flatMap] at h
  obtain ⟨b, -, hc⟩ := h
  have hb := b.toNat_lt
  rcases List.mem_cons.1 hc with rfl | hc
  · exact ⟨_, by omega, rfl⟩
  · exact ⟨_, by omega, List.mem_singleton.1 hc⟩

theorem length_toText (id : IdentityId) : id.toText.toList.length = 64 := by
  have hdigits : ∀ bs : Bytes, (hexEncode bs).toList.length = 2 * bs.length := by
    intro bs
    rw [hexEncode, String.toList_ofList, List.length_flatMap]
    simp [Nat.mul_comm]
  rw [IdentityId.toText, hdigits, List.Vector.toList_length]

theorem mimics_iff {name : String} : displayNameMimicsIdentityId name = true ↔ ∃ id : IdentityId, readsAs name = id.toText := by
  unfold displayNameMimicsIdentityId
  constructor
  · intro h
    cases hp : IdentityId.parse (readsAs name) with
    | error e =>
      rw [hp] at h
      cases h
    | ok id => exact ⟨id, (IdentityId.toText_of_parse hp).symm⟩
  · rintro ⟨id, hid⟩
    rw [hid, IdentityId.parse_toText]
    rfl

theorem toLower_hexDigit : ∀ n < 16, (hexDigit n).toLower = hexDigit n := by decide

/-- digits and letters are neither invisible nor white space -/
theorem visible_of_digit {c : Char} (h : ∃ n < 16, c.toLower = hexDigit n) : isInvisible c = false ∧ isWhitespace c = false := by
  have hlower : ∀ n < 16, (0x30 ≤ (hexDigit n).toNat ∧ (hexDigit n).toNat ≤ 0x39) ∨
      (0x61 ≤ (hexDigit n).toNat ∧ (hexDigit n).toNat ≤ 0x66) := by
    decide
  obtain ⟨n, hn, heq⟩ := h
  have hrange := hlower n hn
  rw [← heq] at hrange
  have hc : 0x30 ≤ c.toNat ∧ c.toNat ≤ 0x66 := by
    by_cases hupper : c.val ≥ 'A'.val ∧ c.val ≤ 'Z'.val
    · have h1 : 65 ≤ c.toNat := hupper.1
      have h2 : c.toNat ≤ 90 := hupper.2
      omega
    · have hlower : c.toLower = c := dif_neg hupper
      rw [hlower] at hrange
      omega
  have hbounds : 0x2f < c.toNat ∧ c.toNat < 0x67 := by omega
  constructor
  · simp only [isInvisible, isControl, invisibleRanges, List.any_cons, List.any_nil, Bool.or_false, Bool.or_eq_false_iff,
      Bool.and_eq_false_iff, decide_eq_false_iff_not]
    omega
  · simp only [isWhitespace, Bool.or_eq_false_iff, Bool.and_eq_false_iff, decide_eq_false_iff_not, beq_eq_false_iff_ne]
    omega

/-- **A text that is an id but for its capitals reads as that id** -/
theorem readsAs_of_lowercase {name : String} {id : IdentityId} (h : name.toList.map Char.toLower = id.toText.toList) :
    readsAs name = id.toText := by
  have hdigit : ∀ c ∈ name.toList, ∃ n < 16, c.toLower = hexDigit n := by
    intro c hc
    have hmem : c.toLower ∈ id.toText.toList := h ▸ List.mem_map_of_mem hc
    exact hexDigit_of_mem hmem
  have hvisible : name.toList.filter (fun c => !isInvisible c) = name.toList := by
    rw [List.filter_eq_self]
    intro c hc
    rw [(visible_of_digit (hdigit c hc)).1]
    rfl
  have htrim : trim name.toList = name.toList := by
    refine trim_eq_self (fun c hc => ?_) fun c hc => ?_
    · exact (visible_of_digit (hdigit c (List.mem_of_mem_head? hc))).2
    · exact (visible_of_digit (hdigit c (List.mem_of_getLast? hc))).2
  rw [readsAs, hvisible, htrim, h, String.ofList_toList]

theorem trim_toText (id : IdentityId) : trim id.toText.toList = id.toText.toList := by
  have hspace : ∀ c ∈ id.toText.toList, isWhitespace c = false := by
    intro c hc
    obtain ⟨n, hn, rfl⟩ := hexDigit_of_mem hc
    exact (visible_of_digit ⟨n, hn, toLower_hexDigit n hn⟩).2
  exact trim_eq_self (fun c hc => hspace c (List.mem_of_mem_head? hc)) fun c hc => hspace c (List.mem_of_getLast? hc)

theorem map_toLower_toText (id : IdentityId) : id.toText.toList.map Char.toLower = id.toText.toList := by
  have hsame : ∀ c ∈ id.toText.toList, c.toLower = c := by
    intro c hc
    obtain ⟨n, hn, rfl⟩ := hexDigit_of_mem hc
    exact toLower_hexDigit n hn
  exact (List.map_congr_left hsame).trans (List.map_id' _)

theorem readsAs_toText (id : IdentityId) : readsAs id.toText = id.toText := readsAs_of_lowercase (map_toLower_toText id)

/-- a name with a character that no id has reads like none -/
theorem not_mimics_of_mem {name : String} {c : Char} (hmem : c ∈ name.toList) (hc : isInvisible c = false)
    (hspace : isWhitespace c = false) (hdigit : ∀ n < 16, c.toLower ≠ hexDigit n) : displayNameMimicsIdentityId name = false := by
  rw [Bool.eq_false_iff, Ne, mimics_iff]
  rintro ⟨id, hid⟩
  have hin : c.toLower ∈ (readsAs name).toList := by
    rw [readsAs, String.toList_ofList]
    exact List.mem_map_of_mem (mem_trim_of_mem (List.mem_filter.2 ⟨hmem, by rw [hc]; rfl⟩) hspace)
  rw [hid] at hin
  obtain ⟨n, hn, heq⟩ := hexDigit_of_mem hin
  exact hdigit n hn heq

/-! ## Permitted names -/

theorem permitted_iff {name : String} :
    displayNamePermitted name = true ↔ (0 < (trim name.toList).length ∧ (trim name.toList).length ≤ maxDisplayNameChars) ∧
      (∀ c ∈ name.toList, isInvisible c = true → isJoiner c = true) ∧ displayNameMimicsIdentityId name = false := by
  unfold displayNamePermitted
  dsimp only
  split_ifs with hlength
  · refine ⟨fun h => h.elim, fun h => ?_⟩
    omega
  · rw [Bool.and_eq_true, Bool.not_eq_true', Bool.not_eq_true', List.any_eq_false]
    constructor
    · rintro ⟨hhidden, hmimics⟩
      exact ⟨by omega, fun c hc hinvisible => by simpa [hinvisible] using hhidden c hc, hmimics⟩
    · rintro ⟨-, hhidden, hmimics⟩
      refine ⟨fun c hc => ?_, hmimics⟩
      rw [Bool.and_eq_true, Bool.not_eq_true']
      rintro ⟨hinvisible, hjoiner⟩
      rw [hhidden c hc hinvisible] at hjoiner
      cases hjoiner

end Avalon.Identity
