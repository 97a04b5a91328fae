/-
Stored envelopes are canonical (`crates/protocol/src/signing_bytes.rs`: `Extensions`, `EnvelopeWire`;
`crates/chain/src/envelope_row.rs`: `EnvelopeRow`).

The columns of a row are signed, and a value that does not fit its unsigned integer reads as zero. Zero is no layout version, no
rules version and no hash algorithm, so such a row is refused.

Results:
- `decode_encodeEntries`: reading the encoding of a list of entries and checking the list itself give one result, errors included.
- `toEnvelope_of_validFor`: a valid envelope comes back from its wire form.
- `eq_ofEnvelope`, `fromEnvelope_of_toEnvelope`: an accepted wire form or row is the one that its envelope is stored as.
- `envelope_storage`: all of this together.
-/
import Mathlib.Tactic
import Avalon.Core.Bytes
import Avalon.Core.Fallible
import Avalon.Core.Wire
import Avalon.Protocol.SigningBytes
import Avalon.Protocol.SigningBytesReader
import Avalon.Chain.Ledger
import Avalon.Chain.Mirror

namespace Avalon.EnvelopeStorage

open Fallible Avalon.SigningBytes Avalon.Ledger Avalon.Mirror

/-! ## Extension regions -/

/-- the region of any entries, valid or not -/
def encodeEntries (entries : List Extension) : Bytes := beBytes 2 entries.length ++ entries.flatMap Extension.encode

/-- an entry that exceeds the cap is refused before its value is read -/
theorem entryBody_tooLarge {max total : ℕ} {e : Extension} (hlt : e.value.length < 2 ^ 32)
    (hmax : total + (extensionEntryHeader + e.value.length) > max) (rest : Bytes) :
    (ByteCursor.u16 >>= ByteCursor.entryBody max total) (e.encode ++ rest) = .error .extensionsTooLarge := by
  have hto : (UInt32.ofNat e.value.length).toNat = e.value.length := UInt32.toNat_ofNat_of_lt' hlt
  have htype := ByteCursor.u16_inverts.read e.extType trivial ([e.flags] ++ (beBytes 4 e.value.length ++ (e.value ++ rest)))
  have hflags := ByteCursor.u8_inverts.read e.flags trivial (beBytes 4 e.value.length ++ (e.value ++ rest))
  have hlength := ByteCursor.u32_inverts.read (UInt32.ofNat e.value.length) trivial (e.value ++ rest)
  rw [hto] at hlength
  rw [Extension.encode]
  simp only [List.append_assoc]
  rw [Wire.bind_of_ok htype, ByteCursor.entryBody, Wire.bind_of_ok hflags, if_neg (not_not.2 e.flags_and.1),
    Wire.bind_of_ok hlength, hto, if_pos hmax]
  rfl

/-- the loop over encoded entries fails where the running size exceeds the cap, and reads them otherwise -/
theorem entryLoop_encode (max : ℕ) (entries : List Extension) (hlt : ∀ e ∈ entries, e.value.length < 2 ^ 32) (total : ℕ)
    (rest : Bytes) : ByteCursor.entryLoop max entries.length total (entries.flatMap Extension.encode ++ rest) =
      (Extensions.checkSize max total entries).bind fun _ => .ok (entries, rest) := by
  induction entries generalizing total with
  | nil => rfl
  | cons e entries ih =>
    obtain ⟨he, hentries⟩ := List.forall_mem_cons.1 hlt
    rw [List.flatMap_cons, List.append_assoc, List.length_cons, ByteCursor.entryLoop, Extensions.checkSize]
    split_ifs with hmax
    · change ((ByteCursor.u16 >>= ByteCursor.entryBody max total) _ >>= fun p => _) = _
      rw [entryBody_tooLarge he hmax]
      rfl
    · have hread := (ByteCursor.entry_inverts max total).read e ⟨he, not_lt.1 hmax⟩ (entries.flatMap Extension.encode ++ rest)
      rw [Wire.bind_of_ok hread]
      change (ByteCursor.entryLoop max entries.length _ _ >>= fun p => _) = _
      rw [ih hentries]
      cases Extensions.checkSize max (total + (extensionEntryHeader + e.value.length)) entries <;> rfl

/-- the checks of `new` in their order -/
theorem new_of_checkSize {entries : List Extension} {rulesVersion : UInt32} {e : SigningBytesError}
    (h : Extensions.checkSize (capsFor rulesVersion).maxExtensionBytes 0 entries = .error e) :
    Extensions.new entries rulesVersion = .error e := by
  unfold Extensions.new
  split
  · rename_i e' he'
    rw [h] at he'
    cases he'
    rfl
  · rename_i hok
    rw [h] at hok
    cases hok

/-- **Two validators, one result**: the encoding of a list is read as `new` makes extensions of the list -/
theorem decode_encodeEntries (entries : List Extension) (rulesVersion : UInt32) (hcount : entries.length < 2 ^ 16)
    (hlt : ∀ e ∈ entries, e.value.length < 2 ^ 32) :
    Extensions.decode (encodeEntries entries) rulesVersion = Extensions.new entries rulesVersion := by
  have hto : (UInt16.ofNat entries.length).toNat = entries.length := UInt16.toNat_ofNat_of_lt' hcount
  have hread := ByteCursor.u16_inverts.read (UInt16.ofNat entries.length) trivial (entries.flatMap Extension.encode)
  rw [hto] at hread
  have hloop := entryLoop_encode (capsFor rulesVersion).maxExtensionBytes entries hlt 0 []
  rw [List.append_nil] at hloop
  have hextensions : ByteCursor.extensions rulesVersion (encodeEntries entries) =
      (Extensions.checkSize (capsFor rulesVersion).maxExtensionBytes 0 entries).bind fun _ =>
        (Extensions.new entries rulesVersion).map fun x => (x, []) := by
    rw [encodeEntries, ByteCursor.extensions, Wire.bind_of_ok hread, hto]
    change (ByteCursor.entryLoop _ entries.length 0 _ >>= fun p => _) = _
    rw [hloop]
    cases Extensions.checkSize (capsFor rulesVersion).maxExtensionBytes 0 entries with
    | error e => rfl
    | ok u =>
      change StateT.lift (Extensions.new entries rulesVersion) [] = (Extensions.new entries rulesVersion).map fun x => (x, [])
      cases Extensions.new entries rulesVersion <;> rfl
  rw [Extensions.decode, hextensions]
  cases hsize : Extensions.checkSize (capsFor rulesVersion).maxExtensionBytes 0 entries with
  | error e =>
    rw [new_of_checkSize hsize]
    rfl
  | ok u => cases Extensions.new entries rulesVersion <;> rfl

/-! ## Wire forms -/

/-- the envelope is valid for a tag: supported versions, and extensions that are valid for the rules version and understood -/
structure ValidFor (tag : DomainTag) (envelope : Envelope) : Prop where
  layout : checkLayout tag envelope.layoutVersion = .ok ()
  rules : checkRules envelope.rulesVersion = .ok ()
  extensions : Extensions.new envelope.extensions.entries envelope.rulesVersion = .ok envelope.extensions
  understood : envelope.extensions.requireUnderstood tag = .ok ()

theorem fromId_id (algo : HashAlgo) : HashAlgo.fromId algo.id = .ok algo := by
  cases algo
  rfl

theorem id_of_fromId {i : UInt8} {algo : HashAlgo} (h : HashAlgo.fromId i = .ok algo) : i = algo.id := by
  unfold HashAlgo.fromId at h
  split_ifs at h with hi
  cases h
  exact hi

theorem decode_encode_of_new {x : Extensions} {rulesVersion : UInt32} (h : Extensions.new x.entries rulesVersion = .ok x) :
    Extensions.decode x.encode rulesVersion = .ok x := by
  have hread := (ByteCursor.extensions_inverts rulesVersion).read x h []
  rw [List.append_nil] at hread
  rw [Extensions.decode, hread]
  rfl

/-- **A valid envelope comes back** from its wire form -/
theorem toEnvelope_of_validFor {tag : DomainTag} {envelope : Envelope} (h : ValidFor tag envelope) :
    (EnvelopeWire.ofEnvelope envelope).toEnvelope tag = .ok envelope := by
  refine bind_eq_ok.2 ⟨_, decodeLowerHex_hexEncode _, ?_⟩
  refine bind_eq_ok.2 ⟨(), h.layout, bind_eq_ok.2 ⟨(), h.rules, ?_⟩⟩
  refine bind_eq_ok.2 ⟨_, decode_encode_of_new h.extensions, bind_eq_ok.2 ⟨(), h.understood, ?_⟩⟩
  exact bind_eq_ok.2 ⟨_, fromId_id _, rfl⟩

/-- **An accepted wire form is the one its envelope is stored as**, and its envelope is valid -/
theorem eq_ofEnvelope {tag : DomainTag} {wire : EnvelopeWire} {envelope : Envelope} (h : wire.toEnvelope tag = .ok envelope) :
    wire = EnvelopeWire.ofEnvelope envelope ∧ ValidFor tag envelope := by
  obtain ⟨bytes, hbytes, h⟩ := bind_eq_ok.1 h
  obtain ⟨⟨⟩, hlayout, h⟩ := bind_eq_ok.1 h
  obtain ⟨⟨⟩, hrules, h⟩ := bind_eq_ok.1 h
  obtain ⟨x, hx, h⟩ := bind_eq_ok.1 h
  obtain ⟨⟨⟩, hunderstood, h⟩ := bind_eq_ok.1 h
  obtain ⟨algo, halgo, h⟩ := bind_eq_ok.1 h
  cases h
  have hregion := Extensions.eq_encode_of_decode hx
  have htext := hexEncode_of_decodeLowerHex hbytes
  obtain ⟨layoutVersion, rulesVersion, hashAlgo, extensions⟩ := wire
  dsimp only at hlayout hrules hx halgo htext
  refine ⟨?_, ⟨hlayout, hrules, ?_, hunderstood⟩⟩
  · rw [EnvelopeWire.ofEnvelope, EnvelopeWire.mk.injEq]
    exact ⟨rfl, rfl, id_of_fromId halgo, by rw [← htext, hregion]⟩
  · obtain ⟨⟨y, rest⟩, hread, hlast⟩ := bind_eq_ok.1 hx
    dsimp only at hlast
    split_ifs at hlast with hrest
    cases hlast
    exact ((ByteCursor.extensions_inverts rulesVersion).written _ _ _ hread).1

/-! ## Rows -/

theorem checkLayout_eq_ok {tag : DomainTag} {version : UInt16} {u : Unit} (h : checkLayout tag version = .ok u) :
    1 ≤ version.toNat ∧ version.toNat < 2 ^ 15 := by
  unfold checkLayout at h
  have hrange : (layoutVersions tag).1 = 1 ∧ (layoutVersions tag).2 ≤ 2 := by cases tag <;> decide
  split_ifs at h with hhigh hlow
  rw [hrange.1, UInt16.lt_iff_toNat_lt] at hlow
  rw [gt_iff_lt, UInt16.lt_iff_toNat_lt, not_lt] at hhigh
  have hle := UInt16.le_iff_toNat_le.1 hrange.2
  have hone : (1 : UInt16).toNat = 1 := rfl
  have htwo : (2 : UInt16).toNat = 2 := rfl
  omega

theorem checkRules_eq_ok {version : UInt32} {u : Unit} (h : checkRules version = .ok u) :
    1 ≤ version.toNat ∧ version.toNat < 2 ^ 31 := by
  unfold checkRules rulesVersionMax rulesVersionMin at h
  split_ifs at h with hhigh hlow
  rw [UInt32.lt_iff_toNat_lt] at hlow
  rw [gt_iff_lt, UInt32.lt_iff_toNat_lt] at hhigh
  have hone : (1 : UInt32).toNat = 1 := rfl
  omega

/-- a valid envelope fits its columns -/
theorem fromEnvelope_of_validFor {tag : DomainTag} {envelope : Envelope} (h : ValidFor tag envelope) :
    ∃ row, EnvelopeRow.fromEnvelope envelope = .ok row ∧ row.toEnvelope tag = .ok envelope := by
  have hfit : envelope.layoutVersion.toNat < 2 ^ 15 ∧ envelope.rulesVersion.toNat < 2 ^ 31 :=
    ⟨(checkLayout_eq_ok h.layout).2, (checkRules_eq_ok h.rules).2⟩
  have hrow : EnvelopeRow.fromEnvelope envelope = .ok ⟨envelope.layoutVersion.toInt16, envelope.rulesVersion.toInt32,
      Int16.ofNat envelope.hashAlgo.id.toNat, envelope.extensions.encode⟩ := if_pos hfit
  refine ⟨_, hrow, mapError_eq_ok.2 ?_⟩
  rw [EnvelopeRow.toWire_of_fromEnvelope hrow]
  exact toEnvelope_of_validFor h

/-- a signed column that reads as a positive version is that version -/
theorem toInt16_ofNat {x : Int16} (h : 0 < x.toInt) :
    (UInt16.ofNat x.toInt.toNat).toNat < 2 ^ 15 ∧ (UInt16.ofNat x.toInt.toNat).toInt16 = x := by
  have hlt := x.toInt_lt
  have hto : (UInt16.ofNat x.toInt.toNat).toNat = x.toInt.toNat := UInt16.toNat_ofNat_of_lt' (by change _ < 2 ^ 16; omega)
  refine ⟨by omega, Int16.toInt_inj.1 ?_⟩
  rw [toInt_toInt16 (by omega), hto]
  omega

theorem toInt32_ofNat {x : Int32} (h : 0 < x.toInt) :
    (UInt32.ofNat x.toInt.toNat).toNat < 2 ^ 31 ∧ (UInt32.ofNat x.toInt.toNat).toInt32 = x := by
  have hlt := x.toInt_lt
  have hto : (UInt32.ofNat x.toInt.toNat).toNat = x.toInt.toNat := UInt32.toNat_ofNat_of_lt' (by change _ < 2 ^ 32; omega)
  refine ⟨by omega, Int32.toInt_inj.1 ?_⟩
  rw [toInt_toInt32 (by omega), hto]
  omega

/-- a hash algorithm of a row is no zero that stands for a column out of range -/
theorem hashAlgo_of_toWire {x : Int16} {algo : HashAlgo}
    (h : (if 0 ≤ x.toInt ∧ x.toInt < 2 ^ 8 then UInt8.ofNat x.toInt.toNat else 0) = algo.id) : Int16.ofNat algo.id.toNat = x := by
  split_ifs at h with hrange
  · have hto : (UInt8.ofNat x.toInt.toNat).toNat = x.toInt.toNat := UInt8.toNat_ofNat_of_lt' (by change _ < 2 ^ 8; omega)
    rw [← h, hto]
    apply Int16.toInt_inj.1
    rw [Int16.toInt_ofNat_of_lt (by omega)]
    omega
  · cases algo
    cases h

/-- **An accepted row is the one its envelope is stored as** -/
theorem fromEnvelope_of_toEnvelope {tag : DomainTag} {row : EnvelopeRow} {envelope : Envelope}
    (h : row.toEnvelope tag = .ok envelope) : EnvelopeRow.fromEnvelope envelope = .ok row := by
  obtain ⟨hwire, hvalid⟩ := eq_ofEnvelope (mapError_eq_ok.1 h)
  obtain ⟨layoutVersion, rulesVersion, hashAlgo, extensions⟩ := row
  rw [EnvelopeRow.toWire, EnvelopeWire.ofEnvelope, EnvelopeWire.mk.injEq] at hwire
  obtain ⟨hlayout, hrules, halgo, htext⟩ := hwire
  dsimp only at hlayout hrules halgo htext
  -- zero is no version, so the columns are positive
  have hlayoutPos : 0 < layoutVersion.toInt := by
    by_contra hneg
    have hone := (checkLayout_eq_ok hvalid.layout).1
    rw [← hlayout, Int.toNat_of_nonpos (by omega)] at hone
    exact absurd hone (by decide)
  have hrulesPos : 0 < rulesVersion.toInt := by
    by_contra hneg
    have hone := (checkRules_eq_ok hvalid.rules).1
    rw [← hrules, Int.toNat_of_nonpos (by omega)] at hone
    exact absurd hone (by decide)
  obtain ⟨hlayoutLt, hlayoutBack⟩ := toInt16_ofNat hlayoutPos
  obtain ⟨hrulesLt, hrulesBack⟩ := toInt32_ofNat hrulesPos
  have hbytes : envelope.extensions.encode = extensions := (hexText_inj htext).symm
  rw [EnvelopeRow.fromEnvelope, ← hlayout, ← hrules, if_pos ⟨hlayoutLt, hrulesLt⟩, hlayoutBack, hrulesBack,
    hashAlgo_of_toWire halgo, hbytes]

/-- **Envelope storage is lossless and canonical**: an envelope that is valid for a tag comes back from its wire form and from its
row; a wire form or row that is accepted, whatever its columns hold, is the one its envelope is stored as; and entries that fit the
length fields of a region are read from its bytes as they are checked, with the same extensions or the same error. -/
theorem envelope_storage :
    (∀ tag envelope, ValidFor tag envelope → (EnvelopeWire.ofEnvelope envelope).toEnvelope tag = .ok envelope ∧
      ∃ row, EnvelopeRow.fromEnvelope envelope = .ok row ∧ row.toEnvelope tag = .ok envelope) ∧
    (∀ (wire : EnvelopeWire) tag envelope, wire.toEnvelope tag = .ok envelope → wire = EnvelopeWire.ofEnvelope envelope) ∧
    (∀ (row : EnvelopeRow) tag envelope, row.toEnvelope tag = .ok envelope → EnvelopeRow.fromEnvelope envelope = .ok row) ∧
    ∀ (entries : List Extension) rulesVersion, entries.length < 2 ^ 16 → (∀ e ∈ entries, e.value.length < 2 ^ 32) →
      Extensions.decode (encodeEntries entries) rulesVersion = Extensions.new entries rulesVersion :=
  ⟨fun _ _ h => ⟨toEnvelope_of_validFor h, fromEnvelope_of_validFor h⟩, fun _ _ _ h => (eq_ofEnvelope h).1,
    fun _ _ _ h => fromEnvelope_of_toEnvelope h, decode_encodeEntries⟩

/-- what a node authors is valid -/
example : ValidFor .ledgerEntry (.current .ledgerEntry) := ⟨by decide +kernel, by decide +kernel, by decide +kernel, by decide +kernel⟩

/-- a row with a hash algorithm that does not fit its byte is refused, as one with zero -/
example : (EnvelopeRow.toEnvelope ⟨1, 1, 257, [0, 0]⟩ .ledgerEntry).toOption = none := by decide +kernel

end Avalon.EnvelopeStorage
