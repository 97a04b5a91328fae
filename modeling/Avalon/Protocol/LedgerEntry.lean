/-
The ledger entry hash (`crates/protocol/src/ledger_entry.rs`).

An entry commits to the payload hash, not to the payload. Instants are nanoseconds since the Unix epoch; the ledger
stores whole microseconds.
-/
import Mathlib.Tactic
import Avalon.Core.Bytes
import Avalon.Protocol.SigningBytes

namespace Avalon.LedgerEntry

open Avalon.SigningBytes

inductive EntryHashError where
  | invalidHash (name : String)
  | outOfRange (name : String)
  | layout (e : SigningBytesError)
deriving DecidableEq, Repr

/-! ## Instants -/

/-- an instant of the `time` crate, in nanoseconds since the Unix epoch -/
abbrev OffsetDateTime := ℤ

namespace OffsetDateTime

/-- whole seconds, rounded down -/
def unixTimestamp (t : OffsetDateTime) : Int64 := Int64.ofInt (t / 1000000000)

/-- the years -9999 to 9999 -/
def fromUnixTimestampNanos (nanos : ℤ) : Option OffsetDateTime :=
  if -377705116800 * 1000000000 ≤ nanos ∧ nanos < 253402300800 * 1000000000 then some nanos else none

end OffsetDateTime

/-- whole microseconds, rounded down -/
def timestampMicros (time : OffsetDateTime) : Except EntryHashError Int64 :=
  let micros := time / 1000
  if Int64.minValue.toInt ≤ micros ∧ micros ≤ Int64.maxValue.toInt then .ok (Int64.ofInt micros)
  else .error (.outOfRange "timestamp")

/-- the instant that is both hashed and stored -/
def floorToMicros (time : OffsetDateTime) : Except EntryHashError OffsetDateTime := do
  let micros ← timestampMicros time
  match OffsetDateTime.fromUnixTimestampNanos (micros.toInt * 1000) with
  | some t => .ok t
  | none => .error (.outOfRange "timestamp")

/-! ## Hashes -/

def isLowerHex (b : UInt8) : Bool := (0x30 ≤ b && b ≤ 0x39) || (0x61 ≤ b && b ≤ 0x66)

/-- 64 lowercase hex characters as raw bytes -/
def parseHash (name : String) (text : String) : Except EntryHashError (FixedBytes 32) :=
  if (utf8 text).length ≠ 64 ∨ !(utf8 text).all isLowerHex then .error (.invalidHash name)
  else
    match (hexDecode text).bind (FixedBytes.ofList? 32) with
    | some out => .ok out
    | none => .error (.invalidHash name)

/-- a lowercase hex digit is the digit of its value -/
theorem hexByte_of_hexValue {c : UInt8} {n : ℕ} (hc : isLowerHex c = true) (h : hexValue c = some n) :
    n < 16 ∧ hexByte n = c := by
  have hself : UInt8.ofNat c.toNat = c := UInt8.ofNat_toNat
  simp only [isLowerHex, Bool.or_eq_true, Bool.and_eq_true, decide_eq_true_eq, UInt8.le_iff_toNat_le] at hc
  simp only [hexValue, UInt8.le_iff_toNat_le] at h
  rcases hc with ⟨h1, h2⟩ | ⟨h1, h2⟩ <;> simp only [UInt8.reduceToNat] at h1 h2 h
  · rw [if_pos ⟨h1, h2⟩] at h
    obtain rfl : c.toNat - 48 = n := Option.some.inj h
    rw [hexByte, if_pos (by omega), Nat.add_sub_cancel' h1]
    exact ⟨by omega, hself⟩
  · rw [if_neg (by omega), if_pos ⟨h1, h2⟩] at h
    obtain rfl : c.toNat - 87 = n := Option.some.inj h
    rw [hexByte, if_neg (by omega), Nat.add_sub_cancel' (by omega)]
    exact ⟨by omega, hself⟩

theorem hexPairs_lower (cs : Bytes) (hc : cs.all isLowerHex = true) (bs : Bytes) (h : hexPairs cs = some bs) :
    cs = bs.flatMap fun b => [hexByte (b.toNat / 16), hexByte (b.toNat % 16)] := by
  induction cs using hexPairs.induct generalizing bs with
  | case1 =>
    obtain rfl : [] = bs := Option.some.inj h
    rfl
  | case2 _ => cases h
  | case3 a b rest ih =>
    simp only [List.all_cons, Bool.and_eq_true] at hc
    obtain ⟨x, hx, h⟩ := Option.bind_eq_some_iff.1 h
    obtain ⟨y, hy, h⟩ := Option.bind_eq_some_iff.1 h
    obtain ⟨bs', hbs, h⟩ := Option.bind_eq_some_iff.1 h
    obtain rfl : UInt8.ofNat (16 * x + y) :: bs' = bs := Option.some.inj h
    obtain ⟨hx16, hxa⟩ := hexByte_of_hexValue hc.1 hx
    obtain ⟨hy16, hyb⟩ := hexByte_of_hexValue hc.2.1 hy
    have hto : (UInt8.ofNat (16 * x + y)).toNat = 16 * x + y := by
      rw [UInt8.toNat_ofNat', Nat.mod_eq_of_lt (by omega)]
    have hdiv : (16 * x + y) / 16 = x := by omega
    have hmod : (16 * x + y) % 16 = y := by omega
    rw [List.flatMap_cons, hto, hdiv, hmod, hxa, hyb, ← ih hc.2.2 bs' hbs]
    rfl

theorem hexEncode_of_hexDecode {text : String} {bs : Bytes} (hl : (utf8 text).all isLowerHex = true)
    (h : hexDecode text = some bs) : hexEncode bs = text := by
  apply utf8_inj
  rw [utf8_hexEncode, ← hexPairs_lower (utf8 text) hl bs h]

theorem hexEncode_isLowerHex (bs : Bytes) : (utf8 (hexEncode bs)).all isLowerHex = true := by
  have key : ∀ n < 16, isLowerHex (hexByte n) = true := by decide
  rw [utf8_hexEncode, List.all_eq_true]
  intro c hc
  obtain ⟨b, -, hc⟩ := List.mem_flatMap.1 hc
  have hb : b.toNat < 256 := b.toNat_lt
  simp only [List.mem_cons, List.not_mem_nil, or_false] at hc
  rcases hc with rfl | rfl
  · exact key _ (by omega)
  · exact key _ (by omega)

theorem hexEncode_length (bs : Bytes) : (utf8 (hexEncode bs)).length = 2 * bs.length := by
  rw [utf8_hexEncode, List.length_flatMap]
  simp [Nat.mul_comm]

/-- the only text of a hash is its lowercase hex -/
theorem parseHash_eq_ok_iff {name text : String} {hash : FixedBytes 32} :
    parseHash name text = .ok hash ↔ text = hexEncode hash.toList := by
  constructor
  · intro h
    simp only [parseHash] at h
    split_ifs at h with hbad
    rw [not_or, not_not, Bool.not_eq_true, Bool.not_eq_eq_eq_not, Bool.not_false] at hbad
    split at h
    · rename_i out hout
      cases h
      obtain ⟨bs, hbs, hof⟩ := Option.bind_eq_some_iff.1 hout
      rw [FixedBytes.toList_of_ofList? hof, hexEncode_of_hexDecode hbad.2 hbs]
    · cases h
  · rintro rfl
    simp only [parseHash, hexEncode_length, hexEncode_isLowerHex, List.Vector.toList_length, ne_eq, not_true_eq_false,
      Bool.not_true, Bool.false_eq_true, or_self, if_false, hexDecode_hexEncode, Option.bind_some,
      FixedBytes.ofList?_toList]

theorem parseHash_inj {name a b : String} {hash : FixedBytes 32} (ha : parseHash name a = .ok hash)
    (hb : parseHash name b = .ok hash) : a = b := by
  rw [parseHash_eq_ok_iff.1 ha, parseHash_eq_ok_iff.1 hb]

/-- every field the entry hash covers -/
@[ext] structure EntryHashInput where
  networkId : String
  shardId : String
  seq : UInt64
  prevHash : FixedBytes 32
  eventId : FixedBytes 16
  kind : String
  issuer : String
  subject : String
  payloadHash : FixedBytes 32
  timestampMicros : Int64
  eventVersion : UInt32
  envelope : Envelope

/-- the bytes the entry hash digests -/
def entrySigningBytes (input : EntryHashInput) : Except EntryHashError Bytes :=
  ((Builder.withEnvelope .ledgerEntry input.envelope)
    |>.str input.networkId
    |>.str input.shardId
    |>.u64 input.seq
    |>.uuid input.eventId
    |>.str input.kind
    |>.str input.issuer
    |>.str input.subject
    |>.u32 input.eventVersion
    |>.i64 input.timestampMicros
    |>.hashAlgo input.envelope.hashAlgo
    |>.hash input.prevHash
    |>.hash input.payloadHash
    |>.finish).mapError .layout

def entryHash (input : EntryHashInput) : Except EntryHashError (FixedBytes 32) := do
  let message ← entrySigningBytes input
  return input.envelope.hashAlgo.digest message

end Avalon.LedgerEntry
