/-
Byte strings, fixed-width byte arrays, big-endian integers and hexadecimal text.

- `FixedBytes n` is the type of arrays of exactly n bytes (keys, hashes, signatures, UUIDs): the width is carried by
  the type, so a value of the wrong width cannot be built.
- `beBytes w n` writes n modulo 256^w in w bytes, most significant first.
- `hexEncode` writes lowercase hex, two digits a byte. `hexDecode` reads the UTF-8 bytes of a text: it accepts both cases
  and refuses an odd length or a byte that is not a hex digit, as the usual hex codecs do.

Results used by the developments above: `append_inj_fixed` (two fixed-width fields in a row are read back uniquely),
`beNat_beBytes` and `beBytes_beNat` (big-endian reading and writing are inverse), `ofUtf8?_utf8` and
`hexDecode_hexEncode` (decoding inverts encoding).
-/
import Mathlib.Tactic
import Mathlib.Data.Vector.Basic

/-! ## Fixed-width arrays -/

abbrev Bytes := List UInt8

/-- an array of exactly n bytes -/
abbrev FixedBytes (n : ℕ) := List.Vector UInt8 n

namespace FixedBytes

/-- the array, when the list has the right width -/
def ofList? (n : ℕ) (l : Bytes) : Option (FixedBytes n) := if h : l.length = n then some ⟨l, h⟩ else none

/-- n copies of one byte -/
def replicate (n : ℕ) (b : UInt8) : FixedBytes n := List.Vector.replicate n b

theorem toList_inj {n : ℕ} {a b : FixedBytes n} (h : a.toList = b.toList) : a = b := Subtype.ext h

theorem ofList?_toList {n : ℕ} (v : FixedBytes n) : ofList? n v.toList = some v := by
  simp only [ofList?, List.Vector.toList_length, dif_pos]
  rfl

theorem toList_of_ofList? {n : ℕ} {l : Bytes} {v : FixedBytes n} (h : ofList? n l = some v) : v.toList = l := by
  simp only [ofList?] at h
  split_ifs at h
  cases h
  rfl

/-- two arrays written one after the other are read back uniquely when the first has a fixed width -/
theorem append_inj_fixed {n : ℕ} {a c : FixedBytes n} {b d : Bytes} (h : a.toList ++ b = c.toList ++ d) :
    a = c ∧ b = d := by
  obtain ⟨h1, h2⟩ := List.append_inj h (by simp)
  exact ⟨toList_inj h1, h2⟩

end FixedBytes

/-! ## Integers and text -/

/-- n modulo 256^w, big-endian, in w bytes -/
def beBytes : ℕ → ℕ → Bytes
  | 0, _ => []
  | w + 1, n => UInt8.ofNat (n / 256 ^ w) :: beBytes w n

@[simp] theorem beBytes_length (w n : ℕ) : (beBytes w n).length = w := by
  induction w with
  | zero => rfl
  | succ w ih => simp [beBytes, ih]

/-- the number a big-endian byte string writes -/
def beNat (bs : Bytes) : ℕ := bs.foldl (fun acc b => 256 * acc + b.toNat) 0

theorem beNat_concat (bs : Bytes) (b : UInt8) : beNat (bs ++ [b]) = 256 * beNat bs + b.toNat := by simp [beNat]

theorem beNat_cons (b : UInt8) (bs : Bytes) : beNat (b :: bs) = b.toNat * 256 ^ bs.length + beNat bs := by
  induction bs using List.reverseRecOn with
  | nil => simp [beNat]
  | append_singleton bs c ih =>
    rw [← List.cons_append, beNat_concat, beNat_concat, ih, List.length_append, List.length_singleton, pow_succ]
    ring

theorem beNat_lt (bs : Bytes) : beNat bs < 256 ^ bs.length := by
  induction bs with
  | nil => simp [beNat]
  | cons b bs ih =>
    have hb : b.toNat ≤ 255 := Nat.le_of_lt_succ b.toNat_lt
    rw [beNat_cons, List.length_cons, pow_succ]
    calc b.toNat * 256 ^ bs.length + beNat bs
        < b.toNat * 256 ^ bs.length + 256 ^ bs.length := Nat.add_lt_add_left ih _
      _ ≤ 255 * 256 ^ bs.length + 256 ^ bs.length := Nat.add_le_add_right (Nat.mul_le_mul_right _ hb) _
      _ = 256 ^ bs.length * 256 := by ring

/-- reading back a written number -/
theorem beNat_beBytes (w n : ℕ) : beNat (beBytes w n) = n % 256 ^ w := by
  induction w with
  | zero => simp [beBytes, beNat, Nat.mod_one]
  | succ w ih =>
    have hb : (UInt8.ofNat (n / 256 ^ w)).toNat = n / 256 ^ w % 256 := UInt8.toNat_ofNat'
    rw [beBytes, beNat_cons, beBytes_length, ih, hb, pow_succ, Nat.mod_mul]
    ring

/-- numbers of one width are written differently -/
theorem beBytes_inj {w m n : ℕ} (hm : m < 256 ^ w) (hn : n < 256 ^ w) (h : beBytes w m = beBytes w n) : m = n := by
  have hnat := congrArg beNat h
  rwa [beNat_beBytes, beNat_beBytes, Nat.mod_eq_of_lt hm, Nat.mod_eq_of_lt hn] at hnat

/-- writing back a read number -/
theorem beBytes_beNat (bs : Bytes) : beBytes bs.length (beNat bs) = bs := by
  -- only the low digits matter to the tail, so the induction carries a multiple of the weight above it
  have key : ∀ (bs : Bytes) (m : ℕ), beBytes bs.length (m * 256 ^ bs.length + beNat bs) = bs := by
    intro bs
    induction bs with
    | nil => simp [beBytes]
    | cons b bs ih =>
      intro m
      have hpos : 0 < 256 ^ bs.length := by positivity
      have hsum : m * 256 ^ (b :: bs).length + beNat (b :: bs) =
          (m * 256 + b.toNat) * 256 ^ bs.length + beNat bs := by
        rw [beNat_cons, List.length_cons, pow_succ]
        ring
      have hdiv : ((m * 256 + b.toNat) * 256 ^ bs.length + beNat bs) / 256 ^ bs.length = m * 256 + b.toNat := by
        rw [Nat.mul_comm, Nat.mul_add_div hpos, Nat.div_eq_of_lt (beNat_lt bs), Nat.add_zero]
      rw [hsum, List.length_cons, beBytes, hdiv, ih]
      congr 1
      apply UInt8.toNat_inj.1
      rw [UInt8.toNat_ofNat', Nat.mul_add_mod_of_lt b.toNat_lt]
  simpa using key bs 0

/-- the UTF-8 bytes of a text -/
def utf8 (s : String) : Bytes := s.toUTF8.data.toList

/-- the text of valid UTF-8 bytes -/
def ofUtf8? (bs : Bytes) : Option String := String.fromUTF8? ⟨bs.toArray⟩

theorem utf8_inj {s t : String} (h : utf8 s = utf8 t) : s = t := by
  apply String.toByteArray_inj.1
  apply ByteArray.ext
  exact Array.toList_inj.1 h

theorem ofUtf8?_utf8 (s : String) : ofUtf8? (utf8 s) = some s := by
  have hb : (⟨(utf8 s).toArray⟩ : ByteArray) = s.toByteArray := by
    apply ByteArray.ext
    simp [utf8]
  rw [ofUtf8?, hb, String.fromUTF8?, dif_pos s.isValidUTF8]
  rfl

theorem utf8_of_ofUtf8? {bs : Bytes} {s : String} (h : ofUtf8? bs = some s) : utf8 s = bs := by
  rw [ofUtf8?, String.fromUTF8?] at h
  split_ifs at h with hv
  obtain rfl : String.fromUTF8 _ hv = s := Option.some.inj h
  simp [utf8, String.fromUTF8]

/-! ## Hexadecimal -/

def hexDigit (n : ℕ) : Char := if n < 10 then Char.ofNat (48 + n) else Char.ofNat (87 + n)

def hexEncode (bs : Bytes) : String :=
  String.ofList (bs.flatMap fun b => [hexDigit (b.toNat / 16), hexDigit (b.toNat % 16)])

/-- the value of an ASCII hex digit of either case -/
def hexValue (c : UInt8) : Option ℕ :=
  if 0x30 ≤ c ∧ c ≤ 0x39 then some (c.toNat - 48)
  else if 0x61 ≤ c ∧ c ≤ 0x66 then some (c.toNat - 87)
  else if 0x41 ≤ c ∧ c ≤ 0x46 then some (c.toNat - 55)
  else none

def hexPairs : Bytes → Option Bytes
  | [] => some []
  | [_] => none
  | a :: b :: rest => do
    let x ← hexValue a
    let y ← hexValue b
    let bs ← hexPairs rest
    return UInt8.ofNat (16 * x + y) :: bs

def hexDecode (s : String) : Option Bytes := hexPairs (utf8 s)

/-- the array a hex text writes, or zeros -/
def FixedBytes.ofHex (n : ℕ) (s : String) : FixedBytes n :=
  ((hexDecode s).bind (FixedBytes.ofList? n)).getD (FixedBytes.replicate n 0)

theorem utf8_ofList (cs : List Char) : utf8 (String.ofList cs) = cs.flatMap String.utf8EncodeChar := by
  rw [utf8, String.toUTF8_eq_toByteArray, String.toByteArray_ofList, List.utf8Encode]
  simp

/-- the ASCII code of a hex digit -/
def hexByte (n : ℕ) : UInt8 := if n < 10 then UInt8.ofNat (48 + n) else UInt8.ofNat (87 + n)

theorem utf8EncodeChar_hexDigit (n : ℕ) (h : n < 16) : String.utf8EncodeChar (hexDigit n) = [hexByte n] := by
  interval_cases n <;> decide

theorem hexValue_hexByte (n : ℕ) (h : n < 16) : hexValue (hexByte n) = some n := by
  interval_cases n <;> decide

/-- what decodes consists of digits -/
theorem hexValue_of_hexPairs {cs bs : Bytes} (h : hexPairs cs = some bs) : ∀ c ∈ cs, (hexValue c).isSome = true := by
  induction cs using hexPairs.induct generalizing bs with
  | case1 => simp
  | case2 _ => cases h
  | case3 a b rest ih =>
    obtain ⟨x, hx, h⟩ := Option.bind_eq_some_iff.1 h
    obtain ⟨y, hy, h⟩ := Option.bind_eq_some_iff.1 h
    obtain ⟨bs', hbs, -⟩ := Option.bind_eq_some_iff.1 h
    simpa [hx, hy] using ih hbs

/-- the bytes of a hex text -/
theorem utf8_hexEncode (bs : Bytes) :
    utf8 (hexEncode bs) = bs.flatMap fun b => [hexByte (b.toNat / 16), hexByte (b.toNat % 16)] := by
  rw [hexEncode, utf8_ofList, List.flatMap_assoc]
  apply List.flatMap_congr
  intro b _
  have hb : b.toNat < 256 := b.toNat_lt
  rw [List.flatMap_cons, List.flatMap_singleton, utf8EncodeChar_hexDigit _ (by omega),
    utf8EncodeChar_hexDigit _ (by omega)]
  rfl

/-- **Decoding inverts encoding**: the hex text of a byte string decodes to that byte string -/
theorem hexDecode_hexEncode (bs : Bytes) : hexDecode (hexEncode bs) = some bs := by
  rw [hexDecode, utf8_hexEncode]
  induction bs with
  | nil => rfl
  | cons b bs ih =>
    have hb : b.toNat < 256 := b.toNat_lt
    have hx : b.toNat / 16 < 16 := by omega
    have hy : b.toNat % 16 < 16 := by omega
    simp only [List.flatMap_cons, List.cons_append, List.nil_append, hexPairs, hexValue_hexByte _ hx,
      hexValue_hexByte _ hy, ih, Option.bind_eq_bind, Option.bind_some]
    have : 16 * (b.toNat / 16) + b.toNat % 16 = b.toNat := by omega
    rw [this, UInt8.ofNat_toNat]
    rfl

theorem hexText_inj {a b : Bytes} (h : hexEncode a = hexEncode b) : a = b := by
  have hdecode := congrArg hexDecode h
  rw [hexDecode_hexEncode, hexDecode_hexEncode] at hdecode
  exact Option.some.inj hdecode

/-- arrays with one hex text are equal -/
theorem FixedBytes.hexEncode_inj {n : ℕ} {a b : FixedBytes n} (h : hexEncode a.toList = hexEncode b.toList) : a = b :=
  toList_inj (hexText_inj h)
