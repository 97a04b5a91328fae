/-
Standard base64, as the strict decoders read it: the alphabet A-Z a-z 0-9 + /, whole groups of four, padding required,
and no bits left over in the last group.
-/
import Mathlib.Tactic
import Avalon.Core.Bytes

namespace Base64

/-- the six bits of a symbol -/
def symbolValue (c : UInt8) : Option ℕ :=
  if 0x41 ≤ c ∧ c ≤ 0x5a then some (c.toNat - 65)
  else if 0x61 ≤ c ∧ c ≤ 0x7a then some (c.toNat - 71)
  else if 0x30 ≤ c ∧ c ≤ 0x39 then some (c.toNat + 4)
  else if c = 0x2b then some 62
  else if c = 0x2f then some 63
  else none

/-- the bytes of the groups; padding stands only at the end of the last one -/
def groups : Bytes → Option Bytes
  | [] => some []
  | [a, b, 0x3d, 0x3d] => do
    let x ← symbolValue a
    let y ← symbolValue b
    if y % 16 = 0 then some [UInt8.ofNat (4 * x + y / 16)] else none
  | [a, b, c, 0x3d] => do
    let x ← symbolValue a
    let y ← symbolValue b
    let z ← symbolValue c
    if z % 4 = 0 then some [UInt8.ofNat (4 * x + y / 16), UInt8.ofNat (16 * (y % 16) + z / 4)] else none
  | a :: b :: c :: d :: rest => do
    let x ← symbolValue a
    let y ← symbolValue b
    let z ← symbolValue c
    let w ← symbolValue d
    let bs ← groups rest
    return UInt8.ofNat (4 * x + y / 16) :: UInt8.ofNat (16 * (y % 16) + z / 4) :: UInt8.ofNat (64 * (z % 4) + w) :: bs
  | _ => none

def decode (text : String) : Option Bytes := groups (utf8 text)

example : decode "TGVhbg==" = some (utf8 "Lean") := by decide +kernel

end Base64
