/-
SHA-256 (FIPS 180-4) on byte lists.

Words are natural numbers below 2^32; every sum is reduced by `word`. The message schedule is a sliding window of the
next sixteen words: each round consumes the first word of the window and appends the word `expand` computes from it.
The digest has 32 bytes by construction (`hash`).

The definitions are structural recursions, so the kernel evaluates a digest; the examples are published test vectors.
-/
import Avalon.Core.Bytes

namespace Sha256

/-! ## The round functions -/

def word (n : ℕ) : ℕ := n % 2 ^ 32

def rotr (n x : ℕ) : ℕ := (x >>> n) ||| word (x <<< (32 - n))

def ch (x y z : ℕ) : ℕ := (x &&& y) ^^^ ((2 ^ 32 - 1 - x) &&& z)

def maj (x y z : ℕ) : ℕ := (x &&& y) ^^^ (x &&& z) ^^^ (y &&& z)

def bigSigma0 (x : ℕ) : ℕ := rotr 2 x ^^^ rotr 13 x ^^^ rotr 22 x

def bigSigma1 (x : ℕ) : ℕ := rotr 6 x ^^^ rotr 11 x ^^^ rotr 25 x

def smallSigma0 (x : ℕ) : ℕ := rotr 7 x ^^^ rotr 18 x ^^^ (x >>> 3)

def smallSigma1 (x : ℕ) : ℕ := rotr 17 x ^^^ rotr 19 x ^^^ (x >>> 10)

/-- the first 32 bits of the fractional parts of the cube roots of the first 64 primes -/
def roundConstants : List ℕ :=
  [0x428a2f98, 0x71374491, 0xb5c0fbcf, 0xe9b5dba5, 0x3956c25b, 0x59f111f1, 0x923f82a4, 0xab1c5ed5,
   0xd807aa98, 0x12835b01, 0x243185be, 0x550c7dc3, 0x72be5d74, 0x80deb1fe, 0x9bdc06a7, 0xc19bf174,
   0xe49b69c1, 0xefbe4786, 0x0fc19dc6, 0x240ca1cc, 0x2de92c6f, 0x4a7484aa, 0x5cb0a9dc, 0x76f988da,
   0x983e5152, 0xa831c66d, 0xb00327c8, 0xbf597fc7, 0xc6e00bf3, 0xd5a79147, 0x06ca6351, 0x14292967,
   0x27b70a85, 0x2e1b2138, 0x4d2c6dfc, 0x53380d13, 0x650a7354, 0x766a0abb, 0x81c2c92e, 0x92722c85,
   0xa2bfe8a1, 0xa81a664b, 0xc24b8b70, 0xc76c51a3, 0xd192e819, 0xd6990624, 0xf40e3585, 0x106aa070,
   0x19a4c116, 0x1e376c08, 0x2748774c, 0x34b0bcb5, 0x391c0cb3, 0x4ed8aa4a, 0x5b9cca4f, 0x682e6ff3,
   0x748f82ee, 0x78a5636f, 0x84c87814, 0x8cc70208, 0x90befffa, 0xa4506ceb, 0xbef9a3f7, 0xc67178f2]

/-- the first 32 bits of the fractional parts of the square roots of the first 8 primes -/
def initialState : List ℕ :=
  [0x6a09e667, 0xbb67ae85, 0x3c6ef372, 0xa54ff53a, 0x510e527f, 0x9b05688c, 0x1f83d9ab, 0x5be0cd19]

/-! ## Compression -/

/-- the schedule word that follows a window of sixteen: σ1(w14) + w9 + σ0(w1) + w0 -/
def expand : List ℕ → ℕ
  | w0 :: w1 :: _ :: _ :: _ :: _ :: _ :: _ :: _ :: w9 :: _ :: _ :: _ :: _ :: w14 :: _ =>
    word (smallSigma1 w14 + w9 + smallSigma0 w1 + w0)
  | _ => 0

def rounds : List ℕ → List ℕ → List ℕ → List ℕ
  | k :: ks, w :: ws, [a, b, c, d, e, f, g, h] =>
    let t1 := h + bigSigma1 e + ch e f g + k + w
    let t2 := bigSigma0 a + maj a b c
    rounds ks (ws ++ [expand (w :: ws)]) [word (t1 + t2), a, b, c, word (d + t1), e, f, g]
  | _, _, s => s

def compress (state block : List ℕ) : List ℕ :=
  List.zipWith (fun x y => word (x + y)) state (rounds roundConstants block state)

/-- the first k big-endian 32-bit words of a byte string -/
def words : ℕ → Bytes → List ℕ
  | 0, _ => []
  | k + 1, bs => beNat (bs.take 4) :: words k (bs.drop 4)

/-- the chaining state after the next k blocks of 64 bytes -/
def blocks : ℕ → Bytes → List ℕ → List ℕ
  | 0, _, s => s
  | k + 1, bs, s => blocks k (bs.drop 64) (compress s (words 16 bs))

/-- a one bit, zeros, and the bit length in 64 bits, to a multiple of 64 bytes -/
def pad (msg : Bytes) : Bytes :=
  msg ++ 0x80 :: List.replicate ((119 - msg.length % 64) % 64) 0 ++ beBytes 8 (8 * msg.length)

def hashList (msg : Bytes) : Bytes :=
  let padded := pad msg
  (blocks (padded.length / 64) padded initialState).flatMap (beBytes 4)

/-! ## The digest has 32 bytes -/

theorem rounds_length (ks ws s : List ℕ) : (rounds ks ws s).length = s.length := by
  fun_induction rounds ks ws s with
  | case1 _ _ _ _ _ _ _ _ _ _ _ _ _ _ ih => rw [ih]; rfl
  | case2 => rfl

theorem compress_length (s block : List ℕ) : (compress s block).length = s.length := by
  simp [compress, rounds_length]

theorem blocks_length (k : ℕ) (bs : Bytes) (s : List ℕ) : (blocks k bs s).length = s.length := by
  induction k generalizing bs s with
  | zero => rfl
  | succ k ih => simp only [blocks]; rw [ih, compress_length]

theorem hashList_length (msg : Bytes) : (hashList msg).length = 32 := by
  simp [hashList, List.length_flatMap, blocks_length, initialState]

/-- the SHA-256 digest -/
def hash (msg : Bytes) : FixedBytes 32 := ⟨hashList msg, hashList_length msg⟩

example : hexEncode (hash []).toList = "e3b0c44298fc1c149afbf4c8996fb92427ae41e4649b934ca495991b7852b855" := by
  decide +kernel

example : hexEncode (hash (utf8 "abc")).toList =
    "ba7816bf8f01cfea414140de5dae2223b00361a396177a9cb410ff61f20015ad" := by
  decide +kernel

end Sha256
