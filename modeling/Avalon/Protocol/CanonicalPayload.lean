/-
The canonical encoding of payloads and the strict parser (`crates/protocol/src/canonical_payload.rs`).

The writer prints a value with object keys in the order of their UTF-16 units, with the shortest escapes, and with the
numbers an IEEE double keeps: integers up to 2^53, other numbers of at most 15 significant digits as ECMAScript prints
them. The parser is a scanner of its own. It works on what is left of the text, so a byte position is the length of the
whole text less the length of the rest; a nesting level is a level of the recursion, `MAX_DEPTH` + 1 of them.
-/
import Mathlib.Tactic
import Mathlib.Data.List.Sort
import Avalon.Core.Fallible
import Avalon.Core.Json

namespace Avalon.CanonicalPayload

open Json

variable {F : Type} [F64 F]

/-- largest integer magnitude an IEEE double represents exactly -/
def MAX_SAFE_INTEGER : ℕ := 2 ^ 53

/-- most significant digits a non-integer number may carry -/
def MAX_SIGNIFICANT_DIGITS : ℕ := 15

/-- deepest object/array nesting a payload may have -/
def MAX_DEPTH : ℕ := 128

inductive CanonicalPayloadError where
  | invalidNumber (number : String)
  | duplicateKey (key : String)
  | nulCharacter
  | malformed (what : String)
  | tooDeep
deriving DecidableEq, Repr

/-- the code shared with the conformance vectors -/
def CanonicalPayloadError.code : CanonicalPayloadError → String
  | .invalidNumber _ => "invalid_number"
  | .duplicateKey _ => "duplicate_key"
  | .nulCharacter => "nul_character"
  | .malformed _ => "malformed"
  | .tooDeep => "too_deep"

/-- U+0000 -/
def nul : Char := Char.ofNat 0

def checkString (s : List Char) : Except CanonicalPayloadError Unit :=
  if nul ∈ s then .error .nulCharacter else .ok ()

/-! ## The writer -/

def intText (i : ℤ) : List Char := if i < 0 then '-' :: Nat.toDigits 10 i.natAbs else Nat.toDigits 10 i.natAbs

def safeInteger (i : ℤ) : Except CanonicalPayloadError (List Char) :=
  if i.natAbs ≤ MAX_SAFE_INTEGER then .ok (intText i) else .error (.invalidNumber (String.ofList (intText i)))

/-- the digits of a double and its decimal point in the layout of ECMAScript: the point after n digits -/
def layoutDigits (digits : List Char) (n : ℤ) : List Char :=
  let k : ℤ := digits.length
  if k ≤ n ∧ n ≤ 21 then digits ++ List.replicate (n - k).toNat '0'
  else if 0 < n ∧ n ≤ 21 then digits.take n.toNat ++ '.' :: digits.drop n.toNat
  else if -6 < n ∧ n ≤ 0 then '0' :: '.' :: List.replicate (-n).toNat '0' ++ digits
  else
    let e := n - 1
    let mantissa := if 1 < k then digits.take 1 ++ '.' :: digits.drop 1 else digits.take 1
    mantissa ++ 'e' :: (if e < 0 then '-' else '+') :: Nat.toDigits 10 e.natAbs

/-- the ECMAScript text of a double; none when it is not a valid payload number -/
def floatText (f : F) : Option (List Char) :=
  if F64.isZero f then some ['0']
  else if F64.isIntegral f && decide (MAX_SAFE_INTEGER < (F64.trunc f).natAbs) then none
  else
    let digits := F64.digits f
    if !F64.isIntegral f && decide (MAX_SIGNIFICANT_DIGITS < digits.length) then none
    else
      let body := layoutDigits digits (F64.exponent f + 1)
      some (if F64.isNegative f then '-' :: body else body)

def numberText : Number F → Except CanonicalPayloadError (List Char)
  | .posInt u => safeInteger u.toNat
  | .negInt i _ => safeInteger i.toInt
  | .float f =>
    match floatText f with
    | some text => .ok text
    | none => .error (.invalidNumber (F64.display f))

def escapeChar (c : Char) : List Char :=
  if c = '"' then ['\\', '"']
  else if c = '\\' then ['\\', '\\']
  else if c = Char.ofNat 0x8 then ['\\', 'b']
  else if c = '\t' then ['\\', 't']
  else if c = '\n' then ['\\', 'n']
  else if c = Char.ofNat 0xc then ['\\', 'f']
  else if c = '\r' then ['\\', 'r']
  else if c.toNat < 0x20 then ['\\', 'u', '0', '0', Nat.digitChar (c.toNat / 16), Nat.digitChar (c.toNat % 16)]
  else [c]

def writeString (s : String) : Except CanonicalPayloadError (List Char) := do
  checkString s.toList
  return '"' :: s.toList.flatMap escapeChar ++ ['"']

/-- the UTF-16 units of a character -/
def encodeUtf16 (c : Char) : List ℕ :=
  if c.toNat < 0x10000 then [c.toNat]
  else [0xD800 + (c.toNat - 0x10000) / 1024, 0xDC00 + (c.toNat - 0x10000) % 1024]

def utf16 (s : String) : List ℕ := s.toList.flatMap encodeUtf16

/-- the order of `cmp_utf16` -/
def keyBefore {V : Type} (a b : String × V) : Prop := utf16 a.1 ≤ utf16 b.1

instance {V : Type} : DecidableRel (keyBefore (V := V)) := fun a b => inferInstanceAs (Decidable (utf16 a.1 ≤ utf16 b.1))

/-- the entries in the order they are written -/
def sortEntries {V : Type} (entries : List (String × V)) : List (String × V) := entries.insertionSort keyBefore

/-- the texts with commas in between -/
def separated : List (List Char) → List Char
  | [] => []
  | [t] => t
  | t :: ts => t ++ ',' :: separated ts

def writeEntry (write : Value F → Except CanonicalPayloadError (List Char)) (e : String × Value F) :
    Except CanonicalPayloadError (List Char) := do
  let key ← writeString e.1
  let item ← write e.2
  return key ++ ':' :: item

omit [F64 F] in
theorem writeEntry_eq_ok {write : Value F → Except CanonicalPayloadError (List Char)} {e : String × Value F}
    {text : List Char} :
    writeEntry write e = .ok text ↔
      ∃ key item, writeString e.1 = .ok key ∧ write e.2 = .ok item ∧ text = key ++ ':' :: item := by
  unfold writeEntry
  constructor
  · intro h
    obtain ⟨key, hkey, h⟩ := Fallible.bind_eq_ok.1 h
    obtain ⟨item, hitem, h⟩ := Fallible.bind_eq_ok.1 h
    cases h
    exact ⟨key, item, hkey, hitem, rfl⟩
  · rintro ⟨key, item, hkey, hitem, rfl⟩
    rw [hkey, hitem]
    rfl

/-- writes a value that may nest that many levels deep, its own included -/
def writeValue : ℕ → Value F → Except CanonicalPayloadError (List Char)
  | 0, _ => .error .tooDeep
  | _ + 1, .null => .ok ['n', 'u', 'l', 'l']
  | _ + 1, .bool true => .ok ['t', 'r', 'u', 'e']
  | _ + 1, .bool false => .ok ['f', 'a', 'l', 's', 'e']
  | _ + 1, .number n => numberText n
  | _ + 1, .string s => writeString s
  | levels + 1, .array items => do
    let texts ← items.mapM (writeValue levels)
    return '[' :: separated texts ++ [']']
  | levels + 1, .object entries => do
    let texts ← (sortEntries entries).mapM (writeEntry (writeValue levels))
    return '\x7b' :: separated texts ++ ['\x7d']

/-- canonical encoding of a value, or the first restriction it violates -/
def canonicalize (value : Value F) : Except CanonicalPayloadError String := do
  let out ← writeValue (MAX_DEPTH + 1) value
  return String.ofList out

def validate (value : Value F) : Except CanonicalPayloadError Unit := do
  let _ ← canonicalize value
  return ()

/-! ## The parser -/

/-- the bytes of a text -/
def byteLength (text : List Char) : ℕ := (text.map Char.utf8Size).sum

/-- an error at the position where the rest of a text of that many bytes starts -/
def malformed {α : Type} (total : ℕ) (rest : List Char) (what : String) : Except CanonicalPayloadError α :=
  .error (.malformed (what ++ " at byte " ++ toString (total - byteLength rest)))

def skipWs (rest : List Char) : List Char := rest.dropWhile isWs

/-- the rest behind the literal, when the text starts with it -/
def eat : List Char → List Char → Option (List Char)
  | [], rest => some rest
  | _ :: _, [] => none
  | c :: literal, d :: rest => if c = d then eat literal rest else none

def hex4 (total : ℕ) (rest : List Char) : Except CanonicalPayloadError (ℕ × List Char) :=
  match rest with
  | a :: b :: c :: d :: rest' =>
    match unitValue a b c d with
    | some u => .ok (u, rest')
    | none => malformed total rest "bad \\u escape"
  | _ => malformed total rest "bad \\u escape"

/-- the character of an escaped code point -/
def pushCode (total code : ℕ) (rest : List Char) : Except CanonicalPayloadError (Char × List Char) :=
  if code = 0 then .error .nulCharacter
  else
    match charFromU32 code with
    | some c => .ok (c, rest)
    | none => malformed total rest "lone surrogate"

/-- the escape behind a backslash -/
def escape (total : ℕ) (rest : List Char) : Except CanonicalPayloadError (Char × List Char) :=
  match rest with
  | '"' :: rest => .ok ('"', rest)
  | '\\' :: rest => .ok ('\\', rest)
  | '/' :: rest => .ok ('/', rest)
  | 'b' :: rest => .ok (Char.ofNat 0x8, rest)
  | 'f' :: rest => .ok (Char.ofNat 0xc, rest)
  | 'n' :: rest => .ok ('\n', rest)
  | 'r' :: rest => .ok ('\r', rest)
  | 't' :: rest => .ok ('\t', rest)
  | 'u' :: rest => do
    let (hi, rest) ← hex4 total rest
    if isHighSurrogate hi then
      match eat ['\\', 'u'] rest with
      | none => malformed total rest "lone surrogate"
      | some rest => do
        let (lo, rest) ← hex4 total rest
        if isLowSurrogate lo then pushCode total (joinSurrogates hi lo) rest
        else malformed total rest "lone surrogate"
    else pushCode total hi rest
  | rest => malformed (total + 1) rest "bad escape" -- the position is past the byte that was looked at

theorem eat_eq_some {literal rest rest' : List Char} : eat literal rest = some rest' ↔ rest = literal ++ rest' := by
  induction literal generalizing rest with
  | nil => simp [eat]
  | cons c literal ih =>
    cases rest with
    | nil => simp [eat]
    | cons d rest =>
      rw [eat]
      split_ifs with h
      · subst h
        simp [ih]
      · simp [Ne.symm h]

theorem malformed_ne_ok {α : Type} {total : ℕ} {rest : List Char} {what : String} {a : α} :
    malformed total rest what ≠ .ok a := nofun

theorem hex4_eq_ok {total u : ℕ} {rest rest' : List Char} :
    hex4 total rest = .ok (u, rest') ↔ ∃ a b c d, rest = a :: b :: c :: d :: rest' ∧ unitValue a b c d = some u := by
  constructor
  · intro h
    unfold hex4 at h
    split at h
    · split at h
      · rename_i a b c d _ _ _ hu
        cases h
        exact ⟨a, b, c, d, rfl, hu⟩
      · exact absurd h malformed_ne_ok
    · exact absurd h malformed_ne_ok
  · rintro ⟨a, b, c, d, rfl, hu⟩
    simp [hex4, hu]

theorem pushCode_eq_ok {total code : ℕ} {rest rest' : List Char} {c : Char} :
    pushCode total code rest = .ok (c, rest') ↔ code ≠ 0 ∧ charFromU32 code = some c ∧ rest' = rest := by
  unfold pushCode
  split_ifs with h
  · simp [h]
  · split
    · rename_i c' hc
      simp [h, hc, eq_comm]
    · rename_i hc
      simp [hc, malformed_ne_ok]

/-- **What an escape is.** One short escape, one unit that is no surrogate, or a pair of surrogates; none writes U+0000. -/
theorem escape_cases {total : ℕ} {rest rest' : List Char} {c : Char} (h : escape total rest = .ok (c, rest')) :
    (∃ e : ShortEscape, rest = e.letter :: rest' ∧ c = e.char) ∨
    (∃ x₁ x₂ x₃ x₄ u, rest = 'u' :: x₁ :: x₂ :: x₃ :: x₄ :: rest' ∧ unitValue x₁ x₂ x₃ x₄ = some u ∧
      isHighSurrogate u = false ∧ u ≠ 0 ∧ charFromU32 u = some c) ∨
    (∃ x₁ x₂ x₃ x₄ u y₁ y₂ y₃ y₄ v,
      rest = 'u' :: x₁ :: x₂ :: x₃ :: x₄ :: '\\' :: 'u' :: y₁ :: y₂ :: y₃ :: y₄ :: rest' ∧
      unitValue x₁ x₂ x₃ x₄ = some u ∧ unitValue y₁ y₂ y₃ y₄ = some v ∧ isHighSurrogate u = true ∧
      isLowSurrogate v = true ∧ charFromU32 (joinSurrogates u v) = some c) := by
  unfold escape at h
  split at h
  · cases h; exact .inl ⟨.quote, rfl, rfl⟩
  · cases h; exact .inl ⟨.backslash, rfl, rfl⟩
  · cases h; exact .inl ⟨.slash, rfl, rfl⟩
  · cases h; exact .inl ⟨.backspace, rfl, rfl⟩
  · cases h; exact .inl ⟨.formFeed, rfl, rfl⟩
  · cases h; exact .inl ⟨.newline, rfl, rfl⟩
  · cases h; exact .inl ⟨.carriageReturn, rfl, rfl⟩
  · cases h; exact .inl ⟨.tab, rfl, rfl⟩
  · obtain ⟨⟨u, rest₁⟩, hx, h₁⟩ := Fallible.bind_eq_ok.1 h
    obtain ⟨x₁, x₂, x₃, x₄, rfl, hu⟩ := hex4_eq_ok.1 hx
    dsimp only at h₁
    split_ifs at h₁ with hhigh
    · split at h₁
      · exact absurd h₁ malformed_ne_ok
      · rename_i rest₂ heat
        obtain rfl := eat_eq_some.1 heat
        obtain ⟨⟨v, rest₃⟩, hy, h₂⟩ := Fallible.bind_eq_ok.1 h₁
        obtain ⟨y₁, y₂, y₃, y₄, rfl, hv⟩ := hex4_eq_ok.1 hy
        dsimp only at h₂
        split_ifs at h₂ with hlow
        · obtain ⟨-, hc, rfl⟩ := pushCode_eq_ok.1 h₂
          exact .inr (.inr ⟨x₁, x₂, x₃, x₄, u, y₁, y₂, y₃, y₄, v, rfl, hu, hv, hhigh, hlow, hc⟩)
        · exact absurd h₂ malformed_ne_ok
    · obtain ⟨hne, hc, rfl⟩ := pushCode_eq_ok.1 h₁
      exact .inr (.inl ⟨x₁, x₂, x₃, x₄, u, rfl, hu, by simpa using hhigh, hne, hc⟩)
  · exact absurd h malformed_ne_ok

theorem escape_length_lt {total : ℕ} {rest rest' : List Char} {c : Char} (h : escape total rest = .ok (c, rest')) :
    rest'.length < rest.length := by
  rcases escape_cases h with ⟨e, rfl, -⟩ | ⟨_, _, _, _, _, rfl, -⟩ | ⟨_, _, _, _, _, _, _, _, _, _, rfl, -⟩
  · simp
  · simp only [List.length_cons]
    omega
  · simp only [List.length_cons]
    omega

/-- the loop behind the opening quote -/
def stringLoop (total : ℕ) (out rest : List Char) : Except CanonicalPayloadError (String × List Char) :=
  match rest with
  | [] => malformed total [] "unterminated string"
  | c :: rest =>
    if c = '"' then .ok (String.ofList out, rest)
    else if c = '\\' then
      match _h : escape total rest with
      | .error e => .error e
      | .ok (c, rest') => stringLoop total (out ++ [c]) rest'
    else if c.toNat < 0x20 then malformed total rest "raw control character"
    else stringLoop total (out ++ [c]) rest
termination_by rest.length
decreasing_by
  · exact (escape_length_lt _h).trans (Nat.lt_succ_self _)
  · exact Nat.lt_succ_self _

/-! ### Numbers -/

def takeDigits (rest : List Char) : List Char × List Char := (rest.takeWhile Char.isDigit, rest.dropWhile Char.isDigit)

/-- the digits at the front, at least one -/
def digits (total : ℕ) (rest : List Char) : Except CanonicalPayloadError (List Char × List Char) :=
  if (takeDigits rest).1 = [] then malformed total rest "bad number" else .ok (takeDigits rest)

def scanSign : List Char → Bool × List Char
  | '-' :: rest => (true, rest)
  | rest => (false, rest)

def scanInt (total : ℕ) : List Char → Except CanonicalPayloadError (List Char × List Char)
  | '0' :: rest => .ok (['0'], rest)
  | rest => digits total rest

def scanFrac (total : ℕ) : List Char → Except CanonicalPayloadError (Option (List Char) × List Char)
  | '.' :: rest => do
    let (ds, rest) ← digits total rest
    return (some ds, rest)
  | rest => .ok (none, rest)

def scanExpSign : List Char → List Char × List Char
  | '+' :: rest => (['+'], rest)
  | '-' :: rest => (['-'], rest)
  | rest => ([], rest)

def scanExp (total : ℕ) (rest : List Char) :
    Except CanonicalPayloadError (Option (Char × List Char × List Char) × List Char) :=
  match rest with
  | [] => .ok (none, [])
  | e :: rest' =>
    if e = 'e' ∨ e = 'E' then do
      let (sign, rest') := scanExpSign rest'
      let (ds, rest') ← digits total rest'
      return (some (e, sign, ds), rest')
    else .ok (none, rest)

/-- the token at the front, in its pieces -/
def scanNumber (total : ℕ) (rest : List Char) : Except CanonicalPayloadError (NumberToken × List Char) := do
  let (neg, rest) := scanSign rest
  let (int, rest) ← scanInt total rest
  let (frac, rest) ← scanFrac total rest
  let (exp, rest) ← scanExp total rest
  return (⟨neg, int, frac, exp⟩, rest)

/-- `token.parse::<i128>()` of a token in integer form -/
def parseI128 (token : NumberToken) : Option ℤ :=
  if -2 ^ 127 ≤ token.intValue ∧ token.intValue < 2 ^ 127 then some token.intValue else none

/-- `token.parse::<f64>()`, unless that is infinite -/
def parseF64 (token : NumberToken) : Option F := F64.ofDecimal token.neg token.coefficient token.scale

/-- the number an admitted token writes -/
def tokenNumber (token : NumberToken) : Option (Number F) :=
  if token.integerForm then
    if token.text = ['-', '0'] then none
    else
      match parseI128 token with
      | some n => if n.natAbs ≤ MAX_SAFE_INTEGER then some (Number.fromI64 (Int64.ofInt n)) else none
      | none => none
  else
    match parseF64 (F := F) token with
    | some f => if floatText f = some token.text then some (.float f) else none
    | none => none

def number (total : ℕ) (rest : List Char) : Except CanonicalPayloadError (Value F × List Char) := do
  let (token, rest) ← scanNumber total rest
  match tokenNumber token with
  | some n => return (.number n, rest)
  | none => .error (.invalidNumber (String.ofList token.text))

/-! ### Arrays, objects, values -/

/-- the loop over the items; each round takes at least one character, so `fuel` is more than enough rounds -/
def arrayLoop (total : ℕ) (item : List Char → Except CanonicalPayloadError (Value F × List Char)) :
    ℕ → List (Value F) → List Char → Except CanonicalPayloadError (Value F × List Char)
  | 0, _, rest => malformed total rest "expected `,` or `]`"
  | fuel + 1, items, rest => do
    let (v, rest) ← item (skipWs rest)
    match skipWs rest with
    | ',' :: rest => arrayLoop total item fuel (items ++ [v]) rest
    | ']' :: rest => return (.array (items ++ [v]), rest)
    | rest => malformed total rest "expected `,` or `]`"

/-- the array behind its opening bracket -/
def array (total : ℕ) (item : List Char → Except CanonicalPayloadError (Value F × List Char)) (rest : List Char) :
    Except CanonicalPayloadError (Value F × List Char) :=
  match skipWs rest with
  | ']' :: rest => .ok (.array [], rest)
  | rest => arrayLoop total item (rest.length + 1) [] rest

/-- the loop over the members, with the entries read so far -/
def objectLoop (total : ℕ) (item : List Char → Except CanonicalPayloadError (Value F × List Char)) :
    ℕ → List (String × Value F) → List Char → Except CanonicalPayloadError (Value F × List Char)
  | 0, _, rest => malformed total rest "expected `,` or `\x7d`"
  | fuel + 1, map, rest =>
    match skipWs rest with
    | '"' :: rest => do
      let (key, rest) ← stringLoop total [] rest
      match skipWs rest with
      | ':' :: rest => do
        let (v, rest) ← item (skipWs rest)
        if (SortedMap.find map key).isSome then .error (.duplicateKey key)
        else
          let map := SortedMap.insert key v map
          match skipWs rest with
          | ',' :: rest => objectLoop total item fuel map rest
          | '\x7d' :: rest => return (.object map, rest)
          | rest => malformed total rest "expected `,` or `\x7d`"
      | rest => malformed total rest "expected `:`"
    | rest => malformed total rest "expected object key"

/-- the object behind its opening brace -/
def object (total : ℕ) (item : List Char → Except CanonicalPayloadError (Value F × List Char)) (rest : List Char) :
    Except CanonicalPayloadError (Value F × List Char) :=
  match skipWs rest with
  | '\x7d' :: rest => .ok (.object [], rest)
  | rest => objectLoop total item (rest.length + 1) [] rest

/-- the first byte of a number -/
def startsNumber : List Char → Bool
  | [] => false
  | c :: _ => c == '-' || c.isDigit

/-- one value that may nest that many levels deep, its own included -/
def value (total : ℕ) : ℕ → List Char → Except CanonicalPayloadError (Value F × List Char)
  | 0, _ => .error .tooDeep
  | levels + 1, text =>
    match text with
    | '\x7b' :: rest => object total (value total levels) rest
    | '[' :: rest => array total (value total levels) rest
    | '"' :: rest => do
      let (s, rest) ← stringLoop total [] rest
      return (.string s, rest)
    | text =>
      match eat ['t', 'r', 'u', 'e'] text, eat ['f', 'a', 'l', 's', 'e'] text, eat ['n', 'u', 'l', 'l'] text with
      | some rest, _, _ => .ok (.bool true, rest)
      | _, some rest, _ => .ok (.bool false, rest)
      | _, _, some rest => .ok (.null, rest)
      | _, _, _ => if startsNumber text then number total text else malformed total text "unexpected token"

/-- parses a text under the full restrictions -/
def parseStrict (text : String) : Except CanonicalPayloadError (Value F) := do
  let total := byteLength text.toList
  let (v, rest) ← value total (MAX_DEPTH + 1) (skipWs text.toList)
  match skipWs rest with
  | [] => return v
  | rest => malformed total rest "trailing characters"

/-- canonical encoding of the JSON document -/
def canonicalizeStr (F : Type) [F64 F] (text : String) : Except CanonicalPayloadError String := do
  let v : Value F ← parseStrict text
  canonicalize v

end Avalon.CanonicalPayload
