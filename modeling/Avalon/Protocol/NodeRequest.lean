/-
The node request credential (`crates/protocol/src/node_request.rs`): what a node signs for one request, and the header
that carries the signature: v1; peer=; key=; ts=; nonce=; bh=; sig=.

The header text is split at each "; " and read field by field. The parser takes a timestamp of plain decimal digits, so a
negative one, which the signer does not refuse, is written with a sign and refused.

Results:
- `splitFields_join`, `join_splitFields`: splitting and joining with "; " are inverse on fields without semicolon.
- `lowerHex_eq_ok`: exactly the lower-case text of an array is read as that array.
- `parse_eq_ok`: the headers that are accepted, and what they are read as.
- `node_request_codec`: a credential with a valid peer id is read back from its header if and only if its timestamp is not
  negative, and each accepted header is the one written for the credential it is read as.
-/
import Mathlib.Tactic
import Avalon.Core.Bytes
import Avalon.Core.Fallible
import Avalon.Core.Json
import Avalon.Core.Sha256
import Avalon.Protocol.SigningBytes

namespace Avalon.NodeRequest

open Avalon.SigningBytes Json Fallible

/-! ## Signing -/

inductive NodeRequestError where
  | malformed (what : String)
  | invalidRequest (what : String)
  | invalidKey
  | stale
  | future
  | badSignature
  | bodyMismatch
deriving DecidableEq, Repr

structure NodeRequestTarget where
  method : String
  path : String
  body : Bytes
  networkId : String

structure NodeRequestHead where
  method : String
  path : String
  networkId : String

def NodeRequestTarget.head (target : NodeRequestTarget) : NodeRequestHead :=
  ⟨target.method, target.path, target.networkId⟩

structure NodeRequestAuth where
  peerId : String
  publicKey : FixedBytes 32
  timestamp : Int64
  nonce : FixedBytes 16
  bodyHash : FixedBytes 32
  signature : FixedBytes 64
deriving DecidableEq

def nodeRequestDomain : Bytes := utf8 "avalon-node-request-v1"
def nodeRequestMaxHeaderLen : ℕ := 512
def maxPeerIdLen : ℕ := 128
def maxMethodLen : ℕ := 16
def maxPathLen : ℕ := 2048
def maxNameLen : ℕ := 256

/-- bytes after their length as four bytes -/
def lengthPrefixed (bytes : Bytes) : Bytes := beBytes 4 bytes.length ++ bytes

def validPeerId (peerId : String) : Bool :=
  peerId ≠ "" && decide ((utf8 peerId).length ≤ maxPeerIdLen) && peerId.toList.all Char.isAlphanum

def validateName (value what : String) : Except NodeRequestError Unit :=
  if value = "" ∨ (utf8 value).length > maxNameLen then .error (.invalidRequest what) else .ok ()

def validatePath (path : String) : Except NodeRequestError Unit :=
  let cs := path.toList
  let printable := cs.all fun c => 0x21 ≤ c.toNat && c.toNat ≤ 0x7e && c.toNat ≠ 0x5c
  let queryFree := !cs.any fun c => c == '?' || c == '#'
  let canonical := !decide (['/', '/'] <:+: cs) && !(cs.splitOn '/').any fun seg => seg == ['.'] || seg == ['.', '.']
  if (utf8 path).length > maxPathLen ∨ cs.head? ≠ some '/' ∨ !printable ∨ !queryFree ∨ !canonical then
    .error (.invalidRequest "path")
  else .ok ()

def validateHead (target : NodeRequestHead) (peerId : String) : Except NodeRequestError Unit := do
  let methodOk := target.method ≠ "" && decide ((utf8 target.method).length ≤ maxMethodLen) &&
    target.method.toList.all Char.isUpper
  if !methodOk then throw (.invalidRequest "method")
  validatePath target.path
  validateName target.networkId "network_id"
  if !validPeerId peerId then throw (.invalidRequest "peer_id")

/-- everything up to the recipient -/
def messagePrefix (target : NodeRequestHead) (bodyHash : FixedBytes 32) : Bytes :=
  nodeRequestDomain ++ lengthPrefixed (utf8 target.method) ++ lengthPrefixed (utf8 target.path) ++
    lengthPrefixed bodyHash.toList ++ lengthPrefixed (utf8 target.networkId)

def messageWithRecipient (start : Bytes) (recipient peerId : String) (timestamp : Int64) (nonce : FixedBytes 16) :
    Bytes :=
  start ++ lengthPrefixed (utf8 recipient) ++ lengthPrefixed (utf8 peerId) ++
    beBytes 8 timestamp.toBitVec.toNat ++ nonce.toList

def nodeRequestSigningMessage (target : NodeRequestTarget) (recipient peerId : String) (timestamp : Int64)
    (nonce : FixedBytes 16) : Except NodeRequestError Bytes := do
  validateHead target.head peerId
  validateName recipient "recipient"
  return messageWithRecipient (messagePrefix target.head (Sha256.hash target.body)) recipient peerId timestamp nonce

/-- the timestamp is taken as it is -/
def signNodeRequest (ed : Ed25519) (signingKey : FixedBytes 32) (peerId : String) (target : NodeRequestTarget)
    (recipient : String) (timestamp : Int64) (nonce : FixedBytes 16) : Except NodeRequestError NodeRequestAuth := do
  let message ← nodeRequestSigningMessage target recipient peerId timestamp nonce
  return {
    peerId := peerId
    publicKey := ed.verifyingKey signingKey
    timestamp := timestamp
    nonce := nonce
    bodyHash := Sha256.hash target.body
    signature := ed.sign signingKey message }

/-! ## The header -/

def encodeNodeRequestHeader (auth : NodeRequestAuth) : String :=
  "v1; peer=" ++ auth.peerId ++ "; key=" ++ hexEncode auth.publicKey.toList ++ "; ts=" ++ toString auth.timestamp.toInt ++
    "; nonce=" ++ hexEncode auth.nonce.toList ++ "; bh=" ++ hexEncode auth.bodyHash.toList ++
    "; sig=" ++ hexEncode auth.signature.toList

def isLowerHex (b : UInt8) : Bool := (0x30 ≤ b && b ≤ 0x39) || (0x61 ≤ b && b ≤ 0x66)

def lowerHex (n : ℕ) (value : List Char) (what : String) : Except NodeRequestError (FixedBytes n) :=
  let bytes := utf8 (String.ofList value)
  if bytes.length ≠ n * 2 ∨ !bytes.all isLowerHex then .error (.malformed what)
  else
    match (hexPairs bytes).bind (FixedBytes.ofList? n) with
    | none => .error (.malformed what)
    | some out => .ok out

/-- `str::split` at "; " -/
def splitFields : List Char → List (List Char)
  | [] => [[]]
  | ';' :: ' ' :: rest => [] :: splitFields rest
  | c :: rest =>
    match splitFields rest with
    | [] => [[c]]
    | field :: fields => (c :: field) :: fields

/-- the next part, without the name it must start with -/
def nextField (name : String) : List (List Char) → Except NodeRequestError (List Char × List (List Char))
  | [] => .error (.malformed "field order")
  | part :: parts =>
    match part.dropPrefix? name.toList with
    | none => .error (.malformed "field order")
    | some value => .ok (value, parts)

/-- the texts of the fields after the version -/
structure HeaderFields where
  peerId : List Char
  key : List Char
  ts : List Char
  nonce : List Char
  bh : List Char
  sig : List Char

def readFields (parts : List (List Char)) : Except NodeRequestError HeaderFields := do
  let (version, parts) ← nextField "v" parts
  if version ≠ ['1'] then throw (.malformed "version")
  let (peerId, parts) ← nextField "peer=" parts
  let (key, parts) ← nextField "key=" parts
  let (ts, parts) ← nextField "ts=" parts
  let (nonce, parts) ← nextField "nonce=" parts
  let (bh, parts) ← nextField "bh=" parts
  let (sig, parts) ← nextField "sig=" parts
  if parts ≠ [] then throw (.malformed "extra field")
  return ⟨peerId, key, ts, nonce, bh, sig⟩

/-- digits that write a value of an i64 -/
def i64OfDigits (digits : List Char) (value : ℤ) : Option Int64 :=
  if IsDigits digits ∧ -2 ^ 63 ≤ value ∧ value < 2 ^ 63 then some (Int64.ofInt value) else none

/-- `str::parse` for i64: an optional sign, then digits -/
def parseI64 : List Char → Option Int64
  | '-' :: digits => i64OfDigits digits (-digitsValue digits)
  | '+' :: digits => i64OfDigits digits (digitsValue digits)
  | digits => i64OfDigits digits (digitsValue digits)

def readTimestamp (ts : List Char) : Except NodeRequestError Int64 :=
  match parseI64 ts with
  | none => .error (.malformed "ts")
  | some timestamp => .ok timestamp

def checkFields (fields : HeaderFields) : Except NodeRequestError NodeRequestAuth := do
  if !validPeerId (String.ofList fields.peerId) then throw (.malformed "peer")
  let digitsOnly := fields.ts ≠ [] && fields.ts.all Char.isDigit
  if !digitsOnly || (decide (fields.ts.length > 1) && fields.ts.head? == some '0') then throw (.malformed "ts")
  let publicKey ← lowerHex 32 fields.key "key"
  let timestamp ← readTimestamp fields.ts
  let nonce ← lowerHex 16 fields.nonce "nonce"
  let bodyHash ← lowerHex 32 fields.bh "bh"
  let signature ← lowerHex 64 fields.sig "sig"
  return ⟨String.ofList fields.peerId, publicKey, timestamp, nonce, bodyHash, signature⟩

def parseNodeRequestHeader (header : String) : Except NodeRequestError NodeRequestAuth := do
  if (utf8 header).length > nodeRequestMaxHeaderLen then throw (.malformed "too long")
  if !header.toList.all (fun c => c.toNat < 128) then throw (.malformed "non-ascii")
  let fields ← readFields (splitFields header.toList)
  checkFields fields

/-! ## Splitting and joining -/

def separator : List Char := [';', ' ']

theorem splitFields_ne_nil (cs : List Char) : splitFields cs ≠ [] := by
  fun_cases splitFields cs <;> simp_all

/-- a character that starts no separator goes to the first field -/
theorem splitFields_cons {c : Char} (hc : c ≠ ';') (cs : List Char) {field : List Char} {fields : List (List Char)}
    (h : splitFields cs = field :: fields) : splitFields (c :: cs) = (c :: field) :: fields := by
  rw [splitFields, h]
  intro rest hsep
  exact absurd hsep hc

theorem splitFields_field {field : List Char} (hfield : ';' ∉ field) (rest : List Char) :
    splitFields (field ++ ';' :: ' ' :: rest) = field :: splitFields rest := by
  induction field with
  | nil => rw [List.nil_append, splitFields]
  | cons c field ih =>
    obtain ⟨hc, hfield⟩ := not_or.1 (List.mem_cons.not.1 hfield)
    exact splitFields_cons (Ne.symm hc) _ (ih hfield)

theorem splitFields_last {field : List Char} (hfield : ';' ∉ field) : splitFields field = [field] := by
  induction field with
  | nil => rfl
  | cons c field ih =>
    obtain ⟨hc, hfield⟩ := not_or.1 (List.mem_cons.not.1 hfield)
    exact splitFields_cons (Ne.symm hc) _ (ih hfield)

theorem intercalate_cons {field : List Char} {fields : List (List Char)} (h : fields ≠ []) :
    separator.intercalate (field :: fields) = field ++ ';' :: ' ' :: separator.intercalate fields := by
  obtain ⟨next, rest, rfl⟩ := List.exists_cons_of_ne_nil h
  rw [List.intercalate_cons_cons, List.append_assoc]
  rfl

/-- **Splitting inverts joining**, for fields without semicolon -/
theorem splitFields_join (field : List Char) (fields : List (List Char)) (h : ∀ f ∈ field :: fields, ';' ∉ f) :
    splitFields (separator.intercalate (field :: fields)) = field :: fields := by
  induction fields generalizing field with
  | nil =>
    rw [List.intercalate_singleton]
    exact splitFields_last (h field List.mem_cons_self)
  | cons next fields ih =>
    obtain ⟨hfield, hrest⟩ := List.forall_mem_cons.1 h
    rw [intercalate_cons (List.cons_ne_nil _ _), splitFields_field hfield, ih next hrest]

/-- **Joining inverts splitting** -/
theorem join_splitFields (cs : List Char) : separator.intercalate (splitFields cs) = cs := by
  fun_induction splitFields cs with
  | case1 => rfl
  | case2 rest ih => rw [intercalate_cons (splitFields_ne_nil rest), ih, List.nil_append]
  | case3 c rest hsep hnil ih => exact absurd hnil (splitFields_ne_nil rest)
  | case4 c rest hsep field fields hfields ih =>
    rw [hfields] at ih
    cases fields with
    | nil =>
      rw [List.intercalate_singleton] at ih ⊢
      rw [ih]
    | cons next fields =>
      rw [List.intercalate_cons_cons] at ih ⊢
      rw [List.cons_append, List.cons_append, ih]

/-! ## Fields -/

theorem nextField_eq_ok {name : String} {parts rest : List (List Char)} {value : List Char} :
    nextField name parts = .ok (value, rest) ↔ parts = (name.toList ++ value) :: rest := by
  unfold nextField
  constructor
  · intro h
    split at h
    · cases h
    · rename_i part parts
      split at h
      · cases h
      · rename_i value' hvalue
        cases h
        obtain ⟨start, hpart, hstart⟩ := List.dropPrefix?_eq_some_iff.1 hvalue
        rw [hpart, eq_of_beq hstart]
  · rintro rfl
    have hdrop : (name.toList ++ value).dropPrefix? name.toList = some value :=
      List.dropPrefix?_eq_some_iff.2 ⟨name.toList, rfl, beq_self_eq_true _⟩
    simp only [hdrop]

/-- the parts of a header with these fields -/
def HeaderFields.parts (fields : HeaderFields) : List (List Char) :=
  ["v1".toList, "peer=".toList ++ fields.peerId, "key=".toList ++ fields.key, "ts=".toList ++ fields.ts,
    "nonce=".toList ++ fields.nonce, "bh=".toList ++ fields.bh, "sig=".toList ++ fields.sig]

theorem readFields_eq_ok {parts : List (List Char)} {fields : HeaderFields} :
    readFields parts = .ok fields ↔ parts = fields.parts := by
  unfold readFields
  constructor
  · intro h
    obtain ⟨⟨version, _⟩, hversion, h⟩ := bind_eq_ok.1 h
    dsimp only at h
    by_cases hone : version ≠ ['1']
    · rw [if_pos hone] at h
      cases h
    rw [if_neg hone] at h
    obtain ⟨⟨peerId, _⟩, hpeer, h⟩ := bind_eq_ok.1 h
    obtain ⟨⟨key, _⟩, hkey, h⟩ := bind_eq_ok.1 h
    obtain ⟨⟨ts, _⟩, hts, h⟩ := bind_eq_ok.1 h
    obtain ⟨⟨nonce, _⟩, hnonce, h⟩ := bind_eq_ok.1 h
    obtain ⟨⟨bh, _⟩, hbh, h⟩ := bind_eq_ok.1 h
    obtain ⟨⟨sig, rest⟩, hsig, h⟩ := bind_eq_ok.1 h
    dsimp only at h
    by_cases hextra : rest ≠ []
    · rw [if_pos hextra] at h
      cases h
    rw [if_neg hextra] at h
    cases h
    rw [nextField_eq_ok] at hversion hpeer hkey hts hnonce hbh hsig
    rw [not_not] at hone hextra
    dsimp only at hkey hts hnonce hbh hsig
    rw [hversion, hone, hpeer, hkey, hts, hnonce, hbh, hsig, hextra]
    rfl
  · rintro rfl
    have hversion : nextField "v" fields.parts = .ok (['1'], fields.parts.tail) := nextField_eq_ok.2 rfl
    have hnext : ∀ (name : String) (value : List Char) (rest : List (List Char)),
        nextField name ((name.toList ++ value) :: rest) = .ok (value, rest) := fun _ _ _ => nextField_eq_ok.2 rfl
    rw [hversion]
    simp only [bind, Except.bind, HeaderFields.parts, List.tail_cons, hnext]
    rfl

/-! ## Hexadecimal -/

theorem hexByte_hexValue (c : UInt8) (hc : isLowerHex c = true) : ∃ n, hexValue c = some n ∧ n < 16 ∧ hexByte n = c := by
  have hall : ∀ m < 256, isLowerHex (UInt8.ofNat m) = true → ∃ n < 16, hexValue (UInt8.ofNat m) = some n ∧
      hexByte n = UInt8.ofNat m := by
    decide +kernel
  have h := hall c.toNat c.toNat_lt
  rw [UInt8.ofNat_toNat] at h
  obtain ⟨n, hn, hvalue, hbyte⟩ := h hc
  exact ⟨n, hvalue, hn, hbyte⟩

/-- lower-case digits are the ones written for the bytes they are read as -/
theorem hexEncode_hexPairs {bytes bs : Bytes} (hlower : ∀ b ∈ bytes, isLowerHex b = true) (h : hexPairs bytes = some bs) :
    utf8 (hexEncode bs) = bytes := by
  rw [utf8_hexEncode]
  induction bytes using hexPairs.induct generalizing bs with
  | case1 =>
    cases h
    rfl
  | case2 b => cases h
  | case3 a b rest ih =>
    obtain ⟨ha, hrest⟩ := List.forall_mem_cons.1 hlower
    obtain ⟨hb, hlast⟩ := List.forall_mem_cons.1 hrest
    obtain ⟨x, hx, hx16, rfl⟩ := hexByte_hexValue a ha
    obtain ⟨y, hy, hy16, rfl⟩ := hexByte_hexValue b hb
    simp only [hexPairs, hx, hy, Option.bind_eq_bind, Option.bind_some] at h
    obtain ⟨tail, htail, h⟩ := Option.bind_eq_some_iff.1 h
    cases h
    have hbyte : (UInt8.ofNat (16 * x + y)).toNat = 16 * x + y := by
      rw [UInt8.toNat_ofNat']
      omega
    have hhigh : (16 * x + y) / 16 = x := by omega
    have hlow : (16 * x + y) % 16 = y := by omega
    rw [List.flatMap_cons, ih hlast htail, hbyte, hhigh, hlow]
    rfl

theorem isLowerHex_hexByte (n : ℕ) (h : n < 16) : isLowerHex (hexByte n) = true := by
  interval_cases n <;> decide

theorem utf8_hexEncode_lower (bs : Bytes) : ∀ b ∈ utf8 (hexEncode bs), isLowerHex b = true := by
  intro b hb
  rw [utf8_hexEncode] at hb
  obtain ⟨x, -, hx⟩ := List.mem_flatMap.1 hb
  have hx256 : x.toNat < 256 := x.toNat_lt
  rcases List.mem_cons.1 hx with rfl | hx
  · exact isLowerHex_hexByte _ (by omega)
  · rw [List.mem_singleton.1 hx]
    exact isLowerHex_hexByte _ (by omega)

theorem utf8_hexEncode_length (bs : Bytes) : (utf8 (hexEncode bs)).length = bs.length * 2 := by
  rw [utf8_hexEncode]
  induction bs with
  | nil => rfl
  | cons b bs ih =>
    rw [List.flatMap_cons, List.length_append, ih, List.length_cons]
    simp only [List.length_cons, List.length_nil]
    omega

/-- **The text of an array** is the one that is read as it -/
theorem lowerHex_eq_ok {n : ℕ} {value : List Char} {what : String} {out : FixedBytes n} :
    lowerHex n value what = .ok out ↔ value = (hexEncode out.toList).toList := by
  unfold lowerHex
  constructor
  · intro h
    dsimp only at h
    split_ifs at h with hbad
    have hlower : ∀ b ∈ utf8 (String.ofList value), isLowerHex b = true := by
      simpa using (not_or.1 hbad).2
    split at h
    · cases h
    · rename_i out' hout
      cases h
      obtain ⟨bs, hbs, hfixed⟩ := Option.bind_eq_some_iff.1 hout
      have htext := utf8_inj (hexEncode_hexPairs hlower hbs)
      rw [FixedBytes.toList_of_ofList? hfixed, htext, String.toList_ofList]
  · rintro rfl
    rw [String.ofList_toList]
    have hlength : (utf8 (hexEncode out.toList)).length = n * 2 := by
      rw [utf8_hexEncode_length, List.Vector.toList_length]
    have hlower : (utf8 (hexEncode out.toList)).all isLowerHex = true :=
      List.all_eq_true.2 (utf8_hexEncode_lower out.toList)
    have hread : (hexPairs (utf8 (hexEncode out.toList))).bind (FixedBytes.ofList? n) = some out := by
      rw [← hexDecode, hexDecode_hexEncode, Option.bind_some, FixedBytes.ofList?_toList]
    simp [hlength, hlower, hread]

/-! ## Timestamps -/

/-- the text of a timestamp that is not negative -/
theorem toString_of_nonneg {i : ℤ} (h : 0 ≤ i) : (toString i).toList = Nat.toDigits 10 i.toNat := by
  obtain ⟨n, rfl⟩ := Int.eq_ofNat_of_zero_le h
  change (Nat.repr n).toList = _
  rw [Nat.repr_eq_ofList_toDigits, String.toList_ofList]
  rfl

/-- a negative one is written with a sign -/
theorem toString_of_neg {i : ℤ} (h : i < 0) : (toString i).toList = '-' :: Nat.toDigits 10 i.natAbs := by
  obtain ⟨n, rfl⟩ := Int.eq_negSucc_of_lt_zero h
  change ("-" ++ Nat.repr (n + 1)).toList = _
  rw [String.toList_append, Nat.repr_eq_ofList_toDigits, String.toList_ofList, String.toList_ofList]
  rfl

/-- plain digits are read as their value -/
theorem parseI64_digits {ts : List Char} (hdigits : IsDigits ts) :
    parseI64 ts = if digitsValue ts < 2 ^ 63 then some (Int64.ofInt (digitsValue ts)) else none := by
  have hhead : ∀ c rest, ts = c :: rest → c ≠ '-' ∧ c ≠ '+' := by
    rintro c rest rfl
    have hc := hdigits.2 c List.mem_cons_self
    constructor
    · rintro rfl
      cases hc
    · rintro rfl
      cases hc
  unfold parseI64
  split
  · rename_i rest
    exact absurd rfl (hhead '-' rest rfl).1
  · rename_i rest
    exact absurd rfl (hhead '+' rest rfl).2
  · have hrange : IsDigits ts ∧ (-2 ^ 63 : ℤ) ≤ digitsValue ts ∧ (digitsValue ts : ℤ) < 2 ^ 63 ↔ digitsValue ts < 2 ^ 63 := by
      constructor
      · intro h
        exact_mod_cast h.2.2
      · intro h
        exact ⟨hdigits, by omega, by exact_mod_cast h⟩
    simp only [i64OfDigits, hrange]

/-- the timestamp texts that are taken -/
theorem readTimestamp_eq_ok {ts : List Char} {timestamp : Int64} :
    (IsDigits ts ∧ ¬ (ts.length > 1 ∧ ts.head? = some '0')) ∧ readTimestamp ts = .ok timestamp ↔
      0 ≤ timestamp.toInt ∧ ts = (toString timestamp.toInt).toList := by
  constructor
  · rintro ⟨⟨hdigits, hzero⟩, h⟩
    unfold readTimestamp at h
    rw [parseI64_digits hdigits] at h
    split_ifs at h with hrange
    cases h
    have hvalue : (Int64.ofInt (digitsValue ts)).toInt = digitsValue ts :=
      Int64.toInt_ofInt_of_le (by omega) (by exact_mod_cast hrange)
    rw [hvalue, toString_of_nonneg (by positivity), Int.toNat_natCast]
    refine ⟨by positivity, ?_⟩
    by_cases hhead : ts.head? = some '0'
    · -- a lone zero
      obtain ⟨c, rest, rfl⟩ := List.exists_cons_of_ne_nil hdigits.1
      obtain rfl : c = '0' := Option.some.inj hhead
      obtain rfl : rest = [] := by
        by_contra hrest
        exact hzero ⟨by simpa using List.length_pos_iff.2 hrest, rfl⟩
      rfl
    · exact (toDigits_digitsValue hdigits hhead).symm
  · rintro ⟨hnonneg, rfl⟩
    have hdigits := isDigits_toDigits timestamp.toInt.toNat
    have hvalue : (timestamp.toInt.toNat : ℤ) = timestamp.toInt := Int.toNat_of_nonneg hnonneg
    have hrange : timestamp.toInt.toNat < 2 ^ 63 := by
      have := timestamp.toInt_lt
      omega
    rw [toString_of_nonneg hnonneg]
    refine ⟨⟨hdigits, ?_⟩, ?_⟩
    · rintro ⟨hlength, hhead⟩
      rcases Nat.eq_zero_or_pos timestamp.toInt.toNat with h0 | hpos
      · rw [h0] at hlength
        exact absurd hlength (by decide)
      · exact head_toDigits hpos hhead
    · rw [readTimestamp, parseI64_digits hdigits, digitsValue_toDigits, if_pos hrange, hvalue, Int64.ofInt_toInt]

/-! ## Headers -/

/-- the texts a credential is written with -/
def NodeRequestAuth.fields (auth : NodeRequestAuth) : HeaderFields where
  peerId := auth.peerId.toList
  key := (hexEncode auth.publicKey.toList).toList
  ts := (toString auth.timestamp.toInt).toList
  nonce := (hexEncode auth.nonce.toList).toList
  bh := (hexEncode auth.bodyHash.toList).toList
  sig := (hexEncode auth.signature.toList).toList

/-- the header with variables for its fixed texts, which all start with a separator -/
theorem encode_parts (auth : NodeRequestAuth) {peer key ts nonce bh sig : String}
    (hpeer : peer.toList = "v1".toList ++ (separator ++ "peer=".toList)) (hkey : key.toList = separator ++ "key=".toList)
    (hts : ts.toList = separator ++ "ts=".toList) (hnonce : nonce.toList = separator ++ "nonce=".toList)
    (hbh : bh.toList = separator ++ "bh=".toList) (hsig : sig.toList = separator ++ "sig=".toList) :
    (peer ++ auth.peerId ++ key ++ hexEncode auth.publicKey.toList ++ ts ++ toString auth.timestamp.toInt ++ nonce ++
      hexEncode auth.nonce.toList ++ bh ++ hexEncode auth.bodyHash.toList ++ sig ++
      hexEncode auth.signature.toList).toList = separator.intercalate auth.fields.parts := by
  simp only [String.toList_append, hpeer, hkey, hts, hnonce, hbh, hsig, HeaderFields.parts, NodeRequestAuth.fields,
    List.intercalate_cons_cons, List.intercalate_singleton, List.append_assoc]

/-- the header is the parts joined with "; " -/
theorem encode_toList (auth : NodeRequestAuth) :
    (encodeNodeRequestHeader auth).toList = separator.intercalate auth.fields.parts :=
  encode_parts auth (by simp [separator]) (by simp [separator]) (by simp [separator]) (by simp [separator])
    (by simp [separator]) (by simp [separator])

/-- the checks on the fields pass for the texts of a credential with a valid peer id and a timestamp that is not negative -/
theorem checkFields_eq_ok {fields : HeaderFields} {auth : NodeRequestAuth} :
    checkFields fields = .ok auth ↔
      fields = auth.fields ∧ validPeerId auth.peerId = true ∧ 0 ≤ auth.timestamp.toInt := by
  unfold checkFields
  constructor
  · intro h
    by_cases hpeer : (!validPeerId (String.ofList fields.peerId)) = true
    · rw [if_pos hpeer] at h
      cases h
    rw [if_neg hpeer] at h
    dsimp only at h
    by_cases hts : (!(decide (fields.ts ≠ []) && fields.ts.all Char.isDigit) ||
        (decide (fields.ts.length > 1) && fields.ts.head? == some '0')) = true
    · rw [if_pos hts] at h
      cases h
    rw [if_neg hts] at h
    obtain ⟨publicKey, hkey, h⟩ := bind_eq_ok.1 h
    obtain ⟨timestamp, htimestamp, h⟩ := bind_eq_ok.1 h
    obtain ⟨nonce, hnonce, h⟩ := bind_eq_ok.1 h
    obtain ⟨bodyHash, hbody, h⟩ := bind_eq_ok.1 h
    obtain ⟨signature, hsignature, h⟩ := bind_eq_ok.1 h
    cases h
    rw [lowerHex_eq_ok] at hkey hnonce hbody hsignature
    have hplain : IsDigits fields.ts ∧ ¬ (fields.ts.length > 1 ∧ fields.ts.head? = some '0') := by
      simpa [IsDigits] using hts
    obtain ⟨hnonneg, htext⟩ := readTimestamp_eq_ok.1 ⟨hplain, htimestamp⟩
    refine ⟨?_, by simpa using hpeer, hnonneg⟩
    obtain ⟨peerId, key, ts, nonceText, bh, sig⟩ := fields
    dsimp only at hkey hnonce hbody hsignature htext
    simp [NodeRequestAuth.fields, hkey, hnonce, hbody, hsignature, htext]
  · rintro ⟨rfl, hpeer, hnonneg⟩
    obtain ⟨⟨hdigits, hzero⟩, htimestamp⟩ := readTimestamp_eq_ok.2 ⟨hnonneg, rfl⟩
    have hplain : (!(decide (auth.fields.ts ≠ []) && auth.fields.ts.all Char.isDigit) ||
        (decide (auth.fields.ts.length > 1) && auth.fields.ts.head? == some '0')) = false := by
      simpa [IsDigits, NodeRequestAuth.fields] using And.intro hdigits hzero
    have hkey : lowerHex 32 auth.fields.key "key" = .ok auth.publicKey := lowerHex_eq_ok.2 rfl
    have hnonce : lowerHex 16 auth.fields.nonce "nonce" = .ok auth.nonce := lowerHex_eq_ok.2 rfl
    have hbody : lowerHex 32 auth.fields.bh "bh" = .ok auth.bodyHash := lowerHex_eq_ok.2 rfl
    have hsignature : lowerHex 64 auth.fields.sig "sig" = .ok auth.signature := lowerHex_eq_ok.2 rfl
    have hpeerText : String.ofList auth.fields.peerId = auth.peerId := String.ofList_toList
    have hts : readTimestamp auth.fields.ts = .ok auth.timestamp := htimestamp
    rw [hpeerText, hpeer, if_neg (by decide)]
    dsimp only
    rw [hplain, if_neg (by decide)]
    exact bind_eq_ok.2 ⟨_, hkey, bind_eq_ok.2 ⟨_, hts, bind_eq_ok.2 ⟨_, hnonce, bind_eq_ok.2 ⟨_, hbody,
      bind_eq_ok.2 ⟨_, hsignature, rfl⟩⟩⟩⟩⟩

/-- the sign of a negative timestamp is refused -/
theorem checkFields_negative {auth : NodeRequestAuth} (hpeer : validPeerId auth.peerId = true)
    (hneg : auth.timestamp.toInt < 0) : checkFields auth.fields = .error (.malformed "ts") := by
  have hpeerText : String.ofList auth.fields.peerId = auth.peerId := String.ofList_toList
  have hts : auth.fields.ts = '-' :: Nat.toDigits 10 auth.timestamp.toInt.natAbs := toString_of_neg hneg
  unfold checkFields
  rw [hpeerText, hpeer, hts]
  rfl

theorem alphanum_ascii {c : Char} (h : c.isAlphanum = true) : c.toNat < 128 ∧ c ≠ ';' := by
  constructor
  · change (decide (c.val ≥ 'A'.val ∧ c.val ≤ 'Z'.val) || (decide (c.val ≥ 'a'.val) && decide (c.val ≤ 'z'.val)) ||
      (decide (c.val ≥ '0'.val) && decide (c.val ≤ '9'.val))) = true at h
    simp only [Bool.or_eq_true, Bool.and_eq_true, decide_eq_true_eq, UInt32.le_iff_toNat_le] at h
    change c.val.toNat < 128
    rcases h with (⟨-, h⟩ | ⟨-, h⟩) | ⟨-, h⟩ <;> exact lt_of_le_of_lt h (by decide)
  · rintro rfl
    cases h

/-- text that is safe in a header: ASCII, without semicolon -/
def Plain (cs : List Char) : Prop := ∀ c ∈ cs, c.toNat < 128 ∧ c ≠ ';'

theorem Plain.append {a b : List Char} (ha : Plain a) (hb : Plain b) : Plain (a ++ b) :=
  List.forall_mem_append.2 ⟨ha, hb⟩

theorem plain_hexEncode (bs : Bytes) : Plain (hexEncode bs).toList := by
  intro c hc
  rw [hexEncode, String.toList_ofList] at hc
  obtain ⟨x, -, hx⟩ := List.mem_flatMap.1 hc
  have hx256 : x.toNat < 256 := x.toNat_lt
  have hdigit : ∀ n < 16, (hexDigit n).toNat < 128 ∧ hexDigit n ≠ ';' := by decide
  rcases List.mem_cons.1 hx with rfl | hx
  · exact hdigit _ (by omega)
  · rw [List.mem_singleton.1 hx]
    exact hdigit _ (by omega)

theorem plain_digits (n : ℕ) : Plain (Nat.toDigits 10 n) := by
  intro c hc
  have hdigit := (isDigits_toDigits n).2 c hc
  exact alphanum_ascii (by rw [Char.isAlphanum, hdigit, Bool.or_true])

theorem length_toDigits {n : ℕ} (h : n ≤ 2 ^ 63) : (Nat.toDigits 10 n).length ≤ 19 := by
  rcases Nat.eq_zero_or_pos n with rfl | hpos
  · decide
  · have hle := pow_le_digitsValue (isDigits_toDigits n) (head_toDigits hpos)
    rw [digitsValue_toDigits] at hle
    have hlt : 10 ^ ((Nat.toDigits 10 n).length - 1) < 10 ^ 19 := lt_of_le_of_lt (hle.trans h) (by norm_num)
    have := (Nat.pow_lt_pow_iff_right (by norm_num)).1 hlt
    omega

/-- the text of a timestamp: at most twenty plain characters -/
theorem plain_timestamp (timestamp : Int64) :
    Plain (toString timestamp.toInt).toList ∧ (toString timestamp.toInt).toList.length ≤ 20 := by
  have hlow := timestamp.le_toInt
  have hhigh := timestamp.toInt_lt
  rcases lt_or_ge timestamp.toInt 0 with hneg | hnonneg
  · rw [toString_of_neg hneg]
    refine ⟨List.forall_mem_cons.2 ⟨by decide, plain_digits _⟩, ?_⟩
    have := length_toDigits (n := timestamp.toInt.natAbs) (by omega)
    rw [List.length_cons]
    omega
  · rw [toString_of_nonneg hnonneg]
    have := length_toDigits (n := timestamp.toInt.toNat) (by omega)
    exact ⟨plain_digits _, by omega⟩

theorem utf8_length_of_ascii {s : String} (h : ∀ c ∈ s.toList, c.toNat < 128) : (utf8 s).length = s.toList.length := by
  have hone : ∀ c ∈ s.toList, (String.utf8EncodeChar c).length = 1 := by
    intro c hc
    rw [String.length_utf8EncodeChar, Char.utf8Size_eq_one_iff, UInt32.le_iff_toNat_le]
    exact Nat.le_of_lt_succ (h c hc)
  rw [← String.ofList_toList (s := s), utf8_ofList, List.length_flatMap, List.map_congr_left hone, List.map_const',
    List.sum_replicate, String.toList_ofList]
  simp

theorem plain_peerId {peerId : String} (h : validPeerId peerId = true) : Plain peerId.toList ∧ peerId.toList.length ≤ 128 := by
  simp only [validPeerId, Bool.and_eq_true, decide_eq_true_eq, List.all_eq_true] at h
  have hplain : Plain peerId.toList := fun c hc => alphanum_ascii (h.2 c hc)
  refine ⟨hplain, ?_⟩
  rw [← utf8_length_of_ascii fun c hc => (hplain c hc).1]
  exact h.1.2

theorem length_hexEncode (bs : Bytes) : (hexEncode bs).toList.length = bs.length * 2 := by
  rw [← utf8_length_of_ascii fun c hc => (plain_hexEncode bs c hc).1, utf8_hexEncode_length]

/-- every part of a written header is plain -/
theorem plain_parts {auth : NodeRequestAuth} (h : validPeerId auth.peerId = true) :
    ∀ part ∈ auth.fields.parts, Plain part := by
  have hname : ∀ name ∈ ["v1", "peer=", "key=", "ts=", "nonce=", "bh=", "sig="], Plain name.toList := by
    unfold Plain
    have hall : (["v1", "peer=", "key=", "ts=", "nonce=", "bh=", "sig="].all fun name =>
        name.toList.all fun c => decide (c.toNat < 128 ∧ c ≠ ';')) = true := by decide +kernel
    simpa only [List.all_eq_true, decide_eq_true_eq] using hall
  simp only [HeaderFields.parts, List.forall_mem_cons]
  exact ⟨hname _ (by decide), (hname _ (by decide)).append (plain_peerId h).1, (hname _ (by decide)).append (plain_hexEncode _),
    (hname _ (by decide)).append (plain_timestamp _).1, (hname _ (by decide)).append (plain_hexEncode _),
    (hname _ (by decide)).append (plain_hexEncode _), (hname _ (by decide)).append (plain_hexEncode _), by simp⟩

theorem mem_join {c : Char} {parts : List (List Char)} (h : c ∈ separator.intercalate parts) :
    (∃ part ∈ parts, c ∈ part) ∨ c ∈ separator := by
  induction parts with
  | nil => cases h
  | cons part parts ih =>
    cases parts with
    | nil =>
      rw [List.intercalate_singleton] at h
      exact .inl ⟨part, List.mem_singleton_self part, h⟩
    | cons next parts =>
      rw [List.intercalate_cons_cons, List.append_assoc] at h
      rcases List.mem_append.1 h with h | h
      · exact .inl ⟨part, List.mem_cons_self, h⟩
      · rcases List.mem_append.1 h with h | h
        · exact .inr h
        · obtain ⟨part', hpart', hc⟩ | h := ih h
          · exact .inl ⟨part', List.mem_cons_of_mem _ hpart', hc⟩
          · exact .inr h

/-- the names, separators and fixed-width fields take 327 characters -/
theorem length_parts (auth : NodeRequestAuth) : (separator.intercalate auth.fields.parts).length =
    327 + auth.peerId.toList.length + (toString auth.timestamp.toInt).toList.length := by
  simp only [HeaderFields.parts, NodeRequestAuth.fields, List.intercalate_cons_cons, List.intercalate_singleton,
    List.length_append, length_hexEncode, List.Vector.toList_length]
  simp [separator]
  omega

/-- a written header is ASCII and within the length limit -/
theorem encode_plain {auth : NodeRequestAuth} (h : validPeerId auth.peerId = true) :
    (∀ c ∈ (encodeNodeRequestHeader auth).toList, c.toNat < 128) ∧
      (utf8 (encodeNodeRequestHeader auth)).length ≤ nodeRequestMaxHeaderLen := by
  have hascii : ∀ c ∈ (encodeNodeRequestHeader auth).toList, c.toNat < 128 := by
    intro c hc
    rw [encode_toList] at hc
    rcases mem_join hc with ⟨part, hpart, hc⟩ | hc
    · exact (plain_parts h part hpart c hc).1
    · exact (by simp [separator] : ∀ c ∈ separator, c.toNat < 128) c hc
  refine ⟨hascii, ?_⟩
  have hpeer := (plain_peerId h).2
  have hts := (plain_timestamp auth.timestamp).2
  rw [utf8_length_of_ascii hascii, encode_toList, length_parts, nodeRequestMaxHeaderLen]
  omega

/-- a written header passes the checks on the text, and is split into its fields -/
theorem parse_encode {auth : NodeRequestAuth} (h : validPeerId auth.peerId = true) :
    parseNodeRequestHeader (encodeNodeRequestHeader auth) = checkFields auth.fields := by
  obtain ⟨hascii, hlength⟩ := encode_plain h
  have hall : ((encodeNodeRequestHeader auth).toList.all fun c => decide (c.toNat < 128)) = true := by
    simpa using hascii
  have hsplit : splitFields (encodeNodeRequestHeader auth).toList = auth.fields.parts := by
    rw [encode_toList]
    exact splitFields_join _ _ fun part hpart hc => (plain_parts h part hpart _ hc).2 rfl
  unfold parseNodeRequestHeader
  rw [if_neg (not_lt.2 hlength)]
  dsimp only
  rw [hall, if_neg (by decide), hsplit, readFields_eq_ok.2 rfl]
  rfl

/-- **The headers that are accepted** are the ones written for credentials with a valid peer id and a timestamp that is not
negative -/
theorem parse_eq_ok {header : String} {auth : NodeRequestAuth} :
    parseNodeRequestHeader header = .ok auth ↔
      header = encodeNodeRequestHeader auth ∧ validPeerId auth.peerId = true ∧ 0 ≤ auth.timestamp.toInt := by
  constructor
  · intro h
    unfold parseNodeRequestHeader at h
    by_cases hlong : (utf8 header).length > nodeRequestMaxHeaderLen
    · rw [if_pos hlong] at h
      cases h
    rw [if_neg hlong] at h
    dsimp only at h
    by_cases hascii : (!header.toList.all fun c => decide (c.toNat < 128)) = true
    · rw [if_pos hascii] at h
      cases h
    rw [if_neg hascii] at h
    obtain ⟨fields, hfields, h⟩ := bind_eq_ok.1 h
    obtain ⟨rfl, hpeer, hnonneg⟩ := checkFields_eq_ok.1 h
    refine ⟨String.toList_inj.1 ?_, hpeer, hnonneg⟩
    rw [encode_toList, ← readFields_eq_ok.1 hfields, join_splitFields]
  · rintro ⟨rfl, hpeer, hnonneg⟩
    rw [parse_encode hpeer, checkFields_eq_ok]
    exact ⟨rfl, hpeer, hnonneg⟩

/-- what the signer checks of the peer id, and keeps of the timestamp -/
theorem signNodeRequest_fields {ed : Ed25519} {signingKey : FixedBytes 32} {peerId : String} {target : NodeRequestTarget}
    {recipient : String} {timestamp : Int64} {nonce : FixedBytes 16} {auth : NodeRequestAuth}
    (h : signNodeRequest ed signingKey peerId target recipient timestamp nonce = .ok auth) :
    validPeerId auth.peerId = true ∧ auth.timestamp = timestamp := by
  obtain ⟨message, hmessage, h⟩ := bind_eq_ok.1 h
  cases h
  refine ⟨?_, rfl⟩
  obtain ⟨⟨⟩, hhead, -⟩ := bind_eq_ok.1 hmessage
  by_contra hpeer
  rw [Bool.not_eq_true] at hpeer
  unfold validateHead at hhead
  simp only [hpeer, Bool.not_false, if_true] at hhead
  -- each way through the checks ends in an error
  split_ifs at hhead
  · cases hhead
  · obtain ⟨⟨⟩, -, hhead⟩ := bind_eq_ok.1 hhead
    obtain ⟨⟨⟩, -, hhead⟩ := bind_eq_ok.1 hhead
    cases hhead

/-- **Node request codec.** A credential with a valid peer id is read back from its header if and only if its timestamp is
not negative, and else refused as malformed; so for what the signer makes, whatever it signs. Each accepted header is the one
written for the credential it is read as. -/
theorem node_request_codec :
    (∀ auth, validPeerId auth.peerId = true →
      (parseNodeRequestHeader (encodeNodeRequestHeader auth) = .ok auth ↔ 0 ≤ auth.timestamp.toInt) ∧
      (auth.timestamp.toInt < 0 → parseNodeRequestHeader (encodeNodeRequestHeader auth) = .error (.malformed "ts"))) ∧
    (∀ header auth, parseNodeRequestHeader header = .ok auth → encodeNodeRequestHeader auth = header) ∧
    ∀ ed signingKey peerId target recipient timestamp nonce auth,
      signNodeRequest ed signingKey peerId target recipient timestamp nonce = .ok auth →
      (parseNodeRequestHeader (encodeNodeRequestHeader auth) = .ok auth ↔ 0 ≤ timestamp.toInt) := by
  have hread : ∀ auth, validPeerId auth.peerId = true →
      (parseNodeRequestHeader (encodeNodeRequestHeader auth) = .ok auth ↔ 0 ≤ auth.timestamp.toInt) := by
    intro auth hpeer
    rw [parse_eq_ok]
    exact ⟨fun h => h.2.2, fun hnonneg => ⟨rfl, hpeer, hnonneg⟩⟩
  refine ⟨?_, ?_, ?_⟩
  · intro auth hpeer
    refine ⟨hread auth hpeer, ?_⟩
    intro hneg
    rw [parse_encode hpeer, checkFields_negative hpeer hneg]
  · intro header auth h
    exact (parse_eq_ok.1 h).1.symm
  · intro ed signingKey peerId target recipient timestamp nonce auth h
    obtain ⟨hpeer, rfl⟩ := signNodeRequest_fields h
    exact hread auth hpeer

/-! ## Two signed requests -/

def testTarget : NodeRequestTarget where
  method := "POST"
  path := "/internal/v1/things"
  body := utf8 "\x7b\"a\":1\x7d"
  networkId := "avalon-test"

/-- the node's signatures over requests at -1 and at 1790000000, as (SHA-256 of the message, signature) -/
def nodeSignatures : List (FixedBytes 32 × FixedBytes 64) := [
  (.ofHex 32 "a38bc96db14f02a25a21a7f5c169682a81536b7d23e20c71202e22badc642134", .ofHex 64
    "cd8e18a03cae2ded90512c004cae5949a72cd9d9cd0e2c073e23cedc9d3ef0f2da9c38107a9c8088bbebe5bee37a197c050e43095c1ef9c63d176c31a75ea00f"),
  (.ofHex 32 "d173159755b94aa5e616a2ddf59c80127291905c50a55f20e1114474f6648174", .ofHex 64
    "f0360bddc8131978cbeba9650ad1d4ecd408d4537128c2b4b98c914fdc15e72741f7dc6e6c406be47f00f5c25c77a79a9c8c7a1c4b2d858395c205e879991805")]

/-- Ed25519 restricted to the node's key and these signatures -/
def nodeEd25519 : Ed25519 where
  verifyingKey _ := .ofHex 32 "2152f8d19b791d24453242e15f2eab6cb7cffa7b6a5ed30097960e069881db12"
  sign _ message := (nodeSignatures.lookup (Sha256.hash message)).getD (FixedBytes.replicate 64 0)
  verifyStrict _ message signature := nodeSignatures.contains (Sha256.hash message, signature)

/-- the credential the node makes at a time -/
def testAuth (timestamp : Int64) : Except NodeRequestError NodeRequestAuth :=
  signNodeRequest nodeEd25519 (FixedBytes.replicate 32 0x42) "12D3KooWExampleSignerPeerId" testTarget "node-b" timestamp
    (FixedBytes.replicate 16 7)

theorem testAuth_ok : (testAuth (-1)).isOk = true ∧ (testAuth 1790000000).isOk = true := by decide +kernel

theorem node_request_codec_signed : ∃ auth, testAuth 1790000000 = .ok auth ∧
    parseNodeRequestHeader (encodeNodeRequestHeader auth) = .ok auth := by
  cases hauth : testAuth 1790000000 with
  | error e =>
    have hok := testAuth_ok.2
    rw [hauth] at hok
    cases hok
  | ok auth => exact ⟨auth, rfl, (node_request_codec.2.2 _ _ _ _ _ _ _ auth hauth).2 (by decide)⟩

/-- the signer takes a negative timestamp, and the header it gets is refused -/
theorem negative_timestamp_unparseable :
    ¬ ∀ (ed : Ed25519) (signingKey : FixedBytes 32) (peerId : String) (target : NodeRequestTarget) (recipient : String)
      (timestamp : Int64) (nonce : FixedBytes 16) (auth : NodeRequestAuth),
      signNodeRequest ed signingKey peerId target recipient timestamp nonce = .ok auth →
      parseNodeRequestHeader (encodeNodeRequestHeader auth) = .ok auth := by
  intro h
  cases hauth : testAuth (-1) with
  | error e =>
    have hok := testAuth_ok.1
    rw [hauth] at hok
    cases hok
  | ok auth =>
    have hread := h _ _ _ _ _ _ _ auth hauth
    obtain ⟨hpeer, htimestamp⟩ := signNodeRequest_fields hauth
    have hnonneg := (parse_eq_ok.1 hread).2.2
    rw [htimestamp] at hnonneg
    exact absurd hnonneg (by decide)

end Avalon.NodeRequest
