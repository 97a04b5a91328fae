/-
JSON values and JSON texts.

- `Value` is a parsed document: an object is the list of its entries in the order of its keys (an ordered map), and
  `Value.Ordered` says so of every object inside. Numbers are unsigned and negative 64-bit integers and finite doubles.
- `F64` is what the developments need of finite IEEE doubles: the tests the code makes, the digits and the exponent of
  the scientific notation (`{:e}`), and the correctly rounded reading of a decimal. `F64.Faithful f` states that printing
  and reading are inverse on f, and what is printed for an integer and for a fraction.
- `Doc` is the syntax tree of a JSON text (whitespace left out), and `IsValue t d` the grammar of RFC 8259: t is a text
  of d. `Doc.Within k sub d` says that sub occurs in d inside k containers.
- `decode` reads the characters a string stands for, surrogate pairs joined; a lone surrogate stands for nothing.
- `Decimal` is an instance of the interface: a double by the decimal printed for it.
-/
import Mathlib.Tactic
import Mathlib.Data.String.Basic
import Avalon.Core.SortedMap

namespace Json

/-! ## Numbers -/

/-- finite IEEE doubles: the tests made on them, printing and reading -/
class F64 (F : Type) where
  /-- f == 0.0, also for the negative zero -/
  isZero : F → Bool
  /-- f < 0.0 -/
  isNegative : F → Bool
  /-- f.fract() == 0.0 -/
  isIntegral : F → Bool
  /-- the integer part -/
  trunc : F → ℤ
  /-- the digits of the shortest scientific notation of |f|, and its exponent: d.ddd e x -/
  digits : F → List Char
  exponent : F → ℤ
  /-- the text of the number in a message -/
  display : F → String
  /-- the double nearest to ± coefficient * 10 ^ exponent, unless that is infinite -/
  ofDecimal : Bool → ℕ → ℤ → Option F

/-- the number a list of decimal digits writes -/
def digitsValue (ds : List Char) : ℕ := Nat.ofDigitChars 10 ds 0

/-- a nonempty list of decimal digits -/
def IsDigits (ds : List Char) : Prop := ds ≠ [] ∧ ∀ c ∈ ds, c.isDigit

instance (ds : List Char) : Decidable (IsDigits ds) := @instDecidableAnd _ _ inferInstance (List.decidableBAll _ ds)

theorem digitsValue_append (a b : List Char) : digitsValue (a ++ b) = digitsValue a * 10 ^ b.length + digitsValue b := by
  rw [digitsValue, Nat.ofDigitChars_append, Nat.ofDigitChars_eq_ofDigitChars_zero, digitsValue, digitsValue, Nat.mul_comm]

theorem digitsValue_zeros (a : List Char) (n : ℕ) : digitsValue (a ++ List.replicate n '0') = digitsValue a * 10 ^ n := by
  rw [digitsValue, Nat.ofDigitChars_append, Nat.ofDigitChars_replicate_zero, Nat.mul_comm, digitsValue]

theorem digitsValue_leading_zeros (n : ℕ) (a : List Char) : digitsValue (List.replicate n '0' ++ a) = digitsValue a := by
  have h := digitsValue_zeros [] n
  rw [List.nil_append] at h
  rw [digitsValue_append, h]
  simp [digitsValue]

theorem digitsValue_toDigits (n : ℕ) : digitsValue (Nat.toDigits 10 n) = n := Nat.ofDigitChars_ten_toDigits

theorem isDigits_toDigits (n : ℕ) : IsDigits (Nat.toDigits 10 n) :=
  ⟨Nat.toDigits_ne_nil, fun _ hc => Nat.isDigit_of_mem_toDigits (by decide) (by decide) hc⟩

theorem head_toDigits {n : ℕ} (h : 0 < n) : (Nat.toDigits 10 n).head? ≠ some '0' := by
  induction n using Nat.strong_induction_on with
  | _ n ih =>
    rcases Nat.lt_or_ge n 10 with hlt | hge
    · rw [Nat.toDigits_of_lt_base hlt]
      intro h0
      have := Nat.digitChar_eq_zero.1 (Option.some.inj h0)
      omega
    · rw [Nat.toDigits_of_base_le (by decide) hge, List.head?_append]
      have hrec := ih (n / 10) (by omega) (by omega)
      obtain ⟨c, tail, hc⟩ := List.exists_cons_of_ne_nil (Nat.toDigits_ne_nil (n := n / 10) (b := 10))
      rw [hc] at hrec ⊢
      simpa using hrec

/-- a number without leading zero is at least the power of ten of its length -/
theorem pow_le_digitsValue {ds : List Char} (h : IsDigits ds) (hhead : ds.head? ≠ some '0') :
    10 ^ (ds.length - 1) ≤ digitsValue ds := by
  obtain ⟨c, tail, rfl⟩ := List.exists_cons_of_ne_nil h.1
  have hc : 48 ≤ c.toNat ∧ c.toNat ≤ 57 := Char.isDigit_iff_toNat.1 (h.2 c List.mem_cons_self)
  have hne : c.toNat ≠ 48 := by
    intro h48
    exact hhead (congrArg some (Char.toNat_inj.1 h48))
  have hval : digitsValue [c] = c.toNat - 48 := by simp [digitsValue, Nat.ofDigitChars]
  have hsplit := digitsValue_append [c] tail
  rw [List.singleton_append, hval] at hsplit
  rw [hsplit, List.length_cons, Nat.add_sub_cancel]
  have : 1 ≤ c.toNat - 48 := by omega
  calc 10 ^ tail.length = 1 * 10 ^ tail.length := (Nat.one_mul _).symm
    _ ≤ (c.toNat - 48) * 10 ^ tail.length := Nat.mul_le_mul_right _ this
    _ ≤ _ := Nat.le_add_right _ _

/-- digits without leading zero are the ones printed for their value -/
theorem toDigits_digitsValue {ds : List Char} (h : IsDigits ds) (hhead : ds.head? ≠ some '0') :
    Nat.toDigits 10 (digitsValue ds) = ds := by
  induction ds using List.reverseRecOn with
  | nil => exact absurd rfl h.1
  | append_singleton ds c ih =>
    have hc : 48 ≤ c.toNat ∧ c.toNat ≤ 57 := Char.isDigit_iff_toNat.1 (h.2 c (by simp))
    have hval : digitsValue [c] = c.toNat - 48 := by simp [digitsValue, Nat.ofDigitChars]
    have hlt : c.toNat - 48 < 10 := by omega
    have hdigit : Nat.digitChar (c.toNat - 48) = c := by
      apply Char.toNat_inj.1
      rw [Nat.toNat_digitChar_of_lt_ten hlt]
      omega
    have hlast : Nat.toDigits 10 (c.toNat - 48) = [c] := by rw [Nat.toDigits_of_lt_base hlt, hdigit]
    rw [digitsValue_append, hval, List.length_singleton, pow_one]
    cases ds with
    | nil => simpa [digitsValue] using hlast
    | cons d ds =>
      have hds : IsDigits (d :: ds) := ⟨List.cons_ne_nil _ _, fun x hx => h.2 x (List.mem_append_left _ hx)⟩
      have hhead' : (d :: ds).head? ≠ some '0' := by simpa using hhead
      have hpos : 0 < digitsValue (d :: ds) := lt_of_lt_of_le (by positivity) (pow_le_digitsValue hds hhead')
      rw [Nat.mul_comm, ← Nat.toDigits_append_toDigits (by decide) hpos hlt, ih hds hhead', hlast]

/-- the printed decimal is coefficient * 10 ^ scale -/
def F64.coefficient {F : Type} [F64 F] (f : F) : ℕ := digitsValue (F64.digits f)

def F64.scale {F : Type} [F64 F] (f : F) : ℤ := F64.exponent f + 1 - (F64.digits f).length

/-- printing and reading agree on f, as they do on every double -/
structure F64.Faithful {F : Type} [F64 F] (f : F) : Prop where
  /-- scientific notation starts with a digit other than zero -/
  digits_valid : F64.isZero f = false → IsDigits (F64.digits f) ∧ (F64.digits f).head? ≠ some '0'
  /-- **printing and reading are inverse** -/
  ofDecimal_digits : F64.isZero f = false →
    F64.ofDecimal (F64.isNegative f) (F64.coefficient f) (F64.scale f) = some f
  /-- an integer up to 2^53 is printed exactly, with its sign -/
  integral : F64.isZero f = false → F64.isIntegral f = true → (F64.trunc f).natAbs ≤ 2 ^ 53 →
    0 ≤ F64.scale f ∧ F64.coefficient f * 10 ^ (F64.scale f).toNat = (F64.trunc f).natAbs ∧
      F64.isNegative f = decide (F64.trunc f < 0)
  /-- a fraction is not printed as an integer -/
  fraction : F64.isZero f = false → F64.isIntegral f = false → F64.scale f < 0

inductive Number (F : Type) where
  | posInt (n : UInt64)
  | negInt (i : Int64) (h : i < 0)
  | float (f : F)
deriving DecidableEq

/-- the number of a signed integer -/
def Number.fromI64 {F : Type} (i : Int64) : Number F := if h : i < 0 then .negInt i h else .posInt i.toUInt64

/-! ## Values -/

inductive Value (F : Type) where
  | null
  | bool (b : Bool)
  | number (n : Number F)
  | string (s : String)
  | array (items : List (Value F))
  | object (entries : List (String × Value F))

/-- the keys of every object ascend -/
inductive Value.Ordered {F : Type} : Value F → Prop
  | null : Ordered .null
  | bool (b : Bool) : Ordered (.bool b)
  | number (n : Number F) : Ordered (.number n)
  | string (s : String) : Ordered (.string s)
  | array {items : List (Value F)} : (∀ v ∈ items, v.Ordered) → Ordered (.array items)
  | object {entries : List (String × Value F)} : SortedMap.Ascending entries → (∀ e ∈ entries, e.2.Ordered) →
      Ordered (.object entries)

theorem Value.ordered_array {F : Type} {items : List (Value F)} :
    Value.Ordered (.array items) ↔ ∀ v ∈ items, v.Ordered := by
  constructor
  · rintro ⟨⟩
    assumption
  · exact .array

theorem Value.ordered_object {F : Type} {entries : List (String × Value F)} :
    Value.Ordered (.object entries) ↔ SortedMap.Ascending entries ∧ ∀ e ∈ entries, e.2.Ordered := by
  constructor
  · rintro ⟨⟩
    exact ⟨‹_›, ‹_›⟩
  · exact fun h => .object h.1 h.2

/-- f is one of the numbers in the value -/
inductive Value.HasFloat {F : Type} (f : F) : Value F → Prop
  | number : HasFloat f (.number (.float f))
  | item {v : Value F} {items : List (Value F)} : v ∈ items → HasFloat f v → HasFloat f (.array items)
  | entry {e : String × Value F} {entries : List (String × Value F)} : e ∈ entries → HasFloat f e.2 →
      HasFloat f (.object entries)

/-! ## Strings as written -/

/-- the escapes of one letter -/
inductive ShortEscape where
  | quote
  | backslash
  | slash
  | backspace
  | formFeed
  | newline
  | carriageReturn
  | tab
deriving DecidableEq, Repr

def ShortEscape.letter : ShortEscape → Char
  | .quote => '"'
  | .backslash => '\\'
  | .slash => '/'
  | .backspace => 'b'
  | .formFeed => 'f'
  | .newline => 'n'
  | .carriageReturn => 'r'
  | .tab => 't'

def ShortEscape.char : ShortEscape → Char
  | .quote => '"'
  | .backslash => '\\'
  | .slash => '/'
  | .backspace => Char.ofNat 0x8
  | .formFeed => Char.ofNat 0xc
  | .newline => '\n'
  | .carriageReturn => '\r'
  | .tab => '\t'

/-- the value of an ASCII hex digit of either case -/
def hexDigitValue (c : Char) : Option ℕ :=
  if '0' ≤ c ∧ c ≤ '9' then some (c.toNat - 48)
  else if 'a' ≤ c ∧ c ≤ 'f' then some (c.toNat - 87)
  else if 'A' ≤ c ∧ c ≤ 'F' then some (c.toNat - 55)
  else none

/-- the 16-bit unit four hex digits write -/
def unitValue (a b c d : Char) : Option ℕ := do
  return 4096 * (← hexDigitValue a) + 256 * (← hexDigitValue b) + 16 * (← hexDigitValue c) + (← hexDigitValue d)

/-- a character allowed in a string as it is -/
def Unescaped (c : Char) : Prop := 0x20 ≤ c.toNat ∧ c ≠ '"' ∧ c ≠ '\\'

instance (c : Char) : Decidable (Unescaped c) := inferInstanceAs (Decidable (_ ∧ _))

/-- one character of a string as written, or one \u escape -/
inductive StrElem where
  | raw (c : Char) (h : Unescaped c)
  | short (e : ShortEscape)
  | unit (a b c d : Char) (u : ℕ) (h : unitValue a b c d = some u)

def StrElem.text : StrElem → List Char
  | .raw c _ => [c]
  | .short e => ['\\', e.letter]
  | .unit a b c d _ _ => ['\\', 'u', a, b, c, d]

/-- the string between its quotes -/
def bodyText (es : List StrElem) : List Char := es.flatMap StrElem.text

def stringText (es : List StrElem) : List Char := '"' :: bodyText es ++ ['"']

def isHighSurrogate (u : ℕ) : Bool := decide (0xD800 ≤ u ∧ u < 0xDC00)

def isLowSurrogate (u : ℕ) : Bool := decide (0xDC00 ≤ u ∧ u < 0xE000)

/-- the character of a code point, unless it is a surrogate or out of range -/
def charFromU32 (code : ℕ) : Option Char := if h : code.isValidChar then some (Char.ofNatAux code h) else none

/-- the code point of a surrogate pair -/
def joinSurrogates (hi lo : ℕ) : ℕ := 0x10000 + (hi - 0xD800) * 1024 + (lo - 0xDC00)

/-- the characters a string stands for; none with a lone surrogate -/
def decode : List StrElem → Option (List Char)
  | [] => some []
  | .raw c _ :: es => (decode es).map (c :: ·)
  | .short e :: es => (decode es).map (e.char :: ·)
  | .unit _ _ _ _ u _ :: es =>
    if isHighSurrogate u then
      match es with
      | .unit _ _ _ _ v _ :: es' =>
        if isLowSurrogate v then do
          let c ← charFromU32 (joinSurrogates u v)
          let cs ← decode es'
          return c :: cs
        else none
      | _ => none
    else do
      let c ← charFromU32 u
      let cs ← decode es
      return c :: cs

theorem decode_unit {a b c d : Char} {u : ℕ} (h : unitValue a b c d = some u) (hu : isHighSurrogate u = false)
    (es : List StrElem) :
    decode (.unit a b c d u h :: es) = (charFromU32 u).bind fun x => (decode es).map (x :: ·) := by
  rw [decode.eq_def]
  simp only [hu, Bool.false_eq_true, if_false]
  cases charFromU32 u with
  | none => rfl
  | some x => cases decode es <;> rfl

theorem decode_pair {a b c d a' b' c' d' : Char} {u v : ℕ} (h : unitValue a b c d = some u)
    (h' : unitValue a' b' c' d' = some v) (hu : isHighSurrogate u = true) (hv : isLowSurrogate v = true)
    (es : List StrElem) :
    decode (.unit a b c d u h :: .unit a' b' c' d' v h' :: es) =
      (charFromU32 (joinSurrogates u v)).bind fun x => (decode es).map (x :: ·) := by
  rw [decode]
  simp only [hu, hv, if_true]
  cases charFromU32 (joinSurrogates u v) with
  | none => rfl
  | some x => cases decode es <;> rfl

/-- every surrogate is half of a pair -/
inductive Paired : List StrElem → Prop
  | nil : Paired []
  | raw {c : Char} (h : Unescaped c) {es : List StrElem} : Paired es → Paired (.raw c h :: es)
  | short (e : ShortEscape) {es : List StrElem} : Paired es → Paired (.short e :: es)
  | unit {a b c d : Char} {u : ℕ} (h : unitValue a b c d = some u) {es : List StrElem} : isHighSurrogate u = false →
      isLowSurrogate u = false → Paired es → Paired (.unit a b c d u h :: es)
  | pair {a b c d a' b' c' d' : Char} {u v : ℕ} (h : unitValue a b c d = some u) (h' : unitValue a' b' c' d' = some v)
      {es : List StrElem} : isHighSurrogate u = true → isLowSurrogate v = true → Paired es →
      Paired (.unit a b c d u h :: .unit a' b' c' d' v h' :: es)

theorem hexDigitValue_lt {c : Char} {x : ℕ} (h : hexDigitValue c = some x) : x < 16 := by
  have hle : ∀ {c d : Char}, c ≤ d ↔ c.toNat ≤ d.toNat := Iff.rfl
  have hnum : 'a'.toNat = 97 ∧ 'f'.toNat = 102 ∧ 'A'.toNat = 65 ∧ 'F'.toNat = 70 ∧ '0'.toNat = 48 ∧ '9'.toNat = 57 := by
    decide
  unfold hexDigitValue at h
  simp only [hle] at h
  split_ifs at h <;> (cases h; omega)

theorem unitValue_lt {a b c d : Char} {u : ℕ} (h : unitValue a b c d = some u) : u < 65536 := by
  unfold unitValue at h
  obtain ⟨x, hx, h⟩ := Option.bind_eq_some_iff.1 h
  obtain ⟨y, hy, h⟩ := Option.bind_eq_some_iff.1 h
  obtain ⟨z, hz, h⟩ := Option.bind_eq_some_iff.1 h
  obtain ⟨w, hw, h⟩ := Option.bind_eq_some_iff.1 h
  obtain rfl := Option.some.inj h
  have hx := hexDigitValue_lt hx
  have hy := hexDigitValue_lt hy
  have hz := hexDigitValue_lt hz
  have hw := hexDigitValue_lt hw
  omega

theorem charFromU32_isSome {u : ℕ} : (charFromU32 u).isSome ↔ u.isValidChar := by
  unfold charFromU32
  by_cases h : u.isValidChar
  · rw [dif_pos h]
    exact iff_of_true rfl h
  · rw [dif_neg h]
    exact iff_of_false Bool.false_ne_true h

/-- a string stands for characters exactly when its surrogates come in pairs -/
theorem decode_isSome_iff {es : List StrElem} : (decode es).isSome ↔ Paired es := by
  constructor
  · intro h
    induction es using decode.induct with
    | case1 => exact .nil
    | case2 c hc es ih => exact .raw hc (ih (by simpa [decode] using h))
    | case3 e es ih => exact .short e (ih (by simpa [decode] using h))
    | case4 a b c d u hu hhigh a' b' c' d' v hv es hlow ih =>
      rw [decode_pair hu hv hhigh hlow, Option.isSome_bind] at h
      refine .pair hu hv hhigh hlow (ih ?_)
      obtain ⟨x, hx⟩ : ∃ x, charFromU32 (joinSurrogates u v) = some x := by
        cases hx : charFromU32 (joinSurrogates u v) with
        | none => simp [hx] at h
        | some x => exact ⟨x, rfl⟩
      simpa [hx] using h
    | case5 a b c d u hu hhigh a' b' c' d' v hv es hlow =>
      rw [decode, if_pos hhigh, if_neg hlow] at h
      cases h
    | case6 a b c d u hu es hhigh hes =>
      rw [decode.eq_def] at h
      dsimp only at h
      rw [if_pos hhigh] at h
      split at h
      · exact absurd rfl (hes _ _ _ _ _ _ _)
      · cases h
    | case7 a b c d u hu es hhigh ih =>
      have hhigh' : isHighSurrogate u = false := by simpa using hhigh
      rw [decode_unit hu hhigh'] at h
      cases hx : charFromU32 u with
      | none => simp [hx] at h
      | some x =>
        have hvalid : u.isValidChar := charFromU32_isSome.1 (by simp [hx])
        have hlow : isLowSurrogate u = false := by
          simp only [isHighSurrogate, isLowSurrogate, decide_eq_false_iff_not, Nat.isValidChar] at *
          omega
        exact .unit hu hhigh' hlow (ih (by simpa [hx] using h))
  · intro h
    induction h with
    | nil => rfl
    | raw hc _ ih => simpa [decode] using ih
    | short e _ ih => simpa [decode] using ih
    | @unit a b c d u hu es hhigh hlow _ ih =>
      have hvalid : u.isValidChar := by
        have := unitValue_lt hu
        simp only [isHighSurrogate, isLowSurrogate, decide_eq_false_iff_not, Nat.isValidChar] at *
        omega
      obtain ⟨x, hx⟩ := Option.isSome_iff_exists.1 (charFromU32_isSome.2 hvalid)
      rw [decode_unit hu hhigh, hx]
      simpa using ih
    | @pair a b c d a' b' c' d' u v hu hv es hhigh hlow _ ih =>
      have hvalid : (joinSurrogates u v).isValidChar := by
        have hu' := of_decide_eq_true hhigh
        have hv' := of_decide_eq_true hlow
        have hjoin : joinSurrogates u v = 0x10000 + (u - 0xD800) * 1024 + (v - 0xDC00) := rfl
        exact .inr ⟨by omega, by omega⟩
      obtain ⟨x, hx⟩ := Option.isSome_iff_exists.1 (charFromU32_isSome.2 hvalid)
      rw [decode_pair hu hv hhigh hlow, hx]
      simpa using ih

/-! ## Numbers as written -/

/-- a number in the pieces of its grammar: sign, integer part, fraction and exponent (letter, sign, digits) -/
structure NumberToken where
  neg : Bool
  int : List Char
  frac : Option (List Char)
  exp : Option (Char × List Char × List Char)
deriving DecidableEq, Repr

namespace NumberToken

def signText (t : NumberToken) : List Char := if t.neg then ['-'] else []

def fracText (t : NumberToken) : List Char :=
  match t.frac with
  | some ds => '.' :: ds
  | none => []

def expText (t : NumberToken) : List Char :=
  match t.exp with
  | some (e, sign, ds) => e :: sign ++ ds
  | none => []

def text (t : NumberToken) : List Char := t.signText ++ t.int ++ t.fracText ++ t.expText

/-- no leading zero, and digits wherever the grammar wants some -/
structure Valid (t : NumberToken) : Prop where
  int : t.int = ['0'] ∨ (IsDigits t.int ∧ t.int.head? ≠ some '0')
  frac : ∀ ds ∈ t.frac, IsDigits ds
  exp : ∀ e ∈ t.exp, (e.1 = 'e' ∨ e.1 = 'E') ∧ (e.2.1 = [] ∨ e.2.1 = ['+'] ∨ e.2.1 = ['-']) ∧ IsDigits e.2.2

/-- neither fraction nor exponent is written -/
def integerForm (t : NumberToken) : Bool := t.frac.isNone && t.exp.isNone

/-- the integer of the integer part -/
def intValue (t : NumberToken) : ℤ := if t.neg then -(digitsValue t.int : ℤ) else digitsValue t.int

/-- the digits before and after the point, read as one number -/
def coefficient (t : NumberToken) : ℕ := digitsValue (t.int ++ t.frac.getD [])

def expValue (t : NumberToken) : ℤ :=
  match t.exp with
  | some (_, sign, ds) => if sign = ['-'] then -(digitsValue ds : ℤ) else digitsValue ds
  | none => 0

/-- the number is ± coefficient * 10 ^ scale -/
def scale (t : NumberToken) : ℤ := t.expValue - (t.frac.getD []).length

end NumberToken

/-! ## Texts -/

/-- the syntax tree of a JSON text -/
inductive Doc where
  | null
  | bool (b : Bool)
  | number (t : NumberToken)
  | string (es : List StrElem)
  | array (items : List Doc)
  | object (members : List (List StrElem × Doc))

def isWs (c : Char) : Bool := c == ' ' || c == '\t' || c == '\n' || c == '\r'

/-- insignificant whitespace -/
def Ws (w : List Char) : Prop := ∀ c ∈ w, isWs c = true

def boolText (b : Bool) : List Char := if b then ['t', 'r', 'u', 'e'] else ['f', 'a', 'l', 's', 'e']

mutual

/-- the text of a value, as the grammar derives it -/
inductive IsValue : List Char → Doc → Prop
  | null : IsValue ['n', 'u', 'l', 'l'] .null
  | bool (b : Bool) : IsValue (boolText b) (.bool b)
  | number {t : NumberToken} : t.Valid → IsValue t.text (.number t)
  | string (es : List StrElem) : IsValue (stringText es) (.string es)
  | emptyArray {w : List Char} : Ws w → IsValue ('[' :: w ++ [']']) (.array [])
  | array {t : List Char} {items : List Doc} : IsItems t items → IsValue ('[' :: t ++ [']']) (.array items)
  | emptyObject {w : List Char} : Ws w → IsValue ('\x7b' :: w ++ ['\x7d']) (.object [])
  | object {t : List Char} {members : List (List StrElem × Doc)} : IsMembers t members →
      IsValue ('\x7b' :: t ++ ['\x7d']) (.object members)

/-- values separated by commas -/
inductive IsItems : List Char → List Doc → Prop
  | one {w₁ t w₂ : List Char} {d : Doc} : Ws w₁ → IsValue t d → Ws w₂ → IsItems (w₁ ++ t ++ w₂) [d]
  | more {w₁ t w₂ ts : List Char} {d : Doc} {ds : List Doc} : Ws w₁ → IsValue t d → Ws w₂ → IsItems ts ds →
      IsItems (w₁ ++ t ++ w₂ ++ ',' :: ts) (d :: ds)

/-- keys and values separated by commas -/
inductive IsMembers : List Char → List (List StrElem × Doc) → Prop
  | one {t : List Char} {m : List StrElem × Doc} : IsMember t m → IsMembers t [m]
  | more {t ts : List Char} {m : List StrElem × Doc} {ms : List (List StrElem × Doc)} : IsMember t m →
      IsMembers ts ms → IsMembers (t ++ ',' :: ts) (m :: ms)

/-- a key, a colon and a value, with whitespace around each -/
inductive IsMember : List Char → List StrElem × Doc → Prop
  | mk {w₁ w₂ w₃ t w₄ : List Char} {k : List StrElem} {d : Doc} : Ws w₁ → Ws w₂ → Ws w₃ → IsValue t d → Ws w₄ →
      IsMember (w₁ ++ stringText k ++ w₂ ++ ':' :: w₃ ++ t ++ w₄) (k, d)

end

/-- one JSON value with whitespace around it -/
def IsText (text : List Char) (d : Doc) : Prop :=
  ∃ w₁ t w₂, Ws w₁ ∧ IsValue t d ∧ Ws w₂ ∧ text = w₁ ++ t ++ w₂

/-- sub occurs in d inside k containers -/
inductive Doc.Within : ℕ → Doc → Doc → Prop
  | self (d : Doc) : Within 0 d d
  | item {k : ℕ} {sub d : Doc} {items : List Doc} : d ∈ items → Within k sub d → Within (k + 1) sub (.array items)
  | member {k : ℕ} {sub : Doc} {m : List StrElem × Doc} {members : List (List StrElem × Doc)} : m ∈ members →
      Within k sub m.2 → Within (k + 1) sub (.object members)

/-! ## Decimals -/

/-- a double by the decimal printed for it: ± coefficient * 10 ^ scale, the coefficient not a multiple of ten -/
structure Decimal where
  neg : Bool
  coefficient : ℕ
  scale : ℤ
deriving DecidableEq, Repr

namespace Decimal

/-- trailing zeros move to the scale -/
def ofDecimal (neg : Bool) : ℕ → ℕ → ℤ → Decimal
  | 0, c, s => ⟨neg, c, s⟩
  | fuel + 1, c, s => if c ≠ 0 ∧ c % 10 = 0 then ofDecimal neg fuel (c / 10) (s + 1) else ⟨neg, c, s⟩

instance : F64 Decimal where
  isZero d := d.coefficient == 0
  isNegative d := d.neg && d.coefficient != 0
  isIntegral d := decide (0 ≤ d.scale)
  trunc d :=
    let magnitude : ℕ := if 0 ≤ d.scale then d.coefficient * 10 ^ d.scale.toNat else d.coefficient / 10 ^ (-d.scale).toNat
    if d.neg then -(magnitude : ℤ) else magnitude
  digits d := Nat.toDigits 10 d.coefficient
  exponent d := d.scale + (Nat.toDigits 10 d.coefficient).length - 1
  display d := (if d.neg then "-" else "") ++ toString d.coefficient ++ "e" ++ toString d.scale
  ofDecimal neg c s := some (Decimal.ofDecimal neg c c s)

end Decimal

end Json
