/-
Writing and reading canonical payloads.

The writer's output is a text of the JSON grammar, so what the parser makes of it follows from the results on the parser.
`normalize` replaces a double that is an integer by that integer: that is all the canonical form forgets.

- `number_token`, `string_elements`: what is written for a number and for a string, as tokens of the grammar.
- `writeValue_isValue`: what is written for a value is a text of a tree that stands for the normalized value.
- `canonical_round_trip`: reading back, idempotence, and when two values have the same canonical bytes.
-/
import Mathlib.Tactic
import Avalon.Protocol.CanonicalParser

namespace Avalon.CanonicalPayload

open Json

variable {F : Type} [F64 F]

/-! ## What the canonical form forgets -/

/-- an integral double as the integer it is -/
def normalizeNumber : Number F → Number F
  | .float f =>
    if F64.isZero f then Number.fromI64 0
    else if F64.isIntegral f ∧ (F64.trunc f).natAbs ≤ MAX_SAFE_INTEGER then Number.fromI64 (Int64.ofInt (F64.trunc f))
    else .float f
  | n => n

mutual

def normalize : Value F → Value F
  | .null => .null
  | .bool b => .bool b
  | .number n => .number (normalizeNumber n)
  | .string s => .string s
  | .array items => .array (normalizeItems items)
  | .object entries => .object (normalizeEntries entries)

def normalizeItems : List (Value F) → List (Value F)
  | [] => []
  | v :: vs => normalize v :: normalizeItems vs

def normalizeEntries : List (String × Value F) → List (String × Value F)
  | [] => []
  | (k, v) :: es => (k, normalize v) :: normalizeEntries es

end

theorem normalizeItems_eq (items : List (Value F)) : normalizeItems items = items.map normalize := by
  induction items with
  | nil => rfl
  | cons v items ih => rw [normalizeItems, ih, List.map_cons]

theorem normalizeEntries_eq (entries : List (String × Value F)) :
    normalizeEntries entries = entries.map fun e => (e.1, normalize e.2) := by
  induction entries with
  | nil => rfl
  | cons e entries ih => rw [normalizeEntries, ih, List.map_cons]

/-! ## Numbers -/

theorem intValid_toDigits (n : ℕ) : IntValid (Nat.toDigits 10 n) := by
  rcases Nat.eq_zero_or_pos n with rfl | hpos
  · exact .inl (Nat.toDigits_zero 10)
  · exact .inr ⟨isDigits_toDigits n, head_toDigits hpos⟩

/-- the token of an integer -/
def intToken (neg : Bool) (ds : List Char) : NumberToken := ⟨neg, ds, none, none⟩

theorem intToken_valid {neg : Bool} {ds : List Char} (h : IntValid ds) : (intToken neg ds).Valid :=
  ⟨h, nofun, nofun⟩

theorem intToken_text (neg : Bool) (ds : List Char) : (intToken neg ds).text = if neg then '-' :: ds else ds := by
  cases neg <;> simp [intToken, NumberToken.text, NumberToken.signText, NumberToken.fracText, NumberToken.expText]

/-- an integer in range is read as itself -/
theorem tokenNumber_int {neg : Bool} {ds : List Char} {i : ℤ} (hds : IntValid ds)
    (hval : (intToken neg ds).intValue = i) (hsafe : i.natAbs ≤ MAX_SAFE_INTEGER) (hzero : neg = true → ds ≠ ['0']) :
    tokenNumber (F := F) (intToken neg ds) = some (Number.fromI64 (Int64.ofInt i)) := by
  have htext : (intToken neg ds).text ≠ ['-', '0'] := by
    rw [intToken_text]
    cases neg with
    | true => simpa using hzero rfl
    | false =>
      obtain ⟨c, tail, rfl, hc⟩ := exists_cons_of_intValid hds
      rintro ⟨⟩
      exact absurd hc (by decide)
  have hparse : parseI128 (intToken neg ds) = some i := by
    unfold MAX_SAFE_INTEGER at hsafe
    rw [parseI128, hval, if_pos (by omega)]
  have hform : (intToken neg ds).integerForm = true := rfl
  rw [tokenNumber, if_pos hform, if_neg htext, hparse]
  exact if_pos hsafe

theorem intValue_intToken (neg : Bool) (ds : List Char) :
    (intToken neg ds).intValue = if neg then -(digitsValue ds : ℤ) else digitsValue ds := rfl

/-- the text of an integer in range is a token that is read as that integer -/
theorem int_token {i : ℤ} (hsafe : i.natAbs ≤ MAX_SAFE_INTEGER) :
    ∃ t : NumberToken, t.Valid ∧ t.text = intText i ∧ tokenNumber (F := F) t = some (Number.fromI64 (Int64.ofInt i)) := by
  refine ⟨intToken (decide (i < 0)) (Nat.toDigits 10 i.natAbs), intToken_valid (intValid_toDigits _), ?_, ?_⟩
  · rw [intToken_text, intText]
    by_cases hneg : i < 0 <;> simp [hneg]
  · refine tokenNumber_int (intValid_toDigits _) ?_ hsafe ?_
    · rw [intValue_intToken, digitsValue_toDigits]
      by_cases hneg : i < 0
      · rw [if_pos (decide_eq_true hneg)]
        omega
      · rw [if_neg (by simpa using hneg)]
        omega
    · intro hneg hds
      have hpos : 0 < i.natAbs := by
        have := of_decide_eq_true hneg
        omega
      exact head_toDigits hpos (by rw [hds]; rfl)

theorem floatText_cases {f : F} {text : List Char} (h : floatText f = some text) :
    (F64.isZero f = true ∧ text = ['0']) ∨
    (F64.isZero f = false ∧ (F64.isIntegral f = true → (F64.trunc f).natAbs ≤ MAX_SAFE_INTEGER) ∧
      text = signedLayout f) := by
  obtain ⟨hrange, htext⟩ := floatText_eq_some.1 h
  cases hz : F64.isZero f with
  | true => exact .inl ⟨rfl, by simpa [hz] using htext⟩
  | false =>
    refine .inr ⟨rfl, fun hint => ?_, by simpa [hz] using htext⟩
    simpa [InRange, hz, hint] using hrange

section Floats

variable {f : F} (hf : F64.Faithful f) (hzero : F64.isZero f = false)

include hf hzero

/-- an integral double up to 2^53 is laid out as an integer -/
theorem layout_integral (hint : F64.isIntegral f = true) (hsafe : (F64.trunc f).natAbs ≤ MAX_SAFE_INTEGER) :
    layoutDigits (F64.digits f) (F64.exponent f + 1) =
      F64.digits f ++ List.replicate (F64.scale f).toNat '0' := by
  obtain ⟨hds, hhead⟩ := hf.digits_valid hzero
  obtain ⟨hscale, hval, -⟩ := hf.integral hzero hint hsafe
  have hlow := pow_le_digitsValue hds hhead
  have hlen : 0 < (F64.digits f).length := List.length_pos_of_ne_nil hds.1
  have hn : F64.exponent f + 1 = F64.scale f + (F64.digits f).length := by
    unfold F64.scale
    omega
  -- the value has n digits, and 2^53 has sixteen
  have hbound : (F64.digits f).length - 1 + (F64.scale f).toNat < 16 := by
    have hle : 10 ^ ((F64.digits f).length - 1 + (F64.scale f).toNat) ≤ MAX_SAFE_INTEGER := by
      calc 10 ^ ((F64.digits f).length - 1 + (F64.scale f).toNat)
          = 10 ^ ((F64.digits f).length - 1) * 10 ^ (F64.scale f).toNat := Nat.pow_add ..
        _ ≤ F64.coefficient f * 10 ^ (F64.scale f).toNat := Nat.mul_le_mul_right _ hlow
        _ = (F64.trunc f).natAbs := hval
        _ ≤ MAX_SAFE_INTEGER := hsafe
    by_contra hge
    have hpow : 10 ^ 16 ≤ 10 ^ ((F64.digits f).length - 1 + (F64.scale f).toNat) :=
      Nat.pow_le_pow_right (by decide) (Nat.le_of_not_lt hge)
    have := hpow.trans hle
    revert this
    decide
  unfold layoutDigits
  rw [if_pos (by omega)]
  congr 2

/-- an integral double up to 2^53 is written as the integer it is -/
theorem signedLayout_integral (hint : F64.isIntegral f = true) (hsafe : (F64.trunc f).natAbs ≤ MAX_SAFE_INTEGER) :
    signedLayout f = intText (F64.trunc f) := by
  obtain ⟨hds, hhead⟩ := hf.digits_valid hzero
  obtain ⟨hscale, hval, hneg⟩ := hf.integral hzero hint hsafe
  have hdigits : Nat.toDigits 10 (F64.trunc f).natAbs = F64.digits f ++ List.replicate (F64.scale f).toNat '0' := by
    rw [← hval, F64.coefficient, ← digitsValue_zeros]
    apply toDigits_digitsValue
    · refine ⟨by simp [hds.1], ?_⟩
      intro x hx
      rcases List.mem_append.1 hx with hx | hx
      · exact hds.2 x hx
      · rw [List.eq_of_mem_replicate hx]
        decide
    · obtain ⟨c, tail, hc⟩ := List.exists_cons_of_ne_nil hds.1
      rw [hc] at hhead ⊢
      exact hhead
  rw [signedLayout, layout_integral hf hzero hint hsafe, hneg, intText, hdigits]
  by_cases hlt : F64.trunc f < 0 <;> simp [hlt]

/-- a token with a fraction or an exponent that has the digits and the scale of f is read as f, if it is f's text -/
theorem tokenNumber_float {t : NumberToken} (hform : t.integerForm = false) (hneg : t.neg = F64.isNegative f)
    (hcoeff : t.coefficient = F64.coefficient f) (hscale : t.scale = F64.scale f) (htext : floatText f = some t.text) :
    tokenNumber (F := F) t = some (.float f) := by
  have hread : parseF64 t = some f := by
    rw [parseF64, hneg, hcoeff, hscale]
    exact hf.ofDecimal_digits hzero
  rw [tokenNumber, if_neg (by rw [hform]; exact Bool.false_ne_true), hread]
  exact if_pos htext

/-- the layouts of a fraction as tokens: a point inside the digits, a point before them, or an exponent -/
theorem fraction_token (hfrac : F64.isIntegral f = false) :
    ∃ t : NumberToken, t.Valid ∧ t.neg = F64.isNegative f ∧ t.integerForm = false ∧
      t.coefficient = F64.coefficient f ∧ t.scale = F64.scale f ∧
      t.int ++ t.fracText ++ t.expText = layoutDigits (F64.digits f) (F64.exponent f + 1) := by
  obtain ⟨hds, hhead⟩ := hf.digits_valid hzero
  have hneg := hf.fraction hzero hfrac
  have hlen : 0 < (F64.digits f).length := List.length_pos_of_ne_nil hds.1
  have hscale : F64.scale f = F64.exponent f + 1 - (F64.digits f).length := rfl
  have hcoeff : F64.coefficient f = digitsValue (F64.digits f) := rfl
  generalize F64.exponent f + 1 = n at *
  generalize F64.digits f = ds at *
  have htake : ∀ m, 0 < m → IntValid (ds.take m) := by
    intro m hm
    obtain ⟨c, tail, rfl⟩ := List.exists_cons_of_ne_nil hds.1
    obtain ⟨m, rfl⟩ := Nat.exists_eq_succ_of_ne_zero hm.ne'
    exact .inr ⟨⟨by simp, fun x hx => hds.2 x (List.mem_of_mem_take hx)⟩, by simpa using hhead⟩
  have hdrop : ∀ m, m < ds.length → IsDigits (ds.drop m) := by
    intro m hm
    exact ⟨by simpa using hm, fun x hx => hds.2 x (List.mem_of_mem_drop hx)⟩
  unfold layoutDigits
  rw [if_neg (by omega)]
  by_cases hmid : 0 < n ∧ n ≤ 21
  · rw [if_pos hmid]
    have hvalid : NumberToken.Valid ⟨F64.isNegative f, ds.take n.toNat, some (ds.drop n.toNat), none⟩ :=
      ⟨htake _ (by omega), fun x hx => Option.mem_some.1 hx ▸ hdrop _ (by omega), by simp⟩
    refine ⟨_, hvalid, rfl, rfl, ?_, ?_, ?_⟩
    · simp [NumberToken.coefficient, hcoeff]
    · simp only [NumberToken.scale, NumberToken.expValue, Option.getD_some, List.length_drop]
      omega
    · simp [NumberToken.fracText, NumberToken.expText]
  rw [if_neg hmid]
  by_cases hsmall : -6 < n ∧ n ≤ 0
  · rw [if_pos hsmall]
    have hvalid : NumberToken.Valid
        ⟨F64.isNegative f, ['0'], some (List.replicate (-n).toNat '0' ++ ds), none⟩ := by
      refine ⟨.inl rfl, fun x hx => Option.mem_some.1 hx ▸ ⟨by simp [hds.1], ?_⟩, by simp⟩
      intro c hc
      rcases List.mem_append.1 hc with hc | hc
      · rw [List.eq_of_mem_replicate hc]
        decide
      · exact hds.2 c hc
    refine ⟨_, hvalid, rfl, rfl, ?_, ?_, ?_⟩
    · have hzeros := digitsValue_leading_zeros ((-n).toNat + 1) ds
      rw [List.replicate_succ] at hzeros
      simpa [NumberToken.coefficient, hcoeff] using hzeros
    · simp only [NumberToken.scale, NumberToken.expValue, Option.getD_some, List.length_append, List.length_replicate]
      omega
    · simp [NumberToken.fracText, NumberToken.expText]
  rw [if_neg hsmall]
  -- scientific notation: one digit, the others behind a point, an exponent with its sign
  have hexp : ∀ e ∈ some ('e', [if n - 1 < 0 then '-' else '+'], Nat.toDigits 10 (n - 1).natAbs),
      (e.1 = 'e' ∨ e.1 = 'E') ∧ (e.2.1 = [] ∨ e.2.1 = ['+'] ∨ e.2.1 = ['-']) ∧ IsDigits e.2.2 := by
    intro e he
    obtain rfl := Option.mem_some.1 he
    refine ⟨.inl rfl, .inr ?_, isDigits_toDigits _⟩
    dsimp only
    split_ifs
    · exact .inr rfl
    · exact .inl rfl
  have hexpValue : (if [if n - 1 < 0 then '-' else '+'] = ['-'] then -(digitsValue (Nat.toDigits 10 (n - 1).natAbs) : ℤ)
      else digitsValue (Nat.toDigits 10 (n - 1).natAbs)) = n - 1 := by
    rw [digitsValue_toDigits]
    by_cases hlt : n - 1 < 0
    · rw [if_pos hlt, if_pos rfl]
      omega
    · rw [if_neg hlt, if_neg (by decide)]
      omega
  by_cases hone : 1 < ds.length
  · have hvalid : NumberToken.Valid ⟨F64.isNegative f, ds.take 1, some (ds.drop 1),
        some ('e', [if n - 1 < 0 then '-' else '+'], Nat.toDigits 10 (n - 1).natAbs)⟩ :=
      ⟨htake 1 (by decide), fun x hx => Option.mem_some.1 hx ▸ hdrop 1 hone, hexp⟩
    refine ⟨_, hvalid, rfl, rfl, ?_, ?_, ?_⟩
    · rw [NumberToken.coefficient, Option.getD_some, List.take_append_drop, hcoeff]
    · simp only [NumberToken.scale, NumberToken.expValue, hexpValue, Option.getD_some, List.length_drop]
      omega
    · simp [NumberToken.fracText, NumberToken.expText, hone]
  · have hvalid : NumberToken.Valid ⟨F64.isNegative f, ds.take 1, none,
        some ('e', [if n - 1 < 0 then '-' else '+'], Nat.toDigits 10 (n - 1).natAbs)⟩ :=
      ⟨htake 1 (by decide), by simp, hexp⟩
    have hall : ds.take 1 = ds := List.take_of_length_le (by omega)
    refine ⟨_, hvalid, rfl, rfl, ?_, ?_, ?_⟩
    · simp [NumberToken.coefficient, hcoeff, hall]
    · simp only [NumberToken.scale, NumberToken.expValue, hexpValue, Option.getD_none, List.length_nil]
      omega
    · simp [NumberToken.fracText, NumberToken.expText, hone]

end Floats

omit [F64 F] in
theorem fromI64_of_negInt {i : Int64} (h : i < 0) : Number.fromI64 (F := F) (Int64.ofInt i.toInt) = .negInt i h := by
  rw [Int64.ofInt_toInt, Number.fromI64, dif_pos h]

omit [F64 F] in
theorem fromI64_of_posInt {u : UInt64} (h : u.toNat ≤ MAX_SAFE_INTEGER) :
    Number.fromI64 (F := F) (Int64.ofInt u.toNat) = .posInt u := by
  have hsafe : (u.toNat : ℤ).natAbs ≤ MAX_SAFE_INTEGER := by simpa using h
  have hint := toInt_ofInt hsafe
  have hnn : ¬ Int64.ofInt u.toNat < 0 := by
    rw [Int64.lt_iff_toInt_lt, hint]
    simp
  rw [Number.fromI64, dif_neg hnn]
  congr 1
  apply UInt64.toNat_inj.1
  rw [Int64.toNat_toUInt64_of_le (by simpa using hnn), ← Int64.toNat_toInt, hint, Int.toNat_natCast]

/-- **Numbers.** What is written for a number is a token that is read as the normalized number. -/
theorem number_token {x : Number F} {text : List Char} (hf : ∀ f, x = .float f → F64.Faithful f)
    (h : numberText x = .ok text) :
    ∃ t : NumberToken, t.Valid ∧ t.text = text ∧ tokenNumber (F := F) t = some (normalizeNumber x) := by
  have hsafeInt : ∀ {i : ℤ}, safeInteger i = .ok text → i.natAbs ≤ MAX_SAFE_INTEGER ∧ intText i = text := by
    intro i hi
    unfold safeInteger at hi
    split_ifs at hi with hle
    cases hi
    exact ⟨hle, rfl⟩
  cases x with
  | posInt u =>
    obtain ⟨hsafe, rfl⟩ := hsafeInt h
    obtain ⟨t, ht, htext, hval⟩ := int_token (F := F) hsafe
    refine ⟨t, ht, htext, ?_⟩
    rw [hval, normalizeNumber, fromI64_of_posInt (by simpa using hsafe)]
    simp
  | negInt i hi =>
    obtain ⟨hsafe, rfl⟩ := hsafeInt h
    obtain ⟨t, ht, htext, hval⟩ := int_token (F := F) hsafe
    refine ⟨t, ht, htext, ?_⟩
    rw [hval, normalizeNumber, fromI64_of_negInt hi]
    simp
  | float f =>
    have hf := hf f rfl
    rw [numberText] at h
    split at h
    · rename_i text' hft
      cases h
      rcases floatText_cases hft with ⟨hz, rfl⟩ | ⟨hz, hsafe, rfl⟩
      · obtain ⟨t, ht, htext, hval⟩ := int_token (F := F) (i := 0) (by decide)
        refine ⟨t, ht, htext, ?_⟩
        rw [hval, normalizeNumber, hz, if_pos rfl]
        rfl
      · cases hint : F64.isIntegral f with
        | true =>
          obtain ⟨t, ht, htext, hval⟩ := int_token (F := F) (hsafe hint)
          refine ⟨t, ht, htext.trans (signedLayout_integral hf hz hint (hsafe hint)).symm, ?_⟩
          rw [hval, normalizeNumber, hz, if_neg Bool.false_ne_true, if_pos ⟨hint, hsafe hint⟩]
        | false =>
          obtain ⟨t, ht, hneg, hform, hcoeff, hscale, htext⟩ := fraction_token hf hz hint
          have hwhole : t.text = signedLayout f := by
            rw [NumberToken.text, NumberToken.signText, hneg, signedLayout, ← htext]
            cases F64.isNegative f <;> simp
          refine ⟨t, ht, hwhole, ?_⟩
          rw [tokenNumber_float hf hz hform hneg hcoeff hscale (hwhole ▸ hft), normalizeNumber, hz,
            if_neg Bool.false_ne_true, if_neg (by simp [hint])]
    · cases h

/-- the normalized number is written as the number was -/
theorem numberText_normalizeNumber {x : Number F} {text : List Char} (hf : ∀ f, x = .float f → F64.Faithful f)
    (h : numberText x = .ok text) : numberText (normalizeNumber x) = .ok text := by
  cases x with
  | posInt u => exact h
  | negInt i hi => exact h
  | float f =>
    have hf := hf f rfl
    have h' := h
    rw [numberText] at h
    split at h
    · rename_i text' hft
      cases h
      rw [normalizeNumber]
      rcases floatText_cases hft with ⟨hz, rfl⟩ | ⟨hz, hsafe, rfl⟩
      · rw [hz, if_pos rfl]
        exact numberText_fromI64 (n := 0) (by decide)
      · rw [hz, if_neg Bool.false_ne_true]
        split_ifs with hint
        · rw [numberText_fromI64 hint.2, signedLayout_integral hf hz hint.1 hint.2]
        · exact h'
    · cases h

/-! ## Strings -/

theorem charFromU32_toNat (c : Char) : charFromU32 c.toNat = some c := by
  have hvalid : c.toNat.isValidChar := c.valid
  rw [charFromU32, dif_pos hvalid]
  rfl

/-- one character as written -/
theorem exists_elem (c : Char) :
    ∃ e : StrElem, e.text = escapeChar c ∧ ∀ es, decode (e :: es) = (decode es).map (c :: ·) := by
  have hshort : ∀ (e : ShortEscape) (es : List StrElem), decode (.short e :: es) = (decode es).map (e.char :: ·) :=
    fun _ _ => rfl
  unfold escapeChar
  split_ifs with h1 h2 h3 h4 h5 h6 h7 h8
  · exact ⟨.short .quote, rfl, by rw [h1]; exact hshort .quote⟩
  · exact ⟨.short .backslash, rfl, by rw [h2]; exact hshort .backslash⟩
  · exact ⟨.short .backspace, rfl, by rw [h3]; exact hshort .backspace⟩
  · exact ⟨.short .tab, rfl, by rw [h4]; exact hshort .tab⟩
  · exact ⟨.short .newline, rfl, by rw [h5]; exact hshort .newline⟩
  · exact ⟨.short .formFeed, rfl, by rw [h6]; exact hshort .formFeed⟩
  · exact ⟨.short .carriageReturn, rfl, by rw [h7]; exact hshort .carriageReturn⟩
  · have hu : unitValue '0' '0' (Nat.digitChar (c.toNat / 16)) (Nat.digitChar (c.toNat % 16)) = some c.toNat := by
      generalize c.toNat = n at h8
      revert n
      decide
    have hhigh : isHighSurrogate c.toNat = false := by
      rw [isHighSurrogate, decide_eq_false_iff_not]
      omega
    refine ⟨.unit _ _ _ _ _ hu, rfl, fun es => ?_⟩
    rw [decode_unit hu hhigh, charFromU32_toNat, Option.bind_some]
  · exact ⟨.raw c ⟨Nat.le_of_not_lt h8, h1, h2⟩, rfl, fun es => rfl⟩

/-- **Strings.** What is written for a string is a string of the grammar that stands for it. -/
theorem string_elements {s : String} {text : List Char} (h : writeString s = .ok text) :
    ∃ es, stringText es = text ∧ stringValue es = some s := by
  unfold writeString at h
  obtain ⟨_, hcheck, h⟩ := Fallible.bind_eq_ok.1 h
  cases h
  have hnul : nul ∉ s.toList := by
    intro hmem
    rw [checkString, if_pos hmem] at hcheck
    cases hcheck
  obtain ⟨es, htext, hdec⟩ : ∃ es, bodyText es = s.toList.flatMap escapeChar ∧ decode es = some s.toList := by
    generalize s.toList = cs
    induction cs with
    | nil => exact ⟨[], rfl, rfl⟩
    | cons c cs ih =>
      obtain ⟨es, htext, hdec⟩ := ih
      obtain ⟨e, hetext, hedec⟩ := exists_elem c
      refine ⟨e :: es, ?_, ?_⟩
      · rw [bodyText_cons, hetext, htext, List.flatMap_cons]
      · rw [hedec, hdec]
        rfl
  refine ⟨es, ?_, stringValue_eq_some.2 ⟨s.toList, hdec, hnul, String.ofList_toList.symm⟩⟩
  rw [stringText, htext]

/-! ## Values -/

/-- texts with commas in between are the items of an array -/
theorem isItems_separated {texts : List (List Char)} {ds : List Doc} (h : List.Forall₂ IsValue texts ds)
    (hne : ds ≠ []) : IsItems (separated texts) ds := by
  have hnil : Ws [] := nofun
  induction h with
  | nil => exact absurd rfl hne
  | @cons t d texts ds ht htail ih =>
    cases htail with
    | nil => simpa [separated] using IsItems.one hnil ht hnil
    | cons ht' htail' =>
      have hmore := IsItems.more hnil ht hnil (ih (List.cons_ne_nil _ _))
      simpa [separated] using hmore

/-- the text of a member without whitespace -/
def MemberText (text : List Char) (m : List StrElem × Doc) : Prop :=
  ∃ t, IsValue t m.2 ∧ text = stringText m.1 ++ ':' :: t

theorem isMembers_separated {texts : List (List Char)} {ms : List (List StrElem × Doc)}
    (h : List.Forall₂ MemberText texts ms) (hne : ms ≠ []) : IsMembers (separated texts) ms := by
  have hmember : ∀ {text m}, MemberText text m → IsMember text m := by
    rintro text ⟨k, d⟩ ⟨t, ht, rfl⟩
    have hnil : Ws [] := nofun
    simpa using IsMember.mk (k := k) hnil hnil hnil ht hnil
  induction h with
  | nil => exact absurd rfl hne
  | cons hm htail ih =>
    cases htail with
    | nil => exact .one (hmember hm)
    | cons hm' htail' => exact .more (hmember hm) (ih (List.cons_ne_nil _ _))

/-- the entries, written one by one, are the members of an object -/
theorem entries_members {n : ℕ} {write : Value F → Except CanonicalPayloadError (List Char)}
    {entries : List (String × Value F)} {texts : List (List Char)}
    (h : List.Forall₂ (fun e t => writeEntry write e = .ok t) entries texts)
    (hwrite : ∀ e ∈ entries, ∀ t, write e.2 = .ok t → ∃ d, IsValue t d ∧ docValue d = some (normalize e.2) ∧ Fits n d) :
    ∃ ms, List.Forall₂ MemberText texts ms ∧ memberValues ms = some (normalizeEntries entries) ∧
      ∀ m ∈ ms, Fits n m.2 := by
  induction h with
  | nil => exact ⟨[], .nil, rfl, by simp⟩
  | @cons e t entries texts ht htail ih =>
    obtain ⟨he, hrest⟩ := List.forall_mem_cons.1 hwrite
    obtain ⟨ms, hms, hval, hfits⟩ := ih hrest
    obtain ⟨key, item, hkey, hitem, rfl⟩ := writeEntry_eq_ok.1 ht
    obtain ⟨es, rfl, hes⟩ := string_elements hkey
    obtain ⟨d, hd, hdv, hfit⟩ := he item hitem
    refine ⟨(es, d) :: ms, .cons ⟨item, hd, rfl⟩ hms, ?_, List.forall_mem_cons.2 ⟨hfit, hfits⟩⟩
    exact memberValues_cons.2 ⟨e.1, normalize e.2, normalizeEntries entries, hes, hdv, hval, rfl⟩

theorem items_docs {n : ℕ} {write : Value F → Except CanonicalPayloadError (List Char)} {items : List (Value F)}
    {texts : List (List Char)} (h : List.Forall₂ (fun v t => write v = .ok t) items texts)
    (hwrite : ∀ v ∈ items, ∀ t, write v = .ok t → ∃ d, IsValue t d ∧ docValue d = some (normalize v) ∧ Fits n d) :
    ∃ ds, List.Forall₂ IsValue texts ds ∧ itemValues ds = some (normalizeItems items) ∧ ∀ d ∈ ds, Fits n d := by
  induction h with
  | nil => exact ⟨[], .nil, rfl, by simp⟩
  | @cons v t items texts ht htail ih =>
    obtain ⟨hv, hrest⟩ := List.forall_mem_cons.1 hwrite
    obtain ⟨ds, hds, hval, hfits⟩ := ih hrest
    obtain ⟨d, hd, hdv, hfit⟩ := hv t ht
    exact ⟨d :: ds, .cons hd hds, itemValues_cons.2 ⟨_, _, hdv, hval, rfl⟩, List.forall_mem_cons.2 ⟨hfit, hfits⟩⟩

omit [F64 F] in
theorem sortEntries_perm (entries : List (String × Value F)) : (sortEntries entries).Perm entries :=
  List.perm_insertionSort _ _

/-- reading the written entries back gives the normalized map, whatever order they were written in -/
theorem insertAll_sortEntries {entries : List (String × Value F)} (h : SortedMap.Ascending entries) :
    ((normalizeEntries (sortEntries entries)).map Prod.fst).Nodup ∧
      SortedMap.insertAll [] (normalizeEntries (sortEntries entries)) = normalizeEntries entries := by
  have hperm : (normalizeEntries (sortEntries entries)).Perm (normalizeEntries entries) := by
    rw [normalizeEntries_eq, normalizeEntries_eq]
    exact (sortEntries_perm entries).map _
  have hasc : SortedMap.Ascending (normalizeEntries entries) := by
    rw [normalizeEntries_eq, SortedMap.Ascending, List.pairwise_map]
    exact h
  exact ⟨((hperm.map Prod.fst).nodup_iff).2 hasc.nodup_keys, SortedMap.insertAll_of_perm hasc hperm⟩

/-- **What is written.** The text of a value is a text of a tree that stands for the normalized value, nested no deeper
than the writer's levels. -/
theorem writeValue_isValue {n : ℕ} {v : Value F} {text : List Char} (hv : v.Ordered)
    (hf : ∀ f, v.HasFloat f → F64.Faithful f) (h : writeValue n v = .ok text) :
    ∃ d, IsValue text d ∧ docValue d = some (normalize v) ∧ Fits n d := by
  induction n generalizing v text with
  | zero => cases h
  | succ n ih =>
    have hscalar : ∀ {d : Doc}, (∀ items, d ≠ .array items) → (∀ ms, d ≠ .object ms) → Fits (n + 1) d := by
      intro d ha ho
      exact fits_scalar fun k sub hk => within_scalar ha ho hk
    cases v with
    | null =>
      cases h
      exact ⟨.null, .null, rfl, hscalar (by simp) (by simp)⟩
    | bool b =>
      have htext : boolText b = text := by
        cases b <;> (cases h; rfl)
      exact ⟨.bool b, htext ▸ .bool b, rfl, hscalar (by simp) (by simp)⟩
    | number x =>
      obtain ⟨t, ht, rfl, hval⟩ := number_token (fun f hx => hf f (by rw [hx]; exact .number)) h
      refine ⟨.number t, .number ht, ?_, hscalar (by simp) (by simp)⟩
      rw [docValue, hval, normalize]
      rfl
    | string s =>
      obtain ⟨es, rfl, hval⟩ := string_elements h
      refine ⟨.string es, .string es, ?_, hscalar (by simp) (by simp)⟩
      rw [docValue, hval, normalize]
      rfl
    | array items =>
      rw [writeValue] at h
      obtain ⟨texts, htexts, hend⟩ := Fallible.bind_eq_ok.1 h
      cases hend
      obtain ⟨ds, hds, hvals, hfits⟩ := items_docs (Fallible.mapM_eq_ok.1 htexts) fun v hmem t ht =>
        ih (Value.ordered_array.1 hv v hmem) (fun f hx => hf f (.item hmem hx)) ht
      refine ⟨.array ds, ?_, ?_, fits_array.2 hfits⟩
      · cases hds with
        | nil => exact .emptyArray (w := []) (by simp [Ws])
        | cons hd hds => exact .array (isItems_separated (.cons hd hds) (List.cons_ne_nil _ _))
      · rw [docValue, hvals, normalize]
        rfl
    | object entries =>
      obtain ⟨hasc, hordered⟩ := Value.ordered_object.1 hv
      rw [writeValue] at h
      obtain ⟨texts, htexts, hend⟩ := Fallible.bind_eq_ok.1 h
      cases hend
      have hmem : ∀ e ∈ sortEntries entries, e ∈ entries := fun e he => (sortEntries_perm entries).mem_iff.1 he
      obtain ⟨ms, hms, hvals, hfits⟩ := entries_members (Fallible.mapM_eq_ok.1 htexts) fun e he t ht =>
        ih (hordered e (hmem e he)) (fun f hx => hf f (.entry (hmem e he) hx)) ht
      obtain ⟨hnodup, hmap⟩ := insertAll_sortEntries hasc
      refine ⟨.object ms, ?_, ?_, fits_object.2 hfits⟩
      · cases hms with
        | nil => exact .emptyObject (w := []) (by simp [Ws])
        | cons hm hms => exact .object (isMembers_separated (.cons hm hms) (List.cons_ne_nil _ _))
      · rw [docValue, hvals, Option.bind_eq_bind, Option.bind_some, if_pos hnodup, hmap, normalize]

/-- the entries of a normalized object are written in the same order -/
theorem sortEntries_normalizeEntries (entries : List (String × Value F)) :
    sortEntries (normalizeEntries entries) = normalizeEntries (sortEntries entries) := by
  rw [normalizeEntries_eq, normalizeEntries_eq]
  exact (List.map_insertionSort keyBefore keyBefore (fun e => (e.1, normalize e.2)) entries fun _ _ _ _ => Iff.rfl).symm

/-- the normalized value is written as the value was -/
theorem writeValue_normalize {n : ℕ} {v : Value F} {text : List Char} (hf : ∀ f, v.HasFloat f → F64.Faithful f)
    (h : writeValue n v = .ok text) : writeValue n (normalize v) = .ok text := by
  induction n generalizing v text with
  | zero => cases h
  | succ n ih =>
    cases v with
    | null => exact h
    | bool b => cases b <;> exact h
    | number x => exact numberText_normalizeNumber (fun f hx => hf f (by rw [hx]; exact .number)) h
    | string s => exact h
    | array items =>
      rw [writeValue] at h
      obtain ⟨texts, htexts, hend⟩ := Fallible.bind_eq_ok.1 h
      cases hend
      have hnorm : (normalizeItems items).mapM (writeValue n) = .ok texts := by
        rw [normalizeItems_eq]
        exact Fallible.mapM_map_of_mapM htexts fun v hv t ht => ih (fun f hx => hf f (.item hv hx)) ht
      rw [normalize, writeValue, hnorm]
      rfl
    | object entries =>
      rw [writeValue] at h
      obtain ⟨texts, htexts, hend⟩ := Fallible.bind_eq_ok.1 h
      cases hend
      have hnorm : (sortEntries (normalizeEntries entries)).mapM (writeEntry (writeValue n)) = .ok texts := by
        rw [sortEntries_normalizeEntries, normalizeEntries_eq]
        refine Fallible.mapM_map_of_mapM htexts fun e he t ht => ?_
        have hmem : e ∈ entries := (sortEntries_perm entries).mem_iff.1 he
        obtain ⟨key, item, hkey, hitem, rfl⟩ := writeEntry_eq_ok.1 ht
        exact writeEntry_eq_ok.2 ⟨key, item, hkey, ih (fun f hx => hf f (.entry hmem hx)) hitem, rfl⟩
      rw [normalize, writeValue, hnorm]
      rfl

/-! ## The round trip -/

theorem canonicalize_eq_ok {v : Value F} {text : String} :
    canonicalize v = .ok text ↔ writeValue (MAX_DEPTH + 1) v = .ok text.toList := by
  unfold canonicalize
  constructor
  · intro h
    obtain ⟨out, hout, h⟩ := Fallible.bind_eq_ok.1 h
    cases h
    rw [hout, String.toList_ofList]
  · intro h
    rw [h]
    exact congrArg Except.ok String.ofList_toList

theorem parseStrict_canonicalize {v : Value F} {text : String} (hv : v.Ordered)
    (hf : ∀ f, v.HasFloat f → F64.Faithful f) (h : canonicalize v = .ok text) : parseStrict text = .ok (normalize v) := by
  obtain ⟨d, hd, hval, hfits⟩ := writeValue_isValue hv hf (canonicalize_eq_ok.1 h)
  have hnil : Ws [] := nofun
  exact parseStrict_eq_ok.2 ⟨d, ⟨[], text.toList, [], hnil, hd, hnil, by simp⟩, hval, hfits⟩

theorem canonicalize_normalize {v : Value F} {text : String} (hf : ∀ f, v.HasFloat f → F64.Faithful f)
    (h : canonicalize v = .ok text) : canonicalize (normalize v) = .ok text :=
  canonicalize_eq_ok.2 (writeValue_normalize hf (canonicalize_eq_ok.1 h))

/-- **Round trip and idempotence.** The canonical bytes of a value are parsed to the value with its integral doubles as
integers, and that value has the same canonical bytes; so two values have the same canonical bytes exactly when they are
equal as maps and lists once their integral doubles are integers. Nothing is asked of doubles that do not occur. -/
theorem canonical_round_trip {F : Type} [F64 F] {v : Value F} {text : String} (hv : v.Ordered)
    (hf : ∀ f, v.HasFloat f → F64.Faithful f) (h : canonicalize v = .ok text) :
    parseStrict text = .ok (normalize v) ∧ canonicalize (normalize v) = .ok text ∧
      ∀ (w : Value F) (text' : String), w.Ordered → (∀ f, w.HasFloat f → F64.Faithful f) →
        canonicalize w = .ok text' → (text = text' ↔ normalize v = normalize w) := by
  refine ⟨parseStrict_canonicalize hv hf h, canonicalize_normalize hf h, ?_⟩
  intro w text' hw hfw h'
  constructor
  · rintro rfl
    have hboth := (parseStrict_canonicalize hv hf h).symm.trans (parseStrict_canonicalize hw hfw h')
    exact Except.ok.inj hboth
  · intro heq
    have hboth := canonicalize_normalize hf h
    rw [heq, canonicalize_normalize hfw h'] at hboth
    exact (Except.ok.inj hboth).symm

/-- an object with the keys U+FF61 and U+1D11E, which UTF-16 orders the other way round, holding -0.05 and [2.0, 7] -/
def sampleValue : Value Decimal :=
  .object [("｡", .number (.float ⟨true, 5, -2⟩)),
    ("𝄞", .array [.number (.float ⟨false, 2, 0⟩), .number (.posInt 7)])]

theorem sampleValue_ordered : sampleValue.Ordered := by
  refine .object ?_ ?_
  · refine List.pairwise_cons.2 ⟨?_, List.pairwise_singleton _ _⟩
    intro e he
    rw [List.mem_singleton.1 he]
    decide +kernel
  · intro e he
    simp only [List.mem_cons, List.not_mem_nil, or_false] at he
    rcases he with rfl | rfl
    · exact .number _
    · refine .array fun v hv => ?_
      simp only [List.mem_cons, List.not_mem_nil, or_false] at hv
      rcases hv with rfl | rfl <;> exact .number _

theorem sampleValue_faithful (f : Decimal) (h : sampleValue.HasFloat f) : F64.Faithful f := by
  have hcases : f = ⟨true, 5, -2⟩ ∨ f = ⟨false, 2, 0⟩ := by
    cases h with
    | entry he hf =>
      simp only [List.mem_cons, List.not_mem_nil, or_false] at he
      rcases he with rfl | rfl
      · cases hf
        exact .inl rfl
      · cases hf with
        | item hv hf =>
          simp only [List.mem_cons, List.not_mem_nil, or_false] at hv
          rcases hv with rfl | rfl
          · cases hf
            exact .inr rfl
          · cases hf
  rcases hcases with rfl | rfl
  · exact ⟨by decide, by decide, by decide +kernel, by decide⟩
  · exact ⟨by decide, by decide, by decide +kernel, by decide⟩

theorem sampleValue_round_trip :
    canonicalize sampleValue = .ok "\x7b\"𝄞\":[2,7],\"｡\":-0.05\x7d" ∧
      parseStrict "\x7b\"𝄞\":[2,7],\"｡\":-0.05\x7d" = .ok (normalize sampleValue) := by
  have h : canonicalize sampleValue = .ok "\x7b\"𝄞\":[2,7],\"｡\":-0.05\x7d" := by
    apply canonicalize_eq_ok.2
    rfl
  exact ⟨h, (canonical_round_trip sampleValue_ordered sampleValue_faithful h).1⟩

end Avalon.CanonicalPayload
