/-
The strict parser against the JSON grammar.

- `docValue`: the value a syntax tree stands for under the restrictions (no lone surrogate, no U+0000, admitted numbers,
  no repeated key).
- `value_reads`: the scanner accepts exactly the texts of the trees that stand for a value and nest no deeper than its levels,
  and returns that value.
- `parse_strict_grammar`: which texts the parser accepts, and that everything it accepts has a canonical encoding.
-/
import Mathlib.Tactic
import Mathlib.Data.List.TakeWhile
import Avalon.Protocol.CanonicalPayload

namespace Avalon.CanonicalPayload

open Json

variable {F : Type} [F64 F]

/-! ## The value of a syntax tree -/

/-- the string, unless it has a lone surrogate or U+0000 -/
def stringValue (es : List StrElem) : Option String := do
  let cs ← decode es
  if nul ∈ cs then none else some (String.ofList cs)

mutual

def docValue : Doc → Option (Value F)
  | .null => some .null
  | .bool b => some (.bool b)
  | .number t => (tokenNumber t).map .number
  | .string es => (stringValue es).map .string
  | .array items => (itemValues items).map .array
  | .object members => do
    let entries ← memberValues members
    if (entries.map Prod.fst).Nodup then some (.object (SortedMap.insertAll [] entries)) else none

def itemValues : List Doc → Option (List (Value F))
  | [] => some []
  | d :: ds => do
    let v ← docValue d
    let vs ← itemValues ds
    return v :: vs

def memberValues : List (List StrElem × Doc) → Option (List (String × Value F))
  | [] => some []
  | (k, d) :: ms => do
    let key ← stringValue k
    let v ← docValue d
    let entries ← memberValues ms
    return (key, v) :: entries

end

/-- d nests fewer than n containers deep -/
def Fits (n : ℕ) (d : Doc) : Prop := ∀ k sub, Doc.Within k sub d → k < n

theorem fits_scalar {n : ℕ} {d : Doc} (h : ∀ k sub, Doc.Within k sub d → k = 0) : Fits (n + 1) d := by
  intro k sub hk
  rw [h k sub hk]
  exact Nat.succ_pos n

theorem fits_array {n : ℕ} {items : List Doc} : Fits (n + 1) (.array items) ↔ ∀ d ∈ items, Fits n d := by
  constructor
  · intro h d hd k sub hk
    exact Nat.lt_of_succ_lt_succ (h _ _ (.item hd hk))
  · rintro h k sub (_ | ⟨hd, hk⟩)
    · exact Nat.succ_pos n
    · exact Nat.succ_lt_succ (h _ hd _ _ hk)

theorem fits_object {n : ℕ} {members : List (List StrElem × Doc)} :
    Fits (n + 1) (.object members) ↔ ∀ m ∈ members, Fits n m.2 := by
  constructor
  · intro h m hm k sub hk
    exact Nat.lt_of_succ_lt_succ (h _ _ (.member hm hk))
  · rintro h k sub (_ | _ | ⟨hm, hk⟩)
    · exact Nat.succ_pos n
    · exact Nat.succ_lt_succ (h _ hm _ _ hk)

theorem not_fits_zero (d : Doc) : ¬ Fits 0 d := fun h => absurd (h 0 d (.self d)) (Nat.not_lt_zero 0)

/-! ## Whitespace -/

theorem ws_takeWhile (t : List Char) : Ws (t.takeWhile isWs) := fun _ hc => List.mem_takeWhile_imp hc

theorem exists_ws_skipWs (t : List Char) : ∃ w, Ws w ∧ t = w ++ skipWs t :=
  ⟨_, ws_takeWhile t, (List.takeWhile_append_dropWhile).symm⟩

theorem skipWs_append {w : List Char} (h : Ws w) (t : List Char) : skipWs (w ++ t) = skipWs t := by
  rw [skipWs, List.dropWhile_append_of_pos h, ← skipWs]

theorem skipWs_cons {c : Char} (h : isWs c = false) (t : List Char) : skipWs (c :: t) = c :: t := by
  rw [skipWs, List.dropWhile_cons_of_neg (by simp [h])]

/-! ## Strings -/

theorem toNat_of_charFromU32 {u : ℕ} {c : Char} (h : charFromU32 u = some c) : c.toNat = u := by
  unfold charFromU32 at h
  by_cases hv : u.isValidChar
  · rw [dif_pos hv] at h
    cases h
    rfl
  · rw [dif_neg hv] at h
    cases h

theorem ne_nul_of_charFromU32 {u : ℕ} {c : Char} (h : charFromU32 u = some c) (hu : u ≠ 0) : c ≠ nul := by
  rintro rfl
  exact hu (toNat_of_charFromU32 h).symm

theorem short_ne_nul (e : ShortEscape) : e.char ≠ nul := by cases e <;> decide

theorem raw_ne_nul {c : Char} (h : Unescaped c) : c ≠ nul := by
  rintro rfl
  exact absurd h.1 (by decide)

theorem bodyText_cons (e : StrElem) (es : List StrElem) : bodyText (e :: es) = e.text ++ bodyText es := by
  simp [bodyText]

/-- an escape is one or two elements of the string, standing for one character -/
theorem escape_sound {total : ℕ} {rest rest' : List Char} {c : Char} (h : escape total rest = .ok (c, rest')) :
    c ≠ nul ∧ ∃ es, '\\' :: rest = bodyText es ++ rest' ∧ ∀ tail, decode (es ++ tail) = (decode tail).map (c :: ·) := by
  rcases escape_cases h with ⟨e, rfl, rfl⟩ | ⟨x₁, x₂, x₃, x₄, u, rfl, hu, hhigh, hne, hc⟩ |
    ⟨x₁, x₂, x₃, x₄, u, y₁, y₂, y₃, y₄, v, rfl, hu, hv, hhigh, hlow, hc⟩
  · exact ⟨short_ne_nul e, [.short e], rfl, fun tail => rfl⟩
  · refine ⟨ne_nul_of_charFromU32 hc hne, [.unit x₁ x₂ x₃ x₄ u hu], rfl, ?_⟩
    intro tail
    rw [List.singleton_append, decode_unit hu hhigh, hc, Option.bind_some]
  · have hjoin : joinSurrogates u v ≠ 0 := by
      unfold joinSurrogates
      omega
    refine ⟨ne_nul_of_charFromU32 hc hjoin, [.unit x₁ x₂ x₃ x₄ u hu, .unit y₁ y₂ y₃ y₄ v hv], rfl, ?_⟩
    intro tail
    rw [List.cons_append, List.singleton_append, decode_pair hu hv hhigh hlow, hc, Option.bind_some]

theorem stringLoop_sound {total : ℕ} {out rest rest' : List Char} {s : String}
    (h : stringLoop total out rest = .ok (s, rest')) :
    ∃ es cs, rest = bodyText es ++ '"' :: rest' ∧ decode es = some cs ∧ nul ∉ cs ∧ s = String.ofList (out ++ cs) := by
  fun_induction stringLoop total out rest with
  | case1 out => exact absurd h malformed_ne_ok
  | case2 out rest =>
    cases h
    exact ⟨[], [], rfl, rfl, List.not_mem_nil, by simp⟩
  | case3 out rest hq e he => cases h
  | case4 out rest c rest₁ he hq ih =>
    obtain ⟨hc, es₁, htext, hdec⟩ := escape_sound he
    obtain ⟨es, cs, rfl, hcs, hnul, rfl⟩ := ih h
    refine ⟨es₁ ++ es, c :: cs, ?_, ?_, ?_, ?_⟩
    · rw [htext]
      simp [bodyText]
    · rw [hdec, hcs]
      rfl
    · exact List.not_mem_cons_of_ne_of_not_mem hc.symm hnul
    · simp
  | case5 out c rest hq hb hctl => exact absurd h malformed_ne_ok
  | case6 out c rest hq hb hctl ih =>
    obtain ⟨es, cs, rfl, hcs, hnul, rfl⟩ := ih h
    have hraw : Unescaped c := ⟨Nat.le_of_not_lt hctl, hq, hb⟩
    refine ⟨.raw c hraw :: es, c :: cs, ?_, ?_, ?_, ?_⟩
    · rw [bodyText_cons]
      rfl
    · rw [decode, hcs]
      rfl
    · exact List.not_mem_cons_of_ne_of_not_mem (raw_ne_nul hraw).symm hnul
    · simp

theorem stringLoop_escape {total : ℕ} {out rest rest' : List Char} {c : Char} (h : escape total rest = .ok (c, rest')) :
    stringLoop total out ('\\' :: rest) = stringLoop total (out ++ [c]) rest' := by
  rw [stringLoop, if_neg (by decide), if_pos rfl]
  split
  · rename_i e he
    rw [h] at he
    cases he
  · rename_i c' rest'' he
    rw [h] at he
    cases he
    rfl

theorem escape_short (total : ℕ) (e : ShortEscape) (rest : List Char) :
    escape total (e.letter :: rest) = .ok (e.char, rest) := by
  cases e <;> rfl

theorem escape_unit (total : ℕ) {x₁ x₂ x₃ x₄ c : Char} {u : ℕ} (hu : unitValue x₁ x₂ x₃ x₄ = some u)
    (hhigh : isHighSurrogate u = false) (hc : charFromU32 u = some c) (hne : c ≠ nul) (rest : List Char) :
    escape total ('u' :: x₁ :: x₂ :: x₃ :: x₄ :: rest) = .ok (c, rest) := by
  have hu0 : u ≠ 0 := by
    rintro rfl
    exact hne (Char.toNat_inj.1 (toNat_of_charFromU32 hc))
  have hhex : hex4 total (x₁ :: x₂ :: x₃ :: x₄ :: rest) = .ok (u, rest) := hex4_eq_ok.2 ⟨_, _, _, _, rfl, hu⟩
  have hpush : pushCode total u rest = .ok (c, rest) := pushCode_eq_ok.2 ⟨hu0, hc, rfl⟩
  change (hex4 total (x₁ :: x₂ :: x₃ :: x₄ :: rest) >>= _) = _
  rw [hhex]
  change (if isHighSurrogate u = true then _ else _) = _
  rw [hhigh, if_neg Bool.false_ne_true, hpush]

theorem escape_pair (total : ℕ) {x₁ x₂ x₃ x₄ y₁ y₂ y₃ y₄ c : Char} {u v : ℕ} (hu : unitValue x₁ x₂ x₃ x₄ = some u)
    (hv : unitValue y₁ y₂ y₃ y₄ = some v) (hhigh : isHighSurrogate u = true) (hlow : isLowSurrogate v = true)
    (hc : charFromU32 (joinSurrogates u v) = some c) (rest : List Char) :
    escape total ('u' :: x₁ :: x₂ :: x₃ :: x₄ :: '\\' :: 'u' :: y₁ :: y₂ :: y₃ :: y₄ :: rest) = .ok (c, rest) := by
  have hjoin : joinSurrogates u v ≠ 0 := by
    unfold joinSurrogates
    omega
  have hhex : hex4 total (y₁ :: y₂ :: y₃ :: y₄ :: rest) = .ok (v, rest) := hex4_eq_ok.2 ⟨_, _, _, _, rfl, hv⟩
  have hpush : pushCode total (joinSurrogates u v) rest = .ok (c, rest) := pushCode_eq_ok.2 ⟨hjoin, hc, rfl⟩
  have hhex' : ∀ r, hex4 total (x₁ :: x₂ :: x₃ :: x₄ :: r) = .ok (u, r) := fun r =>
    hex4_eq_ok.2 ⟨_, _, _, _, rfl, hu⟩
  change (hex4 total (x₁ :: x₂ :: x₃ :: x₄ :: _) >>= _) = _
  rw [hhex']
  change (if isHighSurrogate u = true then _ else _) = _
  rw [hhigh, if_pos rfl]
  change (hex4 total (y₁ :: y₂ :: y₃ :: y₄ :: rest) >>= _) = _
  rw [hhex]
  change (if isLowSurrogate v = true then _ else _) = _
  rw [hlow, if_pos rfl, hpush]

/-- a string in front of its closing quote is read back -/
theorem stringLoop_complete (total : ℕ) (es : List StrElem) {cs : List Char} (hdec : decode es = some cs)
    (hnul : nul ∉ cs) (out rest : List Char) :
    stringLoop total out (bodyText es ++ '"' :: rest) = .ok (String.ofList (out ++ cs), rest) := by
  induction es using decode.induct generalizing out cs with
  | case1 =>
    cases hdec
    simp [bodyText, stringLoop]
  | case2 c h es ih =>
    obtain ⟨cs, hcs, rfl⟩ := Option.map_eq_some_iff.1 hdec
    rw [bodyText_cons, StrElem.text, List.append_assoc, List.singleton_append, stringLoop, if_neg h.2.1, if_neg h.2.2,
      if_neg (Nat.not_lt.2 h.1), ih hcs (List.not_mem_of_not_mem_cons hnul)]
    simp
  | case3 e es ih =>
    obtain ⟨cs, hcs, rfl⟩ := Option.map_eq_some_iff.1 hdec
    rw [bodyText_cons, StrElem.text, List.append_assoc, List.cons_append, List.singleton_append,
      stringLoop_escape (escape_short total e _), ih hcs (List.not_mem_of_not_mem_cons hnul)]
    simp
  | case4 x₁ x₂ x₃ x₄ u hu hhigh y₁ y₂ y₃ y₄ v hv es hlow ih =>
    rw [decode_pair hu hv hhigh hlow] at hdec
    obtain ⟨c, hc, hdec⟩ := Option.bind_eq_some_iff.1 hdec
    obtain ⟨cs, hcs, rfl⟩ := Option.map_eq_some_iff.1 hdec
    rw [bodyText_cons, bodyText_cons]
    simp only [StrElem.text, List.cons_append, List.nil_append]
    rw [stringLoop_escape (escape_pair total hu hv hhigh hlow hc _), ih hcs (List.not_mem_of_not_mem_cons hnul)]
    simp
  | case5 x₁ x₂ x₃ x₄ u hu hhigh y₁ y₂ y₃ y₄ v hv es hlow =>
    rw [decode, if_pos hhigh, if_neg hlow] at hdec
    cases hdec
  | case6 x₁ x₂ x₃ x₄ u hu es hhigh hes =>
    rw [decode.eq_def] at hdec
    dsimp only at hdec
    rw [if_pos hhigh] at hdec
    split at hdec
    · exact absurd rfl (hes _ _ _ _ _ _ _)
    · cases hdec
  | case7 x₁ x₂ x₃ x₄ u hu es hhigh ih =>
    have hhigh' : isHighSurrogate u = false := by simpa using hhigh
    rw [decode_unit hu hhigh'] at hdec
    obtain ⟨c, hc, hdec⟩ := Option.bind_eq_some_iff.1 hdec
    obtain ⟨cs, hcs, rfl⟩ := Option.map_eq_some_iff.1 hdec
    have hne : c ≠ nul := fun he => hnul (he ▸ List.mem_cons_self)
    rw [bodyText_cons]
    simp only [StrElem.text, List.cons_append, List.nil_append]
    rw [stringLoop_escape (escape_unit total hu hhigh' hc hne _), ih hcs (List.not_mem_of_not_mem_cons hnul)]
    simp

theorem stringLoop_eq_ok {total : ℕ} {rest rest' : List Char} {s : String} :
    stringLoop total [] rest = .ok (s, rest') ↔ ∃ es, rest = bodyText es ++ '"' :: rest' ∧ stringValue es = some s := by
  constructor
  · intro h
    obtain ⟨es, cs, rfl, hcs, hnul, rfl⟩ := stringLoop_sound h
    refine ⟨es, rfl, ?_⟩
    simp [stringValue, hcs, hnul]
  · rintro ⟨es, rfl, hs⟩
    obtain ⟨cs, hcs, hs⟩ := Option.bind_eq_some_iff.1 hs
    split_ifs at hs with hnul
    cases hs
    exact stringLoop_complete total es hcs hnul [] rest'

/-! ## Numbers -/

/-- no character at the front satisfies p -/
def HeadNot (p : Char → Bool) (rest : List Char) : Prop := ∀ c ∈ rest.head?, p c = false

theorem HeadNot.mono {p q : Char → Bool} {rest : List Char} (h : HeadNot p rest) (hq : ∀ c, p c = false → q c = false) :
    HeadNot q rest := fun c hc => hq c (h c hc)

@[simp] theorem headNot_cons {p : Char → Bool} {c : Char} {rest : List Char} : HeadNot p (c :: rest) ↔ p c = false := by
  simp [HeadNot]

theorem digits_eq_ok {total : ℕ} {rest ds rest' : List Char} :
    digits total rest = .ok (ds, rest') ↔ IsDigits ds ∧ rest = ds ++ rest' ∧ HeadNot Char.isDigit rest' := by
  constructor
  · intro h
    unfold digits at h
    split_ifs at h with hnil
    · exact absurd h malformed_ne_ok
    cases h
    refine ⟨⟨hnil, fun c hc => List.mem_takeWhile_imp hc⟩, List.takeWhile_append_dropWhile.symm, ?_⟩
    intro c hc
    have hhead := List.head?_dropWhile_not Char.isDigit rest
    rw [Option.mem_def.1 hc] at hhead
    simpa using hhead
  · rintro ⟨⟨hne, hds⟩, rfl, hhead⟩
    have htake : rest'.takeWhile Char.isDigit = [] := by
      cases rest' with
      | nil => rfl
      | cons c rest' => exact List.takeWhile_cons_of_neg (by simpa using hhead c rfl)
    have hdrop : rest'.dropWhile Char.isDigit = rest' := by
      cases rest' with
      | nil => rfl
      | cons c rest' => exact List.dropWhile_cons_of_neg (by simpa using hhead c rfl)
    have hrun : takeDigits (ds ++ rest') = (ds, rest') := by
      rw [takeDigits, List.takeWhile_append_of_pos hds, List.dropWhile_append_of_pos hds, htake, hdrop, List.append_nil]
    rw [digits, hrun, if_neg hne]

theorem scanSign_text (rest : List Char) :
    rest = (if (scanSign rest).1 then ['-'] else []) ++ (scanSign rest).2 := by
  unfold scanSign
  split <;> simp

theorem scanSign_append {neg : Bool} {rest : List Char} (h : HeadNot (· == '-') rest) :
    scanSign ((if neg then ['-'] else []) ++ rest) = (neg, rest) := by
  cases neg with
  | true => rfl
  | false =>
    rw [if_neg Bool.false_ne_true, List.nil_append]
    unfold scanSign
    split
    · simpa using h '-' rfl
    · rfl

/-- the integer part as the grammar wants it -/
def IntValid (int : List Char) : Prop := int = ['0'] ∨ (IsDigits int ∧ int.head? ≠ some '0')

theorem scanInt_sound {total : ℕ} {rest int rest' : List Char} (h : scanInt total rest = .ok (int, rest')) :
    IntValid int ∧ rest = int ++ rest' := by
  unfold scanInt at h
  split at h
  · cases h
    exact ⟨.inl rfl, rfl⟩
  · rename_i hzero
    obtain ⟨hds, rfl, -⟩ := digits_eq_ok.1 h
    refine ⟨.inr ⟨hds, ?_⟩, rfl⟩
    intro hhead
    obtain ⟨tail, rfl⟩ := List.head?_eq_some_iff.1 hhead
    exact hzero _ rfl

theorem scanInt_complete (total : ℕ) {int rest : List Char} (h : IntValid int) (hrest : HeadNot Char.isDigit rest) :
    scanInt total (int ++ rest) = .ok (int, rest) := by
  rcases h with rfl | ⟨hds, hhead⟩
  · rfl
  · obtain ⟨c, tail, rfl⟩ := List.exists_cons_of_ne_nil hds.1
    have hrun : digits total (c :: tail ++ rest) = .ok (c :: tail, rest) := digits_eq_ok.2 ⟨hds, rfl, hrest⟩
    unfold scanInt
    split
    · rename_i hc
      cases hc
      exact absurd rfl hhead
    · exact hrun

theorem scanFrac_sound {total : ℕ} {rest rest' : List Char} {frac : Option (List Char)}
    (h : scanFrac total rest = .ok (frac, rest')) :
    (∀ ds ∈ frac, IsDigits ds) ∧ ∀ t : NumberToken, t.frac = frac → rest = t.fracText ++ rest' := by
  unfold scanFrac at h
  split at h
  · obtain ⟨⟨ds, rest₁⟩, hrun, h⟩ := Fallible.bind_eq_ok.1 h
    cases h
    obtain ⟨hds, rfl, -⟩ := digits_eq_ok.1 hrun
    refine ⟨fun _ h => Option.mem_some.1 h ▸ hds, ?_⟩
    intro t ht
    simp [NumberToken.fracText, ht]
  · cases h
    refine ⟨fun _ h => absurd h (by simp), ?_⟩
    intro t ht
    simp [NumberToken.fracText, ht]

theorem scanFrac_complete (total : ℕ) {t : NumberToken} {rest : List Char} (h : ∀ ds ∈ t.frac, IsDigits ds)
    (hrest : HeadNot (fun c => c.isDigit || c == '.') rest) :
    scanFrac total (t.fracText ++ rest) = .ok (t.frac, rest) := by
  have hdigit : HeadNot Char.isDigit rest := hrest.mono fun c hc => (Bool.or_eq_false_iff.1 hc).1
  cases hfrac : t.frac with
  | none =>
    simp only [NumberToken.fracText, hfrac, List.nil_append]
    unfold scanFrac
    split
    · simpa using hrest '.' rfl
    · rfl
  | some ds =>
    rw [NumberToken.fracText, hfrac]
    change (digits total (ds ++ rest) >>= _) = _
    rw [digits_eq_ok.2 ⟨h ds hfrac, rfl, hdigit⟩]
    rfl

theorem scanExpSign_text (rest : List Char) :
    ((scanExpSign rest).1 = [] ∨ (scanExpSign rest).1 = ['+'] ∨ (scanExpSign rest).1 = ['-']) ∧
      rest = (scanExpSign rest).1 ++ (scanExpSign rest).2 := by
  unfold scanExpSign
  split <;> simp

theorem scanExp_sound {total : ℕ} {rest rest' : List Char} {exp : Option (Char × List Char × List Char)}
    (h : scanExp total rest = .ok (exp, rest')) :
    (∀ e ∈ exp, (e.1 = 'e' ∨ e.1 = 'E') ∧ (e.2.1 = [] ∨ e.2.1 = ['+'] ∨ e.2.1 = ['-']) ∧ IsDigits e.2.2) ∧
      ∀ t : NumberToken, t.exp = exp → rest = t.expText ++ rest' := by
  unfold scanExp at h
  split at h
  · cases h
    refine ⟨fun _ h => absurd h (by simp), ?_⟩
    intro t ht
    simp [NumberToken.expText, ht]
  · rename_i e tail
    split_ifs at h with he
    · obtain ⟨hsign, htext⟩ := scanExpSign_text tail
      generalize scanExpSign tail = scanned at h hsign htext
      obtain ⟨sign, rest₀⟩ := scanned
      obtain ⟨⟨ds, rest₁⟩, hrun, h⟩ := Fallible.bind_eq_ok.1 h
      cases h
      obtain ⟨hds, rfl, -⟩ := digits_eq_ok.1 hrun
      refine ⟨fun _ h => Option.mem_some.1 h ▸ ⟨he, hsign, hds⟩, ?_⟩
      intro t ht
      simp [NumberToken.expText, ht, htext]
    · cases h
      refine ⟨fun _ h => absurd h (by simp), ?_⟩
      intro t ht
      simp [NumberToken.expText, ht]

theorem scanExpSign_append {sign rest : List Char} (h : sign = [] ∨ sign = ['+'] ∨ sign = ['-']) (hds : IsDigits rest)
    (tail : List Char) : scanExpSign (sign ++ (rest ++ tail)) = (sign, rest ++ tail) := by
  rcases h with rfl | rfl | rfl
  · obtain ⟨c, ds, rfl⟩ := List.exists_cons_of_ne_nil hds.1
    have hc := hds.2 c List.mem_cons_self
    rw [List.nil_append, List.cons_append]
    unfold scanExpSign
    split
    · rename_i heq
      cases heq
      exact absurd hc (by decide)
    · rename_i heq
      cases heq
      exact absurd hc (by decide)
    · rfl
  · rfl
  · rfl

theorem scanExp_complete (total : ℕ) {t : NumberToken} {rest : List Char} (h : t.Valid)
    (hrest : HeadNot (fun c => c.isDigit || c == 'e' || c == 'E') rest) :
    scanExp total (t.expText ++ rest) = .ok (t.exp, rest) := by
  cases hexp : t.exp with
  | none =>
    rw [NumberToken.expText, hexp, List.nil_append]
    cases rest with
    | nil => rfl
    | cons c rest =>
      have hc := hrest c rfl
      simp only [Bool.or_eq_false_iff, beq_eq_false_iff_ne] at hc
      rw [scanExp, if_neg (not_or.2 ⟨hc.1.2, hc.2⟩)]
  | some e =>
    obtain ⟨letter, sign, ds⟩ := e
    obtain ⟨hletter, hsign, hds⟩ := h.exp _ hexp
    have hdigit : HeadNot Char.isDigit rest := by
      refine hrest.mono fun c hc => ?_
      simp only [Bool.or_eq_false_iff] at hc
      exact hc.1.1
    rw [NumberToken.expText, hexp]
    simp only [List.cons_append, List.append_assoc]
    rw [scanExp, if_pos hletter, scanExpSign_append hsign hds]
    dsimp only
    rw [digits_eq_ok.2 ⟨hds, rfl, hdigit⟩]
    rfl

/-- the characters a number token could go on with -/
def continuesNumber (c : Char) : Bool := c.isDigit || c == '.' || c == 'e' || c == 'E'

theorem scanNumber_sound {total : ℕ} {rest rest' : List Char} {t : NumberToken}
    (h : scanNumber total rest = .ok (t, rest')) : t.Valid ∧ rest = t.text ++ rest' := by
  unfold scanNumber at h
  obtain ⟨⟨int, rest₁⟩, hint, h⟩ := Fallible.bind_eq_ok.1 h
  obtain ⟨⟨frac, rest₂⟩, hfrac, h⟩ := Fallible.bind_eq_ok.1 h
  obtain ⟨⟨exp, rest₃⟩, hexp, h⟩ := Fallible.bind_eq_ok.1 h
  cases h
  obtain ⟨hint, hint'⟩ := scanInt_sound hint
  obtain ⟨hfrac, hfrac'⟩ := scanFrac_sound hfrac
  obtain ⟨hexp, hexp'⟩ := scanExp_sound hexp
  refine ⟨⟨hint, hfrac, hexp⟩, ?_⟩
  rw [NumberToken.text, List.append_assoc, ← hexp' _ rfl, List.append_assoc, ← hfrac' _ rfl, List.append_assoc, ← hint']
  exact scanSign_text rest

theorem isDigit_of_letter {c : Char} (h : c = 'e' ∨ c = 'E') : (c.isDigit || c == '.') = false := by
  rcases h with rfl | rfl <;> decide

/-- behind the fraction neither a digit nor a point follows -/
theorem headNot_expText {t : NumberToken} (h : t.Valid) {rest : List Char} (hrest : HeadNot continuesNumber rest) :
    HeadNot (fun c => c.isDigit || c == '.') (t.expText ++ rest) := by
  unfold NumberToken.expText
  cases hexp : t.exp with
  | none =>
    refine hrest.mono fun c hc => ?_
    simp only [continuesNumber, Bool.or_eq_false_iff] at hc
    simp [hc.1.1]
  | some e => simpa using isDigit_of_letter (h.exp e hexp).1

/-- behind the integer part no digit follows -/
theorem headNot_fracText {t : NumberToken} (h : t.Valid) {rest : List Char} (hrest : HeadNot continuesNumber rest) :
    HeadNot Char.isDigit (t.fracText ++ (t.expText ++ rest)) := by
  unfold NumberToken.fracText
  cases hfrac : t.frac with
  | none => exact (headNot_expText h hrest).mono fun c hc => (Bool.or_eq_false_iff.1 hc).1
  | some ds => exact headNot_cons.2 (by decide)

/-- a valid integer part starts with a digit -/
theorem exists_cons_of_intValid {int : List Char} (h : IntValid int) : ∃ c ds, int = c :: ds ∧ c.isDigit = true := by
  rcases h with rfl | ⟨hds, -⟩
  · exact ⟨'0', [], rfl, by decide⟩
  · obtain ⟨c, ds, rfl⟩ := List.exists_cons_of_ne_nil hds.1
    exact ⟨c, ds, rfl, hds.2 c List.mem_cons_self⟩

/-- a valid token in front of what it cannot go on with is scanned -/
theorem scanNumber_complete (total : ℕ) {t : NumberToken} {rest : List Char} (h : t.Valid)
    (hrest : HeadNot continuesNumber rest) : scanNumber total (t.text ++ rest) = .ok (t, rest) := by
  obtain ⟨c, ds, hint, hc⟩ := exists_cons_of_intValid h.int
  have hsign : HeadNot (· == '-') (t.int ++ (t.fracText ++ (t.expText ++ rest))) := by
    rw [hint, List.cons_append, headNot_cons, beq_eq_false_iff_ne]
    rintro rfl
    exact absurd hc (by decide)
  have hexp : HeadNot (fun c => c.isDigit || c == 'e' || c == 'E') rest := by
    refine hrest.mono fun c hc => ?_
    simp only [continuesNumber, Bool.or_eq_false_iff] at hc
    simp [hc]
  have htext : t.text ++ rest = (if t.neg then ['-'] else []) ++ (t.int ++ (t.fracText ++ (t.expText ++ rest))) := by
    simp [NumberToken.text, NumberToken.signText]
  unfold scanNumber
  rw [htext, scanSign_append hsign]
  dsimp only
  rw [scanInt_complete total h.int (headNot_fracText h hrest)]
  change (scanFrac total (t.fracText ++ (t.expText ++ rest)) >>= _) = _
  rw [scanFrac_complete total h.frac (headNot_expText h hrest)]
  change (scanExp total (t.expText ++ rest) >>= _) = _
  rw [scanExp_complete total h hexp]
  rfl

theorem number_sound {total : ℕ} {rest rest' : List Char} {v : Value F} (h : number total rest = .ok (v, rest')) :
    ∃ t : NumberToken, t.Valid ∧ rest = t.text ++ rest' ∧ docValue (.number t) = some v := by
  unfold number at h
  obtain ⟨⟨t, rest₁⟩, hscan, hnum⟩ := Fallible.bind_eq_ok.1 h
  obtain ⟨hvalid, rfl⟩ := scanNumber_sound hscan
  dsimp only at hnum
  split at hnum
  · rename_i n hn
    cases hnum
    refine ⟨t, hvalid, rfl, ?_⟩
    rw [docValue, hn]
    rfl
  · cases hnum

theorem number_complete (total : ℕ) {t : NumberToken} {rest : List Char} {v : Value F} (h : t.Valid)
    (hv : docValue (.number t) = some v) (hrest : HeadNot continuesNumber rest) :
    number total (t.text ++ rest) = .ok (v, rest) := by
  rw [docValue] at hv
  obtain ⟨n, hn, rfl⟩ := Option.map_eq_some_iff.1 hv
  unfold number
  rw [scanNumber_complete total h hrest, Fallible.ok_bind]
  dsimp only
  rw [hn]
  rfl

/-! ## Arrays and objects -/

/-- what may stand behind a value -/
def isDelimiter (c : Char) : Bool := isWs c || c == ',' || c == ']' || c == '\x7d'

/-- the text ends here, or whitespace, a comma or a closing bracket follows -/
def Delimited (rest : List Char) : Prop := ∀ c ∈ rest.head?, isDelimiter c = true

theorem Delimited.headNot {rest : List Char} (h : Delimited rest) : HeadNot continuesNumber rest := by
  intro c hc
  have hd := h c hc
  simp only [isDelimiter, isWs, Bool.or_eq_true, beq_iff_eq] at hd
  rcases hd with (((((rfl | rfl) | rfl) | rfl) | rfl) | rfl) | rfl <;> decide

theorem delimited_nil : Delimited [] := nofun

theorem delimited_cons {c : Char} {rest : List Char} (h : isDelimiter c = true) : Delimited (c :: rest) := by
  intro x hx
  rwa [← Option.mem_some.1 hx]

theorem delimited_ws_append {w rest : List Char} (hw : Ws w) (h : Delimited rest) : Delimited (w ++ rest) := by
  cases w with
  | nil => exact h
  | cons c w => exact delimited_cons (by simp [isDelimiter, hw c List.mem_cons_self])

/-- a text starts with a character that is neither whitespace nor a delimiter -/
def Starts (t : List Char) : Prop := ∃ c t', t = c :: t' ∧ isDelimiter c = false

theorem not_delimiter_of_isDigit {c : Char} (h : c.isDigit = true) : isDelimiter c = false := by
  rw [← Bool.not_eq_true]
  intro hd
  simp only [isDelimiter, isWs, Bool.or_eq_true, beq_iff_eq] at hd
  rcases hd with (((((rfl | rfl) | rfl) | rfl) | rfl) | rfl) | rfl <;> exact absurd h (by decide)

theorem starts_number {t : NumberToken} (h : t.Valid) : Starts t.text := by
  obtain ⟨c, ds, hint, hc⟩ := exists_cons_of_intValid h.int
  cases hneg : t.neg with
  | true => exact ⟨'-', t.int ++ t.fracText ++ t.expText, by simp [NumberToken.text, NumberToken.signText, hneg], rfl⟩
  | false =>
    refine ⟨c, ds ++ t.fracText ++ t.expText, ?_, not_delimiter_of_isDigit hc⟩
    simp [NumberToken.text, NumberToken.signText, hneg, hint]

theorem starts_value {t : List Char} {d : Doc} (h : IsValue t d) : Starts t := by
  cases h with
  | null => exact ⟨_, _, rfl, rfl⟩
  | bool b => cases b <;> exact ⟨_, _, rfl, rfl⟩
  | number ht => exact starts_number ht
  | string es => exact ⟨_, _, rfl, rfl⟩
  | emptyArray _ => exact ⟨_, _, rfl, rfl⟩
  | array _ => exact ⟨_, _, rfl, rfl⟩
  | emptyObject _ => exact ⟨_, _, rfl, rfl⟩
  | object _ => exact ⟨_, _, rfl, rfl⟩

theorem skipWs_starts {w t rest : List Char} (hw : Ws w) (ht : Starts t) : skipWs (w ++ (t ++ rest)) = t ++ rest := by
  obtain ⟨c, t', rfl, hc⟩ := ht
  rw [skipWs_append hw, List.cons_append, skipWs_cons]
  simp only [isDelimiter, Bool.or_eq_false_iff] at hc
  exact hc.1.1.1

theorem skipWs_delimiter {w rest : List Char} (hw : Ws w) {c : Char} (hc : isWs c = false) :
    skipWs (w ++ c :: rest) = c :: rest := by
  rw [skipWs_append hw, skipWs_cons hc]

section Loops

variable {total n : ℕ} {item : List Char → Except CanonicalPayloadError (Value F × List Char)}

/-- the item parser reads the texts of the trees of fewer than n levels, and nothing else -/
structure Reads (n : ℕ) (item : List Char → Except CanonicalPayloadError (Value F × List Char)) : Prop where
  sound : ∀ {text v rest}, item text = .ok (v, rest) →
    ∃ t d, text = t ++ rest ∧ IsValue t d ∧ docValue d = some v ∧ Fits n d
  complete : ∀ {t d v rest}, IsValue t d → docValue d = some v → Fits n d → Delimited rest →
    item (t ++ rest) = .ok (v, rest)

theorem itemValues_cons {d : Doc} {ds : List Doc} {vs : List (Value F)} :
    itemValues (d :: ds) = some vs ↔ ∃ v vs', docValue d = some v ∧ itemValues ds = some vs' ∧ v :: vs' = vs := by
  rw [itemValues]
  simp [Option.bind_eq_some_iff]

theorem memberValues_cons {k : List StrElem} {d : Doc} {ms : List (List StrElem × Doc)}
    {entries : List (String × Value F)} :
    memberValues ((k, d) :: ms) = some entries ↔ ∃ key v entries', stringValue k = some key ∧ docValue d = some v ∧
      memberValues ms = some entries' ∧ (key, v) :: entries' = entries := by
  rw [memberValues]
  simp [Option.bind_eq_some_iff]

theorem arrayLoop_sound (hitem : Reads n item) {fuel : ℕ} {acc : List (Value F)} {rest rest' : List Char} {v : Value F}
    (h : arrayLoop total item fuel acc rest = .ok (v, rest')) :
    ∃ t ds vs, rest = t ++ ']' :: rest' ∧ IsItems t ds ∧ itemValues ds = some vs ∧ v = .array (acc ++ vs) ∧
      ∀ d ∈ ds, Fits n d := by
  induction fuel generalizing acc rest with
  | zero => exact absurd h malformed_ne_ok
  | succ fuel ih =>
    rw [arrayLoop] at h
    obtain ⟨⟨x, rest₁⟩, hx, hround⟩ := Fallible.bind_eq_ok.1 h
    obtain ⟨t, d, htext, hval, hd, hfit⟩ := hitem.sound hx
    obtain ⟨w₁, hw₁, hrest⟩ := exists_ws_skipWs rest
    obtain ⟨w₂, hw₂, hrest₁⟩ := exists_ws_skipWs rest₁
    rw [htext, hrest₁] at hrest
    dsimp only at hround
    split at hround
    · rename_i rest₂ hsep
      obtain ⟨ts, ds, vs, rfl, hitems, hvs, rfl, hfits⟩ := ih hround
      rw [hsep] at hrest
      refine ⟨w₁ ++ t ++ w₂ ++ ',' :: ts, d :: ds, x :: vs, ?_, .more hw₁ hval hw₂ hitems, ?_, ?_, ?_⟩
      · rw [hrest]
        simp
      · exact itemValues_cons.2 ⟨x, vs, hd, hvs, rfl⟩
      · simp
      · exact List.forall_mem_cons.2 ⟨hfit, hfits⟩
    · rename_i rest₂ hsep
      cases hround
      rw [hsep] at hrest
      refine ⟨w₁ ++ t ++ w₂, [d], [x], ?_, .one hw₁ hval hw₂, ?_, rfl, ?_⟩
      · rw [hrest]
        simp
      · exact itemValues_cons.2 ⟨x, [], hd, rfl, rfl⟩
      · exact List.forall_mem_singleton.2 hfit
    · exact absurd hround malformed_ne_ok

theorem arrayLoop_complete (hitem : Reads n item) (ds : List Doc) {t : List Char} (h : IsItems t ds)
    {vs : List (Value F)} (hvs : itemValues ds = some vs) (hfits : ∀ d ∈ ds, Fits n d) {fuel : ℕ}
    (hfuel : ds.length ≤ fuel) (acc : List (Value F)) (rest : List Char) :
    arrayLoop total item fuel acc (t ++ ']' :: rest) = .ok (.array (acc ++ vs), rest) := by
  induction ds generalizing t vs fuel acc with
  | nil => cases h
  | cons d ds ih =>
    obtain ⟨x, vs, hd, htail, rfl⟩ := itemValues_cons.1 hvs
    obtain ⟨hfit, hfits⟩ := List.forall_mem_cons.1 hfits
    cases fuel with
    | zero => simp at hfuel
    | succ fuel =>
      have hread : ∀ {w₁ t w₂ r : List Char}, Ws w₁ → IsValue t d → Ws w₂ → Delimited r →
          item (skipWs (w₁ ++ (t ++ (w₂ ++ r)))) = .ok (x, w₂ ++ r) := by
        intro w₁ t w₂ r hw₁ ht hw₂ hr
        rw [skipWs_starts hw₁ (starts_value ht)]
        exact hitem.complete ht hd hfit (delimited_ws_append hw₂ hr)
      rw [arrayLoop]
      cases h with
      | one hw₁ ht hw₂ =>
        obtain rfl : [] = vs := Option.some.inj htail
        rw [List.append_assoc, List.append_assoc, hread hw₁ ht hw₂ (delimited_cons rfl), Fallible.ok_bind]
        dsimp only
        rw [skipWs_delimiter hw₂ rfl]
        rfl
      | more hw₁ ht hw₂ hitems =>
        simp only [List.append_assoc, List.cons_append]
        rw [hread hw₁ ht hw₂ (delimited_cons rfl), Fallible.ok_bind]
        dsimp only
        rw [skipWs_delimiter hw₂ rfl]
        change arrayLoop total item fuel (acc ++ [x]) (_ ++ ']' :: rest) = _
        rw [ih hitems htail hfits (Nat.le_of_succ_le_succ hfuel)]
        simp

/-- no key of the entries is repeated or already in the map -/
def FreshKeys {V : Type} (map entries : List (String × V)) : Prop :=
  (entries.map Prod.fst).Nodup ∧ ∀ e ∈ entries, e.1 ∉ map.map Prod.fst

omit [F64 F] in
theorem freshKeys_cons {map entries : List (String × Value F)} {key : String} {v : Value F} :
    FreshKeys map ((key, v) :: entries) ↔
      key ∉ map.map Prod.fst ∧ FreshKeys (SortedMap.insert key v map) entries := by
  simp only [FreshKeys, List.map_cons, List.nodup_cons, List.forall_mem_cons, SortedMap.mem_keys_insert, not_or]
  constructor
  · rintro ⟨⟨hkey, hnodup⟩, hmap, hrest⟩
    exact ⟨hmap, hnodup, fun e he => ⟨fun heq => hkey (heq ▸ List.mem_map_of_mem he), hrest e he⟩⟩
  · rintro ⟨hmap, hnodup, hrest⟩
    refine ⟨⟨?_, hnodup⟩, hmap, fun e he => (hrest e he).2⟩
    intro hmem
    obtain ⟨e, he, heq⟩ := List.mem_map.1 hmem
    exact (hrest e he).1 heq

theorem objectLoop_sound (hitem : Reads n item) {fuel : ℕ} {map : List (String × Value F)} {rest rest' : List Char}
    {v : Value F} (h : objectLoop total item fuel map rest = .ok (v, rest')) :
    ∃ t ms entries, rest = t ++ '\x7d' :: rest' ∧ IsMembers t ms ∧ memberValues ms = some entries ∧
      FreshKeys map entries ∧ v = .object (SortedMap.insertAll map entries) ∧ ∀ m ∈ ms, Fits n m.2 := by
  induction fuel generalizing map rest with
  | zero => exact absurd h malformed_ne_ok
  | succ fuel ih =>
    rw [objectLoop] at h
    split at h
    · rename_i rest₀ hquote
      obtain ⟨⟨key, rest₁⟩, hkey, hmember⟩ := Fallible.bind_eq_ok.1 h
      obtain ⟨k, hktext, hk⟩ := stringLoop_eq_ok.1 hkey
      dsimp only at hmember
      split at hmember
      · rename_i rest₂ hcolon
        obtain ⟨⟨x, rest₃⟩, hx, hround⟩ := Fallible.bind_eq_ok.1 hmember
        obtain ⟨t, d, htext, hval, hd, hfit⟩ := hitem.sound hx
        obtain ⟨w₁, hw₁, hrest⟩ := exists_ws_skipWs rest
        obtain ⟨w₂, hw₂, hrest₁⟩ := exists_ws_skipWs rest₁
        obtain ⟨w₃, hw₃, hrest₂⟩ := exists_ws_skipWs rest₂
        obtain ⟨w₄, hw₄, hrest₃⟩ := exists_ws_skipWs rest₃
        have hm : IsMember (w₁ ++ stringText k ++ w₂ ++ ':' :: w₃ ++ t ++ w₄) (k, d) := .mk hw₁ hw₂ hw₃ hval hw₄
        rw [hquote, hktext, hrest₁, hcolon, hrest₂, htext, hrest₃] at hrest
        dsimp only at hround
        split_ifs at hround with hdup
        have hnew : key ∉ map.map Prod.fst := by
          rw [← SortedMap.find_eq_none_iff, ← Option.not_isSome_iff_eq_none]
          exact hdup
        split at hround
        · rename_i rest₄ hsep
          obtain ⟨ts, ms, entries, rfl, hms, hentries, hfresh, rfl, hfits⟩ := ih hround
          rw [hsep] at hrest
          refine ⟨_ ++ ',' :: ts, (k, d) :: ms, (key, x) :: entries, ?_, .more hm hms, ?_, ?_, rfl, ?_⟩
          · rw [hrest]
            simp [stringText]
          · exact memberValues_cons.2 ⟨key, x, entries, hk, hd, hentries, rfl⟩
          · exact freshKeys_cons.2 ⟨hnew, hfresh⟩
          · exact List.forall_mem_cons.2 ⟨hfit, hfits⟩
        · rename_i rest₄ hsep
          cases hround
          rw [hsep] at hrest
          refine ⟨_, [(k, d)], [(key, x)], ?_, .one hm, ?_, ?_, rfl, ?_⟩
          · rw [hrest]
            simp [stringText]
          · exact memberValues_cons.2 ⟨key, x, [], hk, hd, rfl, rfl⟩
          · exact freshKeys_cons.2 ⟨hnew, List.nodup_nil, by simp⟩
          · exact List.forall_mem_singleton.2 hfit
        · exact absurd hround malformed_ne_ok
      · exact absurd hmember malformed_ne_ok
    · exact absurd h malformed_ne_ok

/-- one member in front of a delimiter: what is left of the round -/
theorem objectLoop_member (hitem : Reads n item) {t : List Char} {k : List StrElem} {d : Doc} (h : IsMember t (k, d))
    {key : String} (hk : stringValue k = some key) {x : Value F} (hd : docValue d = some x) (hfit : Fits n d)
    {map : List (String × Value F)} (hnew : key ∉ map.map Prod.fst) (fuel : ℕ) {c : Char} (hc : isDelimiter c = true)
    (hws : isWs c = false) (rest : List Char) :
    objectLoop total item (fuel + 1) map (t ++ c :: rest) =
      match c :: rest with
      | ',' :: rest => objectLoop total item fuel (SortedMap.insert key x map) rest
      | '\x7d' :: rest => .ok (.object (SortedMap.insert key x map), rest)
      | rest => malformed total rest "expected `,` or `\x7d`" := by
  cases h with
  | @mk w₁ w₂ w₃ tv w₄ _ _ hw₁ hw₂ hw₃ hval hw₄ =>
    have hquote : skipWs (w₁ ++ (stringText k ++ (w₂ ++ ':' :: (w₃ ++ (tv ++ (w₄ ++ c :: rest)))))) =
        '"' :: (bodyText k ++ '"' :: (w₂ ++ ':' :: (w₃ ++ (tv ++ (w₄ ++ c :: rest))))) := by
      rw [skipWs_append hw₁]
      simp only [stringText, List.cons_append, List.append_assoc, List.nil_append]
      exact skipWs_cons rfl _
    have hread : item (skipWs (w₃ ++ (tv ++ (w₄ ++ c :: rest)))) = .ok (x, w₄ ++ c :: rest) := by
      rw [skipWs_starts hw₃ (starts_value hval)]
      exact hitem.complete hval hd hfit (delimited_ws_append hw₄ (delimited_cons hc))
    have hfind : (SortedMap.find map key).isSome = false := by
      rw [SortedMap.find_eq_none_iff.2 hnew]
      rfl
    rw [objectLoop]
    simp only [List.append_assoc, List.cons_append]
    rw [hquote]
    change (stringLoop total [] _ >>= _) = _
    rw [stringLoop_eq_ok.2 ⟨k, rfl, hk⟩, Fallible.ok_bind]
    dsimp only
    rw [skipWs_delimiter hw₂ rfl]
    change (item _ >>= _) = _
    rw [hread, Fallible.ok_bind]
    change (if (SortedMap.find map key).isSome = true then _ else _) = _
    rw [hfind, if_neg Bool.false_ne_true]
    dsimp only
    rw [skipWs_delimiter hw₄ hws]
    rfl

theorem objectLoop_complete (hitem : Reads n item) (ms : List (List StrElem × Doc)) {t : List Char}
    (h : IsMembers t ms) {entries : List (String × Value F)} (hentries : memberValues ms = some entries)
    (hfits : ∀ m ∈ ms, Fits n m.2) {fuel : ℕ} (hfuel : ms.length ≤ fuel) {map : List (String × Value F)}
    (hfresh : FreshKeys map entries) (rest : List Char) :
    objectLoop total item fuel map (t ++ '\x7d' :: rest) = .ok (.object (SortedMap.insertAll map entries), rest) := by
  induction ms generalizing t entries fuel map with
  | nil => cases h
  | cons m ms ih =>
    obtain ⟨k, d⟩ := m
    obtain ⟨key, x, entries, hk, hd, htail, rfl⟩ := memberValues_cons.1 hentries
    obtain ⟨hfit, hfits⟩ := List.forall_mem_cons.1 hfits
    obtain ⟨hnew, hfresh⟩ := freshKeys_cons.1 hfresh
    cases fuel with
    | zero => simp at hfuel
    | succ fuel =>
      cases h with
      | one hm =>
        obtain rfl : [] = entries := Option.some.inj htail
        rw [objectLoop_member hitem hm hk hd hfit hnew fuel rfl rfl]
        rfl
      | more hm hms =>
        rw [List.append_assoc, List.cons_append, objectLoop_member hitem hm hk hd hfit hnew fuel rfl rfl]
        change objectLoop total item fuel _ (_ ++ '\x7d' :: rest) = _
        rw [ih hms htail hfits (Nat.le_of_succ_le_succ hfuel) hfresh]
        rfl

theorem items_skipWs {t : List Char} {ds : List Doc} (h : IsItems t ds) :
    ∃ t', IsItems t' ds ∧ Starts t' ∧ ∀ rest, skipWs (t ++ rest) = t' ++ rest := by
  have starts_append : ∀ {t s}, Starts t → Starts (t ++ s) := by
    rintro _ s ⟨c, t, rfl, hc⟩
    exact ⟨c, t ++ s, rfl, hc⟩
  have hnil : Ws [] := nofun
  cases h with
  | @one w₁ t w₂ d hw₁ ht hw₂ =>
    refine ⟨[] ++ t ++ w₂, .one hnil ht hw₂, starts_append (starts_value ht), fun rest => ?_⟩
    simp only [List.append_assoc, List.nil_append]
    exact skipWs_starts hw₁ (starts_value ht)
  | @more w₁ t w₂ ts d ds hw₁ ht hw₂ hts =>
    refine ⟨[] ++ t ++ w₂ ++ ',' :: ts, .more hnil ht hw₂ hts, ?_, fun rest => ?_⟩
    · exact starts_append (starts_append (starts_value ht))
    · simp only [List.append_assoc, List.cons_append, List.nil_append]
      exact skipWs_starts hw₁ (starts_value ht)

theorem members_skipWs {t : List Char} {ms : List (List StrElem × Doc)} (h : IsMembers t ms) :
    ∃ t', IsMembers ('"' :: t') ms ∧ ∀ rest, skipWs (t ++ rest) = '"' :: t' ++ rest := by
  have hmember : ∀ {t m}, IsMember t m → ∃ t', IsMember ('"' :: t') m ∧ ∀ rest, skipWs (t ++ rest) = '"' :: t' ++ rest := by
    intro t m hm
    cases hm with
    | @mk w₁ w₂ w₃ tv w₄ k d hw₁ hw₂ hw₃ hval hw₄ =>
      have hnil : Ws [] := nofun
      have hm' := IsMember.mk (k := k) hnil hw₂ hw₃ hval hw₄
      refine ⟨bodyText k ++ ['"'] ++ w₂ ++ ':' :: w₃ ++ tv ++ w₄, hm', fun rest => ?_⟩
      simp only [stringText, List.append_assoc, List.cons_append]
      rw [skipWs_append hw₁, skipWs_cons rfl]
  cases h with
  | one hm =>
    obtain ⟨t', hm', hskip⟩ := hmember hm
    exact ⟨t', .one hm', hskip⟩
  | @more t ts m ms hm hms =>
    obtain ⟨t', hm', hskip⟩ := hmember hm
    refine ⟨t' ++ ',' :: ts, .more hm' hms, fun rest => ?_⟩
    rw [List.append_assoc, hskip]
    simp

theorem length_le_of_isItems (ds : List Doc) {t : List Char} (h : IsItems t ds) : ds.length ≤ t.length := by
  induction ds generalizing t with
  | nil => exact Nat.zero_le _
  | cons d ds ih =>
    cases h with
    | one _ ht _ =>
      obtain ⟨c, t', rfl, -⟩ := starts_value ht
      simp only [List.length_append, List.length_cons, List.length_nil]
      omega
    | more _ _ _ hts =>
      have := ih hts
      simp only [List.length_append, List.length_cons]
      omega

theorem length_le_of_isMembers (ms : List (List StrElem × Doc)) {t : List Char} (h : IsMembers t ms) :
    ms.length ≤ t.length := by
  induction ms generalizing t with
  | nil => exact Nat.zero_le _
  | cons m ms ih =>
    cases h with
    | one hm =>
      cases hm
      simp only [stringText, List.length_append, List.length_cons, List.length_nil]
      omega
    | more _ hms =>
      have := ih hms
      simp only [List.length_append, List.length_cons]
      omega

theorem array_sound (hitem : Reads n item) {rest rest' : List Char} {v : Value F}
    (h : array total item rest = .ok (v, rest')) :
    ∃ t d, '[' :: rest = t ++ rest' ∧ IsValue t d ∧ docValue d = some v ∧ Fits (n + 1) d := by
  obtain ⟨w, hw, hrest⟩ := exists_ws_skipWs rest
  unfold array at h
  split at h
  · rename_i rest₁ hclose
    cases h
    rw [hclose] at hrest
    exact ⟨_, _, by rw [hrest]; simp, .emptyArray hw, rfl, fits_array.2 (by simp)⟩
  · obtain ⟨t, ds, vs, htext, hitems, hvs, rfl, hfits⟩ := arrayLoop_sound hitem h
    obtain ⟨t', hitems', hrest'⟩ : ∃ t', IsItems t' ds ∧ rest = t' ++ ']' :: rest' := by
      rw [htext] at hrest
      have hws : ∀ {u}, Ws u → Ws (w ++ u) := fun hu => List.forall_mem_append.2 ⟨hw, hu⟩
      cases hitems with
      | one hw₁ ht hw₂ => exact ⟨_, .one (hws hw₁) ht hw₂, by rw [hrest]; simp⟩
      | more hw₁ ht hw₂ hts => exact ⟨_, .more (hws hw₁) ht hw₂ hts, by rw [hrest]; simp⟩
    exact ⟨_, _, by rw [hrest']; simp, .array hitems', by rw [docValue, hvs]; rfl, fits_array.2 hfits⟩

theorem object_sound (hitem : Reads n item) {rest rest' : List Char} {v : Value F}
    (h : object total item rest = .ok (v, rest')) :
    ∃ t d, '\x7b' :: rest = t ++ rest' ∧ IsValue t d ∧ docValue d = some v ∧ Fits (n + 1) d := by
  obtain ⟨w, hw, hrest⟩ := exists_ws_skipWs rest
  unfold object at h
  split at h
  · rename_i rest₁ hclose
    cases h
    rw [hclose] at hrest
    exact ⟨_, _, by rw [hrest]; simp, .emptyObject hw, by simp [docValue, memberValues, SortedMap.insertAll],
      fits_object.2 (by simp)⟩
  · obtain ⟨t, ms, entries, htext, hms, hentries, hfresh, rfl, hfits⟩ := objectLoop_sound hitem h
    obtain ⟨t', hms', hrest'⟩ : ∃ t', IsMembers t' ms ∧ rest = t' ++ '\x7d' :: rest' := by
      rw [htext] at hrest
      have hmember : ∀ {t m}, IsMember t m → IsMember (w ++ t) m := by
        intro t m hm
        cases hm with
        | @mk _ _ _ _ _ k d hw₁ hw₂ hw₃ hval hw₄ =>
          have hm' := IsMember.mk (k := k) (List.forall_mem_append.2 ⟨hw, hw₁⟩) hw₂ hw₃ hval hw₄
          simpa using hm'
      cases hms with
      | one hm => exact ⟨_, .one (hmember hm), by rw [hrest]; simp⟩
      | more hm hms => exact ⟨_, .more (hmember hm) hms, by rw [hrest]; simp⟩
    refine ⟨_, _, by rw [hrest']; simp, .object hms', ?_, fits_object.2 hfits⟩
    rw [docValue, hentries]
    exact if_pos hfresh.1

theorem array_complete (hitem : Reads n item) {ds : List Doc} {t : List Char} (h : IsItems t ds)
    {v : Value F} (hv : docValue (.array ds) = some v) (hfits : Fits (n + 1) (.array ds)) (rest : List Char) :
    array total item (t ++ ']' :: rest) = .ok (v, rest) := by
  rw [docValue] at hv
  obtain ⟨vs, hvs, rfl⟩ := Option.map_eq_some_iff.1 hv
  obtain ⟨t', hitems, ⟨c, t'', rfl, hc⟩, hskip⟩ := items_skipWs h
  have hlen := length_le_of_isItems ds hitems
  have hfuel : ds.length ≤ (c :: t'' ++ ']' :: rest).length + 1 := by
    rw [List.length_append]
    omega
  unfold array
  rw [hskip]
  split
  · rename_i hclose
    cases hclose
    cases hc
  · rw [arrayLoop_complete hitem ds hitems hvs (fits_array.1 hfits) hfuel]
    rfl

theorem object_complete (hitem : Reads n item) {ms : List (List StrElem × Doc)} {t : List Char} (h : IsMembers t ms)
    {v : Value F} (hv : docValue (.object ms) = some v) (hfits : Fits (n + 1) (.object ms)) (rest : List Char) :
    object total item (t ++ '\x7d' :: rest) = .ok (v, rest) := by
  rw [docValue] at hv
  obtain ⟨entries, hentries, hv⟩ := Option.bind_eq_some_iff.1 hv
  split_ifs at hv with hnodup
  cases hv
  obtain ⟨t', hms, hskip⟩ := members_skipWs h
  have hlen := length_le_of_isMembers ms hms
  have hfuel : ms.length ≤ ('"' :: t' ++ '\x7d' :: rest).length + 1 := by
    rw [List.length_append]
    omega
  unfold object
  rw [hskip]
  exact objectLoop_complete hitem ms hms hentries (fits_object.1 hfits) hfuel ⟨hnodup, by simp⟩ rest

end Loops

/-! ## Values -/

theorem within_scalar {d : Doc} (ha : ∀ items, d ≠ .array items) (ho : ∀ ms, d ≠ .object ms) {k : ℕ} {sub : Doc}
    (h : Doc.Within k sub d) : k = 0 := by
  cases h with
  | self => rfl
  | item _ _ => exact absurd rfl (ha _)
  | member _ _ => exact absurd rfl (ho _)

/-- the texts a value starts with when it is none of an object, an array and a string -/
theorem value_literal {total levels : ℕ} {text : List Char} (hb : ∀ r, text ≠ '\x7b' :: r) (ha : ∀ r, text ≠ '[' :: r)
    (hs : ∀ r, text ≠ '"' :: r) :
    value (F := F) total (levels + 1) text =
      match eat ['t', 'r', 'u', 'e'] text, eat ['f', 'a', 'l', 's', 'e'] text, eat ['n', 'u', 'l', 'l'] text with
      | some rest, _, _ => .ok (.bool true, rest)
      | _, some rest, _ => .ok (.bool false, rest)
      | _, _, some rest => .ok (.null, rest)
      | _, _, _ => if startsNumber text then number total text else malformed total text "unexpected token" := by
  unfold value
  split
  case h_1 r => exact absurd rfl (hb r)
  case h_2 r => exact absurd rfl (ha r)
  case h_3 r => exact absurd rfl (hs r)
  case h_4 => rfl

theorem value_number {total levels : ℕ} {t : NumberToken} (h : t.Valid) (rest : List Char) :
    value (F := F) total (levels + 1) (t.text ++ rest) = number total (t.text ++ rest) := by
  obtain ⟨c, ds, hint, hdigit⟩ := exists_cons_of_intValid h.int
  obtain ⟨x, tail, htext, hx⟩ : ∃ x tail, t.text ++ rest = x :: tail ∧ (x = '-' ∨ x.isDigit = true) := by
    cases hneg : t.neg with
    | true => exact ⟨'-', _, by simp [NumberToken.text, NumberToken.signText, hneg]; rfl, .inl rfl⟩
    | false => exact ⟨c, _, by simp [NumberToken.text, NumberToken.signText, hneg, hint]; rfl, .inr hdigit⟩
  rw [htext]
  have hne : ∀ y : Char, y ≠ '-' → y.isDigit = false → y ≠ x := by
    rintro y hy hyd rfl
    rcases hx with hx | hx
    · exact hy hx
    · rw [hyd] at hx
      cases hx
  have heat : ∀ (y : Char) (l : List Char), y ≠ x → eat (y :: l) (x :: tail) = none := by
    intro y l hyx
    rw [eat, if_neg hyx]
  have hstart : startsNumber (x :: tail) = true := by
    rcases hx with rfl | hx
    · rfl
    · simp [startsNumber, hx]
  rw [value_literal, heat 't' _ (hne 't' (by decide) (by decide)), heat 'f' _ (hne 'f' (by decide) (by decide)),
    heat 'n' _ (hne 'n' (by decide) (by decide))]
  · exact if_pos hstart
  · rintro r hr
    exact hne '\x7b' (by decide) (by decide) (List.cons.inj hr).1.symm
  · rintro r hr
    exact hne '[' (by decide) (by decide) (List.cons.inj hr).1.symm
  · rintro r hr
    exact hne '"' (by decide) (by decide) (List.cons.inj hr).1.symm

theorem value_sound_succ {total n : ℕ} (ih : Reads (F := F) n (value total n)) {text rest : List Char} {v : Value F}
    (h : value total (n + 1) text = .ok (v, rest)) :
    ∃ t d, text = t ++ rest ∧ IsValue t d ∧ docValue d = some v ∧ Fits (n + 1) d := by
  have hscalar : ∀ {d : Doc}, (∀ items, d ≠ .array items) → (∀ ms, d ≠ .object ms) → Fits (n + 1) d := by
    intro d ha ho
    exact fits_scalar fun k sub hk => within_scalar ha ho hk
  rw [value.eq_def] at h
  dsimp only at h
  split at h
  · exact object_sound ih h
  · exact array_sound ih h
  · obtain ⟨⟨s, rest₁⟩, hs, hv⟩ := Fallible.bind_eq_ok.1 h
    cases hv
    obtain ⟨es, rfl, hes⟩ := stringLoop_eq_ok.1 hs
    refine ⟨stringText es, .string es, by simp [stringText], .string es, ?_, hscalar nofun nofun⟩
    rw [docValue, hes]
    rfl
  · split at h
    · rename_i heat
      cases h
      exact ⟨_, _, eat_eq_some.1 heat, .bool true, rfl, hscalar nofun nofun⟩
    · rename_i heat _
      cases h
      exact ⟨_, _, eat_eq_some.1 heat, .bool false, rfl, hscalar nofun nofun⟩
    · rename_i heat _ _
      cases h
      exact ⟨_, _, eat_eq_some.1 heat, .null, rfl, hscalar nofun nofun⟩
    · split_ifs at h with hnum
      · obtain ⟨t, hvalid, rfl, hv⟩ := number_sound h
        exact ⟨_, _, rfl, .number hvalid, hv, hscalar nofun nofun⟩
      · exact absurd h malformed_ne_ok

theorem value_complete_succ {total n : ℕ} (ih : Reads (F := F) n (value total n)) {t rest : List Char} {d : Doc}
    {v : Value F} (h : IsValue t d) (hv : docValue d = some v) (hfits : Fits (n + 1) d) (hrest : Delimited rest) :
    value total (n + 1) (t ++ rest) = .ok (v, rest) := by
  cases h with
  | null =>
    obtain rfl : Value.null = v := Option.some.inj hv
    rfl
  | bool b =>
    obtain rfl : Value.bool b = v := Option.some.inj hv
    cases b <;> rfl
  | number ht =>
    rw [value_number ht]
    exact number_complete total ht hv hrest.headNot
  | string es =>
    rw [docValue] at hv
    obtain ⟨s, hs, rfl⟩ := Option.map_eq_some_iff.1 hv
    simp only [stringText, List.cons_append, List.append_assoc, List.nil_append]
    change (stringLoop total [] (bodyText es ++ '"' :: rest) >>= _) = _
    rw [stringLoop_eq_ok.2 ⟨es, rfl, hs⟩]
    rfl
  | @emptyArray w hw =>
    obtain rfl : Value.array [] = v := Option.some.inj hv
    change array total (value total n) ((w ++ [']']) ++ rest) = _
    unfold array
    rw [List.append_assoc, List.singleton_append, skipWs_delimiter hw rfl]
    rfl
  | @array t items hitems =>
    change array total (value total n) ((t ++ [']']) ++ rest) = _
    rw [List.append_assoc, List.singleton_append]
    exact array_complete ih hitems hv hfits rest
  | @emptyObject w hw =>
    obtain rfl : Value.object [] = v := by
      simpa [docValue, memberValues, SortedMap.insertAll] using hv
    change object total (value total n) ((w ++ ['\x7d']) ++ rest) = _
    unfold object
    rw [List.append_assoc, List.singleton_append, skipWs_delimiter hw rfl]
    rfl
  | @object t ms hms =>
    change object total (value total n) ((t ++ ['\x7d']) ++ rest) = _
    rw [List.append_assoc, List.singleton_append]
    exact object_complete ih hms hv hfits rest

/-- **The scanner against the grammar.** With n levels it reads exactly the texts of the trees of fewer than n levels
that stand for a value. -/
theorem value_reads (total n : ℕ) : Reads (F := F) n (value total n) := by
  induction n with
  | zero =>
    refine ⟨?_, ?_⟩
    · intro text v rest h
      cases h
    · intro t d v rest _ _ hfits _
      exact absurd hfits (not_fits_zero d)
  | succ n ih => exact ⟨value_sound_succ ih, value_complete_succ ih⟩

/-- a text is parsed to v exactly when it is the text of a tree that stands for v and is not nested too deeply -/
theorem parseStrict_eq_ok {text : String} {v : Value F} :
    parseStrict text = .ok v ↔ ∃ d, IsText text.toList d ∧ docValue d = some v ∧ Fits (MAX_DEPTH + 1) d := by
  constructor
  · intro h
    unfold parseStrict at h
    obtain ⟨⟨x, rest⟩, hx, hend⟩ := Fallible.bind_eq_ok.1 h
    obtain ⟨t, d, htext, hval, hd, hfits⟩ := (value_reads _ _).sound hx
    obtain ⟨w₁, hw₁, hrest₁⟩ := exists_ws_skipWs text.toList
    obtain ⟨w₂, hw₂, hrest₂⟩ := exists_ws_skipWs rest
    dsimp only at hend
    split at hend
    · rename_i hnil
      cases hend
      rw [htext, hrest₂, hnil, List.append_nil, ← List.append_assoc] at hrest₁
      exact ⟨d, ⟨w₁, t, w₂, hw₁, hval, hw₂, hrest₁⟩, hd, hfits⟩
    · exact absurd hend malformed_ne_ok
  · rintro ⟨d, ⟨w₁, t, w₂, hw₁, hval, hw₂, htext⟩, hd, hfits⟩
    have hdelim : Delimited w₂ := by
      have := delimited_ws_append hw₂ delimited_nil
      rwa [List.append_nil] at this
    have hskip : skipWs w₂ = [] := by
      have := skipWs_append hw₂ []
      rwa [List.append_nil] at this
    unfold parseStrict
    rw [htext, List.append_assoc, skipWs_starts hw₁ (starts_value hval)]
    dsimp only
    rw [(value_reads _ _).complete hval hd hfits hdelim, Fallible.ok_bind]
    dsimp only
    rw [hskip]
    rfl

/-! ## The restrictions -/

/-- es is a string or a key of d -/
def Occurs (es : List StrElem) (d : Doc) : Prop :=
  (∃ k, Doc.Within k (.string es) d) ∨ ∃ k members, Doc.Within k (.object members) d ∧ es ∈ members.map Prod.fst

/-- no object of d has a key twice, unescaped -/
def NoDuplicateKeys (d : Doc) : Prop :=
  ∀ k members, Doc.Within k (.object members) d → (members.map fun m => decode m.1).Nodup

/-- no string or key stands for U+0000 -/
def NoNul (d : Doc) : Prop := ∀ es, Occurs es d → ∀ cs, decode es = some cs → nul ∉ cs

/-- every surrogate escape is half of a pair -/
def NoLoneSurrogate (d : Doc) : Prop := ∀ es, Occurs es d → Paired es

/-- one digit before the point -/
def mantissa : List Char → List Char
  | first :: second :: rest => first :: '.' :: second :: rest
  | digits => digits

/-- the texts ECMAScript gives 0.digits * 10^n -/
inductive EcmaScript (digits : List Char) (n : ℤ) : List Char → Prop where
  /-- no point: zeros up to where it would stand -/
  | integer (zeros : ℕ) : n = digits.length + zeros → n ≤ 21 → EcmaScript digits n (digits ++ List.replicate zeros '0')
  /-- the point among the digits -/
  | inside (whole frac : List Char) : digits = whole ++ frac → frac ≠ [] → n = whole.length → 0 < n → n ≤ 21 →
      EcmaScript digits n (whole ++ '.' :: frac)
  /-- the point before the digits -/
  | before (zeros : ℕ) : n = -zeros → zeros < 6 → n < digits.length →
      EcmaScript digits n ('0' :: '.' :: List.replicate zeros '0' ++ digits)
  | large : 21 < n → EcmaScript digits n (mantissa digits ++ 'e' :: '+' :: Nat.toDigits 10 (n - 1).natAbs)
  | small : n ≤ -6 → EcmaScript digits n (mantissa digits ++ 'e' :: '-' :: Nat.toDigits 10 (n - 1).natAbs)

/-- the text ECMAScript gives a double -/
def Printed (f : F) (text : List Char) : Prop :=
  if F64.isZero f then text = ['0']
  else ∃ body, EcmaScript (F64.digits f) (F64.exponent f + 1) body ∧ text = if F64.isNegative f then '-' :: body else body

/-- zero, an integer up to 2^53, or a fraction of at most fifteen significant digits -/
def InRange (f : F) : Prop :=
  F64.isZero f = true ∨
    if F64.isIntegral f then (F64.trunc f).natAbs ≤ MAX_SAFE_INTEGER else (F64.digits f).length ≤ MAX_SIGNIFICANT_DIGITS

/-- an integer up to 2^53 other than -0, or a number in range written as ECMAScript prints the double it reads as -/
def Admitted (F : Type) [F64 F] (t : NumberToken) : Prop :=
  if t.integerForm then t.text ≠ ['-', '0'] ∧ t.intValue.natAbs ≤ MAX_SAFE_INTEGER
  else ∃ f : F, parseF64 t = some f ∧ InRange f ∧ Printed f t.text

def NumbersAdmitted (F : Type) [F64 F] (d : Doc) : Prop := ∀ k t, Doc.Within k (.number t) d → Admitted F t

/-- no value of d is inside more than that many containers -/
def DepthWithin (limit : ℕ) (d : Doc) : Prop := ∀ k sub, Doc.Within k sub d → k ≤ limit

theorem mantissa_eq (digits : List Char) : mantissa digits =
    if 1 < (digits.length : ℤ) then digits.take 1 ++ '.' :: digits.drop 1 else digits.take 1 := by
  match digits with
  | [] => rfl
  | [first] => rfl
  | first :: second :: rest =>
    rw [if_pos (by simp)]
    rfl

/-- the layouts exclude one another -/
theorem ecmaScript_iff {digits : List Char} {n : ℤ} {text : List Char} :
    EcmaScript digits n text ↔ text = layoutDigits digits n := by
  unfold layoutDigits
  dsimp only
  rw [← mantissa_eq]
  constructor
  · intro h
    cases h with
    | integer zeros hn hle => rw [if_pos (by omega), show (n - digits.length).toNat = zeros by omega]
    | inside whole frac hdigits hfrac hn hpos hle =>
      have hlength : 0 < frac.length := List.length_pos_of_ne_nil hfrac
      have hwhole : n.toNat = whole.length := by omega
      subst hdigits
      rw [List.length_append, if_neg (by omega), if_pos ⟨hpos, hle⟩, hwhole, List.take_left, List.drop_left]
    | before zeros hn hzeros hlt =>
      rw [if_neg (by omega), if_neg (by omega), if_pos (by omega), show (-n).toNat = zeros by omega]
    | large hlarge => rw [if_neg (by omega), if_neg (by omega), if_neg (by omega), if_neg (by omega)]
    | small hsmall => rw [if_neg (by omega), if_neg (by omega), if_neg (by omega), if_pos (by omega)]
  · rintro rfl
    split_ifs with hinteger hinside hbefore hneg
    · exact .integer _ (by omega) hinteger.2
    · refine .inside _ _ (List.take_append_drop n.toNat digits).symm ?_ ?_ hinside.1 hinside.2
      · rw [← List.length_pos_iff, List.length_drop]
        omega
      · rw [List.length_take]
        omega
    · exact .before _ (by omega) (by omega) (by omega)
    · exact .small (by omega)
    · exact .large (by omega)

/-- the digits laid out behind the sign -/
def signedLayout (f : F) : List Char :=
  if F64.isNegative f then '-' :: layoutDigits (F64.digits f) (F64.exponent f + 1)
  else layoutDigits (F64.digits f) (F64.exponent f + 1)

/-- what is in range has its text -/
theorem floatText_eq_some {f : F} {text : List Char} :
    floatText f = some text ↔ InRange f ∧ text = if F64.isZero f then ['0'] else signedLayout f := by
  have hsome : ∀ t : List Char, some t = some text ↔ text = t := fun t => Option.some_inj.trans eq_comm
  unfold floatText InRange
  cases F64.isZero f with
  | true => simp [hsome]
  | false =>
    cases F64.isIntegral f with
    | true =>
      by_cases hsafe : (F64.trunc f).natAbs ≤ MAX_SAFE_INTEGER
      · simp [hsafe, signedLayout, hsome]
      · simp [hsafe, not_le.1 hsafe]
    | false =>
      by_cases hshort : (F64.digits f).length ≤ MAX_SIGNIFICANT_DIGITS
      · simp [hshort, signedLayout, hsome]
      · simp [hshort, not_le.1 hshort]

theorem printed_iff {f : F} {text : List Char} :
    Printed f text ↔ text = if F64.isZero f then ['0'] else signedLayout f := by
  unfold Printed signedLayout
  simp only [ecmaScript_iff, exists_eq_left]
  split_ifs <;> rfl

theorem tokenNumber_isSome_iff {t : NumberToken} : (tokenNumber (F := F) t).isSome ↔ Admitted F t := by
  simp only [Admitted, printed_iff, ← floatText_eq_some]
  unfold tokenNumber
  split_ifs with hint hzero
  · simp [hzero]
  · have hrange : t.intValue.natAbs ≤ MAX_SAFE_INTEGER → -2 ^ 127 ≤ t.intValue ∧ t.intValue < 2 ^ 127 := by
      intro h
      unfold MAX_SAFE_INTEGER at h
      omega
    by_cases hsafe : t.intValue.natAbs ≤ MAX_SAFE_INTEGER
    · have hparse : parseI128 t = some t.intValue := if_pos (hrange hsafe)
      simp [hparse, hsafe, hzero]
    · simp only [hsafe, and_false, iff_false]
      unfold parseI128
      split_ifs with hr
      · simp [hsafe]
      · simp
  · cases hf : parseF64 (F := F) t with
    | none => simp
    | some f =>
      by_cases htext : floatText f = some t.text
      · simp [htext]
      · simp [htext]

theorem stringValue_eq_some {es : List StrElem} {s : String} :
    stringValue es = some s ↔ ∃ cs, decode es = some cs ∧ nul ∉ cs ∧ s = String.ofList cs := by
  unfold stringValue
  constructor
  · intro h
    obtain ⟨cs, hcs, h⟩ := Option.bind_eq_some_iff.1 h
    split_ifs at h with hnul
    exact ⟨cs, hcs, hnul, (Option.some.inj h).symm⟩
  · rintro ⟨cs, hcs, hnul, rfl⟩
    simp [hcs, hnul]

/-- a part of a tree that stands for a value stands for one -/
theorem docValue_within {k : ℕ} {sub d : Doc} (h : Doc.Within k sub d) (hd : (docValue (F := F) d).isSome) :
    (docValue (F := F) sub).isSome := by
  have hitems : ∀ {ds : List Doc}, (itemValues (F := F) ds).isSome → ∀ d ∈ ds, (docValue (F := F) d).isSome := by
    intro ds
    induction ds with
    | nil => exact fun _ _ hd => absurd hd List.not_mem_nil
    | cons a ds ih =>
      intro h
      obtain ⟨vs, hvs⟩ := Option.isSome_iff_exists.1 h
      obtain ⟨v, vs', hv, hvs', -⟩ := itemValues_cons.1 hvs
      exact List.forall_mem_cons.2 ⟨by simp [hv], ih (by simp [hvs'])⟩
  have hmembers : ∀ {ms : List (List StrElem × Doc)}, (memberValues (F := F) ms).isSome →
      ∀ m ∈ ms, (docValue (F := F) m.2).isSome := by
    intro ms
    induction ms with
    | nil => exact fun _ _ hm => absurd hm List.not_mem_nil
    | cons m ms ih =>
      intro h
      obtain ⟨entries, he⟩ := Option.isSome_iff_exists.1 h
      obtain ⟨key, v, entries', -, hv, hentries, -⟩ := memberValues_cons.1 he
      exact List.forall_mem_cons.2 ⟨by simp [hv], ih (by simp [hentries])⟩
  induction h with
  | self => exact hd
  | item hmem _ ih =>
    rw [docValue, Option.isSome_map] at hd
    exact ih (hitems hd _ hmem)
  | member hmem _ ih =>
    refine ih (hmembers ?_ _ hmem)
    obtain ⟨v, hv⟩ := Option.isSome_iff_exists.1 hd
    rw [docValue] at hv
    obtain ⟨entries, he, -⟩ := Option.bind_eq_some_iff.1 hv
    simp [he]

/-- the keys of the entries are the keys of the members, unescaped -/
theorem memberValues_keys {ms : List (List StrElem × Doc)} {entries : List (String × Value F)}
    (h : memberValues ms = some entries) :
    (ms.map fun m => decode m.1) = (entries.map fun e => some e.1.toList) ∧ ∀ m ∈ ms, (stringValue m.1).isSome := by
  induction ms generalizing entries with
  | nil =>
    obtain rfl : [] = entries := Option.some.inj h
    exact ⟨rfl, by simp⟩
  | cons m ms ih =>
    obtain ⟨key, v, entries, hk, -, hentries, rfl⟩ := memberValues_cons.1 h
    obtain ⟨hkeys, hsome⟩ := ih hentries
    obtain ⟨cs, hcs, -, rfl⟩ := stringValue_eq_some.1 hk
    refine ⟨?_, List.forall_mem_cons.2 ⟨by simp [hk], hsome⟩⟩
    rw [List.map_cons, List.map_cons, hkeys, hcs, String.toList_ofList]

theorem nodup_keys_iff {ms : List (List StrElem × Doc)} {entries : List (String × Value F)}
    (h : memberValues ms = some entries) :
    (entries.map Prod.fst).Nodup ↔ (ms.map fun m => decode m.1).Nodup := by
  have hinj : Function.Injective fun s : String => some s.toList := by
    intro s t hst
    exact String.toList_inj.1 (Option.some.inj hst)
  rw [(memberValues_keys h).1, ← List.nodup_map_iff hinj, List.map_map]
  rfl

/-- what stands for a value meets the restrictions -/
theorem restrictions_of_docValue {d : Doc} (h : (docValue (F := F) d).isSome) :
    NoDuplicateKeys d ∧ NoNul d ∧ NoLoneSurrogate d ∧ NumbersAdmitted F d := by
  have hobject : ∀ {k ms}, Doc.Within k (.object ms) d →
      ∃ entries : List (String × Value F), memberValues ms = some entries ∧ (entries.map Prod.fst).Nodup := by
    intro k ms hk
    obtain ⟨v, hv⟩ := Option.isSome_iff_exists.1 (docValue_within hk h)
    rw [docValue] at hv
    obtain ⟨entries, he, hv⟩ := Option.bind_eq_some_iff.1 hv
    split_ifs at hv with hnodup
    exact ⟨entries, he, hnodup⟩
  have hstring : ∀ {es}, Occurs es d → (stringValue es).isSome := by
    rintro es (⟨k, hk⟩ | ⟨k, ms, hk, hmem⟩)
    · have hs := docValue_within (F := F) hk h
      rwa [docValue, Option.isSome_map] at hs
    · obtain ⟨entries, he, -⟩ := hobject hk
      obtain ⟨m, hm, rfl⟩ := List.mem_map.1 hmem
      exact (memberValues_keys he).2 m hm
  refine ⟨?_, ?_, ?_, ?_⟩
  · intro k ms hk
    obtain ⟨entries, he, hnodup⟩ := hobject hk
    exact (nodup_keys_iff he).1 hnodup
  · intro es hes cs hcs
    obtain ⟨s, hs⟩ := Option.isSome_iff_exists.1 (hstring hes)
    obtain ⟨cs', hcs', hnul, -⟩ := stringValue_eq_some.1 hs
    rw [hcs] at hcs'
    cases hcs'
    exact hnul
  · intro es hes
    obtain ⟨s, hs⟩ := Option.isSome_iff_exists.1 (hstring hes)
    obtain ⟨cs, hcs, -, -⟩ := stringValue_eq_some.1 hs
    exact decode_isSome_iff.1 (by simp [hcs])
  · intro k t hk
    have ht := docValue_within (F := F) hk h
    rw [docValue, Option.isSome_map] at ht
    exact tokenNumber_isSome_iff.1 ht

/-- the four restrictions on what a tree holds -/
structure Restricted (F : Type) [F64 F] (d : Doc) : Prop where
  keys : NoDuplicateKeys d
  nul : NoNul d
  surrogates : NoLoneSurrogate d
  numbers : NumbersAdmitted F d

theorem Occurs.item {es : List StrElem} {d : Doc} {items : List Doc} (h : Occurs es d) (hd : d ∈ items) :
    Occurs es (.array items) :=
  h.imp (fun ⟨_, hk⟩ => ⟨_, .item hd hk⟩) fun ⟨_, ms, hk, hm⟩ => ⟨_, ms, .item hd hk, hm⟩

theorem Occurs.member {es : List StrElem} {m : List StrElem × Doc} {members : List (List StrElem × Doc)}
    (h : Occurs es m.2) (hm : m ∈ members) : Occurs es (.object members) :=
  h.imp (fun ⟨_, hk⟩ => ⟨_, .member hm hk⟩) fun ⟨_, ms, hk, hx⟩ => ⟨_, ms, .member hm hk, hx⟩

theorem Restricted.item {items : List Doc} (h : Restricted F (.array items)) {d : Doc} (hd : d ∈ items) :
    Restricted F d where
  keys _ ms hk := h.keys _ ms (.item hd hk)
  nul es hes := h.nul es (hes.item hd)
  surrogates es hes := h.surrogates es (hes.item hd)
  numbers _ t hk := h.numbers _ t (.item hd hk)

theorem Restricted.member {members : List (List StrElem × Doc)} (h : Restricted F (.object members))
    {m : List StrElem × Doc} (hm : m ∈ members) : Restricted F m.2 where
  keys _ ms hk := h.keys _ ms (.member hm hk)
  nul es hes := h.nul es (hes.member hm)
  surrogates es hes := h.surrogates es (hes.member hm)
  numbers _ t hk := h.numbers _ t (.member hm hk)

theorem Restricted.string {d : Doc} (h : Restricted F d) {es : List StrElem} (hes : Occurs es d) :
    (stringValue es).isSome := by
  obtain ⟨cs, hcs⟩ := Option.isSome_iff_exists.1 (decode_isSome_iff.2 (h.surrogates es hes))
  rw [stringValue_eq_some.2 ⟨cs, hcs, h.nul es hes cs hcs, rfl⟩]
  rfl

/-- **What the restrictions leave.** A tree that meets them stands for a value. -/
theorem docValue_of_restricted {n : ℕ} {d : Doc} (hfits : Fits n d) (h : Restricted F d) :
    (docValue (F := F) d).isSome := by
  induction n generalizing d with
  | zero => exact absurd hfits (not_fits_zero d)
  | succ n ih =>
    cases d with
    | null => rfl
    | bool b => rfl
    | number t =>
      rw [docValue, Option.isSome_map]
      exact tokenNumber_isSome_iff.2 (h.numbers 0 t (.self _))
    | string es =>
      rw [docValue, Option.isSome_map]
      exact h.string (.inl ⟨0, .self _⟩)
    | array items =>
      have hitems : ∀ d ∈ items, (docValue (F := F) d).isSome := fun d hd =>
        ih (fits_array.1 hfits d hd) (h.item hd)
      rw [docValue, Option.isSome_map]
      clear hfits h
      induction items with
      | nil => rfl
      | cons d items ihi =>
        obtain ⟨hd, hitems⟩ := List.forall_mem_cons.1 hitems
        obtain ⟨v, hv⟩ := Option.isSome_iff_exists.1 hd
        obtain ⟨vs, hvs⟩ := Option.isSome_iff_exists.1 (ihi hitems)
        rw [itemValues_cons.2 ⟨v, vs, hv, hvs, rfl⟩]
        rfl
    | object members =>
      have hvalues : ∀ m ∈ members, (docValue (F := F) m.2).isSome := fun m hm =>
        ih (fits_object.1 hfits m hm) (h.member hm)
      have hkeys : ∀ m ∈ members, (stringValue m.1).isSome := fun m hm =>
        h.string (.inr ⟨0, members, .self _, List.mem_map_of_mem hm⟩)
      have hentries : (memberValues (F := F) members).isSome := by
        clear hfits h
        induction members with
        | nil => rfl
        | cons m members ihm =>
          obtain ⟨hm, hvalues⟩ := List.forall_mem_cons.1 hvalues
          obtain ⟨hk, hkeys⟩ := List.forall_mem_cons.1 hkeys
          obtain ⟨key, hkey⟩ := Option.isSome_iff_exists.1 hk
          obtain ⟨v, hv⟩ := Option.isSome_iff_exists.1 hm
          obtain ⟨entries, he⟩ := Option.isSome_iff_exists.1 (ihm hvalues hkeys)
          rw [memberValues_cons.2 ⟨key, v, entries, hkey, hv, he, rfl⟩]
          rfl
      obtain ⟨entries, he⟩ := Option.isSome_iff_exists.1 hentries
      have hnodup := (nodup_keys_iff he).2 (h.keys 0 members (.self _))
      rw [docValue, he, Option.bind_eq_bind, Option.bind_some, if_pos hnodup]
      rfl

/-! ## Everything parsed has a canonical encoding -/

theorem toInt_ofInt {n : ℤ} (h : n.natAbs ≤ MAX_SAFE_INTEGER) : (Int64.ofInt n).toInt = n := by
  unfold MAX_SAFE_INTEGER at h
  apply Int64.toInt_ofInt_of_le
  · norm_num
    omega
  · norm_num
    omega

/-- the text of an integer that was read as one -/
theorem numberText_fromI64 {n : ℤ} (h : n.natAbs ≤ MAX_SAFE_INTEGER) :
    numberText (Number.fromI64 (F := F) (Int64.ofInt n)) = .ok (intText n) := by
  have hsafe : safeInteger n = .ok (intText n) := if_pos h
  have hint := toInt_ofInt h
  unfold Number.fromI64
  split_ifs with hneg
  · rw [numberText, hint, hsafe]
  · have hnn : 0 ≤ Int64.ofInt n := by simpa using hneg
    have hpos : 0 ≤ n := by
      rw [Int64.le_iff_toInt_le, hint] at hnn
      exact hnn
    have hnat : ((Int64.ofInt n).toUInt64.toNat : ℤ) = n := by
      rw [Int64.toNat_toUInt64_of_le hnn, ← Int64.toNat_toInt, hint, Int.toNat_of_nonneg hpos]
    rw [numberText, hnat, hsafe]

theorem numberText_of_tokenNumber {t : NumberToken} {x : Number F} (h : tokenNumber t = some x) :
    ∃ out, numberText x = .ok out := by
  unfold tokenNumber at h
  split_ifs at h with hint hzero
  · split at h
    · split_ifs at h with hsafe
      cases h
      exact ⟨_, numberText_fromI64 hsafe⟩
    · cases h
  · split at h
    · rename_i f hf
      split_ifs at h with htext
      cases h
      rw [numberText, htext]
      exact ⟨_, rfl⟩
    · cases h

theorem writeString_of_stringValue {es : List StrElem} {s : String} (h : stringValue es = some s) :
    ∃ out, writeString s = .ok out := by
  obtain ⟨cs, -, hnul, rfl⟩ := stringValue_eq_some.1 h
  have hcheck : checkString cs = .ok () := if_neg hnul
  unfold writeString
  rw [String.toList_ofList, hcheck]
  exact ⟨_, rfl⟩

/-- the values of the items are values of trees in the array -/
theorem exists_of_mem_itemValues {ds : List Doc} {vs : List (Value F)} (h : itemValues ds = some vs) :
    ∀ v ∈ vs, ∃ d ∈ ds, docValue d = some v := by
  induction ds generalizing vs with
  | nil =>
    obtain rfl : [] = vs := Option.some.inj h
    exact fun _ hv => absurd hv List.not_mem_nil
  | cons d ds ih =>
    obtain ⟨v, vs, hv, hvs, rfl⟩ := itemValues_cons.1 h
    refine List.forall_mem_cons.2 ⟨⟨d, List.mem_cons_self, hv⟩, fun x hx => ?_⟩
    obtain ⟨d', hd', hx'⟩ := ih hvs x hx
    exact ⟨d', List.mem_cons_of_mem _ hd', hx'⟩

theorem exists_of_mem_memberValues {ms : List (List StrElem × Doc)} {entries : List (String × Value F)}
    (h : memberValues ms = some entries) :
    ∀ e ∈ entries, ∃ m ∈ ms, stringValue m.1 = some e.1 ∧ docValue m.2 = some e.2 := by
  induction ms generalizing entries with
  | nil =>
    obtain rfl : [] = entries := Option.some.inj h
    exact fun _ he => absurd he List.not_mem_nil
  | cons m ms ih =>
    obtain ⟨key, v, entries, hk, hv, hentries, rfl⟩ := memberValues_cons.1 h
    refine List.forall_mem_cons.2 ⟨⟨m, List.mem_cons_self, hk, hv⟩, fun x hx => ?_⟩
    obtain ⟨m', hm', hx'⟩ := ih hentries x hx
    exact ⟨m', List.mem_cons_of_mem _ hm', hx'⟩

/-- **Nothing parsed is refused.** The value of a tree that is not nested too deeply is written. -/
theorem writeValue_of_docValue {n : ℕ} {d : Doc} {v : Value F} (hfits : Fits n d) (h : docValue d = some v) :
    ∃ out, writeValue n v = .ok out := by
  induction n generalizing d v with
  | zero => exact absurd hfits (not_fits_zero d)
  | succ n ih =>
    cases d with
    | null =>
      obtain rfl : Value.null = v := Option.some.inj h
      exact ⟨_, rfl⟩
    | bool b =>
      obtain rfl : Value.bool b = v := Option.some.inj h
      cases b <;> exact ⟨_, rfl⟩
    | number t =>
      rw [docValue] at h
      obtain ⟨x, hx, rfl⟩ := Option.map_eq_some_iff.1 h
      exact numberText_of_tokenNumber hx
    | string es =>
      rw [docValue] at h
      obtain ⟨s, hs, rfl⟩ := Option.map_eq_some_iff.1 h
      exact writeString_of_stringValue hs
    | array items =>
      rw [docValue] at h
      obtain ⟨vs, hvs, rfl⟩ := Option.map_eq_some_iff.1 h
      obtain ⟨texts, htexts⟩ := Fallible.exists_mapM_eq_ok (f := writeValue n) (l := vs) fun v hv => by
        obtain ⟨d, hd, hdv⟩ := exists_of_mem_itemValues hvs v hv
        exact ih (fits_array.1 hfits d hd) hdv
      rw [writeValue, htexts]
      exact ⟨_, rfl⟩
    | object members =>
      rw [docValue] at h
      obtain ⟨entries, he, h⟩ := Option.bind_eq_some_iff.1 h
      split_ifs at h with hnodup
      cases h
      obtain ⟨texts, htexts⟩ := Fallible.exists_mapM_eq_ok (f := writeEntry (writeValue n))
          (l := sortEntries (SortedMap.insertAll [] entries)) fun e hmem => by
        have hmem' : e ∈ entries := by
          rw [sortEntries, List.mem_insertionSort] at hmem
          exact (SortedMap.mem_insertAll hmem).resolve_left List.not_mem_nil
        obtain ⟨m, hm, hk, hv⟩ := exists_of_mem_memberValues he e hmem'
        obtain ⟨key, hkey⟩ := writeString_of_stringValue hk
        obtain ⟨item, hitem⟩ := ih (fits_object.1 hfits m hm) hv
        exact ⟨_, writeEntry_eq_ok.2 ⟨key, item, hkey, hitem, rfl⟩⟩
      rw [writeValue, htexts]
      exact ⟨_, rfl⟩

theorem fits_iff_depthWithin {limit : ℕ} {d : Doc} : Fits (limit + 1) d ↔ DepthWithin limit d := by
  simp only [Fits, DepthWithin, Nat.lt_succ_iff]

/-- **The strict parser.** A text is accepted exactly when it is one JSON value, with whitespace around it, that has no
key twice in an object, no U+0000, no lone surrogate, only admitted numbers and no value inside more than `MAX_DEPTH`
containers; and what is accepted has a canonical encoding. -/
theorem parse_strict_grammar (F : Type) [F64 F] (text : String) :
    ((∃ v : Value F, parseStrict text = .ok v) ↔
      ∃ d, IsText text.toList d ∧ NoDuplicateKeys d ∧ NoNul d ∧ NoLoneSurrogate d ∧ NumbersAdmitted F d ∧
        DepthWithin MAX_DEPTH d) ∧
    ∀ v : Value F, parseStrict text = .ok v →
      ∃ out, canonicalize v = .ok out ∧ canonicalizeStr F text = .ok out := by
  refine ⟨⟨?_, ?_⟩, ?_⟩
  · rintro ⟨v, hv⟩
    obtain ⟨d, htext, hd, hfits⟩ := parseStrict_eq_ok.1 hv
    obtain ⟨hkeys, hnul, hsurr, hnum⟩ := restrictions_of_docValue (F := F) (d := d) (by simp [hd])
    exact ⟨d, htext, hkeys, hnul, hsurr, hnum, fits_iff_depthWithin.1 hfits⟩
  · rintro ⟨d, htext, hkeys, hnul, hsurr, hnum, hdepth⟩
    have hfits := fits_iff_depthWithin.2 hdepth
    obtain ⟨v, hv⟩ := Option.isSome_iff_exists.1 (docValue_of_restricted hfits ⟨hkeys, hnul, hsurr, hnum⟩)
    exact ⟨v, parseStrict_eq_ok.2 ⟨d, htext, hv, hfits⟩⟩
  · intro v hv
    obtain ⟨d, -, hd, hfits⟩ := parseStrict_eq_ok.1 hv
    obtain ⟨out, hout⟩ := writeValue_of_docValue hfits hd
    have hcanon : canonicalize v = .ok (String.ofList out) := by
      rw [canonicalize, hout]
      rfl
    refine ⟨String.ofList out, hcanon, ?_⟩
    rw [canonicalizeStr, hv]
    exact hcanon

example : parseStrict (F := Decimal) "[1.0]" = .error (.invalidNumber "1.0") := rfl

example : parseStrict (F := Decimal) " [7, -0.05, \x7b\x7d] " =
    .ok (.array [.number (.posInt 7), .number (.float ⟨true, 5, -2⟩), .object []]) := rfl

end Avalon.CanonicalPayload
