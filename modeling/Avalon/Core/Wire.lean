/-
Decoders that exactly invert an encoder, and adaptive sequences of typed reads.

A decoder reads a value off the front of a byte string and leaves the rest. `Inverts dec enc Valid` says that it reads
back every valid value in front of any rest, and that it accepts nothing but encodings of valid values: no other
spelling of a value is accepted. Encodings that are inverted in this sense are prefix-free (`Inverts.append_inj`).

- `Inverts.seq`: a decoder whose second part depends on what the first part read (a length, an algorithm tag).
- `Inverts.filterMap`: a partial conversion of the value read.
- `Program`: typed reads in order, where each value read may decide what is read next (a flag before an optional field).
  A program follows a list of fields when reading these fields takes it from start to end.
- `Program.inverts`: if every field kind has an inverting decoder, a program inverts the encodings of the field lists
  that it follows.
-/
import Mathlib.Tactic
import Avalon.Core.Bytes
import Avalon.Core.Fallible

namespace Wire

variable {ε α β : Type}

/-- reads a value off the front of the bytes, or fails -/
abbrev Decoder (ε α : Type) := StateT Bytes (Except ε) α

theorem bind_of_ok {x : Decoder ε α} {f : α → Decoder ε β} {bs mid : Bytes} {a : α} (h : x bs = .ok (a, mid)) :
    (x >>= f) bs = f a mid := by
  change x bs >>= (fun p => f p.1 p.2) = f a mid
  rw [h]
  rfl

theorem bind_eq_ok {x : Decoder ε α} {f : α → Decoder ε β} {bs rest : Bytes} {b : β} :
    (x >>= f) bs = .ok (b, rest) ↔ ∃ a mid, x bs = .ok (a, mid) ∧ f a mid = .ok (b, rest) := by
  change x bs >>= (fun p => f p.1 p.2) = .ok (b, rest) ↔ _
  rw [Fallible.bind_eq_ok, Prod.exists]

/-! ## Inverting decoders -/

/-- the decoder reads back every valid value in front of any rest, and accepts nothing else -/
structure Inverts (dec : Decoder ε α) (enc : α → Bytes) (Valid : α → Prop) : Prop where
  read : ∀ a, Valid a → ∀ rest, dec (enc a ++ rest) = .ok (a, rest)
  written : ∀ bs a rest, dec bs = .ok (a, rest) → Valid a ∧ bs = enc a ++ rest

namespace Inverts

variable {dec : Decoder ε α} {enc : α → Bytes} {Valid : α → Prop}

/-- an encoding in front of a rest determines both -/
theorem append_inj (h : Inverts dec enc Valid) {a b : α} {r s : Bytes} (ha : Valid a) (hb : Valid b)
    (he : enc a ++ r = enc b ++ s) : a = b ∧ r = s := by
  have hr := h.read a ha r
  rw [he, h.read b hb s] at hr
  cases hr
  exact ⟨rfl, rfl⟩

/-- only the encodings of valid values matter -/
theorem congr {enc' : α → Bytes} (h : Inverts dec enc Valid) (he : ∀ a, Valid a → enc a = enc' a) :
    Inverts dec enc' Valid where
  read a ha rest := by
    rw [← he a ha]
    exact h.read a ha rest
  written bs a rest hd := by
    obtain ⟨ha, hb⟩ := h.written bs a rest hd
    exact ⟨ha, by rw [hb, he a ha]⟩

/-- reading a part of the value first, then the rest of it under that part -/
theorem seq {decB : α → Decoder ε β} {encB : β → Bytes} {ValidB : β → Prop} (h : Inverts dec enc Valid)
    (part : β → α) (hpart : ∀ b, ValidB b → Valid (part b))
    (hB : ∀ a, Valid a → Inverts (decB a) encB fun b => ValidB b ∧ part b = a) :
    Inverts (dec >>= decB) (fun b => enc (part b) ++ encB b) ValidB where
  read b hb rest := by
    have hp := hpart b hb
    rw [List.append_assoc, bind_of_ok (h.read _ hp _)]
    exact (hB _ hp).read b ⟨hb, rfl⟩ rest
  written bs b rest hd := by
    obtain ⟨a, mid, ha, hb⟩ := bind_eq_ok.1 hd
    obtain ⟨hv, rfl⟩ := h.written _ _ _ ha
    obtain ⟨⟨hvb, rfl⟩, rfl⟩ := (hB a hv).written _ _ _ hb
    exact ⟨hvb, (List.append_assoc _ _ _).symm⟩

/-- a partial conversion of the value read -/
theorem filterMap {ValidB : β → Prop} {conv : α → Except ε β} (h : Inverts dec enc Valid) (back : β → α)
    (hback : ∀ b, ValidB b → Valid (back b) ∧ conv (back b) = .ok b)
    (hconv : ∀ a b, Valid a → conv a = .ok b → ValidB b ∧ back b = a) :
    Inverts (dec >>= fun a => StateT.lift (conv a)) (fun b => enc (back b)) ValidB where
  read b hb rest := by
    obtain ⟨hv, hc⟩ := hback b hb
    rw [bind_of_ok (h.read _ hv rest)]
    simp only [StateT.lift, hc]
    rfl
  written bs b rest hd := by
    obtain ⟨a, mid, ha, hb⟩ := bind_eq_ok.1 hd
    obtain ⟨hv, rfl⟩ := h.written _ _ _ ha
    obtain ⟨c, hc, hp⟩ := Fallible.bind_eq_ok.1 hb
    cases hp
    obtain ⟨hvb, rfl⟩ := hconv a _ hv hc
    exact ⟨hvb, rfl⟩

/-- a total conversion of the value read -/
theorem map {ValidB : β → Prop} {conv : α → β} (h : Inverts dec enc Valid) (back : β → α)
    (hback : ∀ b, ValidB b → Valid (back b) ∧ conv (back b) = b)
    (hconv : ∀ a, Valid a → ValidB (conv a) ∧ back (conv a) = a) :
    Inverts (dec >>= fun a => pure (conv a)) (fun b => enc (back b)) ValidB where
  read b hb rest := by
    obtain ⟨hv, hc⟩ := hback b hb
    rw [bind_of_ok (h.read _ hv rest), hc]
    rfl
  written bs b rest hd := by
    obtain ⟨a, mid, ha, hb⟩ := bind_eq_ok.1 hd
    obtain ⟨hv, rfl⟩ := h.written _ _ _ ha
    cases hb
    obtain ⟨hvb, hba⟩ := hconv a hv
    exact ⟨hvb, by rw [hba]⟩

end Inverts

/-! ## Programs of typed reads -/

section Programs

variable {K : Type} {Value : K → Type}

/-- typed reads in order; what is read next may depend on the values read so far -/
inductive Program (Value : K → Type) where
  | done
  | read (k : K) (next : Value k → Program Value)

namespace Program

/-- the fields read, in order -/
def run (dec : ∀ k, Decoder ε (Value k)) : Program Value → Decoder ε (List (Σ k, Value k))
  | .done => pure []
  | .read k next => do
    let v ← dec k
    let fs ← run dec (next v)
    return ⟨k, v⟩ :: fs

/-- reading the fields takes the program from start to end -/
inductive Follows : Program Value → List (Σ k, Value k) → Prop where
  | done : Follows .done []
  | read {k : K} {next : Value k → Program Value} {v : Value k} {fs : List (Σ k, Value k)} (h : Follows (next v) fs) :
      Follows (.read k next) (⟨k, v⟩ :: fs)

/-- reads of fixed kinds, whatever the values are, then the rest of the program -/
def readKinds (ks : List K) (next : Program Value) : Program Value := ks.foldr (fun k p => .read k fun _ => p) next

theorem readKinds_follows {ks : List K} {fs : List (Σ k, Value k)} (hk : fs.map Sigma.fst = ks) {next : Program Value}
    {rest : List (Σ k, Value k)} (h : next.Follows rest) : (readKinds ks next).Follows (fs ++ rest) := by
  subst hk
  induction fs with
  | nil => exact h
  | cons f fs ih => exact .read ih

/-- reads of fixed kinds and nothing more -/
theorem readKinds_done_follows {ks : List K} {fs : List (Σ k, Value k)} (hk : fs.map Sigma.fst = ks) :
    (readKinds ks .done).Follows fs := by
  simpa using readKinds_follows hk Follows.done

variable {dec : ∀ k, Decoder ε (Value k)} {enc : ∀ k, Value k → Bytes} {Valid : ∀ k, Value k → Prop}

/-- **Programs invert.** When each kind's decoder inverts its encoder, running a program inverts the concatenated
encodings of the field lists the program follows. -/
theorem inverts (h : ∀ k, Inverts (dec k) (enc k) (Valid k)) (p : Program Value) :
    Inverts (p.run dec) (fun fs => fs.flatMap fun f => enc f.1 f.2) fun fs => p.Follows fs ∧ ∀ f ∈ fs, Valid f.1 f.2 := by
  induction p with
  | done =>
    constructor
    · rintro fs ⟨hf, -⟩ rest
      cases hf
      rfl
    · intro bs fs rest hd
      cases hd
      exact ⟨⟨.done, by simp⟩, rfl⟩
  | read k next ih =>
    constructor
    · rintro fs ⟨hf, hv⟩ rest
      cases hf with
      | @read _ _ v fs hf =>
        rw [List.forall_mem_cons] at hv
        rw [List.flatMap_cons, List.append_assoc, run, bind_of_ok ((h k).read v hv.1 _),
          bind_of_ok ((ih v).read fs ⟨hf, hv.2⟩ rest)]
        rfl
    · intro bs fs rest hd
      obtain ⟨v, mid, hv, hd⟩ := bind_eq_ok.1 hd
      obtain ⟨fs', mid', hfs, hd⟩ := bind_eq_ok.1 hd
      cases hd
      obtain ⟨hvalid, rfl⟩ := (h k).written _ _ _ hv
      obtain ⟨⟨hf, hvs⟩, rfl⟩ := (ih v).written _ _ _ hfs
      refine ⟨⟨.read hf, List.forall_mem_cons.2 ⟨hvalid, hvs⟩⟩, ?_⟩
      rw [List.flatMap_cons, List.append_assoc]

end Program

end Programs

end Wire
