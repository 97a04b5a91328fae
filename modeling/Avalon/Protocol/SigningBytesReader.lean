/-
Reading structured signing bytes back (`crates/protocol/src/signing_bytes.rs`, `ByteCursor` and `Reader`).

- `ByteCursor` reads over the bytes not read yet; a reader's tag and versions never change, so its typed reads are reads
  of its cursor.
- `Field` is a typed field, `Builder.write` and `Reader.read` are the builder's and the reader's call for its kind.
- A reading caller is a `Wire.Program`: typed reads in order, each value deciding what is read next, so optional fields
  behind a flag byte are covered.

Results:
- `Reader.read_inverts`, `ByteCursor.extensions_inverts`: every typed read and the extensions region invert what the
  builder writes, in front of any rest, and accept no other spelling.
- `finish_eq_ok_iff`: the messages a builder finishes.
- `signing_bytes_round_trip`: reading a finished message returns the written fields and extensions, and a message that
  is read to its end is rebuilt byte for byte from what was read.
-/
import Mathlib.Tactic
import Avalon.Core.Wire
import Avalon.Protocol.SigningBytes

namespace Avalon.SigningBytes

open Wire

/-! ## Cursor -/

/-- reads over the bytes not read yet -/
abbrev ByteCursor (α : Type) := Decoder SigningBytesError α

namespace ByteCursor

def take (len : ℕ) : ByteCursor Bytes := fun rest =>
  if rest.length < len then .error .truncated else .ok (rest.take len, rest.drop len)

def takeArray (n : ℕ) : ByteCursor (FixedBytes n) := fun rest =>
  if h : rest.length < n then .error .truncated else .ok (⟨rest.take n, by simp; omega⟩, rest.drop n)

/-- the next byte -/
def u8 : ByteCursor UInt8 := do
  return (← takeArray 1).head

/-- `u16::from_be_bytes` of the next two bytes -/
def u16 : ByteCursor UInt16 := do
  return UInt16.ofNat (beNat (← takeArray 2).toList)

/-- `u32::from_be_bytes` of the next four bytes -/
def u32 : ByteCursor UInt32 := do
  return UInt32.ofNat (beNat (← takeArray 4).toList)

/-- one entry after its type: flags, length, value; the running size is checked before the value is taken -/
def entryBody (max total : ℕ) (extType : UInt16) : ByteCursor Extension := do
  let flags ← u8
  if flags &&& ~~~criticalFlag ≠ 0 then throw (.extensionReservedFlags flags)
  else
    let len ← u32
    if total + (extensionEntryHeader + len.toNat) > max then throw .extensionsTooLarge
    else
      let value ← take len.toNat
      return ⟨extType, flags &&& criticalFlag ≠ 0, value⟩

/-- the loop over the declared number of entries -/
def entryLoop (max : ℕ) : ℕ → ℕ → ByteCursor (List Extension)
  | 0, _ => pure []
  | count + 1, total => do
    let e ← u16 >>= entryBody max total
    let rest ← entryLoop max count (total + (extensionEntryHeader + e.value.length))
    return e :: rest

def extensions (rulesVersion : UInt32) : ByteCursor Extensions := do
  let count ← u16
  let entries ← entryLoop (capsFor rulesVersion).maxExtensionBytes count.toNat 0
  StateT.lift (Extensions.new entries rulesVersion)

end ByteCursor

/-- parses a whole region; bytes after the last entry are an error -/
def Extensions.decode (bytes : Bytes) (rulesVersion : UInt32) : Except SigningBytesError Extensions := do
  let (x, rest) ← ByteCursor.extensions rulesVersion bytes
  if rest.isEmpty then .ok x else .error .trailingBytes

/-! ## Stored envelopes -/

/-- rebuilds an envelope from stored or received values, checking every part -/
def Envelope.fromParts (tag : DomainTag) (layoutVersion : UInt16) (rulesVersion : UInt32) (hashAlgo : UInt8)
    (extensions : Bytes) : Except SigningBytesError Envelope := do
  checkLayout tag layoutVersion
  checkRules rulesVersion
  let extensions ← Extensions.decode extensions rulesVersion
  extensions.requireUnderstood tag
  let hashAlgo ← HashAlgo.fromId hashAlgo
  return ⟨layoutVersion, rulesVersion, hashAlgo, extensions⟩

/-- an envelope as plain integers and hex -/
structure EnvelopeWire where
  layoutVersion : UInt16
  rulesVersion : UInt32
  hashAlgo : UInt8
  extensions : String
deriving DecidableEq, Repr

/-- lowercase hex of whole bytes -/
def decodeLowerHex (text : String) : Except SigningBytesError Bytes :=
  if (utf8 text).any fun b => 0x41 ≤ b && b ≤ 0x5a then .error .invalidHex
  else
    match hexDecode text with
    | some bytes => .ok bytes
    | none => .error .invalidHex

namespace EnvelopeWire

def ofEnvelope (envelope : Envelope) : EnvelopeWire :=
  ⟨envelope.layoutVersion, envelope.rulesVersion, envelope.hashAlgo.id, hexEncode envelope.extensions.encode⟩

def toEnvelope (wire : EnvelopeWire) (tag : DomainTag) : Except SigningBytesError Envelope := do
  let extensions ← decodeLowerHex wire.extensions
  Envelope.fromParts tag wire.layoutVersion wire.rulesVersion wire.hashAlgo extensions

end EnvelopeWire

/-! ## Reader -/

structure Reader where
  tag : DomainTag
  cur : Bytes
  layoutVersion : UInt16
  rulesVersion : UInt32

namespace Reader

open ByteCursor

/-- checks the tag, then the layout and rules versions -/
def new (tag : DomainTag) (message : Bytes) : Except SigningBytesError Reader :=
  match message.dropPrefix? (utf8 tag.asStr) with
  | none => .error .tagMismatch
  | some rest => do
    let (layoutVersion, rest) ← ByteCursor.u16 rest
    checkLayout tag layoutVersion
    let (rulesVersion, rest) ← ByteCursor.u32 rest
    checkRules rulesVersion
    return ⟨tag, rest, layoutVersion, rulesVersion⟩

def bytes : ByteCursor Bytes := do
  let len ← ByteCursor.u32
  take len.toNat

def str : ByteCursor String := do
  let value ← bytes
  StateT.lift (match ofUtf8? value with
    | some s => .ok s
    | none => .error .invalidUtf8)

def fixed (n : ℕ) : ByteCursor (FixedBytes n) := takeArray n

def u8 : ByteCursor UInt8 := ByteCursor.u8

def u16 : ByteCursor UInt16 := ByteCursor.u16

def u32 : ByteCursor UInt32 := ByteCursor.u32

def u64 : ByteCursor UInt64 := do
  return UInt64.ofNat (beNat (← takeArray 8).toList)

def i64 : ByteCursor Int64 := do
  return (UInt64.ofNat (beNat (← takeArray 8).toList)).toInt64

/-- the algorithm tag of a key or signature, which must be known -/
def sigAlgo : ByteCursor SigAlgo := do
  let i ← ByteCursor.u8
  StateT.lift (SigAlgo.fromId i)

def key : ByteCursor (FixedBytes 32) := do
  let _ ← sigAlgo
  takeArray 32

def signature : ByteCursor (FixedBytes 64) := do
  let _ ← sigAlgo
  takeArray 64

def hash : ByteCursor (FixedBytes 32) := takeArray 32

def hashAlgo : ByteCursor HashAlgo := do
  let i ← ByteCursor.u8
  StateT.lift (HashAlgo.fromId i)

def uuid : ByteCursor (FixedBytes 16) := takeArray 16

/-- the extensions region, which must be all that remains -/
def finish (r : Reader) : Except SigningBytesError Extensions := do
  let (x, rest) ← ByteCursor.extensions r.rulesVersion r.cur
  if rest.isEmpty then
    x.requireUnderstood r.tag
    return x
  else throw .trailingBytes

end Reader

/-! ## Typed fields -/

inductive FieldKind where
  | bytes
  | str
  | fixed (n : ℕ)
  | key
  | signature
  | hash
  | hashAlgo
  | uuid
  | u8
  | u16
  | u32
  | u64
  | i64
deriving DecidableEq, Repr

namespace FieldKind

abbrev Value : FieldKind → Type
  | .bytes => Bytes
  | .str => String
  | .fixed n => FixedBytes n
  | .key => FixedBytes 32
  | .signature => FixedBytes 64
  | .hash => FixedBytes 32
  | .hashAlgo => HashAlgo
  | .uuid => FixedBytes 16
  | .u8 => UInt8
  | .u16 => UInt16
  | .u32 => UInt32
  | .u64 => UInt64
  | .i64 => Int64

/-- the bytes a field of the kind is written as -/
def encode : (k : FieldKind) → k.Value → Bytes
  | .bytes, (v : Bytes) => beBytes 4 v.length ++ v
  | .str, (v : String) => beBytes 4 (utf8 v).length ++ utf8 v
  | .fixed _, v => List.Vector.toList v
  | .key, v => SigAlgo.ed25519.id :: List.Vector.toList v
  | .signature, v => SigAlgo.ed25519.id :: List.Vector.toList v
  | .hash, v => List.Vector.toList v
  | .hashAlgo, v => [HashAlgo.id v]
  | .uuid, v => List.Vector.toList v
  | .u8, v => [v]
  | .u16, v => beBytes 2 (UInt16.toNat v)
  | .u32, v => beBytes 4 (UInt32.toNat v)
  | .u64, v => beBytes 8 (UInt64.toNat v)
  | .i64, v => beBytes 8 (Int64.toUInt64 v).toNat

/-- the lengths a 32-bit prefix holds -/
def Fits : (k : FieldKind) → k.Value → Prop
  | .bytes, (v : Bytes) => v.length < 2 ^ 32
  | .str, (v : String) => (utf8 v).length < 2 ^ 32
  | _, _ => True

end FieldKind

/-- a typed field -/
abbrev Field := Σ k : FieldKind, k.Value

def Builder.write (b : Builder) : Field → Builder
  | ⟨.bytes, v⟩ => b.bytes v
  | ⟨.str, v⟩ => b.str v
  | ⟨.fixed _, v⟩ => b.fixed v
  | ⟨.key, v⟩ => b.key v
  | ⟨.signature, v⟩ => b.signature v
  | ⟨.hash, v⟩ => b.hash v
  | ⟨.hashAlgo, v⟩ => b.hashAlgo v
  | ⟨.uuid, v⟩ => b.uuid v
  | ⟨.u8, v⟩ => b.u8 v
  | ⟨.u16, v⟩ => b.u16 v
  | ⟨.u32, v⟩ => b.u32 v
  | ⟨.u64, v⟩ => b.u64 v
  | ⟨.i64, v⟩ => b.i64 v

def Reader.read : (k : FieldKind) → ByteCursor k.Value
  | .bytes => Reader.bytes
  | .str => Reader.str
  | .fixed n => Reader.fixed n
  | .key => Reader.key
  | .signature => Reader.signature
  | .hash => Reader.hash
  | .hashAlgo => Reader.hashAlgo
  | .uuid => Reader.uuid
  | .u8 => Reader.u8
  | .u16 => Reader.u16
  | .u32 => Reader.u32
  | .u64 => Reader.u64
  | .i64 => Reader.i64

/-! ## Each read inverts its write -/

namespace ByteCursor

theorem take_inverts (len : ℕ) : Inverts (take len) id fun v => v.length = len where
  read v hv rest := by
    subst hv
    simp [take]
  written bs v rest h := by
    simp only [take] at h
    split_ifs at h with hlen
    cases h
    exact ⟨by simp; omega, (List.take_append_drop len bs).symm⟩

theorem takeArray_inverts (n : ℕ) : Inverts (takeArray n) List.Vector.toList fun _ => True where
  read v _ rest := by
    have hv : v.toList.length = n := v.toList_length
    have hlen : ¬ (v.toList ++ rest).length < n := by simp
    simp only [takeArray, dif_neg hlen]
    congr 2
    · apply FixedBytes.toList_inj
      exact List.take_left' hv
    · exact List.drop_left' hv
  written bs v rest h := by
    simp only [takeArray] at h
    split_ifs at h with hlen
    cases h
    exact ⟨trivial, (List.take_append_drop n bs).symm⟩

/-- an unsigned integer of w bytes, whatever type holds it -/
theorem uint_inverts {β : Type} (w : ℕ) (ofNat : ℕ → β) (toNat : β → ℕ) (hlt : ∀ b, toNat b < 256 ^ w)
    (hof : ∀ b, ofNat (toNat b) = b) (hto : ∀ n < 256 ^ w, toNat (ofNat n) = n) :
    Inverts (takeArray w >>= fun a => pure (ofNat (beNat a.toList)) : ByteCursor β)
      (fun b => beBytes w (toNat b)) fun _ => True := by
  apply (takeArray_inverts w).map fun b => ⟨beBytes w (toNat b), beBytes_length _ _⟩
  · intro b _
    refine ⟨trivial, ?_⟩
    change ofNat (beNat (beBytes w (toNat b))) = b
    rw [beNat_beBytes, Nat.mod_eq_of_lt (hlt b), hof]
  · intro a _
    refine ⟨trivial, ?_⟩
    apply FixedBytes.toList_inj
    obtain ⟨l, rfl⟩ := a
    change beBytes l.length (toNat (ofNat (beNat l))) = l
    rw [hto _ (beNat_lt l), beBytes_beNat]

theorem u8_inverts : Inverts ByteCursor.u8 (fun v => [v]) fun _ => True := by
  apply (takeArray_inverts 1).map fun v => ⟨[v], rfl⟩
  · intro v _
    exact ⟨trivial, rfl⟩
  · intro a _
    obtain ⟨b, rfl⟩ : ∃ b, a = ⟨[b], rfl⟩ := ⟨a.head, by
      obtain ⟨l, hl⟩ := a
      obtain ⟨b, rfl⟩ := List.length_eq_one_iff.1 hl
      rfl⟩
    exact ⟨trivial, rfl⟩

theorem u16_inverts : Inverts ByteCursor.u16 (fun v => beBytes 2 v.toNat) fun _ => True :=
  uint_inverts 2 UInt16.ofNat UInt16.toNat (fun v => v.toNat_lt) (fun _ => UInt16.ofNat_toNat)
    (fun _ h => UInt16.toNat_ofNat_of_lt' h)

theorem u32_inverts : Inverts ByteCursor.u32 (fun v => beBytes 4 v.toNat) fun _ => True :=
  uint_inverts 4 UInt32.ofNat UInt32.toNat (fun v => v.toNat_lt) (fun _ => UInt32.ofNat_toNat)
    (fun _ h => UInt32.toNat_ofNat_of_lt' h)

/-- length-prefixed bytes -/
theorem prefixed_inverts : Inverts (ByteCursor.u32 >>= fun len => take len.toNat)
    (fun v => beBytes 4 v.length ++ v) fun v => v.length < 2 ^ 32 := by
  have hbody (len : UInt32) (_ : True) : Inverts (take len.toNat) id fun v : Bytes =>
      v.length < 2 ^ 32 ∧ UInt32.ofNat v.length = len := by
    have ht := take_inverts len.toNat
    constructor
    · rintro v ⟨hv, rfl⟩ rest
      exact ht.read v (UInt32.toNat_ofNat_of_lt' hv).symm rest
    · intro bs v rest hd
      obtain ⟨hv, hb⟩ := ht.written bs v rest hd
      refine ⟨⟨?_, ?_⟩, hb⟩
      · rw [hv]
        exact len.toNat_lt
      · rw [hv, UInt32.ofNat_toNat]
  have h := u32_inverts.seq (fun v : Bytes => UInt32.ofNat v.length) (fun _ _ => trivial) hbody
  apply h.congr
  intro v hv
  change beBytes 4 (UInt32.ofNat v.length).toNat ++ v = _
  rw [UInt32.toNat_ofNat_of_lt' hv]

end ByteCursor

/-! ## The extensions region -/

/-- the flag byte of an entry -/
def Extension.flags (e : Extension) : UInt8 := if e.critical then criticalFlag else 0

/-- one entry of the region -/
def Extension.encode (e : Extension) : Bytes :=
  beBytes 2 e.extType.toNat ++ ([e.flags] ++ (beBytes 4 e.value.length ++ e.value))

theorem Extensions.encode_eq (x : Extensions) :
    x.encode = beBytes 2 x.entries.length ++ x.entries.flatMap Extension.encode := rfl

theorem Extension.flags_and (e : Extension) :
    e.flags &&& ~~~criticalFlag = 0 ∧ decide (e.flags &&& criticalFlag ≠ 0) = e.critical := by
  cases h : e.critical <;> simp only [flags, h] <;> decide

/-- without reserved bits a flag byte is written in one way -/
theorem flags_cases (f : UInt8) (h : f &&& ~~~criticalFlag = 0) : f = 0 ∨ f = criticalFlag := by
  have key : ∀ b : BitVec 8, b &&& ~~~1#8 = 0#8 → b = 0#8 ∨ b = 1#8 := by decide
  have hb : f.toBitVec &&& ~~~1#8 = 0#8 := congrArg UInt8.toBitVec h
  rcases key _ hb with h | h
  · exact Or.inl (UInt8.toBitVec_inj.1 h)
  · exact Or.inr (UInt8.toBitVec_inj.1 h)

theorem flags_of_decoded (f : UInt8) (h : f &&& ~~~criticalFlag = 0) (t : UInt16) (v : Bytes) :
    Extension.flags ⟨t, decide (f &&& criticalFlag ≠ 0), v⟩ = f := by
  rcases flags_cases f h with rfl | rfl <;> rfl

namespace ByteCursor

theorem entryBody_inverts (max total : ℕ) (t : UInt16) : Inverts (entryBody max total t)
    (fun e => [e.flags] ++ (beBytes 4 e.value.length ++ e.value))
    fun e => (e.value.length < 2 ^ 32 ∧ total + (extensionEntryHeader + e.value.length) ≤ max) ∧ e.extType = t where
  read := by
    rintro e ⟨⟨hlen, hmax⟩, rfl⟩ rest
    have hto : (UInt32.ofNat e.value.length).toNat = e.value.length := UInt32.toNat_ofNat_of_lt' hlen
    have hflags := u8_inverts.read e.flags trivial (beBytes 4 e.value.length ++ (e.value ++ rest))
    have hu := u32_inverts.read (UInt32.ofNat e.value.length) trivial (e.value ++ rest)
    have hv : take e.value.length (e.value ++ rest) = .ok (e.value, rest) :=
      (take_inverts e.value.length).read e.value rfl rest
    rw [hto] at hu
    rw [List.append_assoc, List.append_assoc, entryBody, bind_of_ok hflags, if_neg (not_not.2 e.flags_and.1),
      bind_of_ok hu, hto, if_neg (Nat.not_lt.2 hmax), bind_of_ok hv, e.flags_and.2]
    rfl
  written := by
    intro bs e rest h
    obtain ⟨flags, m1, h1, h⟩ := bind_eq_ok.1 h
    split_ifs at h with hres
    · cases h
    obtain ⟨len, m2, h2, h⟩ := bind_eq_ok.1 h
    split_ifs at h with hmax
    · cases h
    obtain ⟨v, m3, h3, h⟩ := bind_eq_ok.1 h
    cases h
    obtain ⟨-, rfl⟩ := u8_inverts.written _ _ _ h1
    obtain ⟨-, rfl⟩ := u32_inverts.written _ _ _ h2
    obtain ⟨hv, rfl⟩ := (take_inverts _).written _ _ _ h3
    refine ⟨⟨⟨?_, ?_⟩, rfl⟩, ?_⟩
    · rw [hv]
      exact len.toNat_lt
    · rw [hv]
      exact Nat.not_lt.1 hmax
    · rw [flags_of_decoded flags (not_not.1 hres), hv, List.append_assoc, List.append_assoc]
      rfl

theorem entry_inverts (max total : ℕ) : Inverts (ByteCursor.u16 >>= entryBody max total) Extension.encode
    fun e => e.value.length < 2 ^ 32 ∧ total + (extensionEntryHeader + e.value.length) ≤ max :=
  u16_inverts.seq Extension.extType (fun _ _ => trivial) fun t _ => entryBody_inverts max total t

/-- the loop, from a running size within the cap -/
theorem entryLoop_inverts (max count total : ℕ) (ht : total ≤ max) : Inverts (entryLoop max count total)
    (fun es => es.flatMap Extension.encode)
    fun es => es.length = count ∧ total + entriesSize es ≤ max ∧ ∀ e ∈ es, e.value.length < 2 ^ 32 := by
  induction count generalizing total with
  | zero =>
    constructor
    · rintro es ⟨hlen, -⟩ rest
      obtain rfl := List.eq_nil_of_length_eq_zero hlen
      rfl
    · intro bs es rest h
      cases h
      exact ⟨⟨rfl, by simpa [entriesSize] using ht, by simp⟩, rfl⟩
  | succ count ih =>
    constructor
    · rintro es ⟨hlen, hsize, hlt⟩ rest
      obtain ⟨e, es, rfl⟩ := List.exists_cons_of_length_eq_add_one hlen
      rw [List.forall_mem_cons] at hlt
      simp only [entriesSize, List.map_cons, List.sum_cons, ← Nat.add_assoc] at hsize
      have he : total + (extensionEntryHeader + e.value.length) ≤ max := by omega
      have hsize' : total + (extensionEntryHeader + e.value.length) + entriesSize es ≤ max := by
        simpa only [entriesSize, ← Nat.add_assoc] using hsize
      rw [List.flatMap_cons, List.append_assoc, entryLoop, bind_of_ok ((entry_inverts max total).read e ⟨hlt.1, he⟩ _),
        bind_of_ok ((ih _ he).read es ⟨by simpa using hlen, hsize', hlt.2⟩ rest)]
      rfl
    · intro bs es rest h
      obtain ⟨e, m1, he, h⟩ := bind_eq_ok.1 h
      obtain ⟨es', m2, hes, h⟩ := bind_eq_ok.1 h
      cases h
      obtain ⟨⟨hlt, hmax⟩, rfl⟩ := (entry_inverts max total).written _ _ _ he
      obtain ⟨⟨hlen, hsize, hlts⟩, rfl⟩ := (ih _ hmax).written _ _ _ hes
      refine ⟨⟨by simp [hlen], ?_, List.forall_mem_cons.2 ⟨hlt, hlts⟩⟩, ?_⟩
      · simpa only [entriesSize, List.map_cons, List.sum_cons, ← Nat.add_assoc] using hsize
      · rw [List.flatMap_cons, List.append_assoc]

end ByteCursor

theorem maxExtensionBytes_lt (v : UInt32) : (capsFor v).maxExtensionBytes < 2 ^ 16 := by
  have key : ∀ row ∈ capsTable, row.2.maxExtensionBytes < 2 ^ 16 := by decide
  apply key
  have hrow := Option.some_get (x := (capsTable.reverse.find? fun row => decide (row.1 ≤ v)).or capsTable.head?)
    (by simp [capsTable])
  rcases Option.or_eq_some_iff.1 hrow.symm with h | ⟨-, h⟩
  · exact List.mem_reverse.1 (List.mem_of_find?_eq_some h)
  · exact List.mem_of_mem_head? h

namespace Extensions

theorem length_le_of_mem {es : List Extension} {e : Extension} (h : e ∈ es) : e.value.length ≤ entriesSize es := by
  have := List.le_sum_of_mem (List.mem_map_of_mem (f := fun e : Extension => extensionEntryHeader + e.value.length) h)
  exact (Nat.le_add_left _ _).trans this

/-- what `new` accepts, and that it keeps the entries -/
theorem new_eq_ok_iff {es : List Extension} {v : UInt32} {x : Extensions} :
    Extensions.new es v = .ok x ↔ x.entries = es ∧ checkSize (capsFor v).maxExtensionBytes 0 es = .ok () ∧
      es.length ≤ 65535 ∧ checkOrder es = .ok () := by
  unfold Extensions.new
  constructor
  · intro h
    split at h
    · cases h
    split_ifs at h with hlen
    split at h
    · cases h
    cases h
    exact ⟨rfl, ‹_›, Nat.not_lt.1 hlen, ‹_›⟩
  · rintro ⟨rfl, hs, hlen, ho⟩
    split
    · rename_i h
      rw [hs] at h
      cases h
    rw [if_neg (Nat.not_lt.2 hlen)]
    split
    · rename_i h
      rw [ho] at h
      cases h
    rfl

theorem size_of_new {es : List Extension} {v : UInt32} {x : Extensions} (h : Extensions.new es v = .ok x) :
    entriesSize es ≤ (capsFor v).maxExtensionBytes := by
  obtain ⟨-, hs, -⟩ := new_eq_ok_iff.1 h
  simpa using size_le_of_checkSize hs (Nat.zero_le _)

end Extensions

/-- **The region inverts**: the reader's region is the encoding of extensions valid for the rules version -/
theorem ByteCursor.extensions_inverts (v : UInt32) : Inverts (ByteCursor.extensions v) Extensions.encode
    fun x => Extensions.new x.entries v = .ok x where
  read x hx rest := by
    obtain ⟨-, hs, hlen, -⟩ := Extensions.new_eq_ok_iff.1 hx
    have hsize := Extensions.size_of_new hx
    have hlt : ∀ e ∈ x.entries, e.value.length < 2 ^ 32 := by
      intro e he
      have h1 := Extensions.length_le_of_mem he
      have h2 := maxExtensionBytes_lt v
      omega
    have hto : (UInt16.ofNat x.entries.length).toNat = x.entries.length := UInt16.toNat_ofNat_of_lt' (Nat.lt_succ_of_le hlen)
    have hcount := u16_inverts.read (UInt16.ofNat x.entries.length) trivial
      (x.entries.flatMap Extension.encode ++ rest)
    have hloop := (entryLoop_inverts _ x.entries.length 0 (Nat.zero_le _)).read x.entries
      ⟨rfl, by simpa using hsize, hlt⟩ rest
    rw [hto] at hcount
    rw [Extensions.encode_eq, List.append_assoc, ByteCursor.extensions, bind_of_ok hcount, hto, bind_of_ok hloop,
      StateT.lift, hx]
    rfl
  written bs x rest h := by
    obtain ⟨count, m1, h1, h⟩ := bind_eq_ok.1 h
    obtain ⟨es, m2, h2, h⟩ := bind_eq_ok.1 h
    obtain ⟨y, hy, h⟩ := Fallible.bind_eq_ok.1 h
    cases h
    obtain ⟨-, rfl⟩ := u16_inverts.written _ _ _ h1
    obtain ⟨⟨hlen, -⟩, rfl⟩ := (entryLoop_inverts _ _ _ (Nat.zero_le _)).written _ _ _ h2
    obtain ⟨rfl, -⟩ := Extensions.new_eq_ok_iff.1 hy
    exact ⟨hy, by rw [Extensions.encode_eq, hlen, List.append_assoc]⟩

/-! ## Envelopes come back -/

/-- hexadecimal text has no capitals, and is read back -/
theorem decodeLowerHex_hexEncode (bytes : Bytes) : decodeLowerHex (hexEncode bytes) = .ok bytes := by
  have hlower : ((utf8 (hexEncode bytes)).any fun b => 0x41 ≤ b && b ≤ 0x5a) = false := by
    rw [List.any_eq_false, utf8_hexEncode]
    intro b hb
    obtain ⟨x, -, hx⟩ := List.mem_flatMap.1 hb
    have hx256 : x.toNat < 256 := x.toNat_lt
    have hdigit : ∀ n < 16, ¬ (decide (0x41 ≤ hexByte n) && decide (hexByte n ≤ 0x5a)) = true := by decide
    rcases List.mem_cons.1 hx with rfl | hx
    · exact hdigit _ (by omega)
    · rw [List.mem_singleton.1 hx]
      exact hdigit _ (by omega)
  unfold decodeLowerHex
  rw [hlower, hexDecode_hexEncode]
  rfl

namespace Extensions

theorem entriesSize_lt (x : Extensions) : entriesSize x.entries < 2 ^ 16 := by
  obtain ⟨v, hv⟩ := x.fits
  exact hv.trans_lt (maxExtensionBytes_lt v)

theorem length_le_entriesSize (es : List Extension) : es.length ≤ entriesSize es := by
  induction es with
  | nil => exact Nat.zero_le _
  | cons e es ih =>
    simp only [entriesSize, List.map_cons, List.sum_cons, List.length_cons, extensionEntryHeader] at ih ⊢
    omega

/-- every region is within the cap of some rules version, so its bytes determine it -/
theorem encode_inj {x y : Extensions} (h : x.encode = y.encode) : x = y := by
  have hvalid : ∀ z : Extensions, 0 + entriesSize z.entries ≤ 2 ^ 16 ∧ ∀ e ∈ z.entries, e.value.length < 2 ^ 32 := by
    intro z
    have hz := z.entriesSize_lt
    refine ⟨by omega, ?_⟩
    intro e he
    have := length_le_of_mem he
    omega
  have hcount : ∀ z : Extensions, z.entries.length < 256 ^ 2 := fun z =>
    (length_le_entriesSize z.entries).trans_lt z.entriesSize_lt
  obtain ⟨h1, h2⟩ := List.append_inj h (by rw [beBytes_length, beBytes_length])
  have hlen := congrArg beNat h1
  rw [beNat_beBytes, beNat_beBytes, Nat.mod_eq_of_lt (hcount x), Nat.mod_eq_of_lt (hcount y)] at hlen
  have hi := ByteCursor.entryLoop_inverts (2 ^ 16) x.entries.length 0 (Nat.zero_le _)
  have he : x.entries.flatMap Extension.encode ++ [] = y.entries.flatMap Extension.encode ++ [] := by
    rw [List.append_nil, List.append_nil]
    exact h2
  exact Extensions.ext (hi.append_inj ⟨rfl, hvalid x⟩ ⟨hlen.symm, hvalid y⟩ he).1

end Extensions

/-- the only bytes of extensions are their encoding -/
theorem Extensions.eq_encode_of_decode {bytes : Bytes} {x : Extensions} {v : UInt32}
    (h : Extensions.decode bytes v = .ok x) : bytes = x.encode := by
  rw [Extensions.decode] at h
  obtain ⟨⟨z, rest⟩, hz, h⟩ := Fallible.bind_eq_ok.1 h
  dsimp only at h
  split_ifs at h with hrest
  cases h
  obtain ⟨-, hb⟩ := (ByteCursor.extensions_inverts v).written _ _ _ hz
  rwa [List.isEmpty_iff.1 hrest, List.append_nil] at hb

/-- what an envelope is read from -/
theorem Envelope.fromParts_eq_ok {tag : DomainTag} {layoutVersion : UInt16} {rulesVersion : UInt32} {algo : UInt8}
    {extensions : Bytes} {env : Envelope} (h : Envelope.fromParts tag layoutVersion rulesVersion algo extensions = .ok env) :
    env.layoutVersion = layoutVersion ∧ env.rulesVersion = rulesVersion ∧ HashAlgo.fromId algo = .ok env.hashAlgo ∧
      extensions = env.extensions.encode := by
  rw [Envelope.fromParts] at h
  obtain ⟨⟨⟩, -, h⟩ := Fallible.bind_eq_ok.1 h
  obtain ⟨⟨⟩, -, h⟩ := Fallible.bind_eq_ok.1 h
  obtain ⟨x, hx, h⟩ := Fallible.bind_eq_ok.1 h
  obtain ⟨⟨⟩, -, h⟩ := Fallible.bind_eq_ok.1 h
  obtain ⟨a, ha, h⟩ := Fallible.bind_eq_ok.1 h
  cases h
  exact ⟨rfl, rfl, ha, Extensions.eq_encode_of_decode hx⟩

/-- a stored envelope that is read back is the one that was stored -/
theorem EnvelopeWire.toEnvelope_ofEnvelope {env env' : Envelope} {tag : DomainTag}
    (h : (EnvelopeWire.ofEnvelope env).toEnvelope tag = .ok env') : env' = env := by
  rw [EnvelopeWire.toEnvelope] at h
  obtain ⟨bs, hbs, h⟩ := Fallible.bind_eq_ok.1 h
  obtain rfl := Except.ok.inj ((decodeLowerHex_hexEncode _).symm.trans hbs)
  obtain ⟨hl, hr, -, hx⟩ := Envelope.fromParts_eq_ok h
  exact Envelope.ext hl hr rfl (Extensions.encode_inj hx).symm

namespace Reader

open ByteCursor

theorem u64_inverts : Inverts u64 (fun v => beBytes 8 v.toNat) fun _ => True :=
  uint_inverts 8 UInt64.ofNat UInt64.toNat (fun v => v.toNat_lt) (fun _ => UInt64.ofNat_toNat)
    (fun _ h => UInt64.toNat_ofNat_of_lt' h)

theorem i64_inverts : Inverts i64 (fun v => beBytes 8 v.toUInt64.toNat) fun _ => True :=
  uint_inverts 8 (fun n => (UInt64.ofNat n).toInt64) (fun v => v.toUInt64.toNat) (fun v => v.toUInt64.toNat_lt)
    (fun v => by simp) (fun _ h => UInt64.toNat_ofNat_of_lt' h)

theorem str_inverts : Inverts str (fun v => beBytes 4 (utf8 v).length ++ utf8 v) fun v => (utf8 v).length < 2 ^ 32 := by
  apply prefixed_inverts.filterMap utf8
  · intro s hs
    exact ⟨hs, by rw [ofUtf8?_utf8]⟩
  · intro v s hv h
    split at h
    · cases h
      have hs := utf8_of_ofUtf8? ‹_›
      exact ⟨by rwa [hs], hs⟩
    · cases h

theorem sigAlgo_inverts : Inverts sigAlgo (fun a => [a.id]) fun _ => True := by
  apply u8_inverts.filterMap SigAlgo.id
  · rintro ⟨⟩ -
    exact ⟨trivial, rfl⟩
  · intro i a _ h
    simp only [SigAlgo.fromId] at h
    split_ifs at h with hi
    cases h
    exact ⟨trivial, hi.symm⟩

theorem hashAlgo_inverts : Inverts hashAlgo (fun a => [a.id]) fun _ => True := by
  apply u8_inverts.filterMap HashAlgo.id
  · rintro ⟨⟩ -
    exact ⟨trivial, rfl⟩
  · intro i a _ h
    simp only [HashAlgo.fromId] at h
    split_ifs at h with hi
    cases h
    exact ⟨trivial, hi.symm⟩

/-- a key or a signature: the algorithm tag, then a fixed width -/
theorem tagged_inverts (n : ℕ) : Inverts (sigAlgo >>= fun _ => takeArray n)
    (fun v => SigAlgo.ed25519.id :: v.toList) fun _ => True := by
  apply sigAlgo_inverts.seq (fun _ => SigAlgo.ed25519) (fun _ _ => trivial)
  rintro ⟨⟩ -
  change Inverts (takeArray n) List.Vector.toList fun _ => True ∧ SigAlgo.ed25519 = .ed25519
  simpa using takeArray_inverts n

/-- **Every typed read inverts its write.** -/
theorem read_inverts : ∀ k : FieldKind, Inverts (Reader.read k) k.encode k.Fits
  | .bytes => prefixed_inverts
  | .str => str_inverts
  | .fixed n => takeArray_inverts n
  | .key => tagged_inverts 32
  | .signature => tagged_inverts 64
  | .hash => takeArray_inverts 32
  | .hashAlgo => hashAlgo_inverts
  | .uuid => takeArray_inverts 16
  | .u8 => u8_inverts
  | .u16 => ByteCursor.u16_inverts
  | .u32 => ByteCursor.u32_inverts
  | .u64 => u64_inverts
  | .i64 => i64_inverts

end Reader

/-! ## Messages -/

/-- one call on a builder -/
inductive Write where
  | field (f : Field)
  | extension (extType : UInt16) (critical : Bool) (value : Bytes)

def Builder.apply (b : Builder) : Write → Builder
  | .field f => b.write f
  | .extension t c v => b.extension t c v

/-- the fields among the calls, in order -/
def fieldsOf (ws : List Write) : List Field :=
  ws.filterMap fun
    | .field f => some f
    | .extension .. => none

/-- the extensions among the calls, in order -/
def extensionsOf (ws : List Write) : List Extension :=
  ws.filterMap fun
    | .field _ => none
    | .extension t c v => some ⟨t, c, v⟩

/-- opens a message, reads it with the program and finishes: versions, fields and extensions -/
def readMessage (tag : DomainTag) (p : Program FieldKind.Value) (message : Bytes) :
    Except SigningBytesError (UInt16 × UInt32 × List Field × Extensions) := do
  let r ← Reader.new tag message
  let (fields, cur) ← p.run Reader.read r.cur
  let x ← Reader.finish { r with cur := cur }
  return (r.layoutVersion, r.rulesVersion, fields, x)

/-- tag, layout version, rules version -/
def header (tag : DomainTag) (layoutVersion : UInt16) (rulesVersion : UInt32) : Bytes :=
  utf8 tag.asStr ++ (beBytes 2 layoutVersion.toNat ++ beBytes 4 rulesVersion.toNat)

namespace Builder

theorem bytes_of_lt (b : Builder) {v : Bytes} (h : v.length < 2 ^ 32) :
    b.bytes v = { b with out := b.out ++ (beBytes 4 v.length ++ v) } := by
  rw [bytes, if_pos h, List.append_assoc]

theorem tagged_eq {n : ℕ} (b : Builder) (v : FixedBytes n) :
    (b.u8 SigAlgo.ed25519.id).fixed v = { b with out := b.out ++ SigAlgo.ed25519.id :: v.toList } := by
  simp only [u8, fixed, List.append_assoc]
  rfl

theorem write_of_fits (b : Builder) : ∀ f : Field, f.1.Fits f.2 → b.write f = { b with out := b.out ++ f.1.encode f.2 }
  | ⟨.bytes, _⟩, h => b.bytes_of_lt h
  | ⟨.str, _⟩, h => b.bytes_of_lt h
  | ⟨.fixed _, _⟩, _ => rfl
  | ⟨.key, v⟩, _ => b.tagged_eq v
  | ⟨.signature, v⟩, _ => b.tagged_eq v
  | ⟨.hash, _⟩, _ => rfl
  | ⟨.hashAlgo, _⟩, _ => rfl
  | ⟨.uuid, _⟩, _ => rfl
  | ⟨.u8, _⟩, _ => rfl
  | ⟨.u16, _⟩, _ => rfl
  | ⟨.u32, _⟩, _ => rfl
  | ⟨.u64, _⟩, _ => rfl
  | ⟨.i64, _⟩, _ => rfl

theorem write_of_not_fits (b : Builder) :
    ∀ f : Field, ¬ f.1.Fits f.2 → b.write f = { b with error := b.error.or (some .fieldTooLong) }
  | ⟨.bytes, _⟩, h => if_neg h
  | ⟨.str, _⟩, h => if_neg h
  | ⟨.fixed _, _⟩, h => absurd trivial h
  | ⟨.key, _⟩, h => absurd trivial h
  | ⟨.signature, _⟩, h => absurd trivial h
  | ⟨.hash, _⟩, h => absurd trivial h
  | ⟨.hashAlgo, _⟩, h => absurd trivial h
  | ⟨.uuid, _⟩, h => absurd trivial h
  | ⟨.u8, _⟩, h => absurd trivial h
  | ⟨.u16, _⟩, h => absurd trivial h
  | ⟨.u32, _⟩, h => absurd trivial h
  | ⟨.u64, _⟩, h => absurd trivial h
  | ⟨.i64, _⟩, h => absurd trivial h

/-- what a run of calls keeps, and what it collects -/
structure Collected (b r : Builder) (ws : List Write) : Prop where
  tag : r.tag = b.tag
  rulesVersion : r.rulesVersion = b.rulesVersion
  extensions : r.extensions = b.extensions ++ extensionsOf ws
  error : r.error = none ↔ b.error = none ∧ ∀ f ∈ fieldsOf ws, f.1.Fits f.2
  out : r.error = none → r.out = b.out ++ (fieldsOf ws).flatMap fun f => f.1.encode f.2

theorem collected (b : Builder) (ws : List Write) : Collected b (ws.foldl Builder.apply b) ws := by
  induction ws generalizing b with
  | nil =>
    constructor
    all_goals simp [extensionsOf, fieldsOf]
  | cons w ws ih =>
    have h := ih (b.apply w)
    cases w with
    | extension t c v =>
      exact ⟨h.tag, h.rulesVersion, by simpa [extensionsOf, Builder.apply, Builder.extension] using h.extensions,
        h.error, h.out⟩
    | field f =>
      by_cases hf : f.1.Fits f.2
      · have hw : b.apply (.field f) = { b with out := b.out ++ f.1.encode f.2 } := b.write_of_fits f hf
        rw [hw] at h
        rw [List.foldl_cons, hw]
        refine ⟨h.tag, h.rulesVersion, h.extensions, ?_, ?_⟩
        · rw [h.error]
          simp [fieldsOf, hf]
        · intro he
          rw [h.out he]
          simp [fieldsOf]
      · have hw : b.apply (.field f) = { b with error := b.error.or (some .fieldTooLong) } := b.write_of_not_fits f hf
        rw [hw] at h
        rw [List.foldl_cons, hw]
        have hne : ¬ (ws.foldl Builder.apply { b with error := b.error.or (some .fieldTooLong) }).error = none := by
          rw [h.error]
          simp
        refine ⟨h.tag, h.rulesVersion, h.extensions, ⟨fun he => absurd he hne, ?_⟩, fun he => absurd he hne⟩
        rintro ⟨-, hall⟩
        exact absurd (hall f (by simp [fieldsOf])) hf

theorem withEnvelope_error (tag : DomainTag) (env : Envelope) : (withEnvelope tag env).error = none ↔
    checkLayout tag env.layoutVersion = .ok () ∧ checkRules env.rulesVersion = .ok () := by
  simp only [withEnvelope, withRules]
  cases checkLayout tag env.layoutVersion with
  | error e => simp [bind, Except.bind]
  | ok u =>
    cases checkRules env.rulesVersion with
    | error e => simp [bind, Except.bind]
    | ok u => simp [bind, Except.bind]

end Builder

/-- **The messages a builder finishes.** Supported versions, fields within their length prefixes, and extensions that
are valid for the rules version and understood. -/
theorem finish_eq_ok_iff {tag : DomainTag} {env : Envelope} {ws : List Write} {message : Bytes} :
    (ws.foldl Builder.apply (Builder.withEnvelope tag env)).finish = .ok message ↔
      checkLayout tag env.layoutVersion = .ok () ∧ checkRules env.rulesVersion = .ok () ∧
      (∀ f ∈ fieldsOf ws, f.1.Fits f.2) ∧
      ∃ x : Extensions, Extensions.new (env.extensions.entries ++ extensionsOf ws) env.rulesVersion = .ok x ∧
        x.requireUnderstood tag = .ok () ∧
        message = header tag env.layoutVersion env.rulesVersion ++
          (((fieldsOf ws).flatMap fun f => f.1.encode f.2) ++ x.encode) := by
  have hc := Builder.collected (Builder.withEnvelope tag env) ws
  have hout : (Builder.withEnvelope tag env).out = header tag env.layoutVersion env.rulesVersion := by
    simp [Builder.withEnvelope, Builder.withRules, header]
  generalize ws.foldl Builder.apply (Builder.withEnvelope tag env) = r at hc ⊢
  have herr := hc.error
  rw [Builder.withEnvelope_error, and_assoc] at herr
  rw [Builder.finish]
  constructor
  · intro h
    cases he : r.error with
    | some e =>
      rw [he] at h
      cases h
    | none =>
      rw [he] at h
      obtain ⟨x, hx, h⟩ := Fallible.bind_eq_ok.1 h
      obtain ⟨⟨⟩, hu, h⟩ := Fallible.bind_eq_ok.1 h
      cases h
      rw [hc.extensions, hc.rulesVersion] at hx
      rw [hc.tag] at hu
      obtain ⟨h1, h2, h3⟩ := herr.1 he
      exact ⟨h1, h2, h3, x, hx, hu, by rw [hc.out he, hout, List.append_assoc]⟩
  · rintro ⟨h1, h2, h3, x, hx, hu, rfl⟩
    have he := herr.2 ⟨h1, h2, h3⟩
    have hx' : Extensions.new r.extensions r.rulesVersion = .ok x := by
      rw [hc.extensions, hc.rulesVersion]
      exact hx
    rw [he, hx', hc.tag, hc.out he, hout]
    change (x.requireUnderstood tag >>= fun _ => _) = _
    rw [hu, List.append_assoc]
    rfl

/-- the header is read back, and nothing else opens a reader -/
theorem Reader.new_eq_ok_iff {tag : DomainTag} {message : Bytes} {r : Reader} :
    Reader.new tag message = .ok r ↔ r.tag = tag ∧ checkLayout tag r.layoutVersion = .ok () ∧
      checkRules r.rulesVersion = .ok () ∧ message = header tag r.layoutVersion r.rulesVersion ++ r.cur := by
  rw [Reader.new]
  constructor
  · intro h
    split at h
    · cases h
    rename_i rest hrest
    obtain ⟨_, rfl, hp⟩ := List.dropPrefix?_eq_some_iff.1 hrest
    obtain rfl := eq_of_beq hp
    obtain ⟨⟨lv, m1⟩, h1, h⟩ := Fallible.bind_eq_ok.1 h
    obtain ⟨⟨⟩, hl, h⟩ := Fallible.bind_eq_ok.1 h
    obtain ⟨⟨rv, m2⟩, h2, h⟩ := Fallible.bind_eq_ok.1 h
    obtain ⟨⟨⟩, hr, h⟩ := Fallible.bind_eq_ok.1 h
    cases h
    obtain ⟨-, rfl⟩ := ByteCursor.u16_inverts.written _ _ _ h1
    obtain ⟨-, rfl⟩ := ByteCursor.u32_inverts.written _ _ _ h2
    exact ⟨rfl, hl, hr, by simp only [header, List.append_assoc]⟩
  · rintro ⟨rfl, hl, hr, rfl⟩
    have hd : (header r.tag r.layoutVersion r.rulesVersion ++ r.cur).dropPrefix? (utf8 r.tag.asStr) =
        some (beBytes 2 r.layoutVersion.toNat ++ (beBytes 4 r.rulesVersion.toNat ++ r.cur)) :=
      List.dropPrefix?_eq_some_iff.2 ⟨_, by simp only [header, List.append_assoc], beq_self_eq_true _⟩
    rw [hd]
    change (ByteCursor.u16 _ >>= fun _ => _) = _
    rw [ByteCursor.u16_inverts.read _ trivial]
    change (checkLayout r.tag r.layoutVersion >>= fun _ => ByteCursor.u32 _ >>= fun _ => _) = _
    rw [hl, ByteCursor.u32_inverts.read _ trivial]
    change (checkRules r.rulesVersion >>= fun _ => _) = _
    rw [hr]
    rfl

theorem Reader.finish_eq_ok_iff {r : Reader} {x : Extensions} : r.finish = .ok x ↔
    Extensions.new x.entries r.rulesVersion = .ok x ∧ r.cur = x.encode ∧ x.requireUnderstood r.tag = .ok () := by
  have hi := ByteCursor.extensions_inverts r.rulesVersion
  rw [Reader.finish]
  constructor
  · intro h
    obtain ⟨⟨y, rest⟩, hy, h⟩ := Fallible.bind_eq_ok.1 h
    dsimp only at h
    split_ifs at h with hrest
    obtain ⟨⟨⟩, hu, h⟩ := Fallible.bind_eq_ok.1 h
    cases h
    obtain ⟨hv, hb⟩ := hi.written _ _ _ hy
    rw [List.isEmpty_iff.1 hrest, List.append_nil] at hb
    exact ⟨hv, hb, hu⟩
  · rintro ⟨hv, hb, hu⟩
    have hr := hi.read x hv []
    rw [List.append_nil, ← hb] at hr
    rw [hr]
    change (x.requireUnderstood r.tag >>= fun _ => _) = _
    rw [hu]
    rfl

theorem readMessage_eq_ok_iff {tag : DomainTag} {p : Program FieldKind.Value} {message : Bytes} {lv : UInt16}
    {rv : UInt32} {fs : List Field} {x : Extensions} :
    readMessage tag p message = .ok (lv, rv, fs, x) ↔
      checkLayout tag lv = .ok () ∧ checkRules rv = .ok () ∧ p.Follows fs ∧ (∀ f ∈ fs, f.1.Fits f.2) ∧
      Extensions.new x.entries rv = .ok x ∧ x.requireUnderstood tag = .ok () ∧
      message = header tag lv rv ++ ((fs.flatMap fun f => f.1.encode f.2) ++ x.encode) := by
  have hp := p.inverts Reader.read_inverts
  rw [readMessage]
  constructor
  · intro h
    obtain ⟨r, hr, h⟩ := Fallible.bind_eq_ok.1 h
    obtain ⟨⟨fs', cur⟩, hf, h⟩ := Fallible.bind_eq_ok.1 h
    obtain ⟨y, hy, h⟩ := Fallible.bind_eq_ok.1 h
    cases h
    obtain ⟨rfl, hl, hrules, rfl⟩ := Reader.new_eq_ok_iff.1 hr
    obtain ⟨⟨hfol, hfits⟩, hcur⟩ := hp.written _ _ _ hf
    obtain ⟨hnew, rfl, hu⟩ := Reader.finish_eq_ok_iff.1 hy
    exact ⟨hl, hrules, hfol, hfits, hnew, hu, by rw [hcur]⟩
  · rintro ⟨hl, hrules, hfol, hfits, hnew, hu, rfl⟩
    have hr : Reader.new tag (header tag lv rv ++ ((fs.flatMap fun f => f.1.encode f.2) ++ x.encode)) =
        .ok ⟨tag, (fs.flatMap fun f => f.1.encode f.2) ++ x.encode, lv, rv⟩ :=
      Reader.new_eq_ok_iff.2 ⟨rfl, hl, hrules, rfl⟩
    have hfin : Reader.finish ⟨tag, x.encode, lv, rv⟩ = .ok x := Reader.finish_eq_ok_iff.2 ⟨hnew, rfl, hu⟩
    rw [hr]
    change (p.run Reader.read _ >>= fun _ => _) = _
    rw [hp.read fs ⟨hfol, hfits⟩ x.encode]
    change (Reader.finish ⟨tag, x.encode, lv, rv⟩ >>= fun _ => _) = _
    rw [hfin]
    rfl

/-- **Round trip of signing bytes.** Reading a finished message with any program that follows its fields returns the
versions, the fields and the extensions that were written, and finishing succeeds. Conversely, a message that some
program reads to its end is rebuilt byte for byte by any builder calls that write the versions, fields and extensions
read. -/
theorem signing_bytes_round_trip :
    (∀ (tag : DomainTag) (env : Envelope) (ws : List Write) (p : Program FieldKind.Value) (message : Bytes),
      (ws.foldl Builder.apply (Builder.withEnvelope tag env)).finish = .ok message → p.Follows (fieldsOf ws) →
      ∃ x : Extensions, x.entries = env.extensions.entries ++ extensionsOf ws ∧
        readMessage tag p message = .ok (env.layoutVersion, env.rulesVersion, fieldsOf ws, x)) ∧
    (∀ (tag : DomainTag) (p : Program FieldKind.Value) (message : Bytes) (lv : UInt16) (rv : UInt32) (fs : List Field)
      (x : Extensions), readMessage tag p message = .ok (lv, rv, fs, x) →
      ∀ (env : Envelope) (ws : List Write), env.layoutVersion = lv → env.rulesVersion = rv → fieldsOf ws = fs →
        env.extensions.entries ++ extensionsOf ws = x.entries →
        (ws.foldl Builder.apply (Builder.withEnvelope tag env)).finish = .ok message) := by
  constructor
  · intro tag env ws p message h hfol
    obtain ⟨hl, hr, hfits, x, hx, hu, rfl⟩ := finish_eq_ok_iff.1 h
    have hentries := (Extensions.new_eq_ok_iff.1 hx).1
    rw [← hentries] at hx
    exact ⟨x, hentries, readMessage_eq_ok_iff.2 ⟨hl, hr, hfol, hfits, hx, hu, rfl⟩⟩
  · rintro tag p message lv rv fs x h env ws rfl rfl rfl hentries
    obtain ⟨hl, hr, -, hfits, hx, hu, rfl⟩ := readMessage_eq_ok_iff.1 h
    rw [← hentries] at hx
    exact finish_eq_ok_iff.2 ⟨hl, hr, hfits, x, hx, hu, rfl⟩

/-- a flag byte, then a hash when the flag is set -/
def flaggedHash : Program FieldKind.Value :=
  .read .u8 fun (flag : UInt8) => if flag = 1 then .read .hash fun _ => .done else .done

/-- a flagged hash with an extension added between the two writes, there and back -/
theorem signing_bytes_round_trip_flagged_hash :
    let env := Envelope.current .conformance
    let fields : List Field := [⟨.u8, (1 : UInt8)⟩, ⟨.hash, FixedBytes.replicate 32 9⟩]
    let ws : List Write :=
      [.field ⟨.u8, (1 : UInt8)⟩, .extension 7 false [0xff], .field ⟨.hash, FixedBytes.replicate 32 9⟩]
    let message := header .conformance 2 1 ++ (1 :: (List.replicate 32 9 ++ [0, 1, 0, 7, 0, 0, 0, 0, 1, 0xff]))
    ∃ x : Extensions, x.entries = [⟨7, false, [0xff]⟩] ∧
      readMessage .conformance flaggedHash message = .ok (2, 1, fields, x) ∧
      (ws.foldl Builder.apply (Builder.withEnvelope .conformance env)).finish = .ok message := by
  intro env fields ws message
  have hfol : flaggedHash.Follows (fieldsOf ws) := by
    apply Program.Follows.read (k := FieldKind.u8)
    apply Program.Follows.read (k := FieldKind.hash)
    exact .done
  obtain ⟨x, hx, h⟩ := signing_bytes_round_trip.1 .conformance env ws flaggedHash message (by decide +kernel) hfol
  exact ⟨x, hx, h, signing_bytes_round_trip.2 _ _ _ _ _ _ _ h env ws rfl rfl rfl hx.symm⟩

end Avalon.SigningBytes
