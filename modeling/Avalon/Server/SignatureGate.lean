/-
Fresh signatures over account actions (`crates/server/src/signature_gate.rs`; `crates/server/src/auth.rs`:
`verify_event_signature`).

A signature-required handler rebuilds the text `avalon:<tag>:v1:<field>:…` from the request and verifies the caller's
signature over it, under an active key of the caller. Fields are joined as they are: a field that holds a colon is not
escaped.

Results:
- `parts_canonicalMessage`: splitting a message at the colons gives the parts of its fields, in order.
- `join_injective`: non-empty texts without a comma are told apart by their list joined with commas.
- `uuidText_injective`, `i32Text_injective`, `idText_injective`, and which characters these texts hold.
- `requireFreshSignature_eq_ok`: what was verified when a signature is accepted.
- `message_eq_of_accepted`: a proof accepted twice under one key was made for one message, or is valid for two.
-/
import Mathlib.Tactic
import Avalon.Core.Bytes
import Avalon.Core.Base64
import Avalon.Protocol.Events
import Avalon.Protocol.SigningBytes
import Avalon.Protocol.NodeRequest
import Avalon.Protocol.IdentityId

namespace Avalon.SignatureGate

open Avalon.SigningBytes Avalon.Events Avalon.Identity

/-- the errors the gate and the handlers behind it answer with -/
inductive AppError where
  | noRegisteredSigningKey
  | freshSignatureRequired
  | signingKeyNotFound
  | invalidFreshSignature
  | identityNotFound
  | identityChainForked
  | guildNotFound
  | guildRoleNotFound
  | guildRoleNameTaken
  | missingGuildPermission
  | invalidRoleDescription
  | invalidRoleBadge
  | cannotModifyOwnerRole
  | cannotDeleteBaseRole
  | roleHasMembers
  | invalidResourceKind
  | invalidPermission
  | resourceNotFound
  | permissionOverrideNotFound
  | alreadyGuildOwner
  | cannotAssignOwnerRole
  | notGuildMember
  | alreadyGuildMember
  | guildInviteNotFound
  | guildJoinRequestNotFound
  | guildNotOpen
  | ownerMustTransferBeforeLeaving
  | cannotRemoveOwner
  | invalidGuardianSet
  | notAGuardian
  | recoveryNotAvailable
  | recoveryRateLimited
  | recoveryAlreadyInProgress
  | recoveryRequestNotFound
  | recoveryAlreadyResolved
  | recoveryNotReadyToFinalize
  | alreadyApproved
  | forbidden
  | database
deriving DecidableEq, Repr

/-! ## Texts of the fields -/

/-- `Uuid`'s `Display`: lower-case hex in groups of 4, 2, 2, 2 and 6 bytes -/
def uuidText (id : Uuid) : String :=
  let bytes := id.toList
  hexEncode (bytes.take 4) ++ "-" ++ hexEncode ((bytes.drop 4).take 2) ++ "-" ++ hexEncode ((bytes.drop 6).take 2) ++ "-" ++
    hexEncode ((bytes.drop 8).take 2) ++ "-" ++ hexEncode (bytes.drop 10)

/-- the decimal text of an `i32` -/
def i32Text (i : ℤ) : String := toString i

def boolText (b : Bool) : String := if b then "true" else "false"

/-! ## The signed text -/

def canonicalMessage (actionTag : String) (fields : List String) : Bytes :=
  utf8 (fields.foldl (fun message field => message ++ ":" ++ field) ("avalon:" ++ actionTag ++ ":v1"))

/-! ## The gate -/

/-- Ed25519, and which keys `parse_ed25519_public_key` takes -/
structure Verifier where
  ed : Ed25519
  validKey : FixedBytes 32 → Bool

def verifyEventSignature (v : Verifier) (publicKey message signature : Bytes) : Bool :=
  match FixedBytes.ofList? 32 publicKey with
  | none => false
  | some key =>
    if !v.validKey key then false
    else
      match FixedBytes.ofList? 64 signature with
      | none => false
      | some sig => v.ed.verifyStrict key message sig

/-- a row of `identity_signing_keys` -/
structure SigningKeyRow where
  id : Uuid
  identityId : IdentityId
  publicKey : Bytes
  revoked : Bool

def hasAnySigningKey (keys : List SigningKeyRow) (identityId : IdentityId) : Bool :=
  keys.any fun row => decide (row.identityId = identityId) && !row.revoked

/-- the active key of an identity under an id -/
def activeKey (keys : List SigningKeyRow) (signingKeyId : Uuid) (identityId : IdentityId) : Option Bytes :=
  (keys.find? fun row => decide (row.id = signingKeyId) && decide (row.identityId = identityId) && !row.revoked).map
    SigningKeyRow.publicKey

/-- what a request carries to prove a fresh signature -/
structure Proof where
  signingKeyId : Option Uuid
  signature : Option String
deriving DecidableEq

def requireFreshSignature (v : Verifier) (keys : List SigningKeyRow) (identityId : IdentityId) (message : Bytes)
    (proof : Proof) : Except AppError Unit :=
  match proof.signingKeyId, proof.signature.filter fun signature => !signature.isEmpty with
  | some keyId, some signature =>
    match activeKey keys keyId identityId with
    | none => .error .signingKeyNotFound
    | some publicKey =>
      match Base64.decode signature with
      | none => .error .invalidFreshSignature
      | some signature => if verifyEventSignature v publicKey message signature then .ok () else .error .invalidFreshSignature
  | _, _ => if hasAnySigningKey keys identityId then .error .freshSignatureRequired else .error .noRegisteredSigningKey

/-! ## What was verified -/

section Gate

variable {v : Verifier} {keys : List SigningKeyRow} {identityId : IdentityId} {message : Bytes} {proof : Proof}

theorem verifyEventSignature_eq_true {publicKey signature : Bytes}
    (h : verifyEventSignature v publicKey message signature = true) :
    ∃ key sig, FixedBytes.ofList? 32 publicKey = some key ∧ FixedBytes.ofList? 64 signature = some sig ∧
      v.ed.verifyStrict key message sig = true := by
  unfold verifyEventSignature at h
  split at h
  · cases h
  · rename_i key hkey
    split at h
    · cases h
    · split at h
      · cases h
      · rename_i sig hsig
        exact ⟨key, sig, hkey, hsig, h⟩

/-- the key and the signature are read off the request and the table, and the message verifies under them -/
theorem requireFreshSignature_eq_ok {u : Unit} (h : requireFreshSignature v keys identityId message proof = .ok u) :
    ∃ keyId text publicKey bytes key sig, proof.signingKeyId = some keyId ∧ proof.signature = some text ∧
      activeKey keys keyId identityId = some publicKey ∧ Base64.decode text = some bytes ∧
      FixedBytes.ofList? 32 publicKey = some key ∧ FixedBytes.ofList? 64 bytes = some sig ∧
      v.ed.verifyStrict key message sig = true := by
  unfold requireFreshSignature at h
  split at h
  · rename_i keyId text hkeyId htext
    split at h
    · cases h
    · rename_i publicKey hactive
      split at h
      · cases h
      · rename_i bytes hbytes
        split at h
        · rename_i hverify
          obtain ⟨key, sig, hkey, hsig, hvalid⟩ := verifyEventSignature_eq_true hverify
          exact ⟨keyId, text, publicKey, bytes, key, sig, hkeyId, (Option.filter_eq_some_iff.1 htext).1, hactive, hbytes,
            hkey, hsig, hvalid⟩
        · cases h
  · split at h <;> cases h

/-- the messages differ, and one signature is valid for both -/
def Verifier.TwiceValid (v : Verifier) (message message' : Bytes) : Prop :=
  message ≠ message' ∧ ∃ key sig, v.ed.verifyStrict key message sig = true ∧ v.ed.verifyStrict key message' sig = true

/-- **One signature, one message.** If the same proof is accepted twice under the same key, the messages are the same, or its
signature is valid for two messages -/
theorem message_eq_of_accepted {keys' : List SigningKeyRow} {message' : Bytes} {u u' : Unit}
    (hkeys : ∀ keyId ∈ proof.signingKeyId, activeKey keys keyId identityId = activeKey keys' keyId identityId)
    (h : requireFreshSignature v keys identityId message proof = .ok u)
    (h' : requireFreshSignature v keys' identityId message' proof = .ok u') :
    message = message' ∨ v.TwiceValid message message' := by
  obtain ⟨keyId, text, publicKey, bytes, key, sig, hkeyId, htext, hactive, hbytes, hkey, hsig, hvalid⟩ :=
    requireFreshSignature_eq_ok h
  obtain ⟨keyId', text', publicKey', bytes', key', sig', hkeyId', htext', hactive', hbytes', hkey', hsig', hvalid'⟩ :=
    requireFreshSignature_eq_ok h'
  obtain rfl : keyId = keyId' := Option.some.inj (hkeyId.symm.trans hkeyId')
  obtain rfl : text = text' := Option.some.inj (htext.symm.trans htext')
  rw [← hkeys keyId hkeyId] at hactive'
  obtain rfl : publicKey = publicKey' := Option.some.inj (hactive.symm.trans hactive')
  obtain rfl : bytes = bytes' := Option.some.inj (hbytes.symm.trans hbytes')
  obtain rfl : key = key' := Option.some.inj (hkey.symm.trans hkey')
  obtain rfl : sig = sig' := Option.some.inj (hsig.symm.trans hsig')
  by_cases heq : message = message'
  · exact .inl heq
  · exact .inr ⟨heq, key, sig, hvalid, hvalid'⟩

end Gate

/-! ## The parts of a message -/

/-- the parts of a text between its colons -/
def parts (text : String) : List (List Char) := text.toList.splitOn ':'

theorem parts_append_colon (a b : String) : parts (a ++ ":" ++ b) = parts a ++ parts b := by
  have hcolon : (a ++ ":" ++ b).toList = a.toList ++ ':' :: b.toList := by simp
  rw [parts, hcolon, List.splitOn_append_cons_self]
  rfl

/-- a text without a colon has one part -/
theorem parts_of_notMem {text : String} (h : ':' ∉ text.toList) : parts text = [text.toList] := List.splitOn_eq_singleton h

theorem parts_injective {a b : String} (h : parts a = parts b) : a = b := by
  apply String.toList_inj.1
  have ha : [':'].intercalate (parts a) = a.toList := List.intercalate_splitOn ':'
  have hb : [':'].intercalate (parts b) = b.toList := List.intercalate_splitOn ':'
  rw [← ha, ← hb, h]

theorem parts_foldl (start : String) (fields : List String) :
    parts (fields.foldl (fun message field => message ++ ":" ++ field) start) = parts start ++ fields.flatMap parts := by
  induction fields generalizing start with
  | nil => simp
  | cons field fields ih => rw [List.foldl_cons, ih, parts_append_colon, List.flatMap_cons, List.append_assoc]

/-- **The parts of a message** are the tag's and those of the fields -/
theorem parts_canonicalMessage {tag tag' : String} {fields fields' : List String}
    (h : canonicalMessage tag fields = canonicalMessage tag' fields') :
    parts "avalon" ++ parts tag ++ parts "v1" ++ fields.flatMap parts =
      parts "avalon" ++ parts tag' ++ parts "v1" ++ fields'.flatMap parts := by
  have hstart : ∀ tag : String, parts ("avalon:" ++ tag ++ ":v1") = parts "avalon" ++ parts tag ++ parts "v1" := by
    intro tag
    have htext : "avalon:" ++ tag ++ ":v1" = "avalon" ++ ":" ++ tag ++ ":" ++ "v1" := by
      apply String.toList_inj.1
      simp
    rw [htext, parts_append_colon, parts_append_colon]
  have hparts := congrArg parts (utf8_inj h)
  rwa [parts_foldl, parts_foldl, hstart, hstart] at hparts

/-- messages with plain tags agree in the tag and in the parts of the fields -/
theorem fields_of_canonicalMessage {tag tag' : String} {fields fields' : List String} (htag : ':' ∉ tag.toList)
    (htag' : ':' ∉ tag'.toList) (h : canonicalMessage tag fields = canonicalMessage tag' fields') :
    tag = tag' ∧ fields.flatMap parts = fields'.flatMap parts := by
  have hparts := parts_canonicalMessage h
  rw [parts_of_notMem htag, parts_of_notMem htag'] at hparts
  simp only [List.append_assoc, List.cons_append, List.nil_append, List.append_cancel_left_eq, List.cons.injEq] at hparts
  exact ⟨String.toList_inj.1 hparts.1, hparts.2⟩

/-! ## Joined lists -/

/-- a text that can stand in a list joined with commas -/
def Item (text : String) : Prop := ',' ∉ text.toList ∧ text ≠ ""

/-- **Joining with commas is injective** on non-empty texts without a comma, for lists of any length -/
theorem join_injective {items items' : List String} (h : ∀ t ∈ items, Item t) (h' : ∀ t ∈ items', Item t)
    (heq : ",".intercalate items = ",".intercalate items') : items = items' := by
  have hsplit : ∀ items : List String, (∀ t ∈ items, Item t) → items ≠ [] →
      (",".intercalate items).toList.splitOn ',' = items.map String.toList := by
    intro items h hne
    rw [String.toList_intercalate]
    apply List.splitOn_intercalate
    · intro l hl
      obtain ⟨t, ht, rfl⟩ := List.mem_map.1 hl
      exact (h t ht).1
    · simpa using hne
  -- the empty list is the only one joined to the empty text
  have hempty : ∀ items : List String, (∀ t ∈ items, Item t) → ",".intercalate items = "" → items = [] := by
    intro items h hjoin
    by_contra hne
    have hall := hsplit items h hne
    rw [hjoin] at hall
    obtain ⟨t, ts, rfl⟩ := List.exists_cons_of_ne_nil hne
    have hfirst : t.toList = [] := by
      have hcons : [[]] = t.toList :: ts.map String.toList := by simpa using hall
      exact (List.cons.inj hcons).1.symm
    exact (h t List.mem_cons_self).2 (String.toList_inj.1 (by simpa using hfirst))
  by_cases hnil : items = []
  · subst hnil
    exact (hempty items' h' (by simpa using heq.symm)).symm
  by_cases hnil' : items' = []
  · subst hnil'
    exact hempty items h (by simpa using heq)
  have hlists := hsplit items h hnil
  rw [heq, hsplit items' h' hnil'] at hlists
  exact (List.map_injective_iff.2 (fun _ _ => String.toList_inj.1) hlists).symm

/-! ## Texts without separators -/

/-- a text with neither a colon nor a comma -/
def Plain (text : String) : Prop := ∀ c ∈ text.toList, c ≠ ':' ∧ c ≠ ','

theorem Plain.notMem_colon {text : String} (h : Plain text) : ':' ∉ text.toList := fun hmem => (h _ hmem).1 rfl

theorem Plain.parts {text : String} (h : Plain text) : parts text = [text.toList] := parts_of_notMem h.notMem_colon

theorem Plain.item {text : String} (h : Plain text) (hne : text ≠ "") : Item text := ⟨fun hmem => (h _ hmem).2 rfl, hne⟩

theorem Plain.append {a b : String} (ha : Plain a) (hb : Plain b) : Plain (a ++ b) := by
  intro c hc
  rw [String.toList_append] at hc
  exact (List.mem_append.1 hc).elim (ha c) (hb c)

/-- joined plain texts hold no colon -/
theorem colon_notMem_join {items : List String} (h : ∀ t ∈ items, Plain t) : ':' ∉ (",".intercalate items).toList := by
  induction items with
  | nil => simp
  | cons t ts ih =>
    obtain ⟨ht, hts⟩ := List.forall_mem_cons.1 h
    cases ts with
    | nil => simpa using ht.notMem_colon
    | cons u us =>
      have hcomma : (",".intercalate (t :: u :: us)).toList = t.toList ++ ',' :: (",".intercalate (u :: us)).toList := by
        simp
      rw [hcomma, List.mem_append, List.mem_cons]
      rintro (hmem | heq | hmem)
      · exact ht.notMem_colon hmem
      · cases heq
      · exact ih hts hmem

/-- hex digits are neither a colon, a comma nor a hyphen -/
theorem mem_hexEncode {bs : Bytes} {c : Char} (h : c ∈ (hexEncode bs).toList) : c ≠ ':' ∧ c ≠ ',' ∧ c ≠ '-' := by
  have hdigit : ∀ n, n < 16 → hexDigit n ≠ ':' ∧ hexDigit n ≠ ',' ∧ hexDigit n ≠ '-' := by decide
  rw [hexEncode, String.toList_ofList, List.mem_flatMap] at h
  obtain ⟨b, -, hc⟩ := h
  have hb := b.toNat_lt
  rcases List.mem_cons.1 hc with rfl | hc
  · exact hdigit _ (by omega)
  · rw [List.mem_singleton.1 hc]
    exact hdigit _ (by omega)

theorem plain_hexEncode (bs : Bytes) : Plain (hexEncode bs) := fun _ hc => ⟨(mem_hexEncode hc).1, (mem_hexEncode hc).2.1⟩

theorem plain_idText (id : IdentityId) : Plain id.toText := plain_hexEncode _

theorem idText_injective {a b : IdentityId} (h : a.toText = b.toText) : a = b :=
  IdentityId.ext (FixedBytes.hexEncode_inj h)

theorem idText_ne_empty (id : IdentityId) : id.toText ≠ "" := by
  intro h
  have hlength := NodeRequest.length_hexEncode id.asBytes.toList
  rw [← IdentityId.toText, h, List.Vector.toList_length] at hlength
  simp at hlength

theorem plain_uuidText (id : Uuid) : Plain (uuidText id) := by
  have hhyphen : Plain "-" := by simp [Plain]
  exact ((((((((plain_hexEncode _).append hhyphen).append (plain_hexEncode _)).append hhyphen).append
    (plain_hexEncode _)).append hhyphen).append (plain_hexEncode _)).append hhyphen).append (plain_hexEncode _)

/-- without its hyphens, the text is the hex text of the bytes -/
theorem filter_uuidText (id : Uuid) : (uuidText id).toList.filter (fun c => decide (c ≠ '-')) = (hexEncode id.toList).toList := by
  have hkeep : ∀ bs : Bytes, (hexEncode bs).toList.filter (fun c => decide (c ≠ '-')) = (hexEncode bs).toList := by
    intro bs
    rw [List.filter_eq_self]
    exact fun c hc => decide_eq_true (mem_hexEncode hc).2.2
  have hhyphen : "-".toList.filter (fun c => decide (c ≠ '-')) = [] := by decide
  have happend : ∀ a b : Bytes, (hexEncode a).toList ++ (hexEncode b).toList = (hexEncode (a ++ b)).toList := by
    intro a b
    simp only [hexEncode, String.toList_ofList, List.flatMap_append]
  have hgroup : ∀ (l : Bytes) (n : ℕ), (l.drop n).take 2 ++ l.drop (n + 2) = l.drop n := by
    intro l n
    rw [← List.drop_drop, List.take_append_drop]
  unfold uuidText
  simp only [String.toList_append, List.filter_append, hkeep, hhyphen, List.nil_append, List.append_assoc, happend]
  rw [hgroup _ 8, hgroup _ 6, hgroup _ 4, List.take_append_drop]

theorem uuidText_injective {a b : Uuid} (h : uuidText a = uuidText b) : a = b := by
  have hhex : (hexEncode a.toList).toList = (hexEncode b.toList).toList := by
    rw [← filter_uuidText, ← filter_uuidText, h]
  exact FixedBytes.hexEncode_inj (String.toList_inj.1 hhex)

theorem plain_toDigits (n : ℕ) : ∀ c ∈ Nat.toDigits 10 n, c ≠ ':' ∧ c ≠ ',' ∧ c ≠ '-' := by
  intro c hc
  have hdigit := Nat.isDigit_of_mem_toDigits (by decide) le_rfl hc
  refine ⟨?_, ?_, ?_⟩
  all_goals
    rintro rfl
    revert hdigit
    decide

theorem plain_i32Text (i : ℤ) : Plain (i32Text i) := by
  intro c hc
  unfold i32Text at hc
  rcases le_or_gt 0 i with hi | hi
  · rw [NodeRequest.toString_of_nonneg hi] at hc
    exact ⟨(plain_toDigits _ c hc).1, (plain_toDigits _ c hc).2.1⟩
  · rw [NodeRequest.toString_of_neg hi] at hc
    rcases List.mem_cons.1 hc with rfl | hc
    · decide
    · exact ⟨(plain_toDigits _ c hc).1, (plain_toDigits _ c hc).2.1⟩

theorem toDigits_injective {m n : ℕ} (h : Nat.toDigits 10 m = Nat.toDigits 10 n) : m = n := by
  rw [← Nat.ofDigitChars_ten_toDigits (n := m), h, Nat.ofDigitChars_ten_toDigits]

theorem i32Text_injective {a b : ℤ} (h : i32Text a = i32Text b) : a = b := by
  have hlist : (toString a).toList = (toString b).toList := congrArg String.toList h
  -- the sign is not a digit
  have hsign : ∀ m n : ℕ, Nat.toDigits 10 m ≠ '-' :: Nat.toDigits 10 n := by
    intro m n heq
    exact (plain_toDigits m '-' (heq ▸ List.mem_cons_self)).2.2 rfl
  rcases le_or_gt 0 a with ha | ha <;> rcases le_or_gt 0 b with hb | hb
  · rw [NodeRequest.toString_of_nonneg ha, NodeRequest.toString_of_nonneg hb] at hlist
    have := toDigits_injective hlist
    omega
  · rw [NodeRequest.toString_of_nonneg ha, NodeRequest.toString_of_neg hb] at hlist
    exact absurd hlist (hsign _ _)
  · rw [NodeRequest.toString_of_neg ha, NodeRequest.toString_of_nonneg hb] at hlist
    exact absurd hlist.symm (hsign _ _)
  · rw [NodeRequest.toString_of_neg ha, NodeRequest.toString_of_neg hb] at hlist
    have := toDigits_injective (List.cons.inj hlist).2
    omega

theorem plain_boolText (b : Bool) : Plain (boolText b) := by
  cases b <;> simp [Plain, boolText]

theorem boolText_injective {a b : Bool} (h : boolText a = boolText b) : a = b := by
  cases a <;> cases b <;> first | rfl | exact absurd h (by decide)

end Avalon.SignatureGate
