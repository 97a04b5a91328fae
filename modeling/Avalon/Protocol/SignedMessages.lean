/-
Every signed or hashed message of the protocol crate, and that its bytes determine it.

`SignedMessage` has one constructor per layout, with the arguments of the source's function for it. A message is its
header and a list of typed fields (`fields`); the fields of one layout are read back by one program (`layoutProgram`),
where a flag byte decides whether an optional hash follows.

Results:
- `tag_of_utf8_append`: no domain tag is a prefix of another one, so bytes of two layouts differ within the tag.
- `build_inj`: within a layout, bytes determine the header and the fields.
- `signing_bytes_injective`: equal bytes come from one layout with equal fields. Tree heads, cosignatures and
  announcements are signed with their times in whole seconds, and a cosignature with the author signature's bytes.
-/
import Mathlib.Tactic
import Avalon.Core.Bytes
import Avalon.Core.Fallible
import Avalon.Core.Wire
import Avalon.Protocol.SigningBytes
import Avalon.Protocol.SigningBytesReader
import Avalon.Protocol.LedgerEntry
import Avalon.Protocol.Events
import Avalon.Protocol.IdentityId
import Avalon.Protocol.ChainHash
import Avalon.Protocol.Sth
import Avalon.Protocol.Witness

namespace Avalon.SignedMessages

open Wire Avalon.SigningBytes Avalon.LedgerEntry Avalon.Events Avalon.Identity Avalon.IdentityChain Avalon.Sth
  Avalon.Witness

/-! ## Messages as headers and fields -/

/-- a finished message from its header and fields -/
def build (tag : DomainTag) (env : Envelope) (fs : List Field) : Except SigningBytesError Bytes :=
  (fs.foldl Builder.write (Builder.withEnvelope tag env)).finish

theorem build_eq_ok_iff {tag : DomainTag} {env : Envelope} {fs : List Field} {m : Bytes} :
    build tag env fs = .ok m ↔ checkLayout tag env.layoutVersion = .ok () ∧ checkRules env.rulesVersion = .ok () ∧
      (∀ f ∈ fs, f.1.Fits f.2) ∧
      Extensions.new env.extensions.entries env.rulesVersion = .ok env.extensions ∧
      env.extensions.requireUnderstood tag = .ok () ∧
      m = header tag env.layoutVersion env.rulesVersion ++
        ((fs.flatMap fun f => f.1.encode f.2) ++ env.extensions.encode) := by
  have hws : build tag env fs = ((fs.map Write.field).foldl Builder.apply (Builder.withEnvelope tag env)).finish := by
    rw [List.foldl_map]
    rfl
  have hfs : fieldsOf (fs.map Write.field) = fs := by simp [fieldsOf, List.filterMap_map]
  have hxs : extensionsOf (fs.map Write.field) = [] := by simp [extensionsOf, List.filterMap_map]
  rw [hws, finish_eq_ok_iff, hfs, hxs, List.append_nil]
  constructor
  · rintro ⟨h1, h2, h3, x, hx, hu, hm⟩
    obtain rfl : x = env.extensions := Extensions.ext (Extensions.new_eq_ok_iff.1 hx).1
    exact ⟨h1, h2, h3, hx, hu, hm⟩
  · rintro ⟨h1, h2, h3, hx, hu, hm⟩
    exact ⟨h1, h2, h3, env.extensions, hx, hu, hm⟩

/-- within a layout, the bytes determine versions, fields and extensions -/
theorem build_inj {tag : DomainTag} {env env' : Envelope} {fs fs' : List Field} {m : Bytes} {p : Program FieldKind.Value}
    (hp : p.Follows fs) (hp' : p.Follows fs') (h : build tag env fs = .ok m) (h' : build tag env' fs' = .ok m) :
    fs = fs' ∧ env.layoutVersion = env'.layoutVersion ∧ env.rulesVersion = env'.rulesVersion ∧
      env.extensions = env'.extensions := by
  obtain ⟨h1, h2, h3, hx, hu, hm⟩ := build_eq_ok_iff.1 h
  obtain ⟨h1', h2', h3', hx', hu', hm'⟩ := build_eq_ok_iff.1 h'
  have hread := readMessage_eq_ok_iff.2 ⟨h1, h2, hp, h3, hx, hu, hm⟩
  have hread' := readMessage_eq_ok_iff.2 ⟨h1', h2', hp', h3', hx', hu', hm'⟩
  rw [hread, Except.ok.injEq, Prod.mk.injEq, Prod.mk.injEq, Prod.mk.injEq] at hread'
  obtain ⟨hl, hr, hf, he⟩ := hread'
  exact ⟨hf, hl, hr, he⟩

/-- no tag is a prefix of another -/
theorem tag_of_utf8_append {t t' : DomainTag} {r r' : Bytes} (h : utf8 t.asStr ++ r = utf8 t'.asStr ++ r') : t = t' := by
  have key : ∀ t ∈ DomainTag.all, ∀ t' ∈ DomainTag.all, (utf8 t.asStr).isPrefixOf (utf8 t'.asStr) = true → t = t' := by
    decide +kernel
  rcases List.prefix_or_prefix_of_prefix ⟨r, h⟩ ⟨r', rfl⟩ with hp | hp
  · exact key t t.mem_all t' t'.mem_all (List.isPrefixOf_iff_prefix.2 hp)
  · exact (key t' t'.mem_all t t.mem_all (List.isPrefixOf_iff_prefix.2 hp)).symm

theorem tag_of_build {tag tag' : DomainTag} {env env' : Envelope} {fs fs' : List Field} {m : Bytes}
    (h : build tag env fs = .ok m) (h' : build tag' env' fs' = .ok m) : tag = tag' := by
  obtain ⟨-, -, -, -, -, hm⟩ := build_eq_ok_iff.1 h
  obtain ⟨-, -, -, -, -, hm'⟩ := build_eq_ok_iff.1 h'
  simp only [hm, header, List.append_assoc] at hm'
  exact tag_of_utf8_append hm'

/-! ## The layouts -/

/-- one constructor per layout, with the arguments of its signing function -/
inductive SignedMessage where
  | ledgerEntry (input : EntryHashInput)
  | chainEvent (input : ChainHashInput)
  | keyEvent (input : KeyEventHashInput)
  | treeHead (treeSize : Int64) (rootHashHex networkId signingKeyId : String) (createdAt : OffsetDateTime)
      (envelope : Envelope)
  | cosignature (cosig : WitnessCosignature) (witnessKey : FixedBytes 32)
  | announcement (baseUrl witnessKeyId : String) (announcedAt : OffsetDateTime)
  | inception (networkId : String) (ticketId : Uuid) (identityId : IdentityId) (publicKey : FixedBytes 32)
      (displayName : String)
  | deviceGrant (networkId : String) (grantId : Uuid) (identityId : IdentityId) (approverSigningKeyId : Uuid)
      (requestedPublicKey : FixedBytes 32) (seq : UInt64) (prevHash : Option (FixedBytes 32))
  | revocation (networkId : String) (identityId : IdentityId) (signingKeyId revokedBySigningKeyId : Uuid) (seq : UInt64)
      (prevHash : Option (FixedBytes 32))

namespace SignedMessage

/-- the bytes that are signed or hashed, where the layout's function succeeds -/
def signingBytes : SignedMessage → Option Bytes
  | .ledgerEntry input => (entrySigningBytes input).toOption
  | .chainEvent input => (chainEventSigningBytes input).toOption
  | .keyEvent input => (keyEventSigningBytes input).toOption
  | .treeHead treeSize rootHashHex networkId signingKeyId createdAt envelope =>
    (signingMessage treeSize rootHashHex networkId signingKeyId createdAt envelope).toOption
  | .cosignature cosig witnessKey => (witnessSigningMessage cosig witnessKey).toOption
  | .announcement baseUrl witnessKeyId announcedAt => (witnessAnnounceMessage baseUrl witnessKeyId announcedAt).toOption
  | .inception networkId ticketId identityId publicKey displayName =>
    (identityCreatedSigningBytes networkId ticketId identityId publicKey displayName).toOption
  | .deviceGrant networkId grantId identityId approverSigningKeyId requestedPublicKey seq prevHash =>
    (deviceGrantApprovalSigningBytes networkId grantId identityId approverSigningKeyId requestedPublicKey seq
      prevHash).toOption
  | .revocation networkId identityId signingKeyId revokedBySigningKeyId seq prevHash =>
    (signingKeyRevokedSigningBytes networkId identityId signingKeyId revokedBySigningKeyId seq prevHash).toOption

def tag : SignedMessage → DomainTag
  | .ledgerEntry _ => .ledgerEntry
  | .chainEvent _ => .identityChainEvent
  | .keyEvent _ => .identityKeyEvent
  | .treeHead .. => .settlementSth
  | .cosignature .. => .witnessCosign
  | .announcement .. => .witnessAnnounce
  | .inception .. => .identityCreated
  | .deviceGrant .. => .deviceGrantApproved
  | .revocation .. => .identitySigningKeyRevoked

/-- the envelope a message carries, or what this node authors -/
def envelope : SignedMessage → Envelope
  | .ledgerEntry input => input.envelope
  | .chainEvent input => input.envelope
  | .treeHead _ _ _ _ _ envelope => envelope
  | .cosignature cosig _ => cosig.envelope
  | m => .current m.tag

/-- an optional hash as fields -/
def optionalFields : Option (FixedBytes 32) → List Field
  | some hash => [⟨.u8, (1 : UInt8)⟩, ⟨.hash, hash⟩]
  | none => [⟨.u8, (0 : UInt8)⟩]

def positionFields (seq : UInt64) (prevHash : Option (FixedBytes 32)) : List Field :=
  [⟨.u64, seq⟩, ⟨.hashAlgo, HashAlgo.sha256⟩] ++ optionalFields prevHash

def contentFields : KeyEventContent → List Field
  | .deviceGrant signingKeyId publicKey approvedBySigningKeyId grantId approvalSignature =>
    [⟨.u8, (1 : UInt8)⟩, ⟨.uuid, signingKeyId⟩, ⟨.uuid, approvedBySigningKeyId⟩, ⟨.key, publicKey⟩, ⟨.uuid, grantId⟩,
      ⟨.signature, approvalSignature⟩]
  | .revocation signingKeyId revokedBySigningKeyId signature =>
    [⟨.u8, (2 : UInt8)⟩, ⟨.uuid, signingKeyId⟩, ⟨.uuid, revokedBySigningKeyId⟩, ⟨.signature, signature⟩]

/-- the fields of a message, in layout order; `none` when a hex text does not parse -/
def fields : SignedMessage → Option (List Field)
  | .ledgerEntry i => some [⟨.str, i.networkId⟩, ⟨.str, i.shardId⟩, ⟨.u64, i.seq⟩, ⟨.uuid, i.eventId⟩, ⟨.str, i.kind⟩,
      ⟨.str, i.issuer⟩, ⟨.str, i.subject⟩, ⟨.u32, i.eventVersion⟩, ⟨.i64, i.timestampMicros⟩,
      ⟨.hashAlgo, i.envelope.hashAlgo⟩, ⟨.hash, i.prevHash⟩, ⟨.hash, i.payloadHash⟩]
  | .chainEvent i => some ([⟨.fixed 32, i.identityId.asBytes⟩, ⟨.u64, i.seq⟩, ⟨.uuid, i.eventId⟩, ⟨.str, i.kind⟩,
      ⟨.str, i.issuer⟩, ⟨.str, i.subject⟩, ⟨.u32, i.eventVersion⟩, ⟨.i64, i.timestampMicros⟩,
      ⟨.hashAlgo, i.envelope.hashAlgo⟩] ++ (optionalFields i.prevHash ++ [⟨.hash, i.payloadHash⟩]))
  | .keyEvent i => some ([⟨.fixed 32, i.identityId.asBytes⟩] ++ (positionFields i.seq i.prevHash ++ contentFields i.content))
  | .treeHead treeSize rootHashHex networkId signingKeyId createdAt envelope => do
    let root ← (parseHash "root_hash" rootHashHex).toOption
    return [⟨.i64, treeSize⟩, ⟨.str, networkId⟩, ⟨.str, signingKeyId⟩, ⟨.i64, createdAt.unixTimestamp⟩,
      ⟨.hashAlgo, envelope.hashAlgo⟩, ⟨.hash, root⟩]
  | .cosignature c witnessKey => do
    let root ← (parseHash "root_hash" c.rootHash).toOption
    let authorSignature ← (decodeAuthorSignature c.authorSignature).toOption
    return [⟨.i64, c.treeSize⟩, ⟨.str, c.networkId⟩, ⟨.i64, c.authorCreatedAt.unixTimestamp⟩, ⟨.str, c.authorKeyId⟩,
      ⟨.signature, authorSignature⟩, ⟨.str, c.witnessKeyId⟩, ⟨.key, witnessKey⟩, ⟨.i64, c.observedAt.unixTimestamp⟩,
      ⟨.hashAlgo, c.envelope.hashAlgo⟩, ⟨.hash, root⟩]
  | .announcement baseUrl witnessKeyId announcedAt => do
    let key ← (parseHash "witness_key_id" witnessKeyId).toOption
    return [⟨.str, baseUrl⟩, ⟨.key, key⟩, ⟨.i64, announcedAt.unixTimestamp⟩]
  | .inception networkId ticketId identityId publicKey displayName => some [⟨.str, networkId⟩, ⟨.uuid, ticketId⟩,
      ⟨.fixed 32, identityId.asBytes⟩, ⟨.key, publicKey⟩, ⟨.str, displayName⟩]
  | .deviceGrant networkId grantId identityId approverSigningKeyId requestedPublicKey seq prevHash =>
    some ([⟨.str, networkId⟩, ⟨.uuid, grantId⟩, ⟨.fixed 32, identityId.asBytes⟩, ⟨.uuid, approverSigningKeyId⟩,
      ⟨.key, requestedPublicKey⟩] ++ positionFields seq prevHash)
  | .revocation networkId identityId signingKeyId revokedBySigningKeyId seq prevHash =>
    some ([⟨.str, networkId⟩, ⟨.fixed 32, identityId.asBytes⟩, ⟨.uuid, signingKeyId⟩, ⟨.uuid, revokedBySigningKeyId⟩] ++
      positionFields seq prevHash)

/-- every layout writes its fields behind its header -/
theorem signingBytes_eq (m : SignedMessage) :
    m.signingBytes = m.fields.bind fun fs => (build m.tag m.envelope fs).toOption := by
  cases m with
  | ledgerEntry i => exact Fallible.toOption_mapError _ _
  | chainEvent i =>
    obtain ⟨_, _, prev, _⟩ := i
    cases prev <;> rfl
  | keyEvent i =>
    obtain ⟨_, _, prev, content⟩ := i
    cases prev <;> cases content <;> rfl
  | treeHead =>
    simp only [signingBytes, signingMessage, fields, Fallible.toOption_bind, Fallible.toOption_mapError,
      Option.bind_eq_bind, Option.bind_assoc]
    rfl
  | cosignature =>
    simp only [signingBytes, witnessSigningMessage, fields, Fallible.toOption_bind, Fallible.toOption_mapError,
      Option.bind_eq_bind, Option.bind_assoc]
    rfl
  | announcement =>
    simp only [signingBytes, witnessAnnounceMessage, fields, Fallible.toOption_bind, Fallible.toOption_mapError,
      Option.bind_eq_bind, Option.bind_assoc]
    rfl
  | inception => rfl
  | deviceGrant _ _ _ _ _ _ prev => cases prev <;> rfl
  | revocation _ _ _ _ _ prev => cases prev <;> rfl

/-! ## Reading the layouts -/

/-- a flag byte, then a hash when the flag is set, then the rest -/
def readOptional (next : Program FieldKind.Value) : Program FieldKind.Value :=
  .read .u8 fun (flag : UInt8) => if flag = 1 then .read .hash fun _ => next else next

def readPosition (next : Program FieldKind.Value) : Program FieldKind.Value :=
  .readKinds [.u64, .hashAlgo] (readOptional next)

/-- the content byte of a key event decides what follows -/
def readContent : Program FieldKind.Value :=
  .read .u8 fun (content : UInt8) =>
    if content = 1 then .readKinds [.uuid, .uuid, .key, .uuid, .signature] .done
    else .readKinds [.uuid, .uuid, .signature] .done

/-- the reads of each layout -/
def layoutProgram : DomainTag → Program FieldKind.Value
  | .ledgerEntry => .readKinds [.str, .str, .u64, .uuid, .str, .str, .str, .u32, .i64, .hashAlgo, .hash, .hash] .done
  | .identityChainEvent => .readKinds [.fixed 32, .u64, .uuid, .str, .str, .str, .u32, .i64, .hashAlgo]
      (readOptional (.readKinds [.hash] .done))
  | .identityKeyEvent => .readKinds [.fixed 32] (readPosition readContent)
  | .settlementSth => .readKinds [.i64, .str, .str, .i64, .hashAlgo, .hash] .done
  | .witnessCosign => .readKinds [.i64, .str, .i64, .str, .signature, .str, .key, .i64, .hashAlgo, .hash] .done
  | .witnessAnnounce => .readKinds [.str, .key, .i64] .done
  | .identityCreated => .readKinds [.str, .uuid, .fixed 32, .key, .str] .done
  | .deviceGrantApproved => .readKinds [.str, .uuid, .fixed 32, .uuid, .key] (readPosition .done)
  | .identitySigningKeyRevoked => .readKinds [.str, .fixed 32, .uuid, .uuid] (readPosition .done)
  | _ => .done

theorem readOptional_follows {next : Program FieldKind.Value} {fs : List Field} (h : next.Follows fs)
    (hash : Option (FixedBytes 32)) : (readOptional next).Follows (optionalFields hash ++ fs) := by
  cases hash with
  | none => exact .read h
  | some hash => exact .read (.read h)

theorem readPosition_follows {next : Program FieldKind.Value} {fs : List Field} (h : next.Follows fs) (seq : UInt64)
    (prevHash : Option (FixedBytes 32)) : (readPosition next).Follows (positionFields seq prevHash ++ fs) := by
  rw [positionFields, List.append_assoc]
  exact Program.readKinds_follows (by rfl) (readOptional_follows h prevHash)

theorem readContent_follows (content : KeyEventContent) : readContent.Follows (contentFields content) := by
  cases content with
  | deviceGrant => exact .read (Program.readKinds_done_follows rfl)
  | revocation => exact .read (Program.readKinds_done_follows rfl)

theorem layoutProgram_follows {m : SignedMessage} {fs : List Field} (h : m.fields = some fs) :
    (layoutProgram m.tag).Follows fs := by
  cases m with
  | ledgerEntry =>
    cases h
    exact Program.readKinds_done_follows rfl
  | chainEvent i =>
    cases h
    exact Program.readKinds_follows (by rfl) (readOptional_follows (.read .done) i.prevHash)
  | keyEvent i =>
    cases h
    exact Program.readKinds_follows (by rfl) (readPosition_follows (readContent_follows i.content) i.seq i.prevHash)
  | treeHead =>
    obtain ⟨root, -, h⟩ := Option.bind_eq_some_iff.1 h
    cases h
    exact Program.readKinds_done_follows rfl
  | cosignature =>
    obtain ⟨root, -, h⟩ := Option.bind_eq_some_iff.1 h
    obtain ⟨authorSignature, -, h⟩ := Option.bind_eq_some_iff.1 h
    cases h
    exact Program.readKinds_done_follows rfl
  | announcement =>
    obtain ⟨key, -, h⟩ := Option.bind_eq_some_iff.1 h
    cases h
    exact Program.readKinds_done_follows rfl
  | inception =>
    cases h
    exact Program.readKinds_done_follows rfl
  | deviceGrant _ _ _ _ _ seq prevHash =>
    cases h
    have hp := readPosition_follows .done seq prevHash
    rw [List.append_nil] at hp
    exact Program.readKinds_follows (by rfl) hp
  | revocation _ _ _ _ seq prevHash =>
    cases h
    have hp := readPosition_follows .done seq prevHash
    rw [List.append_nil] at hp
    exact Program.readKinds_follows (by rfl) hp

/-! ## Bytes determine messages -/

/-- one layout and equal fields; times that are signed in whole seconds agree to the second, and a cosignature's author
signature agrees as bytes. A cosignature's own signature is not part of its message. -/
def Agrees : SignedMessage → SignedMessage → Prop
  | .ledgerEntry a, .ledgerEntry b => a = b
  | .chainEvent a, .chainEvent b => a = b
  | .keyEvent a, .keyEvent b => a = b
  | .treeHead size root network key time env, .treeHead size' root' network' key' time' env' =>
    size = size' ∧ root = root' ∧ network = network' ∧ key = key' ∧ time.unixTimestamp = time'.unixTimestamp ∧ env = env'
  | .cosignature a key, .cosignature b key' =>
    key = key' ∧ a.treeSize = b.treeSize ∧ a.rootHash = b.rootHash ∧ a.networkId = b.networkId ∧
      a.authorCreatedAt.unixTimestamp = b.authorCreatedAt.unixTimestamp ∧ a.authorKeyId = b.authorKeyId ∧
      hexDecode a.authorSignature = hexDecode b.authorSignature ∧ a.witnessKeyId = b.witnessKeyId ∧
      a.observedAt.unixTimestamp = b.observedAt.unixTimestamp ∧ a.envelope = b.envelope
  | .announcement url key time, .announcement url' key' time' =>
    url = url' ∧ key = key' ∧ time.unixTimestamp = time'.unixTimestamp
  | .inception network ticket identity key name, .inception network' ticket' identity' key' name' =>
    network = network' ∧ ticket = ticket' ∧ identity = identity' ∧ key = key' ∧ name = name'
  | .deviceGrant network grant identity approver key seq prev,
      .deviceGrant network' grant' identity' approver' key' seq' prev' =>
    network = network' ∧ grant = grant' ∧ identity = identity' ∧ approver = approver' ∧ key = key' ∧ seq = seq' ∧
      prev = prev'
  | .revocation network identity key revoker seq prev, .revocation network' identity' key' revoker' seq' prev' =>
    network = network' ∧ identity = identity' ∧ key = key' ∧ revoker = revoker' ∧ seq = seq' ∧ prev = prev'
  | _, _ => False

theorem optionalFields_append_inj {a b : Option (FixedBytes 32)} {fs gs : List Field}
    (h : optionalFields a ++ fs = optionalFields b ++ gs) : a = b ∧ fs = gs := by
  cases a <;> cases b <;> simp_all [optionalFields]

theorem positionFields_append_inj {seq seq' : UInt64} {prev prev' : Option (FixedBytes 32)} {fs gs : List Field}
    (h : positionFields seq prev ++ fs = positionFields seq' prev' ++ gs) : seq = seq' ∧ prev = prev' ∧ fs = gs := by
  simp only [positionFields, List.cons_append, List.nil_append, List.cons.injEq, Sigma.mk.injEq,
    heq_eq_eq, true_and] at h
  obtain ⟨rfl, h⟩ := h
  obtain ⟨rfl, rfl⟩ := optionalFields_append_inj h
  exact ⟨rfl, rfl, rfl⟩

theorem positionFields_inj {seq seq' : UInt64} {prev prev' : Option (FixedBytes 32)}
    (h : positionFields seq prev = positionFields seq' prev') : seq = seq' ∧ prev = prev' := by
  rw [← List.append_nil (positionFields seq prev), ← List.append_nil (positionFields seq' prev')] at h
  obtain ⟨h1, h2, -⟩ := positionFields_append_inj h
  exact ⟨h1, h2⟩

theorem contentFields_inj {c c' : KeyEventContent} (h : contentFields c = contentFields c') : c = c' := by
  cases c <;> cases c' <;> simp_all [contentFields]

theorem eq_of_parseHash {name text text' : String} {hash : FixedBytes 32}
    (h : (parseHash name text).toOption = some hash) (h' : (parseHash name text').toOption = some hash) :
    text = text' :=
  parseHash_inj (Fallible.toOption_eq_some.1 h) (Fallible.toOption_eq_some.1 h')

theorem hexDecode_of_author {text text' : String} {signature : FixedBytes 64}
    (h : (decodeAuthorSignature text).toOption = some signature)
    (h' : (decodeAuthorSignature text').toOption = some signature) : hexDecode text = hexDecode text' := by
  have key : ∀ t, (decodeAuthorSignature t).toOption = some signature → hexDecode t = some signature.toList := by
    intro t ht
    rw [Fallible.toOption_eq_some, decodeAuthorSignature] at ht
    split at ht
    · rename_i bytes hb
      cases ht
      obtain ⟨bs, hbs, hof⟩ := Option.bind_eq_some_iff.1 hb
      rw [hbs, FixedBytes.toList_of_ofList? hof]
    · cases ht
  rw [key text h, key text' h']

/-- messages of one layout with equal fields and equal header values agree -/
theorem agrees_of_fields {m m' : SignedMessage} {fs : List Field} (htag : m.tag = m'.tag) (h : m.fields = some fs)
    (h' : m'.fields = some fs) (hl : m.envelope.layoutVersion = m'.envelope.layoutVersion)
    (hr : m.envelope.rulesVersion = m'.envelope.rulesVersion) (hx : m.envelope.extensions = m'.envelope.extensions) :
    m.Agrees m' := by
  cases m with
  | ledgerEntry i =>
    cases m' with
    | ledgerEntry i' =>
      rw [← h'] at h
      simp only [fields, Option.some.injEq, List.cons.injEq, Sigma.mk.injEq, heq_eq_eq, true_and, and_true] at h
      obtain ⟨h1, h2, h3, h4, h5, h6, h7, h8, h9, h10, h11⟩ := h
      exact EntryHashInput.ext h1 h2 h3 h10 h4 h5 h6 h7 h11 h9 h8 (Envelope.ext hl hr rfl hx)
    | _ => cases htag
  | chainEvent i =>
    cases m' with
    | chainEvent i' =>
      rw [← h'] at h
      simp only [fields, Option.some.injEq, List.cons_append, List.nil_append, List.cons.injEq, Sigma.mk.injEq,
        heq_eq_eq, true_and] at h
      obtain ⟨h1, h2, h3, h4, h5, h6, h7, h8, h⟩ := h
      obtain ⟨h9, h⟩ := optionalFields_append_inj h
      simp only [List.cons.injEq, Sigma.mk.injEq, heq_eq_eq, true_and, and_true] at h
      exact ChainHashInput.ext (IdentityId.ext h1) h2 h9 h3 h4 h5 h6 h7 h8 h (Envelope.ext hl hr rfl hx)
    | _ => cases htag
  | keyEvent i =>
    cases m' with
    | keyEvent i' =>
      rw [← h'] at h
      simp only [fields, Option.some.injEq, List.cons_append, List.nil_append, List.cons.injEq, Sigma.mk.injEq,
        heq_eq_eq, true_and] at h
      obtain ⟨h1, h⟩ := h
      obtain ⟨h2, h3, h4⟩ := positionFields_append_inj h
      exact KeyEventHashInput.ext (IdentityId.ext h1) h2 h3 (contentFields_inj h4)
    | _ => cases htag
  | treeHead size root network key time env =>
    cases m' with
    | treeHead size' root' network' key' time' env' =>
      obtain ⟨r, hroot, h⟩ := Option.bind_eq_some_iff.1 h
      obtain ⟨r', hroot', h'⟩ := Option.bind_eq_some_iff.1 h'
      rw [← h'] at h
      simp only [Option.pure_def, Option.some.injEq, List.cons.injEq, Sigma.mk.injEq, heq_eq_eq, true_and,
        and_true] at h
      obtain ⟨h1, h2, h3, h4, rfl⟩ := h
      exact ⟨h1, eq_of_parseHash hroot hroot', h2, h3, h4, Envelope.ext hl hr rfl hx⟩
    | _ => cases htag
  | cosignature c key =>
    cases m' with
    | cosignature c' key' =>
      obtain ⟨r, hroot, h⟩ := Option.bind_eq_some_iff.1 h
      obtain ⟨s, hsig, h⟩ := Option.bind_eq_some_iff.1 h
      obtain ⟨r', hroot', h'⟩ := Option.bind_eq_some_iff.1 h'
      obtain ⟨s', hsig', h'⟩ := Option.bind_eq_some_iff.1 h'
      rw [← h'] at h
      simp only [Option.pure_def, Option.some.injEq, List.cons.injEq, Sigma.mk.injEq, heq_eq_eq, true_and,
        and_true] at h
      obtain ⟨h1, h2, h3, h4, rfl, h5, h6, h7, rfl⟩ := h
      exact ⟨h6, h1, eq_of_parseHash hroot hroot', h2, h3, h4, hexDecode_of_author hsig hsig', h5, h7,
        Envelope.ext hl hr rfl hx⟩
    | _ => cases htag
  | announcement url key time =>
    cases m' with
    | announcement url' key' time' =>
      obtain ⟨k, hkey, h⟩ := Option.bind_eq_some_iff.1 h
      obtain ⟨k', hkey', h'⟩ := Option.bind_eq_some_iff.1 h'
      rw [← h'] at h
      simp only [Option.pure_def, Option.some.injEq, List.cons.injEq, Sigma.mk.injEq, heq_eq_eq, true_and,
        and_true] at h
      obtain ⟨h1, rfl, h2⟩ := h
      exact ⟨h1, eq_of_parseHash hkey hkey', h2⟩
    | _ => cases htag
  | inception =>
    cases m' with
    | inception =>
      rw [← h'] at h
      simp only [fields, Option.some.injEq, List.cons.injEq, Sigma.mk.injEq, heq_eq_eq, true_and, and_true] at h
      obtain ⟨h1, h2, h3, h4, h5⟩ := h
      exact ⟨h1, h2, IdentityId.ext h3, h4, h5⟩
    | _ => cases htag
  | deviceGrant =>
    cases m' with
    | deviceGrant =>
      rw [← h'] at h
      simp only [fields, Option.some.injEq, List.cons_append, List.nil_append, List.cons.injEq, Sigma.mk.injEq,
        heq_eq_eq, true_and] at h
      obtain ⟨h1, h2, h3, h4, h5, h⟩ := h
      obtain ⟨h6, h7⟩ := positionFields_inj h
      exact ⟨h1, h2, IdentityId.ext h3, h4, h5, h6, h7⟩
    | _ => cases htag
  | revocation =>
    cases m' with
    | revocation =>
      rw [← h'] at h
      simp only [fields, Option.some.injEq, List.cons_append, List.nil_append, List.cons.injEq, Sigma.mk.injEq,
        heq_eq_eq, true_and] at h
      obtain ⟨h1, h2, h3, h4, h⟩ := h
      obtain ⟨h5, h6⟩ := positionFields_inj h
      exact ⟨h1, IdentityId.ext h2, h3, h4, h5, h6⟩
    | _ => cases htag

theorem agrees_of_signingBytes (m m' : SignedMessage) {bytes : Bytes} (h : m.signingBytes = some bytes)
    (h' : m'.signingBytes = some bytes) : m.Agrees m' := by
  rw [signingBytes_eq] at h h'
  obtain ⟨fs, hfs, h⟩ := Option.bind_eq_some_iff.1 h
  obtain ⟨fs', hfs', h'⟩ := Option.bind_eq_some_iff.1 h'
  rw [Fallible.toOption_eq_some] at h h'
  have htag := tag_of_build h h'
  have hp := layoutProgram_follows hfs
  have hp' := layoutProgram_follows hfs'
  rw [← htag] at h' hp'
  obtain ⟨rfl, hl, hr, hx⟩ := build_inj hp hp' h h'
  exact agrees_of_fields htag hfs hfs' hl hr hx

/-- **Signed messages are separated and injective.** Two messages of any of the layouts with equal signing bytes have
one layout, and agree on every field, envelope and extensions included. -/
theorem signing_bytes_injective (m m' : SignedMessage) (bytes : Bytes) (h : m.signingBytes = some bytes)
    (h' : m'.signingBytes = some bytes) : m.Agrees m' :=
  agrees_of_signingBytes m m' h h'

/-- a device grant has bytes, and no message that disagrees with it has the same -/
theorem signing_bytes_injective_device_grant :
    let grant : SignedMessage := .deviceGrant "n" (FixedBytes.replicate 16 1) ⟨FixedBytes.replicate 32 2⟩
      (FixedBytes.replicate 16 3) (FixedBytes.replicate 32 4) 5 none
    grant.signingBytes.isSome = true ∧ ∀ m : SignedMessage, m.signingBytes = grant.signingBytes → m.Agrees grant := by
  intro grant
  have hs : grant.signingBytes.isSome = true := by decide +kernel
  refine ⟨hs, ?_⟩
  intro m hm
  obtain ⟨bytes, hb⟩ := Option.isSome_iff_exists.1 hs
  exact signing_bytes_injective m grant bytes (hm.trans hb) hb

/-- two tree heads made within one second are signed over the same bytes, though their times differ -/
theorem tree_heads_within_one_second :
    let root := hexEncode (List.replicate 32 0)
    let head := fun (time : OffsetDateTime) =>
      SignedMessage.treeHead 1 root "network" "key" time (Envelope.current .settlementSth)
    (head 0).signingBytes.isSome = true ∧ (head 0).signingBytes = (head 1).signingBytes ∧ head 0 ≠ head 1 := by
  refine ⟨by decide +kernel, rfl, ?_⟩
  intro h
  injection h with _ _ _ _ htime
  exact absurd htime (by decide)

end SignedMessage

end Avalon.SignedMessages
