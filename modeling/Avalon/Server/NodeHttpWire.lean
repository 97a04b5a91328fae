/-
The frames of node-to-node HTTP over a stream (`crates/server/src/node_http/wire.rs`).

A frame is the length of its head, the head as JSON, the length of the body, and the body. The head is written as `serde_json` writes
a struct: its fields in order, strings with the shortest escapes. What `serde_json` reads is a parameter. A stream is the bytes that
it will still deliver before it ends. Whether the buffer budget admits a body in time is an input.

Results:
- `readFrame_eq_ok`: the frames that are read, and what of the stream is left.
- `readFrame_prefix`: no part of a frame is read as one, as long as the budget admits its body.
- `length_requestToVec`, `length_responseToVec`: heads within the limits on their fields fit the limit on a head, whatever is escaped.
- `frame_round_trip`: a message within the limits is written, read back in front of any bytes, and from no part of its frame.
-/
import Mathlib.Tactic
import Avalon.Core.Bytes
import Avalon.Core.Fallible
import Avalon.Core.Wire
import Avalon.Protocol.CanonicalPayload

namespace Avalon.NodeHttp

open Wire Avalon.CanonicalPayload

/-! ## Limits and messages -/

def maxMaxRequestBytes : ℕ := 16 * 1024 * 1024

def maxMaxResponseBytes : ℕ := 64 * 1024 * 1024

def maxHeaderCount : ℕ := 32

def maxHeaderBytes : ℕ := 16 * 1024

def maxPathBytes : ℕ := 4096

def maxMethodBytes : ℕ := 16

/-- ceiling on the JSON head itself -/
def maxHeadFrameBytes : ℕ := 96 * 1024

/-- buffer budget held for a body, and whether it could not be had in time -/
structure BufferGrant where
  permit : Option ℕ
  overloaded : Bool
deriving DecidableEq

abbrev Headers := List (String × String)

structure RequestHead where
  method : String
  pathAndQuery : String
  headers : Headers
deriving DecidableEq

structure ResponseHead where
  status : UInt16
  headers : Headers
deriving DecidableEq

/-- two requests are equal whatever their grants -/
structure NodeHttpRequest extends RequestHead where
  body : Bytes
  grant : BufferGrant

structure NodeHttpResponse extends ResponseHead where
  body : Bytes

inductive IoError where
  | invalidData (msg : String)
  | unexpectedEof
deriving DecidableEq

/-- what `serde_json` makes of the bytes of a head -/
structure Serde where
  requestFromSlice : Bytes → Except String RequestHead
  responseFromSlice : Bytes → Except String ResponseHead

/-- the limits of a node; its settings keep them below fixed ceilings -/
structure NodeHttpCodec where
  maxRequestBytes : ℕ
  maxResponseBytes : ℕ
  request_le : maxRequestBytes ≤ maxMaxRequestBytes
  response_le : maxResponseBytes ≤ maxMaxResponseBytes

/-! ## Writing -/

def jsonString (s : String) : List Char := '"' :: (s.toList.flatMap escapeChar ++ ['"'])

def headerText (h : String × String) : List Char := '[' :: (jsonString h.1 ++ ',' :: (jsonString h.2 ++ [']']))

def headersText (headers : Headers) : List Char := '[' :: (separated (headers.map headerText) ++ [']'])

def requestText (head : RequestHead) : List Char :=
  "\x7b\"method\":".toList ++ jsonString head.method ++ ",\"path_and_query\":".toList ++ jsonString head.pathAndQuery ++
    ",\"headers\":".toList ++ headersText head.headers ++ ['\x7d']

def responseText (head : ResponseHead) : List Char :=
  "\x7b\"status\":".toList ++ Nat.toDigits 10 head.status.toNat ++ ",\"headers\":".toList ++ headersText head.headers ++ ['\x7d']

/-- `serde_json::to_vec` of a request head -/
def requestToVec (head : RequestHead) : Bytes := utf8 (String.ofList (requestText head))

/-- `serde_json::to_vec` of a response head -/
def responseToVec (head : ResponseHead) : Bytes := utf8 (String.ofList (responseText head))

/-- name plus value bytes of all headers -/
def headerBytes (headers : Headers) : ℕ := (headers.map fun h => (utf8 h.1).length + (utf8 h.2).length).sum

def checkHeaders (headers : Headers) : Except IoError Unit :=
  if headers.length > maxHeaderCount then .error (.invalidData "too many headers")
  else if headerBytes headers > maxHeaderBytes then .error (.invalidData "headers too large")
  else .ok ()

/-- a head and a body, each behind its length -/
def frame (head body : Bytes) : Bytes := beBytes 4 head.length ++ (head ++ (beBytes 4 body.length ++ body))

def writeFrame (head body : Bytes) : Except IoError Bytes :=
  if head.length > maxHeadFrameBytes then .error (.invalidData "header frame too large") else .ok (frame head body)

/-- the request line is too long -/
def lineTooLarge (head : RequestHead) : Bool :=
  decide ((utf8 head.pathAndQuery).length > maxPathBytes) || decide ((utf8 head.method).length > maxMethodBytes)

def writeRequest (codec : NodeHttpCodec) (req : NodeHttpRequest) : Except IoError Bytes :=
  if req.body.length > codec.maxRequestBytes then .error (.invalidData "request body too large")
  else if lineTooLarge req.toRequestHead then .error (.invalidData "request line too large")
  else do
    checkHeaders req.headers
    writeFrame (requestToVec req.toRequestHead) req.body

def writeResponse (codec : NodeHttpCodec) (res : NodeHttpResponse) : Except IoError Bytes :=
  if res.body.length > codec.maxResponseBytes then .error (.invalidData "response body too large")
  else do
    checkHeaders res.headers
    writeFrame (responseToVec res.toResponseHead) res.body

/-! ## Reading -/

/-- exactly so many bytes -/
def readBounded (len : ℕ) : Decoder IoError Bytes := fun stream =>
  if stream.length < len then .error .unexpectedEof else .ok (stream.take len, stream.drop len)

def readLen : Decoder IoError ℕ := do
  return beNat (← readBounded 4)

/-- what the budget grants for a body of this length; no budget is asked for none -/
def grantFor (budget : Option (ℕ → Bool)) (bodyLen : ℕ) : BufferGrant :=
  match budget with
  | none => ⟨none, false⟩
  | some admits =>
    if bodyLen = 0 then ⟨none, false⟩ else if admits bodyLen then ⟨some bodyLen, false⟩ else ⟨none, true⟩

/-- leaves the body unread when the budget does not admit it -/
def readFrame (maxBody : ℕ) (budget : Option (ℕ → Bool)) : Decoder IoError (Bytes × Bytes × BufferGrant) := do
  let headLen ← readLen
  if headLen > maxHeadFrameBytes then throw (.invalidData "header frame too large")
  else
    let head ← readBounded headLen
    let bodyLen ← readLen
    if bodyLen > maxBody then throw (.invalidData "body too large")
    else if (grantFor budget bodyLen).overloaded then return (head, [], grantFor budget bodyLen)
    else
      let body ← readBounded bodyLen
      return (head, body, grantFor budget bodyLen)

def readRequest (codec : NodeHttpCodec) (serde : Serde) (admits : ℕ → Bool) : Decoder IoError NodeHttpRequest := do
  let (raw, body, grant) ← readFrame codec.maxRequestBytes (some admits)
  let head ← StateT.lift ((serde.requestFromSlice raw).mapError .invalidData)
  if lineTooLarge head then throw (.invalidData "request line too large")
  else
    StateT.lift (checkHeaders head.headers)
    return { head with body := body, grant := grant }

def readResponse (codec : NodeHttpCodec) (serde : Serde) : Decoder IoError NodeHttpResponse := do
  let (raw, body, _) ← readFrame codec.maxResponseBytes none
  let head ← StateT.lift ((serde.responseFromSlice raw).mapError .invalidData)
  if ¬ (100 ≤ head.status ∧ head.status ≤ 599) then throw (.invalidData "status out of range")
  else
    StateT.lift (checkHeaders head.headers)
    return { head with body := body }

/-! ## Frames -/

theorem readBounded_eq_ok {len : ℕ} {stream bytes rest : Bytes} :
    readBounded len stream = .ok (bytes, rest) ↔ bytes.length = len ∧ stream = bytes ++ rest := by
  unfold readBounded
  constructor
  · intro h
    split at h
    · cases h
    · cases h
      exact ⟨by simp; omega, (List.take_append_drop len stream).symm⟩
  · rintro ⟨rfl, rfl⟩
    rw [if_neg (by simp), List.take_left, List.drop_left]

/-- a length is read from the four bytes that write it -/
theorem readLen_eq_ok {n : ℕ} {stream rest : Bytes} :
    readLen stream = .ok (n, rest) ↔ n < 2 ^ 32 ∧ stream = beBytes 4 n ++ rest := by
  unfold readLen
  rw [bind_eq_ok]
  constructor
  · rintro ⟨raw, mid, hraw, h⟩
    cases h
    obtain ⟨hlength, rfl⟩ := readBounded_eq_ok.1 hraw
    have hlt := beNat_lt raw
    have hback := beBytes_beNat raw
    rw [hlength] at hlt hback
    exact ⟨hlt, by rw [hback]⟩
  · rintro ⟨hlt, rfl⟩
    refine ⟨beBytes 4 n, rest, readBounded_eq_ok.2 ⟨beBytes_length 4 n, rfl⟩, ?_⟩
    rw [beNat_beBytes, Nat.mod_eq_of_lt (by omega)]
    rfl

/-- **The frames that are read**: a head within its limit, the length of a body within the limit, and the body, unless the budget
does not admit it -/
theorem readFrame_eq_ok {maxBody : ℕ} {budget : Option (ℕ → Bool)} {stream head body rest : Bytes} {grant : BufferGrant} :
    readFrame maxBody budget stream = .ok ((head, body, grant), rest) ↔
      head.length ≤ maxHeadFrameBytes ∧ ∃ bodyLen mid, bodyLen ≤ maxBody ∧ bodyLen < 2 ^ 32 ∧ grant = grantFor budget bodyLen ∧
        stream = beBytes 4 head.length ++ (head ++ (beBytes 4 bodyLen ++ mid)) ∧
        ((grant.overloaded = true ∧ body = [] ∧ mid = rest) ∨
          (grant.overloaded = false ∧ body.length = bodyLen ∧ mid = body ++ rest)) := by
  unfold readFrame
  rw [bind_eq_ok]
  constructor
  · rintro ⟨headLen, s1, hlen, h⟩
    obtain ⟨-, rfl⟩ := readLen_eq_ok.1 hlen
    split at h
    · cases h
    rename_i hhead
    obtain ⟨head', s2, hbytes, hrest⟩ := bind_eq_ok.1 h
    obtain ⟨bodyLen, s3, hlen', hrest'⟩ := bind_eq_ok.1 hrest
    obtain ⟨rfl, rfl⟩ := readBounded_eq_ok.1 hbytes
    obtain ⟨hlt, rfl⟩ := readLen_eq_ok.1 hlen'
    split at hrest'
    · cases hrest'
    rename_i hbody
    split at hrest'
    · rename_i hover
      cases hrest'
      exact ⟨not_lt.1 hhead, bodyLen, _, not_lt.1 hbody, hlt, rfl, rfl, .inl ⟨hover, rfl, rfl⟩⟩
    · rename_i hover
      obtain ⟨body', s4, hbytes', hlast⟩ := bind_eq_ok.1 hrest'
      cases hlast
      obtain ⟨hlength, rfl⟩ := readBounded_eq_ok.1 hbytes'
      exact ⟨not_lt.1 hhead, bodyLen, _, not_lt.1 hbody, hlt, rfl, rfl, .inr ⟨by simpa using hover, hlength, rfl⟩⟩
  · rintro ⟨hhead, bodyLen, mid, hbody, hlt, rfl, rfl, hcase⟩
    have hheadLt : head.length < 2 ^ 32 := lt_of_le_of_lt hhead (by decide)
    refine ⟨head.length, _, readLen_eq_ok.2 ⟨hheadLt, rfl⟩, ?_⟩
    rw [if_neg (not_lt.2 hhead)]
    refine bind_eq_ok.2 ⟨head, _, readBounded_eq_ok.2 ⟨rfl, rfl⟩, bind_eq_ok.2 ⟨bodyLen, mid, readLen_eq_ok.2 ⟨hlt, rfl⟩, ?_⟩⟩
    rw [if_neg (not_lt.2 hbody)]
    rcases hcase with ⟨hover, rfl, rfl⟩ | ⟨hover, hlength, rfl⟩
    · rw [if_pos hover]
      rfl
    · rw [if_neg (by simp [hover])]
      exact bind_eq_ok.2 ⟨body, rest, readBounded_eq_ok.2 ⟨hlength, rfl⟩, rfl⟩

theorem length_append_inj {m n : ℕ} {x y : Bytes} (hm : m < 2 ^ 32) (hn : n < 2 ^ 32)
    (h : beBytes 4 m ++ x = beBytes 4 n ++ y) : m = n ∧ x = y := by
  have hread : readLen (beBytes 4 m ++ x) = .ok (m, x) := readLen_eq_ok.2 ⟨hm, rfl⟩
  rw [h, readLen_eq_ok.2 ⟨hn, rfl⟩] at hread
  cases hread
  exact ⟨rfl, rfl⟩

/-- **No part of a frame is a frame**, where the budget admits its body -/
theorem readFrame_prefix {maxBody : ℕ} {budget : Option (ℕ → Bool)} {head body part : Bytes}
    (hhead : head.length < 2 ^ 32) (hbody : body.length < 2 ^ 32) (hgrant : (grantFor budget body.length).overloaded = false)
    (hpart : part <+: frame head body) (hne : part ≠ frame head body) (read : Bytes × Bytes × BufferGrant) (rest : Bytes) :
    readFrame maxBody budget part ≠ .ok (read, rest) := by
  intro h
  obtain ⟨head', body', grant'⟩ := read
  obtain ⟨hhead', bodyLen, mid, -, hlt, rfl, rfl, hcase⟩ := readFrame_eq_ok.1 h
  obtain ⟨left, hleft⟩ := hpart
  have hsplit := hleft
  rw [frame] at hsplit
  simp only [List.append_assoc] at hsplit
  obtain ⟨hlength, hafter⟩ := length_append_inj (lt_of_le_of_lt hhead' (by decide)) hhead hsplit
  obtain ⟨rfl, hbodies⟩ := List.append_inj hafter hlength
  obtain ⟨rfl, hmid⟩ := length_append_inj hlt hbody hbodies
  rcases hcase with ⟨hover, -, -⟩ | ⟨-, hlength', rfl⟩
  · rw [hover] at hgrant
    cases hgrant
  · -- the body is there, so nothing of the frame is left
    rw [List.append_assoc] at hmid
    obtain ⟨-, hnil⟩ := List.append_inj (hmid.trans (List.append_nil body).symm) hlength'
    rw [(List.append_eq_nil_iff.1 hnil).2, List.append_nil] at hleft
    exact hne hleft

/-! ## Heads -/

/-- visible ASCII, space or tab -/
def Admitted (s : String) : Prop := ∀ c ∈ s.toList, c = '\t' ∨ (0x20 ≤ c.toNat ∧ c.toNat ≤ 0x7e)

-- over the characters of the text, not over all characters
instance (s : String) : Decidable (Admitted s) :=
  List.decidableBAll (fun c : Char => c = '\t' ∨ (0x20 ≤ c.toNat ∧ c.toNat ≤ 0x7e)) s.toList

/-- a text of ASCII characters -/
def Ascii (text : List Char) : Prop := ∀ c ∈ text, c.toNat < 128

instance (text : List Char) : Decidable (Ascii text) := List.decidableBAll (fun c : Char => c.toNat < 128) text

theorem Ascii.append {a b : List Char} (ha : Ascii a) (hb : Ascii b) : Ascii (a ++ b) := List.forall_mem_append.2 ⟨ha, hb⟩

theorem Ascii.cons {c : Char} {a : List Char} (hc : c.toNat < 128) (ha : Ascii a) : Ascii (c :: a) := List.forall_mem_cons.2 ⟨hc, ha⟩

theorem length_utf8 {text : List Char} (h : Ascii text) : (utf8 (String.ofList text)).length = text.length := by
  have hone : ∀ c ∈ text, (String.utf8EncodeChar c).length = 1 := by
    intro c hc
    rw [String.length_utf8EncodeChar, Char.utf8Size_eq_one_iff, UInt32.le_iff_toNat_le]
    exact Nat.le_of_lt_succ (h c hc)
  rw [utf8_ofList, List.length_flatMap, List.map_congr_left hone, List.map_const', List.sum_replicate]
  simp

theorem Admitted.ascii {s : String} (h : Admitted s) : Ascii s.toList := by
  intro c hc
  rcases h c hc with rfl | ⟨-, hle⟩
  · decide
  · omega

theorem Admitted.length {s : String} (h : Admitted s) : (utf8 s).length = s.toList.length := by
  rw [← length_utf8 h.ascii, String.ofList_toList]

/-- an escape takes two characters at most -/
theorem escapeChar_admitted {c : Char} (h : c = '\t' ∨ (0x20 ≤ c.toNat ∧ c.toNat ≤ 0x7e)) :
    (escapeChar c).length ≤ 2 ∧ Ascii (escapeChar c) := by
  rcases h with rfl | ⟨hlow, hhigh⟩
  · exact ⟨by decide, by decide⟩
  · unfold escapeChar
    split_ifs
    all_goals first
      | omega
      | exact ⟨by decide, by decide⟩
      | exact ⟨Nat.le_succ 1, fun c' hc' => by rw [List.mem_singleton.1 hc']; omega⟩

theorem jsonString_admitted {s : String} (h : Admitted s) :
    (jsonString s).length ≤ 2 * (utf8 s).length + 2 ∧ Ascii (jsonString s) := by
  have hall : ∀ text : List Char, (∀ c ∈ text, c = '\t' ∨ (0x20 ≤ c.toNat ∧ c.toNat ≤ 0x7e)) →
      (text.flatMap escapeChar).length ≤ 2 * text.length ∧ Ascii (text.flatMap escapeChar) := by
    intro text
    induction text with
    | nil => exact fun _ => ⟨Nat.zero_le _, List.forall_mem_nil _⟩
    | cons c text ih =>
      intro h
      obtain ⟨hc, htext⟩ := List.forall_mem_cons.1 h
      obtain ⟨hlength, hascii⟩ := ih htext
      obtain ⟨hlength', hascii'⟩ := escapeChar_admitted hc
      rw [List.flatMap_cons, List.length_append, List.length_cons]
      exact ⟨by omega, hascii'.append hascii⟩
  obtain ⟨hlength, hascii⟩ := hall s.toList h
  rw [jsonString, List.length_cons, List.length_append, List.length_singleton, h.length]
  exact ⟨by omega, .cons (by decide) (hascii.append (.cons (by decide) (List.forall_mem_nil _)))⟩

/-- names and values as the HTTP layer admits them -/
def AdmittedHeaders (headers : Headers) : Prop := ∀ h ∈ headers, Admitted h.1 ∧ Admitted h.2

theorem headersText_admitted {headers : Headers} (h : AdmittedHeaders headers) :
    (headersText headers).length ≤ 2 * headerBytes headers + 8 * headers.length + 2 ∧ Ascii (headersText headers) := by
  have hone : ∀ header : String × String, Admitted header.1 ∧ Admitted header.2 →
      (headerText header).length ≤ 2 * ((utf8 header.1).length + (utf8 header.2).length) + 7 ∧ Ascii (headerText header) := by
    rintro ⟨name, value⟩ ⟨hname, hvalue⟩
    obtain ⟨hlength, hascii⟩ := jsonString_admitted hname
    obtain ⟨hlength', hascii'⟩ := jsonString_admitted hvalue
    refine ⟨?_, .cons (by decide) (hascii.append (.cons (by decide) (hascii'.append (.cons (by decide) (List.forall_mem_nil _)))))⟩
    simp only [headerText, List.length_cons, List.length_append, List.length_nil]
    dsimp only at hlength hlength'
    omega
  have hall : (separated (headers.map headerText)).length ≤ 2 * headerBytes headers + 8 * headers.length ∧
      Ascii (separated (headers.map headerText)) := by
    induction headers with
    | nil => exact ⟨Nat.zero_le _, List.forall_mem_nil _⟩
    | cons header headers ih =>
      obtain ⟨hheader, hheaders⟩ := List.forall_mem_cons.1 h
      obtain ⟨hlength, hascii⟩ := hone header hheader
      obtain ⟨hlength', hascii'⟩ := ih hheaders
      have hsum : headerBytes (header :: headers) = (utf8 header.1).length + (utf8 header.2).length + headerBytes headers :=
        List.sum_cons
      cases headers with
      | nil =>
        rw [List.map_cons, List.map_nil, separated, hsum, List.length_singleton]
        exact ⟨by omega, hascii⟩
      | cons next headers =>
        have hcons : separated ((header :: next :: headers).map headerText) =
            headerText header ++ ',' :: separated ((next :: headers).map headerText) := rfl
        rw [hcons, hsum, List.length_append]
        simp only [List.length_cons] at hlength' ⊢
        exact ⟨by omega, hascii.append (.cons (by decide) hascii')⟩
  rw [headersText, List.length_cons, List.length_append, List.length_singleton]
  exact ⟨by omega, .cons (by decide) (hall.2.append (.cons (by decide) (List.forall_mem_nil _)))⟩

/-! ## Round trip -/

/-- headers within their limits -/
structure HeadersOk (headers : Headers) : Prop where
  admitted : AdmittedHeaders headers
  count : headers.length ≤ maxHeaderCount
  bytes : headerBytes headers ≤ maxHeaderBytes

/-- a request within the limits -/
structure RequestOk (codec : NodeHttpCodec) (req : NodeHttpRequest) : Prop where
  method : Admitted req.method
  path : Admitted req.pathAndQuery
  headers : HeadersOk req.headers
  methodLength : (utf8 req.method).length ≤ maxMethodBytes
  pathLength : (utf8 req.pathAndQuery).length ≤ maxPathBytes
  body : req.body.length ≤ codec.maxRequestBytes

/-- a response within the limits -/
structure ResponseOk (codec : NodeHttpCodec) (res : NodeHttpResponse) : Prop where
  status : 100 ≤ res.status ∧ res.status ≤ 599
  headers : HeadersOk res.headers
  body : res.body.length ≤ codec.maxResponseBytes

theorem checkHeaders_of_ok {headers : Headers} (h : HeadersOk headers) : checkHeaders headers = .ok () := by
  rw [checkHeaders, if_neg (not_lt.2 h.count), if_neg (not_lt.2 h.bytes)]

theorem lineTooLarge_of_ok {codec : NodeHttpCodec} {req : NodeHttpRequest} (h : RequestOk codec req) :
    lineTooLarge req.toRequestHead = false := by
  rw [lineTooLarge, decide_eq_false (not_lt.2 h.pathLength), decide_eq_false (not_lt.2 h.methodLength)]
  rfl

theorem length_requestText (head : RequestHead) : (requestText head).length =
    (jsonString head.method).length + (jsonString head.pathAndQuery).length + (headersText head.headers).length + 40 := by
  have hsum : ∀ a b c x y z : List Char, a.length = 10 → b.length = 18 → c.length = 11 →
      (a ++ x ++ b ++ y ++ c ++ z ++ ['\x7d']).length = x.length + y.length + z.length + 40 := by
    intro a b c x y z ha hb hc
    simp only [List.length_append, List.length_singleton]
    omega
  exact hsum _ _ _ _ _ _ (by decide +kernel) (by decide +kernel) (by decide +kernel)

theorem length_responseText (head : ResponseHead) : (responseText head).length =
    (Nat.toDigits 10 head.status.toNat).length + (headersText head.headers).length + 22 := by
  have hsum : ∀ a b x y : List Char, a.length = 10 → b.length = 11 →
      (a ++ x ++ b ++ y ++ ['\x7d']).length = x.length + y.length + 22 := by
    intro a b x y ha hb
    simp only [List.length_append, List.length_singleton]
    omega
  exact hsum _ _ _ _ (by decide +kernel) (by decide +kernel)

/-- headers within their limits take a third of the frame -/
theorem length_headersText {headers : Headers} (h : HeadersOk headers) :
    (headersText headers).length ≤ 32 * 1024 + 258 ∧ Ascii (headersText headers) := by
  obtain ⟨hlength, hascii⟩ := headersText_admitted h.admitted
  have hcount := h.count
  have hbytes := h.bytes
  unfold maxHeaderCount at hcount
  unfold maxHeaderBytes at hbytes
  exact ⟨by omega, hascii⟩

/-- a request head within the limits on its fields fits the limit on a head -/
theorem length_requestToVec {codec : NodeHttpCodec} {req : NodeHttpRequest} (h : RequestOk codec req) :
    (requestToVec req.toRequestHead).length ≤ maxHeadFrameBytes := by
  obtain ⟨hmethod, hmethodAscii⟩ := jsonString_admitted h.method
  obtain ⟨hpath, hpathAscii⟩ := jsonString_admitted h.path
  obtain ⟨hheaders, hheadersAscii⟩ := length_headersText h.headers
  have hascii : Ascii (requestText req.toRequestHead) := by
    have hnames : Ascii "\x7b\"method\":".toList ∧ Ascii ",\"path_and_query\":".toList ∧ Ascii ",\"headers\":".toList ∧
        Ascii ['\x7d'] := by
      decide +kernel
    exact ((((((hnames.1.append hmethodAscii).append hnames.2.1).append hpathAscii).append hnames.2.2.1).append
      hheadersAscii).append hnames.2.2.2)
  have hline := h.methodLength
  have hline' := h.pathLength
  unfold maxMethodBytes at hline
  unfold maxPathBytes at hline'
  rw [requestToVec, length_utf8 hascii, length_requestText, maxHeadFrameBytes]
  omega

/-- a response head within the limits on its fields fits the limit on a head -/
theorem length_responseToVec {codec : NodeHttpCodec} {res : NodeHttpResponse} (h : ResponseOk codec res) :
    (responseToVec res.toResponseHead).length ≤ maxHeadFrameBytes := by
  obtain ⟨hheaders, hheadersAscii⟩ := length_headersText h.headers
  have hstatus : (Nat.toDigits 10 res.status.toNat).length ≤ 5 :=
    (Nat.length_toDigits_le_iff (by decide) (by decide)).2 (lt_trans res.status.toNat_lt (by decide))
  have hdigits : Ascii (Nat.toDigits 10 res.status.toNat) := by
    intro c hc
    have hdigit := (Json.isDigits_toDigits res.status.toNat).2 c hc
    have hle : c.toNat ≤ '9'.toNat := (Char.isDigit_iff_toNat.1 hdigit).2
    exact lt_of_le_of_lt hle (by decide)
  have hascii : Ascii (responseText res.toResponseHead) := by
    have hnames : Ascii "\x7b\"status\":".toList ∧ Ascii ",\"headers\":".toList ∧ Ascii ['\x7d'] := by
      decide +kernel
    exact ((((hnames.1.append hdigits).append hnames.2.1).append hheadersAscii).append hnames.2.2)
  rw [responseToVec, length_utf8 hascii, length_responseText, maxHeadFrameBytes]
  omega

theorem writeRequest_of_ok {codec : NodeHttpCodec} {req : NodeHttpRequest} (h : RequestOk codec req) :
    writeRequest codec req = .ok (frame (requestToVec req.toRequestHead) req.body) := by
  rw [writeRequest, if_neg (not_lt.2 h.body), lineTooLarge_of_ok h, if_neg (by decide)]
  refine Fallible.bind_eq_ok.2 ⟨(), checkHeaders_of_ok h.headers, ?_⟩
  rw [writeFrame, if_neg (not_lt.2 (length_requestToVec h))]

theorem writeResponse_of_ok {codec : NodeHttpCodec} {res : NodeHttpResponse} (h : ResponseOk codec res) :
    writeResponse codec res = .ok (frame (responseToVec res.toResponseHead) res.body) := by
  rw [writeResponse, if_neg (not_lt.2 h.body)]
  refine Fallible.bind_eq_ok.2 ⟨(), checkHeaders_of_ok h.headers, ?_⟩
  rw [writeFrame, if_neg (not_lt.2 (length_responseToVec h))]

/-- a body within the limits of a node has a length of 32 bits -/
theorem lt_of_le_ceiling {n limit ceiling : ℕ} (h : n ≤ limit) (hlimit : limit ≤ ceiling) (hceiling : ceiling < 2 ^ 32) :
    n < 2 ^ 32 := lt_of_le_of_lt (h.trans hlimit) hceiling

/-- a whole frame is read in front of anything -/
theorem readFrame_frame {maxBody : ℕ} {budget : Option (ℕ → Bool)} {head body : Bytes} (hhead : head.length ≤ maxHeadFrameBytes)
    (hbody : body.length ≤ maxBody) (hlt : body.length < 2 ^ 32) (hgrant : (grantFor budget body.length).overloaded = false)
    (rest : Bytes) :
    readFrame maxBody budget (frame head body ++ rest) = .ok ((head, body, grantFor budget body.length), rest) := by
  refine readFrame_eq_ok.2 ⟨hhead, body.length, body ++ rest, hbody, hlt, rfl, ?_, .inr ⟨hgrant, rfl, rfl⟩⟩
  simp only [frame, List.append_assoc]

/-- the budget grants a body that it admits -/
theorem grantFor_of_admits {admits : ℕ → Bool} {bodyLen : ℕ} (h : bodyLen ≠ 0 → admits bodyLen = true) :
    (grantFor (some admits) bodyLen).overloaded = false := by
  unfold grantFor
  dsimp only
  split_ifs with hzero hadmits
  · rfl
  · rfl
  · exact absurd (h hzero) hadmits

/-- **Node HTTP frame round trip.** A request or response within the limits is written. A reader with these limits, that has the
budget for its body, reads it back in front of any further bytes, which it leaves, and reads nothing from a part of its frame. Of
`serde_json` only that it reads back the head that it wrote is used. -/
theorem frame_round_trip (codec : NodeHttpCodec) (serde : Serde) :
    (∀ req, RequestOk codec req → serde.requestFromSlice (requestToVec req.toRequestHead) = .ok req.toRequestHead →
      ∃ written, writeRequest codec req = .ok written ∧
        ∀ admits : ℕ → Bool, (req.body.length ≠ 0 → admits req.body.length = true) →
          (∀ rest, readRequest codec serde admits (written ++ rest) =
            .ok ({ req with grant := grantFor (some admits) req.body.length }, rest)) ∧
          ∀ part, part <+: written → part ≠ written → ∀ read, readRequest codec serde admits part ≠ .ok read) ∧
    ∀ res, ResponseOk codec res → serde.responseFromSlice (responseToVec res.toResponseHead) = .ok res.toResponseHead →
      ∃ written, writeResponse codec res = .ok written ∧
        (∀ rest, readResponse codec serde (written ++ rest) = .ok (res, rest)) ∧
        ∀ part, part <+: written → part ≠ written → ∀ read, readResponse codec serde part ≠ .ok read := by
  constructor
  · intro req hreq hserde
    refine ⟨_, writeRequest_of_ok hreq, fun admits hadmits => ?_⟩
    have hlt := lt_of_le_ceiling hreq.body codec.request_le (by decide)
    have hhead := length_requestToVec hreq
    have hgrant := grantFor_of_admits hadmits
    constructor
    · intro rest
      refine bind_eq_ok.2 ⟨_, rest, readFrame_frame hhead hreq.body hlt hgrant rest, ?_⟩
      dsimp only
      rw [hserde]
      refine bind_eq_ok.2 ⟨req.toRequestHead, rest, rfl, ?_⟩
      rw [lineTooLarge_of_ok hreq, if_neg (by decide), checkHeaders_of_ok hreq.headers]
      rfl
    · rintro part hpart hne ⟨read, rest⟩ h
      obtain ⟨raw, mid, hread, -⟩ := bind_eq_ok.1 h
      exact readFrame_prefix (lt_of_le_of_lt hhead (by decide)) hlt hgrant hpart hne raw mid hread
  · intro res hres hserde
    refine ⟨_, writeResponse_of_ok hres, ?_⟩
    have hlt := lt_of_le_ceiling hres.body codec.response_le (by decide)
    have hhead := length_responseToVec hres
    constructor
    · intro rest
      refine bind_eq_ok.2 ⟨_, rest, readFrame_frame hhead hres.body hlt rfl rest, ?_⟩
      dsimp only
      rw [hserde]
      refine bind_eq_ok.2 ⟨res.toResponseHead, rest, rfl, ?_⟩
      rw [if_neg (not_not.2 hres.status), checkHeaders_of_ok hres.headers]
      rfl
    · rintro part hpart hne ⟨read, rest⟩ h
      obtain ⟨raw, mid, hread, -⟩ := bind_eq_ok.1 h
      exact readFrame_prefix (lt_of_le_of_lt hhead (by decide)) hlt rfl hpart hne raw mid hread

/-! ## A request and its response -/

def testCodec : NodeHttpCodec := ⟨1024 * 1024, 8 * 1024 * 1024, by decide, by decide⟩

/-- a request with a value that is escaped, and the body {} -/
def headsRequest : NodeHttpRequest where
  method := "POST"
  pathAndQuery := "/heads"
  headers := [("accept", "a\tb\"c")]
  body := [0x7b, 0x7d]
  grant := ⟨none, false⟩

/-- the list of no heads -/
def headsResponse : NodeHttpResponse where
  status := 200
  headers := [("accept", "a\tb\"c")]
  body := [0x5b, 0x5d]

/-- `serde_json` restricted to the heads of these two -/
def testSerde : Serde where
  requestFromSlice raw :=
    if raw = requestToVec headsRequest.toRequestHead then .ok headsRequest.toRequestHead else .error "expected value at line 1 column 1"
  responseFromSlice raw :=
    if raw = responseToVec headsResponse.toResponseHead then .ok headsResponse.toResponseHead
    else .error "expected value at line 1 column 1"

/-- a budget of ten bytes admits the request's body; what follows a frame is left, and a frame without its end is not read -/
theorem frame_round_trip_heads :
    (∃ written, writeRequest testCodec headsRequest = .ok written ∧
      (∀ rest, readRequest testCodec testSerde (fun n => decide (n ≤ 10)) (written ++ rest) =
        .ok ({ headsRequest with grant := ⟨some 2, false⟩ }, rest)) ∧
      ∀ part, part <+: written → part ≠ written → ∀ read,
        readRequest testCodec testSerde (fun n => decide (n ≤ 10)) part ≠ .ok read) ∧
    ∃ written, writeResponse testCodec headsResponse = .ok written ∧
      (∀ rest, readResponse testCodec testSerde (written ++ rest) = .ok (headsResponse, rest)) ∧
      ∀ part, part <+: written → part ≠ written → ∀ read, readResponse testCodec testSerde part ≠ .ok read := by
  have htexts : ∀ s ∈ ["POST", "/heads", "accept", "a\tb\"c"], Admitted s := by
    decide +kernel
  have hheaders : HeadersOk headsRequest.headers :=
    ⟨List.forall_mem_singleton.2 ⟨htexts "accept" (by decide), htexts "a\tb\"c" (by decide)⟩, by decide, by decide +kernel⟩
  have hrequest : RequestOk testCodec headsRequest :=
    ⟨htexts "POST" (by decide), htexts "/heads" (by decide), hheaders, by decide +kernel, by decide +kernel, by decide⟩
  have hresponse : ResponseOk testCodec headsResponse := ⟨by decide, hheaders, by decide⟩
  have hserde : testSerde.requestFromSlice (requestToVec headsRequest.toRequestHead) = .ok headsRequest.toRequestHead := by
    simp only [testSerde, if_true]
  have hserde' : testSerde.responseFromSlice (responseToVec headsResponse.toResponseHead) = .ok headsResponse.toResponseHead := by
    simp only [testSerde, if_true]
  obtain ⟨written, hwritten, hread⟩ := (frame_round_trip testCodec testSerde).1 headsRequest hrequest hserde
  obtain ⟨hwhole, hpart⟩ := hread (fun n => decide (n ≤ 10)) fun _ => by decide
  exact ⟨⟨written, hwritten, hwhole, hpart⟩, (frame_round_trip testCodec testSerde).2 headsResponse hresponse hserde'⟩

end Avalon.NodeHttp
