import S3Orchestrator.StoredForm.Describes
import S3Orchestrator.StoredForm.Ranged
import S3Orchestrator.StoredForm.Seekable

/-!
# Reading an object

A GET of one copy. The client's range is in the coordinates of the object it wrote, and each stored
form translates it on its own: verbatim bytes leave it to the backend, an envelope is read by its
chunks, and a compressed copy by its frames.

* **`agree_iff`**.
-/

namespace S3Orchestrator.Getting

open ByteStream Encryption Storedform Backend HttpRange List

/-! ## Errors -/

def errInvalidRange : Err := .text "the requested range is not satisfiable"

def errServiceUnavailable : Err :=
  .text "database unavailable, writes are temporarily rejected"

def classifyError (e : Err) : Nat × String :=
  if e.is errInvalidRange then (416, "InvalidRange")
  else if e.is errServiceUnavailable then (503, "ServiceUnavailable")
  else (502, "InternalError")

/-! ## The row -/

def validateEncryptionMetadata (loc : ObjectLocation) : Except Err Unit :=
  let form := loc.storedForm.form
  if StoredFlags.has form storedEncrypted = false then
    if StoredFlags.has form storedKeyed then
      .error (.join errEncryptionFlagMismatch
        (.text "row is not encrypted but still carries a key"))
    else .ok ()
  else if StoredFlags.unreadable form then
    .error (.join errEncryptionFlagMismatch (.text "row is encrypted but carries no key"))
  else if loc.storedForm.plaintextSize < 0 then
    .error (.join errEncryptionFlagMismatch
      (.text "row is encrypted but carries a negative plaintext size"))
  else if loc.storedForm.plaintextSize = 0 ∧ (headerSize : Int) < loc.sizeBytes then
    .error (.join errEncryptionFlagMismatch
      (.text "row is encrypted but carries no plaintext size"))
  else .ok ()

def objectSize (loc : ObjectLocation) : Int :=
  if StoredFlags.has loc.storedForm.form storedCompressed then loc.storedForm.logicalSize
  else if StoredFlags.has loc.storedForm.form storedEncrypted then loc.storedForm.plaintextSize
  else loc.sizeBytes

/-! ## The read -/

structure ReadPath where
  enc : Option Encryptor
  codec : Option SeekableCodec
  reply : String → Reply UInt8

structure BackendRange where
  header : String
  rng : Option RangeResult := none
  ptStart : Int := 0
  ptEnd : Int := 0

def resolveBackendRange (rangeHeader : String) (loc : ObjectLocation) :
    Except Err BackendRange :=
  if loc.storedForm.encrypted = false ∨ rangeHeader = "" then .ok { header := rangeHeader }
  else
    match parse rangeHeader loc.storedForm.plaintextSize with
    | none => .ok { header := "" }
    | some (ptStart, ptEnd) =>
      match ciphertextRange ptStart ptEnd loc.storedForm.plaintextSize loc.sizeBytes with
      | .error e => .error (.join errInvalidRange e)
      | .ok rng => .ok ⟨rng.backendRange, some rng, ptStart, ptEnd⟩

def verifyStoredEnvelope (r : GetObjectResult) (loc : ObjectLocation) (actualRange : String) :
    Except Err GetObjectResult :=
  if actualRange ≠ "" ∧ "bytes=0-".toList.isPrefixOf actualRange.toList = false then .ok r
  else (checkEnvelope r.body loc.storedForm).map fun body => { r with body := body }

def decrypt (enc : Encryptor) (body : Feed) (form : StoredForm) (fullSize : Int)
    (rng : Option RangeResult) : Except Err (Feed × Int) :=
  match rng with
  | none =>
    (decryptStored enc.keys { feed := body } form.encryptionKey form.keyID).map fun r =>
      (r.feed, fullSize)
  | some rng =>
    (decryptRange enc.keys body form.encryptionKey form.keyID rng).map fun t => (t, rng.sliceLen)

def decryptResponse (enc : Encryptor) (r : GetObjectResult) (loc : ObjectLocation)
    (br : BackendRange) : Except Err GetObjectResult := do
  let plain := decrypt enc r.body loc.storedForm loc.storedForm.plaintextSize br.rng
  let (body, size) ← plain.mapError
    (.wrap (if br.rng.isSome then "decrypt_range" else "decrypt"))
  .ok { r with
    body := body
    size := size
    contentRange := if br.rng.isSome then
        contentRange br.ptStart br.ptEnd loc.storedForm.plaintextSize
      else r.contentRange }

def buildPlaintextReader (enc : Option Encryptor) (r : GetObjectResult) (loc : ObjectLocation)
    (br : BackendRange) : Except Err GetObjectResult :=
  match loc.storedForm.encrypted, enc with
  | true, some enc => decryptResponse enc r loc br
  | _, _ => .ok r

def onBackend (loc : ObjectLocation) : Err → Err := .wrap ("backend " ++ loc.backendName)

namespace ReadPath

variable (rp : ReadPath)

def backendRangeFor (loc : ObjectLocation) (start stop : Int) :
    Except Err (String × Option RangeResult) :=
  if start < 0 ∨ stop < start then
    .error (.join errInvalidRange (.text (toString start ++ "-" ++ toString stop)))
  else if loc.storedForm.encrypted = false then .ok (rangeHeader start stop, none)
  else
    match rp.enc with
    | none => .error (onBackend loc errServiceUnavailable)
    | some _ =>
      match ciphertextRange start stop loc.storedForm.plaintextSize loc.sizeBytes with
      | .error e => .error (.join errInvalidRange e)
      | .ok rng => .ok (rng.backendRange, some rng)

def compressedBody (loc : ObjectLocation) (body : Feed) (rng : Option RangeResult) :
    Except Err Feed :=
  match rng, rp.enc with
  | some rng, some enc =>
    (decryptRange enc.keys body loc.storedForm.encryptionKey loc.storedForm.keyID rng).mapError
      fun e => onBackend loc (.wrap "decrypt_range" e)
  | _, _ => .ok body

def fetchRange (loc : ObjectLocation) (start stop : Int) : Except Err Octets := do
  let (header, rng) ← rp.backendRangeFor loc start stop
  let r ← (getObject rp.reply header).mapError fun e => onBackend loc (.wrap ("fetch " ++ header) e)
  let body ← rp.compressedBody loc r.body rng
  match body.readFull (stop - start + 1).toNat with
  | (buf, none) => .ok buf
  | (_, some e) => .error (onBackend loc (.wrap ("read " ++ header) e))

def compressedSize (loc : ObjectLocation) : Int :=
  if loc.storedForm.encrypted then loc.storedForm.plaintextSize else loc.sizeBytes

def stream (codec : SeekableCodec) (loc : ObjectLocation) : Except Err Feed := do
  let r ← (getObject rp.reply "").mapError fun e => onBackend loc (.wrap "fetch " e)
  (openBody rp.enc (some codec.toCodec) r.body loc.storedForm).mapError (onBackend loc)

def streamMinSize : Int := 1048576

def compressedResult (reader : RangedReader) (loc : ObjectLocation) (rangeHeader : String) :
    Except Err GetObjectResult :=
  let size := objectSize loc
  let whole : GetObjectResult := ⟨reader.feed, size, "", 0⟩
  if rangeHeader = "" then .ok whole
  else
    match parse rangeHeader size with
    | none => .ok whole
    | some (start, stop) =>
      match reader.seek start with
      | .error e => .error (.wrap ("seek to " ++ toString start) e)
      | .ok t =>
        .ok ⟨limitReader t (stop - start + 1), stop - start + 1, contentRange start stop size, 0⟩

def compressedGetAttempt (loc : ObjectLocation) (rangeHeader : String) :
    Except Err GetObjectResult :=
  match rp.codec with
  | none =>
    .error (onBackend loc (.wrap "object is compressed but no codec is configured"
      errServiceUnavailable))
  | some codec => do
    (validateEncryptionMetadata loc).mapError (onBackend loc)
    let fetch (start stop : Int64) := rp.fetchRange loc start.toInt stop.toInt
    let reader ← (codec.decompressRanged fetch (.ofInt (compressedSize loc))).mapError
      (onBackend loc)
    let r ← (compressedResult reader loc rangeHeader).mapError (onBackend loc)
    if r.contentRange = "" ∧ streamMinSize < r.size then
      (rp.stream codec loc).map fun body => { r with body := body }
    else .ok r

def getObjectAttempt (loc : ObjectLocation) (rangeHeader : String) : Except Err GetObjectResult :=
  if StoredFlags.has loc.storedForm.form storedCompressed then
    rp.compressedGetAttempt loc rangeHeader
  else do
    (validateEncryptionMetadata loc).mapError (onBackend loc)
    let br ← resolveBackendRange rangeHeader loc
    let r ← getObject rp.reply br.header
    let r ← (verifyStoredEnvelope r loc br.header).mapError (onBackend loc)
    buildPlaintextReader rp.enc r loc br

/-- What the client is given: a body with its size and `Content-Range`, which makes it partial
content. -/
structure Served where
  body : Feed
  size : Int
  contentRange : String

def get (loc : ObjectLocation) (rangeHeader : String) : Except (Nat × String) Served :=
  match rp.getObjectAttempt loc rangeHeader with
  | .error e => .error (classifyError e)
  | .ok r => .ok ⟨r.body, r.size, r.contentRange⟩

end ReadPath

/-! ## Copies -/

/-- The bytes are an envelope of the inner stream under the row's key, with a chunk size the
configuration allows. -/
structure SealedAs (enc : Encryptor) (form : StoredForm) (bytes inner : Octets) where
  env : Envelope
  aead : AEAD
  wrapped : Octets
  dek : Octets
  exponent : Nat
  plain_eq : env.plain = inner
  bytes_eq : bytes = env.bytes aead
  chunkSize_eq : env.chunkSize = 2 ^ exponent
  seals : Seals aead [env]
  encryptionKey_eq : form.encryptionKey = packKeyData env.baseNonce wrapped
  wrapped_ne : wrapped ≠ []
  unwraps : enc.keys.unwrapDEK wrapped form.keyID = .ok dek
  cipher : enc.keys.newGCM dek = .ok aead
  plaintextSize_eq : form.plaintextSize = inner.length

inductive Outer (enc : Encryptor) (form : StoredForm) (bytes inner : Octets)
  | bare (encrypted_eq : form.encrypted = false) (noKey : form.encryptionKey = [])
      (bytes_eq : bytes = inner)
  | envelope (encrypted_eq : form.encrypted = true) (sealing : SealedAs enc form bytes inner)

/-- The encoding of a copy, or none. An encoding is decoded to the content, from the front and
through its seek table. -/
inductive Coded (codec : SeekableCodec) (form : StoredForm) (inner content : Octets) : Prop
  | plain (algorithm_eq : form.compressionAlgorithm = "") (inner_eq : inner = content)
  | encoded (algorithm_ne : form.compressionAlgorithm ≠ "")
      (logicalSize_eq : form.logicalSize = content.length) (inner_ne : inner ≠ [])
      (noEnvelope : hasEnvelopeMagic inner = false) (seeks : codec.Seeks inner content)
      (decodes : codec.toCodec.decompressStream ⟨inner, .eof⟩ = .ok ⟨content, .eof⟩)

/-- A copy of the content as it is stored, on a backend that follows RFC 9110. -/
structure StoredCopy (enc : Encryptor) (codec : SeekableCodec) (content : Octets) where
  loc : ObjectLocation
  bytes : Octets
  inner : Octets
  reply : String → Reply UInt8
  sizeBytes_eq : loc.sizeBytes = bytes.length
  bytes_lt : bytes.length + maxEncryptionChunkSize < 2 ^ 63
  conforms : ∀ header, Conforms bytes header (reply header)
  outer : Outer enc loc.storedForm bytes inner
  coded : Coded codec loc.storedForm inner content

namespace StoredCopy

variable {enc : Encryptor} {codec : SeekableCodec} {content : Octets}
  (c : StoredCopy enc codec content)

def path : ReadPath := ⟨some enc, some codec, c.reply⟩

def get (rangeHeader : String) : Except (Nat × String) ReadPath.Served :=
  c.path.get c.loc rangeHeader

end StoredCopy

/-! ## Answers -/

def Whole (content : Octets) : Except (Nat × String) ReadPath.Served :=
  .ok ⟨⟨content, .eof⟩, content.length, ""⟩

def Part (content : Octets) (start stop : Int) : Except (Nat × String) ReadPath.Served :=
  .ok ⟨⟨slice content start.toNat stop.toNat, .eof⟩, stop - start + 1,
    contentRange start stop content.length⟩

section Envelopes

variable {content data : Octets} {form : StoredForm}

theorem hasEnvelopeMagic_slice (content : Octets) (stop : Nat) :
    hasEnvelopeMagic (slice content 0 stop) = (hasEnvelopeMagic content && decide (3 ≤ stop)) := by
  have hlength : headerMagic.length = 4 := rfl
  rw [Bool.eq_iff_iff, slice, drop_zero, Bool.and_eq_true, hasEnvelopeMagic, hasEnvelopeMagic,
    isPrefixOf_iff_prefix, isPrefixOf_iff_prefix, prefix_take_iff, hlength,
    decide_eq_true_eq]
  exact and_congr_right fun _ => by omega

theorem hasEnvelopeMagic_bytes (env : Envelope) (aead : AEAD) :
    hasEnvelopeMagic (env.bytes aead) = true := by
  rw [hasEnvelopeMagic, isPrefixOf_iff_prefix]
  exact ⟨_, by simp [Envelope.bytes]; rfl⟩

end Envelopes

section Reads

variable {bytes : Octets} {reply : String → Reply UInt8}

theorem getObject_whole (h : Conforms bytes "" (reply "")) :
    getObject reply "" = .ok ⟨⟨bytes, .eof⟩, bytes.length, "", 0⟩ := by
  have hreply : reply "" = .ok bytes "" := h.resolve_right fun hne => hne.1 rfl
  rw [getObject, hreply]
  rfl

theorem getObject_rangeHeader (hconf : ∀ header, Conforms bytes header (reply header))
    {first last : Nat} (hle : first ≤ last) (hlast : last < 2 ^ 63)
    (hfirst : first < bytes.length) :
    ∃ res, getObject reply (rangeHeader first last) = .ok res ∧
      res.body = ⟨slice bytes first (min last (bytes.length - 1)), .eof⟩ := by
  have hne : bytes ≠ [] := ne_nil_of_length_pos (by omega)
  have hparse := parse_rangeHeader bytes.length hle hlast (by omega)
  have hranges := ranges_rangeHeader hle
  obtain ⟨res, hget, hbody, -, -⟩ := getObject_range hconf hne hparse
    fun hnone => by rw [hranges] at hnone; cases hnone
  refine ⟨res, hget, ?_⟩
  rw [hbody, Int.toNat_natCast]
  congr 2
  omega

end Reads

namespace StoredCopy

variable {enc : Encryptor} {codec : SeekableCodec} {content : Octets}
  (c : StoredCopy enc codec content)

theorem validate_ok : validateEncryptionMetadata c.loc = .ok () := by
  have hsize := c.sizeBytes_eq
  unfold validateEncryptionMetadata
  cases c.outer with
  | bare hplain hkey hbytes =>
    simp only [StoredForm.has_form_encrypted, StoredForm.has_form_keyed, hplain, hkey]
    simp
  | envelope hsealed s =>
    have hkey : c.loc.storedForm.encryptionKey ≠ [] := by
      rw [s.encryptionKey_eq, packKeyData]
      exact fun h => s.wrapped_ne (append_eq_nil_iff.mp h).2
    have hread : StoredFlags.unreadable c.loc.storedForm.form = false := by
      have := StoredForm.unreadable_eq c.loc.storedForm
      rw [StoredForm.unreadable] at this
      simp [this, hkey]
    have hempty : ¬(c.loc.storedForm.plaintextSize = 0 ∧ (headerSize : Int) < c.loc.sizeBytes) := by
      have hinner := s.env.length_plain
      have hbytes := length_bytes s.env s.seals
      rw [s.plain_eq] at hinner
      rw [← s.bytes_eq] at hbytes
      rintro ⟨hzero, hlong⟩
      rw [s.plaintextSize_eq] at hzero
      have hcount : s.env.chunkCount = 0 := by
        by_contra hne
        have := Layout.lt_chunkCount_iff.mp (Nat.pos_of_ne_zero hne)
        omega
      rw [hcount] at hbytes
      omega
    simp only [StoredForm.has_form_encrypted, hsealed, hread]
    rw [if_neg (by simp), if_neg (by simp), if_neg (by rw [s.plaintextSize_eq]; omega),
      if_neg hempty]

theorem unpackKeyData_sealed {form : StoredForm} {bytes inner : Octets}
    (s : SealedAs enc form bytes inner) :
    unpackKeyData form.encryptionKey = .ok (s.env.baseNonce, s.wrapped) := by
  have hbase := s.env.length_baseNonce
  have hpos := length_pos_of_ne_nil s.wrapped_ne
  rw [s.encryptionKey_eq, packKeyData, unpackKeyData, if_neg (by rw [length_append]; omega),
    ← hbase, take_left, drop_left]

theorem decryptStored_sealed (s : SealedAs enc c.loc.storedForm c.bytes c.inner) :
    ∃ r, decryptStored enc.keys { feed := ⟨c.bytes, .eof⟩ } c.loc.storedForm.encryptionKey
      c.loc.storedForm.keyID = .ok r ∧ r.feed = ⟨c.inner, .eof⟩ := by
  obtain ⟨r, hdecrypt, hfeed⟩ := decryptStored_bytes s.seals (mem_singleton_self _)
    { feed := ⟨s.env.bytes s.aead, .eof⟩ } rfl (unpackKeyData_sealed s) s.unwraps s.cipher
  exact ⟨r, by rw [s.bytes_eq, hdecrypt], by rw [hfeed, s.plain_eq]⟩

theorem checkEnvelope_sealed (hsealed : c.loc.storedForm.encrypted = true)
    (s : SealedAs enc c.loc.storedForm c.bytes c.inner) :
    checkEnvelope ⟨c.bytes, .eof⟩ c.loc.storedForm = .ok ⟨c.bytes, .eof⟩ := by
  refine checkEnvelope_ok ?_
  rw [s.bytes_eq, hasEnvelopeMagic_bytes, hsealed]

theorem decryptRange_sealed (s : SealedAs enc c.loc.storedForm c.bytes c.inner)
    {start stop : Nat} (hle : start ≤ stop) (hstop : stop < c.inner.length) :
    ∃ rng res, ciphertextRange start stop c.loc.storedForm.plaintextSize c.loc.sizeBytes = .ok rng ∧
      getObject c.reply rng.backendRange = .ok res ∧
      "bytes=0-".toList.isPrefixOf rng.backendRange.toList = false ∧ rng.backendRange ≠ "" ∧
      rng.sliceLen = stop - start + 1 ∧
      decryptRange enc.keys res.body c.loc.storedForm.encryptionKey c.loc.storedForm.keyID rng =
        .ok ⟨slice c.inner start stop, .eof⟩ := by
  have hinner := s.env.length_plain
  have hsize := s.plaintextSize_eq
  have hstored := c.sizeBytes_eq
  have hfits := c.bytes_lt
  have hconf := c.conforms
  rw [s.plain_eq] at hinner
  rw [hinner] at hsize
  rw [s.bytes_eq] at hstored hfits hconf
  obtain ⟨rng, first, last, hrng, hheader, hpos, hfl, hfirst, hlast, hlen, hdecrypt⟩ :=
    decryptRange_eq s.seals (mem_singleton_self _) s.chunkSize_eq
      (unpackKeyData_sealed s) s.unwraps s.cipher hle (by omega)
  obtain ⟨res, hget, hbody⟩ := getObject_rangeHeader hconf hfl (by omega) hfirst
  refine ⟨rng, res, ?_, ?_, ?_, ?_, hlen, ?_⟩
  · rw [hsize, hstored, hrng]
  · rw [hheader, hget]
  · rw [hheader, not_isPrefixOf_rangeHeader hpos]
  · rw [hheader]
    exact rangeHeader_ne_empty first last
  · rw [hbody, hdecrypt, s.plain_eq]

theorem fetchRange_eq {first last : Nat} (hle : first ≤ last) (hlast : last < c.inner.length) :
    c.path.fetchRange c.loc first last = .ok (slice c.inner first last) := by
  have hcount : ((last : Int) - first + 1).toNat = (slice c.inner first last).length := by
    rw [length_slice hle hlast]
    omega
  have hread : (Feed.mk (slice c.inner first last) .eof).readFull
      ((last : Int) - first + 1).toNat = (slice c.inner first last, none) := by
    rw [hcount, Feed.readFull, if_pos le_rfl, take_length]
  have hbounds : ¬((first : Int) < 0 ∨ (last : Int) < first) := by omega
  cases c.outer with
  | bare hplain hkey hbytes =>
    have hfits := c.bytes_lt
    obtain ⟨res, hget, hbody⟩ := getObject_rangeHeader c.conforms hle
      (by rw [hbytes] at hfits; omega) (by rw [hbytes]; omega)
    rw [hbytes, Nat.min_eq_left (by omega)] at hbody
    have hheader : c.path.backendRangeFor c.loc first last =
        .ok (rangeHeader first last, none) := by
      rw [ReadPath.backendRangeFor, if_neg hbounds, if_pos hplain]
    have hpath : c.path.reply = c.reply := rfl
    simp only [ReadPath.fetchRange, hheader, hpath, hget, bind, Except.bind, Except.mapError,
      ReadPath.compressedBody, hbody, hread]
  | envelope hsealed s =>
    obtain ⟨rng, res, hrng, hget, -, -, -, hdecrypt⟩ := c.decryptRange_sealed s hle hlast
    have hheader : c.path.backendRangeFor c.loc first last = .ok (rng.backendRange, some rng) := by
      rw [ReadPath.backendRangeFor, if_neg hbounds, if_neg (by simp [hsealed]), hrng]
      rfl
    have hbody : c.path.compressedBody c.loc res.body (some rng) =
        .ok ⟨slice c.inner first last, .eof⟩ := by
      change (decryptRange enc.keys res.body _ _ rng).mapError _ = _
      rw [hdecrypt]
      rfl
    have hpath : c.path.reply = c.reply := rfl
    simp only [ReadPath.fetchRange, hheader, hpath, hget, bind, Except.bind, Except.mapError,
      hbody, hread]

/-! ### Copies that are not compressed -/

variable {c} {header : String} {start stop : Int}

section Uncompressed

theorem get_ok {r : GetObjectResult} (h : c.path.getObjectAttempt c.loc header = .ok r) :
    c.get header = .ok ⟨r.body, r.size, r.contentRange⟩ := by
  rw [get, ReadPath.get, h]

theorem get_error {e : Err} (h : c.path.getObjectAttempt c.loc header = .error e) :
    c.get header = .error (classifyError e) := by
  rw [get, ReadPath.get, h]

theorem inner_of_plain (hplain : c.loc.storedForm.compressionAlgorithm = "") :
    c.inner = content := by
  cases c.coded with
  | plain _ hinner => exact hinner
  | encoded hne => exact absurd hplain hne

theorem attempt_eq (hplain : c.loc.storedForm.compressionAlgorithm = "") (header : String) :
    c.path.getObjectAttempt c.loc header = (do
      let br ← resolveBackendRange header c.loc
      let r ← getObject c.reply br.header
      let r ← (verifyStoredEnvelope r c.loc br.header).mapError (onBackend c.loc)
      buildPlaintextReader (some enc) r c.loc br) := by
  have hflag : StoredFlags.has c.loc.storedForm.form storedCompressed = false := by
    rw [has_form_compressed, hplain]
    rfl
  rw [ReadPath.getObjectAttempt, hflag, c.validate_ok]
  rfl

variable (hplain : c.loc.storedForm.compressionAlgorithm = "")
  (hbare : c.loc.storedForm.encrypted = false)

include hplain hbare

theorem attempt_bare (header : String) : c.path.getObjectAttempt c.loc header = (do
      let r ← getObject c.reply header
      (verifyStoredEnvelope r c.loc header).mapError (onBackend c.loc)) := by
  have hresolve : resolveBackendRange header c.loc = .ok { header := header } :=
    if_pos (.inl hbare)
  have hbuild : ∀ r br, buildPlaintextReader (some enc) r c.loc br = .ok r := by
    intro r br
    simp only [buildPlaintextReader, hbare]
  rw [attempt_eq hplain, hresolve]
  simp only [bind, Except.bind, hbuild]
  cases getObject c.reply header with
  | error e => rfl
  | ok r =>
    dsimp only
    cases (verifyStoredEnvelope r c.loc header).mapError (onBackend c.loc) <;> rfl

theorem bytes_of_bare : c.bytes = content := by
  cases c.outer with
  | bare _ _ hbytes => rw [hbytes, inner_of_plain hplain]
  | envelope hsealed => rw [hbare] at hsealed; cases hsealed

theorem get_bare {res : GetObjectResult} {data : Octets} (hget : getObject c.reply header = .ok res)
    (hbody : res.body = ⟨data, .eof⟩)
    (hmagic : (header ≠ "" ∧ "bytes=0-".toList.isPrefixOf header.toList = false) ∨
      hasEnvelopeMagic data = false) :
    c.get header = .ok ⟨res.body, res.size, res.contentRange⟩ := by
  refine get_ok ?_
  rw [attempt_bare hplain hbare, hget]
  simp only [bind, Except.bind, verifyStoredEnvelope]
  by_cases hskip : header ≠ "" ∧ "bytes=0-".toList.isPrefixOf header.toList = false
  · rw [if_pos hskip]
    rfl
  · have hcheck : checkEnvelope res.body c.loc.storedForm = .ok res.body := by
      rw [hbody]
      exact checkEnvelope_ok ((hmagic.resolve_left hskip).trans hbare.symm)
    rw [if_neg hskip, hcheck]
    rfl

theorem get_bare_refused {res : GetObjectResult} {data : Octets}
    (hget : getObject c.reply header = .ok res) (hbody : res.body = ⟨data, .eof⟩)
    (hchecked : header = "" ∨ "bytes=0-".toList.isPrefixOf header.toList = true)
    (hmagic : hasEnvelopeMagic data = true) : ∃ e, c.get header = .error e := by
  obtain ⟨e, hcheck⟩ := checkEnvelope_error data c.loc.storedForm (by rw [hmagic, hbare]; decide)
  have hlooked : ¬(header ≠ "" ∧ "bytes=0-".toList.isPrefixOf header.toList = false) := by
    rintro ⟨hne, hfalse⟩
    rcases hchecked with h | h
    · exact hne h
    · rw [h] at hfalse
      cases hfalse
  refine ⟨_, get_error (e := onBackend c.loc e) ?_⟩
  rw [attempt_bare hplain hbare, hget]
  simp only [bind, Except.bind, verifyStoredEnvelope]
  rw [if_neg hlooked, hbody, hcheck]
  rfl

theorem get_bare_failed {e : Err} (hget : getObject c.reply header = .error e) :
    ∃ err, c.get header = .error err := by
  refine ⟨_, get_error (e := e) ?_⟩
  rw [attempt_bare hplain hbare, hget]
  rfl

theorem get_verbatim_whole (hmagic : hasEnvelopeMagic content = false) :
    c.get "" = Whole content := by
  have hget := getObject_whole (c.conforms "")
  rw [get_bare hplain hbare hget rfl (.inr (by rwa [bytes_of_bare hplain hbare])),
    bytes_of_bare hplain hbare]
  rfl

theorem get_verbatim_whole_refused (hmagic : hasEnvelopeMagic content = true) :
    ∃ e, c.get "" = .error e := by
  have hget := getObject_whole (c.conforms "")
  exact get_bare_refused hplain hbare hget rfl (.inl rfl) (by rwa [bytes_of_bare hplain hbare])

section Resolved

variable (hne : content ≠ []) (hparse : parse header content.length = some (start, stop))
  (haccepts : ranges header = none → c.reply header ≠ .notSatisfiable)

include hne hparse haccepts

theorem getObject_verbatim :
    ∃ res, getObject c.reply header = .ok res ∧ ReadsRange content start stop res := by
  have hconf := c.conforms
  rw [bytes_of_bare hplain hbare] at hconf
  exact getObject_range hconf hne hparse haccepts

def Mistaken (content : Octets) (header : String) (stop : Int) : Prop :=
  hasEnvelopeMagic content = true ∧ "bytes=0-".toList.isPrefixOf header.toList = true ∧ 3 ≤ stop

theorem get_verbatim_range (hnot : ¬Mistaken content header stop) :
    c.get header = Part content start stop := by
  obtain ⟨res, hget, hbody, hsize, hrange⟩ := getObject_verbatim hplain hbare hne hparse haccepts
  have hheader : header ≠ "" := by
    rintro rfl
    cases hparse
  have hmagic : (header ≠ "" ∧ "bytes=0-".toList.isPrefixOf header.toList = false) ∨
      hasEnvelopeMagic (slice content start.toNat stop.toNat) = false := by
    cases hzero : "bytes=0-".toList.isPrefixOf header.toList with
    | false => exact .inl ⟨hheader, rfl⟩
    | true =>
      rw [start_of_isPrefixOf hparse hzero, Int.toNat_zero, hasEnvelopeMagic_slice]
      refine .inr (Bool.eq_false_iff.mpr fun hboth => hnot ?_)
      rw [Bool.and_eq_true, decide_eq_true_eq] at hboth
      exact ⟨hboth.1, hzero, by omega⟩
  rw [get_bare hplain hbare hget hbody hmagic, hbody, hsize, hrange]
  rfl

theorem get_verbatim_mistaken (hmistaken : Mistaken content header stop) :
    ∃ e, c.get header = .error e := by
  obtain ⟨res, hget, hbody, -, -⟩ := getObject_verbatim hplain hbare hne hparse haccepts
  obtain ⟨hmagic, hzero, hlong⟩ := hmistaken
  refine get_bare_refused hplain hbare hget hbody (.inr hzero) ?_
  rw [start_of_isPrefixOf hparse hzero, Int.toNat_zero, hasEnvelopeMagic_slice, hmagic,
    Bool.true_and, decide_eq_true_eq]
  omega

end Resolved

theorem get_verbatim_refused (hreply : c.reply header = .notSatisfiable) :
    ∃ e, c.get header = .error e := by
  have hget : getObject c.reply header = .error errStatus416 := by rw [getObject, hreply]
  exact get_bare_failed hplain hbare hget

theorem get_verbatim_unresolved (hreply : c.reply header = .ok c.bytes "") (hheader : header ≠ "")
    (hparse : parse header content.length = none) : ∃ e, c.get header = .error e := by
  have hget : getObject c.reply header = .error (errRangeNotSatisfiable header content.length) := by
    rw [getObject, hreply, bytes_of_bare hplain hbare]
    dsimp only
    rw [emulateRange, if_neg (by simp [hheader]), applyRange]
    rw [hparse]
  exact get_bare_failed hplain hbare hget

theorem get_verbatim_empty (hreply : c.reply header = .ok c.bytes "") (hempty : content = [])
    (hparse : parse header 0 = some (start, stop)) : ∃ s, c.get header = .ok s := by
  obtain ⟨rfl, rfl⟩ := eq_of_parse_empty hparse
  have hheader : header ≠ "" := by
    rintro rfl
    cases hparse
  have hget : getObject c.reply header = .ok ⟨⟨[], .eof⟩, 0, Backend.contentRange 0 (-1) 0, 0⟩ := by
    rw [getObject, hreply, bytes_of_bare hplain hbare, hempty]
    dsimp only
    rw [emulateRange, if_neg (by simp [hheader]), applyRange]
    dsimp only [length_nil, Int.natCast_zero]
    rw [hparse]
    rfl
  exact ⟨_, get_bare hplain hbare hget rfl (.inr rfl)⟩

end Uncompressed

section Encrypted

variable (hplain : c.loc.storedForm.compressionAlgorithm = "")
  (hsealed : c.loc.storedForm.encrypted = true)

include hsealed

theorem sealedAs : Nonempty (SealedAs enc c.loc.storedForm c.bytes c.inner) := by
  cases c.outer with
  | bare hbare => rw [hbare] at hsealed; cases hsealed
  | envelope _ s => exact ⟨s⟩

include hplain

theorem plaintextSize_eq : c.loc.storedForm.plaintextSize = content.length := by
  obtain ⟨s⟩ := sealedAs hsealed
  rw [s.plaintextSize_eq, inner_of_plain hplain]

theorem get_encrypted_whole (hheader : header = "" ∨ parse header content.length = none) :
    c.get header = Whole content := by
  obtain ⟨s⟩ := sealedAs hsealed
  have hsize := plaintextSize_eq hplain hsealed
  have hresolve : resolveBackendRange header c.loc = .ok { header := "" } := by
    rw [resolveBackendRange, hsize]
    by_cases hempty : header = ""
    · rw [if_pos (.inr hempty), hempty]
    · rw [if_neg (by simp [hsealed, hempty]), hheader.resolve_left hempty]
  obtain ⟨r, hdecrypt, hfeed⟩ := c.decryptStored_sealed s
  rw [get_ok (r := ⟨⟨content, .eof⟩, content.length, "", 0⟩)]
  · rfl
  · rw [attempt_eq hplain, hresolve]
    simp only [bind, Except.bind, getObject_whole (c.conforms ""), verifyStoredEnvelope]
    rw [if_neg (by simp), c.checkEnvelope_sealed hsealed s]
    simp only [Except.map, Except.mapError, buildPlaintextReader, hsealed, decryptResponse, decrypt,
      hdecrypt, hfeed, bind, Except.bind, inner_of_plain hplain, hsize]
    rfl

theorem get_encrypted_range (hne : content ≠ [])
    (hparse : parse header content.length = some (start, stop)) :
    c.get header = Part content start stop := by
  obtain ⟨s⟩ := sealedAs hsealed
  have hsize := plaintextSize_eq hplain hsealed
  have hpos := length_pos_of_ne_nil hne
  have hheader : header ≠ "" := by
    rintro rfl
    cases hparse
  obtain ⟨hzero, hle, hlt⟩ := bounds_of_parse hparse (by omega)
  obtain ⟨first, rfl⟩ := Int.eq_ofNat_of_zero_le hzero
  obtain ⟨last, rfl⟩ := Int.eq_ofNat_of_zero_le (hzero.trans hle)
  have hlast : last < c.inner.length := by
    rw [inner_of_plain hplain]
    omega
  obtain ⟨rng, res, hrng, hget, hfar, hrange, hlen, hdecrypt⟩ :=
    c.decryptRange_sealed s (Int.ofNat_le.mp hle) hlast
  rw [inner_of_plain hplain] at hdecrypt
  have hresolve : resolveBackendRange header c.loc =
      .ok ⟨rng.backendRange, some rng, first, last⟩ := by
    rw [resolveBackendRange, if_neg (by simp [hsealed, hheader]), hsize, hparse]
    dsimp only
    rw [← hsize, hrng]
  rw [get_ok (r := ⟨⟨slice content first last, .eof⟩, last - first + 1,
    Backend.contentRange first last content.length, res.wireSize⟩)]
  · rfl
  · rw [attempt_eq hplain, hresolve]
    simp only [bind, Except.bind, hget, verifyStoredEnvelope]
    rw [if_pos ⟨hrange, hfar⟩]
    simp only [Except.map, Except.mapError, buildPlaintextReader, hsealed, decryptResponse, decrypt,
      hdecrypt, bind, Except.bind, hsize, hlen, Option.isSome_some, if_true]

theorem get_encrypted_empty (hempty : content = []) (hparse : parse header 0 = some (start, stop)) :
    c.get header = .error (416, "InvalidRange") := by
  obtain ⟨rfl, rfl⟩ := eq_of_parse_empty hparse
  have hheader : header ≠ "" := by
    rintro rfl
    cases hparse
  have hsize : c.loc.storedForm.plaintextSize = 0 := by
    rw [plaintextSize_eq hplain hsealed, hempty]
    rfl
  have hresolve : ∃ e, resolveBackendRange header c.loc = .error (.join errInvalidRange e) := by
    rw [resolveBackendRange, if_neg (by simp [hsealed, hheader]), hsize, hparse]
    exact ⟨_, rfl⟩
  obtain ⟨e, hresolve⟩ := hresolve
  rw [get_error (e := .join errInvalidRange e) (by rw [attempt_eq hplain, hresolve]; rfl)]
  rfl

end Encrypted

/-! ### Compressed copies -/

section Compressed

variable (hcoded : c.loc.storedForm.compressionAlgorithm ≠ "")

include hcoded

theorem encoded : c.loc.storedForm.logicalSize = content.length ∧ c.inner ≠ [] ∧
    hasEnvelopeMagic c.inner = false ∧ codec.Seeks c.inner content ∧
    codec.toCodec.decompressStream ⟨c.inner, .eof⟩ = .ok ⟨content, .eof⟩ := by
  cases c.coded with
  | plain hplain => exact absurd hplain hcoded
  | encoded _ hsize hne hmagic hseeks hdecodes => exact ⟨hsize, hne, hmagic, hseeks, hdecodes⟩

theorem has_compressed : StoredFlags.has c.loc.storedForm.form storedCompressed = true := by
  rw [has_form_compressed]
  simp [hcoded]

theorem objectSize_eq : objectSize c.loc = content.length := by
  rw [objectSize, if_pos (has_compressed hcoded), (encoded hcoded).1]

omit hcoded in
theorem compressedSize_eq : ReadPath.compressedSize c.loc = c.inner.length := by
  have hstored := c.sizeBytes_eq
  cases c.outer with
  | bare hbare _ hbytes => rw [ReadPath.compressedSize, hbare, ← hbytes, ← hstored]; rfl
  | envelope hsealed s => rw [ReadPath.compressedSize, hsealed, ← s.plaintextSize_eq]; rfl

omit hcoded in
theorem toInt_compressedSize :
    (Int64.ofInt (ReadPath.compressedSize c.loc)).toInt = c.inner.length := by
  have hlt : c.inner.length < 2 ^ 63 := by
    cases c.outer with
    | bare _ _ hbytes => exact hbytes ▸ (Nat.le_add_right _ _).trans_lt c.bytes_lt
    | envelope _ s => rw [← s.plain_eq, s.env.length_plain]; exact s.env.length_lt
  rw [compressedSize_eq]
  exact Int64.toInt_ofNat_of_lt hlt

omit hcoded in
theorem fetchesExactly : Compression.FetchesExactly
    (fun start stop => c.path.fetchRange c.loc start.toInt stop.toInt) c.inner := by
  intro start stop first last hfirst hlast hle hlt
  simp only [hfirst, hlast, c.fetchRange_eq hle hlt]

theorem unsealBody_eq :
    unsealBody (some enc) ⟨c.bytes, .eof⟩ c.loc.storedForm = .ok ⟨c.inner, .eof⟩ := by
  cases c.outer with
  | bare hbare _ hbytes =>
    have hmagic := (encoded hcoded).2.2.1
    rw [unsealBody, hbytes, checkEnvelope_ok (hmagic.trans hbare.symm)]
    exact if_pos hbare
  | envelope hsealed s =>
    obtain ⟨r, hdecrypt, hfeed⟩ := c.decryptStored_sealed s
    rw [unsealBody, c.checkEnvelope_sealed hsealed s]
    simp only [bind, Except.bind, hsealed, hdecrypt, Except.mapError, Except.map, hfeed]
    rfl

theorem stream_eq : c.path.stream codec c.loc = .ok ⟨content, .eof⟩ := by
  obtain ⟨-, -, -, -, hdecodes⟩ := encoded hcoded
  have hpath : c.path.reply = c.reply := rfl
  have henc : c.path.enc = some enc := rfl
  have hopen : openBody (some enc) (some codec.toCodec) ⟨c.bytes, .eof⟩ c.loc.storedForm =
      .ok ⟨content, .eof⟩ := by
    rw [openBody, unsealBody_eq hcoded]
    simp only [bind, Except.bind, decode, hdecodes]
    exact if_neg (by simp [has_compressed hcoded])
  simp only [ReadPath.stream, hpath, henc, getObject_whole (c.conforms ""), Except.mapError, bind,
    Except.bind, hopen]

theorem attempt_compressed (header : String) :
    ∃ reader : RangedReader, reader.feed = ⟨content, .eof⟩ ∧
      (∀ off : Nat, off < content.length → reader.seek off = .ok ⟨content.drop off, .eof⟩) ∧
      ∀ r, ReadPath.compressedResult reader c.loc header = .ok r →
        (r.contentRange = "" → r.body = ⟨content, .eof⟩) →
        c.path.getObjectAttempt c.loc header = .ok r := by
  obtain ⟨-, hne, -, hseeks, -⟩ := encoded hcoded
  obtain ⟨reader, hopen, hfeed, hseek⟩ :=
    decompressRanged_eq c.toInt_compressedSize hne hseeks c.fetchesExactly
  refine ⟨reader, hfeed, hseek, fun r hresult hwhole => ?_⟩
  have hpath : c.path.codec = some codec := rfl
  rw [ReadPath.getObjectAttempt, if_pos (has_compressed hcoded), ReadPath.compressedGetAttempt,
    hpath]
  simp only [c.validate_ok, hopen, hresult, Except.mapError, bind, Except.bind]
  split_ifs with hstream
  · rw [stream_eq hcoded, Except.map, ← hwhole hstream.1]
  · rfl

theorem get_compressed_whole (hheader : header = "" ∨ parse header content.length = none) :
    c.get header = Whole content := by
  obtain ⟨reader, hfeed, -, hattempt⟩ := attempt_compressed hcoded header
  rw [get_ok (hattempt ⟨⟨content, .eof⟩, content.length, "", 0⟩ ?_ fun _ => rfl)]
  · rfl
  · rw [ReadPath.compressedResult, objectSize_eq hcoded, hfeed]
    by_cases hempty : header = ""
    · exact if_pos hempty
    · simp only [if_neg hempty, hheader.resolve_left hempty]

theorem get_compressed_range (hne : content ≠ [])
    (hparse : parse header content.length = some (start, stop)) :
    c.get header = Part content start stop := by
  have hpos := length_pos_of_ne_nil hne
  have hheader : header ≠ "" := by
    rintro rfl
    cases hparse
  obtain ⟨hzero, hle, hlt⟩ := bounds_of_parse hparse (by omega)
  obtain ⟨first, rfl⟩ := Int.eq_ofNat_of_zero_le hzero
  obtain ⟨reader, -, hseek, hattempt⟩ := attempt_compressed hcoded header
  have hlimit : limitReader ⟨content.drop first, .eof⟩ (stop - first + 1) =
      ⟨slice content first stop.toNat, .eof⟩ := by
    rw [limitReader, if_pos (by rw [length_drop]; omega), slice]
    congr 2
    omega
  rw [get_ok (hattempt ⟨⟨slice content first stop.toNat, .eof⟩, stop - first + 1,
    Backend.contentRange first stop content.length, 0⟩ ?_ ?_)]
  · rfl
  · rw [ReadPath.compressedResult, objectSize_eq hcoded]
    simp only [if_neg hheader, hparse, hseek first (by omega), hlimit]
  · exact fun h => absurd h (Backend.contentRange_ne _ _ _)

end Compressed

end StoredCopy

/-! ## All forms at once -/

/-- The forms a copy is served from. Verbatim bytes are on a backend that answers ranges, or on one
that ignores them. -/
inductive Form
  | verbatim
  | ignoring
  | encrypted
  | compressed
  | compressedEncrypted
  deriving DecidableEq, Repr

def Form.isEncrypted : Form → Bool
  | .encrypted | .compressedEncrypted => true
  | _ => false

def Form.isCompressed : Form → Bool
  | .compressed | .compressedEncrypted => true
  | _ => false

structure Copies (enc : Encryptor) (codec : SeekableCodec) (content : Octets) where
  copy : Form → StoredCopy enc codec content
  encrypted_eq : ∀ k, (copy k).loc.storedForm.encrypted = k.isEncrypted
  compressed_iff : ∀ k,
    (copy k).loc.storedForm.compressionAlgorithm ≠ "" ↔ k.isCompressed = true
  ignores : ∀ header, (copy .ignoring).reply header = .ok (copy .ignoring).bytes ""

open StoredCopy

namespace Copies

variable {enc : Encryptor} {codec : SeekableCodec} {content : Octets}

def Agree (f : Copies enc codec content) (header : String) : Prop :=
  ∀ k l, (f.copy k).get header = (f.copy l).get header

variable {f : Copies enc codec content} {header : String} {start stop : Int}

theorem plain (f : Copies enc codec content) {k : Form} (hk : k.isCompressed = false) :
    (f.copy k).loc.storedForm.compressionAlgorithm = "" := by
  by_contra hne
  rw [(f.compressed_iff k).mp hne] at hk
  cases hk

theorem get_whole (hmagic : hasEnvelopeMagic content = false) (k : Form) :
    (f.copy k).get "" = Whole content := by
  cases k with
  | verbatim =>
    exact get_verbatim_whole (f.plain rfl) (f.encrypted_eq .verbatim) hmagic
  | ignoring =>
    exact get_verbatim_whole (f.plain rfl) (f.encrypted_eq .ignoring) hmagic
  | encrypted =>
    exact get_encrypted_whole (f.plain rfl) (f.encrypted_eq .encrypted) (.inl rfl)
  | compressed =>
    exact get_compressed_whole ((f.compressed_iff .compressed).mpr rfl) (.inl rfl)
  | compressedEncrypted =>
    exact get_compressed_whole ((f.compressed_iff .compressedEncrypted).mpr rfl) (.inl rfl)

theorem get_range (hne : content ≠ []) (hparse : parse header content.length = some (start, stop))
    (haccepts : ranges header = none → (f.copy .verbatim).reply header ≠ .notSatisfiable)
    (hnot : ¬StoredCopy.Mistaken content header stop) (k : Form) :
    (f.copy k).get header = Part content start stop := by
  cases k with
  | verbatim =>
    exact get_verbatim_range (f.plain rfl) (f.encrypted_eq .verbatim) hne hparse haccepts hnot
  | ignoring =>
    refine get_verbatim_range (f.plain rfl) (f.encrypted_eq .ignoring) hne hparse ?_ hnot
    rw [f.ignores header]
    exact fun _ h => by cases h
  | encrypted =>
    exact get_encrypted_range (f.plain rfl) (f.encrypted_eq .encrypted) hne hparse
  | compressed =>
    exact get_compressed_range ((f.compressed_iff .compressed).mpr rfl) hne hparse
  | compressedEncrypted =>
    exact get_compressed_range ((f.compressed_iff .compressedEncrypted).mpr rfl) hne hparse

theorem not_agree {k l : Form} {s : ReadPath.Served} (hk : ∃ e, (f.copy k).get header = .error e)
    (hl : (f.copy l).get header = .ok s) : ¬f.Agree header := by
  obtain ⟨e, he⟩ := hk
  intro h
  have := h k l
  rw [he, hl] at this
  cases this

/-- **The forms answer alike exactly if there is no range and the object does not begin like an
envelope, or the range resolves, is not refused, and its bytes are not taken for an envelope.** -/
theorem agree_iff (f : Copies enc codec content) (header : String) :
    f.Agree header ↔
      (header = "" ∧ hasEnvelopeMagic content = false) ∨
      ∃ start stop, content ≠ [] ∧ parse header content.length = some (start, stop) ∧
        (ranges header = none → (f.copy .verbatim).reply header ≠ .notSatisfiable) ∧
        ¬StoredCopy.Mistaken content header stop := by
  have hverbatim := f.encrypted_eq .verbatim
  have hignoring := f.encrypted_eq .ignoring
  have hencrypted := f.encrypted_eq .encrypted
  constructor
  · intro hagree
    by_contra hcond
    rw [not_or] at hcond
    by_cases hheader : header = ""
    · -- only the content can be at fault
      have hmagic : hasEnvelopeMagic content = true := by
        rw [← Bool.not_eq_false]
        exact fun hfalse => hcond.1 ⟨hheader, hfalse⟩
      subst hheader
      exact not_agree (StoredCopy.get_verbatim_whole_refused (f.plain rfl) hverbatim hmagic)
        (StoredCopy.get_encrypted_whole (f.plain rfl) hencrypted (.inl rfl)) hagree
    · cases hparse : parse header content.length with
      | none =>
        exact not_agree (StoredCopy.get_verbatim_unresolved (f.plain rfl) hignoring
          (f.ignores header) hheader hparse)
          (StoredCopy.get_encrypted_whole (f.plain rfl) hencrypted (.inr hparse)) hagree
      | some bounds =>
        obtain ⟨start, stop⟩ := bounds
        by_cases hempty : content = []
        · have hnone : parse header 0 = some (start, stop) := by
            rwa [hempty] at hparse
          obtain ⟨s, hs⟩ := StoredCopy.get_verbatim_empty (f.plain rfl) hignoring
            (f.ignores header) hempty hnone
          exact not_agree
            ⟨_, StoredCopy.get_encrypted_empty (f.plain rfl) hencrypted hempty hnone⟩ hs hagree
        · have hpart := StoredCopy.get_encrypted_range (f.plain rfl) hencrypted hempty hparse
          refine hcond.2 ⟨start, stop, hempty, hparse, fun _ hreply => ?_, fun hmistaken => ?_⟩
          · exact not_agree (StoredCopy.get_verbatim_refused (f.plain rfl) hverbatim hreply) hpart
              hagree
          · refine not_agree (StoredCopy.get_verbatim_mistaken (f.plain rfl) hignoring hempty
              hparse ?_ hmistaken) hpart hagree
            rw [f.ignores header]
            exact fun _ h => by cases h
  · rintro (⟨rfl, hmagic⟩ | ⟨start, stop, hne, hparse, haccepts, hnot⟩) k l
    · rw [get_whole hmagic k, get_whole hmagic l]
    · rw [get_range hne hparse haccepts hnot k, get_range hne hparse haccepts hnot l]

end Copies

/-! ## An object of two bytes -/

def shortCodec : SeekableCodec where
  chunkSize := 1
  chunkSize_pos := Nat.one_pos
  newWriter := .ok ()
  frame := .ok
  seekTable _ := .ok []
  newReader := .ok
  seekableReader data := .ok ⟨data, .eof⟩
  newSeekable env := (env .footer).map fun data =>
    ⟨⟨data, .eof⟩, fun off => .ok ⟨data.drop off.toNat, .eof⟩⟩

theorem seeks_shortCodec {data : Octets} (h : data.length ≤ 9) : shortCodec.Seeks data data := by
  intro env hserves
  have hfooter := hserves .footer trivial
  rw [Compression.Request.wanted, show data.length - min 8192 data.length = 0 by omega,
    drop_zero] at hfooter
  refine ⟨⟨⟨data, .eof⟩, fun off => .ok ⟨data.drop off.toNat, .eof⟩⟩, ?_, rfl, fun off _ => rfl⟩
  change (env .footer).map _ = _
  rw [hfooter]
  rfl

def pairEncryptor : Encryptor where
  keys := tableKeys [twoChunks]
  chunkSize := 1
  chunkSize_pos := Nat.one_pos
  generateAndWrapDEK := .ok ([], [0], "")
  baseNonce := twoChunks.baseNonce

def pairBytes (k : Form) : Octets :=
  if k.isEncrypted then twoChunks.bytes (tableAEAD [twoChunks]) else [1, 2]

def pairForm (k : Form) : StoredForm where
  encrypted := k.isEncrypted
  encryptionKey := if k.isEncrypted then packKeyData twoChunks.baseNonce [0] else []
  plaintextSize := if k.isEncrypted then 2 else 0
  compressionAlgorithm := if k.isCompressed then "zstd" else ""
  logicalSize := if k.isCompressed then 2 else 0

def pairReply (k : Form) (header : String) : Reply UInt8 :=
  if k = .ignoring then .ok (pairBytes k) "" else serve (pairBytes k) header

def pairCopy (k : Form) : StoredCopy pairEncryptor shortCodec [1, 2] where
  loc := { storedForm := pairForm k, objectKey := "k", backendName := "b", storageKey := "p"
           sizeBytes := (pairBytes k).length }
  bytes := pairBytes k
  inner := [1, 2]
  reply := pairReply k
  sizeBytes_eq := rfl
  bytes_lt := by cases k <;> decide
  conforms header := by
    unfold pairReply
    split_ifs
    · exact .inl rfl
    · exact conforms_serve _ _
  outer :=
    if h : k.isEncrypted = true then
      .envelope h ⟨twoChunks, tableAEAD [twoChunks], [0], [], 0, rfl, by rw [pairBytes, if_pos h],
        rfl, (authentic_tableAEAD _).toSeals, by rw [pairForm, h]; rfl, by decide, rfl, rfl,
        by rw [pairForm, h]; rfl⟩
    else .bare (Bool.eq_false_iff.mpr h) (by simp [pairForm, h]) (by rw [pairBytes, if_neg h])
  coded := by
    cases h : k.isCompressed with
    | false => exact .plain (by simp [pairForm, h]) rfl
    | true =>
      exact .encoded (by simp [pairForm, h]) (by simp [pairForm, h]) (by simp) rfl
        (seeks_shortCodec (by decide)) rfl

def pairCopies : Copies pairEncryptor shortCodec [1, 2] where
  copy := pairCopy
  encrypted_eq _ := rfl
  compressed_iff k := by cases k <;> decide
  ignores _ := rfl

/-- The second byte of the object. -/
theorem pairCopies_agree : pairCopies.Agree "bytes=1-1" := by
  refine (pairCopies.agree_iff "bytes=1-1").mpr (.inr ⟨1, 1, by decide, by decide, ?_, ?_⟩)
  · exact fun hnone => by cases hnone
  · exact fun hmistaken => absurd hmistaken.2.2 (by decide)

/-- A range past the end is an error of the gateway from verbatim bytes, and the whole object from
an envelope. -/
theorem past_end_differs :
    (pairCopies.copy .verbatim).get "bytes=5-9" = .error (502, "InternalError") ∧
      (pairCopies.copy .encrypted).get "bytes=5-9" = Whole [1, 2] ∧
      ¬pairCopies.Agree "bytes=5-9" := by
  have hverbatim : (pairCopies.copy .verbatim).get "bytes=5-9" = .error (502, "InternalError") := by
    rfl
  have hencrypted : (pairCopies.copy .encrypted).get "bytes=5-9" = Whole [1, 2] :=
    StoredCopy.get_encrypted_whole rfl rfl (.inr (by decide))
  exact ⟨hverbatim, hencrypted, Copies.not_agree ⟨_, hverbatim⟩ hencrypted⟩

end S3Orchestrator.Getting
