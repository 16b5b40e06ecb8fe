import Mathlib.Algebra.Order.Ring.Rat
import S3Orchestrator.Encryption.Chunk
import S3Orchestrator.Store.Types

/-!
# Stored form

How a client's bytes become what a backend stores, and back. Compression runs on the client's bytes
and encryption on what compression produced. A body is what its reader delivers; a layer over it
depends on nothing else.

* `Codec`: the compressor, over the writer, the seek table and the decoder of the zstd library.
-/

namespace S3Orchestrator.Storedform

open ByteStream Encryption

/-! ## Errors -/

def errNoCodec : Err := .text "object is compressed but no codec is configured"
def errNoEncryptor : Err := .text "object is encrypted but no encryptor is configured"

def errEncryptionFlagMismatch : Err :=
  .text "stored bytes disagree with the object's encryption flag"

def errCorruptObject : Err := .text "corrupt compressed object"
def errRangeBounds : Err := .text "range outside object"
def errShortRange : Err := .text "range fetch returned wrong length"
def errFetchFailed : Err := .text "range fetch failed"

/-! ## Compression -/

def compressionAlgorithm : String := "zstd"
def compressionFormatVersion : Int := 1

/-- The codec. The seekable writer opens, writes one frame for each chunk and then the seek table of
its frames; `newReader` decodes a stream front to back, and `seekableReader` decodes a buffer
through its seek table. -/
structure Codec where
  chunkSize : Nat
  chunkSize_pos : 0 < chunkSize
  newWriter : Except Err Unit
  frame : Octets → Except Err Octets
  seekTable : List Octets → Except Err Octets
  newReader : Feed → Except Err Feed
  seekableReader : Octets → Except Err Feed

namespace Codec

variable (c : Codec)

def writeChunk (chunk : Octets) : Except Err (List Octets) :=
  if chunk = [] then .ok [] else ((c.frame chunk).mapError (.wrap "write chunk")).map ([·])

def compressFrom : Nat → Source → Except Err (List Octets)
  | 0, src => .error src.feed.ending
  | fuel + 1, src => do
    let r := src.readFull c.chunkSize
    let frames ← c.writeChunk r.1
    match r.2.1 with
    | none => do
      let rest ← compressFrom fuel r.2.2
      .ok (frames ++ rest)
    | some e => if e.endsLike then .ok frames else .error (.wrap "read source" e)

def compress (src : Source) : Except Err Octets := do
  c.newWriter.mapError (.wrap "open seekable writer")
  let frames ← c.compressFrom (src.feed.data.length + 1) src
  let table ← (c.seekTable frames).mapError (.wrap "finalize seek table")
  .ok (frames.flatten ++ table)

end Codec

def classifyDecode (e : Err) : Err :=
  if e.is .eof then e
  else if e.is errCorruptObject || e.is errShortRange || e.is errFetchFailed ||
      e.is errRangeBounds then e
  else .join errCorruptObject e

def Codec.decompressStream (c : Codec) (t : Feed) : Except Err Feed :=
  match c.newReader t with
  | .error e => .error (classifyDecode (.wrap "open zstd reader" e))
  | .ok t' => .ok ⟨t'.data, classifyDecode t'.ending⟩

def worthStoring (logicalSize encodedSize : Int) (minRatio : ℚ) : Bool :=
  if logicalSize ≤ 0 then false else decide ((encodedSize : ℚ) ≤ logicalSize * minRatio)

structure Encoding where
  body : Octets
  worth : Bool

def compress (codec : Codec) (src : Source) (logicalSize : Int) (minRatio : ℚ) :
    Except Err Encoding := do
  let out ← (codec.compress src).mapError (.wrap "compress")
  .ok ⟨out, worthStoring logicalSize out.length minRatio⟩

def describe (form : StoredForm) (level : String) (logicalSize : Int) : StoredForm :=
  { form with
    compressionAlgorithm := compressionAlgorithm
    compressionLevel := level
    compressionFormatVersion := compressionFormatVersion
    logicalSize := logicalSize }

def decode (codec : Option Codec) (t : Feed) (form : StoredForm) : Except Err Feed :=
  if StoredFlags.has form.form storedCompressed = false then .ok t
  else
    match codec with
    | none => .error errNoCodec
    | some c => (c.decompressStream t).mapError (.wrap "decompress")

/-! ## Encryption -/

/-- The key provider and cipher, the chunk size, and what the next encryption draws: a data key and
a base nonce. -/
structure Encryptor where
  keys : Keys
  chunkSize : Nat
  chunkSize_pos : 0 < chunkSize
  generateAndWrapDEK : Except Err (Octets × Octets × String)
  baseNonce : Octets

def chunkOverhead : Nat := nonceSize + tagSize

def ciphertextSizeExact (plaintextSize : Int) (chunkSize : Nat) : Int :=
  if plaintextSize = 0 then headerSize
  else
    let fullChunks := plaintextSize.tdiv chunkSize
    let remainder := plaintextSize.tmod chunkSize
    headerSize + fullChunks * (chunkOverhead + chunkSize) +
      if 0 < remainder then chunkOverhead + remainder else 0

structure DataKey where
  dek : Octets
  wrappedDEK : Octets
  keyID : String

structure Sealed where
  body : Feed
  size : Int
  form : StoredForm

def Encryptor.encryptWithDEK (enc : Encryptor) (t : Feed) (plaintextSize : Int) (key : DataKey) :
    Except Err Sealed := do
  let aead ← (enc.keys.newGCM key.dek).mapError (.wrap "encrypt reader")
  .ok {
    body := encrypted aead enc.baseNonce enc.chunkSize t
    size := ciphertextSizeExact plaintextSize enc.chunkSize
    form := {
      encrypted := true
      encryptionKey := packKeyData enc.baseNonce key.wrappedDEK
      keyID := key.keyID
      plaintextSize := plaintextSize } }

def Encryptor.encrypt (enc : Encryptor) (t : Feed) (plaintextSize : Int) : Except Err Sealed := do
  let (dek, wrappedDEK, keyID) ← enc.generateAndWrapDEK
  enc.encryptWithDEK t plaintextSize ⟨dek, wrappedDEK, keyID⟩

def sealBody (enc : Encryptor) (t : Feed) (plaintextSize : Int) (key : Option DataKey) :
    Except Err Sealed :=
  (match key with
    | some key => enc.encryptWithDEK t plaintextSize key
    | none => enc.encrypt t plaintextSize).mapError (.wrap "encrypt")

def peekEnvelope (t : Feed) : Except Err (Bool × Feed) :=
  match t.readFull headerMagic.length with
  | (buf, none) => .ok (hasEnvelopeMagic buf, t)
  | (_, some e) =>
    if e.endsLike then .ok (false, t) else .error (.wrap "peek encryption header" e)

def checkEnvelope (t : Feed) (form : StoredForm) : Except Err Feed := do
  let (isEnvelope, t) ← (peekEnvelope t).mapError (.wrap "inspect object header")
  if isEnvelope = form.encrypted then .ok t
  else .error (.join errEncryptionFlagMismatch
    (.text ("row says encrypted=" ++ toString form.encrypted ++
      " but stored bytes say encrypted=" ++ toString isEnvelope)))

def unsealBody (enc : Option Encryptor) (t : Feed) (form : StoredForm) : Except Err Feed := do
  let t ← checkEnvelope t form
  if form.encrypted = false then .ok t
  else
    match enc with
    | none => .error errNoEncryptor
    | some enc =>
      ((decryptStored enc.keys { feed := t } form.encryptionKey form.keyID).mapError
        (.wrap "decrypt")).map DecryptReader.feed

def openBody (enc : Option Encryptor) (codec : Option Codec) (t : Feed) (form : StoredForm) :
    Except Err Feed := do
  let t ← unsealBody enc t form
  decode codec t form

/-! ## Reform -/

/-- What a rewrite has: either layer may not be configured. -/
structure Layers where
  encryptor : Option Encryptor
  codec : Option Codec
  minRatio : ℚ
  level : String

structure Reformed where
  body : Feed
  size : Int
  form : StoredForm

namespace Layers

variable (l : Layers)

def unsealFor (t : Feed) (storedSize : Int) (src : StoredForm) : Except Err (Feed × Int) := do
  let t ← unsealBody l.encryptor t src
  .ok (t, if src.encrypted then src.plaintextSize else storedSize)

def encode (t : Feed) (logical : Int) (form : StoredForm) :
    Except Err (Feed × Int × StoredForm) :=
  match l.codec with
  | none => .error errNoCodec
  | some codec => do
    let enc ← compress codec { feed := t } logical l.minRatio
    if enc.worth then
      .ok (⟨enc.body, .eof⟩, enc.body.length, describe form l.level logical)
    else
      .error (.text ("encoding of " ++ toString enc.body.length ++
        " bytes did not meet the compression ratio"))

def recode (t : Feed) (size : Int) (src : StoredForm) (want : StoredFlags) (form : StoredForm) :
    Except Err (Feed × Int × StoredForm) :=
  if StoredFlags.has src.form storedCompressed then
    if StoredFlags.has want storedCompressed then
      .ok (t, size, { form with
        compressionAlgorithm := src.compressionAlgorithm
        compressionLevel := src.compressionLevel
        compressionFormatVersion := src.compressionFormatVersion
        logicalSize := src.logicalSize })
    else (decode l.codec t src).map fun t => (t, src.logicalSize, form)
  else if StoredFlags.has want storedCompressed then l.encode t size form
  else .ok (t, size, form)

def reform (t : Feed) (storedSize : Int) (src : StoredForm) (want : StoredFlags) :
    Except Err Reformed := do
  let (t, size) ← l.unsealFor t storedSize src
  let (t, size, form) ← l.recode t size src want { contentHash := src.contentHash }
  if StoredFlags.has want storedEncrypted then
    match l.encryptor with
    | none => .error errNoEncryptor
    | some enc => do
      let s ← sealBody enc t size none
      .ok ⟨s.body, s.size, { form with
        encrypted := true
        encryptionKey := s.form.encryptionKey
        keyID := s.form.keyID
        plaintextSize := s.form.plaintextSize }⟩
  else .ok ⟨t, size, form⟩

end Layers

end S3Orchestrator.Storedform
