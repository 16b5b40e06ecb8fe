import S3Orchestrator.StoredForm.Failing

/-!
# Assembling an upload

A completion streams the parts of an upload one after the other through a pipe, decrypting each on
the way, compresses the stream if compression applies, and encrypts what is left under the upload's
data key.

* **`failed_source_reported`**.
-/

namespace S3Orchestrator.Storedform

open ByteStream Encryption RowStore

/-! ## The parts -/

def copyPart (enc : Option Encryptor) (stored : Feed) (part : MultipartPart) :
    Octets × Option Err :=
  match unsealBody enc stored part.storedForm with
  | .error e =>
    if e.is errInvalidKeyData then
      ([], some (.wrap ("unpack part " ++ toString part.partNumber ++ " key") e))
    else ([], some (.wrap ("open part " ++ toString part.partNumber) e))
  | .ok plain =>
    (plain.data, if plain.ending = .eof then none
      else some (.wrap ("failed to stream part " ++ toString part.partNumber) plain.ending))

def streamOnePart (enc : Option Encryptor) (fetch : String → Except Err Feed)
    (part : MultipartPart) : Octets × Option Err :=
  match fetch part.path with
  | .error e => ([], some (.wrap ("failed to read part " ++ toString part.partNumber) e))
  | .ok stored => copyPart enc stored part

section Stream

variable (enc : Option Encryptor) (fetch : String → Except Err Feed) (flushed : Octets → Octets)

/-- What the pipe delivers of the parts left, after what was written. On an error the writer is not
flushed. -/
def streamPartsFrom : Octets → List MultipartPart → Feed
  | written, [] => ⟨written, .eof⟩
  | written, part :: parts =>
    match streamOnePart enc fetch part with
    | (out, none) => streamPartsFrom (written ++ out) parts
    | (out, some e) => ⟨flushed (written ++ out), e⟩

def streamPartsThroughPipe (parts : List MultipartPart) : Feed :=
  streamPartsFrom enc fetch flushed [] parts

end Stream

/-! ## The body -/

structure UploadKey where
  uploadID : String
  encrypted : Bool
  encryptionKey : Octets
  keyID : String
  cached : Option Octets

structure Manager where
  encryptor : Option Encryptor
  codec : Option Codec
  enabled : Bool
  minSize : Int
  minRatio : ℚ
  level : String

structure AssembledBody where
  body : Feed
  size : Int
  compressed : Bool

def Codec.decompress (c : Codec) (b : Octets) : Except Err Feed :=
  if b = [] then .error (.join errRangeBounds (.text "compressed size 0"))
  else
    match c.seekableReader b with
    | .error e => .error (classifyDecode (.wrap "open ranged seekable reader" e))
    | .ok t => .ok ⟨t.data, classifyDecode t.ending⟩

namespace Manager

variable (mp : Manager)

def shouldCompress (size : Int) : Bool := mp.enabled && decide (mp.minSize ≤ size)

def compressAssembly (src : Feed) (totalPlaintextSize : Int) : Except Err AssembledBody :=
  match mp.codec with
  | none => .ok ⟨src, totalPlaintextSize, false⟩
  | some codec =>
    if mp.shouldCompress totalPlaintextSize = false then .ok ⟨src, totalPlaintextSize, false⟩
    else do
      let enc ← (compress codec { feed := src } totalPlaintextSize mp.minRatio).mapError
        (.wrap "compress assembled object")
      if enc.worth then .ok ⟨⟨enc.body, .eof⟩, enc.body.length, true⟩
      else do
        let plain ← (codec.decompress enc.body).mapError (.wrap "decode discarded encoding")
        .ok ⟨plain, totalPlaintextSize, false⟩

def unwrapUploadDEK (enc : Encryptor) (mu : UploadKey) : Except Err DataKey :=
  if mu.encrypted = false ∨ mu.encryptionKey = [] then
    .error (.text ("upload " ++ mu.uploadID ++ " carries no encryption metadata"))
  else do
    let (_, wrappedDEK) ←
      (unpackKeyData mu.encryptionKey).mapError (.wrap "unpack upload encryption metadata")
    match mu.cached with
    | some dek => .ok ⟨dek, wrappedDEK, mu.keyID⟩
    | none => do
      let dek ← (enc.keys.unwrapDEK wrappedDEK mu.keyID).mapError (.wrap "unwrap upload DEK")
      .ok ⟨dek, wrappedDEK, mu.keyID⟩

def encryptWithUploadDEK (enc : Encryptor) (mu : UploadKey) (t : Feed) (size : Int) :
    Except Err Sealed := do
  let key ← unwrapUploadDEK enc mu
  sealBody enc t size (some key)

def buildAssembledUpload (mu : UploadKey) (stored : AssembledBody) (totalPlaintextSize : Int) :
    Except Err (Feed × Int × Option StoredForm) := do
  let (out, size, form) ←
    match mp.encryptor with
    | none => .ok (stored.body, stored.size, none)
    | some enc => ((encryptWithUploadDEK enc mu stored.body stored.size).mapError
        (.wrap "encrypt final object")).map fun s => (s.body, s.size, some s.form)
  .ok (out, size,
    if stored.compressed then some (describe (form.getD {}) mp.level totalPlaintextSize) else form)

def assembled (mu : UploadKey) (fetch : String → Except Err Feed) (flushed : Octets → Octets)
    (parts : List MultipartPart) (totalPlaintextSize : Int) :
    Except Err (Feed × Int × Option StoredForm) := do
  let stored ← mp.compressAssembly (streamPartsThroughPipe mp.encryptor fetch flushed parts)
    totalPlaintextSize
  mp.buildAssembledUpload mu stored totalPlaintextSize

end Manager

/-! ## Parts that break off -/

section Failing

variable {enc : Option Encryptor} {fetch : String → Except Err Feed} {flushed : Octets → Octets}
  {mp : Manager} {before after : List MultipartPart} {part : MultipartPart} {stored : Feed}

theorem streamOnePart_fails (h : Fails stored) (hfetch : fetch part.path = .ok stored)
    (hkeys : KeysPlain enc part.storedForm) :
    ∃ out e, streamOnePart enc fetch part = (out, some e) ∧ e.endsLike = false := by
  rw [streamOnePart, hfetch]
  dsimp only
  unfold copyPart
  cases hopens : unsealBody enc stored part.storedForm with
  | error e =>
    have hplain := plain_unsealBody h hkeys e hopens
    dsimp only
    split_ifs <;> exact ⟨_, _, rfl, (Err.endsLike_wrap _ _).trans hplain⟩
  | ok plain =>
    have hplain : Fails plain := unsealBody_fails h hopens
    dsimp only
    rw [if_neg (Err.ne_eof_of_endsLike hplain)]
    exact ⟨_, _, rfl, (Err.endsLike_wrap _ _).trans hplain⟩

theorem streamPartsFrom_fails (hbefore : ∀ p ∈ before, (streamOnePart enc fetch p).2 = none)
    (h : Fails stored) (hfetch : fetch part.path = .ok stored)
    (hkeys : KeysPlain enc part.storedForm) (written : Octets) :
    Fails (streamPartsFrom enc fetch flushed written (before ++ part :: after)) := by
  induction before generalizing written with
  | nil =>
    obtain ⟨out, e, hstream, he⟩ := streamOnePart_fails h hfetch hkeys
    rw [List.nil_append, streamPartsFrom, hstream]
    exact he
  | cons p before ih =>
    rw [List.cons_append, streamPartsFrom]
    have hp := hbefore p List.mem_cons_self
    cases hstream : streamOnePart enc fetch p with
    | mk out err =>
      rw [hstream] at hp
      cases hp
      exact ih (fun q hq => hbefore q (List.mem_cons_of_mem p hq)) (written ++ out)

variable {total : Int}

theorem compressAssembly_fails {src : Feed} {a : AssembledBody} (h : Fails src)
    (ha : mp.compressAssembly src total = .ok a) : Fails a.body := by
  unfold Manager.compressAssembly at ha
  cases hcodec : mp.codec with
  | none =>
    rw [hcodec] at ha
    cases ha
    exact h
  | some codec =>
    rw [hcodec] at ha
    split_ifs at ha
    · cases ha
      exact h
    · obtain ⟨encoding, hencoding, -⟩ := exists_of_bind_ok ha
      obtain ⟨out, hout, -⟩ := exists_of_bind_ok (ok_of_mapError_ok hencoding)
      exact absurd (ok_of_mapError_ok hout) (Codec.compress_ne_ok _ h out)

variable {r : Feed × Int × Option StoredForm}

theorem buildAssembledUpload_fails {mu : UploadKey} {a : AssembledBody} (h : Fails a.body)
    (hr : mp.buildAssembledUpload mu a total = .ok r) : Fails r.1 := by
  unfold Manager.buildAssembledUpload at hr
  cases henc : mp.encryptor with
  | none =>
    rw [henc] at hr
    cases hr
    exact h
  | some enc =>
    rw [henc] at hr
    obtain ⟨⟨out, size, form⟩, hout, hr⟩ := exists_of_bind_ok hr
    cases hr
    cases hseal : Manager.encryptWithUploadDEK enc mu a.body a.size with
    | error e =>
      rw [hseal] at hout
      cases hout
    | ok s =>
      rw [hseal] at hout
      cases hout
      obtain ⟨key, -, hs⟩ := exists_of_bind_ok hseal
      exact sealBody_fails h hs

theorem assembled_fails {mu : UploadKey}
    (hbefore : ∀ p ∈ before, (streamOnePart mp.encryptor fetch p).2 = none) (h : Fails stored)
    (hfetch : fetch part.path = .ok stored)
    (hkeys : KeysPlain mp.encryptor part.storedForm)
    (hr : mp.assembled mu fetch flushed (before ++ part :: after) total = .ok r) : Fails r.1 := by
  obtain ⟨a, ha, hr⟩ := exists_of_bind_ok hr
  exact buildAssembledUpload_fails
    (compressAssembly_fails (streamPartsFrom_fails hbefore h hfetch hkeys []) ha) hr

end Failing

/-! ## Which failures come out -/

/-- The failure of a source is reported by the encrypting reader, by the compressor, by every reform
and by every assembly the source is a part of, or by the body that comes out of it. -/
def FailureReported (src : Source) (aead : AEAD) (nonce : Octets) (size : Nat) (codec : Codec)
    (l : Layers) (mp : Manager) : Prop :=
  (∀ sizes, (readTo (encryptRead aead nonce size) (newEncryptReader src nonce size) sizes).2 ≠
    some .eof) ∧
  (∀ out, codec.compress src ≠ .ok out) ∧
  (∀ storedSize form want r,
    (∀ t, unsealBody l.encryptor src.feed form = .ok t → ∀ c, l.codec = some c →
      StoredFlags.has form.form storedCompressed = true → c.Wrote t.data) →
    l.reform src.feed storedSize form want = .ok r → r.body.ending ≠ .eof) ∧
  ∀ mu fetch flushed before part after total r,
    (∀ p ∈ before, (streamOnePart mp.encryptor fetch p).2 = none) →
    fetch part.path = .ok src.feed → KeysPlain mp.encryptor part.storedForm →
    mp.assembled mu fetch flushed (before ++ part :: after) total = .ok r → r.1.ending ≠ .eof

/-- **A failed source is reported just if its error is not, and does not wrap, `EOF` or
`ErrUnexpectedEOF`.** -/
theorem failed_source_reported (src : Source) (aead : AEAD) (nonce : Octets) (size : Nat)
    (hsize : 0 < size) (codec : Codec) (l : Layers)
    (hpasses : ∀ c, l.codec = some c → c.PassesErrors) (mp : Manager) :
    FailureReported src aead nonce size codec l mp ↔ src.feed.ending.endsLike = false := by
  have hserves := serves_encryptRead aead nonce hsize src
  constructor
  · rintro ⟨hencrypt, -⟩
    by_contra hends
    obtain ⟨n, hn⟩ := hserves.ends
    have hread := hn (List.replicate n 1) (by simp) (by simp)
    rw [encrypted_ends hsize (by simpa using hends)] at hread
    exact hencrypt _ hread
  · intro hfails
    refine ⟨fun sizes hread => ?_, Codec.compress_ne_ok src hfails, ?_, ?_⟩
    · have hending := (hserves.error sizes .eof hread).2
      exact Err.ne_eof_of_endsLike (encrypted_fails hfails) hending.symm
    · intro storedSize form want r hwrote hr
      exact Err.ne_eof_of_endsLike (reform_fails hpasses hwrote hfails hr)
    · intro mu fetch flushed before part after total r hbefore hfetch hkeys hr
      exact Err.ne_eof_of_endsLike (assembled_fails hbefore hfails hfetch hkeys hr)

def plainCodec : Codec where
  chunkSize := 2
  chunkSize_pos := by decide
  newWriter := .ok ()
  frame chunk := .ok chunk
  seekTable _ := .ok []
  newReader t := .ok t
  seekableReader b := .ok ⟨b, .eof⟩

def plainCipher : AEAD where
  sealText _ text := text
  openText _ text := some text

def plainLayers : Layers where
  encryptor := none
  codec := some plainCodec
  minRatio := 1
  level := "default"

def plainManager : Manager where
  encryptor := none
  codec := some plainCodec
  enabled := true
  minSize := 0
  minRatio := 1
  level := "default"

theorem plainCodec_passesErrors : plainCodec.PassesErrors := by
  intro t t' _ hfails hreader
  obtain rfl : t = t' := Except.ok.inj hreader
  exact hfails

def brokenOff (e : Err) : Source where
  feed := ⟨[1, 2, 3], e⟩

theorem reset_reported :
    FailureReported (brokenOff (.wrap "read" (.text "connection reset"))) plainCipher [] 2
      plainCodec plainLayers plainManager :=
  (failed_source_reported _ plainCipher [] 2 (by decide) plainCodec plainLayers
    (fun c hc => Option.some.inj hc ▸ plainCodec_passesErrors) plainManager).mpr (by decide)

def onePart : MultipartPart where
  uploadID := "u"
  partNumber := 1

/-- A source of ten bytes cut after three. Encryption ends cleanly, compression succeeds, a reform
returns the three bytes, an assembly puts them as an object of ten. -/
theorem cut_source_complete :
    (readTo (encryptRead plainCipher [] 2) (newEncryptReader (brokenOff .unexpectedEOF) [] 2)
        [99, 99, 99, 99]).2 = some .eof ∧
      plainCodec.compress (brokenOff .unexpectedEOF) = .ok [1, 2, 3] ∧
      (plainLayers.reform (brokenOff .unexpectedEOF).feed 10 {} storedCompressed).map (·.body) =
        .ok ⟨[1, 2, 3], .eof⟩ ∧
      (plainManager.assembled ⟨"u", false, [], "", none⟩
          (fun _ => .ok (brokenOff .unexpectedEOF).feed) id [onePart] 10).map (·.1) =
        .ok ⟨[1, 2, 3], .eof⟩ := by
  refine ⟨by decide +kernel, by rfl, by decide +kernel, by decide +kernel⟩

end S3Orchestrator.Storedform
