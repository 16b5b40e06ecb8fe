import S3Orchestrator.Lib.Stream
import S3Orchestrator.Lib.Tx

/-!
# Chunked encryption

An encrypted object is a header followed by frames. Each frame is a nonce, derived from the base
nonce and the index of the chunk, and the sealed chunk. `encryptReader` and `decryptReader` are
readers over a source; both read a chunk at a time with `ReadFull`.

* **`serves_chunkRead`**: it delivers that, whatever the sizes it is read in.
-/

namespace S3Orchestrator.Encryption

open ByteStream Feed

/-! ## The envelope -/

def headerSize : Nat := 32
def nonceSize : Nat := 12
def tagSize : Nat := 16
def maxEncryptionChunkSize : Nat := 1048576

def headerMagic : Octets := [0x53, 0x45, 0x4E, 0x43]

/-- AES-GCM under one data key: `Seal` and `Open` of a nonce and a text. -/
structure AEAD where
  sealText : Octets → Octets → Octets
  openText : Octets → Octets → Option Octets

def deriveNonce (base : Octets) (idx : Nat) : Octets :=
  base.take 4 ++ List.zipWith (· ^^^ ·) (base.drop 4) (bigEndian 8 idx)

def header (chunkSize : Nat) (baseNonce : Octets) : Octets :=
  headerMagic ++ [0x01] ++ bigEndian 4 chunkSize ++ baseNonce ++ List.replicate 11 0

def hasEnvelopeMagic (b : Octets) : Bool := headerMagic.isPrefixOf b

def parseHeaderBytes (hdr : Octets) : Except Err (Nat × Octets) :=
  if hdr.length < headerSize then
    .error (.text ("short encryption header: " ++ toString hdr.length ++ " bytes"))
  else if hasEnvelopeMagic hdr = false then .error (.text "invalid encryption header magic")
  else if hdr[4]? ≠ some 0x01 then .error (.text "unsupported encryption version")
  else
    let chunkSize := fromBigEndian ((hdr.drop 5).take 4)
    if chunkSize = 0 ∨ maxEncryptionChunkSize < chunkSize then
      .error (.text ("invalid chunk size in header: " ++ toString chunkSize))
    else .ok (chunkSize, (hdr.drop 9).take nonceSize)

def parseHeader (src : Source) : Except Err ((Nat × Octets) × Source) :=
  match src.readFull headerSize with
  | (_, some e, _) => .error (.wrap "read header" e)
  | (hdr, none, src') => (parseHeaderBytes hdr).map fun h => (h, src')

/-! ## The readers -/

def sealChunk (aead : AEAD) (baseNonce : Octets) (idx : Nat) (plain : Octets) :
    Except Err Octets :=
  let nonce := deriveNonce baseNonce idx
  .ok (nonce ++ aead.sealText nonce plain)

def openChunk (aead : AEAD) (baseNonce : Octets) (idx : Nat) (chunk : Octets) :
    Except Err Octets :=
  if chunk.length < nonceSize + tagSize then
    .error (.text ("chunk too short: " ++ toString chunk.length ++ " bytes"))
  else if chunk.take nonceSize ≠ deriveNonce baseNonce idx then
    .error (.text ("nonce mismatch at chunk " ++ toString idx))
  else
    match aead.openText (chunk.take nonceSize) (chunk.drop nonceSize) with
    | none =>
      .error (.wrap ("decrypt chunk " ++ toString idx)
        (.text "cipher: message authentication failed"))
    | some plain => .ok plain

/-- The state both readers share. `header` is what is left to emit of it; `closed`, that the buffers
were returned. -/
structure ChunkStream where
  src : Source
  header : Octets := []
  chunkIdx : Nat := 0
  buf : Octets := []
  srcDone : Bool := false
  closed : Bool := false

namespace ChunkStream

def emit (s : ChunkStream) (k : Nat) : Octets × Option Err × ChunkStream :=
  (s.buf.take k, none, { s with buf := s.buf.drop k })

def fill (size : Nat) (what : String) (s : ChunkStream) : Except Err Octets × ChunkStream :=
  match s.src.readFull size with
  | (chunk, none, src) => (.ok chunk, { s with src := src })
  | (chunk, some e, src) =>
    if chunk = [] ∧ e.is .eof = true then
      (.error .eof, { s with src := src, buf := [], closed := true })
    else if e.endsLike then (.ok chunk, { s with src := src, srcDone := true })
    else (.error (.wrap ("read " ++ what) e), { s with src := src })

end ChunkStream

section Read

variable (size : Nat) (what : String) (transform : Nat → Octets → Except Err Octets)

def chunkRead (s : ChunkStream) (k : Nat) : Octets × Option Err × ChunkStream :=
  if s.header ≠ [] then (s.header.take k, none, { s with header := s.header.drop k })
  else if s.closed then ([], some .eof, s)
  else if s.buf ≠ [] then s.emit k
  else if s.srcDone then ([], some .eof, { s with buf := [], closed := true })
  else
    match s.fill size what with
    | (.error e, s') => ([], some e, s')
    | (.ok chunk, s') =>
      match transform s'.chunkIdx chunk with
      | .error e => ([], some e, s')
      | .ok out => { s' with chunkIdx := s'.chunkIdx + 1, buf := out }.emit k

def chunkedStep (next : Nat → Feed → Feed) (idx : Nat) (t : Feed) : Feed :=
  match t.readFull size with
  | (chunk, none) =>
    match transform idx chunk with
    | .error e => ⟨[], e⟩
    | .ok out => (next (idx + 1) (t.drop size)).prepend out
  | (chunk, some e) =>
    if chunk = [] ∧ e.is .eof = true then ⟨[], .eof⟩
    else if e.endsLike then
      match transform idx chunk with
      | .error e' => ⟨[], e'⟩
      | .ok out => ⟨out, .eof⟩
    else ⟨[], .wrap ("read " ++ what) e⟩

def chunkedFrom : Nat → Nat → Feed → Feed
  | 0, _, t => ⟨[], t.ending⟩
  | fuel + 1, idx, t => chunkedStep size what transform (chunkedFrom fuel) idx t

def chunked (idx : Nat) (t : Feed) : Feed :=
  chunkedFrom size what transform (t.data.length + 1) idx t

end Read

def encryptRead (aead : AEAD) (baseNonce : Octets) (chunkSize : Nat) :
    ChunkStream → Nat → Octets × Option Err × ChunkStream :=
  chunkRead chunkSize "plaintext" (sealChunk aead baseNonce)

def newEncryptReader (src : Source) (baseNonce : Octets) (chunkSize : Nat) : ChunkStream :=
  { src := src, header := header chunkSize baseNonce }

def decryptRead (aead : AEAD) (baseNonce : Octets) (chunkSize : Nat) :
    ChunkStream → Nat → Octets × Option Err × ChunkStream :=
  chunkRead (nonceSize + chunkSize + tagSize) "ciphertext" (openChunk aead baseNonce)

def newDecryptReader (src : Source) : ChunkStream := { src := src }

def encrypted (aead : AEAD) (baseNonce : Octets) (chunkSize : Nat) (t : Feed) : Feed :=
  (chunked chunkSize "plaintext" (sealChunk aead baseNonce) 0 t).prepend
    (header chunkSize baseNonce)

def decrypted (aead : AEAD) (baseNonce : Octets) (chunkSize : Nat) (t : Feed) : Feed :=
  chunked (nonceSize + chunkSize + tagSize) "ciphertext" (openChunk aead baseNonce) 0 t

/-! ## Key data -/

def packKeyData (baseNonce wrappedDEK : Octets) : Octets := baseNonce ++ wrappedDEK

def errInvalidKeyData : Err := .text "encryption key data too short"

def unpackKeyData (data : Octets) : Except Err (Octets × Octets) :=
  if data.length ≤ nonceSize then
    .error (.join errInvalidKeyData (.text (toString data.length ++ " bytes")))
  else .ok (data.take nonceSize, data.drop nonceSize)

/-- What decryption needs besides the bytes: the key provider and the cipher of a data key. -/
structure Keys where
  unwrapDEK : Octets → String → Except Err Octets
  newGCM : Octets → Except Err AEAD

structure DecryptReader where
  aead : AEAD
  baseNonce : Octets
  chunkSize : Nat
  stream : ChunkStream

def decryptStored (keys : Keys) (body : Source) (packedKey : Octets) (keyID : String) :
    Except Err DecryptReader := do
  let (_, wrappedDEK) ← unpackKeyData packedKey
  let dek ← (keys.unwrapDEK wrappedDEK keyID).mapError (.wrap "unwrap DEK")
  let ((chunkSize, headerNonce), src) ← (parseHeader body).mapError (.wrap "parse header")
  let aead ← keys.newGCM dek
  .ok ⟨aead, headerNonce, chunkSize, newDecryptReader src⟩

theorem exists_of_decryptStored {keys : Keys} {body : Source} {packedKey : Octets} {keyID : String}
    {r : DecryptReader} (h : decryptStored keys body packedKey keyID = .ok r) :
    ∃ baseNonce wrappedDEK dek src, unpackKeyData packedKey = .ok (baseNonce, wrappedDEK) ∧
      keys.unwrapDEK wrappedDEK keyID = .ok dek ∧
      parseHeader body = .ok ((r.chunkSize, r.baseNonce), src) ∧
      keys.newGCM dek = .ok r.aead ∧ r.stream = newDecryptReader src := by
  obtain ⟨⟨baseNonce, wrappedDEK⟩, hunpack, h⟩ := RowStore.exists_of_bind_ok h
  obtain ⟨dek, hdek, h⟩ := RowStore.exists_of_bind_ok h
  obtain ⟨⟨⟨chunkSize, headerNonce⟩, src⟩, hparse, h⟩ := RowStore.exists_of_bind_ok h
  obtain ⟨aead, haead, h⟩ := RowStore.exists_of_bind_ok h
  cases h
  exact ⟨baseNonce, wrappedDEK, dek, src, hunpack, RowStore.ok_of_mapError_ok hdek,
    RowStore.ok_of_mapError_ok hparse, haead, rfl⟩

theorem feed_of_parseHeader {body src : Source} {h : Nat × Octets}
    (hparse : parseHeader body = .ok (h, src)) : src.feed = body.feed.drop headerSize := by
  have hfeed := (body.readFull_eq headerSize).2
  unfold parseHeader at hparse
  split at hparse
  next => cases hparse
  next hdr src' heq =>
    rw [heq] at hfeed
    obtain ⟨parsed, -, hsrc⟩ := RowStore.exists_of_map_ok hparse
    cases hsrc
    exact hfeed

theorem length_of_parseHeader {body src : Source} {h : Nat × Octets}
    (hparse : parseHeader body = .ok (h, src)) : headerSize ≤ body.feed.data.length := by
  have hread := (body.readFull_eq headerSize).1
  by_contra hlt
  rw [readFull, if_neg hlt, Prod.mk.injEq] at hread
  unfold parseHeader at hparse
  split at hparse
  next => cases hparse
  next hdr src' heq =>
    rw [heq] at hread
    cases hread.2

open ChunkStream

/-! ## What the readers deliver -/

section Delivery

variable {size : Nat} {what : String} {transform : Nat → Octets → Except Err Octets}
  {next next' : Nat → Feed → Feed} {idx : Nat} {t : Feed} {out : Octets} {e : Err}

theorem chunkedStep_full (h : size ≤ t.data.length)
    (ho : transform idx (t.data.take size) = .ok out) :
    chunkedStep size what transform next idx t = (next (idx + 1) (t.drop size)).prepend out := by
  simp [chunkedStep, readFull, h, ho]

theorem chunkedStep_full_error (h : size ≤ t.data.length)
    (ho : transform idx (t.data.take size) = .error e) :
    chunkedStep size what transform next idx t = ⟨[], e⟩ := by
  simp [chunkedStep, readFull, h, ho]

theorem chunkedStep_eof (hsize : 0 < size) (h : t.data = []) (he : t.ending.is .eof = true) :
    chunkedStep size what transform next idx t = ⟨[], .eof⟩ := by
  simp [chunkedStep, readFull, shortErr, h, he, Nat.not_le.mpr hsize]

theorem chunkedStep_last (h : t.data.length < size) (he : t.ending.endsLike = true)
    (hne : ¬(t.data = [] ∧ t.shortErr.is .eof = true)) (ho : transform idx t.data = .ok out) :
    chunkedStep size what transform next idx t = ⟨out, .eof⟩ := by
  rw [← endsLike_shortErr] at he
  simp [chunkedStep, readFull, Nat.not_le.mpr h, he, hne, ho]

theorem chunkedStep_last_error (h : t.data.length < size) (he : t.ending.endsLike = true)
    (hne : ¬(t.data = [] ∧ t.shortErr.is .eof = true)) (ho : transform idx t.data = .error e) :
    chunkedStep size what transform next idx t = ⟨[], e⟩ := by
  rw [← endsLike_shortErr] at he
  simp [chunkedStep, readFull, Nat.not_le.mpr h, he, hne, ho]

theorem chunkedStep_fail (h : t.data.length < size) (he : t.ending.endsLike = false) :
    chunkedStep size what transform next idx t = ⟨[], .wrap ("read " ++ what) t.shortErr⟩ := by
  have hne : t.shortErr.is .eof = false := by
    have := endsLike_shortErr t
    rw [he, Err.endsLike, Bool.or_eq_false_iff] at this
    exact this.1
  rw [← endsLike_shortErr] at he
  simp [chunkedStep, readFull, Nat.not_le.mpr h, he, hne]

theorem chunkedStep_congr (hsize : 0 < size)
    (h : ∀ idx t', t'.data.length < t.data.length → next idx t' = next' idx t') :
    chunkedStep size what transform next idx t = chunkedStep size what transform next' idx t := by
  by_cases hfull : size ≤ t.data.length
  · cases ho : transform idx (t.data.take size) with
    | error e => rw [chunkedStep_full_error hfull ho, chunkedStep_full_error hfull ho]
    | ok out =>
      rw [chunkedStep_full hfull ho, chunkedStep_full hfull ho, h]
      simp only [drop, List.length_drop]
      omega
  · simp [chunkedStep, readFull, hfull]

theorem chunkedFrom_congr (hsize : 0 < size) (fuel fuel' : Nat) (idx : Nat) (t : Feed)
    (h : t.data.length < fuel) (h' : t.data.length < fuel') :
    chunkedFrom size what transform fuel idx t = chunkedFrom size what transform fuel' idx t := by
  induction fuel generalizing fuel' idx t with
  | zero => omega
  | succ fuel ih =>
    cases fuel' with
    | zero => omega
    | succ fuel' =>
      exact chunkedStep_congr hsize fun idx' t' ht' => ih fuel' idx' t' (by omega) (by omega)

theorem chunked_eq (hsize : 0 < size) (idx : Nat) (t : Feed) : chunked size what transform idx t =
      chunkedStep size what transform (chunked size what transform) idx t :=
  chunkedStep_congr hsize fun idx' t' ht' =>
    chunkedFrom_congr hsize _ _ idx' t' ht' (Nat.lt_succ_self _)

variable {s : ChunkStream}

theorem feed_readFull (s : ChunkStream) (size : Nat) :
    (s.src.readFull size).2.2.feed = s.src.feed.drop size := (s.src.readFull_eq size).2

theorem fill_full (h : size ≤ s.src.feed.data.length) : s.fill size what =
      (.ok (s.src.feed.data.take size), { s with src := (s.src.readFull size).2.2 }) := by
  have hread := (s.src.readFull_eq size).1
  rw [readFull, if_pos h, Prod.mk.injEq] at hread
  rw [fill, ← hread.1]
  split
  next chunk src heq => rw [heq]
  next chunk e src heq => exact absurd hread.2 (by rw [heq]; simp)

theorem fill_short (h : s.src.feed.data.length < size) : s.fill size what =
      if s.src.feed.data = [] ∧ s.src.feed.shortErr.is .eof = true then
        (.error .eof, { s with src := (s.src.readFull size).2.2, buf := [], closed := true })
      else if s.src.feed.ending.endsLike then
        (.ok s.src.feed.data, { s with src := (s.src.readFull size).2.2, srcDone := true })
      else (.error (.wrap ("read " ++ what) s.src.feed.shortErr),
        { s with src := (s.src.readFull size).2.2 }) := by
  have hread := (s.src.readFull_eq size).1
  rw [readFull, if_neg (Nat.not_le.mpr h), Prod.mk.injEq] at hread
  rw [fill, ← hread.1, ← endsLike_shortErr]
  split
  next chunk src heq => exact absurd hread.2 (by rw [heq]; simp)
  next chunk e src heq =>
    rw [heq] at hread
    obtain rfl : e = s.src.feed.shortErr := by simpa using hread.2
    rw [heq]

variable (size what transform) in
def ChunkStream.rest (s : ChunkStream) : Feed :=
  if s.closed then ⟨[], .eof⟩
  else if s.srcDone then ⟨s.buf, .eof⟩
  else (chunked size what transform s.chunkIdx s.src.feed).prepend s.buf

variable (size what transform) in
def ChunkStream.feed (s : ChunkStream) : Feed := (s.rest size what transform).prepend s.header

def DecryptReader.feed (r : DecryptReader) : Feed :=
  r.stream.feed (nonceSize + r.chunkSize + tagSize) "ciphertext" (openChunk r.aead r.baseNonce)

def ChunkStream.unread (s : ChunkStream) : Nat :=
  s.src.feed.data.length + if s.srcDone then 0 else 1

variable (size what transform) in
theorem emit_buf (k : Nat) (hclosed : s.closed = false) (hheader : s.header = []) :
    s.feed size what transform =
      ((s.emit k).2.2.feed size what transform).prepend (s.emit k).1 := by
  simp only [feed, rest, emit, hclosed, hheader, prepend_nil, Bool.false_eq_true, if_false]
  split_ifs
  · rw [prepend, List.take_append_drop]
  · rw [← prepend_append, List.take_append_drop]

theorem delivers_chunkRead (hsize : 0 < size) :
    Delivers (chunkRead size what transform) (feed size what transform) unread := by
  intro s k
  by_cases hheader : s.header = []
  swap
  · -- the header goes out first
    refine .inl ⟨_, _, if_pos hheader, ?_, List.length_take_le .., le_rfl, fun hk hout => ?_⟩
    · change _ = ((s.rest size what transform).prepend (s.header.drop k)).prepend (s.header.take k)
      rw [← prepend_append, List.take_append_drop]
      rfl
    · exact absurd hout (by simp [hheader]; omega)
  have hfeed : s.feed size what transform = s.rest size what transform := by
    rw [feed, hheader, prepend_nil]
  unfold chunkRead
  rw [if_neg (not_not.mpr hheader)]
  by_cases hclosed : s.closed = true
  · rw [if_pos hclosed]
    exact .inr ⟨.eof, s, rfl, by rw [hfeed, rest, if_pos hclosed]⟩
  rw [if_neg hclosed]
  by_cases hbuf : s.buf = []
  swap
  · rw [if_pos hbuf]
    refine .inl ⟨_, _, rfl, emit_buf _ _ _ k (by simpa using hclosed) hheader,
      List.length_take_le .., le_rfl, fun hk hout => ?_⟩
    exact absurd hout (by simp [hbuf]; omega)
  rw [if_neg (not_not.mpr hbuf)]
  by_cases hdone : s.srcDone = true
  · rw [if_pos hdone]
    refine .inr ⟨.eof, _, rfl, ?_⟩
    rw [hfeed, rest, if_neg hclosed, if_pos hdone, hbuf]
  rw [if_neg hdone]
  have hrest : s.rest size what transform =
      chunkedStep size what transform (chunked size what transform) s.chunkIdx s.src.feed := by
    rw [rest, if_neg hclosed, if_neg hdone, hbuf, prepend_nil, chunked_eq hsize]
  rw [hfeed, hrest]
  by_cases hfull : size ≤ s.src.feed.data.length
  · rw [fill_full hfull]
    dsimp only
    cases ho : transform s.chunkIdx (s.src.feed.data.take size) with
    | error e => exact .inr ⟨e, _, rfl, chunkedStep_full_error hfull ho⟩
    | ok out =>
      have hemit := emit_buf size what transform (s := { s with
        src := (s.src.readFull size).2.2, chunkIdx := s.chunkIdx + 1, buf := out }) k
        (by simpa using hclosed) hheader
      refine .inl ⟨_, _, rfl, Eq.trans ?_ hemit, List.length_take_le .., ?_⟩
      · rw [chunkedStep_full hfull ho]
        simp [feed, rest, hclosed, hdone, hheader, feed_readFull]
      · simp only [unread, feed_readFull, drop, List.length_drop, hdone]
        omega
  have hshort : s.src.feed.data.length < size := Nat.not_le.mp hfull
  rw [fill_short hshort]
  by_cases heof : s.src.feed.data = [] ∧ s.src.feed.shortErr.is .eof = true
  · rw [if_pos heof]
    have hending : s.src.feed.ending.is .eof = true := by
      simpa [shortErr, heof.1] using heof.2
    exact .inr ⟨.eof, _, rfl, chunkedStep_eof hsize heof.1 hending⟩
  rw [if_neg heof]
  by_cases hends : s.src.feed.ending.endsLike = true
  · rw [if_pos hends]
    dsimp only
    cases ho : transform s.chunkIdx s.src.feed.data with
    | error e => exact .inr ⟨e, _, rfl, chunkedStep_last_error hshort hends heof ho⟩
    | ok out =>
      have hemit := emit_buf size what transform (s := { s with
        src := (s.src.readFull size).2.2, chunkIdx := s.chunkIdx + 1, buf := out,
        srcDone := true }) k (by simpa using hclosed) hheader
      refine .inl ⟨_, _, rfl, Eq.trans ?_ hemit, List.length_take_le .., ?_⟩
      · rw [chunkedStep_last hshort hends heof ho]
        simp [feed, rest, hclosed, hheader]
      · simp only [unread, feed_readFull, drop, List.length_drop, hdone]
        simp
        omega
  · rw [if_neg hends]
    exact .inr ⟨_, _, rfl, chunkedStep_fail hshort (by simpa using hends)⟩

theorem serves_chunkRead (hsize : 0 < size) (s : ChunkStream) :
    Serves (chunkRead size what transform) s (s.feed size what transform) :=
  (delivers_chunkRead hsize).serves s

end Delivery

end S3Orchestrator.Encryption
