import S3Orchestrator.Encryption.Chunk

/-!
# Authenticity of whole reads

What a backend returns for a row is decrypted under the row's data key. A chunk is opened only if
some encryption under that key sealed it, and it is tied to its place by the nonce derived from the
base nonce. A whole read takes the base nonce from the header of the bytes it is given.

* **`encrypted_eq_bytes`**: the encrypting reader produces the envelope's header and frames;
* **`whole_read_authentic`**.
-/

namespace S3Orchestrator.Encryption

open ByteStream List

/-! ## Nonces -/

theorem xor_right_cancel {a b c : UInt8} (h : a ^^^ b = a ^^^ c) : b = c := by
  have := congrArg (a ^^^ ·) h
  simpa using this

theorem zipWith_xor_cancel {a b c : Octets} (hb : a.length = b.length) (hc : a.length = c.length)
    (h : List.zipWith (· ^^^ ·) a b = List.zipWith (· ^^^ ·) a c) : b = c := by
  induction a generalizing b c with
  | nil =>
    rw [eq_nil_of_length_eq_zero hb.symm, eq_nil_of_length_eq_zero hc.symm]
  | cons x a ih =>
    cases b with
    | nil => simp at hb
    | cons y b =>
      cases c with
      | nil => simp at hc
      | cons z c =>
        simp only [zipWith_cons_cons, cons.injEq] at h
        rw [xor_right_cancel h.1, ih (by simpa using hb) (by simpa using hc) h.2]

theorem deriveNonce_inj {base : Octets} (hbase : base.length = nonceSize) {i j : Nat}
    (hi : i < 256 ^ 8) (hj : j < 256 ^ 8) (h : deriveNonce base i = deriveNonce base j) :
    i = j := by
  have hdrop : (base.drop 4).length = 8 := by rw [length_drop, hbase]; rfl
  refine bigEndian_inj hi hj (zipWith_xor_cancel ?_ ?_ (append_cancel_left h))
  · rw [hdrop, length_bigEndian]
  · rw [hdrop, length_bigEndian]

theorem deriveNonce_zero {base : Octets} (hbase : base.length = nonceSize) :
    deriveNonce base 0 = base := by
  have hdrop : (base.drop 4).length = 8 := by rw [length_drop, hbase]; rfl
  have hzero : ∀ l : Octets, zipWith (· ^^^ ·) l (replicate l.length 0) = l := by
    intro l
    induction l with
    | nil => rfl
    | cons x l ih => simp [replicate_succ, ih]
  have hbytes : bigEndian 8 0 = replicate (base.drop 4).length 0 := by
    rw [hdrop]
    rfl
  rw [deriveNonce, hbytes, hzero, take_append_drop]

theorem length_deriveNonce {base : Octets} (hbase : base.length = nonceSize) (i : Nat) :
    (deriveNonce base i).length = nonceSize := by
  simp [deriveNonce, hbase, nonceSize]

/-! ## Envelopes -/

structure Header where
  baseNonce : Octets
  chunkSize : Nat
  length_baseNonce : baseNonce.length = nonceSize
  chunkSize_pos : 0 < chunkSize
  chunkSize_le : chunkSize ≤ maxEncryptionChunkSize

def Header.nonce (hdr : Header) (i : Nat) : Octets := deriveNonce hdr.baseNonce i

/-- One encryption under a data key, but for its plaintext: that has fewer bytes than an `int64`
counts. -/
structure Layout extends Header where
  length : Nat
  length_lt : length < 2 ^ 63

namespace Layout

variable (l : Layout)

def chunkCount : Nat := (l.length + l.chunkSize - 1) / l.chunkSize

def chunkLength (i : Nat) : Nat := min l.chunkSize (l.length - i * l.chunkSize)

variable {l} {i : Nat}

theorem lt_chunkCount_iff : i < l.chunkCount ↔ i * l.chunkSize < l.length := by
  have hpos := l.chunkSize_pos
  rw [chunkCount, ← Nat.succ_le_iff, Nat.le_div_iff_mul_le hpos, Nat.succ_mul]
  omega

theorem lt_of_lt_chunkCount (h : i < l.chunkCount) : i < 2 ^ 63 := by
  have hi := lt_chunkCount_iff.mp h
  have hle := Nat.le_mul_of_pos_right i l.chunkSize_pos
  have hlen := l.length_lt
  omega

theorem chunkLength_pos (h : i < l.chunkCount) : 0 < l.chunkLength i := by
  have hi := lt_chunkCount_iff.mp h
  have hpos := l.chunkSize_pos
  rw [chunkLength]
  omega

theorem chunkLength_le (l : Layout) (i : Nat) : l.chunkLength i ≤ l.chunkSize := Nat.min_le_left _ _

end Layout

structure Envelope extends Layout where
  plain : Octets
  length_plain : plain.length = length

namespace Envelope

variable (env : Envelope)

def chunk (i : Nat) : Octets := (env.plain.drop (i * env.chunkSize)).take env.chunkSize

def Sealed (nonce text : Octets) : Prop :=
  ∃ i, i < env.chunkCount ∧ nonce = env.nonce i ∧ text = env.chunk i

def frame (aead : AEAD) (i : Nat) : Octets :=
  env.nonce i ++ aead.sealText (env.nonce i) (env.chunk i)

def bytes (aead : AEAD) : Octets :=
  header env.chunkSize env.baseNonce ++ (List.range env.chunkCount).flatMap (env.frame aead)

theorem length_chunk (i : Nat) : (env.chunk i).length = env.chunkLength i := by
  rw [chunk, length_take, length_drop, env.length_plain, Layout.chunkLength]

theorem take_append_chunk (i : Nat) : env.plain.take (i * env.chunkSize) ++ env.chunk i =
      env.plain.take ((i + 1) * env.chunkSize) := by
  rw [chunk, Nat.succ_mul, take_add]

end Envelope

section Encrypting

variable (env : Envelope) (aead : AEAD)

theorem chunked_plain (n i : Nat) (hn : i + n = env.chunkCount) :
    chunked env.chunkSize "plaintext" (sealChunk aead env.baseNonce) i
        ⟨env.plain.drop (i * env.chunkSize), .eof⟩ =
      ⟨(List.range' i n).flatMap (env.frame aead), .eof⟩ := by
  have hpos := env.chunkSize_pos
  have hlen : ∀ i, (env.plain.drop (i * env.chunkSize)).length =
      env.length - i * env.chunkSize := fun i => by rw [length_drop, env.length_plain]
  induction n generalizing i with
  | zero =>
    have hend : env.plain.length ≤ i * env.chunkSize := by
      by_contra hlt
      rw [env.length_plain] at hlt
      have := Layout.lt_chunkCount_iff.mpr (Nat.not_le.mp hlt)
      omega
    rw [chunked_eq hpos, chunkedStep_eof hpos (drop_of_length_le hend) rfl]
    rfl
  | succ n ih =>
    have hlt : i * env.chunkSize < env.length := Layout.lt_chunkCount_iff.mp (by omega)
    rw [chunked_eq hpos, range'_succ, flatMap_cons]
    by_cases hfull : env.chunkSize ≤ (env.plain.drop (i * env.chunkSize)).length
    · rw [chunkedStep_full hfull rfl]
      have hnext := ih (i + 1) (by omega)
      rw [Nat.succ_mul] at hnext
      simp only [Feed.drop, drop_drop, hnext]
      rfl
    · -- the last chunk is short
      have hshort := Nat.not_le.mp hfull
      have hlast : n = 0 := by
        by_contra hne
        have hmore := Layout.lt_chunkCount_iff.mp (show i + 1 < env.chunkCount by omega)
        rw [Nat.succ_mul] at hmore
        rw [hlen] at hshort
        omega
      have hne : env.plain.drop (i * env.chunkSize) ≠ [] := by
        rw [Ne, ← length_eq_zero_iff, hlen]
        omega
      rw [chunkedStep_last hshort rfl (fun h => hne h.1) rfl, hlast]
      simp [Envelope.frame, Header.nonce, Envelope.chunk, take_of_length_le hshort.le]

theorem encrypted_eq_bytes :
    encrypted aead env.baseNonce env.chunkSize ⟨env.plain, .eof⟩ = ⟨env.bytes aead, .eof⟩ := by
  have hframes := chunked_plain env aead env.chunkCount 0 (Nat.zero_add _)
  rw [Nat.zero_mul, drop_zero] at hframes
  rw [encrypted, hframes, Envelope.bytes, range_eq_range']
  rfl

end Encrypting

/-! ## What a whole read accepts -/

/-- The cipher opens what the envelopes sealed. -/
structure Seals (aead : AEAD) (envs : List Envelope) : Prop where
  opens : ∀ env ∈ envs, ∀ nonce text, env.Sealed nonce text →
    aead.openText nonce (aead.sealText nonce text) = some text
  length_sealText : ∀ nonce text, (aead.sealText nonce text).length = text.length + tagSize

/-- It opens nothing else. -/
structure Authentic (aead : AEAD) (envs : List Envelope) : Prop extends Seals aead envs where
  opensOnly : ∀ nonce c text, aead.openText nonce c = some text →
    ∃ env ∈ envs, ∃ text', env.Sealed nonce text' ∧ c = aead.sealText nonce text'

def wholeRead (keys : Keys) (body : Source) (packedKey : Octets) (keyID : String)
    (sizes : List Nat) : Except Err (Octets × Option Err) :=
  (decryptStored keys body packedKey keyID).map fun r =>
    readTo (decryptRead r.aead r.baseNonce r.chunkSize) r.stream sizes

def Header.opened (hdr : Header) (aead : AEAD) : Nat → Feed → Feed :=
  chunked (nonceSize + hdr.chunkSize + tagSize) "ciphertext" (openChunk aead hdr.baseNonce)

theorem frameSize_pos (hdr : Header) : 0 < nonceSize + hdr.chunkSize + tagSize := by
  unfold nonceSize
  omega

theorem opened_eq (hdr : Header) (aead : AEAD) (i : Nat) (t : Feed) :
    hdr.opened aead i t = chunkedStep (nonceSize + hdr.chunkSize + tagSize) "ciphertext"
      (openChunk aead hdr.baseNonce) (hdr.opened aead) i t :=
  chunked_eq (frameSize_pos hdr) i t

def Leads (row : Layout) (hdr : Header) (i : Nat) : Prop :=
  ∀ j < i, j < row.chunkCount ∧ row.nonce j = hdr.nonce j ∧ row.chunkLength j = hdr.chunkSize

/-- **Only the row's own chunks, each at its own place.** Wherever the row's first chunks lead,
nothing else that fits in a frame was sealed under the nonce the header gives that place. -/
def InPlace (row : Layout) (others : List Layout) (hdr : Header) : Prop :=
  ∀ i, Leads row hdr i →
    (∀ k < row.chunkCount, row.nonce k = hdr.nonce i → row.chunkLength k ≤ hdr.chunkSize → k = i) ∧
    ∀ l ∈ others, ∀ k < l.chunkCount, l.nonce k = hdr.nonce i → hdr.chunkSize < l.chunkLength k

section Sound

variable {aead : AEAD} {row : Envelope} {others : List Envelope} {hdr : Header}
  {i : Nat} {chunk text : Octets}

theorem sealed_of_openChunk (hauth : Authentic aead others)
    (h : openChunk aead hdr.baseNonce i chunk = .ok text) :
    (∃ env ∈ others, env.Sealed (hdr.nonce i) text) ∧
      chunk.length = nonceSize + text.length + tagSize := by
  unfold openChunk at h
  split_ifs at h with hlen hnonce
  rw [ne_eq, not_not] at hnonce
  rw [hnonce] at h
  cases hopen : aead.openText (deriveNonce hdr.baseNonce i) (chunk.drop nonceSize) with
  | none => rw [hopen] at h; cases h
  | some text' =>
    rw [hopen] at h
    obtain rfl : text' = text := by simpa using h
    obtain ⟨env, henv, sealedText, hsealed, hc⟩ := hauth.opensOnly _ _ _ hopen
    have hopens := hauth.opens env henv _ _ hsealed
    rw [← hc, hopen] at hopens
    obtain rfl : text' = sealedText := Option.some.inj hopens
    have hframe := congrArg length hc
    rw [length_drop, hauth.length_sealText] at hframe
    exact ⟨⟨env, henv, hsealed⟩, by omega⟩

theorem openChunk_inPlace (hauth : Authentic aead (row :: others))
    (hplace : InPlace row.toLayout (others.map Envelope.toLayout) hdr)
    (hleads : Leads row.toLayout hdr i) (hle : chunk.length ≤ nonceSize + hdr.chunkSize + tagSize)
    (h : openChunk aead hdr.baseNonce i chunk = .ok text) :
    text = row.chunk i ∧
      (chunk.length = nonceSize + hdr.chunkSize + tagSize → Leads row.toLayout hdr (i + 1)) := by
  obtain ⟨⟨env, henv, k, hk, hnonce, rfl⟩, hlen⟩ := sealed_of_openChunk hauth h
  rw [env.length_chunk] at hlen
  have hfits : env.chunkLength k ≤ hdr.chunkSize := by omega
  obtain ⟨hrow, hothers⟩ := hplace i hleads
  rcases mem_cons.mp henv with rfl | hother
  · obtain rfl := hrow k hk hnonce.symm hfits
    refine ⟨rfl, fun hfull j hj => ?_⟩
    rcases Nat.lt_succ_iff_lt_or_eq.mp hj with hlt | rfl
    · exact hleads j hlt
    · exact ⟨hk, hnonce.symm, by omega⟩
  · have := hothers env.toLayout (mem_map_of_mem hother) k hk hnonce.symm
    omega

theorem opened_inPlace (hauth : Authentic aead (row :: others))
    (hplace : InPlace row.toLayout (others.map Envelope.toLayout) hdr)
    (n : Nat) (t : Feed) (hn : t.data.length < n) (i : Nat) (hleads : Leads row.toLayout hdr i)
    {out : Octets} (h : hdr.opened aead i t = ⟨out, .eof⟩) :
    ∃ m, row.plain.take (i * row.chunkSize) ++ out = row.plain.take (m * row.chunkSize) := by
  induction n generalizing t i out with
  | zero => omega
  | succ n ih =>
    have hstop : out = [] → ∃ m, row.plain.take (i * row.chunkSize) ++ out =
        row.plain.take (m * row.chunkSize) := fun hout => ⟨i, by rw [hout, append_nil]⟩
    rw [opened_eq] at h
    by_cases hfull : nonceSize + hdr.chunkSize + tagSize ≤ t.data.length
    · cases ho : openChunk aead hdr.baseNonce i
          (t.data.take (nonceSize + hdr.chunkSize + tagSize)) with
      | error e =>
        rw [chunkedStep_full_error hfull ho] at h
        exact hstop (congrArg Feed.data h).symm
      | ok text =>
        have hlen := length_take_of_le hfull
        obtain ⟨rfl, hnext⟩ := openChunk_inPlace hauth hplace hleads hlen.le ho
        rw [chunkedStep_full hfull ho] at h
        cases hrest : hdr.opened aead (i + 1) (t.drop (nonceSize + hdr.chunkSize + tagSize)) with
        | mk out' e =>
          rw [hrest, Feed.prepend, Feed.mk.injEq] at h
          obtain ⟨rfl, rfl⟩ := h
          have hless : (t.drop (nonceSize + hdr.chunkSize + tagSize)).data.length < n := by
            simp only [Feed.drop, length_drop, nonceSize] at hfull ⊢
            omega
          obtain ⟨m, hm⟩ := ih _ hless (i + 1) (hnext hlen) hrest
          exact ⟨m, by rw [← append_assoc, row.take_append_chunk, hm]⟩
    · -- the source ends within this frame
      unfold chunkedStep at h
      rw [Feed.readFull, if_neg hfull] at h
      dsimp only at h
      split_ifs at h with heof hends
      · exact hstop (congrArg Feed.data h).symm
      · cases ho : openChunk aead hdr.baseNonce i t.data with
        | error e =>
          rw [ho] at h
          exact hstop (congrArg Feed.data h).symm
        | ok text =>
          rw [ho, Feed.mk.injEq] at h
          obtain ⟨rfl, -⟩ := h
          obtain ⟨rfl, -⟩ :=
            openChunk_inPlace hauth hplace hleads (Nat.not_le.mp hfull).le ho
          exact ⟨i + 1, row.take_append_chunk i⟩
      · exact hstop (congrArg Feed.data h).symm

theorem wholeRead_eq {keys : Keys} {baseNonce wrapped : Octets} {keyID : String} {dek : Octets}
    {body src : Source} (hnonce : baseNonce.length = nonceSize) (hwrapped : wrapped ≠ [])
    (hunwrap : keys.unwrapDEK wrapped keyID = .ok dek) (hgcm : keys.newGCM dek = .ok aead)
    (hbody : parseHeader body = .ok ((hdr.chunkSize, hdr.baseNonce), src)) (sizes : List Nat) :
    wholeRead keys body (packKeyData baseNonce wrapped) keyID sizes =
      .ok (readTo (decryptRead aead hdr.baseNonce hdr.chunkSize) (newDecryptReader src) sizes) := by
  have hpos := length_pos_iff.mpr hwrapped
  have hunpack : unpackKeyData (packKeyData baseNonce wrapped) = .ok (baseNonce, wrapped) := by
    rw [unpackKeyData, packKeyData, if_neg (by rw [length_append]; omega), ← hnonce,
      take_left, drop_left]
  simp [wholeRead, decryptStored, hunpack, hunwrap, hbody, hgcm, bind, Except.bind, Except.map,
    Except.mapError]

theorem serves_decryptRead (aead : AEAD) (hdr : Header) (src : Source) :
    Serves (decryptRead aead hdr.baseNonce hdr.chunkSize) (newDecryptReader src)
      (hdr.opened aead 0 src.feed) :=
  serves_chunkRead (frameSize_pos hdr) (newDecryptReader src)

end Sound

/-! ## What a backend can make of the sealed chunks -/

section Forge

variable {aead : AEAD} {envs : List Envelope} {row env : Envelope} {hdr : Header}
  {i : Nat} {text rest : Octets} {e : Err}

def Header.frame (hdr : Header) (aead : AEAD) (i : Nat) (text : Octets) : Octets :=
  hdr.nonce i ++ aead.sealText (hdr.nonce i) text

section

variable (hauth : Seals aead envs)
include hauth

theorem length_frame (hdr : Header) (i : Nat) (text : Octets) :
    (hdr.frame aead i text).length = nonceSize + text.length + tagSize := by
  rw [Header.frame, length_append, hauth.length_sealText, Header.nonce,
    length_deriveNonce hdr.length_baseNonce, Nat.add_assoc]

theorem openChunk_frame (henv : env ∈ envs) (hsealed : env.Sealed (hdr.nonce i) text) :
    openChunk aead hdr.baseNonce i (hdr.frame aead i text) = .ok text := by
  have hnonce := length_deriveNonce hdr.length_baseNonce i
  have htake : (hdr.frame aead i text).take nonceSize = deriveNonce hdr.baseNonce i := by
    rw [← hnonce]
    exact take_left
  have hdrop : (hdr.frame aead i text).drop nonceSize = aead.sealText (hdr.nonce i) text := by
    rw [← hnonce]
    exact drop_left
  have hopen := hauth.opens env henv _ _ hsealed
  unfold Header.nonce at hopen hdrop
  rw [openChunk, if_neg (by rw [length_frame hauth]; omega), htake, if_neg (not_not.mpr rfl), hdrop,
    hopen]

theorem opened_frame_append (henv : env ∈ envs) (hsealed : env.Sealed (hdr.nonce i) text)
    (hlen : text.length = hdr.chunkSize) :
    hdr.opened aead i ⟨hdr.frame aead i text ++ rest, e⟩ =
      (hdr.opened aead (i + 1) ⟨rest, e⟩).prepend text := by
  have hframe := length_frame hauth hdr i text
  rw [hlen] at hframe
  have hopen := openChunk_frame hauth henv hsealed
  rw [opened_eq, ← hframe, chunkedStep_full (by simp) (by simpa using hopen)]
  simp [Feed.drop]

theorem opened_frame (henv : env ∈ envs) (hsealed : env.Sealed (hdr.nonce i) text)
    (hle : text.length ≤ hdr.chunkSize) :
    hdr.opened aead i ⟨hdr.frame aead i text, .eof⟩ = ⟨text, .eof⟩ := by
  rcases hle.lt_or_eq with hlt | heq
  · have hframe := length_frame hauth hdr i text
    have hne : hdr.frame aead i text ≠ [] := by
      rw [Ne, ← length_eq_zero_iff, hframe, nonceSize]
      omega
    rw [opened_eq, chunkedStep_last (by dsimp only; omega) rfl (fun h => hne h.1)
      (openChunk_frame hauth henv hsealed)]
  · have happend : hdr.opened aead i ⟨hdr.frame aead i text ++ [], .eof⟩ = _ :=
      opened_frame_append hauth henv hsealed heq
    rw [append_nil] at happend
    rw [happend, opened_eq, chunkedStep_eof (frameSize_pos hdr) rfl rfl]
    simp [Feed.prepend]

theorem opened_leads (hrow : row ∈ envs) (n j : Nat) (hleads : Leads row.toLayout hdr (j + n)) :
    hdr.opened aead j ⟨(List.range' j n).flatMap (row.frame aead) ++ rest, e⟩ =
      (hdr.opened aead (j + n) ⟨rest, e⟩).prepend ((List.range' j n).flatMap row.chunk) := by
  induction n generalizing j with
  | zero => simp
  | succ n ih =>
    obtain ⟨hj, hnonce, hlen⟩ := hleads j (by omega)
    have hidx : j + 1 + n = j + (n + 1) := by omega
    have hframe : row.frame aead j = hdr.frame aead j (row.chunk j) := by
      rw [Envelope.frame, Header.frame, hnonce]
    rw [range'_succ, flatMap_cons, flatMap_cons, append_assoc, hframe,
      opened_frame_append hauth hrow ⟨j, hj, hnonce.symm, rfl⟩ (by rw [row.length_chunk, hlen]),
      ih (j + 1) (by rwa [hidx]), hidx, Feed.prepend_append]

end

theorem flatMap_chunk (env : Envelope) (n : Nat) :
    (List.range n).flatMap env.chunk = env.plain.take (n * env.chunkSize) := by
  induction n with
  | zero => simp
  | succ n ih => simp [range_succ, ih, env.take_append_chunk]

theorem length_header (hdr : Header) :
    (header hdr.chunkSize hdr.baseNonce).length = headerSize := by
  simp [header, headerMagic, headerSize, hdr.length_baseNonce, nonceSize]

theorem parseHeaderBytes_header (hdr : Header) :
    parseHeaderBytes (header hdr.chunkSize hdr.baseNonce) = .ok (hdr.chunkSize, hdr.baseNonce) := by
  have hpos := hdr.chunkSize_pos
  have hle := hdr.chunkSize_le
  have hsize : ((header hdr.chunkSize hdr.baseNonce).drop 5).take 4 =
      bigEndian 4 hdr.chunkSize := by
    simp [header, headerMagic]
  have hnonce : ((header hdr.chunkSize hdr.baseNonce).drop 9).take nonceSize = hdr.baseNonce := by
    simp [header, headerMagic, hdr.length_baseNonce]
  have hfits : hdr.chunkSize < 256 ^ 4 := by
    rw [maxEncryptionChunkSize] at hle
    omega
  unfold parseHeaderBytes
  rw [if_neg (by rw [length_header]; omega),
    if_neg (by simp [header, hasEnvelopeMagic]),
    if_neg (by simp [header, headerMagic]), hsize, hnonce, fromBigEndian_bigEndian hfits]
  rw [if_neg (by omega)]

theorem parseHeader_header (hdr : Header) (src : Source)
    (h : src.feed = ⟨header hdr.chunkSize hdr.baseNonce ++ rest, e⟩) :
    ∃ src', parseHeader src = .ok ((hdr.chunkSize, hdr.baseNonce), src') ∧
      src'.feed = ⟨rest, e⟩ := by
  obtain ⟨hread, hfeed⟩ := src.readFull_eq headerSize
  have hlen := length_header hdr
  refine ⟨(src.readFull headerSize).2.2, ?_, ?_⟩
  · have hfull : src.feed.readFull headerSize = (header hdr.chunkSize hdr.baseNonce, none) := by
      rw [h, Feed.readFull, if_pos (by simp [hlen]), ← hlen, take_left]
    rw [hfull] at hread
    obtain ⟨hbytes, hnone⟩ := Prod.mk.inj hread
    rw [parseHeader]
    split
    next e' src' heq => exact absurd hnone (by rw [heq]; simp)
    next bytes src' heq =>
      rw [heq] at hbytes
      obtain rfl : bytes = header hdr.chunkSize hdr.baseNonce := hbytes
      rw [parseHeaderBytes_header, heq]
      rfl
  · rw [hfeed, h, Feed.drop, ← hlen, drop_left]

def forged (aead : AEAD) (row : Envelope) (hdr : Header) (i : Nat) (text : Octets) : Source where
  feed := ⟨header hdr.chunkSize hdr.baseNonce ++
    ((List.range i).flatMap (row.frame aead) ++ hdr.frame aead i text), .eof⟩
  plan := []
  eager := false

theorem wholeRead_forged (keys : Keys) (wrapped : Octets) (keyID : String) {dek : Octets}
    (hwrapped : wrapped ≠ []) (hunwrap : keys.unwrapDEK wrapped keyID = .ok dek)
    (hgcm : keys.newGCM dek = .ok aead) (hauth : Seals aead envs) (hrow : row ∈ envs)
    (hleads : Leads row.toLayout hdr i) (henv : env ∈ envs)
    (hsealed : env.Sealed (hdr.nonce i) text) (hle : text.length ≤ hdr.chunkSize) :
    ∃ src sizes, parseHeader (forged aead row hdr i text) =
        .ok ((hdr.chunkSize, hdr.baseNonce), src) ∧
      wholeRead keys (forged aead row hdr i text) (packKeyData row.baseNonce wrapped) keyID sizes =
        .ok (row.plain.take (i * row.chunkSize) ++ text, some .eof) := by
  obtain ⟨src, hparse, hfeed⟩ := parseHeader_header hdr (forged aead row hdr i text) rfl
  have hopened : hdr.opened aead 0 src.feed =
      ⟨row.plain.take (i * row.chunkSize) ++ text, .eof⟩ := by
    rw [hfeed, range_eq_range', opened_leads hauth hrow i 0 (by rwa [Nat.zero_add]),
      Nat.zero_add, opened_frame hauth henv hsealed hle, ← range_eq_range', flatMap_chunk]
    rfl
  have hserves := serves_decryptRead aead hdr src
  rw [hopened] at hserves
  obtain ⟨n, hends⟩ := hserves.ends
  have hread := hends (replicate n 1) (by simp) (by simp)
  refine ⟨src, replicate n 1, hparse, ?_⟩
  rw [wholeRead_eq row.length_baseNonce hwrapped hunwrap hgcm hparse]
  exact congrArg Except.ok (Prod.ext (hserves.error _ _ hread).1 hread)

end Forge

/-! ## The condition -/

section Table

def tableAEAD (envs : List Envelope) : AEAD where
  sealText _ text := text ++ List.replicate tagSize 0
  openText nonce c :=
    if envs.any fun env => (List.range env.chunkCount).any fun k =>
        decide (nonce = env.nonce k ∧ c = env.chunk k ++ List.replicate tagSize 0) then
      some (c.take (c.length - tagSize))
    else none

theorem authentic_tableAEAD (envs : List Envelope) : Authentic (tableAEAD envs) envs where
  opens env henv nonce text := by
    rintro ⟨k, hk, rfl, rfl⟩
    have hknown : envs.any (fun env' => (range env'.chunkCount).any fun k' =>
        decide (env.nonce k = env'.nonce k' ∧ env.chunk k ++ replicate tagSize 0 =
          env'.chunk k' ++ replicate tagSize 0)) = true := by
      simp only [any_eq_true, mem_range, decide_eq_true_eq]
      exact ⟨env, henv, k, hk, rfl, rfl⟩
    simp only [tableAEAD]
    rw [if_pos hknown]
    simp
  opensOnly nonce c text h := by
    simp only [tableAEAD] at h
    split_ifs at h with hknown
    simp only [any_eq_true, mem_range, decide_eq_true_eq] at hknown
    obtain ⟨env, henv, k, hk, rfl, rfl⟩ := hknown
    exact ⟨env, henv, env.chunk k, ⟨k, hk, rfl, rfl⟩, rfl⟩
  length_sealText nonce text := by simp [tableAEAD]

def Layout.filled (l : Layout) (byte : Nat → UInt8) : Envelope where
  toLayout := l
  plain := (List.range l.length).map byte
  length_plain := by simp

def tableKeys (envs : List Envelope) : Keys where
  unwrapDEK _ _ := .ok []
  newGCM _ := .ok (tableAEAD envs)

end Table

/-- Behind the header a whole read of a row of this layout, under a data key that sealed envelopes
of the other layouts too, ends cleanly only with a front of the object that ends with a chunk. -/
def ReadsAuthentic (row : Layout) (others : List Layout) (hdr : Header) : Prop :=
  ∀ (env : Envelope) (envs : List Envelope) (aead : AEAD),
    env.toLayout = row → envs.map Envelope.toLayout = others → Authentic aead (env :: envs) →
    ∀ (keys : Keys) (wrapped dek : Octets) (keyID : String),
      keys.unwrapDEK wrapped keyID = .ok dek → keys.newGCM dek = .ok aead →
    ∀ body src : Source, parseHeader body = .ok ((hdr.chunkSize, hdr.baseNonce), src) →
    ∀ sizes out, wholeRead keys body (packKeyData env.baseNonce wrapped) keyID sizes =
        .ok (out, some .eof) →
      ∃ m, out = env.plain.take (m * env.chunkSize)

theorem readsAuthentic_of_inPlace {row : Layout} {others : List Layout} {hdr : Header}
    (hplace : InPlace row others hdr) : ReadsAuthentic row others hdr := by
  rintro env envs aead rfl rfl hauth keys wrapped dek keyID hunwrap hgcm body src hbody sizes out h
  have hwrapped : wrapped ≠ [] := by
    rintro rfl
    have hshort : (packKeyData env.baseNonce []).length ≤ nonceSize := by
      rw [packKeyData, append_nil]
      exact env.length_baseNonce.le
    simp [wholeRead, decryptStored, unpackKeyData, hshort, bind, Except.bind, Except.map] at h
  rw [wholeRead_eq env.length_baseNonce hwrapped hunwrap hgcm hbody, Except.ok.injEq] at h
  obtain ⟨hdata, hending⟩ :=
    (serves_decryptRead aead hdr src).error sizes .eof (congrArg Prod.snd h)
  rw [h] at hdata
  obtain ⟨m, hm⟩ := opened_inPlace hauth hplace _ src.feed (Nat.lt_succ_self _) 0
    (fun j hj => absurd hj (Nat.not_lt_zero j)) (congrArg₂ Feed.mk hdata.symm hending.symm)
  exact ⟨m, by rw [← hm, Nat.zero_mul, take_zero, nil_append]⟩


section Converse

variable {row : Layout} {others : List Layout} {hdr : Header} {i k : Nat}

theorem ReadsAuthentic.forged (h : ReadsAuthentic row others hdr) (env : Envelope)
    (envs : List Envelope) (hrow : env.toLayout = row)
    (hothers : envs.map Envelope.toLayout = others) (hleads : Leads row hdr i)
    (maker : Envelope) (hmaker : maker ∈ env :: envs) (hk : k < maker.chunkCount)
    (hnonce : maker.nonce k = hdr.nonce i) (hle : maker.chunkLength k ≤ hdr.chunkSize) :
    ∃ m, env.plain.take (i * env.chunkSize) ++ maker.chunk k =
      env.plain.take (m * env.chunkSize) := by
  subst hrow
  have hauth := authentic_tableAEAD (env :: envs)
  obtain ⟨src, sizes, hparse, hread⟩ := wholeRead_forged (tableKeys (env :: envs)) [0] ""
    (cons_ne_nil _ _) rfl rfl hauth.toSeals mem_cons_self hleads hmaker
    ⟨k, hk, hnonce.symm, rfl⟩ (by rwa [maker.length_chunk])
  exact h env envs _ rfl hothers hauth (tableKeys (env :: envs)) [0] [] "" rfl rfl _ src hparse
    sizes _ hread

theorem map_toLayout_filled (ls : List Layout) (byte : Nat → UInt8) :
    (ls.map (·.filled byte)).map Envelope.toLayout = ls := by
  rw [map_map]
  exact map_id ls

theorem mem_chunk_filled {l : Layout} {byte : Nat → UInt8} {x : UInt8}
    (h : x ∈ (l.filled byte).chunk k) : ∃ n, k * l.chunkSize ≤ n ∧ x = byte n := by
  have hmem := mem_of_mem_take h
  rw [Layout.filled, ← map_drop, mem_map] at hmem
  obtain ⟨n, hn, rfl⟩ := hmem
  obtain ⟨j, hj, rfl⟩ := mem_drop_iff_getElem.mp hn
  exact ⟨_, by simp, rfl⟩

theorem chunk_ne_nil (env : Envelope) (hk : k < env.chunkCount) : env.chunk k ≠ [] := by
  rw [← length_pos_iff, env.length_chunk]
  exact Layout.chunkLength_pos hk

theorem eq_of_leads (hleads : Leads row hdr i) (hi : 0 < i) (hk : k < row.chunkCount)
    (hnonce : row.nonce k = hdr.nonce i) : k = i := by
  obtain ⟨-, hfirst, -⟩ := hleads 0 hi
  have hbase : row.baseNonce = hdr.baseNonce := by
    rw [← deriveNonce_zero row.length_baseNonce, ← deriveNonce_zero hdr.length_baseNonce]
    exact hfirst
  have hklt := Layout.lt_of_lt_chunkCount hk
  have hilt := Layout.lt_of_lt_chunkCount (hleads (i - 1) (by omega)).1
  rw [Header.nonce, Header.nonce, ← hbase] at hnonce
  exact deriveNonce_inj row.length_baseNonce (by omega) (by omega) hnonce

theorem own_inPlace (h : ReadsAuthentic row others hdr) (hleads : Leads row hdr i)
    (hk : k < row.chunkCount) (hnonce : row.nonce k = hdr.nonce i)
    (hle : row.chunkLength k ≤ hdr.chunkSize) : k = i := by
  rcases Nat.eq_zero_or_pos i with rfl | hi
  swap
  · exact eq_of_leads hleads hi hk hnonce
  by_contra hne
  -- the row's first chunk is all zeros, the others are all ones
  let byte : Nat → UInt8 := fun n => if n < row.chunkSize then 0 else 1
  obtain ⟨m, hm⟩ := h.forged (row.filled byte) (others.map (·.filled byte)) rfl
    (map_toLayout_filled others byte) hleads (row.filled byte) mem_cons_self hk hnonce hle
  obtain ⟨x, rest, hchunk⟩ := exists_cons_of_ne_nil (chunk_ne_nil (row.filled byte) hk)
  have hone : x = 1 := by
    obtain ⟨n, hn, rfl⟩ := mem_chunk_filled (hchunk ▸ mem_cons_self : x ∈ _)
    have hlater := Nat.le_mul_of_pos_left row.chunkSize (Nat.pos_of_ne_zero hne)
    exact if_neg (by omega)
  have hzero : x = 0 := by
    have hhead := congrArg head? hm
    rw [Nat.zero_mul, take_zero, nil_append, hchunk, head?_cons, head?_take] at hhead
    split_ifs at hhead with hm0
    have hlen := Layout.lt_chunkCount_iff.mp (Nat.zero_lt_of_lt hk)
    have hpos := row.chunkSize_pos
    rw [Layout.filled, head?_map, head?_range, if_neg (by omega), Option.map_some,
      Option.some.injEq] at hhead
    exact hhead.trans (if_pos hpos)
  exact absurd (hone.symm.trans hzero) (by decide)

theorem other_inPlace (h : ReadsAuthentic row others hdr) (hleads : Leads row hdr i)
    {l : Layout} (hl : l ∈ others) (hk : k < l.chunkCount) (hnonce : l.nonce k = hdr.nonce i) :
    hdr.chunkSize < l.chunkLength k := by
  by_contra hle
  -- the row is all zeros, the others are all ones
  obtain ⟨m, hm⟩ := h.forged (row.filled fun _ => 0)
    (others.map (·.filled fun _ => 1)) rfl (map_toLayout_filled others _) hleads
    (l.filled fun _ => 1) (mem_cons_of_mem _ (mem_map_of_mem hl)) hk hnonce
    (Nat.not_lt.mp hle)
  obtain ⟨x, hx⟩ := exists_mem_of_ne_nil _ (chunk_ne_nil (l.filled fun _ => 1) hk)
  have hzero : x ∈ (row.filled fun _ => 0).plain :=
    mem_of_mem_take (hm ▸ mem_append_right _ hx)
  obtain ⟨n, -, rfl⟩ := mem_chunk_filled hx
  obtain ⟨n', -, h01⟩ := mem_map.mp hzero
  exact absurd h01 (by decide)

end Converse

/-- **A whole read is authentic behind a header just if only the row's own chunks open there, each
at its own place.** -/
theorem whole_read_authentic (row : Layout) (others : List Layout) (hdr : Header) :
    ReadsAuthentic row others hdr ↔ InPlace row others hdr :=
  ⟨fun h _ hleads => ⟨fun _ hk hnonce hle => own_inPlace h hleads hk hnonce hle,
    fun _ hl _ hk hnonce => other_inPlace h hleads hl hk hnonce⟩, readsAuthentic_of_inPlace⟩

def twoChunks : Envelope where
  baseNonce := List.replicate 12 0
  chunkSize := 1
  length_baseNonce := by decide
  chunkSize_pos := by decide
  chunkSize_le := by decide
  length := 2
  length_lt := by decide
  plain := [1, 2]
  length_plain := by decide

/-- The two chunks the other way round, behind a header with the nonce of the second. -/
def swappedChunks : Source where
  feed := ⟨header 1 (twoChunks.nonce 1) ++ twoChunks.frame (tableAEAD [twoChunks]) 1 ++
    twoChunks.frame (tableAEAD [twoChunks]) 0, .eof⟩
  plan := []
  eager := false

/-- They decrypt to the bytes the other way round, without an error. -/
theorem swapped_chunks_accepted :
    Authentic (tableAEAD [twoChunks]) [twoChunks] ∧
      wholeRead (tableKeys [twoChunks]) swappedChunks (packKeyData twoChunks.baseNonce [0]) ""
        [4, 4, 4] = .ok ([2, 1], some .eof) ∧
      ∀ m, [2, 1] ≠ twoChunks.plain.take (m * twoChunks.chunkSize) := by
  refine ⟨authentic_tableAEAD _, by rfl, fun m h => ?_⟩
  cases m with
  | zero => simp at h
  | succ m => simp [twoChunks] at h

end S3Orchestrator.Encryption
