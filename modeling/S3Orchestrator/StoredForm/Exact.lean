import S3Orchestrator.StoredForm.Ranged

/-!
# Encryption reads back exactly

An envelope read whole and read by ranges, with readers on both sides that split the bytes in any
way. A range is decrypted by a reader over the frames fetched; its first bytes are discarded and it
is cut off after the last.

* **`encryption_exact`**.
-/

namespace S3Orchestrator.Storedform

open ByteStream Encryption Backend HttpRange

/-- The chunk size of the buffers a reader gets: the configured one's from the pool, or its own if
its chunks are larger. -/
def borrowChunkBuffers (configured chunkSize : Nat) : Nat :=
  if configured < chunkSize then chunkSize else configured

def discardBuffer : Nat := 8192

def openRange (fuel : Nat) (keys : Keys) (body : Source) (packedKey : Octets) (keyID : String)
    (rng : RangeResult) : Except Err (DecryptReader × Nat) := do
  let (baseNonce, wrappedDEK) ← unpackKeyData packedKey
  let dek ← (keys.unwrapDEK wrappedDEK keyID).mapError (.wrap "unwrap DEK")
  let aead ← (keys.newGCM dek).mapError (.wrap "decrypt reader")
  let stream ← (discard (decryptRead aead baseNonce rng.chunkSize) discardBuffer fuel
    { newDecryptReader body with chunkIdx := rng.startChunk } rng.sliceStart.toNat).mapError
      (.wrap "skip to range start")
  .ok (⟨aead, baseNonce, rng.chunkSize, stream⟩, rng.sliceLen.toNat)

def rangeRead (r : DecryptReader) :
    ChunkStream × Nat → Nat → Octets × Option Err × (ChunkStream × Nat) :=
  limitRead (decryptRead r.aead r.baseNonce r.chunkSize)

variable {keys : Keys} {packedKey : Octets} {keyID : String} {rng : RangeResult}

theorem limitReader_eq (t : Feed) (n : Int) : Backend.limitReader t n = t.limit n.toNat := by
  simp only [limitReader, Feed.limit, Int.toNat_le]

theorem openRange_of_decryptRange {body : Source} {t : Feed}
    (h : decryptRange keys body.feed packedKey keyID rng = .ok t) :
    ∃ enough, ∀ fuel, enough ≤ fuel → ∃ r, openRange fuel keys body packedKey keyID rng = .ok r ∧
      Serves (rangeRead r.1) (r.1.stream, r.2) t := by
  obtain ⟨⟨baseNonce, wrapped⟩, hunpack, h⟩ := RowStore.exists_of_bind_ok h
  obtain ⟨dek, hunwrap, h⟩ := RowStore.exists_of_bind_ok h
  obtain ⟨aead, hgcm, h⟩ := RowStore.exists_of_bind_ok h
  have hwindow := RowStore.ok_of_mapError_ok h
  have hframe : 0 < nonceSize + rng.chunkSize + tagSize := Nat.add_pos_right _ (by decide)
  let s : ChunkStream := { newDecryptReader body with chunkIdx := rng.startChunk }
  have hfeed : s.feed (nonceSize + rng.chunkSize + tagSize) "ciphertext"
      (openChunk aead baseNonce) = chunked (nonceSize + rng.chunkSize + tagSize) "ciphertext"
        (openChunk aead baseNonce) rng.startChunk body.feed := rfl
  rw [← hfeed, window] at hwindow
  split_ifs at hwindow with hshort
  cases hwindow
  have hdelivers : Delivers (decryptRead aead baseNonce rng.chunkSize) (ChunkStream.feed
      (nonceSize + rng.chunkSize + tagSize) "ciphertext" (openChunk aead baseNonce))
      ChunkStream.unread := delivers_chunkRead hframe
  refine ⟨rng.sliceStart.toNat + s.unread + 1, fun fuel hfuel => ?_⟩
  obtain ⟨s', hdiscard, hrest⟩ : ∃ s', discard (decryptRead aead baseNonce rng.chunkSize)
      discardBuffer fuel s rng.sliceStart.toNat = .ok s' ∧ _ :=
    hdelivers.discard (by decide) (by omega) (by omega)
  refine ⟨(⟨aead, baseNonce, rng.chunkSize, s'⟩, rng.sliceLen.toNat), ?_, ?_⟩
  · simp only [openRange, hunpack, hunwrap, hgcm, bind, Except.bind]
    rw [hdiscard]
    rfl
  · have hserves := hdelivers.limit.serves (s', rng.sliceLen.toNat)
    rw [hrest] at hserves
    rw [limitReader_eq]
    exact hserves

/-- **Chunked encryption is exact.** The reader of the ciphertext delivers the envelope, of the
predicted length. Read whole it gives the plaintext back, and a range of it, translated with the two
sizes alone, that range; the buffers hold the chunks. -/
theorem encryption_exact {k : Nat} (env : Envelope) (hpow : env.chunkSize = 2 ^ k) (aead : AEAD)
    (hseals : Seals aead [env]) (keys : Keys) {packedKey wrapped dek : Octets} {keyID : String}
    (hunpack : unpackKeyData packedKey = .ok (env.baseNonce, wrapped))
    (hunwrap : keys.unwrapDEK wrapped keyID = .ok dek) (hgcm : keys.newGCM dek = .ok aead) :
    (∀ src : Source, src.feed = ⟨env.plain, .eof⟩ →
      Serves (encryptRead aead env.baseNonce env.chunkSize)
        (newEncryptReader src env.baseNonce env.chunkSize) ⟨env.bytes aead, .eof⟩) ∧
    ((env.bytes aead).length : Int) = ciphertextSizeExact env.length env.chunkSize ∧
    (∀ body : Source, body.feed = ⟨env.bytes aead, .eof⟩ →
      ∃ r, decryptStored keys body packedKey keyID = .ok r ∧
        (∀ configured, r.chunkSize ≤ borrowChunkBuffers configured r.chunkSize) ∧
        Serves (decryptRead r.aead r.baseNonce r.chunkSize) r.stream ⟨env.plain, .eof⟩) ∧
    ∀ start stop, start ≤ stop → stop < env.length →
      ∃ rng first last, ciphertextRange start stop env.length (env.bytes aead).length = .ok rng ∧
        rng.backendRange = rangeHeader (first : Nat) (last : Nat) ∧
        ∀ body : Source, body.feed =
            ⟨slice (env.bytes aead) first (min last ((env.bytes aead).length - 1)), .eof⟩ →
          ∃ enough, ∀ fuel, enough ≤ fuel →
            ∃ r, openRange fuel keys body packedKey keyID rng = .ok r ∧
              (∀ configured, r.1.chunkSize ≤ borrowChunkBuffers configured r.1.chunkSize) ∧
              Serves (rangeRead r.1) (r.1.stream, r.2) ⟨slice env.plain start stop, .eof⟩ := by
  have hborrow : ∀ configured cs, cs ≤ borrowChunkBuffers configured cs := fun configured cs => by
    unfold borrowChunkBuffers
    split_ifs <;> omega
  have henv := List.mem_singleton_self env
  refine ⟨fun src hsrc => ?_, ?_, fun body hbody => ?_, fun start stop hle hstop => ?_⟩
  · have hserves : Serves (encryptRead aead env.baseNonce env.chunkSize)
        (newEncryptReader src env.baseNonce env.chunkSize) _ := serves_chunkRead env.chunkSize_pos _
    have hfeed : (newEncryptReader src env.baseNonce env.chunkSize).feed env.chunkSize "plaintext"
        (sealChunk aead env.baseNonce) = ⟨env.bytes aead, .eof⟩ := by
      rw [← encrypted_eq_bytes, ← hsrc]
      rfl
    rwa [hfeed] at hserves
  · rw [ciphertextSizeExact_eq env.chunkSize_pos, length_bytes env hseals]
    rfl
  · obtain ⟨r, hok, hfeed⟩ := decryptStored_bytes hseals henv body hbody hunpack hunwrap hgcm
    exact ⟨r, hok, fun configured => hborrow _ _, hfeed ▸
      serves_chunkRead (Nat.add_pos_right _ (by decide)) r.stream⟩
  · obtain ⟨rng, first, last, hrange, hheader, -, -, -, -, -, hok⟩ :=
      decryptRange_eq hseals henv hpow hunpack hunwrap hgcm hle hstop
    refine ⟨rng, first, last, hrange, hheader, fun body hbody => ?_⟩
    rw [← hbody] at hok
    obtain ⟨enough, henough⟩ := openRange_of_decryptRange hok
    refine ⟨enough, fun fuel hfuel => ?_⟩
    obtain ⟨r, hopen, hserves⟩ := henough fuel hfuel
    exact ⟨r, hopen, fun configured => hborrow _ _, hserves⟩

/-- An envelope of two chunks, read whole from a reader that returns a byte at a time. -/
theorem two_chunks_exact :
    ((twoChunks.bytes (tableAEAD [twoChunks])).length : Int) = ciphertextSizeExact 2 1 ∧
    ∃ r, decryptStored (tableKeys [twoChunks])
        { feed := ⟨twoChunks.bytes (tableAEAD [twoChunks]), .eof⟩, plan := List.replicate 90 1 }
        (packKeyData twoChunks.baseNonce [0]) "" = .ok r ∧
      Serves (decryptRead r.aead r.baseNonce r.chunkSize) r.stream ⟨[1, 2], .eof⟩ := by
  obtain ⟨-, hlength, hwhole, -⟩ := encryption_exact (k := 0) twoChunks rfl
    (tableAEAD [twoChunks]) (authentic_tableAEAD _).toSeals (tableKeys [twoChunks])
    (rfl : unpackKeyData (packKeyData twoChunks.baseNonce [0]) = .ok (twoChunks.baseNonce, [0]))
    (rfl : (tableKeys [twoChunks]).unwrapDEK [0] "" = .ok []) rfl
  obtain ⟨r, hok, -, hserves⟩ := hwhole { feed := _, plan := List.replicate 90 1 } rfl
  exact ⟨hlength, r, hok, hserves⟩

end S3Orchestrator.Storedform
