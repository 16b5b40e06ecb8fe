import Mathlib.Data.Nat.Size
import Mathlib.Tactic.LinearCombination
import Mathlib.Tactic.Ring
import S3Orchestrator.Backend.Range
import S3Orchestrator.Encryption.Authentic
import S3Orchestrator.StoredForm.Layers

/-!
# Ranged reads of an envelope

A range of the plaintext is read by fetching the frames its chunks are in. The row does not keep the
chunk size: `chunkSizeOf` recovers it from the two sizes, up to chunk sizes that make no difference.

* **`chunkSizeOf_bytes`**: the chunk size recovered is that of the envelope, unless it has one
  chunk;
* **`decryptStored_bytes`**, **`decryptRange_eq`**: the plaintext, or the range of it, comes back.
-/

namespace S3Orchestrator.Storedform

open ByteStream Encryption Backend HttpRange List

/-! ## The translation -/

/-- The chunk size of an envelope of the given sizes; of a single chunk, the smallest that holds it.
-/
def chunkSizeOf (plaintextSize ciphertextSize : Int) : Except Err Nat :=
  let chunks := (ciphertextSize - headerSize - plaintextSize).tdiv chunkOverhead
  let perChunk := ((plaintextSize + chunks - 1).tdiv chunks).toNat
  let cs := 2 ^ Nat.size (perChunk - 1)
  if 0 < chunks ∧ 0 < plaintextSize ∧ ciphertextSizeExact plaintextSize cs = ciphertextSize then
    .ok cs
  else .error (.text ("no chunk size gives " ++ toString plaintextSize ++ " plaintext bytes a " ++
    toString ciphertextSize ++ "-byte envelope"))

structure RangeResult where
  backendRange : String
  chunkSize : Nat
  startChunk : Nat
  sliceStart : Int
  sliceLen : Int

def ciphertextRange (start stop plaintextSize ciphertextSize : Int) : Except Err RangeResult :=
  if start < 0 ∨ stop < start then
    .error (.text ("invalid range: " ++ toString start ++ "-" ++ toString stop))
  else do
    let cs ← chunkSizeOf plaintextSize ciphertextSize
    let startChunk := start.tdiv cs
    let endChunk := stop.tdiv cs
    let ctStart := headerSize + startChunk * (cs + chunkOverhead)
    let ctEnd := headerSize + (endChunk + 1) * (cs + chunkOverhead) - 1
    .ok { backendRange := rangeHeader ctStart ctEnd
          chunkSize := cs
          startChunk := startChunk.toNat
          sliceStart := start.tmod cs
          sliceLen := stop - start + 1 }

def decryptRange (keys : Keys) (body : Feed) (packedKey : Octets) (keyID : String)
    (rng : RangeResult) : Except Err Feed := do
  let (baseNonce, wrappedDEK) ← unpackKeyData packedKey
  let dek ← (keys.unwrapDEK wrappedDEK keyID).mapError (.wrap "unwrap DEK")
  let aead ← (keys.newGCM dek).mapError (.wrap "decrypt reader")
  (window (chunked (nonceSize + rng.chunkSize + tagSize) "ciphertext" (openChunk aead baseNonce)
    rng.startChunk body) rng.sliceStart rng.sliceLen).mapError (.wrap "skip to range start")

/-! ## Sizes -/

section Sizes

variable {n c k : Nat}

def chunksOf (n c : Nat) : Nat := (n + c - 1) / c

theorem chunksOf_eq_one (hn : 0 < n) (h : n ≤ c) : chunksOf n c = 1 := by
  rw [chunksOf, Nat.div_eq_iff (by omega)]
  omega

theorem le_chunksOf_mul (hc : 0 < c) : n ≤ chunksOf n c * c := by
  have := Nat.div_add_mod (n + c - 1) c
  have := Nat.mod_lt (n + c - 1) hc
  rw [chunksOf, Nat.mul_comm]
  omega

theorem chunksOf_mul_lt (hn : 0 < n) (hc : 0 < c) : chunksOf n c * c < n + c := by
  have := Nat.div_mul_le_self (n + c - 1) c
  rw [chunksOf]
  omega

theorem chunksOf_le_iff (hc : 0 < c) {m : Nat} : chunksOf n c ≤ m ↔ n ≤ m * c := by
  rw [chunksOf, Nat.div_le_iff_le_mul_add_pred hc, Nat.mul_comm]
  omega

theorem ciphertextSizeExact_eq (hc : 0 < c) :
    ciphertextSizeExact n c = (headerSize + n + chunksOf n c * chunkOverhead : Nat) := by
  have hdiv := Nat.div_add_mod n c
  have hmod := Nat.mod_lt n hc
  have hchunks : chunksOf n c = n / c + if 0 < n % c then 1 else 0 := by
    split_ifs with hrem
    · rw [chunksOf, Nat.div_eq_iff hc, Nat.add_mul, Nat.mul_comm (n / c) c]
      omega
    · rw [chunksOf, Nat.div_eq_iff hc, Nat.add_mul, Nat.mul_comm (n / c) c]
      omega
  by_cases hn : n = 0
  · subst hn
    simp [ciphertextSizeExact, hchunks]
  · have hzero : (n : Int) ≠ 0 := by omega
    rw [ciphertextSizeExact, if_neg hzero, hchunks]
    simp only [Int.tdiv_eq_ediv_of_nonneg (Int.natCast_nonneg n),
      Int.tmod_eq_emod_of_nonneg (Int.natCast_nonneg n), ← Int.natCast_ediv, ← Int.natCast_emod]
    have hbytes : (c : Int) * (n / c : Nat) + (n % c : Nat) = n := by exact_mod_cast hdiv
    rcases Nat.eq_zero_or_pos (n % c) with hrem | hrem
    · rw [if_neg (by omega), if_neg (by omega)]
      rw [hrem] at hbytes
      push_cast at hbytes ⊢
      linear_combination hbytes
    · rw [if_pos (by omega), if_pos hrem]
      push_cast at hbytes ⊢
      linear_combination hbytes

theorem chunkSize_recovered (hn : 0 < n) :
    2 ^ Nat.size (chunksOf n (chunksOf n (2 ^ k)) - 1) ≤ 2 ^ k ∧
      (2 ^ Nat.size (chunksOf n (chunksOf n (2 ^ k)) - 1) = 2 ^ k ∨
        chunksOf n (2 ^ k) = 1 ∧ n ≤ 2 ^ Nat.size (chunksOf n (chunksOf n (2 ^ k)) - 1)) := by
  have hpow : 0 < 2 ^ k := Nat.two_pow_pos k
  have hcover := le_chunksOf_mul (n := n) hpow
  have hless := chunksOf_mul_lt hn hpow
  have hchunks : 0 < chunksOf n (2 ^ k) := by
    by_contra hzero
    rw [Nat.eq_zero_of_not_pos hzero] at hcover
    omega
  have hle : Nat.size (chunksOf n (chunksOf n (2 ^ k)) - 1) ≤ k := by
    have hper : chunksOf n (chunksOf n (2 ^ k)) ≤ 2 ^ k :=
      (chunksOf_le_iff hchunks).mpr (by rwa [Nat.mul_comm])
    exact Nat.size_le.mpr (by omega)
  refine ⟨Nat.pow_le_pow_right (by decide) hle, ?_⟩
  by_cases hone : chunksOf n (2 ^ k) = 1
  · -- one chunk: what it holds is below the power of two above it
    have hself : chunksOf n 1 = n := by simp [chunksOf]
    have hsize := Nat.lt_size_self (n - 1)
    rw [hone, hself]
    omega
  · -- more than one: more than half of each is filled
    refine .inl (congrArg (2 ^ ·) (Nat.le_antisymm hle ?_))
    cases k with
    | zero => exact Nat.zero_le _
    | succ k =>
      refine Nat.succ_le_of_lt (Nat.lt_size.mpr ?_)
      have hhalf : ¬chunksOf n (chunksOf n (2 ^ (k + 1))) ≤ 2 ^ k := by
        have htwo : 2 ^ k * 2 ≤ 2 ^ k * chunksOf n (2 ^ (k + 1)) :=
          Nat.mul_le_mul_left _ (by omega)
        have hdouble : chunksOf n (2 ^ (k + 1)) * 2 ^ (k + 1) =
            2 * (2 ^ k * chunksOf n (2 ^ (k + 1))) := by
          ring
        rw [chunksOf_le_iff hchunks]
        omega
      omega

end Sizes

/-! ## The frames of a range -/

section Frames

variable {env : Envelope} {aead : AEAD} {envs : List Envelope} {i j n : Nat}

theorem frame_eq (env : Envelope) (aead : AEAD) (i : Nat) :
    env.frame aead i = env.toHeader.frame aead i (env.chunk i) := rfl

theorem chunkLength_full (h : i + 1 < env.chunkCount) : env.chunkLength i = env.chunkSize := by
  have hlt := Layout.lt_chunkCount_iff.mp h
  rw [Nat.add_mul, Nat.one_mul] at hlt
  rw [Layout.chunkLength]
  omega

theorem length_frame_full (hauth : Seals aead envs) (h : i + 1 < env.chunkCount) :
    (env.frame aead i).length = env.chunkSize + chunkOverhead := by
  rw [frame_eq, length_frame hauth, env.length_chunk, chunkLength_full h, chunkOverhead]
  omega

theorem length_frames (hauth : Seals aead envs) (h : j + n < env.chunkCount) :
    ((List.range' j n).flatMap (env.frame aead)).length = n * (env.chunkSize + chunkOverhead) := by
  induction n generalizing j with
  | zero => simp
  | succ n ih =>
    rw [range'_succ, flatMap_cons, length_append,
      length_frame_full hauth (by omega), ih (by omega), Nat.succ_mul, Nat.add_comm]

theorem length_bytes (env : Envelope) (hauth : Seals aead envs) :
    (env.bytes aead).length = headerSize + env.length + env.chunkCount * chunkOverhead := by
  rw [Envelope.bytes, length_append, length_header, range_eq_range']
  cases hcount : env.chunkCount with
  | zero =>
    have hempty : ¬0 * env.chunkSize < env.length := by
      rw [← Layout.lt_chunkCount_iff, hcount]
      omega
    simp at hempty
    simp [hempty]
  | succ m =>
    have hlast : m * env.chunkSize < env.length := Layout.lt_chunkCount_iff.mp (by omega)
    have hend : ¬(m + 1) * env.chunkSize < env.length := by
      rw [← Layout.lt_chunkCount_iff]
      omega
    rw [range'_concat, flatMap_append, length_append,
      length_frames hauth (by omega), flatMap_singleton, frame_eq, length_frame hauth,
      env.length_chunk, Layout.chunkLength, chunkOverhead]
    rw [Nat.add_mul] at hend
    have hmin : min env.chunkSize (env.length - (0 + 1 * m) * env.chunkSize) =
        env.length - m * env.chunkSize := by
      rw [Nat.zero_add, Nat.one_mul]
      omega
    rw [hmin, Nat.mul_add, Nat.succ_mul]
    omega

theorem drop_bytes (hauth : Seals aead envs) (h : j < env.chunkCount) :
    (env.bytes aead).drop (headerSize + j * (env.chunkSize + chunkOverhead)) =
      (List.range' j (env.chunkCount - j)).flatMap (env.frame aead) := by
  have hsplit : range env.chunkCount = range' 0 j ++ range' j (env.chunkCount - j) := by
    have happend := range'_append_1 (s := 0) (m := j) (n := env.chunkCount - j)
    rw [Nat.zero_add, Nat.add_sub_cancel' h.le] at happend
    rw [range_eq_range', happend]
  have hfirst : ((range' 0 j).flatMap (env.frame aead)).length =
      j * (env.chunkSize + chunkOverhead) := length_frames hauth (by omega)
  rw [Envelope.bytes, ← length_header env.toHeader, ← drop_drop, drop_left, hsplit,
    flatMap_append, ← hfirst, drop_left]

theorem take_frames (hauth : Seals aead envs) (h : j + n < env.chunkCount) :
    ((List.range' j (env.chunkCount - j)).flatMap (env.frame aead)).take
        (n * (env.chunkSize + chunkOverhead)) =
      (List.range' j n).flatMap (env.frame aead) := by
  have hsplit : range' j (env.chunkCount - j) =
      range' j n ++ range' (j + n) (env.chunkCount - j - n) := by
    rw [range'_append_1]
    congr 1
    omega
  rw [hsplit, flatMap_append, ← length_frames hauth h, take_left]

def ReadsAs (env : Envelope) (cs : Nat) : Prop :=
  cs = env.chunkSize ∨ env.chunkCount = 1 ∧ env.length ≤ cs

theorem slice_bytes (hauth : Seals aead envs) {cs first last : Nat} (hcs : ReadsAs env cs)
    (hle : first ≤ last) (hlast : last < env.chunkCount) :
    slice (env.bytes aead) (headerSize + first * (cs + chunkOverhead))
        (min (headerSize + (last + 1) * (cs + chunkOverhead) - 1) ((env.bytes aead).length - 1)) =
      (List.range' first (last + 1 - first)).flatMap (env.frame aead) := by
  have hlen := length_bytes env hauth
  have hdrop : (env.bytes aead).drop (headerSize + first * (cs + chunkOverhead)) =
      (range' first (env.chunkCount - first)).flatMap (env.frame aead) := by
    rcases hcs with rfl | ⟨hone, -⟩
    · exact drop_bytes hauth (by omega)
    · obtain rfl : first = 0 := by omega
      rw [← drop_bytes hauth (by omega), Nat.zero_mul, Nat.zero_mul]
  -- a range that ends with the last frame goes on to the end of the object
  have htail : last + 1 = env.chunkCount →
      (env.bytes aead).length ≤ headerSize + (last + 1) * (cs + chunkOverhead) →
      slice (env.bytes aead) (headerSize + first * (cs + chunkOverhead))
        (min (headerSize + (last + 1) * (cs + chunkOverhead) - 1) ((env.bytes aead).length - 1)) =
      (range' first (last + 1 - first)).flatMap (env.frame aead) := by
    intro hcount hend
    have hrest := congrArg length hdrop
    rw [length_drop] at hrest
    rw [slice, hdrop, hcount, take_of_length_le]
    rw [← hrest, ← hcount]
    omega
  rcases hcs with rfl | ⟨hone, hheld⟩
  · by_cases hmore : last + 1 < env.chunkCount
    · have hfull := Layout.lt_chunkCount_iff.mp hmore
      have hover := Nat.mul_le_mul_right chunkOverhead hmore.le
      have hends : headerSize + (last + 1) * (env.chunkSize + chunkOverhead) ≤
          (env.bytes aead).length := by
        rw [hlen, Nat.mul_add]
        omega
      have hcount : headerSize + (last + 1) * (env.chunkSize + chunkOverhead) - 1 + 1 -
          (headerSize + first * (env.chunkSize + chunkOverhead)) =
          (last + 1 - first) * (env.chunkSize + chunkOverhead) := by
        rw [Nat.sub_mul]
        have hpos : 0 < headerSize := by decide
        omega
      rw [slice, hdrop, Nat.min_eq_left (by omega), hcount, take_frames hauth (by omega)]
    · refine htail (by omega) ?_
      have hend : ¬(last + 1) * env.chunkSize < env.length := by
        rw [← Layout.lt_chunkCount_iff]
        omega
      have hcount : last + 1 = env.chunkCount := by omega
      rw [hlen, ← hcount, Nat.mul_add]
      omega
  · refine htail (by omega) ?_
    obtain rfl : last = 0 := by omega
    rw [hlen, hone]
    omega

theorem opened_frames (hauth : Seals aead envs) (henv : env ∈ envs) (hdr : Header)
    (hbase : hdr.baseNonce = env.baseNonce) (hcs : ReadsAs env hdr.chunkSize) (hn : 0 < n)
    (h : j + n ≤ env.chunkCount) :
    hdr.opened aead j ⟨(List.range' j n).flatMap (env.frame aead), .eof⟩ =
      ⟨(List.range' j n).flatMap env.chunk, .eof⟩ := by
  obtain ⟨m, rfl⟩ : ∃ m, n = m + 1 := ⟨n - 1, by omega⟩
  have hnonce : ∀ i, env.nonce i = hdr.nonce i := fun i => by
    rw [Header.nonce, Header.nonce, hbase]
  have hleads : Leads env.toLayout hdr (j + m) := by
    intro i hi
    refine ⟨by omega, hnonce i, ?_⟩
    rcases hcs with hsame | ⟨hone, -⟩
    · rw [hsame, chunkLength_full (by omega)]
    · omega
  have hlast : env.frame aead (j + m) = hdr.frame aead (j + m) (env.chunk (j + m)) := by
    rw [Envelope.frame, Header.frame, hnonce]
  have hfits : (env.chunk (j + m)).length ≤ hdr.chunkSize := by
    rw [env.length_chunk]
    rcases hcs with hsame | ⟨-, hheld⟩
    · rw [hsame]
      exact env.chunkLength_le _
    · rw [Layout.chunkLength]
      omega
  rw [range'_concat, Nat.one_mul, flatMap_append, flatMap_append,
    flatMap_singleton, flatMap_singleton, opened_leads hauth henv m j hleads, hlast,
    opened_frame hauth henv ⟨j + m, by omega, (hnonce _).symm, rfl⟩ hfits]
  rfl

theorem flatMap_chunks {cs : Nat} (hcs : ReadsAs env cs) (h : j + n ≤ env.chunkCount) :
    (List.range' j n).flatMap env.chunk = (env.plain.drop (j * cs)).take (n * cs) := by
  rcases hcs with rfl | ⟨hone, hheld⟩
  · clear h
    induction n generalizing j with
    | zero => simp
    | succ n ih =>
      have hsum : (n + 1) * env.chunkSize = env.chunkSize + n * env.chunkSize := by
        rw [Nat.succ_mul, Nat.add_comm]
      rw [range'_succ, flatMap_cons, ih, Envelope.chunk, hsum, take_add, drop_drop, Nat.succ_mul]
  · have hend : ¬1 * env.chunkSize < env.length := by
      rw [← Layout.lt_chunkCount_iff]
      omega
    have hplain := env.length_plain
    cases n with
    | zero => simp
    | succ n =>
      obtain ⟨rfl, rfl⟩ : j = 0 ∧ n = 0 := by omega
      rw [range'_one, flatMap_singleton, Envelope.chunk, Nat.zero_mul, Nat.zero_mul,
        drop_zero, take_of_length_le (by omega), take_of_length_le (by omega)]


end Frames

/-! ## Reading a range back -/

section Recovered

variable {env : Envelope} {aead : AEAD} {envs : List Envelope} {k : Nat} {keys : Keys}
  {packedKey wrapped dek : Octets} {keyID : String}

theorem decryptStored_bytes (hauth : Seals aead envs) (henv : env ∈ envs) (body : Source)
    (hbody : body.feed = ⟨env.bytes aead, .eof⟩)
    (hunpack : unpackKeyData packedKey = .ok (env.baseNonce, wrapped))
    (hunwrap : keys.unwrapDEK wrapped keyID = .ok dek) (hgcm : keys.newGCM dek = .ok aead) :
    ∃ r, decryptStored keys body packedKey keyID = .ok r ∧ r.feed = ⟨env.plain, .eof⟩ := by
  obtain ⟨src, hparse, hfeed⟩ := parseHeader_header env.toHeader body hbody
  refine ⟨⟨aead, env.baseNonce, env.chunkSize, newDecryptReader src⟩, ?_, ?_⟩
  · simp [decryptStored, hunpack, hunwrap, hparse, hgcm, bind, Except.bind, Except.mapError]
  · have hopened : env.toHeader.opened aead 0 src.feed = ⟨env.plain, .eof⟩ := by
      rw [hfeed, range_eq_range']
      rcases Nat.eq_zero_or_pos env.chunkCount with hcount | hcount
      · have hempty : ¬0 * env.chunkSize < env.length := by
          rw [← Layout.lt_chunkCount_iff]
          omega
        have hplain : env.plain = [] := by
          rw [← length_eq_zero_iff, env.length_plain]
          omega
        rw [hcount, hplain, opened_eq, chunkedStep_eof (frameSize_pos _) rfl rfl]
      · have hend : ¬env.chunkCount * env.chunkSize < env.length := by
          rw [← Layout.lt_chunkCount_iff]
          omega
        rw [opened_frames hauth henv env.toHeader rfl (.inl rfl) hcount (by omega),
          flatMap_chunks (.inl rfl) (by omega), Nat.zero_mul, drop_zero,
          take_of_length_le (by rw [env.length_plain]; omega)]
    rw [← hopened]
    simp [DecryptReader.feed, ChunkStream.feed, ChunkStream.rest, newDecryptReader, Header.opened]

theorem chunkSizeOf_bytes (hauth : Seals aead envs) (hpow : env.chunkSize = 2 ^ k)
    (hne : 0 < env.length) :
    ∃ cs, chunkSizeOf env.length (env.bytes aead).length = .ok cs ∧ 0 < cs ∧
      cs ≤ env.chunkSize ∧ ReadsAs env cs := by
  have hcount : chunksOf env.length env.chunkSize = env.chunkCount := rfl
  obtain ⟨hsmall, hrecovered⟩ := chunkSize_recovered (k := k) hne
  rw [← hpow, hcount] at hsmall hrecovered
  have hchunks : (((env.bytes aead).length : Int) - headerSize - env.length).tdiv chunkOverhead =
      env.chunkCount := by
    have hover : ((env.bytes aead).length : Int) - headerSize - env.length =
        env.chunkCount * chunkOverhead := by
      rw [length_bytes env hauth]
      push_cast
      ring
    rw [hover, Int.mul_tdiv_cancel _ (by decide)]
  have hpositive : 0 < env.chunkCount := Layout.lt_chunkCount_iff.mpr (by omega)
  have hper : (((env.length : Int) + env.chunkCount - 1).tdiv env.chunkCount).toNat =
      chunksOf env.length env.chunkCount := by
    have hcast : (env.length : Int) + env.chunkCount - 1 =
        (env.length + env.chunkCount - 1 : Nat) := by omega
    rw [hcast, ← Int.ofNat_tdiv, Int.toNat_natCast, chunksOf]
  have hcs : 0 < 2 ^ Nat.size (chunksOf env.length env.chunkCount - 1) := Nat.two_pow_pos _
  have hsize : ciphertextSizeExact env.length
      (2 ^ Nat.size (chunksOf env.length env.chunkCount - 1)) = (env.bytes aead).length := by
    rw [ciphertextSizeExact_eq hcs, length_bytes env hauth]
    rcases hrecovered with hsame | ⟨hone, hheld⟩
    · rw [hsame, hcount]
    · rw [chunksOf_eq_one hne hheld, hone]
  refine ⟨_, ?_, hcs, hsmall, hrecovered⟩
  unfold chunkSizeOf
  simp only [hchunks, hper]
  rw [if_pos ⟨by omega, by omega, hsize⟩]

theorem decryptRange_eq (hauth : Seals aead envs) (henv : env ∈ envs) (hpow : env.chunkSize = 2 ^ k)
    (hunpack : unpackKeyData packedKey = .ok (env.baseNonce, wrapped))
    (hunwrap : keys.unwrapDEK wrapped keyID = .ok dek) (hgcm : keys.newGCM dek = .ok aead)
    {start stop : Nat} (hle : start ≤ stop) (hstop : stop < env.length) :
    ∃ rng first last, ciphertextRange start stop env.length (env.bytes aead).length = .ok rng ∧
      rng.backendRange = rangeHeader (first : Nat) (last : Nat) ∧ 0 < first ∧ first ≤ last ∧
      first < (env.bytes aead).length ∧
      last < (env.bytes aead).length + maxEncryptionChunkSize ∧
      rng.sliceLen = stop - start + 1 ∧
      decryptRange keys
          ⟨slice (env.bytes aead) first (min last ((env.bytes aead).length - 1)), .eof⟩
          packedKey keyID rng =
        .ok ⟨slice env.plain start stop, .eof⟩ := by
  obtain ⟨cs, hcs, hpos, hsmall, hreads⟩ := chunkSizeOf_bytes hauth hpow (by omega)
  have hmax := env.chunkSize_le
  have hchunk : start / cs ≤ stop / cs := Nat.div_le_div_right hle
  have hstart := Nat.div_mul_le_self start cs
  have hends := Nat.div_mul_le_self stop cs
  have hlast : stop / cs < env.chunkCount := by
    rcases hreads with rfl | ⟨hone, hheld⟩
    · exact Layout.lt_chunkCount_iff.mpr (by omega)
    · rw [hone, Nat.div_lt_iff_lt_mul hpos]
      omega
  have hlen := length_bytes env hauth
  have hover : (stop / cs + 1) * chunkOverhead ≤ env.chunkCount * chunkOverhead :=
    Nat.mul_le_mul_right _ hlast
  have hspan : start / cs * (cs + chunkOverhead) + (cs + chunkOverhead) ≤
      (stop / cs + 1) * (cs + chunkOverhead) := by
    rw [← Nat.succ_mul]
    exact Nat.mul_le_mul_right _ (by omega)
  have hsplit : (stop / cs + 1) * (cs + chunkOverhead) =
      stop / cs * cs + cs + (stop / cs + 1) * chunkOverhead := by
    rw [Nat.mul_add, Nat.succ_mul]
  refine ⟨⟨_, cs, start / cs, (start % cs : Nat), stop - start + 1⟩,
    headerSize + start / cs * (cs + chunkOverhead),
    headerSize + (stop / cs + 1) * (cs + chunkOverhead) - 1, ?_, rfl,
    Nat.add_pos_left (by decide) _, by omega, ?_, ?_, rfl, ?_⟩
  · have hfirst : (start : Int).tdiv cs = (start / cs : Nat) := (Int.ofNat_tdiv _ _).symm
    have hsecond : (stop : Int).tdiv cs = (stop / cs : Nat) := (Int.ofNat_tdiv _ _).symm
    have hend : ((headerSize + (stop / cs + 1) * (cs + chunkOverhead) - 1 : Nat) : Int) =
        headerSize + ((stop / cs : Nat) + 1) * (cs + chunkOverhead) - 1 := by
      rw [Nat.cast_sub (by omega)]
      push_cast
      rfl
    rw [ciphertextRange, if_neg (by omega), hcs, hend]
    push_cast
    rfl
  · have hbefore : start / cs * chunkOverhead ≤ env.chunkCount * chunkOverhead :=
      Nat.mul_le_mul_right _ (by omega)
    rw [hlen, Nat.mul_add]
    omega
  · omega
  · -- the frames fetched open to their chunks, and the range is cut out of those
    let hdr : Header := ⟨env.baseNonce, cs, env.length_baseNonce, hpos, hsmall.trans hmax⟩
    have hplaces : start / cs + (stop / cs + 1 - start / cs) ≤ env.chunkCount := by omega
    have hopened : chunked (nonceSize + cs + tagSize) "ciphertext" (openChunk aead env.baseNonce)
        (start / cs) ⟨(range' (start / cs) (stop / cs + 1 - start / cs)).flatMap
          (env.frame aead), .eof⟩ =
        ⟨(env.plain.drop (start / cs * cs)).take ((stop / cs + 1 - start / cs) * cs), .eof⟩ := by
      rw [← flatMap_chunks hreads hplaces]
      exact opened_frames hauth henv hdr rfl hreads (by omega) hplaces
    have hmod := Nat.div_add_mod start cs
    have hnext : stop < (stop / cs + 1) * cs := by
      rw [Nat.succ_mul]
      exact Nat.lt_div_mul_add hpos
    have hwidth : (stop / cs + 1 - start / cs) * cs = (stop / cs + 1) * cs - start / cs * cs :=
      Nat.sub_mul _ _ _
    have hplain := env.length_plain
    rw [Nat.mul_comm] at hmod
    have hcut := window_eq
      (t := ⟨(env.plain.drop (start / cs * cs)).take ((stop / cs + 1 - start / cs) * cs), .eof⟩)
      (Int.natCast_nonneg (start % cs)) (n := (stop : Int) - start + 1) (by omega)
      (by simp only [length_take, length_drop]; omega)
    rw [slice_bytes hauth hreads hchunk hlast]
    simp only [decryptRange, hunpack, hunwrap, hgcm, bind, Except.bind, Except.mapError]
    rw [hopened, hcut]
    have hcount : ((stop : Int) - start + 1).toNat = stop + 1 - start := by omega
    simp only [Int.toNat_natCast, hcount, slice, Except.ok.injEq, Feed.mk.injEq, and_true]
    rw [drop_take, drop_drop, take_take, hmod, Nat.min_eq_left (by omega)]

end Recovered

end S3Orchestrator.Storedform
