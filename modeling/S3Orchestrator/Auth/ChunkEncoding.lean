import S3Orchestrator.Auth.ChunkChain
import Mathlib.Data.Nat.Digits.Lemmas

/-!
# Signed chunks, written and read

The encoding that a client sends of a payload it has cut into chunks, each signed after the one
before, and what the reader makes of it and of every other wire.

* **`decoding_exact`**: what is handed out is verified and whole, and an encoding is read back.
-/

namespace S3Orchestrator.Chunked

open RowStore List

/-! ## Numbers in hex digits -/

def hexDigit (d : Nat) : UInt8 := UInt8.ofNat (if d < 10 then 0x30 + d else 0x57 + d)

def formatHex (n : Nat) : Bytes :=
  if n = 0 then [0x30] else ((Nat.digits 16 n).map hexDigit).reverse

theorem isHexByte_hexDigit : ∀ d < 16, isHexByte (hexDigit d) = true := by decide

theorem unhex_hexDigit : ∀ d < 16, (unhex (hexDigit d)).toNat = d := by decide

theorem isHexByte_formatHex (n : Nat) : ∀ b ∈ formatHex n, isHexByte b = true := by
  intro b hb
  unfold formatHex at hb
  split_ifs at hb
  · rw [mem_singleton.mp hb]
    rfl
  · obtain ⟨d, hd, rfl⟩ := mem_map.mp (mem_reverse.mp hb)
    exact isHexByte_hexDigit d (Nat.digits_lt_base (by decide) hd)

theorem formatHex_ne_nil (n : Nat) : formatHex n ≠ [] := by
  unfold formatHex
  split_ifs with hn
  · exact cons_ne_nil _ _
  · simpa [Nat.digits_ne_nil_iff_ne_zero] using hn

theorem hexValue_digits {digits : List Nat} (h : ∀ d ∈ digits, d < 16) :
    hexValue (digits.map hexDigit).reverse = Nat.ofDigits 16 digits := by
  induction digits with
  | nil => rfl
  | cons d digits ih =>
    have ih := ih fun d' hd => h d' (mem_cons_of_mem d hd)
    rw [hexValue] at ih ⊢
    rw [map_cons, reverse_cons, foldl_append, Nat.ofDigits_cons, ih]
    simp [unhex_hexDigit d (h d mem_cons_self), Nat.add_comm]

theorem hexValue_formatHex (n : Nat) : hexValue (formatHex n) = n := by
  unfold formatHex
  split_ifs with hn
  · rw [hn]
    rfl
  · rw [hexValue_digits fun d hd => Nat.digits_lt_base (by decide) hd, Nat.ofDigits_digits]

theorem parseHex64_digits {s : Bytes} (hne : s ≠ []) (hhex : ∀ b ∈ s, isHexByte b = true)
    (hmax : hexValue s ≤ 9223372036854775807) : parseHex64 s = some (hexValue s : Int) := by
  obtain ⟨b, t, rfl⟩ := exists_cons_of_ne_nil hne
  have hb := hhex b mem_cons_self
  have hplus : b ≠ 0x2B := by
    rintro rfl
    exact absurd hb (by decide)
  have hminus : b ≠ 0x2D := by
    rintro rfl
    exact absurd hb (by decide)
  have hall : (b :: t).all isHexByte = true := all_eq_true.mpr hhex
  unfold parseHex64
  split
  · next heq => exact absurd (cons.inj heq).1 hplus
  · next heq => exact absurd (cons.inj heq).1 hminus
  · simp only [hall, head?_cons, Option.some.injEq, hminus, if_false]
    rw [if_neg (by simp), if_pos (by omega)]

/-! ## White space -/

theorem whiteSpace_not_hex (b : UInt8) : isHexByte b = true →
    (whiteSpace.all fun w => w.head? != some b) = true ∧
      ((whiteSpace.map List.reverse).all fun w => w.head? != some b) = true := by
  revert b
  exact forall_byte (by decide +kernel)

theorem trimFront_of_not_start {forms : List Bytes} {b : UInt8}
    (h : (forms.all fun w => w.head? != some b) = true) (hne : [] ∉ forms) (fuel : Nat)
    (s : Bytes) : trimFront forms fuel (b :: s) = b :: s := by
  cases fuel with
  | zero => rfl
  | succ fuel =>
    have hnone : (forms.find? fun w => w.isPrefixOf (b :: s)) = none := by
      refine find?_eq_none.mpr fun w hw => ?_
      cases w with
      | nil => exact absurd hw hne
      | cons c w =>
        have := all_eq_true.mp h _ hw
        simp only [head?_cons, bne_iff_ne, ne_eq, Option.some.injEq] at this
        simp [this]
    rw [trimFront, hnone]

theorem trimSpace_of_hex {s : Bytes} (hne : s ≠ []) (hhex : ∀ b ∈ s, isHexByte b = true) :
    trimSpace s = s := by
  obtain ⟨b, t, hs⟩ := exists_cons_of_ne_nil hne
  obtain ⟨c, u, hr⟩ := exists_cons_of_ne_nil (reverse_ne_nil_iff.mpr hne)
  have hb : isHexByte b = true := hhex b (by simp [hs])
  have hc : isHexByte c = true := hhex c (mem_reverse.mp (by simp [hr]))
  have hfront : trimFront whiteSpace s.length s = s := by
    rw [hs]
    exact trimFront_of_not_start (whiteSpace_not_hex b hb).1 (by decide) _ t
  have hback : trimFront (whiteSpace.map reverse) s.length s.reverse = s.reverse := by
    rw [hr]
    exact trimFront_of_not_start (whiteSpace_not_hex c hc).2 (by decide) _ u
  simp only [trimSpace, hfront, hback, reverse_reverse]

theorem parseHex64_formatHex {n : Nat} (h : (n : Int) ≤ maxChunkBytes) :
    parseHex64 (trimSpace (formatHex n)) = some (n : Int) := by
  have hmax : maxChunkBytes ≤ 9223372036854775807 := by decide
  have hvalue := hexValue_formatHex n
  rw [trimSpace_of_hex (formatHex_ne_nil n) (isHexByte_formatHex n),
    parseHex64_digits (formatHex_ne_nil n) (isHexByte_formatHex n) (by omega), hvalue]

theorem length_formatHex {n : Nat} (h : (n : Int) ≤ maxChunkBytes) : (formatHex n).length ≤ 7 := by
  have hmax : maxChunkBytes = 16777216 := by decide
  unfold formatHex
  split_ifs
  · decide
  · rw [length_reverse, length_map, Nat.digits_length_le_iff (by decide)]
    omega

/-! ## Header lines -/

theorem isHexByte_encodeToString (s : Bytes) : ∀ b ∈ encodeToString s, isHexByte b = true := by
  have hbyte : ∀ a : UInt8, (hexByte a).all isHexByte = true := forall_byte (by decide +kernel)
  intro b hb
  obtain ⟨a, -, hb⟩ := mem_flatMap.mp hb
  exact all_eq_true.mp (hbyte a) b hb

theorem length_encodeToString (s : Bytes) : (encodeToString s).length = 2 * s.length := by
  induction s with
  | nil => rfl
  | cons a s ih =>
    have hcons : encodeToString (a :: s) = hexByte a ++ encodeToString s := flatMap_cons
    rw [hcons, length_append, ih, length_cons]
    simp [hexByte]
    omega

theorem not_mem_of_hex {s : Bytes} {b : UInt8} (hb : isHexByte b = false)
    (h : ∀ c ∈ s, isHexByte c = true) : b ∉ s :=
  fun hin => by simp [h b hin] at hb

section Encoding

variable (std : Std) (mat : StreamingMaterial)

theorem linkSignature_hex (algorithm prevSig : Bytes) (hashes : List Bytes) :
    (linkSignature std mat algorithm prevSig hashes).length = 64 ∧
      ∀ b ∈ linkSignature std mat algorithm prevSig hashes, isHexByte b = true := by
  unfold linkSignature
  refine ⟨?_, isHexByte_encodeToString _⟩
  rw [length_encodeToString, (std.hmacSHA256 _ _).2]

def headerLine (prevSig body : Bytes) : Bytes :=
  formatHex body.length ++
    semicolon :: (chunkSignaturePrefix ++ chunkSignature std mat prevSig body)

def encodeChunks (tail : Bytes) (prevSig : Bytes) : List Bytes → Bytes
  | [] => tail
  | body :: bodies =>
    headerLine std mat prevSig body ++ crlf ++
      (body ++ crlf ++ encodeChunks tail (chunkSignature std mat prevSig body) bodies)

def lastSig (prevSig : Bytes) (bodies : List Bytes) : Bytes :=
  bodies.foldl (chunkSignature std mat) prevSig

def encode (prevSig : Bytes) (bodies : List Bytes) : Bytes :=
  encodeChunks std mat
    (headerLine std mat (lastSig std mat prevSig bodies) [] ++ crlf ++ crlf) prevSig bodies

theorem chunkSignaturePrefix_text : carriageReturn ∉ chunkSignaturePrefix ∧
    newline ∉ chunkSignaturePrefix ∧ chunkSignaturePrefix.length = 16 := by
  decide +kernel

theorem chunkLine_header {variant : StreamingVariant}
    (hsigned : variant.isSigned = true) {prevSig body : Bytes}
    (h : (body.length : Int) ≤ maxChunkBytes) :
    ChunkLine variant (headerLine std mat prevSig body) body.length
      (chunkSignature std mat prevSig body) := by
  obtain ⟨hlen, hhex⟩ : (chunkSignature std mat prevSig body).length = 64 ∧
      ∀ b ∈ chunkSignature std mat prevSig body, isHexByte b = true :=
    linkSignature_hex std mat _ _ _
  obtain ⟨hcr, hnl, hprefix⟩ := chunkSignaturePrefix_text
  have hsize := isHexByte_formatHex body.length
  have hdigits := length_formatHex h
  refine ⟨⟨?_, ?_, ?_⟩, formatHex body.length, ?_, parseHex64_formatHex h, ?_⟩
  · simp [headerLine, hcr, not_mem_of_hex (b := carriageReturn) rfl hsize,
      not_mem_of_hex (b := carriageReturn) rfl hhex]
    decide
  · simp [headerLine, hnl, not_mem_of_hex (b := newline) rfl hsize,
      not_mem_of_hex (b := newline) rfl hhex]
    decide
  · simp only [headerLine, length_append, length_cons, maxHeaderLineBytes]
    omega
  · exact not_mem_of_hex rfl hsize
  · rw [if_pos hsigned]
    exact ⟨rfl, hlen, all_eq_true.mpr hhex⟩

theorem chunks_encodeChunks (hsigned : mat.variant.isSigned = true)
    {bodies : List Bytes}
    (h : ∀ b ∈ bodies, 1 ≤ b.length ∧ (b.length : Int) ≤ maxChunkBytes) (prevSig tail : Bytes) :
    Chunks std mat prevSig (encodeChunks std mat tail prevSig bodies) bodies
      (lastSig std mat prevSig bodies) tail := by
  induction bodies generalizing prevSig with
  | nil => exact .nil _ _
  | cons body bodies ih =>
    obtain ⟨hpos, hmax⟩ := h body mem_cons_self
    have hrest := ih (fun b hb => h b (mem_cons_of_mem body hb))
      (chunkSignature std mat prevSig body)
    have hsent : sentSig std mat prevSig body = chunkSignature std mat prevSig body :=
      if_pos hsigned
    have hnext : nextSig std mat prevSig body = chunkSignature std mat prevSig body :=
      if_pos hsigned
    refine .cons ?_ (length_pos_iff.mp hpos) hmax ?_
    · rw [hsent]
      exact chunkLine_header std mat hsigned hmax
    · rw [hnext]
      exact hrest

variable {std mat}

theorem finalize_signed_iff (hvariant : mat.variant = .signed) {bodies : List Bytes}
    {last tail sig : Bytes} :
    (∃ r, finalize std mat (readerAt bodies last tail []) sig = .ok r) ↔
      sig = chunkSignature std mat last [] ∧ (∃ rest, tail = crlf ++ rest) ∧
        (bodies.flatten.length : Int) = mat.decodedLen := by
  constructor
  · rintro ⟨r, h⟩
    obtain ⟨-, -, -, hlen, r1, hfinal⟩ := finalize_ok h
    simp only [finalizeVariant, hvariant] at hfinal
    obtain ⟨prevSig, hverify, hfinal⟩ := exists_of_bind_ok hfinal
    obtain ⟨rest, hcrlf, -⟩ := exists_of_bind_ok hfinal
    exact ⟨(verifyChunk_eq_ok.mp hverify).1, ⟨rest, expectCRLF_eq_ok.mp hcrlf⟩, hlen⟩
  · rintro ⟨rfl, ⟨rest, rfl⟩, hlen⟩
    have hverify : verifyChunk std mat (readerAt bodies last (crlf ++ rest) []).prevSig []
        (chunkSignature std mat last []) = .ok (chunkSignature std mat last []) :=
      verifyChunk_eq_ok.mpr ⟨rfl, rfl⟩
    have hcrlf : expectCRLF (readerAt bodies last (crlf ++ rest) []).src = .ok rest :=
      expectCRLF_eq_ok.mpr rfl
    have hdecoded : (readerAt bodies last (crlf ++ rest) []).decoded = mat.decodedLen := hlen
    simp [finalize, finalizeVariant, hvariant, finalizeSigned, hverify, hcrlf, hdecoded, bind,
      Except.bind]

/-- **What is handed out is verified and whole, and an encoding is read back**: bytes of chunks
signed one after the other from the seed signature on, all of them at the end of the stream; and the
encoding of a payload is read to its end, however it is cut into chunks. -/
theorem decoding_exact (std : Std) (mat : StreamingMaterial) (hvariant : mat.variant = .signed) :
    (∀ (wire : Bytes) (sizes : List Nat),
      ∃ bodies last rest, Chunks std mat mat.seedSig wire bodies last rest ∧
        (readAll std mat wire sizes).delivered <+: bodies.flatten ∧
        ((readAll std mat wire sizes).last = some .eof →
          (readAll std mat wire sizes).delivered = bodies.flatten ∧
          (bodies.flatten.length : Int) = mat.decodedLen ∧
          ∃ line tail, rest = line ++ crlf ++ (crlf ++ tail) ∧
            ChunkLine .signed line 0 (chunkSignature std mat last []))) ∧
    ∀ (bodies : List Bytes) (sizes : List Nat),
      (∀ b ∈ bodies, 1 ≤ b.length ∧ (b.length : Int) ≤ maxChunkBytes) →
      (bodies.flatten.length : Int) = mat.decodedLen →
      (∀ n ∈ sizes, 1 ≤ n) → bodies.flatten.length < sizes.length →
        (readAll std mat (encode std mat mat.seedSig bodies) sizes).last = some .eof ∧
        (readAll std mat (encode std mat mat.seedSig bodies) sizes).delivered =
          bodies.flatten := by
  constructor
  · intro wire sizes
    by_cases heof : (readAll std mat wire sizes).last = some .eof
    · obtain ⟨bodies, last, rest, hchunks, handed, hcloses⟩ := closes_of_eof heof
      refine ⟨bodies, last, rest, hchunks, ⟨[], by rw [handed, append_nil]⟩, fun _ => ?_⟩
      obtain ⟨line, sig, tail, r, rfl, hline, hfin⟩ := hcloses
      obtain ⟨rfl, ⟨tail, rfl⟩, hlen⟩ := (finalize_signed_iff hvariant).mp ⟨r, hfin⟩
      exact ⟨handed, hlen, line, tail, rfl, hvariant ▸ hline⟩
    · obtain ⟨bodies, last, rest, hsound⟩ := sound_readAll std mat wire sizes
      exact ⟨bodies, last, rest, hsound.chunks, ⟨_, hsound.handed⟩, fun h => absurd h heof⟩
  · intro bodies sizes hbodies hlen hsizes hcalls
    have hsums : trailerChecksums mat = .ok [] := by simp [trailerChecksums, hvariant]
    have hsigned : mat.variant.isSigned = true := by
      rw [hvariant]
      rfl
    have hline : ChunkLine mat.variant
        (headerLine std mat (lastSig std mat mat.seedSig bodies) []) 0
        (chunkSignature std mat (lastSig std mat mat.seedSig bodies) []) :=
      chunkLine_header std mat hsigned (by decide)
    obtain ⟨r, hfin⟩ : ∃ r, finalize std mat
        (readerAt bodies (lastSig std mat mat.seedSig bodies) crlf [])
        (chunkSignature std mat (lastSig std mat mat.seedSig bodies) []) = .ok r :=
      (finalize_signed_iff hvariant).mpr ⟨rfl, ⟨[], rfl⟩, hlen⟩
    exact readAll_of_chunks (chunks_encodeChunks std mat hsigned hbodies mat.seedSig _)
      ⟨_, _, _, r, rfl, hline, hfin⟩ hsums hsizes hcalls

/-- Signatures that repeat the first bytes of what is signed, and hashes that repeat the first bytes
of what is hashed. -/
def echoStd : Std where
  hmacSHA256 _ msg := ⟨(msg ++ List.replicate 32 0).take 32, by simp⟩
  sum256 s := ⟨(s ++ List.replicate 32 0).take 32, by simp⟩
  toLower := id
  checksum _ s := s
  sortByName := id

def signedMaterial : StreamingMaterial where
  variant := .signed
  seedSig := []
  signingKey := [1]
  credScope := []
  amzDate := []
  decodedLen := 3
  trailerNames := []

/-- Three bytes in two chunks, read by twos. -/
theorem three_bytes_read_back :
    (readAll echoStd signedMaterial (encode echoStd signedMaterial [] [[7, 8], [9]])
      [2, 2, 2, 2]).last = some .eof :=
  ((decoding_exact echoStd signedMaterial rfl).2 [[7, 8], [9]] [2, 2, 2, 2] (by decide) (by decide)
    (by decide) (by decide)).1

end Encoding

end S3Orchestrator.Chunked
