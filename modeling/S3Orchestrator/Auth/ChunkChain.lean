import S3Orchestrator.Auth.Chunks
import S3Orchestrator.Lib.Run

/-!
# What the chunk reader hands out

A wire that the reader has taken in is a sequence of chunks, each with a header line that gives its
size and, in a signed variant, the signature that follows the one before. What is handed out is what
those chunks hold, and the end of the stream comes after the empty chunk.

* `Session.Sound`, **`sound_readAll`**: what a caller is handed is what the chunks hold;
* **`closes_of_eof`**, `Chunks.unique`: at the end it is what all the chunks of the wire hold;
* `Session.Comes`, **`readAll_of_chunks`**: chunks that the empty chunk closes are read to the end.
-/

namespace S3Orchestrator.Chunked

open RowStore List

variable {line src body sig prevSig : Bytes}

/-! ## The framing, read both ways -/

theorem readBoundedLine_line {n : Nat} (rest : Bytes) (hcr : carriageReturn ∉ line)
    (hnl : newline ∉ line) (hlen : line.length ≤ n) :
    readBoundedLine n (line ++ crlf ++ rest) = .ok (line, rest) := by
  induction line generalizing n with
  | nil => cases n <;> simp [readBoundedLine, crlf]
  | cons b line ih =>
    obtain ⟨m, rfl⟩ : ∃ m, n = m + 1 := ⟨n - 1, by simp at hlen; omega⟩
    simp only [mem_cons, not_or] at hcr hnl
    have hrest := ih hcr.2 hnl.2 (Nat.le_of_succ_le_succ hlen)
    simp only [cons_append, readBoundedLine, if_neg (Ne.symm hcr.1), if_neg (Ne.symm hnl.1), hrest]
    rfl

theorem src_of_readBoundedLine {n : Nat} {rest : Bytes}
    (h : readBoundedLine n src = .ok (line, rest)) :
    src = line ++ crlf ++ rest ∧ carriageReturn ∉ line ∧ newline ∉ line ∧ line.length ≤ n := by
  fun_induction readBoundedLine n src generalizing line with
  | case1 | case2 => cases h
  | case3 =>
    cases h
    simp [crlf]
  | case4 | case5 | case6 => cases h
  | case7 b src hcr hnl n ih =>
    cases hread : readBoundedLine n src with
    | error e => simp [hread, Except.map] at h
    | ok lr =>
      simp only [hread, Except.map] at h
      obtain ⟨rfl, rfl⟩ := h
      obtain ⟨rfl, hcr', hnl', hlen⟩ := ih hread
      simp [Ne.symm hcr, Ne.symm hnl, hcr', hnl', hlen]

theorem readFull_eq_ok {n : Nat} {rest : Bytes} :
    readFull n src = .ok (body, rest) ↔ src = body ++ rest ∧ body.length = n := by
  unfold readFull
  constructor
  · intro h
    split_ifs at h with hlen
    cases h
    exact ⟨(take_append_drop n src).symm, by simp; omega⟩
  · rintro ⟨rfl, rfl⟩
    simp

theorem expectCRLF_eq_ok {rest : Bytes} : expectCRLF src = .ok rest ↔ src = crlf ++ rest := by
  constructor
  · intro h
    unfold expectCRLF at h
    split at h
    · split_ifs at h with hb
      cases h
      rw [hb.1, hb.2]
      rfl
    · cases h
  · rintro rfl
    rfl

def HeaderText (variant : StreamingVariant) (line : Bytes) (size : Int) (sig : Bytes) : Prop :=
  ∃ hexSize, semicolon ∉ hexSize ∧ parseHex64 (trimSpace hexSize) = some size ∧
    if variant.isSigned then
      line = hexSize ++ semicolon :: (chunkSignaturePrefix ++ sig) ∧
        sig.length = 64 ∧ sig.all isHexByte = true
    else line = hexSize ∧ sig = []

theorem append_drop_of_isPrefixOf {p s : Bytes} (h : p.isPrefixOf s = true) :
    p ++ s.drop p.length = s := by
  obtain ⟨t, rfl⟩ := isPrefixOf_iff_prefix.mp h
  simp

variable {variant : StreamingVariant} {size : Int}

theorem headerText_of_parseChunkHeader
    (h : parseChunkHeader variant line = .ok (size, sig)) :
    0 ≤ size ∧ HeaderText variant line size sig := by
  unfold parseChunkHeader at h
  cases hcut : Fields.cut semicolon line with
  | none =>
    simp only [hcut] at h
    split at h
    · cases h
    · next hsize =>
      split_ifs at h with hneg
      cases hv : variant.isSigned with
      | true => simp [hv] at h
      | false =>
        simp only [hv] at h
        obtain ⟨rfl, rfl⟩ := h
        exact ⟨not_lt.mp hneg, line, Fields.cut_eq_none.mp hcut, hsize, by simp [hv]⟩
  | some parts =>
    obtain ⟨hexSize, ext⟩ := parts
    obtain ⟨hline, hfree⟩ := Fields.cut_eq_some.mp hcut
    simp only [hcut] at h
    split at h
    · cases h
    · next hsize =>
      split_ifs at h with hneg
      cases hv : variant.isSigned with
      | false => simp [hv] at h
      | true =>
        simp only [hv] at h
        split_ifs at h with hstart hhex
        obtain ⟨rfl, rfl⟩ := h
        rw [not_or, not_not] at hhex
        refine ⟨not_lt.mp hneg, hexSize, hfree, hsize, ?_⟩
        rw [if_pos hv, append_drop_of_isPrefixOf (by simpa using hstart)]
        exact ⟨hline, hhex.1, by simpa using hhex.2⟩

theorem parseChunkHeader_of_headerText (hpos : 0 ≤ size)
    (h : HeaderText variant line size sig) :
    parseChunkHeader variant line = .ok (size, sig) := by
  obtain ⟨hexSize, hfree, hsize, h⟩ := h
  cases hv : variant.isSigned with
  | false =>
    rw [if_neg (by simp [hv])] at h
    obtain ⟨rfl, rfl⟩ := h
    simp only [parseChunkHeader, Fields.cut_eq_none.mpr hfree, hsize, hv, if_neg (not_lt.mpr hpos)]
  | true =>
    rw [if_pos hv] at h
    obtain ⟨rfl, hlen, hhex⟩ := h
    simp [parseChunkHeader, Fields.cut_append hfree, hsize, hv, not_lt.mpr hpos, hlen, hhex]

def ChunkLine (variant : StreamingVariant) (line : Bytes) (size : Nat) (sig : Bytes) : Prop :=
  (carriageReturn ∉ line ∧ newline ∉ line ∧ line.length ≤ maxHeaderLineBytes) ∧
  HeaderText variant line size sig

theorem readChunkHeader_eq_ok {rest : Bytes} :
    readChunkHeader variant src = .ok (size, sig, rest) ↔
      ∃ (line : Bytes) (n : Nat), size = n ∧ src = line ++ crlf ++ rest ∧
        ChunkLine variant line n sig := by
  constructor
  · intro h
    obtain ⟨⟨line, src'⟩, hline, h⟩ := exists_of_bind_ok h
    obtain ⟨⟨size', sig'⟩, hheader, h⟩ := exists_of_bind_ok h
    cases h
    obtain ⟨hsrc, htext⟩ := src_of_readBoundedLine hline
    obtain ⟨hpos, hheader⟩ := headerText_of_parseChunkHeader hheader
    obtain ⟨n, rfl⟩ := Int.eq_ofNat_of_zero_le hpos
    exact ⟨line, n, rfl, hsrc, htext, hheader⟩
  · rintro ⟨line, n, rfl, rfl, ⟨hcr, hnl, hlen⟩, hheader⟩
    have hparse := parseChunkHeader_of_headerText (Int.natCast_nonneg n) hheader
    simp only [readChunkHeader, readBoundedLine_line rest hcr hnl hlen]
    change (parseChunkHeader variant line >>= _) = _
    rw [hparse]
    rfl

theorem ChunkLine.unique {line' sig' rest rest' : Bytes} {size size' : Nat}
    (h : ChunkLine variant line size sig) (h' : ChunkLine variant line' size' sig')
    (heq : line ++ crlf ++ rest = line' ++ crlf ++ rest') :
    size = size' ∧ sig = sig' ∧ rest = rest' := by
  have hread : readChunkHeader variant (line ++ crlf ++ rest) = .ok (size, sig, rest) :=
    readChunkHeader_eq_ok.mpr ⟨line, size, rfl, rfl, h⟩
  rw [readChunkHeader_eq_ok.mpr ⟨line', size', rfl, heq, h'⟩] at hread
  simpa [eq_comm] using hread

/-! ## One chunk -/

section Chain

variable (std : Std) (mat : StreamingMaterial)

def sentSig (prevSig body : Bytes) : Bytes :=
  if mat.variant.isSigned then chunkSignature std mat prevSig body else []

def nextSig (prevSig body : Bytes) : Bytes :=
  if mat.variant.isSigned then chunkSignature std mat prevSig body else prevSig

/-- The wire begins with chunks of these bodies, in a chain from `prevSig` to `last` where they are
signed, and goes on with `rest`. -/
inductive Chunks : Bytes → Bytes → List Bytes → Bytes → Bytes → Prop
  | nil (prevSig wire : Bytes) : Chunks prevSig wire [] prevSig wire
  | cons {prevSig line body wire last rest : Bytes} {bodies : List Bytes}
      (hline : ChunkLine mat.variant line body.length (sentSig std mat prevSig body))
      (hne : body ≠ []) (hmax : (body.length : Int) ≤ maxChunkBytes)
      (hrest : Chunks (nextSig std mat prevSig body) wire bodies last rest) :
      Chunks prevSig (line ++ crlf ++ (body ++ crlf ++ wire)) (body :: bodies) last rest

variable {std mat}

theorem verifyChunk_eq_ok {provided next : Bytes} :
    verifyChunk std mat prevSig body provided = .ok next ↔
      provided = chunkSignature std mat prevSig body ∧
        next = chunkSignature std mat prevSig body := by
  change (if chunkSignature std mat prevSig body = provided then _ else _) = _ ↔ _
  split_ifs with heq
  · subst heq
    simp [chunkSignature, eq_comm]
  · simp [Ne.symm heq]

theorem checkChunk_eq_ok {next : Bytes}
    (hsig : mat.variant.isSigned = false → sig = []) :
    checkChunk std mat prevSig body sig = .ok next ↔
      sig = sentSig std mat prevSig body ∧ next = nextSig std mat prevSig body := by
  cases hv : mat.variant.isSigned with
  | false => simp [checkChunk, sentSig, nextSig, hv, hsig hv, eq_comm]
  | true => simp only [checkChunk, sentSig, nextSig, hv, if_true, verifyChunk_eq_ok]

theorem ChunkLine.sig_eq_nil {variant : StreamingVariant} {size : Nat}
    (h : ChunkLine variant line size sig) (hv : variant.isSigned = false) :
    sig = [] := by
  obtain ⟨-, hexSize, -, -, h⟩ := h
  rw [if_neg (by simp [hv])] at h
  exact h.2

/-- **What `advance` does**: it takes in one chunk that is signed as the chain wants it, or the
empty chunk. -/
theorem advance_ok {r r' : ChunkReader} (h : advance std mat r = .ok r') :
    (∃ line body rest, r.src = line ++ crlf ++ (body ++ crlf ++ rest) ∧
      ChunkLine mat.variant line body.length (sentSig std mat r.prevSig body) ∧ body ≠ [] ∧
      (body.length : Int) ≤ maxChunkBytes ∧
      r' = { r with
        src := rest
        prevSig := nextSig std mat r.prevSig body
        hashed := r.hashed ++ body
        buf := body
        decoded := r.decoded + body.length }) ∨
    ∃ line sig rest, r.src = line ++ crlf ++ rest ∧ ChunkLine mat.variant line 0 sig ∧
      finalize std mat { r with src := rest } sig = .ok r' := by
  obtain ⟨⟨size, sig, src⟩, hheader, h⟩ := exists_of_bind_ok h
  obtain ⟨line, n, rfl, hsrc, hline⟩ := readChunkHeader_eq_ok.mp hheader
  simp only at h
  split_ifs at h with hzero hlarge hover
  · obtain rfl : n = 0 := by omega
    exact .inr ⟨line, sig, src, hsrc, hline, h⟩
  · obtain ⟨⟨body, src'⟩, hbody, h⟩ := exists_of_bind_ok h
    obtain ⟨rest, hcrlf, h⟩ := exists_of_bind_ok h
    obtain ⟨next, hcheck, h⟩ := exists_of_bind_ok h
    obtain ⟨-, -, h⟩ := exists_of_bind_ok h
    obtain ⟨rfl, hlen⟩ := readFull_eq_ok.mp hbody
    obtain rfl := expectCRLF_eq_ok.mp hcrlf
    obtain ⟨rfl, rfl⟩ := (checkChunk_eq_ok hline.sig_eq_nil).mp hcheck
    have hlen : body.length = n := by simpa using hlen
    subst hlen
    refine .inl ⟨line, body, rest, by simpa using hsrc, hline, ?_, not_lt.mp hlarge, ?_⟩
    · intro hnil
      simp [hnil] at hzero
    · cases h
      rfl

theorem advance_chunk {r : ChunkReader} {rest : Bytes}
    (hsrc : r.src = line ++ crlf ++ (body ++ crlf ++ rest))
    (hline : ChunkLine mat.variant line body.length (sentSig std mat r.prevSig body))
    (hne : body ≠ []) (hmax : (body.length : Int) ≤ maxChunkBytes)
    (hfits : r.decoded + body.length ≤ mat.decodedLen) {checksums : List Checksum}
    (hsums : trailerChecksums mat = .ok checksums) :
    advance std mat r = .ok { r with
      src := rest
      prevSig := nextSig std mat r.prevSig body
      hashed := r.hashed ++ body
      buf := body
      decoded := r.decoded + body.length } := by
  have hheader := readChunkHeader_eq_ok.mpr ⟨line, body.length, rfl, hsrc, hline⟩
  have hpos : (body.length : Int) ≠ 0 := by simpa using hne
  have hbody : readFull body.length (body ++ crlf ++ rest) = .ok (body, crlf ++ rest) :=
    readFull_eq_ok.mpr ⟨by simp, rfl⟩
  have hcrlf : expectCRLF (crlf ++ rest) = .ok rest := expectCRLF_eq_ok.mpr rfl
  have hcheck : checkChunk std mat r.prevSig body (sentSig std mat r.prevSig body) =
      .ok (nextSig std mat r.prevSig body) :=
    (checkChunk_eq_ok hline.sig_eq_nil).mpr ⟨rfl, rfl⟩
  unfold advance
  simp only [hheader, bind, Except.bind, if_neg hpos, if_neg (not_lt.mpr hmax),
    if_neg (not_lt.mpr hfits), Int.toNat_natCast, hbody, hcrlf, hcheck, hsums]

theorem advance_final {r : ChunkReader} {rest : Bytes}
    (hsrc : r.src = line ++ crlf ++ rest) (hline : ChunkLine mat.variant line 0 sig) :
    advance std mat r = finalize std mat { r with src := rest } sig := by
  have hheader := readChunkHeader_eq_ok.mpr ⟨line, 0, rfl, hsrc, hline⟩
  unfold advance
  simp only [hheader, bind, Except.bind, Int.natCast_zero, if_true]

theorem Chunks.snoc {wire last rest : Bytes} {bodies : List Bytes}
    (h : Chunks std mat prevSig wire bodies last (line ++ crlf ++ (body ++ crlf ++ rest)))
    (hline : ChunkLine mat.variant line body.length (sentSig std mat last body))
    (hne : body ≠ []) (hmax : (body.length : Int) ≤ maxChunkBytes) :
    Chunks std mat prevSig wire (bodies ++ [body]) (nextSig std mat last body) rest := by
  generalize hend : line ++ crlf ++ (body ++ crlf ++ rest) = tail at h
  induction h with
  | nil prevSig wire =>
    subst hend
    exact .cons hline hne hmax (.nil _ _)
  | cons hline' hne' hmax' _ ih => exact .cons hline' hne' hmax' (ih hline hend)

theorem Chunks.unique {wire last last' line' sig' tail tail' : Bytes}
    {bodies bodies' : List Bytes}
    (h : Chunks std mat prevSig wire bodies last (line ++ crlf ++ tail))
    (hline : ChunkLine mat.variant line 0 sig)
    (h' : Chunks std mat prevSig wire bodies' last' (line' ++ crlf ++ tail'))
    (hline' : ChunkLine mat.variant line' 0 sig') :
    bodies = bodies' ∧ last = last' ∧ sig = sig' ∧ tail = tail' := by
  induction bodies generalizing prevSig wire bodies' with
  | nil =>
    cases h
    generalize hwire : line ++ crlf ++ tail = wire at h'
    cases h' with
    | nil =>
      obtain ⟨-, rfl, rfl⟩ := hline.unique hline' hwire
      exact ⟨rfl, rfl, rfl, rfl⟩
    | cons hbody hne =>
      obtain ⟨hlen, -⟩ := hline.unique hbody hwire
      exact absurd (length_eq_zero_iff.mp hlen.symm) hne
  | cons body bodies ih =>
    cases h with
    | @cons _ head _ wire _ _ _ hbody hne _ hrest =>
      generalize hwire : head ++ crlf ++ (body ++ crlf ++ wire) = whole at h'
      generalize hend : line' ++ crlf ++ tail' = rest' at h'
      cases h' with
      | nil =>
        obtain ⟨hlen, -⟩ := hbody.unique hline' (hwire.trans hend.symm)
        exact absurd (length_eq_zero_iff.mp hlen) hne
      | cons hbody' _ _ hrest' =>
        subst hend
        obtain ⟨hlen, -, htail⟩ := hbody.unique hbody' hwire
        rw [append_assoc, append_assoc] at htail
        obtain ⟨rfl, hwires⟩ := append_inj htail hlen
        obtain rfl := append_cancel_left hwires
        obtain ⟨rfl, hends⟩ := ih hrest hrest'
        exact ⟨rfl, hends⟩

end Chain

/-! ## Reading on -/

section Sessions

variable (std : Std) (mat : StreamingMaterial)

structure Session where
  reader : ChunkReader
  delivered : Bytes := []
  last : Option ReadResult := none

def Session.read (s : Session) (n : Nat) : Session :=
  match Chunked.read std mat n s.reader with
  | (.data bytes, r) => ⟨r, s.delivered ++ bytes, some (.data bytes)⟩
  | (result, r) => ⟨r, s.delivered, some result⟩

def readAll (wire : Bytes) (sizes : List Nat) : Session :=
  after (Session.read std mat) { reader := newChunkReader mat wire } sizes

def readerAt (bodies : List Bytes) (last rest buf : Bytes) : ChunkReader where
  src := rest
  prevSig := last
  hashed := bodies.flatten
  buf := buf
  decoded := bodies.flatten.length

def Closes (bodies : List Bytes) (last rest : Bytes) : Prop :=
  ∃ line sig tail r, rest = line ++ crlf ++ tail ∧ ChunkLine mat.variant line 0 sig ∧
    finalize std mat (readerAt bodies last tail []) sig = .ok r

/-- Where a reader stands that has taken in these bodies: before the next chunk, at the end, or
stopped by an error. -/
inductive Stands (bodies : List Bytes) (last rest : Bytes) : ChunkReader → Prop
  | reading (buf : Bytes) : Stands bodies last rest (readerAt bodies last rest buf)
  | ended {r : ChunkReader} (hbuf : r.buf = []) (heof : r.eof = true) (herr : r.err = none)
      (hcloses : Closes std mat bodies last rest) : Stands bodies last rest r
  | failed {r : ChunkReader} {err : ChunkError} (herr : r.err = some err) :
      Stands bodies last rest r

/-- What a caller was handed, and what lies ready for it, is what the chunks of the wire hold. -/
structure Session.Sound (wire : Bytes) (s : Session) (bodies : List Bytes) (last rest : Bytes) :
    Prop where
  chunks : Chunks std mat mat.seedSig wire bodies last rest
  handed : s.delivered ++ s.reader.buf = bodies.flatten
  stands : Stands std mat bodies last rest s.reader
  atEnd : s.last = some .eof → s.reader.err = none ∧ s.reader.eof = true

variable {std mat} {wire : Bytes} {r r' : ChunkReader} {n : Nat}

theorem finalizeVariant_ok (h : finalizeVariant std mat r sig = .ok r') :
    r'.buf = r.buf ∧ r'.err = r.err ∧ r'.decoded = r.decoded := by
  unfold finalizeVariant at h
  split at h
  · obtain ⟨prevSig, -, h⟩ := exists_of_bind_ok h
    obtain ⟨src, -, h⟩ := exists_of_bind_ok h
    cases h
    exact ⟨rfl, rfl, rfl⟩
  · obtain ⟨prevSig, -, h⟩ := exists_of_bind_ok h
    obtain ⟨block, -, h⟩ := exists_of_bind_ok h
    obtain ⟨prevSig', -, h⟩ := exists_of_bind_ok h
    cases h
    exact ⟨rfl, rfl, rfl⟩
  · obtain ⟨checksums, -, h⟩ := exists_of_bind_ok h
    obtain ⟨block, -, h⟩ := exists_of_bind_ok h
    obtain ⟨verified, -, h⟩ := exists_of_bind_ok h
    cases h
    exact ⟨rfl, rfl, rfl⟩
  · cases h
    exact ⟨rfl, rfl, rfl⟩

theorem finalize_ok (h : finalize std mat r sig = .ok r') :
    r'.eof = true ∧ r'.buf = r.buf ∧ r'.err = r.err ∧ r.decoded = mat.decodedLen ∧
      ∃ r1, finalizeVariant std mat r sig = .ok r1 := by
  obtain ⟨r1, hvariant, h⟩ := exists_of_bind_ok h
  obtain ⟨hbuf, herr, hdecoded⟩ := finalizeVariant_ok hvariant
  split_ifs at h with hlen
  cases h
  exact ⟨rfl, hbuf, herr, hdecoded.symm.trans (not_not.mp hlen), r1, hvariant⟩

/-! The cases of `Read`. -/

theorem read_of_err {err : ChunkError} (herr : r.err = some err) :
    Chunked.read std mat n r = (.failed err, r) := by
  simp [Chunked.read, herr]

theorem read_of_buf (herr : r.err = none) (hbuf : r.buf ≠ []) :
    Chunked.read std mat n r = deliver n r := by
  simp [Chunked.read, herr, hbuf]

theorem read_of_eof (herr : r.err = none) (hbuf : r.buf = []) (heof : r.eof = true) :
    Chunked.read std mat n r = (.eof, r) := by
  simp [Chunked.read, herr, hbuf, heof]

theorem read_of_error {err : ChunkError} (herr : r.err = none) (hbuf : r.buf = [])
    (heof : r.eof = false) (h : advance std mat r = .error err) :
    Chunked.read std mat n r = (.failed err, { r with err := some err }) := by
  simp [Chunked.read, herr, hbuf, heof, h]

theorem read_of_final (herr : r.err = none) (hbuf : r.buf = []) (heof : r.eof = false)
    (h : advance std mat r = .ok r') (heof' : r'.eof = true) :
    Chunked.read std mat n r = (.eof, r') := by
  simp [Chunked.read, herr, hbuf, heof, h, heof']

theorem read_of_chunk (herr : r.err = none) (hbuf : r.buf = []) (heof : r.eof = false)
    (h : advance std mat r = .ok r') (heof' : r'.eof = false) :
    Chunked.read std mat n r = deliver n r' := by
  simp [Chunked.read, herr, hbuf, heof, h, heof']

variable {sizes : List Nat} {s : Session}

theorem Session.Sound.read {bodies : List Bytes} {last rest : Bytes}
    (h : s.Sound std mat wire bodies last rest) (n : Nat) :
    ∃ bodies last rest, (s.read std mat n).Sound std mat wire bodies last rest := by
  obtain ⟨reader, delivered, result⟩ := s
  obtain ⟨chunks, handed, stands, -⟩ := h
  simp only at chunks handed stands
  cases stands with
  | failed herr =>
    refine ⟨bodies, last, rest, ?_⟩
    simp only [Session.read, read_of_err herr]
    exact ⟨chunks, handed, .failed herr, nofun⟩
  | ended hbuf heof herr hcloses =>
    refine ⟨bodies, last, rest, ?_⟩
    simp only [Session.read, read_of_eof herr hbuf heof]
    exact ⟨chunks, handed, .ended hbuf heof herr hcloses, fun _ => ⟨herr, heof⟩⟩
  | reading buf =>
    by_cases hbuf : buf = []
    · subst hbuf
      have hall : delivered = bodies.flatten := by simpa [readerAt] using handed
      cases hadvance : advance std mat (readerAt bodies last rest []) with
      | error err =>
        refine ⟨bodies, last, rest, ?_⟩
        simp only [Session.read, read_of_error rfl rfl rfl hadvance]
        exact ⟨chunks, handed, .failed rfl, nofun⟩
      | ok r' =>
        rcases advance_ok hadvance with
          ⟨line, body, tail, rfl, hline, hne, hmax, rfl⟩ | ⟨line, sig, tail, rfl, hline, hfin⟩
        · refine ⟨bodies ++ [body], nextSig std mat last body, tail, ?_⟩
          simp only [Session.read, read_of_chunk rfl rfl rfl hadvance rfl, deliver]
          refine ⟨chunks.snoc hline hne hmax, by simp [hall], ?_, nofun⟩
          have hstands : Stands std mat (bodies ++ [body]) (nextSig std mat last body) tail
            (readerAt (bodies ++ [body]) (nextSig std mat last body) tail (body.drop n)) :=
            .reading _
          simpa [readerAt] using hstands
        · refine ⟨bodies, last, line ++ crlf ++ tail, ?_⟩
          obtain ⟨heof, hbuf', herr', -⟩ := finalize_ok hfin
          simp only [Session.read, read_of_final rfl rfl rfl hadvance heof]
          exact ⟨chunks, by rw [hbuf']; exact handed,
            .ended hbuf' heof herr' ⟨line, sig, tail, r', rfl, hline, hfin⟩,
            fun _ => ⟨herr', heof⟩⟩
    · refine ⟨bodies, last, rest, ?_⟩
      have hread : Chunked.read std mat n (readerAt bodies last rest buf) =
          deliver n (readerAt bodies last rest buf) := read_of_buf rfl hbuf
      simp only [Session.read, hread, deliver]
      exact ⟨chunks, by simpa using handed, .reading _, nofun⟩

theorem sound_readAll (std : Std) (mat : StreamingMaterial) (wire : Bytes) (sizes : List Nat) :
    ∃ bodies last rest, (readAll std mat wire sizes).Sound std mat wire bodies last rest := by
  have hall : Along (Session.read std mat) (fun _ _ => True)
      { reader := newChunkReader mat wire } sizes := along_of_forall fun _ _ => trivial
  refine hall.invariant (I := fun s => ∃ bodies last rest, s.Sound std mat wire bodies last rest)
    ⟨[], mat.seedSig, wire, .nil _ _, rfl, .reading [], nofun⟩ ?_
  rintro s n ⟨bodies, last, rest, h⟩ -
  exact h.read n

/-- **At the end of the stream** a caller has all bytes of the chunks, and the empty chunk closes
them. -/
theorem closes_of_eof (heof : (readAll std mat wire sizes).last = some .eof) :
    ∃ bodies last rest, Chunks std mat mat.seedSig wire bodies last rest ∧
      (readAll std mat wire sizes).delivered = bodies.flatten ∧
      Closes std mat bodies last rest := by
  obtain ⟨bodies, last, rest, chunks, handed, stands, atEnd⟩ := sound_readAll std mat wire sizes
  obtain ⟨herr, heof⟩ := atEnd heof
  generalize (readAll std mat wire sizes).reader = reader at stands handed herr heof
  cases stands with
  | reading buf => cases heof
  | failed hfailed =>
    rw [hfailed] at herr
    cases herr
  | ended hbuf _ _ hcloses =>
    rw [hbuf, append_nil] at handed
    exact ⟨bodies, last, rest, chunks, handed, hcloses⟩

/-! ## Coming to the end -/

/-- A caller on its way to the end of a wire with these bodies. It is away one call at most for
every byte not handed out, and one for the end. -/
inductive Session.Comes (std : Std) (mat : StreamingMaterial) (bodies : List Bytes)
    (last rest : Bytes) : Nat → Session → Prop
  | reading {s : Session} {done todo : List Bytes} {prevSig wire buf : Bytes}
      (hbodies : done ++ todo = bodies) (hreader : s.reader = readerAt done prevSig wire buf)
      (handed : s.delivered ++ buf = done.flatten)
      (hchunks : Chunks std mat prevSig wire todo last rest) :
      Comes std mat bodies last rest (buf.length + todo.flatten.length + 1) s
  | ended {s : Session} (hbuf : s.reader.buf = []) (heof : s.reader.eof = true)
      (herr : s.reader.err = none) (handed : s.delivered = bodies.flatten)
      (hlast : s.last = some .eof) : Comes std mat bodies last rest 0 s

variable {bodies : List Bytes} {last rest : Bytes} {checksums : List Checksum}

theorem Closes.length_eq (h : Closes std mat bodies last rest) :
    (bodies.flatten.length : Int) = mat.decodedLen := by
  obtain ⟨line, sig, tail, r', -, -, hfin⟩ := h
  exact (finalize_ok hfin).2.2.2.1

theorem advance_readerAt {done : List Bytes} {wire : Bytes}
    (hline : ChunkLine mat.variant line body.length (sentSig std mat prevSig body))
    (hne : body ≠ []) (hmax : (body.length : Int) ≤ maxChunkBytes)
    (hfits : ((done ++ [body]).flatten.length : Int) ≤ mat.decodedLen)
    (hsums : trailerChecksums mat = .ok checksums) :
    advance std mat (readerAt done prevSig (line ++ crlf ++ (body ++ crlf ++ wire)) []) =
      .ok (readerAt (done ++ [body]) (nextSig std mat prevSig body) wire body) := by
  have hsrc : (readerAt done prevSig (line ++ crlf ++ (body ++ crlf ++ wire)) []).src =
      line ++ crlf ++ (body ++ crlf ++ wire) := rfl
  rw [advance_chunk hsrc hline hne hmax (by simpa [readerAt] using hfits) hsums]
  simp [readerAt]

theorem Session.Comes.read {m : Nat} (h : Session.Comes std mat bodies last rest m s)
    (hcloses : Closes std mat bodies last rest) (hsums : trailerChecksums mat = .ok checksums)
    {n : Nat} (hn : 1 ≤ n) :
    ∃ m', m' ≤ m - 1 ∧ Session.Comes std mat bodies last rest m' (s.read std mat n) := by
  cases h with
  | ended hbuf heof herr handed hlast =>
    refine ⟨0, le_rfl, ?_⟩
    simp only [Session.read, read_of_eof herr hbuf heof]
    exact .ended hbuf heof herr handed rfl
  | @reading s done todo prevSig wire buf hbodies hreader handed hchunks =>
    by_cases hbuf : buf = []
    · subst hbuf
      rw [append_nil] at handed
      cases hchunks with
      | nil =>
        -- every body is handed out, and the empty chunk is next
        rw [append_nil] at hbodies
        subst hbodies
        obtain ⟨line, sig, tail, r', rfl, hline, hfin⟩ := hcloses
        obtain ⟨heof, hbuf, herr, -⟩ := finalize_ok hfin
        have hadvance : advance std mat (readerAt done last (line ++ crlf ++ tail) []) = .ok r' :=
          (advance_final rfl hline).trans hfin
        refine ⟨0, Nat.zero_le _, ?_⟩
        simp only [Session.read, hreader, read_of_final rfl rfl rfl hadvance heof]
        exact .ended hbuf heof herr handed rfl
      | @cons _ line body wire _ _ todo hline hne hmax hrest =>
        -- the next chunk is taken in, and the call hands out some of it
        have hfits : ((done ++ [body]).flatten.length : Int) ≤ mat.decodedLen := by
          rw [← hcloses.length_eq, ← hbodies]
          simp only [flatten_append, flatten_cons, length_append, flatten_nil, append_nil]
          omega
        have hadvance : advance std mat
            (readerAt done prevSig (line ++ crlf ++ (body ++ crlf ++ wire)) []) =
            .ok (readerAt (done ++ [body]) (nextSig std mat prevSig body) wire body) :=
          advance_readerAt hline hne hmax hfits hsums
        have hread := read_of_chunk (n := n) rfl rfl rfl hadvance rfl
        have hreader' : (s.read std mat n).reader =
            readerAt (done ++ [body]) (nextSig std mat prevSig body) wire (body.drop n) := by
          simp only [Session.read, hreader, hread]
          rfl
        have handed' : (s.read std mat n).delivered ++ body.drop n = (done ++ [body]).flatten := by
          simp only [Session.read, hreader, hread, deliver]
          simp [readerAt, handed]
        refine ⟨_, ?_, .reading (by simpa using hbodies) hreader' handed' hrest⟩
        have := length_pos_iff.mpr hne
        simp only [length_drop, flatten_cons, length_append]
        omega
    · -- the call hands out bytes that lie ready
      have hread : Chunked.read std mat n (readerAt done prevSig wire buf) =
          deliver n (readerAt done prevSig wire buf) := read_of_buf rfl hbuf
      have hreader' : (s.read std mat n).reader = readerAt done prevSig wire (buf.drop n) := by
        simp only [Session.read, hreader, hread]
        rfl
      have handed' : (s.read std mat n).delivered ++ buf.drop n = done.flatten := by
        simp only [Session.read, hreader, hread, deliver]
        simpa [readerAt] using handed
      refine ⟨_, ?_, .reading hbodies hreader' handed' hchunks⟩
      have := length_pos_iff.mpr hbuf
      simp only [length_drop]
      omega

theorem Session.Comes.readAll {m : Nat} (h : Session.Comes std mat bodies last rest m s)
    (hcloses : Closes std mat bodies last rest) (hsums : trailerChecksums mat = .ok checksums)
    (hsizes : ∀ n ∈ sizes, 1 ≤ n) :
    ∃ m', m' ≤ m - sizes.length ∧
      Session.Comes std mat bodies last rest m' (after (Session.read std mat) s sizes) := by
  induction sizes generalizing s m with
  | nil => exact ⟨m, le_rfl, h⟩
  | cons n sizes ih =>
    obtain ⟨m1, hm1, h1⟩ := h.read hcloses hsums (hsizes n mem_cons_self)
    obtain ⟨m2, hm2, h2⟩ := ih h1 fun k hk => hsizes k (mem_cons_of_mem n hk)
    refine ⟨m2, ?_, h2⟩
    rw [length_cons]
    omega

/-- **A wire of chunks that the empty chunk closes is read to its end**, by as many calls as it has
bytes and one more. -/
theorem readAll_of_chunks {wire : Bytes}
    (hchunks : Chunks std mat mat.seedSig wire bodies last rest)
    (hcloses : Closes std mat bodies last rest) (hsums : trailerChecksums mat = .ok checksums)
    (hsizes : ∀ n ∈ sizes, 1 ≤ n) (hlen : bodies.flatten.length < sizes.length) :
    (readAll std mat wire sizes).last = some .eof ∧
      (readAll std mat wire sizes).delivered = bodies.flatten := by
  have hreader : ({ reader := newChunkReader mat wire } : Session).reader =
      readerAt [] mat.seedSig wire [] := rfl
  have hstart := Session.Comes.reading (nil_append bodies) hreader rfl hchunks
  obtain ⟨m, hm, h⟩ := hstart.readAll hcloses hsums hsizes
  cases h with
  | ended _ _ _ handed hlast => exact ⟨hlast, handed⟩
  | reading =>
    simp only [length_nil] at hm
    omega

end Sessions

end S3Orchestrator.Chunked
