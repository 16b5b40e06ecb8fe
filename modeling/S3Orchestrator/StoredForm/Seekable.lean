import S3Orchestrator.StoredForm.Fetched

/-!
# Ranged decoding

A compressed stream ends with a seek table. The decoder asks for the table and then for the frames a
read touches; the environment answers it with ranges fetched from the stream.

* **`decompressRanged_eq`**: the decoder gives the content, from any offset, if every range fetched
  is that of the stream;
* `environment_serves`: the ranges are served in every state of the environment.
-/

namespace S3Orchestrator.Storedform

open ByteStream Compression List

/-! ## The decoder -/

/-- What the decoder is given: an answer to each of its requests. -/
abbrev ReaderEnvironment := Compression.Request → Except Err Octets

/-- The decoded bytes from the front and from any offset. -/
structure RangedReader where
  feed : Feed
  seek : Int → Except Err Feed

structure SeekableCodec extends Codec where
  newSeekable : ReaderEnvironment → Except Err RangedReader

/-- What the environment answers in a state, with whatever part of the tail it has cached. -/
def environment (fetch : Int64 → Int64 → Except Err Octets) (e : RangeEnv) : ReaderEnvironment :=
  fun r => (e.serve fetch r).1

/-- The environment once the footer has been read, as the decoder reads it first. -/
def rangeEnv (fetch : Int64 → Int64 → Except Err Octets) (size : Int64) : ReaderEnvironment :=
  environment fetch (({ size := size } : RangeEnv).next fetch .footer)

def decodeGuard (r : RangedReader) : RangedReader where
  feed := ⟨r.feed.data, classifyDecode r.feed.ending⟩
  seek off := (r.seek off).map fun t => ⟨t.data, classifyDecode t.ending⟩

def SeekableCodec.decompressRanged (c : SeekableCodec) (fetch : Int64 → Int64 → Except Err Octets)
    (compressedSize : Int64) : Except Err RangedReader :=
  if compressedSize ≤ 0 then
    .error (.join errRangeBounds (.text ("compressed size " ++ toString compressedSize)))
  else
    match c.newSeekable (rangeEnv fetch compressedSize) with
    | .error e => .error (classifyDecode (.wrap "open ranged seekable reader" e))
    | .ok r => .ok (decodeGuard r)

/-! ## What the environment serves -/

/-- Every request inside the stream is answered with its bytes. -/
def ServesStream (env : ReaderEnvironment) (stream : Octets) : Prop :=
  ∀ r, r.Inside stream → env r = .ok (r.wanted stream)

/-- The decoder gives the content of the stream, from the front and from every offset. -/
def SeekableCodec.Seeks (c : SeekableCodec) (stream content : Octets) : Prop :=
  ∀ env, ServesStream env stream → ∃ r, c.newSeekable env = .ok r ∧ r.feed = ⟨content, .eof⟩ ∧
    ∀ off : Nat, off < content.length → r.seek off = .ok ⟨content.drop off, .eof⟩

section Sound

variable {fetch : Int64 → Int64 → Except Err Octets} {stream : Octets} {e : RangeEnv}
  (hs : e.Sound stream) (hf : FetchesExactly fetch stream) (hne : stream ≠ [])
include hs hf hne

theorem serve_inside {r : Compression.Request} (hin : r.Inside stream) :
    (e.serve fetch r).1 = .ok (r.wanted stream) := by
  have hexact := (serve_exact hs hf.or hne r).1.exact
  obtain ⟨buf, hbuf⟩ := hexact.answered hin
  rw [hbuf, hexact.right buf hbuf]

/-- **The range environment is one the decoder can read from**, whatever part of the tail it has. -/
theorem environment_serves : ServesStream (environment fetch e) stream :=
  fun _ hin => serve_inside hs hf hne hin

end Sound

theorem environment_serves_three :
    ServesStream (environment (fetchFrom [1, 2, 3]) { size := 3, tail := [2, 3] }) [1, 2, 3] :=
  environment_serves ⟨by decide, 2, by decide, rfl⟩ (fetchFrom_exact _) (by decide)

section Serves

variable {P : Err → Prop} {fetch : Int64 → Int64 → Except Err Octets} {stream : Octets}
  {size : Int64} (hsize : size.toInt = stream.length) (hne : stream ≠ [])
include hsize hne

theorem footer_sound (h : FetchesOr P fetch stream) :
    (({ size := size } : RangeEnv).next fetch .footer).Sound stream :=
  (serve_exact ⟨hsize, 0, Nat.zero_le _, by simp⟩ h hne .footer).2

theorem rangeEnv_exact (h : FetchesOr P fetch stream) (r : Compression.Request) :
    ∃ e answer, rangeEnv fetch size r = answer.1 ∧ ExactOr P stream e r answer :=
  ⟨_, _, rfl, (serve_exact (footer_sound hsize hne h) h hne r).1⟩

theorem not_size_nonpos : ¬ size ≤ 0 := by
  have hpos := length_pos_of_ne_nil hne
  rw [Int64.le_iff_toInt_le, hsize, Int64.toInt_zero]
  omega

theorem rangeEnv_serves (h : FetchesExactly fetch stream) :
    ServesStream (rangeEnv fetch size) stream :=
  fun _ hin => serve_inside (footer_sound hsize hne h.or) h hne hin

theorem decompressRanged_eq {c : SeekableCodec} {content : Octets} (hseeks : c.Seeks stream content)
    (h : FetchesExactly fetch stream) :
    ∃ r, c.decompressRanged fetch size = .ok r ∧ r.feed = ⟨content, .eof⟩ ∧
      ∀ off : Nat, off < content.length → r.seek off = .ok ⟨content.drop off, .eof⟩ := by
  obtain ⟨r, hopen, hfeed, hseek⟩ := hseeks _ (rangeEnv_serves hsize hne h)
  refine ⟨decodeGuard r, ?_, ?_, fun off hoff => ?_⟩
  · rw [SeekableCodec.decompressRanged, if_neg (not_size_nonpos hsize hne), hopen]
  · rw [decodeGuard, hfeed]
    rfl
  · change (r.seek off).map _ = _
    rw [hseek off hoff]
    rfl

end Serves

end S3Orchestrator.Storedform
