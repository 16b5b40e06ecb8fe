import Mathlib.Data.UInt
import S3Orchestrator.Lib.HttpRange
import S3Orchestrator.Lib.Run
import S3Orchestrator.StoredForm.Layers

/-!
# Ranged reads in 64 bits

The environment of the seekable reader computes with signed and unsigned 64-bit sizes and keeps the
tail that its last footer request fetched. Here it is a state machine over the requests the reader
makes, with the fetches it sends recorded.

* **`ranged_reads_exact`**: in every sequence of requests, each is answered exactly.
-/

namespace S3Orchestrator.Compression

open ByteStream HttpRange RowStore Storedform List Int64

structure RangeEnv where
  size : Int64
  tail : Octets := []
  fetched : List (Int64 × Int64) := []

inductive Request where
  | footer
  | skipFrame (skippableFrameOffset : Int64)
  | frame (id : Nat) (compressedOffset compressedSize : UInt64)

namespace RangeEnv

variable (fetch : Int64 → Int64 → Except Err Octets) (e : RangeEnv)

def fetchAt (off n : Int64) : Except Err Octets × RangeEnv :=
  if off < 0 ∨ n ≤ 0 ∨ e.size - n < off then
    (.error (.join errCorruptObject (.text ("seek table asks for " ++ toString n ++ " bytes at " ++
      toString off ++ " in a " ++ toString e.size ++ " byte object"))), e)
  else
    let e := { e with fetched := e.fetched ++ [(off, off + n - 1)] }
    match fetch off (off + n - 1) with
    | .error err =>
      (.error (.join errFetchFailed (.wrap (toString n ++ " bytes at " ++ toString off) err)), e)
    | .ok buf =>
      if Int64.ofNat buf.length ≠ n then
        (.error (.join errShortRange (.text ("asked " ++ toString n ++ " bytes at " ++
          toString off ++ ", got " ++ toString buf.length))), e)
      else (.ok buf, e)

def readFooter : Except Err Octets × RangeEnv :=
  let n := if e.size < 8192 then e.size else 8192
  match e.fetchAt fetch (e.size - n) n with
  | (.error err, e) => (.error err, e)
  | (.ok buf, e) => (.ok buf, { e with tail := buf })

def readSkipFrame (skippableFrameOffset : Int64) : Except Err Octets × RangeEnv :=
  let n := Int64.ofNat e.tail.length
  if 0 < skippableFrameOffset ∧ skippableFrameOffset ≤ n then
    (.ok (e.tail.drop (n - skippableFrameOffset).toInt.toNat), e)
  else e.fetchAt fetch (e.size - skippableFrameOffset) skippableFrameOffset

def fromTail (off n : Int64) : Option Octets :=
  let start := e.size - Int64.ofNat e.tail.length
  if e.tail.length = 0 ∨ off < start then none
  else some ((e.tail.take (off - start + n).toInt.toNat).drop (off - start).toInt.toNat)

def getFrameByIndex (id : Nat) (compressedOffset compressedSize : UInt64) :
    Except Err Octets × RangeEnv :=
  let size := e.size.toUInt64
  if size < compressedOffset ∨ size - compressedOffset < compressedSize then
    (.error (.join errRangeBounds (.text ("frame " ++ toString id ++ " of " ++
      toString compressedSize ++ " bytes at " ++ toString compressedOffset ++
      " in a " ++ toString e.size ++ " byte object"))), e)
  else
    let off := compressedOffset.toInt64
    let n := compressedSize.toInt64
    match e.fromTail off n with
    | some buf => (.ok buf, e)
    | none => e.fetchAt fetch off n

def serve : Request → Except Err Octets × RangeEnv
  | .footer => e.readFooter fetch
  | .skipFrame n => e.readSkipFrame fetch n
  | .frame id off n => e.getFrameByIndex fetch id off n

def next (r : Request) : RangeEnv := (e.serve fetch r).2

end RangeEnv

/-! ## What is asked for -/

namespace Request

def wanted (stream : Octets) : Request → Octets
  | .footer => stream.drop (stream.length - min 8192 stream.length)
  | .skipFrame n => stream.drop (stream.length - n.toInt.toNat)
  | .frame _ off n => (stream.drop off.toNat).take n.toNat

/-- The request is for at least one byte, and all its bytes are in the stream. -/
def Inside (stream : Octets) : Request → Prop
  | .footer => True
  | .skipFrame n => 0 < n.toInt ∧ n.toInt ≤ stream.length
  | .frame _ off n => 0 < n.toNat ∧ off.toNat + n.toNat ≤ stream.length

/-- The request reaches outside the stream, before its first byte or past its last. -/
def Outside (stream : Octets) : Request → Prop
  | .footer => False
  | .skipFrame n => n.toInt < 0 ∨ stream.length < n.toInt
  | .frame _ off n => stream.length < off.toNat + n.toNat

end Request

/-- The fetcher answers a range of the stream with exactly its bytes, or with an error of which `P`
holds. -/
def FetchesOr (P : Err → Prop) (fetch : Int64 → Int64 → Except Err Octets) (stream : Octets) :
    Prop :=
  ∀ (start stop : Int64) (first last : Nat), start.toInt = first → stop.toInt = last →
    first ≤ last → last < stream.length →
    fetch start stop = .ok (slice stream first last) ∨ ∃ e, P e ∧ fetch start stop = .error e

/-- The fetcher answers a range of the stream with exactly its bytes. -/
def FetchesExactly (fetch : Int64 → Int64 → Except Err Octets) (stream : Octets) : Prop :=
  ∀ (start stop : Int64) (first last : Nat), start.toInt = first → stop.toInt = last →
    first ≤ last → last < stream.length → fetch start stop = .ok (slice stream first last)

/-- An answer is what was asked for, a request inside the stream is answered, and one that reaches
outside fails without a fetch. -/
structure Exact (stream : Octets) (e : RangeEnv) (r : Request)
    (answer : Except Err Octets × RangeEnv) : Prop where
  right : ∀ buf, answer.1 = .ok buf → buf = r.wanted stream
  answered : r.Inside stream → ∃ buf, answer.1 = .ok buf
  refused : r.Outside stream → (∃ err, answer.1 = .error err) ∧ answer.2.fetched = e.fetched

/-- A fetch failed with an error of which `P` holds. -/
def FetchFailed (P : Err → Prop) (err : Err) : Prop :=
  ∃ msg cause, P cause ∧ err = .join errFetchFailed (.wrap msg cause)

/-- As `Exact`, but that a request inside the stream fails if a fetch for it fails. -/
structure ExactOr (P : Err → Prop) (stream : Octets) (e : RangeEnv) (r : Request)
    (answer : Except Err Octets × RangeEnv) : Prop where
  right : ∀ buf, answer.1 = .ok buf → buf = r.wanted stream
  failed : r.Inside stream → ∀ err, answer.1 = .error err → FetchFailed P err
  refused : r.Outside stream → (∃ err, answer.1 = .error err) ∧ answer.2.fetched = e.fetched

/-- The size is the stream's, and the tail holds its last bytes. -/
structure RangeEnv.Sound (stream : Octets) (e : RangeEnv) : Prop where
  size : e.size.toInt = stream.length
  tail : ∃ k ≤ stream.length, e.tail = stream.drop (stream.length - k)

/-! ## 64-bit arithmetic -/

section Arithmetic

variable {a b : Int64}

theorem toInt_sub_of_bounds (h : -2 ^ 63 ≤ a.toInt - b.toInt) (h' : a.toInt - b.toInt < 2 ^ 63) :
    (a - b).toInt = a.toInt - b.toInt := by
  rw [toInt_sub, Int.bmod_eq_of_le] <;> omega

theorem toInt_add_of_bounds (h : -2 ^ 63 ≤ a.toInt + b.toInt) (h' : a.toInt + b.toInt < 2 ^ 63) :
    (a + b).toInt = a.toInt + b.toInt := by
  rw [toInt_add, Int.bmod_eq_of_le] <;> omega

theorem toInt_toInt64 {u : UInt64} (h : u.toNat < 2 ^ 63) : u.toInt64.toInt = u.toNat := by
  have hu : u.toInt64 = ofNat u.toNat := by
    rw [← UInt64.toInt64_ofNat', UInt64.ofNat_toNat]
  rw [hu, toInt_ofNat_of_lt h]

theorem toNat_toUInt64 (h : 0 ≤ a.toInt) : (a.toUInt64.toNat : Int) = a.toInt := by
  rw [toNat_toUInt64_of_le (le_iff_toInt_le.mpr h)]
  exact Int.toNat_of_nonneg h

end Arithmetic

/-! ## Request by request -/

section Answers

variable {P : Err → Prop} {fetch : Int64 → Int64 → Except Err Octets} {stream : Octets}
  {e : RangeEnv} {r : Request} {answer : Except Err Octets × RangeEnv}

theorem FetchesExactly.or (h : FetchesExactly fetch stream) :
    FetchesOr (fun _ => False) fetch stream :=
  fun _ _ _ _ hfirst hlast hle hlt => .inl (h _ _ _ _ hfirst hlast hle hlt)

theorem ExactOr.exact (h : ExactOr (fun _ => False) stream e r answer) :
    Exact stream e r answer where
  right := h.right
  answered hin := by
    cases hanswer : answer.1 with
    | ok buf => exact ⟨buf, rfl⟩
    | error err =>
      obtain ⟨_, _, hfalse, _⟩ := h.failed hin err hanswer
      exact hfalse.elim
  refused := h.refused

theorem ExactOr.of_cases
    (h : answer.1 = .ok (r.wanted stream) ∨ ∃ err, FetchFailed P err ∧ answer.1 = .error err)
    (hin : ¬ r.Outside stream) : ExactOr P stream e r answer := by
  refine ⟨?_, ?_, fun hout => absurd hout hin⟩ <;> rintro - <;> grind

theorem ExactOr.of_error (h : (∃ err, answer.1 = .error err) ∧ answer.2 = e)
    (hnot : ¬ r.Inside stream) : ExactOr P stream e r answer where
  right buf hbuf := by
    obtain ⟨⟨err, herr⟩, _⟩ := h
    rw [herr] at hbuf
    cases hbuf
  failed hin := absurd hin hnot
  refused _ := ⟨h.1, congrArg _ h.2⟩

variable (hs : e.Sound stream)
include hs

theorem RangeEnv.Sound.exists_tail : ∃ k ≤ stream.length,
    e.tail = stream.drop (stream.length - k) ∧ (ofNat e.tail.length).toInt = k := by
  have hlt := e.size.toInt_lt
  have hsize := hs.size
  obtain ⟨k, hk, htail⟩ := hs.tail
  refine ⟨k, hk, htail, ?_⟩
  rw [htail, length_drop, toInt_ofNat_of_lt (by omega)]
  omega

theorem fetchAt_outside {off n : Int64}
    (h : off.toInt < 0 ∨ n.toInt ≤ 0 ∨ stream.length < off.toInt + n.toInt) :
    (∃ err, (e.fetchAt fetch off n).1 = .error err) ∧ (e.fetchAt fetch off n).2 = e := by
  have hlt := e.size.toInt_lt
  have hn := n.toInt_lt
  have hsize := hs.size
  have hguard : off < 0 ∨ n ≤ 0 ∨ e.size - n < off := by
    simp only [lt_iff_toInt_lt, le_iff_toInt_le, toInt_zero]
    by_cases hn : n.toInt ≤ 0
    · exact .inr (.inl hn)
    · rw [toInt_sub_of_bounds (by omega) (by omega)]
      omega
  unfold RangeEnv.fetchAt
  rw [if_pos hguard]
  exact ⟨⟨_, rfl⟩, rfl⟩

theorem fetchAt_sound (off n : Int64) : (e.fetchAt fetch off n).2.Sound stream := by
  unfold RangeEnv.fetchAt
  split_ifs
  · exact hs
  · dsimp only
    split
    · exact ⟨hs.size, hs.tail⟩
    · split_ifs <;> exact ⟨hs.size, hs.tail⟩

theorem fromTail_eq {off n : Int64} {o k : Nat} (ho : off.toInt = o) (hk : n.toInt = k)
    (hle : o + k ≤ stream.length) {buf : Octets} (h : e.fromTail off n = some buf) :
    buf = (stream.drop o).take k := by
  have hlt := e.size.toInt_lt
  have hsize := hs.size
  obtain ⟨m, hm, htail, hcount⟩ := hs.exists_tail
  have hstart : (e.size - ofNat e.tail.length).toInt = stream.length - m := by
    rw [toInt_sub_of_bounds] <;> omega
  unfold RangeEnv.fromTail at h
  dsimp only at h
  split_ifs at h with hfar
  rw [not_or, lt_iff_toInt_lt, hstart, ho] at hfar
  have hfirst : (off - (e.size - ofNat e.tail.length)).toInt = o - (stream.length - m) := by
    rw [toInt_sub_of_bounds] <;> omega
  have hlast : (off - (e.size - ofNat e.tail.length) + n).toInt = o - (stream.length - m) + k := by
    rw [toInt_add_of_bounds] <;> omega
  rw [← Option.some.inj h, hfirst, hlast, drop_take, htail, drop_drop]
  congr 2 <;> omega

variable (hf : FetchesOr P fetch stream)
include hf

theorem fetchAt_inside {off n : Int64} {o k : Nat} (ho : off.toInt = o) (hk : n.toInt = k)
    (hpos : 0 < k) (hle : o + k ≤ stream.length) :
    (e.fetchAt fetch off n).1 = .ok ((stream.drop o).take k) ∨
      ∃ err, FetchFailed P err ∧ (e.fetchAt fetch off n).1 = .error err := by
  have hlt := e.size.toInt_lt
  have hsize := hs.size
  have hroom : (e.size - n).toInt = stream.length - k := by
    rw [toInt_sub_of_bounds] <;> omega
  have hend : (off + n).toInt = o + k := by
    rw [toInt_add_of_bounds] <;> omega
  have hlast : (off + n - 1).toInt = (o + k - 1 : Nat) := by
    rw [toInt_sub_of_bounds] <;> simp only [toInt_one] <;> omega
  have hlen : ((stream.drop o).take k).length = k := by
    rw [length_take, length_drop]
    omega
  have hcount : ofNat ((stream.drop o).take k).length = n := by
    rw [← toInt_inj, hlen, hk, toInt_ofNat_of_lt (by omega)]
  have hguard : ¬ (off < 0 ∨ n ≤ 0 ∨ e.size - n < off) := by
    simp only [lt_iff_toInt_lt, le_iff_toInt_le, toInt_zero]
    omega
  unfold RangeEnv.fetchAt
  rw [if_neg hguard]
  rcases hf off (off + n - 1) o (o + k - 1) ho hlast (by omega) (by omega) with
    hfetch | ⟨cause, hcause, hfetch⟩
  · rw [slice, show o + k - 1 + 1 - o = k by omega] at hfetch
    rw [hfetch]
    dsimp only
    rw [if_neg (not_not.mpr hcount)]
    exact .inl rfl
  · rw [hfetch]
    exact .inr ⟨_, ⟨_, cause, hcause, rfl⟩, rfl⟩

theorem skipFrame_exact (n : Int64) : ExactOr P stream e (.skipFrame n) (e.readSkipFrame fetch n) ∧
      (e.readSkipFrame fetch n).2.Sound stream := by
  have hlt := e.size.toInt_lt
  have hn := n.toInt_lt
  have hsize := hs.size
  obtain ⟨k, hk, htail, hcount⟩ := hs.exists_tail
  unfold RangeEnv.readSkipFrame
  dsimp only
  split_ifs with hheld
  · -- the tail holds the frame
    simp only [lt_iff_toInt_lt, le_iff_toInt_le, toInt_zero] at hheld
    refine ⟨.of_cases (.inl (congrArg Except.ok ?_)) ?_, hs⟩
    · rw [toInt_sub_of_bounds (by omega) (by omega), hcount, htail, drop_drop]
      congr 1
      omega
    · unfold Request.Outside
      omega
  · refine ⟨?_, fetchAt_sound hs _ _⟩
    by_cases hpos : n.toInt ≤ 0
    · refine .of_error (fetchAt_outside hs (.inr (.inl hpos))) ?_
      exact fun hin => absurd hin.1 (Int.not_lt.mpr hpos)
    have hoff : (e.size - n).toInt = stream.length - n.toInt := by
      rw [toInt_sub_of_bounds] <;> omega
    have hcount : n.toInt = n.toInt.toNat := by omega
    by_cases hle : n.toInt ≤ stream.length
    · refine .of_cases ?_ ?_
      · have hfirst : (e.size - n).toInt = (stream.length - n.toInt.toNat : Nat) := by omega
        have hcases := fetchAt_inside hs hf hfirst hcount (by omega) (by omega)
        rwa [take_of_length_le (by rw [length_drop]; omega)] at hcases
      · unfold Request.Outside
        omega
    · exact .of_error (fetchAt_outside hs (by omega)) fun hin => hle hin.2

theorem frame_exact (id : Nat) (off n : UInt64) :
    ExactOr P stream e (.frame id off n) (e.getFrameByIndex fetch id off n) ∧
      (e.getFrameByIndex fetch id off n).2.Sound stream := by
  have hlt := e.size.toInt_lt
  have husize : (e.size.toUInt64.toNat : Int) = stream.length :=
    (toNat_toUInt64 (by rw [hs.size]; omega)).trans hs.size
  unfold RangeEnv.getFrameByIndex
  dsimp only
  split_ifs with hbad
  · refine ⟨.of_error ⟨⟨_, rfl⟩, rfl⟩ fun hin => ?_, hs⟩
    rcases hbad with hbad | hbad
    · rw [UInt64.lt_iff_toNat_lt] at hbad
      unfold Request.Inside at hin
      omega
    · have hin : 0 < n.toNat ∧ off.toNat + n.toNat ≤ stream.length := hin
      rw [UInt64.lt_iff_toNat_lt, UInt64.toNat_sub_of_le _ _
        (UInt64.le_iff_toNat_le.mpr (by omega))] at hbad
      omega
  · obtain ⟨hoff, hn⟩ := not_or.mp hbad
    rw [UInt64.not_lt] at hoff hn
    rw [UInt64.le_iff_toNat_le, UInt64.toNat_sub_of_le _ _ hoff] at hn
    rw [UInt64.le_iff_toNat_le] at hoff
    have ho : off.toInt64.toInt = off.toNat := toInt_toInt64 (by have := hs.size; omega)
    have hk : n.toInt64.toInt = n.toNat := toInt_toInt64 (by have := hs.size; omega)
    have hle : off.toNat + n.toNat ≤ stream.length := by omega
    cases htail : e.fromTail off.toInt64 n.toInt64 with
    | some buf =>
      refine ⟨.of_cases (.inl (congrArg Except.ok (fromTail_eq hs ho hk hle htail))) ?_, hs⟩
      exact Nat.not_lt.mpr hle
    | none =>
      refine ⟨?_, fetchAt_sound hs _ _⟩
      by_cases hpos : 0 < n.toNat
      · exact .of_cases (fetchAt_inside hs hf ho hk hpos hle) (Nat.not_lt.mpr hle)
      · exact .of_error (fetchAt_outside hs (by omega)) fun hin => hpos hin.1

variable (hne : stream ≠ [])
include hne

theorem footer_exact :
    ExactOr P stream e .footer (e.readFooter fetch) ∧ (e.readFooter fetch).2.Sound stream := by
  have hlt := e.size.toInt_lt
  have hpos := length_pos_of_ne_nil hne
  have hsize := hs.size
  unfold RangeEnv.readFooter
  dsimp only
  generalize hm : (if e.size < 8192 then e.size else 8192) = n
  have hn : n.toInt = (min 8192 stream.length : Nat) := by
    rw [← hm]
    split_ifs with h <;> rw [lt_iff_toInt_lt, hsize] at h <;> simp at h ⊢ <;> omega
  have hoff : (e.size - n).toInt = (stream.length - min 8192 stream.length : Nat) := by
    rw [toInt_sub_of_bounds] <;> omega
  have hcases := fetchAt_inside hs hf hoff hn (by omega) (by omega)
  rw [take_of_length_le (by rw [length_drop]; omega)] at hcases
  have hkept : (e.fetchAt fetch (e.size - n) n).2.Sound stream := fetchAt_sound hs _ _
  generalize e.fetchAt fetch (e.size - n) n = answer at hcases hkept ⊢
  obtain ⟨_, e'⟩ := answer
  rcases hcases with hok | ⟨err, hfailed, herr⟩
  · obtain rfl : _ = _ := hok
    exact ⟨.of_cases (.inl rfl) id, hkept.size, _, min_le_right _ _, rfl⟩
  · obtain rfl : _ = _ := herr
    exact ⟨.of_cases (.inr ⟨err, hfailed, rfl⟩) id, hkept⟩

theorem serve_exact (r : Request) :
    ExactOr P stream e r (e.serve fetch r) ∧ (e.serve fetch r).2.Sound stream := by
  cases r with
  | footer => exact footer_exact hs hf hne
  | skipFrame n => exact skipFrame_exact hs hf n
  | frame id off n => exact frame_exact hs hf id off n

end Answers

/-- **Ranged decoding reads the right bytes**, request after request. -/
theorem ranged_reads_exact (stream : Octets) (hne : stream ≠ []) (size : Int64)
    (hsize : size.toInt = stream.length) (fetch : Int64 → Int64 → Except Err Octets)
    (hf : FetchesExactly fetch stream) (requests : List Request) :
    Along (RangeEnv.next fetch) (fun e r => Exact stream e r (e.serve fetch r)) { size := size }
      (.footer :: requests) :=
  (along_of_forall fun _ _ => trivial : Along _ (fun _ _ => True) _ _).of_invariant
    (I := RangeEnv.Sound stream) ⟨hsize, 0, Nat.zero_le _, by simp⟩
    (fun _ r hs _ => (serve_exact hs hf.or hne r).2)
    (fun _ r hs _ => (serve_exact hs hf.or hne r).1.exact)

/-- The fetcher that cuts its ranges out of the stream. -/
def fetchFrom (stream : Octets) (start stop : Int64) : Except Err Octets :=
  .ok (slice stream start.toInt.toNat stop.toInt.toNat)

theorem fetchFrom_exact (stream : Octets) : FetchesExactly (fetchFrom stream) stream := by
  intro start stop first last hfirst hlast _ _
  rw [fetchFrom, hfirst, hlast]
  rfl

theorem ranged_reads_exact_three :
    FetchesExactly (fetchFrom [1, 2, 3]) [1, 2, 3] ∧
      Along (RangeEnv.next (fetchFrom [1, 2, 3]))
        (fun e r => Exact [1, 2, 3] e r (e.serve (fetchFrom [1, 2, 3]) r)) { size := 3 }
        [.footer, .skipFrame 2, .frame 0 1 2, .frame 1 (2 ^ 64 - 1) 2] :=
  ⟨fetchFrom_exact _, ranged_reads_exact _ (by decide) 3 (by decide) _ (fetchFrom_exact _) _⟩

end S3Orchestrator.Compression
