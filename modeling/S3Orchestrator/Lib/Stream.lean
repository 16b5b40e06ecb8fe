import Mathlib.Data.List.Infix
import Mathlib.Algebra.Order.Ring.Nat

/-!
# Byte streams

A reader returns bytes in pieces and then an error; `eof` is the error of a clean end. `Feed` is
what a reader delivers when it is read to its end, and `Source` is one that delivers it in pieces of
any sizes.

* `bigEndian`: a number in a fixed width of bytes;
* **`Source.readFull_eq`**: the pieces do not matter to it;
* **`Delivers.serves`**: a reader whose every read takes a piece off what is left delivers it;
* **`Delivers.limit`**, **`Delivers.discard`**: so does a window of it;
* **`Tee.done_eq`**: a tee completes with all the bytes of a clean end, or not.
-/

namespace ByteStream

open List

abbrev Octets := List UInt8

theorem isPrefixOf_take (m : Octets) {n : Nat} (h : m.length ≤ n) (x : Octets) :
    m.isPrefixOf (x.take n) = m.isPrefixOf x := by
  rw [Bool.eq_iff_iff, isPrefixOf_iff_prefix, isPrefixOf_iff_prefix, prefix_take_iff]
  exact and_iff_left h

/-! ## Numbers in bytes -/

/-- The `width` low bytes of a number, the highest first. -/
def bigEndian : Nat → Nat → Octets
  | 0, _ => []
  | width + 1, n => bigEndian width (n / 256) ++ [UInt8.ofNat n]

def fromBigEndian (b : Octets) : Nat := b.foldl (fun n x => n * 256 + x.toNat) 0

@[simp] theorem length_bigEndian (width n : Nat) : (bigEndian width n).length = width := by
  induction width generalizing n with
  | zero => rfl
  | succ width ih => simp [bigEndian, ih]

theorem fromBigEndian_bigEndian {width n : Nat} (h : n < 256 ^ width) :
    fromBigEndian (bigEndian width n) = n := by
  induction width generalizing n with
  | zero =>
    have hn : n = 0 := by simpa using h
    simp [bigEndian, fromBigEndian, hn]
  | succ width ih =>
    have hdiv : n / 256 < 256 ^ width := Nat.div_lt_of_lt_mul (by rwa [← Nat.pow_succ'])
    have hih := ih hdiv
    unfold fromBigEndian at hih ⊢
    rw [bigEndian, foldl_append, hih]
    simp only [foldl_cons, foldl_nil, UInt8.toNat_ofNat']
    omega

theorem bigEndian_inj {width m n : Nat} (hm : m < 256 ^ width) (hn : n < 256 ^ width)
    (h : bigEndian width m = bigEndian width n) : m = n := by
  rw [← fromBigEndian_bigEndian hm, ← fromBigEndian_bigEndian hn, h]

/-! ## Errors -/

inductive Err
  | eof
  | unexpectedEOF
  | text (msg : String)
  | wrap (msg : String) (e : Err)
  | join (e e' : Err)
  deriving DecidableEq, Repr

namespace Err

def is (e target : Err) : Bool :=
  decide (e = target) ||
    match e with
    | .wrap _ inner => inner.is target
    | .join a b => a.is target || b.is target
    | _ => false

/-- The error is, or wraps, one of the two that a reader at its end returns. -/
def endsLike (e : Err) : Bool := e.is .eof || e.is .unexpectedEOF

@[simp] theorem endsLike_text (msg : String) : (text msg).endsLike = false := by
  simp [endsLike, is]

@[simp] theorem endsLike_wrap (msg : String) (e : Err) : (wrap msg e).endsLike = e.endsLike := by
  simp [endsLike, is]

@[simp] theorem endsLike_join (e e' : Err) :
    (join e e').endsLike = (e.endsLike || e'.endsLike) := by
  simp only [endsLike, is]
  cases e.is eof <;> cases e'.is eof <;> simp

theorem ne_eof_of_endsLike {e : Err} (h : e.endsLike = false) : e ≠ .eof := by
  rintro rfl
  exact Bool.false_ne_true h.symm

end Err

/-! ## Feeds and sources -/

structure Feed where
  data : Octets
  ending : Err
  deriving DecidableEq, Repr

namespace Feed

def drop (t : Feed) (n : Nat) : Feed := ⟨t.data.drop n, t.ending⟩

def prepend (t : Feed) (out : Octets) : Feed := ⟨out ++ t.data, t.ending⟩

@[simp] theorem prepend_nil (t : Feed) : t.prepend [] = t := rfl

@[simp] theorem data_prepend (t : Feed) (out : Octets) : (t.prepend out).data = out ++ t.data := rfl

theorem prepend_append (t : Feed) (out out' : Octets) :
    t.prepend (out ++ out') = (t.prepend out').prepend out := by
  simp [prepend]

/-- The error of a buffer the feed does not fill. A clean end after some bytes is unexpected. -/
def shortErr (t : Feed) : Err :=
  if t.data ≠ [] ∧ t.ending = .eof then .unexpectedEOF else t.ending

/-- A buffer of `k` bytes filled from the feed: what arrived, and the error if it is less. -/
def readFull (t : Feed) (k : Nat) : Octets × Option Err :=
  if k ≤ t.data.length then (t.data.take k, none) else (t.data, some t.shortErr)

theorem endsLike_shortErr (t : Feed) : t.shortErr.endsLike = t.ending.endsLike := by
  unfold shortErr
  split_ifs with h
  · rw [h.2]
    rfl
  · rfl

end Feed

/-- A reader that delivers its feed in pieces: the next reads return at most as many bytes as `plan`
says, and then as many as are asked for. An `eager` one returns its error with the last bytes. -/
structure Source where
  feed : Feed
  plan : List Nat := []
  eager : Bool := false

namespace Source

def read (s : Source) (k : Nat) : Octets × Option Err × Source :=
  if s.feed.data = [] then ([], some s.feed.ending, s)
  else
    let n := min k (s.plan.headD k)
    let rest := s.feed.drop n
    (s.feed.data.take n, if rest.data = [] ∧ s.eager then some rest.ending else none,
      { s with feed := rest, plan := s.plan.tail })

def readAtLeast : Nat → Source → Nat → Octets × Option Err × Source
  | 0, s, _ => ([], none, s)
  | _, s, 0 => ([], none, s)
  | fuel + 1, s, k =>
    match s.read k with
    | (out, some e, s') => (out, some e, s')
    | (out, none, s') =>
      let r := readAtLeast fuel s' (k - out.length)
      (out ++ r.1, r.2.1, r.2.2)

def readFull (s : Source) (k : Nat) : Octets × Option Err × Source :=
  let r := readAtLeast (s.plan.length + s.feed.data.length + 1) s k
  if k ≤ r.1.length then (r.1, none, r.2.2)
  else if r.1 ≠ [] ∧ r.2.1 = some .eof then (r.1, some .unexpectedEOF, r.2.2)
  else r

theorem read_of_nil {s : Source} (h : s.feed.data = []) (k : Nat) :
    s.read k = ([], some s.feed.ending, s) := if_pos h

theorem read_of_ne_nil {s : Source} (h : s.feed.data ≠ []) (k : Nat) :
    ∃ n ≤ k, ∃ err, ∃ s' : Source, s.read k = (s.feed.data.take n, err, s') ∧
      s'.feed = s.feed.drop n ∧ (∀ e, err = some e → (s.feed.drop n).data = [] ∧
        e = s.feed.ending) ∧
      (0 < k → s'.plan.length + s'.feed.data.length < s.plan.length + s.feed.data.length) := by
  refine ⟨min k (s.plan.headD k), Nat.min_le_left _ _, _, _, if_neg h, rfl, ?_, fun hk => ?_⟩
  · intro e he
    split_ifs at he with hlast
    exact ⟨hlast.1, (Option.some.inj he).symm⟩
  · have hpos : 0 < s.feed.data.length := length_pos_of_ne_nil h
    simp only [Feed.drop, length_drop, length_tail]
    cases hp : s.plan with
    | nil =>
      simp only [headD_nil]
      omega
    | cons n plan =>
      simp only [length_cons]
      omega

theorem readAtLeast_eq (fuel : Nat) (s : Source) (k : Nat)
    (hfuel : s.plan.length + s.feed.data.length < fuel) :
    (readAtLeast fuel s k).1 = s.feed.data.take k ∧
      (readAtLeast fuel s k).2.2.feed = s.feed.drop k ∧
      (s.feed.data.length < k → (readAtLeast fuel s k).2.1 = some s.feed.ending) := by
  induction fuel generalizing s k with
  | zero => omega
  | succ fuel ih =>
    cases k with
    | zero => simp [readAtLeast, Feed.drop]
    | succ k =>
      by_cases hnil : s.feed.data = []
      · have hdrop : s.feed.drop (k + 1) = s.feed := by
          rw [Feed.drop, hnil, drop_nil, ← hnil]
        simp [readAtLeast, read_of_nil hnil, hnil, hdrop]
      · obtain ⟨n, hn, err, s', hread, hfeed, herr, hless⟩ := read_of_ne_nil hnil (k + 1)
        cases err with
        | some e =>
          obtain ⟨hlast, rfl⟩ := herr e rfl
          have hall : s.feed.data.length ≤ n := by simpa [Feed.drop] using hlast
          simp only [readAtLeast, hread, hfeed]
          refine ⟨?_, ?_, fun _ => trivial⟩
          · rw [take_of_length_le hall, take_of_length_le (hall.trans hn)]
          · simp [Feed.drop, drop_of_length_le hall, drop_of_length_le (hall.trans hn)]
        | none =>
          obtain ⟨hout, hrest, hshort⟩ := ih s' (k + 1 - (s.feed.data.take n).length)
            (by have := hless k.succ_pos; omega)
          simp only [readAtLeast, hread]
          rw [hfeed] at hout hrest hshort
          rw [hout, hrest]
          simp only [Feed.drop, length_take, length_drop] at hshort ⊢
          refine ⟨?_, ?_, fun hk => hshort (by omega)⟩
          · rcases Nat.le_total n s.feed.data.length with hle | hle
            · rw [Nat.min_eq_left hle, ← take_add, Nat.add_sub_cancel' hn]
            · simp [take_of_length_le hle, take_of_length_le (hle.trans hn), drop_of_length_le hle]
          · rw [drop_drop]
            rcases Nat.le_total n s.feed.data.length with hle | hle
            · rw [Nat.min_eq_left hle, Nat.add_sub_cancel' hn]
            · rw [drop_of_length_le (by omega), drop_of_length_le (by omega)]

/-- **Filling a buffer from a source is filling it from the feed.** -/
theorem readFull_eq (s : Source) (k : Nat) :
    ((s.readFull k).1, (s.readFull k).2.1) = s.feed.readFull k ∧
      (s.readFull k).2.2.feed = s.feed.drop k := by
  obtain ⟨hout, hfeed, herr⟩ := readAtLeast_eq _ s k (Nat.lt_succ_self _)
  unfold readFull Feed.readFull
  simp only [hout, ne_eq]
  by_cases hk : k ≤ s.feed.data.length
  · simp [hk, hfeed]
  · have hall : s.feed.data.take k = s.feed.data := take_of_length_le (by omega)
    simp only [hk, if_false, herr (by omega), hall, Option.some.injEq, Feed.shortErr, ne_eq]
    split_ifs with hend
    · simp [hfeed]
    · rw [← hfeed]
      simp [hout, hall, herr (by omega : s.feed.data.length < k)]

end Source

/-! ## Readers -/

section Readers

variable {σ : Type} (rd : σ → Nat → Octets × Option Err × σ)

/-- Reads of the given sizes in turn, up to the first error. -/
def readTo : σ → List Nat → Octets × Option Err
  | _, [] => ([], none)
  | s, k :: sizes =>
    match rd s k with
    | (out, some e, _) => (out, some e)
    | (out, none, s') => (out ++ (readTo s' sizes).1, (readTo s' sizes).2)

/-- The reader delivers the feed: whatever the sizes of the reads, what they return is a front of
its bytes, the first error is its ending and comes after all of them, and it comes once there have
been enough reads. -/
structure Serves (s : σ) (t : Feed) : Prop where
  isPrefix : ∀ sizes, (readTo rd s sizes).1 <+: t.data
  error : ∀ sizes e, (readTo rd s sizes).2 = some e → (readTo rd s sizes).1 = t.data ∧ e = t.ending
  ends : ∃ n, ∀ sizes : List Nat, n ≤ sizes.length → (∀ k ∈ sizes, 0 < k) →
    (readTo rd s sizes).2 = some t.ending

/-- One read takes a piece off the front of the feed, or returns its ending when nothing is left. -/
def TakesFrom (R : σ → Feed → Prop) (s : σ) (t : Feed) (k : Nat) : Prop :=
  ∃ rest, t.data = (rd s k).1 ++ rest ∧
    ((rd s k).2.1 = none → R (rd s k).2.2 ⟨rest, t.ending⟩) ∧
    ∀ e, (rd s k).2.1 = some e → rest = [] ∧ e = t.ending

variable {rd} {R : σ → Feed → Prop} {μ : σ → Feed → Nat}

theorem readTo_of_simulation (hstep : ∀ s t k, R s t → TakesFrom rd R s t k) {s : σ} {t : Feed}
    (h : R s t) (sizes : List Nat) :
    ∃ rest, t.data = (readTo rd s sizes).1 ++ rest ∧
      ∀ e, (readTo rd s sizes).2 = some e → rest = [] ∧ e = t.ending := by
  induction sizes generalizing s t with
  | nil => exact ⟨t.data, rfl, fun e he => absurd he (by simp [readTo])⟩
  | cons k sizes ih =>
    obtain ⟨rest, hdata, hnone, hsome⟩ := hstep s t k h
    rw [readTo]
    cases hread : rd s k with
    | mk out r =>
      obtain ⟨err, s'⟩ := r
      rw [hread] at hdata hnone hsome
      cases err with
      | some e => exact ⟨rest, hdata, hsome⟩
      | none =>
        obtain ⟨rest', hdata', herr⟩ := ih (hnone rfl)
        refine ⟨rest', ?_, herr⟩
        rw [hdata, append_assoc, ← hdata']

theorem readTo_ends_of_simulation (hstep : ∀ s t k, R s t → TakesFrom rd R s t k)
    (hless : ∀ s t k, R s t → 0 < k → (rd s k).2.1 = none →
      μ (rd s k).2.2 (t.drop (rd s k).1.length) < μ s t)
    (sizes : List Nat) (hpos : ∀ k ∈ sizes, 0 < k) {s : σ} {t : Feed} (h : R s t)
    (hlen : μ s t < sizes.length) : (readTo rd s sizes).2 = some t.ending := by
  induction sizes generalizing s t with
  | nil => simp at hlen
  | cons k sizes ih =>
    obtain ⟨rest, hdata, hnone, hsome⟩ := hstep s t k h
    have hsmaller := hless s t k h (hpos k mem_cons_self)
    rw [readTo]
    cases hread : rd s k with
    | mk out r =>
      obtain ⟨err, s'⟩ := r
      rw [hread] at hdata hnone hsome hsmaller
      cases err with
      | some e => rw [(hsome e rfl).2]
      | none =>
        have hdrop : t.drop out.length = ⟨rest, t.ending⟩ := by
          rw [Feed.drop, hdata, drop_left]
        dsimp only at hsmaller hnone
        rw [hdrop] at hsmaller
        have hlt := hsmaller rfl
        rw [length_cons] at hlen
        have hrest : ∀ k' ∈ sizes, 0 < k' :=
          fun k' hk' => hpos k' (mem_cons_of_mem _ hk')
        exact ih hrest (t := ⟨rest, t.ending⟩) (hnone rfl) (by omega)

/-- **A reader whose reads take pieces off the front of what is left delivers it**, if every read
that asks for bytes leaves less. -/
theorem Serves.of_simulation (hstep : ∀ s t k, R s t → TakesFrom rd R s t k)
    (hless : ∀ s t k, R s t → 0 < k → (rd s k).2.1 = none →
      μ (rd s k).2.2 (t.drop (rd s k).1.length) < μ s t)
    {s : σ} {t : Feed} (h : R s t) : Serves rd s t where
  isPrefix sizes := by
    obtain ⟨rest, hdata, -⟩ := readTo_of_simulation hstep h sizes
    exact ⟨rest, hdata.symm⟩
  error sizes e he := by
    obtain ⟨rest, hdata, herr⟩ := readTo_of_simulation hstep h sizes
    obtain ⟨rfl, rfl⟩ := herr e he
    exact ⟨by rw [hdata, append_nil], rfl⟩
  ends := ⟨μ s t + 1, fun sizes hlen hpos =>
    readTo_ends_of_simulation hstep hless sizes hpos h (by omega)⟩

end Readers

/-! ## Readers with a state for what is left -/

section Delivers

variable {σ : Type}

/-- Each read takes a piece off the front of `feed`, or returns its ending and no bytes; reads that
return nothing use up `left`. -/
def Delivers (rd : σ → Nat → Octets × Option Err × σ) (feed : σ → Feed) (left : σ → Nat) : Prop :=
  ∀ s k,
    (∃ out s', rd s k = (out, none, s') ∧ feed s = (feed s').prepend out ∧ out.length ≤ k ∧
      left s' ≤ left s ∧ (0 < k → out = [] → left s' < left s)) ∨
    ∃ e s', rd s k = ([], some e, s') ∧ feed s = ⟨[], e⟩

variable (rd : σ → Nat → Octets × Option Err × σ)

def limitRead (s : σ × Nat) (k : Nat) : Octets × Option Err × (σ × Nat) :=
  if s.2 = 0 then ([], some .eof, s)
  else
    let r := rd s.1 (min k s.2)
    (r.1, r.2.1, (r.2.2, s.2 - r.1.length))

def Feed.limit (t : Feed) (n : Nat) : Feed := if n ≤ t.data.length then ⟨t.data.take n, .eof⟩ else t

/-- Reads, a buffer at a time, until so many bytes are gone. -/
def discard (buffer : Nat) : Nat → σ → Nat → Except Err σ
  | _, s, 0 => .ok s
  | 0, _, _ + 1 => .error .unexpectedEOF
  | fuel + 1, s, n + 1 =>
    match rd s (min buffer (n + 1)) with
    | (out, none, s') => discard buffer fuel s' (n + 1 - out.length)
    | (_, some e, _) => .error (if e.is .eof then .unexpectedEOF else e)

variable {rd} {feed : σ → Feed} {left : σ → Nat}

section

variable (h : Delivers rd feed left)
include h

theorem Delivers.takesFrom (s : σ) (t : Feed) (k : Nat) (ht : feed s = t) :
    TakesFrom rd (fun s t => feed s = t) s t k := by
  subst ht
  rcases h s k with ⟨out, s', hread, hfeed, -⟩ | ⟨e, s', hread, hfeed⟩
  · refine ⟨(feed s').data, ?_, fun _ => ?_, ?_⟩
    · rw [hread, hfeed]
      rfl
    · rw [hread, hfeed]
      rfl
    · simp [hread]
  · refine ⟨[], ?_, ?_, ?_⟩ <;> simp [hread, hfeed]

theorem Delivers.serves (s : σ) : Serves rd s (feed s) := by
  refine Serves.of_simulation h.takesFrom (μ := fun s t => t.data.length + left s) ?_ rfl
  · rintro s t k rfl hk hnone
    rcases h s k with ⟨out, s', hread, hfeed, -, hle, hlt⟩ | ⟨e, s', hread, -⟩
    · rw [hread, hfeed]
      simp only [Feed.drop]
      rcases eq_nil_or_concat out with rfl | ⟨front, last, rfl⟩
      · have := hlt hk rfl
        simpa using this
      · simp
        omega
    · rw [hread] at hnone
      cases hnone

theorem Delivers.limit :
    Delivers (limitRead rd) (fun s => (feed s.1).limit s.2) (fun s => left s.1) := by
  rintro ⟨s, n⟩ k
  by_cases hn : n = 0
  · exact .inr ⟨.eof, (s, n), if_pos hn, by simp [Feed.limit, hn]⟩
  simp only [limitRead, hn, if_false]
  rcases h s (min k n) with ⟨out, s', hread, hfeed, hlen, hle, hlt⟩ | ⟨e, s', hread, hfeed⟩
  · refine .inl ⟨out, (s', n - out.length), by rw [hread], ?_, hlen.trans (Nat.min_le_left _ _),
      hle, fun hk => hlt (by omega)⟩
    have hcut : out.length ≤ n := hlen.trans (Nat.min_le_right _ _)
    simp only [hfeed, Feed.limit, Feed.data_prepend, length_append, Nat.sub_le_iff_le_add']
    split_ifs
    · rw [Feed.prepend, take_append, take_of_length_le hcut]
    · rfl
  · refine .inr ⟨e, (s', n), by simp [hread], ?_⟩
    simp [hfeed, Feed.limit, hn]

/-- **With fuel enough, the bytes are gone.** -/
theorem Delivers.discard {buffer : Nat} (hbuffer : 0 < buffer) {fuel n : Nat} {s : σ}
    (hn : n ≤ (feed s).data.length) (hfuel : n + left s < fuel) :
    ∃ s', ByteStream.discard rd buffer fuel s n = .ok s' ∧ feed s' = (feed s).drop n := by
  induction fuel generalizing s n with
  | zero => omega
  | succ fuel ih =>
    cases n with
    | zero => exact ⟨s, by rw [ByteStream.discard], by simp [Feed.drop]⟩
    | succ n =>
      rw [ByteStream.discard]
      rcases h s (min buffer (n + 1)) with ⟨out, s', hread, hfeed, hlen, hle, hlt⟩ |
        ⟨e, s', hread, hfeed⟩
      · rw [hfeed, Feed.data_prepend, length_append] at hn
        have hless : n + 1 - out.length + left s' < fuel := by
          rcases Nat.eq_zero_or_pos out.length with hzero | hpos
          · have := hlt (by omega) (length_eq_zero_iff.mp hzero)
            omega
          · omega
        obtain ⟨s'', hok, hrest⟩ := ih (s := s') (n := n + 1 - out.length) (by omega) hless
        refine ⟨s'', by rw [hread]; exact hok, ?_⟩
        have hout : out.drop (n + 1) = [] := drop_of_length_le (by omega)
        rw [hrest, hfeed, Feed.drop, Feed.drop, Feed.data_prepend, drop_append, hout]
        rfl
      · rw [hfeed] at hn
        simp at hn

end

end Delivers

/-! ## A tee that completes -/

section Tee

variable {σ : Type}

/-- A reader that also writes what it returns, up to so many bytes. `done` is what was written when
it completed. -/
structure Tee (σ : Type) where
  inner : σ
  remaining : Int
  written : Octets := []
  live : Bool := true
  done : Option Octets := none

inductive ReaderCall
  | read (k : Nat)
  | close

variable (rd : σ → Nat → Octets × Option Err × σ)

/-- It completes at a clean end after exactly the bytes expected, and is given up at any other end
and past them. -/
def Tee.took (t : Tee σ) (out : Octets) (err : Option Err) (inner : σ) : Tee σ :=
  let t' := { t with
    inner := inner
    remaining := t.remaining - out.length
    written := t.written ++ out }
  if t.live = false then { t with inner := inner }
  else if out ≠ [] ∧ t'.remaining < 0 then { t' with live := false }
  else if err.any (·.is .eof) = true ∧ t'.remaining = 0 then
    { t' with live := false, done := some t'.written }
  else { t' with live := err.isNone }

def Tee.call (t : Tee σ) : ReaderCall → Tee σ
  | .read k => t.took (rd t.inner k).1 (rd t.inner k).2.1 (rd t.inner k).2.2
  | .close => { t with live := false }

variable {rd} {R : σ → Feed → Prop}

/-- **A tee completes only with all the bytes of a feed that ends cleanly**, whatever is read and
whenever it is closed. -/
theorem Tee.done_eq (hstep : ∀ s t k, R s t → TakesFrom rd R s t k) {s : σ} {whole : Feed}
    (h : R s whole) (expected : Int) (calls : List ReaderCall) {w : Octets}
    (hdone : (calls.foldl (Tee.call rd) { inner := s, remaining := expected }).done = some w) :
    w = whole.data ∧ whole.ending.is .eof = true := by
  -- While the tee lives, what it has written and what its reader has left are the whole.
  let Inv : Tee σ → Prop := fun t =>
    (t.live = true → ∃ rest, R t.inner ⟨rest, whole.ending⟩ ∧ whole.data = t.written ++ rest) ∧
      ∀ w, t.done = some w → w = whole.data ∧ whole.ending.is .eof = true
  have hcall : ∀ t call, Inv t → Inv (t.call rd call) := by
    intro t call hinv
    cases call with
    | close => exact ⟨fun h => (Bool.false_ne_true h).elim, hinv.2⟩
    | read k =>
      by_cases hlive : t.live = true
      swap
      · have hsame : t.call rd (.read k) = { t with inner := (rd t.inner k).2.2 } := by
          simp [Tee.call, Tee.took, hlive]
        rw [hsame]
        exact ⟨fun h => absurd h hlive, hinv.2⟩
      obtain ⟨left, hleft, hwhole⟩ := hinv.1 hlive
      obtain ⟨rest, hdata, hnone, hsome⟩ := hstep _ _ k hleft
      dsimp only at hdata hnone hsome
      simp only [Tee.call, Tee.took, hlive, Bool.true_eq_false, if_false]
      split_ifs with hover hcomplete
      · exact ⟨fun h => (Bool.false_ne_true h).elim, hinv.2⟩
      · refine ⟨fun h => (Bool.false_ne_true h).elim, fun w hw => ?_⟩
        obtain ⟨e, he, heof⟩ := (Option.any_eq_true _ _).mp hcomplete.1
        obtain ⟨rfl, rfl⟩ := hsome e he
        rw [← Option.some.inj hw, hwhole, hdata, append_nil]
        exact ⟨rfl, heof⟩
      · refine ⟨fun h => ⟨rest, hnone (Option.isNone_iff_eq_none.mp h), ?_⟩, hinv.2⟩
        rw [hwhole, hdata, append_assoc]
  have hrun : Inv (calls.foldl (Tee.call rd) { inner := s, remaining := expected }) :=
    foldlRecOn calls (Tee.call rd) ⟨fun _ => ⟨whole.data, h, rfl⟩, fun w hw => by cases hw⟩
      fun t ht call _ => hcall t call ht
  exact hrun.2 w hdone

end Tee

end ByteStream
