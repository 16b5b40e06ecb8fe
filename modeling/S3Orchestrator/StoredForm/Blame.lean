import S3Orchestrator.StoredForm.Seekable

/-!
# What a failed read is blamed on

The codec names the errors of its decoder: what is not an error of its own comes from the stored
bytes, and says that the object is corrupt. A source that fails gives the decoder an error as well.
A decoder that reads through the seek table has every range fetched by the codec, which names the
failure of a fetch. A decoder that reads front to back has the source's error as it is.

* **`failed_read_not_blamed_iff`**.
-/

namespace S3Orchestrator.Storedform

open ByteStream Compression List

variable {e : Err}

/-! ## The guard, read by read -/

section Guard

variable {σ : Type} (rd : σ → Nat → Octets × Option Err × σ)

def guardRead (s : σ) (k : Nat) : Octets × Option Err × σ :=
  ((rd s k).1, (rd s k).2.1.map classifyDecode, (rd s k).2.2)

theorem readTo_guardRead (s : σ) (sizes : List Nat) : readTo (guardRead rd) s sizes =
      ((readTo rd s sizes).1, (readTo rd s sizes).2.map classifyDecode) := by
  induction sizes generalizing s with
  | nil => rfl
  | cons k sizes ih =>
    rw [readTo, readTo]
    cases hread : rd s k with
    | mk out r =>
      obtain ⟨err, s'⟩ := r
      cases err with
      | some e => simp [guardRead, hread]
      | none => simp [guardRead, hread, ih]

variable {rd}

theorem Serves.guardRead {s : σ} {t : Feed} (h : Serves rd s t) :
    Serves (Storedform.guardRead rd) s ⟨t.data, classifyDecode t.ending⟩ where
  isPrefix sizes := by
    rw [readTo_guardRead]
    exact h.isPrefix sizes
  error sizes e he := by
    rw [readTo_guardRead] at he ⊢
    obtain ⟨e', he', rfl⟩ := Option.map_eq_some_iff.mp he
    obtain ⟨hdata, rfl⟩ := h.error sizes e' he'
    exact ⟨hdata, rfl⟩
  ends := by
    obtain ⟨n, hn⟩ := h.ends
    refine ⟨n, fun sizes hlen hpos => ?_⟩
    rw [readTo_guardRead, hn sizes hlen hpos]
    rfl

end Guard

/-! ## Errors -/

def codecErrors : List Err := [errShortRange, errFetchFailed, errRangeBounds]

def Err.Named (e : Err) : Prop := e.is .eof = true ∨ ∃ own ∈ codecErrors, e.is own = true

/-- The error matches what the other one does, of the ends and the codec's errors, as one that wraps
it does. -/
def Err.Carries (e' e : Err) : Prop :=
  e'.is .eof = e.is .eof ∧ e'.is errCorruptObject = e.is errCorruptObject ∧
    ∀ own ∈ codecErrors, e'.is own = e.is own

theorem Err.Carries.refl (e : Err) : Err.Carries e e := ⟨rfl, rfl, fun _ _ => rfl⟩

theorem is_wrap_text (msg text : String) (e : Err) :
    (Err.wrap msg e).is (.text text) = e.is (.text text) := by
  simp [Err.is]

theorem is_join_text (text : String) (e e' : Err) :
    (Err.join e e').is (.text text) = (e.is (.text text) || e'.is (.text text)) := by
  simp [Err.is]

theorem Err.Carries.wrap {e' : Err} (h : Err.Carries e' e) (msg : String) :
    Err.Carries (.wrap msg e') e := by
  refine ⟨by simpa [Err.is] using h.1, (is_wrap_text _ _ _).trans h.2.1, fun own hown => ?_⟩
  rw [← h.2.2 own hown]
  simp only [codecErrors, mem_cons, not_mem_nil, or_false] at hown
  rcases hown with rfl | rfl | rfl <;> exact is_wrap_text _ _ _

theorem classifyDecode_of_named (h : Err.Named e) : classifyDecode e = e := by
  unfold classifyDecode
  split_ifs with heof hown
  · rfl
  · rfl
  · simp only [Err.Named, codecErrors, mem_cons, not_mem_nil, or_false,
      exists_eq_or_imp, exists_eq_left] at h
    simp only [Bool.or_eq_true] at hown
    tauto

theorem classifyDecode_blames_iff (h : e.is errCorruptObject = false) :
    (classifyDecode e).is errCorruptObject = false ↔ Err.Named e := by
  refine ⟨fun hblame => ?_, fun hnamed => by rw [classifyDecode_of_named hnamed, h]⟩
  by_contra hnot
  simp only [Err.Named, codecErrors, mem_cons, not_mem_nil, or_false, exists_eq_or_imp,
    exists_eq_left, not_or, Bool.not_eq_true] at hnot
  obtain ⟨heof, hshort, hfetch, hbounds⟩ := hnot
  rw [classifyDecode, heof, h, hshort, hfetch, hbounds] at hblame
  exact absurd (Bool.or_eq_false_iff.mp ((is_join_text _ _ _).symm.trans hblame)).1 (by decide)

theorem Err.Carries.named_iff {e' : Err} (h : Err.Carries e' e) : Err.Named e' ↔ Err.Named e := by
  unfold Err.Named
  rw [h.1]
  refine or_congr Iff.rfl (exists_congr fun own => and_congr_right fun hown => ?_)
  rw [h.2.2 own hown]

/-! ## Front to back -/

def Codec.PassesOn (c : Codec) (stream : Octets) : Prop :=
  ∀ t : Feed, t.data <+: stream → t.ending ≠ .eof →
    (∃ e', c.newReader t = .error e' ∧ Err.Carries e' t.ending) ∨
      ∃ t', c.newReader t = .ok t' ∧ Err.Carries t'.ending t.ending

/-- No error of the decoding reader says that the object is corrupt, however it is read. -/
def Codec.NeverBlames (c : Codec) (t : Feed) : Prop :=
  (∀ e, c.decompressStream t = .error e → e.is errCorruptObject = false) ∧
  ∀ t', c.newReader t = .ok t' →
    ∀ (σ : Type) (rd : σ → Nat → Octets × Option Err × σ) (s : σ), Serves rd s t' →
      ∀ sizes e, (readTo (guardRead rd) s sizes).2 = some e → e.is errCorruptObject = false

def readAllOf (t : Feed) (k : Nat) : Octets × Option Err × Feed :=
  if t.data.length ≤ k then (t.data, some t.ending, t.drop k) else (t.data.take k, none, t.drop k)

theorem serves_readAllOf (t : Feed) : Serves readAllOf t t := by
  refine Serves.of_simulation (R := fun s t => s = t) (μ := fun _ t => t.data.length) ?_ ?_ rfl
  · rintro s t k rfl
    unfold TakesFrom readAllOf
    split_ifs with hk
    · exact ⟨[], by simp, nofun, fun e he => ⟨rfl, (Option.some.inj he).symm⟩⟩
    · exact ⟨s.data.drop k, (take_append_drop k s.data).symm, fun _ => rfl, nofun⟩
  · rintro s t k rfl hpos hnone
    unfold readAllOf at hnone ⊢
    split_ifs at hnone ⊢ with hk
    simp only [Feed.drop, length_drop, length_take]
    omega

/-- **A stream read front to back is blamed for every failure of its source that is not one of the
codec's own.** -/
theorem neverBlames_stream_iff {c : Codec} {stream : Octets} (hlib : c.PassesOn stream) {t : Feed}
    (hdata : t.data <+: stream) (hending : t.ending ≠ .eof)
    (htransport : t.ending.is errCorruptObject = false) :
    c.NeverBlames t ↔ Err.Named t.ending := by
  rcases hlib t hdata hending with ⟨e', hopen, hcarries⟩ | ⟨t', hopen, hcarries⟩
  · have hwrap := hcarries.wrap "open zstd reader"
    have hcorrupt : (Err.wrap "open zstd reader" e').is errCorruptObject = false :=
      hwrap.2.1.trans htransport
    rw [← hwrap.named_iff, ← classifyDecode_blames_iff hcorrupt]
    unfold Codec.NeverBlames Codec.decompressStream
    rw [hopen]
    simp
  · have hcorrupt : t'.ending.is errCorruptObject = false := hcarries.2.1.trans htransport
    rw [← hcarries.named_iff, ← classifyDecode_blames_iff hcorrupt]
    constructor
    · intro h
      obtain ⟨n, hn⟩ := (Serves.guardRead (serves_readAllOf t')).ends
      refine h.2 t' hopen Feed readAllOf t' (serves_readAllOf t') (replicate n 1) _ ?_
      exact hn _ (by simp) fun k hk => (eq_of_mem_replicate hk).ge
    · refine fun h => ⟨fun e he => ?_, fun t1 ht1 σ rd s hserves sizes e he => ?_⟩
      · simp [Codec.decompressStream, hopen] at he
      · rw [hopen] at ht1
        cases ht1
        rw [((Serves.guardRead hserves).error sizes e he).2]
        exact h

/-! ## Through the seek table -/

/-- What the environment answers, with an error, to a request inside the stream. -/
def Answers (env : ReaderEnvironment) (stream : Octets) (e : Err) : Prop :=
  ∃ r : Compression.Request, r.Inside stream ∧ env r = .error e

/-- What the decoder fails with, when it is opened or wherever it is read. -/
def SeekableCodec.Returns (c : SeekableCodec) (env : ReaderEnvironment) (e : Err) : Prop :=
  c.newSeekable env = .error e ∨ ∃ r, c.newSeekable env = .ok r ∧
    (r.feed.ending = e ∨ ∃ off t, r.seek off = .ok t ∧ t.ending = e)

/-- The answers are bytes of the stream or errors. -/
def ServesOrFails (env : ReaderEnvironment) (stream : Octets) : Prop :=
  ∀ r b, env r = .ok b → b = r.wanted stream

/-- The decoder of the stream fails with an end or with an error it was answered, wrapped or not. -/
def SeekableCodec.PassesOnEnv (c : SeekableCodec) (stream : Octets) : Prop :=
  ∀ env, ServesOrFails env stream → ∀ e', c.Returns env e' →
    e'.is .eof = true ∧ e'.is errCorruptObject = false ∨
      ∃ e, Answers env stream e ∧ Err.Carries e' e

/-- No error of the decoding reader says that the object is corrupt, wherever it is read. -/
def SeekableCodec.NeverBlames (c : SeekableCodec) (fetch : Int64 → Int64 → Except Err Octets)
    (size : Int64) : Prop :=
  (∀ e, c.decompressRanged fetch size = .error e → e.is errCorruptObject = false) ∧
  ∀ r, c.decompressRanged fetch size = .ok r → r.feed.ending.is errCorruptObject = false ∧
    ∀ off t, r.seek off = .ok t → t.ending.is errCorruptObject = false

/-- A fetch gives the bytes of the stream, or fails with an error that does not blame the object. -/
abbrev FetchesOrFails := FetchesOr fun e => e.is errCorruptObject = false

section Ranged

variable {fetch : Int64 → Int64 → Except Err Octets} {stream : Octets} {size : Int64}

/-- The error is named, and does not blame the object. -/
def Err.Harmless (e : Err) : Prop := Err.Named e ∧ e.is errCorruptObject = false

theorem harmless_of_fetchFailed
    (h : FetchFailed (fun e => e.is errCorruptObject = false) e) : Err.Harmless e := by
  obtain ⟨msg, cause, hcorrupt, rfl⟩ := h
  refine ⟨.inr ⟨errFetchFailed, by simp [codecErrors], ?_⟩, ?_⟩
  · exact (is_join_text _ _ _).trans (Bool.or_eq_true_iff.mpr (.inl (by decide)))
  · exact (is_join_text _ _ _).trans
      (Bool.or_eq_false_iff.mpr ⟨by decide, (is_wrap_text _ _ _).trans hcorrupt⟩)

section Answers

variable (hsize : size.toInt = stream.length) (hne : stream ≠ []) (h : FetchesOrFails fetch stream)
include hsize hne h

theorem rangeEnv_servesOrFails : ServesOrFails (rangeEnv fetch size) stream := by
  intro r b hb
  obtain ⟨e, answer, hanswer, hexact⟩ := rangeEnv_exact hsize hne h r
  exact hexact.right b (hanswer ▸ hb)

theorem harmless_of_answers (he : Answers (rangeEnv fetch size) stream e) :
    Err.Harmless e := by
  obtain ⟨r, hin, herr⟩ := he
  obtain ⟨_, answer, hanswer, hexact⟩ := rangeEnv_exact hsize hne h r
  exact harmless_of_fetchFailed (hexact.failed hin e (hanswer ▸ herr))

theorem classifyDecode_returned {c : SeekableCodec} (hlib : c.PassesOnEnv stream)
    (he : c.Returns (rangeEnv fetch size) e) (msg : String) :
    (classifyDecode e).is errCorruptObject = false ∧
      (classifyDecode (.wrap msg e)).is errCorruptObject = false := by
  have hharmless : Err.Harmless e := by
    rcases hlib _ (rangeEnv_servesOrFails hsize hne h) e he with
      ⟨heof, hcorrupt⟩ | ⟨e', hanswer, hcarries⟩
    · exact ⟨.inl heof, hcorrupt⟩
    · obtain ⟨hnamed, hcorrupt⟩ := harmless_of_answers hsize hne h hanswer
      exact ⟨hcarries.named_iff.mpr hnamed, hcarries.2.1.trans hcorrupt⟩
  have hwrap := (Err.Carries.refl e).wrap msg
  exact ⟨(classifyDecode_blames_iff hharmless.2).mpr hharmless.1,
    (classifyDecode_blames_iff (hwrap.2.1.trans hharmless.2)).mpr (hwrap.named_iff.mpr hharmless.1)⟩

end Answers

theorem neverBlames_ranged {c : SeekableCodec} (hlib : c.PassesOnEnv stream)
    (hsize : size.toInt = stream.length) (h : FetchesOrFails fetch stream) :
    c.NeverBlames fetch size := by
  unfold SeekableCodec.NeverBlames SeekableCodec.decompressRanged
  split_ifs with hempty
  · obtain rfl : size = 0 := by
      rw [Int64.le_iff_toInt_le, Int64.toInt_zero] at hempty
      rw [← Int64.toInt_inj, Int64.toInt_zero]
      omega
    refine ⟨fun e he => ?_, nofun⟩
    cases he
    decide
  · have hne : stream ≠ [] := by
      rintro rfl
      exact hempty (Int64.le_iff_toInt_le.mpr hsize.le)
    have hblame := fun {e} (he : c.Returns (rangeEnv fetch size) e) =>
      classifyDecode_returned hsize hne h hlib he "open ranged seekable reader"
    cases hopen : c.newSeekable (rangeEnv fetch size) with
    | error e =>
      refine ⟨fun e' he' => ?_, nofun⟩
      cases he'
      exact (hblame (.inl hopen)).2
    | ok r =>
      refine ⟨nofun, fun r' hr' => ?_⟩
      cases hr'
      refine ⟨(hblame (.inr ⟨r, hopen, .inl rfl⟩)).1, fun off t ht => ?_⟩
      cases hseek : r.seek off with
      | error e => simp [decodeGuard, hseek, Except.map] at ht
      | ok t' =>
        simp only [decodeGuard, hseek, Except.map, Except.ok.injEq] at ht
        subst ht
        exact (hblame (.inr ⟨r, hopen, .inr ⟨off, t', hseek, rfl⟩⟩)).1

/-- **A frame outside the stream is refused without a fetch.** -/
theorem getFrameByIndex_outside {e : RangeEnv} {id : Nat} {off n : UInt64}
    (hout : e.size.toUInt64.toNat < off.toNat + n.toNat) :
    ∃ err, err.is errRangeBounds = true ∧
      ∀ fetch, e.getFrameByIndex fetch id off n = (.error err, e) := by
  have hguard : e.size.toUInt64 < off ∨ e.size.toUInt64 - off < n := by
    rw [or_iff_not_imp_left, UInt64.not_lt]
    intro hle
    rw [UInt64.lt_iff_toNat_lt, UInt64.toNat_sub_of_le _ _ hle]
    rw [UInt64.le_iff_toNat_le] at hle
    omega
  refine ⟨_, ?_, fun fetch => by rw [RangeEnv.getFrameByIndex]; exact if_pos hguard⟩
  exact (is_join_text _ _ _).trans (Bool.or_eq_true_iff.mpr (.inl (by decide)))

end Ranged

/-- **When a failed read is not taken for corruption.** Front to back: just if the error is an end
or one of the codec's own. Through the seek table: always, and an entry outside the stream is
refused without a fetch. -/
theorem failed_read_not_blamed_iff (c : SeekableCodec) (stream : Octets)
    (hstream : c.toCodec.PassesOn stream) (henv : c.PassesOnEnv stream) :
    (∀ t : Feed, t.data <+: stream → t.ending ≠ .eof → t.ending.is errCorruptObject = false →
      (c.toCodec.NeverBlames t ↔ Err.Named t.ending)) ∧
    (∀ (size : Int64) fetch, size.toInt = stream.length → FetchesOrFails fetch stream →
      c.NeverBlames fetch size) ∧
    ∀ (e : RangeEnv) (id : Nat) (off n : UInt64),
      e.size.toUInt64.toNat < off.toNat + n.toNat →
      ∃ err, err.is errRangeBounds = true ∧
        ∀ fetch, e.getFrameByIndex fetch id off n = (.error err, e) :=
  ⟨fun _ hdata hending htransport => neverBlames_stream_iff hstream hdata hending htransport,
    fun _ _ hsize hfetch => neverBlames_ranged henv hsize hfetch,
    fun _ _ _ _ hout => getFrameByIndex_outside hout⟩

def echoCodec : SeekableCodec where
  chunkSize := 1
  chunkSize_pos := Nat.one_pos
  newWriter := .ok ()
  frame chunk := .ok chunk
  seekTable _ := .ok []
  newReader t := .ok ⟨[], t.ending⟩
  seekableReader _ := .ok ⟨[], .eof⟩
  newSeekable env := (env .footer).map fun _ => ⟨⟨[], .eof⟩, fun _ => .ok ⟨[], .eof⟩⟩

theorem echoCodec_passesOn (stream : Octets) : echoCodec.toCodec.PassesOn stream :=
  fun _ _ _ => .inr ⟨_, rfl, Err.Carries.refl _⟩

theorem echoCodec_passesOnEnv (stream : Octets) : echoCodec.PassesOnEnv stream := by
  rintro env - e' he'
  unfold SeekableCodec.Returns echoCodec at he'
  cases hfooter : env .footer with
  | error e =>
    simp only [hfooter, Except.map, Except.error.injEq, reduceCtorEq, false_and, exists_false,
      or_false] at he'
    subst he'
    exact .inr ⟨e, ⟨.footer, trivial, hfooter⟩, Err.Carries.refl e⟩
  | ok b =>
    have heof : e' = .eof := by
      simpa [hfooter, Except.map, eq_comm] using he'
    subst heof
    exact .inl ⟨rfl, by decide⟩

/-- A source that breaks off with `ErrUnexpectedEOF` makes the object look corrupt. -/
theorem broken_off_blamed :
    echoCodec.toCodec.PassesOn [1, 2, 3] ∧
      ¬ echoCodec.toCodec.NeverBlames ⟨[1], .unexpectedEOF⟩ := by
  refine ⟨echoCodec_passesOn _, fun h => ?_⟩
  have hnamed := (neverBlames_stream_iff (t := ⟨[1], .unexpectedEOF⟩)
    (echoCodec_passesOn [1, 2, 3]) ⟨[2, 3], rfl⟩ (by decide) (by decide)).mp h
  revert hnamed
  simp only [Err.Named, codecErrors, mem_cons, not_mem_nil, or_false, exists_eq_or_imp,
    exists_eq_left]
  decide

/-- A source that fails with an error of the codec's own does not. -/
theorem named_failure_not_blamed :
    echoCodec.toCodec.NeverBlames ⟨[1], .wrap "read" errFetchFailed⟩ :=
  ((failed_read_not_blamed_iff echoCodec [1, 2, 3] (echoCodec_passesOn _)
    (echoCodec_passesOnEnv _)).1 ⟨[1], .wrap "read" errFetchFailed⟩ ⟨[2, 3], rfl⟩ (by decide)
    (by decide)).mpr (.inr ⟨errFetchFailed, by simp [codecErrors], by decide⟩)

end S3Orchestrator.Storedform
