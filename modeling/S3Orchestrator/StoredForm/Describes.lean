import S3Orchestrator.StoredForm.Failing

/-!
# What a stored form describes

A form describes bytes if undoing it yields the client's content. The form of one copy describes the
bytes of another just if the two have the same layers, up to two ways in which a layer makes no
difference: an envelope with nothing in it opens under every data key, and bytes may decode to
themselves.

* **`LayersAgree.describes`**: a form whose layers agree describes the same bytes;
* **`layersAgree_of_describes`**: and no other does, where bytes sealed under one data key are
  refused under another.
-/

namespace S3Orchestrator.Storedform

open ByteStream Encryption RowStore StoredFlags

variable {enc : Option Encryptor} {codec : Option Codec} {f g : StoredForm} {bytes content : Octets}

/-- Undoing the form yields the content. -/
def Describes (enc : Option Encryptor) (codec : Option Codec) (form : StoredForm)
    (bytes content : Octets) : Prop :=
  openBody enc codec ⟨bytes, .eof⟩ form = .ok ⟨content, .eof⟩

/-! ## What reading depends on -/

theorem has_form_compressed (f : StoredForm) :
    has f.form storedCompressed = decide (f.compressionAlgorithm ≠ "") := by
  unfold StoredForm.form
  cases f.encrypted <;> split_ifs <;> simp_all <;> decide

/-- The data key an envelope of the form was sealed under. -/
def Encryptor.dataKey (enc : Encryptor) (form : StoredForm) : Except Err Octets := do
  let (_, wrappedDEK) ← unpackKeyData form.encryptionKey
  enc.keys.unwrapDEK wrappedDEK form.keyID

/-- What reading takes from a form is the same in both. -/
def SameLayers (f g : StoredForm) : Prop :=
  f.encrypted = g.encrypted ∧
    (g.encrypted = true → f.encryptionKey = g.encryptionKey ∧ f.keyID = g.keyID) ∧
    StoredFlags.has f.form storedCompressed = StoredFlags.has g.form storedCompressed

theorem checkEnvelope_congr (h : f.encrypted = g.encrypted) (t : Feed) :
    checkEnvelope t f = checkEnvelope t g := by
  unfold checkEnvelope
  rw [h]

theorem decode_congr (h : has f.form storedCompressed =
    has g.form storedCompressed) (t : Feed) : decode codec t f = decode codec t g := by
  unfold decode
  rw [h]

theorem openBody_congr (h : SameLayers f g) (t : Feed) :
    openBody enc codec t f = openBody enc codec t g := by
  obtain ⟨hencrypted, hkey, hcompressed⟩ := h
  have hunseal : unsealBody enc t f = unsealBody enc t g := by
    unfold unsealBody
    rw [checkEnvelope_congr hencrypted, hencrypted]
    cases hg : g.encrypted with
    | false => rfl
    | true => rw [(hkey hg).1, (hkey hg).2]
  unfold openBody
  simp only [hunseal, decode_congr hcompressed]

theorem sameLayers_recorded (f : StoredForm) : SameLayers f.recorded f := by
  refine ⟨rfl, fun hf => ?_, ?_⟩
  · simp [StoredForm.recorded, hf]
  · rw [has_form_compressed, has_form_compressed]
    rfl

/-! ## Reading through an envelope -/

theorem peekEnvelope_eq (data : Octets) :
    peekEnvelope ⟨data, .eof⟩ = .ok (hasEnvelopeMagic data, ⟨data, .eof⟩) := by
  unfold peekEnvelope Feed.readFull
  split_ifs with hlong
  · have htake : hasEnvelopeMagic (data.take headerMagic.length) = hasEnvelopeMagic data :=
      isPrefixOf_take headerMagic le_rfl data
    dsimp only
    rw [htake]
  · have hshort : hasEnvelopeMagic data = false := by
      rw [Bool.eq_false_iff, hasEnvelopeMagic, Ne, List.isPrefixOf_iff_prefix]
      exact fun hle => hlong hle.length_le
    have hends : (Feed.mk data .eof).shortErr.endsLike = true := Feed.endsLike_shortErr _
    dsimp only
    rw [if_pos hends, hshort]

theorem checkEnvelope_ok {data : Octets} {form : StoredForm}
    (h : hasEnvelopeMagic data = form.encrypted) :
    checkEnvelope ⟨data, .eof⟩ form = .ok ⟨data, .eof⟩ := by
  rw [checkEnvelope, peekEnvelope_eq]
  exact if_pos h

theorem checkEnvelope_error (data : Octets) (form : StoredForm)
    (h : hasEnvelopeMagic data ≠ form.encrypted) :
    ∃ e, checkEnvelope ⟨data, .eof⟩ form = .error e := by
  rw [checkEnvelope, peekEnvelope_eq]
  exact ⟨_, if_neg h⟩

theorem encrypted_eq_of_checkEnvelope {t u v : Feed} (hf : checkEnvelope t f = .ok u)
    (hg : checkEnvelope t g = .ok v) : f.encrypted = g.encrypted := by
  obtain ⟨⟨isEnvelope, replayed⟩, hpeek, hf⟩ := exists_of_bind_ok hf
  obtain ⟨⟨isEnvelope', replayed'⟩, hpeek', hg⟩ := exists_of_bind_ok hg
  rw [hpeek, Except.ok.injEq, Prod.mk.injEq] at hpeek'
  dsimp only at hf hg
  split_ifs at hf with heq
  split_ifs at hg with heq'
  rw [← heq, ← heq', hpeek'.1]

section Envelope

variable {e : Encryptor} {t t' : Feed} {dek dek' : Octets} {aead aead' : AEAD}

theorem unsealBody_plain (h : f.encrypted = false) :
    unsealBody enc t f = .ok t' ↔ checkEnvelope t f = .ok t ∧ t' = t := by
  constructor
  · intro hunseal
    obtain ⟨hcheck, ⟨-, rfl⟩ | ⟨hform, -⟩⟩ := exists_of_unsealBody hunseal
    · exact ⟨hcheck, rfl⟩
    · simp [h] at hform
  · rintro ⟨hcheck, rfl⟩
    rw [unsealBody, hcheck]
    exact if_pos h

theorem describes_plain (h : f.encrypted = false) : Describes enc codec f bytes content ↔
    hasEnvelopeMagic bytes = false ∧ decode codec ⟨bytes, .eof⟩ f = .ok ⟨content, .eof⟩ := by
  constructor
  · intro hopen
    obtain ⟨t, hunseal, hdecode⟩ := exists_of_bind_ok hopen
    obtain ⟨hcheck, rfl⟩ := (unsealBody_plain h).mp hunseal
    refine ⟨?_, hdecode⟩
    by_contra hmagic
    obtain ⟨e, he⟩ := checkEnvelope_error bytes f (by rwa [h])
    rw [he] at hcheck
    cases hcheck
  · rintro ⟨hmagic, hdecode⟩
    unfold Describes openBody
    rw [(unsealBody_plain h).mpr ⟨checkEnvelope_ok (hmagic.trans h.symm), rfl⟩]
    exact hdecode

theorem unsealBody_envelope (h : f.encrypted = true) :
    unsealBody (some e) t f = .ok t' ↔ checkEnvelope t f = .ok t ∧
      ∃ dek aead chunkSize nonce src, e.dataKey f = .ok dek ∧ e.keys.newGCM dek = .ok aead ∧
        parseHeader { feed := t } = .ok ((chunkSize, nonce), src) ∧
        t' = decrypted aead nonce chunkSize src.feed := by
  constructor
  · intro hunseal
    obtain ⟨hcheck, ⟨hform, -⟩ | ⟨-, e', r, he, hdecrypt, rfl⟩⟩ := exists_of_unsealBody hunseal
    · simp [h] at hform
    · obtain rfl := Option.some.inj he
      obtain ⟨base, wrapped, dek, src, hunpack, hdek, hparse, haead, hstream⟩ :=
        exists_of_decryptStored hdecrypt
      refine ⟨hcheck, dek, r.aead, r.chunkSize, r.baseNonce, src, ?_, haead, hparse, ?_⟩
      · rw [Encryptor.dataKey, hunpack]
        exact hdek
      · rw [DecryptReader.feed, hstream]
        rfl
  · rintro ⟨hcheck, dek, aead, chunkSize, nonce, src, hdek, haead, hparse, rfl⟩
    obtain ⟨⟨base, wrapped⟩, hunpack, hdek⟩ := exists_of_bind_ok hdek
    rw [unsealBody, hcheck]
    simp [bind, Except.bind, h, decryptStored, hunpack, hdek, hparse, haead, Except.mapError,
      Except.map, DecryptReader.feed, newDecryptReader, ChunkStream.feed, ChunkStream.rest,
      decrypted]

end Envelope

/-! ## One copy's form and another's bytes -/

/-- The form's data key opens nothing of the bytes. -/
def Refused (enc : Option Encryptor) (form : StoredForm) (bytes : Octets) : Prop :=
  ∀ t, unsealBody enc ⟨bytes, .eof⟩ form = .ok t → t.data = [] ∧ t.ending.endsLike = false

/-- The bytes are refused under the data key of `f` if they were sealed under another, that of
`g`. -/
def RefusedUnlessSame (enc : Option Encryptor) (f g : StoredForm) (bytes : Octets) : Prop :=
  ∀ e, enc = some e → f.encrypted = true → g.encrypted = true → headerSize < bytes.length →
    e.dataKey f ≠ e.dataKey g → Refused enc f bytes

/-- The decoder of a stream that fails at once fails. -/
def Codec.PassesFirstError (c : Codec) : Prop :=
  ∀ err t', err.endsLike = false → c.newReader ⟨[], err⟩ = .ok t' → Fails t'

/-- An envelope of the form has a data key. -/
def Openable (enc : Option Encryptor) (form : StoredForm) : Prop :=
  form.encrypted = true → ∃ e dek aead, enc = some e ∧ e.dataKey form = .ok dek ∧
    e.keys.newGCM dek = .ok aead

/-- The layers of `f` are those of the bytes, which `g` describes: an envelope in both or in
neither, under the same data key or with nothing in it; and bytes in it that are compressed in both
or in neither, or decode to themselves. -/
def LayersAgree (enc : Option Encryptor) (codec : Option Codec) (f g : StoredForm)
    (bytes : Octets) : Prop :=
  f.encrypted = g.encrypted ∧
    (g.encrypted = true →
      bytes.length ≤ headerSize ∨ ∃ e, enc = some e ∧ e.dataKey f = e.dataKey g) ∧
    (StoredFlags.has f.form storedCompressed = StoredFlags.has g.form storedCompressed ∨
      ∃ c t, codec = some c ∧ unsealBody enc ⟨bytes, .eof⟩ g = .ok t ∧ c.decompressStream t = .ok t)

theorem not_opens_of_fails (hcodec : ∀ c, codec = some c → c.PassesFirstError) {err : Err}
    (herr : err.endsLike = false) (h : decode codec ⟨[], err⟩ f = .ok ⟨content, .eof⟩) : False := by
  have hfails := decode_fails (fun c hc _ t' => hcodec c hc err t' herr) herr h
  exact Bool.false_ne_true hfails.symm

theorem unsealBody_agree {t : Feed} (hopen : Openable enc f)
    (hg : unsealBody enc ⟨bytes, .eof⟩ g = .ok t) (hencrypted : f.encrypted = g.encrypted)
    (hkey : g.encrypted = true →
      bytes.length ≤ headerSize ∨ ∃ e, enc = some e ∧ e.dataKey f = e.dataKey g) :
    unsealBody enc ⟨bytes, .eof⟩ f = .ok t := by
  cases hgenc : g.encrypted with
  | false =>
    rw [unsealBody_plain hgenc] at hg
    rw [unsealBody_plain (hencrypted.trans hgenc), checkEnvelope_congr hencrypted]
    exact hg
  | true =>
    have hfenc := hencrypted.trans hgenc
    obtain ⟨e, dek', aead', rfl, hdek', haead'⟩ := hopen hfenc
    rw [unsealBody_envelope hgenc] at hg
    obtain ⟨hcheck, dek, aead, chunkSize, nonce, src, hdek, haead, hparse, rfl⟩ := hg
    rw [unsealBody_envelope hfenc, checkEnvelope_congr hencrypted]
    rcases hkey hgenc with hshort | ⟨e', he, hsame⟩
    · -- there is no frame to open
      have hrest : src.feed = ⟨[], .eof⟩ := by
        rw [feed_of_parseHeader hparse, Feed.drop, List.drop_of_length_le hshort]
      have hempty : ∀ aead, decrypted aead nonce chunkSize ⟨[], .eof⟩ = ⟨[], .eof⟩ := by
        intro aead
        have hsize : 0 < nonceSize + chunkSize + tagSize := by
          unfold nonceSize
          omega
        rw [decrypted, chunked_eq hsize, chunkedStep_eof hsize rfl rfl]
      refine ⟨hcheck, dek', aead', chunkSize, nonce, src, hdek', haead', hparse, ?_⟩
      rw [hrest, hempty, hempty]
    · obtain rfl : e = e' := Option.some.inj he
      exact ⟨hcheck, dek, aead, chunkSize, nonce, src, hsame.trans hdek, haead, hparse, rfl⟩

theorem envelope_agree (hcodec : ∀ c, codec = some c → c.PassesFirstError)
    (hrefused : RefusedUnlessSame enc f g bytes) (hf : Describes enc codec f bytes content)
    (hg : Describes enc codec g bytes content) :
    f.encrypted = g.encrypted ∧ (g.encrypted = true →
      bytes.length ≤ headerSize ∨ ∃ e, enc = some e ∧ e.dataKey f = e.dataKey g) := by
  obtain ⟨⟨data, ending⟩, hunseal, hdecode⟩ := exists_of_bind_ok hf
  obtain ⟨t', hunseal', -⟩ := exists_of_bind_ok hg
  have hencrypted : f.encrypted = g.encrypted := by
    obtain ⟨u, hcheck, -⟩ := exists_of_bind_ok hunseal
    obtain ⟨u', hcheck', -⟩ := exists_of_bind_ok hunseal'
    exact encrypted_eq_of_checkEnvelope hcheck hcheck'
  refine ⟨hencrypted, fun hgenc => ?_⟩
  by_cases hshort : bytes.length ≤ headerSize
  · exact .inl hshort
  cases enc with
  | none =>
    obtain ⟨u', -, hu'⟩ := exists_of_bind_ok hunseal'
    rw [if_neg (by simp [hgenc])] at hu'
    cases hu'
  | some e =>
    refine .inr ⟨e, rfl, ?_⟩
    by_contra hne
    obtain ⟨hdata, hending⟩ := hrefused e rfl (hencrypted.trans hgenc) hgenc
      (Nat.lt_of_not_le hshort) hne _ hunseal
    obtain rfl : data = [] := hdata
    exact not_opens_of_fails hcodec hending hdecode

theorem decode_agree {t : Feed} (hg : decode codec t g = .ok ⟨content, .eof⟩) :
    decode codec t f = .ok ⟨content, .eof⟩ ↔
      (has f.form storedCompressed = has g.form storedCompressed ∨
        ∃ c, codec = some c ∧ c.decompressStream t = .ok t) := by
  by_cases hsame : has f.form storedCompressed = has g.form storedCompressed
  · rw [decode_congr hsame]
    exact iff_of_true hg (.inl hsame)
  · rw [or_iff_right hsame]
    unfold decode at hg ⊢
    cases hf : has f.form storedCompressed with
    | true =>
      have hgplain : has g.form storedCompressed = false := by
        simpa [hf] using hsame
      rw [if_pos hgplain] at hg
      obtain rfl := Except.ok.inj hg
      cases codec with
      | none => simp
      | some c =>
        refine ⟨fun h => ⟨c, rfl, ok_of_mapError_ok h⟩, ?_⟩
        rintro ⟨c', hc, h⟩
        obtain rfl := Option.some.inj hc
        simp only [h]
        rfl
    | false =>
      rw [if_pos rfl]
      have hgcomp : has g.form storedCompressed = true := by
        simpa [hf] using Ne.symm hsame
      rw [if_neg (by simp [hgcomp])] at hg
      cases codec with
      | none => cases hg
      | some c =>
        have hdecoded := ok_of_mapError_ok hg
        constructor
        · intro h
          obtain rfl := Except.ok.inj h
          exact ⟨c, rfl, hdecoded⟩
        · rintro ⟨c', hc, h⟩
          obtain rfl := Option.some.inj hc
          rw [← h, hdecoded]

theorem LayersAgree.describes (h : LayersAgree enc codec f g bytes) (hopen : Openable enc f)
    (hg : Describes enc codec g bytes content) : Describes enc codec f bytes content := by
  obtain ⟨t, hunseal, hdecode⟩ := exists_of_bind_ok hg
  obtain ⟨hencrypted, hkey, hcomp⟩ := h
  have hunseal' := unsealBody_agree hopen hunseal hencrypted hkey
  rw [Describes, openBody, hunseal']
  refine (decode_agree hdecode).mpr (hcomp.imp_right ?_)
  rintro ⟨c, t', hc, ht', hself⟩
  rw [hunseal, Except.ok.injEq] at ht'
  subst ht'
  exact ⟨c, hc, hself⟩

theorem layersAgree_of_describes (hcodec : ∀ c, codec = some c → c.PassesFirstError)
    (hrefused : RefusedUnlessSame enc f g bytes) (hopen : Openable enc f)
    (hf : Describes enc codec f bytes content) (hg : Describes enc codec g bytes content) :
    LayersAgree enc codec f g bytes := by
  obtain ⟨hencrypted, hkey⟩ := envelope_agree hcodec hrefused hf hg
  obtain ⟨t, hunseal, hdecode⟩ := exists_of_bind_ok hg
  rw [Describes, openBody, unsealBody_agree hopen hunseal hencrypted hkey] at hf
  rcases (decode_agree hdecode).mp hf with hsame | ⟨c, hc, hself⟩
  · exact ⟨hencrypted, hkey, .inl hsame⟩
  · exact ⟨hencrypted, hkey, .inr ⟨c, t, hc, hunseal, hself⟩⟩

end S3Orchestrator.Storedform
