import S3Orchestrator.StoredForm.Layers

/-!
# Sources that fail

A source that breaks off returns an error after some of its bytes. A layer reads it a chunk at a
time, and takes an error that is or wraps `EOF` or `ErrUnexpectedEOF` for the end of the source.
What other error a source fails with, every layer passes on.

* **`reform_fails`**.
-/

namespace S3Orchestrator.Storedform

open ByteStream Encryption RowStore

def Fails (t : Feed) : Prop := t.ending.endsLike = false

/-! ## Encryption -/

section Chunks

variable {size : Nat} {what : String} {transform : Nat → Octets → Except Err Octets}

theorem chunkedFrom_fails
    (htransform : ∀ i chunk e, transform i chunk = .error e → e.endsLike = false)
    (fuel idx : Nat) (t : Feed) (h : Fails t) :
    Fails (chunkedFrom size what transform fuel idx t) := by
  induction fuel generalizing idx t with
  | zero => exact h
  | succ fuel ih =>
    rw [chunkedFrom]
    by_cases hfull : size ≤ t.data.length
    · cases ho : transform idx (t.data.take size) with
      | error e =>
        rw [chunkedStep_full_error hfull ho]
        exact htransform _ _ e ho
      | ok out =>
        rw [chunkedStep_full hfull ho]
        exact ih (idx + 1) (t.drop size) h
    · rw [chunkedStep_fail (Nat.not_le.mp hfull) h, Fails, Err.endsLike_wrap,
        Feed.endsLike_shortErr]
      exact h

theorem chunked_ends (hsize : 0 < size) (htransform : ∀ i chunk, ∃ out, transform i chunk = .ok out)
    (n idx : Nat) (t : Feed) (hn : t.data.length < n) (h : t.ending.endsLike = true) :
    (chunked size what transform idx t).ending = .eof := by
  induction n generalizing idx t with
  | zero => omega
  | succ n ih =>
    rw [chunked_eq hsize]
    by_cases hfull : size ≤ t.data.length
    · obtain ⟨out, ho⟩ := htransform idx (t.data.take size)
      rw [chunkedStep_full hfull ho]
      refine ih (idx + 1) (t.drop size) ?_ h
      simp only [Feed.drop, List.length_drop]
      omega
    · by_cases heof : t.data = [] ∧ t.shortErr.is .eof = true
      · have hending : t.ending.is .eof = true := by simpa [Feed.shortErr, heof.1] using heof.2
        rw [chunkedStep_eof hsize heof.1 hending]
      · obtain ⟨out, ho⟩ := htransform idx t.data
        rw [chunkedStep_last (Nat.not_le.mp hfull) h heof ho]

end Chunks

section Encrypting

variable {aead : AEAD} {nonce : Octets} {size : Nat} {t : Feed}

theorem encrypted_fails (h : Fails t) : Fails (encrypted aead nonce size t) :=
  chunkedFrom_fails (fun _ _ _ he => by cases he) _ _ t h

theorem encrypted_ends (hsize : 0 < size) (h : t.ending.endsLike = true) :
    (encrypted aead nonce size t).ending = .eof :=
  chunked_ends hsize (fun _ _ => ⟨_, rfl⟩) _ 0 t (Nat.lt_succ_self _) h

theorem endsLike_openChunk {i : Nat} {chunk : Octets} {e : Err}
    (h : openChunk aead nonce i chunk = .error e) : e.endsLike = false := by
  unfold openChunk at h
  split_ifs at h with hshort hnonce
  · cases h
    exact Err.endsLike_text _
  · cases h
    exact Err.endsLike_text _
  · cases ho : aead.openText (chunk.take nonceSize) (chunk.drop nonceSize) with
    | none =>
      rw [ho] at h
      cases h
      rw [Err.endsLike_wrap, Err.endsLike_text]
    | some plain =>
      rw [ho] at h
      cases h

theorem serves_encryptRead (aead : AEAD) (nonce : Octets) (hsize : 0 < size) (src : Source) :
    Serves (encryptRead aead nonce size) (newEncryptReader src nonce size)
      (encrypted aead nonce size src.feed) :=
  serves_chunkRead hsize (newEncryptReader src nonce size)

end Encrypting

/-! ## Compression -/

namespace Codec

variable {c : Codec}

theorem readFull_short {src : Source} {k : Nat} (h : src.feed.data.length < k) :
    (src.readFull k).2.1 = some src.feed.shortErr := by
  have hread := (src.readFull_eq k).1
  rw [Feed.readFull, if_neg (Nat.not_le.mpr h)] at hread
  exact (Prod.mk.inj hread).2

theorem readFull_full {src : Source} {k : Nat} (h : k ≤ src.feed.data.length) :
    (src.readFull k).2.1 = none := by
  have hread := (src.readFull_eq k).1
  rw [Feed.readFull, if_pos h] at hread
  exact (Prod.mk.inj hread).2

theorem compressFrom_ne_ok (fuel : Nat) (src : Source) (h : Fails src.feed) (frames : List Octets) :
    c.compressFrom fuel src ≠ .ok frames := by
  induction fuel generalizing src frames with
  | zero => exact fun hok => by cases hok
  | succ fuel ih =>
    intro hok
    obtain ⟨written, -, hok⟩ := exists_of_bind_ok hok
    by_cases hfull : c.chunkSize ≤ src.feed.data.length
    · rw [readFull_full hfull] at hok
      obtain ⟨rest, hrest, -⟩ := exists_of_bind_ok hok
      refine ih _ ?_ rest hrest
      rw [(src.readFull_eq c.chunkSize).2]
      exact h
    · have hends : src.feed.shortErr.endsLike = false := by
        rw [Feed.endsLike_shortErr]
        exact h
      rw [readFull_short (Nat.not_le.mp hfull)] at hok
      simp only [hends] at hok
      cases hok

theorem compress_ne_ok (src : Source) (h : Fails src.feed) (out : Octets) :
    c.compress src ≠ .ok out := by
  intro hok
  obtain ⟨-, -, hok⟩ := exists_of_bind_ok hok
  obtain ⟨frames, hframes, -⟩ := exists_of_bind_ok hok
  exact compressFrom_ne_ok _ src h frames hframes

def Wrote (c : Codec) (data : Octets) : Prop :=
  ∃ (plain : Octets) (full : Octets), c.compress { feed := ⟨plain, .eof⟩ } = .ok full ∧
    data <+: full

/-- The decoder passes on the error its source fails with after a front of what the codec wrote. -/
def PassesErrors (c : Codec) : Prop :=
  ∀ t t', c.Wrote t.data → Fails t → c.newReader t = .ok t' → Fails t'

end Codec

theorem endsLike_classifyDecode {e : Err} (h : e.endsLike = false) :
    (classifyDecode e).endsLike = false := by
  unfold classifyDecode
  split_ifs
  · exact h
  · exact h
  · rw [Err.endsLike_join, h, errCorruptObject, Err.endsLike_text]
    rfl

section Layers

variable {t t' : Feed} {form : StoredForm} {enc : Option Encryptor} {codec : Option Codec}

theorem decode_fails (hreader : ∀ c, codec = some c →
      StoredFlags.has form.form storedCompressed = true → ∀ t', c.newReader t = .ok t' → Fails t')
    (h : Fails t) (hdecode : decode codec t form = .ok t') : Fails t' := by
  unfold decode at hdecode
  split_ifs at hdecode with hform
  · cases hdecode
    exact h
  · cases codec with
    | none => cases hdecode
    | some c =>
      have hstream := ok_of_mapError_ok hdecode
      unfold Codec.decompressStream at hstream
      cases hdecoded : c.newReader t with
      | error e =>
        rw [hdecoded] at hstream
        cases hstream
      | ok decoded =>
        rw [hdecoded] at hstream
        cases hstream
        exact endsLike_classifyDecode (hreader c rfl (by simpa using hform) decoded hdecoded)

theorem eq_of_checkEnvelope (h : checkEnvelope t form = .ok t') : t' = t := by
  obtain ⟨⟨isEnvelope, replayed⟩, hpeek, h⟩ := exists_of_bind_ok h
  have hpeek := ok_of_mapError_ok hpeek
  have hreplayed : replayed = t := by
    unfold peekEnvelope at hpeek
    split at hpeek
    · cases hpeek
      rfl
    · split_ifs at hpeek
      cases hpeek
      rfl
  dsimp only at h
  split_ifs at h
  cases h
  exact hreplayed

theorem fails_of_decryptStored {keys : Keys} {packedKey : Octets} {keyID : String}
    {r : DecryptReader} (h : Fails t)
    (hr : decryptStored keys { feed := t } packedKey keyID = .ok r) : Fails r.feed := by
  obtain ⟨-, -, -, src, -, -, hparse, -, hstream⟩ := exists_of_decryptStored hr
  have hsrc : Fails src.feed := by
    rw [Fails, feed_of_parseHeader hparse]
    exact h
  rw [DecryptReader.feed, hstream]
  exact chunkedFrom_fails (fun _ _ _ he => endsLike_openChunk he) _ _ src.feed hsrc

theorem exists_of_unsealBody (h : unsealBody enc t form = .ok t') :
    checkEnvelope t form = .ok t ∧ (form.encrypted = false ∧ t' = t ∨
      form.encrypted = true ∧ ∃ e r, enc = some e ∧
        decryptStored e.keys { feed := t } form.encryptionKey form.keyID = .ok r ∧
        t' = r.feed) := by
  obtain ⟨checked, hcheck, hbody⟩ := exists_of_bind_ok h
  obtain rfl := eq_of_checkEnvelope hcheck
  refine ⟨hcheck, ?_⟩
  split_ifs at hbody with hform
  · exact .inl ⟨hform, (Except.ok.inj hbody).symm⟩
  · cases enc with
    | none => cases hbody
    | some e =>
      obtain ⟨r, hdecrypt, rfl⟩ := exists_of_map_ok hbody
      exact .inr ⟨Bool.not_eq_false _ ▸ hform, e, r, rfl, ok_of_mapError_ok hdecrypt, rfl⟩

theorem unsealBody_fails (h : Fails t) (hunseal : unsealBody enc t form = .ok t') : Fails t' := by
  obtain ⟨-, ⟨-, rfl⟩ | ⟨-, e, r, rfl, hdecrypt, rfl⟩⟩ := exists_of_unsealBody hunseal
  · exact h
  · exact fails_of_decryptStored h hdecrypt

/-- No error it fails with is taken for an end. -/
def Plain {α : Type} (x : Except Err α) : Prop := ∀ e, x = .error e → e.endsLike = false

theorem Plain.bind {α β : Type} {x : Except Err α} {f : α → Except Err β} (hx : Plain x)
    (hf : ∀ a, x = .ok a → Plain (f a)) : Plain (x >>= f) := by
  cases x with
  | error e =>
    intro e' he
    cases he
    exact hx e rfl
  | ok a => exact hf a rfl

theorem Plain.wrap {α : Type} {x : Except Err α} (hx : Plain x) (msg : String) :
    Plain (x.mapError (.wrap msg)) := by
  cases x with
  | ok a => exact fun e he => by cases he
  | error e =>
    intro e' he
    cases he
    rw [Err.endsLike_wrap, hx e rfl]

/-- Neither the key of the form nor its cipher fails with an error that is taken for an end. -/
def KeysPlain (enc : Option Encryptor) (form : StoredForm) : Prop :=
  form.encrypted = true → ∀ e, enc = some e → ∀ baseNonce wrapped,
    unpackKeyData form.encryptionKey = .ok (baseNonce, wrapped) →
    Plain (e.keys.unwrapDEK wrapped form.keyID) ∧
      ∀ dek, e.keys.unwrapDEK wrapped form.keyID = .ok dek → Plain (e.keys.newGCM dek)

theorem plain_parseHeader (h : Fails t) : Plain (parseHeader { feed := t }) := by
  intro e he
  unfold parseHeader at he
  have hread := (Source.readFull_eq { feed := t } headerSize).1
  generalize Source.readFull { feed := t } headerSize = answer at he hread
  obtain ⟨hdr, err, src⟩ := answer
  cases err with
  | some err =>
    cases he
    rw [Feed.readFull] at hread
    split_ifs at hread
    · cases (Prod.mk.inj hread).2
    · rw [Err.endsLike_wrap, Option.some.inj (Prod.mk.inj hread).2, Feed.endsLike_shortErr]
      exact h
  | none =>
    cases hparse : parseHeaderBytes hdr with
    | ok r => simp [hparse, Except.map] at he
    | error e' =>
      simp only [hparse, Except.map, Except.error.injEq] at he
      subst he
      unfold parseHeaderBytes at hparse
      dsimp only at hparse
      split_ifs at hparse <;> cases hparse <;> exact Err.endsLike_text _

theorem plain_checkEnvelope : Plain (checkEnvelope t form) := by
  refine .bind (.wrap (fun e he => ?_) _) fun _ _ e he => ?_
  · unfold peekEnvelope at he
    split at he
    · cases he
    · split_ifs at he with hends
      cases he
      simpa using hends
  · dsimp only at he
    split_ifs at he
    cases he
    simp [errEncryptionFlagMismatch]

theorem plain_unsealBody (h : Fails t) (hkeys : KeysPlain enc form) :
    Plain (unsealBody enc t form) := by
  refine .bind plain_checkEnvelope fun checked hcheck => ?_
  obtain rfl := eq_of_checkEnvelope hcheck
  split_ifs with hform
  · exact fun e he => by cases he
  · cases enc with
    | none => exact fun e he => by cases he; exact Err.endsLike_text _
    | some enc =>
      have hdecrypt : Plain (decryptStored enc.keys { feed := checked } form.encryptionKey
          form.keyID) := by
        refine .bind (fun e he => ?_) fun ⟨baseNonce, wrapped⟩ hunpack => ?_
        · unfold unpackKeyData at he
          split_ifs at he
          cases he
          simp [errInvalidKeyData]
        · obtain ⟨hunwrap, hgcm⟩ := hkeys (by simpa using hform) enc rfl _ _ hunpack
          refine .bind (hunwrap.wrap _) fun dek hdek => .bind ((plain_parseHeader h).wrap _) ?_
          exact fun _ _ => .bind (hgcm dek (ok_of_mapError_ok hdek)) fun _ _ e he => by cases he
      intro e he
      cases hr : decryptStored enc.keys { feed := checked } form.encryptionKey form.keyID with
      | ok r => simp [hr, Except.mapError, Except.map] at he
      | error e' =>
        simp only [hr, Except.mapError, Except.map, Except.error.injEq] at he
        rw [← he, Err.endsLike_wrap, hdecrypt e' hr]

theorem sealBody_fails {enc : Encryptor} {size : Int} {key : Option DataKey} {s : Sealed}
    (h : Fails t) (hseal : sealBody enc t size key = .ok s) : Fails s.body := by
  have hwith : ∀ key s, enc.encryptWithDEK t size key = .ok s → Fails s.body := by
    intro key s hs
    obtain ⟨aead, -, hs⟩ := exists_of_bind_ok hs
    cases hs
    exact encrypted_fails h
  have hseal := ok_of_mapError_ok hseal
  cases key with
  | some key => exact hwith key s hseal
  | none =>
    obtain ⟨⟨dek, wrappedDEK, keyID⟩, -, hseal⟩ := exists_of_bind_ok hseal
    exact hwith _ s hseal

end Layers

/-! ## Reform -/

section Reform

variable {l : Layers} {t : Feed} {src : StoredForm} {want : StoredFlags}

theorem encode_ne_ok {logical : Int} {form : StoredForm} (h : Fails t)
    (r : Feed × Int × StoredForm) : l.encode t logical form ≠ .ok r := by
  intro hok
  unfold Layers.encode at hok
  cases hcodec : l.codec with
  | none =>
    rw [hcodec] at hok
    cases hok
  | some codec =>
    rw [hcodec] at hok
    obtain ⟨enc, henc, -⟩ := exists_of_bind_ok hok
    obtain ⟨out, hout, -⟩ := exists_of_bind_ok henc
    exact Codec.compress_ne_ok _ h out (ok_of_mapError_ok hout)

theorem recode_fails {size : Int} {form : StoredForm} {r : Feed × Int × StoredForm}
    (hpasses : ∀ c, l.codec = some c → c.PassesErrors)
    (hwrote : ∀ c, l.codec = some c → StoredFlags.has src.form storedCompressed = true →
      c.Wrote t.data)
    (h : Fails t) (hr : l.recode t size src want form = .ok r) : Fails r.1 := by
  unfold Layers.recode at hr
  split_ifs at hr with hhave hkeep hwant
  · cases hr
    exact h
  · cases hdecode : decode l.codec t src with
    | error e =>
      rw [hdecode] at hr
      cases hr
    | ok decoded =>
      rw [hdecode] at hr
      cases hr
      exact decode_fails (fun c hc hform t' => hpasses c hc t t' (hwrote c hc hform) h) h hdecode
  · exact absurd hr (encode_ne_ok h r)
  · cases hr
    exact h

/-- **A reform of a source that fails fails**, if it begins at all. The bytes under the envelope are
a front of what the codec wrote. -/
theorem reform_fails {storedSize : Int} {r : Reformed}
    (hpasses : ∀ c, l.codec = some c → c.PassesErrors)
    (hwrote : ∀ t', unsealBody l.encryptor t src = .ok t' → ∀ c, l.codec = some c →
      StoredFlags.has src.form storedCompressed = true → c.Wrote t'.data)
    (h : Fails t) (hr : l.reform t storedSize src want = .ok r) : Fails r.body := by
  obtain ⟨⟨unsealed, size⟩, hunseal, hr⟩ := exists_of_bind_ok hr
  obtain ⟨unsealed', hunseal', hsize⟩ := exists_of_bind_ok hunseal
  obtain ⟨rfl, -⟩ := Prod.mk.inj (Except.ok.inj hsize)
  obtain ⟨⟨recoded, size', form⟩, hrecode, hr⟩ := exists_of_bind_ok hr
  have hrecoded : Fails recoded :=
    recode_fails hpasses (hwrote _ hunseal') (unsealBody_fails h hunseal') hrecode
  split_ifs at hr with hwant
  · cases henc : l.encryptor with
    | none =>
      rw [henc] at hr
      cases hr
    | some enc =>
      rw [henc] at hr
      obtain ⟨s, hseal, hr⟩ := exists_of_bind_ok hr
      cases hr
      exact sealBody_fails hrecoded hseal
  · cases hr
    exact hrecoded

end Reform

end S3Orchestrator.Storedform
