import S3Orchestrator.Auth.ChunkEncoding

/-!
# Declared checksums in trailers

A request in a trailer variant declares the names of checksums, and sends their values after the
body. What the reader holds the values to differs between the two variants: an unsigned block is
checked against the bytes, by the last value of each name, and a signed block by its signature only.

* **`trailers_hold_iff_oneValue_iff`**.
-/

namespace S3Orchestrator.Chunked

open RowStore List

section Statement

variable (std : Std)

def blockTrailers (block : Bytes) : List TrailerKV :=
  match parseTrailerLines std (maxTrailerBlockBytes / 2 + 1) 0 [] [] block with
  | .ok (headers, _, _) => headers
  | .error _ => []

def OneValue (headers : List TrailerKV) : Prop :=
  ∀ h ∈ headers, ∀ h' ∈ headers, h.name = h'.name → h.value = h'.value

/-- Every declared checksum is sent, with the checksum of the bytes as its only value. -/
def TrailersHold (names : List Bytes) (payload : Bytes) (headers : List TrailerKV) : Prop :=
  (∀ c : Checksum, c.name ∈ names → (∃ h ∈ headers, h.name = c.name) ∧
    ∀ h ∈ headers, h.name = c.name → h.value = base64 (std.checksum c payload)) ∧
  OneValue headers

def Std.KeepsLower : Prop :=
  ∀ s : Bytes, (∀ b ∈ s, b < 0x80 ∧ ¬ (0x41 ≤ b ∧ b ≤ 0x5A)) → std.toLower s = s

end Statement

variable {c : Checksum} {consumed : Nat}

/-! ## The names -/

theorem trailer_names : (∀ name ∈ trailerSignatureHeader :: checksumHashes.map Checksum.name,
      (carriageReturn ∉ name ∧ newline ∉ name ∧ colon ∉ name) ∧ trimSpace name = name ∧
        name.length ≤ 24 ∧ ∀ b ∈ name, b < 0x80 ∧ ¬ (0x41 ≤ b ∧ b ≤ 0x5A)) ∧
    (trailerSignatureHeader :: checksumHashes.map Checksum.name).Nodup := by
  decide +kernel

theorem mem_checksumHashes (c : Checksum) : c ∈ checksumHashes := by
  cases c <;> decide

theorem Checksum.name_inj {c' : Checksum} (h : c.name = c'.name) : c = c' :=
  inj_on_of_nodup_map (nodup_cons.mp trailer_names.2).2 (mem_checksumHashes c)
    (mem_checksumHashes c') h

/-! ## What the unsigned variant checks -/

section Checks

variable {std : Std} {mat : StreamingMaterial} {headers : List TrailerKV}

theorem readTrailerBlock_ok {requireSignature : Bool} {src sig rest : Bytes}
    (h : readTrailerBlock std mat requireSignature src = .ok (headers, sig, rest)) :
    headers = blockTrailers std src ∧ ∀ name ∈ mat.trailerNames, ∃ h ∈ headers, h.name = name := by
  obtain ⟨⟨headers', sig', rest'⟩, hparse, h⟩ := exists_of_bind_ok h
  simp only at h
  split_ifs at h with _ _ hmissing
  cases h
  refine ⟨by simp only [blockTrailers, hparse], fun name hname => ?_⟩
  by_contra hnone
  refine hmissing (ne_nil_of_mem (mem_filter.mpr ⟨hname, ?_⟩))
  simp only [Bool.not_eq_true', any_eq_false, beq_iff_eq]
  exact fun h hh hn => hnone ⟨h, hh, hn⟩

theorem mem_newTrailerChecksums {names : List Bytes} {checksums : List Checksum}
    (h : newTrailerChecksums names = .ok checksums) (hc : c.name ∈ names) :
    c ∈ checksums := by
  induction names generalizing checksums with
  | nil => cases hc
  | cons name names ih =>
    cases hfind : checksumHashes.find? fun c => c.name == name with
    | none => simp [newTrailerChecksums, hfind] at h
    | some c1 =>
      cases hrest : newTrailerChecksums names with
      | error e => simp [newTrailerChecksums, hfind, hrest, Except.map] at h
      | ok rest =>
        simp only [newTrailerChecksums, hfind, hrest, Except.map, Except.ok.injEq] at h
        subst h
        rcases mem_cons.mp hc with hname | hin
        · have hc1 : c1.name = name := by simpa using find?_some hfind
          exact mem_cons.mpr (.inl (Checksum.name_inj (hname.trans hc1.symm)))
        · exact mem_cons_of_mem _ (ih hrest hin)

theorem lastValue_eq (hone : OneValue headers) {h : TrailerKV} (hh : h ∈ headers) :
    lastValue headers h.name = h.value := by
  cases hfind : headers.reverse.find? fun h' => h'.name == h.name with
  | none =>
    have := find?_eq_none.mp hfind h (mem_reverse.mpr hh)
    simp at this
  | some h' =>
    have hname : h'.name = h.name := by simpa using find?_some hfind
    have hin : h' ∈ headers := mem_reverse.mp (mem_of_find?_eq_some hfind)
    simpa [lastValue, hfind] using hone h' hin h hh hname

theorem verifyUnsignedTrailerChecksums_ok {checksums : List Checksum} {hashed : Bytes}
    (h : verifyUnsignedTrailerChecksums std checksums hashed headers = .ok ())
    (hc : c ∈ checksums) : base64 (std.checksum c hashed) = lastValue headers c.name := by
  unfold verifyUnsignedTrailerChecksums at h
  split at h
  · cases h
  · next hnone => simpa using find?_eq_none.mp hnone c hc

theorem trailersHold_of_unsigned (hvariant : mat.variant = .unsignedTrailer)
    {r r' : ChunkReader} {sig : Bytes} (h : finalizeVariant std mat r sig = .ok r')
    (hone : OneValue (blockTrailers std r.src)) :
    TrailersHold std mat.trailerNames r.hashed (blockTrailers std r.src) := by
  simp only [finalizeVariant, hvariant] at h
  obtain ⟨checksums, hsums, h⟩ := exists_of_bind_ok h
  obtain ⟨⟨headers, sig', rest⟩, hblock, h⟩ := exists_of_bind_ok h
  obtain ⟨⟨⟩, hverify, -⟩ := exists_of_bind_ok h
  rw [trailerChecksums, if_pos hvariant] at hsums
  obtain ⟨rfl, hsent⟩ := readTrailerBlock_ok hblock
  refine ⟨fun c hc => ⟨hsent c.name hc, fun kv hkv hname => ?_⟩, hone⟩
  rw [verifyUnsignedTrailerChecksums_ok hverify (mem_newTrailerChecksums hsums hc), ← hname,
    lastValue_eq hone hkv]

end Checks

/-! ## A block, written and read -/

section Written

variable (std : Std)

def trailerLine (h : TrailerKV) : Bytes := h.name ++ colon :: h.value

/-- A trailer that is read back from its line. -/
structure TrailerKV.Plain (h : TrailerKV) : Prop where
  nameText : carriageReturn ∉ h.name ∧ newline ∉ h.name ∧ colon ∉ h.name
  nameTrim : trimSpace h.name = h.name
  nameLower : std.toLower h.name = h.name
  valueText : carriageReturn ∉ h.value ∧ newline ∉ h.value
  valueTrim : trimSpace h.value = h.value
  short : (trailerLine h).length + 2 ≤ 128

variable {std} {headers : List TrailerKV} {h : TrailerKV} {sig : Bytes}

section

variable (hplain : h.Plain std)
include hplain

theorem TrailerKV.Plain.splitTrailerLine :
    splitTrailerLine std (trailerLine h) = some (h.name, h.value) := by
  simp only [Chunked.splitTrailerLine, trailerLine, Fields.cut_append hplain.nameText.2.2,
    Option.map_some, hplain.nameTrim, hplain.nameLower, hplain.valueTrim]

theorem TrailerKV.Plain.append (hname : h.name ≠ trailerSignatureHeader)
    (hroom : headers.length < maxTrailerHeaders) :
    appendTrailerLine std (trailerLine h) headers sig = some (headers ++ [h], sig) := by
  simp only [appendTrailerLine, hplain.splitTrailerLine, if_neg hname, if_neg (not_le.mpr hroom)]

theorem TrailerKV.Plain.append_signature (hname : h.name = trailerSignatureHeader) :
    appendTrailerLine std (trailerLine h) headers [] = some (headers, h.value) := by
  simp [appendTrailerLine, hplain.splitTrailerLine, hname]

theorem TrailerKV.Plain.parseTrailerLines {fuel : Nat}
    (hfits : consumed + 128 ≤ maxTrailerBlockBytes) {headers' : List TrailerKV} {sig' : Bytes}
    (happend : appendTrailerLine std (trailerLine h) headers sig = some (headers', sig'))
    (rest : Bytes) :
    parseTrailerLines std (fuel + 1) consumed headers sig (trailerLine h ++ crlf ++ rest) =
      parseTrailerLines std fuel (consumed + ((trailerLine h).length + 2)) headers' sig' rest := by
  obtain ⟨hcr, hnl, -⟩ := hplain.nameText
  have hshort := hplain.short
  have hline : readBoundedLine maxHeaderLineBytes (trailerLine h ++ crlf ++ rest) =
      .ok (trailerLine h, rest) := by
    refine readBoundedLine_line rest ?_ ?_ (by rw [maxHeaderLineBytes]; omega)
    · simp [trailerLine, hcr, hplain.valueText.1]
      decide
    · simp [trailerLine, hnl, hplain.valueText.2]
      decide
  have hne : trailerLine h ≠ [] := by simp [trailerLine]
  rw [Chunked.parseTrailerLines, hline]
  simp only [happend, if_neg hne, if_neg (not_lt.mpr (by omega :
    consumed + ((trailerLine h).length + 2) ≤ maxTrailerBlockBytes))]

end

theorem parseTrailerLines_written {kvs : List TrailerKV}
    (hplain : ∀ h ∈ kvs, h.Plain std ∧ h.name ≠ trailerSignatureHeader)
    (hroom : headers.length + kvs.length ≤ maxTrailerHeaders)
    (hfits : consumed + 128 * kvs.length ≤ maxTrailerBlockBytes) (fuel : Nat) (rest : Bytes) :
    ∃ consumed', consumed' ≤ consumed + 128 * kvs.length ∧
      parseTrailerLines std (fuel + kvs.length) consumed headers sig
        (kvs.flatMap (fun h => trailerLine h ++ crlf) ++ rest) =
      parseTrailerLines std fuel consumed' (headers ++ kvs) sig rest := by
  induction kvs generalizing headers consumed with
  | nil => exact ⟨consumed, Nat.le_refl _, by simp⟩
  | cons h kvs ih =>
    obtain ⟨hh, hname⟩ := hplain h mem_cons_self
    have hshort := hh.short
    simp only [length_cons] at hroom hfits
    have happend : appendTrailerLine std (trailerLine h) headers sig =
        some (headers ++ [h], sig) := hh.append hname (by omega)
    have hroom' : (headers ++ [h]).length + kvs.length ≤ maxTrailerHeaders := by
      rw [length_append, length_singleton]
      omega
    have hfits' : consumed + ((trailerLine h).length + 2) + 128 * kvs.length ≤
        maxTrailerBlockBytes := by
      omega
    obtain ⟨consumed', hle, hrest⟩ :=
      ih (fun k hk => hplain k (mem_cons_of_mem h hk)) hroom' hfits'
    refine ⟨consumed', by rw [length_cons]; omega, ?_⟩
    rw [flatMap_cons, append_assoc, length_cons, ← Nat.add_assoc,
      hh.parseTrailerLines (by omega) happend, hrest, append_assoc, singleton_append]

theorem parseTrailerLines_end (hfits : consumed + 2 ≤ maxTrailerBlockBytes)
    (fuel : Nat) (rest : Bytes) :
    parseTrailerLines std (fuel + 1) consumed headers sig (crlf ++ rest) =
      .ok (headers, sig, rest) := by
  have hline : readBoundedLine maxHeaderLineBytes (crlf ++ rest) = .ok ([], rest) :=
    readBoundedLine_line rest not_mem_nil not_mem_nil (Nat.zero_le _)
  rw [parseTrailerLines, hline]
  simp only [length_nil, if_neg (not_lt.mpr hfits), if_true]

end Written

/-! ## A signed block with any values -/

section Signed

def claimAll (value : Bytes) : List TrailerKV := checksumHashes.map fun c => ⟨c.name, value⟩

theorem oneValue_claimAll (value : Bytes) : OneValue (claimAll value) := by
  intro h hh h' hh' _
  obtain ⟨c, -, rfl⟩ := mem_map.mp hh
  obtain ⟨c', -, rfl⟩ := mem_map.mp hh'
  rfl

variable (std : Std) (mat : StreamingMaterial)

def trailerSignature (prevSig : Bytes) (headers : List TrailerKV) : Bytes :=
  linkSignature std mat (bytesOf "AWS4-HMAC-SHA256-TRAILER") prevSig
    [encodeToString (std.sum256 (canonicalizeTrailers std headers)).1]

def signedBlock (prevSig : Bytes) (headers : List TrailerKV) : Bytes :=
  headers.flatMap (fun h => trailerLine h ++ crlf) ++
    (trailerLine ⟨trailerSignatureHeader, trailerSignature std mat prevSig headers⟩ ++ crlf ++ crlf)

variable {std mat}

theorem plain_of_name (hlower : std.KeepsLower) {name value : Bytes}
    (hname : name ∈ trailerSignatureHeader :: checksumHashes.map Checksum.name)
    (htext : carriageReturn ∉ value ∧ newline ∉ value) (htrim : trimSpace value = value)
    (hlen : value.length ≤ 64) : (⟨name, value⟩ : TrailerKV).Plain std := by
  obtain ⟨hnameText, hnameTrim, hnameLen, hascii⟩ := trailer_names.1 name hname
  refine ⟨hnameText, hnameTrim, hlower name hascii, htext, htrim, ?_⟩
  simp only [trailerLine, length_append, length_cons]
  omega

theorem plain_trailerSignature (hlower : std.KeepsLower) (prevSig : Bytes)
    (headers : List TrailerKV) :
    (⟨trailerSignatureHeader, trailerSignature std mat prevSig headers⟩ : TrailerKV).Plain std := by
  obtain ⟨hlen, hhex⟩ : (trailerSignature std mat prevSig headers).length = 64 ∧
      ∀ b ∈ trailerSignature std mat prevSig headers, isHexByte b = true :=
    linkSignature_hex std mat _ _ _
  have hne : trailerSignature std mat prevSig headers ≠ [] :=
    length_pos_iff.mp (by omega)
  exact plain_of_name hlower mem_cons_self
    ⟨not_mem_of_hex rfl hhex, not_mem_of_hex rfl hhex⟩ (trimSpace_of_hex hne hhex) hlen.le

variable {value : Bytes} (hlower : std.KeepsLower)
  (htext : carriageReturn ∉ value ∧ newline ∉ value) (htrim : trimSpace value = value)
  (hlen : value.length ≤ 64)
include hlower htext htrim hlen

theorem parseTrailerLines_signedBlock (prevSig : Bytes) :
    parseTrailerLines std (maxTrailerBlockBytes / 2 + 1) 0 [] []
        (signedBlock std mat prevSig (claimAll value)) =
      .ok (claimAll value, trailerSignature std mat prevSig (claimAll value), []) := by
  have hplain : ∀ h ∈ claimAll value, h.Plain std ∧ h.name ≠ trailerSignatureHeader := by
    intro h hh
    obtain ⟨c, hc, rfl⟩ := mem_map.mp hh
    have hname : c.name ∈ checksumHashes.map Checksum.name := mem_map_of_mem hc
    refine ⟨plain_of_name hlower (mem_cons_of_mem _ hname) htext htrim hlen, fun heq => ?_⟩
    exact (nodup_cons.mp trailer_names.2).1 (heq ▸ hname)
  have hcount : (claimAll value).length = 5 := rfl
  have hfuel : maxTrailerBlockBytes / 2 + 1 = 4090 + 1 + 1 + (claimAll value).length := by
    rw [hcount]
    rfl
  have hsig : (⟨trailerSignatureHeader, trailerSignature std mat prevSig (claimAll value)⟩ :
      TrailerKV).Plain std := plain_trailerSignature hlower prevSig (claimAll value)
  have hroom : ([] : List TrailerKV).length + (claimAll value).length ≤ maxTrailerHeaders := by
    rw [hcount]
    decide
  have hfits : 0 + 128 * (claimAll value).length ≤ maxTrailerBlockBytes := by
    rw [hcount]
    decide
  obtain ⟨consumed, hle, hread⟩ := parseTrailerLines_written hplain hroom hfits (4090 + 1 + 1)
    (trailerLine ⟨trailerSignatureHeader, trailerSignature std mat prevSig (claimAll value)⟩ ++
      crlf ++ crlf)
  have hshort := hsig.short
  rw [hfuel, signedBlock, hread, hsig.parseTrailerLines (by omega) (hsig.append_signature rfl)]
  exact parseTrailerLines_end (by omega) 4090 []

theorem blockTrailers_signedBlock (prevSig : Bytes) :
    blockTrailers std (signedBlock std mat prevSig (claimAll value)) = claimAll value := by
  simp only [blockTrailers, parseTrailerLines_signedBlock hlower htext htrim hlen prevSig]

variable (hvariant : mat.variant = .signedTrailer)
  (hsupported : ∀ name ∈ mat.trailerNames, ∃ c : Checksum, name = c.name)
include hvariant hsupported

theorem finalize_signedTrailer {bodies : List Bytes}
    (hdecoded : (bodies.flatten.length : Int) = mat.decodedLen) (last : Bytes) :
    ∃ r, finalize std mat (readerAt bodies last
      (signedBlock std mat (chunkSignature std mat last []) (claimAll value)) [])
      (chunkSignature std mat last []) = .ok r := by
  have hchunk : verifyChunk std mat last [] (chunkSignature std mat last []) =
      .ok (chunkSignature std mat last []) := verifyChunk_eq_ok.mpr ⟨rfl, rfl⟩
  have hsigLen : (trailerSignature std mat (chunkSignature std mat last [])
      (claimAll value)).length = 64 := (linkSignature_hex std mat _ _ _).1
  have hsig : trailerSignature std mat (chunkSignature std mat last []) (claimAll value) ≠ [] :=
    length_pos_iff.mp (by omega)
  have hmissing : missingDeclaredTrailers mat.trailerNames (claimAll value) = [] := by
    refine filter_eq_nil_iff.mpr fun name hname => ?_
    obtain ⟨c, rfl⟩ := hsupported name hname
    simp only [Bool.not_eq_true', Bool.not_eq_false, any_eq_true, beq_iff_eq]
    exact ⟨⟨c.name, value⟩, mem_map_of_mem (mem_checksumHashes c), rfl⟩
  have hblock : readTrailerBlock std mat true
      (signedBlock std mat (chunkSignature std mat last []) (claimAll value)) =
      .ok (claimAll value,
        trailerSignature std mat (chunkSignature std mat last []) (claimAll value), []) := by
    simp [readTrailerBlock, parseTrailerLines_signedBlock hlower htext htrim hlen, bind,
      Except.bind, hsig, hmissing]
  have hlink : verifyLink std mat (chunkSignature std mat last [])
      (trailerSignature std mat (chunkSignature std mat last []) (claimAll value))
      .trailerSignatureMismatch (bytesOf "AWS4-HMAC-SHA256-TRAILER")
      [encodeToString (std.sum256 (canonicalizeTrailers std (claimAll value))).1] =
      .ok (trailerSignature std mat (chunkSignature std mat last []) (claimAll value)) :=
    if_pos rfl
  simp only [finalize, finalizeVariant, hvariant, finalizeSignedTrailer, readerAt, hchunk, hblock,
    hlink, bind, Except.bind, hdecoded, ne_eq, not_true_eq_false, if_false, Except.ok.injEq,
    exists_eq']

theorem readAll_signedTrailer {bodies : List Bytes}
    (hbodies : ∀ b ∈ bodies, 1 ≤ b.length ∧ (b.length : Int) ≤ maxChunkBytes)
    (hdecoded : (bodies.flatten.length : Int) = mat.decodedLen) :
    ∃ wire last line sig block sizes,
      Chunks std mat mat.seedSig wire bodies last (line ++ crlf ++ block) ∧
      ChunkLine mat.variant line 0 sig ∧ (readAll std mat wire sizes).last = some .eof ∧
      blockTrailers std block = claimAll value := by
  have hsigned : mat.variant.isSigned = true := by
    rw [hvariant]
    rfl
  have hsums : trailerChecksums mat = .ok [] := by simp [trailerChecksums, hvariant]
  have hline : ChunkLine mat.variant (headerLine std mat (lastSig std mat mat.seedSig bodies) []) 0
      (chunkSignature std mat (lastSig std mat mat.seedSig bodies) []) :=
    chunkLine_header std mat hsigned (by decide)
  obtain ⟨r, hfin⟩ := finalize_signedTrailer hlower htext htrim hlen hvariant hsupported hdecoded
    (lastSig std mat mat.seedSig bodies)
  have hchunks := chunks_encodeChunks std mat hsigned hbodies mat.seedSig
    (headerLine std mat (lastSig std mat mat.seedSig bodies) [] ++ crlf ++
      signedBlock std mat (chunkSignature std mat (lastSig std mat mat.seedSig bodies) [])
        (claimAll value))
  have hones : ∀ n ∈ replicate (bodies.flatten.length + 1) 1, 1 ≤ n :=
    fun n hn => (eq_of_mem_replicate hn).ge
  obtain ⟨heof, -⟩ :=
    readAll_of_chunks hchunks ⟨_, _, _, r, rfl, hline, hfin⟩ hsums hones (by simp)
  exact ⟨_, _, _, _, _, _, hchunks, hline, heof,
    blockTrailers_signedBlock hlower htext htrim hlen _⟩

end Signed

/-! ## When declared checksums hold -/

theorem length_base64 (s : Bytes) : 4 ∣ (base64 s).length := by
  fun_induction base64 s with
  | case1 => exact dvd_zero 4
  | case2 | case3 => exact dvd_refl 4
  | case4 a b c s ih =>
    simp only [length_cons]
    omega

/-- **When declared checksums hold.** That the trailers with which the payload is read to its end
hold just where no name has two values, is the case just if the variant is the unsigned one or
nothing is declared. -/
theorem trailers_hold_iff_oneValue_iff (std : Std) (hlower : std.KeepsLower)
    (mat : StreamingMaterial)
    (hvariant : mat.variant = .signedTrailer ∨ mat.variant = .unsignedTrailer)
    (hsupported : ∀ name ∈ mat.trailerNames, ∃ c : Checksum, name = c.name)
    (bodies : List Bytes)
    (hbodies : ∀ b ∈ bodies, 1 ≤ b.length ∧ (b.length : Int) ≤ maxChunkBytes)
    (hdecoded : (bodies.flatten.length : Int) = mat.decodedLen) :
    (∀ (wire last line sig block : Bytes) (sizes : List Nat),
      Chunks std mat mat.seedSig wire bodies last (line ++ crlf ++ block) →
      ChunkLine mat.variant line 0 sig →
      (readAll std mat wire sizes).last = some .eof →
        (TrailersHold std mat.trailerNames (readAll std mat wire sizes).delivered
          (blockTrailers std block) ↔ OneValue (blockTrailers std block))) ↔
      mat.variant = .unsignedTrailer ∨ mat.trailerNames = [] := by
  constructor
  · intro h
    refine hvariant.symm.imp_right fun hsigned => ?_
    -- a block that says "A" for every checksum
    by_contra hne
    obtain ⟨name, names, hnames⟩ := exists_cons_of_ne_nil hne
    have hname : name ∈ mat.trailerNames := hnames ▸ mem_cons_self
    obtain ⟨c, rfl⟩ := hsupported name hname
    have htext : carriageReturn ∉ ([0x41] : Bytes) ∧ newline ∉ ([0x41] : Bytes) := by decide
    have htrim : trimSpace [0x41] = [0x41] :=
      trimSpace_of_hex (by simp) fun b hb => (mem_singleton.mp hb).symm ▸ rfl
    have hlen : ([0x41] : Bytes).length ≤ 64 := by decide
    obtain ⟨wire, last, line, sig, block, sizes, hchunks, hline, heof, hblock⟩ :=
      readAll_signedTrailer hlower htext htrim hlen hsigned hsupported hbodies hdecoded
    have hhold := h wire last line sig block sizes hchunks hline heof
    rw [hblock] at hhold
    have hvalue := ((hhold.mpr (oneValue_claimAll _)).1 c hname).2 ⟨c.name, [0x41]⟩
      (mem_map_of_mem (mem_checksumHashes c)) rfl
    have hdvd := length_base64 (std.checksum c (readAll std mat wire sizes).delivered)
    rw [← hvalue] at hdvd
    exact absurd (Nat.le_of_dvd Nat.one_pos hdvd) (by decide)
  · intro hcond wire last line sig block sizes hchunks hline heof
    refine ⟨fun hhold => hhold.2, fun hone => ?_⟩
    rcases hcond with hunsigned | hnone
    · obtain ⟨bodies', last', rest', hchunks', handed, hcloses⟩ := closes_of_eof heof
      obtain ⟨line', sig', tail', r, rfl, hline', hfin⟩ := hcloses
      obtain ⟨rfl, -, -, rfl⟩ := hchunks'.unique hline' hchunks hline
      obtain ⟨-, -, -, -, r₁, hfinal⟩ := finalize_ok hfin
      rw [handed]
      exact trailersHold_of_unsigned hunsigned hfinal hone
    · refine ⟨fun c hc => ?_, hone⟩
      rw [hnone] at hc
      cases hc

def oneByteMaterial (variant : StreamingVariant) : StreamingMaterial where
  variant := variant
  seedSig := []
  signingKey := [1]
  credScope := []
  amzDate := []
  decodedLen := 1
  trailerNames := [Checksum.crc32.name]

def unsignedHead : Bytes := bytesOf "1" ++ crlf ++ ([0x41] ++ crlf ++ (bytesOf "0" ++ crlf))

def correctedBlock : Bytes :=
  trailerLine ⟨Checksum.crc32.name, bytesOf "AAAA"⟩ ++ crlf ++
    (trailerLine ⟨Checksum.crc32.name, bytesOf "QQ=="⟩ ++ crlf ++ crlf)

def rightBlock : Bytes := trailerLine ⟨Checksum.crc32.name, bytesOf "QQ=="⟩ ++ crlf ++ crlf

def signedHead : Bytes :=
  bytesOf "1" ++ semicolon :: chunkSignaturePrefix ++
    chunkSignature echoStd (oneByteMaterial .signedTrailer) [] [0x41] ++ crlf ++ [0x41] ++ crlf ++
  (bytesOf "0" ++ semicolon :: chunkSignaturePrefix ++
    chunkSignature echoStd (oneByteMaterial .signedTrailer)
      (chunkSignature echoStd (oneByteMaterial .signedTrailer) [] [0x41]) [] ++ crlf)

def wrongBlock : Bytes :=
  signedBlock echoStd (oneByteMaterial .signedTrailer)
    (chunkSignature echoStd (oneByteMaterial .signedTrailer)
      (chunkSignature echoStd (oneByteMaterial .signedTrailer) [] [0x41]) [])
    [⟨Checksum.crc32.name, bytesOf "AAAA"⟩]

/-- The byte is read to its end with a wrong checksum in a signed block, and with two in an unsigned
one. -/
theorem wrong_checksums_accepted :
    ((readAll echoStd (oneByteMaterial .signedTrailer) (signedHead ++ wrongBlock) [1, 1]).last =
        some .eof ∧
      ¬ TrailersHold echoStd (oneByteMaterial .signedTrailer).trailerNames
        (readAll echoStd (oneByteMaterial .signedTrailer) (signedHead ++ wrongBlock)
          [1, 1]).delivered (blockTrailers echoStd wrongBlock)) ∧
    ((readAll echoStd (oneByteMaterial .unsignedTrailer) (unsignedHead ++ correctedBlock)
        [1, 1]).last = some .eof ∧
      ¬ TrailersHold echoStd (oneByteMaterial .unsignedTrailer).trailerNames
        (readAll echoStd (oneByteMaterial .unsignedTrailer) (unsignedHead ++ correctedBlock)
          [1, 1]).delivered (blockTrailers echoStd correctedBlock)) := by
  refine ⟨⟨by decide +kernel, fun h => ?_⟩, by decide +kernel, fun h => ?_⟩
  · have hvalue := (h.1 .crc32 mem_cons_self).2 ⟨Checksum.crc32.name, bytesOf "AAAA"⟩
      (by decide +kernel) rfl
    exact absurd hvalue (by decide +kernel)
  · have hvalue := h.2 ⟨Checksum.crc32.name, bytesOf "AAAA"⟩ (by decide +kernel)
      ⟨Checksum.crc32.name, bytesOf "QQ=="⟩ (by decide +kernel) rfl
    exact absurd hvalue (by decide)

/-- The byte, read to its end with its checksum in an unsigned block. -/
theorem right_checksum_holds :
    (readAll echoStd (oneByteMaterial .unsignedTrailer) (unsignedHead ++ rightBlock) [1, 1]).last =
        some .eof ∧
      TrailersHold echoStd [Checksum.crc32.name] [0x41] (blockTrailers echoStd rightBlock) := by
  have heof : (readAll echoStd (oneByteMaterial .unsignedTrailer) (unsignedHead ++ rightBlock)
      [1, 1]).last = some .eof ∧ (readAll echoStd (oneByteMaterial .unsignedTrailer)
      (unsignedHead ++ rightBlock) [1, 1]).delivered = [0x41] := by decide +kernel
  have hsize : ChunkLine .unsignedTrailer (bytesOf "1") 1 [] :=
    ⟨by decide +kernel, bytesOf "1", by decide +kernel, by decide +kernel, rfl, rfl⟩
  have hempty : ChunkLine .unsignedTrailer (bytesOf "0") 0 [] :=
    ⟨by decide +kernel, bytesOf "0", by decide +kernel, by decide +kernel, rfl, rfl⟩
  have hchunks : Chunks echoStd (oneByteMaterial .unsignedTrailer) []
      (unsignedHead ++ rightBlock) [[0x41]] [] (bytesOf "0" ++ crlf ++ rightBlock) := by
    rw [unsignedHead, append_assoc, append_assoc _ _ rightBlock]
    exact .cons hsize (cons_ne_nil 0x41 []) (by decide : (1 : Int) ≤ maxChunkBytes)
      (.nil _ _)
  have hhold := (trailers_hold_iff_oneValue_iff echoStd (fun _ _ => rfl)
    (oneByteMaterial .unsignedTrailer) (.inr rfl)
    (fun name hname => ⟨.crc32, mem_singleton.mp hname⟩) [[0x41]] (by decide) (by decide)).mpr
    (.inl rfl) _ _ _ _ _ [1, 1] hchunks hempty heof.1
  rw [heof.2] at hhold
  refine ⟨heof.1, hhold.mpr fun h hh h' hh' _ => ?_⟩
  have hblock : blockTrailers echoStd rightBlock = [⟨Checksum.crc32.name, bytesOf "QQ=="⟩] := by
    decide +kernel
  rw [hblock, mem_singleton] at hh hh'
  rw [hh, hh']

end S3Orchestrator.Chunked
