import S3Orchestrator.Encryption.Authentic
import S3Orchestrator.StoredForm.Describes

/-!
# Copying an object

`CopyObject` takes the size and the stored form of the destination row from the first copy of the
source that answers a `HEAD`. The bytes come from the copy on the destination backend, by a
server-side copy, or else from the first copy that streams.

* **`copy_describes_iff`**.
-/

namespace S3Orchestrator.Copying

open ByteStream Encryption Storedform List

/-! ## The copy -/

/-- How a server-side copy ends. A failed call may have landed the bytes, and a `HEAD` may then be
answered. -/
inductive NativeCopy
  | notSupported
  | done
  | failed (landed probed : Bool)

/-- The backends during one copy: usage limits, known backends, the bytes at their paths, and the
calls that succeed. -/
structure CopyWorld where
  allow : String → Bool
  known : String → Bool
  stored : String → String → Option Octets
  answersHead : String → Bool
  native : NativeCopy
  readAdmitted : String → Bool
  writeAdmitted : Bool
  reads : String → Bool
  writes : Bool

/-- A client reads managed copies only. -/
def clientLocations (locs : List ObjectLocation) : List ObjectLocation :=
  locs.filter fun loc => !loc.unmanaged

/-- The copy on a backend. -/
def locationOn (locs : List ObjectLocation) (backend : String) : Option ObjectLocation :=
  locs.find? fun loc => loc.backendName = backend

section Copy

variable (w : CopyWorld) (sourceKey : String)

/-- What the backend holds at the copy's path. -/
def bytesOf (loc : ObjectLocation) : Option Octets :=
  w.stored loc.backendName (storagePath sourceKey loc.storageKey)

/-- The size a `HEAD` of the copy answers. -/
def headSize (loc : ObjectLocation) : Option Int :=
  if w.answersHead loc.backendName then
    (bytesOf w sourceKey loc).map fun bytes => (bytes.length : Int)
  else none

/-- The copy is tried and answers. -/
def answers (loc : ObjectLocation) : Bool :=
  w.allow loc.backendName && w.known loc.backendName && (headSize w sourceKey loc).isSome

/-- The first copy that answers. -/
def headed (locations : List ObjectLocation) : Option ObjectLocation :=
  locations.find? (answers w sourceKey)

/-- The size and the form for the destination, from the first copy that answers. -/
def headSourceForCopy (locations : List ObjectLocation) : Option (Int × Option StoredForm) :=
  match headed w sourceKey locations with
  | none => none
  | some loc => (headSize w sourceKey loc).map fun size => (size, loc.storedForm.described)

/-- `tryNativeCopy` from the copy on the destination backend, with the probe: the bytes that have
landed. -/
def tryNativeCopy (size : Int) (loc : ObjectLocation) : Option Octets :=
  match w.native with
  | .notSupported => none
  | .done => bytesOf w sourceKey loc
  | .failed landed probed =>
    match bytesOf w sourceKey loc with
    | none => none
    | some bytes =>
      if landed && probed && decide ((bytes.length : Int) = size) then some bytes else none

/-- `StreamCopy` of one source. The error says whether the write failed. -/
def streamCopy (src : ObjectLocation) : Except Bool Octets :=
  if w.readAdmitted src.backendName = false then .error false
  else if w.writeAdmitted = false then .error true
  else if w.reads src.backendName = false then .error false
  else
    match bytesOf w sourceKey src with
    | none => .error false
    | some bytes =>
      if (bytes.length : Int) ≠ src.sizeBytes then .error false
      else if w.writes = false then .error true
      else .ok bytes

/-- A source that cannot be read is passed over; a write that fails ends the walk. -/
def copyFromAny : List ObjectLocation → Option (ObjectLocation × Octets)
  | [] => none
  | src :: sources =>
    if w.known src.backendName = false then copyFromAny sources
    else
      match streamCopy w sourceKey src with
      | .ok bytes => some (src, bytes)
      | .error true => none
      | .error false => copyFromAny sources

/-- A copy that succeeded: the row it records, and the bytes at the row's path. -/
structure Copied where
  row : ObjectLocation
  bytes : Octets

/-- The server-side copy, or else a streamed one. -/
def moveBytes (size : Int) (locations : List ObjectLocation) (destBackend : String) :
    Option (ObjectLocation × Octets) :=
  match (locationOn locations destBackend).bind fun loc =>
      (tryNativeCopy w sourceKey size loc).map (loc, ·) with
  | some moved => some moved
  | none => copyFromAny w sourceKey locations

/-- The row of the destination, as the table keeps it. -/
def destRow (destKey destBackend destPath : String) (identity : Option ObjectIdentity) (size : Int)
    (form : Option StoredForm) : ObjectLocation :=
  let row := objectFromStoredForm destKey destBackend destPath size form identity
  { row with storedForm := row.storedForm.recorded }

/-- `CopyObject` to a chosen backend and path. -/
def copyObject (locs : List ObjectLocation) (destKey destBackend destPath : String)
    (identity : Option ObjectIdentity) : Option Copied :=
  match headSourceForCopy w sourceKey (clientLocations locs) with
  | none => none
  | some (size, form) =>
    (moveBytes w sourceKey size (clientLocations locs) destBackend).map fun moved =>
      ⟨destRow destKey destBackend destPath identity size form, moved.2⟩

/-! ## The copy that is read -/

/-- The copy can be streamed, and has the size of its row. -/
def streams (loc : ObjectLocation) : Bool :=
  w.known loc.backendName && w.readAdmitted loc.backendName && w.reads loc.backendName &&
    decide ((bytesOf w sourceKey loc).map (fun bytes => (bytes.length : Int)) = some loc.sizeBytes)

/-- The copy whose bytes are moved: the one on the destination backend where the server-side copy
lands, or else the first that streams. -/
def source (size : Int) (locations : List ObjectLocation) (destBackend : String) :
    Option ObjectLocation :=
  match (locationOn locations destBackend).filter
      fun loc => (tryNativeCopy w sourceKey size loc).isSome with
  | some loc => some loc
  | none => if w.writeAdmitted && w.writes then locations.find? (streams w sourceKey) else none

end Copy

/-! ## What is recorded and what is placed -/

section Describe

variable {w : CopyWorld} {sourceKey : String} {enc : Option Encryptor} {codec : Option Codec}
  {loc : ObjectLocation} {content : Octets}

/-- The row gives the size of the bytes at its path, and describes them. -/
def Holds (w : CopyWorld) (sourceKey : String) (enc : Option Encryptor) (codec : Option Codec)
    (content : Octets) (loc : ObjectLocation) : Prop :=
  ∃ bytes, bytesOf w sourceKey loc = some bytes ∧ (bytes.length : Int) = loc.sizeBytes ∧
    Describes enc codec loc.storedForm bytes content

theorem openable_of_describes {form : StoredForm} {bytes : Octets}
    (h : Describes enc codec form bytes content) : Openable enc form := by
  intro hform
  obtain ⟨t, hunseal, -⟩ := RowStore.exists_of_bind_ok h
  cases enc with
  | none =>
    obtain ⟨u, -, hu⟩ := RowStore.exists_of_bind_ok hunseal
    rw [if_neg (by simp [hform])] at hu
    cases hu
  | some e =>
    obtain ⟨-, dek, aead, -, -, -, hdek, haead, -⟩ := (unsealBody_envelope hform).mp hunseal
    exact ⟨e, dek, aead, rfl, hdek, haead⟩

theorem plain_of_described_none {f : StoredForm} (h : f.described = none) :
    f.encrypted = false ∧ f.compressionAlgorithm = "" := by
  unfold StoredForm.described StoredForm.form at h
  revert h
  cases f.encrypted <;> by_cases ha : f.compressionAlgorithm = "" <;>
    by_cases hc : f.contentHash = "" <;> by_cases hk : f.encryptionKey = [] <;>
    simp [ha, hc, hk, storedCompressed, storedEncrypted, storedHashed, storedKeyed]

theorem sameLayers_described (f : StoredForm) :
    SameLayers (f.described.getD {}).recorded f := by
  cases hdescribed : f.described with
  | none =>
    obtain ⟨hencrypted, halgorithm⟩ := plain_of_described_none hdescribed
    refine ⟨hencrypted.symm, fun hf => ?_, ?_⟩
    · rw [hencrypted] at hf
      cases hf
    · rw [has_form_compressed, has_form_compressed, halgorithm]
      rfl
  | some g =>
    obtain rfl : f = g := by
      unfold StoredForm.described at hdescribed
      split_ifs at hdescribed
      exact Option.some.inj hdescribed
    exact sameLayers_recorded f

variable {locations : List ObjectLocation} {bytes : Octets} {src : ObjectLocation}

theorem copyFromAny_eq (locations : List ObjectLocation) :
    copyFromAny w sourceKey locations =
      (if w.writeAdmitted && w.writes then locations.find? (streams w sourceKey) else none).bind
        fun src => (bytesOf w sourceKey src).map (src, ·) := by
  induction locations with
  | nil => split_ifs <;> rfl
  | cons l locations ih =>
    have hpass : streams w sourceKey l = false →
        (l :: locations).find? (streams w sourceKey) = locations.find? (streams w sourceKey) :=
      fun hno => find?_cons_of_neg (by simp [hno])
    rw [copyFromAny]
    cases hknown : w.known l.backendName with
    | false => rw [if_pos rfl, ih, hpass (by simp [streams, hknown])]
    | true =>
      rw [if_neg (by simp), streamCopy]
      cases hread : w.readAdmitted l.backendName with
      | false => rw [if_pos rfl, hpass (by simp [streams, hread])]; exact ih
      | true =>
        rw [if_neg (by simp)]
        cases haccept : w.writeAdmitted with
        | false => simp
        | true =>
          rw [haccept] at ih
          rw [if_neg (by simp)]
          cases hreads : w.reads l.backendName with
          | false => rw [if_pos rfl, hpass (by simp [streams, hreads])]; exact ih
          | true =>
            rw [if_neg (by simp)]
            cases hbytes : bytesOf w sourceKey l with
            | none => rw [hpass (by simp [streams, hbytes])]; exact ih
            | some bytes =>
              dsimp only
              by_cases hsize : (bytes.length : Int) = l.sizeBytes
              · have hstreams : streams w sourceKey l = true := by
                  simp [streams, hknown, hread, hreads, hbytes, hsize]
                rw [if_neg (by simp [hsize]), find?_cons_of_pos hstreams]
                cases w.writes <;> simp [hbytes]
              · rw [if_pos hsize, hpass (by simp [streams, hbytes, hsize])]
                exact ih

theorem bytes_of_tryNativeCopy {size : Int} (h : tryNativeCopy w sourceKey size loc = some bytes) :
    bytesOf w sourceKey loc = some bytes := by
  unfold tryNativeCopy at h
  split at h
  · cases h
  · exact h
  · cases hbytes : bytesOf w sourceKey loc with
    | none =>
      rw [hbytes] at h
      cases h
    | some stored =>
      rw [hbytes] at h
      dsimp only at h
      split_ifs at h
      exact h

theorem moveBytes_eq (size : Int) (locations : List ObjectLocation) (destBackend : String) :
    moveBytes w sourceKey size locations destBackend =
      (source w sourceKey size locations destBackend).bind
        fun src => (bytesOf w sourceKey src).map (src, ·) := by
  unfold moveBytes source
  cases locationOn locations destBackend with
  | none => exact copyFromAny_eq locations
  | some loc =>
    cases hlands : tryNativeCopy w sourceKey size loc with
    | none => simpa [Option.filter, hlands] using copyFromAny_eq locations
    | some bytes => simp [Option.filter, hlands, bytes_of_tryNativeCopy hlands]

theorem mem_of_source {size : Int} {destBackend : String}
    (h : source w sourceKey size locations destBackend = some src) : src ∈ locations := by
  unfold source at h
  split at h
  next loc heq =>
    obtain rfl := Option.some.inj h
    exact mem_of_find?_eq_some (Option.filter_eq_some_iff.mp heq).1
  next =>
    split_ifs at h
    exact mem_of_find?_eq_some h

section Copies

variable {locs : List ObjectLocation} {destKey destBackend destPath : String}
  {identity : Option ObjectIdentity}

theorem copyObject_eq_some {c : Copied} :
    copyObject w sourceKey locs destKey destBackend destPath identity = some c ↔
      ∃ head size src, headed w sourceKey (clientLocations locs) = some head ∧
        headSize w sourceKey head = some size ∧
        source w sourceKey size (clientLocations locs) destBackend = some src ∧
        bytesOf w sourceKey src = some c.bytes ∧
        c.row = destRow destKey destBackend destPath identity size head.storedForm.described := by
  unfold copyObject headSourceForCopy
  cases headed w sourceKey (clientLocations locs) with
  | none => simp
  | some head =>
    cases hsize : headSize w sourceKey head with
    | none => simp [hsize]
    | some size =>
      simp only [hsize, Option.map_some, moveBytes_eq]
      constructor
      · intro h
        obtain ⟨moved, hmoved, rfl⟩ := Option.map_eq_some_iff.mp h
        obtain ⟨src, hsrc, hpair⟩ := Option.bind_eq_some_iff.mp hmoved
        obtain ⟨bytes, hbytes, rfl⟩ := Option.map_eq_some_iff.mp hpair
        exact ⟨head, size, src, rfl, hsize, hsrc, hbytes, rfl⟩
      · rintro ⟨_, _, src, hhead, hsize', hsrc, hbytes, hrow⟩
        cases hhead
        obtain rfl := Option.some.inj (hsize.symm.trans hsize')
        rw [hsrc, Option.bind_some, hbytes, ← hrow]
        rfl

/-- The copy asked for its size and form, and the one whose bytes are moved, have one size and
layers that agree. -/
def SourcesAgree (w : CopyWorld) (sourceKey : String) (enc : Option Encryptor)
    (codec : Option Codec) (locations : List ObjectLocation) (destBackend : String) : Prop :=
  ∀ head size src bytes, headed w sourceKey locations = some head →
    headSize w sourceKey head = some size →
    source w sourceKey size locations destBackend = some src →
    bytesOf w sourceKey src = some bytes →
      head.sizeBytes = src.sizeBytes ∧
        LayersAgree enc codec head.storedForm src.storedForm bytes

/-- Every copy's bytes are refused under the data key of a copy that was sealed under another. -/
def KeysApart (w : CopyWorld) (sourceKey : String) (enc : Option Encryptor)
    (locations : List ObjectLocation) : Prop :=
  ∀ a ∈ locations, ∀ b ∈ locations, ∀ bytes, bytesOf w sourceKey b = some bytes →
    RefusedUnlessSame enc a.storedForm b.storedForm bytes

/-- The row a copy records gives the size of the bytes it placed, and describes them. -/
def Copied.Fits (c : Copied) (enc : Option Encryptor) (codec : Option Codec) (content : Octets) :
    Prop :=
  (c.bytes.length : Int) = c.row.sizeBytes ∧ Describes enc codec c.row.storedForm c.bytes content

variable (hhold : ∀ loc ∈ clientLocations locs, Holds w sourceKey enc codec content loc)
  {head : ObjectLocation}

include hhold

theorem fits_iff {size : Int} {c : Copied}
    (hhead : headed w sourceKey (clientLocations locs) = some head)
    (hsize : headSize w sourceKey head = some size) (hsrc : src ∈ clientLocations locs)
    (hbytes : bytesOf w sourceKey src = some c.bytes)
    (hrow : c.row =
      destRow destKey destBackend destPath identity size head.storedForm.described) :
    c.Fits enc codec content ↔ head.sizeBytes = src.sizeBytes ∧
      Describes enc codec head.storedForm c.bytes content := by
  obtain ⟨stored, hstored, hlen, -⟩ := hhold src hsrc
  obtain rfl : c.bytes = stored := Option.some.inj (hbytes.symm.trans hstored)
  obtain ⟨asked, hasked, haskedLen, -⟩ := hhold head (mem_of_find?_eq_some hhead)
  have hheadSize : size = head.sizeBytes := by
    unfold headSize at hsize
    split_ifs at hsize
    rw [hasked, Option.map_some, Option.some.injEq] at hsize
    rw [← hsize, haskedLen]
  have hread : Describes enc codec c.row.storedForm c.bytes content ↔
      Describes enc codec head.storedForm c.bytes content := by
    rw [Describes, Describes, hrow]
    exact iff_of_eq (congrArg (· = _) (openBody_congr (sameLayers_described head.storedForm) _))
  have hrowSize : c.row.sizeBytes = head.sizeBytes := by
    rw [hrow, ← hheadSize]
    rfl
  rw [Copied.Fits, hlen, hrowSize, hread, eq_comm]

end Copies

/-- **The destination row describes the bytes placed** if the copy that answered the `HEAD` and the
one read from have one size, and layers that agree; and only then, where no data key opens what was
sealed under another. -/
theorem copy_describes_iff {locs : List ObjectLocation}
    (hhold : ∀ loc ∈ clientLocations locs, Holds w sourceKey enc codec content loc)
    {destKey destBackend destPath : String} {identity : Option ObjectIdentity} :
    (SourcesAgree w sourceKey enc codec (clientLocations locs) destBackend →
      ∀ c, copyObject w sourceKey locs destKey destBackend destPath identity = some c →
        c.Fits enc codec content) ∧
    ((∀ c, codec = some c → c.PassesFirstError) →
      KeysApart w sourceKey enc (clientLocations locs) →
      (∀ c, copyObject w sourceKey locs destKey destBackend destPath identity = some c →
        c.Fits enc codec content) →
      SourcesAgree w sourceKey enc codec (clientLocations locs) destBackend) := by
  constructor
  · intro hagree c hcopy
    obtain ⟨head, size, src, hhead, hsize, hsource, hbytes, hrow⟩ := copyObject_eq_some.mp hcopy
    obtain ⟨hsizes, hlayers⟩ := hagree head size src c.bytes hhead hsize hsource hbytes
    have hmem := mem_of_source hsource
    obtain ⟨stored, hstored, -, hdescribes⟩ := hhold src hmem
    obtain rfl : c.bytes = stored := Option.some.inj (hbytes.symm.trans hstored)
    obtain ⟨asked, -, -, hasked⟩ := hhold head (mem_of_find?_eq_some hhead)
    exact (fits_iff hhold hhead hsize hmem hbytes hrow).mpr
      ⟨hsizes, hlayers.describes (openable_of_describes hasked) hdescribes⟩
  · intro hcodec hapart hfits head size src bytes hhead hsize hsource hbytes
    have hmem := mem_of_source hsource
    have hheadMem := mem_of_find?_eq_some hhead
    obtain ⟨hsizes, hread⟩ := (fits_iff hhold hhead hsize hmem hbytes rfl).mp
      (hfits ⟨_, bytes⟩ (copyObject_eq_some.mpr ⟨head, size, src, hhead, hsize, hsource, hbytes,
        rfl⟩))
    obtain ⟨stored, hstored, -, hdescribes⟩ := hhold src hmem
    obtain rfl : bytes = stored := Option.some.inj (hbytes.symm.trans hstored)
    obtain ⟨asked, -, -, hasked⟩ := hhold head hheadMem
    exact ⟨hsizes, layersAgree_of_describes hcodec (hapart head hheadMem src hmem bytes hbytes)
      (openable_of_describes hasked) hread hdescribes⟩

end Describe

/-! ## A copy asked and another moved -/

/-- Encodes by two zero bytes at the end. -/
def trailerCodec : Codec where
  chunkSize := 4
  chunkSize_pos := by decide
  newWriter := .ok ()
  frame chunk := .ok chunk
  seekTable _ := .ok [0, 0]
  newReader t :=
    if t.data.drop (t.data.length - 2) = [0, 0] then .ok ⟨t.data.take (t.data.length - 2), t.ending⟩
    else .ok ⟨[], .text "invalid input: magic number mismatch"⟩
  seekableReader b := .ok ⟨b, .eof⟩

theorem trailerCodec_passesFirstError : trailerCodec.PassesFirstError := by
  intro err t' herr ht'
  have hlast : ([] : Octets).drop (([] : Octets).length - 2) ≠ [0, 0] := by decide
  simp only [trailerCodec, if_neg hlast, Except.ok.injEq] at ht'
  subst ht'
  rfl

/-- Everything is allowed, and the backends copy server-side. -/
def worldOf (stored : String → Octets) (answersHead : String → Bool) : CopyWorld where
  allow _ := true
  known _ := true
  stored backend _ := some (stored backend)
  answersHead := answersHead
  native := .done
  readAdmitted _ := true
  writeAdmitted := true
  reads _ := true
  writes := true

/-- `twoChunks` under another nonce. -/
def otherChunks : Envelope :=
  { twoChunks with baseNonce := replicate 12 1, length_baseNonce := by decide }

/-- A data key for each of the two envelopes. -/
def keyPair : Encryptor where
  keys :=
    { unwrapDEK := fun wrapped _ => .ok wrapped
      newGCM := fun dek => .ok (tableAEAD [if dek = [1] then twoChunks else otherChunks]) }
  chunkSize := 1
  chunkSize_pos := Nat.one_pos
  generateAndWrapDEK := .ok ([1], [1], "")
  baseNonce := twoChunks.baseNonce

/-- A copy of the pair on each backend, sealed under a data key of its own. -/
def sealedOn (backend : String) : ObjectLocation where
  objectKey := "k"
  backendName := backend
  storageKey := "k@1"
  sizeBytes := 90
  storedForm :=
    { encrypted := true
      encryptionKey :=
        if backend = "a" then packKeyData twoChunks.baseNonce [1]
        else packKeyData otherChunks.baseNonce [2]
      plaintextSize := 2 }

/-- The bytes of the two sealed copies. -/
def sealedBytes (backend : String) : Octets :=
  if backend = "a" then twoChunks.bytes (tableAEAD [twoChunks])
  else otherChunks.bytes (tableAEAD [otherChunks])

theorem sealed_hold (answersHead : String → Bool) :
    ∀ loc ∈ clientLocations [sealedOn "a", sealedOn "b"],
      Holds (worldOf sealedBytes answersHead) "k" (some keyPair) (some trailerCodec) [1, 2]
        loc := by
  intro loc hloc
  rcases mem_pair.mp (show loc ∈ [sealedOn "a", sealedOn "b"] from hloc) with rfl | rfl
  · exact ⟨_, rfl, by decide, by rfl⟩
  · exact ⟨_, rfl, by decide, by rfl⟩

theorem sealed_keysApart (answersHead : String → Bool) :
    KeysApart (worldOf sealedBytes answersHead) "k" (some keyPair)
      (clientLocations [sealedOn "a", sealedOn "b"]) := by
  intro a ha b hb bytes hbytes e he _ _ _ hne t ht
  rcases mem_pair.mp (show a ∈ [sealedOn "a", sealedOn "b"] from ha) with rfl | rfl <;>
    rcases mem_pair.mp (show b ∈ [sealedOn "a", sealedOn "b"] from hb) with rfl | rfl <;>
    cases hbytes
  · exact absurd rfl hne
  · obtain rfl := Except.ok.inj ht
    exact ⟨by decide, by decide⟩
  · obtain rfl := Except.ok.inj ht
    exact ⟨by decide, by decide⟩
  · exact absurd rfl hne

/-- The row of the copy on `b` describes it. That of the copy on `a`, which was sealed under another
data key, does not. -/
theorem sealed_copy_fits :
    (∀ c, copyObject (worldOf sealedBytes (· == "b")) "k" [sealedOn "a", sealedOn "b"] "d" "b" "d@3"
        none = some c → c.Fits (some keyPair) (some trailerCodec) [1, 2]) ∧
      (copyObject (worldOf sealedBytes (· == "b")) "k" [sealedOn "a", sealedOn "b"] "d" "b" "d@3"
        none).isSome = true ∧
      ¬∀ c, copyObject (worldOf sealedBytes fun _ => true) "k" [sealedOn "a", sealedOn "b"] "d" "b"
        "d@3" none = some c → c.Fits (some keyPair) (some trailerCodec) [1, 2] := by
  refine ⟨(copy_describes_iff (sealed_hold _)).1 ?_, by rfl, fun hfits => ?_⟩
  · intro head size src bytes hhead hsize hsource _
    cases hhead
    cases hsource
    exact ⟨rfl, rfl, fun _ => .inr ⟨keyPair, rfl, rfl⟩, .inl rfl⟩
  · obtain ⟨-, -, hkey, -⟩ := (copy_describes_iff (sealed_hold _)).2
      (fun c hc => Option.some.inj hc ▸ trailerCodec_passesFirstError) (sealed_keysApart _) hfits
      (sealedOn "a") 90 (sealedOn "b") (sealedBytes "b") rfl rfl rfl rfl
    rcases hkey rfl with hshort | ⟨e, he, hsame⟩
    · exact absurd hshort (by decide)
    · cases he
      exact absurd hsame (by decide)

/-- A compressed copy on one backend and a verbatim one on the other. -/
def encodedOn (backend : String) : ObjectLocation where
  objectKey := "k"
  backendName := backend
  storageKey := "k@1"
  sizeBytes := if backend = "a" then 4 else 2
  storedForm :=
    if backend = "a" then { compressionAlgorithm := "zstd", logicalSize := 2 } else {}

/-- The bytes of the two. -/
def encodedBytes (backend : String) : Octets := if backend = "a" then [1, 2, 0, 0] else [1, 2]

/-- `a` answers first, and the copy is made on `b`: a row for four bytes, compressed, over two bytes
that are not, though both copies hold the content. -/
theorem copied_as_the_other_copy :
    (∀ loc ∈ clientLocations [encodedOn "a", encodedOn "b"],
      Holds (worldOf encodedBytes fun _ => true) "k" none (some trailerCodec) [1, 2] loc) ∧
    ∃ c, copyObject (worldOf encodedBytes fun _ => true) "k" [encodedOn "a", encodedOn "b"] "d" "b"
        "d@3" none = some c ∧ c.row.sizeBytes = 4 ∧ c.bytes = [1, 2] ∧
      ¬Describes none (some trailerCodec) c.row.storedForm c.bytes [1, 2] := by
  refine ⟨fun loc hloc => ?_, _, rfl, by decide, by decide, ?_⟩
  · rcases mem_pair.mp (show loc ∈ [encodedOn "a", encodedOn "b"] from hloc) with rfl | rfl
    · exact ⟨[1, 2, 0, 0], rfl, by decide, by rfl⟩
    · exact ⟨[1, 2], rfl, by decide, by rfl⟩
  · intro h
    exact absurd h (by unfold Describes; decide)

end S3Orchestrator.Copying
