import S3Orchestrator.Lib.Paging
import S3Orchestrator.Listing.Page
import S3Orchestrator.Multipart.Completion

/-!
# Listing parts and uploads

The parts of an upload are listed by their numbers, a page after the number the request names. The
uploads of a bucket are listed by key and time, always from the first.

* **`multipart_listings_exact_iff`**.
-/

namespace S3Orchestrator.Multipart

open RowStore Listing Paging TextOrder List

/-! ## Requests -/

/-- The most parts or uploads of a response, and the page size if the client names none. -/
def listingPageLimit : Nat := 1000

def noCeiling : Nat := 2147483647

inductive ListError
  | invalidArgument (message : String)
  | errMultipartUploadNotFound
  deriving DecidableEq

inductive CountText
  | absent
  | malformed
  | value (v : Int)

def CountText.ofInt (n : Int) : CountText :=
  if -2147483648 ≤ n ∧ n ≤ 2147483647 then .value n else .malformed

def queryCount (param : String) (text : CountText) (absent ceiling : Nat) : Except ListError Nat :=
  let refused := ListError.invalidArgument
    ("Argument " ++ param ++ " must be an integer between 0 and 2147483647")
  match text with
  | .absent => .ok absent
  | .malformed => .error refused
  | .value v => if v < 0 then .error refused else .ok (min v.toNat ceiling)

/-! ## Parts -/

structure OpenUpload where
  uploadID : String
  objectKey : String
  contentType : String := ""
  createdAt : Time := 0
  deriving DecidableEq

def sameOpenUpload (a b : OpenUpload) : Bool := decide (a.uploadID = b.uploadID)

abbrev OpenUploads : Type := Table OpenUpload sameOpenUpload

def makeKey (bucket userKey : String) : String := bucket ++ "/" ++ userKey

def bucketPrefix (bucket : String) : String := bucket ++ "/"

def clientSize (form : StoredForm) (stored : Int) : Int :=
  if form.compressionAlgorithm ≠ "" then form.logicalSize
  else if form.encrypted then form.plaintextSize
  else stored

def clientPartETag (p : MultipartPart) : String :=
  if p.plaintextETag ≠ "" then "\"" ++ p.plaintextETag ++ "\"" else p.eTag

def presentToClient (p : MultipartPart) : MultipartPart :=
  { p with eTag := clientPartETag p, sizeBytes := clientSize p.storedForm p.sizeBytes }

structure PartInfo where
  partNumber : Int
  eTag : String
  size : Int
  lastModified : Time

def PartInfo.of (p : MultipartPart) : PartInfo := ⟨p.partNumber, p.eTag, p.sizeBytes, p.createdAt⟩

structure ListPartsResult where
  bucket : String
  key : String
  uploadId : String
  partNumberMarker : Nat
  nextPartNumberMarker : Int := 0
  maxParts : Nat
  isTruncated : Bool
  parts : List PartInfo := []

section Listings

variable (uploads : OpenUploads) (s : Ledger)

def fetchScopedUpload (bucket key uploadID : String) : Except ListError OpenUpload :=
  match uploads.rows.find? fun u => decide (u.uploadID = uploadID) with
  | none => .error .errMultipartUploadNotFound
  | some mu =>
    if mu.objectKey ≠ makeKey bucket key then .error .errMultipartUploadNotFound else .ok mu

def listPartsPage (bucket key uploadID : String) (partNumberMarker maxParts : Nat) :
    Except ListError (List MultipartPart × Bool) := do
  let _ ← fetchScopedUpload uploads bucket key uploadID
  let (parts, truncated) := trimPage (listParts s uploadID partNumberMarker (maxParts + 1)) maxParts
  .ok (parts.map presentToClient, truncated)

def handleListParts (bucket key uploadID : String) (maxPartsText markerText : CountText) :
    Except ListError ListPartsResult := do
  let maxParts ← queryCount "max-parts" maxPartsText listingPageLimit listingPageLimit
  let marker ← queryCount "part-number-marker" markerText 0 noCeiling
  let (parts, truncated) ← listPartsPage uploads s bucket key uploadID marker maxParts
  .ok
    { bucket := bucket
      key := key
      uploadId := uploadID
      partNumberMarker := marker
      nextPartNumberMarker := (parts.getLast?.map MultipartPart.partNumber).getD 0
      maxParts := maxParts
      isTruncated := truncated
      parts := parts.map PartInfo.of }

def ListPartsResult.next (r : ListPartsResult) : Option CountText :=
  if r.isTruncated then some (.ofInt r.nextPartNumberMarker) else none

/-! ## Uploads -/

structure ListUploadsRequest where
  keyPrefix : String := ""
  keyMarker : String := ""
  uploadIdMarker : String := ""
  maxUploads : CountText := .absent

structure XmlUpload where
  key : String
  uploadId : String
  initiated : Time
  deriving DecidableEq

def XmlUpload.of (bucket : String) (u : OpenUpload) : XmlUpload :=
  ⟨strip (bucketPrefix bucket) u.objectKey, u.uploadID, u.createdAt⟩

structure ListMultipartUploadsResult where
  bucket : String
  maxUploads : Nat
  isTruncated : Bool
  upload : List XmlUpload
  deriving DecidableEq

def listMultipartUploads (keyPrefix : String) (maxUploads : Nat) : List OpenUpload :=
  ((uploads.rows.filter fun u =>
    decide (keyPrefix ≤ u.objectKey ∧ u.objectKey < prefixEnd keyPrefix)).insertionSort
      fun a b => a.objectKey < b.objectKey ∨
        a.objectKey = b.objectKey ∧ a.createdAt ≤ b.createdAt).take maxUploads

def handleListMultipartUploads (bucket : String) (req : ListUploadsRequest) :
    Except ListError ListMultipartUploadsResult := do
  let maxUploads ← queryCount "max-uploads" req.maxUploads listingPageLimit listingPageLimit
  let (page, truncated) :=
    trimPage (listMultipartUploads uploads (bucketPrefix bucket) (maxUploads + 1)) maxUploads
  .ok
    { bucket := bucket
      maxUploads := maxUploads
      isTruncated := truncated
      upload := page.map (XmlUpload.of bucket) }

def firstRequest (keyPrefix : String) (maxUploads : CountText) : ListUploadsRequest :=
  { keyPrefix := keyPrefix, maxUploads := maxUploads }

def ListUploadsRequest.next (req : ListUploadsRequest) (r : ListMultipartUploadsResult) :
    Option ListUploadsRequest :=
  if r.isTruncated then some { req with keyMarker := "", uploadIdMarker := "" } else none

end Listings

/-! ## The numbers of recorded parts -/

def NumbersValid (s : Ledger) : Prop :=
  ∀ p ∈ s.multipartParts.rows, validPartNumber p.partNumber = true

theorem NumbersValid.apply (tx : TxAdapter) {s : Ledger} (hs : NumbersValid s) (op : Op) :
    NumbersValid (op.apply tx s) := by
  intro q hq
  obtain ⟨e, ho, happ⟩ := apply_outcome tx s op
  rcases happ.mem_parts.mp hq with ⟨hold, -⟩ | hnew
  · exact hs q hold
  · cases ho with
    | partRecorded hheld hupload =>
      rename_i p
      by_cases hvalid : validPartNumber p.partNumber = true
      · rw [mem_singleton.mp hnew]
        exact hvalid
      · -- The transaction refuses the number, and the row was there before.
        have hsame : (Op.recordPart p).apply tx s = s := by
          refine Op.apply_of_not_succeeds ?_
          simp only [Op.succeeds, recordPart, if_neg hvalid]
          rfl
        exact hs q (hsame ▸ hq)
    | _ => cases hnew

/-- **Every recorded part has a number from 1 to 10000** through any run of transactions. -/
theorem numbersValid_after (s : Ledger) (hs : NumbersValid s) (run : List (TxAdapter × Op)) :
    NumbersValid (after (fun s t => t.2.apply t.1 s) s run) :=
  (along_of_forall fun _ _ => trivial).invariant hs fun _ t hs _ => hs.apply t.1 t.2

/-! ## The parts above a marker -/

section Parts

variable {s : Ledger} {uploadID : String} {m : Int}

def partsAbove (s : Ledger) (uploadID : String) (m : Int) : List MultipartPart :=
  (s.multipartParts.rows.filter fun p =>
    decide (p.uploadID = uploadID ∧ m < p.partNumber)).insertionSort
      fun a b => a.partNumber ≤ b.partNumber

theorem mem_partsAbove {p : MultipartPart} : p ∈ partsAbove s uploadID m ↔
    p ∈ s.multipartParts.rows ∧ p.uploadID = uploadID ∧ m < p.partNumber := by
  rw [partsAbove, mem_insertionSort, mem_filter, decide_eq_true_eq]

theorem nodup_partsAbove : (partsAbove s uploadID m).Nodup := by
  have hrows : s.multipartParts.rows.Nodup := s.multipartParts.nodup fun q => by simp [samePart]
  exact (perm_insertionSort _ _).nodup_iff.mpr (hrows.filter _)

theorem sorted_partsAbove :
    (partsAbove s uploadID m).Pairwise fun a b => a.partNumber < b.partNumber := by
  have hle : (partsAbove s uploadID m).Pairwise fun a b => a.partNumber ≤ b.partNumber := by
    exact pairwise_insertionSort _ _
  refine (hle.and nodup_partsAbove).imp_of_mem fun {a b} ha hb h => lt_of_le_of_ne h.1 ?_
  intro heq
  obtain ⟨ha, haid, -⟩ := mem_partsAbove.mp ha
  obtain ⟨hb, hbid, -⟩ := mem_partsAbove.mp hb
  refine h.2 (s.multipartParts.eq_of_clash ha hb ?_ ?_) <;> simp [samePart, haid, hbid, heq]

theorem partsAbove_of_last {front back : List MultipartPart} {p : MultipartPart}
    (h : partsAbove s uploadID m = (front ++ [p]) ++ back) :
    partsAbove s uploadID p.partNumber = back := by
  have hsorted := h ▸ sorted_partsAbove
  have hnodup := h ▸ nodup_partsAbove
  obtain ⟨hfront, hback, hcross⟩ := pairwise_append.mp hsorted
  have hlast := (pairwise_append.mp hfront).2.2
  refine List.Perm.eq_of_pairwise (fun a b _ _ hab hba => absurd (hab.trans hba) (lt_irrefl _))
    sorted_partsAbove hback ?_
  refine (perm_ext_iff_of_nodup nodup_partsAbove hnodup.of_append_right).mpr fun q => ?_
  have hp : p ∈ partsAbove s uploadID m := by simp [h]
  constructor
  · intro hq
    obtain ⟨hrow, hid, hlt⟩ := mem_partsAbove.mp hq
    have hin : q ∈ partsAbove s uploadID m :=
      mem_partsAbove.mpr ⟨hrow, hid, (mem_partsAbove.mp hp).2.2.trans hlt⟩
    rw [h] at hin
    rcases mem_append.mp hin with hin | hin
    · rcases mem_append.mp hin with hin | hin
      · exact absurd (hlast q hin p (by simp)) (not_lt.mpr hlt.le)
      · rw [mem_singleton.mp hin] at hlt
        exact absurd hlt (lt_irrefl _)
    · exact hin
  · intro hq
    have hin : q ∈ partsAbove s uploadID m := by simp [h, hq]
    obtain ⟨hrow, hid, -⟩ := mem_partsAbove.mp hin
    exact mem_partsAbove.mpr ⟨hrow, hid, hcross p (by simp) q hq⟩

def partsLeft (s : Ledger) (uploadID : String) (marker : CountText) : List PartInfo :=
  match queryCount "part-number-marker" marker 0 noCeiling with
  | .ok m => (partsAbove s uploadID m).map fun p => PartInfo.of (presentToClient p)
  | .error _ => []

theorem queryCount_ofInt {n : Int} (h : validPartNumber n = true) :
    queryCount "part-number-marker" (.ofInt n) 0 noCeiling = .ok n.toNat ∧ (n.toNat : Int) = n := by
  have hrange : 1 ≤ n ∧ n ≤ 10000 := of_decide_eq_true h
  have htext : CountText.ofInt n = .value n := if_pos (by omega)
  have hmin : min n.toNat noCeiling = n.toNat := by
    rw [noCeiling]
    omega
  rw [htext]
  simp only [queryCount]
  rw [if_neg (by omega), hmin]
  exact ⟨rfl, by omega⟩

variable {uploads : OpenUploads} {bucket key : String}

theorem fetchScopedUpload_ok {mu : OpenUpload} (hmu : mu ∈ uploads.rows)
    (hid : mu.uploadID = uploadID) (hkey : mu.objectKey = makeKey bucket key) :
    fetchScopedUpload uploads bucket key uploadID = .ok mu := by
  have hfind : (uploads.rows.find? fun u => decide (u.uploadID = uploadID)) = some mu := by
    obtain ⟨u, hu⟩ : ∃ u,
        (uploads.rows.find? fun u => decide (u.uploadID = uploadID)) = some u := by
      rw [← Option.isSome_iff_exists, find?_isSome]
      exact ⟨mu, hmu, decide_eq_true hid⟩
    have huid : u.uploadID = uploadID := by simpa using find?_some hu
    have hsame : u = mu := by
      refine uploads.eq_of_clash (mem_of_find?_eq_some hu) hmu ?_ ?_ <;>
        simp [sameOpenUpload, huid, hid]
    rw [hu, hsame]
  rw [fetchScopedUpload, hfind]
  simp only [hkey, ne_eq, not_true_eq_false, if_false]

section Pages

variable {mu : OpenUpload} {size : CountText} {n : Nat}
  (hmu : mu ∈ uploads.rows) (hid : mu.uploadID = uploadID)
  (hkey : mu.objectKey = makeKey bucket key)
  (hsize : queryCount "max-parts" size listingPageLimit listingPageLimit = .ok n)

include hmu hid hkey hsize

theorem handleListParts_ok {marker : CountText} {m : Nat}
    (hm : queryCount "part-number-marker" marker 0 noCeiling = .ok m) :
    handleListParts uploads s bucket key uploadID size marker = .ok
      { bucket := bucket
        key := key
        uploadId := uploadID
        partNumberMarker := m
        nextPartNumberMarker :=
          (((partsAbove s uploadID m).take n).getLast?.map MultipartPart.partNumber).getD 0
        maxParts := n
        isTruncated := decide (n < (partsAbove s uploadID m).length)
        parts := ((partsAbove s uploadID m).take n).map fun p =>
          PartInfo.of (presentToClient p) } := by
  have htrim : trimPage (listParts s uploadID m (n + 1)) n =
      ((partsAbove s uploadID m).take n, decide (n < (partsAbove s uploadID m).length)) := by
    have hlist : listParts s uploadID m (n + 1) = (partsAbove s uploadID m).take (n + 1) := rfl
    rw [hlist, trimPage_of_length length_take, take_take, Nat.min_eq_left (Nat.le_succ n)]
  simp only [handleListParts, hsize, hm, listPartsPage, fetchScopedUpload_ok hmu hid hkey, bind,
    Except.bind, htrim]
  rw [getLast?_map, Option.map_map, map_map]
  rfl

/-- **A page of parts holds the first of those its marker leaves, and its own marker leaves the
rest.** -/
theorem listParts_advances (hvalid : NumbersValid s) (hn : 0 < n) :
    Advances (handleListParts uploads s bucket key uploadID size) ListPartsResult.next
      ListPartsResult.parts (partsLeft s uploadID)
      fun marker => ∃ m, queryCount "part-number-marker" marker 0 noCeiling = .ok m := by
  rintro marker ⟨m, hm⟩
  have hleft : partsLeft s uploadID marker =
      (partsAbove s uploadID m).map fun p => PartInfo.of (presentToClient p) := by
    rw [partsLeft, hm]
  refine ⟨_, handleListParts_ok hmu hid hkey hsize hm, ?_⟩
  by_cases hmore : n < (partsAbove s uploadID m).length
  · right
    have hne : (partsAbove s uploadID m).take n ≠ [] := by
      rw [← length_pos_iff, length_take]
      omega
    obtain ⟨front, p, hfront⟩ : ∃ front p, (partsAbove s uploadID m).take n = front ++ [p] :=
      ⟨_, _, (dropLast_append_getLast hne).symm⟩
    have hsplit : partsAbove s uploadID m = (front ++ [p]) ++ (partsAbove s uploadID m).drop n := by
      rw [← hfront, take_append_drop]
    have hp : p ∈ partsAbove s uploadID m := by
      rw [hsplit]
      simp
    obtain ⟨hcount, hcast⟩ := queryCount_ofInt (hvalid p (mem_partsAbove.mp hp).1)
    refine ⟨.ofInt p.partNumber, ?_, ⟨_, hcount⟩, by simpa using hne, ?_⟩
    · simp [ListPartsResult.next, hmore, hfront]
    · rw [hleft, partsLeft, hcount]
      dsimp only
      rw [hcast, partsAbove_of_last hsplit, ← map_append, take_append_drop]
  · left
    rw [ListPartsResult.next, hleft, take_of_length_le (not_lt.mp hmore)]
    simp [hmore]

end Pages

end Parts

/-! ## The uploads of a bucket -/

section Uploads

variable {uploads : OpenUploads} {bucket : String}

def Under (bucket keyPrefix : String) (u : OpenUpload) : Prop :=
  (makeKey bucket keyPrefix).toList <+: u.objectKey.toList
  deriving Decidable

def uploadsOf (uploads : OpenUploads) (bucket : String) : List OpenUpload :=
  uploads.rows.filter fun u => decide (Under bucket "" u)

theorem inRange_iff (u : OpenUpload) :
    (bucketPrefix bucket ≤ u.objectKey ∧ u.objectKey < prefixEnd (bucketPrefix bucket)) ↔
      Under bucket "" u := by
  have hsplit : (bucketPrefix bucket).toList = bucket.toList ++ ['/'] := by
    rw [bucketPrefix, String.toList_append]
    rfl
  have hunder : Under bucket "" u ↔ (bucketPrefix bucket).toList <+: u.objectKey.toList := by
    rw [Under, makeKey, bucketPrefix, String.append_empty]
  rw [← not_le, prefixEnd_le_iff_of_last hsplit (by decide), hunder]
  constructor
  · rintro ⟨hle, hnot⟩
    by_contra hout
    exact hnot ⟨hle, hout⟩
  · intro h
    refine ⟨?_, fun hnot => hnot.2 h⟩
    rw [← not_lt, String.lt_iff_toList_lt, not_lt]
    exact le_of_isPrefix h

def uploadsInOrder (uploads : OpenUploads) (bucket : String) : List OpenUpload :=
  (uploads.rows.filter fun u => decide (bucketPrefix bucket ≤ u.objectKey ∧
    u.objectKey < prefixEnd (bucketPrefix bucket))).insertionSort
      fun a b => a.objectKey < b.objectKey ∨
        a.objectKey = b.objectKey ∧ a.createdAt ≤ b.createdAt

theorem uploadsInOrder_perm (uploads : OpenUploads) (bucket : String) :
    (uploadsInOrder uploads bucket).Perm (uploadsOf uploads bucket) := by
  refine (perm_insertionSort _ _).trans (List.Perm.of_eq (filter_congr fun u _ => ?_))
  rw [decide_eq_decide]
  exact inRange_iff u

variable {keyPrefix : String} {u : OpenUpload} {n : Nat}

theorem handleListMultipartUploads_ok {req : ListUploadsRequest}
    (hsize : queryCount "max-uploads" req.maxUploads listingPageLimit listingPageLimit = .ok n) :
    handleListMultipartUploads uploads bucket req = .ok
      { bucket := bucket
        maxUploads := n
        isTruncated := decide (n < (uploadsOf uploads bucket).length)
        upload := ((uploadsInOrder uploads bucket).take n).map (XmlUpload.of bucket) } := by
  have htrim : trimPage (listMultipartUploads uploads (bucketPrefix bucket) (n + 1)) n =
      ((uploadsInOrder uploads bucket).take n, decide (n < (uploadsOf uploads bucket).length)) := by
    have hlist : listMultipartUploads uploads (bucketPrefix bucket) (n + 1) =
        (uploadsInOrder uploads bucket).take (n + 1) := rfl
    rw [hlist, trimPage_of_length length_take, take_take,
      Nat.min_eq_left (Nat.le_succ n), (uploadsInOrder_perm uploads bucket).length_eq]
  simp only [handleListMultipartUploads, hsize, bind, Except.bind, htrim]

def EachOnce (uploads : OpenUploads) (bucket keyPrefix : String)
    (pages : List ListMultipartUploadsResult) : Prop :=
  ∀ u ∈ uploads.rows, Under bucket keyPrefix u →
    (pages.flatMap ListMultipartUploadsResult.upload).count (XmlUpload.of bucket u) = 1

def NothingElse (uploads : OpenUploads) (bucket keyPrefix : String)
    (pages : List ListMultipartUploadsResult) : Prop :=
  ∀ x ∈ pages.flatMap ListMultipartUploadsResult.upload,
    ∃ u ∈ uploads.rows, Under bucket keyPrefix u ∧ x = XmlUpload.of bucket u

theorem under_bucket (h : Under bucket keyPrefix u) : Under bucket "" u := by
  refine List.IsPrefix.trans ?_ h
  simp [makeKey]

theorem eq_of_xmlUpload {u v : OpenUpload} (hu : u ∈ uploads.rows) (hv : v ∈ uploads.rows)
    (h : XmlUpload.of bucket u = XmlUpload.of bucket v) : u = v := by
  have hid : u.uploadID = v.uploadID := congrArg XmlUpload.uploadId h
  refine uploads.eq_of_clash hu hv ?_ ?_ <;> simp [sameOpenUpload, hid]

theorem mem_uploadsOf : u ∈ uploadsOf uploads bucket ↔ u ∈ uploads.rows ∧ Under bucket "" u := by
  rw [uploadsOf, mem_filter, decide_eq_true_eq]

theorem nodup_uploadsOf : (uploadsOf uploads bucket).Nodup :=
  (uploads.nodup fun u => by simp [sameOpenUpload]).filter _

def onePage (uploads : OpenUploads) (bucket : String) (n : Nat) : ListMultipartUploadsResult :=
  ⟨bucket, n, false, (uploadsInOrder uploads bucket).map (XmlUpload.of bucket)⟩

/-- **The uploads of a bucket are followed to an end just if they fit a page, and then that page
holds them all, whatever the prefix.** -/
theorem follows_uploads_iff {size : CountText}
    (hsize : queryCount "max-uploads" size listingPageLimit listingPageLimit = .ok n)
    {pages : List ListMultipartUploadsResult} :
    Follows (handleListMultipartUploads uploads bucket) (firstRequest keyPrefix size).next
        (firstRequest keyPrefix size) pages ↔
      (uploadsOf uploads bucket).length ≤ n ∧ pages = [onePage uploads bucket n] := by
  have hok : handleListMultipartUploads uploads bucket (firstRequest keyPrefix size) = _ :=
    handleListMultipartUploads_ok hsize
  by_cases hfits : (uploadsOf uploads bucket).length ≤ n
  · have hlength := (uploadsInOrder_perm uploads bucket).length_eq
    rw [decide_eq_false (not_lt.mpr hfits), take_of_length_le (by omega)] at hok
    rw [follows_of_last hok rfl]
    simp [hfits, onePage]
  · -- The page leads to the request it answers.
    rw [decide_eq_true (not_le.mp hfits)] at hok
    exact iff_of_false (fun h => h.ne_of_loop hok rfl rfl) fun h => hfits h.1

theorem count_onePage (n : Nat) (hu : u ∈ uploads.rows) (hunder : Under bucket "" u) :
    (onePage uploads bucket n).upload.count (XmlUpload.of bucket u) = 1 := by
  have hperm := uploadsInOrder_perm uploads bucket
  have hin : ∀ v ∈ uploadsInOrder uploads bucket, v ∈ uploads.rows := fun v hv =>
    (mem_uploadsOf.mp (hperm.subset hv)).1
  have hnodup : ((uploadsInOrder uploads bucket).map (XmlUpload.of bucket)).Nodup :=
    (hperm.nodup_iff.mpr nodup_uploadsOf).map_on fun v hv w hw h =>
      eq_of_xmlUpload (hin v hv) (hin w hw) h
  exact count_eq_one_of_mem hnodup
    (mem_map_of_mem (hperm.symm.subset (mem_uploadsOf.mpr ⟨hu, hunder⟩)))

theorem eachOnce_onePage (n : Nat) :
    EachOnce uploads bucket keyPrefix [onePage uploads bucket n] := by
  intro u hu hunder
  rw [flatMap_singleton]
  exact count_onePage n hu (under_bucket hunder)

theorem nothingElse_onePage_iff : NothingElse uploads bucket keyPrefix [onePage uploads bucket n] ↔
      ∀ u ∈ uploadsOf uploads bucket, Under bucket keyPrefix u := by
  have hperm := uploadsInOrder_perm uploads bucket
  rw [NothingElse, flatMap_singleton]
  constructor
  · intro h u hu
    obtain ⟨v, hv, hunder, hsame⟩ := h _ (mem_map_of_mem (hperm.symm.subset hu))
    rw [eq_of_xmlUpload (mem_uploadsOf.mp hu).1 hv hsame]
    exact hunder
  · intro h x hx
    obtain ⟨u, hu, rfl⟩ := mem_map.mp hx
    have hof := hperm.subset hu
    exact ⟨u, (mem_uploadsOf.mp hof).1, h u hof, rfl⟩

end Uploads

/-! ## Listings followed to their end -/

/-- **Following the markers enumerates every part of an upload once and in order. The uploads of a
bucket are enumerated just where a page holds them all, and nothing else is listed just where they
are all under the prefix besides.** -/
theorem multipart_listings_exact_iff (uploads : OpenUploads) (s : Ledger) (hvalid : NumbersValid s)
    (bucket : String) :
    (∀ key uploadID, ∀ mu ∈ uploads.rows, mu.uploadID = uploadID →
      mu.objectKey = makeKey bucket key → ∀ size n,
      queryCount "max-parts" size listingPageLimit listingPageLimit = .ok n → 0 < n →
      ∃ pages, Follows (handleListParts uploads s bucket key uploadID size) ListPartsResult.next
          .absent pages ∧
        (pages.flatMap ListPartsResult.parts).Pairwise (fun a b => a.partNumber < b.partNumber) ∧
        ∀ x, x ∈ pages.flatMap ListPartsResult.parts ↔
          ∃ p ∈ s.multipartParts.rows, p.uploadID = uploadID ∧
            x = PartInfo.of (presentToClient p)) ∧
    ∀ keyPrefix size n,
      queryCount "max-uploads" size listingPageLimit listingPageLimit = .ok n → 0 < n →
      ((∃ pages, Follows (handleListMultipartUploads uploads bucket)
            (firstRequest keyPrefix size).next (firstRequest keyPrefix size) pages ∧
          EachOnce uploads bucket keyPrefix pages) ↔
        (uploadsOf uploads bucket).length ≤ n) ∧
      ((∃ pages, Follows (handleListMultipartUploads uploads bucket)
            (firstRequest keyPrefix size).next (firstRequest keyPrefix size) pages ∧
          EachOnce uploads bucket keyPrefix pages ∧
          NothingElse uploads bucket keyPrefix pages) ↔
        (uploadsOf uploads bucket).length ≤ n ∧
          ∀ u ∈ uploadsOf uploads bucket, Under bucket keyPrefix u) := by
  refine ⟨fun key uploadID mu hmu hid hkey size n hsize hn => ?_,
    fun keyPrefix size n hsize hn => ⟨⟨?_, fun hfits => ?_⟩, ⟨?_, ?_⟩⟩⟩
  · obtain ⟨pages, hfollows, hall⟩ :=
      (listParts_advances hmu hid hkey hsize hvalid hn).exists_follows (c := .absent) ⟨0, rfl⟩
    have hleft : partsLeft s uploadID .absent =
        (partsAbove s uploadID 0).map fun p => PartInfo.of (presentToClient p) := rfl
    refine ⟨pages, hfollows, ?_, fun x => ?_⟩
    · rw [hall, hleft, pairwise_map]
      exact sorted_partsAbove
    · rw [hall, hleft, mem_map]
      constructor
      · rintro ⟨p, hp, rfl⟩
        obtain ⟨hrow, hpid, -⟩ := mem_partsAbove.mp hp
        exact ⟨p, hrow, hpid, rfl⟩
      · rintro ⟨p, hrow, hpid, rfl⟩
        have hrange : 1 ≤ p.partNumber ∧ p.partNumber ≤ 10000 := of_decide_eq_true (hvalid p hrow)
        exact ⟨p, mem_partsAbove.mpr ⟨hrow, hpid, by omega⟩, rfl⟩
  · rintro ⟨pages, hfollows, -⟩
    exact ((follows_uploads_iff hsize).mp hfollows).1
  · exact ⟨_, (follows_uploads_iff hsize).mpr ⟨hfits, rfl⟩, eachOnce_onePage n⟩
  · rintro ⟨pages, hfollows, -, hnothing⟩
    obtain ⟨hfits, rfl⟩ := (follows_uploads_iff hsize).mp hfollows
    exact ⟨hfits, nothingElse_onePage_iff.mp hnothing⟩
  · rintro ⟨hfits, hall⟩
    exact ⟨_, (follows_uploads_iff hsize).mpr ⟨hfits, rfl⟩, eachOnce_onePage n,
      nothingElse_onePage_iff.mpr hall⟩

/-! ### Uploads on which it shows -/

def twoUploads : OpenUploads where
  rows := [{ uploadID := "u1", objectKey := "b/k" }, { uploadID := "u2", objectKey := "b/k" }]
  distinct := by decide

/-- With a page size of one, the page of two uploads leads to itself: the second upload is never
listed. -/
theorem second_upload_never_listed :
    handleListMultipartUploads twoUploads "b" (firstRequest "" (.value 1)) =
      .ok ⟨"b", 1, true, [⟨"k", "u1", 0⟩]⟩ ∧
    (firstRequest "" (.value 1)).next ⟨"b", 1, true, [⟨"k", "u1", 0⟩]⟩ =
      some (firstRequest "" (.value 1)) ∧
    ¬ ∃ pages, Follows (handleListMultipartUploads twoUploads "b")
      (firstRequest "" (.value 1)).next (firstRequest "" (.value 1)) pages := by
  have hpage : handleListMultipartUploads twoUploads "b" (firstRequest "" (.value 1)) =
      .ok ⟨"b", 1, true, [⟨"k", "u1", 0⟩]⟩ := by decide +kernel
  refine ⟨hpage, rfl, ?_⟩
  rintro ⟨pages, hfollows⟩
  exact hfollows.ne_of_loop hpage rfl rfl

def threeParts : Ledger where
  multipartParts :=
    { rows := [{ uploadID := "u1", partNumber := 3 }, { uploadID := "u1", partNumber := 1 },
        { uploadID := "u2", partNumber := 2 }]
      distinct := by decide }

def seventhIntent : PendingObject where
  intentID := "w"
  objectKey := "__multipart/u2/7"
  storageKey := "__multipart/u2/7!w"
  backendName := "b"

def openUploadParts : Ledger where
  multipartUploads := { rows := [⟨"u2", "b", 0⟩], distinct := by decide }
  multipartParts := threeParts.multipartParts
  pendingObjects := { rows := [seventhIntent], distinct := by decide }

def recordNumber (n : Int) : TxAdapter × Op :=
  ({ now := 1 }, .recordPart
    { uploadID := "u2", partNumber := n, sizeBytes := 0, intent := seventhIntent })

/-- Part 10001 is refused, part 7 recorded. -/
theorem threeParts_numbersValid_after :
    let s := RowStore.after (fun s (t : TxAdapter × Op) => t.2.apply t.1 s) openUploadParts
      [recordNumber 10001, recordNumber 7]
    NumbersValid s ∧ s.multipartParts.rows.map MultipartPart.partNumber = [3, 1, 2, 7] :=
  ⟨numbersValid_after openUploadParts (by unfold NumbersValid; decide) _, by decide +kernel⟩

/-- Two parts in pages of one, and two uploads in a page of two. -/
theorem parts_and_uploads_listed :
    (∃ pages, Follows (handleListParts twoUploads threeParts "b" "k" "u1" (.value 1))
        ListPartsResult.next .absent pages ∧
      (pages.flatMap ListPartsResult.parts).Pairwise (fun a b => a.partNumber < b.partNumber)) ∧
    ∃ pages, Follows (handleListMultipartUploads twoUploads "b")
      (firstRequest "" (.value 2)).next (firstRequest "" (.value 2)) pages ∧
      EachOnce twoUploads "b" "" pages := by
  obtain ⟨hparts, huploads⟩ := multipart_listings_exact_iff twoUploads threeParts
    (by unfold NumbersValid; decide) "b"
  obtain ⟨pages, hfollows, hsorted, -⟩ := hparts "k" "u1" { uploadID := "u1", objectKey := "b/k" }
    (by decide) rfl (by decide) (.value 1) 1 rfl (by decide)
  have hfits : (uploadsOf twoUploads "b").length ≤ 2 := by decide +kernel
  exact ⟨⟨pages, hfollows, hsorted⟩, (huploads "" (.value 2) 2 rfl (by decide)).1.mpr hfits⟩

end S3Orchestrator.Multipart
