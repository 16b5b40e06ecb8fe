import S3Orchestrator.Object.Get

/-!
# Conditional reads

A GET or HEAD gives an object's write time as `Last-Modified`, which has whole seconds, and a client
sends it back to ask whether the object is still the one it has. The checks compare what they are
sent with the write time itself.

* **`roundTrips_iff`**.
-/

namespace S3Orchestrator.Conditional

open HttpRange

/-! ## Dates -/

def second : Time := 1000000000

def yearTenThousand : Time := 315537897600 * second

/-- The dates of HTTP: a date of a year with four digits is read back as the second it lies in. -/
structure HttpTime where
  format : Time → String
  parseTime : String → Option Time
  format_ne : ∀ t, format t ≠ ""
  parse_format : ∀ t < yearTenThousand, parseTime (format t) = some (t - t % second)

/-! ## The checks -/

structure Conditions where
  ifMatch : String := ""
  ifNoneMatch : String := ""
  ifModifiedSince : String := ""
  ifUnmodifiedSince : String := ""
  ifRange : String := ""
  range : String := ""

section Checks

variable (http : HttpTime)

def checkIfMatch (im etag : String) : Option Nat :=
  if im = "" ∨ etag = "" then none
  else if im ≠ etag ∧ im ≠ "*" then some 412
  else none

def checkIfUnmodifiedSince (r : Conditions) (lastModified : Time) : Option Nat :=
  if r.ifUnmodifiedSince = "" ∨ r.ifMatch ≠ "" then none
  else
    match http.parseTime r.ifUnmodifiedSince with
    | none => none
    | some t => if lastModified ≠ 0 ∧ t < lastModified then some 412 else none

def checkIfNoneMatch (inm etag : String) : Option Nat :=
  if inm = "" ∨ etag = "" then none
  else if inm = etag ∨ inm = "*" then some 304
  else none

def checkIfModifiedSince (ims inm : String) (lastModified : Time) : Option Nat :=
  if ims = "" ∨ inm ≠ "" then none
  else
    match http.parseTime ims with
    | none => none
    | some t => if lastModified ≠ 0 ∧ ¬ t < lastModified then some 304 else none

def checkConditionals (r : Conditions) (etag : String) (lastModified : Time) : Option Nat :=
  checkIfMatch r.ifMatch etag <|>
  checkIfUnmodifiedSince http r lastModified <|>
  checkIfNoneMatch r.ifNoneMatch etag <|>
  checkIfModifiedSince http r.ifModifiedSince r.ifNoneMatch lastModified

def hasConditionals (r : Conditions) : Bool :=
  r.ifMatch != "" || r.ifNoneMatch != "" || r.ifModifiedSince != "" || r.ifUnmodifiedSince != ""

def ifRangeMatches (r : Conditions) (etag : String) (lastModified : Time) : Bool :=
  if r.ifRange = "" then true
  else
    match http.parseTime r.ifRange with
    | some t => decide (lastModified ≠ 0 ∧ lastModified = t)
    | none =>
      if "W/".toList.isPrefixOf r.ifRange.toList || etag == "" then false else r.ifRange == etag

end Checks

/-! ## The requests -/

structure Representation where
  contentType : String := ""
  etag : String := ""
  lastModified : Time := 0
  metadata : List (String × String) := []
  size : Int := 0
  contentRange : String := ""
  body : List UInt8 := []
  deriving DecidableEq

structure Objects (ε : Type) where
  headObject : Except ε Representation
  getObject : String → Except ε Representation

structure ValidatorHeaders where
  etag : Option String := none
  lastModified : Option String := none
  deriving DecidableEq

/-- An answer: its status and validators, and what its body is read from, if it has one. -/
structure Response where
  status : Nat
  validators : ValidatorHeaders
  sent : Option Representation := none
  deriving DecidableEq

section Requests

variable {ε : Type} (http : HttpTime)

def setValidatorHeaders (w : ValidatorHeaders) (etag : String) (lastModified : Time) :
    ValidatorHeaders where
  etag := if etag ≠ "" then some etag else w.etag
  lastModified := if lastModified ≠ 0 then some (http.format lastModified) else w.lastModified

def validatorsOf (r : Representation) : ValidatorHeaders :=
  setValidatorHeaders http {} r.etag r.lastModified

def handleHead (o : Objects ε) (r : Conditions) : Except ε Response :=
  match o.headObject with
  | .error e => .error e
  | .ok result =>
    match checkConditionals http r result.etag result.lastModified with
    | some status => .ok { status := status, validators := validatorsOf http result }
    | none => .ok { status := 200, validators := validatorsOf http result }

def answerConditionalFromHead (o : Objects ε) (r : Conditions) : Option Response :=
  if hasConditionals r = false then none
  else
    match o.headObject with
    | .error _ => none
    | .ok head =>
      (checkConditionals http r head.etag head.lastModified).map fun status =>
        { status := status, validators := validatorsOf http head }

def sendObject (w : ValidatorHeaders) (result : Representation) : Response where
  status := if result.contentRange ≠ "" then 206 else 200
  validators := w
  sent := some result

def handleGet (o : Objects ε) (r : Conditions) : Except ε Response :=
  match answerConditionalFromHead http o r with
  | some response => .ok response
  | none =>
    match o.getObject r.range with
    | .error e => .error e
    | .ok result =>
      match checkConditionals http r result.etag result.lastModified with
      | some status => .ok { status := status, validators := validatorsOf http result }
      | none =>
        if r.range ≠ "" ∧ ifRangeMatches http r result.etag result.lastModified = false then
          -- the partial body is discarded, and the object read again in full
          match o.getObject "" with
          | .error e => .error e
          | .ok full =>
            .ok (sendObject
              (setValidatorHeaders http (validatorsOf http result) full.etag full.lastModified)
              full)
        else .ok (sendObject (validatorsOf http result) result)

/-! ## Reads of an object with a row -/

def resolveLastModified (backendValue : Time) (loc : Option ObjectLocation) : Time :=
  match loc with
  | some loc => if loc.createdAt ≠ 0 then loc.createdAt else backendValue
  | none => backendValue

def complete : Option ObjectIdentity → Option ObjectIdentity
  | some id => if id.eTag ≠ "" then some id else none
  | none => none

def headFromMetadata (loc : ObjectLocation) : Option Representation :=
  match complete loc.identity, Getting.validateEncryptionMetadata loc with
  | some id, .ok _ => some
    { contentType := id.contentType
      etag := id.eTag
      lastModified := loc.createdAt
      metadata := id.userMetadata
      size := Getting.objectSize loc }
  | _, _ => none

def applyStoredIdentity (res : Representation) (loc : ObjectLocation) : Representation :=
  match complete loc.identity with
  | none => res
  | some id =>
    { res with
      etag := id.eTag
      contentType := if id.contentType ≠ "" then id.contentType else res.contentType }

def layered (f : StoredForm) : Bool :=
  StoredFlags.has f.form storedCompressed || StoredFlags.has f.form storedEncrypted

def Objects.stored (backend : Objects ε) (loc : ObjectLocation) : Objects ε where
  headObject :=
    match headFromMetadata loc with
    | some r => .ok r
    | none => backend.headObject.map fun r =>
      { r with
        size := if layered loc.storedForm then Getting.objectSize loc else r.size
        lastModified := resolveLastModified r.lastModified (some loc) }
  getObject := fun range => (backend.getObject range).map fun r =>
    applyStoredIdentity { r with lastModified := resolveLastModified r.lastModified (some loc) } loc

def Objects.Readable (o : Objects ε) : Prop :=
  (∃ r, o.headObject = .ok r) ∧ ∃ r, o.getObject "" = .ok r

def Objects.WrittenAt (o : Objects ε) (t : Time) : Prop :=
  (∀ r, o.headObject = .ok r → r.lastModified = t) ∧
  ∀ range r, o.getObject range = .ok r → r.lastModified = t

variable {loc : ObjectLocation}

theorem resolveLastModified_stored (h : loc.createdAt ≠ 0) (t : Time) :
    resolveLastModified t (some loc) = loc.createdAt := if_pos h

@[simp] theorem lastModified_applyStoredIdentity (res : Representation) (loc : ObjectLocation) :
    (applyStoredIdentity res loc).lastModified = res.lastModified := by
  unfold applyStoredIdentity
  cases complete loc.identity <;> rfl

theorem lastModified_headFromMetadata {r : Representation} (h : headFromMetadata loc = some r) :
    r.lastModified = loc.createdAt := by
  unfold headFromMetadata at h
  split at h
  · cases h
    rfl
  · cases h

theorem Objects.writtenAt_stored (backend : Objects ε) (h : loc.createdAt ≠ 0) :
    (backend.stored loc).WrittenAt loc.createdAt := by
  constructor
  · intro r hr
    unfold Objects.stored at hr
    cases hmeta : headFromMetadata loc with
    | some head =>
      simp only [hmeta, Except.ok.injEq] at hr
      exact hr ▸ lastModified_headFromMetadata hmeta
    | none =>
      simp only [hmeta] at hr
      cases hhead : backend.headObject with
      | error e => simp [hhead, Except.map] at hr
      | ok head =>
        simp only [hhead, Except.map, Except.ok.injEq] at hr
        exact hr ▸ resolveLastModified_stored h _
  · intro range r hr
    unfold Objects.stored at hr
    cases hget : backend.getObject range with
    | error e => simp [hget, Except.map] at hr
    | ok result =>
      simp only [hget, Except.map, Except.ok.injEq] at hr
      rw [← hr, lastModified_applyStoredIdentity]
      exact resolveLastModified_stored h _

end Requests

/-! ## The value a client was given -/

section Given

variable {ε : Type} {http : HttpTime} {o : Objects ε} {written : Time}

def Gave (http : HttpTime) (o : Objects ε) (value : String) : Prop :=
  ∃ r response, (handleGet http o r = .ok response ∨ handleHead http o r = .ok response) ∧
    response.validators.lastModified = some value

theorem lastModified_validatorsOf (http : HttpTime) {r : Representation}
    (h : r.lastModified = written) (hne : written ≠ 0) :
    (validatorsOf http r).lastModified = some (http.format written) := by
  simp [validatorsOf, setValidatorHeaders, h, hne]

variable {response : Response} {r : Conditions} (ho : o.WrittenAt written) (hne : written ≠ 0)
include ho hne

theorem lastModified_handleHead (h : handleHead http o r = .ok response) :
    response.validators.lastModified = some (http.format written) := by
  unfold handleHead at h
  cases hhead : o.headObject with
  | error e => simp [hhead] at h
  | ok result =>
    have hgiven := lastModified_validatorsOf http (ho.1 _ hhead) hne
    simp only [hhead] at h
    split at h
    · cases h
      exact hgiven
    · cases h
      exact hgiven

theorem lastModified_answerConditionalFromHead
    (h : answerConditionalFromHead http o r = some response) :
    response.validators.lastModified = some (http.format written) := by
  unfold answerConditionalFromHead at h
  split at h
  · cases h
  · cases hhead : o.headObject with
    | error e => simp [hhead] at h
    | ok head =>
      simp only [hhead, Option.map_eq_some_iff] at h
      obtain ⟨status, -, rfl⟩ := h
      exact lastModified_validatorsOf http (ho.1 _ hhead) hne

theorem lastModified_handleGet (h : handleGet http o r = .ok response) :
    response.validators.lastModified = some (http.format written) := by
  unfold handleGet at h
  split at h
  case h_1 answer hanswer =>
    cases h
    exact lastModified_answerConditionalFromHead ho hne hanswer
  case h_2 =>
    split at h
    case h_1 => cases h
    case h_2 result hget =>
      have hgiven := lastModified_validatorsOf http (ho.2 _ _ hget) hne
      split at h
      case h_1 =>
        cases h
        exact hgiven
      case h_2 =>
        split at h
        · split at h
          case h_1 => cases h
          case h_2 full hfull =>
            cases h
            simp [sendObject, setValidatorHeaders, ho.2 _ _ hfull, hne]
        · cases h
          exact hgiven

theorem gave_iff (hread : o.Readable) (value : String) :
    Gave http o value ↔ value = http.format written := by
  constructor
  · rintro ⟨r, response, h | h, hvalue⟩
    · rw [lastModified_handleGet ho hne h] at hvalue
      exact (Option.some.inj hvalue).symm
    · rw [lastModified_handleHead ho hne h] at hvalue
      exact (Option.some.inj hvalue).symm
  · rintro rfl
    obtain ⟨⟨result, hhead⟩, -⟩ := hread
    have hresponse : handleHead http o {} =
        .ok { status := 200, validators := validatorsOf http result } := by
      simp [handleHead, hhead, checkConditionals, checkIfMatch, checkIfUnmodifiedSince,
        checkIfNoneMatch, checkIfModifiedSince]
    exact ⟨{}, _, .inr hresponse, lastModified_validatorsOf http (ho.1 _ hhead) hne⟩

end Given

/-! ## Sending it back -/

section SentBack

variable {ε : Type} {http : HttpTime} {o : Objects ε} {written since : Time} {value : String}

def Reads (http : HttpTime) (value : String) (since : Time) : Prop :=
  value ≠ "" ∧ http.parseTime value = some since

theorem reads_format (http : HttpTime) {t : Time} (h : t < yearTenThousand) :
    Reads http (http.format t) (t - t % second) :=
  ⟨http.format_ne t, http.parse_format t h⟩

theorem check_ifRange (value range etag : String) (t : Time) :
    checkConditionals http { ifRange := value, range := range } etag t = none := by
  simp [checkConditionals, checkIfMatch, checkIfUnmodifiedSince, checkIfNoneMatch,
    checkIfModifiedSince]

section Given

variable (hvalue : Reads http value since) (hne : written ≠ 0)
include hvalue hne

theorem check_ifModifiedSince (range etag : String) :
    checkConditionals http { ifModifiedSince := value, range := range } etag written =
      if since < written then none else some 304 := by
  by_cases h : since < written <;>
    simp [checkConditionals, checkIfMatch, checkIfUnmodifiedSince, checkIfNoneMatch,
      checkIfModifiedSince, hvalue.1, hvalue.2, hne, h]

theorem check_ifUnmodifiedSince (range etag : String) :
    checkConditionals http { ifUnmodifiedSince := value, range := range } etag written =
      if since < written then some 412 else none := by
  by_cases h : since < written <;>
    simp [checkConditionals, checkIfMatch, checkIfUnmodifiedSince, checkIfNoneMatch,
      checkIfModifiedSince, hvalue.1, hvalue.2, hne, h]

theorem ifRangeMatches_eq (range etag : String) :
    ifRangeMatches http { ifRange := value, range := range } etag written =
      decide (written = since) := by
  simp [ifRangeMatches, hvalue.1, hvalue.2, hne]

end Given

variable {r : Conditions} (ho : o.WrittenAt written)
include ho

theorem handleGet_refused (hread : o.Readable) {status : Nat} (hcond : hasConditionals r = true)
    (hcheck : ∀ etag, checkConditionals http r etag written = some status) :
    ∃ response, handleGet http o r = .ok response ∧ response.status = status := by
  obtain ⟨⟨head, hhead⟩, -⟩ := hread
  have hanswer : answerConditionalFromHead http o r =
      some { status := status, validators := validatorsOf http head } := by
    simp [answerConditionalFromHead, hcond, hhead, ho.1 _ hhead, hcheck]
  exact ⟨{ status := status, validators := validatorsOf http head },
    by simp only [handleGet, hanswer], rfl⟩

theorem handleHead_refused (hread : o.Readable) {status : Nat}
    (hcheck : ∀ etag, checkConditionals http r etag written = some status) :
    ∃ response, handleHead http o r = .ok response ∧ response.status = status := by
  obtain ⟨⟨head, hhead⟩, -⟩ := hread
  exact ⟨{ status := status, validators := validatorsOf http head },
    by simp only [handleHead, hhead, ho.1 _ hhead, hcheck], rfl⟩

theorem handleGet_passed (hrange : r.ifRange = "")
    (hcheck : ∀ etag, checkConditionals http r etag written = none) :
    handleGet http o r = handleGet http o { range := r.range } := by
  have hfromHead : answerConditionalFromHead http o r = none := by
    cases hhead : o.headObject with
    | error e => simp [answerConditionalFromHead, hhead]
    | ok head => simp [answerConditionalFromHead, hhead, ho.1 _ hhead, hcheck]
  have hplain : answerConditionalFromHead http o { range := r.range } = none := by
    simp [answerConditionalFromHead, hasConditionals]
  simp only [handleGet, hfromHead, hplain]
  cases hget : o.getObject r.range with
  | error e => rfl
  | ok result =>
    simp only [ho.2 _ _ hget, hcheck, check_ifRange "" r.range]
    simp [ifRangeMatches, hrange]

theorem handleHead_passed (hcheck : ∀ etag, checkConditionals http r etag written = none) :
    handleHead http o r = handleHead http o {} := by
  unfold handleHead
  cases hhead : o.headObject with
  | error e => rfl
  | ok result => simp only [ho.1 _ hhead, hcheck, check_ifRange "" ""]

theorem handleGet_ifRange_kept (hvalue : Reads http value since) (hne : written ≠ 0)
    (heq : written = since) (range : String) :
    handleGet http o { ifRange := value, range := range } =
      handleGet http o { range := range } := by
  have hfromHead : ∀ v, answerConditionalFromHead http o { ifRange := v, range := range } = none :=
    fun v => by simp [answerConditionalFromHead, hasConditionals]
  simp only [handleGet, hfromHead]
  cases hget : o.getObject range with
  | error e => rfl
  | ok result =>
    simp only [ho.2 _ _ hget, check_ifRange, ifRangeMatches_eq hvalue hne]
    simp [heq, ifRangeMatches]

def Response.outcome (r : Response) : Nat × Option Representation := (r.status, r.sent)

theorem handleGet_ifRange_whole_iff (hread : o.Readable) (hvalue : Reads http value since)
    (hne : written ≠ 0) (hdiff : written ≠ since) (range : String) :
    (handleGet http o { ifRange := value, range := range }).map Response.outcome =
        (handleGet http o {}).map Response.outcome ↔
      ∃ result, o.getObject range = .ok result := by
  obtain ⟨-, full, hfull⟩ := hread
  have hfromHead : ∀ v rng,
      answerConditionalFromHead http o { ifRange := v, range := rng } = none :=
    fun v rng => by simp [answerConditionalFromHead, hasConditionals]
  have hwhole : handleGet http o {} = .ok (sendObject (validatorsOf http full) full) := by
    simp only [handleGet, hfromHead "" "", hfull, check_ifRange "" ""]
    simp
  rw [hwhole]
  by_cases hempty : range = ""
  · subst hempty
    refine iff_of_true ?_ ⟨full, hfull⟩
    simp only [handleGet, hfromHead, hfull, check_ifRange]
    simp
  · cases hget : o.getObject range with
    | error e =>
      refine iff_of_false ?_ (by rintro ⟨_, h⟩; cases h)
      simp [handleGet, hfromHead, hget, Except.map]
    | ok result =>
      refine iff_of_true ?_ ⟨result, rfl⟩
      simp only [handleGet, hfromHead, hget, ho.2 _ _ hget, check_ifRange,
        ifRangeMatches_eq hvalue hne]
      simp [hempty, hdiff, hfull, Except.map, Response.outcome, sendObject]

end SentBack

/-! ## The round trip -/

section RoundTrip

variable {ε : Type} (http : HttpTime)

/-- The value still stands for the object: it is not sent again, a change of it may go ahead, and a
range of it is given. -/
structure Stands (o : Objects ε) (value range : String) : Prop where
  notModified : ∃ response,
    handleGet http o { ifModifiedSince := value, range := range } = .ok response ∧
      response.status = 304
  headNotModified : ∃ response,
    handleHead http o { ifModifiedSince := value } = .ok response ∧ response.status = 304
  letThrough : handleGet http o { ifUnmodifiedSince := value, range := range } =
    handleGet http o { range := range }
  headLetThrough : handleHead http o { ifUnmodifiedSince := value } = handleHead http o {}
  rangeKept : handleGet http o { ifRange := value, range := range } =
    handleGet http o { range := range }

/-- The value does not stand for the object any more. -/
structure Replaced (o : Objects ε) (value range : String) : Prop where
  sent : handleGet http o { ifModifiedSince := value, range := range } =
    handleGet http o { range := range }
  headSent : handleHead http o { ifModifiedSince := value } = handleHead http o {}
  refused : ∃ response,
    handleGet http o { ifUnmodifiedSince := value, range := range } = .ok response ∧
      response.status = 412
  headRefused : ∃ response,
    handleHead http o { ifUnmodifiedSince := value } = .ok response ∧ response.status = 412
  wholeSent : (handleGet http o { ifRange := value, range := range }).map Response.outcome =
    (handleGet http o {}).map Response.outcome

/-- Every value a client is given stands for the object it was given for, and not for the one that
took its place. -/
def RoundTrips (o replacement : Objects ε) (range : String) : Prop :=
  ∀ value, Gave http o value → Stands http o value range ∧ Replaced http replacement value range

variable {http} {o : Objects ε} {written since : Time} {value : String}

theorem stands_iff (ho : o.WrittenAt written) (hread : o.Readable) (hne : written ≠ 0)
    (hvalue : Reads http value since) (hsince : since ≤ written) (range : String) :
    Stands http o value range ↔ written = since := by
  have hchecks := check_ifModifiedSince hvalue hne
  have hunmodified := check_ifUnmodifiedSince hvalue hne
  constructor
  · rintro ⟨⟨response, -⟩, ⟨response', hhead, hstatus⟩, -, -, -⟩
    by_contra hdiff
    have hlater : since < written := lt_of_le_of_ne hsince (Ne.symm hdiff)
    have hpassed : handleHead http o { ifModifiedSince := value } = handleHead http o {} :=
      handleHead_passed ho fun etag => by rw [hchecks "", if_pos hlater]
    obtain ⟨⟨head, hok⟩, -⟩ := hread
    rw [hpassed] at hhead
    simp only [handleHead, hok] at hhead
    cases hhead
    simp at hstatus
  · intro heq
    have hnot : ¬ since < written := not_lt.mpr heq.le
    exact {
      notModified := handleGet_refused ho hread (by simp [hasConditionals, hvalue.1])
        fun etag => by rw [hchecks, if_neg hnot]
      headNotModified := handleHead_refused ho hread fun etag => by rw [hchecks "", if_neg hnot]
      letThrough := handleGet_passed ho rfl fun etag => by rw [hunmodified, if_neg hnot]
      headLetThrough := handleHead_passed ho fun etag => by rw [hunmodified "", if_neg hnot]
      rangeKept := handleGet_ifRange_kept ho hvalue hne heq range }

theorem replaced_iff (ho : o.WrittenAt written) (hread : o.Readable)
    (hvalue : Reads http value since) (hlater : since < written) (range : String) :
    Replaced http o value range ↔ ∃ result, o.getObject range = .ok result := by
  have hne : written ≠ 0 := Nat.ne_zero_of_lt hlater
  have hwhole := handleGet_ifRange_whole_iff ho hread hvalue hne hlater.ne' range
  have hchecks := check_ifModifiedSince hvalue hne
  have hunmodified := check_ifUnmodifiedSince hvalue hne
  refine ⟨fun h => hwhole.mp h.wholeSent, fun hget => ?_⟩
  exact {
    sent := handleGet_passed ho rfl fun etag => by rw [hchecks, if_pos hlater]
    headSent := handleHead_passed ho fun etag => by rw [hchecks "", if_pos hlater]
    refused := handleGet_refused ho hread (by simp [hasConditionals, hvalue.1])
      fun etag => by rw [hunmodified, if_pos hlater]
    headRefused := handleHead_refused ho hread fun etag => by rw [hunmodified "", if_pos hlater]
    wholeSent := hwhole.mpr hget }

theorem eq_sub_mod_iff (t n : Nat) : t = t - t % n ↔ t % n = 0 := by
  have := Nat.mod_le t n
  omega

/-- **When the value a client was given still says whether its object is current**: exactly where
the object was written on a whole second, and the range can be read from the one that took its place
at least a second after the value. -/
theorem roundTrips_iff (http : HttpTime) (backend backend' : Objects ε) (loc loc' : ObjectLocation)
    (range : String) (hstored : loc.createdAt ≠ 0) (hyear : loc.createdAt < yearTenThousand)
    (hlater : loc.createdAt - loc.createdAt % second + second ≤ loc'.createdAt)
    (hread : (backend.stored loc).Readable) (hread' : (backend'.stored loc').Readable) :
    RoundTrips http (backend.stored loc) (backend'.stored loc') range ↔
      loc.createdAt % second = 0 ∧ ∃ result, backend'.getObject range = .ok result := by
  have ho := backend.writtenAt_stored hstored
  have hafter : loc.createdAt - loc.createdAt % second < loc'.createdAt :=
    Nat.lt_of_lt_of_le (Nat.lt_add_of_pos_right (by decide)) hlater
  have ho' := backend'.writtenAt_stored (Nat.ne_zero_of_lt hafter)
  have hvalue := reads_format http hyear
  have hget : (∃ result, (backend'.stored loc').getObject range = .ok result) ↔
      ∃ result, backend'.getObject range = .ok result := by
    simp only [Objects.stored]
    cases backend'.getObject range with
    | error e | ok result => simp [Except.map]
  calc RoundTrips http (backend.stored loc) (backend'.stored loc') range
      ↔ Stands http (backend.stored loc) (http.format loc.createdAt) range ∧
          Replaced http (backend'.stored loc') (http.format loc.createdAt) range := by
        simp only [RoundTrips, gave_iff ho hstored hread, forall_eq]
    _ ↔ loc.createdAt % second = 0 ∧ ∃ result, backend'.getObject range = .ok result := by
        rw [stands_iff ho hread hstored hvalue (Nat.sub_le _ _), eq_sub_mod_iff,
          replaced_iff ho' hread' hvalue hafter, hget]

end RoundTrip

/-! ## A write between two seconds -/

def newYear : Time := 63839664000 * second

def newYearDate : String := "Mon, 01 Jan 2024 00:00:00 GMT"

/-- The first second of 2024 as HTTP writes it, and every other one by its number. -/
def newYearTime : HttpTime where
  format t := if t / second = newYear / second then newYearDate
    else String.ofList (Nat.toDigits 10 (t / second))
  parseTime v := if v = newYearDate then some newYear else (decimal v.toList).map (· * second)
  format_ne t h := by
    split_ifs at h
    · exact absurd h (by decide)
    · simpa using congrArg String.toList h
  parse_format t _ := by
    have hdate : decimal newYearDate.toList = none := by decide
    have hsecond : t - t % second = t / second * second := Nat.div_mul_self_eq_mod_sub_self.symm
    rw [hsecond]
    split_ifs with hyear hsame
    · rw [hyear]
      rfl
    · exact absurd rfl hsame
    · rename_i hdigits
      rw [← hdigits, String.toList_ofList, decimal_toDigits] at hdate
      cases hdate
    · rw [String.toList_ofList, decimal_toDigits, Option.map_some]

def report (range : String) : Objects String where
  headObject := .ok { size := 4 }
  getObject := fun r =>
    if r = "" then .ok { size := 4, body := [1, 2, 3, 4] }
    else if r = range then .ok { size := 2, contentRange := "bytes 2-3/4", body := [3, 4] }
    else .error "the requested range is not satisfiable"

def writtenAt (t : Time) : ObjectLocation where
  objectKey := "docs/report"
  backendName := "a"
  storageKey := ""
  sizeBytes := 4
  createdAt := t

/-- Half a second after the full second, the client that sends back what it was given is sent the
unchanged object again, may not change it, and is not given the range it asks for; nor the whole of
an object too short for it. -/
theorem half_second_does_not_stand :
    let o := (report "bytes=2-3").stored (writtenAt (newYear + second / 2))
    let value := newYearDate
    handleHead newYearTime o {} = .ok { status := 200, validators := { lastModified := value } } ∧
    (handleGet newYearTime o { ifModifiedSince := value }).map Response.status = .ok 200 ∧
    (handleGet newYearTime o { ifUnmodifiedSince := value }).map Response.status = .ok 412 ∧
    (handleGet newYearTime o { ifRange := value, range := "bytes=2-3" }).map Response.status =
      .ok 200 ∧
    (handleGet newYearTime o { range := "bytes=2-3" }).map Response.status = .ok 206 ∧
    (handleGet newYearTime ((report "bytes=0-1").stored (writtenAt (newYear + 2 * second)))
        { ifRange := value, range := "bytes=2-3" }).map Response.status =
      .error "the requested range is not satisfiable" := by
  decide

theorem whole_second_stands :
    RoundTrips newYearTime ((report "bytes=2-3").stored (writtenAt newYear))
      ((report "bytes=2-3").stored (writtenAt (newYear + second))) "bytes=2-3" :=
  (roundTrips_iff newYearTime _ _ (writtenAt newYear) (writtenAt (newYear + second)) "bytes=2-3"
    (by decide) (by decide) (by decide) ⟨⟨_, rfl⟩, _, rfl⟩ ⟨⟨_, rfl⟩, _, rfl⟩).mpr
    ⟨by decide, _, rfl⟩

end S3Orchestrator.Conditional
