import S3Orchestrator.Auth.SigV4

/-!
# How long a signature is accepted

The times at which a request is accepted, against the time it says it was signed at. A header
signature is held to the clock on both sides. A presigned URL is held to its expiry only.

* **`accepted_inWindow_iff`**.
-/

namespace S3Orchestrator

open List

/-- Seven days, in nanoseconds. -/
def presignedMaxExpiry : Int := presignedMaxExpirySeconds * 1000000000

/-- Within a quarter of an hour of the signing time; for a presigned URL, from then until an expiry
of one second to seven days. -/
def SigV4Claim.InWindow (c : SigV4Claim) (std : SigV4Std) (now : Int) : Prop :=
  ∃ reqTime, std.parseTime c.amzDate = some reqTime ∧ reqTime - sigV4MaxSkew ≤ now ∧
    if c.presigned then
      ∃ expirySecs, parseInt64 c.expires = some expirySecs ∧ 1 ≤ expirySecs ∧
        expirySecs ≤ presignedMaxExpirySeconds ∧ now ≤ reqTime + expirySecs * 1000000000
    else now ≤ reqTime + sigV4MaxSkew

/-- A presigned URL more than a quarter of an hour before its signing time. -/
def SigV4Claim.Early (c : SigV4Claim) (std : SigV4Std) (now : Int) : Prop :=
  c.presigned = true ∧
    ∃ reqTime, std.parseTime c.amzDate = some reqTime ∧ now < reqTime - sigV4MaxSkew

section

variable {escape : Bytes → Bytes} {std : SigV4Std}

theorem parseTime_of_parseSigV4Time {amzDate dateStamp : Bytes} {reqTime : Int}
    (h : parseSigV4Time std amzDate dateStamp = .ok reqTime) :
    std.parseTime amzDate = some reqTime := by
  rw [parseSigV4Time] at h
  split at h
  · cases h
  · split_ifs at h
    rw [← Except.ok.inj h]
    assumption

theorem validatePresignedExpiry_ok {now reqTime : Int} {expires : Bytes}
    (h : validatePresignedExpiry now reqTime expires = .ok ()) :
    ∃ expirySecs, parseInt64 expires = some expirySecs ∧ 1 ≤ expirySecs ∧
      expirySecs ≤ presignedMaxExpirySeconds ∧ now ≤ reqTime + expirySecs * 1000000000 := by
  rw [validatePresignedExpiry] at h
  split at h
  · cases h
  · rename_i expirySecs hparse
    split_ifs at h with hpos hmax hexpired
    exact ⟨expirySecs, hparse, by omega, by omega, by omega⟩

variable {c : SigV4Claim} {r : Request escape} {secret : Bytes} {now : Int}

theorem time_of_verify {mat : Option StreamingMaterial} (h : c.verify std now r secret = .ok mat) :
    ∃ reqTime, std.parseTime c.amzDate = some reqTime ∧
      (c.presigned = true ∨ reqTime - sigV4MaxSkew ≤ now) ∧
      if c.presigned then
        ∃ expirySecs, parseInt64 c.expires = some expirySecs ∧ 1 ≤ expirySecs ∧
          expirySecs ≤ presignedMaxExpirySeconds ∧ now ≤ reqTime + expirySecs * 1000000000
      else now ≤ reqTime + sigV4MaxSkew := by
  obtain ⟨⟨scope, signedHeaders⟩, hcred, h⟩ := RowStore.exists_of_bind_ok h
  obtain ⟨reqTime, htime, h⟩ := RowStore.exists_of_bind_ok h
  obtain ⟨_, hfresh, _⟩ := RowStore.exists_of_bind_ok h
  refine ⟨reqTime, parseTime_of_parseSigV4Time htime, ?_⟩
  rw [SigV4Claim.fresh] at hfresh
  split_ifs at hfresh ⊢ with hpre hskew
  · exact ⟨.inl hpre, validatePresignedExpiry_ok hfresh⟩
  · rw [not_lt] at hskew
    exact ⟨.inr (by omega), by omega⟩

theorem inWindow_iff_of_verify {mat : Option StreamingMaterial}
    (h : c.verify std now r secret = .ok mat) :
    c.InWindow std now ↔ ¬ c.Early std now := by
  obtain ⟨reqTime, htime, hlow, hhigh⟩ := time_of_verify h
  constructor
  · rintro ⟨t, ht, hstart, -⟩ ⟨-, t', ht', hearly⟩
    obtain rfl := Option.some.inj (ht.symm.trans ht')
    omega
  · intro hearly
    refine ⟨reqTime, htime, ?_, hhigh⟩
    rcases hlow with hpre | hstart
    · exact not_lt.mp fun hlt => hearly ⟨hpre, reqTime, htime, hlt⟩
    · exact hstart

theorem SigV4Claim.InWindow.bounds {now reqTime : Int} (h : c.InWindow std now)
    (htime : std.parseTime c.amzDate = some reqTime) :
    reqTime - sigV4MaxSkew ≤ now ∧ now ≤ reqTime + presignedMaxExpiry := by
  obtain ⟨t, ht, hstart, hend⟩ := h
  obtain rfl := Option.some.inj (ht.symm.trans htime)
  split_ifs at hend
  · obtain ⟨expirySecs, -, -, hmax, hnow⟩ := hend
    unfold presignedMaxExpiry
    omega
  · unfold presignedMaxExpiry presignedMaxExpirySeconds
    unfold sigV4MaxSkew at hend
    omega

/-- **A request is accepted in its window just if it is no presigned URL before its time, and two
accepted so with one signing date are at most seven days and a quarter of an hour apart.** -/
theorem accepted_inWindow_iff {U : Type} (std : SigV4Std)
    (byAccessKey : Bytes → Option (Bytes × U)) :
    (∀ (now : Int) (r : Request escape) (c : SigV4Claim), r.claim = some c →
      Accepted std byAccessKey now r → (c.InWindow std now ↔ ¬ c.Early std now)) ∧
    (∀ (now₁ now₂ : Int) (r₁ r₂ : Request escape) (c₁ c₂ : SigV4Claim),
      r₁.claim = some c₁ → r₂.claim = some c₂ → c₁.amzDate = c₂.amzDate →
      Accepted std byAccessKey now₁ r₁ → Accepted std byAccessKey now₂ r₂ →
      ¬ c₁.Early std now₁ → ¬ c₂.Early std now₂ →
      now₁ - now₂ ≤ presignedMaxExpiry + sigV4MaxSkew) := by
  have hwindow : ∀ (now : Int) (r : Request escape) (c : SigV4Claim), r.claim = some c →
      Accepted std byAccessKey now r → (c.InWindow std now ↔ ¬ c.Early std now) := by
    intro now r c hc h
    obtain ⟨_, _, _, hclaim, -, hv⟩ := h.verify
    obtain rfl := Option.some.inj (hc.symm.trans hclaim)
    exact inWindow_iff_of_verify hv
  refine ⟨hwindow, fun now₁ now₂ r₁ r₂ c₁ c₂ hc₁ hc₂ hdate h₁ h₂ hearly₁ hearly₂ => ?_⟩
  have hin₁ := (hwindow now₁ r₁ c₁ hc₁ h₁).mpr hearly₁
  have hin₂ := (hwindow now₂ r₂ c₂ hc₂ h₂).mpr hearly₂
  obtain ⟨reqTime, htime, -⟩ := id hin₂
  have hend := (hin₁.bounds (hdate ▸ htime)).2
  have hstart := (hin₂.bounds htime).1
  omega

theorem Accepted.of_presigned {U : Type} {byAccessKey : Bytes → Option (Bytes × U)} {u : U}
    {scope : CredentialScope} {names : List Bytes} {reqTime : Int} (hc : r.claim = some c)
    (hkey : byAccessKey c.accessKey = some (secret, u)) (hpre : c.presigned = true)
    (hcred : parseSigV4Credential c.credential c.signedHeaders = .ok (scope, names))
    (htime : parseSigV4Time std c.amzDate scope.date = .ok reqTime)
    (hexpiry : validatePresignedExpiry now reqTime c.expires = .ok ())
    (hsig : expectedSignature std (c.canonicalRequest std r names) secret scope c.amzDate =
      c.signature) : Accepted std byAccessKey now r := by
  have hverify : c.verify std now r secret = .ok none := by
    have hfresh : c.fresh now reqTime = .ok () := by
      rw [SigV4Claim.fresh, if_pos hpre]
      exact hexpiry
    have hkey : verifySigV4Signature std (c.canonicalRequest std r names) c.signature secret scope
        c.amzDate = .ok (deriveSigningKey std secret scope) := by
      rw [verifySigV4Signature, if_pos hsig]
    simp only [SigV4Claim.verify, hcred, htime, hfresh, hkey, bind, Except.bind, if_pos hpre]
    rfl
  refine ⟨u, none, ?_⟩
  rw [authenticate, hc]
  simp [hkey, hverify]

end

/-! ## A presigned URL before its time -/

def lowerByte (b : UInt8) : UInt8 := if 0x41 ≤ b ∧ b ≤ 0x5A then b + 0x20 else b

def datedStd : SigV4Std :=
  { sampleStd with
    toLower := fun s => s.map lowerByte
    parseTime := fun s => if newline ∈ s then none else some 0 }

def keyPath : WirePath defaultEncoding :=
  ⟨bytesOf "/b/k", bytesOf "/b/k", [], by decide +kernel, by decide +kernel⟩

def presignedQuery : List (Bytes × Bytes) :=
  [(bytesOf "X-Amz-Algorithm", bytesOf "AWS4-HMAC-SHA256"),
    (bytesOf "X-Amz-Credential", bytesOf "K/20260101/r/s3/aws4_request"),
    (bytesOf "X-Amz-Date", bytesOf "20260101T000000Z"),
    (bytesOf "X-Amz-Expires", bytesOf "1"),
    (bytesOf "X-Amz-SignedHeaders", bytesOf "host")]

def keyRequest (method : Bytes) (header query : List (Bytes × Bytes)) :
    Request defaultEncoding where
  method := method
  url := keyPath
  query := query
  header := header
  host := bytesOf "s3"

def keyScope : CredentialScope := ⟨bytesOf "20260101", bytesOf "r", bytesOf "s3"⟩

def presignedSignature (method : Bytes) : Bytes :=
  expectedSignature datedStd
    (buildCanonicalRequest datedStd (keyRequest method [] []) [bytesOf "host"] presignedQuery
      unsignedPayload)
    (bytesOf "secret") keyScope (bytesOf "20260101T000000Z")

def presignedRequest (method : Bytes) (header : List (Bytes × Bytes)) : Request defaultEncoding :=
  keyRequest method header
    (presignedQuery ++ [(bytesOf "X-Amz-Signature", presignedSignature method)])

def keyClaim (method : Bytes) : SigV4Claim where
  credential := bytesOf "K/20260101/r/s3/aws4_request"
  signedHeaders := bytesOf "host"
  signature := presignedSignature method
  amzDate := bytesOf "20260101T000000Z"
  presigned := true
  expires := bytesOf "1"

section

variable {header : List (Bytes × Bytes)}

theorem firstValue_presignedRequest (method : Bytes) (name : Bytes)
    (hname : name ≠ bytesOf "X-Amz-Signature") :
    firstValue (presignedRequest method header).query name = firstValue presignedQuery name := by
  have hlast : (bytesOf "X-Amz-Signature" == name) = false := beq_eq_false_iff_ne.mpr hname.symm
  simp [firstValue, presignedRequest, keyRequest, hlast]

theorem presignedQuery_unsigned : ∀ kv ∈ presignedQuery, kv.1 ≠ bytesOf "X-Amz-Signature" := by
  simp [presignedQuery, bytesOf_inj]

theorem keyClaim_reads :
    sampleKeys ((bytesOf "K/20260101/r/s3/aws4_request").takeWhile (· != slash)) =
      some (bytesOf "secret", ()) ∧
    parseSigV4Credential (bytesOf "K/20260101/r/s3/aws4_request") (bytesOf "host") =
      .ok (keyScope, [bytesOf "host"]) ∧
    parseSigV4Time datedStd (bytesOf "20260101T000000Z") keyScope.date = .ok 0 ∧
    datedStd.parseTime (bytesOf "20260101T000000Z") = some 0 ∧
    parseInt64 (bytesOf "1") = some 1 ∧
    signedHeaderName datedStd (bytesOf "host") = bytesOf "host" := by
  decide +kernel

theorem presignedRequest_claim (method : Bytes)
    (hauth : firstValue header (canonicalMIMEHeaderKey (bytesOf "Authorization")) = []) :
    (presignedRequest method header).claim = some (keyClaim method) := by
  have hprefix : sigV4Prefix.isPrefixOf
      ((presignedRequest method header).headerGet (bytesOf "Authorization")) = false := by
    rw [Request.headerGet, presignedRequest, keyRequest, hauth]
    rfl
  have hvalues : firstValue presignedQuery (bytesOf "X-Amz-Algorithm") =
        bytesOf "AWS4-HMAC-SHA256" ∧
      firstValue presignedQuery (bytesOf "X-Amz-Credential") = (keyClaim method).credential ∧
      firstValue presignedQuery (bytesOf "X-Amz-SignedHeaders") = (keyClaim method).signedHeaders ∧
      firstValue presignedQuery (bytesOf "X-Amz-Date") = (keyClaim method).amzDate ∧
      firstValue presignedQuery (bytesOf "X-Amz-Expires") = (keyClaim method).expires := by
    simp [keyClaim, firstValue, presignedQuery, bytesOf_beq]
  have hsig : firstValue (presignedRequest method header).query (bytesOf "X-Amz-Signature") =
      (keyClaim method).signature := by
    have hnone : (presignedQuery.find? fun kv => kv.1 == bytesOf "X-Amz-Signature") = none :=
      find?_eq_none.mpr fun kv hkv => by simpa using presignedQuery_unsigned kv hkv
    rw [firstValue, presignedRequest, keyRequest, find?_append, hnone]
    simp [keyClaim]
  have hpre : isPresignedRequest (presignedRequest method header) = true := by
    rfl
  rw [Request.claim, hprefix, hpre, presignedClaim, hsig,
    firstValue_presignedRequest _ (bytesOf "X-Amz-Credential") (by simp [bytesOf_inj]),
    firstValue_presignedRequest _ (bytesOf "X-Amz-SignedHeaders") (by simp [bytesOf_inj]),
    firstValue_presignedRequest _ (bytesOf "X-Amz-Date") (by simp [bytesOf_inj]),
    firstValue_presignedRequest _ (bytesOf "X-Amz-Expires") (by simp [bytesOf_inj]),
    hvalues.2.1, hvalues.2.2.1, hvalues.2.2.2.1, hvalues.2.2.2.2]
  simp only [Bool.false_eq_true, if_false, if_true, keyClaim]

theorem presignedRequest_accepted (method : Bytes)
    (hauth : firstValue header (canonicalMIMEHeaderKey (bytesOf "Authorization")) = [])
    (hhost : firstValue header (canonicalMIMEHeaderKey (bytesOf "host")) = []) {now : Int}
    (h : now ≤ 1000000000) : Accepted datedStd sampleKeys now (presignedRequest method header) := by
  obtain ⟨hkey, hcred, htime, -, hparse, hname⟩ := keyClaim_reads
  have hexpiry : validatePresignedExpiry now 0 (keyClaim method).expires = .ok () := by
    rw [validatePresignedExpiry, keyClaim, hparse]
    dsimp only
    rw [if_neg (by decide), if_neg (by decide), if_neg (by omega)]
  have hquery : ((presignedRequest method header).query.filter fun kv =>
      kv.1 != bytesOf "X-Amz-Signature") = presignedQuery := by
    rw [presignedRequest, keyRequest, filter_append,
      filter_eq_self.mpr fun kv hkv => bne_iff_ne.mpr (presignedQuery_unsigned kv hkv)]
    simp
  have hvalue : signedHeaderValue (presignedRequest method header) (bytesOf "host") =
      signedHeaderValue (keyRequest method [] []) (bytesOf "host") := by
    rw [signedHeaderValue, signedHeaderValue, Request.headerGet, presignedRequest, keyRequest,
      hhost]
    rfl
  have hcanon : (keyClaim method).canonicalRequest datedStd (presignedRequest method header)
      [bytesOf "host"] =
      buildCanonicalRequest datedStd (keyRequest method [] []) [bytesOf "host"] presignedQuery
        unsignedPayload := by
    have hpre : (keyClaim method).presigned = true := rfl
    rw [SigV4Claim.canonicalRequest, if_pos hpre, hquery, buildCanonicalRequest,
      buildCanonicalRequest, writeCanonicalHeadersAndSigned, writeCanonicalHeadersAndSigned,
      map_singleton, hname, flatMap_singleton, flatMap_singleton, hvalue]
    rfl
  have hsig : expectedSignature datedStd ((keyClaim method).canonicalRequest datedStd
      (presignedRequest method header) [bytesOf "host"]) (bytesOf "secret") keyScope
      (keyClaim method).amzDate = (keyClaim method).signature := by
    rw [hcanon]
    simp only [keyClaim, presignedSignature]
  exact Accepted.of_presigned (presignedRequest_claim method hauth) hkey rfl hcred htime hexpiry
    hsig

end

/-- A `GET` signed for a second is accepted thirty days before its signing time, and thirty days
later still. -/
theorem presignedGet_outlives :
    datedStd.parseTime (keyClaim (bytesOf "GET")).amzDate = some 0 ∧
    (presignedRequest (bytesOf "GET") []).claim = some (keyClaim (bytesOf "GET")) ∧
    Accepted datedStd sampleKeys (-30 * 24 * 60 * 60 * 1000000000)
      (presignedRequest (bytesOf "GET") []) ∧
    Accepted datedStd sampleKeys 0 (presignedRequest (bytesOf "GET") []) ∧
    ¬ (keyClaim (bytesOf "GET")).InWindow datedStd (-30 * 24 * 60 * 60 * 1000000000) ∧
    presignedMaxExpiry + sigV4MaxSkew < 0 - (-30 * 24 * 60 * 60 * 1000000000 : Int) := by
  have htime : datedStd.parseTime (keyClaim (bytesOf "GET")).amzDate = some 0 :=
    keyClaim_reads.2.2.2.1
  refine ⟨htime, presignedRequest_claim _ rfl,
    presignedRequest_accepted _ rfl rfl (by decide),
    presignedRequest_accepted _ rfl rfl (by decide), fun hwindow => ?_, by decide⟩
  exact absurd (hwindow.bounds htime).1 (by decide)

/-- The same `GET` at its signing time is in its window. -/
theorem presignedGet_inWindow : (keyClaim (bytesOf "GET")).InWindow datedStd 0 := by
  have hclaim : (presignedRequest (bytesOf "GET") []).claim = some (keyClaim (bytesOf "GET")) :=
    presignedRequest_claim _ rfl
  have haccepted : Accepted datedStd sampleKeys 0 (presignedRequest (bytesOf "GET") []) :=
    presignedRequest_accepted _ rfl rfl (by decide)
  have hiff := (accepted_inWindow_iff datedStd sampleKeys).1 0 _ _ hclaim haccepted
  refine hiff.mpr ?_
  rintro ⟨-, t, ht, hlt⟩
  have htime : datedStd.parseTime (keyClaim (bytesOf "GET")).amzDate = some 0 :=
    keyClaim_reads.2.2.2.1
  obtain rfl := Option.some.inj (ht.symm.trans htime)
  exact absurd hlt (by decide)

end S3Orchestrator
