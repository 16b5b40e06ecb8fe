import S3Orchestrator.Auth.Path
import S3Orchestrator.Lib.Fields
import S3Orchestrator.Lib.Tx

/-!
# Signature verification

What a request presents as its SigV4 signature, the canonical request it is checked against, and the
check itself.

* **`signature_binds_path`**.
-/

namespace S3Orchestrator

open List

/-! ## Text -/

/-- What the standard library supplies. The time an `X-Amz-Date` names is in nanoseconds. -/
structure SigV4Std where
  sum256 : Bytes → Bytes
  toLower : Bytes → Bytes
  equalFold : Bytes → Bytes → Bool
  parseTime : Bytes → Option Int

def newline : UInt8 := 0x0A
def space : UInt8 := 0x20
def comma : UInt8 := 0x2C
def colon : UInt8 := 0x3A
def semicolon : UInt8 := 0x3B
def equalsSign : UInt8 := 0x3D

def whiteSpace : List Bytes :=
  [[0x09], [0x0A], [0x0B], [0x0C], [0x0D], [0x20], [0xC2, 0x85], [0xC2, 0xA0], [0xE1, 0x9A, 0x80],
    [0xE2, 0x80, 0x80], [0xE2, 0x80, 0x81], [0xE2, 0x80, 0x82], [0xE2, 0x80, 0x83],
    [0xE2, 0x80, 0x84], [0xE2, 0x80, 0x85], [0xE2, 0x80, 0x86], [0xE2, 0x80, 0x87],
    [0xE2, 0x80, 0x88], [0xE2, 0x80, 0x89], [0xE2, 0x80, 0x8A], [0xE2, 0x80, 0xA8],
    [0xE2, 0x80, 0xA9], [0xE2, 0x80, 0xAF], [0xE2, 0x81, 0x9F], [0xE3, 0x80, 0x80]]

def trimFront (forms : List Bytes) : Nat → Bytes → Bytes
  | 0, s => s
  | fuel + 1, s =>
    match forms.find? fun w => w.isPrefixOf s with
    | some w => trimFront forms fuel (s.drop w.length)
    | none => s

def trimSpace (s : Bytes) : Bytes :=
  let front := trimFront whiteSpace s.length s
  (trimFront (whiteSpace.map List.reverse) front.length front.reverse).reverse

def splitN (sep : UInt8) : Nat → Bytes → List Bytes
  | 0, _ => []
  | 1, s => [s]
  | n + 2, s =>
    if sep ∈ s then
      s.takeWhile (· != sep) :: splitN sep (n + 1) ((s.dropWhile (· != sep)).drop 1)
    else [s]

def hexByte (b : UInt8) : Bytes :=
  let digit := fun n : UInt8 => if n < 10 then 0x30 + n else 0x57 + n
  [digit (b >>> 4), digit (b &&& 0x0F)]

def encodeToString (s : Bytes) : Bytes := s.flatMap hexByte

def parseInt64 (s : Bytes) : Option Int :=
  let digits := match s with
    | 0x2B :: t => t
    | 0x2D :: t => t
    | t => t
  if digits = [] ∨ digits.any (fun b => b < 0x30 || 0x39 < b) = true then none
  else
    let value : Int := digits.foldl (fun n b => 10 * n + (b.toNat - 48 : Int)) 0
    let signed := if s.head? = some 0x2D then - value else value
    if -9223372036854775808 ≤ signed ∧ signed ≤ 9223372036854775807 then some signed else none

def commalistSplit (v : Bytes) : List Bytes :=
  ((v.splitOn comma).map trimSpace).filter (· ≠ [])

def collapseWhitespace (s : Bytes) : Bytes :=
  s.foldl (fun b c =>
    if c = 0x20 ∨ c = 0x09 ∨ c = 0x0A ∨ c = 0x0D then
      if b.getLast? = some space then b else b ++ [space]
    else b ++ [c]) []

def stripWhitespace (s : Bytes) : Bytes :=
  s.filter fun c => !(c == 0x20 || c == 0x09 || c == 0x0A || c == 0x0D)

def queryEscape (s : Bytes) : Bytes :=
  s.flatMap fun b =>
    if isUnreservedPathByte b then [b] else if b = space then [0x2B] else escapeByte b

def sigV4Encode (s : Bytes) : Bytes :=
  (queryEscape s).flatMap fun b => if b = 0x2B then bytesOf "%20" else [b]

/-! ## Requests -/

def isTokenByte (b : UInt8) : Bool :=
  (0x30 ≤ b && b ≤ 0x39) || (0x41 ≤ b && b ≤ 0x5A) || (0x61 ≤ b && b ≤ 0x7A) ||
    (bytesOf "!#$%&*+-.^_|~").contains b || b == 0x27 || b == 0x60

/-- Header names are stored with a capital at the start and after a hyphen, or as they are if
another byte is in them. -/
def canonicalMIMEHeaderKey (name : Bytes) : Bytes :=
  if name.all isTokenByte then
    (name.foldl (fun (out : Bytes × Bool) b =>
      let c := if out.2 then (if 0x61 ≤ b ∧ b ≤ 0x7A then b - 0x20 else b)
        else (if 0x41 ≤ b ∧ b ≤ 0x5A then b + 0x20 else b)
      (out.1 ++ [c], b == 0x2D)) ([], true)).1
  else name

def firstValue (values : List (Bytes × Bytes)) (key : Bytes) : Bytes :=
  ((values.find? fun kv => kv.1 == key).map Prod.snd).getD []

structure Request (escape : Bytes → Bytes) where
  method : Bytes
  url : WirePath escape
  query : List (Bytes × Bytes)
  header : List (Bytes × Bytes)
  host : Bytes

section

variable {escape : Bytes → Bytes}

def Request.headerGet (r : Request escape) (name : Bytes) : Bytes :=
  firstValue r.header (canonicalMIMEHeaderKey name)

def parsePath (path : Bytes) : Option (Bytes × Bytes) :=
  let path := if path.head? = some slash then path.drop 1 else path
  match splitN slash 2 path with
  | bucket :: parts => if bucket = [] then none else some (bucket, parts.headD [])
  | [] => none

def Request.SameButPath (r₁ r₂ : Request escape) : Prop :=
  r₁.method = r₂.method ∧ r₁.query = r₂.query ∧ r₁.header = r₂.header ∧ r₁.host = r₂.host

/-! ## The canonical request -/

def buildCanonicalQueryString (values : List (Bytes × Bytes)) : Bytes :=
  let params := values.map fun kv => sigV4Encode kv.1 ++ equalsSign :: sigV4Encode kv.2
  List.intercalate [0x26] (params.mergeSort fun a b => decide (a ≤ b))

def signedHeaderName (std : SigV4Std) (h : Bytes) : Bytes := std.toLower (stripWhitespace h)

def signedHeaderValue (r : Request escape) (h : Bytes) : Bytes :=
  let val := trimSpace (r.headerGet h)
  collapseWhitespace (if h = bytesOf "host" ∧ val = [] then r.host else val)

def writeCanonicalHeadersAndSigned (std : SigV4Std) (r : Request escape)
    (signedHeaders : List Bytes) : Bytes :=
  let names := signedHeaders.map (signedHeaderName std)
  names.flatMap (fun h => h ++ colon :: signedHeaderValue r h ++ [newline]) ++
    newline :: List.intercalate [semicolon] names ++ [newline]

def buildCanonicalRequest (std : SigV4Std) (r : Request escape) (signedHeaders : List Bytes)
    (query : List (Bytes × Bytes)) (payloadHash : Bytes) : Bytes :=
  r.method ++ newline :: (encodePath r.url.canonicalPath ++
    newline :: (buildCanonicalQueryString query ++
      newline :: (writeCanonicalHeadersAndSigned std r signedHeaders ++ payloadHash)))

/-! ## Claims -/

/-- What a request presents as its signature. -/
structure SigV4Claim where
  credential : Bytes
  signedHeaders : Bytes
  signature : Bytes
  amzDate : Bytes
  presigned : Bool := false
  expires : Bytes := []

inductive SigV4Error
  | missingCredentials
  | authFailed
  | malformedScope
  | hostUnsigned
  | malformedDate
  | dateMismatch
  | skewed
  | invalidExpires
  | expiresTooLong
  | expired
  | signatureMismatch
  | notChunked
  | invalidDecodedLength
  | missingTrailer
deriving DecidableEq

def sigV4Prefix : Bytes := bytesOf "AWS4-HMAC-SHA256 "
def unsignedPayload : Bytes := bytesOf "UNSIGNED-PAYLOAD"
def dummySecret : Bytes := bytesOf "dummy-secret-for-constant-time-auth"

def sigV4MaxSkew : Int := 15 * 60 * 1000000000

def presignedMaxExpirySeconds : Int := 7 * 24 * 60 * 60

def parseSigV4FieldsDirect (s : Bytes) : Bytes × Bytes × Bytes :=
  (s.splitOn comma).foldl (fun fields part =>
    let part := trimSpace part
    let name := part.takeWhile (· != equalsSign)
    let value := part.drop (name.length + 1)
    -- A part without `=` has no value, and one that starts with it no name.
    if name.length = part.length then fields
    else if name = bytesOf "Credential" then (value, fields.2.1, fields.2.2)
    else if name = bytesOf "SignedHeaders" then (fields.1, value, fields.2.2)
    else if name = bytesOf "Signature" then (fields.1, fields.2.1, value)
    else fields) ([], [], [])

def headerClaim (r : Request escape) (authHeader : Bytes) : SigV4Claim :=
  let fields := parseSigV4FieldsDirect (authHeader.drop sigV4Prefix.length)
  { credential := fields.1
    signedHeaders := fields.2.1
    signature := fields.2.2
    amzDate := r.headerGet (bytesOf "X-Amz-Date") }

def presignedClaim (r : Request escape) : SigV4Claim :=
  { credential := firstValue r.query (bytesOf "X-Amz-Credential")
    signedHeaders := firstValue r.query (bytesOf "X-Amz-SignedHeaders")
    signature := firstValue r.query (bytesOf "X-Amz-Signature")
    amzDate := firstValue r.query (bytesOf "X-Amz-Date")
    presigned := true
    expires := firstValue r.query (bytesOf "X-Amz-Expires") }

def isPresignedRequest (r : Request escape) : Bool :=
  firstValue r.query (bytesOf "X-Amz-Algorithm") != []

def SigV4Claim.accessKey (c : SigV4Claim) : Bytes := c.credential.takeWhile (· != slash)

structure CredentialScope where
  date : Bytes
  region : Bytes
  service : Bytes
deriving DecidableEq

def CredentialScope.string (s : CredentialScope) : Bytes :=
  s.date ++ slash :: (s.region ++ slash :: (s.service ++ slash :: bytesOf "aws4_request"))

def parseSigV4Credential (credential signedHeadersStr : Bytes) :
    Except SigV4Error (CredentialScope × List Bytes) :=
  match splitN slash 5 credential with
  | [_, date, region, service, _] =>
    let signedHeaders := signedHeadersStr.splitOn semicolon
    if bytesOf "host" ∈ signedHeaders then .ok (⟨date, region, service⟩, signedHeaders)
    else .error .hostUnsigned
  | _ => .error .malformedScope

def parseSigV4Time (std : SigV4Std) (amzDate dateStamp : Bytes) : Except SigV4Error Int :=
  match std.parseTime amzDate with
  | none => .error .malformedDate
  | some reqTime => if amzDate.take 8 ≠ dateStamp then .error .dateMismatch else .ok reqTime

def validatePresignedExpiry (now reqTime : Int) (expiresStr : Bytes) : Except SigV4Error Unit :=
  match parseInt64 expiresStr with
  | none => .error .invalidExpires
  | some expirySecs =>
    if expirySecs ≤ 0 then .error .invalidExpires
    else if presignedMaxExpirySeconds < expirySecs then .error .expiresTooLong
    else if reqTime + expirySecs * 1000000000 < now then .error .expired
    else .ok ()

def SigV4Claim.fresh (c : SigV4Claim) (now reqTime : Int) : Except SigV4Error Unit :=
  if c.presigned then validatePresignedExpiry now reqTime c.expires
  else if sigV4MaxSkew < ((now - reqTime).natAbs : Int) then .error .skewed
  else .ok ()

/-- The canonical request signed. A presigned URL leaves out its signature and is signed over an
unsigned payload. -/
def SigV4Claim.canonicalRequest (c : SigV4Claim) (std : SigV4Std) (r : Request escape)
    (signedHeaders : List Bytes) : Bytes :=
  let declared := r.headerGet (bytesOf "X-Amz-Content-Sha256")
  if c.presigned then
    buildCanonicalRequest std r signedHeaders
      (r.query.filter fun kv => kv.1 != bytesOf "X-Amz-Signature") unsignedPayload
  else
    buildCanonicalRequest std r signedHeaders r.query
      (if declared = [] then unsignedPayload else declared)

/-! ## Signatures -/

def hmacPad (std : SigV4Std) (key : Bytes) : Bytes :=
  let key := if 64 < key.length then std.sum256 key else key
  (key ++ List.replicate 64 0).take 64

def hmacSHA256 (std : SigV4Std) (key msg : Bytes) : Bytes :=
  let pad := hmacPad std key
  std.sum256 (pad.map (· ^^^ 0x5C) ++ std.sum256 (pad.map (· ^^^ 0x36) ++ msg))

def deriveSigningKey (std : SigV4Std) (secret : Bytes) (scope : CredentialScope) : Bytes :=
  let key := hmacSHA256 std (bytesOf "AWS4" ++ secret) scope.date
  let key := hmacSHA256 std key scope.region
  let key := hmacSHA256 std key scope.service
  hmacSHA256 std key (bytesOf "aws4_request")

def stringToSign (std : SigV4Std) (canonicalRequest : Bytes) (scope : CredentialScope)
    (amzDate : Bytes) : Bytes :=
  bytesOf "AWS4-HMAC-SHA256\n" ++ (amzDate ++ newline :: (scope.string ++
    newline :: encodeToString (std.sum256 canonicalRequest)))

def expectedSignature (std : SigV4Std) (canonicalRequest secret : Bytes) (scope : CredentialScope)
    (amzDate : Bytes) : Bytes :=
  encodeToString (hmacSHA256 std (deriveSigningKey std secret scope)
    (stringToSign std canonicalRequest scope amzDate))

def verifySigV4Signature (std : SigV4Std) (canonicalRequest signature secret : Bytes)
    (scope : CredentialScope) (amzDate : Bytes) : Except SigV4Error Bytes :=
  if expectedSignature std canonicalRequest secret scope amzDate = signature then
    .ok (deriveSigningKey std secret scope)
  else .error .signatureMismatch

/-! ## Streaming payloads -/

inductive StreamingVariant
  | none
  | signed
  | signedTrailer
  | unsignedTrailer
deriving DecidableEq

/-- The chunks carry signatures. -/
def StreamingVariant.isSigned : StreamingVariant → Bool
  | .signed | .signedTrailer => true
  | _ => false

/-- What the chunk reader verifies the chain with. -/
structure StreamingMaterial where
  variant : StreamingVariant
  seedSig : Bytes
  signingKey : Bytes
  credScope : Bytes
  amzDate : Bytes
  decodedLen : Int
  trailerNames : List Bytes
deriving DecidableEq

def detectStreamingVariant (payloadHash : Bytes) : StreamingVariant :=
  if payloadHash = bytesOf "STREAMING-AWS4-HMAC-SHA256-PAYLOAD" then .signed
  else if payloadHash = bytesOf "STREAMING-AWS4-HMAC-SHA256-PAYLOAD-TRAILER" then .signedTrailer
  else if payloadHash = bytesOf "STREAMING-UNSIGNED-PAYLOAD-TRAILER" then .unsignedTrailer
  else .none

def hasAwsChunkedEncoding (std : SigV4Std) (value : Bytes) : Bool :=
  (value.splitOn comma).any fun part => std.equalFold (trimSpace part) (bytesOf "aws-chunked")

def parseTrailerNames (std : SigV4Std) (value : Bytes) : List Bytes :=
  ((commalistSplit value).map std.toLower).mergeSort fun a b => decide (a ≤ b)

def streamingMaterialFromRequest (std : SigV4Std) (r : Request escape)
    (seedSig signingKey credScope amzDate : Bytes) :
    Except SigV4Error (Option StreamingMaterial) :=
  let variant := detectStreamingVariant (r.headerGet (bytesOf "X-Amz-Content-Sha256"))
  let trailerNames :=
    if variant = .signedTrailer ∨ variant = .unsignedTrailer then
      parseTrailerNames std (r.headerGet (bytesOf "X-Amz-Trailer"))
    else []
  if variant = .none then .ok .none
  else if hasAwsChunkedEncoding std (r.headerGet (bytesOf "Content-Encoding")) = false then
    .error .notChunked
  else
    match parseInt64 (r.headerGet (bytesOf "X-Amz-Decoded-Content-Length")) with
    | .none => .error .invalidDecodedLength
    | .some decoded =>
      if decoded < 0 then .error .invalidDecodedLength
      else if (variant = .signedTrailer ∨ variant = .unsignedTrailer) ∧ trailerNames = [] then
        .error .missingTrailer
      else .ok (some ⟨variant, seedSig, signingKey, credScope, amzDate, decoded, trailerNames⟩)

/-! ## Verification -/

def SigV4Claim.verify (c : SigV4Claim) (std : SigV4Std) (now : Int) (r : Request escape)
    (secret : Bytes) : Except SigV4Error (Option StreamingMaterial) := do
  let (scope, signedHeaders) ← parseSigV4Credential c.credential c.signedHeaders
  let reqTime ← parseSigV4Time std c.amzDate scope.date
  c.fresh now reqTime
  let signingKey ← verifySigV4Signature std (c.canonicalRequest std r signedHeaders) c.signature
    secret scope c.amzDate
  if c.presigned then pure none
  else streamingMaterialFromRequest std r c.signature signingKey scope.string c.amzDate

def Request.claim (r : Request escape) : Option SigV4Claim :=
  let authHeader := r.headerGet (bytesOf "Authorization")
  if sigV4Prefix.isPrefixOf authHeader then some (headerClaim r authHeader)
  else if isPresignedRequest r then some (presignedClaim r)
  else none

/-- The identity behind the credential that proved the request. An unknown access key fails as a
known one does. -/
def authenticate {U : Type} (std : SigV4Std) (byAccessKey : Bytes → Option (Bytes × U)) (now : Int)
    (r : Request escape) : Except SigV4Error (U × Option StreamingMaterial) :=
  match r.claim with
  | none => .error .missingCredentials
  | some c =>
    let entry := byAccessKey c.accessKey
    match c.verify std now r ((entry.map Prod.fst).getD dummySecret), entry with
    | .ok mat, some e => .ok (e.2, mat)
    | _, _ => .error .authFailed

def Accepted {U : Type} (std : SigV4Std) (byAccessKey : Bytes → Option (Bytes × U)) (now : Int)
    (r : Request escape) : Prop :=
  ∃ u mat, authenticate std byAccessKey now r = .ok (u, mat)

/-- Requests for two paths have two canonical requests, and what one is accepted with the other is
not, at any two times. -/
def BindsPath (std : SigV4Std) (r₁ r₂ : Request escape) : Prop :=
  r₁.url.path ≠ r₂.url.path →
    (∀ (c : SigV4Claim) (signedHeaders : List Bytes),
      c.canonicalRequest std r₁ signedHeaders ≠ c.canonicalRequest std r₂ signedHeaders) ∧
    ∀ (byAccessKey : Bytes → Option (Bytes × Unit)) (now₁ now₂ : Int),
      Accepted std byAccessKey now₁ r₁ → ¬ Accepted std byAccessKey now₂ r₂

end

/-! ## Hex and HMAC -/

theorem hexByte_inj {a b : UInt8} (h : hexByte a = hexByte b) : a = b := by
  have hval : ∀ c : UInt8,
      unhex ((hexByte c).getD 0 0) <<< 4 ||| unhex ((hexByte c).getD 1 0) = c :=
    forall_byte (by decide +kernel)
  rw [← hval a, ← hval b, h]

theorem encodeToString_inj {s t : Bytes} (h : encodeToString s = encodeToString t) : s = t := by
  induction s generalizing t with
  | nil =>
    cases t with
    | nil => rfl
    | cons b t => exact absurd h.symm (cons_ne_nil _ _)
  | cons a s ih =>
    cases t with
    | nil => exact absurd h (cons_ne_nil _ _)
    | cons b t =>
      have hsplit : hexByte a ++ encodeToString s = hexByte b ++ encodeToString t := h
      obtain ⟨hab, htail⟩ := append_inj hsplit rfl
      rw [hexByte_inj hab, ih htail]

theorem newline_not_mem_encodeToString (s : Bytes) : newline ∉ encodeToString s := by
  have hbyte : ∀ b : UInt8, newline ∉ hexByte b := forall_byte (by decide +kernel)
  intro h
  obtain ⟨b, -, hb⟩ := mem_flatMap.mp h
  exact hbyte b hb

theorem length_hmacPad (std : SigV4Std) (key : Bytes) : (hmacPad std key).length = 64 := by
  simp [hmacPad]

variable {std : SigV4Std}

theorem hmacSHA256_inj (hsha : Function.Injective std.sum256) {key1 key2 m1 m2 : Bytes}
    (h : hmacSHA256 std key1 m1 = hmacSHA256 std key2 m2) : m1 = m2 := by
  have houter := (append_inj (hsha h) (by simp [length_hmacPad])).2
  exact (append_inj (hsha houter) (by simp [length_hmacPad])).2

variable {scope1 scope2 : CredentialScope} {amzDate1 amzDate2 : Bytes}

theorem stringToSign_inj (hsha : Function.Injective std.sum256) {q1 q2 : Bytes}
    (h : stringToSign std q1 scope1 amzDate1 = stringToSign std q2 scope2 amzDate2) :
    q1 = q2 ∧ amzDate1 ++ newline :: scope1.string = amzDate2 ++ newline :: scope2.string := by
  have hlines := append_cancel_left h
  rw [← cons_append, ← cons_append, ← append_assoc, ← append_assoc,
    Fields.append_cons_inj_right (newline_not_mem_encodeToString _)
      (newline_not_mem_encodeToString _)] at hlines
  exact ⟨hsha (encodeToString_inj hlines.2), hlines.1⟩

theorem expectedSignature_inj (hsha : Function.Injective std.sum256) {q1 q2 secret1 secret2 : Bytes}
    (h : expectedSignature std q1 secret1 scope1 amzDate1 =
      expectedSignature std q2 secret2 scope2 amzDate2) :
    q1 = q2 ∧ amzDate1 ++ newline :: scope1.string = amzDate2 ++ newline :: scope2.string :=
  stringToSign_inj hsha (hmacSHA256_inj hsha (encodeToString_inj h))

/-! ## Requests that differ in their path -/

section

variable {escape : Bytes → Bytes} {std : SigV4Std} {r₁ r₂ : Request escape}

section

variable (h : r₁.SameButPath r₂)
include h

theorem Request.SameButPath.headerGet_eq (name : Bytes) :
    r₁.headerGet name = r₂.headerGet name := by
  rw [headerGet, headerGet, h.2.2.1]

theorem Request.SameButPath.signedHeaders_eq (signedHeaders : List Bytes) :
    writeCanonicalHeadersAndSigned std r₁ signedHeaders =
      writeCanonicalHeadersAndSigned std r₂ signedHeaders := by
  have hvalue : signedHeaderValue r₁ = signedHeaderValue r₂ := by
    funext name
    rw [signedHeaderValue, signedHeaderValue, h.headerGet_eq, h.2.2.2]
  rw [writeCanonicalHeadersAndSigned, writeCanonicalHeadersAndSigned, hvalue]

theorem buildCanonicalRequest_inj (signedHeaders : List Bytes) (query : List (Bytes × Bytes))
    (payloadHash : Bytes) :
    buildCanonicalRequest std r₁ signedHeaders query payloadHash =
        buildCanonicalRequest std r₂ signedHeaders query payloadHash ↔
      encodePath r₁.url.canonicalPath = encodePath r₂.url.canonicalPath := by
  rw [buildCanonicalRequest, buildCanonicalRequest, h.1, h.signedHeaders_eq]
  rw [append_cancel_left_eq, cons.injEq, append_cancel_right_eq]
  exact and_iff_right rfl

theorem canonicalRequest_eq_iff (c : SigV4Claim) (signedHeaders : List Bytes) :
    c.canonicalRequest std r₁ signedHeaders = c.canonicalRequest std r₂ signedHeaders ↔
      encodePath r₁.url.canonicalPath = encodePath r₂.url.canonicalPath := by
  rw [SigV4Claim.canonicalRequest, SigV4Claim.canonicalRequest, h.headerGet_eq, h.2.1]
  split_ifs <;> exact buildCanonicalRequest_inj h _ _ _

theorem Request.SameButPath.claim_eq : r₁.claim = r₂.claim := by
  have hheader : ∀ a, headerClaim r₁ a = headerClaim r₂ a := by
    intro a
    rw [headerClaim, headerClaim, h.headerGet_eq]
  have hquery : isPresignedRequest r₁ = isPresignedRequest r₂ ∧
      presignedClaim r₁ = presignedClaim r₂ := by
    simp only [isPresignedRequest, presignedClaim, h.2.1, and_self]
  rw [claim, claim, h.headerGet_eq, hheader, hquery.1, hquery.2]

end

/-! ## What a verified claim shows -/

theorem signature_of_verify {c : SigV4Claim} {now : Int} {r : Request escape} {secret : Bytes}
    {mat : Option StreamingMaterial} (h : c.verify std now r secret = .ok mat) :
    ∃ scope signedHeaders,
      parseSigV4Credential c.credential c.signedHeaders = .ok (scope, signedHeaders) ∧
      expectedSignature std (c.canonicalRequest std r signedHeaders) secret scope c.amzDate =
        c.signature := by
  obtain ⟨⟨scope, signedHeaders⟩, hcred, h⟩ := RowStore.exists_of_bind_ok h
  obtain ⟨_, _, h⟩ := RowStore.exists_of_bind_ok h
  obtain ⟨_, _, h⟩ := RowStore.exists_of_bind_ok h
  obtain ⟨_, hsig, _⟩ := RowStore.exists_of_bind_ok h
  refine ⟨scope, signedHeaders, hcred, ?_⟩
  rw [verifySigV4Signature] at hsig
  split_ifs at hsig with heq
  exact heq

theorem canonicalRequest_eq_of_verify (hsha : Function.Injective std.sum256) {c : SigV4Claim}
    {now1 now2 : Int} {secret : Bytes} {mat1 mat2 : Option StreamingMaterial}
    (h1 : c.verify std now1 r₁ secret = .ok mat1) (h2 : c.verify std now2 r₂ secret = .ok mat2) :
    ∃ signedHeaders,
      c.canonicalRequest std r₁ signedHeaders = c.canonicalRequest std r₂ signedHeaders := by
  obtain ⟨scope1, names1, hcred1, hsig1⟩ := signature_of_verify h1
  obtain ⟨scope2, names2, hcred2, hsig2⟩ := signature_of_verify h2
  rw [hcred1] at hcred2
  obtain ⟨rfl, rfl⟩ := Prod.mk.inj (Except.ok.inj hcred2)
  exact ⟨names1, (expectedSignature_inj hsha (hsig1.trans hsig2.symm)).1⟩

theorem Accepted.verify {U : Type} {byAccessKey : Bytes → Option (Bytes × U)} {now : Int}
    {r : Request escape} (h : Accepted std byAccessKey now r) :
    ∃ c e mat, r.claim = some c ∧ byAccessKey c.accessKey = some e ∧
      c.verify std now r e.1 = .ok mat := by
  obtain ⟨u, mat, h⟩ := h
  rw [authenticate] at h
  cases hc : r.claim with
  | none =>
    rw [hc] at h
    cases h
  | some c =>
    rw [hc] at h
    cases he : byAccessKey c.accessKey with
    | none =>
      split at h <;> simp_all
    | some e =>
      simp only [he, Option.map_some, Option.getD_some] at h
      cases hv : c.verify std now r e.1 with
      | error err =>
        rw [hv] at h
        cases h
      | ok m => exact ⟨c, e, m, rfl, he, hv⟩

theorem canonicalPath_of_accepted {U : Type} (hsha : Function.Injective std.sum256)
    (h : r₁.SameButPath r₂) {byAccessKey : Bytes → Option (Bytes × U)} {now1 now2 : Int}
    (h1 : Accepted std byAccessKey now1 r₁) (h2 : Accepted std byAccessKey now2 r₂) :
    encodePath r₁.url.canonicalPath = encodePath r₂.url.canonicalPath := by
  obtain ⟨c1, e1, mat1, hc1, he1, hv1⟩ := h1.verify
  obtain ⟨c2, e2, mat2, hc2, he2, hv2⟩ := h2.verify
  rw [← h.claim_eq, hc1] at hc2
  obtain rfl := Option.some.inj hc2
  rw [he1] at he2
  obtain rfl := Option.some.inj he2
  obtain ⟨names, hcanon⟩ := canonicalRequest_eq_of_verify hsha hv1 hv2
  exact (canonicalRequest_eq_iff h c1 names).mp hcanon

theorem bindsPath_iff (hsha : Function.Injective std.sum256) (h : r₁.SameButPath r₂) :
    BindsPath std r₁ r₂ ↔ (encodePath r₁.url.canonicalPath = encodePath r₂.url.canonicalPath →
        r₁.url.path = r₂.url.path) := by
  constructor
  · intro hbinds henc
    by_contra hpath
    have hne := (hbinds hpath).1 ⟨[], [], [], [], false, []⟩ []
    exact hne ((canonicalRequest_eq_iff h _ _).mpr henc)
  · intro hinj hpath
    refine ⟨fun c names heq => hpath (hinj ?_), fun byAccessKey now1 now2 h1 h2 => hpath (hinj ?_)⟩
    · exact (canonicalRequest_eq_iff h c names).mp heq
    · exact canonicalPath_of_accepted hsha h h1 h2

/-- **A signature binds the path of its request, but for pairs of paths that are alike**: one has a
percent triplet in its decoded form, or is empty. -/
theorem signature_binds_path (hsha : Function.Injective std.sum256) (h : r₁.SameButPath r₂) :
    (BindsPath std r₁ r₂ ↔
      (Alike (rooted r₁.url.canonicalPath) (rooted r₂.url.canonicalPath) →
        r₁.url.path = r₂.url.path)) ∧
    (r₁.url.Plain → r₂.url.Plain → BindsPath std r₁ r₂) := by
  refine ⟨?_, fun h₁ h₂ => ?_⟩
  · rw [bindsPath_iff hsha h, encodePath_eq_iff]
  · rw [bindsPath_iff hsha h]
    exact WirePath.path_of_encodePath_eq h₁ h₂

end

/-! ## Two keys under one signature -/

def defaultEncoding (path : Bytes) : Bytes :=
  path.flatMap fun b =>
    if isUnreservedPathByte b || (bytesOf "$&+,/:;=@").contains b then [b] else escapeByte b

def spacedPath : WirePath defaultEncoding :=
  ⟨bytesOf "/b/a%20b", bytesOf "/b/a b", [], by decide +kernel, by decide +kernel⟩

def percentPath : WirePath defaultEncoding :=
  ⟨bytesOf "/b/a%2520b", bytesOf "/b/a%20b", [], by decide +kernel, by decide +kernel⟩

def sampleStd : SigV4Std := ⟨id, id, fun a b => a == b, fun _ => some 0⟩

def sampleKeys (accessKey : Bytes) : Option (Bytes × Unit) :=
  if accessKey = bytesOf "K" then some (bytesOf "secret", ()) else none

def signedGet (url : WirePath defaultEncoding) (signature : Bytes) : Request defaultEncoding where
  method := bytesOf "GET"
  url := url
  query := []
  header :=
    [(bytesOf "X-Amz-Date", bytesOf "20260101T000000Z"),
      (bytesOf "Authorization", bytesOf
        "AWS4-HMAC-SHA256 Credential=K/20260101/r/s3/aws4_request,SignedHeaders=host,Signature=" ++
        signature)]
  host := bytesOf "s3"

def spacedSignature : Bytes :=
  expectedSignature sampleStd
    (buildCanonicalRequest sampleStd (signedGet spacedPath []) [bytesOf "host"] [] unsignedPayload)
    (bytesOf "secret") ⟨bytesOf "20260101", bytesOf "r", bytesOf "s3"⟩ (bytesOf "20260101T000000Z")

/-- The signature of a `GET` of `a b` gets `a%20b` too. -/
theorem signature_accepted_for_another_key :
    Function.Injective sampleStd.sum256 ∧
    (signedGet spacedPath spacedSignature).SameButPath (signedGet percentPath spacedSignature) ∧
    parsePath spacedPath.path = some (bytesOf "b", bytesOf "a b") ∧
    parsePath percentPath.path = some (bytesOf "b", bytesOf "a%20b") ∧
    Accepted sampleStd sampleKeys 0 (signedGet spacedPath spacedSignature) ∧
    Accepted sampleStd sampleKeys 0 (signedGet percentPath spacedSignature) ∧
    ¬ BindsPath sampleStd (signedGet spacedPath spacedSignature)
      (signedGet percentPath spacedSignature) := by
  have hspaced : Accepted sampleStd sampleKeys 0 (signedGet spacedPath spacedSignature) :=
    ⟨(), none, by decide +kernel⟩
  have hpercent : Accepted sampleStd sampleKeys 0 (signedGet percentPath spacedSignature) :=
    ⟨(), none, by decide +kernel⟩
  refine ⟨Function.injective_id, ⟨rfl, rfl, rfl, rfl⟩, by decide +kernel, by decide +kernel,
    hspaced, hpercent, fun hbinds => ?_⟩
  exact (hbinds (by decide +kernel)).2 sampleKeys 0 0 hspaced hpercent

def escapedPlusPath : WirePath defaultEncoding :=
  ⟨bytesOf "/b/a%2Bb", bytesOf "/b/a+b", bytesOf "/b/a%2Bb", by decide +kernel, by decide +kernel⟩

/-- The signature of a `GET` of `a b` is none of `a+b`. -/
theorem spacedPath_signature_binds :
    BindsPath sampleStd (signedGet spacedPath spacedSignature)
      (signedGet escapedPlusPath spacedSignature) := by
  have hsha : Function.Injective sampleStd.sum256 := Function.injective_id
  have hsame : (signedGet spacedPath spacedSignature).SameButPath
      (signedGet escapedPlusPath spacedSignature) := ⟨rfl, rfl, rfl, rfl⟩
  refine (signature_binds_path hsha hsame).2 ?_ ?_
  · refine ⟨by decide +kernel, fun _ s t h => ?_⟩
    have hmem : percent ∈ spacedPath.path := by
      rw [show spacedPath.path = s ++ percent :: t from h]
      exact mem_append_right _ mem_cons_self
    exact absurd hmem (by decide +kernel)
  · exact ⟨by decide +kernel, fun hraw => absurd hraw (by decide +kernel)⟩

end S3Orchestrator
