import S3Orchestrator.Auth.SigV4

/-!
# The streaming chunk reader

The body of a streaming upload is a sequence of chunks, each with a header line that gives its size
and, in the signed variants, its signature. The reader checks each chunk before it hands out a byte
of it. After the empty chunk that ends the body there may be a block of trailers.

* `Std`: what the standard library supplies, HMAC and the hashes among it.
-/

namespace S3Orchestrator.Chunked

abbrev Digest : Type := { d : Bytes // d.length = 32 }

inductive Checksum
  | crc32
  | crc32c
  | crc64nvme
  | sha1
  | sha256
deriving DecidableEq

structure TrailerKV where
  name : Bytes
  value : Bytes
deriving DecidableEq

/-- What the standard library supplies. The sort of trailers by name may leave equal names in any
order. -/
structure Std where
  hmacSHA256 : Bytes → Bytes → Digest
  sum256 : Bytes → Digest
  toLower : Bytes → Bytes
  checksum : Checksum → Bytes → Bytes
  sortByName : List TrailerKV → List TrailerKV

/-! ## Limits and errors -/

def maxChunkBytes : Int := 16 * 1024 * 1024
def maxHeaderLineBytes : Nat := 1024
def maxTrailerBlockBytes : Nat := 8 * 1024
def maxTrailerHeaders : Nat := 16

/-- What is wrong with a trailer block. The names are those declared, parsed and missing. -/
inductive TrailerFault
  | unreadLine (tooLong : Bool)
  | blockTooLong (parsed : List Bytes)
  | framing (parsed : List Bytes)
  | missingSignature (declared parsed : List Bytes)
  | unexpectedSignature (declared parsed : List Bytes)
  | missingHeaders (declared parsed missing : List Bytes)
  | unsupportedChecksum (name : Bytes)
deriving DecidableEq

inductive ChunkError
  | chunkSignatureMismatch
  | trailerSignatureMismatch
  | chunkMalformed
  | headerLineTooLong
  | chunkTooLarge
  | decodedLengthMismatch
  | trailerMalformed (fault : TrailerFault)
  | checksumMismatch (name : Bytes)
deriving DecidableEq

/-! ## Framing -/

def carriageReturn : UInt8 := 0x0D

def crlf : Bytes := [carriageReturn, newline]

def readBoundedLine : Nat → Bytes → Except ChunkError (Bytes × Bytes)
  | _, [] => .error .chunkMalformed
  | maxLen, b :: src =>
    if b = carriageReturn then
      match src with
      | [] => .error .chunkMalformed
      | next :: rest => if next = newline then .ok ([], rest) else .error .chunkMalformed
    else if b = newline then .error .chunkMalformed
    else
      match maxLen with
      | 0 => .error .headerLineTooLong
      | maxLen + 1 => (readBoundedLine maxLen src).map fun lr => (b :: lr.1, lr.2)

def readFull (n : Nat) (src : Bytes) : Except ChunkError (Bytes × Bytes) :=
  if src.length < n then .error .chunkMalformed else .ok (src.take n, src.drop n)

def expectCRLF (src : Bytes) : Except ChunkError Bytes :=
  match src with
  | b :: c :: rest => if b = carriageReturn ∧ c = newline then .ok rest else .error .chunkMalformed
  | _ => .error .chunkMalformed

def hexValue (digits : Bytes) : Nat := digits.foldl (fun n b => 16 * n + (unhex b).toNat) 0

def parseHex64 (s : Bytes) : Option Int :=
  let digits := match s with
    | 0x2B :: t => t
    | 0x2D :: t => t
    | t => t
  if digits = [] ∨ digits.all isHexByte = false then none
  else
    let value : Int := hexValue digits
    let signed : Int := if s.head? = some 0x2D then - value else value
    if -9223372036854775808 ≤ signed ∧ signed ≤ 9223372036854775807 then some signed else none

def chunkSignaturePrefix : Bytes := bytesOf "chunk-signature="

def parseChunkHeader (variant : StreamingVariant) (line : Bytes) :
    Except ChunkError (Int × Bytes) :=
  let (hexSize, ext) := match Fields.cut semicolon line with
    | some (hexSize, ext) => (hexSize, some ext)
    | none => (line, none)
  match parseHex64 (trimSpace hexSize) with
  | none => .error .chunkMalformed
  | some size =>
    if size < 0 then .error .chunkMalformed
    else
      match variant.isSigned, ext with
      | true, none => .error .chunkMalformed
      | false, some _ => .error .chunkMalformed
      | false, none => .ok (size, [])
      | true, some ext =>
        if chunkSignaturePrefix.isPrefixOf ext = false then .error .chunkMalformed
        else
          let sig := ext.drop chunkSignaturePrefix.length
          if sig.length ≠ 64 ∨ sig.all isHexByte = false then .error .chunkMalformed
          else .ok (size, sig)

def readChunkHeader (variant : StreamingVariant) (src : Bytes) :
    Except ChunkError (Int × Bytes × Bytes) := do
  let (line, src) ← readBoundedLine maxHeaderLineBytes src
  let (size, sig) ← parseChunkHeader variant line
  .ok (size, sig, src)

/-! ## The signature chain -/

section Reader

variable (std : Std) (mat : StreamingMaterial)

def emptyStringSHA256 : Bytes :=
  bytesOf "e3b0c44298fc1c149afbf4c8996fb92427ae41e4649b934ca495991b7852b855"

def linkSignature (algorithm prevSig : Bytes) (hashes : List Bytes) : Bytes :=
  encodeToString (std.hmacSHA256 mat.signingKey
    (List.intercalate [newline] ([algorithm, mat.amzDate, mat.credScope, prevSig] ++ hashes))).1

def verifyLink (prevSig provided : Bytes) (mismatch : ChunkError) (algorithm : Bytes)
    (hashes : List Bytes) : Except ChunkError Bytes :=
  let expected := linkSignature std mat algorithm prevSig hashes
  if expected = provided then .ok expected else .error mismatch

def chunkSignature (prevSig body : Bytes) : Bytes :=
  linkSignature std mat (bytesOf "AWS4-HMAC-SHA256-PAYLOAD") prevSig
    [emptyStringSHA256, encodeToString (std.sum256 body).1]

def verifyChunk (prevSig body provided : Bytes) : Except ChunkError Bytes :=
  verifyLink std mat prevSig provided .chunkSignatureMismatch (bytesOf "AWS4-HMAC-SHA256-PAYLOAD")
    [emptyStringSHA256, encodeToString (std.sum256 body).1]

/-! ## Trailers -/

def trailerSignatureHeader : Bytes := bytesOf "x-amz-trailer-signature"

def splitTrailerLine (line : Bytes) : Option (Bytes × Bytes) :=
  (Fields.cut colon line).map fun (rawName, rawValue) =>
    (std.toLower (trimSpace rawName), trimSpace rawValue)

def appendTrailerLine (line : Bytes) (headers : List TrailerKV) (trailerSig : Bytes) :
    Option (List TrailerKV × Bytes) :=
  match splitTrailerLine std line with
  | none => none
  | some (name, value) =>
    if name = trailerSignatureHeader then
      if trailerSig ≠ [] then none else some (headers, value)
    else if maxTrailerHeaders ≤ headers.length then none
    else some (headers ++ [⟨name, value⟩], trailerSig)

/-- The lines up to the empty one. Every line takes at least two bytes of the block, so `fuel` for
half of them is enough. -/
def parseTrailerLines : Nat → Nat → List TrailerKV → Bytes → Bytes →
    Except ChunkError (List TrailerKV × Bytes × Bytes)
  | 0, _, headers, _, _ => .error (.trailerMalformed (.blockTooLong (headers.map TrailerKV.name)))
  | fuel + 1, consumed, headers, trailerSig, src =>
    match readBoundedLine maxHeaderLineBytes src with
    | .error e => .error (.trailerMalformed (.unreadLine (decide (e = .headerLineTooLong))))
    | .ok (line, src) =>
      if maxTrailerBlockBytes < consumed + (line.length + 2) then
        .error (.trailerMalformed (.blockTooLong (headers.map TrailerKV.name)))
      else if line = [] then .ok (headers, trailerSig, src)
      else
        match appendTrailerLine std line headers trailerSig with
        | none => .error (.trailerMalformed (.framing (headers.map TrailerKV.name)))
        | some (headers, trailerSig) =>
          parseTrailerLines fuel (consumed + (line.length + 2)) headers trailerSig src

def missingDeclaredTrailers (declared : List Bytes) (headers : List TrailerKV) : List Bytes :=
  declared.filter fun name => !headers.any fun h => h.name == name

def readTrailerBlock (requireSignature : Bool) (src : Bytes) :
    Except ChunkError (List TrailerKV × Bytes × Bytes) := do
  let (headers, trailerSig, src) ←
    parseTrailerLines std (maxTrailerBlockBytes / 2 + 1) 0 [] [] src
  let parsed := headers.map TrailerKV.name
  let missing := missingDeclaredTrailers mat.trailerNames headers
  if requireSignature = true ∧ trailerSig = [] then
    .error (.trailerMalformed (.missingSignature mat.trailerNames parsed))
  else if requireSignature = false ∧ trailerSig ≠ [] then
    .error (.trailerMalformed (.unexpectedSignature mat.trailerNames parsed))
  else if missing ≠ [] then
    .error (.trailerMalformed (.missingHeaders mat.trailerNames parsed missing))
  else .ok (headers, trailerSig, src)

def Checksum.headerName : Checksum → String
  | .crc32 => "x-amz-checksum-crc32"
  | .crc32c => "x-amz-checksum-crc32c"
  | .crc64nvme => "x-amz-checksum-crc64nvme"
  | .sha1 => "x-amz-checksum-sha1"
  | .sha256 => "x-amz-checksum-sha256"

def Checksum.name (c : Checksum) : Bytes := bytesOf c.headerName

def checksumHashes : List Checksum := [.crc32, .crc32c, .crc64nvme, .sha1, .sha256]

def newTrailerChecksums : List Bytes → Except ChunkError (List Checksum)
  | [] => .ok []
  | name :: names =>
    match checksumHashes.find? fun c => c.name == name with
    | none => .error (.trailerMalformed (.unsupportedChecksum name))
    | some c => (newTrailerChecksums names).map (c :: ·)

def base64Digit (n : UInt8) : UInt8 :=
  if n < 26 then 0x41 + n
  else if n < 52 then 0x61 + (n - 26)
  else if n < 62 then 0x30 + (n - 52)
  else if n = 62 then 0x2B
  else 0x2F

def base64 : Bytes → Bytes
  | [] => []
  | [a] => [base64Digit (a >>> 2), base64Digit ((a &&& 3) <<< 4), equalsSign, equalsSign]
  | [a, b] =>
    [base64Digit (a >>> 2), base64Digit ((a &&& 3) <<< 4 ||| b >>> 4),
      base64Digit ((b &&& 15) <<< 2), equalsSign]
  | a :: b :: c :: s =>
    base64Digit (a >>> 2) :: base64Digit ((a &&& 3) <<< 4 ||| b >>> 4) ::
      base64Digit ((b &&& 15) <<< 2 ||| c >>> 6) :: base64Digit (c &&& 63) :: base64 s

def lastValue (headers : List TrailerKV) (name : Bytes) : Bytes :=
  ((headers.reverse.find? fun h => h.name == name).map TrailerKV.value).getD []

def verifyUnsignedTrailerChecksums (checksums : List Checksum) (hashed : Bytes)
    (headers : List TrailerKV) : Except ChunkError Unit :=
  match checksums.find? fun c => base64 (std.checksum c hashed) != lastValue headers c.name with
  | some c => .error (.checksumMismatch c.name)
  | none => .ok ()

def canonicalizeTrailers (headers : List TrailerKV) : Bytes :=
  (std.sortByName headers).flatMap fun h => h.name ++ colon :: (h.value ++ [newline])

/-! ## The reader -/

/-- The bytes not read, the signature the next chunk follows, what the trailer checksums have been
fed, and the verified bytes not handed out. -/
structure ChunkReader where
  src : Bytes
  prevSig : Bytes
  hashed : Bytes := []
  buf : Bytes := []
  decoded : Int := 0
  eof : Bool := false
  err : Option ChunkError := none

def trailerChecksums : Except ChunkError (List Checksum) :=
  if mat.variant = .unsignedTrailer then newTrailerChecksums mat.trailerNames else .ok []

def newChunkReader (body : Bytes) : ChunkReader where
  src := body
  prevSig := mat.seedSig

def finalizeSigned (r : ChunkReader) (finalChunkSig : Bytes) : Except ChunkError ChunkReader := do
  let prevSig ← verifyChunk std mat r.prevSig [] finalChunkSig
  let src ← expectCRLF r.src
  .ok { r with prevSig := prevSig, src := src }

def finalizeSignedTrailer (r : ChunkReader) (finalChunkSig : Bytes) :
    Except ChunkError ChunkReader := do
  let prevSig ← verifyChunk std mat r.prevSig [] finalChunkSig
  let (headers, providedSig, src) ← readTrailerBlock std mat true r.src
  let prevSig ← verifyLink std mat prevSig providedSig .trailerSignatureMismatch
    (bytesOf "AWS4-HMAC-SHA256-TRAILER")
    [encodeToString (std.sum256 (canonicalizeTrailers std headers)).1]
  .ok { r with prevSig := prevSig, src := src }

def finalizeUnsignedTrailer (r : ChunkReader) : Except ChunkError ChunkReader := do
  let checksums ← trailerChecksums mat
  let (headers, _, src) ← readTrailerBlock std mat false r.src
  verifyUnsignedTrailerChecksums std checksums r.hashed headers
  .ok { r with src := src }

def finalizeVariant (r : ChunkReader) (finalChunkSig : Bytes) : Except ChunkError ChunkReader :=
  match mat.variant with
  | .signed => finalizeSigned std mat r finalChunkSig
  | .signedTrailer => finalizeSignedTrailer std mat r finalChunkSig
  | .unsignedTrailer => finalizeUnsignedTrailer std mat r
  | .none => .ok r

def finalize (r : ChunkReader) (finalChunkSig : Bytes) : Except ChunkError ChunkReader := do
  let r ← finalizeVariant std mat r finalChunkSig
  if r.decoded ≠ mat.decodedLen then .error .decodedLengthMismatch else .ok { r with eof := true }

def checkChunk (prevSig body chunkSig : Bytes) : Except ChunkError Bytes :=
  if mat.variant.isSigned then verifyChunk std mat prevSig body chunkSig
  else .ok prevSig

def advance (r : ChunkReader) : Except ChunkError ChunkReader := do
  let (size, chunkSig, src) ← readChunkHeader mat.variant r.src
  if size = 0 then finalize std mat { r with src := src } chunkSig
  else if maxChunkBytes < size then .error .chunkTooLarge
  else if mat.decodedLen < r.decoded + size then .error .decodedLengthMismatch
  else
    let (body, src) ← readFull size.toNat src
    let src ← expectCRLF src
    let prevSig ← checkChunk std mat r.prevSig body chunkSig
    let _ ← trailerChecksums mat
    .ok { r with
      src := src
      prevSig := prevSig
      hashed := r.hashed ++ body
      buf := body
      decoded := r.decoded + size }

inductive ReadResult
  | data (bytes : Bytes)
  | eof
  | failed (err : ChunkError)
deriving DecidableEq

def deliver (n : Nat) (r : ChunkReader) : ReadResult × ChunkReader :=
  (.data (r.buf.take n), { r with buf := r.buf.drop n })

/-- A call of `Read` for up to `n` bytes. A chunk has at least one byte, so one chunk is enough. -/
def read (n : Nat) (r : ChunkReader) : ReadResult × ChunkReader :=
  match r.err with
  | some err => (.failed err, r)
  | none =>
    if r.buf ≠ [] then deliver n r
    else if r.eof then (.eof, r)
    else
      match advance std mat r with
      | .error err => (.failed err, { r with err := some err })
      | .ok r => if r.eof then (.eof, r) else deliver n r

end Reader

end S3Orchestrator.Chunked
