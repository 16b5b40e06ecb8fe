import S3Orchestrator.Auth.ChunkEncoding
import S3Orchestrator.Lib.Stream

/-!
# Declared body digests

A request can state what its body hashes to. The body is wrapped in a reader that hashes it as it is
read, and compares on the read that delivers the last byte, or at the end.

* **`mirrors_after`**, **`erred_or_mirrors`**: the wrapped body gives what the bare one does until a
  digest disagrees, and then it fails;
* **`digests_hold_iff`**: when no body that contradicts a digest is taken as complete.
-/

namespace S3Orchestrator.Digest

open List

open ByteStream (Err)
open Chunked (Checksum checksumHashes)
open RowStore (after after_append after_cons after_nil)

/-! ## What a request states -/

def errPayloadHashMismatch : Err := .text "payload hash mismatch"
def errDigestMalformed : Err := .text "malformed Content-MD5"
def errChecksumMalformed : Err := .text "malformed checksum header"
def errChecksumMismatch : Err := .text "checksum mismatch"

/-- What the standard library supplies besides. -/
structure Std extends Chunked.Std where
  md5 : Bytes → Bytes
  decodeBase64 : Bytes → Option Bytes

/-- The headers that state a digest; one that is not there is empty. -/
structure Header where
  contentMD5 : Bytes := []
  checksum : Checksum → Bytes := fun _ => []
  contentSha256 : Bytes := []

structure DeclaredDigest where
  sum : Bytes → Bytes
  want : Bytes
  mismatch : Err

def sumSize : Checksum → Nat
  | .crc32 | .crc32c => 4
  | .crc64nvme => 8
  | .sha1 => 20
  | .sha256 => 32

def md5Size : Nat := 16

def decodeHex : Bytes → Bytes
  | a :: b :: s => (unhex a <<< 4 ||| unhex b) :: decodeHex s
  | _ => []

def isPayloadHash (value : Bytes) : Bool := value.length == 64 && value.all isHexByte

section Declared

variable (std : Std) (h : Header)

def base64Digest (sum : Bytes → Bytes) (size : Nat) (value : Bytes) (malformed : Err) :
    Except Err DeclaredDigest :=
  match std.decodeBase64 value with
  | none => .error malformed
  | some want =>
    if want.length ≠ size then .error malformed else .ok ⟨sum, want, errChecksumMismatch⟩

def md5Digest : Except Err (List DeclaredDigest) :=
  if h.contentMD5 = [] then .ok []
  else (base64Digest std std.md5 md5Size h.contentMD5 errDigestMalformed).map ([·])

def checksumDigests : List Checksum → Except Err (List DeclaredDigest)
  | [] => .ok []
  | c :: order =>
    if h.checksum c = [] then checksumDigests order
    else
      match base64Digest std (std.checksum c) (sumSize c) (h.checksum c) errChecksumMalformed with
      | .error e => .error (.join e (.text c.headerName))
      | .ok d => (checksumDigests order).map (d :: ·)

def payloadDigest : List DeclaredDigest :=
  if isPayloadHash h.contentSha256 then
    [⟨fun body => (std.sum256 body).1, decodeHex h.contentSha256, errPayloadHashMismatch⟩]
  else []

/-- Every digest the header states. The checksum headers are looked at in the order of a map. -/
def declaredDigests (order : List Checksum) : Except Err (List DeclaredDigest) := do
  let md5 ← md5Digest std h
  let sums ← checksumDigests std h order
  .ok (md5 ++ sums ++ payloadDigest std h)

/-- The body hashes to every digest the header states. -/
structure Agrees (body : Bytes) : Prop where
  md5 : h.contentMD5 ≠ [] → std.decodeBase64 h.contentMD5 = some (std.md5 body)
  checksum : ∀ c, h.checksum c ≠ [] →
    std.decodeBase64 (h.checksum c) = some (std.checksum c body)
  payload : isPayloadHash h.contentSha256 = true →
    decodeHex h.contentSha256 = (std.sum256 body).1

end Declared

/-! ## The reader -/

section Reader

variable {σ : Type} (rd : σ → Nat → Bytes × Option Err × σ)

/-- What the hashes have been fed, and the bytes that are still to come. A length that is not known
is negative. -/
structure DigestReader (σ : Type) where
  inner : σ
  digests : List DeclaredDigest
  hashed : Bytes := []
  remaining : Int
  failed : Option Err := none

def compare (digests : List DeclaredDigest) (hashed : Bytes) : Option Err :=
  (digests.find? fun d => d.sum hashed != d.want).map DeclaredDigest.mismatch

def isEOF (err : Option Err) : Bool := err.any fun e => e.is .eof

def DigestReader.took (d : DigestReader σ) (out : Bytes) (err : Option Err) (inner : σ) :
    Bytes × Option Err × DigestReader σ :=
  let d' := { d with
    inner := inner
    hashed := d.hashed ++ out
    remaining := d.remaining - out.length }
  if d'.remaining = 0 ∨ isEOF err = true then
    match compare d.digests d'.hashed with
    | some e => (out, some e, { d' with failed := some e })
    | none => (out, err, d')
  else (out, err, d')

def DigestReader.read (d : DigestReader σ) (k : Nat) : Bytes × Option Err × DigestReader σ :=
  match d.failed with
  | some e => ([], some e, d)
  | none => d.took (rd d.inner k).1 (rd d.inner k).2.1 (rd d.inner k).2.2

inductive Body (σ : Type)
  | noBody
  | inner (s : σ)
  | digest (d : DigestReader σ)

def Body.read : Body σ → Nat → Bytes × Option Err × Body σ
  | .noBody, _ => ([], some .eof, .noBody)
  | .inner s, k => ((rd s k).1, (rd s k).2.1, .inner (rd s k).2.2)
  | .digest d, k => ((d.read rd k).1, (d.read rd k).2.1, .digest (d.read rd k).2.2)

def bare : Option σ → Body σ
  | none => .noBody
  | some s => .inner s

def verifyDigests (std : Std) (order : List Checksum) (h : Header) (contentLength : Int) :
    Option σ → Body σ
  | none => .noBody
  | some s =>
    match declaredDigests std h order with
    | .error e =>
      .digest { inner := s, digests := [], remaining := contentLength, failed := some e }
    | .ok [] => .inner s
    | .ok (d :: digests) =>
      .digest { inner := s, digests := d :: digests, remaining := contentLength }

/-! ## Consumers -/

structure Consumer (σ : Type) where
  body : Body σ
  log : List (Bytes × Option Err) := []

def Consumer.call (c : Consumer σ) (k : Nat) : Consumer σ :=
  ⟨(c.body.read rd k).2.2, c.log ++ [((c.body.read rd k).1, (c.body.read rd k).2.1)]⟩

def Consumer.received (c : Consumer σ) : Bytes := (c.log.map Prod.fst).flatten

def Consumer.Ended (c : Consumer σ) : Prop := ∃ r ∈ c.log, r.2 = some .eof

def Consumer.Erred (c : Consumer σ) : Prop := ∃ r ∈ c.log, ∃ e, r.2 = some e ∧ e ≠ .eof

def Consumer.Done (length : Int) (c : Consumer σ) : Prop :=
  c.Ended ∨ 0 ≤ length ∧ length ≤ c.received.length

def consume (body : Body σ) (calls : List Nat) : Consumer σ :=
  after (Consumer.call rd) { body := body } calls

def Until (P : Consumer σ → Prop) (body : Body σ) (calls : List Nat) : Prop :=
  P (consume rd body calls) ∧
    ∀ earlier later, calls = earlier ++ later → later ≠ [] → ¬ P (consume rd body earlier)

/-- The consumer calls until it has the declared number of bytes or the end, or until the end, and
has seen no error. -/
def Finishes (length : Int) (body : Body σ) (calls : List Nat) : Prop :=
  ¬ (consume rd body calls).Erred ∧
    (Until rd (Consumer.Done length) body calls ∨ Until rd Consumer.Ended body calls)

/-- The consumer is done without a read that compares: there is no body, it did not read, or the
last read went past the declared length. -/
def Unchecked (length : Int) (body : Option σ) (calls : List Nat) : Prop :=
  Finishes rd length (bare body) calls ∧
    (body = none ∨ calls = [] ∨
      length < (consume rd (bare body) calls).received.length ∧
        ¬ (consume rd (bare body) calls).Ended)

def Consumer.Compares (length : Int) (c : Consumer σ) : Prop :=
  (c.received.length : Int) = length ∨ ∃ r, c.log.getLast? = some r ∧ isEOF r.2 = true

end Reader

/-! ## The digests of a header -/

section Agreement

variable {std : Std} {h : Header}

theorem base64Digest_ok {sum : Bytes → Bytes} {size : Nat} {value : Bytes} {malformed : Err}
    {d : DeclaredDigest} (hd : base64Digest std sum size value malformed = .ok d) (body : Bytes) :
    d.mismatch = errChecksumMismatch ∧
      (d.sum body = d.want ↔ std.decodeBase64 value = some (sum body)) := by
  unfold base64Digest at hd
  split at hd
  · cases hd
  · next want hwant =>
      split_ifs at hd
      cases hd
      exact ⟨rfl, by simp [hwant, eq_comm]⟩

variable {digests : List DeclaredDigest}

theorem md5Digest_ok (hd : md5Digest std h = .ok digests) (body : Bytes) :
    (∀ d ∈ digests, d.mismatch ≠ .eof) ∧ ((∀ d ∈ digests, d.sum body = d.want) ↔
        (h.contentMD5 ≠ [] → std.decodeBase64 h.contentMD5 = some (std.md5 body))) := by
  unfold md5Digest at hd
  split_ifs at hd with hempty
  · cases hd
    simp [hempty]
  · cases hbase : base64Digest std std.md5 md5Size h.contentMD5 errDigestMalformed with
    | error e => simp [hbase, Except.map] at hd
    | ok d =>
      rw [hbase] at hd
      cases hd
      obtain ⟨hmismatch, hsum⟩ := base64Digest_ok hbase body
      simp [hmismatch, hsum, hempty, errChecksumMismatch]

theorem checksumDigests_ok {order : List Checksum} (hd : checksumDigests std h order = .ok digests)
    (body : Bytes) :
    (∀ d ∈ digests, d.mismatch ≠ .eof) ∧ ((∀ d ∈ digests, d.sum body = d.want) ↔
        ∀ c ∈ order, h.checksum c ≠ [] →
          std.decodeBase64 (h.checksum c) = some (std.checksum c body)) := by
  induction order generalizing digests with
  | nil =>
    cases hd
    simp
  | cons c order ih =>
    rw [checksumDigests] at hd
    split_ifs at hd with hempty
    · simpa [hempty] using ih hd
    · cases hbase : base64Digest std (std.checksum c) (sumSize c) (h.checksum c)
          errChecksumMalformed with
      | error e => simp [hbase] at hd
      | ok d =>
        cases hrest : checksumDigests std h order with
        | error e => simp [hbase, hrest, Except.map] at hd
        | ok rest =>
          simp only [hbase, hrest, Except.map, Except.ok.injEq] at hd
          subst hd
          obtain ⟨hmismatch, hsum⟩ := base64Digest_ok hbase body
          obtain ⟨hmismatches, hsums⟩ := ih hrest
          refine ⟨?_, ?_⟩
          · simpa [hmismatch, errChecksumMismatch] using hmismatches
          · rw [forall_mem_cons, forall_mem_cons, hsum, hsums]
            simp [hempty]

theorem declaredDigests_ok {order : List Checksum} (horder : ∀ c, c ∈ order)
    (hd : declaredDigests std h order = .ok digests) (body : Bytes) :
    (∀ d ∈ digests, d.mismatch ≠ .eof) ∧
      ((∀ d ∈ digests, d.sum body = d.want) ↔ Agrees std h body) := by
  obtain ⟨md5, hmd5, hd⟩ := RowStore.exists_of_bind_ok hd
  obtain ⟨sums, hsums, hd⟩ := RowStore.exists_of_bind_ok hd
  cases hd
  obtain ⟨hmd5m, hmd5s⟩ := md5Digest_ok hmd5 body
  obtain ⟨hsumsm, hsumss⟩ := checksumDigests_ok hsums body
  have hpayload : (∀ d ∈ payloadDigest std h, d.mismatch ≠ .eof) ∧
      ((∀ d ∈ payloadDigest std h, d.sum body = d.want) ↔ (isPayloadHash h.contentSha256 = true →
          decodeHex h.contentSha256 = (std.sum256 body).1)) := by
    unfold payloadDigest
    split_ifs with hhash
    · simp [hhash, errPayloadHashMismatch, eq_comm]
    · simp [hhash]
  constructor
  · intro d hin
    rcases mem_append.mp hin with hin | hin
    · rcases mem_append.mp hin with hin | hin
      · exact hmd5m d hin
      · exact hsumsm d hin
    · exact hpayload.1 d hin
  · rw [forall_mem_append, forall_mem_append, hmd5s, hsumss, hpayload.2]
    exact ⟨fun ⟨⟨h1, h2⟩, h3⟩ => ⟨h1, fun c => h2 c (horder c), h3⟩,
      fun hagrees => ⟨⟨hagrees.md5, fun c _ => hagrees.checksum c⟩, hagrees.payload⟩⟩

theorem compare_eq_none {body : Bytes} :
    compare digests body = none ↔ ∀ d ∈ digests, d.sum body = d.want := by
  simp [compare]

end Agreement

/-! ## The wrapped body and the bare one -/

section Mirror

variable {σ : Type} (rd : σ → Nat → Bytes × Option Err × σ)

/-- The consumer of the wrapped body has seen what the consumer of the bare one has, and its reader
has hashed that. -/
structure Mirrors (digests : List DeclaredDigest) (length : Int) (c b : Consumer σ) : Prop where
  log : c.log = b.log
  body : ∃ s, b.body = .inner s ∧ c.body = .digest {
    inner := s
    digests := digests
    hashed := b.received
    remaining := length - b.received.length }

variable {rd} {digests : List DeclaredDigest} {length : Int} {c b : Consumer σ}

theorem received_call (b : Consumer σ) (k : Nat) :
    (b.call rd k).received = b.received ++ (b.body.read rd k).1 := by
  simp [Consumer.received, Consumer.call]

theorem compares_call_iff (k : Nat) : (b.call rd k).Compares length ↔
      length - ((b.received ++ (b.body.read rd k).1).length : Int) = 0 ∨
        isEOF (b.body.read rd k).2.1 = true := by
  unfold Consumer.Compares
  rw [received_call]
  refine or_congr ⟨fun h => by omega, fun h => by omega⟩ ?_
  simp [Consumer.call]

theorem remaining_call (b : Consumer σ) (k : Nat) :
    length - b.received.length - ((b.body.read rd k).1.length : Int) =
      length - ((b.received ++ (b.body.read rd k).1).length : Int) := by
  rw [length_append]
  omega

variable (rd) in
theorem Mirrors.read_digest (h : Mirrors digests length c b) (k : Nat) : ∃ s d, b.body = .inner s ∧
      d = DigestReader.took ⟨s, digests, b.received, length - b.received.length, none⟩
        (b.body.read rd k).1 (b.body.read rd k).2.1 (rd s k).2.2 ∧
      c.body.read rd k = (d.1, d.2.1, .digest d.2.2) := by
  obtain ⟨s, hb, hc⟩ := h.body
  refine ⟨s, _, hb, rfl, ?_⟩
  rw [hc, hb]
  rfl

theorem Mirrors.call (h : Mirrors digests length c b) (k : Nat)
    (hagrees : (b.call rd k).Compares length → compare digests (b.call rd k).received = none) :
    Mirrors digests length (c.call rd k) (b.call rd k) := by
  obtain ⟨s, d, hb, hd, hread⟩ := h.read_digest rd k
  rw [compares_call_iff, received_call] at hagrees
  have hd : d = ((b.body.read rd k).1, (b.body.read rd k).2.1,
      { inner := (rd s k).2.2
        digests := digests
        hashed := b.received ++ (b.body.read rd k).1
        remaining := length - ((b.received ++ (b.body.read rd k).1).length : Int) }) := by
    rw [hd, DigestReader.took]
    simp only [remaining_call]
    split_ifs with hcompares
    · rw [hagrees hcompares]
    · rfl
  subst hd
  constructor
  · simp only [Consumer.call, hread, h.log]
  · refine ⟨(rd s k).2.2, ?_, ?_⟩
    · simp only [Consumer.call, hb]
      rfl
    · rw [received_call]
      simp only [Consumer.call, hread]

theorem Mirrors.call_erred (h : Mirrors digests length c b) (k : Nat)
    (hmismatch : ∀ d ∈ digests, d.mismatch ≠ .eof) (hcompares : (b.call rd k).Compares length)
    (hdisagrees : compare digests (b.call rd k).received ≠ none) : (c.call rd k).Erred := by
  obtain ⟨s, d, hb, hd, hread⟩ := h.read_digest rd k
  obtain ⟨e, he⟩ := Option.ne_none_iff_exists'.mp hdisagrees
  have hne : e ≠ .eof := by
    obtain ⟨d, hd, rfl⟩ := Option.map_eq_some_iff.mp he
    exact hmismatch d (mem_of_find?_eq_some hd)
  rw [compares_call_iff] at hcompares
  rw [received_call] at he
  refine ⟨((c.body.read rd k).1, (c.body.read rd k).2.1), by simp [Consumer.call], e, ?_, hne⟩
  rw [hread, hd]
  simp only [DigestReader.took, remaining_call, if_pos hcompares, he]

/-! ### Runs -/

theorem consume_concat (body : Body σ) (calls : List Nat) (k : Nat) :
    consume rd body (calls ++ [k]) = (consume rd body calls).call rd k := by
  rw [consume, after_append]
  rfl

theorem log_subset (body : Body σ) (earlier later : List Nat) :
    (consume rd body earlier).log ⊆ (consume rd body (earlier ++ later)).log := by
  induction later using reverseRecOn with
  | nil => simp
  | append_singleton later k ih =>
    rw [← append_assoc, consume_concat]
    exact fun r hr => mem_append_left _ (ih hr)

variable {calls : List Nat} {body : Body σ}

theorem erred_append {earlier : List Nat} (h : (consume rd body earlier).Erred) (later : List Nat) :
    (consume rd body (earlier ++ later)).Erred := by
  obtain ⟨r, hr, he⟩ := h
  exact ⟨r, log_subset body earlier later hr, he⟩

theorem mirrors_start (digests : List DeclaredDigest) (length : Int) (s : σ) :
    Mirrors digests length
      (consume rd (.digest { inner := s, digests := digests, remaining := length }) [])
      (consume rd (.inner s) []) :=
  ⟨rfl, s, rfl, by simp [consume, Consumer.received]⟩

/-- **Where the digests agree each time they are compared, the wrapped body gives what the bare one
does.** -/
theorem mirrors_after {s : σ} (hagrees : ∀ earlier k later, calls = earlier ++ k :: later →
      (consume rd (.inner s) (earlier ++ [k])).Compares length →
        compare digests (consume rd (.inner s) (earlier ++ [k])).received = none) :
    Mirrors digests length
      (consume rd (.digest { inner := s, digests := digests, remaining := length }) calls)
      (consume rd (.inner s) calls) := by
  -- The calls are taken from the last: the condition is about every call before.
  induction calls using reverseRecOn with
  | nil => exact mirrors_start digests length s
  | append_singleton calls k ih =>
    have hbefore := ih fun earlier k' later heq =>
      hagrees earlier k' (later ++ [k]) (by simp [heq])
    have hlast := hagrees calls k [] rfl
    rw [consume_concat] at hlast
    rw [consume_concat, consume_concat]
    exact hbefore.call k hlast

/-- **The wrapped body fails, or gives what the bare one does, and then the digests agreed when they
were compared.** -/
theorem erred_or_mirrors (hmismatch : ∀ d ∈ digests, d.mismatch ≠ .eof) (s : σ) (calls : List Nat) :
    (consume rd (.digest { inner := s, digests := digests, remaining := length }) calls).Erred ∨
      Mirrors digests length
        (consume rd (.digest { inner := s, digests := digests, remaining := length }) calls)
        (consume rd (.inner s) calls) ∧
      (calls ≠ [] → (consume rd (.inner s) calls).Compares length →
        compare digests (consume rd (.inner s) calls).received = none) := by
  induction calls using reverseRecOn with
  | nil => exact .inr ⟨mirrors_start digests length s, fun h => absurd rfl h⟩
  | append_singleton calls k ih =>
    rcases ih with herred | ⟨hmirrors, -⟩
    · exact .inl (erred_append herred [k])
    · rw [consume_concat, consume_concat]
      by_cases hagrees : ((consume rd (.inner s) calls).call rd k).Compares length →
          compare digests ((consume rd (.inner s) calls).call rd k).received = none
      · exact .inr ⟨hmirrors.call k hagrees, fun _ => hagrees⟩
      · obtain ⟨hcompares, hdisagrees⟩ := Classical.not_imp.mp hagrees
        exact .inl (hmirrors.call_erred k hmismatch hcompares hdisagrees)

theorem received_congr (hlog : c.log = b.log) : c.received = b.received := by
  rw [Consumer.received, hlog]
  rfl

theorem finishes_congr {body body' : Body σ} (hlog : ∀ earlier later, calls = earlier ++ later →
      (consume rd body earlier).log = (consume rd body' earlier).log) :
    Finishes rd length body calls ↔ Finishes rd length body' calls := by
  have hend := hlog calls [] (append_nil calls).symm
  have huntil : ∀ P : Consumer σ → Prop, (∀ c c', c.log = c'.log → (P c ↔ P c')) →
      (Until rd P body calls ↔ Until rd P body' calls) := fun P hP =>
    and_congr (hP _ _ hend) <| forall₂_congr fun earlier later => imp_congr_right fun heq =>
      imp_congr_right fun _ => not_congr (hP _ _ (hlog earlier later heq))
  have hended : ∀ c c' : Consumer σ, c.log = c'.log → (c.Ended ↔ c'.Ended) := fun c c' h => by
    simp only [Consumer.Ended, h]
  refine and_congr ?_ (or_congr (huntil _ fun c c' h => ?_) (huntil _ hended))
  · simp only [Consumer.Erred, hend]
  · simp only [Consumer.Done, hended c c' h, received_congr h]

theorem not_isEOF_last (herred : ¬ (consume rd body calls).Erred)
    (hended : ¬ (consume rd body calls).Ended) {r : Bytes × Option Err}
    (hr : (consume rd body calls).log.getLast? = some r) : isEOF r.2 = false := by
  have hin := mem_of_getLast? hr
  cases he : r.2 with
  | none => rfl
  | some e =>
    by_cases heof : e = .eof
    · exact absurd ⟨r, hin, heof ▸ he⟩ hended
    · exact absurd ⟨r, hin, e, he, heof⟩ herred

theorem ended_last (hended : (consume rd body calls).Ended)
    (hbefore : ∀ earlier later, calls = earlier ++ later → later ≠ [] →
      ¬ (consume rd body earlier).Ended) :
    ∃ r, (consume rd body calls).log.getLast? = some r ∧ isEOF r.2 = true := by
  induction calls using reverseRecOn with
  | nil =>
    obtain ⟨r, hr, -⟩ := hended
    cases hr
  | append_singleton calls k _ =>
    rw [consume_concat] at hended ⊢
    obtain ⟨r, hr, heof⟩ := hended
    refine ⟨r, ?_, by rw [heof]; rfl⟩
    rcases mem_append.mp hr with hr | hr
    · exact absurd ⟨r, hr, heof⟩ (hbefore calls [k] rfl (by simp))
    · rw [Consumer.call, getLast?_concat, mem_singleton.mp hr]

theorem compares_of_finishes (hfin : Finishes rd length body calls)
    (hwithin : (consume rd body calls).Ended ∨
      ((consume rd body calls).received.length : Int) ≤ length) :
    (consume rd body calls).Compares length := by
  by_cases hended : (consume rd body calls).Ended
  · refine .inr (ended_last hended ?_)
    rcases hfin.2 with ⟨-, hbefore⟩ | ⟨-, hbefore⟩
    · exact fun earlier later heq hne h => hbefore earlier later heq hne (.inl h)
    · exact hbefore
  · rcases hfin.2 with ⟨hdone | ⟨-, hlen⟩, -⟩ | ⟨h, -⟩
    · exact absurd hdone hended
    · exact .inl (le_antisymm (hwithin.resolve_left hended) hlen)
    · exact absurd h hended

theorem not_compares_of_over {calls earlier later : List Nat} (hfin : Finishes rd length body calls)
    (hended : ¬ (consume rd body calls).Ended)
    (hover : length < (consume rd body calls).received.length) (heq : calls = earlier ++ later) :
    ¬ (consume rd body earlier).Compares length := by
  subst heq
  have hnotEnded : ¬ (consume rd body earlier).Ended := fun ⟨r, hr, heof⟩ =>
    hended ⟨r, log_subset body earlier later hr, heof⟩
  have hnotErred : ¬ (consume rd body earlier).Erred := fun h => hfin.1 (erred_append h later)
  rintro (hlen | ⟨r, hr, heof⟩)
  · obtain ⟨-, hbefore⟩ := hfin.2.resolve_right fun h => hended h.1
    by_cases hlater : later = []
    · subst hlater
      rw [append_nil] at hover
      omega
    · have hpos : 0 ≤ length := hlen ▸ Int.natCast_nonneg _
      exact hbefore earlier later rfl hlater (.inr ⟨hpos, le_of_eq hlen.symm⟩)
  · rw [not_isEOF_last hnotErred hnotEnded hr] at heof
    cases heof

end Mirror

/-! ## Bodies that are taken as complete -/

section Complete

variable {σ : Type} {rd : σ → Nat → Bytes × Option Err × σ} {std : Std}

theorem decodeHex_encodeToString (s : Bytes) : decodeHex (encodeToString s) = s := by
  have hbyte : ∀ b : UInt8, decodeHex (hexByte b) = [b] := forall_byte (by decide +kernel)
  induction s with
  | nil => rfl
  | cons b s ih =>
    have hcons : decodeHex (encodeToString (b :: s)) =
        decodeHex (hexByte b) ++ decodeHex (encodeToString s) := rfl
    rw [hcons, hbyte, ih]
    rfl

def statesHash (sum : Chunked.Digest) : Header := { contentSha256 := encodeToString sum.1 }

theorem isPayloadHash_statesHash (sum : Chunked.Digest) :
    isPayloadHash (statesHash sum).contentSha256 = true := by
  rw [isPayloadHash, statesHash, Chunked.length_encodeToString, sum.2, Bool.and_eq_true]
  exact ⟨rfl, all_eq_true.mpr (Chunked.isHexByte_encodeToString _)⟩

variable {calls : List Nat} {order : List Checksum} {length : Int} {h : Header} {body : Option σ}

theorem checksumDigests_nil (hnone : ∀ c, h.checksum c = []) (order : List Checksum) :
    checksumDigests std h order = .ok [] := by
  induction order with
  | nil => rfl
  | cons c order ih => rw [checksumDigests, if_pos (hnone c), ih]

theorem declaredDigests_statesHash (sum : Chunked.Digest) (order : List Checksum) :
    declaredDigests std (statesHash sum) order =
      .ok [⟨fun body => (std.sum256 body).1, sum.1, errPayloadHashMismatch⟩] := by
  have hpayload : payloadDigest std (statesHash sum) =
      [⟨fun body => (std.sum256 body).1, sum.1, errPayloadHashMismatch⟩] := by
    rw [payloadDigest, if_pos (isPayloadHash_statesHash sum), statesHash, decodeHex_encodeToString]
  rw [declaredDigests, checksumDigests_nil fun _ => rfl, hpayload]
  rfl

theorem agrees_statesHash_iff {sum : Chunked.Digest} {body : Bytes} :
    Agrees std (statesHash sum) body ↔ sum = std.sum256 body := by
  have hdecode : decodeHex (statesHash sum).contentSha256 = sum.1 := decodeHex_encodeToString sum.1
  constructor
  · intro h
    exact Subtype.ext (hdecode.symm.trans (h.payload (isPayloadHash_statesHash sum)))
  · rintro rfl
    exact ⟨fun h => absurd rfl h, fun _ h => absurd rfl h, fun _ => hdecode⟩

theorem exists_ne_digest (sum : Chunked.Digest) : ∃ other : Chunked.Digest, other ≠ sum := by
  by_cases h : sum = ⟨replicate 32 0, rfl⟩
  · exact ⟨⟨replicate 32 1, rfl⟩, h ▸ by decide⟩
  · exact ⟨_, Ne.symm h⟩

theorem declaredDigests_error {e : Err} (he : declaredDigests std h order = .error e) :
    e ≠ .eof := by
  have hsums : ∀ order e, checksumDigests std h order = .error e → e ≠ .eof := by
    intro order
    induction order with
    | nil => rintro e ⟨⟩
    | cons c order ih =>
      intro e he
      rw [checksumDigests] at he
      split_ifs at he
      · exact ih e he
      · split at he
        · cases he
          simp
        · cases hrest : checksumDigests std h order with
          | error =>
            rw [hrest] at he
            cases he
            exact ih _ hrest
          | ok rest => simp [hrest, Except.map] at he
  have hmd5 : ∀ e, md5Digest std h = .error e → e ≠ .eof := by
    intro e he
    unfold md5Digest base64Digest at he
    split_ifs at he
    split at he
    · cases he
      simp [errDigestMalformed]
    · split_ifs at he
      · cases he
        simp [errDigestMalformed]
      · cases he
  unfold declaredDigests at he
  cases hm : md5Digest std h with
  | error =>
    rw [hm] at he
    cases he
    exact hmd5 _ hm
  | ok md5 =>
    cases hs : checksumDigests std h order with
    | error =>
      rw [hm, hs] at he
      cases he
      exact hsums order _ hs
    | ok sums =>
      rw [hm, hs] at he
      cases he

theorem erred_of_malformed {s : σ} {e : Err} (he : e ≠ .eof) (hne : calls ≠ []) :
    (consume rd (.digest { inner := s, digests := [], remaining := length, failed := some e })
      calls).Erred := by
  obtain ⟨k, later, rfl⟩ := exists_cons_of_ne_nil hne
  have hfirst : (consume rd
      (.digest { inner := s, digests := [], remaining := length, failed := some e }) [k]).Erred :=
    ⟨([], some e), mem_singleton.mpr rfl, e, rfl, he⟩
  exact erred_append hfirst later

theorem agrees_of_wrapped (horder : ∀ c, c ∈ order) {s : σ} {digests : List DeclaredDigest}
    (hd : declaredDigests std h order = .ok digests) (hnil : calls ≠ [])
    (hchecked : ¬ Unchecked rd length (some s) calls) (hfin : Finishes rd length
      (.digest { inner := s, digests := digests, remaining := length }) calls) :
    Agrees std h (consume rd
      (.digest { inner := s, digests := digests, remaining := length }) calls).received := by
  have hmirrors := fun earlier later (heq : calls = earlier ++ later) =>
    (erred_or_mirrors (declaredDigests_ok horder hd []).1 s earlier).resolve_left fun herred =>
      hfin.1 (heq ▸ erred_append herred later)
  have hbare := (finishes_congr fun earlier later heq => (hmirrors earlier later heq).1.log).mp hfin
  have hcompares := compares_of_finishes hbare (by
    by_contra hover
    obtain ⟨hended, hlen⟩ := not_or.mp hover
    exact hchecked ⟨hbare, .inr (.inr ⟨not_le.mp hlen, hended⟩)⟩)
  obtain ⟨hlast, hagrees⟩ := hmirrors calls [] (append_nil calls).symm
  rw [received_congr hlast.log]
  exact (declaredDigests_ok horder hd _).2.mp (compare_eq_none.mp (hagrees hnil hcompares))

/-- **A consumer that finishes has a body that agrees with the header, where it does not finish
unchecked.** -/
theorem agrees_of_finishes (horder : ∀ c, c ∈ order) (hchecked : ¬ Unchecked rd length body calls)
    (hfin : Finishes rd length (verifyDigests std order h length body) calls) :
    Agrees std h (consume rd (verifyDigests std order h length body) calls).received := by
  -- A body that is not wrapped finishes as the bare one does, and so does one that is not read.
  have hnil : calls ≠ [] := by
    rintro rfl
    exact hchecked ⟨(finishes_congr fun earlier later heq => by
      rw [(append_eq_nil_iff.mp heq.symm).1]; rfl).mp hfin, .inr (.inl rfl)⟩
  cases body with
  | none => exact absurd ⟨hfin, .inl rfl⟩ hchecked
  | some s =>
    cases hd : declaredDigests std h order with
    | error e =>
      rw [verifyDigests, hd] at hfin
      exact absurd (erred_of_malformed (declaredDigests_error hd) hnil) hfin.1
    | ok digests =>
      cases digests with
      | nil => exact (declaredDigests_ok horder hd _).2.mp (by simp)
      | cons d digests =>
        rw [verifyDigests, hd] at hfin ⊢
        exact agrees_of_wrapped horder hd hnil hchecked hfin

theorem exists_contradicted (std : Std) (order : List Checksum)
    (hunchecked : Unchecked rd length body calls) :
    ∃ h, Finishes rd length (verifyDigests std order h length body) calls ∧
      ¬ Agrees std h (consume rd (verifyDigests std order h length body) calls).received := by
  obtain ⟨hfin, hcase⟩ := hunchecked
  obtain ⟨sum, hsum⟩ := exists_ne_digest (std.sum256 (consume rd (bare body) calls).received)
  -- Every call gives what the bare body gives: the digest is never compared.
  have hlog : ∀ earlier later, calls = earlier ++ later →
      (consume rd (verifyDigests std order (statesHash sum) length body) earlier).log =
        (consume rd (bare body) earlier).log := by
    intro earlier later heq
    cases body with
    | none => rfl
    | some s =>
      rw [verifyDigests, declaredDigests_statesHash]
      refine (mirrors_after fun earlier' k later' heq' hcompares => ?_).log
      have hne : calls ≠ [] := by simp [heq, heq']
      obtain ⟨hover, hended⟩ := (hcase.resolve_left (by simp)).resolve_left hne
      have hcalls : calls = (earlier' ++ [k]) ++ (later' ++ later) := by simp [heq, heq']
      exact absurd hcompares (not_compares_of_over hfin hended hover hcalls)
  refine ⟨statesHash sum, (finishes_congr hlog).mpr hfin, fun hagrees => hsum ?_⟩
  rw [agrees_statesHash_iff.mp hagrees, received_congr (hlog calls [] (append_nil _).symm)]

theorem verifyDigests_transparent (horder : ∀ c, c ∈ order) {digests : List DeclaredDigest}
    (hd : declaredDigests std h order = .ok digests)
    (hagrees : ∀ earlier k later, calls = earlier ++ k :: later →
      (consume rd (bare body) (earlier ++ [k])).Compares length →
        Agrees std h (consume rd (bare body) (earlier ++ [k])).received) :
    (consume rd (verifyDigests std order h length body) calls).log =
      (consume rd (bare body) calls).log := by
  cases body with
  | none => rfl
  | some s =>
    rw [verifyDigests, hd]
    cases digests with
    | nil => rfl
    | cons d digests =>
      exact (mirrors_after fun earlier k later heq hcompares => compare_eq_none.mpr
        ((declaredDigests_ok horder hd _).2.mpr (hagrees earlier k later heq hcompares))).log

/-- **A consumer that finishes without an error has a body that agrees with every digest, just where
it does not finish unchecked. Where the digests agree each time they are compared, the reader is
transparent.** -/
theorem digests_hold_iff (std : Std) (order : List Checksum) (horder : ∀ c, c ∈ order)
    (rd : σ → Nat → Bytes × Option Err × σ) (length : Int) (body : Option σ) (calls : List Nat) :
    ((∀ h, Finishes rd length (verifyDigests std order h length body) calls →
        Agrees std h (consume rd (verifyDigests std order h length body) calls).received) ↔
      ¬ Unchecked rd length body calls) ∧
    ∀ h digests, declaredDigests std h order = .ok digests →
      (∀ earlier k later, calls = earlier ++ k :: later →
        (consume rd (bare body) (earlier ++ [k])).Compares length →
          Agrees std h (consume rd (bare body) (earlier ++ [k])).received) →
      (consume rd (verifyDigests std order h length body) calls).log =
        (consume rd (bare body) calls).log := by
  refine ⟨⟨fun hall hunchecked => ?_, fun hchecked h hfin => ?_⟩, fun h digests hd hagrees => ?_⟩
  · obtain ⟨h, hfin, hnot⟩ := exists_contradicted std order hunchecked
    exact hnot (hall h hfin)
  · exact agrees_of_finishes horder hchecked hfin
  · exact verifyDigests_transparent horder hd hagrees

/-! ### Requests on which it shows -/

def script : List (Bytes × Option Err) → Nat → Bytes × Option Err × List (Bytes × Option Err)
  | [], _ => ([], some .eof, [])
  | (out, err) :: rest, _ => (out, err, rest)

/-- Hashes that repeat the first bytes of what is hashed, and a base64 that changes nothing. -/
def echoDigestStd : Std where
  toStd := Chunked.echoStd
  md5 s := (s ++ List.replicate 16 0).take 16
  decodeBase64 := some

/-- A `PUT` of length zero that states the hash of another body has no body that could be wrapped,
and is taken. The same empty body of unknown length is refused. -/
theorem empty_put_not_checked :
    ¬ (∀ h, Finishes script 0 (verifyDigests echoDigestStd checksumHashes h 0 none) [1] →
      Agrees echoDigestStd h
        (consume script (verifyDigests echoDigestStd checksumHashes h 0 none) [1]).received) ∧
    (consume script (verifyDigests echoDigestStd checksumHashes
        (statesHash (Chunked.echoStd.sum256 [7])) (-1) (some [])) [1]).log =
      [([], some errPayloadHashMismatch)] := by
  refine ⟨fun hall => ?_, ?_⟩
  · have hagrees := hall (statesHash (Chunked.echoStd.sum256 [7])) ⟨?_, .inr ⟨?_, ?_⟩⟩
    · exact absurd (agrees_statesHash_iff.mp hagrees) (by decide)
    · rintro ⟨r, hr, e, he, hne⟩
      rw [mem_singleton.mp hr] at he
      exact hne (Option.some.inj he).symm
    · exact ⟨([], some .eof), mem_singleton.mpr rfl, rfl⟩
    · rintro earlier later heq hne ⟨r, hr, -⟩
      have hearlier : earlier = [] := by
        rcases append_eq_singleton_iff.mp heq.symm with ⟨h, -⟩ | ⟨-, h⟩
        · exact h
        · exact absurd h hne
      subst hearlier
      cases hr
  · rw [verifyDigests, declaredDigests_statesHash]
    decide

/-- Three bytes in two reads, the second with the end, where the digests are compared. -/
theorem three_bytes_checked :
    (∀ h, Finishes script 3 (verifyDigests echoDigestStd checksumHashes h 3
        (some [([7, 8], none), ([9], some .eof)])) [2, 2] →
      Agrees echoDigestStd h (consume script (verifyDigests echoDigestStd checksumHashes h 3
        (some [([7, 8], none), ([9], some .eof)])) [2, 2]).received) ∧
    (consume script (verifyDigests echoDigestStd checksumHashes
        (statesHash (Chunked.echoStd.sum256 [7, 8, 9])) 3
        (some [([7, 8], none), ([9], some .eof)])) [2, 2]).log =
      [([7, 8], none), ([9], some .eof)] := by
  obtain ⟨hiff, htransparent⟩ := digests_hold_iff echoDigestStd checksumHashes
    (fun c => by cases c <;> decide) script 3 (some [([7, 8], none), ([9], some .eof)]) [2, 2]
  refine ⟨hiff.mpr ?_, htransparent _ _ (declaredDigests_statesHash _ _) ?_⟩
  · rintro ⟨-, h | h | ⟨h, -⟩⟩
    · cases h
    · cases h
    · exact absurd h (by decide)
  · rintro earlier k later heq hcompares
    rcases earlier with _ | ⟨k₁, _ | ⟨k₂, earlier⟩⟩
    · obtain ⟨rfl, -⟩ := cons.inj heq
      rcases hcompares with h | ⟨r, hr, h⟩
      · exact absurd h (by decide)
      · rw [← Option.some.inj hr] at h
        exact absurd h (by decide)
    · exact agrees_statesHash_iff.mpr rfl
    · simp at heq

end Complete

end S3Orchestrator.Digest
