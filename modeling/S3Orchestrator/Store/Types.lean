import Mathlib.Data.List.Basic

/-!
# Domain types of the store

The records the store's transactions read and write, under the names the source gives them.

* `StoredForm`, `StoredFlags`: how the bytes on a backend differ from the object a client sees.
-/

namespace S3Orchestrator

/-- A moment. Go's zero `time.Time` is `0`. -/
abbrev Time : Type := Nat

/-! ## Errors -/

inductive StoreError where
  | database
  | uniqueViolation
  | foreignKeyViolation
  | errNoCopiesToRecord
  | errCopyChanged
  | errCopyNotExcess
  | errCopyHoldsOnlyDEK
  | errTargetRefused
  | errIntentLost
  | errObjectNotFound
  | errMultipartUploadNotFound
  | errCompletionInProgress
  | errTooManyTags
  | errEmptyTagKey
  | errTagKeyTooLong
  | errTagValueTooLong
  | errDuplicateTagKey
  | invalidPartNumber (n : Int)
  | wrapped (context : String) (cause : StoreError)
  | detailed (cause : StoreError) (detail : String)
  deriving DecidableEq, Repr

def StoreError.cause : StoreError → StoreError
  | .wrapped _ e => e.cause
  | .detailed e _ => e.cause
  | e => e

def wrapError (context : String) (e : StoreError) : StoreError := .wrapped context e

/-! ## Stored form -/

abbrev StoredFlags : Type := BitVec 64

def storedCompressed : StoredFlags := 1
def storedEncrypted : StoredFlags := 2
def storedHashed : StoredFlags := 4
def storedKeyed : StoredFlags := 8

def storedReadable : StoredFlags := storedEncrypted ||| storedKeyed

def StoredFlags.has (f want : StoredFlags) : Bool := f &&& want == want

def StoredFlags.unreadable (f : StoredFlags) : Bool :=
  StoredFlags.has f storedEncrypted && !StoredFlags.has f storedKeyed

/-- How the bytes on a backend differ from the logical object. -/
structure StoredForm where
  encrypted : Bool := false
  encryptionKey : List UInt8 := []
  keyID : String := ""
  plaintextSize : Int := 0
  contentHash : String := ""
  compressionAlgorithm : String := ""
  compressionLevel : String := ""
  compressionFormatVersion : Int := 0
  logicalSize : Int := 0
  deriving DecidableEq, Repr

namespace StoredForm

def form (f : StoredForm) : StoredFlags :=
  (if f.compressionAlgorithm ≠ "" then storedCompressed else 0) |||
  (if f.encrypted then storedEncrypted else 0) |||
  (if f.contentHash ≠ "" then storedHashed else 0) |||
  (if f.encryptionKey ≠ [] then storedKeyed else 0)

/-- The form, unless it has no layer and no hash. -/
def described (f : StoredForm) : Option StoredForm :=
  if f.form &&& (storedCompressed ||| storedEncrypted ||| storedHashed) = 0 then none else some f

def unreadable (f : StoredForm) : Bool := StoredFlags.unreadable f.form

def recorded (f : StoredForm) : StoredForm where
  contentHash := f.contentHash
  encrypted := f.encrypted
  encryptionKey := if f.encrypted then f.encryptionKey else []
  keyID := if f.encrypted then f.keyID else ""
  plaintextSize := if f.encrypted then f.plaintextSize else 0
  compressionAlgorithm := f.compressionAlgorithm
  compressionLevel := if f.compressionAlgorithm ≠ "" then f.compressionLevel else ""
  compressionFormatVersion := if f.compressionAlgorithm ≠ "" then f.compressionFormatVersion else 0
  logicalSize := if f.compressionAlgorithm ≠ "" then f.logicalSize else 0

def envelope (f : StoredForm) : StoredForm where
  encrypted := f.encrypted
  encryptionKey := if f.encrypted then f.encryptionKey else []
  keyID := if f.encrypted then f.keyID else ""
  plaintextSize := if f.encrypted then f.plaintextSize else 0

section

variable (f : StoredForm)

theorem has_form_encrypted : StoredFlags.has f.form storedEncrypted = f.encrypted := by
  unfold form
  cases f.encrypted <;> split_ifs <;> first | decide | contradiction

theorem has_form_keyed : StoredFlags.has f.form storedKeyed = decide (f.encryptionKey ≠ []) := by
  unfold form
  cases f.encrypted <;> split_ifs <;> simp_all <;> decide

theorem has_form_hashed : StoredFlags.has f.form storedHashed = decide (f.contentHash ≠ "") := by
  unfold form
  cases f.encrypted <;> split_ifs <;> simp_all <;> decide

theorem has_form_readable :
    StoredFlags.has f.form storedReadable = (f.encrypted && decide (f.encryptionKey ≠ [])) := by
  unfold form
  cases f.encrypted <;> split_ifs <;> simp_all <;> decide

theorem unreadable_eq : f.unreadable = (f.encrypted && decide (f.encryptionKey = [])) := by
  unfold unreadable StoredFlags.unreadable
  rw [has_form_encrypted, has_form_keyed]
  by_cases h : f.encryptionKey = [] <;> simp

end

end StoredForm

structure ObjectIdentity where
  eTag : String
  contentType : String
  userMetadata : List (String × String)
  deriving DecidableEq, Repr

structure Tag where
  key : String
  value : String
  deriving DecidableEq, Repr

/-! ## Recorded copies -/

structure ObjectLocation where
  storedForm : StoredForm := {}
  objectKey : String
  backendName : String
  storageKey : String
  sizeBytes : Int := 0
  createdAt : Time := 0
  compressionProbeSize : Int := 0
  compressionProbeLevel : String := ""
  unmanaged : Bool := false
  identity : Option ObjectIdentity := none
  deriving DecidableEq, Repr

def ObjectLocation.copyAt (l : ObjectLocation) (backend storageKey : String) : ObjectLocation :=
  { l with backendName := backend, storageKey := storageKey }

structure ExistingCopy where
  objectKey : String
  backendName : String
  storageKey : String
  sizeBytes : Int
  createdAt : Time
  form : StoredFlags

def ObjectLocation.existing (l : ObjectLocation) : ExistingCopy where
  objectKey := l.objectKey
  backendName := l.backendName
  storageKey := l.storageKey
  sizeBytes := l.sizeBytes
  createdAt := l.createdAt
  form := l.storedForm.form

def storagePath (objectKey storageKey : String) : String :=
  if storageKey = "" then objectKey else storageKey

@[simp] theorem storagePath_of_ne {storageKey : String} (h : storageKey ≠ "") (objectKey : String) :
    storagePath objectKey storageKey = storageKey := if_neg h

def partPath (uploadID : String) (partNumber : Int) : String :=
  "__multipart/" ++ uploadID ++ "/" ++ toString partNumber

def objectFromStoredForm (key backend storageKey : String) (size : Int) (form : Option StoredForm)
    (id : Option ObjectIdentity) : ObjectLocation where
  objectKey := key
  backendName := backend
  storageKey := storagePath key storageKey
  sizeBytes := size
  identity := id
  storedForm := form.getD {}

/-! ## Intents -/

inductive PendingRole where
  | unset
  | primary
  | companion
  deriving DecidableEq, Repr

/-- An in-flight write, recorded before its upload. -/
structure PendingObject where
  storedForm : StoredForm := {}
  intentID : String
  objectKey : String
  storageKey : String
  backendName : String
  sizeBytes : Int := 0
  identity : Option ObjectIdentity := none
  tags : List Tag := []
  createdAt : Time := 0
  role : PendingRole := .unset
  deriving DecidableEq, Repr

def PendingObject.isCompanion (p : PendingObject) : Bool := decide (p.role = .companion)

def PendingObject.roleOrDefault (p : PendingObject) : PendingRole :=
  if p.role = .unset then .primary else p.role

def PendingRole.text : PendingRole → String
  | .unset => ""
  | .primary => "primary"
  | .companion => "companion"

structure SupersededIntent where
  intentID : String
  objectKey : String
  backendName : String
  storageKey : String
  sizeBytes : Int

def PendingObject.superseded (p : PendingObject) : SupersededIntent where
  intentID := p.intentID
  objectKey := p.objectKey
  backendName := p.backendName
  storageKey := p.storageKey
  sizeBytes := p.sizeBytes

inductive PendingPromoteResult where
  | committed
  | ambiguous
  | alreadyResolved
  | superseded
  | companionKept
  | companionDiscarded
  deriving DecidableEq, Repr

inductive CompanionCommitResult where
  | committed
  | untrusted

/-! ## Cleanup -/

structure CleanupRequest where
  backendName : String
  objectKey : String
  storageKey : String
  reason : String
  sizeBytes : Int
  deriving DecidableEq, Repr

structure CleanupClaim where
  at_ : Time
  by_ : String
  deriving DecidableEq, Repr

structure CleanupItem where
  request : CleanupRequest
  id : Nat
  attempts : Nat := 0
  claim : Option CleanupClaim := none
  createdAt : Time := 0
  nextRetry : Time := 0
  lastError : String := ""
  deriving DecidableEq, Repr

structure CleanupDLQItem where
  request : CleanupRequest
  originalID : Nat
  attempts : Nat
  firstEnqueued : Time
  movedAt : Time
  lastError : String

structure RemovedCopy where
  backendName : String
  storageKey : String
  sizeBytes : Int
  reason : String := ""

def RemovedCopy.request (d : RemovedCopy) (objectKey defaultReason : String) : CleanupRequest where
  backendName := d.backendName
  objectKey := objectKey
  storageKey := storagePath objectKey d.storageKey
  reason := if d.reason = "" then defaultReason else d.reason
  sizeBytes := d.sizeBytes

def cleanupReasonOverwritten : String := "overwrite_displaced"
def cleanupReasonDeleted : String := "object_deleted"
def cleanupReasonPartReplaced : String := "part_replaced"
def cleanupReasonSupersededIntent : String := "superseded_intent"
def cleanupReasonCompanionDiscarded : String := "companion_discarded"
def cleanupReasonCompanionUntrusted : String := "companion_untrusted"

/-! ## Multipart uploads -/

structure MultipartUpload where
  uploadID : String
  backendName : String
  completionHeartbeatAt : Time := 0

structure MultipartPart where
  uploadID : String
  partNumber : Int
  storedForm : StoredForm := {}
  eTag : String := ""
  plaintextETag : String := ""
  sizeBytes : Int := 0
  storageKey : String := ""
  createdAt : Time := 0
  deriving DecidableEq, Repr

def MultipartPart.path (p : MultipartPart) : String :=
  storagePath (partPath p.uploadID p.partNumber) p.storageKey

structure RecordPartParams where
  uploadID : String
  partNumber : Int
  eTag : String := ""
  plaintextETag : String := ""
  sizeBytes : Int
  form : Option StoredForm := none
  intent : PendingObject
  completionStaleBefore : Time := 0

/-! ## Backends -/

abbrev BackendFlags : Type := BitVec 64

/-- A backend's byte ceiling; `0` is no ceiling. -/
structure BackendQuota where
  backendName : String
  bytesLimit : Int

structure StripeRow where
  backend : String
  stripe : Nat
  deriving DecidableEq, Repr

end S3Orchestrator
