import S3Orchestrator.Store.Pending

/-!
# Object locations

The transactions that record new objects, remove old ones, place copies on other backends, and
adopt data found on a backend.

* `recordObjectTx` with `discardOvertakenWrite`.
-/

namespace S3Orchestrator

open RowStore

/-! ## Record object -/

/-- Where a copy of a write is, and the intent it was claimed with. -/
structure ObjectCopy where
  backend : String
  intentID : String := ""
  storageKey : String := ""

def PendingObject.copy (p : PendingObject) : ObjectCopy := ⟨p.backendName, p.intentID, p.storageKey⟩

structure RecordObjectRequest where
  key : String
  size : Int := 0
  form : Option StoredForm := none
  identity : Option ObjectIdentity := none
  tags : List Tag := []
  copies : List ObjectCopy
  placing : List ObjectCopy := []

def intentIDs (copies : List ObjectCopy) : List String := copies.map ObjectCopy.intentID

def RecordObjectRequest.location (req : RecordObjectRequest) (c : ObjectCopy) : ObjectLocation :=
  objectFromStoredForm req.key c.backend c.storageKey req.size req.form req.identity

/-- The bytes of a copy, as a deletion names them. -/
def RecordObjectRequest.bytes (req : RecordObjectRequest) (c : ObjectCopy) : RemovedCopy where
  backendName := c.backend
  storageKey := c.storageKey
  sizeBytes := req.size

/-- A write whose intent is gone was overtaken: its bytes are queued for deletion. -/
def discardOvertakenWrite (tx : TxAdapter) (req : RecordObjectRequest) :
    LedgerTx (List CleanupItem) := do
  Tx.forEach (fun c => if c.intentID ≠ "" then
      Tx.mapError (wrapError "delete overtaken intent") (tx.deletePending c.intentID)
    else pure ()) req.copies
  enqueueRemoved tx req.key cleanupReasonSupersededIntent (req.copies.map req.bytes)

/-- Replaces every copy of the key, unless the write was overtaken. -/
def recordObjectTx (tx : TxAdapter) (req : RecordObjectRequest) : LedgerTx (List CleanupItem) := do
  let committed := intentIDs req.copies
  let held ← intentsHeld tx committed
  if held then
    let existing ← tx.getExistingCopiesForUpdate [req.key]
    let (displaced, deltas) ← clearExistingCopies tx req.key existing Table.empty
    replaceObjectTagsTx tx req.key req.tags
    Tx.forEach (fun c => Tx.mapError (wrapError ("insert object location on " ++ c.backend))
      (tx.insertObjectLocation (req.location c))) req.copies
    let deltas := Tally.addAll deltas (req.copies.map fun c => (c.backend, req.size))
    chargeStripes tx req.key deltas
    let superseded ← clearSupersededIntents tx (intentIDs req.placing) committed [req.key]
    enqueueRemoved tx req.key cleanupReasonOverwritten (displaced ++ superseded req.key)
  else discardOvertakenWrite tx req

def recordObject (tx : TxAdapter) (req : RecordObjectRequest) : LedgerTx (List CleanupItem) :=
  if req.copies = [] then Tx.fail .errNoCopiesToRecord
  else do
    Tx.ofExcept (validateTags req.tags)
    recordObjectTx tx req

/-! ## Delete objects -/

def ExistingCopy.removed (ec : ExistingCopy) : RemovedCopy where
  backendName := ec.backendName
  storageKey := ec.storageKey
  sizeBytes := ec.sizeBytes

/-- What the removal of some copies takes off the stripes. -/
def removalDebits (rows : List ExistingCopy) : StripeDeltas :=
  rows.foldl (fun d r => StripeDeltas.add d r.objectKey r.backendName (-r.sizeBytes)) Table.empty

/-- The keys that have a copy, which lose their tags and intents. -/
def heldKeys (rows : List ExistingCopy) : List String :=
  ((rows.map ExistingCopy.objectKey).dedup).insertionSort (· ≤ ·)

/-- Removes every copy of some keys, and queues their bytes. -/
def deleteObjectsBatchTx (tx : TxAdapter) (keys : List String) : LedgerTx (List CleanupItem) := do
  let rows ← tx.getExistingCopiesForUpdate keys
  if rows = [] then return []
  else
    Tx.mapError (wrapError "delete object copies") (tx.deleteObjectCopies keys)
    clearTagsForKey tx keys
    let held := heldKeys rows
    let superseded ← clearSupersededIntents tx [] [] held
    let requests := held.flatMap fun key =>
      (((rows.filter fun r => decide (r.objectKey = key)).map ExistingCopy.removed) ++
        superseded key).map fun d => d.request key cleanupReasonDeleted
    let cleanup ← queueCleanup tx requests
    (removalDebits rows).charge tx
    return cleanup

def deleteObjectsBatch (tx : TxAdapter) (keys : List String) : LedgerTx (List CleanupItem) :=
  if keys = [] then pure [] else deleteObjectsBatchTx tx keys

/-! ## Delete object location -/

def copyOnBackend (existing : List ExistingCopy) (backend : String) : Option ExistingCopy :=
  existing.find? fun ec => decide (ec.backendName = backend)

/-- The only copy that carries its key, where there are others. -/
def isLastDecryptableCopy (existing : List ExistingCopy) (backend : String) : Bool :=
  let decryptable := existing.countP fun ec => StoredFlags.has ec.form storedReadable
  let target := existing.countP fun ec =>
    StoredFlags.has ec.form storedReadable && decide (ec.backendName = backend)
  decide (decryptable = 1 ∧ target = 1 ∧ decryptable < existing.length)

/-- The row to remove, if it is still the one that was read and not needed. -/
def removableCopy (existing : List ExistingCopy) (loc : ObjectLocation) (keepAtLeast : Int) :
    Except StoreError ExistingCopy :=
  match copyOnBackend existing loc.backendName with
  | none => .error .errCopyChanged
  | some held =>
    if held.storageKey ≠ loc.storageKey then .error .errCopyChanged
    else if keepAtLeast ≤ 0 then .ok held
    else if (existing.length : Int) ≤ keepAtLeast then .error .errCopyNotExcess
    else if isLastDecryptableCopy existing loc.backendName then .error .errCopyHoldsOnlyDEK
    else .ok held

def removeCopyRow (tx : TxAdapter) (key : String) (held : ExistingCopy) (last : Bool) :
    LedgerTx Unit := do
  tx.deleteObjectFromBackend key held.backendName
  if last then clearTagsForKey tx [key] else pure ()
  chargeStripes tx key (Tally.add Table.empty held.backendName (-held.sizeBytes))

/-- Removes one copy, if `keepAtLeast` others stay. -/
def deleteObjectLocation (tx : TxAdapter) (loc : ObjectLocation) (keepAtLeast : Int)
    (reason : String) : LedgerTx (List CleanupItem) := do
  let key := loc.objectKey
  let existing ← tx.getExistingCopiesForUpdate [key]
  let held ← Tx.ofExcept (removableCopy existing loc keepAtLeast)
  removeCopyRow tx key held (decide (existing.length = 1))
  if reason = "" then return []
  else enqueueRemoved tx key reason (removedFromExisting [held])

/-! ## Place copy -/

structure MoveReasons where
  orphan : String := ""
  sourceDelete : String := ""

/-- A copy or a move of a recorded copy to where its intent was claimed. -/
structure Placement where
  source : ObjectLocation
  intent : PendingObject
  removeSource : Bool := false
  reformed : Bool := false
  reasons : MoveReasons := {}

structure PlaceOutcome where
  placed : Int := 0
  cleanup : List CleanupItem := []
  refusal : Option StoreError := none

namespace Placement

/-- Why a placement is not carried out. -/
def refusal (p : Placement) (existing : List ExistingCopy) : Option StoreError :=
  match removableCopy existing p.source 0 with
  | .error e => some e
  | .ok _ =>
    if p.intent.backendName = p.source.backendName then
      if p.removeSource then none else some .errTargetRefused
    else if (copyOnBackend existing p.intent.backendName).isSome then some .errTargetRefused
    else none

def refuse (p : Placement) (tx : TxAdapter) (refusal : StoreError) : LedgerTx PlaceOutcome := do
  let cleanup ← dropIntent tx p.intent p.reasons.orphan
  return { cleanup, refusal := some refusal }

/-- The row of the placed copy: that of its source, or of the form it was given. -/
def placedCopy (p : Placement) (src : ObjectLocation) : ObjectLocation :=
  let placed := src.copyAt p.intent.backendName p.intent.storageKey
  if p.reformed then
    { placed with
      storedForm := { p.intent.storedForm with contentHash := src.storedForm.contentHash }
      sizeBytes := p.intent.sizeBytes
      compressionProbeSize := 0
      compressionProbeLevel := "" }
  else placed

def removeMoved (p : Placement) (tx : TxAdapter) (src : ObjectLocation) :
    LedgerTx (List CleanupItem) :=
  if p.removeSource then do
    tx.deleteObjectFromBackend src.objectKey src.backendName
    enqueueRemoved tx src.objectKey p.reasons.sourceDelete [src.existing.removed]
  else pure []

def deltas (p : Placement) (src : ObjectLocation) : QuotaDeltas :=
  let debit : QuotaDeltas :=
    if p.removeSource then Tally.add Table.empty src.backendName (-src.sizeBytes) else Table.empty
  Tally.add debit (p.placedCopy src).backendName (p.placedCopy src).sizeBytes

def commit (p : Placement) (tx : TxAdapter) (src : ObjectLocation) : LedgerTx PlaceOutcome := do
  let placed := p.placedCopy src
  let cleanup ← p.removeMoved tx src
  Tx.mapError (wrapError ("insert placed copy on " ++ placed.backendName))
    (tx.insertObjectLocation placed)
  chargeStripes tx src.objectKey (p.deltas src)
  return { placed := placed.sizeBytes, cleanup }

end Placement

/-- Records the placed copy and, for a move, removes its source. -/
def placeCopyTx (tx : TxAdapter) (p : Placement) : LedgerTx PlaceOutcome := do
  let key := p.source.objectKey
  let held ← intentsHeld tx [p.intent.intentID]
  if held then
    let existing ← tx.getExistingCopiesForUpdate [key]
    match p.refusal existing with
    | some refusal => p.refuse tx refusal
    | none =>
      match ← tx.lockObjectOnBackend key p.source.backendName with
      | none => p.refuse tx .errCopyChanged
      | some src =>
        Tx.mapError (wrapError "delete placed intent") (tx.deletePending p.intent.intentID)
        p.commit tx src
  else
    let cleanup ← enqueueRemoved tx key cleanupReasonSupersededIntent [intentBytes p.intent]
    return { cleanup, refusal := some .errCopyChanged }

/-! ## Import object -/

structure ImportObjectRequest where
  key : String
  backend : String
  size : Int
  unmanaged : Bool := false
  form : Option StoredForm := none
  writtenAt : Time := 0

/-- What became of a path that was found on a backend. -/
inductive ImportOutcome where
  | skippedExisting
  | inserted
  | skippedPendingCleanup

def ImportObjectRequest.location (req : ImportObjectRequest) (now : Time) : ObjectLocation :=
  { objectFromStoredForm req.key req.backend req.key req.size req.form none with
    unmanaged := req.unmanaged || (req.form.getD {}).unreadable
    createdAt := if req.writtenAt = 0 then now else req.writtenAt }

/-- Records bytes found on a backend, unless their path is tracked. -/
def importObject (tx : TxAdapter) (req : ImportObjectRequest) : LedgerTx ImportOutcome := do
  let states ← tx.listedPathStates req.backend
  match states req.key with
  | .pendingCleanup => return .skippedPendingCleanup
  | .recorded | .inFlight => return .skippedExisting
  | .untracked =>
    let inserted ← tx.insertObjectLocationIfNotExists (req.location tx.now)
    if inserted then
      chargeStripes tx req.key (Tally.add Table.empty req.backend req.size)
      return .inserted
    else return .skippedExisting

end S3Orchestrator
