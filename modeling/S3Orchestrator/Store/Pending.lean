import S3Orchestrator.Store.Cleanup
import S3Orchestrator.Store.Quota
import S3Orchestrator.Store.Tags

/-!
# Pending intents

A write records its intent before it uploads, and the transaction that commits the object clears the
intent. An intent that survives a failed commit is resolved by the reaper.

* `claimInRankOrder`: claim a distinct backend for each intent of a write.
-/

namespace S3Orchestrator

open RowStore

/-! ## Claims -/

structure CopyClaims where
  claimed : List PendingObject := []
  declined : List String := []

/-- Claims each intent on the next backend in rank order that has room. -/
def claimInRankOrder (tx : TxAdapter) (accepts : BackendFlags) :
    List PendingObject → List String → LedgerTx CopyClaims
  | [], _ => return {}
  | _ :: _, [] => return {}
  | p :: intents, name :: ranked => do
    let p := { p with backendName := name }
    let fits ← Tx.mapError (wrapError ("claim " ++ name)) (tx.insertPendingIfFits p accepts)
    if fits then
      let out ← claimInRankOrder tx accepts intents ranked
      return { out with claimed := p :: out.claimed }
    else
      let out ← claimInRankOrder tx accepts (p :: intents) ranked
      return { out with declined := name :: out.declined }

/-! ## What a commit takes away from a key -/

def SupersededIntent.stale (si : SupersededIntent) : RemovedCopy where
  backendName := si.backendName
  storageKey := si.storageKey
  sizeBytes := si.sizeBytes
  reason := cleanupReasonSupersededIntent

/-- Remove every intent for the keys except `keep`, and return by key the bytes of those not in
`committing`. -/
def clearSupersededIntents (tx : TxAdapter) (keep committing keys : List String) :
    LedgerTx (String → List RemovedCopy) := do
  let cleared ← Tx.mapError (wrapError "clear superseded intents") (tx.clearPendingForKey keep keys)
  let stale := cleared.filter fun si => decide (si.intentID ∉ committing)
  return fun key =>
    (stale.filter fun si => decide (si.objectKey = key)).map SupersededIntent.stale

/-- Removes the copies that a new write displaces. -/
def clearExistingCopies (tx : TxAdapter) (key : String) (existing : List ExistingCopy)
    (deltas : QuotaDeltas) : LedgerTx (List RemovedCopy × QuotaDeltas) :=
  if existing = [] then pure ([], deltas)
  else do
    Tx.mapError (wrapError "delete existing copies") (tx.deleteObjectCopies [key])
    return (removedFromExisting existing,
      Tally.addAll deltas (existing.map fun ec => (ec.backendName, -ec.sizeBytes)))

def recordIntent (tx : TxAdapter) (p : PendingObject) (deltas : QuotaDeltas) : LedgerTx Unit := do
  let loc := objectFromStoredForm p.objectKey p.backendName p.storageKey p.sizeBytes
    (some p.storedForm) p.identity
  Tx.mapError (wrapError ("insert " ++ p.roleOrDefault.text ++ " location"))
    (tx.insertObjectLocation loc)
  chargeStripes tx p.objectKey (Tally.add deltas p.backendName p.sizeBytes)
  Tx.mapError (wrapError ("delete " ++ p.roleOrDefault.text ++ " pending row"))
    (tx.deletePending p.intentID)

/-! ## Promotion -/

structure PromoteOutcome where
  result : PendingPromoteResult
  cleanup : List CleanupItem := []

/-- A recorded copy is newer than the intent. -/
def intentSuperseded (existing : List ExistingCopy) (intentCreatedAt : Time) : Bool :=
  existing.any fun ec => decide (ec.createdAt ≠ 0 ∧ intentCreatedAt < ec.createdAt)

/-- A companion that is not recorded is dropped. -/
def resolveCompanion (tx : TxAdapter) (p : PendingObject) (existing : List ExistingCopy) :
    LedgerTx PromoteOutcome :=
  if existing.any fun ec =>
      decide (ec.backendName = p.backendName ∧ ec.storageKey = p.storageKey) then do
    Tx.mapError (wrapError "delete companion pending row") (tx.deletePending p.intentID)
    return { result := .companionKept }
  else do
    let cleanup ← dropIntent tx p cleanupReasonCompanionDiscarded
    return { result := .companionDiscarded, cleanup }

/-- Records the intent as the only copy of its key. -/
def commitPromotion (tx : TxAdapter) (p : PendingObject) (existing : List ExistingCopy) :
    LedgerTx PromoteOutcome := do
  let (displaced, deltas) ← clearExistingCopies tx p.objectKey existing Table.empty
  recordIntent tx p deltas
  replaceObjectTagsTx tx p.objectKey p.tags
  let cleanup ← enqueueRemoved tx p.objectKey cleanupReasonOverwritten displaced
  return { result := .committed, cleanup }

/-- The reaper's verdict on an intent whose bytes were found. -/
def promotePendingTx (tx : TxAdapter) (p : PendingObject) : LedgerTx PromoteOutcome := do
  let claimed ← intentsHeld tx [p.intentID]
  if claimed then
    let existing ← tx.getExistingCopiesForUpdate [p.objectKey]
    if p.isCompanion then resolveCompanion tx p existing
    else if intentSuperseded existing p.createdAt then
      let cleanup ← dropIntent tx p cleanupReasonSupersededIntent
      return { result := .superseded, cleanup }
    else commitPromotion tx p existing
  else return { result := .alreadyResolved }

def promotePending (tx : TxAdapter) (p : PendingObject) : LedgerTx PromoteOutcome :=
  Tx.mapError (wrapError "promote pending") (promotePendingTx tx p)

/-! ## Companion commit -/

structure CompanionOutcome where
  result : CompanionCommitResult
  cleanup : List CleanupItem := []

/-- Without its intent nobody knows which write the companion belongs to. -/
def discardUntrustedCopy (tx : TxAdapter) (p : PendingObject) : LedgerTx CompanionOutcome := do
  let cleanup ← enqueueRemoved tx p.objectKey cleanupReasonCompanionUntrusted [intentBytes p]
  return { result := .untrusted, cleanup }

def commitCompanionTx (tx : TxAdapter) (p : PendingObject) : LedgerTx CompanionOutcome := do
  let claimed ← intentsHeld tx [p.intentID]
  if claimed then
    recordIntent tx p Table.empty
    return { result := .committed }
  else discardUntrustedCopy tx p

def commitCompanionCopy (tx : TxAdapter) (p : PendingObject) : LedgerTx CompanionOutcome :=
  Tx.mapError (wrapError "commit companion copy") (commitCompanionTx tx p)

end S3Orchestrator
