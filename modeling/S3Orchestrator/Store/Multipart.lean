import S3Orchestrator.Store.Cleanup

/-!
# Multipart parts

Each part upload writes its own path under an intent claimed on the upload's backend. Recording the
part clears the intent and queues the bytes of any part it replaced; removing an upload queues every
part's bytes.
-/

namespace S3Orchestrator

open RowStore

def minPartNumber : Int := 1
def maxPartNumber : Int := 10000

def validPartNumber (n : Int) : Bool := decide (minPartNumber ≤ n ∧ n ≤ maxPartNumber)

structure PartOutcome where
  cleanup : List CleanupItem := []
  refusal : Option StoreError := none

/-- The upload's backend, empty when it is gone. A completion that renewed its mark after
`staleBefore` is still reading. -/
def lockUploadIdle (tx : TxAdapter) (uploadID : String) (staleBefore : Time) : LedgerTx String := do
  let (backend, heartbeat) ← tx.lockMultipartUpload uploadID
  if staleBefore < heartbeat then Tx.fail .errCompletionInProgress else return backend

/-- The bytes of the part that is replaced. -/
def RecordPartParams.replacedBytes (p : RecordPartParams) (replaced : MultipartPart) :
    RemovedCopy where
  backendName := p.intent.backendName
  storageKey := replaced.path
  sizeBytes := replaced.sizeBytes

/-- Records a part of an upload, unless its intent is gone or the upload being completed. -/
def recordPartTx (tx : TxAdapter) (p : RecordPartParams) : LedgerTx PartOutcome := do
  let path := partPath p.uploadID p.partNumber
  let backend ← lockUploadIdle tx p.uploadID p.completionStaleBefore
  if backend = "" then Tx.fail .errMultipartUploadNotFound
  else
    let held ← intentsHeld tx [p.intent.intentID]
    if held then
      let replaced ← tx.upsertPart p
      Tx.mapError (wrapError "delete recorded part intent") (tx.deletePending p.intent.intentID)
      match replaced with
      | none => return {}
      | some replaced =>
        let cleanup ← enqueueRemoved tx path cleanupReasonPartReplaced [p.replacedBytes replaced]
        return { cleanup }
    else
      let cleanup ← enqueueRemoved tx path cleanupReasonSupersededIntent [intentBytes p.intent]
      return { cleanup, refusal := some .errIntentLost }

def recordPart (tx : TxAdapter) (p : RecordPartParams) : LedgerTx PartOutcome :=
  if validPartNumber p.partNumber then recordPartTx tx p
  else Tx.fail (.invalidPartNumber p.partNumber)

def MultipartPart.removal (p : MultipartPart) (backend reason : String) : CleanupRequest :=
  RemovedCopy.request { backendName := backend, storageKey := p.path, sizeBytes := p.sizeBytes }
    (partPath p.uploadID p.partNumber) reason

/-- Removes an upload and queues the bytes of its parts. -/
def deleteMultipartUpload (tx : TxAdapter) (uploadID reason : String) (staleBefore : Time) :
    LedgerTx (List CleanupItem) := do
  let backend ← lockUploadIdle tx uploadID staleBefore
  if backend = "" then return []
  else
    let parts ← tx.deleteMultipartUpload uploadID
    queueCleanup tx (parts.map fun p => p.removal backend reason)

end S3Orchestrator
