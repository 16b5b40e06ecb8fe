import S3Orchestrator.Store.Adapter

/-!
# The cleanup queue

Every transaction that stops recording bytes queues their deletion before it commits.

* `enqueueRemoved`, `queueCleanup`, `dropIntent`, `discardPending`: how bytes get into the queue.
-/

namespace S3Orchestrator

open RowStore

/-! ## Queueing -/

def queueCleanup (tx : TxAdapter) (requests : List CleanupRequest) : LedgerTx (List CleanupItem) :=
  if requests = [] then pure []
  else Tx.mapError (wrapError "queue cleanup") (tx.insertCleanup requests)

/-- Queues the deletion of removed bytes. -/
def enqueueRemoved (tx : TxAdapter) (objectKey reason : String) (removed : List RemovedCopy) :
    LedgerTx (List CleanupItem) :=
  queueCleanup tx (removed.map fun d => d.request objectKey reason)

/-- The bytes an intent was claimed for. -/
def intentBytes (p : PendingObject) : RemovedCopy where
  backendName := p.backendName
  storageKey := p.storageKey
  sizeBytes := p.sizeBytes

def removedFromExisting (existing : List ExistingCopy) : List RemovedCopy :=
  existing.map fun ec =>
    { backendName := ec.backendName, storageKey := ec.storageKey, sizeBytes := ec.sizeBytes }

/-- Removes an intent and queues its bytes. -/
def dropIntent (tx : TxAdapter) (p : PendingObject) (reason : String) :
    LedgerTx (List CleanupItem) := do
  Tx.mapError (wrapError "delete discarded intent") (tx.deletePending p.intentID)
  enqueueRemoved tx p.objectKey reason [intentBytes p]

/-- All the intents that are named still have their rows. -/
def intentsHeld (tx : TxAdapter) : List String → LedgerTx Bool
  | [] => return true
  | id :: ids =>
    if id = "" then intentsHeld tx ids
    else do
      let claimed ← tx.claimPending id
      if claimed then intentsHeld tx ids else return false

/-- Drops an intent, if it is not resolved yet. -/
def discardPending (tx : TxAdapter) (p : PendingObject) (reason : String) :
    LedgerTx (List CleanupItem) := do
  let claimed ← intentsHeld tx [p.intentID]
  if claimed then dropIntent tx p reason else return []

/-! ## Claiming -/

def maxCleanupAttempts : Nat := 10

/-- Due, not given up, and claimed by nobody or too long ago. -/
def CleanupItem.claimable (now cutoff : Time) (row : CleanupItem) : Bool :=
  decide (row.nextRetry ≤ now) && decide (row.attempts < maxCleanupAttempts) &&
    row.claim.all fun c => decide (c.at_ < cutoff)

def CleanupItem.dueBefore (a b : CleanupItem) : Prop :=
  a.nextRetry < b.nextRetry ∨ (a.nextRetry = b.nextRetry ∧ a.createdAt ≤ b.createdAt)
  deriving Decidable

def Ledger.claimableRows (s : Ledger) (now cutoff : Time) (limit : Nat) : List CleanupItem :=
  ((s.cleanupQueue.filter (CleanupItem.claimable now cutoff)).insertionSort
    CleanupItem.dueBefore).take limit

/-- The rows that are due first. -/
def selectClaimableRows (tx : TxAdapter) (cutoff : Time) (limit : Nat) :
    LedgerTx (List CleanupItem) := do
  tx.exec "select cleanup candidates"
  Tx.read fun s => s.claimableRows tx.now cutoff limit

def CleanupItem.claimedBy (row : CleanupItem) (instanceID : String) (claimedAt : Time) :
    CleanupItem :=
  { row with claim := some ⟨claimedAt, instanceID⟩ }

/-- The instance claims some rows. -/
def stampClaims (tx : TxAdapter) (items : List CleanupItem) (claimedAt : Time) :
    LedgerTx (List CleanupItem) := do
  tx.exec "stamp cleanup claims"
  Tx.edit fun s => { s with
    cleanupQueue := s.cleanupQueue.map fun row =>
      if row.id ∈ items.map CleanupItem.id then row.claimedBy tx.instanceID claimedAt else row }
  return items.map fun item => item.claimedBy tx.instanceID claimedAt

/-- Claim pending rows for an instance. The clock is read once for those due and once for the claim.
-/
def claimPendingCleanups (tx : TxAdapter) (limit : Nat) (graceCutoff claimedAt : Time) :
    LedgerTx (List CleanupItem) := do
  let selected ← selectClaimableRows tx graceCutoff limit
  if selected = [] then return [] else stampClaims tx selected claimedAt

/-! ## Settling -/

/-- The row is still under the claim that the item was read with. -/
def CleanupItem.heldUnder (row item : CleanupItem) : Bool :=
  decide (row.id = item.id) && item.claim.isSome && decide (row.claim = item.claim)

/-- Removes the rows whose claim still holds. -/
def completeCleanupItems (tx : TxAdapter) (items : List CleanupItem) : LedgerTx Unit :=
  Tx.forEach (fun item => do
    tx.exec "complete cleanup item"
    Tx.edit fun s => { s with
      cleanupQueue := s.cleanupQueue.filter fun row => !row.heldUnder item }) items

/-- Removes every row of a path, whoever claimed it. -/
def sweepStaleCleanupQueueRows (tx : TxAdapter) (storageKey backend : String) : LedgerTx Unit := do
  tx.exec "sweep stale cleanup rows"
  Tx.edit fun s => { s with
    cleanupQueue := s.cleanupQueue.filter fun row =>
      !decide (row.request.storageKey = storageKey ∧ row.request.backendName = backend) }

/-- Releases a row to be tried again later. -/
def retryCleanupItem (tx : TxAdapter) (item : CleanupItem) (backoff : Nat) (lastError : String) :
    LedgerTx Unit := do
  tx.exec "update cleanup retry"
  Tx.edit fun s => { s with
    cleanupQueue := s.cleanupQueue.map fun row =>
      if row.heldUnder item then
        { row with attempts := row.attempts + 1, nextRetry := tx.now + backoff,
                   lastError := lastError, claim := none }
      else row }

def CleanupItem.deadLetter (tx : TxAdapter) (lastError : String) (row : CleanupItem) :
    CleanupDLQItem where
  request := row.request
  originalID := row.id
  attempts := row.attempts
  firstEnqueued := row.createdAt
  movedAt := tx.now
  lastError := lastError

/-- A row that was given up becomes a dead letter. -/
def moveCleanupToDLQ (tx : TxAdapter) (item : CleanupItem) (lastError : String) :
    LedgerTx Unit := do
  tx.exec "move cleanup row to DLQ"
  Tx.edit fun s => { s with
    cleanupDLQ := s.cleanupDLQ ++
      (s.cleanupQueue.filter fun row => row.heldUnder item).map
        (CleanupItem.deadLetter tx lastError)
    cleanupQueue := s.cleanupQueue.filter fun row => !row.heldUnder item }

def requeued (tx : TxAdapter) : Nat → List CleanupDLQItem → List CleanupItem
  | _, [] => []
  | id, d :: ds =>
    { request := d.request, id := id, createdAt := tx.now, nextRetry := tx.now } ::
      requeued tx (id + 1) ds

/-- Puts the dead letters of a backend back into the queue. -/
def requeueCleanupDLQ (tx : TxAdapter) (backend : String) : LedgerTx Unit := do
  tx.exec "requeue cleanup DLQ"
  Tx.edit fun s =>
    let moved := s.cleanupDLQ.filter fun d =>
      decide (backend = "" ∨ d.request.backendName = backend)
    { s with
      cleanupQueue := s.cleanupQueue ++ requeued tx s.nextCleanupID moved
      nextCleanupID := s.nextCleanupID + moved.length
      cleanupDLQ := s.cleanupDLQ.filter fun d =>
        !decide (backend = "" ∨ d.request.backendName = backend) }

/-! ## What a successful call did -/

section Ok

variable {tx : TxAdapter} {s s' : Ledger} {u : Unit} {items : List CleanupItem}

theorem queueCleanup_ok {requests : List CleanupRequest}
    (h : queueCleanup tx requests s = .ok (items, s')) :
    items.map CleanupItem.request = requests ∧
      ∃ n, s' = { s with cleanupQueue := s.cleanupQueue ++ items, nextCleanupID := n } := by
  unfold queueCleanup at h
  split_ifs at h with hr
  · obtain ⟨rfl, rfl⟩ := Tx.pure_eq_ok.mp h
    exact ⟨by simp [hr], s'.nextCleanupID, by simp⟩
  · exact TxAdapter.insertCleanup_ok (Tx.mapError_eq_ok.mp h)

theorem enqueueRemoved_ok {key reason : String} {removed : List RemovedCopy}
    (h : enqueueRemoved tx key reason removed s = .ok (items, s')) :
    items.map CleanupItem.request = removed.map (fun d => d.request key reason) ∧
      ∃ n, s' = { s with cleanupQueue := s.cleanupQueue ++ items, nextCleanupID := n } :=
  queueCleanup_ok h

theorem dropIntent_ok {p : PendingObject} {reason : String}
    (h : dropIntent tx p reason s = .ok (items, s')) :
    items.map CleanupItem.request = [(intentBytes p).request p.objectKey reason] ∧
      ∃ n, s' = { s with
        pendingObjects := s.pendingObjects.deleteWhere fun q => decide (q.intentID = p.intentID)
        cleanupQueue := s.cleanupQueue ++ items
        nextCleanupID := n } := by
  obtain ⟨_, s1, rfl, h2⟩ := Tx.bind_mapError_ok h TxAdapter.deletePending_ok
  exact enqueueRemoved_ok h2

theorem intentsHeld_ok {ids : List String} {b : Bool} (h : intentsHeld tx ids s = .ok (b, s')) :
    s' = s ∧ (b = true ↔ ∀ id ∈ ids, id ≠ "" → s.holds id = true) := by
  induction ids with
  | nil =>
    obtain ⟨rfl, rfl⟩ := Tx.pure_eq_ok.mp h
    simp
  | cons id ids ih =>
    unfold intentsHeld at h
    split_ifs at h with hid
    · obtain ⟨hs, hb⟩ := ih h
      simp [hs, hb, hid]
    · obtain ⟨claimed, s1, ⟨hc, rfl⟩, h2⟩ := Tx.bind_ok h TxAdapter.claimPending_ok
      cases hclaim : claimed with
      | true =>
        rw [hclaim] at h2 hc
        obtain ⟨hs, hb⟩ := ih h2
        refine ⟨hs, hb.trans ?_⟩
        simp [← hc]
      | false =>
        rw [hclaim] at h2 hc
        obtain ⟨rfl, rfl⟩ := Tx.pure_eq_ok.mp h2
        refine ⟨rfl, iff_of_false (by simp) fun hall => ?_⟩
        have := hall id List.mem_cons_self hid
        rw [← hc] at this
        cases this

end Ok

end S3Orchestrator
