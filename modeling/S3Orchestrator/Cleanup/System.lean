import S3Orchestrator.Ledger.Settle
import S3Orchestrator.Ledger.Stripes
import S3Orchestrator.Store.Backends

/-!
# The cleanup queue as a system

Any number of instances queue deletions, claim queued rows, delete their bytes and settle the rows.
Every call to the store is one step, so a run is any interleaving of them, and an instance that
crashes takes no further step.

* `Settler.calls`: the calls a settler makes for the rows it holds.
-/

namespace S3Orchestrator

open RowStore

/-! ## The settler -/

structure Exponential where
  base : Nat
  ceiling : Nat

def Exponential.doubling (ceiling : Nat) : Nat → Nat → Nat
  | 0, d => min d ceiling
  | attempts + 1, d => if ceiling / 2 ≤ d then ceiling else doubling ceiling attempts (d * 2)

/-- The delay doubles with every attempt, up to the ceiling. -/
def Exponential.delayFor (e : Exponential) (attempts : Nat) : Nat :=
  doubling e.ceiling attempts e.base

def retryBackoff : Exponential := ⟨60 * 10 ^ 9, 24 * 60 * 60 * 10 ^ 9⟩

/-- How the delete call for a row ended. -/
inductive Deletion where
  | unknownBackend
  | deleted
  | absent
  | failed (err : String)

def Deletion.gone : Deletion → Bool
  | .failed _ => false
  | _ => true

namespace Settler

/-- A failed deletion is tried again, or given up after the last attempt. -/
def fail (item : CleanupItem) (err : String) : Settle :=
  if maxCleanupAttempts ≤ item.attempts + 1 then .moveToDLQ item err
  else .retry item (retryBackoff.delayFor item.attempts) err

def failing (deleted : Nat → Option Deletion) (item : CleanupItem) : Option Settle :=
  match deleted item.id with
  | some (.failed err) => some (fail item err)
  | _ => none

/-- The rows whose bytes are gone. -/
def gone (deleted : Nat → Option Deletion) (items : List CleanupItem) : List CleanupItem :=
  items.filter fun item => (deleted item.id).any Deletion.gone

/-- The calls of `Settle`: one for each failed row, then one that retires every gone row. -/
def calls (deleted : Nat → Option Deletion) (items : List CleanupItem) : List Settle :=
  items.filterMap (failing deleted) ++
    if gone deleted items = [] then [] else [.complete (gone deleted items)]

end Settler

/-! ## The system -/

structure Cleanups where
  ledger : Ledger
  read : List CleanupItem := []
  ticket : Nat → Nat := id

/-- A transaction, or a step of a cleanup worker. -/
inductive CleanupAct where
  | transact (tx : TxAdapter) (op : Op)
  | claim (tx : TxAdapter) (limit : Nat) (graceCutoff claimedAt : Time)
  | settle (tx : TxAdapter) (st : Settle)
  | deleteBackendData (tx : TxAdapter) (backend : String)

def Ledger.requeuing (s : Ledger) (backend : String) : List CleanupDLQItem :=
  s.cleanupDLQ.filter fun d => decide (backend = "" ∨ d.request.backendName = backend)

def inherit (ticket : Nat → Nat) (first : Nat) (moved : List CleanupDLQItem) (id : Nat) : Nat :=
  if id < first then ticket id
  else
    match moved[id - first]? with
    | some d => ticket d.originalID
    | none => ticket id

namespace Cleanups

def start (quotas : Table BackendQuota sameBackend) : Cleanups where
  ledger := Ledger.provisioned quotas

/-- The state after a call. A transaction hands the rows it queued to its caller, and a claim the
rows it took. -/
def step (s : Cleanups) : CleanupAct → Cleanups
  | .transact tx op =>
    let ledger := op.apply tx s.ledger
    { s with
      ledger := ledger
      read := s.read ++ ledger.cleanupQueue.drop s.ledger.cleanupQueue.length }
  | .claim tx limit graceCutoff claimedAt =>
    match claimPendingCleanups tx limit graceCutoff claimedAt s.ledger with
    | .ok (items, ledger) => { s with ledger := ledger, read := s.read ++ items }
    | .error _ => s
  | .settle tx (.requeueDLQ backend) =>
    match requeueCleanupDLQ tx backend s.ledger with
    | .ok (_, ledger) =>
      { s with
        ledger := ledger
        ticket := inherit s.ticket s.ledger.nextCleanupID (s.ledger.requeuing backend) }
    | .error _ => s
  | .settle tx st => { s with ledger := st.apply tx s.ledger }
  | .deleteBackendData tx backend =>
    { s with ledger := (S3Orchestrator.deleteBackendData tx backend).commit s.ledger }

/-- A settler settles rows it was handed. Two claims stamped on one row by one instance carry
different times. -/
def Lawful (s : Cleanups) : CleanupAct → Prop
  | .claim tx limit graceCutoff claimedAt =>
    ∀ item ∈ s.read, item.claim = some ⟨claimedAt, tx.instanceID⟩ →
      ∀ row ∈ s.ledger.claimableRows tx.now graceCutoff limit, row.id ≠ item.id
  | .settle _ (.requeueDLQ _) => True
  | .settle _ (.sweep _ _) => True
  | .settle _ st => ∃ deleted items, (∀ item ∈ items, item ∈ s.read) ∧
      st ∈ Settler.calls deleted items
  | _ => True

/-- The deletions that wait, each under the number it was first queued with. -/
def tickets (s : Cleanups) : List Nat :=
  s.ledger.cleanupQueue.map (fun row => s.ticket row.id) ++
    s.ledger.cleanupDLQ.map fun d => s.ticket d.originalID

/-- The act settles the deletion. -/
inductive Departs (s : Cleanups) : CleanupAct → Nat → Prop
  | completed {tx : TxAdapter} {items : List CleanupItem} {item row : CleanupItem}
      (hrow : row ∈ s.ledger.cleanupQueue) (hitem : item ∈ items)
      (hheld : row.heldUnder item = true) :
      Departs s (.settle tx (.complete items)) (s.ticket row.id)
  | swept {tx : TxAdapter} {row : CleanupItem} (hrow : row ∈ s.ledger.cleanupQueue) :
      Departs s (.settle tx (.sweep row.request.storageKey row.request.backendName))
        (s.ticket row.id)
  | removed {tx : TxAdapter} {row : CleanupItem} (hrow : row ∈ s.ledger.cleanupQueue) :
      Departs s (.deleteBackendData tx row.request.backendName) (s.ticket row.id)
  | removedDead {tx : TxAdapter} {d : CleanupDLQItem} (hd : d ∈ s.ledger.cleanupDLQ) :
      Departs s (.deleteBackendData tx d.request.backendName) (s.ticket d.originalID)

def named : Settle → List CleanupItem
  | .complete items => items
  | .retry item _ _ => [item]
  | .moveToDLQ item _ => [item]
  | _ => []

def settles : Settle → Bool
  | .complete _ => true
  | .retry _ _ _ => true
  | .moveToDLQ _ _ => true
  | _ => false

/-- One call settles what it may, and nothing else. -/
structure SettledOnce (s : Cleanups) (a : CleanupAct) : Prop where
  /-- A settler's call changes a row only under the claim stored on it. -/
  current : ∀ tx st, a = .settle tx st → settles st = true → ∀ row ∈ s.ledger.cleanupQueue,
    row ∉ (s.step a).ledger.cleanupQueue → ∃ item ∈ named st,
      item.id = row.id ∧ item.claim = row.claim ∧ row.claim ≠ none
  /-- Every deletion is in one of the two tables, once. -/
  once : (s.step a).tickets.Nodup
  /-- A deletion leaves both tables in one of the ways listed, -/
  leaves : ∀ t ∈ s.tickets, t ∉ (s.step a).tickets → s.Departs a t
  /-- and one that comes up was never there before. -/
  fresh : ∀ t ∈ (s.step a).tickets, t ∉ s.tickets → s.ledger.nextCleanupID ≤ t ∧
    t < (s.step a).ledger.nextCleanupID
  /-- No row has more attempts than the ceiling. -/
  ceiling : (∀ row ∈ (s.step a).ledger.cleanupQueue, row.attempts ≤ maxCleanupAttempts) ∧
    ∀ d ∈ (s.step a).ledger.cleanupDLQ, d.attempts ≤ maxCleanupAttempts
  /-- A row at the ceiling is not claimed. -/
  spent : ∀ tx limit graceCutoff claimedAt, a = .claim tx limit graceCutoff claimedAt →
    ∀ row ∈ s.ledger.cleanupQueue, maxCleanupAttempts ≤ row.attempts →
      row ∈ (s.step a).ledger.cleanupQueue

end Cleanups

end S3Orchestrator
