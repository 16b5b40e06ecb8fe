import S3Orchestrator.Lib.Tx
import S3Orchestrator.Lib.Table
import S3Orchestrator.Store.Types

/-!
# The ledger and the statements a transaction runs on it

`Ledger` is the part of the database that names bytes on backends. `TxAdapter` is the seam the
transactions of the store run through: one method for each statement, with the constraint it can
violate and the context its error is wrapped in. Whether the database fails a statement for reasons
of its own is the adapter's `fault`.

Writers are serialized, so the locks the source takes are not statements here. For every method
`m`, `m_ok` says what a successful call returned and what it changed.
-/

namespace S3Orchestrator

open RowStore Tx

/-! ## Tables -/

structure ObjectTag where
  objectKey : String
  tagKey : String
  tagValue : String
  deriving DecidableEq, Repr

/-- A backend has one row for a key, and one for a path. -/
def sameSlot (a b : ObjectLocation) : Bool :=
  decide (a.backendName = b.backendName) &&
    (decide (a.objectKey = b.objectKey) || decide (a.storageKey = b.storageKey))

def sameIntent (a b : PendingObject) : Bool := decide (a.intentID = b.intentID)

def sameTag (a b : ObjectTag) : Bool :=
  decide (a.objectKey = b.objectKey) && decide (a.tagKey = b.tagKey)

def sameBackend (a b : BackendQuota) : Bool := decide (a.backendName = b.backendName)

def sameUpload (a b : MultipartUpload) : Bool := decide (a.uploadID = b.uploadID)

def samePart (a b : MultipartPart) : Bool :=
  decide (a.uploadID = b.uploadID) && decide (a.partNumber = b.partNumber)

/-- The tables that name bytes on backends, and the counters kept beside them. -/
structure Ledger where
  backendQuotas : Table BackendQuota sameBackend := Table.empty
  backendStates : List (String × BackendFlags) := []
  quotaStripes : Tally StripeRow := Table.empty
  objectLocations : Table ObjectLocation sameSlot := Table.empty
  pendingObjects : Table PendingObject sameIntent := Table.empty
  objectTags : Table ObjectTag sameTag := Table.empty
  cleanupQueue : List CleanupItem := []
  nextCleanupID : Nat := 1
  cleanupDLQ : List CleanupDLQItem := []
  multipartUploads : Table MultipartUpload sameUpload := Table.empty
  multipartParts : Table MultipartPart samePart := Table.empty

/-- A transaction of the store. -/
abbrev LedgerTx (α : Type) : Type := Tx Ledger StoreError α

namespace Ledger

def hasBackend (s : Ledger) (backend : String) : Bool :=
  s.backendQuotas.rows.any fun q => decide (q.backendName = backend)

/-- The recorded copies of some keys. -/
def copiesOf (s : Ledger) (keys : List String) : List ObjectLocation :=
  s.objectLocations.rows.filter fun l => decide (l.objectKey ∈ keys)

/-- The intent still has its row. -/
def holds (s : Ledger) (intentID : String) : Bool :=
  s.pendingObjects.rows.any fun p => decide (p.intentID = intentID)

/-- The upload is under way on the backend. -/
def uploadOn (s : Ledger) (uploadID backend : String) : Bool :=
  s.multipartUploads.rows.any fun u => decide (u.uploadID = uploadID ∧ u.backendName = backend)

def flags (s : Ledger) (backend : String) : BackendFlags :=
  (s.backendStates.lookup backend).getD 0

/-- The sum of the stripes, as the view reads it: never below zero. -/
def bytesUsed (s : Ledger) (backend : String) : Int :=
  max 0 (Tally.total (fun r => decide (r.backend = backend)) s.quotaStripes)

/-- Bytes that wait to be deleted. -/
def orphanBytes (s : Ledger) (backend : String) : Int :=
  sumOn (fun i => i.request.sizeBytes) (fun i => decide (i.request.backendName = backend))
    s.cleanupQueue +
  sumOn (fun i => i.request.sizeBytes) (fun i => decide (i.request.backendName = backend))
    s.cleanupDLQ

/-- Bytes of parts and of intents. -/
def inflightBytes (s : Ledger) (backend : String) : Int :=
  sumOn (fun p => p.sizeBytes) (fun p => s.uploadOn p.uploadID backend) s.multipartParts.rows +
  sumOn (fun p => p.sizeBytes) (fun p => decide (p.backendName = backend)) s.pendingObjects.rows

/-- What the capacity view counts on a backend. -/
def occupied (s : Ledger) (backend : String) : Int :=
  s.bytesUsed backend + s.orphanBytes backend + s.inflightBytes backend

def bytesLimit (s : Ledger) (backend : String) : Option Int :=
  (s.backendQuotas.rows.find? fun q => decide (q.backendName = backend)).map (·.bytesLimit)

/-- The backend admits the intent: it is known, carries no flag outside `accepts`, and has room
under its ceiling. -/
def fits (s : Ledger) (p : PendingObject) (accepts : BackendFlags) : Bool :=
  match s.bytesLimit p.backendName with
  | none => false
  | some limit =>
    decide (s.flags p.backendName &&& ~~~accepts = 0) &&
      (decide (limit = 0) || decide (p.sizeBytes ≤ limit - s.occupied p.backendName))

end Ledger

/-! ## Statements -/

/-- The seam a transaction runs its statements through. -/
structure TxAdapter where
  instanceID : String := ""
  now : Time
  /-- The statements the database fails. -/
  fault : String → Ledger → Bool := fun _ _ => false

/-- Who has a say over a path on a backend. -/
inductive PathState where
  | untracked
  | recorded
  | inFlight
  | pendingCleanup
  deriving DecidableEq, Repr

def Ledger.pathState (s : Ledger) (backend path : String) : PathState :=
  if (s.cleanupQueue.any fun i =>
        decide (i.request.backendName = backend ∧ i.request.storageKey = path)) ||
      (s.cleanupDLQ.any fun i =>
        decide (i.request.backendName = backend ∧ i.request.storageKey = path)) then .pendingCleanup
  else if s.pendingObjects.rows.any fun p =>
      decide (p.backendName = backend ∧ p.storageKey = path) then .inFlight
  else if s.objectLocations.rows.any fun l =>
      decide (l.backendName = backend ∧ l.storageKey = path) then .recorded
  else .untracked

structure StripeCharge where
  backend : String
  stripe : Nat
  delta : Int

namespace TxAdapter

variable (tx : TxAdapter)

/-- A statement runs, unless the database fails it. -/
def exec (what : String) : LedgerTx Unit :=
  Tx.require (fun s => !tx.fault what s) (wrapError what .database)

/-- A foreign key to the configured backends. -/
def references (what backend : String) : LedgerTx Unit :=
  Tx.require (fun s => s.hasBackend backend) (wrapError what .foreignKeyViolation)

/-! ### Intents -/

def claimPending (intentID : String) : LedgerTx Bool := do
  tx.exec "claim pending"
  Tx.read fun s => s.holds intentID

def deletePending (intentID : String) : LedgerTx Unit := do
  tx.exec "delete pending object"
  Tx.edit fun s => { s with
    pendingObjects := s.pendingObjects.deleteWhere fun p => decide (p.intentID = intentID) }

/-- The intent is for one of the keys and not among those to keep. -/
def clears (keep objectKeys : List String) (p : PendingObject) : Bool :=
  decide (p.objectKey ∈ objectKeys) && decide (p.intentID ∉ keep)

/-- Removes the other intents of some keys, for their bytes to be queued. -/
def clearPendingForKey (keep objectKeys : List String) : LedgerTx (List SupersededIntent) := do
  tx.exec "clear pending intents for key"
  let cleared ← Tx.read fun s => s.pendingObjects.rows.filter (clears keep objectKeys)
  Tx.edit fun s => { s with
    pendingObjects := s.pendingObjects.deleteWhere (clears keep objectKeys) }
  return cleared.map PendingObject.superseded

/-- The row that claims an intent. -/
def pendingRow (p : PendingObject) : PendingObject :=
  { p with
    storageKey := storagePath p.objectKey p.storageKey
    createdAt := tx.now
    role := p.roleOrDefault }

/-- Claims an intent if the backend accepts it and has room. -/
def insertPendingIfFits (p : PendingObject) (accepts : BackendFlags) : LedgerTx Bool := do
  tx.exec "insert pending object"
  let fits ← Tx.read fun s => s.fits p accepts
  if fits then
    Tx.tryEdit (fun s => (s.pendingObjects.insert? (tx.pendingRow p)).map fun t =>
      { s with pendingObjects := t }) (wrapError "insert pending object" .uniqueViolation)
  return fits

/-! ### Copies -/

/-- The copies of some keys, whose rows are locked. -/
def getExistingCopiesForUpdate (objectKeys : List String) : LedgerTx (List ExistingCopy) := do
  if objectKeys = [] then return []
  tx.exec "query existing copies"
  Tx.read fun s => (s.copiesOf objectKeys).map ObjectLocation.existing

/-- The row that records a copy. An import brings its own time. -/
def locationRow (loc : ObjectLocation) : ObjectLocation :=
  { loc with
    storedForm := loc.storedForm.recorded
    createdAt := if loc.createdAt = 0 then tx.now else loc.createdAt }

def insertObjectLocation (loc : ObjectLocation) : LedgerTx Unit := do
  tx.exec "insert object location"
  references "insert object location" loc.backendName
  Tx.tryEdit (fun s => (s.objectLocations.insert? (tx.locationRow loc)).map fun t =>
    { s with objectLocations := t }) (wrapError "insert object location" .uniqueViolation)

def deleteObjectCopies (objectKeys : List String) : LedgerTx Unit := do
  tx.exec "delete object copies"
  Tx.edit fun s => { s with
    objectLocations := s.objectLocations.deleteWhere fun l => decide (l.objectKey ∈ objectKeys) }

def deleteObjectFromBackend (objectKey backend : String) : LedgerTx Unit := do
  tx.exec "delete object from backend"
  Tx.edit fun s => { s with
    objectLocations := s.objectLocations.deleteWhere fun l =>
      decide (l.objectKey = objectKey ∧ l.backendName = backend) }

def lockObjectOnBackend (objectKey backend : String) : LedgerTx (Option ObjectLocation) := do
  tx.exec "lock object on backend"
  Tx.read fun s => s.objectLocations.rows.find? fun l =>
    decide (l.objectKey = objectKey ∧ l.backendName = backend)

def listedPathStates (backend : String) : LedgerTx (String → PathState) := do
  tx.exec "look up listed paths"
  Tx.read fun s => s.pathState backend

def insertObjectLocationIfNotExists (loc : ObjectLocation) : LedgerTx Bool := do
  tx.exec "check object on backend"
  let found ← Tx.read fun s => s.objectLocations.rows.any fun l =>
    decide (l.objectKey = loc.objectKey ∧ l.backendName = loc.backendName)
  if found then return false
  tx.insertObjectLocation loc
  return true

/-! ### Tags -/

def insertObjectTag (objectKey tagKey tagValue : String) : LedgerTx Unit := do
  tx.exec "insert object tag"
  Tx.tryEdit (fun s => (s.objectTags.insert? ⟨objectKey, tagKey, tagValue⟩).map fun t =>
    { s with objectTags := t }) (wrapError "insert object tag" .uniqueViolation)

def deleteObjectTags (objectKeys : List String) : LedgerTx Unit := do
  tx.exec "delete object tags"
  Tx.edit fun s => { s with
    objectTags := s.objectTags.deleteWhere fun t => decide (t.objectKey ∈ objectKeys) }

/-! ### Cleanup -/

def cleanupRow (c : CleanupRequest) (id : Nat) : CleanupItem where
  request := c
  id := id
  claim := some ⟨tx.now, tx.instanceID⟩
  createdAt := tx.now
  nextRetry := tx.now

/-- Queues deletions, claimed by the instance that queues them. -/
def insertCleanup : List CleanupRequest → LedgerTx (List CleanupItem)
  | [] => return []
  | c :: cs => do
    tx.exec "insert cleanup row"
    references "insert cleanup row" c.backendName
    let id ← Tx.read fun s => s.nextCleanupID
    Tx.edit fun s => { s with
      cleanupQueue := s.cleanupQueue ++ [tx.cleanupRow c id]
      nextCleanupID := id + 1 }
    let items ← insertCleanup cs
    return tx.cleanupRow c id :: items

/-! ### Quota -/

/-- Adds to one stripe of a backend's counter. -/
def adjustQuotaStripe (c : StripeCharge) : LedgerTx Unit := do
  tx.exec ("adjust quota stripe for " ++ c.backend)
  references ("adjust quota stripe for " ++ c.backend) c.backend
  Tx.edit fun s => { s with quotaStripes := Tally.add s.quotaStripes ⟨c.backend, c.stripe⟩ c.delta }

def adjustQuotaStripes (charges : List StripeCharge) : LedgerTx Unit :=
  Tx.forEach tx.adjustQuotaStripe charges

/-! ### Multipart -/

/-- The upload's backend and when a completion last renewed its mark; an empty backend for an upload
gone. -/
def lockMultipartUpload (uploadID : String) : LedgerTx (String × Time) := do
  tx.exec "read multipart upload"
  Tx.read fun s =>
    match s.multipartUploads.rows.find? fun u => decide (u.uploadID = uploadID) with
    | some u => (u.backendName, u.completionHeartbeatAt)
    | none => ("", 0)

def deleteMultipartUpload (uploadID : String) : LedgerTx (List MultipartPart) := do
  tx.exec "delete multipart parts"
  let parts ← Tx.read fun s => s.multipartParts.rows.filter fun p => decide (p.uploadID = uploadID)
  tx.exec "delete multipart upload"
  Tx.edit fun s => { s with
    multipartParts := s.multipartParts.deleteWhere fun p => decide (p.uploadID = uploadID)
    multipartUploads := s.multipartUploads.deleteWhere fun u => decide (u.uploadID = uploadID) }
  return parts

def partRow (p : RecordPartParams) : MultipartPart where
  uploadID := p.uploadID
  partNumber := p.partNumber
  eTag := p.eTag
  plaintextETag := p.plaintextETag
  sizeBytes := p.sizeBytes
  storageKey := p.intent.storageKey
  createdAt := tx.now
  storedForm := (p.form.map StoredForm.envelope).getD {}

/-- Records a part and returns the one it replaces. -/
def upsertPart (p : RecordPartParams) : LedgerTx (Option MultipartPart) := do
  tx.exec "read replaced part"
  let prev ← Tx.read fun s => s.multipartParts.rows.find? fun q => samePart q (tx.partRow p)
  tx.exec "record part"
  Tx.edit fun s => { s with multipartParts := s.multipartParts.upsert (tx.partRow p) }
  return prev

/-! ## What a successful statement did -/

section Ok

variable {tx} {α : Type} {s s' : Ledger} {u : Unit}
  {f : Unit → LedgerTx α} {keys : List String} {r : α × Ledger} {b : Bool}

theorem of_exec {what : String} (h : (tx.exec what >>= f) s = .ok r) : f () s = .ok r := by
  obtain ⟨_, s1, ⟨_, rfl⟩, h2⟩ := bind_ok h require_eq_ok.mp
  exact h2

theorem of_references {what backend : String} (h : (references what backend >>= f) s = .ok r) :
    s.hasBackend backend = true ∧ f () s = .ok r := by
  obtain ⟨_, s1, ⟨hb, rfl⟩, h2⟩ := bind_ok h require_eq_ok.mp
  exact ⟨hb, h2⟩

theorem of_read {β : Type} {g : Ledger → α} {f : α → LedgerTx β} {r : β × Ledger}
    (h : (read g >>= f : LedgerTx β) s = .ok r) : f (g s) s = .ok r := by
  obtain ⟨a, s1, ⟨rfl, rfl⟩, h2⟩ := bind_ok h read_eq_ok.mp
  exact h2

theorem of_edit {g : Ledger → Ledger} (h : (edit g >>= f : LedgerTx α) s = .ok r) :
    f () (g s) = .ok r := by
  obtain ⟨_, s1, rfl, h2⟩ := bind_ok h edit_eq_ok.mp
  exact h2

theorem of_insert {ρ : Type} {clash : ρ → ρ → Bool} {t : Ledger → Table ρ clash}
    {put : Ledger → Table ρ clash → Ledger} {row : ρ} {e : StoreError}
    (h : (tryEdit (fun s => ((t s).insert? row).map (put s)) e : LedgerTx Unit) s = .ok (u, s')) :
    ∃ t', (∀ a ∈ (t s).rows, clash a row = false) ∧ t'.rows = (t s).rows ++ [row] ∧
      s' = put s t' := by
  have hmap := tryEdit_eq_ok.mp h
  obtain ⟨t', ht', rfl⟩ := Option.map_eq_some_iff.mp hmap
  obtain ⟨hc, hrows⟩ := Table.insert?_eq_some.mp ht'
  exact ⟨t', hc, hrows, rfl⟩

theorem claimPending_ok {id : String} (h : tx.claimPending id s = .ok (b, s')) :
    b = s.holds id ∧ s' = s :=
  read_eq_ok.mp (of_exec h)

theorem deletePending_ok {id : String} (h : tx.deletePending id s = .ok (u, s')) :
    s' = { s with
      pendingObjects := s.pendingObjects.deleteWhere fun p => decide (p.intentID = id) } :=
  edit_eq_ok.mp (of_exec h)

theorem clearPendingForKey_ok {keep keys : List String} {r : List SupersededIntent}
    (h : tx.clearPendingForKey keep keys s = .ok (r, s')) :
    r = (s.pendingObjects.rows.filter (clears keep keys)).map PendingObject.superseded ∧
      s' = { s with pendingObjects := s.pendingObjects.deleteWhere (clears keep keys) } := by
  have h1 := of_exec h
  have h2 := of_read h1
  have h3 := of_edit h2
  exact pure_eq_ok.mp h3

theorem insertPendingIfFits_ok {p : PendingObject} {accepts : BackendFlags}
    (h : tx.insertPendingIfFits p accepts s = .ok (b, s')) :
    b = s.fits p accepts ∧ (b = false ∧ s' = s ∨
       b = true ∧ ∃ t, (∀ q ∈ s.pendingObjects.rows, q.intentID ≠ p.intentID) ∧
         t.rows = s.pendingObjects.rows ++ [tx.pendingRow p] ∧
         s' = { s with pendingObjects := t }) := by
  have h1 := of_exec h
  have h2 := of_read h1
  cases hf : s.fits p accepts with
  | false =>
    rw [hf] at h2
    obtain ⟨rfl, rfl⟩ := pure_eq_ok.mp h2
    exact ⟨rfl, .inl ⟨rfl, rfl⟩⟩
  | true =>
    rw [hf] at h2
    obtain ⟨_, h3, rfl⟩ := bind_pure_ok h2
    obtain ⟨t, hc, ht, rfl⟩ := of_insert h3
    refine ⟨rfl, .inr ⟨rfl, t, fun q hq => ?_, ht, rfl⟩⟩
    exact of_decide_eq_false (p := q.intentID = p.intentID) (hc q hq)

theorem getExistingCopiesForUpdate_ok {r : List ExistingCopy}
    (h : tx.getExistingCopiesForUpdate keys s = .ok (r, s')) :
    r = (s.copiesOf keys).map ObjectLocation.existing ∧ s' = s := by
  unfold getExistingCopiesForUpdate at h
  split_ifs at h with hk
  · obtain ⟨rfl, rfl⟩ := pure_eq_ok.mp h
    subst hk
    simp [Ledger.copiesOf]
  · exact read_eq_ok.mp (of_exec h)

theorem insertObjectLocation_ok {loc : ObjectLocation}
    (h : tx.insertObjectLocation loc s = .ok (u, s')) :
    ∃ t, (∀ a ∈ s.objectLocations.rows, sameSlot a (tx.locationRow loc) = false) ∧
      t.rows = s.objectLocations.rows ++ [tx.locationRow loc] ∧
      s' = { s with objectLocations := t } := by
  obtain ⟨_, h1⟩ := of_references (of_exec h)
  exact of_insert h1

theorem deleteObjectCopies_ok (h : tx.deleteObjectCopies keys s = .ok (u, s')) :
    s' = { s with
      objectLocations := s.objectLocations.deleteWhere fun l => decide (l.objectKey ∈ keys) } :=
  edit_eq_ok.mp (of_exec h)

theorem deleteObjectFromBackend_ok {key backend : String}
    (h : tx.deleteObjectFromBackend key backend s = .ok (u, s')) :
    s' = { s with
      objectLocations := s.objectLocations.deleteWhere fun l =>
        decide (l.objectKey = key ∧ l.backendName = backend) } :=
  edit_eq_ok.mp (of_exec h)

theorem lockObjectOnBackend_ok {key backend : String} {r : Option ObjectLocation}
    (h : tx.lockObjectOnBackend key backend s = .ok (r, s')) :
    r = (s.objectLocations.rows.find? fun l =>
      decide (l.objectKey = key ∧ l.backendName = backend)) ∧ s' = s :=
  read_eq_ok.mp (of_exec h)

theorem insertObjectLocationIfNotExists_ok {loc : ObjectLocation}
    (h : tx.insertObjectLocationIfNotExists loc s = .ok (b, s')) :
    b = false ∧ s' = s ∨ b = true ∧ ∃ t, t.rows = s.objectLocations.rows ++ [tx.locationRow loc] ∧
        s' = { s with objectLocations := t } := by
  have h1 := of_exec h
  have h2 := of_read h1
  split_ifs at h2 with hf
  · obtain ⟨rfl, rfl⟩ := pure_eq_ok.mp h2
    exact .inl ⟨rfl, rfl⟩
  · obtain ⟨_, h3, rfl⟩ := bind_pure_ok h2
    obtain ⟨t, _, ht, rfl⟩ := insertObjectLocation_ok h3
    exact .inr ⟨rfl, t, ht, rfl⟩

theorem insertObjectTag_ok {key tagKey tagValue : String}
    (h : tx.insertObjectTag key tagKey tagValue s = .ok (u, s')) :
    ∃ t, s' = { s with objectTags := t } := by
  obtain ⟨t, _, _, rfl⟩ := of_insert (of_exec h)
  exact ⟨t, rfl⟩

theorem deleteObjectTags_ok (h : tx.deleteObjectTags keys s = .ok (u, s')) :
    s' = { s with
      objectTags := s.objectTags.deleteWhere fun t => decide (t.objectKey ∈ keys) } :=
  edit_eq_ok.mp (of_exec h)

theorem insertCleanup_ok {cs : List CleanupRequest} {items : List CleanupItem}
    (h : tx.insertCleanup cs s = .ok (items, s')) :
    items.map CleanupItem.request = cs ∧
      ∃ n, s' = { s with cleanupQueue := s.cleanupQueue ++ items, nextCleanupID := n } := by
  induction cs generalizing s items with
  | nil =>
    obtain ⟨rfl, rfl⟩ := pure_eq_ok.mp h
    exact ⟨rfl, s'.nextCleanupID, by simp⟩
  | cons c cs ih =>
    obtain ⟨_, h1⟩ := of_references (of_exec h)
    have h2 := of_read h1
    have h3 := of_edit h2
    obtain ⟨items', h4, rfl⟩ := bind_pure_ok h3
    obtain ⟨hreq, n, rfl⟩ := ih h4
    exact ⟨by simp [hreq, cleanupRow], n, by simp⟩

theorem adjustQuotaStripe_ok {c : StripeCharge} (h : tx.adjustQuotaStripe c s = .ok (u, s')) :
    s' = { s with quotaStripes := Tally.add s.quotaStripes ⟨c.backend, c.stripe⟩ c.delta } := by
  obtain ⟨_, h1⟩ := of_references (of_exec h)
  exact edit_eq_ok.mp h1

def chargeEntry (c : StripeCharge) : StripeRow × Int := (⟨c.backend, c.stripe⟩, c.delta)

theorem adjustQuotaStripes_ok {charges : List StripeCharge}
    (h : tx.adjustQuotaStripes charges s = .ok (u, s')) :
    s' = { s with quotaStripes := Tally.addAll s.quotaStripes (charges.map chargeEntry) } := by
  refine forEach_induct (fun done s1 => s1 =
      { s with quotaStripes := Tally.addAll s.quotaStripes (done.map chargeEntry) })
    ?_ charges [] s s' u rfl h
  rintro done c _ s2 rfl h2
  obtain rfl := adjustQuotaStripe_ok h2
  simp [Tally.addAll, chargeEntry]

theorem lockMultipartUpload_ok {uploadID : String} {r : String × Time}
    (h : tx.lockMultipartUpload uploadID s = .ok (r, s')) :
    s' = s ∧ ((∃ m ∈ s.multipartUploads.rows, m.uploadID = uploadID ∧
        r = (m.backendName, m.completionHeartbeatAt)) ∨
      (∀ m ∈ s.multipartUploads.rows, m.uploadID ≠ uploadID) ∧ r = ("", 0)) := by
  obtain ⟨hr, hs⟩ := read_eq_ok.mp (of_exec h)
  refine ⟨hs, ?_⟩
  cases hf : s.multipartUploads.rows.find? fun m => decide (m.uploadID = uploadID) with
  | none =>
    rw [hf] at hr
    refine .inr ⟨fun m hm he => ?_, hr⟩
    have := List.find?_eq_none.mp hf m hm
    simp [he] at this
  | some m =>
    rw [hf] at hr
    have hm := List.find?_some hf
    exact .inl ⟨m, List.mem_of_find?_eq_some hf, by simpa using hm, hr⟩

theorem deleteMultipartUpload_ok {uploadID : String} {parts : List MultipartPart}
    (h : tx.deleteMultipartUpload uploadID s = .ok (parts, s')) :
    parts = (s.multipartParts.rows.filter fun p => decide (p.uploadID = uploadID)) ∧
      s' = { s with
        multipartParts := s.multipartParts.deleteWhere fun p => decide (p.uploadID = uploadID)
        multipartUploads :=
          s.multipartUploads.deleteWhere fun u => decide (u.uploadID = uploadID) } := by
  have h1 := of_exec h
  have h2 := of_read h1
  have h3 := of_exec h2
  have h4 := of_edit h3
  exact pure_eq_ok.mp h4

theorem upsertPart_ok {p : RecordPartParams} {r : Option MultipartPart}
    (h : tx.upsertPart p s = .ok (r, s')) :
    r = (s.multipartParts.rows.find? fun q => samePart q (tx.partRow p)) ∧
      s' = { s with multipartParts := s.multipartParts.upsert (tx.partRow p) } := by
  have h1 := of_exec h
  have h2 := of_read h1
  have h3 := of_exec h2
  have h4 := of_edit h3
  exact pure_eq_ok.mp h4

end Ok

end TxAdapter

end S3Orchestrator
