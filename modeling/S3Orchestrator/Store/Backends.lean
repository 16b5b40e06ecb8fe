import S3Orchestrator.Store.Adapter

/-!
# Backends: state flags, drains and removal

A backend's state is a set of flags on its row of `backend_states`: a cordon, and the progress of
its drain. Every statement on that row tests the flags it finds and changes them at once. Of the
row's other columns (what a drain moved, when, and its last error) no transaction reads any.

Removing a backend deletes the rows that name it, table by table, in an order no foreign key
objects to. The usage counters are no part of the ledger, so their two statements edit nothing here.

* **`deleteBackendData_ok`**: what the ledger is after it. Object tags name no backend, and stay.
-/

namespace S3Orchestrator

open RowStore

/-! ## Flags -/

def flagCordoned : BackendFlags := 1
def flagDraining : BackendFlags := 2
def flagDrained : BackendFlags := 4
def flagDrainFailed : BackendFlags := 8

def drainFlags : BackendFlags := flagDraining ||| flagDrained ||| flagDrainFailed

def drainBusy : BackendFlags := flagDraining ||| flagDrained

def acceptForWrite : BackendFlags := 0
def acceptForReconcile : BackendFlags := flagCordoned
def acceptForRewrite : BackendFlags := flagCordoned
def acceptForPart : BackendFlags := flagCordoned

namespace BackendFlags

/-- The backend has no flag but those that are accepted. -/
def acceptedBy (f accept : BackendFlags) : Bool := f &&& ~~~accept == 0

def any (f mask : BackendFlags) : Bool := f &&& mask != 0

/-- Sets the state of a drain and keeps the other flags. -/
def withProgress (f progress : BackendFlags) : BackendFlags := f &&& ~~~drainFlags ||| progress

end BackendFlags

/-! ## The state row -/

def Ledger.withFlags (s : Ledger) (backend : String) (f : BackendFlags) : Ledger :=
  { s with
    backendStates := (backend, f) :: s.backendStates.filter fun r => !decide (r.1 = backend) }

/-- One statement on a backend's state row. A backend without a row is given `fresh`, where the
statement inserts at all; a row that meets `guard` is changed by `set`. Reports whether a row was
written. -/
def writeState (tx : TxAdapter) (what backend : String) (fresh : Option BackendFlags)
    (guard : Ledger → BackendFlags → Bool) (set : BackendFlags → BackendFlags) : LedgerTx Bool := do
  tx.exec what
  let written ← Tx.read fun s =>
    match s.backendStates.lookup backend with
    | none => fresh
    | some f => if guard s f then some (set f) else none
  match written with
  | none => return false
  | some f =>
    Tx.edit fun s => s.withFlags backend f
    return true

def setBackendFlag (tx : TxAdapter) (backend : String) (flag : BackendFlags) : LedgerTx Bool :=
  writeState tx "set backend flag" backend (some flag) (fun _ f => f &&& flag == 0)
    fun f => f ||| flag

def clearBackendFlags (tx : TxAdapter) (backend : String) (flags : BackendFlags) : LedgerTx Bool :=
  writeState tx "clear backend flags" backend none (fun _ f => BackendFlags.any f flags)
    fun f => f &&& ~~~flags

/-- A backend that is drained or being drained is not drained again. -/
def startDrain (tx : TxAdapter) (backend : String) : LedgerTx Bool :=
  writeState tx "start drain" backend (some flagDraining)
    (fun _ f => f &&& drainBusy == 0) fun f => BackendFlags.withProgress f flagDraining

def markDrainFailed (tx : TxAdapter) (backend : String) : LedgerTx Bool :=
  writeState tx "mark drain failed" backend none (fun _ f => BackendFlags.any f flagDraining)
    fun f => BackendFlags.withProgress f flagDrainFailed

/-- No managed copy, intent or upload is left on the backend. -/
def Ledger.emptied (s : Ledger) (backend : String) : Bool :=
  (!s.objectLocations.rows.any fun l => decide (l.backendName = backend) && !l.unmanaged) &&
    (!s.pendingObjects.rows.any fun p => decide (p.backendName = backend)) &&
    !s.multipartUploads.rows.any fun u => decide (u.backendName = backend)

/-- Marks a backend drained, if it is empty. -/
def completeDrain (tx : TxAdapter) (backend : String) : LedgerTx Bool :=
  writeState tx "complete drain" backend none
    (fun s f => BackendFlags.any f flagDraining && s.emptied backend)
    fun f => BackendFlags.withProgress f flagDrained

def clearBackendState (tx : TxAdapter) (backend : String) : LedgerTx Bool := do
  tx.exec "clear backend state"
  let found ← Tx.read fun s => (s.backendStates.lookup backend).isSome
  Tx.edit fun s => { s with
    backendStates := s.backendStates.filter fun r => !decide (r.1 = backend) }
  return found

/-- Opens an upload on a backend that accepts writes. -/
def createMultipartUpload (tx : TxAdapter) (uploadID backend : String) : LedgerTx Bool := do
  tx.exec "failed to create multipart upload"
  let admitted ← Tx.read fun s =>
    s.hasBackend backend && BackendFlags.acceptedBy (s.flags backend) acceptForWrite
  if admitted then
    Tx.tryEdit (fun s =>
      (s.multipartUploads.insert? { uploadID := uploadID, backendName := backend }).map fun t =>
        { s with multipartUploads := t })
      (wrapError "failed to create multipart upload" .uniqueViolation)
  return admitted

/-! ### What the statements do -/

section States

variable {tx : TxAdapter} {s s' : Ledger} {backend : String}

theorem flags_withFlags (b : String) (f : BackendFlags) :
    (s.withFlags backend f).flags b = if b = backend then f else s.flags b := by
  unfold Ledger.flags Ledger.withFlags
  rw [List.lookup_cons, lookup_filter_ne]
  by_cases hb : b = backend
  · simp [hb]
  · simp [hb, beq_false_of_ne hb]

theorem flags_clearBackendState (b : String) :
    Ledger.flags { s with
      backendStates := s.backendStates.filter fun r => !decide (r.1 = backend) } b =
      if b = backend then 0 else s.flags b := by
  unfold Ledger.flags
  rw [lookup_filter_ne]
  split_ifs <;> rfl

theorem writeState_ok {what : String} {fresh : Option BackendFlags}
    {guard : Ledger → BackendFlags → Bool} {set : BackendFlags → BackendFlags} {r : Bool}
    (h : writeState tx what backend fresh guard set s = .ok (r, s')) :
    s' = s ∨ ∃ f, s' = s.withFlags backend f ∧
      (fresh = some f ∨ guard s (s.flags backend) = true ∧ f = set (s.flags backend)) := by
  obtain ⟨written, s1, h1, h2⟩ := Tx.bind_eq_ok.mp (TxAdapter.of_exec h)
  obtain ⟨hw, rfl⟩ := Tx.read_eq_ok.mp h1
  cases written with
  | none => exact .inl (Tx.pure_eq_ok.mp h2).2
  | some f =>
    have h3 := TxAdapter.of_edit h2
    obtain ⟨-, rfl⟩ := Tx.pure_eq_ok.mp h3
    refine .inr ⟨f, rfl, ?_⟩
    cases hrow : s1.backendStates.lookup backend with
    | none =>
      rw [hrow] at hw
      exact .inl hw.symm
    | some g =>
      have hflags : s1.flags backend = g := by rw [Ledger.flags, hrow, Option.getD_some]
      rw [hrow] at hw
      dsimp only at hw
      split_ifs at hw with hg
      rw [hflags]
      exact .inr ⟨hg, Option.some.inj hw⟩

theorem createMultipartUpload_ok {uploadID : String} {r : Bool}
    (h : createMultipartUpload tx uploadID backend s = .ok (r, s')) :
    s' = s ∨ BackendFlags.acceptedBy (s.flags backend) acceptForWrite = true ∧
      ∃ t, t.rows = s.multipartUploads.rows ++ [⟨uploadID, backend, 0⟩] ∧
        s' = { s with multipartUploads := t } := by
  have h1 := TxAdapter.of_read (TxAdapter.of_exec h)
  split_ifs at h1 with hadm
  · obtain ⟨_, s1, h2, h3⟩ := Tx.bind_eq_ok.mp h1
    obtain ⟨-, rfl⟩ := Tx.pure_eq_ok.mp h3
    obtain ⟨t, -, ht, rfl⟩ := TxAdapter.of_insert h2
    exact .inr ⟨(Bool.and_eq_true_iff.mp hadm).2, t, ht, rfl⟩
  · exact .inl (Tx.pure_eq_ok.mp h1).2

end States

/-! ## Removal -/

/-- What each statement of `DeleteBackendData` deletes. The byte counter's rows go with their quota
row. -/
def backendRows (backend : String) : List (String × (Ledger → Ledger)) :=
  [("DELETE FROM cleanup_queue WHERE backend_name = ?", fun s => { s with
      cleanupQueue := s.cleanupQueue.filter fun i => !decide (i.request.backendName = backend) }),
    ("DELETE FROM cleanup_dlq WHERE backend_name = ?", fun s => { s with
      cleanupDLQ := s.cleanupDLQ.filter fun i => !decide (i.request.backendName = backend) }),
    ("DELETE FROM pending_objects WHERE backend_name = ?", fun s => { s with
      pendingObjects := s.pendingObjects.deleteWhere fun p => decide (p.backendName = backend) }),
    ("DELETE FROM multipart_parts WHERE upload_id IN " ++
      "(SELECT upload_id FROM multipart_uploads WHERE backend_name = ?)", fun s => { s with
      multipartParts := s.multipartParts.deleteWhere fun p => s.uploadOn p.uploadID backend }),
    ("DELETE FROM multipart_uploads WHERE backend_name = ?", fun s => { s with
      multipartUploads := s.multipartUploads.deleteWhere fun u =>
        decide (u.backendName = backend) }),
    ("DELETE FROM object_locations WHERE backend_name = ?", fun s => { s with
      objectLocations := s.objectLocations.deleteWhere fun l => decide (l.backendName = backend) }),
    ("DELETE FROM backend_usage WHERE backend_name = ?", id),
    ("DELETE FROM backend_request_usage WHERE backend_name = ?", id),
    ("DELETE FROM backend_quotas WHERE backend_name = ?", fun s => { s with
      backendQuotas := s.backendQuotas.deleteWhere fun q => decide (q.backendName = backend)
      quotaStripes := s.quotaStripes.deleteWhere fun e => decide (e.1.backend = backend) })]

def deleteBackendData (tx : TxAdapter) (backend : String) : LedgerTx Unit :=
  Tx.forEach (fun stmt => do
    tx.exec ("failed to execute " ++ stmt.1.quote)
    Tx.edit stmt.2) (backendRows backend)

/-- The ledger with no row of the backend left. -/
def Ledger.withoutBackend (s : Ledger) (backend : String) : Ledger :=
  { s with
    cleanupQueue := s.cleanupQueue.filter fun i => !decide (i.request.backendName = backend)
    cleanupDLQ := s.cleanupDLQ.filter fun i => !decide (i.request.backendName = backend)
    pendingObjects := s.pendingObjects.deleteWhere fun p => decide (p.backendName = backend)
    multipartParts := s.multipartParts.deleteWhere fun p => s.uploadOn p.uploadID backend
    multipartUploads := s.multipartUploads.deleteWhere fun u => decide (u.backendName = backend)
    objectLocations := s.objectLocations.deleteWhere fun l => decide (l.backendName = backend)
    backendQuotas := s.backendQuotas.deleteWhere fun q => decide (q.backendName = backend)
    quotaStripes := s.quotaStripes.deleteWhere fun e => decide (e.1.backend = backend) }

theorem foldl_backendRows (s : Ledger) (backend : String) :
    ((backendRows backend).map Prod.snd).foldl (fun s f => f s) s = s.withoutBackend backend := rfl

theorem deleteBackendData_ok {tx : TxAdapter} {s s' : Ledger} {u : Unit} {backend : String}
    (h : deleteBackendData tx backend s = .ok (u, s')) : s' = s.withoutBackend backend := by
  rw [← foldl_backendRows]
  refine Tx.forEach_induct
    (fun done s1 => s1 = (done.map Prod.snd).foldl (fun s f => f s) s) ?_ _ [] s s' u rfl h
  rintro done stmt _ s2 rfl h2
  rw [Tx.edit_eq_ok.mp (TxAdapter.of_exec h2)]
  simp

end S3Orchestrator
