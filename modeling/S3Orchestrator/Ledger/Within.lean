import S3Orchestrator.Ledger.Op

/-!
# What the statements allow, the transactions allow

The transactions of the store are built of a few statements. `Admits tx R` says that the preorder
`R` contains what each of these does to the ledger, the statements on tags apart. A transaction then
moves the ledger along `R`, provided its statements on tags do.

* **`Admits.op`**: every transaction moves the ledger along what its statements move it along.
-/

namespace S3Orchestrator

open RowStore

def Op.writes : Op → Option String
  | .recordObject req => some req.key
  | .promotePending p => some p.objectKey
  | _ => none

def Op.deletes : Op → Bool
  | .deleteObjectsBatch _ => true
  | .deleteObjectLocation _ _ _ => true
  | _ => false

/-- The preorder contains what every statement does to the ledger. -/
structure Admits (tx : TxAdapter) (R : Ledger → Ledger → Prop) : Prop where
  refl : ∀ s, R s s
  trans : ∀ s₁ s₂ s₃, R s₁ s₂ → R s₂ s₃ → R s₁ s₃
  pending : ∀ s t, R s { s with pendingObjects := t }
  locations : ∀ s t, R s { s with objectLocations := t }
  stripes : ∀ s t, R s { s with quotaStripes := t }
  parts : ∀ s t, R s { s with multipartParts := t }
  uploads : ∀ s t, R s { s with multipartUploads := t }
  queued : ∀ cs, Tx.Within R (tx.insertCleanup cs)

namespace Admits

open Tx (Within within_pure within_fail within_ofExcept)

variable {tx : TxAdapter} {R : Ledger → Ledger → Prop} (hR : Admits tx R)

include hR

/-! ## Statements -/

theorem pure' {α : Type} (a : α) : Within R (pure a : LedgerTx α) := within_pure hR.refl a

theorem getExisting (keys : List String) : Within R (tx.getExistingCopiesForUpdate keys) := by
  intro s a s' h
  rw [(TxAdapter.getExistingCopiesForUpdate_ok h).2]
  exact hR.refl s

theorem intentsHeld (ids : List String) : Within R (intentsHeld tx ids) := by
  intro s a s' h
  rw [(intentsHeld_ok h).1]
  exact hR.refl s

theorem lockUploadIdle (uploadID : String) (staleBefore : Time) :
    Within R (lockUploadIdle tx uploadID staleBefore) := by
  intro s a s' h
  rw [(lockUploadIdle_ok h).1]
  exact hR.refl s

theorem deletePending (id : String) : Within R (tx.deletePending id) := by
  intro s a s' h
  rw [TxAdapter.deletePending_ok h]
  exact hR.pending s _

theorem insertPendingIfFits (p : PendingObject) (accepts : BackendFlags) :
    Within R (tx.insertPendingIfFits p accepts) := by
  intro s a s' h
  obtain ⟨-, ⟨-, rfl⟩ | ⟨-, t, -, -, rfl⟩⟩ := TxAdapter.insertPendingIfFits_ok h
  · exact hR.refl s'
  · exact hR.pending s t

theorem insertObjectLocation (loc : ObjectLocation) : Within R (tx.insertObjectLocation loc) := by
  intro s a s' h
  obtain ⟨t, -, -, rfl⟩ := TxAdapter.insertObjectLocation_ok h
  exact hR.locations s t

theorem deleteObjectFromBackend (key backend : String) :
    Within R (tx.deleteObjectFromBackend key backend) := by
  intro s a s' h
  rw [TxAdapter.deleteObjectFromBackend_ok h]
  exact hR.locations s _

theorem charge (d : StripeDeltas) : Within R (d.charge tx) := by
  intro s a s' h
  obtain ⟨t, rfl, -⟩ := charge_ok h
  exact hR.stripes s t

theorem chargeStripes (key : String) (deltas : QuotaDeltas) :
    Within R (chargeStripes tx key deltas) :=
  hR.charge _

theorem queueCleanup (cs : List CleanupRequest) : Within R (queueCleanup tx cs) :=
  Within.ite (hR.pure' _) (Within.mapError _ (hR.queued cs))

theorem enqueueRemoved (key reason : String) (removed : List RemovedCopy) :
    Within R (enqueueRemoved tx key reason removed) :=
  hR.queueCleanup _

/-! ## Bodies -/

theorem bind {α β : Type} {x : LedgerTx α} {g : α → LedgerTx β} (hx : Within R x)
    (hg : ∀ a, Within R (g a)) : Within R (x >>= g) :=
  Within.bind hR.trans hx hg

theorem forEach {α : Type} {g : α → LedgerTx Unit} (hg : ∀ a, Within R (g a)) (l : List α) :
    Within R (Tx.forEach g l) :=
  Within.forEach hR.refl hR.trans hg l

theorem dropIntent (p : PendingObject) (reason : String) : Within R (dropIntent tx p reason) :=
  hR.bind (Within.mapError _ (hR.deletePending _)) fun _ => hR.enqueueRemoved _ _ _

theorem discardPending (p : PendingObject) (reason : String) :
    Within R (discardPending tx p reason) :=
  hR.bind (hR.intentsHeld _) fun _ => Within.ite (hR.dropIntent _ _) (hR.pure' _)

theorem clearExistingCopies (key : String) (existing : List ExistingCopy) (deltas : QuotaDeltas) :
    Within R (clearExistingCopies tx key existing deltas) := by
  refine Within.ite (hR.pure' _) (hR.bind (Within.mapError _ ?_) fun _ => hR.pure' _)
  intro s a s' h
  rw [TxAdapter.deleteObjectCopies_ok h]
  exact hR.locations s _

theorem clearSupersededIntents (keep committing keys : List String) :
    Within R (clearSupersededIntents tx keep committing keys) := by
  refine hR.bind (Within.mapError _ ?_) fun _ => hR.pure' _
  intro s a s' h
  rw [(TxAdapter.clearPendingForKey_ok h).2]
  exact hR.pending s _

theorem recordIntent (p : PendingObject) (deltas : QuotaDeltas) :
    Within R (recordIntent tx p deltas) := by
  refine hR.bind (Within.mapError _ (hR.insertObjectLocation _)) fun _ => ?_
  exact hR.bind (hR.chargeStripes _ _) fun _ => Within.mapError _ (hR.deletePending _)

theorem discardOvertakenWrite (req : RecordObjectRequest) :
    Within R (discardOvertakenWrite tx req) := by
  refine hR.bind (hR.forEach (fun c => ?_) _) fun _ => hR.enqueueRemoved _ _ _
  exact Within.ite (Within.mapError _ (hR.deletePending _)) (hR.pure' _)

theorem recordObject {req : RecordObjectRequest}
    (htags : Within R (replaceObjectTagsTx tx req.key req.tags)) :
    Within R (recordObject tx req) := by
  refine Within.ite (within_fail _) (hR.bind (within_ofExcept hR.refl _) fun _ => ?_)
  refine hR.bind (hR.intentsHeld _) fun held => Within.ite ?_ (hR.discardOvertakenWrite req)
  refine hR.bind (hR.getExisting _) fun existing => ?_
  refine hR.bind (hR.clearExistingCopies _ _ _) fun r => hR.bind htags fun _ => ?_
  refine hR.bind (hR.forEach (fun c => Within.mapError _ (hR.insertObjectLocation _)) _) fun _ => ?_
  refine hR.bind (hR.chargeStripes _ _) fun _ => ?_
  exact hR.bind (hR.clearSupersededIntents _ _ _) fun _ => hR.enqueueRemoved _ _ _

theorem deleteObjectsBatch {keys : List String} (hclear : Within R (clearTagsForKey tx keys)) :
    Within R (deleteObjectsBatch tx keys) := by
  refine Within.ite (hR.pure' _) (hR.bind (hR.getExisting _) fun rows => ?_)
  refine Within.ite (hR.pure' _) (hR.bind (Within.mapError _ fun s a s' h => ?_) fun _ => ?_)
  · rw [TxAdapter.deleteObjectCopies_ok h]
    exact hR.locations s _
  · refine hR.bind hclear fun _ => hR.bind (hR.clearSupersededIntents _ _ _) fun _ => ?_
    exact hR.bind (hR.queueCleanup _) fun _ => hR.bind (hR.charge _) fun _ => hR.pure' _

theorem deleteObjectLocation {loc : ObjectLocation} {keepAtLeast : Int} {reason : String}
    (hclear : Within R (clearTagsForKey tx [loc.objectKey])) :
    Within R (deleteObjectLocation tx loc keepAtLeast reason) := by
  refine hR.bind (hR.getExisting _) fun existing => ?_
  refine hR.bind (within_ofExcept hR.refl _) fun held => hR.bind ?_ fun _ => ?_
  · refine hR.bind (hR.deleteObjectFromBackend _ _) fun _ => ?_
    dsimp only
    split_ifs
    · exact hR.bind hclear fun _ => hR.chargeStripes _ _
    · exact hR.chargeStripes _ _
  · exact Within.ite (hR.pure' _) (hR.enqueueRemoved _ _ _)

theorem placeCopyTx (p : Placement) : Within R (placeCopyTx tx p) := by
  have hrefuse : ∀ e, Within R (p.refuse tx e) :=
    fun e => hR.bind (hR.dropIntent _ _) fun _ => hR.pure' _
  have hmoved : ∀ src, Within R (p.removeMoved tx src) := fun src =>
    Within.ite (hR.bind (hR.deleteObjectFromBackend _ _) fun _ => hR.enqueueRemoved _ _ _)
      (hR.pure' _)
  have hcommit : ∀ src, Within R (p.commit tx src) := by
    intro src
    refine hR.bind (hmoved src) fun _ => ?_
    refine hR.bind (Within.mapError _ (hR.insertObjectLocation _)) fun _ => ?_
    exact hR.bind (hR.chargeStripes _ _) fun _ => hR.pure' _
  refine hR.bind (hR.intentsHeld _) fun held => Within.ite ?_ ?_
  · refine hR.bind (hR.getExisting _) fun existing => ?_
    split
    · exact hrefuse _
    · refine hR.bind (fun s a s' h => ?_) fun found => ?_
      · rw [(TxAdapter.lockObjectOnBackend_ok h).2]
        exact hR.refl s
      · cases found with
        | none => exact hrefuse _
        | some src =>
          exact hR.bind (Within.mapError _ (hR.deletePending _)) fun _ => hcommit src
  · exact hR.bind (hR.enqueueRemoved _ _ _) fun _ => hR.pure' _

theorem promotePending {p : PendingObject}
    (htags : Within R (replaceObjectTagsTx tx p.objectKey p.tags)) :
    Within R (promotePending tx p) := by
  refine Within.mapError _ (hR.bind (hR.intentsHeld _) fun claimed => Within.ite ?_ (hR.pure' _))
  refine hR.bind (hR.getExisting _) fun existing => Within.ite ?_ (Within.ite ?_ ?_)
  · refine Within.ite ?_ (hR.bind (hR.dropIntent _ _) fun _ => hR.pure' _)
    exact hR.bind (Within.mapError _ (hR.deletePending _)) fun _ => hR.pure' _
  · exact hR.bind (hR.dropIntent _ _) fun _ => hR.pure' _
  · refine hR.bind (hR.clearExistingCopies _ _ _) fun r => ?_
    refine hR.bind (hR.recordIntent _ _) fun _ => hR.bind htags fun _ => ?_
    exact hR.bind (hR.enqueueRemoved _ _ _) fun _ => hR.pure' _

theorem commitCompanionCopy (p : PendingObject) : Within R (commitCompanionCopy tx p) := by
  refine Within.mapError _ (hR.bind (hR.intentsHeld _) fun claimed => Within.ite ?_ ?_)
  · exact hR.bind (hR.recordIntent _ _) fun _ => hR.pure' _
  · exact hR.bind (hR.enqueueRemoved _ _ _) fun _ => hR.pure' _

theorem importObject (req : ImportObjectRequest) : Within R (importObject tx req) := by
  refine hR.bind (fun s a s' h => ?_) fun states => ?_
  · rw [(Tx.read_eq_ok.mp (TxAdapter.of_exec h)).2]
    exact hR.refl s
  · split
    · exact hR.pure' _
    · exact hR.pure' _
    · exact hR.pure' _
    · refine hR.bind (fun s a s' h => ?_) fun inserted => Within.ite ?_ (hR.pure' _)
      · obtain ⟨-, rfl⟩ | ⟨-, t, -, rfl⟩ := TxAdapter.insertObjectLocationIfNotExists_ok h
        · exact hR.refl s'
        · exact hR.locations s t
      · exact hR.bind (hR.chargeStripes _ _) fun _ => hR.pure' _

theorem recordPart (p : RecordPartParams) : Within R (recordPart tx p) := by
  refine Within.ite (hR.bind (hR.lockUploadIdle _ _) fun backend => ?_) (within_fail _)
  refine Within.ite (within_fail _) (hR.bind (hR.intentsHeld _) fun held => Within.ite ?_ ?_)
  · refine hR.bind (fun s a s' h => ?_) fun replaced => ?_
    · rw [(TxAdapter.upsertPart_ok h).2]
      exact hR.parts s _
    · refine hR.bind (Within.mapError _ (hR.deletePending _)) fun _ => ?_
      cases replaced with
      | none => exact hR.pure' _
      | some q => exact hR.bind (hR.enqueueRemoved _ _ _) fun _ => hR.pure' _
  · exact hR.bind (hR.enqueueRemoved _ _ _) fun _ => hR.pure' _

theorem deleteMultipartUpload (uploadID reason : String) (staleBefore : Time) :
    Within R (deleteMultipartUpload tx uploadID reason staleBefore) := by
  refine hR.bind (hR.lockUploadIdle _ _) fun backend => Within.ite (hR.pure' _) ?_
  refine hR.bind (fun s a s' h => ?_) fun parts => hR.queueCleanup _
  rw [(TxAdapter.deleteMultipartUpload_ok h).2]
  let parts := s.multipartParts.deleteWhere fun p => decide (p.uploadID = uploadID)
  exact hR.trans _ { s with multipartParts := parts } _ (hR.parts s parts) (hR.uploads _ _)

theorem op {op : Op} (s : Ledger)
    (htags : ∀ key tags, op.writes = some key → Within R (replaceObjectTagsTx tx key tags))
    (hclear : op.deletes = true → ∀ keys, Within R (clearTagsForKey tx keys)) :
    R s (op.apply tx s) := by
  cases op with
  | claim p accepts => exact (hR.insertPendingIfFits p accepts).commit hR.refl s
  | recordObject req => exact (hR.recordObject (htags _ _ rfl)).commit hR.refl s
  | deleteObjectsBatch keys => exact (hR.deleteObjectsBatch (hclear rfl _)).commit hR.refl s
  | deleteObjectLocation loc keepAtLeast reason =>
    exact (hR.deleteObjectLocation (hclear rfl _)).commit hR.refl s
  | placeCopy p => exact (hR.placeCopyTx p).commit hR.refl s
  | promotePending p => exact (hR.promotePending (htags _ _ rfl)).commit hR.refl s
  | commitCompanionCopy p => exact (hR.commitCompanionCopy p).commit hR.refl s
  | discardPending p reason => exact (hR.discardPending p reason).commit hR.refl s
  | deletePending intentID => exact (hR.deletePending intentID).commit hR.refl s
  | importObject req => exact (hR.importObject req).commit hR.refl s
  | recordPart p => exact (hR.recordPart p).commit hR.refl s
  | deleteMultipartUpload uploadID reason staleBefore =>
    exact (hR.deleteMultipartUpload uploadID reason staleBefore).commit hR.refl s

end Admits

end S3Orchestrator
