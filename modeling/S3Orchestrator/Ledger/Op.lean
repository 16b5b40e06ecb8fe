import S3Orchestrator.Store.Outcome
import S3Orchestrator.Lib.Run

/-!
# The ledger as a system

`Op` is one transaction of the store with its arguments, and `Op.apply` is the ledger after it: a
transaction that fails at any statement leaves the ledger as it was. `Outcome tx s op e` lists what
the transaction can do to the ledger, and **`apply_outcome`** says it does one of these things.
-/

namespace S3Orchestrator

open RowStore

inductive Op where
  | claim (p : PendingObject) (accepts : BackendFlags)
  | recordObject (req : RecordObjectRequest)
  | deleteObjectsBatch (keys : List String)
  | deleteObjectLocation (loc : ObjectLocation) (keepAtLeast : Int) (reason : String)
  | placeCopy (p : Placement)
  | promotePending (p : PendingObject)
  | commitCompanionCopy (p : PendingObject)
  | discardPending (p : PendingObject) (reason : String)
  | deletePending (intentID : String)
  | importObject (req : ImportObjectRequest)
  | recordPart (p : RecordPartParams)
  | deleteMultipartUpload (uploadID reason : String) (staleBefore : Time)

def Op.apply (tx : TxAdapter) (s : Ledger) : Op → Ledger
  | .claim p accepts => (tx.insertPendingIfFits p accepts).commit s
  | .recordObject req => (S3Orchestrator.recordObject tx req).commit s
  | .deleteObjectsBatch keys => (S3Orchestrator.deleteObjectsBatch tx keys).commit s
  | .deleteObjectLocation loc keepAtLeast reason =>
    (S3Orchestrator.deleteObjectLocation tx loc keepAtLeast reason).commit s
  | .placeCopy p => (placeCopyTx tx p).commit s
  | .promotePending p => (S3Orchestrator.promotePending tx p).commit s
  | .commitCompanionCopy p => (S3Orchestrator.commitCompanionCopy tx p).commit s
  | .discardPending p reason => (S3Orchestrator.discardPending tx p reason).commit s
  | .deletePending intentID => (tx.deletePending intentID).commit s
  | .importObject req => (S3Orchestrator.importObject tx req).commit s
  | .recordPart p => (S3Orchestrator.recordPart tx p).commit s
  | .deleteMultipartUpload uploadID reason staleBefore =>
    (S3Orchestrator.deleteMultipartUpload tx uploadID reason staleBefore).commit s

def Op.succeeds (tx : TxAdapter) (s : Ledger) : Op → Bool
  | .claim p accepts => (tx.insertPendingIfFits p accepts s).isOk
  | .recordObject req => (S3Orchestrator.recordObject tx req s).isOk
  | .deleteObjectsBatch keys => (S3Orchestrator.deleteObjectsBatch tx keys s).isOk
  | .deleteObjectLocation loc keepAtLeast reason =>
    (S3Orchestrator.deleteObjectLocation tx loc keepAtLeast reason s).isOk
  | .placeCopy p => (placeCopyTx tx p s).isOk
  | .promotePending p => (S3Orchestrator.promotePending tx p s).isOk
  | .commitCompanionCopy p => (S3Orchestrator.commitCompanionCopy tx p s).isOk
  | .discardPending p reason => (S3Orchestrator.discardPending tx p reason s).isOk
  | .deletePending intentID => (tx.deletePending intentID s).isOk
  | .importObject req => (S3Orchestrator.importObject tx req s).isOk
  | .recordPart p => (S3Orchestrator.recordPart tx p s).isOk
  | .deleteMultipartUpload uploadID reason staleBefore =>
    (S3Orchestrator.deleteMultipartUpload tx uploadID reason staleBefore s).isOk

/-- What a transaction can do to a ledger, and when. -/
inductive Outcome (tx : TxAdapter) (s : Ledger) : Op → Effect → Prop
  | nothing (op : Op) : Outcome tx s op {}
  | claimed {p : PendingObject} {accepts : BackendFlags} (hfits : s.fits p accepts = true)
      (hnew : ∀ q ∈ s.pendingObjects.rows, q.intentID ≠ p.intentID) :
      Outcome tx s (.claim p accepts) (.claiming [tx.pendingRow p])
  | overtaken {req : RecordObjectRequest} (hcopies : req.copies ≠ [])
      (hgone : ¬ s.holdsAll (intentIDs req.copies)) :
      Outcome tx s (.recordObject req) (.overtaken req)
  | recorded {req : RecordObjectRequest} (hcopies : req.copies ≠ [])
      (hheld : s.holdsAll (intentIDs req.copies)) :
      Outcome tx s (.recordObject req) (.recording tx s req)
  | deleted {keys : List String} (hfound : s.copiesOf keys ≠ []) :
      Outcome tx s (.deleteObjectsBatch keys) (.deleting s keys)
  | removed {loc l : ObjectLocation} {keepAtLeast : Int} {reason : String}
      (hl : l ∈ s.objectLocations.rows) (hkey : l.objectKey = loc.objectKey)
      (hbackend : l.backendName = loc.backendName) (hpath : l.storageKey = loc.storageKey)
      (hguard : removableCopy ((s.copiesOf [loc.objectKey]).map ObjectLocation.existing) loc
        keepAtLeast = .ok l.existing) :
      Outcome tx s (.deleteObjectLocation loc keepAtLeast reason) (.removing l reason)
  | placementLost {p : Placement} (hgone : ¬ s.holdsAll [p.intent.intentID]) :
      Outcome tx s (.placeCopy p)
        (.requeueing p.intent p.source.objectKey cleanupReasonSupersededIntent)
  | placementRefused {p : Placement} (hheld : s.holdsAll [p.intent.intentID]) :
      Outcome tx s (.placeCopy p) (.dropping p.intent p.reasons.orphan)
  | placed {p : Placement} {src : ObjectLocation} (hheld : s.holdsAll [p.intent.intentID])
      (hsrc : src ∈ s.objectLocations.rows) (hkey : src.objectKey = p.source.objectKey)
      (hbackend : src.backendName = p.source.backendName)
      (hpath : src.storageKey = p.source.storageKey) :
      Outcome tx s (.placeCopy p) (.placing tx p src)
  | companionKept {p : PendingObject} (hheld : s.holdsAll [p.intentID])
      (hrole : p.isCompanion = true) (hrec : s.recordedAt p) :
      Outcome tx s (.promotePending p) (.forgetting p.intentID)
  | companionDiscarded {p : PendingObject} (hheld : s.holdsAll [p.intentID])
      (hrole : p.isCompanion = true) (hrec : ¬ s.recordedAt p) :
      Outcome tx s (.promotePending p) (.dropping p cleanupReasonCompanionDiscarded)
  | superseded {p : PendingObject} (hheld : s.holdsAll [p.intentID])
      (hrole : p.isCompanion = false) (hsup : s.supersedes p) :
      Outcome tx s (.promotePending p) (.dropping p cleanupReasonSupersededIntent)
  | promoted {p : PendingObject} (hheld : s.holdsAll [p.intentID])
      (hrole : p.isCompanion = false) (hsup : ¬ s.supersedes p) :
      Outcome tx s (.promotePending p) (.promoting tx s p)
  | untrusted {p : PendingObject} (hgone : ¬ s.holdsAll [p.intentID]) :
      Outcome tx s (.commitCompanionCopy p)
        (.requeueing p p.objectKey cleanupReasonCompanionUntrusted)
  | joined {p : PendingObject} (hheld : s.holdsAll [p.intentID]) :
      Outcome tx s (.commitCompanionCopy p) (.joining tx p)
  | discarded {p : PendingObject} {reason : String} (hheld : s.holdsAll [p.intentID]) :
      Outcome tx s (.discardPending p reason) (.dropping p reason)
  | forgotten (intentID : String) : Outcome tx s (.deletePending intentID) (.forgetting intentID)
  | imported (req : ImportObjectRequest) : Outcome tx s (.importObject req) (.importing tx req)
  | partLost {p : RecordPartParams} (hgone : ¬ s.holdsAll [p.intent.intentID]) :
      Outcome tx s (.recordPart p) (.requeueing p.intent (partPath p.uploadID p.partNumber)
        cleanupReasonSupersededIntent)
  | partRecorded {p : RecordPartParams} (hheld : s.holdsAll [p.intent.intentID])
      (hupload : ∃ m ∈ s.multipartUploads.rows, m.uploadID = p.uploadID) :
      Outcome tx s (.recordPart p) (.recordingPart tx p
        (s.multipartParts.rows.find? fun q => samePart q (tx.partRow p)))
  | uploadDeleted {uploadID reason : String} {staleBefore : Time} {m : MultipartUpload}
      (hm : m ∈ s.multipartUploads.rows) (hid : m.uploadID = uploadID) :
      Outcome tx s (.deleteMultipartUpload uploadID reason staleBefore)
        (.deletingUpload s uploadID m.backendName reason)

open Outcome

section Outcomes

variable {tx : TxAdapter} {s s' : Ledger}

theorem Op.apply_of_not_succeeds {op : Op} (h : op.succeeds tx s = false) : op.apply tx s = s := by
  cases op <;> exact Tx.commit_of_not_isOk h

theorem Outcome.unchanged (op : Op) (h : s' = s) : ∃ e, Outcome tx s op e ∧ Applies e s s' :=
  ⟨{}, .nothing op, h ▸ Applies.none s⟩

/-- A transaction that failed was rolled back. -/
theorem Outcome.of_commit {α : Type} {op : Op} {x : LedgerTx α}
    (h : ∀ a s', x s = .ok (a, s') → ∃ e, Outcome tx s op e ∧ Applies e s s') :
    ∃ e, Outcome tx s op e ∧ Applies e s (x.commit s) :=
  Tx.commit_induct (P := fun s' => ∃ e, Outcome tx s op e ∧ Applies e s s') (unchanged op rfl) h

theorem apply_outcome (tx : TxAdapter) (s : Ledger) (op : Op) :
    ∃ e, Outcome tx s op e ∧ Applies e s (op.apply tx s) := by
  cases op with
  | claim p accepts =>
    refine of_commit fun _ _ h => ?_
    rcases insertPendingIfFits_effect h with ⟨_, h⟩ | ⟨_, hfits, hnew, happ⟩
    · exact unchanged _ h
    · exact ⟨_, .claimed hfits hnew, happ⟩
  | recordObject req =>
    refine of_commit fun _ _ h => ?_
    obtain ⟨hcopies, h⟩ := recordObject_ok h
    rcases recordObjectTx_ok h with ⟨hgone, happ⟩ | ⟨hheld, happ⟩
    · exact ⟨_, .overtaken hcopies hgone, happ⟩
    · exact ⟨_, .recorded hcopies hheld, happ⟩
  | deleteObjectsBatch keys =>
    refine of_commit fun _ _ h => ?_
    rcases deleteObjectsBatch_ok h with ⟨_, h⟩ | ⟨hfound, happ, _⟩
    · exact unchanged _ h
    · exact ⟨_, .deleted hfound, happ⟩
  | deleteObjectLocation loc keepAtLeast reason =>
    refine of_commit fun _ _ h => ?_
    obtain ⟨l, hl, hkey, hbackend, hpath, hguard, happ⟩ := deleteObjectLocation_ok h
    exact ⟨_, .removed hl hkey hbackend hpath hguard, happ⟩
  | placeCopy p =>
    refine of_commit fun _ _ h => ?_
    rcases placeCopyTx_ok h with ⟨hgone, _, happ⟩ | ⟨hheld, _, happ⟩ |
      ⟨hheld, _, src, hsrc, hkey, hbackend, hpath, happ⟩
    · exact ⟨_, .placementLost hgone, happ⟩
    · exact ⟨_, .placementRefused hheld, happ⟩
    · exact ⟨_, .placed hheld hsrc hkey hbackend hpath, happ⟩
  | promotePending p =>
    refine of_commit fun _ _ h => ?_
    rcases promotePendingTx_ok (Tx.mapError_eq_ok.mp h) with ⟨_, _, h⟩ |
      ⟨hheld, ⟨hrole, hrec, _, happ⟩ | ⟨hrole, hrec, _, happ⟩ | ⟨hrole, hsup, _, happ⟩ |
        ⟨hrole, hsup, _, happ⟩⟩
    · exact unchanged _ h
    · exact ⟨_, .companionKept hheld hrole hrec, happ⟩
    · exact ⟨_, .companionDiscarded hheld hrole hrec, happ⟩
    · exact ⟨_, .superseded hheld hrole hsup, happ⟩
    · exact ⟨_, .promoted hheld hrole hsup, happ⟩
  | commitCompanionCopy p =>
    refine of_commit fun _ _ h => ?_
    rcases commitCompanionTx_ok (Tx.mapError_eq_ok.mp h) with ⟨hgone, _, happ⟩ | ⟨hheld, _, happ⟩
    · exact ⟨_, .untrusted hgone, happ⟩
    · exact ⟨_, .joined hheld, happ⟩
  | discardPending p reason =>
    refine of_commit fun _ _ h => ?_
    rcases discardPending_effect h with ⟨_, h⟩ | ⟨hheld, happ⟩
    · exact unchanged _ h
    · exact ⟨_, .discarded hheld, happ⟩
  | deletePending intentID =>
    refine of_commit fun _ _ h => ?_
    exact ⟨_, .forgotten intentID, deletePending_effect h⟩
  | importObject req =>
    refine of_commit fun _ _ h => ?_
    rcases importObject_ok h with ⟨_, h⟩ | ⟨_, happ⟩
    · exact unchanged _ h
    · exact ⟨_, .imported req, happ⟩
  | recordPart p =>
    refine of_commit fun _ _ h => ?_
    obtain ⟨hupload, ⟨hgone, _, happ⟩ | ⟨hheld, _, happ⟩⟩ := recordPart_ok h
    · exact ⟨_, .partLost hgone, happ⟩
    · exact ⟨_, .partRecorded hheld hupload, happ⟩
  | deleteMultipartUpload uploadID reason staleBefore =>
    refine of_commit fun _ _ h => ?_
    rcases deleteMultipartUpload_ok h with h | ⟨m, hm, hid, happ⟩
    · exact unchanged _ h
    · exact ⟨_, .uploadDeleted hm hid, happ⟩

theorem recordObject_cases (tx : TxAdapter) (s : Ledger) (req : RecordObjectRequest) :
    ((Op.recordObject req).succeeds tx s = false ∧ (Op.recordObject req).apply tx s = s) ∨
      ((Op.recordObject req).succeeds tx s = true ∧ req.copies ≠ [] ∧
        ((¬ s.holdsAll (intentIDs req.copies) ∧
            Applies (.overtaken req) s ((Op.recordObject req).apply tx s)) ∨
          (s.holdsAll (intentIDs req.copies) ∧
            Applies (.recording tx s req) s ((Op.recordObject req).apply tx s)))) := by
  cases hok : (Op.recordObject req).succeeds tx s with
  | false => exact .inl ⟨rfl, Op.apply_of_not_succeeds hok⟩
  | true =>
    obtain ⟨_, h⟩ := Tx.commit_of_isOk hok
    obtain ⟨hcopies, h⟩ := recordObject_ok h
    exact .inr ⟨rfl, hcopies, recordObjectTx_ok h⟩

end Outcomes

end S3Orchestrator
