import Mathlib.Algebra.BigOperators.Group.Multiset.Basic
import Mathlib.Algebra.Order.BigOperators.Group.Multiset
import Mathlib.Data.Multiset.OrderedMonoid
import S3Orchestrator.Ledger.Settle
import S3Orchestrator.Ledger.Stripes

/-!
# The quota ceiling

What occupies a backend is spread over five tables, and every commit moves bytes from one of them to
another. Here the sum is followed through every transaction: a claim raises it to the ceiling at
most, and nothing else raises it, except that a transaction which finds its intent gone queues its
bytes although the intent that accounted for them was released before.

* **`occupied_le_limit`**.
-/

namespace S3Orchestrator

open RowStore List Effect

/-! ## The footprint of a backend -/

def Ledger.footprint (s : Ledger) (backend : String) : Int :=
  sumOn ObjectLocation.sizeBytes (fun l => decide (l.backendName = backend))
    s.objectLocations.rows +
  sumOn CleanupRequest.sizeBytes (fun c => decide (c.backendName = backend)) s.deletions +
  s.inflightBytes backend

structure Ledger.Sized (s : Ledger) : Prop where
  locations : SizesNonneg s
  pending : ∀ p ∈ s.pendingObjects.rows, 0 ≤ p.sizeBytes
  deletions : ∀ c ∈ s.deletions, 0 ≤ c.sizeBytes
  parts : ∀ q ∈ s.multipartParts.rows, 0 ≤ q.sizeBytes

theorem sized_provisioned (quotas : Table BackendQuota sameBackend) :
    (Ledger.provisioned quotas).Sized where
  locations _ hl := by cases hl
  pending _ hp := by cases hp
  deletions _ hc := by cases hc
  parts _ hq := by cases hq

theorem orphanBytes_eq (s : Ledger) (backend : String) : s.orphanBytes backend =
      sumOn CleanupRequest.sizeBytes (fun c => decide (c.backendName = backend)) s.deletions := by
  rw [Ledger.deletions, sumOn_append, sumOn_map, sumOn_map]
  rfl

theorem occupied_eq {s : Ledger} (hbal : Balanced s) (hs : s.Sized) (backend : String) :
    s.occupied backend = s.footprint backend := by
  have hused : Tally.total (fun r => decide (r.backend = backend)) s.quotaStripes =
      sumOn ObjectLocation.sizeBytes (fun l => decide (l.backendName = backend))
        s.objectLocations.rows := hbal _
  have hnn : 0 ≤ sumOn ObjectLocation.sizeBytes (fun l => decide (l.backendName = backend))
      s.objectLocations.rows := sumOn_nonneg _ _ fun l hl _ => hs.locations l hl
  rw [Ledger.occupied, Ledger.footprint, Ledger.bytesUsed, orphanBytes_eq, hused, max_eq_right hnn]

abbrev copyBytes (backend : String) : List ObjectLocation → Int :=
  sumOn ObjectLocation.sizeBytes fun l => decide (l.backendName = backend)

abbrev queuedBytes (backend : String) : List CleanupRequest → Int :=
  sumOn CleanupRequest.sizeBytes fun c => decide (c.backendName = backend)

abbrev pendingBytes (backend : String) : List PendingObject → Int :=
  sumOn PendingObject.sizeBytes fun p => decide (p.backendName = backend)

abbrev Ledger.partBytes (s : Ledger) (backend : String) : List MultipartPart → Int :=
  sumOn MultipartPart.sizeBytes fun q => s.uploadOn q.uploadID backend

/-! ## How effects move it -/

def Effect.growth (e : Effect) (s : Ledger) (backend : String) : Int :=
  (sumOn ObjectLocation.sizeBytes (fun l => decide (l.backendName = backend)) e.recorded -
    sumOn ObjectLocation.sizeBytes (fun l => decide (l.backendName = backend))
      (s.objectLocations.rows.filter e.removed)) +
  sumOn CleanupRequest.sizeBytes (fun c => decide (c.backendName = backend)) e.queued +
  (sumOn PendingObject.sizeBytes (fun p => decide (p.backendName = backend)) e.claimed -
    sumOn PendingObject.sizeBytes (fun p => decide (p.backendName = backend))
      (s.pendingObjects.rows.filter e.dropped)) +
  (sumOn MultipartPart.sizeBytes (fun q => s.uploadOn q.uploadID backend) e.partsRecorded -
    sumOn MultipartPart.sizeBytes (fun q => s.uploadOn q.uploadID backend)
      (s.multipartParts.rows.filter e.partsRemoved))

section Growth

variable {e : Effect} {s s' : Ledger} {backend : String}

/-- **An effect moves a footprint by its growth**, as long as the parts that stay keep their
upload. -/
theorem Applies.footprint (h : Applies e s s') (backend : String)
    (hup : ∀ q ∈ s'.multipartParts.rows,
      s'.uploadOn q.uploadID backend = s.uploadOn q.uploadID backend) :
    s'.footprint backend = s.footprint backend + e.growth s backend := by
  have hparts : sumOn MultipartPart.sizeBytes (fun q => s'.uploadOn q.uploadID backend)
      s'.multipartParts.rows = sumOn MultipartPart.sizeBytes
        (fun q => s.uploadOn q.uploadID backend) s'.multipartParts.rows :=
    sumOn_congr _ _ fun q hq => ⟨hup q hq, fun _ => rfl⟩
  have hdel := sumOn_perm CleanupRequest.sizeBytes
    (fun c => decide (c.backendName = backend)) h.deletions
  unfold Ledger.footprint Ledger.inflightBytes growth
  rw [hparts, hdel, h.locations, h.pending, h.parts]
  simp only [sumOn_append, sumOn_filter_not]
  ring

end Growth

/-! ## Backed transactions -/

def Ledger.claimedAs (s : Ledger) (p : PendingObject) : Prop :=
  ∀ q ∈ s.pendingObjects.rows, q.intentID = p.intentID →
    q.backendName = p.backendName ∧ q.sizeBytes = p.sizeBytes
  deriving Decidable

/-- Every commit names an intent for each of its copies and records exactly the bytes it claimed;
nothing is imported. -/
def Op.backed (s : Ledger) : Op → Prop
  | .claim p _ => 0 ≤ p.sizeBytes
  | .recordObject req => 0 ≤ req.size ∧ (intentIDs req.copies).Nodup ∧
      ∀ c ∈ req.copies, c.intentID ≠ "" ∧ c.intentID ∉ intentIDs req.placing ∧
        ∀ q ∈ s.pendingObjects.rows, q.intentID = c.intentID →
          q.objectKey = req.key ∧ q.backendName = c.backend ∧ q.sizeBytes = req.size
  | .placeCopy p => 0 ≤ p.intent.sizeBytes ∧ p.intent.intentID ≠ "" ∧ s.claimedAs p.intent ∧
      ∀ src ∈ s.objectLocations.rows, src.objectKey = p.source.objectKey →
        src.backendName = p.source.backendName → src.storageKey = p.source.storageKey →
          (p.placedCopy src).sizeBytes = p.intent.sizeBytes
  | .promotePending p | .commitCompanionCopy p | .discardPending p _ =>
    0 ≤ p.sizeBytes ∧ p.intentID ≠ "" ∧ s.claimedAs p
  | .recordPart p => 0 ≤ p.intent.sizeBytes ∧ p.intent.intentID ≠ "" ∧ s.claimedAs p.intent ∧
      p.sizeBytes = p.intent.sizeBytes ∧
      ∀ m ∈ s.multipartUploads.rows, m.uploadID = p.uploadID →
        m.backendName = p.intent.backendName
  | .importObject _ => False
  | .deleteObjectsBatch _ | .deleteObjectLocation _ _ _ | .deletePending _
  | .deleteMultipartUpload _ _ _ => True

/-- The request for an intent's bytes, when the intent is gone. -/
def Ledger.requeues (s : Ledger) (p : PendingObject) (key reason : String) : List CleanupRequest :=
  if s.holds p.intentID then [] else [(intentBytes p).request key reason]

/-- The requests a transaction makes for the bytes of intents that are gone. -/
def Op.requeues (s : Ledger) : Op → List CleanupRequest
  | .recordObject req => (req.copies.filter fun c => !s.holds c.intentID).map
      fun c => (req.bytes c).request req.key cleanupReasonSupersededIntent
  | .placeCopy p => s.requeues p.intent p.source.objectKey cleanupReasonSupersededIntent
  | .commitCompanionCopy p => s.requeues p p.objectKey cleanupReasonCompanionUntrusted
  | .recordPart p =>
    s.requeues p.intent (partPath p.uploadID p.partNumber) cleanupReasonSupersededIntent
  | _ => []

instance (s : Ledger) : DecidablePred (Op.backed s) := by
  rintro ⟨⟩ <;> dsimp only [Op.backed] <;> infer_instance

/-! ## Bytes of a bag of deletions -/

/-- The bytes that queued deletions hold on a backend. -/
def bytesOn (backend : String) (queued : Multiset CleanupRequest) : Int :=
  ((queued.filter fun c => decide (c.backendName = backend) = true).map
    CleanupRequest.sizeBytes).sum

section Bags

variable {backend : String} {queued more : Multiset CleanupRequest}

theorem bytesOn_coe (backend : String) (l : List CleanupRequest) :
    bytesOn backend l = queuedBytes backend l := by
  simp [bytesOn, sumOn]

theorem bytesOn_add (backend : String) (queued more : Multiset CleanupRequest) :
    bytesOn backend (queued + more) = bytesOn backend queued + bytesOn backend more := by
  rw [bytesOn, Multiset.filter_add, Multiset.map_add, Multiset.sum_add]
  rfl

theorem bag_inter_of_le (h : queued ≤ more) : queued ∩ more = queued := inf_eq_left.mpr h

theorem bytesOn_nonneg (backend : String) (h : ∀ c ∈ queued, 0 ≤ c.sizeBytes) :
    0 ≤ bytesOn backend queued := by
  refine Multiset.sum_nonneg fun x hx => ?_
  obtain ⟨c, hc, rfl⟩ := Multiset.mem_map.mp hx
  exact h c (Multiset.mem_of_mem_filter hc)

theorem bytesOn_mono (backend : String) (hle : queued ≤ more) (h : ∀ c ∈ more, 0 ≤ c.sizeBytes) :
    bytesOn backend queued ≤ bytesOn backend more := by
  obtain ⟨rest, rfl⟩ := Multiset.le_iff_exists_add.mp hle
  have := bytesOn_nonneg backend fun c hc => h c (Multiset.mem_add.mpr (.inr hc))
  rw [bytesOn_add]
  linarith

end Bags

/-! ## Outcome by outcome -/

section Outcomes

variable {tx : TxAdapter} {s : Ledger} {backend : String}
  {p : PendingObject} {req : RecordObjectRequest}

/-- The rows of the intent account for its bytes. -/
def Ledger.covers (s : Ledger) (backend : String) (p : PendingObject) : Prop :=
  (if p.backendName = backend then p.sizeBytes else 0) ≤ pendingBytes backend
    (s.pendingObjects.rows.filter fun q => decide (q.intentID = p.intentID))

theorem covers_of_held (hs : s.Sized) (hclaim : s.claimedAs p) (hid : p.intentID ≠ "")
    (hheld : s.holdsAll [p.intentID]) : s.covers backend p := by
  obtain ⟨q, hq, hqid⟩ := Ledger.holds_iff.mp (Ledger.holdsAll_singleton.mp hheld hid)
  obtain ⟨hb, hsize⟩ := hclaim q hq hqid
  have := le_sumOn_of_mem PendingObject.sizeBytes (fun q => decide (q.backendName = backend))
    (s.pendingObjects.rows.filter fun q => decide (q.intentID = p.intentID))
    (fun r hr _ => hs.pending r (mem_of_mem_filter hr)) (r := q) (by simp [hq, hqid])
  simpa [Ledger.covers, hb, hsize] using this

theorem copyBytes_nonneg (backend : String) (hs : s.Sized) (removed : ObjectLocation → Bool) :
    0 ≤ copyBytes backend (s.objectLocations.rows.filter removed) :=
  sumOn_nonneg _ _ fun r hr _ => hs.locations r (mem_of_mem_filter hr)

theorem removal_le_removed (backend : String) (hs : s.Sized) {l : ObjectLocation}
    (hl : l ∈ s.objectLocations.rows) (removed : ObjectLocation → Bool) (hr : removed l = true)
    (reason : String) :
    queuedBytes backend [l.removal reason] ≤
      copyBytes backend (s.objectLocations.rows.filter removed) := by
  have := le_sumOn_of_mem ObjectLocation.sizeBytes (fun a => decide (a.backendName = backend))
    (s.objectLocations.rows.filter removed)
    (fun r hr _ => hs.locations r (mem_of_mem_filter hr)) (r := l) (by simp [hl, hr])
  exact (sumOn_singleton _ _ _).trans_le this

theorem sumOn_removals (rows : List ObjectLocation) (reason : String) :
    queuedBytes backend (rows.map fun l => l.removal reason) = copyBytes backend rows :=
  sumOn_map _ _ _ _

theorem sumOn_intentRemovals (rows : List PendingObject) (reason : String) :
    queuedBytes backend (rows.map fun p => p.removal reason) = pendingBytes backend rows :=
  sumOn_map _ _ _ _

theorem sumOn_intentBytes (p : PendingObject) (key reason : String) :
    queuedBytes backend [(intentBytes p).request key reason] =
      if p.backendName = backend then p.sizeBytes else 0 := by
  simp [sumOn_singleton, intentBytes, RemovedCopy.request]

theorem sumOn_location (p : PendingObject) :
    copyBytes backend [p.location tx] = if p.backendName = backend then p.sizeBytes else 0 := by
  simp [sumOn_singleton, PendingObject.location, TxAdapter.locationRow, objectFromStoredForm]

theorem growth_dropping (hrow : s.covers backend p) (reason : String) :
    (dropping p reason).growth s backend ≤ 0 := by
  unfold Ledger.covers at hrow
  simp only [growth, dropping, PendingObject.removal, sumOn_nil, sumOn_intentBytes, filter_false]
  linarith

theorem growth_forgetting (hs : s.Sized) (id : String) : (forgetting id).growth s backend ≤ 0 := by
  have hrow : 0 ≤ pendingBytes backend
      (s.pendingObjects.rows.filter fun q => decide (q.intentID = id)) :=
    sumOn_nonneg _ _ fun r hr _ => hs.pending r (mem_of_mem_filter hr)
  simp only [growth, forgetting, sumOn_nil, filter_false]
  linarith

theorem growth_requeueing (p : PendingObject) (key reason : String) :
    (requeueing p key reason).growth s backend =
      bytesOn backend ↑(requeueing p key reason).queued := by
  rw [bytesOn_coe]
  simp [growth, requeueing]

theorem requeues_of_gone (hgone : ¬ s.holdsAll [p.intentID]) (key reason : String) :
    s.requeues p key reason = (requeueing p key reason).queued := by
  have hmiss : s.holds p.intentID = false := by
    rw [Ledger.holdsAll_singleton] at hgone
    simpa using fun h => hgone fun _ => h
  simp [Ledger.requeues, requeueing, hmiss]

theorem growth_joining (hrow : s.covers backend p) : (joining tx p).growth s backend ≤ 0 := by
  unfold Ledger.covers at hrow
  simp only [growth, joining, sumOn_nil, sumOn_location, filter_false]
  linarith

theorem growth_promoting (hrow : s.covers backend p) : (promoting tx s p).growth s backend ≤ 0 := by
  unfold Ledger.covers at hrow
  simp only [growth, promoting, sumOn_nil, sumOn_location, sumOn_removals,
    Ledger.copiesOf, filter_false]
  linarith

theorem growth_deleting (keys : List String) : (deleting s keys).growth s backend = 0 := by
  simp only [growth, deleting, sumOn_nil, sumOn_append, sumOn_removals,
    sumOn_intentRemovals, Ledger.copiesOf, filter_false]
  ring

theorem growth_removing (hs : s.Sized) {l : ObjectLocation} (hl : l ∈ s.objectLocations.rows)
    (reason : String) : (removing l reason).growth s backend ≤ 0 := by
  have hnn := copyBytes_nonneg backend hs (removing l reason).removed
  have hrow := removal_le_removed backend hs hl
    (removing l reason).removed (by simp [removing]) reason
  simp only [growth, removing, sumOn_nil, filter_false] at hnn hrow ⊢
  split_ifs
  · rw [sumOn_nil]
    linarith
  · linarith

theorem growth_placing (hs : s.Sized) {p : Placement} {src : ObjectLocation}
    (hsrc : src ∈ s.objectLocations.rows) (hrow : s.covers backend p.intent)
    (hsize : (p.placedCopy src).sizeBytes = p.intent.sizeBytes) :
    (placing tx p src).growth s backend ≤ 0 := by
  have hrec : copyBytes backend [tx.locationRow (p.placedCopy src)] =
      if p.intent.backendName = backend then p.intent.sizeBytes else 0 := by
    simp [sumOn_singleton, TxAdapter.locationRow, hsize, (placedCopy_address p src).1]
  have hmoved : queuedBytes backend (placing tx p src).queued ≤
      copyBytes backend (s.objectLocations.rows.filter (placing tx p src).removed) := by
    by_cases hmove : p.removeSource = true
    · have := removal_le_removed backend hs hsrc
        (placing tx p src).removed (by simp [placing, hmove])
        p.reasons.sourceDelete
      simpa [placing, hmove] using this
    · simp only [placing, if_neg hmove]
      exact copyBytes_nonneg backend hs _
  unfold Ledger.covers at hrow
  simp only [growth, placing, sumOn_nil, filter_false] at hmoved ⊢
  linarith

abbrev ownBytes (req : RecordObjectRequest) (backend : String) : List ObjectCopy → Int :=
  sumOn (fun _ => req.size) fun c => decide (c.backend = backend)

theorem copies_le_claimed (backend : String) (hs : s.Sized) (hb : (Op.recordObject req).backed s)
    (copies : List ObjectCopy) (hsub : copies.Sublist req.copies)
    (hheld : ∀ c ∈ copies, s.holds c.intentID = true) (dropped : PendingObject → Bool)
    (hdrop : ∀ p ∈ s.pendingObjects.rows, p.intentID ∈ intentIDs copies →
      p.objectKey = req.key → dropped p = true) :
    ownBytes req backend copies ≤ pendingBytes backend (s.pendingObjects.rows.filter dropped) := by
  obtain ⟨_, hnd, hrow⟩ := hb
  have hown : ∀ c ∈ copies, ∃ q ∈ s.pendingObjects.rows.filter dropped,
      q.intentID = c.intentID ∧ decide (q.backendName = backend) = decide (c.backend = backend) ∧
        q.sizeBytes = req.size := by
    intro c hc
    obtain ⟨q, hq, hid⟩ := Ledger.holds_iff.mp (hheld c hc)
    obtain ⟨hkey, hbackend, hsize⟩ := (hrow c (hsub.subset hc)).2.2 q hq hid
    have hin : q.intentID ∈ intentIDs copies := hid ▸ mem_map_of_mem hc
    exact ⟨q, mem_filter.mpr ⟨hq, hdrop q hq hin hkey⟩, hid, by rw [hbackend], hsize⟩
  have hnn : ∀ q ∈ s.pendingObjects.rows.filter dropped,
      decide (q.backendName = backend) = true → 0 ≤ q.sizeBytes :=
    fun q hq _ => hs.pending q (mem_of_mem_filter hq)
  have hmatch := sumOn_matched_le PendingObject.sizeBytes _ hnn (hnd.sublist (hsub.map _)) hown
  have hrest : 0 ≤ pendingBytes backend ((s.pendingObjects.rows.filter dropped).filter
      fun r => !decide (r.intentID ∈ copies.map ObjectCopy.intentID)) :=
    sumOn_nonneg _ _ fun q hq => hnn q (mem_of_mem_filter hq)
  have hsplit := sumOn_filter_add PendingObject.sizeBytes
    (fun p => decide (p.backendName = backend))
    (fun r => decide (r.intentID ∈ copies.map ObjectCopy.intentID))
    (s.pendingObjects.rows.filter dropped)
  linarith

theorem growth_recording (hs : s.Sized) (hb : (Op.recordObject req).backed s)
    (hheld : s.holdsAll (intentIDs req.copies)) :
    (recording tx s req).growth s backend ≤ 0 := by
  have hrow := hb.2.2
  have hcopies := copies_le_claimed backend hs hb _ (List.Sublist.refl _)
    (fun c hc => hheld _ (mem_map_of_mem hc) (hrow c hc).1)
    (fun p => !decide (p.intentID ∉ intentIDs req.copies) &&
      TxAdapter.clears (intentIDs req.placing) [req.key] p) (by
      intro p _ hid hkey
      obtain ⟨c, hc, hcid⟩ := mem_map.mp hid
      have hplacing : p.intentID ∉ intentIDs req.placing := hcid ▸ (hrow c hc).2.1
      simp [TxAdapter.clears, hid, hkey, hplacing])
  have hrec : copyBytes backend (req.copies.map fun c => tx.locationRow (req.location c)) =
      ownBytes req backend req.copies := sumOn_map _ _ _ _
  -- The intents cleared are the stale ones, whose bytes are queued, and the committed ones.
  have hsplit := sumOn_filter_add PendingObject.sizeBytes
    (fun p => decide (p.backendName = backend))
    (fun p => decide (p.intentID ∉ intentIDs req.copies))
    (s.pendingObjects.rows.filter (TxAdapter.clears (intentIDs req.placing) [req.key]))
  rw [← filter_filter] at hcopies
  simp only [growth, recording, stale, sumOn_nil, sumOn_append,
    sumOn_removals, sumOn_intentRemovals, hrec, Ledger.copiesOf, filter_false]
  linarith

theorem growth_overtaken (hs : s.Sized) (hb : (Op.recordObject req).backed s) :
    (overtaken req).growth s backend ≤
      bytesOn backend ↑((Op.recordObject req).requeues s) := by
  have hcopies := copies_le_claimed backend hs hb
    (req.copies.filter fun c => s.holds c.intentID) filter_sublist
    (fun c hc => (mem_filter.mp hc).2)
    (overtaken req).dropped (by
      intro p _ hid _
      obtain ⟨c, hc, hcid⟩ := mem_map.mp hid
      have hc := mem_of_mem_filter hc
      have hne : p.intentID ≠ "" := hcid ▸ (hb.2.2 c hc).1
      have hmem : p.intentID ∈ intentIDs req.copies := hcid ▸ mem_map_of_mem hc
      simp [overtaken, hne, hmem])
  have hq : ∀ copies : List ObjectCopy, queuedBytes backend
      (copies.map fun c => (req.bytes c).request req.key cleanupReasonSupersededIntent) =
      ownBytes req backend copies := fun copies => sumOn_map _ _ _ _
  have hsplit := sumOn_filter_add (fun _ => req.size)
    (fun c : ObjectCopy => decide (c.backend = backend)) (fun c => s.holds c.intentID) req.copies
  rw [bytesOn_coe]
  simp only [growth, overtaken, sumOn_nil, hq, filter_false, Op.requeues] at hcopies ⊢
  linarith

theorem requeues_le_overtaken (s : Ledger) (req : RecordObjectRequest) :
    ((Op.recordObject req).requeues s : Multiset CleanupRequest) ≤ ↑(overtaken req).queued :=
  (filter_sublist.map _).subperm

theorem uploadOn_eq (backend : String) {uploadID home : String}
    (hm : ∃ m ∈ s.multipartUploads.rows, m.uploadID = uploadID)
    (hhome : ∀ m ∈ s.multipartUploads.rows, m.uploadID = uploadID → m.backendName = home) :
    s.uploadOn uploadID backend = decide (home = backend) := by
  obtain ⟨m, hm, hmid⟩ := hm
  rw [Bool.eq_iff_iff, uploadOn_iff, decide_eq_true_eq]
  constructor
  · rintro ⟨m', hm', hmid', rfl⟩
    exact (hhome m' hm' hmid').symm
  · rintro rfl
    exact ⟨m, hm, hmid, hhome m hm hmid⟩

theorem replaced_le_removed (tx : TxAdapter) (hs : s.Sized) {p : RecordPartParams}
    (hup : s.uploadOn p.uploadID backend = decide (p.intent.backendName = backend)) :
    queuedBytes backend (recordingPart tx p (s.multipartParts.rows.find?
        fun q => samePart q (tx.partRow p))).queued ≤
      s.partBytes backend (s.multipartParts.rows.filter fun q => samePart q (tx.partRow p)) := by
  have hnn : ∀ q ∈ s.multipartParts.rows.filter (fun q => samePart q (tx.partRow p)),
      s.uploadOn q.uploadID backend = true → 0 ≤ q.sizeBytes :=
    fun q hq _ => hs.parts q (mem_of_mem_filter hq)
  cases hf : s.multipartParts.rows.find? fun q => samePart q (tx.partRow p) with
  | none => exact sumOn_nonneg _ _ hnn
  | some r =>
    have hr : samePart r (tx.partRow p) = true := by simpa using find?_some hf
    have hrid : r.uploadID = p.uploadID := by
      simp only [samePart, Bool.and_eq_true, decide_eq_true_eq] at hr
      exact hr.1
    have := le_sumOn_of_mem _ _ _ hnn (r := r) (mem_filter.mpr ⟨mem_of_find?_eq_some hf, hr⟩)
    simpa [recordingPart, sumOn_cons, hrid, hup, RecordPartParams.replacedBytes,
      RemovedCopy.request] using this

theorem growth_recordingPart (hs : s.Sized) {p : RecordPartParams}
    (hb : (Op.recordPart p).backed s) (hheld : s.holdsAll [p.intent.intentID])
    (hupload : ∃ m ∈ s.multipartUploads.rows, m.uploadID = p.uploadID) :
    (recordingPart tx p (s.multipartParts.rows.find?
      fun q => samePart q (tx.partRow p))).growth s backend ≤ 0 := by
  obtain ⟨_, hid, hclaim, hsize, hbackend⟩ := hb
  have hrow : s.covers backend p.intent := covers_of_held hs hclaim hid hheld
  have hup := uploadOn_eq backend hupload hbackend
  have hpart : s.partBytes backend [tx.partRow p] =
      if p.intent.backendName = backend then p.intent.sizeBytes else 0 := by
    simp [sumOn_singleton, TxAdapter.partRow, hup, hsize]
  have hreplaced := replaced_le_removed tx hs hup
  unfold Ledger.covers at hrow
  simp only [growth, recordingPart, sumOn_nil, filter_false] at hreplaced ⊢
  linarith

theorem growth_deletingUpload {uploadID reason : String} {m : MultipartUpload}
    (hm : m ∈ s.multipartUploads.rows) (hid : m.uploadID = uploadID) :
    (deletingUpload s uploadID m.backendName reason).growth s backend = 0 := by
  have hup : s.uploadOn uploadID backend = decide (m.backendName = backend) :=
    uploadOn_eq backend ⟨m, hm, hid⟩ fun m' hm' hid' => by
      rw [upload_unique hm hm' (hid.trans hid'.symm)]
  have hq : queuedBytes backend
      ((s.multipartParts.rows.filter fun p => decide (p.uploadID = uploadID)).map
        fun p => p.removal m.backendName reason) = s.partBytes backend
          (s.multipartParts.rows.filter fun p => decide (p.uploadID = uploadID)) := by
    refine (sumOn_map _ _ _ _).trans (sumOn_congr _ _ fun q hq => ⟨?_, fun _ => rfl⟩)
    have hq' : q.uploadID = uploadID := of_decide_eq_true (mem_filter.mp hq).2
    rw [hq', hup]
    rfl
  simp only [growth, deletingUpload, sumOn_nil, hq, filter_false]
  ring

end Outcomes

/-! ## Sizes -/

section Sizes

variable {tx : TxAdapter} {s s' : Ledger} {op : Op} {e : Effect}

theorem Op.backed.sized (hb : op.backed s) : op.sized := by
  cases op with
  | recordObject req | placeCopy p | promotePending p | commitCompanionCopy p => exact hb.1
  | importObject req => exact hb.elim
  | claim | deleteObjectsBatch | deleteObjectLocation | discardPending | deletePending | recordPart
  | deleteMultipartUpload => trivial

variable (ho : Outcome tx s op e) (hb : op.backed s)
include ho hb

theorem Outcome.queued_nonneg (hs : s.Sized) : ∀ c ∈ e.queued, 0 ≤ c.sizeBytes := by
  intro c hc
  have hcopies : ∀ keys reason, c ∈ (s.copiesOf keys).map (fun l => l.removal reason) →
      0 ≤ c.sizeBytes := by
    intro keys reason hc
    obtain ⟨l, hl, rfl⟩ := mem_map.mp hc
    exact hs.locations l (copiesOf_key hl).1
  cases ho with
  | overtaken =>
    obtain ⟨_, _, rfl⟩ := mem_map.mp hc
    exact hb.1
  | recorded =>
    rcases mem_append.mp hc with hc | hc
    · exact hcopies _ _ hc
    · obtain ⟨p, hp, rfl⟩ := mem_map.mp hc
      exact hs.pending p (mem_of_mem_filter (mem_of_mem_filter hp))
  | deleted =>
    rcases mem_append.mp hc with hc | hc
    · exact hcopies _ _ hc
    · obtain ⟨p, hp, rfl⟩ := mem_map.mp hc
      exact hs.pending p (mem_of_mem_filter hp)
  | removed hl =>
    simp only [removing] at hc
    split_ifs at hc
    · cases hc
    · rw [mem_singleton.mp hc]
      exact hs.locations _ hl
  | placed _ hsrc =>
    simp only [placing] at hc
    split_ifs at hc
    · rw [mem_singleton.mp hc]
      exact hs.locations _ hsrc
    · cases hc
  | promoted => exact hcopies _ _ hc
  | placementLost | placementRefused | companionDiscarded | superseded | untrusted | discarded
  | partLost =>
    obtain rfl := mem_singleton.mp hc
    exact hb.1
  | partRecorded =>
    obtain ⟨r, hr, rfl⟩ := Option.map_eq_some_iff.mp (Option.mem_toList.mp hc)
    exact hs.parts r (mem_of_find?_eq_some hr)
  | uploadDeleted =>
    obtain ⟨q, hq, rfl⟩ := mem_map.mp hc
    exact hs.parts q (mem_of_mem_filter hq)
  | nothing | claimed | companionKept | joined | forgotten | imported => cases hc

theorem Outcome.claimed_nonneg : ∀ p ∈ e.claimed, 0 ≤ p.sizeBytes := by
  intro p hp
  cases ho with
  | claimed hfits hnew =>
    obtain rfl := mem_singleton.mp hp
    exact hb
  | _ => cases hp

theorem Outcome.parts_nonneg : ∀ q ∈ e.partsRecorded, 0 ≤ q.sizeBytes := by
  intro q hq
  cases ho with
  | partRecorded hheld hupload =>
    obtain rfl := mem_singleton.mp hq
    exact le_of_le_of_eq hb.1 hb.2.2.2.1.symm
  | _ => cases hq

theorem Outcome.sized (hs : s.Sized) (h : Applies e s s') : s'.Sized where
  locations l hl := by
    rcases h.mem_locations.mp hl with ⟨hl, _⟩ | hl
    · exact hs.locations l hl
    · exact ho.recorded_nonneg hb.sized hs.locations l hl
  pending p hp := by
    rcases h.mem_pending.mp hp with ⟨hp, _⟩ | hp
    · exact hs.pending p hp
    · exact ho.claimed_nonneg hb p hp
  deletions c hc := by
    rcases mem_append.mp (h.deletions.mem_iff.mp hc) with hc | hc
    · exact hs.deletions c hc
    · exact ho.queued_nonneg hb hs c hc
  parts q hq := by
    rcases h.mem_parts.mp hq with ⟨hq, _⟩ | hq
    · exact hs.parts q hq
    · exact ho.parts_nonneg hb q hq

end Sizes

/-! ## How much an outcome adds -/

theorem Outcome.growth_le {tx : TxAdapter} {s : Ledger} {op : Op} {e : Effect}
    (ho : Outcome tx s op e) (backend : String)
    (hs : s.Sized) (hb : op.backed s) :
    e.growth s backend ≤ bytesOn backend (↑(op.requeues s) ∩ ↑e.queued) ∨
      ∃ p accepts, op = .claim p accepts ∧ s.fits p accepts = true ∧
        e = .claiming [tx.pendingRow p] := by
  have hno : e.growth s backend ≤ 0 →
      e.growth s backend ≤ bytesOn backend (↑(op.requeues s) ∩ ↑e.queued) :=
    fun h => h.trans (bytesOn_nonneg backend fun c hc =>
      ho.queued_nonneg hb hs c (Multiset.mem_inter.mp hc).2)
  have hlost : ∀ {p : PendingObject} {key reason : String}, e = requeueing p key reason →
      op.requeues s = s.requeues p key reason → ¬ s.holdsAll [p.intentID] →
      e.growth s backend ≤ bytesOn backend (↑(op.requeues s) ∩ ↑e.queued) := by
    rintro p key reason rfl hop hgone
    rw [hop, requeues_of_gone hgone, bag_inter_of_le le_rfl, growth_requeueing]
  cases ho with
  | claimed hfits hnew => exact .inr ⟨_, _, rfl, hfits, rfl⟩
  | nothing => exact .inl (hno (by simp [growth]))
  | overtaken =>
    rw [bag_inter_of_le (requeues_le_overtaken s _)]
    exact .inl (growth_overtaken hs hb)
  | recorded _ hheld => exact .inl (hno (growth_recording hs hb hheld))
  | deleted => exact .inl (hno (growth_deleting _).le)
  | removed hl => exact .inl (hno (growth_removing hs hl _))
  | placementLost hgone | untrusted hgone | partLost hgone => exact .inl (hlost rfl rfl hgone)
  | placementRefused hheld =>
    exact .inl (hno (growth_dropping (covers_of_held hs hb.2.2.1 hb.2.1 hheld) _))
  | placed hheld hsrc hkey hbackend hpath =>
    exact .inl (hno (growth_placing hs hsrc (covers_of_held hs hb.2.2.1 hb.2.1 hheld)
      (hb.2.2.2 _ hsrc hkey hbackend hpath)))
  | companionDiscarded hheld | superseded hheld | discarded hheld =>
    exact .inl (hno (growth_dropping (covers_of_held hs hb.2.2 hb.2.1 hheld) _))
  | promoted hheld => exact .inl (hno (growth_promoting (covers_of_held hs hb.2.2 hb.2.1 hheld)))
  | joined hheld => exact .inl (hno (growth_joining (covers_of_held hs hb.2.2 hb.2.1 hheld)))
  | companionKept | forgotten => exact .inl (hno (growth_forgetting hs _))
  | imported => exact hb.elim
  | partRecorded hheld hupload => exact .inl (hno (growth_recordingPart hs hb hheld hupload))
  | uploadDeleted hm hid => exact .inl (hno (growth_deletingUpload hm hid).le)

/-! ## Events -/

/-- A transaction, the claim of a write's copies, or a settlement of queued deletions. -/
inductive Event where
  | op (o : Op)
  | claimCopies (intents : List PendingObject) (ranked : List String) (accepts : BackendFlags)
  | settle (st : Settle)

namespace Event

def apply (tx : TxAdapter) (s : Ledger) : Event → Ledger
  | .op o => o.apply tx s
  | .claimCopies intents ranked accepts => (claimInRankOrder tx accepts intents ranked).commit s
  | .settle st => st.apply tx s

def backed (s : Ledger) : Event → Prop
  | .op o => o.backed s
  | .claimCopies intents _ _ => ∀ p ∈ intents, 0 ≤ p.sizeBytes
  | .settle _ => True

instance (s : Ledger) : DecidablePred (backed s)
  | .op _ | .claimCopies _ _ _ | .settle _ => by
    dsimp only [backed]
    infer_instance

def claims : Event → Bool
  | .op (.claim _ _) | .claimCopies _ _ _ => true
  | _ => false

/-- The deletions an event queued for the bytes of intents that were gone. -/
def requeued (tx : TxAdapter) (s : Ledger) : Event → Multiset CleanupRequest
  | .op o => ↑(o.requeues s) ∩ (↑(o.apply tx s).deletions - ↑s.deletions)
  | _ => 0

end Event

def Ledger.next (s : Ledger) (st : TxAdapter × Event) : Ledger := st.2.apply st.1 s

/-- The requests an event took off the queue and the dead letters. -/
def Ledger.settledBy (s : Ledger) (st : TxAdapter × Event) : Multiset CleanupRequest :=
  ↑s.deletions - ↑(s.next st).deletions

/-- Which of the requeued deletions wait after an event. Of equal deletions the requeued one is
settled first. -/
def Ledger.waiting (s : Ledger) (requeued : Multiset CleanupRequest) (st : TxAdapter × Event) :
    Multiset CleanupRequest :=
  requeued + st.2.requeued st.1 s - s.settledBy st

/-- The requeued deletions that wait at the end of a run. -/
def Ledger.requeuedLeft (s : Ledger) (run : List (TxAdapter × Event)) : Multiset CleanupRequest :=
  traced Ledger.next Ledger.waiting s 0 run

/-- What every event keeps: the counter agrees with the rows, no size is negative, and the
backend's ceiling is the same. -/
structure Ledger.Metered (backend : String) (limit : Int) (s : Ledger) : Prop where
  balanced : Balanced s
  sized : s.Sized
  ceiling : s.bytesLimit backend = some limit

section Events

variable {tx : TxAdapter} {s s' : Ledger} {backend : String} {limit : Int}

theorem bytesLimit_congr (h : s'.backendQuotas = s.backendQuotas) :
    s'.bytesLimit backend = s.bytesLimit backend := by
  rw [Ledger.bytesLimit, h]
  rfl

theorem Outcome.metered {op : Op} {e : Effect} (ho : Outcome tx s op e) (hb : op.backed s)
    (h : Applies e s s') (hs : s.Metered backend limit) : s'.Metered backend limit where
  balanced := h.balanced hs.balanced
  sized := ho.sized hb hs.sized h
  ceiling := (bytesLimit_congr h.quotas).trans hs.ceiling

theorem Settled.metered (h : Settled s s') (hs : s.Metered backend limit) :
    s'.Metered backend limit where
  balanced p := by
    rw [h.stripes, h.locations]
    exact hs.balanced p
  sized :=
    { locations := fun l hl => hs.sized.locations l (h.locations ▸ hl)
      pending := fun p hp => hs.sized.pending p (h.pending ▸ hp)
      deletions := fun c hc => hs.sized.deletions c (h.deletions.subset hc)
      parts := fun q hq => hs.sized.parts q (h.parts ▸ hq) }
  ceiling := (bytesLimit_congr h.quotas).trans hs.ceiling

theorem Outcome.keeps_uploads {op : Op} {e : Effect} (ho : Outcome tx s op e) (h : Applies e s s')
    {q : MultipartPart} (hq : q ∈ s'.multipartParts.rows) :
    s'.uploadOn q.uploadID backend = s.uploadOn q.uploadID backend := by
  cases ho with
  | uploadDeleted hm hid =>
    rename_i uploadID _ _ _
    have hne : q.uploadID ≠ uploadID := by
      rcases h.mem_parts.mp hq with ⟨_, hq⟩ | hq
      · exact of_decide_eq_false hq
      · cases hq
    rw [Bool.eq_iff_iff, uploadOn_iff, uploadOn_iff]
    refine exists_congr fun u => ?_
    rw [h.mem_uploads]
    constructor
    · rintro ⟨⟨hu, _⟩, hrest⟩
      exact ⟨hu, hrest⟩
    · rintro ⟨hu, huid, hrest⟩
      refine ⟨⟨hu, decide_eq_false ?_⟩, huid, hrest⟩
      rw [huid]
      exact hne
  | _ => exact h.uploadOn_of_none (fun _ => rfl) _ _

theorem claimed_within (tx : TxAdapter) {p : PendingObject} {accepts : BackendFlags}
    (hlimit : 0 < limit) (hs : s.Metered backend limit) (hfits : s.fits p accepts = true) :
    s.footprint backend + (claiming [tx.pendingRow p]).growth s backend ≤
      max (s.footprint backend) limit := by
  have hg : (claiming [tx.pendingRow p]).growth s backend =
      if p.backendName = backend then p.sizeBytes else 0 := by
    simp [growth, claiming, sumOn_cons, TxAdapter.pendingRow]
  rw [hg]
  split_ifs with hbk
  · subst hbk
    have hroom : p.sizeBytes ≤ limit - s.occupied p.backendName := by
      rw [Ledger.fits, hs.ceiling] at hfits
      simp only [Bool.and_eq_true, Bool.or_eq_true, decide_eq_true_eq] at hfits
      rcases hfits.2 with h0 | hroom
      · omega
      · exact hroom
    rw [occupied_eq hs.balanced hs.sized] at hroom
    exact le_max_of_le_right (by linarith)
  · rw [add_zero]
    exact le_max_left _ _

/-- What an effect queues is what the queue gains, and nothing is settled. -/
theorem Applies.bags {e : Effect} (h : Applies e s s') :
    (s'.deletions : Multiset CleanupRequest) - ↑s.deletions = ↑e.queued ∧
      (s.deletions : Multiset CleanupRequest) - ↑s'.deletions = 0 := by
  have hbag : (s'.deletions : Multiset CleanupRequest) = ↑s.deletions + ↑e.queued :=
    (Multiset.coe_eq_coe.mpr h.deletions).trans (Multiset.coe_add _ _).symm
  rw [hbag]
  exact ⟨add_tsub_cancel_left _ _, tsub_eq_zero_of_le (Multiset.le_add_right _ _)⟩

theorem Op.footprint_le (tx : TxAdapter) (op : Op) (hlimit : 0 < limit)
    (hs : s.Metered backend limit) (hb : op.backed s) :
    (op.apply tx s).Metered backend limit ∧ s.settledBy (tx, .op op) = 0 ∧
    (op.apply tx s).footprint backend ≤
      max (s.footprint backend) limit + bytesOn backend ((Event.op op).requeued tx s) ∧
    ((Event.op op).claims = false → (op.apply tx s).footprint backend ≤
      s.footprint backend + bytesOn backend ((Event.op op).requeued tx s)) := by
  obtain ⟨e, ho, happ⟩ := apply_outcome tx s op
  have hfoot := happ.footprint backend fun q hq => ho.keeps_uploads happ hq
  have hmax := le_max_left (s.footprint backend) limit
  have hreq : (Event.op op).requeued tx s = ↑(op.requeues s) ∩ ↑e.queued := by
    rw [Event.requeued, happ.bags.1]
  rw [hreq, hfoot]
  refine ⟨ho.metered hb happ hs, happ.bags.2, ?_⟩
  rcases ho.growth_le backend hs.sized hb with hle | ⟨p, accepts, rfl, hfits, rfl⟩
  · exact ⟨by linarith, fun _ => by linarith⟩
  · refine ⟨?_, fun h => by cases h⟩
    exact (claimed_within tx hlimit hs hfits).trans (le_of_eq (add_zero _).symm)

theorem insertPendingIfFits_within {p : PendingObject} {accepts : BackendFlags} {b : Bool}
    (hlimit : 0 < limit) (hs : s.Metered backend limit) (hp : 0 ≤ p.sizeBytes)
    (h : tx.insertPendingIfFits p accepts s = .ok (b, s')) :
    s'.Metered backend limit ∧ s.deletions.Subperm s'.deletions ∧
      s'.footprint backend ≤ max (s.footprint backend) limit := by
  obtain ⟨hs', hsettled, hle, _⟩ := Op.footprint_le tx (.claim p accepts) hlimit hs hp
  have happly : (Op.claim p accepts).apply tx s = s' := Tx.commit_of_ok h
  rw [happly] at hs' hle
  rw [Ledger.settledBy, Ledger.next, Event.apply, happly] at hsettled
  refine ⟨hs', Multiset.coe_le.mp (tsub_eq_zero_iff_le.mp hsettled), hle.trans (le_of_eq ?_)⟩
  simp [Event.requeued, Op.requeues, bytesOn]

theorem claimCopies_within (tx : TxAdapter) {intents : List PendingObject}
    (ranked : List String) (accepts : BackendFlags) (hlimit : 0 < limit)
    (hs : s.Metered backend limit) (hp : ∀ p ∈ intents, 0 ≤ p.sizeBytes) :
    ((claimInRankOrder tx accepts intents ranked).commit s).Metered backend limit ∧
      s.deletions.Subperm ((claimInRankOrder tx accepts intents ranked).commit s).deletions ∧
      ((claimInRankOrder tx accepts intents ranked).commit s).footprint backend ≤
        max (s.footprint backend) limit := by
  have h₀ : s.Metered backend limit ∧ s.deletions.Subperm s.deletions ∧
      s.footprint backend ≤ max (s.footprint backend) limit :=
    ⟨hs, Subperm.refl _, le_max_left _ _⟩
  rcases Tx.commit_cases (claimInRankOrder tx accepts intents ranked) s with h | ⟨out, h⟩
  · rw [h]
    exact h₀
  · refine claimInRankOrder_induct (fun s1 => s1.Metered backend limit ∧
      s.deletions.Subperm s1.deletions ∧ s1.footprint backend ≤ max (s.footprint backend) limit)
      ?_ h₀ h
    rintro p hpm name s1 s2 b ⟨hs1, hsub1, hle1⟩ h1
    obtain ⟨hs2, hsub2, hle2⟩ := insertPendingIfFits_within
      (p := { p with backendName := name }) hlimit hs1 (hp p hpm) h1
    exact ⟨hs2, hsub1.trans hsub2, hle2.trans (max_le hle1 (le_max_right _ _))⟩

theorem Settled.footprint (h : Settled s s') (backend : String) :
    s'.footprint backend + bytesOn backend (↑s.deletions - ↑s'.deletions) =
      s.footprint backend := by
  have hbag := bytesOn_add backend (↑s.deletions - ↑s'.deletions) ↑s'.deletions
  rw [tsub_add_cancel_of_le (Multiset.coe_le.mpr h.deletions), bytesOn_coe, bytesOn_coe] at hbag
  have hinflight : s'.inflightBytes backend = s.inflightBytes backend := by
    rw [h.rest]
    rfl
  rw [Ledger.footprint, Ledger.footprint, h.locations, hinflight]
  linarith

theorem settledBy_nonneg (hs : s.Sized) (st : TxAdapter × Event) :
    ∀ c ∈ s.settledBy st, 0 ≤ c.sizeBytes := fun c hc =>
  hs.deletions c (Multiset.mem_coe.mp (Multiset.mem_of_le tsub_le_self hc))

/-- **Step lemma.** With what it settled put back, a backend is after an event within its ceiling or
what it held before, and what the event requeued; only a claim goes up to the ceiling. -/
theorem Ledger.next_footprint {st : TxAdapter × Event} (hlimit : 0 < limit)
    (hs : s.Metered backend limit) (hb : st.2.backed s) :
    (s.next st).Metered backend limit ∧
    (s.next st).footprint backend + bytesOn backend (s.settledBy st) ≤
      max (s.footprint backend) limit + bytesOn backend (st.2.requeued st.1 s) ∧
    (st.2.claims = false → (s.next st).footprint backend ≤
      s.footprint backend + bytesOn backend (st.2.requeued st.1 s)) := by
  obtain ⟨tx, ev⟩ := st
  have hsettled := bytesOn_nonneg backend (settledBy_nonneg hs.sized (tx, ev))
  cases ev with
  | op o =>
    obtain ⟨hs', hnone, hle, hrest⟩ := Op.footprint_le tx o hlimit hs hb
    rw [hnone]
    exact ⟨hs', le_of_eq_of_le (add_zero _) hle, hrest⟩
  | claimCopies intents ranked accepts =>
    obtain ⟨hs', hsub, hle⟩ := claimCopies_within tx ranked accepts hlimit hs hb
    have hnone : s.settledBy (tx, .claimCopies intents ranked accepts) = 0 :=
      tsub_eq_zero_of_le (Multiset.coe_le.mpr hsub)
    rw [hnone]
    exact ⟨hs', add_le_add_left hle _, fun h => by cases h⟩
  | settle st =>
    have hset := apply_settled tx s st
    have heq : (s.next (tx, .settle st)).footprint backend +
        bytesOn backend (s.settledBy (tx, .settle st)) = s.footprint backend :=
      hset.footprint backend
    have hzero : bytesOn backend ((Event.settle st).requeued tx s) = 0 := rfl
    have hmax := le_max_left (s.footprint backend) limit
    exact ⟨hset.metered hs, by linarith, fun _ => by linarith⟩

/-- Requeued deletions that wait are queued ones. -/
theorem Ledger.waiting_le (st : TxAdapter × Event) {requeued : Multiset CleanupRequest}
    (h : requeued ≤ ↑s.deletions) : s.waiting requeued st ≤ ↑(s.next st).deletions := by
  have hnew : st.2.requeued st.1 s ≤ ↑(s.next st).deletions - ↑s.deletions := by
    obtain ⟨tx, ev⟩ := st
    cases ev with
    | op o => exact Multiset.inter_le_right
    | claimCopies | settle => exact Multiset.zero_le _
  refine tsub_le_iff_right.mpr ((add_le_add h hnew).trans (Multiset.le_iff_count.mpr fun c => ?_))
  simp only [Ledger.settledBy, Multiset.count_add, Multiset.count_sub]
  omega

/-- **What every event keeps.** A backend is within its ceiling and the requeued deletions that
wait. -/
structure Ledger.WithinWaiting (backend : String) (limit : Int) (s : Ledger)
    (requeued : Multiset CleanupRequest) : Prop where
  metered : s.Metered backend limit
  queued : requeued ≤ ↑s.deletions
  within : s.footprint backend ≤ limit + bytesOn backend requeued

theorem Ledger.WithinWaiting.next {st : TxAdapter × Event} {requeued : Multiset CleanupRequest}
    (hlimit : 0 < limit) (h : s.WithinWaiting backend limit requeued) (hb : st.2.backed s) :
    (s.next st).WithinWaiting backend limit (s.waiting requeued st) := by
  obtain ⟨hs', hle, _⟩ := Ledger.next_footprint hlimit h.metered hb
  have hqueued := Ledger.waiting_le st h.queued
  refine ⟨hs', hqueued, ?_⟩
  -- What is no longer waiting was settled, and the settled bytes left the backend.
  have hbytes : bytesOn backend (requeued + st.2.requeued st.1 s) ≤
      bytesOn backend (s.waiting requeued st + s.settledBy st) := by
    refine bytesOn_mono backend le_tsub_add fun c hc => ?_
    rcases Multiset.mem_add.mp hc with hc | hc
    · exact hs'.sized.deletions c (Multiset.mem_coe.mp (Multiset.mem_of_le hqueued hc))
    · exact settledBy_nonneg h.metered.sized st c hc
  rw [bytesOn_add, bytesOn_add] at hbytes
  have hnn : 0 ≤ bytesOn backend requeued := bytesOn_nonneg backend fun c hc =>
    h.metered.sized.deletions c (Multiset.mem_coe.mp (Multiset.mem_of_le h.queued hc))
  have hmax : max (s.footprint backend) limit ≤ limit + bytesOn backend requeued :=
    max_le h.within (by linarith)
  linarith

end Events

/-- **Quota ceiling.** A backend stays within its ceiling and the deletions queued for intents that
were gone, as long as these wait; only a claim that was checked for room, or a transaction that
queues such a deletion, raises what occupies it. -/
theorem occupied_le_limit (backend : String) (limit : Int) (hlimit : 0 < limit) (s₀ : Ledger)
    (hknown : s₀.bytesLimit backend = some limit) (hbal : Balanced s₀) (hsized : s₀.Sized)
    (hstart : s₀.occupied backend ≤ limit) (run : List (TxAdapter × Event))
    (hrun : Along Ledger.next (fun s st => st.2.backed s) s₀ run) :
    ((after Ledger.next s₀ run).occupied backend ≤
        limit + bytesOn backend (s₀.requeuedLeft run) ∧
      s₀.requeuedLeft run ≤ ↑(after Ledger.next s₀ run).deletions) ∧
    Along Ledger.next (fun s st => st.2.claims = false →
      (s.next st).occupied backend ≤
        s.occupied backend + bytesOn backend (st.2.requeued st.1 s)) s₀ run := by
  have hm₀ : s₀.Metered backend limit := ⟨hbal, hsized, hknown⟩
  refine ⟨?_, ?_⟩
  · rw [occupied_eq hbal hsized] at hstart
    have h₀ : s₀.WithinWaiting backend limit 0 :=
      ⟨hm₀, Multiset.zero_le _, hstart.trans (le_of_eq (add_zero _).symm)⟩
    have h := hrun.traced (J := Ledger.WithinWaiting backend limit) h₀
      fun s requeued st h hb => h.next hlimit hb
    rw [occupied_eq h.metered.balanced h.metered.sized]
    exact ⟨h.within, h.queued⟩
  · have hstep : ∀ (s : Ledger) (st : TxAdapter × Event), s.Metered backend limit →
        st.2.backed s → (s.next st).Metered backend limit :=
      fun s st hs hb => (Ledger.next_footprint hlimit hs hb).1
    refine hrun.of_invariant hm₀ hstep fun s st hs hb hclaim => ?_
    have hnext := hstep s st hs hb
    rw [occupied_eq hs.balanced hs.sized, occupied_eq hnext.balanced hnext.sized]
    exact (Ledger.next_footprint hlimit hs hb).2.2 hclaim

def rivalIntent (id : String) : PendingObject :=
  { intentID := id, objectKey := "k", storageKey := "k!" ++ id, backendName := "b", sizeBytes := 5 }

def rivalCommit (id : String) : RecordObjectRequest :=
  { key := "k", size := 5, copies := [⟨"b", id, "k!" ++ id⟩] }

def rivalWrites : List (TxAdapter × Event) :=
  [(⟨"", 1, fun _ _ => false⟩, .op (.claim (rivalIntent "i") 0)),
   (⟨"", 2, fun _ _ => false⟩, .op (.claim (rivalIntent "j") 0)),
   (⟨"", 3, fun _ _ => false⟩, .op (.recordObject (rivalCommit "j"))),
   (⟨"", 4, fun _ _ => false⟩, .op (.recordObject (rivalCommit "i")))]

def driftedCounter : Ledger :=
  { Ledger.provisioned soloQuota with
    objectLocations :=
      ⟨[{ objectKey := "k", backendName := "b", storageKey := "k!i", sizeBytes := 5 }], by decide⟩
    pendingObjects := ⟨[{ rivalIntent "j" with sizeBytes := 10 }], by decide⟩ }

/-- The write that commits second queues its bytes although the first commit queued them, which
takes the backend over its ceiling; and where the counter reads low, the delete of a copy raises the
total. -/
theorem rivalWrites_exceed_limit :
    (Along Ledger.next (fun s st => st.2.backed s) (Ledger.provisioned soloQuota) rivalWrites ∧
      (Ledger.provisioned soloQuota).occupied "b" ≤ 10 ∧
      10 < (after Ledger.next (Ledger.provisioned soloQuota) rivalWrites).occupied "b") ∧
    driftedCounter.occupied "b" ≤ 10 ∧
      10 < (driftedCounter.next
        (⟨"", 3, fun _ _ => false⟩, .op (.deleteObjectsBatch ["k"]))).occupied "b" := by
  decide

def settledWrites : List (TxAdapter × Event) :=
  rivalWrites ++ [(⟨"", 5, fun _ _ => false⟩, .settle (.complete
    ((after Ledger.next (Ledger.provisioned soloQuota) rivalWrites).cleanupQueue.take 1)))]

theorem rivalWrites_within_requeued :
    (after Ledger.next (Ledger.provisioned soloQuota) rivalWrites).occupied "b" ≤ 10 + 5 ∧
    (after Ledger.next (Ledger.provisioned soloQuota) settledWrites).occupied "b" ≤ 10 + 0 := by
  have h := fun run hrun => (occupied_le_limit "b" 10 (by decide) (Ledger.provisioned soloQuota)
    (by decide) (balanced_provisioned soloQuota) (sized_provisioned soloQuota) (by decide)
    run hrun).1.1
  exact ⟨h rivalWrites (by decide), h settledWrites (by decide)⟩

end S3Orchestrator
