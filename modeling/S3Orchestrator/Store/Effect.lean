import S3Orchestrator.Store.Objects
import S3Orchestrator.Store.Multipart

/-!
# What a transaction did to the ledger

An `Effect` lists the rows a transaction took out of the ledger, the rows it put in and the
deletions it queued. `Applies e s s'` says that `s'` is `s` after `e`, and that the byte counters
moved with the recorded rows. Every transaction of the store is one of a few effects, so what a
transaction can do is proved once, and every property of the ledger is a property of effects.

* **`Applies.stripes`**: a sum of stripe rows moves by the bytes of the rows that came and went.
-/

namespace S3Orchestrator

open RowStore List ObjectLocation

def storedOn (p : StripeRow → Bool) (rows : List ObjectLocation) : Int :=
  sumOn ObjectLocation.sizeBytes (fun l => p ⟨l.backendName, stripeFor l.objectKey⟩) rows

def ObjectLocation.removal (l : ObjectLocation) (reason : String) : CleanupRequest :=
  l.existing.removed.request l.objectKey reason

def PendingObject.removal (p : PendingObject) (reason : String) : CleanupRequest :=
  (intentBytes p).request p.objectKey reason

/-- The rows a transaction took out of the ledger, and the rows it put in. -/
structure Effect where
  removed : ObjectLocation → Bool := fun _ => false
  recorded : List ObjectLocation := []
  dropped : PendingObject → Bool := fun _ => false
  claimed : List PendingObject := []
  queued : List CleanupRequest := []
  partsRemoved : MultipartPart → Bool := fun _ => false
  partsRecorded : List MultipartPart := []
  uploadsRemoved : MultipartUpload → Bool := fun _ => false

/-- The ledger after the effect. The queue is compared up to order. -/
structure Applies (e : Effect) (s s' : Ledger) : Prop where
  locations : s'.objectLocations.rows =
    (s.objectLocations.rows.filter fun l => !e.removed l) ++ e.recorded
  pending : s'.pendingObjects.rows =
    (s.pendingObjects.rows.filter fun p => !e.dropped p) ++ e.claimed
  queue : (s'.cleanupQueue.map CleanupItem.request).Perm
    (s.cleanupQueue.map CleanupItem.request ++ e.queued)
  dlq : s'.cleanupDLQ = s.cleanupDLQ
  parts : s'.multipartParts.rows =
    (s.multipartParts.rows.filter fun p => !e.partsRemoved p) ++ e.partsRecorded
  uploads : s'.multipartUploads.rows =
    s.multipartUploads.rows.filter fun u => !e.uploadsRemoved u
  quotas : s'.backendQuotas = s.backendQuotas
  states : s'.backendStates = s.backendStates
  stripes : ∀ p, Tally.total p s'.quotaStripes = Tally.total p s.quotaStripes +
    storedOn p e.recorded - storedOn p (s.objectLocations.rows.filter e.removed)

/-! ## Membership under an effect -/

namespace Applies

variable {e : Effect} {s s' : Ledger}

variable {l : ObjectLocation}

theorem none (s : Ledger) : Applies {} s s where
  locations := by simp
  pending := by simp
  queue := by simp
  dlq := rfl
  parts := by simp
  uploads := by simp
  quotas := rfl
  states := rfl
  stripes p := by simp [storedOn]

section

variable (h : Applies e s s')
include h

theorem mem_locations : l ∈ s'.objectLocations.rows ↔
      (l ∈ s.objectLocations.rows ∧ e.removed l = false) ∨ l ∈ e.recorded := by
  rw [h.locations, mem_append, mem_filter]
  simp

theorem mem_pending {p : PendingObject} : p ∈ s'.pendingObjects.rows ↔
      (p ∈ s.pendingObjects.rows ∧ e.dropped p = false) ∨ p ∈ e.claimed := by
  rw [h.pending, mem_append, mem_filter]
  simp

theorem mem_queue {c : CleanupRequest} : c ∈ s'.cleanupQueue.map CleanupItem.request ↔
      c ∈ s.cleanupQueue.map CleanupItem.request ∨ c ∈ e.queued := by
  rw [h.queue.mem_iff, mem_append]

theorem mem_parts {p : MultipartPart} : p ∈ s'.multipartParts.rows ↔
      (p ∈ s.multipartParts.rows ∧ e.partsRemoved p = false) ∨ p ∈ e.partsRecorded := by
  rw [h.parts, mem_append, mem_filter]
  simp

theorem mem_uploads {u : MultipartUpload} :
    u ∈ s'.multipartUploads.rows ↔ u ∈ s.multipartUploads.rows ∧ e.uploadsRemoved u = false := by
  rw [h.uploads, mem_filter]
  simp

theorem uploadOn_of_none (hu : ∀ u, e.uploadsRemoved u = false) (uploadID backend : String) :
    s'.uploadOn uploadID backend = s.uploadOn uploadID backend := by
  unfold Ledger.uploadOn
  rw [h.uploads, filter_eq_self.mpr fun u _ => by simp [hu u]]

end

end Applies

/-! ## Rows known by their keys -/

section Unique

variable {s : Ledger}

theorem upload_unique {m m' : MultipartUpload} (hm : m ∈ s.multipartUploads.rows)
    (hm' : m' ∈ s.multipartUploads.rows) (hid : m.uploadID = m'.uploadID) : m = m' := by
  refine s.multipartUploads.eq_of_clash hm hm' ?_ ?_ <;> simp [sameUpload, hid]

theorem uploadOn_iff {uploadID backend : String} : s.uploadOn uploadID backend = true ↔
    ∃ m ∈ s.multipartUploads.rows, m.uploadID = uploadID ∧ m.backendName = backend := by
  simp [Ledger.uploadOn]

theorem part_unique {q r : MultipartPart} {row : MultipartPart} (hq : q ∈ s.multipartParts.rows)
    (hr : r ∈ s.multipartParts.rows) (hqr : samePart q row = true) (hrr : samePart r row = true) :
    q = r := by
  simp only [samePart, Bool.and_eq_true, decide_eq_true_eq] at hqr hrr
  refine s.multipartParts.eq_of_clash hq hr ?_ ?_ <;> simp [samePart, hqr, hrr]

theorem slot_unique {a : ObjectLocation} (ha : a ∈ s.objectLocations.rows)
    (hl : l ∈ s.objectLocations.rows) (hkey : a.objectKey = l.objectKey)
    (hbackend : a.backendName = l.backendName) : a = l := by
  refine s.objectLocations.eq_of_clash ha hl ?_ ?_ <;> simp [sameSlot, hkey, hbackend]

theorem path_unique {l' : ObjectLocation} (hl : l ∈ s.objectLocations.rows)
    (hl' : l' ∈ s.objectLocations.rows) (hb : l.backendName = l'.backendName)
    (hp : l.storageKey = l'.storageKey) : l = l' := by
  refine s.objectLocations.eq_of_clash hl hl' ?_ ?_ <;> simp [sameSlot, hb, hp]

end Unique

/-! ## The deletions transactions queue -/

theorem removedFromExisting_eq (existing : List ExistingCopy) :
    removedFromExisting existing = existing.map ExistingCopy.removed := rfl

theorem stale_request (p : PendingObject) (reason : String) :
    p.superseded.stale.request p.objectKey reason = p.removal cleanupReasonSupersededIntent := by
  simp [RemovedCopy.request, SupersededIntent.stale, PendingObject.superseded,
    PendingObject.removal, intentBytes, cleanupReasonSupersededIntent]

theorem copiesOf_key {s : Ledger} {keys : List String}
    (h : l ∈ s.copiesOf keys) : l ∈ s.objectLocations.rows ∧ l.objectKey ∈ keys := by
  simpa [Ledger.copiesOf] using h

theorem mem_copiesOf_singleton {s : Ledger} {key : String} :
    l ∈ s.copiesOf [key] ↔ l ∈ s.objectLocations.rows ∧ l.objectKey = key := by
  simp [Ledger.copiesOf]

theorem removed_requests (s : Ledger) (key reason : String) :
    ((removedFromExisting ((s.copiesOf [key]).map existing)).map
      fun d => d.request key reason) = (s.copiesOf [key]).map fun l => l.removal reason := by
  rw [removedFromExisting_eq, map_map, map_map]
  refine map_congr_left fun l hl => ?_
  have hk : l.objectKey = key := by simpa using (copiesOf_key hl).2
  simp [← hk, removal]

/-! ## Byte movements -/

theorem storedOn_nil (p : StripeRow → Bool) : storedOn p [] = 0 := rfl

theorem storedOn_singleton (p : StripeRow → Bool) (l : ObjectLocation) :
    storedOn p [l] = if p ⟨l.backendName, stripeFor l.objectKey⟩ then l.sizeBytes else 0 := by
  simp [storedOn, sumOn_cons]

theorem sumOn_deltas (p : StripeRow → Bool) {key : String} {rows : List ObjectLocation}
    (h : ∀ l ∈ rows, l.objectKey = key) :
    sumOn sizeBytes (fun l => p ⟨l.backendName, stripeFor key⟩) rows = storedOn p rows :=
  sumOn_congr _ _ fun l hl => ⟨by rw [h l hl], fun _ => rfl⟩

theorem total_cleared (s : Ledger) (key : String) (p : StripeRow → Bool) :
    Tally.total (fun backend => p ⟨backend, stripeFor key⟩)
      (Tally.addAll Table.empty (((s.copiesOf [key]).map existing).map
        fun ec => (ec.backendName, -ec.sizeBytes))) = -storedOn p (s.copiesOf [key]) := by
  have hkey : ∀ l ∈ s.copiesOf [key], l.objectKey = key := fun l hl => by
    simpa using (copiesOf_key hl).2
  rw [Tally.total_addAll, Tally.total_empty, zero_add, sumOn_map, sumOn_map,
    ← sumOn_deltas p hkey, ← sumOn_neg]
  rfl

theorem total_removalDebits (rows : List ObjectLocation) (p : StripeRow → Bool) :
    Tally.total p (removalDebits (rows.map existing)) = -storedOn p rows := by
  have h : removalDebits (rows.map existing) = Tally.addAll Table.empty
        (rows.map fun l => (⟨l.backendName, stripeFor l.objectKey⟩, -l.sizeBytes)) := by
    rw [removalDebits, Tally.addAll, foldl_map, foldl_map]
    rfl
  rw [h, Tally.total_addAll, Tally.total_empty, zero_add, sumOn_map]
  exact sumOn_neg _ _ _

end S3Orchestrator
