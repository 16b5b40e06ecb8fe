import Mathlib.Data.List.Dedup
import S3Orchestrator.Store.Effect

/-!
# The outcomes of the store's transactions

For every transaction, the effects it can end in, with the state of the ledger that selects each of
them. Nothing after this file reads a transaction's body again.

* `recordObjectTx_ok`: the write held its intents and replaced the key's copies, or it was
  overtaken and queued its own bytes.
-/

namespace S3Orchestrator

open RowStore List Effect TxAdapter Tx Tally

def Ledger.holdsAll (s : Ledger) (ids : List String) : Prop :=
  ∀ id ∈ ids, id ≠ "" → s.holds id = true
  deriving Decidable

variable {id reason : String}

theorem Ledger.holdsAll_singleton {s : Ledger} :
    s.holdsAll [id] ↔ (id ≠ "" → s.holds id = true) := by
  simp [Ledger.holdsAll]

theorem Ledger.holds_iff {s : Ledger} :
    s.holds id = true ↔ ∃ p ∈ s.pendingObjects.rows, p.intentID = id := by
  simp [Ledger.holds]

/-! ## Effects -/

def PendingObject.location (tx : TxAdapter) (p : PendingObject) : ObjectLocation :=
  tx.locationRow (objectFromStoredForm p.objectKey p.backendName p.storageKey p.sizeBytes
    (some p.storedForm) p.identity)

namespace Effect

/-- A write that lost its intents. -/
def overtaken (req : RecordObjectRequest) : Effect where
  dropped p := decide (p.intentID ≠ "" ∧ p.intentID ∈ intentIDs req.copies)
  queued := req.copies.map fun c => (req.bytes c).request req.key cleanupReasonSupersededIntent

/-- The intents of other writes that a commit clears. -/
def stale (s : Ledger) (req : RecordObjectRequest) : List PendingObject :=
  (s.pendingObjects.rows.filter
    (TxAdapter.clears (intentIDs req.placing) [req.key])).filter
      fun p => decide (p.intentID ∉ intentIDs req.copies)

/-- A write that commits: its copies replace the key's, and the key's other intents go. -/
def recording (tx : TxAdapter) (s : Ledger) (req : RecordObjectRequest) : Effect where
  removed l := decide (l.objectKey ∈ [req.key])
  recorded := req.copies.map fun c => tx.locationRow (req.location c)
  dropped := TxAdapter.clears (intentIDs req.placing) [req.key]
  queued := (s.copiesOf [req.key]).map (fun l => l.removal cleanupReasonOverwritten) ++
    (stale s req).map fun p => p.removal cleanupReasonSupersededIntent

def clearedBy (s : Ledger) (keys : List String) (p : PendingObject) : Bool :=
  decide (p.objectKey ∈ (s.copiesOf keys).map ObjectLocation.objectKey)

/-- A delete clears the intents of those keys that have a copy. -/
def deleting (s : Ledger) (keys : List String) : Effect where
  removed l := decide (l.objectKey ∈ keys)
  dropped := clearedBy s keys
  queued := (s.copiesOf keys).map (fun l => l.removal cleanupReasonDeleted) ++
    (s.pendingObjects.rows.filter (clearedBy s keys)).map
      fun p => p.removal cleanupReasonSupersededIntent

/-- The removal of one copy. -/
def removing (l : ObjectLocation) (reason : String) : Effect where
  removed a := decide (a.objectKey = l.objectKey ∧ a.backendName = l.backendName)
  queued := if reason = "" then [] else [l.removal reason]

/-- A placement that is carried out. -/
def placing (tx : TxAdapter) (p : Placement) (src : ObjectLocation) : Effect where
  removed a := p.removeSource &&
    decide (a.objectKey = src.objectKey ∧ a.backendName = src.backendName)
  recorded := [tx.locationRow (p.placedCopy src)]
  dropped q := decide (q.intentID = p.intent.intentID)
  queued := if p.removeSource then [src.removal p.reasons.sourceDelete] else []

/-- An intent goes and its bytes are queued. -/
def dropping (p : PendingObject) (reason : String) : Effect where
  dropped q := decide (q.intentID = p.intentID)
  queued := [p.removal reason]

def forgetting (id : String) : Effect where
  dropped q := decide (q.intentID = id)

/-- Bytes are queued whose intent is gone. -/
def requeueing (p : PendingObject) (key reason : String) : Effect where
  queued := [(intentBytes p).request key reason]

/-- An intent becomes the only copy of its key. -/
def promoting (tx : TxAdapter) (s : Ledger) (p : PendingObject) : Effect where
  removed l := decide (l.objectKey ∈ [p.objectKey])
  recorded := [p.location tx]
  dropped q := decide (q.intentID = p.intentID)
  queued := (s.copiesOf [p.objectKey]).map fun l => l.removal cleanupReasonOverwritten

/-- A companion becomes one more copy. -/
def joining (tx : TxAdapter) (p : PendingObject) : Effect where
  recorded := [p.location tx]
  dropped q := decide (q.intentID = p.intentID)

def importing (tx : TxAdapter) (req : ImportObjectRequest) : Effect where
  recorded := [tx.locationRow (req.location tx.now)]

def claiming (rows : List PendingObject) : Effect where
  claimed := rows

/-- A part takes the place of the one before. -/
def recordingPart (tx : TxAdapter) (p : RecordPartParams) (replaced : Option MultipartPart) :
    Effect where
  dropped q := decide (q.intentID = p.intent.intentID)
  partsRemoved q := samePart q (tx.partRow p)
  partsRecorded := [tx.partRow p]
  queued := (replaced.map fun r =>
    (p.replacedBytes r).request (partPath p.uploadID p.partNumber) cleanupReasonPartReplaced).toList

/-- An upload goes with all its parts. -/
def deletingUpload (s : Ledger) (uploadID backend reason : String) : Effect where
  partsRemoved p := decide (p.uploadID = uploadID)
  uploadsRemoved u := decide (u.uploadID = uploadID)
  queued := (s.multipartParts.rows.filter fun p => decide (p.uploadID = uploadID)).map
    fun p => p.removal backend reason

end Effect

/-! ## Shared steps -/

variable {tx : TxAdapter} {s s' : Ledger} {u : Unit} {items : List CleanupItem}

theorem queue_perm {cs : List CleanupRequest} (h : items.map CleanupItem.request = cs) :
    ((s.cleanupQueue ++ items).map CleanupItem.request).Perm
      (s.cleanupQueue.map CleanupItem.request ++ cs) := by
  rw [map_append, h]

theorem held_cases {α : Type} {ids : List String} {x y : LedgerTx α} {r : α × Ledger}
    (h : (do let claimed ← intentsHeld tx ids; if claimed then x else y) s = .ok r) :
    (¬ s.holdsAll ids ∧ y s = .ok r) ∨ (s.holdsAll ids ∧ x s = .ok r) := by
  obtain ⟨claimed, s1, ⟨rfl, hc⟩, h2⟩ := bind_ok h intentsHeld_ok
  cases claimed with
  | false => exact .inl ⟨fun hh => (by cases hc.mpr hh), h2⟩
  | true => exact .inr ⟨hc.mp rfl, h2⟩

variable {key : String}

theorem clearExistingCopies_ok {deltas : QuotaDeltas} {r : List RemovedCopy × QuotaDeltas}
    (h : clearExistingCopies tx key ((s.copiesOf [key]).map ObjectLocation.existing) deltas s =
      .ok (r, s')) :
    r.1 = removedFromExisting ((s.copiesOf [key]).map ObjectLocation.existing) ∧
    r.2 = addAll deltas (((s.copiesOf [key]).map ObjectLocation.existing).map
      fun ec => (ec.backendName, -ec.sizeBytes)) ∧
    s' = { s with objectLocations :=
      s.objectLocations.deleteWhere fun l => decide (l.objectKey ∈ [key]) } := by
  unfold clearExistingCopies at h
  split_ifs at h with he
  · obtain ⟨rfl, rfl⟩ := pure_eq_ok.mp h
    refine ⟨by simp [he, removedFromExisting], by simp [he, addAll], ?_⟩
    have hnone : s'.copiesOf [key] = [] := map_eq_nil_iff.mp he
    rw [Table.deleteWhere_eq_self]
    intro l hl
    have := filter_eq_nil_iff.mp hnone l hl
    simpa using this
  · obtain ⟨_, h1, rfl⟩ := bind_pure_ok h
    exact ⟨rfl, rfl, deleteObjectCopies_ok (mapError_eq_ok.mp h1)⟩

/-- The bytes of the intents a write clears, by key: those it does not commit itself. -/
def Supersedes (s : Ledger) (keep committing keys : List String)
    (r : String → List RemovedCopy) : Prop :=
  ∀ key reason, ((r key).map fun d => d.request key reason) =
    (((s.pendingObjects.rows.filter (TxAdapter.clears keep keys)).filter
      fun p => decide (p.intentID ∉ committing)).filter
        fun p => decide (p.objectKey = key)).map
          fun p => p.removal cleanupReasonSupersededIntent

variable {r : String → List RemovedCopy}

theorem clearSupersededIntents_ok {keep committing keys : List String}
    (h : clearSupersededIntents tx keep committing keys s = .ok (r, s')) :
    Supersedes s keep committing keys r ∧
    s' = { s with
      pendingObjects := s.pendingObjects.deleteWhere (clears keep keys) } := by
  obtain ⟨cleared, h1, rfl⟩ := bind_pure_ok h
  obtain ⟨hc, hs⟩ := clearPendingForKey_ok (mapError_eq_ok.mp h1)
  refine ⟨fun key reason => ?_, hs⟩
  simp only [hc, filter_map, map_map]
  refine map_congr_left fun p hp => ?_
  have hk : p.objectKey = key := of_decide_eq_true (mem_filter.mp hp).2
  subst hk
  exact stale_request p reason

theorem recordIntent_ok {p : PendingObject} {deltas : QuotaDeltas}
    (h : recordIntent tx p deltas s = .ok (u, s')) :
    ∃ t q, (∀ a ∈ s.objectLocations.rows, sameSlot a (p.location tx) = false) ∧
      t.rows = s.objectLocations.rows ++ [p.location tx] ∧
      (∀ f, total f q = total f s.quotaStripes +
        total (fun b => f ⟨b, stripeFor p.objectKey⟩) deltas + storedOn f [p.location tx]) ∧
      s' = { s with
        objectLocations := t
        quotaStripes := q
        pendingObjects := s.pendingObjects.deleteWhere fun a =>
          decide (a.intentID = p.intentID) } := by
  obtain ⟨_, s1, h1, h2⟩ := bind_eq_ok.mp h
  obtain ⟨_, s2, h3, h4⟩ := bind_eq_ok.mp h2
  obtain ⟨t, hc, ht, rfl⟩ := insertObjectLocation_ok (mapError_eq_ok.mp h1)
  obtain ⟨q, rfl, hq⟩ := chargeStripes_ok h3
  refine ⟨t, q, hc, ht, fun f => ?_, deletePending_ok (mapError_eq_ok.mp h4)⟩
  rw [hq f, total_add, storedOn_singleton, add_assoc]
  rfl

/-! ## Writes -/

variable {copies : List ObjectCopy}

theorem dropOvertaken_ok (h : forEach (fun c => if c.intentID ≠ "" then
        mapError (wrapError "delete overtaken intent") (tx.deletePending c.intentID)
      else pure ()) copies s = .ok (u, s')) :
    ∃ t, t.rows = s.pendingObjects.rows.filter
        (fun p => !decide (p.intentID ≠ "" ∧ p.intentID ∈ intentIDs copies)) ∧
      s' = { s with pendingObjects := t } := by
  refine forEach_induct (fun done s1 => ∃ t, t.rows = s.pendingObjects.rows.filter
      (fun p => !decide (p.intentID ≠ "" ∧ p.intentID ∈ intentIDs done)) ∧
      s1 = { s with pendingObjects := t }) ?_ copies [] s s' u ?_ h
  · rintro done c _ s2 ⟨t, ht, rfl⟩ h2
    split_ifs at h2 with hc
    · obtain rfl := deletePending_ok (mapError_eq_ok.mp h2)
      refine ⟨_, ?_, rfl⟩
      rw [Table.rows_deleteWhere, ht, filter_filter]
      refine filter_congr fun p _ => ?_
      by_cases hp : p.intentID = c.intentID
      · simp [hp, hc, intentIDs]
      · simp [hp, intentIDs]
    · obtain ⟨_, rfl⟩ := pure_eq_ok.mp h2
      refine ⟨t, ?_, rfl⟩
      rw [ht]
      refine filter_congr fun p _ => ?_
      have hc' : c.intentID = "" := not_not.mp hc
      by_cases hp : p.intentID = "" <;> simp [hp, hc', intentIDs]
  · exact ⟨s.pendingObjects, by simp [intentIDs], rfl⟩

variable {req : RecordObjectRequest}

theorem discardOvertakenWrite_ok (h : discardOvertakenWrite tx req s = .ok (items, s')) :
    Applies (overtaken req) s s' := by
  obtain ⟨_, s1, ⟨t, ht, rfl⟩, h2⟩ := bind_ok h dropOvertaken_ok
  obtain ⟨hitems, n, rfl⟩ := enqueueRemoved_ok h2
  rw [map_map] at hitems
  exact { Applies.none s with
    pending := by simpa [overtaken] using ht
    queue := queue_perm hitems }

theorem insertCopies_ok
    (h : forEach (fun c => mapError (wrapError ("insert object location on " ++ c.backend))
      (tx.insertObjectLocation (req.location c))) copies s = .ok (u, s')) :
    ∃ t, t.rows = s.objectLocations.rows ++ copies.map (fun c => tx.locationRow (req.location c)) ∧
      s' = { s with objectLocations := t } := by
  refine forEach_induct (fun done s1 => ∃ t, t.rows = s.objectLocations.rows ++
      done.map (fun c => tx.locationRow (req.location c)) ∧
      s1 = { s with objectLocations := t }) ?_ copies [] s s' u ⟨s.objectLocations, by simp, rfl⟩ h
  rintro done c _ s2 ⟨t, ht, rfl⟩ h2
  obtain ⟨t', _, ht', rfl⟩ := insertObjectLocation_ok (mapError_eq_ok.mp h2)
  exact ⟨t', by simp [ht', ht], rfl⟩

theorem total_copies (req : RecordObjectRequest) (deltas : QuotaDeltas) (p : StripeRow → Bool) :
    total (fun backend => p ⟨backend, stripeFor req.key⟩)
      (addAll deltas (req.copies.map fun c => (c.backend, req.size))) =
    total (fun backend => p ⟨backend, stripeFor req.key⟩) deltas +
      storedOn p (req.copies.map fun c => tx.locationRow (req.location c)) := by
  rw [total_addAll, sumOn_map, storedOn, sumOn_map]
  rfl

theorem stale_requests (h : Supersedes s (intentIDs req.placing) (intentIDs req.copies) [req.key] r)
    (reason : String) :
    ((r req.key).map fun d => d.request req.key reason) =
      (stale s req).map fun p => p.removal cleanupReasonSupersededIntent := by
  rw [h, stale]
  congr 1
  rw [filter_eq_self]
  intro p hp
  have := (mem_filter.mp (mem_filter.mp hp).1).2
  simp only [clears, mem_singleton, Bool.and_eq_true] at this
  simp [this.1]

theorem recordObjectTx_ok (h : recordObjectTx tx req s = .ok (items, s')) :
    (¬ s.holdsAll (intentIDs req.copies) ∧ Applies (overtaken req) s s') ∨
      (s.holdsAll (intentIDs req.copies) ∧ Applies (recording tx s req) s s') := by
  rcases held_cases h with ⟨hgone, h2⟩ | ⟨hheld, h2⟩
  · exact .inl ⟨hgone, discardOvertakenWrite_ok h2⟩
  · refine .inr ⟨hheld, ?_⟩
    obtain ⟨existing, s2, ⟨rfl, rfl⟩, h4⟩ := bind_ok h2 getExistingCopiesForUpdate_ok
    obtain ⟨⟨displaced, deltas⟩, s3, ⟨hdis, hdel, rfl⟩, h6⟩ := bind_ok h4 clearExistingCopies_ok
    obtain ⟨_, s4, ⟨tags, rfl⟩, h8⟩ := bind_ok h6 replaceObjectTagsTx_ok
    obtain ⟨_, s5, ⟨t, ht, rfl⟩, h10⟩ := bind_ok h8 insertCopies_ok
    obtain ⟨_, s6, ⟨q, rfl, hq⟩, h12⟩ := bind_ok h10 chargeStripes_ok
    obtain ⟨superseded, s7, ⟨hsup, rfl⟩, h14⟩ := bind_ok h12 clearSupersededIntents_ok
    obtain ⟨hitems, n, rfl⟩ := enqueueRemoved_ok h14
    simp only at hdis hdel
    rw [map_append, hdis, removed_requests, stale_requests hsup] at hitems
    exact { Applies.none s2 with
      locations := ht
      pending := by simp [recording]
      queue := queue_perm hitems
      stripes := fun p => by
        rw [hq p, total_copies, hdel, total_cleared]
        simp only [recording, Ledger.copiesOf]
        ring }

theorem recordObject_ok (h : recordObject tx req s = .ok (items, s')) :
    req.copies ≠ [] ∧ recordObjectTx tx req s = .ok (items, s') := by
  unfold recordObject at h
  split_ifs at h with hc
  · exact absurd h (by simp)
  · obtain ⟨_, s1, ⟨_, rfl⟩, h2⟩ := bind_ok h ofExcept_eq_ok.mp
    exact ⟨hc, h2⟩

/-! ## Deletes -/

theorem mem_heldKeys {rows : List ObjectLocation} :
    key ∈ heldKeys (rows.map ObjectLocation.existing) ↔ ∃ l ∈ rows, l.objectKey = key := by
  rw [heldKeys, mem_insertionSort, mem_dedup, map_map, mem_map]
  rfl

theorem nodup_heldKeys (rows : List ExistingCopy) : (heldKeys rows).Nodup :=
  (perm_insertionSort _ _).nodup_iff.mpr (nodup_dedup _)

theorem clears_held (s : Ledger) (keys : List String) :
    clears [] (heldKeys ((s.copiesOf keys).map ObjectLocation.existing)) = clearedBy s keys := by
  funext p
  simp [clears, clearedBy, mem_heldKeys]

variable {keys : List String}

theorem batch_requests
    (h : Supersedes s [] [] (heldKeys ((s.copiesOf keys).map ObjectLocation.existing)) r) :
    ((heldKeys ((s.copiesOf keys).map ObjectLocation.existing)).flatMap fun key =>
      (((((s.copiesOf keys).map ObjectLocation.existing).filter
        fun r => decide (r.objectKey = key)).map ExistingCopy.removed) ++ r key).map
          fun d => d.request key cleanupReasonDeleted).Perm (deleting s keys).queued := by
  set held := heldKeys ((s.copiesOf keys).map ObjectLocation.existing) with hheld
  have hnd : held.Nodup := nodup_heldKeys _
  have hrow : ∀ key, (((((s.copiesOf keys).map ObjectLocation.existing).filter
      fun r => decide (r.objectKey = key)).map ExistingCopy.removed) ++ r key).map
        (fun d => d.request key cleanupReasonDeleted) =
      ((s.copiesOf keys).filter fun l => decide (l.objectKey = key)).map
        (fun l => l.removal cleanupReasonDeleted) ++
      ((s.pendingObjects.rows.filter (clearedBy s keys)).filter
        fun p => decide (p.objectKey = key)).map
          fun p => p.removal cleanupReasonSupersededIntent := by
    intro key
    rw [map_append, h]
    congr 1
    · simp only [filter_map, map_map]
      refine map_congr_left fun l hl => ?_
      have hk : l.objectKey = key := of_decide_eq_true (mem_filter.mp hl).2
      subst hk
      rfl
    · simp only [hheld, clears_held, not_mem_nil, not_false_eq_true, decide_true, filter_true]
  rw [flatMap_congr fun key _ => hrow key]
  refine (flatMap_append_perm _ _ _).symm.trans (List.Perm.append ?_ ?_)
  · rw [← map_flatMap]
    refine List.Perm.map _ (flatMap_filter_perm _ hnd fun l hl => ?_)
    exact mem_heldKeys.mpr ⟨l, hl, rfl⟩
  · rw [← map_flatMap]
    refine List.Perm.map _ (flatMap_filter_perm _ hnd fun p hp => ?_)
    have := (mem_filter.mp hp).2
    simp only [clearedBy, decide_eq_true_eq, mem_map] at this
    exact mem_heldKeys.mpr this

/-- **A batch delete that finds a copy clears its keys' rows and tags, and the intents of the keys
it found.** -/
theorem deleteObjectsBatchTx_ok (h : deleteObjectsBatchTx tx keys s = .ok (items, s')) :
    (s.copiesOf keys = [] ∧ s' = s) ∨ (s.copiesOf keys ≠ [] ∧ Applies (deleting s keys) s s' ∧
        s'.objectTags = s.objectTags.deleteWhere fun t => decide (t.objectKey ∈ keys)) := by
  obtain ⟨rows, s1, ⟨rfl, rfl⟩, h2⟩ := bind_ok h getExistingCopiesForUpdate_ok
  split_ifs at h2 with hr
  · obtain ⟨_, rfl⟩ := pure_eq_ok.mp h2
    exact .inl ⟨map_eq_nil_iff.mp hr, rfl⟩
  · obtain ⟨_, s2, rfl, h4⟩ := bind_mapError_ok h2 deleteObjectCopies_ok
    obtain ⟨_, s3, rfl, h6⟩ := bind_ok h4 clearTagsForKey_ok
    obtain ⟨superseded, s4, ⟨hsup, rfl⟩, h8⟩ := bind_ok h6 clearSupersededIntents_ok
    obtain ⟨cleanup, s5, ⟨hitems, n, rfl⟩, h10⟩ := bind_ok h8 queueCleanup_ok
    obtain ⟨_, s6, ⟨q, rfl, hq⟩, h12⟩ := bind_ok h10 charge_ok
    obtain ⟨_, rfl⟩ := pure_eq_ok.mp h12
    refine .inr ⟨fun he => hr (by rw [he]; rfl), ?_, rfl⟩
    exact { Applies.none s1 with
      locations := by simp [deleting]
      pending := by simp [deleting, clears_held]
      queue := (queue_perm hitems).trans (List.Perm.append_left _ (batch_requests hsup))
      stripes := fun p => by
        rw [hq p, total_removalDebits]
        simp only [deleting, Ledger.copiesOf, storedOn_nil]
        ring }

theorem deleteObjectsBatch_ok (h : deleteObjectsBatch tx keys s = .ok (items, s')) :
    (s.copiesOf keys = [] ∧ s' = s) ∨ (s.copiesOf keys ≠ [] ∧ Applies (deleting s keys) s s' ∧
        s'.objectTags = s.objectTags.deleteWhere fun t => decide (t.objectKey ∈ keys)) := by
  unfold deleteObjectsBatch at h
  split_ifs at h with hk
  · refine .inl ⟨?_, (pure_eq_ok.mp h).2⟩
    simp [hk, Ledger.copiesOf]
  · exact deleteObjectsBatchTx_ok h

theorem filter_slot {l : ObjectLocation} (hl : l ∈ s.objectLocations.rows) :
    (s.objectLocations.rows.filter fun a =>
      decide (a.objectKey = l.objectKey ∧ a.backendName = l.backendName)) = [l] := by
  refine Table.filter_eq_singleton hl (by simp) fun a ha => ?_
  have ha := of_decide_eq_true ha
  simp [sameSlot, ha.1, ha.2]

variable {existing : List ExistingCopy}

theorem copyOnBackend_some {backend : String} {ec : ExistingCopy}
    (h : copyOnBackend existing backend = some ec) : ec ∈ existing ∧ ec.backendName = backend :=
  ⟨mem_of_find?_eq_some h, by simpa using find?_some h⟩

theorem removableCopy_ok {loc : ObjectLocation} {keepAtLeast : Int} {held : ExistingCopy}
    (h : removableCopy existing loc keepAtLeast = .ok held) :
    copyOnBackend existing loc.backendName = some held ∧ held.storageKey = loc.storageKey := by
  unfold removableCopy at h
  cases hc : copyOnBackend existing loc.backendName with
  | none => rw [hc] at h; cases h
  | some ec =>
    rw [hc] at h
    simp only at h
    split_ifs at h with hkey hkeep hexcess hdek
    · cases h
      exact ⟨rfl, not_not.mp hkey⟩
    · cases h
      exact ⟨rfl, not_not.mp hkey⟩

theorem mem_existing {ec : ExistingCopy} (h : ec ∈ (s.copiesOf [key]).map ObjectLocation.existing) :
    ∃ l ∈ s.objectLocations.rows, l.objectKey = key ∧ l.existing = ec := by
  obtain ⟨l, hl, rfl⟩ := mem_map.mp h
  obtain ⟨hl, hk⟩ := copiesOf_key hl
  exact ⟨l, hl, by simpa using hk, rfl⟩

theorem removeCopyRow_ok {l : ObjectLocation} {last : Bool} (hl : l ∈ s.objectLocations.rows)
    (h : removeCopyRow tx l.objectKey l.existing last s = .ok (u, s')) :
    ∃ tags, ∃ q : Tally StripeRow, s' = { s with
        objectLocations := s.objectLocations.deleteWhere fun a =>
          decide (a.objectKey = l.objectKey ∧ a.backendName = l.backendName)
        objectTags := tags
        quotaStripes := q } ∧
      ∀ p, total p q = total p s.quotaStripes - storedOn p (s.objectLocations.rows.filter fun a =>
          decide (a.objectKey = l.objectKey ∧ a.backendName = l.backendName)) := by
  obtain ⟨_, s1, rfl, h2⟩ := bind_ok h deleteObjectFromBackend_ok
  have htags : ∃ tags, chargeStripes tx l.objectKey
      (add Table.empty l.backendName (-l.sizeBytes)) { s with
        objectLocations := s.objectLocations.deleteWhere fun a =>
          decide (a.objectKey = l.objectKey ∧ a.backendName = l.backendName)
        objectTags := tags } = .ok (u, s') := by
    cases last with
    | true =>
      obtain ⟨_, s2, rfl, h4⟩ := bind_ok h2 clearTagsForKey_ok
      exact ⟨_, h4⟩
    | false => exact ⟨s.objectTags, h2⟩
  obtain ⟨tags, h3⟩ := htags
  obtain ⟨q, rfl, hq⟩ := chargeStripes_ok h3
  refine ⟨tags, q, rfl, fun p => ?_⟩
  rw [hq p, filter_slot hl, total_add, total_empty, storedOn_singleton]
  split_ifs <;> ring

theorem deleteObjectLocation_ok {loc : ObjectLocation} {keepAtLeast : Int}
    (h : deleteObjectLocation tx loc keepAtLeast reason s = .ok (items, s')) :
    ∃ l ∈ s.objectLocations.rows, l.objectKey = loc.objectKey ∧ l.backendName = loc.backendName ∧
      l.storageKey = loc.storageKey ∧
      removableCopy ((s.copiesOf [loc.objectKey]).map ObjectLocation.existing) loc keepAtLeast =
        .ok l.existing ∧
      Applies (removing l reason) s s' := by
  obtain ⟨existing, s1, ⟨rfl, rfl⟩, h2⟩ := bind_ok h getExistingCopiesForUpdate_ok
  obtain ⟨held, s2, ⟨hrem, rfl⟩, h4⟩ := bind_ok h2 ofExcept_eq_ok.mp
  obtain ⟨hcopy, hpath⟩ := removableCopy_ok hrem
  obtain ⟨hmem, hback⟩ := copyOnBackend_some hcopy
  obtain ⟨l, hl, hkey, rfl⟩ := mem_existing hmem
  refine ⟨l, hl, hkey, hback, hpath, hrem, ?_⟩
  obtain ⟨_, s3, h5, h6⟩ := bind_eq_ok.mp h4
  rw [← hkey] at h5 h6
  obtain ⟨tags, q, rfl, hq⟩ := removeCopyRow_ok hl h5
  split_ifs at h6 with hreason
  · obtain ⟨_, rfl⟩ := pure_eq_ok.mp h6
    exact { Applies.none s2 with
      locations := by simp [removing]
      queue := by simp [removing, hreason]
      stripes := fun p => by rw [hq p]; simp [removing, storedOn_nil] }
  · obtain ⟨hitems, n, rfl⟩ := enqueueRemoved_ok h6
    exact { Applies.none s2 with
      locations := by simp [removing]
      queue := by
        simp only [removing, hreason]
        exact queue_perm hitems
      stripes := fun p => by rw [hq p]; simp [removing, storedOn_nil] }

/-! ## Intents -/

section Intents

variable {p : PendingObject}

theorem dropIntent_effect (h : dropIntent tx p reason s = .ok (items, s')) :
    Applies (dropping p reason) s s' := by
  obtain ⟨hitems, n, rfl⟩ := dropIntent_ok h
  exact { Applies.none s with
    pending := by simp [dropping]
    queue := queue_perm hitems }

theorem deletePending_effect (h : tx.deletePending id s = .ok (u, s')) :
    Applies (forgetting id) s s' := by
  obtain rfl := deletePending_ok h
  exact { Applies.none s with pending := by simp [forgetting] }

theorem requeue_effect {key : String}
    (h : enqueueRemoved tx key reason [intentBytes p] s = .ok (items, s')) :
    Applies (requeueing p key reason) s s' := by
  obtain ⟨hitems, n, rfl⟩ := enqueueRemoved_ok h
  exact { Applies.none s with queue := queue_perm hitems }

theorem discardPending_effect
    (h : discardPending tx p reason s = .ok (items, s')) :
    (¬ s.holdsAll [p.intentID] ∧ s' = s) ∨
      (s.holdsAll [p.intentID] ∧ Applies (dropping p reason) s s') := by
  rcases held_cases h with ⟨hn, h⟩ | ⟨hh, h⟩
  · exact .inl ⟨hn, (pure_eq_ok.mp h).2⟩
  · exact .inr ⟨hh, dropIntent_effect h⟩

theorem commitCompanionTx_ok {r : CompanionOutcome} (h : commitCompanionTx tx p s = .ok (r, s')) :
    (¬ s.holdsAll [p.intentID] ∧ r.result = .untrusted ∧
        Applies (requeueing p p.objectKey cleanupReasonCompanionUntrusted) s s') ∨
      (s.holdsAll [p.intentID] ∧ r.result = .committed ∧ Applies (joining tx p) s s') := by
  rcases held_cases h with ⟨hn, h⟩ | ⟨hh, h⟩
  · obtain ⟨cleanup, h1, rfl⟩ := bind_pure_ok h
    exact .inl ⟨hn, rfl, requeue_effect h1⟩
  · obtain ⟨_, h1, rfl⟩ := bind_pure_ok h
    obtain ⟨t, q, _, ht, hq, rfl⟩ := recordIntent_ok h1
    refine .inr ⟨hh, rfl, { Applies.none s with
      locations := by simpa [joining] using ht
      pending := by simp [joining]
      stripes := fun f => ?_ }⟩
    rw [hq f, total_empty]
    simp [joining, storedOn_nil]

theorem commitPromotion_ok {r : PromoteOutcome}
    (h : commitPromotion tx p ((s.copiesOf [p.objectKey]).map ObjectLocation.existing) s =
      .ok (r, s')) :
    r.result = .committed ∧ Applies (promoting tx s p) s s' := by
  obtain ⟨⟨displaced, deltas⟩, s1, ⟨hdis, hdel, rfl⟩, h2⟩ := bind_ok h clearExistingCopies_ok
  obtain ⟨_, s2, ⟨t, q, _, ht, hq, rfl⟩, h4⟩ := bind_ok h2 recordIntent_ok
  obtain ⟨_, s3, ⟨tags, rfl⟩, h6⟩ := bind_ok h4 replaceObjectTagsTx_ok
  obtain ⟨cleanup, s4, ⟨hitems, n, rfl⟩, h8⟩ := bind_ok h6 enqueueRemoved_ok
  obtain ⟨rfl, rfl⟩ := pure_eq_ok.mp h8
  simp only at hdis hdel
  rw [hdis, removed_requests] at hitems
  refine ⟨rfl, { Applies.none s with
    locations := ht
    pending := by simp [promoting]
    queue := queue_perm hitems
    stripes := fun f => ?_ }⟩
  rw [hq f, hdel, total_cleared]
  simp only [promoting, Ledger.copiesOf]
  ring

/-- A copy of the key is newer than the intent. -/
def Ledger.supersedes (s : Ledger) (p : PendingObject) : Prop :=
  ∃ l ∈ s.copiesOf [p.objectKey], l.createdAt ≠ 0 ∧ p.createdAt < l.createdAt

theorem intentSuperseded_iff :
    intentSuperseded ((s.copiesOf [p.objectKey]).map ObjectLocation.existing) p.createdAt = true ↔
      s.supersedes p := by
  simp only [intentSuperseded, any_eq_true, mem_map, exists_exists_and_eq_and, decide_eq_true_eq]
  exact Iff.rfl

def Ledger.recordedAt (s : Ledger) (p : PendingObject) : Prop :=
  ∃ l ∈ s.copiesOf [p.objectKey], l.backendName = p.backendName ∧ l.storageKey = p.storageKey

theorem recordedAt_iff : (((s.copiesOf [p.objectKey]).map ObjectLocation.existing).any fun ec =>
      decide (ec.backendName = p.backendName ∧ ec.storageKey = p.storageKey)) = true ↔
      s.recordedAt p := by
  simp only [any_eq_true, mem_map, exists_exists_and_eq_and, decide_eq_true_eq]
  exact Iff.rfl

/-- **A promotion** does nothing with an intent that is gone, keeps or drops a companion, drops a
superseded intent, and else replaces the key's copies. -/
theorem promotePendingTx_ok {r : PromoteOutcome} (h : promotePendingTx tx p s = .ok (r, s')) :
    (¬ s.holdsAll [p.intentID] ∧ r.result = .alreadyResolved ∧ s' = s) ∨
    (s.holdsAll [p.intentID] ∧ ((p.isCompanion = true ∧ s.recordedAt p ∧ r.result = .companionKept ∧
          Applies (forgetting p.intentID) s s') ∨
       (p.isCompanion = true ∧ ¬ s.recordedAt p ∧ r.result = .companionDiscarded ∧
          Applies (dropping p cleanupReasonCompanionDiscarded) s s') ∨
       (p.isCompanion = false ∧ s.supersedes p ∧ r.result = .superseded ∧
          Applies (dropping p cleanupReasonSupersededIntent) s s') ∨
       (p.isCompanion = false ∧ ¬ s.supersedes p ∧ r.result = .committed ∧
          Applies (promoting tx s p) s s'))) := by
  rcases held_cases h with ⟨hn, h⟩ | ⟨hh, h⟩
  · obtain ⟨rfl, rfl⟩ := pure_eq_ok.mp h
    exact .inl ⟨hn, rfl, rfl⟩
  refine .inr ⟨hh, ?_⟩
  obtain ⟨existing, s1, ⟨rfl, rfl⟩, h2⟩ := bind_ok h getExistingCopiesForUpdate_ok
  split_ifs at h2 with hcomp hsup
  · unfold resolveCompanion at h2
    split_ifs at h2 with hrec
    · obtain ⟨_, h3, rfl⟩ := bind_pure_ok h2
      exact .inl ⟨hcomp, recordedAt_iff.mp hrec, rfl, deletePending_effect (mapError_eq_ok.mp h3)⟩
    · obtain ⟨cleanup, h3, rfl⟩ := bind_pure_ok h2
      have hrec : ¬ s1.recordedAt p := fun hr => hrec (recordedAt_iff.mpr hr)
      exact .inr (.inl ⟨hcomp, hrec, rfl, dropIntent_effect h3⟩)
  · obtain ⟨cleanup, h3, rfl⟩ := bind_pure_ok h2
    exact .inr (.inr (.inl ⟨by simpa using hcomp, intentSuperseded_iff.mp hsup, rfl,
      dropIntent_effect h3⟩))
  · have hsup : ¬ s1.supersedes p := fun hs => hsup (intentSuperseded_iff.mpr hs)
    obtain ⟨hr, happ⟩ := commitPromotion_ok h2
    exact .inr (.inr (.inr ⟨by simpa using hcomp, hsup, hr, happ⟩))

theorem insertPendingIfFits_effect {accepts : BackendFlags} {b : Bool}
    (h : tx.insertPendingIfFits p accepts s = .ok (b, s')) :
    (b = false ∧ s' = s) ∨ (b = true ∧ s.fits p accepts = true ∧
        (∀ q ∈ s.pendingObjects.rows, q.intentID ≠ p.intentID) ∧
        Applies (claiming [tx.pendingRow p]) s s') := by
  obtain ⟨hb, ⟨rfl, rfl⟩ | ⟨rfl, t, hnew, ht, rfl⟩⟩ := insertPendingIfFits_ok h
  · exact .inl ⟨rfl, rfl⟩
  · exact .inr ⟨rfl, hb.symm, hnew, { Applies.none s with
      pending := by simpa [claiming] using ht }⟩

theorem claimInRankOrder_induct {accepts : BackendFlags} (P : Ledger → Prop)
    {ranked : List String} {intents : List PendingObject} {out : CopyClaims}
    (hstep : ∀ p ∈ intents, ∀ name s s' b, P s →
      tx.insertPendingIfFits { p with backendName := name } accepts s = .ok (b, s') → P s')
    (hP : P s) (h : claimInRankOrder tx accepts intents ranked s = .ok (out, s')) : P s' := by
  induction ranked generalizing s intents out with
  | nil => cases intents <;> exact (pure_eq_ok.mp h).2 ▸ hP
  | cons name ranked ih =>
    cases intents with
    | nil => exact (pure_eq_ok.mp h).2 ▸ hP
    | cons p intents =>
      obtain ⟨fits, s1, h1, h2⟩ := bind_eq_ok.mp h
      have hP1 := hstep p mem_cons_self _ _ _ _ hP (mapError_eq_ok.mp h1)
      cases fits with
      | true =>
        obtain ⟨out', s2, h3, h4⟩ := bind_eq_ok.mp h2
        obtain ⟨_, rfl⟩ := pure_eq_ok.mp h4
        exact ih (fun q hq => hstep q (mem_cons_of_mem _ hq)) hP1 h3
      | false =>
        -- The candidate that declined leaves its name on the intent; the next overwrites it.
        obtain ⟨out', s2, h3, h4⟩ := bind_eq_ok.mp h2
        obtain ⟨_, rfl⟩ := pure_eq_ok.mp h4
        refine ih (fun q hq => ?_) hP1 h3
        rcases mem_cons.mp hq with rfl | hq
        · exact hstep p mem_cons_self
        · exact hstep q (mem_cons_of_mem _ hq)

end Intents

/-! ## Placements and imports -/

section Placements

variable {p : Placement} {r : PlaceOutcome}

theorem refuse_ok {refusal : StoreError} (h : p.refuse tx refusal s = .ok (r, s')) :
    r.refusal = some refusal ∧ Applies (dropping p.intent p.reasons.orphan) s s' := by
  obtain ⟨cleanup, h1, rfl⟩ := bind_pure_ok h
  exact ⟨rfl, dropIntent_effect h1⟩

theorem total_moved {src : ObjectLocation} (hsrc : src ∈ s.objectLocations.rows)
    (hkey : (p.placedCopy src).objectKey = src.objectKey) (f : StripeRow → Bool) :
    total (fun b => f ⟨b, stripeFor src.objectKey⟩) (p.deltas src) =
      storedOn f (placing tx p src).recorded -
        storedOn f (s.objectLocations.rows.filter (placing tx p src).removed) := by
  have hplaced : storedOn f (placing tx p src).recorded =
      if f ⟨(p.placedCopy src).backendName, stripeFor src.objectKey⟩
        then (p.placedCopy src).sizeBytes else 0 := by
    rw [← hkey]
    exact storedOn_singleton _ _
  unfold Placement.deltas
  rw [total_add, hplaced]
  cases hmove : p.removeSource with
  | true =>
    have hrows : s.objectLocations.rows.filter (placing tx p src).removed = [src] := by
      rw [← filter_slot hsrc]
      simp [placing, hmove]
    rw [if_pos rfl, total_add, total_empty, hrows, storedOn_singleton]
    split_ifs <;> ring
  | false =>
    have hrows : s.objectLocations.rows.filter (placing tx p src).removed = [] := by
      simp [placing, hmove]
    rw [hrows, storedOn_nil, if_neg (by simp), total_empty]
    ring

theorem placedCopy_objectKey (p : Placement) (src : ObjectLocation) :
    (p.placedCopy src).objectKey = src.objectKey := by
  unfold Placement.placedCopy
  split_ifs <;> rfl

theorem placedCopy_address (p : Placement) (src : ObjectLocation) :
    (p.placedCopy src).backendName = p.intent.backendName ∧
      (p.placedCopy src).storageKey = p.intent.storageKey := by
  unfold Placement.placedCopy
  split_ifs <;> exact ⟨rfl, rfl⟩

theorem placedCopy_createdAt (p : Placement) (src : ObjectLocation) :
    (p.placedCopy src).createdAt = src.createdAt := by
  unfold Placement.placedCopy
  split_ifs <;> rfl

theorem commit_placement_ok {src : ObjectLocation} {s0 : Ledger}
    (hsrc : src ∈ s0.objectLocations.rows)
    (h : (do mapError (wrapError "delete placed intent") (tx.deletePending p.intent.intentID)
             p.commit tx src) s0 = .ok (r, s')) :
    r.refusal = none ∧ Applies (placing tx p src) s0 s' := by
  obtain ⟨_, s1, rfl, h2⟩ := bind_mapError_ok h deletePending_ok
  obtain ⟨cleanup, s2, h3, h4⟩ := bind_eq_ok.mp h2
  obtain ⟨_, s3, ⟨t, _, ht, rfl⟩, h6⟩ := bind_mapError_ok h4 insertObjectLocation_ok
  obtain ⟨_, s4, ⟨q, rfl, hq⟩, h8⟩ := bind_ok h6 chargeStripes_ok
  obtain ⟨rfl, rfl⟩ := pure_eq_ok.mp h8
  refine ⟨rfl, ?_⟩
  have hstripes : ∀ f, total f q = total f s2.quotaStripes +
      storedOn f (placing tx p src).recorded -
        storedOn f (s0.objectLocations.rows.filter (placing tx p src).removed) := by
    intro f
    rw [hq f, total_moved hsrc (placedCopy_objectKey p src)]
    ring
  -- A move deletes the source row and queues its bytes before the insert.
  unfold Placement.removeMoved at h3
  split_ifs at h3 with hmove
  · obtain ⟨_, s5, rfl, h10⟩ := bind_ok h3 deleteObjectFromBackend_ok
    obtain ⟨hitems, n, rfl⟩ := enqueueRemoved_ok h10
    exact { Applies.none s0 with
      locations := by simpa [placing, hmove] using ht
      pending := by simp [placing]
      queue := by
        simp only [placing, hmove]
        exact queue_perm hitems
      stripes := hstripes }
  · obtain ⟨rfl, rfl⟩ := pure_eq_ok.mp h3
    exact { Applies.none s0 with
      locations := by simpa [placing, hmove] using ht
      pending := by simp [placing]
      queue := by simp [placing, hmove]
      stripes := hstripes }

/-- **A placement** whose intent is gone queues its bytes again; one refused drops its intent; any
other records its copy beside or instead of its source. -/
theorem placeCopyTx_ok (h : placeCopyTx tx p s = .ok (r, s')) :
    (¬ s.holdsAll [p.intent.intentID] ∧ r.refusal = some .errCopyChanged ∧ Applies
          (requeueing p.intent p.source.objectKey cleanupReasonSupersededIntent) s s') ∨
    (s.holdsAll [p.intent.intentID] ∧ r.refusal ≠ none ∧
        Applies (dropping p.intent p.reasons.orphan) s s') ∨
    (s.holdsAll [p.intent.intentID] ∧ r.refusal = none ∧
      ∃ src ∈ s.objectLocations.rows, src.objectKey = p.source.objectKey ∧
        src.backendName = p.source.backendName ∧ src.storageKey = p.source.storageKey ∧
        Applies (placing tx p src) s s') := by
  rcases held_cases h with ⟨hn, h⟩ | ⟨hh, h⟩
  · obtain ⟨cleanup, h1, rfl⟩ := bind_pure_ok h
    exact .inl ⟨hn, rfl, requeue_effect h1⟩
  obtain ⟨existing, s1, ⟨rfl, rfl⟩, h2⟩ := bind_ok h getExistingCopiesForUpdate_ok
  cases hrefusal : p.refusal ((s1.copiesOf [p.source.objectKey]).map ObjectLocation.existing) with
  | some e =>
    rw [hrefusal] at h2
    obtain ⟨hr, happ⟩ := refuse_ok h2
    exact .inr (.inl ⟨hh, by simp [hr], happ⟩)
  | none =>
    rw [hrefusal] at h2
    obtain ⟨found, s2, ⟨hfound, rfl⟩, h4⟩ := bind_ok h2 lockObjectOnBackend_ok
    cases found with
    | none =>
      obtain ⟨hr, happ⟩ := refuse_ok h4
      exact .inr (.inl ⟨hh, by simp [hr], happ⟩)
    | some src =>
      have hsrc := mem_of_find?_eq_some hfound.symm
      have haddr := find?_some hfound.symm
      simp only [decide_eq_true_eq] at haddr
      have hpath : src.storageKey = p.source.storageKey := by
        -- The guard read the same row the lock did: a backend holds one copy of a key.
        unfold Placement.refusal at hrefusal
        cases hrem : removableCopy ((s2.copiesOf [p.source.objectKey]).map
            ObjectLocation.existing) p.source 0 with
        | error e =>
          rw [hrem] at hrefusal
          cases hrefusal
        | ok held =>
          obtain ⟨hcopy, hpath⟩ := removableCopy_ok hrem
          obtain ⟨hmem, hback⟩ := copyOnBackend_some hcopy
          obtain ⟨l, hl, hkey, rfl⟩ := mem_existing hmem
          have hl' := filter_slot hl
          have : src ∈ [l] := by
            rw [← hl', mem_filter]
            refine ⟨hsrc, ?_⟩
            have hback : l.backendName = p.source.backendName := hback
            simp [haddr, hkey, hback]
          rw [mem_singleton.mp this]
          exact hpath
      obtain ⟨hr, happ⟩ := commit_placement_ok hsrc h4
      exact .inr (.inr ⟨hh, hr, src, hsrc, haddr.1, haddr.2, hpath, happ⟩)

theorem importObject_ok {req : ImportObjectRequest} {r : ImportOutcome}
    (h : importObject tx req s = .ok (r, s')) :
    (r ≠ .inserted ∧ s' = s) ∨ (r = .inserted ∧ Applies (importing tx req) s s') := by
  obtain ⟨states, s1, h1, h2⟩ := bind_eq_ok.mp h
  obtain ⟨hst, rfl⟩ := read_eq_ok.mp (of_exec h1)
  cases hstate : states req.key with
  | untracked =>
    rw [hstate] at h2
    obtain ⟨inserted, s2, h3, h4⟩ := bind_eq_ok.mp h2
    rcases insertObjectLocationIfNotExists_ok h3 with ⟨rfl, rfl⟩ | ⟨rfl, t, ht, rfl⟩
    · obtain ⟨rfl, rfl⟩ := pure_eq_ok.mp h4
      exact .inl ⟨by simp, rfl⟩
    · obtain ⟨_, s3, ⟨q, rfl, hq⟩, h6⟩ := bind_ok h4 chargeStripes_ok
      obtain ⟨rfl, rfl⟩ := pure_eq_ok.mp h6
      refine .inr ⟨rfl, { Applies.none s1 with
        locations := by simpa [importing] using ht
        stripes := fun f => ?_ }⟩
      have hrec : storedOn f (importing tx req).recorded =
          if f ⟨req.backend, stripeFor req.key⟩ then req.size else 0 := storedOn_singleton _ _
      rw [hq f, total_add, total_empty, hrec]
      simp [importing, storedOn_nil]
  | recorded | inFlight | pendingCleanup =>
    rw [hstate] at h2
    obtain ⟨rfl, rfl⟩ := pure_eq_ok.mp h2
    exact .inl ⟨by simp, rfl⟩

end Placements

/-! ## Parts -/

theorem lockUploadIdle_ok {uploadID backend : String} {staleBefore : Time}
    (h : lockUploadIdle tx uploadID staleBefore s = .ok (backend, s')) :
    s' = s ∧ (backend = "" ∨
      ∃ m ∈ s.multipartUploads.rows, m.uploadID = uploadID ∧ m.backendName = backend) := by
  obtain ⟨⟨b, heartbeat⟩, s1, ⟨rfl, hrow⟩, h2⟩ := bind_ok h lockMultipartUpload_ok
  simp only at h2
  split_ifs at h2 with hbusy
  · exact absurd h2 (by simp)
  obtain ⟨rfl, rfl⟩ := pure_eq_ok.mp h2
  refine ⟨rfl, ?_⟩
  rcases hrow with ⟨m, hm, hid, hr⟩ | ⟨_, hr⟩
  · cases hr
    exact .inr ⟨m, hm, hid, rfl⟩
  · cases hr
    exact .inl rfl

/-- **A part record replaces the part of its number, or finds its intent gone and queues its
bytes.** -/
theorem recordPart_ok {p : RecordPartParams} {r : PartOutcome}
    (h : recordPart tx p s = .ok (r, s')) :
    (∃ m ∈ s.multipartUploads.rows, m.uploadID = p.uploadID) ∧
    ((¬ s.holdsAll [p.intent.intentID] ∧ r.refusal = some .errIntentLost ∧
        Applies (requeueing p.intent (partPath p.uploadID p.partNumber)
          cleanupReasonSupersededIntent) s s') ∨
     (s.holdsAll [p.intent.intentID] ∧ r.refusal = none ∧ Applies (recordingPart tx p
          (s.multipartParts.rows.find? fun q => samePart q (tx.partRow p))) s s')) := by
  unfold recordPart at h
  split_ifs at h with hnum
  · obtain ⟨backend, s1, ⟨rfl, hup⟩, h2⟩ := bind_ok h lockUploadIdle_ok
    split_ifs at h2 with hb
    · exact absurd h2 (by simp)
    obtain ⟨m, hm, hid, _⟩ := hup.resolve_left hb
    refine ⟨⟨m, hm, hid⟩, ?_⟩
    rcases held_cases h2 with ⟨hn, h3⟩ | ⟨hh, h3⟩
    · obtain ⟨cleanup, h4, rfl⟩ := bind_pure_ok h3
      exact .inl ⟨hn, rfl, requeue_effect h4⟩
    · obtain ⟨replaced, s2, ⟨hrep, rfl⟩, h5⟩ := bind_ok h3 upsertPart_ok
      obtain ⟨_, s3, rfl, h7⟩ := bind_mapError_ok h5 deletePending_ok
      rw [← hrep]
      cases replaced with
      | none =>
        obtain ⟨rfl, rfl⟩ := pure_eq_ok.mp h7
        exact .inr ⟨hh, rfl, { Applies.none s1 with
          pending := by simp [recordingPart]
          parts := by simp [recordingPart]
          queue := by simp [recordingPart] }⟩
      | some q =>
        obtain ⟨cleanup, h8, rfl⟩ := bind_pure_ok h7
        obtain ⟨hitems, n, rfl⟩ := enqueueRemoved_ok h8
        exact .inr ⟨hh, rfl, { Applies.none s1 with
          pending := by simp [recordingPart]
          parts := by simp [recordingPart]
          queue := queue_perm hitems }⟩
  · exact absurd h (by simp)

theorem deleteMultipartUpload_ok {uploadID : String} {staleBefore : Time}
    (h : deleteMultipartUpload tx uploadID reason staleBefore s = .ok (items, s')) :
    s' = s ∨ ∃ m ∈ s.multipartUploads.rows, m.uploadID = uploadID ∧
      Applies (deletingUpload s uploadID m.backendName reason) s s' := by
  obtain ⟨backend, s1, ⟨rfl, hup⟩, h2⟩ := bind_ok h lockUploadIdle_ok
  split_ifs at h2 with hb
  · exact .inl (pure_eq_ok.mp h2).2
  obtain ⟨m, hm, hid, rfl⟩ := hup.resolve_left hb
  refine .inr ⟨m, hm, hid, ?_⟩
  obtain ⟨parts, s2, ⟨rfl, rfl⟩, h4⟩ := bind_ok h2 deleteMultipartUpload_ok
  obtain ⟨hitems, n, rfl⟩ := queueCleanup_ok h4
  exact { Applies.none s1 with
    parts := by simp [deletingUpload]
    uploads := by simp [deletingUpload]
    queue := queue_perm hitems }

end S3Orchestrator
