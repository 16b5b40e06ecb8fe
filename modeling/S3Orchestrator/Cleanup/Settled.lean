import S3Orchestrator.Cleanup.Sound

/-!
# Every queued deletion is settled once

* **`Cleanups.settled_once`**.
-/

namespace S3Orchestrator

open RowStore List

namespace Cleanups

variable {s : Cleanups} {a : CleanupAct} {tx : TxAdapter}

/-! ## Deletions that leave and deletions that come up -/

structure Moves (s : Cleanups) (a : CleanupAct) : Prop where
  leaves : ∀ t ∈ s.tickets, t ∉ (s.step a).tickets → s.Departs a t
  fresh : ∀ t ∈ (s.step a).tickets, t ∉ s.tickets → s.ledger.nextCleanupID ≤ t ∧
    t < (s.step a).ledger.nextCleanupID

theorem Moves.of_perm (h : (s.step a).tickets.Perm s.tickets) : Moves s a where
  leaves _ ht hgone := absurd (h.mem_iff.mpr ht) hgone
  fresh _ ht hnew := absurd (h.mem_iff.mp ht) hnew

theorem Moves.of_filter {p : CleanupItem → Bool} {q : CleanupDLQItem → Bool}
    (hqueue : (s.step a).ledger.cleanupQueue = s.ledger.cleanupQueue.filter p)
    (hdlq : (s.step a).ledger.cleanupDLQ = s.ledger.cleanupDLQ.filter q)
    (hticket : (s.step a).ticket = s.ticket)
    (hp : ∀ row ∈ s.ledger.cleanupQueue, p row = false → s.Departs a (s.ticket row.id))
    (hq : ∀ d ∈ s.ledger.cleanupDLQ, q d = false → s.Departs a (s.ticket d.originalID)) :
    Moves s a where
  leaves t ht hgone := by
    rw [mem_tickets, hqueue, hdlq, hticket] at hgone
    push Not at hgone
    rcases mem_tickets.mp ht with ⟨row, hrow, rfl⟩ | ⟨d, hd, rfl⟩
    · refine hp row hrow (Bool.eq_false_iff.mpr fun hkept => ?_)
      exact hgone.1 row (mem_filter.mpr ⟨hrow, hkept⟩) rfl
    · refine hq d hd (Bool.eq_false_iff.mpr fun hkept => ?_)
      exact hgone.2 d (mem_filter.mpr ⟨hd, hkept⟩) rfl
  fresh t ht hnew := by
    rw [mem_tickets, hqueue, hdlq, hticket] at ht
    refine absurd (mem_tickets.mpr ?_) hnew
    rcases ht with ⟨row, hrow, he⟩ | ⟨d, hd, he⟩
    · exact .inl ⟨row, mem_of_mem_filter hrow, he⟩
    · exact .inr ⟨d, mem_of_mem_filter hd, he⟩

theorem Moves.of_same (h : s.step a = s) : Moves s a := Moves.of_perm (by rw [h])

theorem moves_transact (h : s.Sound) (op : Op) : Moves s (.transact tx op) := by
  obtain ⟨cs, hqueue, hnext, hdlq⟩ := Op.grows tx s.ledger op
  have hperm := tickets_grown h (s.step (.transact tx op)).read hqueue hdlq
  refine ⟨fun t ht hgone => ?_, fun t ht hnew => ?_⟩
  · exact absurd (hperm.mem_iff.mpr (mem_append_left _ ht)) hgone
  · rcases mem_append.mp (hperm.mem_iff.mp ht) with hold | hrange
    · exact absurd hold hnew
    · obtain ⟨hle, hlt⟩ := mem_range'_1.mp hrange
      exact ⟨hle, hnext ▸ hlt⟩

theorem moves_claim (limit : Nat) (graceCutoff claimedAt : Time) :
    Moves s (.claim tx limit graceCutoff claimedAt) := by
  refine Moves.of_perm (List.Perm.of_eq ?_)
  rw [step]
  split
  · rename_i items ledger hok
    rw [(claimPendingCleanups_ok hok).2]
    exact tickets_update (fun row => by split_ifs <;> rfl) _
  · rfl

theorem moves_retry (item : CleanupItem) (backoff : Nat) (err : String) :
    Moves s (.settle tx (.retry item backoff err)) := by
  rcases Tx.commit_cases (retryCleanupItem tx item backoff err) s.ledger with hsame | ⟨u, hok⟩
  · exact Moves.of_same (congrArg (fun l => { s with ledger := l }) hsame)
  · refine Moves.of_perm (List.Perm.of_eq ?_)
    change (Cleanups.mk ((retryCleanupItem tx item backoff err).commit s.ledger) s.read
      s.ticket).tickets = s.tickets
    rw [retryCleanupItem_ok hok]
    exact tickets_update (fun row => by split_ifs <;> rfl) _

theorem moves_moveToDLQ (item : CleanupItem) (err : String) :
    Moves s (.settle tx (.moveToDLQ item err)) := by
  rcases Tx.commit_cases (moveCleanupToDLQ tx item err) s.ledger with hsame | ⟨u, hok⟩
  · exact Moves.of_same (congrArg (fun l => { s with ledger := l }) hsame)
  · have hedit := Tx.edit_eq_ok.mp (TxAdapter.of_exec hok)
    exact Moves.of_perm (tickets_dead (fun row => row.heldUnder item)
      (congrArg Ledger.cleanupQueue hedit) (congrArg Ledger.cleanupDLQ hedit))

theorem moves_requeueDLQ (h : s.Sound) (backend : String) :
    Moves s (.settle tx (.requeueDLQ backend)) := by
  refine Moves.of_perm ?_
  rw [step]
  split
  · rename_i u ledger hok
    exact tickets_requeued h hok
  · exact List.Perm.refl _

theorem moves_complete (items : List CleanupItem) : Moves s (.settle tx (.complete items)) := by
  rcases Tx.commit_cases (completeCleanupItems tx items) s.ledger with hsame | ⟨u, hok⟩
  · exact Moves.of_same (congrArg (fun l => { s with ledger := l }) hsame)
  · have hedit := completeCleanupItems_ok hok
    refine Moves.of_filter (q := fun _ => true) (congrArg Ledger.cleanupQueue hedit) ?_ rfl
      (fun row hrow hgone => ?_) (fun d _ hgone => by cases hgone)
    · rw [filter_true]
      exact (congrArg Ledger.cleanupDLQ hedit).trans rfl
    · rw [Bool.not_eq_false', any_eq_true] at hgone
      obtain ⟨item, hitem, hheld⟩ := hgone
      exact .completed hrow hitem hheld

theorem moves_sweep (storageKey backend : String) :
    Moves s (.settle tx (.sweep storageKey backend)) := by
  rcases Tx.commit_cases (sweepStaleCleanupQueueRows tx storageKey backend) s.ledger with
    hsame | ⟨u, hok⟩
  · exact Moves.of_same (congrArg (fun l => { s with ledger := l }) hsame)
  · have hedit := Tx.edit_eq_ok.mp (TxAdapter.of_exec hok)
    refine Moves.of_filter (q := fun _ => true) (congrArg Ledger.cleanupQueue hedit) ?_ rfl
      (fun row hrow hgone => ?_) (fun d _ hgone => by cases hgone)
    · rw [filter_true]
      exact (congrArg Ledger.cleanupDLQ hedit).trans rfl
    · have hpath : row.request.storageKey = storageKey ∧ row.request.backendName = backend := by
        simpa using hgone
      obtain ⟨rfl, rfl⟩ := hpath
      exact .swept hrow

theorem moves_deleteBackendData (backend : String) : Moves s (.deleteBackendData tx backend) := by
  rcases Tx.commit_cases (S3Orchestrator.deleteBackendData tx backend) s.ledger with
    hsame | ⟨u, hok⟩
  · exact Moves.of_same (congrArg (fun l => { s with ledger := l }) hsame)
  · have hedit := deleteBackendData_ok hok
    refine Moves.of_filter (congrArg Ledger.cleanupQueue hedit) (congrArg Ledger.cleanupDLQ hedit)
      rfl (fun row hrow hgone => ?_) (fun d hd hgone => ?_)
    · obtain rfl : row.request.backendName = backend := by simpa using hgone
      exact .removed hrow
    · obtain rfl : d.request.backendName = backend := by simpa using hgone
      exact .removedDead hd

theorem Sound.moves (h : s.Sound) (a : CleanupAct) : Moves s a := by
  cases a with
  | transact tx op => exact moves_transact h op
  | claim tx limit graceCutoff claimedAt => exact moves_claim limit graceCutoff claimedAt
  | deleteBackendData tx backend => exact moves_deleteBackendData backend
  | settle tx st =>
    cases st with
    | complete items => exact moves_complete items
    | retry item backoff err => exact moves_retry item backoff err
    | moveToDLQ item err => exact moves_moveToDLQ item err
    | requeueDLQ backend => exact moves_requeueDLQ h backend
    | sweep storageKey backend => exact moves_sweep storageKey backend

/-! ## Rows that change -/

theorem row_current {st : Settle} (hst : settles st = true) {row : CleanupItem}
    (hrow : row ∈ s.ledger.cleanupQueue)
    (hchanged : row ∉ (s.step (.settle tx st)).ledger.cleanupQueue) :
    ∃ item ∈ named st, item.id = row.id ∧ item.claim = row.claim ∧ row.claim ≠ none := by
  have hitem : ∃ item ∈ named st, row.heldUnder item = true := by
    by_contra hnone
    push Not at hnone
    refine hchanged ?_
    -- A call that names no row it holds, like one that fails, leaves the row where it is.
    have hkept : ∀ x : LedgerTx Unit,
        (∀ u ledger, x s.ledger = .ok (u, ledger) → row ∈ ledger.cleanupQueue) →
        row ∈ (x.commit s.ledger).cleanupQueue := fun x =>
      Tx.commit_induct (P := fun ledger : Ledger => row ∈ ledger.cleanupQueue) hrow
    cases st with
    | complete items =>
      refine hkept (completeCleanupItems tx items) fun u ledger hok => ?_
      rw [completeCleanupItems_ok hok]
      refine mem_filter.mpr ⟨hrow, ?_⟩
      simpa [named] using hnone
    | retry item backoff err =>
      refine hkept (retryCleanupItem tx item backoff err) fun u ledger hok => ?_
      rw [retryCleanupItem_ok hok]
      exact mem_map.mpr ⟨row, hrow, if_neg (hnone item (mem_singleton_self item))⟩
    | moveToDLQ item err =>
      refine hkept (moveCleanupToDLQ tx item err) fun u ledger hok => ?_
      rw [Tx.edit_eq_ok.mp (TxAdapter.of_exec hok)]
      refine mem_filter.mpr ⟨hrow, ?_⟩
      simpa using hnone item (mem_singleton_self item)
    | requeueDLQ backend | sweep storageKey backend => cases hst
  obtain ⟨item, hmem, hheld⟩ := hitem
  obtain ⟨hid, hclaim, hsome⟩ := heldUnder_iff.mp hheld
  exact ⟨item, hmem, hid.symm, hclaim.symm, hsome⟩

theorem row_spent (h : s.Sound) (limit : Nat) (graceCutoff claimedAt : Time) {row : CleanupItem}
    (hrow : row ∈ s.ledger.cleanupQueue) (hspent : maxCleanupAttempts ≤ row.attempts) :
    row ∈ (s.step (.claim tx limit graceCutoff claimedAt)).ledger.cleanupQueue := by
  rw [step]
  split
  · rename_i items ledger hok
    rw [(claimPendingCleanups_ok hok).2]
    refine mem_map.mpr ⟨row, hrow, if_neg fun hsel => ?_⟩
    obtain ⟨row', hrow', hid⟩ := mem_map.mp hsel
    obtain ⟨hmem, hbelow⟩ := mem_claimableRows hrow'
    obtain rfl := h.row_eq hmem hrow hid
    omega
  · exact hrow

/-! ## Runs -/

theorem Sound.settledOnce (h : s.Sound) (hlawful : s.Lawful a) : SettledOnce s a where
  current := by
    rintro tx st rfl hst row hrow hchanged
    exact row_current hst hrow hchanged
  once := (h.step hlawful).once
  leaves := (h.moves a).leaves
  fresh := (h.moves a).fresh
  ceiling := ⟨fun row hrow => ((h.step hlawful).queued_below row hrow).le,
    fun d hd => ((h.step hlawful).dead_below d hd).le⟩
  spent := by
    rintro tx limit graceCutoff claimedAt rfl row hrow hspent
    exact row_spent h limit graceCutoff claimedAt hrow hspent

/-- **In every interleaving of the instances' calls, each call settles what it may and nothing
else.** -/
theorem settled_once (quotas : Table BackendQuota sameBackend) (run : List CleanupAct)
    (h : Along step Lawful (start quotas) run) : Along step SettledOnce (start quotas) run :=
  h.of_invariant (sound_start quotas) (fun _ _ hs ha => hs.step ha) fun _ _ hs ha =>
    hs.settledOnce ha

def queuedRow : CleanupItem where
  request := ⟨"b", "k", "k-1", cleanupReasonDeleted, 1⟩
  id := 1
  claim := some ⟨2, "x"⟩
  createdAt := 2
  nextRetry := 2

/-- One instance writes and deletes an object, another takes the queued row over, the first one's
failed delete comes late, and the second retires the row. -/
def takenOver : List CleanupAct :=
  [.transact ⟨"x", 1, fun _ _ => false⟩
      (.recordObject { key := "k", size := 1, copies := [⟨"b", "", "k-1"⟩] }),
    .transact ⟨"x", 2, fun _ _ => false⟩ (.deleteObjectsBatch ["k"]),
    .claim ⟨"y", 100, fun _ _ => false⟩ 10 50 100,
    .settle ⟨"x", 101, fun _ _ => false⟩ (Settler.fail queuedRow "timeout"),
    .settle ⟨"y", 102, fun _ _ => false⟩ (.complete [queuedRow.claimedBy "y" 100])]

theorem takenOver_settled : Along step Lawful (start soloQuota) takenOver ∧
    Along step SettledOnce (start soloQuota) takenOver ∧
      (after step (start soloQuota) takenOver).ledger.cleanupQueue = [] := by
  have hlawful : Along step Lawful (start soloQuota) takenOver := by
    refine ⟨trivial, trivial, ?_, ?_, ?_, trivial⟩
    · unfold Lawful
      decide +kernel
    · refine ⟨fun _ => some (.failed "timeout"), [queuedRow], by decide +kernel, ?_⟩
      simp [Settler.calls, Settler.failing]
    · refine ⟨fun _ => some .deleted, [queuedRow.claimedBy "y" 100], by decide +kernel, ?_⟩
      simp [Settler.calls, Settler.gone, Deletion.gone]
  exact ⟨hlawful, settled_once soloQuota takenOver hlawful, by decide +kernel⟩

end Cleanups

end S3Orchestrator
