import Mathlib.Data.List.Perm.Subperm
import S3Orchestrator.Ledger.Op

/-!
# Settling queued deletions

`Settle` is what the cleanup worker, an operator and a reconcile pass do with the rows of the
cleanup queue and of its dead letters. `Settled s s'` says that only these two tables changed, and
that no deletion came up that was not outstanding before; **`apply_settled`** says every settlement
is of this kind.
-/

namespace S3Orchestrator

open RowStore List

/-- The deletions outstanding, queued or dead-lettered. -/
def Ledger.deletions (s : Ledger) : List CleanupRequest :=
  s.cleanupQueue.map CleanupItem.request ++ s.cleanupDLQ.map CleanupDLQItem.request

variable {c : CleanupRequest}

theorem Ledger.holds_congr {s s' : Ledger} (h : s'.pendingObjects = s.pendingObjects) :
    s'.holds = s.holds := by
  unfold Ledger.holds
  rw [h]

theorem Applies.deletions {e : Effect} {s s' : Ledger} (h : Applies e s s') :
    s'.deletions.Perm (s.deletions ++ e.queued) := by
  unfold Ledger.deletions
  rw [h.dlq]
  refine (h.queue.append_right _).trans ?_
  rw [append_assoc, append_assoc]
  exact perm_append_comm.append_left _

/-- A call that settles rows of the cleanup queue or of its dead letters. -/
inductive Settle where
  | complete (items : List CleanupItem)
  | retry (item : CleanupItem) (backoff : Nat) (lastError : String)
  | moveToDLQ (item : CleanupItem) (lastError : String)
  | requeueDLQ (backend : String)
  | sweep (storageKey backend : String)

/-- The ledger after the call. -/
def Settle.apply (tx : TxAdapter) (s : Ledger) : Settle → Ledger
  | .complete items => (completeCleanupItems tx items).commit s
  | .retry item backoff lastError => (retryCleanupItem tx item backoff lastError).commit s
  | .moveToDLQ item lastError => (moveCleanupToDLQ tx item lastError).commit s
  | .requeueDLQ backend => (requeueCleanupDLQ tx backend).commit s
  | .sweep storageKey backend => (sweepStaleCleanupQueueRows tx storageKey backend).commit s

/-- The settlement ends a queued deletion: it completes the row under the claim on it, or sweeps its
path. -/
def Settle.ends (s : Ledger) (c : CleanupRequest) (st : Settle) : Prop :=
  ∃ row ∈ s.cleanupQueue, row.request = c ∧
    match st with
    | .complete items => ∃ item ∈ items, row.heldUnder item = true
    | .sweep storageKey backend => c.storageKey = storageKey ∧ c.backendName = backend
    | _ => False

/-- Only the outstanding deletions changed, and none is new. -/
structure Settled (s s' : Ledger) : Prop where
  rest : s' = { s with
    cleanupQueue := s'.cleanupQueue
    nextCleanupID := s'.nextCleanupID
    cleanupDLQ := s'.cleanupDLQ }
  deletions : s'.deletions.Subperm s.deletions

namespace Settled

variable {s s₁ s₂ : Ledger}

theorem refl (s : Ledger) : Settled s s := ⟨rfl, List.Subperm.refl _⟩

theorem trans (h1 : Settled s s₁) (h2 : Settled s₁ s₂) : Settled s s₂ := by
  refine ⟨?_, h2.deletions.trans h1.deletions⟩
  rw [h2.rest, h1.rest]

theorem of_perm (hrest : s₁ = { s with
      cleanupQueue := s₁.cleanupQueue
      nextCleanupID := s₁.nextCleanupID
      cleanupDLQ := s₁.cleanupDLQ }) (h : s₁.deletions.Perm s.deletions) :
    s₁.deletions.Perm s.deletions ∧ Settled s s₁ := ⟨h, hrest, h.subperm⟩

theorem filterQueue (s : Ledger) (keep : CleanupItem → Bool) :
    Settled s { s with cleanupQueue := s.cleanupQueue.filter keep } :=
  ⟨rfl, (List.Sublist.append (filter_sublist.map _) (List.Sublist.refl _)).subperm⟩

section

variable (h : Settled s s₁)
include h

theorem locations : s₁.objectLocations = s.objectLocations := by rw [h.rest]

theorem pending : s₁.pendingObjects = s.pendingObjects := by rw [h.rest]

theorem parts : s₁.multipartParts = s.multipartParts := by rw [h.rest]

theorem uploads : s₁.multipartUploads = s.multipartUploads := by rw [h.rest]

theorem quotas : s₁.backendQuotas = s.backendQuotas := by rw [h.rest]

theorem stripes : s₁.quotaStripes = s.quotaStripes := by rw [h.rest]

end

end Settled

section Settlements

variable {tx : TxAdapter} {s s' : Ledger} {u : Unit}

theorem mem_deletions_filterQueue {keep : CleanupItem → Bool}
    (hc : c ∈ s.deletions) :
    c ∈ { s with cleanupQueue := s.cleanupQueue.filter keep }.deletions ∨
      ∃ row ∈ s.cleanupQueue, row.request = c ∧ keep row = false := by
  rcases mem_append.mp hc with hq | hd
  · obtain ⟨row, hrow, rfl⟩ := mem_map.mp hq
    cases hkeep : keep row with
    | false => exact .inr ⟨row, hrow, rfl, hkeep⟩
    | true => exact .inl (mem_append_left _ (mem_map_of_mem (mem_filter.mpr ⟨hrow, hkeep⟩)))
  · exact .inl (mem_append_right _ hd)

theorem completeCleanupItems_settled {items : List CleanupItem}
    (h : completeCleanupItems tx items s = .ok (u, s')) : Settled s s' := by
  refine Tx.forEach_induct (fun _ s₁ => Settled s s₁) ?_ items [] s s' u (Settled.refl s) h
  intro done item s₁ s₂ hs h1
  have h2 := TxAdapter.of_exec h1
  obtain rfl := Tx.edit_eq_ok.mp h2
  exact hs.trans (Settled.filterQueue s₁ _)

theorem completeCleanupItems_ends {items : List CleanupItem}
    (h : completeCleanupItems tx items s = .ok (u, s'))
    (hc : c ∈ s.deletions) : c ∈ s'.deletions ∨ (Settle.complete items).ends s c := by
  -- The rows left are of the queue the call started from.
  refine (Tx.forEach_induct (fun done s₁ => (∀ row ∈ s₁.cleanupQueue, row ∈ s.cleanupQueue) ∧
    (c ∈ s₁.deletions ∨ (Settle.complete done).ends s c)) ?_ items [] s s' u
    ⟨fun _ hrow => hrow, .inl hc⟩ h).2
  rintro done item s₁ s₂ ⟨hold, hkept⟩ h1
  obtain rfl := Tx.edit_eq_ok.mp (TxAdapter.of_exec h1)
  refine ⟨fun row hrow => hold row (mem_of_mem_filter hrow), ?_⟩
  rcases hkept with hkept | ⟨row, hrow, hreq, held, hheld, hunder⟩
  · refine (mem_deletions_filterQueue hkept).imp_right ?_
    rintro ⟨row, hrow, hreq, hgone⟩
    exact ⟨row, hold row hrow, hreq, item, mem_append_right _ mem_cons_self, by simpa using hgone⟩
  · exact .inr ⟨row, hrow, hreq, held, mem_append_left _ hheld, hunder⟩

theorem sweepStaleCleanupQueueRows_settled {storageKey backend : String}
    (h : sweepStaleCleanupQueueRows tx storageKey backend s = .ok (u, s')) : Settled s s' := by
  have h1 := TxAdapter.of_exec h
  obtain rfl := Tx.edit_eq_ok.mp h1
  exact Settled.filterQueue s _

theorem retryCleanupItem_settled {item : CleanupItem} {backoff : Nat} {lastError : String}
    (h : retryCleanupItem tx item backoff lastError s = .ok (u, s')) :
    s'.deletions.Perm s.deletions ∧ Settled s s' := by
  have h1 := TxAdapter.of_exec h
  obtain rfl := Tx.edit_eq_ok.mp h1
  refine Settled.of_perm rfl (List.Perm.of_eq ?_)
  have hreq : ∀ row : CleanupItem, (if row.heldUnder item then
      { row with attempts := row.attempts + 1, nextRetry := tx.now + backoff,
                 lastError := lastError, claim := none } else row).request = row.request := by
    intro row
    split_ifs <;> rfl
  simp only [Ledger.deletions, map_map]
  congr 1
  exact map_congr_left fun row _ => hreq row

theorem moveCleanupToDLQ_settled {item : CleanupItem} {lastError : String}
    (h : moveCleanupToDLQ tx item lastError s = .ok (u, s')) :
    s'.deletions.Perm s.deletions ∧ Settled s s' := by
  have h1 := TxAdapter.of_exec h
  obtain rfl := Tx.edit_eq_ok.mp h1
  refine Settled.of_perm rfl ?_
  -- The dead letters carry the requests of the rows they replace.
  have hdead : ((s.cleanupQueue.filter fun row => row.heldUnder item).map
      (CleanupItem.deadLetter tx lastError)).map CleanupDLQItem.request =
      (s.cleanupQueue.filter fun row => row.heldUnder item).map CleanupItem.request := by
    rw [map_map]
    rfl
  have hsplit := (filter_append_perm (fun row => row.heldUnder item) s.cleanupQueue).map
    CleanupItem.request
  simp only [Ledger.deletions, map_append, hdead] at hsplit ⊢
  refine List.Perm.trans ?_ (hsplit.append_right _)
  refine (perm_append_comm.append_left _).trans ?_
  rw [← append_assoc]
  refine (perm_append_comm.append_right _).trans ?_
  rw [append_assoc]

theorem requeued_requests (tx : TxAdapter) (id : Nat) (ds : List CleanupDLQItem) :
    (requeued tx id ds).map CleanupItem.request = ds.map CleanupDLQItem.request := by
  induction ds generalizing id with
  | nil => rfl
  | cons d ds ih => rw [requeued, map_cons, map_cons, ih]

theorem requeueCleanupDLQ_settled {backend : String}
    (h : requeueCleanupDLQ tx backend s = .ok (u, s')) :
    s'.deletions.Perm s.deletions ∧ Settled s s' := by
  have h1 := TxAdapter.of_exec h
  obtain rfl := Tx.edit_eq_ok.mp h1
  refine Settled.of_perm rfl ?_
  have hsplit := (filter_append_perm
    (fun d : CleanupDLQItem => decide (backend = "" ∨ d.request.backendName = backend))
    s.cleanupDLQ).map CleanupDLQItem.request
  simp only [Ledger.deletions, map_append, requeued_requests, append_assoc] at hsplit ⊢
  exact hsplit.append_left _

theorem apply_settled (tx : TxAdapter) (s : Ledger) (st : Settle) : Settled s (st.apply tx s) := by
  have hcommit : ∀ x : LedgerTx Unit, (∀ u s', x s = .ok (u, s') → Settled s s') →
      Settled s (x.commit s) := by
    intro x hx
    rcases Tx.commit_cases x s with h | ⟨u, h⟩
    · rw [h]
      exact Settled.refl s
    · exact hx u _ h
  cases st with
  | complete items => exact hcommit _ fun _ _ => completeCleanupItems_settled
  | retry item backoff lastError => exact hcommit _ fun _ _ h => (retryCleanupItem_settled h).2
  | moveToDLQ item lastError => exact hcommit _ fun _ _ h => (moveCleanupToDLQ_settled h).2
  | requeueDLQ backend => exact hcommit _ fun _ _ h => (requeueCleanupDLQ_settled h).2
  | sweep storageKey backend => exact hcommit _ fun _ _ => sweepStaleCleanupQueueRows_settled

theorem deletions_kept_or_ends (tx : TxAdapter) (st : Settle)
    (hc : c ∈ s.deletions) : c ∈ (st.apply tx s).deletions ∨ st.ends s c := by
  have hcommit : ∀ x : LedgerTx Unit,
      (∀ u s', x s = .ok (u, s') → c ∈ s'.deletions ∨ st.ends s c) →
      c ∈ (x.commit s).deletions ∨ st.ends s c := by
    intro x hx
    rcases Tx.commit_cases x s with h | ⟨u, h⟩
    · rw [h]
      exact .inl hc
    · exact hx u _ h
  cases st with
  | complete items => exact hcommit _ fun _ _ h => completeCleanupItems_ends h hc
  | retry item backoff lastError =>
    exact hcommit _ fun _ _ h => .inl ((retryCleanupItem_settled h).1.mem_iff.mpr hc)
  | moveToDLQ item lastError =>
    exact hcommit _ fun _ _ h => .inl ((moveCleanupToDLQ_settled h).1.mem_iff.mpr hc)
  | requeueDLQ backend =>
    exact hcommit _ fun _ _ h => .inl ((requeueCleanupDLQ_settled h).1.mem_iff.mpr hc)
  | sweep storageKey backend =>
    refine hcommit _ fun _ _ h => ?_
    obtain rfl := Tx.edit_eq_ok.mp (TxAdapter.of_exec h)
    refine (mem_deletions_filterQueue hc).imp_right ?_
    rintro ⟨row, hrow, rfl, hgone⟩
    exact ⟨row, hrow, rfl, by simpa using hgone⟩

end Settlements

end S3Orchestrator
