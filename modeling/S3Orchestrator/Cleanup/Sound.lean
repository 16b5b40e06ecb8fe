import S3Orchestrator.Cleanup.System
import S3Orchestrator.Ledger.Within

/-!
# The invariant of the cleanup queue

Rows keep their ids while they are queued, ids are never given twice, and a settler's call names the
claim it read. The invariant `Cleanups.Sound` adds that a row still held under a claim has the
attempts its holder read, which is why a retry never passes the ceiling.

* **`Cleanups.Sound.step`**.
-/

namespace S3Orchestrator

open RowStore List TxAdapter

variable {id limit : Nat} {row item : CleanupItem} {items : List CleanupItem}

/-! ## What a transaction queues -/

section Queue

variable {tx : TxAdapter} {s s' : Ledger}

def numbered (tx : TxAdapter) : Nat → List CleanupRequest → List CleanupItem
  | _, [] => []
  | id, c :: cs => tx.cleanupRow c id :: numbered tx (id + 1) cs

theorem numbered_append (tx : TxAdapter) (id : Nat) (cs cs' : List CleanupRequest) :
    numbered tx id (cs ++ cs') = numbered tx id cs ++ numbered tx (id + cs.length) cs' := by
  induction cs generalizing id with
  | nil => simp [numbered]
  | cons c cs ih =>
    rw [cons_append, numbered, numbered, ih, cons_append, length_cons]
    congr 3
    omega

theorem map_id_numbered (tx : TxAdapter) (id : Nat) (cs : List CleanupRequest) :
    (numbered tx id cs).map CleanupItem.id = List.range' id cs.length := by
  induction cs generalizing id with
  | nil => rfl
  | cons c cs ih => rw [numbered, map_cons, ih, length_cons, range'_succ]; rfl

theorem attempts_numbered {cs : List CleanupRequest}
    (h : row ∈ numbered tx id cs) : row.attempts = 0 := by
  induction cs generalizing id with
  | nil => cases h
  | cons c cs ih =>
    rcases mem_cons.mp h with rfl | h
    · rfl
    · exact ih h

def Grows (tx : TxAdapter) (s s' : Ledger) : Prop :=
  ∃ cs, s'.cleanupQueue = s.cleanupQueue ++ numbered tx s.nextCleanupID cs ∧
    s'.nextCleanupID = s.nextCleanupID + cs.length ∧ s'.cleanupDLQ = s.cleanupDLQ

theorem Grows.same (hqueue : s'.cleanupQueue = s.cleanupQueue)
    (hnext : s'.nextCleanupID = s.nextCleanupID) (hdlq : s'.cleanupDLQ = s.cleanupDLQ) :
    Grows tx s s' :=
  ⟨[], by simp [numbered, hqueue], by simp [hnext], hdlq⟩

theorem Grows.trans {s1 s2 s3 : Ledger} (h1 : Grows tx s1 s2) (h2 : Grows tx s2 s3) :
    Grows tx s1 s3 := by
  obtain ⟨cs1, hq1, hn1, hd1⟩ := h1
  obtain ⟨cs2, hq2, hn2, hd2⟩ := h2
  refine ⟨cs1 ++ cs2, ?_, ?_, hd2.trans hd1⟩
  · rw [hq2, hq1, hn1, numbered_append, append_assoc]
  · rw [hn2, hn1, length_append, Nat.add_assoc]

theorem insertCleanup_grows (cs : List CleanupRequest) :
    Tx.Within (Grows tx) (tx.insertCleanup cs) := by
  induction cs with
  | nil =>
    intro s items s' h
    obtain ⟨-, rfl⟩ := Tx.pure_eq_ok.mp h
    exact Grows.same rfl rfl rfl
  | cons c cs ih =>
    intro s items s' h
    obtain ⟨_, h1⟩ := of_references (of_exec h)
    have h2 := of_read h1
    have h3 := of_edit h2
    obtain ⟨rest, s1, h4, h5⟩ := Tx.bind_eq_ok.mp h3
    obtain ⟨-, rfl⟩ := Tx.pure_eq_ok.mp h5
    refine Grows.trans ?_ (ih h4)
    exact ⟨[c], rfl, rfl, rfl⟩

theorem grows_admits (tx : TxAdapter) : Admits tx (Grows tx) where
  refl _ := Grows.same rfl rfl rfl
  trans _ _ _ := Grows.trans
  pending _ _ := Grows.same rfl rfl rfl
  locations _ _ := Grows.same rfl rfl rfl
  stripes _ _ := Grows.same rfl rfl rfl
  parts _ _ := Grows.same rfl rfl rfl
  uploads _ _ := Grows.same rfl rfl rfl
  queued := insertCleanup_grows

theorem Op.grows (tx : TxAdapter) (s : Ledger) (op : Op) : Grows tx s (op.apply tx s) := by
  refine (grows_admits tx).op s (fun key tags _ s1 u s2 h => ?_) fun _ keys s1 u s2 h => ?_
  · obtain ⟨t, rfl⟩ := replaceObjectTagsTx_ok h
    exact Grows.same rfl rfl rfl
  · rw [clearTagsForKey_ok h]
    exact Grows.same rfl rfl rfl

end Queue

/-! ## What the other calls do to the two tables -/

section Calls

variable {tx : TxAdapter} {s s' : Ledger} {u : Unit}

theorem completeCleanupItems_ok
    (h : completeCleanupItems tx items s = .ok (u, s')) :
    s' = { s with
      cleanupQueue := s.cleanupQueue.filter fun row => !items.any fun i => row.heldUnder i } := by
  refine Tx.forEach_induct (fun done s1 => s1 = { s with
    cleanupQueue := s.cleanupQueue.filter fun row => !done.any fun i => row.heldUnder i })
    ?_ items [] s s' u ?_ h
  · rintro done item _ s2 rfl h2
    rw [Tx.edit_eq_ok.mp (of_exec h2)]
    congr 1
    simp [any_append, Bool.and_comm]
  · simp

def CleanupItem.retried (tx : TxAdapter) (backoff : Nat) (lastError : String) (row : CleanupItem) :
    CleanupItem :=
  { row with
    attempts := row.attempts + 1
    nextRetry := tx.now + backoff
    lastError := lastError
    claim := none }

theorem retryCleanupItem_ok {backoff : Nat} {lastError : String}
    (h : retryCleanupItem tx item backoff lastError s = .ok (u, s')) :
    s' = { s with cleanupQueue := s.cleanupQueue.map fun row =>
      if row.heldUnder item then row.retried tx backoff lastError else row } :=
  Tx.edit_eq_ok.mp (of_exec h)

theorem claimPendingCleanups_ok {cutoff claimedAt : Time}
    (h : claimPendingCleanups tx limit cutoff claimedAt s = .ok (items, s')) :
    items = (s.claimableRows tx.now cutoff limit).map
        (fun row => row.claimedBy tx.instanceID claimedAt) ∧
      s' = { s with cleanupQueue := s.cleanupQueue.map fun row =>
        if row.id ∈ (s.claimableRows tx.now cutoff limit).map CleanupItem.id then
          row.claimedBy tx.instanceID claimedAt else row } := by
  obtain ⟨selected, s1, h1, h2⟩ := Tx.bind_eq_ok.mp h
  obtain ⟨rfl, rfl⟩ := Tx.read_eq_ok.mp (of_exec h1)
  split_ifs at h2 with hnone
  · obtain ⟨rfl, rfl⟩ := Tx.pure_eq_ok.mp h2
    simp [hnone]
  · have h3 := of_exec h2
    have h4 := of_edit h3
    exact Tx.pure_eq_ok.mp h4

theorem mem_claimableRows {now cutoff : Time}
    (h : row ∈ s.claimableRows now cutoff limit) :
    row ∈ s.cleanupQueue ∧ row.attempts < maxCleanupAttempts := by
  have hmem := (mem_insertionSort _).mp (mem_of_mem_take h)
  obtain ⟨hrow, hok⟩ := mem_filter.mp hmem
  simp only [CleanupItem.claimable, Bool.and_eq_true, decide_eq_true_eq] at hok
  exact ⟨hrow, hok.1.2⟩

theorem map_id_requeued (tx : TxAdapter) (id : Nat) (ds : List CleanupDLQItem) :
    (requeued tx id ds).map CleanupItem.id = List.range' id ds.length := by
  induction ds generalizing id with
  | nil => rfl
  | cons d ds ih => rw [requeued, map_cons, ih, length_cons, range'_succ]

theorem mem_requeued {ds : List CleanupDLQItem}
    (h : row ∈ requeued tx id ds) : row.attempts = 0 ∧ row.claim = none := by
  induction ds generalizing id with
  | nil => cases h
  | cons d ds ih =>
    rcases mem_cons.mp h with rfl | h
    · exact ⟨rfl, rfl⟩
    · exact ih h

theorem requeueCleanupDLQ_ok {backend : String} (h : requeueCleanupDLQ tx backend s = .ok (u, s')) :
    s'.cleanupQueue = s.cleanupQueue ++ requeued tx s.nextCleanupID (s.requeuing backend) ∧
      s'.nextCleanupID = s.nextCleanupID + (s.requeuing backend).length ∧
      s'.cleanupDLQ = s.cleanupDLQ.filter fun d =>
        !decide (backend = "" ∨ d.request.backendName = backend) := by
  rw [Tx.edit_eq_ok.mp (of_exec h)]
  exact ⟨rfl, rfl, rfl⟩

theorem heldUnder_iff : row.heldUnder item = true ↔
    row.id = item.id ∧ row.claim = item.claim ∧ row.claim ≠ none := by
  unfold CleanupItem.heldUnder
  cases hi : item.claim with
  | none => simp
  | some c =>
    simp only [Option.isSome_some, Bool.and_true, Bool.and_eq_true, decide_eq_true_eq]
    constructor
    · rintro ⟨hid, hclaim⟩
      exact ⟨hid, hclaim, by simp [hclaim]⟩
    · rintro ⟨hid, hclaim, -⟩
      exact ⟨hid, hclaim⟩

theorem not_heldUnder_of_claim_none (h : row.claim = none) :
    ¬ row.heldUnder item = true :=
  fun hh => (heldUnder_iff.mp hh).2.2 h

end Calls

/-! ## The invariant -/

namespace Cleanups

/-- Ids and tickets are given once, and a row still held has the attempts its holder read. -/
structure Sound (s : Cleanups) : Prop where
  once : s.tickets.Nodup
  queued_lt : ∀ row ∈ s.ledger.cleanupQueue, row.id < s.ledger.nextCleanupID
  dead_lt : ∀ d ∈ s.ledger.cleanupDLQ, d.originalID < s.ledger.nextCleanupID
  read_lt : ∀ item ∈ s.read, item.id < s.ledger.nextCleanupID
  ticket_lt : ∀ id < s.ledger.nextCleanupID, s.ticket id < s.ledger.nextCleanupID
  ticket_new : ∀ id, s.ledger.nextCleanupID ≤ id → s.ticket id = id
  queued_below : ∀ row ∈ s.ledger.cleanupQueue, row.attempts < maxCleanupAttempts
  dead_below : ∀ d ∈ s.ledger.cleanupDLQ, d.attempts < maxCleanupAttempts
  agrees : ∀ item ∈ s.read, ∀ row ∈ s.ledger.cleanupQueue, row.heldUnder item = true →
    row.attempts = item.attempts

section Steps

variable {s : Cleanups} {tx : TxAdapter}

theorem sound_start (quotas : Table BackendQuota sameBackend) : (start quotas).Sound where
  once := List.nodup_nil
  queued_lt _ h := by cases h
  dead_lt _ h := by cases h
  read_lt _ h := by cases h
  ticket_lt _ h := h
  ticket_new _ _ := rfl
  queued_below _ h := by cases h
  dead_below _ h := by cases h
  agrees _ h := by cases h

theorem mem_tickets {t : Nat} : t ∈ s.tickets ↔
    (∃ row ∈ s.ledger.cleanupQueue, s.ticket row.id = t) ∨
      ∃ d ∈ s.ledger.cleanupDLQ, s.ticket d.originalID = t := by
  simp [tickets]

theorem Sound.tickets_lt (h : s.Sound) {t : Nat} (ht : t ∈ s.tickets) :
    t < s.ledger.nextCleanupID := by
  rcases mem_tickets.mp ht with ⟨row, hrow, rfl⟩ | ⟨d, hd, rfl⟩
  · exact h.ticket_lt _ (h.queued_lt row hrow)
  · exact h.ticket_lt _ (h.dead_lt d hd)

theorem Sound.row_eq (h : s.Sound) {a b : CleanupItem} (ha : a ∈ s.ledger.cleanupQueue)
    (hb : b ∈ s.ledger.cleanupQueue) (hid : a.id = b.id) : a = b :=
  inj_on_of_nodup_map (nodup_append.mp h.once).1 ha hb (congrArg s.ticket hid)

variable {ledger : Ledger}

theorem Sound.shrink (h : s.Sound) (hqueue : ledger.cleanupQueue.Sublist s.ledger.cleanupQueue)
    (hdlq : ledger.cleanupDLQ.Sublist s.ledger.cleanupDLQ)
    (hnext : ledger.nextCleanupID = s.ledger.nextCleanupID) :
    Sound { s with ledger := ledger } where
  once := h.once.sublist ((hqueue.map _).append (hdlq.map _))
  queued_lt row hrow := by rw [hnext]; exact h.queued_lt row (hqueue.subset hrow)
  dead_lt d hd := by rw [hnext]; exact h.dead_lt d (hdlq.subset hd)
  read_lt item hitem := by rw [hnext]; exact h.read_lt item hitem
  ticket_lt := by rw [hnext]; exact h.ticket_lt
  ticket_new := by rw [hnext]; exact h.ticket_new
  queued_below row hrow := h.queued_below row (hqueue.subset hrow)
  dead_below d hd := h.dead_below d (hdlq.subset hd)
  agrees item hitem row hrow := h.agrees item hitem row (hqueue.subset hrow)

/-! ### Transactions -/

theorem tickets_grown (h : s.Sound) (read : List CleanupItem) {cs : List CleanupRequest}
    (hqueue : ledger.cleanupQueue = s.ledger.cleanupQueue ++ numbered tx s.ledger.nextCleanupID cs)
    (hdlq : ledger.cleanupDLQ = s.ledger.cleanupDLQ) :
    (Cleanups.mk ledger read s.ticket).tickets.Perm
      (s.tickets ++ List.range' s.ledger.nextCleanupID cs.length) := by
  have hnew : (numbered tx s.ledger.nextCleanupID cs).map (fun row => s.ticket row.id) =
      range' s.ledger.nextCleanupID cs.length := by
    calc (numbered tx s.ledger.nextCleanupID cs).map (fun row => s.ticket row.id)
        = ((numbered tx s.ledger.nextCleanupID cs).map CleanupItem.id).map s.ticket := by
          rw [map_map]; rfl
      _ = (range' s.ledger.nextCleanupID cs.length).map s.ticket := by
          rw [map_id_numbered]
      _ = range' s.ledger.nextCleanupID cs.length := by
          refine (map_congr_left fun id hid => ?_).trans (map_id _)
          exact h.ticket_new id (mem_range'_1.mp hid).1
  simp only [tickets, hqueue, hdlq, map_append, hnew, append_assoc]
  exact perm_append_comm.append_left _

theorem Sound.transact (h : s.Sound) (op : Op) : (s.step (.transact tx op)).Sound := by
  obtain ⟨cs, hqueue, hnext, hdlq⟩ := Op.grows tx s.ledger op
  have hread : (op.apply tx s.ledger).cleanupQueue.drop s.ledger.cleanupQueue.length =
      numbered tx s.ledger.nextCleanupID cs := by rw [hqueue, drop_left]
  have hids : ∀ row ∈ numbered tx s.ledger.nextCleanupID cs,
      s.ledger.nextCleanupID ≤ row.id ∧ row.id < s.ledger.nextCleanupID + cs.length := by
    intro row hrow
    have hmem := mem_map_of_mem (f := CleanupItem.id) hrow
    rw [map_id_numbered] at hmem
    exact mem_range'_1.mp hmem
  have hperm := tickets_grown h (s.read ++ numbered tx s.ledger.nextCleanupID cs) hqueue hdlq
  have hsound : Sound { s with
      ledger := op.apply tx s.ledger
      read := s.read ++ numbered tx s.ledger.nextCleanupID cs } := by
    refine ⟨hperm.nodup_iff.mpr ?_, ?_, ?_, ?_, ?_, ?_, ?_, ?_, ?_⟩
    · refine nodup_append.mpr ⟨h.once, nodup_range', fun t ht t' ht' he => ?_⟩
      have := h.tickets_lt ht
      have := (mem_range'_1.mp ht').1
      omega
    · intro row hrow
      dsimp only at hrow ⊢
      rw [hqueue] at hrow
      rcases mem_append.mp hrow with hold | hnew
      · have := h.queued_lt row hold
        omega
      · have := hids row hnew
        omega
    · intro d hd
      dsimp only at hd ⊢
      have := h.dead_lt d (hdlq ▸ hd)
      omega
    · intro item hitem
      dsimp only at hitem ⊢
      rcases mem_append.mp hitem with hold | hnew
      · have := h.read_lt item hold
        omega
      · have := hids item hnew
        omega
    · intro id hid
      dsimp only at hid ⊢
      by_cases hlt : id < s.ledger.nextCleanupID
      · have := h.ticket_lt id hlt
        omega
      · rw [h.ticket_new id (by omega)]
        exact hid
    · intro id hid
      dsimp only at hid ⊢
      exact h.ticket_new id (by omega)
    · intro row hrow
      dsimp only at hrow
      rw [hqueue] at hrow
      rcases mem_append.mp hrow with hold | hnew
      · exact h.queued_below row hold
      · rw [attempts_numbered hnew]
        decide
    · intro d hd
      exact h.dead_below d (hdlq ▸ hd)
    · intro item hitem row hrow hheld
      dsimp only at hitem hrow
      rw [hqueue] at hrow
      have hid := (heldUnder_iff.mp hheld).1
      -- An id given before the transaction is none of the new ones.
      rcases mem_append.mp hitem with hitem | hitem <;> rcases mem_append.mp hrow with hrow | hrow
      · exact h.agrees item hitem row hrow hheld
      · have := h.read_lt item hitem
        have := hids row hrow
        omega
      · have := h.queued_lt row hrow
        have := hids item hitem
        omega
      · rw [attempts_numbered hrow, attempts_numbered hitem]
  rw [step, hread]
  exact hsound

/-! ### Claims and retries -/

theorem tickets_update {f : CleanupItem → CleanupItem} (hid : ∀ row, (f row).id = row.id)
    (read : List CleanupItem) :
    (Cleanups.mk { s.ledger with cleanupQueue := s.ledger.cleanupQueue.map f } read
      s.ticket).tickets = s.tickets := by
  simp only [tickets, map_map]
  congr 1
  exact map_congr_left fun row _ => congrArg s.ticket (hid row)

theorem Sound.update (h : s.Sound) {f : CleanupItem → CleanupItem} {read : List CleanupItem}
    (hid : ∀ row, (f row).id = row.id)
    (hbelow : ∀ row ∈ s.ledger.cleanupQueue, (f row).attempts < maxCleanupAttempts)
    (hread : ∀ item ∈ read, item.id < s.ledger.nextCleanupID)
    (hagrees : ∀ item ∈ read, ∀ row ∈ s.ledger.cleanupQueue, (f row).heldUnder item = true →
      (f row).attempts = item.attempts) :
    Sound { s with
      ledger := { s.ledger with cleanupQueue := s.ledger.cleanupQueue.map f }
      read := read } where
  once := (tickets_update hid read).symm ▸ h.once
  queued_lt row' hrow' := by
    obtain ⟨row, hrow, rfl⟩ := mem_map.mp hrow'
    rw [hid]
    exact h.queued_lt row hrow
  dead_lt := h.dead_lt
  read_lt := hread
  ticket_lt := h.ticket_lt
  ticket_new := h.ticket_new
  queued_below row' hrow' := by
    obtain ⟨row, hrow, rfl⟩ := mem_map.mp hrow'
    exact hbelow row hrow
  dead_below := h.dead_below
  agrees item hitem row' hrow' hheld := by
    obtain ⟨row, hrow, rfl⟩ := mem_map.mp hrow'
    exact hagrees item hitem row hrow hheld

theorem Sound.claim (h : s.Sound) {graceCutoff claimedAt : Time}
    (hlawful : s.Lawful (.claim tx limit graceCutoff claimedAt)) :
    (s.step (.claim tx limit graceCutoff claimedAt)).Sound := by
  rw [step]
  split
  · rename_i items ledger hok
    obtain ⟨rfl, rfl⟩ := claimPendingCleanups_ok hok
    refine h.update (fun row => ?_) (fun row hrow => ?_) (fun item hitem => ?_)
      fun item hitem row hrow hheld => ?_
    · split_ifs <;> rfl
    · have hsame := h.queued_below row hrow
      split_ifs <;> exact hsame
    · rcases mem_append.mp hitem with hold | hnew
      · exact h.read_lt item hold
      · obtain ⟨row, hrow, rfl⟩ := mem_map.mp hnew
        exact h.queued_lt row (mem_claimableRows hrow).1
    · have hheld' := heldUnder_iff.mp hheld
      rcases mem_append.mp hitem with hold | hnew
      · split_ifs at hheld hheld' ⊢ with hsel
        · -- The claim just stamped is not one the row had before.
          obtain ⟨row', hrow', hid⟩ := mem_map.mp hsel
          have hne := hlawful item hold hheld'.2.1.symm row' hrow'
          exact absurd (hid.trans hheld'.1) hne
        · exact h.agrees item hold row hrow hheld
      · obtain ⟨row', hrow', rfl⟩ := mem_map.mp hnew
        have hid : row.id = row'.id := by
          split_ifs at hheld' <;> exact hheld'.1
        obtain rfl := h.row_eq hrow (mem_claimableRows hrow').1 hid
        split_ifs <;> rfl
  · exact h

theorem Sound.commit (h : s.Sound) {x : LedgerTx Unit}
    (hx : ∀ u ledger, x s.ledger = .ok (u, ledger) → Sound { s with ledger := ledger }) :
    Sound { s with ledger := x.commit s.ledger } :=
  Tx.commit_induct (P := fun ledger => Sound { s with ledger := ledger }) h hx

theorem Sound.retry (h : s.Sound) {backoff : Nat} {err : String}
    (hread : item ∈ s.read) (hbudget : item.attempts + 1 < maxCleanupAttempts) :
    (s.step (.settle tx (.retry item backoff err))).Sound := by
  refine h.commit fun u ledger hok => ?_
  rw [retryCleanupItem_ok hok]
  refine h.update (fun row => ?_) (fun row hrow => ?_) h.read_lt
    fun item' hitem' row hrow hheld => ?_
  · split_ifs <;> rfl
  · split_ifs with hheld
    · rw [CleanupItem.retried, h.agrees item hread row hrow hheld]
      exact hbudget
    · exact h.queued_below row hrow
  · -- A retried row is held by nobody.
    split_ifs at hheld ⊢ with hmine
    · exact absurd hheld (not_heldUnder_of_claim_none rfl)
    · exact h.agrees item' hitem' row hrow hheld

/-! ### Completions, sweeps and removals -/

theorem Sound.complete (h : s.Sound) (items : List CleanupItem) :
    (s.step (.settle tx (.complete items))).Sound := by
  refine h.commit fun u ledger hok => ?_
  rw [completeCleanupItems_ok hok]
  exact h.shrink filter_sublist (List.Sublist.refl _) rfl

theorem Sound.sweep (h : s.Sound) (storageKey backend : String) :
    (s.step (.settle tx (.sweep storageKey backend))).Sound := by
  refine h.commit fun u ledger hok => ?_
  rw [Tx.edit_eq_ok.mp (of_exec hok)]
  exact h.shrink filter_sublist (List.Sublist.refl _) rfl

theorem Sound.deleteBackendData (h : s.Sound) (backend : String) :
    (s.step (.deleteBackendData tx backend)).Sound := by
  refine h.commit fun u ledger hok => ?_
  rw [deleteBackendData_ok hok]
  exact h.shrink filter_sublist filter_sublist rfl

/-! ### Dead letters -/

theorem tickets_dead (p : CleanupItem → Bool) {lastError : String}
    (hqueue : ledger.cleanupQueue = s.ledger.cleanupQueue.filter fun row => !p row)
    (hdlq : ledger.cleanupDLQ = s.ledger.cleanupDLQ ++
      (s.ledger.cleanupQueue.filter p).map (CleanupItem.deadLetter tx lastError)) :
    (Cleanups.mk ledger s.read s.ticket).tickets.Perm s.tickets := by
  have hsplit := (filter_append_perm p s.ledger.cleanupQueue).map fun row => s.ticket row.id
  have hdead : ((s.ledger.cleanupQueue.filter p).map (CleanupItem.deadLetter tx lastError)).map
      (fun d => s.ticket d.originalID) =
      (s.ledger.cleanupQueue.filter p).map fun row => s.ticket row.id := by
    rw [map_map]
    rfl
  simp only [tickets, hqueue, hdlq, map_append, hdead] at hsplit ⊢
  refine List.Perm.trans ?_ (hsplit.append_right _)
  rw [← append_assoc]
  refine (perm_append_comm).trans ?_
  rw [← append_assoc]

theorem Sound.moveToDLQ (h : s.Sound) (item : CleanupItem) (err : String) :
    (s.step (.settle tx (.moveToDLQ item err))).Sound := by
  refine h.commit fun u ledger hok => ?_
  have hedit := Tx.edit_eq_ok.mp (of_exec hok)
  have hperm : (Cleanups.mk ledger s.read s.ticket).tickets.Perm s.tickets :=
    tickets_dead (fun row => row.heldUnder item) (by rw [hedit]) (by rw [hedit])
  subst hedit
  refine ⟨hperm.nodup_iff.mpr h.once, fun row hrow => ?_, fun d hd => ?_, h.read_lt, h.ticket_lt,
    h.ticket_new, fun row hrow => ?_, fun d hd => ?_, fun i hi row hrow => ?_⟩
  · exact h.queued_lt row (mem_of_mem_filter hrow)
  · rcases mem_append.mp hd with hold | hnew
    · exact h.dead_lt d hold
    · obtain ⟨row, hrow, rfl⟩ := mem_map.mp hnew
      exact h.queued_lt row (mem_of_mem_filter hrow)
  · exact h.queued_below row (mem_of_mem_filter hrow)
  · rcases mem_append.mp hd with hold | hnew
    · exact h.dead_below d hold
    · obtain ⟨row, hrow, rfl⟩ := mem_map.mp hnew
      exact h.queued_below row (mem_of_mem_filter hrow)
  · exact h.agrees i hi row (mem_of_mem_filter hrow)

theorem inherit_of_lt {ticket : Nat → Nat} {first : Nat} {moved : List CleanupDLQItem}
    (h : id < first) : inherit ticket first moved id = ticket id := if_pos h

theorem map_inherit (ticket : Nat → Nat) (first : Nat) (moved : List CleanupDLQItem) :
    (List.range' first moved.length).map (inherit ticket first moved) =
      moved.map fun d => ticket d.originalID := by
  refine ext_getElem (by simp) fun i h1 h2 => ?_
  have hi : i < moved.length := by simpa using h2
  simp [inherit, hi]

theorem tickets_requeued (h : s.Sound) {backend : String} {u : Unit}
    (hok : requeueCleanupDLQ tx backend s.ledger = .ok (u, ledger)) :
    (Cleanups.mk ledger s.read
      (inherit s.ticket s.ledger.nextCleanupID (s.ledger.requeuing backend))).tickets.Perm
      s.tickets := by
  obtain ⟨hqueue, -, hdlq⟩ := requeueCleanupDLQ_ok hok
  have hold : s.ledger.cleanupQueue.map (fun row => inherit s.ticket s.ledger.nextCleanupID
      (s.ledger.requeuing backend) row.id) = s.ledger.cleanupQueue.map fun row => s.ticket row.id :=
    map_congr_left fun row hrow => inherit_of_lt (h.queued_lt row hrow)
  have hnew : (requeued tx s.ledger.nextCleanupID (s.ledger.requeuing backend)).map
      (fun row => inherit s.ticket s.ledger.nextCleanupID (s.ledger.requeuing backend) row.id) =
      (s.ledger.requeuing backend).map fun d => s.ticket d.originalID := by
    rw [← map_inherit s.ticket s.ledger.nextCleanupID, ← map_id_requeued tx, map_map]
    rfl
  have hrest : ledger.cleanupDLQ.map (fun d => inherit s.ticket s.ledger.nextCleanupID
      (s.ledger.requeuing backend) d.originalID) =
      ledger.cleanupDLQ.map fun d => s.ticket d.originalID := by
    refine map_congr_left fun d hd => inherit_of_lt (h.dead_lt d ?_)
    rw [hdlq] at hd
    exact mem_of_mem_filter hd
  have hsplit := (filter_append_perm
    (fun d : CleanupDLQItem => decide (backend = "" ∨ d.request.backendName = backend))
    s.ledger.cleanupDLQ).map fun d => s.ticket d.originalID
  rw [map_append] at hsplit
  simp only [tickets, hrest]
  rw [hqueue, map_append, hold, hnew, hdlq, append_assoc]
  exact hsplit.append_left _

theorem Sound.requeueDLQ (h : s.Sound) (backend : String) :
    (s.step (.settle tx (.requeueDLQ backend))).Sound := by
  rw [step]
  split
  · rename_i u ledger hok
    have hperm := tickets_requeued h hok
    obtain ⟨hqueue, hnext, hdlq⟩ := requeueCleanupDLQ_ok hok
    have hids : ∀ row ∈ requeued tx s.ledger.nextCleanupID (s.ledger.requeuing backend),
        row.id < s.ledger.nextCleanupID + (s.ledger.requeuing backend).length := by
      intro row hrow
      have hmem := mem_map_of_mem (f := CleanupItem.id) hrow
      rw [map_id_requeued] at hmem
      exact (mem_range'_1.mp hmem).2
    refine ⟨hperm.nodup_iff.mpr h.once, fun row hrow => ?_, fun d hd => ?_, fun i hi => ?_,
      fun id hid => ?_, fun id hid => ?_, fun row hrow => ?_, fun d hd => ?_,
      fun i hi row hrow hheld => ?_⟩
    · dsimp only at hrow ⊢
      rw [hqueue] at hrow
      rcases mem_append.mp hrow with hold | hnew
      · have := h.queued_lt row hold
        omega
      · have := hids row hnew
        omega
    · dsimp only at hd ⊢
      rw [hdlq] at hd
      have := h.dead_lt d (mem_of_mem_filter hd)
      omega
    · have := h.read_lt i hi
      dsimp only
      omega
    · -- An id below the new ones keeps its ticket, and a new one has that of a dead letter.
      dsimp only [inherit] at hid ⊢
      split_ifs with hlt
      · have := h.ticket_lt id hlt
        omega
      · have hmoved : id - s.ledger.nextCleanupID < (s.ledger.requeuing backend).length := by omega
        rw [getElem?_eq_getElem hmoved]
        have hmem := mem_of_mem_filter (getElem_mem hmoved)
        have := h.ticket_lt _ (h.dead_lt _ hmem)
        dsimp only
        omega
    · dsimp only [inherit] at hid ⊢
      have hnone : (s.ledger.requeuing backend)[id - s.ledger.nextCleanupID]? = none :=
        getElem?_eq_none (by omega)
      rw [if_neg (by omega), hnone]
      exact h.ticket_new id (by omega)
    · dsimp only at hrow
      rw [hqueue] at hrow
      rcases mem_append.mp hrow with hold | hnew
      · exact h.queued_below row hold
      · rw [(mem_requeued hnew).1]
        decide
    · dsimp only at hd
      rw [hdlq] at hd
      exact h.dead_below d (mem_of_mem_filter hd)
    · dsimp only at hrow
      rw [hqueue] at hrow
      rcases mem_append.mp hrow with hold | hnew
      · exact h.agrees i hi row hold hheld
      · exact absurd hheld (not_heldUnder_of_claim_none (mem_requeued hnew).2)
  · exact h

/-! ### All calls -/

theorem mem_calls {deleted : Nat → Option Deletion} {st : Settle}
    (h : st ∈ Settler.calls deleted items) :
    (∃ item ∈ items, ∃ err, st = Settler.fail item err) ∨
      st = .complete (Settler.gone deleted items) := by
  rcases mem_append.mp h with hfail | hgone
  · obtain ⟨item, hitem, hcall⟩ := mem_filterMap.mp hfail
    unfold Settler.failing at hcall
    split at hcall
    · rename_i err _
      exact .inl ⟨item, hitem, err, (Option.some.inj hcall).symm⟩
    · cases hcall
  · split_ifs at hgone
    · cases hgone
    · exact .inr (mem_singleton.mp hgone)

theorem Sound.fail (h : s.Sound) (hread : item ∈ s.read) (err : String) :
    (s.step (.settle tx (Settler.fail item err))).Sound := by
  unfold Settler.fail
  split_ifs with hspent
  · exact h.moveToDLQ item err
  · exact h.retry hread (by omega)

theorem Sound.step (h : s.Sound) {a : CleanupAct} (hlawful : s.Lawful a) : (s.step a).Sound := by
  have hcalls : ∀ {tx st}, (∃ deleted items, (∀ item ∈ items, item ∈ s.read) ∧
      st ∈ Settler.calls deleted items) → (s.step (.settle tx st)).Sound := by
    rintro tx st ⟨deleted, items, hread, hst⟩
    rcases mem_calls hst with ⟨item, hitem, err, rfl⟩ | rfl
    · exact h.fail (hread item hitem) err
    · exact h.complete _
  cases a with
  | transact tx op => exact h.transact op
  | claim tx limit graceCutoff claimedAt => exact h.claim hlawful
  | deleteBackendData tx backend => exact h.deleteBackendData backend
  | settle tx st =>
    cases st with
    | complete items | retry item backoff err | moveToDLQ item err => exact hcalls hlawful
    | requeueDLQ backend => exact h.requeueDLQ backend
    | sweep storageKey backend => exact h.sweep storageKey backend

end Steps

end Cleanups

end S3Orchestrator
