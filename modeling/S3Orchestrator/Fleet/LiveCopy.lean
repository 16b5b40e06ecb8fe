import S3Orchestrator.Fleet.Tagged

/-!
# A queued deletion never names a live copy

A transaction that finds an intent gone queues the bytes of the intent: whoever took the row is
expected to have queued them too. The reaper takes the row of an intent whose upload it finds, and
records it. A writer whose `RecordObject` or `CommitCompanionCopy` call comes after that queues the
bytes of the copy just recorded.

* **`queued_never_live`**.
-/

namespace S3Orchestrator

open RowStore List

namespace Fleet

/-- No queued deletion names the path of a recorded copy. -/
def LiveCopiesSafe (f : Fleet) : Prop :=
  ∀ c ∈ f.ledger.deletions, ∀ l ∈ f.ledger.objectLocations.rows, ¬ c.hits l
  deriving Decidable

instance (f : Fleet) : DecidablePred f.LateCallsClear := by
  rintro ⟨⟩ <;> dsimp only [LateCallsClear] <;> infer_instance

/-- An effect records the bytes of intents held until then, and queues neither those nor the bytes
of rows it leaves. -/
structure Separated (f : Fleet) (e : Effect) : Prop where
  recorded : ∀ l ∈ e.recorded,
    (∃ i ∈ f.issued, i.row ∈ f.ledger.pendingObjects.rows ∧ i.at_ l.backendName l.storageKey) ∧
    ∀ c ∈ e.queued, ¬ c.hits l
  queued : ∀ c ∈ e.queued, ∀ l ∈ f.ledger.objectLocations.rows, e.removed l = false → ¬ c.hits l

section Steps

variable {f : Fleet} {tx : TxAdapter} {minAge : Nat}

theorem Sourced.separated {a : Act} {e : Effect} (hs : f.Sound) (honce : f.PlacedOnce)
    (hclear : f.LateCallsClear a) (h : f.Sourced a e) : f.Separated e where
  recorded l hl := by
    obtain ⟨i, hi, hrow, hat, _⟩ := h.recorded l hl
    refine ⟨⟨i, hi, hrow, hat⟩, fun c hc hhit => ?_⟩
    cases h.queued c hc with
    | copy k hk _ hck =>
      exact hs.held_unrecorded hi hrow k hk
        ⟨hat.1.trans (hhit.1.symm.trans hck.1), hat.2.trans (hhit.2.symm.trans hck.2)⟩
    | intent j hj hjat _ hnew => exact hnew l hl ⟨hjat.1.trans hhit.1, hjat.2.trans hhit.2⟩
  queued c hc l hl hkeep hhit := by
    cases h.queued c hc with
    | copy k hk hrem hck =>
      rw [path_unique hk hl (hck.1.symm.trans hhit.1) (hck.2.symm.trans hhit.2), hkeep] at hrem
      cases hrem
    | intent i hi hat _ _ hfree =>
      exact hfree honce hclear l hl ⟨hat.1.trans hhit.1, hat.2.trans hhit.2⟩

structure Safe (f : Fleet) : Prop where
  sound : f.Sound
  placedOnce : f.PlacedOnce
  live : f.LiveCopiesSafe

theorem LiveCopiesSafe.step (hs : f.Sound) (hlive : f.LiveCopiesSafe) {e : Effect} {s' : Ledger}
    (hsep : f.Separated e) (happ : Applies e f.ledger s') :
    ∀ c ∈ s'.deletions, ∀ l ∈ s'.objectLocations.rows, ¬ c.hits l := by
  intro c hc l hl hhit
  rcases mem_append.mp (happ.deletions.mem_iff.mp hc) with hc | hc <;>
    rcases happ.mem_locations.mp hl with ⟨hl, hkeep⟩ | hl
  · exact hlive c hc l hl hhit
  · -- Bytes queued before are of an intent without a row, bytes recorded now had one.
    obtain ⟨⟨i, hi, hrow, hat⟩, _⟩ := hsep.recorded l hl
    obtain ⟨j, hj, hjat, hheld⟩ := hs.queued c hc
    obtain rfl := hs.paths i hi j hj
      ⟨hat.1.trans (hhit.1.symm.trans hjat.1.symm), hat.2.trans (hhit.2.symm.trans hjat.2.symm)⟩
    rw [Ledger.holds_iff.mpr ⟨i.row, hrow, rfl⟩] at hheld
    cases hheld
  · exact hsep.queued c hc l hl hkeep hhit
  · exact (hsep.recorded l hl).2 c hc hhit

theorem Safe.step (hf : f.Safe) {ev : TxAdapter × Act} (hl : f.Lawful minAge ev)
    (hclear : f.LateCallsClear ev.2) : (f.step ev).Safe := by
  obtain ⟨tx, a⟩ := ev
  have ha : f.Promised minAge tx a := hl.2.2
  have hsound := hf.sound.step hl
  have honce := hf.placedOnce.step hf.sound ha
  rcases f.step_cases tx a with ⟨st, rfl, hset⟩ | ⟨op, e, hdoes, ho, happ⟩
  · refine ⟨hsound, honce, fun c hc l hl => ?_⟩
    exact hf.live c (hset.deletions.subset hc) l (hset.locations ▸ hl)
  · have hsep := (lawful_sourced hf.sound ha hdoes ho).separated hf.sound hf.placedOnce hclear
    exact ⟨hsound, honce, hf.live.step hf.sound hsep happ⟩

theorem safe_start (quotas : Table BackendQuota sameBackend) : (start quotas).Safe where
  sound := sound_start quotas
  placedOnce _ hi := by cases hi
  live _ _ _ hl := by cases hl

end Steps

end Fleet

/-- **In every run whose late calls are clear, no queued or dead-lettered deletion hits a recorded
copy.** -/
theorem queued_never_live (minAge : Nat) (quotas : Table BackendQuota sameBackend)
    (run : List (TxAdapter × Act))
    (hrun : Along Fleet.step (fun f ev => f.Lawful minAge ev ∧ f.LateCallsClear ev.2)
      (Fleet.start quotas) run) :
    (after Fleet.step (Fleet.start quotas) run).LiveCopiesSafe :=
  (hrun.invariant (Fleet.safe_start quotas) fun _ _ hf h => hf.step h.1 h.2).live

/-- A slow write: the reaper finds its upload and records it before the writer's call. -/
def reapedWrite : List (TxAdapter × Act) :=
  [(tick 1, .claim (some 0) (keyIntent "i" "b" .primary) 0),
   (tick 10, .promote (keyRow 1 "i" "b" .primary)),
   (tick 11, .recordObject 0 (keyCommit "i" "b" []))]

/-- The writer's call queues the bytes of the copy the reaper recorded. -/
theorem reapedWrite_queues_live_copy :
    Along Fleet.step (Fleet.Lawful 5) (Fleet.start soloQuota) reapedWrite ∧
      (after Fleet.step (Fleet.start soloQuota) reapedWrite).ledger.deletions.map
        (fun c => (c.backendName, c.storageKey)) = [("b", "k!i")] ∧
      (after Fleet.step (Fleet.start soloQuota) reapedWrite).ledger.objectLocations.rows.map
        (fun l => (l.backendName, l.storageKey)) = [("b", "k!i")] ∧
      ¬ (after Fleet.step (Fleet.start soloQuota) reapedWrite).LiveCopiesSafe := by
  decide

def promptWrite : List (TxAdapter × Act) :=
  [(tick 1, .claim (some 0) (keyIntent "i" "b" .primary) 0),
   (tick 2, .recordObject 0 (keyCommit "i" "b" [])),
   (tick 3, .claim (some 1) (keyIntent "j" "b" .primary) 0),
   (tick 10, .promote (keyRow 1 "i" "b" .primary)),
   (tick 11, .recordObject 1 (keyCommit "j" "b" []))]

theorem promptWrite_safe :
    (after Fleet.step (Fleet.start soloQuota) promptWrite).ledger.deletions ≠ [] ∧
      (after Fleet.step (Fleet.start soloQuota) promptWrite).LiveCopiesSafe :=
  ⟨by decide, queued_never_live 5 soloQuota promptWrite (by decide)⟩

end S3Orchestrator
