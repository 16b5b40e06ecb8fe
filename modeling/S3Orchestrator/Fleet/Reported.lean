import S3Orchestrator.Fleet.OneWrite

/-!
# What a write reported as successful left

`RecordObject` answers without an error when an intent it commits has no row any more, on the
assumption that a newer write took it. The row of an intent whose write has not called yet goes with
another client's commit of the key, or with the reaper, which needs no newer write for that.

* **`reported_writes_visible`**.
-/

namespace S3Orchestrator

open RowStore List

namespace Fleet

/-- The write is what the key holds. -/
def Visible (f : Fleet) (key : String) (w : WriteID) : Prop :=
  (∃ l ∈ f.ledger.objectLocations.rows, l.objectKey = key) ∧ f.RowsOf key w
  deriving Decidable

/-- Another commit of the key came after the intent was issued. -/
def OvertakenSince (f : Fleet) (i : Issued) : Prop :=
  ∃ c ∈ f.log.drop i.since, c.key = i.row.objectKey ∧ c.write ≠ i.write
  deriving Decidable

/-- A `RecordObject` call that succeeds leaves the key to its write, or another client committed the
key since an intent of it was claimed. -/
def Reported (f : Fleet) (ev : TxAdapter × Act) : Prop :=
  match ev.2 with
  | .recordObject w req => ev.2.succeeds ev.1 f.ledger = true →
      (f.step ev).Visible req.key w ∨
        ∃ i ∈ f.issued, i.write = some w ∧ i.row.intentID ∈ intentIDs req.copies ∧
          f.OvertakenSince i
  | _ => True

/-- The commit comes before the reaper took its intents. -/
def Unreaped (f : Fleet) : Act → Prop
  | .recordObject _ req => ∀ c ∈ req.copies, c.intentID ∉ f.reaped
  | _ => True

instance (f : Fleet) : DecidablePred f.Reported := by
  rintro ⟨_, ⟨⟩⟩ <;> dsimp only [Reported] <;> infer_instance

instance (f : Fleet) : DecidablePred f.Unreaped := by
  rintro ⟨⟩ <;> dsimp only [Unreaped] <;> infer_instance

def Outstanding (f : Fleet) (i : Issued) : Prop :=
  (∃ w, i.write = some w ∧ w ∉ f.called) ∧ i.row.intentID ∉ f.spent ∧ i.row.intentID ∉ f.reaped

/-- An outstanding intent that is gone was overtaken. -/
structure Explained (f : Fleet) : Prop where
  tagged : f.Tagged
  since : ∀ i ∈ f.issued, i.since ≤ f.log.length
  gone : ∀ i ∈ f.issued, f.Outstanding i → i.row ∉ f.ledger.pendingObjects.rows → f.OvertakenSince i

section Steps

variable {f : Fleet} {tx : TxAdapter} {minAge : Nat} {a : Act} {i : Issued}

theorem OvertakenSince.step (h : f.OvertakenSince i) : (f.step (tx, a)).OvertakenSince i := by
  obtain ⟨c, hc, hkey, hw⟩ := h
  refine ⟨c, ?_, hkey, hw⟩
  change c ∈ (f.log ++ f.commits tx a).drop i.since
  rw [drop_append]
  exact mem_append_left _ hc

theorem overtaken_by_commit (hsince : i.since ≤ f.log.length) {c : ClientCommit}
    (hc : c ∈ f.commits tx a) (hkey : c.key = i.row.objectKey) (hw : c.write ≠ i.write) :
    (f.step (tx, a)).OvertakenSince i := by
  refine ⟨c, ?_, hkey, hw⟩
  change c ∈ (f.log ++ f.commits tx a).drop i.since
  rw [drop_append, Nat.sub_eq_zero_of_le hsince, drop_zero]
  exact mem_append_right _ hc

theorem commits_recorded (w : WriteID) {req : RecordObjectRequest}
    (hok : (Op.recordObject req).succeeds tx f.ledger = true)
    (hheld : f.ledger.holdsAll (intentIDs req.copies)) :
    f.commits tx (.recordObject w req) = [⟨req.key, some w, tx.now⟩] :=
  if_pos (by simp [Act.succeeds, Act.does, hok, hheld])

theorem dropped_of_gone {e : Effect} {s s' : Ledger} (happ : Applies e s s') {q : PendingObject}
    (hq : q ∈ s.pendingObjects.rows) (hgone : q ∉ s'.pendingObjects.rows) : e.dropped q = true := by
  by_contra hkeep
  exact hgone (happ.mem_pending.mpr (.inl ⟨hq, Bool.eq_false_iff.mpr hkeep⟩))

theorem mem_reaps (hs' : (f.step (tx, a)).Sound) {p : PendingObject}
    (hact : a = .promote p ∨ a = .drop p) (hi : i ∈ f.issued)
    (hheld : i.row ∈ f.ledger.pendingObjects.rows)
    (hgone : i.row ∉ (f.step (tx, a)).ledger.pendingObjects.rows)
    (hid : i.row.intentID = p.intentID) : i.row.intentID ∈ f.reaps tx a := by
  have hbefore : f.ledger.holds p.intentID = true := Ledger.holds_iff.mpr ⟨i.row, hheld, hid⟩
  have hafter : (a.apply tx f.ledger).holds p.intentID = false := by
    rw [← Bool.not_eq_true, Ledger.holds_iff]
    rintro ⟨q, hq, hqid⟩
    have hi' : i ∈ (f.step (tx, a)).issued := mem_append_right _ hi
    rw [hs'.row_of_id hi' hq (hqid.trans hid.symm)] at hq
    exact hgone hq
  have hreaps : f.reaps tx a = [p.intentID] := by
    rcases hact with rfl | rfl <;> exact if_pos (by rw [hbefore, hafter]; rfl)
  rw [hreaps, hid]
  exact mem_cons_self

theorem lost_overtaken (hs : f.Sound) (hs' : (f.step (tx, a)).Sound) (ha : f.Promised minAge tx a)
    (hi : i ∈ f.issued) (hsince : i.since ≤ f.log.length) (hout : (f.step (tx, a)).Outstanding i)
    (hheld : i.row ∈ f.ledger.pendingObjects.rows)
    (hgone : i.row ∉ (f.step (tx, a)).ledger.pendingObjects.rows) :
    (f.step (tx, a)).OvertakenSince i := by
  obtain ⟨⟨w, hw, hcalled⟩, hspent, hreaped⟩ := hout
  have hspends : i.row.intentID ∉ a.spends := fun h => hspent (mem_append_left _ h)
  have hreaps : i.row.intentID ∉ f.reaps tx a := fun h => hreaped (mem_append_left _ h)
  rcases f.step_cases tx a with ⟨st, rfl, hset⟩ | ⟨op, e, hdoes, ho, happ⟩
  · rw [hset.pending] at hgone
    exact absurd hheld hgone
  have hdrop := dropped_of_gone happ hheld hgone
  cases a with
  | claim v p accepts | deleteObjectLocation loc keepAtLeast reason =>
    cases hdoes
    cases ho <;> cases hdrop
  | recordObject v req =>
    have hne : v ≠ w := by
      rintro rfl
      exact hcalled (mem_append_left _ mem_cons_self)
    rcases recordObject_cases tx f.ledger req with ⟨_, hsame⟩ | ⟨hok, _, ⟨_, happ⟩ | ⟨hall, happ⟩⟩
    · rw [show (f.step (tx, .recordObject v req)).ledger = f.ledger from hsame] at hgone
      exact absurd hheld hgone
    · -- An overtaken call drops intents of its own write only.
      obtain ⟨_, hmem⟩ := of_decide_eq_true (dropped_of_gone happ hheld hgone)
      have hv := hs.write_of_named ha.2.1 hi hmem
      exact absurd (Option.some.inj (hv.symm.trans hw)) hne
    · have hclear := dropped_of_gone happ hheld hgone
      have hkey : req.key = i.row.objectKey := by
        simp only [Effect.recording, TxAdapter.clears, mem_singleton, Bool.and_eq_true,
          decide_eq_true_eq] at hclear
        exact hclear.1.symm
      have hcommits := commits_recorded v hok hall
      refine overtaken_by_commit hsince (hcommits ▸ mem_cons_self) hkey ?_
      rw [hw]
      exact fun h => hne (Option.some.inj h)
  | deleteObjectsBatch keys =>
    have hok : (Op.deleteObjectsBatch keys).succeeds tx f.ledger = true := by
      by_contra hfail
      have hsame : (f.step (tx, .deleteObjectsBatch keys)).ledger = f.ledger :=
        Op.apply_of_not_succeeds (Bool.eq_false_iff.mpr hfail)
      rw [hsame] at hgone
      exact hgone hheld
    cases hdoes
    cases ho with
    | nothing => cases hdrop
    | deleted =>
      obtain ⟨l, hl, hkey⟩ := mem_map.mp (of_decide_eq_true hdrop)
      have hcommits : f.commits tx (.deleteObjectsBatch keys) =
          keys.map fun key => ⟨key, none, tx.now⟩ := if_pos hok
      refine overtaken_by_commit hsince (c := ⟨i.row.objectKey, none, tx.now⟩) ?_ rfl ?_
      · rw [hcommits]
        exact mem_map_of_mem (hkey ▸ (copiesOf_key hl).2)
      · rw [hw]
        exact (Option.some_ne_none w).symm
  | promote p =>
    cases hdoes
    refine absurd (mem_reaps hs' (.inl rfl) hi hheld hgone ?_) hreaps
    cases ho <;> first | cases hdrop | exact of_decide_eq_true hdrop
  | drop p =>
    cases hdoes
    refine absurd (mem_reaps hs' (.inr rfl) hi hheld hgone ?_) hreaps
    cases ho <;> first | cases hdrop | exact of_decide_eq_true hdrop
  | settle st => cases hdoes
  | _ =>
    -- The writer's own calls for the intent.
    cases hdoes
    refine absurd ?_ hspends
    cases ho <;> first | cases hdrop | exact mem_singleton.mpr (of_decide_eq_true hdrop)

theorem outstanding_step (h : (f.step (tx, a)).Outstanding i) : f.Outstanding i := by
  obtain ⟨⟨w, hw, hcalled⟩, hspent, hreaped⟩ := h
  exact ⟨⟨w, hw, fun h => hcalled (mem_append_right _ h)⟩,
    fun h => hspent (mem_append_right _ h), fun h => hreaped (mem_append_right _ h)⟩

theorem Explained.step (hf : f.Explained) (hl : f.Lawful minAge (tx, a)) :
    (f.step (tx, a)).Explained where
  tagged := hf.tagged.step hl
  since i hi := by
    change i.since ≤ (f.log ++ f.commits tx a).length
    rw [length_append]
    rcases mem_append.mp hi with hnew | hold
    · obtain ⟨_, _, _, _, _, rfl⟩ := issues_of_mem hnew
      exact Nat.le_add_right _ _
    · exact (hf.since i hold).trans (Nat.le_add_right _ _)
  gone i hi hout hgone := by
    rcases mem_append.mp hi with hnew | hold
    · exact absurd ((hf.tagged.step hl).sound.issues_pending hnew) hgone
    · by_cases hheld : i.row ∈ f.ledger.pendingObjects.rows
      · exact lost_overtaken hf.tagged.sound (hf.tagged.step hl).sound hl.2.2 hold
          (hf.since i hold) hout hheld hgone
      · exact (hf.gone i hold (outstanding_step hout) hheld).step

theorem explained_start (quotas : Table BackendQuota sameBackend) : (start quotas).Explained where
  tagged := tagged_start quotas
  since _ hi := by cases hi
  gone _ hi := by cases hi

theorem recording_visible (hf : f.Tagged) {w : WriteID} {req : RecordObjectRequest}
    (ha : f.Promised minAge tx (.recordObject w req)) (hcopies : req.copies ≠ [])
    (happ : Applies (.recording tx f.ledger req) f.ledger
      (f.step (tx, .recordObject w req)).ledger) :
    (f.step (tx, .recordObject w req)).Visible req.key w := by
  obtain ⟨c, hc⟩ := exists_mem_of_ne_nil _ hcopies
  refine ⟨⟨tx.locationRow (req.location c), ?_, rfl⟩, (recording_belongs hf ha happ).1⟩
  exact happ.mem_locations.mpr (.inr (mem_map_of_mem hc))

theorem Explained.reported (hf : f.Explained) (ha : f.Promised minAge tx a)
    (hreap : f.Unreaped a) : f.Reported (tx, a) := by
  cases a with
  | recordObject w req =>
    intro hok
    rcases recordObject_cases tx f.ledger req with ⟨hfail, _⟩ | ⟨_, hcopies, hdone⟩
    · have hok : (Op.recordObject req).succeeds tx f.ledger = true := hok
      rw [hfail] at hok
      cases hok
    · rcases hdone with ⟨hgone, _⟩ | ⟨_, happ⟩
      · right
        -- Some intent of the call has lost its row, and it was outstanding.
        obtain ⟨id, hid, hne, hlost⟩ : ∃ id ∈ intentIDs req.copies, id ≠ "" ∧
            f.ledger.holds id ≠ true := by
          simpa [Ledger.holdsAll] using hgone
        obtain ⟨c, hc, rfl⟩ := mem_map.mp hid
        obtain ⟨hspent, _, i, hi, hiw, hnames⟩ := ha.2.1 c hc
        refine ⟨i, hi, hiw, hnames.1 ▸ hid, hf.gone i hi ⟨⟨w, hiw, ha.1⟩, ?_, ?_⟩ ?_⟩
        · exact hnames.1 ▸ hspent
        · exact hnames.1 ▸ hreap c hc
        · exact fun hrow => hlost (Ledger.holds_iff.mpr ⟨i.row, hrow, hnames.1⟩)
      · exact .inl (recording_visible hf.tagged ha hcopies happ)
  | _ => trivial

end Steps

end Fleet

/-- **In every run, a write the reaper left alone whose call succeeds is visible right after it, or
another client committed the key between its claim and its call.** -/
theorem reported_writes_visible (minAge : Nat) (quotas : Table BackendQuota sameBackend)
    (run : List (TxAdapter × Act))
    (hrun : Along Fleet.step (fun f ev => f.Lawful minAge ev ∧ f.Unreaped ev.2)
      (Fleet.start quotas) run) :
    Along Fleet.step Fleet.Reported (Fleet.start quotas) run := by
  refine hrun.of_invariant (Fleet.explained_start quotas) ?_ ?_
  · exact fun f _ hf h => hf.step h.1
  · exact fun f _ hf h => hf.reported h.1.2.2 h.2

/-- A slow upload: the reaper finds no bytes and drops the intent; then the upload lands and the
writer makes its call. -/
def droppedWrite : List (TxAdapter × Act) :=
  [(tick 1, .claim (some 0) (keyIntent "i" "b" .primary) 0),
   (tick 10, .drop (keyRow 1 "i" "b" .primary)),
   (tick 11, .recordObject 0 (keyCommit "i" "b" []))]

/-- The call succeeds, nothing is recorded, and no other client took part. -/
theorem droppedWrite_reported_lost :
    Along Fleet.step (Fleet.Lawful 5) (Fleet.start soloQuota) droppedWrite ∧
      (after Fleet.step (Fleet.start soloQuota) droppedWrite).answered = [0] ∧
      (after Fleet.step (Fleet.start soloQuota) droppedWrite).ledger.objectLocations.rows = [] ∧
      (after Fleet.step (Fleet.start soloQuota) droppedWrite).log = [] ∧
      ¬ Along Fleet.step Fleet.Reported (Fleet.start soloQuota) droppedWrite := by
  decide

def overtakenWrite : List (TxAdapter × Act) :=
  [(tick 1, .claim (some 0) (keyIntent "i" "b" .primary) 0),
   (tick 2, .claim (some 1) (keyIntent "j" "b" .primary) 0),
   (tick 3, .recordObject 1 (keyCommit "j" "b" [])),
   (tick 10, .drop (keyRow 1 "i" "b" .primary)),
   (tick 11, .recordObject 0 (keyCommit "i" "b" []))]

theorem overtakenWrite_reported :
    (after Fleet.step (Fleet.start soloQuota) overtakenWrite).answered = [0, 1] ∧
      Along Fleet.step Fleet.Reported (Fleet.start soloQuota) overtakenWrite :=
  ⟨by decide, reported_writes_visible 5 soloQuota overtakenWrite (by decide)⟩

end S3Orchestrator
