import S3Orchestrator.Fleet.Tagged

/-!
# The copies of a key belong to one write

`CommitCompanionCopy` adds a copy beside whatever is recorded, on the strength of its intent's row
being there. Two transactions take over a key, or give up on a write, and leave such a row: the
promotion of another write's intent, and a `RecordObject` call that finds an intent gone and reports
success without dropping the intents still uploading.

* **`copies_of_one_write`**.
-/

namespace S3Orchestrator

open RowStore List

instance (s : Ledger) (p : PendingObject) : Decidable (s.supersedes p) := by
  unfold Ledger.supersedes
  infer_instance

namespace Fleet

/-- All copies of a key are of one write. -/
def OneWrite (f : Fleet) : Prop :=
  ∀ l ∈ f.ledger.objectLocations.rows, ∀ l' ∈ f.ledger.objectLocations.rows,
    l.objectKey = l'.objectKey → f.tagOf l.backendName l.storageKey ≠ none ∧
      f.tagOf l.backendName l.storageKey = f.tagOf l'.backendName l'.storageKey
  deriving Decidable

/-- The copies of the key are of the write. -/
def RowsOf (f : Fleet) (key : String) (w : WriteID) : Prop :=
  ∀ l ∈ f.ledger.objectLocations.rows, l.objectKey = key →
    f.tagOf l.backendName l.storageKey = some w
  deriving Decidable

/-- Of the writes that were answered only this one still has intents for the key. -/
def WaitersOf (f : Fleet) (key : String) (w : WriteID) : Prop :=
  ∀ i ∈ f.issued, i.row ∈ f.ledger.pendingObjects.rows → i.row.objectKey = key →
    ∀ v ∈ i.write, v ∈ f.answered → v = w
  deriving Decidable

def BelongsTo (f : Fleet) (key : String) (w : WriteID) : Prop :=
  f.RowsOf key w ∧ f.WaitersOf key w
  deriving Decidable

/-- A promotion that commits finds no other answered write waiting for the key, and a
`RecordObject` call that finds an intent gone leaves no other intent of its write, unless the key
is the write's. -/
def Orderly (f : Fleet) : Act → Prop
  | .promote p => f.ledger.holdsAll [p.intentID] → p.isCompanion = false →
      ¬ f.ledger.supersedes p → ∀ i ∈ f.issued, i.row = p → ∀ v ∈ i.write,
        f.WaitersOf p.objectKey v
  | .recordObject w req => ¬ f.ledger.holdsAll (intentIDs req.copies) →
      (∀ i ∈ f.issued, i.write = some w → i.row ∈ f.ledger.pendingObjects.rows →
        i.row.intentID ∈ intentIDs req.copies) ∨ f.BelongsTo req.key w
  | _ => True

instance (f : Fleet) : DecidablePred f.Orderly := by
  rintro ⟨⟩ <;> dsimp only [Orderly] <;> infer_instance

section Steps

variable {f : Fleet} {tx : TxAdapter} {minAge : Nat} {a : Act} {key : String} {w : WriteID}

theorem answered_step (hcalls : a.calls = []) : (f.step (tx, a)).answered = f.answered := by
  change f.answers tx a ++ f.answered = f.answered
  rw [answers, hcalls, ite_self, nil_append]

theorem WaitersOf.step (hf : f.Tagged) (ha : f.Promised minAge tx a) (hcalls : a.calls = [])
    (hw : f.WaitersOf key w) : (f.step (tx, a)).WaitersOf key w := by
  intro i hi hrow hkey v hv hans
  rw [answered_step hcalls] at hans
  rcases mem_append.mp hi with hnew | hold
  · -- A write claims before it calls.
    obtain ⟨_, _, p, _, rfl, rfl⟩ := issues_of_mem hnew
    exact absurd (hf.answered v hans) (ha.2.2.2.2 v hv).1
  · exact hw i hold (pending_step ha hold hrow) hkey v hv hans

variable {req : RecordObjectRequest} {e : Effect}

theorem RowsOf.step (hf : f.Tagged) (ha : f.Promised minAge tx a) (hr : f.RowsOf key w)
    (happ : Applies e f.ledger (f.step (tx, a)).ledger)
    (hrec : ∀ l ∈ e.recorded, l.objectKey = key →
      (f.step (tx, a)).tagOf l.backendName l.storageKey = some w) :
    (f.step (tx, a)).RowsOf key w := by
  intro l hl hkey
  rcases happ.mem_locations.mp hl with ⟨hl, _⟩ | hl
  · rw [hf.tagOf_row ha hl]
    exact hr l hl hkey
  · exact hrec l hl hkey

theorem Sound.write_of_named (hs : f.Sound) (howns : f.Owns w req) {i : Issued} (hi : i ∈ f.issued)
    (hmem : i.row.intentID ∈ intentIDs req.copies) : i.write = some w := by
  obtain ⟨c, hc, hid⟩ := mem_map.mp hmem
  obtain ⟨_, _, j, hj, hjw, hnames⟩ := howns c hc
  rwa [hs.ids j hj i hi (hnames.1.trans hid)] at hjw

-- What a recording leaves of the key's intents is named as still uploading.
theorem Sound.write_of_left (hs : f.Sound) (ha : f.Promised minAge tx (.recordObject w req))
    (happ : Applies (.recording tx f.ledger req) f.ledger
      (f.step (tx, .recordObject w req)).ledger) {i : Issued} (hi : i ∈ f.issued)
    (hkey : i.row.objectKey = req.key)
    (hrow : i.row ∈ (f.step (tx, .recordObject w req)).ledger.pendingObjects.rows) :
    i.write = some w := by
  rcases happ.mem_pending.mp hrow with ⟨_, hkeep⟩ | hnew
  · have hmem : i.row.intentID ∈ intentIDs req.placing := by
      by_contra hnot
      simp [Effect.recording, TxAdapter.clears, hkey, hnot] at hkeep
    obtain ⟨c, hc, hid⟩ := mem_map.mp hmem
    obtain ⟨j, hj, hjw, hjid⟩ := ha.2.2 c hc
    rwa [hs.ids j hj i hi (hjid.trans hid)] at hjw
  · cases hnew

section

variable (hf : f.Tagged)
include hf

theorem recording_belongs (ha : f.Promised minAge tx (.recordObject w req))
    (happ : Applies (.recording tx f.ledger req) f.ledger
      (f.step (tx, .recordObject w req)).ledger) :
    (f.step (tx, .recordObject w req)).BelongsTo req.key w := by
  constructor
  · intro l hl hkey
    rcases happ.mem_locations.mp hl with ⟨_, hkeep⟩ | hl
    · exact absurd (mem_singleton.mpr hkey) (of_decide_eq_false hkeep)
    · obtain ⟨c, hc, rfl⟩ := mem_map.mp hl
      obtain ⟨_, _, i, hi, hiw, hnames⟩ := ha.2.1 c hc
      exact hf.tagOf_at ha hi hiw (hnames.location (hf.sound.named i hi).2 tx)
  · intro i hi hrow hkey v hv _
    exact Option.some.inj (hv.symm.trans (hf.sound.write_of_left ha happ hi hkey hrow))

theorem recordObject_elsewhere (ha : f.Promised minAge tx (.recordObject w req))
    (hcopies : req.copies ≠ [])
    (happ : Applies e f.ledger (f.step (tx, .recordObject w req)).ledger)
    (hrec : ∀ l ∈ e.recorded, l.objectKey = req.key) {v : WriteID} (hb : f.BelongsTo key v)
    (hne : key ≠ req.key) : (f.step (tx, .recordObject w req)).BelongsTo key v := by
  refine ⟨hb.1.step hf ha happ fun l hl hkey => ?_, fun i hi hrow hkey u hu hans => ?_⟩
  · exact absurd (hkey.symm.trans (hrec l hl)) hne
  · rcases mem_append.mp hans with hnew | hans
    · -- The intents of the write that calls are all of its own key.
      obtain rfl := mem_singleton.mp (answers_calls hnew)
      obtain ⟨c, hc⟩ := exists_mem_of_ne_nil _ hcopies
      obtain ⟨_, _, j, hj, hjw, hnames⟩ := ha.2.1 c hc
      have := hf.keys i hi j hj u hu hjw
      exact absurd (hkey.symm.trans (this.trans hnames.2.1)) hne
    · exact hb.2 i hi (pending_step ha hi hrow) hkey u hu hans

theorem overtaken_belongs (ha : f.Promised minAge tx (.recordObject w req))
    (happ : Applies (.overtaken req) f.ledger (f.step (tx, .recordObject w req)).ledger)
    (hord : (∀ i ∈ f.issued, i.write = some w → i.row ∈ f.ledger.pendingObjects.rows →
      i.row.intentID ∈ intentIDs req.copies) ∨ f.BelongsTo req.key w) {v : WriteID}
    (hb : f.BelongsTo req.key v) : ∃ u, (f.step (tx, .recordObject w req)).BelongsTo req.key u := by
  have hrows : ∀ u, f.RowsOf req.key u → (f.step (tx, .recordObject w req)).RowsOf req.key u :=
    fun u hr => hr.step hf ha happ fun l hl => by cases hl
  rcases hord with halone | hown
  · refine ⟨v, hrows v hb.1, fun i hi hrow hkey u hu hans => ?_⟩
    have hpend := pending_step ha hi hrow
    rcases mem_append.mp hans with hnew | hans
    · -- The call drops the intents it names.
      obtain rfl := mem_singleton.mp (answers_calls hnew)
      have hmem := halone i hi hu hpend
      rcases happ.mem_pending.mp hrow with ⟨_, hkeep⟩ | hclaimed
      · exact absurd ⟨(hf.sound.named i hi).1, hmem⟩ (of_decide_eq_false hkeep)
      · cases hclaimed
    · exact hb.2 i hi hpend hkey u hu hans
  · refine ⟨w, hrows w hown.1, fun i hi hrow hkey u hu hans => ?_⟩
    rcases mem_append.mp hans with hnew | hans
    · exact mem_singleton.mp (answers_calls hnew)
    · exact hown.2 i hi (pending_step ha hi hrow) hkey u hu hans

theorem promoting_belongs {i : Issued} (hi : i ∈ f.issued) (hiw : i.write = some w)
    (ha : f.Promised minAge tx (.promote i.row))
    (happ : Applies (.promoting tx f.ledger i.row) f.ledger (f.step (tx, .promote i.row)).ledger)
    (hwait : f.WaitersOf i.row.objectKey w) :
    (f.step (tx, .promote i.row)).BelongsTo i.row.objectKey w := by
  refine ⟨fun l hl hkey => ?_, hwait.step hf ha rfl⟩
  rcases happ.mem_locations.mp hl with ⟨_, hkeep⟩ | hl
  · exact absurd (mem_singleton.mpr hkey) (of_decide_eq_false hkeep)
  · obtain rfl := mem_singleton.mp hl
    exact hf.tagOf_at ha hi hiw (i.describes_row.location (hf.sound.named i hi).2 tx)

theorem BelongsTo.step (ha : f.Promised minAge tx a) (hcalls : a.calls = [])
    (hb : f.BelongsTo key w) (happ : Applies e f.ledger (f.step (tx, a)).ledger)
    (hrec : ∀ l ∈ e.recorded, l.objectKey = key →
      (f.step (tx, a)).tagOf l.backendName l.storageKey = some w) :
    (f.step (tx, a)).BelongsTo key w :=
  ⟨hb.1.step hf ha happ hrec, hb.2.step hf ha hcalls⟩

theorem belongs_step (ha : f.Promised minAge tx a) (hord : f.Orderly a)
    (hown : ∀ key, ∃ w, f.BelongsTo key w) (key : String) :
    ∃ w, (f.step (tx, a)).BelongsTo key w := by
  obtain ⟨w, hb⟩ := hown key
  rcases f.step_cases tx a with ⟨st, rfl, hset⟩ | ⟨op, e, hdoes, ho, happ⟩
  · refine ⟨w, fun l hl hkey => ?_, hb.2.step hf ha rfl⟩
    exact hb.1 l (hset.locations ▸ hl) hkey
  have hquiet : a.calls = [] → e.recorded = [] → ∃ w, (f.step (tx, a)).BelongsTo key w :=
    fun hcalls hnil => ⟨w, hb.step hf ha hcalls happ fun l hl => by
      rw [hnil] at hl
      exact by cases hl⟩
  cases a with
  | recordObject v req =>
    rcases recordObject_cases tx f.ledger req with ⟨hfail, hsame⟩ | ⟨_, hcopies, hdone⟩
    · -- A call that fails changes nothing.
      have hans : f.answers tx (.recordObject v req) = [] := if_neg (by simp [Act.succeeds,
        Act.does, hfail])
      refine ⟨w, fun l hl hkey => ?_, fun i hi hrow hkey u hu hans' => ?_⟩
      · exact hb.1 l (hsame ▸ hl) hkey
      · refine hb.2 i hi (pending_step ha hi hrow) hkey u hu ?_
        simpa [step, hans] using hans'
    · rcases hdone with ⟨hgone, happ⟩ | ⟨_, happ⟩ <;> by_cases hkey : key = req.key
      · subst hkey
        exact overtaken_belongs hf ha happ (hord hgone) hb
      · exact ⟨w, recordObject_elsewhere hf ha hcopies happ (fun l hl => by cases hl) hb hkey⟩
      · subst hkey
        exact ⟨v, recording_belongs hf ha happ⟩
      · refine ⟨w, recordObject_elsewhere hf ha hcopies happ (fun l hl => ?_) hb hkey⟩
        obtain ⟨c, _, rfl⟩ := mem_map.mp hl
        rfl
  | commitCompanion v p =>
    cases hdoes
    obtain ⟨hans, _, i, hi, hiw, hdesc⟩ := id ha
    cases ho with
    | joined hheld =>
      refine ⟨w, hb.step hf ha rfl happ fun l hl hkey => ?_⟩
      obtain rfl := mem_singleton.mp hl
      -- The intent waited, so the key is its write's.
      rw [← hdesc.1] at hheld
      have hv : v = w :=
        hb.2 i hi (hf.sound.held_row hi hheld) (hdesc.2.1.trans hkey) v hiw hans
      exact hf.tagOf_at ha hi (hv ▸ hiw) (hdesc.location (hf.sound.named i hi).2 tx)
    | nothing | untrusted => exact hquiet rfl rfl
  | placeCopy pl =>
    cases hdoes
    cases ho with
    | placed hheld hsrc hkey' hbackend hpath =>
      rename_i src
      refine ⟨w, hb.step hf ha rfl happ fun l hl hkey => ?_⟩
      obtain rfl := mem_singleton.mp hl
      obtain ⟨hbk, hp⟩ := placedCopy_address pl src
      have hsrcw := hb.1 src hsrc ((placedCopy_objectKey pl src).symm.trans hkey)
      rw [hbackend, hpath] at hsrcw
      exact (congrArg₂ _ hbk hp).trans (tagOf_placed hsrcw)
    | nothing | placementLost | placementRefused => exact hquiet rfl rfl
  | promote p =>
    cases hdoes
    obtain ⟨_, i, hi, rfl⟩ := id ha
    cases ho with
    | promoted hheld hrole hsup =>
      by_cases hkey : key = i.row.objectKey
      · subst hkey
        -- Placements are companions, which are not promoted.
        cases hiw : i.write with
        | none => simp [PendingObject.isCompanion, hf.sound.placements i hi hiw] at hrole
        | some v =>
          exact ⟨v, promoting_belongs hf hi hiw ha happ (hord hheld hrole hsup i hi rfl v hiw)⟩
      · refine ⟨w, hb.step hf ha rfl happ fun l hl hkey' => ?_⟩
        obtain rfl := mem_singleton.mp hl
        exact absurd hkey'.symm hkey
    | nothing | companionKept | companionDiscarded | superseded => exact hquiet rfl rfl
  | settle st => cases hdoes
  | _ =>
    cases hdoes
    cases ho <;> exact hquiet rfl rfl

end

structure Owned (f : Fleet) : Prop where
  tagged : f.Tagged
  owner : ∀ key, ∃ w, f.BelongsTo key w

theorem Owned.step (hf : f.Owned) {ev : TxAdapter × Act} (hl : f.Lawful minAge ev)
    (hord : f.Orderly ev.2) : (f.step ev).Owned where
  tagged := hf.tagged.step hl
  owner := belongs_step hf.tagged hl.2.2 hord hf.owner

theorem owned_start (quotas : Table BackendQuota sameBackend) : (start quotas).Owned where
  tagged := tagged_start quotas
  owner _ := ⟨0, fun _ hl => absurd hl List.not_mem_nil, fun _ hi => absurd hi List.not_mem_nil⟩

theorem Owned.oneWrite (hf : f.Owned) : f.OneWrite := by
  intro l hl l' hl' hkey
  obtain ⟨w, hrows, _⟩ := hf.owner l'.objectKey
  rw [hrows l hl hkey, hrows l' hl' rfl]
  exact ⟨Option.some_ne_none w, rfl⟩

end Steps

end Fleet

/-- **In every run of orderly acts, the recorded copies of a key belong to one write.** -/
theorem copies_of_one_write (minAge : Nat) (quotas : Table BackendQuota sameBackend)
    (run : List (TxAdapter × Act))
    (hrun : Along Fleet.step (fun f ev => f.Lawful minAge ev ∧ f.Orderly ev.2)
      (Fleet.start quotas) run) :
    (after Fleet.step (Fleet.start quotas) run).OneWrite :=
  (hrun.invariant (Fleet.owned_start quotas) fun _ _ hf h => hf.step h.1 h.2).oneWrite

/-- Write `0` is recorded while its second copy uploads; write `1` dies after its upload and the
reaper records it; the second copy of write `0` joins. -/
def promotedBetween : List (TxAdapter × Act) :=
  [(tick 1, .claim (some 0) (keyIntent "i" "b" .primary) 0),
   (tick 1, .claim (some 0) (keyIntent "i2" "c" .companion) 0),
   (tick 2, .recordObject 0 (keyCommit "i" "b" [⟨"c", "i2", "k!i2"⟩])),
   (tick 3, .claim (some 1) (keyIntent "j" "b" .primary) 0),
   (tick 10, .promote (keyRow 3 "j" "b" .primary)),
   (tick 11, .commitCompanion 0 (keyIntent "i2" "c" .companion))]

/-- Write `0` is recorded; write `1` claims two copies, and the reaper drops the first; the call of
write `1` succeeds without recording it, and its second copy joins. -/
def droppedBetween : List (TxAdapter × Act) :=
  [(tick 1, .claim (some 0) (keyIntent "i" "b" .primary) 0),
   (tick 2, .recordObject 0 (keyCommit "i" "b" [])),
   (tick 3, .claim (some 1) (keyIntent "j" "b" .primary) 0),
   (tick 3, .claim (some 1) (keyIntent "j2" "c" .companion) 0),
   (tick 10, .drop (keyRow 3 "j" "b" .primary)),
   (tick 11, .recordObject 1 (keyCommit "j" "b" [⟨"c", "j2", "k!j2"⟩])),
   (tick 12, .commitCompanion 1 (keyIntent "j2" "c" .companion))]

/-- Both runs end with copies of two writes under one key. -/
theorem companion_joins_other_write :
    (Along Fleet.step (Fleet.Lawful 5) (Fleet.start duoQuota) promotedBetween ∧
      ¬ (after Fleet.step (Fleet.start duoQuota) promotedBetween).OneWrite) ∧
    Along Fleet.step (Fleet.Lawful 5) (Fleet.start duoQuota) droppedBetween ∧
      ¬ (after Fleet.step (Fleet.start duoQuota) droppedBetween).OneWrite := by
  decide

def promotedAfter : List (TxAdapter × Act) :=
  [(tick 1, .claim (some 0) (keyIntent "i" "b" .primary) 0),
   (tick 1, .claim (some 0) (keyIntent "i2" "c" .companion) 0),
   (tick 2, .recordObject 0 (keyCommit "i" "b" [⟨"c", "i2", "k!i2"⟩])),
   (tick 3, .claim (some 1) (keyIntent "j" "b" .primary) 0),
   (tick 4, .commitCompanion 0 (keyIntent "i2" "c" .companion)),
   (tick 10, .promote (keyRow 3 "j" "b" .primary))]

theorem promotedAfter_one_write :
    (after Fleet.step (Fleet.start duoQuota) promotedAfter).ledger.objectLocations.rows ≠ [] ∧
      (after Fleet.step (Fleet.start duoQuota) promotedAfter).OneWrite :=
  ⟨by decide, copies_of_one_write 5 duoQuota promotedAfter (by decide)⟩

end S3Orchestrator
