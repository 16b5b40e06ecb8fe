import S3Orchestrator.Fleet.System

/-!
# Every path belongs to one intent

Whatever the interleaving, every row of `pending_objects` is an intent that was issued, and every
recorded copy and every queued deletion is at the path of an issued intent that has no row any more.
So an intent is claimed until one transaction takes its row, and that transaction decides what
becomes of its bytes.

* **`Fleet.Sound.step`**: every lawful act keeps the invariant.
-/

namespace S3Orchestrator

open RowStore List Ledger

def CleanupRequest.hits (c : CleanupRequest) (l : ObjectLocation) : Prop :=
  c.backendName = l.backendName ∧ c.storageKey = l.storageKey
  deriving Decidable

namespace Fleet

/-- What every lawful act keeps of the intents. -/
structure Sound (f : Fleet) : Prop where
  ids : ∀ i ∈ f.issued, ∀ j ∈ f.issued, i.row.intentID = j.row.intentID → i = j
  paths : ∀ i ∈ f.issued, ∀ j ∈ f.issued, i.at_ j.row.backendName j.row.storageKey → i = j
  named : ∀ i ∈ f.issued, i.row.intentID ≠ "" ∧ i.row.storageKey ≠ ""
  placements : ∀ i ∈ f.issued, i.write = none → i.row.role = .companion
  pending : ∀ q ∈ f.ledger.pendingObjects.rows, ∃ i ∈ f.issued, i.row = q
  recorded : ∀ l ∈ f.ledger.objectLocations.rows, ∃ i ∈ f.issued,
    i.at_ l.backendName l.storageKey ∧ f.ledger.holds i.row.intentID = false
  queued : ∀ c ∈ f.ledger.deletions, ∃ i ∈ f.issued,
    i.at_ c.backendName c.storageKey ∧ f.ledger.holds i.row.intentID = false

/-- The effect drops the rows of the intent. -/
def releases (f : Fleet) (e : Effect) (i : Issued) : Prop :=
  ∀ q ∈ f.ledger.pendingObjects.rows, q.intentID = i.row.intentID → e.dropped q = true

/-- Every path that an effect records or queues is that of an intent it releases. -/
structure Accounted (f : Fleet) (e : Effect) : Prop where
  recorded : ∀ l ∈ e.recorded, ∃ i ∈ f.issued,
    i.at_ l.backendName l.storageKey ∧ f.releases e i
  queued : ∀ c ∈ e.queued, ∃ i ∈ f.issued, i.at_ c.backendName c.storageKey ∧ f.releases e i

def unrecorded (f : Fleet) (backend path : String) : Prop :=
  ∀ l ∈ f.ledger.objectLocations.rows, ¬ (backend = l.backendName ∧ path = l.storageKey)
  deriving Decidable

def PlacedOnce (f : Fleet) : Prop :=
  ∀ i ∈ f.issued, i.write = none → i.row.intentID ∉ f.spent →
    f.unrecorded i.row.backendName i.row.storageKey

/-- A `RecordObject` or `CommitCompanionCopy` call that finds an intent gone runs while none of its
own paths is recorded. -/
def LateCallsClear (f : Fleet) : Act → Prop
  | .recordObject _ req => ¬ f.ledger.holdsAll (intentIDs req.copies) →
      ∀ c ∈ req.copies, f.unrecorded c.backend c.storageKey
  | .commitCompanion _ p => ¬ f.ledger.holdsAll [p.intentID] →
      f.unrecorded p.backendName p.storageKey
  | _ => True

/-- What an act queues: a copy that it removes, or the bytes of an intent that has no row after
it. -/
inductive Source (f : Fleet) (a : Act) (e : Effect) (c : CleanupRequest) : Prop
  | copy (l : ObjectLocation) (hl : l ∈ f.ledger.objectLocations.rows) (hrem : e.removed l = true)
      (hat : c.hits l)
  | intent (i : Issued) (hi : i ∈ f.issued) (hat : i.at_ c.backendName c.storageKey)
      (hrel : f.releases e i) (hnew : ∀ l ∈ e.recorded, ¬ i.at_ l.backendName l.storageKey)
      (hfree : f.PlacedOnce → f.LateCallsClear a →
        f.unrecorded i.row.backendName i.row.storageKey)

/-- An act records the bytes of intents whose row it takes, a placement's only by its own call. -/
structure Sourced (f : Fleet) (a : Act) (e : Effect) : Prop where
  recorded : ∀ l ∈ e.recorded, ∃ i ∈ f.issued, i.row ∈ f.ledger.pendingObjects.rows ∧
    i.at_ l.backendName l.storageKey ∧ e.dropped i.row = true ∧
      (i.write = none → i.row.intentID ∈ a.spends)
  queued : ∀ c ∈ e.queued, f.Source a e c

end Fleet

variable {req : RecordObjectRequest} {w : WriteID} {minAge : Nat}

/-! ## Issued intents -/

section Intents

variable {f : Fleet} {i j : Issued} {p : PendingObject}

theorem Fleet.releases_of_unheld {e : Effect} (h : f.ledger.holds i.row.intentID = false) :
    f.releases e i := by
  intro q hq hid
  have hheld : f.ledger.holds i.row.intentID = true := holds_iff.mpr ⟨q, hq, hid⟩
  rw [h] at hheld
  cases hheld

theorem Fleet.Sound.same_at (hs : f.Sound) (hi : i ∈ f.issued) (hj : j ∈ f.issued)
    {backend path : String} (hat : i.at_ backend path) (hat' : j.at_ backend path) : i = j :=
  hs.paths i hi j hj ⟨hat.1.trans hat'.1.symm, hat.2.trans hat'.2.symm⟩

theorem Fleet.Sound.row_of_id (hs : f.Sound) (hi : i ∈ f.issued) {q : PendingObject}
    (hq : q ∈ f.ledger.pendingObjects.rows) (hid : q.intentID = i.row.intentID) : q = i.row := by
  obtain ⟨j, hj, rfl⟩ := hs.pending q hq
  rw [hs.ids j hj i hi hid]

theorem Fleet.Sound.held_row (hs : f.Sound) (hi : i ∈ f.issued)
    (hheld : f.ledger.holdsAll [i.row.intentID]) : i.row ∈ f.ledger.pendingObjects.rows := by
  obtain ⟨q, hq, hid⟩ := holds_iff.mp (holdsAll_singleton.mp hheld (hs.named i hi).1)
  rw [hs.row_of_id hi hq hid] at hq
  exact hq

theorem Fleet.Sound.held_unrecorded (hs : f.Sound) (hi : i ∈ f.issued)
    (hrow : i.row ∈ f.ledger.pendingObjects.rows) :
    f.unrecorded i.row.backendName i.row.storageKey := by
  intro l hl hat
  obtain ⟨j, hj, hjat, hheld⟩ := hs.recorded l hl
  rw [← hs.same_at hi hj hat hjat, holds_iff.mpr ⟨i.row, hrow, rfl⟩] at hheld
  cases hheld

theorem Issued.at_.or_key {backend path : String} (h : i.at_ backend path)
    (hne : i.row.storageKey ≠ "") (key : String) :
    i.at_ backend (if path = "" then key else path) := by
  rw [if_neg (h.2 ▸ hne)]
  exact h

theorem Issued.describes.removal (h : i.describes p) (hne : i.row.storageKey ≠ "")
    (key reason : String) :
    i.at_ ((intentBytes p).request key reason).backendName
      ((intentBytes p).request key reason).storageKey :=
  h.2.2.or_key hne _

theorem Issued.describes.location (h : i.describes p) (hne : i.row.storageKey ≠ "")
    (tx : TxAdapter) : i.at_ (p.location tx).backendName (p.location tx).storageKey :=
  h.2.2.or_key hne _

theorem Issued.describes_row (i : Issued) : i.describes i.row := ⟨rfl, rfl, rfl, rfl⟩

theorem Issued.names.location {c : ObjectCopy} (h : i.names req.key c)
    (hne : i.row.storageKey ≠ "") (tx : TxAdapter) :
    i.at_ (tx.locationRow (req.location c)).backendName
      (tx.locationRow (req.location c)).storageKey :=
  h.2.2.or_key hne _

end Intents

/-! ## Transaction by transaction -/

namespace Fleet

section Sources

variable {f : Fleet} {tx : TxAdapter} {a : Act} {p : PendingObject} {i : Issued} {e : Effect}

section Sound

variable (hs : f.Sound)
include hs

theorem Sound.copy_source {l : ObjectLocation} (hl : l ∈ f.ledger.objectLocations.rows)
    (hrem : e.removed l = true) (reason : String) : f.Source a e (l.removal reason) := by
  obtain ⟨i, hi, hat, _⟩ := hs.recorded l hl
  have hne : l.storageKey ≠ "" := hat.2 ▸ (hs.named i hi).2
  exact .copy l hl hrem ⟨rfl, if_neg hne⟩

theorem Sound.held_source (hi : i ∈ f.issued) (hrow : i.row ∈ f.ledger.pendingObjects.rows)
    (hdesc : i.describes p) (hdrop : e.dropped i.row = true)
    (hnew : ∀ l ∈ e.recorded, ¬ i.at_ l.backendName l.storageKey) (key reason : String) :
    f.Source a e ((intentBytes p).request key reason) := by
  refine .intent i hi (hdesc.removal (hs.named i hi).2 key reason) (fun q hq hid => ?_) hnew
    fun _ _ => hs.held_unrecorded hi hrow
  rw [hs.row_of_id hi hq hid]
  exact hdrop

theorem dropping_sourced (hi : i ∈ f.issued) (hdesc : i.describes p)
    (hheld : f.ledger.holdsAll [p.intentID]) (reason : String) :
    f.Sourced a (.dropping p reason) where
  recorded _ hl := by cases hl
  queued c hc := by
    obtain rfl := mem_singleton.mp hc
    exact hs.held_source hi (hs.held_row hi (hdesc.1 ▸ hheld)) hdesc (decide_eq_true hdesc.1)
      (fun _ hl => by cases hl) _ _

theorem requeueing_sourced (hi : i ∈ f.issued) (hdesc : i.describes p)
    (hgone : ¬ f.ledger.holdsAll [p.intentID])
    (hfree : f.PlacedOnce → f.LateCallsClear a → f.unrecorded i.row.backendName i.row.storageKey)
    (key reason : String) : f.Sourced a (.requeueing p key reason) where
  recorded _ hl := by cases hl
  queued c hc := by
    obtain rfl := mem_singleton.mp hc
    refine .intent i hi (hdesc.removal (hs.named i hi).2 _ _) (releases_of_unheld ?_)
      (fun _ hl => by cases hl) hfree
    rw [holdsAll_singleton, ← hdesc.1] at hgone
    simpa using fun h => hgone fun _ => h

theorem recording_sourced (hcopies : f.Owns w req)
    (hheld : f.ledger.holdsAll (intentIDs req.copies)) :
    f.Sourced a (.recording tx f.ledger req) where
  recorded l hl := by
    obtain ⟨c, hc, rfl⟩ := mem_map.mp hl
    obtain ⟨_, hplacing, i, hi, hiw, hnames⟩ := hcopies c hc
    refine ⟨i, hi, ?_, hnames.location (hs.named i hi).2 tx, ?_, fun hw => ?_⟩
    · refine hs.held_row hi (holdsAll_singleton.mpr fun hne => ?_)
      rw [hnames.1] at hne ⊢
      exact hheld _ (mem_map_of_mem hc) hne
    · -- A committed intent is of the key and not kept, so it is cleared.
      simp [Effect.recording, TxAdapter.clears, hnames.1, hnames.2.1, hplacing]
    · rw [hiw] at hw
      cases hw
  queued c hc := by
    rcases mem_append.mp hc with hc | hc
    · obtain ⟨l, hl, rfl⟩ := mem_map.mp hc
      obtain ⟨hl, hkey⟩ := copiesOf_key hl
      exact hs.copy_source hl (decide_eq_true hkey) _
    · obtain ⟨p, hp, rfl⟩ := mem_map.mp hc
      obtain ⟨hp, hstale⟩ := mem_filter.mp hp
      obtain ⟨hp, hclear⟩ := mem_filter.mp hp
      obtain ⟨i, hi, rfl⟩ := hs.pending p hp
      refine hs.held_source hi hp i.describes_row hclear (fun l hl hat => ?_) _ _
      -- A stale intent is not one of those committed.
      obtain ⟨c, hc, rfl⟩ := mem_map.mp hl
      obtain ⟨_, _, j, hj, _, hnames⟩ := hcopies c hc
      obtain rfl := hs.same_at hi hj hat (hnames.location (hs.named j hj).2 tx)
      exact of_decide_eq_true hstale (hnames.1 ▸ mem_map_of_mem hc)

theorem overtaken_sourced (hcopies : f.Owns w req)
    (hfree : f.LateCallsClear a → ∀ c ∈ req.copies, f.unrecorded c.backend c.storageKey) :
    f.Sourced a (.overtaken req) where
  recorded _ hl := by cases hl
  queued d hd := by
    obtain ⟨c, hc, rfl⟩ := mem_map.mp hd
    obtain ⟨_, _, i, hi, _, hnames⟩ := hcopies c hc
    refine .intent i hi (hnames.2.2.or_key (hs.named i hi).2 _) (fun q _ hid => ?_)
      (fun _ hl => by cases hl) fun _ hclear => ?_
    · have hne : q.intentID ≠ "" := hid ▸ (hs.named i hi).1
      have hmem : q.intentID ∈ intentIDs req.copies := hid.trans hnames.1 ▸ mem_map_of_mem hc
      exact decide_eq_true ⟨hne, hmem⟩
    · rw [hnames.2.2.1, hnames.2.2.2]
      exact hfree hclear c hc

theorem placing_sourced {pl : Placement} {src : ObjectLocation}
    (hsrc : src ∈ f.ledger.objectLocations.rows) (hi : i ∈ f.issued) (hdesc : i.describes pl.intent)
    (hheld : f.ledger.holdsAll [pl.intent.intentID]) :
    f.Sourced (.placeCopy pl) (.placing tx pl src) where
  recorded l hl := by
    obtain rfl := mem_singleton.mp hl
    obtain ⟨hb, hp⟩ := placedCopy_address pl src
    exact ⟨i, hi, hs.held_row hi (hdesc.1 ▸ hheld),
      ⟨hdesc.2.2.1.trans hb.symm, hdesc.2.2.2.trans hp.symm⟩, decide_eq_true hdesc.1,
      fun _ => mem_singleton.mpr hdesc.1⟩
  queued c hc := by
    by_cases hmove : pl.removeSource = true
    · obtain rfl : c = src.removal pl.reasons.sourceDelete := by
        simpa [Effect.placing, hmove] using hc
      exact hs.copy_source hsrc (by simp [Effect.placing, hmove]) _
    · simp [Effect.placing, hmove] at hc

theorem promoting_sourced (hi : i ∈ f.issued) (hheld : f.ledger.holdsAll [i.row.intentID])
    (hrole : i.row.isCompanion = false) : f.Sourced a (.promoting tx f.ledger i.row) where
  recorded l hl := by
    obtain rfl := mem_singleton.mp hl
    refine ⟨i, hi, hs.held_row hi hheld, i.describes_row.location (hs.named i hi).2 tx,
      decide_eq_true rfl, fun hw => ?_⟩
    -- The reaper records no companion, and placements are companions.
    simp [PendingObject.isCompanion, hs.placements i hi hw] at hrole
  queued c hc := by
    obtain ⟨l, hl, rfl⟩ := mem_map.mp hc
    obtain ⟨hl, hkey⟩ := copiesOf_key hl
    exact hs.copy_source hl (decide_eq_true hkey) _

theorem joining_sourced (hi : i ∈ f.issued) (hiw : i.write = some w)
    (hdesc : i.describes p) (hheld : f.ledger.holdsAll [p.intentID]) :
    f.Sourced a (.joining tx p) where
  recorded l hl := by
    obtain rfl := mem_singleton.mp hl
    refine ⟨i, hi, hs.held_row hi (hdesc.1 ▸ hheld), hdesc.location (hs.named i hi).2 tx,
      decide_eq_true hdesc.1, fun hw => ?_⟩
    rw [hiw] at hw
    cases hw
  queued _ hc := by cases hc

theorem deleting_sourced (keys : List String) : f.Sourced a (.deleting f.ledger keys) where
  recorded _ hl := by cases hl
  queued c hc := by
    rcases mem_append.mp hc with hc | hc
    · obtain ⟨l, hl, rfl⟩ := mem_map.mp hc
      obtain ⟨hl, hkey⟩ := copiesOf_key hl
      exact hs.copy_source hl (decide_eq_true hkey) _
    · obtain ⟨p, hp, rfl⟩ := mem_map.mp hc
      obtain ⟨hp, hclear⟩ := mem_filter.mp hp
      obtain ⟨i, hi, rfl⟩ := hs.pending p hp
      exact hs.held_source hi hp i.describes_row hclear (fun _ hl => by cases hl) _ _

theorem removing_sourced {l : ObjectLocation} (hl : l ∈ f.ledger.objectLocations.rows)
    (reason : String) : f.Sourced a (.removing l reason) where
  recorded _ hr := by cases hr
  queued c hc := by
    by_cases hreason : reason = ""
    · simp [Effect.removing, hreason] at hc
    · obtain rfl : c = l.removal reason := by simpa [Effect.removing, hreason] using hc
      exact hs.copy_source hl (by simp [Effect.removing]) _

end Sound

theorem silent_sourced (hr : e.recorded = []) (hq : e.queued = []) : f.Sourced a e where
  recorded _ hl := by
    rw [hr] at hl
    cases hl
  queued _ hc := by
    rw [hq] at hc
    cases hc

/-- **Every lawful transaction takes what it records and queues from its own intents, the rows it
clears and the copies it removes.** -/
theorem lawful_sourced (hs : f.Sound) {op : Op} (ha : f.Promised minAge tx a)
    (hdoes : a.does = .inl op) (ho : Outcome tx f.ledger op e) : f.Sourced a e := by
  cases a with
  | recordObject w req =>
    cases hdoes
    cases ho with
    | nothing => exact silent_sourced rfl rfl
    | overtaken _ hgone => exact overtaken_sourced hs ha.2.1 fun hclear => hclear hgone
    | recorded _ hheld => exact recording_sourced hs ha.2.1 hheld
  | commitCompanion w p =>
    cases hdoes
    obtain ⟨_, _, i, hi, hiw, hdesc⟩ := ha
    cases ho with
    | nothing => exact silent_sourced rfl rfl
    | untrusted hgone =>
      refine requeueing_sourced hs hi hdesc hgone (fun _ hclear => ?_) _ _
      rw [hdesc.2.2.1, hdesc.2.2.2]
      exact hclear hgone
    | joined hheld => exact joining_sourced hs hi hiw hdesc hheld
  | placeCopy pl =>
    cases hdoes
    obtain ⟨hspent, _, i, hi, hw, hdesc⟩ := ha
    cases ho with
    | nothing => exact silent_sourced rfl rfl
    | placementLost hgone =>
      -- Only its own call records a placement, and this is that call.
      exact requeueing_sourced hs hi hdesc hgone
        (fun honce _ => honce i hi hw (hdesc.1 ▸ hspent)) _ _
    | placementRefused hheld => exact dropping_sourced hs hi hdesc hheld _
    | placed hheld hsrc => exact placing_sourced hs hsrc hi hdesc hheld
  | discard p reason =>
    cases hdoes
    obtain ⟨i, hi, hdesc⟩ := ha
    cases ho with
    | nothing => exact silent_sourced rfl rfl
    | discarded hheld => exact dropping_sourced hs hi hdesc hheld _
  | promote p =>
    cases hdoes
    obtain ⟨_, i, hi, rfl⟩ := ha
    cases ho with
    | nothing | companionKept => exact silent_sourced rfl rfl
    | companionDiscarded hheld | superseded hheld =>
      exact dropping_sourced hs hi i.describes_row hheld _
    | promoted hheld hrole => exact promoting_sourced hs hi hheld hrole
  | deleteObjectsBatch keys =>
    cases hdoes
    cases ho with
    | nothing => exact silent_sourced rfl rfl
    | deleted => exact deleting_sourced hs keys
  | deleteObjectLocation loc keepAtLeast reason =>
    cases hdoes
    cases ho with
    | nothing => exact silent_sourced rfl rfl
    | removed hl => exact removing_sourced hs hl _
  | settle st => cases hdoes
  | claim | drop =>
    cases hdoes
    cases ho <;> exact silent_sourced rfl rfl

theorem Sourced.accounted (hs : f.Sound) (h : f.Sourced a e) : f.Accounted e where
  recorded l hl := by
    obtain ⟨i, hi, _, hat, hdrop, _⟩ := h.recorded l hl
    exact ⟨i, hi, hat, fun q hq hid => hs.row_of_id hi hq hid ▸ hdrop⟩
  queued c hc := by
    cases h.queued c hc with
    | copy l hl _ hat =>
      obtain ⟨i, hi, hiat, hheld⟩ := hs.recorded l hl
      exact ⟨i, hi, ⟨hiat.1.trans hat.1.symm, hiat.2.trans hat.2.symm⟩, releases_of_unheld hheld⟩
    | intent i hi hat hrel => exact ⟨i, hi, hat, hrel⟩

end Sources

/-! ## The invariant -/

section Invariant

variable {f f' : Fleet} {tx : TxAdapter}

/-- Intents that share no id and no path with those issued before. -/
structure Fresh (f : Fleet) (new : List Issued) : Prop where
  single : ∀ i ∈ new, ∀ j ∈ new, i = j
  ids : ∀ i ∈ new, ∀ j ∈ f.issued, j.row.intentID ≠ i.row.intentID
  paths : ∀ i ∈ new, ∀ j ∈ f.issued, ¬ j.at_ i.row.backendName i.row.storageKey
  named : ∀ i ∈ new, i.row.intentID ≠ "" ∧ i.row.storageKey ≠ ""
  placements : ∀ i ∈ new, i.write = none → i.row.role = .companion

theorem fresh_nil (f : Fleet) : f.Fresh [] where
  single _ hi := by cases hi
  ids _ hi := by cases hi
  paths _ hi := by cases hi
  named _ hi := by cases hi
  placements _ hi := by cases hi

variable {e : Effect}

theorem unheld_after (happ : Applies e f.ledger f'.ledger) {new : List Issued}
    (hfresh : f.Fresh new) (hclaimed : ∀ q ∈ e.claimed, ∃ i ∈ new, i.row = q) {i : Issued}
    (hi : i ∈ f.issued) (hrel : f.releases e i) : f'.ledger.holds i.row.intentID = false := by
  rw [← Bool.not_eq_true, holds_iff]
  rintro ⟨q, hq, hid⟩
  rcases happ.mem_pending.mp hq with ⟨hq, hkeep⟩ | hq
  · rw [hrel q hq hid] at hkeep
    cases hkeep
  · obtain ⟨j, hj, rfl⟩ := hclaimed q hq
    exact hfresh.ids j hj i hi hid.symm

theorem Sound.of_applies (hs : f.Sound) (happ : Applies e f.ledger f'.ledger) (hacc : f.Accounted e)
    (new : List Issued) (hissued : f'.issued = new ++ f.issued) (hfresh : f.Fresh new)
    (hclaimed : ∀ q ∈ e.claimed, ∃ i ∈ new, i.row = q) : f'.Sound := by
  have hmem : ∀ {i}, i ∈ f'.issued ↔ i ∈ new ∨ i ∈ f.issued := by
    rw [hissued]
    exact mem_append
  have hhome : ∀ backend path,
      ((∃ i ∈ f.issued, i.at_ backend path ∧ f.ledger.holds i.row.intentID = false) ∨
        ∃ i ∈ f.issued, i.at_ backend path ∧ f.releases e i) →
      ∃ i ∈ f'.issued, i.at_ backend path ∧ f'.ledger.holds i.row.intentID = false := by
    rintro backend path (⟨i, hi, hat, hheld⟩ | ⟨i, hi, hat, hrel⟩)
    · exact ⟨i, hmem.mpr (.inr hi), hat,
        unheld_after happ hfresh hclaimed hi (releases_of_unheld hheld)⟩
    · exact ⟨i, hmem.mpr (.inr hi), hat, unheld_after happ hfresh hclaimed hi hrel⟩
  constructor
  case ids =>
    intro i hi j hj hid
    rcases hmem.mp hi with hi | hi <;> rcases hmem.mp hj with hj | hj
    · exact hfresh.single i hi j hj
    · exact absurd hid.symm (hfresh.ids i hi j hj)
    · exact absurd hid (hfresh.ids j hj i hi)
    · exact hs.ids i hi j hj hid
  case paths =>
    intro i hi j hj hat
    rcases hmem.mp hi with hi | hi <;> rcases hmem.mp hj with hj | hj
    · exact hfresh.single i hi j hj
    · exact absurd ⟨hat.1.symm, hat.2.symm⟩ (hfresh.paths i hi j hj)
    · exact absurd hat (hfresh.paths j hj i hi)
    · exact hs.paths i hi j hj hat
  case named => exact fun i hi => (hmem.mp hi).elim (hfresh.named i) (hs.named i)
  case placements => exact fun i hi => (hmem.mp hi).elim (hfresh.placements i) (hs.placements i)
  case pending =>
    intro q hq
    rcases happ.mem_pending.mp hq with ⟨hq, _⟩ | hq
    · obtain ⟨i, hi, hrow⟩ := hs.pending q hq
      exact ⟨i, hmem.mpr (.inr hi), hrow⟩
    · obtain ⟨i, hi, hrow⟩ := hclaimed q hq
      exact ⟨i, hmem.mpr (.inl hi), hrow⟩
  case recorded =>
    exact fun l hl => hhome _ _
      ((happ.mem_locations.mp hl).imp (fun h => hs.recorded l h.1) (hacc.recorded l))
  case queued =>
    exact fun c hc => hhome _ _
      ((mem_append.mp (happ.deletions.mem_iff.mp hc)).imp (hs.queued c) (hacc.queued c))

theorem Sound.of_settled (hs : f.Sound) (h : Settled f.ledger f'.ledger)
    (hissued : f'.issued = f.issued) : f'.Sound where
  ids := hissued ▸ hs.ids
  paths := hissued ▸ hs.paths
  named := hissued ▸ hs.named
  placements := hissued ▸ hs.placements
  pending := by
    rw [h.pending, hissued]
    exact hs.pending
  recorded := by
    rw [holds_congr h.pending, h.locations, hissued]
    exact hs.recorded
  queued c hc := by
    rw [holds_congr h.pending, hissued]
    exact hs.queued c (h.deletions.subset hc)

theorem holds_fresh (hs : f.Sound) {id : String} (hid : ∀ i ∈ f.issued, i.row.intentID ≠ id) :
    f.ledger.holds id = false := by
  rw [← Bool.not_eq_true, holds_iff]
  rintro ⟨q, hq, hqid⟩
  obtain ⟨i, hi, rfl⟩ := hs.pending q hq
  exact hid i hi hqid

theorem claim_issues (hs : f.Sound) {w : Option WriteID} {p : PendingObject}
    {accepts : BackendFlags} (hid : ∀ i ∈ f.issued, i.row.intentID ≠ p.intentID)
    (ho : Outcome tx f.ledger (.claim p accepts) e)
    (happ : Applies e f.ledger ((Op.claim p accepts).apply tx f.ledger)) :
    (e = {} ∧ f.issues tx (.claim w p accepts) = []) ∨ (e = .claiming [tx.pendingRow p] ∧
        f.issues tx (.claim w p accepts) = [⟨tx.pendingRow p, w, f.log.length⟩]) := by
  cases ho with
  | nothing =>
    refine .inl ⟨rfl, if_neg ?_⟩
    rw [holds_iff]
    rintro ⟨q, hq, hqid⟩
    rcases happ.mem_pending.mp hq with ⟨hq, _⟩ | hq
    · have := holds_fresh hs hid
      rw [holds_iff.mpr ⟨q, hq, hqid⟩] at this
      cases this
    · cases hq
  | claimed hfits hnew =>
    refine .inr ⟨rfl, if_pos ?_⟩
    refine holds_iff.mpr ⟨tx.pendingRow p, ?_, rfl⟩
    exact happ.mem_pending.mpr (.inr mem_cons_self)

theorem fresh_claim {w : Option WriteID} {p : PendingObject}
    {accepts : BackendFlags} (ha : f.Promised minAge tx (.claim w p accepts)) :
    f.Fresh [⟨tx.pendingRow p, w, f.log.length⟩] := by
  obtain ⟨hid, hpath, hnew, hrole, _⟩ := ha
  have hkey : (tx.pendingRow p).storageKey = p.storageKey := if_neg hpath
  refine ⟨fun i hi j hj => ?_, fun i hi j hj => ?_, fun i hi j hj => ?_, fun i hi => ?_,
    fun i hi hw => ?_⟩
  · rw [mem_singleton.mp hi, mem_singleton.mp hj]
  · obtain rfl := mem_singleton.mp hi
    exact (hnew j hj).1
  · obtain rfl := mem_singleton.mp hi
    rw [hkey]
    exact (hnew j hj).2
  · obtain rfl := mem_singleton.mp hi
    exact ⟨hid, hkey ▸ hpath⟩
  · obtain rfl := mem_singleton.mp hi
    have hrole := hrole hw
    simp [TxAdapter.pendingRow, PendingObject.roleOrDefault, hrole]

theorem step_cases (f : Fleet) (tx : TxAdapter) (a : Act) :
    (∃ st, a = .settle st ∧ Settled f.ledger (f.step (tx, a)).ledger) ∨
      ∃ op e, a.does = .inl op ∧ Outcome tx f.ledger op e ∧
        Applies e f.ledger (f.step (tx, a)).ledger := by
  have hledger : (f.step (tx, a)).ledger = a.apply tx f.ledger := rfl
  cases hdoes : a.does with
  | inr st =>
    cases a with
    | settle st => exact .inl ⟨st, rfl, apply_settled tx f.ledger st⟩
    | _ => cases hdoes
  | inl op =>
    obtain ⟨e, ho, happ⟩ := apply_outcome tx f.ledger op
    rw [hledger, Act.apply, hdoes]
    exact .inr ⟨op, e, rfl, ho, happ⟩

theorem Sound.step (hs : f.Sound) {ev : TxAdapter × Act}
    (hl : f.Lawful minAge ev) : (f.step ev).Sound := by
  obtain ⟨tx, a⟩ := ev
  have ha : f.Promised minAge tx a := hl.2.2
  rcases f.step_cases tx a with ⟨st, rfl, hset⟩ | ⟨op, e, hdoes, ho, happ⟩
  · exact hs.of_settled hset rfl
  have hacc := (lawful_sourced hs ha hdoes ho).accounted hs
  cases a with
  | claim w p accepts =>
    cases hdoes
    have hid : ∀ i ∈ f.issued, i.row.intentID ≠ p.intentID := fun i hi => (ha.2.2.1 i hi).1
    rcases claim_issues (w := w) hs hid ho happ with ⟨rfl, hissues⟩ | ⟨rfl, hissues⟩
    · refine hs.of_applies happ hacc _ (congrArg (· ++ f.issued) hissues) (fresh_nil f) ?_
      exact fun q hq => by cases hq
    · refine hs.of_applies happ hacc _ (congrArg (· ++ f.issued) hissues) (fresh_claim ha) ?_
      intro q hq
      obtain rfl := mem_singleton.mp hq
      exact ⟨_, mem_cons_self, rfl⟩
  | settle => cases hdoes
  | _ =>
    refine hs.of_applies happ hacc [] rfl (fresh_nil f) fun q hq => ?_
    cases hdoes
    cases ho <;> exact by cases hq

theorem sound_start (quotas : Table BackendQuota sameBackend) : (start quotas).Sound where
  ids _ hi := by cases hi
  paths _ hi := by cases hi
  named _ hi := by cases hi
  placements _ hi := by cases hi
  pending _ hq := by cases hq
  recorded _ hl := by cases hl
  queued _ hc := by cases hc

end Invariant

end Fleet

end S3Orchestrator
