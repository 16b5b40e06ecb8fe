import S3Orchestrator.Ledger.Stripes

/-!
# No stored bytes become untracked

A path on a backend is tracked when a recorded copy, an intent, a part, or a queued or dead-lettered
deletion names it. A transaction takes rows out of up to four tables; here every path it takes out
is shown to be recorded or queued again.

* **`transactions_keep_track`**.
-/

namespace S3Orchestrator

open RowStore List

/-! ## Tracked paths -/

def Ledger.queues (s : Ledger) (backend path : String) : Prop :=
  (∃ c ∈ s.cleanupQueue.map CleanupItem.request, c.backendName = backend ∧ c.storageKey = path) ∨
    ∃ c ∈ s.cleanupDLQ.map CleanupDLQItem.request, c.backendName = backend ∧ c.storageKey = path
  deriving Decidable

def Ledger.tracks (s : Ledger) (backend path : String) : Prop :=
  (∃ l ∈ s.objectLocations.rows, l.backendName = backend ∧ l.storageKey = path) ∨
  (∃ p ∈ s.pendingObjects.rows, p.backendName = backend ∧ p.storageKey = path) ∨
  (∃ q ∈ s.multipartParts.rows, s.uploadOn q.uploadID backend = true ∧ q.path = path) ∨
  s.queues backend path
  deriving Decidable

def Ledger.PathsNamed (s : Ledger) : Prop :=
  (∀ l ∈ s.objectLocations.rows, l.storageKey ≠ "") ∧
    ∀ p ∈ s.pendingObjects.rows, p.storageKey ≠ ""

/-! ## Requests and their rows -/

def Ledger.intentAt (s : Ledger) (intentID backend path : String) : Prop :=
  ∀ q ∈ s.pendingObjects.rows, q.intentID = intentID → q.backendName = backend ∧ q.storageKey = path
  deriving Decidable

def Op.describes (s : Ledger) : Op → Prop
  | .recordObject req => ∀ c ∈ req.copies,
      s.intentAt c.intentID c.backend (storagePath req.key c.storageKey)
  | .placeCopy p => s.intentAt p.intent.intentID p.intent.backendName p.intent.storageKey
  | .promotePending p | .commitCompanionCopy p | .discardPending p _ =>
    s.intentAt p.intentID p.backendName p.storageKey
  | .recordPart p =>
    s.intentAt p.intent.intentID p.intent.backendName
      (storagePath (partPath p.uploadID p.partNumber) p.intent.storageKey) ∧
    ∀ m ∈ s.multipartUploads.rows, m.uploadID = p.uploadID →
      m.backendName = p.intent.backendName
  | _ => True

instance (s : Ledger) : DecidablePred (Op.describes s) := by
  rintro ⟨⟩ <;> dsimp only [Op.describes] <;> infer_instance

def Op.accounts : Op → Bool
  | .recordObject _ | .deleteObjectsBatch _ | .placeCopy _ | .promotePending _
  | .commitCompanionCopy _ | .discardPending _ _ | .recordPart _
  | .deleteMultipartUpload _ _ _ => true
  | .deleteObjectLocation _ _ reason => decide (reason ≠ "")
  | .claim _ _ | .deletePending _ | .importObject _ => false

/-- The backend and path of every upload a request names; a promotion and a discard have one while
the intent has its row. -/
def Op.uploads (s : Ledger) : Op → List (String × String)
  | .recordObject req => req.copies.map fun c => (c.backend, storagePath req.key c.storageKey)
  | .placeCopy p =>
    if p.intent.storageKey = "" then [] else [(p.intent.backendName, p.intent.storageKey)]
  | .commitCompanionCopy p => [(p.backendName, storagePath p.objectKey p.storageKey)]
  | .promotePending p | .discardPending p _ =>
    if s.holdsAll [p.intentID] then [(p.backendName, storagePath p.objectKey p.storageKey)]
    else []
  | .recordPart p => [(p.intent.backendName,
      storagePath (partPath p.uploadID p.partNumber) p.intent.storageKey)]
  | _ => []

variable {backend path reason : String} {l : ObjectLocation} {req : RecordObjectRequest}

/-! ## Tracking under an effect -/

section Effects

variable {e : Effect} {s s' : Ledger}

theorem Applies.queues_old (h : Applies e s s')
    (hq : s.queues backend path) : s'.queues backend path := by
  rcases hq with ⟨c, hc, ha⟩ | hq
  · exact .inl ⟨c, h.mem_queue.mpr (.inl hc), ha⟩
  · exact .inr (by rw [h.dlq]; exact hq)

theorem Applies.tracks_queued (h : Applies e s s') {c : CleanupRequest} (hc : c ∈ e.queued) :
    s'.tracks c.backendName c.storageKey :=
  .inr (.inr (.inr (.inl ⟨c, h.mem_queue.mpr (.inr hc), rfl, rfl⟩)))

theorem Applies.tracks_recorded (h : Applies e s s') (hl : l ∈ e.recorded) :
    s'.tracks l.backendName l.storageKey :=
  .inl ⟨l, h.mem_locations.mpr (.inr hl), rfl, rfl⟩

/-- Every path whose row the effect takes out is tracked afterwards. -/
structure Retracked (e : Effect) (s s' : Ledger) : Prop where
  rows : ∀ l ∈ s.objectLocations.rows, e.removed l = true → s'.tracks l.backendName l.storageKey
  pending : ∀ p ∈ s.pendingObjects.rows, e.dropped p = true →
    s'.tracks p.backendName p.storageKey
  parts : ∀ q ∈ s.multipartParts.rows, ∀ backend, s.uploadOn q.uploadID backend = true →
    s'.tracks backend q.path

/-- What is tracked stays tracked, or its row is one the effect may take out. -/
theorem Applies.tracks_or (h : Applies e s s')
    (ht : s.tracks backend path) : s'.tracks backend path ∨ (∃ l ∈ s.objectLocations.rows,
        e.removed l = true ∧ l.backendName = backend ∧ l.storageKey = path) ∨
      (∃ p ∈ s.pendingObjects.rows,
        e.dropped p = true ∧ p.backendName = backend ∧ p.storageKey = path) ∨
      ∃ q ∈ s.multipartParts.rows, s.uploadOn q.uploadID backend = true ∧ q.path = path := by
  rcases ht with ⟨l, hl, hat⟩ | ⟨p, hp, hat⟩ | hpart | hq
  · cases hr : e.removed l with
    | false => exact .inl (.inl ⟨l, h.mem_locations.mpr (.inl ⟨hl, hr⟩), hat⟩)
    | true => exact .inr (.inl ⟨l, hl, hr, hat⟩)
  · cases hd : e.dropped p with
    | false => exact .inl (.inr (.inl ⟨p, h.mem_pending.mpr (.inl ⟨hp, hd⟩), hat⟩))
    | true => exact .inr (.inr (.inl ⟨p, hp, hd, hat⟩))
  · exact .inr (.inr (.inr hpart))
  · exact .inl (.inr (.inr (.inr (h.queues_old hq))))

theorem Applies.tracks (h : Applies e s s') (hre : Retracked e s s')
    (ht : s.tracks backend path) : s'.tracks backend path := by
  rcases h.tracks_or ht with h | ⟨l, hl, hr, rfl, rfl⟩ | ⟨p, hp, hd, rfl, rfl⟩ | ⟨q, hq, hup, rfl⟩
  · exact h
  · exact hre.rows l hl hr
  · exact hre.pending p hp hd
  · exact hre.parts q hq backend hup

theorem Applies.tracks_parts (h : Applies e s s') (hu : ∀ u, e.uploadsRemoved u = false)
    (hp : ∀ q, e.partsRemoved q = false) (q : MultipartPart) (hq : q ∈ s.multipartParts.rows)
    (backend : String) (hup : s.uploadOn q.uploadID backend = true) : s'.tracks backend q.path := by
  refine .inr (.inr (.inl ⟨q, h.mem_parts.mpr (.inl ⟨hq, hp q⟩), ?_, rfl⟩))
  rw [h.uploadOn_of_none hu]
  exact hup

end Effects

/-! ## Paths of queued and recorded bytes -/

section Paths

variable {e : Effect} {s s' : Ledger}

theorem Applies.tracks_removal (h : Applies e s s') (reason : String)
    (hpath : l.storageKey ≠ "") (hc : l.removal reason ∈ e.queued) :
    s'.tracks l.backendName l.storageKey := by
  have := h.tracks_queued hc
  rwa [show (l.removal reason).storageKey = l.storageKey from if_neg hpath] at this

theorem Applies.tracks_intent (h : Applies e s s') {p : PendingObject} (reason : String)
    (hpath : p.storageKey ≠ "") (hc : p.removal reason ∈ e.queued) :
    s'.tracks p.backendName p.storageKey := by
  have := h.tracks_queued hc
  rwa [show (p.removal reason).storageKey = p.storageKey from if_neg hpath] at this

theorem partPath_ne (uploadID : String) (n : Int) : partPath uploadID n ≠ "" := by
  intro h
  have := congrArg String.length h
  simp [partPath] at this

theorem MultipartPart.path_ne (q : MultipartPart) : q.path ≠ "" := by
  unfold MultipartPart.path storagePath
  split_ifs with h
  · exact partPath_ne _ _
  · exact h

end Paths

/-! ## Outcome by outcome -/

section Outcomes

variable {tx : TxAdapter} {s s' : Ledger} {p : PendingObject}

theorem recording_tracks (hnamed : s.PathsNamed)
    (hdesc : (Op.recordObject req).describes s) (h : Applies (.recording tx s req) s s') :
    Retracked (.recording tx s req) s s' where
  rows l hl hr := by
    refine h.tracks_removal cleanupReasonOverwritten (hnamed.1 l hl) ?_
    exact mem_append_left _ (mem_map_of_mem (mem_filter.mpr ⟨hl, hr⟩))
  pending p hp hd := by
    by_cases hc : p.intentID ∈ intentIDs req.copies
    · -- A committed intent's bytes are the copy recorded at its path.
      obtain ⟨c, hcm, hid⟩ := mem_map.mp hc
      obtain ⟨hb, hpth⟩ := hdesc c hcm p hp hid.symm
      rw [hb, hpth]
      exact h.tracks_recorded (mem_map_of_mem hcm)
    · refine h.tracks_intent cleanupReasonSupersededIntent (hnamed.2 p hp) ?_
      refine mem_append_right _ (mem_map_of_mem ?_)
      exact mem_filter.mpr ⟨mem_filter.mpr ⟨hp, hd⟩, by simpa using hc⟩
  parts := h.tracks_parts (fun _ => rfl) fun _ => rfl

theorem overtaken_tracks (hdesc : (Op.recordObject req).describes s)
    (h : Applies (.overtaken req) s s') : Retracked (.overtaken req) s s' where
  rows _ _ hr := by cases hr
  pending p hp hd := by
    obtain ⟨_, hmem⟩ := of_decide_eq_true hd
    obtain ⟨c, hcm, hid⟩ := mem_map.mp hmem
    obtain ⟨hb, hpth⟩ := hdesc c hcm p hp hid.symm
    rw [hb, hpth]
    exact h.tracks_queued (mem_map_of_mem hcm)
  parts := h.tracks_parts (fun _ => rfl) fun _ => rfl

theorem deleting_tracks {keys : List String} (hnamed : s.PathsNamed)
    (h : Applies (.deleting s keys) s s') : Retracked (.deleting s keys) s s' where
  rows l hl hr := by
    refine h.tracks_removal cleanupReasonDeleted (hnamed.1 l hl) ?_
    exact mem_append_left _ (mem_map_of_mem (mem_filter.mpr ⟨hl, hr⟩))
  pending p hp hd := by
    refine h.tracks_intent cleanupReasonSupersededIntent (hnamed.2 p hp) ?_
    exact mem_append_right _ (mem_map_of_mem (mem_filter.mpr ⟨hp, hd⟩))
  parts := h.tracks_parts (fun _ => rfl) fun _ => rfl

theorem removing_tracks (hl : l ∈ s.objectLocations.rows)
    (hnamed : s.PathsNamed) (hreason : reason ≠ "") (h : Applies (.removing l reason) s s') :
    Retracked (.removing l reason) s s' where
  rows a ha hr := by
    obtain ⟨hkey, hbackend⟩ := of_decide_eq_true hr
    obtain rfl := slot_unique ha hl hkey hbackend
    refine h.tracks_removal reason (hnamed.1 a ha) ?_
    simp [Effect.removing, hreason]
  pending _ _ hd := by cases hd
  parts := h.tracks_parts (fun _ => rfl) fun _ => rfl

theorem dropping_tracks (hnamed : s.PathsNamed)
    (hdesc : s.intentAt p.intentID p.backendName p.storageKey)
    (h : Applies (.dropping p reason) s s') : Retracked (.dropping p reason) s s' where
  rows _ _ hr := by cases hr
  pending q hq hd := by
    obtain ⟨hb, hp⟩ := hdesc q hq (of_decide_eq_true hd)
    have hne := hnamed.2 q hq
    rw [hp] at hne
    rw [hb, hp]
    exact h.tracks_intent reason hne mem_cons_self
  parts := h.tracks_parts (fun _ => rfl) fun _ => rfl

theorem requeueing_tracks {key : String} (h : Applies (.requeueing p key reason) s s') :
    Retracked (.requeueing p key reason) s s' where
  rows _ _ hr := by cases hr
  pending _ _ hd := by cases hd
  parts := h.tracks_parts (fun _ => rfl) fun _ => rfl

theorem placing_tracks {p : Placement} {src : ObjectLocation} (hsrc : src ∈ s.objectLocations.rows)
    (hnamed : s.PathsNamed) (hdesc : (Op.placeCopy p).describes s)
    (h : Applies (.placing tx p src) s s') : Retracked (.placing tx p src) s s' where
  rows a ha hr := by
    have hr : p.removeSource = true ∧ a.objectKey = src.objectKey ∧
        a.backendName = src.backendName := by simpa [Effect.placing] using hr
    obtain rfl := slot_unique ha hsrc hr.2.1 hr.2.2
    refine h.tracks_removal p.reasons.sourceDelete (hnamed.1 a ha) ?_
    simp [Effect.placing, hr.1]
  pending q hq hd := by
    obtain ⟨hb, hp⟩ := hdesc q hq (of_decide_eq_true hd)
    obtain ⟨hb', hp'⟩ := placedCopy_address p src
    rw [hb, hp, ← hb', ← hp']
    exact h.tracks_recorded (l := tx.locationRow (p.placedCopy src)) mem_cons_self
  parts := h.tracks_parts (fun _ => rfl) fun _ => rfl

theorem recordedIntent_tracks (tx : TxAdapter) {e : Effect} (hnamed : s.PathsNamed)
    (hdesc : s.intentAt p.intentID p.backendName p.storageKey) (h : Applies e s s')
    (hrec : p.location tx ∈ e.recorded) {q : PendingObject} (hq : q ∈ s.pendingObjects.rows)
    (hid : q.intentID = p.intentID) :
    s'.tracks q.backendName q.storageKey := by
  obtain ⟨hb, hp⟩ := hdesc q hq hid
  have hne := hnamed.2 q hq
  rw [hp] at hne
  have := h.tracks_recorded hrec
  rw [show (p.location tx).storageKey = p.storageKey from storagePath_of_ne hne _] at this
  rw [hb, hp]
  exact this

theorem promoting_tracks (hnamed : s.PathsNamed)
    (hdesc : s.intentAt p.intentID p.backendName p.storageKey)
    (h : Applies (.promoting tx s p) s s') : Retracked (.promoting tx s p) s s' where
  rows l hl hr := by
    refine h.tracks_removal cleanupReasonOverwritten (hnamed.1 l hl) ?_
    exact mem_map_of_mem (mem_filter.mpr ⟨hl, hr⟩)
  pending _ hq hd :=
    recordedIntent_tracks tx hnamed hdesc h mem_cons_self hq (of_decide_eq_true hd)
  parts := h.tracks_parts (fun _ => rfl) fun _ => rfl

theorem joining_tracks (hnamed : s.PathsNamed)
    (hdesc : s.intentAt p.intentID p.backendName p.storageKey)
    (h : Applies (.joining tx p) s s') : Retracked (.joining tx p) s s' where
  rows _ _ hr := by cases hr
  pending _ hq hd :=
    recordedIntent_tracks tx hnamed hdesc h mem_cons_self hq (of_decide_eq_true hd)
  parts := h.tracks_parts (fun _ => rfl) fun _ => rfl

theorem keeping_tracks (hrec : s.recordedAt p)
    (hdesc : s.intentAt p.intentID p.backendName p.storageKey)
    (h : Applies (.forgetting p.intentID) s s') : Retracked (.forgetting p.intentID) s s' where
  rows _ _ hr := by cases hr
  pending q hq hd := by
    obtain ⟨hb, hp⟩ := hdesc q hq (of_decide_eq_true hd)
    obtain ⟨l, hl, hlb, hlp⟩ := hrec
    rw [hb, hp]
    exact .inl ⟨l, h.mem_locations.mpr (.inl ⟨(copiesOf_key hl).1, rfl⟩), hlb, hlp⟩
  parts := h.tracks_parts (fun _ => rfl) fun _ => rfl

theorem recordingPart_tracks {p : RecordPartParams}
    (hupload : ∃ m ∈ s.multipartUploads.rows, m.uploadID = p.uploadID)
    (hdesc : (Op.recordPart p).describes s) {replaced : Option MultipartPart}
    (hfind : s.multipartParts.rows.find? (fun q => samePart q (tx.partRow p)) = replaced)
    (h : Applies (.recordingPart tx p replaced) s s') :
    Retracked (.recordingPart tx p replaced) s s' where
  rows _ _ hr := by cases hr
  pending q hq hd := by
    -- The intent's bytes are the part just recorded at its path.
    obtain ⟨hb, hp⟩ := hdesc.1 q hq (of_decide_eq_true hd)
    obtain ⟨m, hm, hid⟩ := hupload
    refine .inr (.inr (.inl ⟨tx.partRow p, h.mem_parts.mpr (.inr mem_cons_self), ?_, ?_⟩))
    · rw [h.uploadOn_of_none fun _ => rfl, hb]
      exact uploadOn_iff.mpr ⟨m, hm, hid, hdesc.2 m hm hid⟩
    · rw [hp]
      rfl
  parts q hq b hup := by
    by_cases hsame : samePart q (tx.partRow p) = true
    · -- The part replaced is queued where its upload put it.
      cases replaced with
      | none => exact absurd hsame (by simpa using find?_eq_none.mp hfind q hq)
      | some r =>
        have hr : samePart r (tx.partRow p) = true := by simpa using find?_some hfind
        obtain rfl := part_unique hq (mem_of_find?_eq_some hfind) hsame hr
        obtain ⟨m, hm, hid, rfl⟩ := uploadOn_iff.mp hup
        have hup' : q.uploadID = p.uploadID := by
          simp only [samePart, Bool.and_eq_true, decide_eq_true_eq] at hsame
          exact hsame.1
        rw [hdesc.2 m hm (hid.trans hup')]
        have := h.tracks_queued mem_cons_self
        rwa [show (CleanupRequest.storageKey _) = q.path from if_neg q.path_ne] at this
    · refine .inr (.inr (.inl ⟨q, h.mem_parts.mpr (.inl ⟨hq, by
        simpa [Effect.recordingPart] using hsame⟩), ?_, rfl⟩))
      rw [h.uploadOn_of_none fun _ => rfl]
      exact hup

theorem deletingUpload_tracks {uploadID : String} {m : MultipartUpload}
    (hm : m ∈ s.multipartUploads.rows) (hid : m.uploadID = uploadID)
    (h : Applies (.deletingUpload s uploadID m.backendName reason) s s') :
    Retracked (.deletingUpload s uploadID m.backendName reason) s s' where
  rows _ _ hr := by cases hr
  pending _ _ hd := by cases hd
  parts q hq b hup := by
    obtain ⟨m', hm', hid', rfl⟩ := uploadOn_iff.mp hup
    by_cases hq' : q.uploadID = uploadID
    · obtain rfl := upload_unique hm' hm (by rw [hid', hq', hid])
      have := h.tracks_queued (c := q.removal m'.backendName reason)
        (mem_map_of_mem (mem_filter.mpr ⟨hq, by simpa using hq'⟩))
      rwa [show (q.removal m'.backendName reason).storageKey = q.path from if_neg q.path_ne] at this
    · refine .inr (.inr (.inl ⟨q, h.mem_parts.mpr (.inl ⟨hq, by
        simpa [Effect.deletingUpload] using hq'⟩), ?_, rfl⟩))
      refine uploadOn_iff.mpr ⟨m', h.mem_uploads.mpr ⟨hm', ?_⟩, hid', rfl⟩
      simpa [Effect.deletingUpload, hid'] using hq'

theorem Outcome.tracks {op : Op} {e : Effect} (ho : Outcome tx s op e) (hacc : op.accounts = true)
    (hnamed : s.PathsNamed) (hdesc : op.describes s) (h : Applies e s s') : Retracked e s s' := by
  cases ho with
  | nothing =>
    exact ⟨fun _ _ hr => (by cases hr), fun _ _ hd => (by cases hd),
      h.tracks_parts (fun _ => rfl) fun _ => rfl⟩
  | claimed | forgotten | imported => cases hacc
  | overtaken => exact overtaken_tracks hdesc h
  | recorded => exact recording_tracks hnamed hdesc h
  | deleted => exact deleting_tracks hnamed h
  | removed hl => exact removing_tracks hl hnamed (of_decide_eq_true hacc) h
  | placed _ hsrc => exact placing_tracks hsrc hnamed hdesc h
  | companionKept _ _ hrec => exact keeping_tracks hrec hdesc h
  | placementRefused | companionDiscarded | superseded | discarded =>
    exact dropping_tracks hnamed hdesc h
  | promoted => exact promoting_tracks hnamed hdesc h
  | placementLost | untrusted | partLost => exact requeueing_tracks h
  | joined => exact joining_tracks hnamed hdesc h
  | partRecorded _ hupload => exact recordingPart_tracks hupload hdesc rfl h
  | uploadDeleted hm hid => exact deletingUpload_tracks hm hid h

end Outcomes

/-! ## The bytes a request names -/

section Requests

variable {tx : TxAdapter} {s : Ledger}

theorem recordObject_uploads
    (hok : (Op.recordObject req).succeeds tx s = true) {a : String × String}
    (ha : a ∈ (Op.recordObject req).uploads s) :
    ((Op.recordObject req).apply tx s).tracks a.1 a.2 := by
  obtain ⟨u, h⟩ := Tx.commit_of_isOk hok
  obtain ⟨c, hc, rfl⟩ := mem_map.mp ha
  rcases recordObjectTx_ok (recordObject_ok h).2 with ⟨_, happ⟩ | ⟨_, happ⟩
  · exact happ.tracks_queued (mem_map_of_mem hc)
  · exact happ.tracks_recorded (mem_map_of_mem hc)

theorem placeCopy_uploads {p : Placement} (hok : (Op.placeCopy p).succeeds tx s = true)
    (hpath : p.intent.storageKey ≠ "") :
    ((Op.placeCopy p).apply tx s).tracks p.intent.backendName p.intent.storageKey := by
  obtain ⟨u, h⟩ := Tx.commit_of_isOk hok
  rcases placeCopyTx_ok h with ⟨_, _, happ⟩ | ⟨_, _, happ⟩ | ⟨_, _, src, _, _, _, _, happ⟩
  · have := happ.tracks_queued mem_cons_self
    rwa [show (CleanupRequest.storageKey _) = p.intent.storageKey from if_neg hpath] at this
  · exact happ.tracks_intent p.reasons.orphan hpath mem_cons_self
  · obtain ⟨hb, hp⟩ := placedCopy_address p src
    have := happ.tracks_recorded (l := tx.locationRow (p.placedCopy src)) (by simp [Effect.placing])
    rw [← hb, ← hp]
    exact this

theorem commitCompanionCopy_uploads {p : PendingObject}
    (hok : (Op.commitCompanionCopy p).succeeds tx s = true) :
    ((Op.commitCompanionCopy p).apply tx s).tracks p.backendName
      (storagePath p.objectKey p.storageKey) := by
  obtain ⟨u, h⟩ := Tx.commit_of_isOk hok
  rcases commitCompanionTx_ok (Tx.mapError_eq_ok.mp h) with ⟨_, _, happ⟩ | ⟨_, _, happ⟩
  · exact happ.tracks_queued mem_cons_self
  · exact happ.tracks_recorded mem_cons_self

theorem promotePending_uploads {p : PendingObject} (hnamed : s.PathsNamed)
    (hok : (Op.promotePending p).succeeds tx s = true) (hheld : s.holdsAll [p.intentID]) :
    ((Op.promotePending p).apply tx s).tracks p.backendName
      (storagePath p.objectKey p.storageKey) := by
  obtain ⟨u, h⟩ := Tx.commit_of_isOk hok
  rcases promotePendingTx_ok (Tx.mapError_eq_ok.mp h) with ⟨hgone, _⟩ |
    ⟨_, ⟨_, ⟨l, hl, hb, hp⟩, _, happ⟩ | ⟨_, _, _, happ⟩ | ⟨_, _, _, happ⟩ | ⟨_, _, _, happ⟩⟩
  · exact absurd hheld hgone
  · -- A companion that is recorded already keeps its copy.
    have hl := (copiesOf_key hl).1
    rw [storagePath_of_ne (hp ▸ hnamed.1 l hl)]
    exact .inl ⟨l, happ.mem_locations.mpr (.inl ⟨hl, rfl⟩), hb, hp⟩
  · exact happ.tracks_queued mem_cons_self
  · exact happ.tracks_queued mem_cons_self
  · exact happ.tracks_recorded mem_cons_self

theorem discardPending_uploads {p : PendingObject}
    (hok : (Op.discardPending p reason).succeeds tx s = true) (hheld : s.holdsAll [p.intentID]) :
    ((Op.discardPending p reason).apply tx s).tracks p.backendName
      (storagePath p.objectKey p.storageKey) := by
  obtain ⟨u, h⟩ := Tx.commit_of_isOk hok
  rcases discardPending_effect h with ⟨hgone, _⟩ | ⟨_, happ⟩
  · exact absurd hheld hgone
  · exact happ.tracks_queued mem_cons_self

theorem recordPart_uploads {p : RecordPartParams} (hok : (Op.recordPart p).succeeds tx s = true)
    (hdesc : (Op.recordPart p).describes s) :
    ((Op.recordPart p).apply tx s).tracks p.intent.backendName
      (storagePath (partPath p.uploadID p.partNumber) p.intent.storageKey) := by
  obtain ⟨_, hbackend⟩ := hdesc
  obtain ⟨u, h⟩ := Tx.commit_of_isOk hok
  obtain ⟨⟨m, hm, hid⟩, ⟨_, _, happ⟩ | ⟨_, _, happ⟩⟩ := recordPart_ok h
  · exact happ.tracks_queued mem_cons_self
  · refine .inr (.inr (.inl ⟨tx.partRow p, happ.mem_parts.mpr (.inr mem_cons_self), ?_, rfl⟩))
    refine (happ.uploadOn_of_none (fun _ => rfl) _ _).trans ?_
    exact uploadOn_iff.mpr ⟨m, hm, hid, hbackend m hm hid⟩

theorem mem_heldUpload {id : String} {a u : String × String}
    (ha : a ∈ if s.holdsAll [id] then [u] else []) : s.holdsAll [id] ∧ a = u := by
  split_ifs at ha with hheld
  · exact ⟨hheld, mem_singleton.mp ha⟩
  · cases ha

/-- **No stored bytes become untracked** by a transaction that must account for bytes and has the
addresses of its intents right; it tracks every path its request names. -/
theorem transactions_keep_track (tx : TxAdapter) (s : Ledger) (op : Op)
    (hacc : op.accounts = true) (hnamed : s.PathsNamed) (hdesc : op.describes s) :
    (∀ backend path, s.tracks backend path → (op.apply tx s).tracks backend path) ∧
      (op.succeeds tx s = true → ∀ a ∈ op.uploads s, (op.apply tx s).tracks a.1 a.2) := by
  obtain ⟨e, hout, happ⟩ := apply_outcome tx s op
  refine ⟨fun _ _ => happ.tracks (hout.tracks hacc hnamed hdesc happ), fun hok a ha => ?_⟩
  cases op with
  | recordObject req => exact recordObject_uploads hok ha
  | placeCopy p =>
    by_cases hpath : p.intent.storageKey = ""
    · rw [Op.uploads, if_pos hpath] at ha
      cases ha
    · rw [Op.uploads, if_neg hpath] at ha
      obtain rfl := mem_singleton.mp ha
      exact placeCopy_uploads hok hpath
  | commitCompanionCopy p =>
    obtain rfl := mem_singleton.mp ha
    exact commitCompanionCopy_uploads hok
  | promotePending p =>
    obtain ⟨hheld, rfl⟩ := mem_heldUpload ha
    exact promotePending_uploads hnamed hok hheld
  | discardPending p reason =>
    obtain ⟨hheld, rfl⟩ := mem_heldUpload ha
    exact discardPending_uploads hok hheld
  | recordPart p =>
    obtain rfl := mem_singleton.mp ha
    exact recordPart_uploads hok hdesc
  | claim | deleteObjectsBatch | deleteObjectLocation | deletePending | importObject
  | deleteMultipartUpload => cases ha

end Requests

def soloIntent : PendingObject :=
  { intentID := "i", objectKey := "k", storageKey := "k!i", backendName := "b", sizeBytes := 5 }

def soloClaimed : Ledger :=
  (Op.claim soloIntent 0).apply ⟨"", 1, fun _ _ => false⟩ (Ledger.provisioned soloQuota)

def soloCommit (path : String) : RecordObjectRequest :=
  { key := "k", size := 5, copies := [⟨"b", "i", path⟩] }

def unnamedCopy : Ledger :=
  { Ledger.provisioned soloQuota with
    objectLocations := ⟨[{ objectKey := "k", backendName := "b", storageKey := "" }], by decide⟩ }

def uploadedPart : Ledger :=
  { Ledger.provisioned duoQuota with
    multipartUploads := ⟨[{ uploadID := "u", backendName := "b" }], by decide⟩
    multipartParts := ⟨[{ uploadID := "u", partNumber := 1, storageKey := "p!i" }], by decide⟩ }

def strayPart : RecordPartParams :=
  { uploadID := "u", partNumber := 1, sizeBytes := 1,
    intent := { intentID := "", objectKey := "p", storageKey := "p!j", backendName := "c" } }

/-- A commit that misnames its intent's path loses the bytes there; so do the delete of a copy that
names no path and a part recorded off its backend; a discard whose intent is gone tracks nothing. -/
theorem misnamed_path_untracked :
    (soloClaimed.tracks "b" "k!i" ∧
      ¬ ((Op.recordObject (soloCommit "k!j")).apply ⟨"", 2, fun _ _ => false⟩
        soloClaimed).tracks "b" "k!i") ∧
    (unnamedCopy.tracks "b" "" ∧
      ¬ ((Op.deleteObjectsBatch ["k"]).apply ⟨"", 2, fun _ _ => false⟩ unnamedCopy).tracks
        "b" "") ∧
    (uploadedPart.tracks "b" "p!i" ∧
      ¬ ((Op.recordPart strayPart).apply ⟨"", 2, fun _ _ => false⟩ uploadedPart).tracks
        "b" "p!i") ∧
    (Op.discardPending soloIntent "r").succeeds ⟨"", 2, fun _ _ => false⟩
        (Ledger.provisioned soloQuota) = true ∧
      ¬ ((Op.discardPending soloIntent "r").apply ⟨"", 2, fun _ _ => false⟩
        (Ledger.provisioned soloQuota)).tracks "b" "k!i" := by
  decide

theorem soloCommit_keeps_track :
    ((Op.recordObject (soloCommit "k!i")).apply ⟨"", 2, fun _ _ => false⟩
      soloClaimed).tracks "b" "k!i" :=
  (transactions_keep_track _ soloClaimed (.recordObject (soloCommit "k!i")) rfl
    ⟨by decide, by decide⟩ (by decide)).1 "b" "k!i" (by decide)

end S3Orchestrator
