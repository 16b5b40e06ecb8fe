import S3Orchestrator.Ledger.Capacity
import S3Orchestrator.Ledger.Import
import S3Orchestrator.Ledger.Tracked
import S3Orchestrator.Multipart.Completion
import S3Orchestrator.Store.Backends

/-!
# Every stored path is counted once

Three tables name stored paths and are added up as what a backend holds: recorded copies, intents
and parts. A path passes from an intent to the copy or the part it becomes in one transaction, and
a new path comes in with a claim, or with an import of a path that the ledger says it does not
track. It asks the queues, the intents and the copies, but not the parts.

* **`counted_once_iff`**.
-/

namespace S3Orchestrator

open RowStore List Effect Ledger

/-! ## Owners of paths -/

/-- A row that names a stored path and counts its bytes. -/
inductive Owner where
  | copy (l : ObjectLocation)
  | part (q : MultipartPart)
  | intent (p : PendingObject)

namespace Owner

def path : Owner → String
  | copy l => l.storageKey
  | part q => q.path
  | intent p => p.storageKey

def sizeBytes : Owner → Int
  | copy l => l.sizeBytes
  | part q => q.sizeBytes
  | intent p => p.sizeBytes

end Owner

def Ledger.ownersOn (s : Ledger) (backend : String) : List Owner :=
  (s.objectLocations.rows.filter fun l => decide (l.backendName = backend)).map .copy ++
    ((s.multipartParts.rows.filter fun q => s.uploadOn q.uploadID backend).map .part ++
      (s.pendingObjects.rows.filter fun p => decide (p.backendName = backend)).map .intent)

/-- No path of a backend is named by two rows, and the counter and the rows in flight add up to the
size of the rows. -/
structure Ledger.CountedOnce (s : Ledger) : Prop where
  paths : ∀ backend, ((s.ownersOn backend).map Owner.path).Nodup
  bytes : ∀ backend, s.stripeTotal backend + s.inflightBytes backend =
    ((s.ownersOn backend).map Owner.sizeBytes).sum

def Ledger.Distinct (s : Ledger) : Prop :=
  ∀ backend, ∀ o ∈ s.ownersOn backend, ∀ o' ∈ s.ownersOn backend, o.path = o'.path → o = o'

section Owners

variable {s s' : Ledger} {backend : String}

@[simp] theorem copy_mem_ownersOn {l : ObjectLocation} : .copy l ∈ s.ownersOn backend ↔
    l ∈ s.objectLocations.rows ∧ l.backendName = backend := by
  simp [ownersOn]

@[simp] theorem part_mem_ownersOn {q : MultipartPart} : .part q ∈ s.ownersOn backend ↔
    q ∈ s.multipartParts.rows ∧ s.uploadOn q.uploadID backend = true := by
  simp [ownersOn]

@[simp] theorem intent_mem_ownersOn {p : PendingObject} : .intent p ∈ s.ownersOn backend ↔
    p ∈ s.pendingObjects.rows ∧ p.backendName = backend := by
  simp [ownersOn]

theorem ownersOn_nodup (s : Ledger) (backend : String) : (s.ownersOn backend).Nodup := by
  have hcopies : s.objectLocations.rows.Nodup := s.objectLocations.nodup fun l => by
    simp [sameSlot]
  have hparts : s.multipartParts.rows.Nodup := s.multipartParts.nodup fun q => by
    simp [samePart]
  have hintents : s.pendingObjects.rows.Nodup := s.pendingObjects.nodup fun p => by
    simp [sameIntent]
  refine List.Nodup.append ?_ (List.Nodup.append ?_ ?_ ?_) ?_
  · exact (hcopies.filter _).map fun _ _ h => Owner.copy.inj h
  · exact (hparts.filter _).map fun _ _ h => Owner.part.inj h
  · exact (hintents.filter _).map fun _ _ h => Owner.intent.inj h
  · rw [disjoint_left]
    rintro o ho ho'
    obtain ⟨q, -, rfl⟩ := mem_map.mp ho
    simp at ho'
  · rw [disjoint_left]
    rintro o ho ho'
    obtain ⟨l, -, rfl⟩ := mem_map.mp ho
    simp at ho'

theorem paths_nodup_iff : (∀ backend, ((s.ownersOn backend).map Owner.path).Nodup) ↔ s.Distinct :=
  forall_congr' fun backend => ⟨fun h _ ho _ ho' => inj_on_of_nodup_map h ho ho',
    fun h => (ownersOn_nodup s backend).map_on h⟩

theorem bytes_eq (hbal : Balanced s) (backend : String) :
    s.stripeTotal backend + s.inflightBytes backend =
      ((s.ownersOn backend).map Owner.sizeBytes).sum := by
  rw [hbal.stripeTotal_eq]
  simp only [ownersOn, map_append, map_map, sum_append]
  rfl

theorem countedOnce_iff (hbal : Balanced s) : s.CountedOnce ↔ s.Distinct :=
  ⟨fun h => paths_nodup_iff.mp h.paths, fun h => ⟨paths_nodup_iff.mpr h, bytes_eq hbal⟩⟩

def Ledger.PartsHomed (s : Ledger) : Prop :=
  ∀ q ∈ s.multipartParts.rows, ∃ m ∈ s.multipartUploads.rows, m.uploadID = q.uploadID

end Owners

/-! ## Owners under an effect -/

def Effect.puts (e : Effect) : Owner → Prop
  | .copy l => l ∈ e.recorded
  | .part q => q ∈ e.partsRecorded
  | .intent p => p ∈ e.claimed

section Effects

variable {e : Effect} {s s' : Ledger} {backend : String}

theorem Effect.copy_of_puts (hclaimed : e.claimed = []) (hparts : e.partsRecorded = []) {o : Owner}
    (h : e.puts o) : ∃ l ∈ e.recorded, o = .copy l := by
  cases o with
  | copy l => exact ⟨l, h, rfl⟩
  | part q =>
    rw [puts, hparts] at h
    cases h
  | intent p =>
    rw [puts, hclaimed] at h
    cases h

theorem Applies.uploadOn_old (happ : Applies e s s') {id : String}
    (h : s'.uploadOn id backend = true) : s.uploadOn id backend = true := by
  obtain ⟨m, hm, hid, hb⟩ := uploadOn_iff.mp h
  exact uploadOn_iff.mpr ⟨m, (happ.mem_uploads.mp hm).1, hid, hb⟩

theorem Applies.owner_old (happ : Applies e s s') {o : Owner} (h : o ∈ s'.ownersOn backend) :
    o ∈ s.ownersOn backend ∨ e.puts o := by
  cases o with
  | copy l =>
    obtain ⟨hl, hb⟩ := copy_mem_ownersOn.mp h
    exact (happ.mem_locations.mp hl).imp (fun hl => copy_mem_ownersOn.mpr ⟨hl.1, hb⟩) id
  | part q =>
    obtain ⟨hq, hb⟩ := part_mem_ownersOn.mp h
    exact (happ.mem_parts.mp hq).imp
      (fun hq => part_mem_ownersOn.mpr ⟨hq.1, happ.uploadOn_old hb⟩) id
  | intent p =>
    obtain ⟨hp, hb⟩ := intent_mem_ownersOn.mp h
    exact (happ.mem_pending.mp hp).imp (fun hp => intent_mem_ownersOn.mpr ⟨hp.1, hb⟩) id

theorem Ledger.Distinct.applies (h : s.Distinct) (happ : Applies e s s')
    (hnew : ∀ backend, ∀ o ∈ s'.ownersOn backend, e.puts o →
      ∀ o' ∈ s'.ownersOn backend, o'.path = o.path → o' = o) : s'.Distinct := by
  intro backend o ho o' ho' hpath
  rcases happ.owner_old ho with hold | hput
  · rcases happ.owner_old ho' with hold' | hput'
    · exact h backend o hold o' hold' hpath
    · exact hnew backend o' ho' hput' o ho hpath
  · exact (hnew backend o ho hput o' ho' hpath.symm).symm

theorem Ledger.Distinct.handed_over (h : s.Distinct) (happ : Applies e s s') {p : PendingObject}
    (hp : p ∈ s.pendingObjects.rows) (hdrop : e.dropped p = true) (hclaimed : e.claimed = [])
    {o : Owner} (ho : o ∈ s'.ownersOn p.backendName) (hpath : o.path = p.storageKey) :
    e.puts o := by
  refine (happ.owner_old ho).resolve_left fun hold => ?_
  have hmem : .intent p ∈ s.ownersOn p.backendName := intent_mem_ownersOn.mpr ⟨hp, rfl⟩
  obtain rfl : o = .intent p := h _ o hold _ hmem hpath
  rcases happ.mem_pending.mp (intent_mem_ownersOn.mp ho).1 with ⟨-, hkept⟩ | hin
  · rw [hdrop] at hkept
    cases hkept
  · rw [hclaimed] at hin
    exact not_mem_nil hin

theorem copy_unique {l l' : ObjectLocation} (hl : .copy l ∈ s.ownersOn backend)
    (hl' : .copy l' ∈ s.ownersOn backend) (hpath : l.storageKey = l'.storageKey) : l = l' := by
  obtain ⟨hl, hb⟩ := copy_mem_ownersOn.mp hl
  obtain ⟨hl', hb'⟩ := copy_mem_ownersOn.mp hl'
  refine s.objectLocations.eq_of_clash hl hl' ?_ ?_ <;> simp [sameSlot, hb, hb', hpath]

theorem Ledger.Distinct.records (h : s.Distinct) (happ : Applies e s s') (hclaimed : e.claimed = [])
    (hparts : e.partsRecorded = [])
    (hintent : ∀ l ∈ e.recorded, ∃ p ∈ s.pendingObjects.rows, p.backendName = l.backendName ∧
      p.storageKey = l.storageKey ∧ e.dropped p = true) : s'.Distinct := by
  refine h.applies happ fun backend o ho hput o' ho' hpath => ?_
  obtain ⟨l, hl, rfl⟩ := copy_of_puts hclaimed hparts hput
  obtain ⟨-, rfl⟩ := copy_mem_ownersOn.mp ho
  obtain ⟨p, hp, hb, hkey, hdrop⟩ := hintent l hl
  rw [← hb] at ho'
  have hput' := h.handed_over happ hp hdrop hclaimed ho' (hpath.trans hkey.symm)
  obtain ⟨l', -, rfl⟩ := copy_of_puts hclaimed hparts hput'
  rw [hb] at ho'
  rw [copy_unique ho' ho hpath]

theorem Ledger.Distinct.adds (h : s.Distinct) (happ : Applies e s s')
    (hone : ∀ o o', e.puts o → e.puts o' → o' = o)
    (hfree : ∀ backend, ∀ o ∈ s'.ownersOn backend, e.puts o →
      ∀ o' ∈ s.ownersOn backend, o'.path ≠ o.path) : s'.Distinct := by
  refine h.applies happ fun backend o ho hput o' ho' hpath => ?_
  rcases happ.owner_old ho' with hold | hput'
  · exact absurd hpath (hfree backend o ho hput o' hold)
  · exact hone o o' hput hput'

theorem Ledger.Distinct.takes (h : s.Distinct) (happ : Applies e s s') (hrec : e.recorded = [])
    (hparts : e.partsRecorded = []) (hclaimed : e.claimed = []) : s'.Distinct := by
  refine h.applies happ fun backend o _ hput => ?_
  obtain ⟨l, hl, -⟩ := copy_of_puts hclaimed hparts hput
  rw [hrec] at hl
  cases hl

end Effects

/-! ## Transactions -/

def PendingObject.claimPath (p : PendingObject) : String := storagePath p.objectKey p.storageKey

/-- A claim is for a fresh path, which no row names. A commit goes on with the intent it claimed,
whose row, if there, has the path recorded. -/
def Op.entitled (s : Ledger) : Op → Prop
  | .claim p _ => ∀ o ∈ s.ownersOn p.backendName, o.path ≠ p.claimPath
  | .recordObject req => ∀ c ∈ req.copies, c.intentID ≠ "" ∧ c.intentID ∉ intentIDs req.placing ∧
      s.intentAt c.intentID c.backend (storagePath req.key c.storageKey) ∧
      ∀ q ∈ s.pendingObjects.rows, q.intentID = c.intentID → q.objectKey = req.key
  | .placeCopy p => p.intent.intentID ≠ "" ∧
      s.intentAt p.intent.intentID p.intent.backendName p.intent.storageKey
  | .promotePending p | .commitCompanionCopy p => p.intentID ≠ "" ∧
      s.intentAt p.intentID p.backendName p.claimPath
  | .recordPart p => p.intent.intentID ≠ "" ∧
      s.intentAt p.intent.intentID p.intent.backendName
        (storagePath (partPath p.uploadID p.partNumber) p.intent.storageKey) ∧
      ∀ m ∈ s.multipartUploads.rows, m.uploadID = p.uploadID →
        m.backendName = p.intent.backendName
  | _ => True

instance (s : Ledger) : DecidablePred (Op.entitled s) := by
  rintro ⟨⟩ <;> dsimp only [Op.entitled] <;> infer_instance

def Op.sparesParts (s : Ledger) : Op → Prop
  | .importObject req => s.imports req = true →
      ∀ q ∈ s.multipartParts.rows, s.uploadOn q.uploadID req.backend = true → q.path ≠ req.key
  | _ => True

instance (s : Ledger) : DecidablePred (Op.sparesParts s) := by
  rintro ⟨⟩ <;> dsimp only [Op.sparesParts] <;> infer_instance

section Transactions

variable {tx : TxAdapter} {s s' : Ledger} {op : Op} {e : Effect}

theorem held_at {id backend path : String} (hne : id ≠ "") (hheld : s.holdsAll [id])
    (hat : s.intentAt id backend path) : ∃ q ∈ s.pendingObjects.rows, q.intentID = id ∧
      q.backendName = backend ∧ q.storageKey = path := by
  obtain ⟨q, hq, hid⟩ := holds_iff.mp (holdsAll_singleton.mp hheld hne)
  exact ⟨q, hq, hid, hat q hq hid⟩

theorem part_of_untracked {req : ImportObjectRequest} (h : s.imports req = true) {o : Owner}
    (ho : o ∈ s.ownersOn req.backend) (hpath : o.path = req.key) :
    ∃ q ∈ s.multipartParts.rows, s.uploadOn q.uploadID req.backend = true ∧ q.path = req.key := by
  obtain ⟨⟨-, huntracked⟩, -⟩ := (Bool.and_eq_true_iff.mp h).imp_left Bool.and_eq_true_iff.mp
  have huntracked := of_decide_eq_true huntracked
  cases o with
  | part q =>
    obtain ⟨hq, hb⟩ := part_mem_ownersOn.mp ho
    exact ⟨q, hq, hb, hpath⟩
  | copy l =>
    obtain ⟨hl, hb⟩ := copy_mem_ownersOn.mp ho
    exact absurd ⟨hb, hpath⟩ (not_recorded_of_untracked huntracked l hl)
  | intent p =>
    obtain ⟨hp, hb⟩ := intent_mem_ownersOn.mp ho
    unfold pathState at huntracked
    split_ifs at huntracked with hc hpend
    exact absurd (any_eq_true.mpr ⟨p, hp, decide_eq_true ⟨hb, hpath⟩⟩) hpend

theorem Ledger.Distinct.recordsPart (h : s.Distinct) {p : RecordPartParams}
    {replaced : Option MultipartPart} (happ : Applies (.recordingPart tx p replaced) s s')
    (hheld : s.holdsAll [p.intent.intentID]) (hl : (Op.recordPart p).entitled s) :
    s'.Distinct := by
  obtain ⟨hne, hat, hupload⟩ := hl
  obtain ⟨q, hq, hid, hb, hkey⟩ := held_at hne hheld hat
  refine h.applies happ fun backend o ho hput o' ho' hpath => ?_
  have hpart : ∀ o, (recordingPart tx p replaced).puts o → o = .part (tx.partRow p) := by
    intro o hput
    cases o with
    | part r => rw [mem_singleton.mp hput]
    | copy l | intent r => cases hput
  obtain rfl := hpart o hput
  -- The upload is on the backend the intent was claimed on.
  obtain ⟨m, hm, hmid, hmb⟩ :=
    uploadOn_iff.mp (happ.uploadOn_old (part_mem_ownersOn.mp ho).2)
  obtain rfl : backend = q.backendName := by
    rw [← hmb, hb]
    exact hupload m hm hmid
  exact hpart o' (h.handed_over happ hq (decide_eq_true hid) rfl ho' (hpath.trans hkey.symm))

theorem Outcome.distinct (ho : Outcome tx s op e) (happ : Applies e s s') (h : s.Distinct)
    (hl : op.entitled s) (hspares : ∀ req, op = .importObject req →
      ∀ o ∈ s.ownersOn req.backend, o.path ≠ req.key) : s'.Distinct := by
  cases ho with
  | claimed hfits hnew =>
    rename_i p accepts
    have hrow : ∀ o, (claiming [tx.pendingRow p]).puts o → o = .intent (tx.pendingRow p) := by
      intro o hput
      cases o with
      | intent r => rw [mem_singleton.mp hput]
      | copy l | part q => cases hput
    refine h.adds happ (fun o o' hput hput' => (hrow o' hput').trans (hrow o hput).symm) ?_
    intro backend o ho hput
    obtain rfl := hrow o hput
    obtain ⟨-, rfl⟩ := intent_mem_ownersOn.mp ho
    exact hl
  | recorded hcopies hheld =>
    rename_i req
    refine h.records happ rfl rfl fun l hmem => ?_
    obtain ⟨c, hc, rfl⟩ := mem_map.mp hmem
    obtain ⟨hne, hplacing, hat, hkey⟩ := hl c hc
    have hone : s.holdsAll [c.intentID] := fun id hid => hheld id (by
      rw [mem_singleton.mp hid]
      exact mem_map_of_mem hc)
    obtain ⟨q, hq, hid, hb, hpath⟩ := held_at hne hone hat
    refine ⟨q, hq, hb, hpath, ?_⟩
    have hclears : TxAdapter.clears (intentIDs req.placing) [req.key] q = true := by
      simp [TxAdapter.clears, hkey q hq hid, hid, hplacing]
    exact hclears
  | placed hheld hsrc hkey hbackend hpath =>
    rename_i p src
    refine h.records happ rfl rfl fun l hmem => ?_
    obtain rfl := mem_singleton.mp hmem
    obtain ⟨q, hq, hid, hb, hqpath⟩ := held_at hl.1 hheld hl.2
    obtain ⟨hpb, hpp⟩ := placedCopy_address p src
    exact ⟨q, hq, hb.trans hpb.symm, hqpath.trans hpp.symm, decide_eq_true hid⟩
  | promoted hheld hrole hsup | joined hheld =>
    refine h.records happ rfl rfl fun l hmem => ?_
    obtain rfl := mem_singleton.mp hmem
    obtain ⟨q, hq, hid, hb, hqpath⟩ := held_at hl.1 hheld hl.2
    exact ⟨q, hq, hb, hqpath, decide_eq_true hid⟩
  | imported req =>
    have hrow : ∀ o, (importing tx req).puts o →
        o = .copy (tx.locationRow (req.location tx.now)) := by
      intro o hput
      cases o with
      | copy l => rw [mem_singleton.mp hput]
      | part q | intent r => cases hput
    refine h.adds happ (fun o o' hput hput' => (hrow o' hput').trans (hrow o hput).symm) ?_
    intro backend o ho hput
    obtain rfl := hrow o hput
    obtain ⟨-, rfl⟩ := copy_mem_ownersOn.mp ho
    rw [Owner.path, location_path req tx]
    exact hspares req rfl
  | partRecorded hheld hupload => exact h.recordsPart happ hheld hl
  | _ => exact h.takes happ rfl rfl rfl

theorem Outcome.partsHomed (ho : Outcome tx s op e) (happ : Applies e s s') (h : s.PartsHomed) :
    s'.PartsHomed := by
  intro q hq
  rcases happ.mem_parts.mp hq with ⟨hq, hkept⟩ | hput
  · obtain ⟨m, hm, hid⟩ := h q hq
    refine ⟨m, happ.mem_uploads.mpr ⟨hm, ?_⟩, hid⟩
    cases ho with
    | uploadDeleted hm' hid' =>
      have hother : q.uploadID ≠ _ := of_decide_eq_false hkept
      exact decide_eq_false (hid ▸ hother)
    | _ => rfl
  · cases ho with
    | partRecorded hheld hupload =>
      obtain ⟨m, hm, hid⟩ := hupload
      rw [mem_singleton.mp hput]
      exact ⟨m, happ.mem_uploads.mpr ⟨hm, rfl⟩, hid⟩
    | _ => cases hput

end Transactions

/-! ## Steps -/

/-- A transaction or a claim of a write's copies, a new upload, or a completion's statement on its
upload's mark. -/
inductive PathStep where
  | transact (tx : TxAdapter) (ev : Event)
  | createMultipartUpload (tx : TxAdapter) (uploadID backend : String)
  | mark (selects : MultipartUpload → Bool) (time : Time)

namespace PathStep

def next (s : Ledger) : PathStep → Ledger
  | .transact tx ev => ev.apply tx s
  | .createMultipartUpload tx uploadID backend =>
    (S3Orchestrator.createMultipartUpload tx uploadID backend).commit s
  | .mark selects time => s.markUploads selects time

/-- What the caller of the step passes. The copies of one write are claimed at paths of their
own. -/
def Entitled (s : Ledger) : PathStep → Prop
  | .transact _ (.op op) => op.entitled s
  | .transact _ (.claimCopies intents _ _) =>
    (∀ p ∈ intents, ∀ q ∈ intents, p.claimPath = q.claimPath → p.intentID = q.intentID) ∧
    ∀ p ∈ intents, ∀ backend, ∀ o ∈ s.ownersOn backend, o.path ≠ p.claimPath
  | _ => True

def SparesParts (s : Ledger) : PathStep → Prop
  | .transact _ (.op op) => op.sparesParts s
  | _ => True

def faultless : PathStep → Prop
  | .transact tx _ | .createMultipartUpload tx _ _ => tx.faultless
  | .mark _ _ => True

structure Sound (s : Ledger) : Prop where
  distinct : s.Distinct
  homed : s.PartsHomed
  balanced : Balanced s

section Steps

variable {s s' : Ledger} {tx : TxAdapter}

theorem sound_provisioned (quotas : Table BackendQuota sameBackend) :
    Sound (.provisioned quotas) where
  distinct _ _ ho := by cases ho
  homed _ hq := by cases hq
  balanced := balanced_provisioned quotas

theorem Sound.congr (h : Sound s) (hcopies : s'.objectLocations = s.objectLocations)
    (hparts : s'.multipartParts = s.multipartParts)
    (hintents : s'.pendingObjects = s.pendingObjects)
    (hstripes : s'.quotaStripes = s.quotaStripes)
    (huploads : ∀ q ∈ s.multipartParts.rows, ∀ backend, s'.uploadOn q.uploadID backend =
      s.uploadOn q.uploadID backend)
    (hkept : ∀ m ∈ s.multipartUploads.rows, ∃ m' ∈ s'.multipartUploads.rows,
      m'.uploadID = m.uploadID) : Sound s' where
  distinct := by
    have howners : s'.ownersOn = s.ownersOn := by
      funext backend
      unfold ownersOn
      rw [hcopies, hparts, hintents]
      congr 3
      exact filter_congr fun q hq => huploads q hq backend
    unfold Ledger.Distinct
    rw [howners]
    exact h.distinct
  homed q hq := by
    rw [hparts] at hq
    obtain ⟨m, hm, hid⟩ := h.homed q hq
    obtain ⟨m', hm', hid'⟩ := hkept m hm
    exact ⟨m', hm', hid'.trans hid⟩
  balanced := by
    unfold Balanced
    rw [hcopies, hstripes]
    exact h.balanced

theorem sound_op {op : Op} (h : Sound s) (hl : op.entitled s) (hspares : op.sparesParts s) :
    Sound (op.apply tx s) := by
  by_cases hskip : ∃ req, op = .importObject req ∧ s.imports req = false
  · obtain ⟨req, rfl, hno⟩ := hskip
    rwa [Op.apply, importObject_skips hno]
  obtain ⟨e, ho, happ⟩ := apply_outcome tx s op
  refine ⟨ho.distinct happ h.distinct hl ?_, ho.partsHomed happ h.homed, happ.balanced h.balanced⟩
  rintro req rfl o hmem hpath
  have himports : s.imports req = true := by
    simpa using fun hno => hskip ⟨req, rfl, hno⟩
  obtain ⟨q, hq, hb, hqpath⟩ := part_of_untracked himports hmem hpath
  exact hspares himports q hq hb hqpath

theorem sound_claimCopies (h : Sound s) {intents : List PendingObject} {ranked : List String}
    {accepts : BackendFlags}
    (hl : (PathStep.transact tx (.claimCopies intents ranked accepts)).Entitled s) :
    Sound ((claimInRankOrder tx accepts intents ranked).commit s) := by
  obtain ⟨hown, hfree⟩ := hl
  refine Tx.commit_induct h fun out s' hok => ?_
  refine (claimInRankOrder_induct (fun s1 => Sound s1 ∧ ∀ p ∈ intents, ∀ backend,
    ∀ o ∈ s1.ownersOn backend, o.path = p.claimPath →
      ∃ q, o = .intent q ∧ q.intentID = p.intentID) ?_ ⟨h, ?_⟩ hok).1
  · rintro p hp name s1 s2 b ⟨h1, hclaimed⟩ hok1
    rcases insertPendingIfFits_effect hok1 with ⟨-, rfl⟩ | ⟨-, -, hnew, happ⟩
    · exact ⟨h1, hclaimed⟩
    have hclaim : (Op.claim { p with backendName := name } accepts).apply tx s1 = s2 :=
      Tx.commit_of_ok hok1
    refine ⟨hclaim ▸ sound_op h1 ?_ trivial, fun p' hp' backend o ho hpath => ?_⟩
    · intro o ho hpath
      obtain ⟨q, rfl, hid⟩ := hclaimed p hp name o ho hpath
      exact hnew q (intent_mem_ownersOn.mp ho).1 hid
    · rcases happ.owner_old ho with hold | hput
      · exact hclaimed p' hp' backend o hold hpath
      · cases o with
        | intent q =>
          obtain rfl := mem_singleton.mp hput
          exact ⟨_, rfl, hown p hp p' hp' hpath⟩
        | copy l | part q => cases hput
  · exact fun p hp backend o ho hpath => absurd hpath (hfree p hp backend o ho)

theorem uploadOn_markUploads (selects : MultipartUpload → Bool) (time : Time)
    (uploadID backend : String) :
    (s.markUploads selects time).uploadOn uploadID backend = s.uploadOn uploadID backend := by
  have hmarked : ∀ u : MultipartUpload, (u.marked selects time).uploadID = u.uploadID ∧
        (u.marked selects time).backendName = u.backendName := by
    intro u
    unfold MultipartUpload.marked
    split_ifs <;> exact ⟨rfl, rfl⟩
  have hrows : (s.markUploads selects time).multipartUploads.rows =
      s.multipartUploads.rows.map (MultipartUpload.marked selects time) := rfl
  rw [uploadOn, uploadOn, hrows, any_map]
  congr 1
  funext u
  rw [Function.comp_apply, (hmarked u).1, (hmarked u).2]

theorem sound_mark (h : Sound s) (selects : MultipartUpload → Bool) (time : Time) :
    Sound (s.markUploads selects time) :=
  h.congr rfl rfl rfl rfl (fun q _ backend => uploadOn_markUploads selects time q.uploadID backend)
    fun _ hm => CompletionSystem.exists_mem_markUploads hm

theorem sound_createMultipartUpload (h : Sound s) (uploadID backend : String) :
    Sound ((S3Orchestrator.createMultipartUpload tx uploadID backend).commit s) := by
  refine Tx.commit_induct h fun r s' hok => ?_
  rcases createMultipartUpload_ok hok with rfl | ⟨-, t, ht, rfl⟩
  · exact h
  refine h.congr rfl rfl rfl rfl (fun q hq b => ?_) fun m hm =>
    ⟨m, ht ▸ mem_append_left _ hm, rfl⟩
  -- The part has an upload, and the table holds no other with its id.
  obtain ⟨m, hm, hid⟩ := h.homed q hq
  have hne : q.uploadID ≠ uploadID := by
    intro heq
    have hd := t.distinct
    rw [ht, pairwise_append] at hd
    have hclash := hd.2.2 m hm _ (mem_singleton_self _)
    simp [sameUpload, hid, heq] at hclash
  simp [uploadOn, ht, Ne.symm hne]

theorem sound_settle (h : Sound s) (st : Settle) : Sound (st.apply tx s) := by
  have hst := apply_settled tx s st
  refine h.congr hst.locations hst.parts hst.pending hst.stripes (fun q _ b => ?_) fun m hm => ?_
  · rw [uploadOn, uploadOn, hst.uploads]
  · rw [hst.uploads]
    exact ⟨m, hm, rfl⟩

theorem sound_next (h : Sound s) {e : PathStep} (hl : e.Entitled s) (hspares : e.SparesParts s) :
    Sound (e.next s) := by
  cases e with
  | transact tx ev =>
    cases ev with
    | op op => exact sound_op h hl hspares
    | claimCopies intents ranked accepts => exact sound_claimCopies h hl
    | settle st => exact sound_settle h st
  | createMultipartUpload tx uploadID backend =>
    exact sound_createMultipartUpload h uploadID backend
  | mark selects time => exact sound_mark h selects time

theorem sparesParts_of_countedOnce {e : PathStep} (hf : e.faultless)
    (h : (e.next s).CountedOnce) : e.SparesParts s := by
  cases e with
  | transact tx ev =>
    cases ev with
    | op op =>
      cases op with
      | importObject req =>
        intro himports q hq hb hpath
        have hrow : tx.locationRow (req.location tx.now) ∈
            ((Op.importObject req).apply tx s).objectLocations.rows :=
          importObject_inserts hf himports
        obtain ⟨e, ho, happ⟩ := apply_outcome tx s (.importObject req)
        have hq' : q ∈ ((Op.importObject req).apply tx s).multipartParts.rows :=
          happ.mem_parts.mpr (.inl ⟨hq, by cases ho <;> rfl⟩)
        have hb' : ((Op.importObject req).apply tx s).uploadOn q.uploadID req.backend = true := by
          rw [happ.uploadOn_of_none (by cases ho <;> exact fun _ => rfl)]
          exact hb
        have heq := paths_nodup_iff.mp h.paths req.backend (.part q)
          (part_mem_ownersOn.mpr ⟨hq', hb'⟩) (.copy _) (copy_mem_ownersOn.mpr ⟨hrow, rfl⟩)
          (hpath.trans (location_path req tx).symm)
        cases heq
      | _ => trivial
    | _ => trivial
  | _ => trivial

end Steps

/-- **No stored path is counted twice in a run that imports no path where a part is recorded; on a
database that runs every statement, in no other.** -/
theorem counted_once_iff (quotas : Table BackendQuota sameBackend) (run : List PathStep)
    (hl : Along next Entitled (.provisioned quotas) run) :
    (Along next SparesParts (.provisioned quotas) run →
      Along next (fun s e => (e.next s).CountedOnce) (.provisioned quotas) run) ∧
    ((∀ e ∈ run, e.faultless) →
      (Along next (fun s e => (e.next s).CountedOnce) (.provisioned quotas) run ↔
        Along next SparesParts (.provisioned quotas) run)) := by
  have hcounted : ∀ {s}, Sound s → s.CountedOnce := fun h =>
    (countedOnce_iff h.balanced).mpr h.distinct
  have hspares : Along next SparesParts (.provisioned quotas) run →
      Along next (fun s e => (e.next s).CountedOnce) (.provisioned quotas) run := fun h =>
    (along_and hl h).of_invariant (sound_provisioned quotas)
      (fun s e hs he => sound_next hs he.1 he.2)
      fun s e hs he => hcounted (sound_next hs he.1 he.2)
  refine ⟨hspares, fun hf => ⟨fun h => ?_, hspares⟩⟩
  exact h.imp_mem fun s e he => sparesParts_of_countedOnce (hf e he)

def partIntent : PendingObject where
  intentID := "w"
  objectKey := "__multipart/u/1"
  storageKey := "__multipart/u/1!w"
  backendName := "b"
  sizeBytes := 3
  role := .companion

def openUpload : PathStep := .createMultipartUpload ⟨"", 1, fun _ _ => false⟩ "u" "b"

def claimPart : Op := .claim partIntent acceptForPart

def storePart : Op :=
  .recordPart { uploadID := "u", partNumber := 1, sizeBytes := 3, intent := partIntent }

def importedPath (path : String) : List PathStep :=
  [openUpload, .transact ⟨"", 1, fun _ _ => false⟩ (.op claimPart),
    .transact ⟨"", 2, fun _ _ => false⟩ (.op storePart),
    .transact ⟨"", 3, fun _ _ => false⟩ (.op (.importObject
      { key := path, backend := "b", size := 3, unmanaged := true }))]

instance (s : Ledger) : DecidablePred (SparesParts s) := by
  rintro (⟨_, ⟨⟩⟩ | _) <;> dsimp only [SparesParts] <;> infer_instance

theorem importedPath_entitled (path : String) :
    Along next Entitled (.provisioned soloQuota) (importedPath path) := by
  have hclaim : claimPart.entitled (openUpload.next (.provisioned soloQuota)) := by decide +kernel
  have hrecord : storePart.entitled (claimPart.apply ⟨"", 1, fun _ _ => false⟩
      (openUpload.next (.provisioned soloQuota))) := by decide +kernel
  exact ⟨trivial, hclaim, hrecord, trivial, trivial⟩

/-- Every path but the part's may be imported. -/
theorem stray_counted_once :
    Along next (fun s e => (e.next s).CountedOnce) (.provisioned soloQuota)
      (importedPath "stray") :=
  (counted_once_iff soloQuota (importedPath "stray") (importedPath_entitled "stray")).1
    (by decide +kernel)

/-- The part's three bytes are counted as stored and as in flight. -/
theorem part_counted_twice :
    Along next Entitled (.provisioned soloQuota) (importedPath "__multipart/u/1!w") ∧
      ((after next (.provisioned soloQuota) (importedPath "__multipart/u/1!w")).ownersOn "b").map
        Owner.path = ["__multipart/u/1!w", "__multipart/u/1!w"] ∧
      (after next (.provisioned soloQuota) (importedPath "__multipart/u/1!w")).occupied "b" = 6 :=
  ⟨importedPath_entitled _, by decide +kernel, by decide +kernel⟩

end PathStep

end S3Orchestrator
