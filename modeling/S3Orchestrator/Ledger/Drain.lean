import S3Orchestrator.Ledger.Capacity
import S3Orchestrator.Ledger.Import
import S3Orchestrator.Ledger.Tracked
import S3Orchestrator.Store.Backends

/-!
# Drained backends stay empty

A drain is completed by one statement that finds the backend empty and sets the drained flag.
Nothing looks again: every transaction that could put something there has to see the flag. A claim
and a new upload read the flags in their own statement, and what is recorded, placed or promoted
needs an intent that was claimed. An import reads no flag.

* **`drained_stays_empty_iff`**.
-/

namespace S3Orchestrator

open RowStore List

/-! ## Flags -/

def BackendFlags.OneDrainFlag (f : BackendFlags) : Prop :=
  f &&& drainFlags ∈ [0, flagDraining, flagDrained, flagDrainFailed]

namespace BackendFlags

variable {f : BackendFlags}

theorem any_drained : any f flagDrained = any (f &&& drainFlags) flagDrained := by
  unfold any
  rw [BitVec.and_assoc]
  rfl

theorem withProgress_and (f : BackendFlags) {p : BackendFlags} (hp : p &&& drainFlags = p) :
    withProgress f p &&& drainFlags = p := by
  rw [withProgress, ← hp]
  ext i hi
  simp only [BitVec.getElem_and, BitVec.getElem_or, BitVec.getElem_not]
  cases f[i] <;> cases drainFlags[i] <;> simp

theorem cordon_and (f : BackendFlags) : (f ||| flagCordoned) &&& drainFlags = f &&& drainFlags := by
  rw [BitVec.and_or_distrib_right]
  exact BitVec.or_zero

theorem uncordon_and (f : BackendFlags) :
    (f &&& ~~~flagCordoned) &&& drainFlags = f &&& drainFlags := by
  rw [BitVec.and_assoc]
  rfl

theorem cancel_and (f : BackendFlags) : (f &&& ~~~drainFlags) &&& drainFlags = 0 := by
  rw [BitVec.and_assoc]
  exact BitVec.and_zero

theorem not_drained_of_within {accepts : BackendFlags}
    (ha : accepts ∈ [acceptForWrite, acceptForReconcile, acceptForRewrite, acceptForPart])
    (h : f &&& ~~~accepts = 0) : any f flagDrained = false := by
  have hmask : ~~~accepts &&& flagDrained = flagDrained := by
    revert ha
    simp only [mem_cons, not_mem_nil, or_false]
    rintro (rfl | rfl | rfl | rfl) <;> rfl
  have hzero : f &&& flagDrained = 0 := by
    rw [← hmask, ← BitVec.and_assoc, h]
    exact BitVec.zero_and
  rw [any, hzero]
  rfl

end BackendFlags

open BackendFlags

/-! ## What a backend holds -/

/-- No managed object row, no intent and no multipart upload is on the backend. -/
structure Ledger.HoldsNothing (s : Ledger) (backend : String) : Prop where
  managed : ∀ l ∈ s.objectLocations.rows, l.backendName = backend → l.unmanaged = true
  intents : ∀ p ∈ s.pendingObjects.rows, p.backendName ≠ backend
  uploads : ∀ u ∈ s.multipartUploads.rows, u.backendName ≠ backend

/-- A backend carries at most one of the drain's flags, and a drained one holds nothing. -/
def Ledger.DrainsKept (s : Ledger) : Prop :=
  ∀ backend, OneDrainFlag (s.flags backend) ∧
    (any (s.flags backend) flagDrained = true → s.HoldsNothing backend)

section Holdings

variable {e : Effect} {s s' : Ledger} {backend : String}

theorem Ledger.holdsNothing_of_emptied (h : s.emptied backend = true) : s.HoldsNothing backend := by
  simp only [Ledger.emptied, Bool.and_eq_true, Bool.not_eq_true', any_eq_false,
    decide_eq_true_eq] at h
  refine ⟨fun l hl hb => ?_, fun p hp => h.1.2 p hp, fun u hu => h.2 u hu⟩
  have := h.1.1 l hl
  simpa [hb] using this

theorem Ledger.HoldsNothing.applies (h : s.HoldsNothing backend) (happ : Applies e s s')
    (hrec : ∀ l ∈ e.recorded, l.backendName = backend → l.unmanaged = true)
    (hclaim : ∀ p ∈ e.claimed, p.backendName ≠ backend) : s'.HoldsNothing backend where
  managed l hl hb := by
    rcases happ.mem_locations.mp hl with ⟨hl, -⟩ | hl
    · exact h.managed l hl hb
    · exact hrec l hl hb
  intents p hp := by
    rcases happ.mem_pending.mp hp with ⟨hp, -⟩ | hp
    · exact h.intents p hp
    · exact hclaim p hp
  uploads u hu := h.uploads u (happ.mem_uploads.mp hu).1

theorem Ledger.HoldsNothing.not_held (h : s.HoldsNothing backend) {id b path : String}
    (hne : id ≠ "") (hheld : s.holdsAll [id]) (hat : s.intentAt id b path) : b ≠ backend := by
  obtain ⟨q, hq, hid⟩ := Ledger.holds_iff.mp (Ledger.holdsAll_singleton.mp hheld hne)
  rw [← (hat q hq hid).1]
  exact h.intents q hq

end Holdings

/-! ## Transactions -/

def Op.named : Op → Prop
  | .recordObject req => ∀ c ∈ req.copies, c.intentID ≠ ""
  | .placeCopy p => p.intent.intentID ≠ ""
  | .promotePending p | .commitCompanionCopy p => p.intentID ≠ ""
  | _ => True

instance : DecidablePred Op.named := by
  rintro ⟨⟩ <;> dsimp only [Op.named] <;> infer_instance

def acceptMasks : List BackendFlags :=
  [acceptForWrite, acceptForReconcile, acceptForRewrite, acceptForPart]

def Op.masked : Op → Prop
  | .claim _ accepts => accepts ∈ acceptMasks
  | _ => True

instance : DecidablePred Op.masked := by
  rintro ⟨⟩ <;> dsimp only [Op.masked] <;> infer_instance

def Op.lawful (s : Ledger) (op : Op) : Prop := op.named ∧ op.describes s ∧ op.masked
  deriving Decidable

def Op.spares (s : Ledger) : Op → Prop
  | .importObject req => any (s.flags req.backend) flagDrained = true → s.imports req = true →
      (req.location 0).unmanaged = true
  | _ => True

instance (s : Ledger) : DecidablePred (Op.spares s) := by
  rintro ⟨⟩ <;> dsimp only [Op.spares] <;> infer_instance

section Transactions

variable {tx : TxAdapter} {s s' : Ledger} {backend : String}

theorem unmanaged_location (req : ImportObjectRequest) (tx : TxAdapter) (t t' : Time) :
    (tx.locationRow (req.location t)).unmanaged = (req.location t').unmanaged := rfl

theorem Outcome.recorded_elsewhere {op : Op} {e : Effect} (ho : Outcome tx s op e)
    (h : s.HoldsNothing backend) (hl : op.lawful s)
    (himp : ∀ req, op = .importObject req → req.backend = backend →
      (req.location 0).unmanaged = true)
    {l : ObjectLocation} (hmem : l ∈ e.recorded) (hb : l.backendName = backend) :
    l.unmanaged = true := by
  obtain ⟨hnamed, hdesc, -⟩ := hl
  cases ho with
  | recorded hcopies hheld =>
    obtain ⟨c, hc, rfl⟩ := mem_map.mp hmem
    have hone : s.holdsAll [c.intentID] := fun id hid => hheld id (by
      rw [mem_singleton.mp hid]
      exact mem_map_of_mem hc)
    exact absurd hb (h.not_held (hnamed c hc) hone (hdesc c hc))
  | placed hheld hsrc hkey hbackend hpath =>
    rename_i p src
    rw [mem_singleton.mp hmem] at hb
    have haddr : (tx.locationRow (p.placedCopy src)).backendName = p.intent.backendName :=
      (placedCopy_address p src).1
    exact absurd (haddr.symm.trans hb) (h.not_held hnamed hheld hdesc)
  | promoted hheld hrole hsup | joined hheld =>
    rw [mem_singleton.mp hmem] at hb
    exact absurd hb (h.not_held hnamed hheld hdesc)
  | imported req =>
    rw [mem_singleton.mp hmem] at hb ⊢
    exact himp req rfl hb
  | _ => cases hmem

theorem not_drained_of_fits {p : PendingObject} {accepts : BackendFlags}
    (hfits : s.fits p accepts = true) (ha : accepts ∈ acceptMasks) :
    any (s.flags p.backendName) flagDrained = false := by
  unfold Ledger.fits at hfits
  split at hfits
  · cases hfits
  · exact not_drained_of_within ha (of_decide_eq_true (Bool.and_eq_true_iff.mp hfits).1)

theorem Outcome.claimed_elsewhere {op : Op} {e : Effect} (ho : Outcome tx s op e)
    (hl : op.lawful s) (hdrained : any (s.flags backend) flagDrained = true) {p : PendingObject}
    (hmem : p ∈ e.claimed) : p.backendName ≠ backend := by
  cases ho with
  | claimed hfits hnew =>
    rw [mem_singleton.mp hmem]
    have hno := not_drained_of_fits hfits hl.2.2
    rintro rfl
    exact Bool.noConfusion (hdrained.symm.trans hno)
  | _ => cases hmem

theorem Ledger.flags_congr (h : s'.backendStates = s.backendStates) : s'.flags = s.flags := by
  unfold Ledger.flags
  rw [h]

theorem Ledger.DrainsKept.congr (h : s.DrainsKept) (hstates : s'.backendStates = s.backendStates)
    (hempty : ∀ b, any (s.flags b) flagDrained = true → s.HoldsNothing b → s'.HoldsNothing b) :
    s'.DrainsKept := by
  intro b
  rw [Ledger.flags_congr hstates]
  exact ⟨(h b).1, fun hd => hempty b hd ((h b).2 hd)⟩

end Transactions

/-! ## Steps -/

/-- A change that leaves the flags, what is on a backend and whether it is managed. -/
structure Elsewhere where
  run : Ledger → Ledger
  states : ∀ s, (run s).backendStates = s.backendStates
  copies : ∀ s, (run s).objectLocations.rows.map (fun l => (l.backendName, l.unmanaged)) =
    s.objectLocations.rows.map fun l => (l.backendName, l.unmanaged)
  intents : ∀ s, (run s).pendingObjects.rows.map PendingObject.backendName =
    s.pendingObjects.rows.map PendingObject.backendName
  uploads : ∀ s, (run s).multipartUploads.rows.map MultipartUpload.backendName =
    s.multipartUploads.rows.map MultipartUpload.backendName

/-- A committed operation. A statement the database fails rolls its transaction back, and is no
step. -/
inductive DrainStep where
  | transact (instanceID : String) (now : Time) (ev : Event)
  | cordon (backend : String)
  | uncordon (backend : String)
  | startDrain (backend : String)
  | cancelDrain (backend : String)
  | markDrainFailed (backend : String)
  | completeDrain (backend : String)
  | createMultipartUpload (uploadID backend : String)
  | deleteBackendData (backend : String)
  | clearBackendState (backend : String)
  | elsewhere (e : Elsewhere)

def adapterOf (instanceID : String) (now : Time) : TxAdapter where
  instanceID := instanceID
  now := now

namespace DrainStep

def next (s : Ledger) : DrainStep → Ledger
  | .transact instanceID now ev => ev.apply (adapterOf instanceID now) s
  | .cordon backend => (setBackendFlag (adapterOf "" 0) backend flagCordoned).commit s
  | .uncordon backend => (clearBackendFlags (adapterOf "" 0) backend flagCordoned).commit s
  | .startDrain backend => (S3Orchestrator.startDrain (adapterOf "" 0) backend).commit s
  | .cancelDrain backend => (clearBackendFlags (adapterOf "" 0) backend drainFlags).commit s
  | .markDrainFailed backend => (S3Orchestrator.markDrainFailed (adapterOf "" 0) backend).commit s
  | .completeDrain backend => (S3Orchestrator.completeDrain (adapterOf "" 0) backend).commit s
  | .createMultipartUpload uploadID backend =>
    (S3Orchestrator.createMultipartUpload (adapterOf "" 0) uploadID backend).commit s
  | .deleteBackendData backend =>
    (S3Orchestrator.deleteBackendData (adapterOf "" 0) backend).commit s
  | .clearBackendState backend =>
    (S3Orchestrator.clearBackendState (adapterOf "" 0) backend).commit s
  | .elsewhere e => e.run s

def Lawful (s : Ledger) : DrainStep → Prop
  | .transact _ _ (.op op) => op.lawful s
  | .transact _ _ (.claimCopies _ _ accepts) => accepts ∈ acceptMasks
  | _ => True

def Spares (s : Ledger) : DrainStep → Prop
  | .transact _ _ (.op op) => op.spares s
  | _ => True

instance (s : Ledger) : DecidablePred (Lawful s) := by
  rintro (⟨_, _, ⟨⟩⟩ | _) <;> dsimp only [Lawful] <;> infer_instance

instance (s : Ledger) : DecidablePred (Spares s) := by
  rintro (⟨_, _, ⟨⟩⟩ | _) <;> dsimp only [Spares] <;> infer_instance

variable {s : Ledger}

/-! ### Flags -/

theorem drainsKept_writeState {tx : TxAdapter} {what backend : String}
    {fresh : Option BackendFlags} {guard : Ledger → BackendFlags → Bool}
    {set : BackendFlags → BackendFlags} (h : s.DrainsKept)
    (hf : ∀ f, fresh = some f ∨ guard s (s.flags backend) = true ∧ f = set (s.flags backend) →
      OneDrainFlag f ∧ (any f flagDrained = true → s.HoldsNothing backend)) :
    ((writeState tx what backend fresh guard set).commit s).DrainsKept := by
  refine Tx.commit_induct h fun r s' hok => ?_
  rcases writeState_ok hok with rfl | ⟨f, rfl, hfrom⟩
  · exact h
  intro b
  have hholds : ∀ b, s.HoldsNothing b → (s.withFlags backend f).HoldsNothing b :=
    fun b hb => ⟨hb.managed, hb.intents, hb.uploads⟩
  rw [flags_withFlags]
  split_ifs with hb
  · subst hb
    exact ⟨(hf f hfrom).1, fun hd => hholds b ((hf f hfrom).2 hd)⟩
  · exact ⟨(h b).1, fun hd => hholds b ((h b).2 hd)⟩

theorem kept_of_same {backend : String} (h : s.DrainsKept) {f : BackendFlags}
    (hf : f &&& drainFlags = s.flags backend &&& drainFlags) :
    OneDrainFlag f ∧ (any f flagDrained = true → s.HoldsNothing backend) := by
  rw [OneDrainFlag, hf, any_drained, hf, ← any_drained]
  exact h backend

theorem kept_of_progress {backend : String} {f : BackendFlags}
    (hf : f &&& drainFlags ∈ [0, flagDraining, flagDrainFailed]) :
    OneDrainFlag f ∧ (any f flagDrained = true → s.HoldsNothing backend) := by
  rw [OneDrainFlag, any_drained]
  revert hf
  generalize f &&& drainFlags = p
  simp only [mem_cons, not_mem_nil, or_false]
  rintro (rfl | rfl | rfl) <;> exact ⟨by decide, fun h => absurd h (by decide)⟩

section Rows

variable {tx : TxAdapter} {what backend : String} {fresh : Option BackendFlags}
  {guard : Ledger → BackendFlags → Bool} {set : BackendFlags → BackendFlags}

theorem drainsKept_same (h : s.DrainsKept)
    (hfresh : ∀ f, fresh = some f → f &&& drainFlags ∈ [0, flagDraining, flagDrainFailed])
    (hset : ∀ f, set f &&& drainFlags = f &&& drainFlags) :
    ((writeState tx what backend fresh guard set).commit s).DrainsKept := by
  refine drainsKept_writeState h ?_
  rintro f (hf | ⟨-, rfl⟩)
  · exact kept_of_progress (hfresh f hf)
  · exact kept_of_same h (hset _)

theorem drainsKept_progress (h : s.DrainsKept)
    (hfresh : ∀ f, fresh = some f → f &&& drainFlags ∈ [0, flagDraining, flagDrainFailed])
    (hset : ∀ f, set f &&& drainFlags ∈ [0, flagDraining, flagDrainFailed]) :
    ((writeState tx what backend fresh guard set).commit s).DrainsKept := by
  refine drainsKept_writeState h ?_
  rintro f (hf | ⟨-, rfl⟩)
  · exact kept_of_progress (hfresh f hf)
  · exact kept_of_progress (hset _)

end Rows

theorem drainsKept_completeDrain (h : s.DrainsKept) (backend : String) :
    ((DrainStep.completeDrain backend).next s).DrainsKept := by
  refine drainsKept_writeState h ?_
  rintro f (hf | ⟨hguard, rfl⟩)
  · cases hf
  · refine ⟨?_, fun _ => Ledger.holdsNothing_of_emptied (Bool.and_eq_true_iff.mp hguard).2⟩
    rw [OneDrainFlag, withProgress_and _ rfl]
    decide

theorem drainsKept_clearBackendState (h : s.DrainsKept) (backend : String) :
    ((DrainStep.clearBackendState backend).next s).DrainsKept := by
  intro b
  have hflags : ((DrainStep.clearBackendState backend).next s).flags b =
      if b = backend then 0 else s.flags b := flags_clearBackendState b
  rw [hflags]
  split_ifs with hb
  · exact kept_of_progress (by decide)
  · exact ⟨(h b).1, fun hd => ⟨((h b).2 hd).managed, ((h b).2 hd).intents, ((h b).2 hd).uploads⟩⟩

/-! ### Rows -/

theorem drainsKept_createMultipartUpload (h : s.DrainsKept) (uploadID backend : String) :
    ((DrainStep.createMultipartUpload uploadID backend).next s).DrainsKept := by
  refine Tx.commit_induct h fun r s' hok => ?_
  rcases createMultipartUpload_ok hok with rfl | ⟨hadm, t, ht, rfl⟩
  · exact h
  refine h.congr rfl fun b hd hempty => ⟨hempty.managed, hempty.intents, fun u hu => ?_⟩
  rw [ht] at hu
  rcases mem_append.mp hu with hu | hu
  · exact hempty.uploads u hu
  · rw [mem_singleton.mp hu]
    rintro rfl
    have hno := not_drained_of_within (by decide : acceptForWrite ∈ acceptMasks) (eq_of_beq hadm)
    exact Bool.noConfusion (hd.symm.trans hno)

theorem drainsKept_deleteBackendData (h : s.DrainsKept) (backend : String) :
    ((DrainStep.deleteBackendData backend).next s).DrainsKept := by
  refine Tx.commit_induct h fun r s' hok => ?_
  rw [deleteBackendData_ok hok]
  refine h.congr rfl fun b _ hempty => ⟨fun l hl => ?_, fun p hp => ?_, fun u hu => ?_⟩
  · exact hempty.managed l (mem_of_mem_filter hl)
  · exact hempty.intents p (mem_of_mem_filter hp)
  · exact hempty.uploads u (mem_of_mem_filter hu)

theorem drainsKept_elsewhere (h : s.DrainsKept) (e : Elsewhere) : (e.run s).DrainsKept := by
  refine h.congr (e.states s) fun b _ hempty => ⟨fun l hl hb => ?_, fun p hp => ?_, fun u hu => ?_⟩
  · have hrow := mem_map_of_mem (f := fun l => (l.backendName, l.unmanaged)) hl
    rw [e.copies] at hrow
    obtain ⟨a, ha, heq⟩ := mem_map.mp hrow
    obtain ⟨hab, ham⟩ := Prod.mk.inj heq
    rw [← ham]
    exact hempty.managed a ha (hab.trans hb)
  · have hrow := mem_map_of_mem (f := PendingObject.backendName) hp
    rw [e.intents] at hrow
    obtain ⟨a, ha, heq⟩ := mem_map.mp hrow
    rw [← heq]
    exact hempty.intents a ha
  · have hrow := mem_map_of_mem (f := MultipartUpload.backendName) hu
    rw [e.uploads] at hrow
    obtain ⟨a, ha, heq⟩ := mem_map.mp hrow
    rw [← heq]
    exact hempty.uploads a ha

/-! ### Transactions -/

theorem drainsKept_op {tx : TxAdapter} {op : Op} (h : s.DrainsKept) (hl : op.lawful s)
    (hspares : op.spares s) : (op.apply tx s).DrainsKept := by
  by_cases hskip : ∃ req, op = .importObject req ∧ s.imports req = false
  · obtain ⟨req, rfl, hno⟩ := hskip
    rwa [Op.apply, importObject_skips hno]
  obtain ⟨e, ho, happ⟩ := apply_outcome tx s op
  refine h.congr happ.states fun b hd hempty => hempty.applies happ (fun l hmem hb => ?_)
    fun p hmem => ho.claimed_elsewhere hl hd hmem
  refine ho.recorded_elsewhere hempty hl (fun req hop hreq => ?_) hmem hb
  subst hop hreq
  exact hspares hd (by simpa using fun hno => hskip ⟨req, rfl, hno⟩)

theorem drainsKept_claimCopies {tx : TxAdapter} {accepts : BackendFlags} (h : s.DrainsKept)
    (ha : accepts ∈ acceptMasks) (intents : List PendingObject) (ranked : List String) :
    ((claimInRankOrder tx accepts intents ranked).commit s).DrainsKept := by
  refine Tx.commit_induct h fun out s' hok => ?_
  refine claimInRankOrder_induct Ledger.DrainsKept (fun p _ name s1 s2 b hs1 h1 => ?_) h hok
  have hclaim : (Op.claim { p with backendName := name } accepts).apply tx s1 = s2 :=
    Tx.commit_of_ok h1
  rw [← hclaim]
  exact drainsKept_op hs1 ⟨trivial, trivial, ha⟩ trivial

theorem drainsKept_settle {tx : TxAdapter} (h : s.DrainsKept) (st : Settle) :
    (st.apply tx s).DrainsKept := by
  have hst := apply_settled tx s st
  refine h.congr (by rw [hst.rest]) fun b _ hempty => ⟨?_, ?_, ?_⟩
  · rw [hst.locations]
    exact hempty.managed
  · rw [hst.pending]
    exact hempty.intents
  · rw [hst.uploads]
    exact hempty.uploads

theorem drainsKept_next (h : s.DrainsKept) {e : DrainStep} (hl : e.Lawful s)
    (hspares : e.Spares s) : (e.next s).DrainsKept := by
  cases e with
  | transact instanceID now ev =>
    cases ev with
    | op op => exact drainsKept_op h hl hspares
    | claimCopies intents ranked accepts => exact drainsKept_claimCopies h hl intents ranked
    | settle st => exact drainsKept_settle h st
  | cordon backend =>
    exact drainsKept_same h (by rintro f ⟨⟩; decide) cordon_and
  | uncordon backend => exact drainsKept_same h (by rintro f ⟨⟩) uncordon_and
  | startDrain backend =>
    refine drainsKept_progress h (by rintro f ⟨⟩; decide) fun f => ?_
    rw [withProgress_and f rfl]
    decide
  | cancelDrain backend =>
    refine drainsKept_progress h (by rintro f ⟨⟩) fun f => ?_
    rw [cancel_and]
    decide
  | markDrainFailed backend =>
    refine drainsKept_progress h (by rintro f ⟨⟩) fun f => ?_
    rw [withProgress_and f rfl]
    decide
  | completeDrain backend => exact drainsKept_completeDrain h backend
  | createMultipartUpload uploadID backend =>
    exact drainsKept_createMultipartUpload h uploadID backend
  | deleteBackendData backend => exact drainsKept_deleteBackendData h backend
  | clearBackendState backend => exact drainsKept_clearBackendState h backend
  | elsewhere e => exact drainsKept_elsewhere h e

theorem spares_of_drainsKept {e : DrainStep} (h : (e.next s).DrainsKept) : e.Spares s := by
  cases e with
  | transact instanceID now ev =>
    cases ev with
    | op op =>
      cases op with
      | importObject req =>
        intro hd himp
        obtain ⟨e, -, happ⟩ := apply_outcome (adapterOf instanceID now) s (.importObject req)
        have hkept := h req.backend
        rw [next, Event.apply, Ledger.flags_congr happ.states] at hkept
        have hrow : (adapterOf instanceID now).locationRow (req.location now) ∈
            ((Op.importObject req).apply (adapterOf instanceID now) s).objectLocations.rows :=
          importObject_inserts (fun _ _ => rfl) himp
        rw [← unmanaged_location req (adapterOf instanceID now) now 0]
        exact (hkept.2 hd).managed _ hrow rfl
      | _ => trivial
    | _ => trivial
  | _ => trivial

/-- **A drained backend stays empty through a run, and no backend carries two of the drain's flags,
exactly when no managed object is imported onto a drained one.** -/
theorem drained_stays_empty_iff (quotas : Table BackendQuota sameBackend) (run : List DrainStep)
    (hl : Along next Lawful (.provisioned quotas) run) :
    Along next (fun s e => (e.next s).DrainsKept) (.provisioned quotas) run ↔
      Along next Spares (.provisioned quotas) run := by
  have hstart : (Ledger.provisioned quotas).DrainsKept := fun b =>
    kept_of_progress (f := 0) (by decide)
  exact hl.congr hstart
    (fun s e hs hlaw => ⟨spares_of_drainsKept, drainsKept_next hs hlaw⟩) fun s e _ _ hkept => hkept

def foundObject (unmanaged : Bool) : ImportObjectRequest where
  key := "k"
  backend := "b"
  size := 1
  unmanaged := unmanaged

def importedAfterDrain (unmanaged : Bool) : List DrainStep :=
  [.startDrain "b", .completeDrain "b",
    .transact "i" 1 (.op (.importObject (foundObject unmanaged)))]

/-- An unmanaged object may be imported onto a drained backend: the drain leaves such rows. -/
theorem unmanaged_import_spares :
    Along next Lawful (.provisioned soloQuota) (importedAfterDrain true) ∧
      Along next (fun s e => (e.next s).DrainsKept) (.provisioned soloQuota)
        (importedAfterDrain true) :=
  ⟨by decide +kernel, (drained_stays_empty_iff soloQuota (importedAfterDrain true)
    (by decide +kernel)).mpr (by decide +kernel)⟩

/-- The backend carries the drained flag and holds a managed row. -/
theorem import_fills_drained :
    Along next Lawful (.provisioned soloQuota) (importedAfterDrain false) ∧
      (after next (.provisioned soloQuota) (importedAfterDrain false)).flags "b" = flagDrained ∧
      ¬ (after next (.provisioned soloQuota) (importedAfterDrain false)).DrainsKept := by
  refine ⟨by decide +kernel, by decide +kernel, fun h => ?_⟩
  have hempty := (h "b").2 (by decide +kernel)
  have hrow : ∃ l ∈ (after next (.provisioned soloQuota)
      (importedAfterDrain false)).objectLocations.rows,
      l.backendName = "b" ∧ l.unmanaged = false := by decide +kernel
  obtain ⟨l, hl, hb, hm⟩ := hrow
  rw [hempty.managed l hl hb] at hm
  cases hm

end DrainStep

end S3Orchestrator
