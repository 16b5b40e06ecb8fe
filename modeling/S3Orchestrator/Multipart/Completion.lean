import S3Orchestrator.Ledger.Stripes

/-!
# The completion mark of a multipart upload

A completion marks its upload, renews the mark while it reads the parts, and clears it when it
returns. Part records and aborts are refused while the mark is young; an old one is taken to belong
to a completion that died. The mark is a time and names no owner.

* **`completion_undisturbed`**.
-/

namespace S3Orchestrator

open RowStore List

/-! ## Statements -/

def MultipartUpload.marked (selects : MultipartUpload → Bool) (time : Time) (u : MultipartUpload) :
    MultipartUpload :=
  if selects u then { u with completionHeartbeatAt := time } else u

@[simp] theorem MultipartUpload.marked_uploadID (selects : MultipartUpload → Bool) (time : Time)
    (u : MultipartUpload) : (u.marked selects time).uploadID = u.uploadID := by
  unfold marked
  split_ifs <;> rfl

def Ledger.markUploads (s : Ledger) (selects : MultipartUpload → Bool) (time : Time) : Ledger :=
  { s with
    multipartUploads := s.multipartUploads.update (MultipartUpload.marked selects time)
      fun a b => by simp [sameUpload] }

def beginSelects (uploadID : String) (staleBefore : Time) (u : MultipartUpload) : Bool :=
  decide (u.uploadID = uploadID ∧
    (u.completionHeartbeatAt = 0 ∨ u.completionHeartbeatAt < staleBefore))

/-- Marks the upload, unless a completion with a fresh heartbeat has it. -/
def beginMultipartCompletion (s : Ledger) (uploadID : String) (staleBefore now : Time) :
    Bool × Ledger :=
  (s.multipartUploads.rows.any (beginSelects uploadID staleBefore),
    s.markUploads (beginSelects uploadID staleBefore) now)

def renewSelects (uploadID : String) (u : MultipartUpload) : Bool :=
  decide (u.uploadID = uploadID ∧ u.completionHeartbeatAt ≠ 0)

/-- The heartbeat of a completion. -/
def renewMultipartCompletion (s : Ledger) (uploadID : String) (now : Time) : Bool × Ledger :=
  (s.multipartUploads.rows.any (renewSelects uploadID), s.markUploads (renewSelects uploadID) now)

def endMultipartCompletion (s : Ledger) (uploadID : String) : Ledger :=
  s.markUploads (fun u => decide (u.uploadID = uploadID)) 0

def listParts (s : Ledger) (uploadID : String) (afterPart : Int) (limit : Nat) :
    List MultipartPart :=
  ((s.multipartParts.rows.filter fun p =>
    decide (p.uploadID = uploadID ∧ afterPart < p.partNumber)).insertionSort
      fun a b => a.partNumber ≤ b.partNumber).take limit

def maxPartCount : Nat := 10000

/-- The parts that the client names, or the numbers that are missing. -/
def collectRequestedParts (s : Ledger) (uploadID : String) (partNumbers : List Int) :
    Except (List Int) (List MultipartPart) :=
  let allParts := listParts s uploadID 0 maxPartCount
  let byNumber := fun n => allParts.find? fun p => decide (p.partNumber = n)
  let missing := partNumbers.filter fun n => (byNumber n).isNone
  if missing = [] then .ok (partNumbers.filterMap byNumber) else .error missing

variable {uploadID : String} {accepts : BackendFlags} {now : Time}

theorem mem_listParts {s : Ledger} {afterPart : Int} {limit : Nat}
    {p : MultipartPart} (h : p ∈ listParts s uploadID afterPart limit) :
    p ∈ s.multipartParts.rows ∧ p.uploadID = uploadID := by
  have hsorted := mem_of_mem_take h
  rw [mem_insertionSort, mem_filter] at hsorted
  exact ⟨hsorted.1, (of_decide_eq_true hsorted.2).1⟩

theorem mem_collectRequestedParts {s : Ledger} {partNumbers : List Int}
    {parts : List MultipartPart} (h : collectRequestedParts s uploadID partNumbers = .ok parts)
    {p : MultipartPart} (hp : p ∈ parts) : p ∈ s.multipartParts.rows ∧ p.uploadID = uploadID := by
  unfold collectRequestedParts at h
  dsimp only at h
  split_ifs at h
  cases h
  obtain ⟨n, -, hfind⟩ := mem_filterMap.mp hp
  exact mem_listParts (mem_of_find?_eq_some hfind)

/-! ## Completions, part uploads and aborts of one upload -/

/-- Where a completion that took the mark stands. One that `stopped` reads no more parts, because
the object is committed or because the completion failed. One that is `gone` returned or died. -/
inductive CompletionPhase
  | listing
  | reading (parts : List MultipartPart)
  | stopped (committed : Bool)
  | gone
  deriving DecidableEq

namespace CompletionPhase

def running : CompletionPhase → Bool
  | .gone => false
  | _ => true

def reads : CompletionPhase → Bool
  | .listing | .reading _ => true
  | _ => false

def hasStopped : CompletionPhase → Bool
  | .stopped _ => true
  | _ => false

def todo : CompletionPhase → List MultipartPart
  | .reading parts => parts
  | _ => []

/-- The parts are listed, or the request names one that is missing. -/
def collected (r : Except (List Int) (List MultipartPart)) : CompletionPhase → CompletionPhase
  | .listing =>
    match r with
    | .ok parts => .reading parts
    | .error _ => .stopped false
  | c => c

def advanced : CompletionPhase → CompletionPhase
  | .reading (_ :: parts) => .reading parts
  | c => c

def committed : CompletionPhase → CompletionPhase
  | .reading [] => .stopped true
  | c => c

def cancelled (c : CompletionPhase) : CompletionPhase := if c.reads then .stopped false else c

end CompletionPhase

structure CompletionSystem where
  uploadID : String
  ledger : Ledger
  completions : List CompletionPhase := []

def reasonAbortPart : String := "abort_part_cleanup"
def reasonCompletePart : String := "complete_part_cleanup"

/-- Completions are known by their place in the list. A caller computes its times before its
statement, so they are arguments. -/
inductive CompletionEvent
  | begin (staleBefore now : Time)
  | list (i : Nat) (partNumbers : List Int)
  | read (i : Nat)
  | renew (i : Nat) (now : Time)
  | fail (i : Nat)
  | commit (i : Nat)
  | cleanup (i : Nat) (tx : TxAdapter) (now : Time)
  | finish (i : Nat) (cleared : Bool)
  | crash (i : Nat)
  | claim (tx : TxAdapter) (p : PendingObject) (accepts : BackendFlags)
  | recordPart (tx : TxAdapter) (p : RecordPartParams)
  | discard (tx : TxAdapter) (p : PendingObject) (reason : String)
  | abort (tx : TxAdapter) (staleBefore : Time)

def CompletionEvent.actor : CompletionEvent → Option Nat
  | .list i _ | .read i | .renew i _ | .fail i | .commit i | .cleanup i _ _ | .finish i _
  | .crash i => some i
  | _ => none

namespace CompletionSystem

def move (s : CompletionSystem) (i : Nat) (f : CompletionPhase → CompletionPhase) :
    CompletionSystem :=
  { s with completions := s.completions.modify i f }

def transact (s : CompletionSystem) (tx : TxAdapter) (op : Op) : CompletionSystem :=
  { s with ledger := op.apply tx s.ledger }

def step (s : CompletionSystem) : CompletionEvent → CompletionSystem
  | .begin staleBefore now =>
    match beginMultipartCompletion s.ledger s.uploadID staleBefore now with
    | (true, ledger) => { s with ledger := ledger, completions := s.completions ++ [.listing] }
    | (false, _) => s
  | .list i partNumbers =>
    s.move i (.collected (collectRequestedParts s.ledger s.uploadID partNumbers))
  | .read i => s.move i .advanced
  | .renew i now =>
    if s.completions[i]?.any CompletionPhase.running then
      match renewMultipartCompletion s.ledger s.uploadID now with
      | (true, ledger) => { s with ledger := ledger }
      | (false, _) => s.move i .cancelled
    else s
  | .fail i => s.move i .cancelled
  | .commit i => s.move i .committed
  | .cleanup i tx now =>
    -- The completion deletes under its own mark, which cannot be younger than now.
    if s.completions[i]? = some (.stopped true) then
      s.transact tx (.deleteMultipartUpload s.uploadID reasonCompletePart now)
    else s
  | .finish i cleared =>
    if s.completions[i]?.any CompletionPhase.hasStopped then
      { s.move i fun _ => .gone with
        ledger := if cleared then endMultipartCompletion s.ledger s.uploadID else s.ledger }
    else s
  | .crash i => s.move i fun _ => .gone
  | .claim tx p accepts => s.transact tx (.claim p accepts)
  | .recordPart tx p => s.transact tx (.recordPart p)
  | .discard tx p reason => s.transact tx (.discardPending p reason)
  | .abort tx staleBefore =>
    s.transact tx (.deleteMultipartUpload s.uploadID reasonAbortPart staleBefore)

/-! ## What a completion is owed -/

/-- The parts that a completion has yet to read. -/
def toRead (s : CompletionSystem) : CompletionPhase → List MultipartPart
  | .listing => s.ledger.multipartParts.rows.filter fun p => decide (p.uploadID = s.uploadID)
  | c => c.todo

/-- The event neither removes the part nor queues its path. -/
def Untouched (s : CompletionSystem) (e : CompletionEvent) (p : MultipartPart) : Prop :=
  p ∈ (s.step e).ledger.multipartParts.rows ∧
    ∀ c ∈ (s.step e).ledger.cleanupQueue.map CleanupItem.request, c.storageKey = p.path →
      c ∈ s.ledger.cleanupQueue.map CleanupItem.request

/-- The heartbeats on the upload's row. -/
def marks (s : CompletionSystem) : List Time :=
  (s.ledger.multipartUploads.rows.filter fun u => decide (u.uploadID = s.uploadID)).map
    MultipartUpload.completionHeartbeatAt

/-- No other party touches what a completion is to read, and no completion changes the mark while
another one runs. -/
def Guarded (s : CompletionSystem) (e : CompletionEvent) : Prop :=
  (∀ i c, s.completions[i]? = some c → e.actor ≠ some i → ∀ p ∈ s.toRead c, s.Untouched e p) ∧
    ∀ i j c, e.actor = some i → j ≠ i → s.completions[j]? = some c → c.running = true →
      (s.step e).marks = s.marks

/-! ## Assumptions -/

/-- Every pending write has a path of its own, where no part of the upload is recorded. -/
def OwnPaths (s : CompletionSystem) : Prop :=
  (s.ledger.pendingObjects.rows.map PendingObject.storageKey).Nodup ∧
    ∀ q ∈ s.ledger.pendingObjects.rows, ∀ p ∈ s.ledger.multipartParts.rows,
      p.uploadID = s.uploadID → p.path ≠ q.storageKey

/-- The request names the path its intent was claimed for. -/
def AsClaimed (s : CompletionSystem) (p : PendingObject) : Prop :=
  p.intentID ≠ "" ∧ p.storageKey ≠ "" ∧ ∀ q ∈ s.ledger.pendingObjects.rows,
    q.intentID = p.intentID → q.storageKey = p.storageKey

/-- Clocks do not stand at zero, a claim is for a new path, and part uploads go on with the intent
they claimed. -/
def Assumed (s : CompletionSystem) : CompletionEvent → Prop
  | .begin _ now | .renew _ now => now ≠ 0
  | .claim _ p _ =>
    (∀ q ∈ s.ledger.pendingObjects.rows,
      q.storageKey ≠ storagePath p.objectKey p.storageKey) ∧
    ∀ r ∈ s.ledger.multipartParts.rows, r.uploadID = s.uploadID →
      r.path ≠ storagePath p.objectKey p.storageKey
  | .recordPart _ p => p.uploadID = s.uploadID ∧ s.AsClaimed p.intent
  | .discard _ p _ => s.AsClaimed p
  | _ => True

/-- No completion runs when its heartbeat counts as stale. -/
def MarkHonest (s : CompletionSystem) : CompletionEvent → Prop
  | .begin staleBefore _ =>
    (∃ m ∈ s.marks, m ≠ 0 ∧ m < staleBefore) → ∀ c ∈ s.completions, c.running = false
  | .recordPart _ p =>
    (∃ m ∈ s.marks, m ≠ 0 ∧ m ≤ p.completionStaleBefore) →
      ∀ c ∈ s.completions, c.running = false
  | .abort _ staleBefore =>
    (∃ m ∈ s.marks, m ≠ 0 ∧ m ≤ staleBefore) → ∀ c ∈ s.completions, c.running = false
  | _ => True

/-! ## The invariant -/

/-- At most one completion runs, with the upload marked; while it reads, the upload and the parts it
listed are there. -/
structure Sound (s : CompletionSystem) : Prop where
  one : ∀ (i j : Nat) (a b : CompletionPhase), s.completions[i]? = some a →
    s.completions[j]? = some b → a.running = true → b.running = true → i = j
  marked : (∃ c ∈ s.completions, c.running = true) →
    ∀ u ∈ s.ledger.multipartUploads.rows, u.uploadID = s.uploadID → u.completionHeartbeatAt ≠ 0
  present : (∃ c ∈ s.completions, c.reads = true) →
    ∃ u ∈ s.ledger.multipartUploads.rows, u.uploadID = s.uploadID
  todo : ∀ c ∈ s.completions, ∀ p ∈ c.todo,
    p ∈ s.ledger.multipartParts.rows ∧ p.uploadID = s.uploadID
  own : s.OwnPaths

section Phases

variable {s : CompletionSystem} {i : Nat} {f : CompletionPhase → CompletionPhase}
  {c : CompletionPhase}

theorem running_of_reads (h : c.reads = true) : c.running = true := by
  cases c <;> first | rfl | cases h

theorem running_of_hasStopped (h : c.hasStopped = true) : c.running = true ∧ c.reads = false := by
  cases c <;> first | exact ⟨rfl, rfl⟩ | cases h

theorem reads_of_mem_todo {p : MultipartPart} (h : p ∈ c.todo) : c.reads = true := by
  cases c <;> first | rfl | exact by cases h

theorem getElem?_move {j : Nat} (h : (s.move i f).completions[j]? = some c) :
    ∃ c0, s.completions[j]? = some c0 ∧ (c = c0 ∨ c = f c0) := by
  rw [move, getElem?_modify] at h
  obtain ⟨c0, hc0, rfl⟩ := Option.map_eq_some_iff.mp h
  refine ⟨c0, hc0, ?_⟩
  split_ifs
  · exact .inr rfl
  · exact .inl rfl

theorem mem_move (h : c ∈ (s.move i f).completions) : ∃ c0 ∈ s.completions, c = c0 ∨ c = f c0 := by
  obtain ⟨j, hj⟩ := mem_iff_getElem?.mp h
  obtain ⟨c0, hc0, hc⟩ := getElem?_move hj
  exact ⟨c0, mem_of_getElem? hc0, hc⟩

def Narrows (s : CompletionSystem) (f : CompletionPhase → CompletionPhase) : Prop :=
  ∀ c, ((f c).running = true → c.running = true) ∧ ((f c).reads = true → c.reads = true) ∧
    ∀ p ∈ (f c).todo, p ∈ c.todo ∨ p ∈ s.ledger.multipartParts.rows ∧ p.uploadID = s.uploadID

theorem narrows_collected (partNumbers : List Int) :
    s.Narrows (.collected (collectRequestedParts s.ledger s.uploadID partNumbers)) := by
  intro c
  cases c with
  | listing =>
    cases hr : collectRequestedParts s.ledger s.uploadID partNumbers with
    | ok parts =>
      exact ⟨fun _ => rfl, fun _ => rfl, fun p hp => .inr (mem_collectRequestedParts hr hp)⟩
    | error missing =>
      exact ⟨fun _ => rfl, fun _ => rfl, fun p hp => by cases hp⟩
  | reading parts | stopped b | gone => exact ⟨fun h => h, fun h => h, fun p hp => .inl hp⟩

theorem narrows_advanced : s.Narrows .advanced := by
  intro c
  unfold CompletionPhase.advanced
  split
  · exact ⟨fun _ => rfl, fun _ => rfl, fun p hp => .inl (mem_cons_of_mem _ hp)⟩
  · exact ⟨fun h => h, fun h => h, fun p hp => .inl hp⟩

theorem narrows_committed : s.Narrows .committed := by
  intro c
  unfold CompletionPhase.committed
  split
  · exact ⟨fun _ => rfl, fun h => absurd h Bool.false_ne_true, fun p hp => by cases hp⟩
  · exact ⟨fun h => h, fun h => h, fun p hp => .inl hp⟩

theorem narrows_cancelled : s.Narrows .cancelled := by
  intro c
  unfold CompletionPhase.cancelled
  split_ifs with h
  · exact ⟨fun _ => running_of_reads h, fun h => absurd h Bool.false_ne_true,
      fun p hp => by cases hp⟩
  · exact ⟨fun h => h, fun h => h, fun p hp => .inl hp⟩

theorem narrows_gone : s.Narrows fun _ => .gone :=
  fun _ => ⟨fun h => absurd h Bool.false_ne_true, fun h => absurd h Bool.false_ne_true,
    fun _ hp => by cases hp⟩

theorem Sound.move (h : s.Sound) (hf : s.Narrows f) (i : Nat) : (s.move i f).Sound := by
  have hrun : ∀ {c c0 : CompletionPhase}, c = c0 ∨ c = f c0 → c.running = true →
      c0.running = true := by
    rintro c c0 (rfl | rfl) hc
    · exact hc
    · exact (hf c0).1 hc
  refine ⟨fun a b x y hx hy hxr hyr => ?_, fun ⟨c, hc, hr⟩ => h.marked ?_,
    fun ⟨c, hc, hr⟩ => h.present ?_, fun c hc p hp => ?_, h.own⟩
  · obtain ⟨x0, hx0, hx⟩ := getElem?_move hx
    obtain ⟨y0, hy0, hy⟩ := getElem?_move hy
    exact h.one a b x0 y0 hx0 hy0 (hrun hx hxr) (hrun hy hyr)
  · obtain ⟨c0, hc0, hc⟩ := mem_move hc
    exact ⟨c0, hc0, hrun hc hr⟩
  · obtain ⟨c0, hc0, rfl | rfl⟩ := mem_move hc
    · exact ⟨c, hc0, hr⟩
    · exact ⟨c0, hc0, (hf c0).2.1 hr⟩
  · obtain ⟨c0, hc0, rfl | rfl⟩ := mem_move hc
    · exact h.todo c hc0 p hp
    · exact ((hf c0).2.2 p hp).elim (h.todo c0 hc0 p) fun hnew => hnew

end Phases

/-! ## Marks -/

section Marks

variable {s : CompletionSystem}

theorem mem_marks {m : Time} : m ∈ s.marks ↔ ∃ u ∈ s.ledger.multipartUploads.rows,
    u.uploadID = s.uploadID ∧ u.completionHeartbeatAt = m := by
  simp [marks, and_assoc]

variable {u : MultipartUpload} {tx : TxAdapter} {staleBefore : Time} {l : Ledger}
  {selects : MultipartUpload → Bool}

theorem mem_markUploads {time : Time} (h : u ∈ (l.markUploads selects time).multipartUploads.rows) :
    ∃ u0 ∈ l.multipartUploads.rows, u0.uploadID = u.uploadID ∧
      (selects u0 = true ∧ u.completionHeartbeatAt = time ∨
        selects u0 = false ∧ u.completionHeartbeatAt = u0.completionHeartbeatAt) := by
  obtain ⟨u0, hu0, rfl⟩ := mem_map.mp h
  refine ⟨u0, hu0, (MultipartUpload.marked_uploadID _ _ _).symm, ?_⟩
  unfold MultipartUpload.marked
  cases hs : selects u0 with
  | true => exact .inl ⟨rfl, rfl⟩
  | false => exact .inr ⟨rfl, rfl⟩

theorem exists_mem_markUploads {time : Time} (h : u ∈ l.multipartUploads.rows) :
    ∃ u' ∈ (l.markUploads selects time).multipartUploads.rows, u'.uploadID = u.uploadID :=
  ⟨_, mem_map_of_mem h, MultipartUpload.marked_uploadID _ _ _⟩

theorem lockUploadIdle_old {l l' : Ledger} {backend : String}
    (h : lockUploadIdle tx uploadID staleBefore l = .ok (backend, l'))
    (hu : u ∈ l.multipartUploads.rows) (hid : u.uploadID = uploadID) :
    u.completionHeartbeatAt ≤ staleBefore := by
  obtain ⟨⟨b, heartbeat⟩, s1, ⟨rfl, ⟨m, hm, hmid, hr⟩ | ⟨hnone, -⟩⟩, h2⟩ :=
    Tx.bind_ok h TxAdapter.lockMultipartUpload_ok
  · obtain ⟨-, rfl⟩ := Prod.mk.inj hr
    rw [upload_unique hu hm (hid.trans hmid.symm)]
    dsimp only at h2
    split_ifs at h2 with hbusy
    · exact absurd h2 (by simp)
    · exact Nat.le_of_not_lt hbusy
  · exact absurd hid (hnone u hu)

theorem recordPart_old {p : RecordPartParams} (hu : u ∈ l.multipartUploads.rows)
    (hid : u.uploadID = p.uploadID) :
    (Op.recordPart p).apply tx l = l ∨ u.completionHeartbeatAt ≤ p.completionStaleBefore := by
  rcases Tx.commit_cases (recordPart tx p) l with h | ⟨r, h⟩
  · exact .inl h
  · right
    unfold recordPart at h
    split_ifs at h
    · obtain ⟨backend, l1, h1, -⟩ := Tx.bind_eq_ok.mp h
      exact lockUploadIdle_old h1 hu hid
    · exact absurd h (by simp)

theorem deleteMultipartUpload_old {reason : String} (hu : u ∈ l.multipartUploads.rows)
    (hid : u.uploadID = uploadID) :
    (Op.deleteMultipartUpload uploadID reason staleBefore).apply tx l = l ∨
      u.completionHeartbeatAt ≤ staleBefore := by
  rcases Tx.commit_cases (deleteMultipartUpload tx uploadID reason staleBefore) l with h | ⟨r, h⟩
  · exact .inl h
  · obtain ⟨backend, l1, h1, -⟩ := Tx.bind_eq_ok.mp h
    exact .inr (lockUploadIdle_old h1 hu hid)

variable {c : CompletionPhase}

theorem Sound.young (h : s.Sound) (hc : c ∈ s.completions) (hr : c.reads = true) :
    ∃ u ∈ s.ledger.multipartUploads.rows, u.uploadID = s.uploadID ∧
      ∀ old : Time → Prop, ((∃ m ∈ s.marks, m ≠ 0 ∧ old m) →
        ∀ c ∈ s.completions, c.running = false) → ¬ old u.completionHeartbeatAt := by
  have hrun := running_of_reads hr
  obtain ⟨u, hu, hid⟩ := h.present ⟨c, hc, hr⟩
  refine ⟨u, hu, hid, fun old hm hold => ?_⟩
  have hover := hm ⟨_, mem_marks.mpr ⟨u, hu, hid, rfl⟩, h.marked ⟨c, hc, hrun⟩ u hu hid, hold⟩ c hc
  rw [hrun] at hover
  cases hover

theorem Sound.refused_recordPart (h : s.Sound) {p : RecordPartParams}
    (ha : s.Assumed (.recordPart tx p)) (hm : s.MarkHonest (.recordPart tx p))
    (hc : c ∈ s.completions) (hr : c.reads = true) :
    (Op.recordPart p).apply tx s.ledger = s.ledger := by
  obtain ⟨u, hu, hid, hyoung⟩ := h.young hc hr
  exact (recordPart_old hu (hid.trans ha.1.symm)).resolve_right (hyoung _ hm)

theorem Sound.refused_abort (h : s.Sound) (hm : s.MarkHonest (.abort tx staleBefore))
    (hc : c ∈ s.completions) (hr : c.reads = true) :
    (Op.deleteMultipartUpload s.uploadID reasonAbortPart staleBefore).apply tx s.ledger =
      s.ledger := by
  obtain ⟨u, hu, hid, hyoung⟩ := h.young hc hr
  exact (deleteMultipartUpload_old hu hid).resolve_right (hyoung _ hm)

end Marks

/-! ## Paths -/

section Paths

variable {s : CompletionSystem} {l : Ledger}

section

variable (h : s.OwnPaths)
include h

theorem OwnPaths.of_sublist (hpending : l.pendingObjects.rows.Sublist s.ledger.pendingObjects.rows)
    (hparts : ∀ p ∈ l.multipartParts.rows, p.uploadID = s.uploadID →
      p ∈ s.ledger.multipartParts.rows ∨ ∀ q ∈ l.pendingObjects.rows, p.path ≠ q.storageKey) :
    OwnPaths { s with ledger := l } := by
  refine ⟨h.1.sublist (hpending.map _), fun q hq p hp hid => ?_⟩
  rcases hparts p hp hid with hold | hnew
  · exact h.2 q (hpending.subset hq) p hold hid
  · exact hnew q hq

theorem OwnPaths.of_applies {e : Effect} (happ : Applies e s.ledger l) (hclaimed : e.claimed = [])
    (hrecorded : e.partsRecorded = []) : OwnPaths { s with ledger := l } := by
  refine h.of_sublist ?_ fun q hq _ => .inl ?_
  · rw [happ.pending, hclaimed, append_nil]
    exact filter_sublist
  · rw [happ.parts, hrecorded, append_nil] at hq
    exact (mem_filter.mp hq).1

theorem OwnPaths.claim {tx : TxAdapter} {p : PendingObject}
    (ha : s.Assumed (.claim tx p accepts)) : (s.transact tx (.claim p accepts)).OwnPaths := by
  obtain ⟨e, ho, happ⟩ := apply_outcome tx s.ledger (.claim p accepts)
  cases ho with
  | nothing => exact h.of_applies happ rfl rfl
  | claimed =>
    have hpending : ((Op.claim p accepts).apply tx s.ledger).pendingObjects.rows =
        s.ledger.pendingObjects.rows ++ [tx.pendingRow p] := by
      simp [happ.pending, Effect.claiming]
    have hparts : ((Op.claim p accepts).apply tx s.ledger).multipartParts.rows =
        s.ledger.multipartParts.rows := by
      simp [happ.parts, Effect.claiming]
    refine ⟨?_, fun q hq r hr hid => ?_⟩
    · dsimp only [transact]
      rw [hpending, map_append]
      refine h.1.append (nodup_singleton _) ?_
      simpa [TxAdapter.pendingRow] using fun q hq => ha.1 q hq
    · dsimp only [transact] at hq hr
      rw [hpending] at hq
      rw [hparts] at hr
      rcases mem_append.mp hq with hold | hnew
      · exact h.2 q hold r hr hid
      · rw [mem_singleton.mp hnew]
        exact ha.2 r hr hid

theorem OwnPaths.recordPart {tx : TxAdapter} {p : RecordPartParams}
    (ha : s.Assumed (.recordPart tx p)) : (s.transact tx (.recordPart p)).OwnPaths := by
  obtain ⟨e, ho, happ⟩ := apply_outcome tx s.ledger (.recordPart p)
  cases ho with
  | nothing | partLost => exact h.of_applies happ rfl rfl
  | partRecorded hheld =>
    obtain ⟨-, hintent, hnonempty, hclaimed⟩ := ha
    have hpending : ((Op.recordPart p).apply tx s.ledger).pendingObjects.rows =
        s.ledger.pendingObjects.rows.filter fun q => !decide (q.intentID = p.intent.intentID) := by
      simp [happ.pending, Effect.recordingPart]
    refine h.of_sublist (by rw [hpending]; exact filter_sublist) fun r hr _ => ?_
    rcases happ.mem_parts.mp hr with ⟨hold, -⟩ | hnew
    · exact .inl hold
    · refine .inr fun q hq hpath => ?_
      obtain rfl := mem_singleton.mp hnew
      rw [hpending] at hq
      obtain ⟨hq, hother⟩ := mem_filter.mp hq
      obtain ⟨own, hown, hid⟩ : ∃ own ∈ s.ledger.pendingObjects.rows,
          own.intentID = p.intent.intentID := by
        simpa [Ledger.holdsAll, Ledger.holds, hintent] using hheld
      have hkey : q.storageKey = own.storageKey := by
        rw [hclaimed own hown hid, ← hpath, MultipartPart.path]
        simp [TxAdapter.partRow, hnonempty]
      rw [inj_on_of_nodup_map h.1 hq hown hkey, hid] at hother
      simp at hother

theorem OwnPaths.discard (tx : TxAdapter) (p : PendingObject) (reason : String) :
    (s.transact tx (.discardPending p reason)).OwnPaths := by
  obtain ⟨e, ho, happ⟩ := apply_outcome tx s.ledger (.discardPending p reason)
  cases ho <;> exact h.of_applies happ rfl rfl

theorem OwnPaths.deleteUpload (tx : TxAdapter) (uploadID reason : String) (staleBefore : Time) :
    (s.transact tx (.deleteMultipartUpload uploadID reason staleBefore)).OwnPaths := by
  obtain ⟨e, ho, happ⟩ := apply_outcome tx s.ledger
    (.deleteMultipartUpload uploadID reason staleBefore)
  cases ho <;> exact h.of_applies happ rfl rfl

end

end Paths

/-! ## Every step keeps the invariant -/

section Steps

variable {s : CompletionSystem} {tx : TxAdapter} {i : Nat}

theorem Sound.transact (h : s.Sound) {op : Op} (hown : (s.transact tx op).OwnPaths)
    (hreads : (∃ c ∈ s.completions, c.reads = true) →
      (∀ u ∈ s.ledger.multipartUploads.rows, u ∈ (op.apply tx s.ledger).multipartUploads.rows) ∧
      ∀ p ∈ s.ledger.multipartParts.rows, p ∈ (op.apply tx s.ledger).multipartParts.rows) :
    (s.transact tx op).Sound := by
  obtain ⟨e, -, happ⟩ := apply_outcome tx s.ledger op
  refine ⟨h.one, fun hrun u hu => h.marked hrun u (happ.mem_uploads.mp hu).1, fun hr => ?_,
    fun c hc p hp => ?_, hown⟩
  · obtain ⟨u, hu, hid⟩ := h.present hr
    exact ⟨u, (hreads hr).1 u hu, hid⟩
  · obtain ⟨hrow, hid⟩ := h.todo c hc p hp
    exact ⟨(hreads ⟨c, hc, reads_of_mem_todo hp⟩).2 p hrow, hid⟩

theorem Sound.transact_adding (h : s.Sound) {op : Op} (hown : (s.transact tx op).OwnPaths)
    (hadds : ∀ e, Outcome tx s.ledger op e →
      (∀ u, e.uploadsRemoved u = false) ∧ ∀ p, e.partsRemoved p = false) :
    (s.transact tx op).Sound := by
  obtain ⟨e, ho, happ⟩ := apply_outcome tx s.ledger op
  obtain ⟨huploads, hparts⟩ := hadds e ho
  exact h.transact hown fun _ => ⟨fun u hu => happ.mem_uploads.mpr ⟨hu, huploads u⟩,
    fun p hp => happ.mem_parts.mpr (.inl ⟨hp, hparts p⟩)⟩

theorem Sound.none_reads (h : s.Sound) {c : CompletionPhase} (hc : s.completions[i]? = some c)
    (hrun : c.running = true) (hnot : c.reads = false) :
    ¬ ∃ c' ∈ s.completions, c'.reads = true := by
  rintro ⟨c', hc', hr⟩
  obtain ⟨j, hj⟩ := mem_iff_getElem?.mp hc'
  obtain rfl := h.one i j c c' hc hj hrun (running_of_reads hr)
  rw [hj] at hc
  cases hc
  rw [hr] at hnot
  cases hnot

theorem Sound.begin (h : s.Sound) {staleBefore : Time}
    (ha : s.Assumed (.begin staleBefore now)) (hm : s.MarkHonest (.begin staleBefore now)) :
    (s.step (.begin staleBefore now)).Sound := by
  dsimp only [step, beginMultipartCompletion]
  split
  next ledger heq =>
    obtain ⟨hany, rfl⟩ := Prod.mk.inj heq
    obtain ⟨u, hu, hsel⟩ := any_eq_true.mp hany
    obtain ⟨hid, hfree⟩ := of_decide_eq_true hsel
    -- Whoever ran until now is over: the mark was free, or is found too old.
    have hover : ∀ c ∈ s.completions, c.running = false := by
      intro c hc
      by_contra hrun
      have hmark := h.marked ⟨c, hc, by simpa using hrun⟩ u hu hid
      exact hrun (hm ⟨_, mem_marks.mpr ⟨u, hu, hid, rfl⟩, hmark, hfree.resolve_left hmark⟩ c hc)
    have hlast : ∀ (j : Nat) (c : CompletionPhase),
        (s.completions ++ [CompletionPhase.listing])[j]? = some c → c.running = true →
        j = s.completions.length := by
      intro j c hj hrun
      rcases Nat.lt_trichotomy j s.completions.length with hlt | heq | hgt
      · rw [getElem?_append_left hlt] at hj
        rw [hover c (mem_of_getElem? hj)] at hrun
        cases hrun
      · exact heq
      · rw [getElem?_eq_none (by simp; omega)] at hj
        cases hj
    refine ⟨fun i j a b hi hj ha' hb => ?_, fun _ v hv hvid => ?_, fun _ => ?_,
      fun c hc p hp => ?_, h.own⟩
    · rw [hlast i a hi ha', hlast j b hj hb]
    · obtain ⟨v0, hv0, hvid0, ⟨-, hnew⟩ | ⟨hns, hold⟩⟩ := mem_markUploads hv
      · rw [hnew]
        exact ha
      · rw [upload_unique hv0 hu (hvid0.trans (hvid.trans hid.symm)), hsel] at hns
        cases hns
    · obtain ⟨v, hv, hvid⟩ := exists_mem_markUploads hu
      exact ⟨v, hv, hvid.trans hid⟩
    · rcases mem_append.mp hc with hold | hnew
      · exact h.todo c hold p hp
      · rw [mem_singleton.mp hnew] at hp
        cases hp
  next => exact h

theorem Sound.renew (h : s.Sound) (ha : s.Assumed (.renew i now)) :
    (s.step (.renew i now)).Sound := by
  dsimp only [step, renewMultipartCompletion]
  split_ifs
  · split
    next ledger heq =>
      obtain ⟨-, rfl⟩ := Prod.mk.inj heq
      refine ⟨h.one, fun hrun v hv hvid => ?_, fun hr => ?_, h.todo, h.own⟩
      · obtain ⟨v0, hv0, hvid0, ⟨-, hnew⟩ | ⟨-, hold⟩⟩ := mem_markUploads hv
        · rw [hnew]
          exact ha
        · rw [hold]
          exact h.marked hrun v0 hv0 (hvid0.trans hvid)
      · obtain ⟨u, hu, hid⟩ := h.present hr
        obtain ⟨v, hv, hvid⟩ := exists_mem_markUploads hu
        exact ⟨v, hv, hvid.trans hid⟩
    next => exact h.move narrows_cancelled i
  · exact h

theorem exists_of_any {f : CompletionPhase → Bool} (h : s.completions[i]?.any f = true) :
    ∃ c, s.completions[i]? = some c ∧ f c = true := by
  cases hc : s.completions[i]? with
  | none => simp [hc] at h
  | some c => exact ⟨c, rfl, by simpa [hc] using h⟩

section

variable (h : s.Sound)
include h

theorem Sound.finish (i : Nat) (cleared : Bool) : (s.step (.finish i cleared)).Sound := by
  dsimp only [step]
  split_ifs with hstop hclear
  · obtain ⟨c, hc, hst⟩ := exists_of_any hstop
    have hrun := (running_of_hasStopped hst).1
    have hmoved := h.move narrows_gone i
    have hnone : ∀ c' ∈ (s.move i fun _ => .gone).completions, c'.running = false := by
      intro c' hc'
      obtain ⟨j, hj⟩ := mem_iff_getElem?.mp hc'
      by_contra hr
      obtain ⟨c0, hc0, rfl | rfl⟩ := getElem?_move hj
      · obtain rfl := h.one i j c c' hc hc0 hrun (by simpa using hr)
        simp [CompletionSystem.move, hc] at hj
        exact hr (hj ▸ rfl)
      · exact hr rfl
    refine ⟨hmoved.one, fun ⟨c', hc', hr⟩ => ?_, fun ⟨c', hc', hr⟩ => ?_, hmoved.todo, h.own⟩
    · rw [hnone c' hc'] at hr
      cases hr
    · have hover := hnone c' hc'
      rw [running_of_reads hr] at hover
      cases hover
  · exact h.move narrows_gone i
  · exact h

theorem Sound.cleanup (i : Nat) (tx : TxAdapter) (now : Time) :
    (s.step (.cleanup i tx now)).Sound := by
  dsimp only [step]
  split_ifs with hc
  · refine h.transact (h.own.deleteUpload _ _ _ _) fun hr => ?_
    exact absurd hr (h.none_reads hc rfl rfl)
  · exact h

theorem Sound.claim {p : PendingObject}
    (ha : s.Assumed (.claim tx p accepts)) : (s.step (.claim tx p accepts)).Sound :=
  h.transact_adding (h.own.claim ha) fun _ ho => by cases ho <;> exact ⟨fun _ => rfl, fun _ => rfl⟩

theorem Sound.recordPart {p : RecordPartParams} (ha : s.Assumed (.recordPart tx p))
    (hm : s.MarkHonest (.recordPart tx p)) : (s.step (.recordPart tx p)).Sound := by
  refine h.transact (h.own.recordPart ha) fun ⟨c, hc, hr⟩ => ?_
  rw [h.refused_recordPart ha hm hc hr]
  exact ⟨fun u hu => hu, fun p hp => hp⟩

theorem Sound.discard (tx : TxAdapter) (p : PendingObject) (reason : String) :
    (s.step (.discard tx p reason)).Sound :=
  h.transact_adding (h.own.discard tx p reason) fun _ ho => by
    cases ho <;> exact ⟨fun _ => rfl, fun _ => rfl⟩

theorem Sound.abort {staleBefore : Time} (hm : s.MarkHonest (.abort tx staleBefore)) :
    (s.step (.abort tx staleBefore)).Sound := by
  refine h.transact (h.own.deleteUpload _ _ _ _) fun ⟨c, hc, hr⟩ => ?_
  rw [h.refused_abort hm hc hr]
  exact ⟨fun u hu => hu, fun p hp => hp⟩

theorem Sound.step {e : CompletionEvent} (ha : s.Assumed e) (hm : s.MarkHonest e) :
    (s.step e).Sound := by
  cases e with
  | begin staleBefore now => exact h.begin ha hm
  | list i partNumbers => exact h.move (narrows_collected partNumbers) i
  | read i => exact h.move narrows_advanced i
  | renew i now => exact h.renew ha
  | fail i => exact h.move narrows_cancelled i
  | commit i => exact h.move narrows_committed i
  | cleanup i tx now => exact h.cleanup i tx now
  | finish i cleared => exact h.finish i cleared
  | crash i => exact h.move narrows_gone i
  | claim tx p accepts => exact h.claim ha
  | recordPart tx p => exact h.recordPart ha hm
  | discard tx p reason => exact h.discard tx p reason
  | abort tx staleBefore => exact h.abort hm

end

end Steps

/-! ## What a completion reads stays -/

section Reads

variable {s : CompletionSystem} {e : CompletionEvent}
  {p : MultipartPart} {c : CompletionPhase} {i : Nat}

theorem reads_of_mem_toRead (h : p ∈ s.toRead c) : c.reads = true := by
  cases c <;> first | rfl | exact by cases h

theorem Sound.mem_parts (h : s.Sound) (hc : c ∈ s.completions) (hp : p ∈ s.toRead c) :
    p ∈ s.ledger.multipartParts.rows ∧ p.uploadID = s.uploadID := by
  cases c with
  | listing => exact (mem_filter.mp hp).imp_right of_decide_eq_true
  | reading parts => exact h.todo _ hc p hp
  | stopped b | gone => cases hp

section

variable (hp : p ∈ s.ledger.multipartParts.rows)
include hp

theorem untouched_of_same (h : (s.step e).ledger.multipartParts = s.ledger.multipartParts ∧
      (s.step e).ledger.cleanupQueue = s.ledger.cleanupQueue) : s.Untouched e p := by
  refine ⟨by rw [h.1]; exact hp, fun c hc _ => ?_⟩
  rwa [h.2] at hc

theorem untouched_begin {staleBefore : Time} : s.Untouched (.begin staleBefore now) p := by
  refine untouched_of_same hp ?_
  dsimp only [step, beginMultipartCompletion]
  split
  next heq => exact (Prod.mk.inj heq).2 ▸ ⟨rfl, rfl⟩
  next => exact ⟨rfl, rfl⟩

theorem untouched_renew : s.Untouched (.renew i now) p := by
  refine untouched_of_same hp ?_
  dsimp only [step, renewMultipartCompletion]
  split_ifs
  · split
    next heq => exact (Prod.mk.inj heq).2 ▸ ⟨rfl, rfl⟩
    next => exact ⟨rfl, rfl⟩
  · exact ⟨rfl, rfl⟩

theorem untouched_finish {cleared : Bool} : s.Untouched (.finish i cleared) p := by
  refine untouched_of_same hp ?_
  dsimp only [step]
  split_ifs <;> exact ⟨rfl, rfl⟩

theorem untouched_claim {tx : TxAdapter} {q : PendingObject} :
    s.Untouched (.claim tx q accepts) p := by
  obtain ⟨e, ho, happ⟩ := apply_outcome tx s.ledger (.claim q accepts)
  have hkeep : e.partsRemoved p = false ∧ e.queued = [] := by cases ho <;> exact ⟨rfl, rfl⟩
  refine ⟨happ.mem_parts.mpr (.inl ⟨hp, hkeep.1⟩), fun c hc _ => ?_⟩
  refine (happ.mem_queue.mp hc).resolve_right fun hq => ?_
  rw [hkeep.2] at hq
  cases hq

end

theorem Sound.untouched_discard (h : s.Sound) {tx : TxAdapter} {q : PendingObject} {reason : String}
    (ha : s.Assumed (.discard tx q reason)) (hp : p ∈ s.ledger.multipartParts.rows)
    (hid : p.uploadID = s.uploadID) :
    s.Untouched (.discard tx q reason) p := by
  obtain ⟨e, ho, happ⟩ := apply_outcome tx s.ledger (.discardPending q reason)
  cases ho with
  | nothing =>
    refine ⟨happ.mem_parts.mpr (.inl ⟨hp, rfl⟩), fun c hc _ => ?_⟩
    exact (happ.mem_queue.mp hc).resolve_right not_mem_nil
  | discarded hheld =>
    refine ⟨happ.mem_parts.mpr (.inl ⟨hp, rfl⟩), fun c hc hpath => ?_⟩
    refine (happ.mem_queue.mp hc).resolve_right fun hq => ?_
    obtain rfl := mem_singleton.mp hq
    obtain ⟨hintent, hnonempty, hclaimed⟩ := ha
    obtain ⟨own, hown, hoid⟩ : ∃ own ∈ s.ledger.pendingObjects.rows, own.intentID = q.intentID := by
      simpa [Ledger.holdsAll, Ledger.holds, hintent] using hheld
    refine h.own.2 own hown p hp hid ?_
    rw [hclaimed own hown hoid, ← hpath]
    simp [PendingObject.removal, RemovedCopy.request, intentBytes, hnonempty]

theorem Sound.untouched (h : s.Sound) (ha : s.Assumed e) (hm : s.MarkHonest e)
    (hc : s.completions[i]? = some c) (hother : e.actor ≠ some i) (hp : p ∈ s.toRead c) :
    s.Untouched e p := by
  have hmem := mem_of_getElem? hc
  have hr := reads_of_mem_toRead hp
  obtain ⟨hrow, hid⟩ := h.mem_parts hmem hp
  cases e with
  | begin staleBefore now => exact untouched_begin hrow
  | list j partNumbers | read j | fail j | commit j | crash j =>
    exact untouched_of_same hrow ⟨rfl, rfl⟩
  | renew j now => exact untouched_renew hrow
  | cleanup j tx now =>
    by_cases hj : s.completions[j]? = some (.stopped true)
    · exact absurd ⟨c, hmem, hr⟩ (h.none_reads hj rfl rfl)
    · exact untouched_of_same hrow (by rw [CompletionSystem.step, if_neg hj]; exact ⟨rfl, rfl⟩)
  | finish j cleared => exact untouched_finish hrow
  | claim tx q accepts => exact untouched_claim hrow
  | recordPart tx q =>
    have hsame := h.refused_recordPart ha hm hmem hr
    exact untouched_of_same hrow ⟨congrArg _ hsame, congrArg _ hsame⟩
  | discard tx q reason => exact h.untouched_discard ha hrow hid
  | abort tx staleBefore =>
    have hsame := h.refused_abort hm hmem hr
    exact untouched_of_same hrow ⟨congrArg _ hsame, congrArg _ hsame⟩

theorem Sound.marks_kept (h : s.Sound) {i j : Nat} (hactor : e.actor = some i) (hne : j ≠ i)
    (hc : s.completions[j]? = some c) (hrun : c.running = true) : (s.step e).marks = s.marks := by
  have hidle : ∀ c', s.completions[i]? = some c' → c'.running = false := by
    intro c' hc'
    by_contra hr
    exact hne (h.one j i c c' hc hc' hrun (by simpa using hr))
  cases e with
  | renew k now =>
    cases hactor
    rw [CompletionSystem.step, if_neg]
    intro hany
    obtain ⟨c', hc', hr⟩ := exists_of_any hany
    rw [hidle c' hc'] at hr
    cases hr
  | cleanup k tx now =>
    cases hactor
    rw [CompletionSystem.step, if_neg]
    intro hst
    exact absurd (hidle _ hst) (by decide)
  | finish k cleared =>
    cases hactor
    rw [CompletionSystem.step, if_neg]
    intro hany
    obtain ⟨c', hc', hst⟩ := exists_of_any hany
    have hover := hidle c' hc'
    rw [(running_of_hasStopped hst).1] at hover
    cases hover
  | list k partNumbers | read k | fail k | commit k | crash k => rfl
  | begin staleBefore now | claim tx q accepts | recordPart tx q | discard tx q reason
  | abort tx staleBefore => cases hactor

end Reads

end CompletionSystem

/-! ## Runs -/

/-- **The mark protects what a completion reads** in every run in which a mark found too old is that
of a completion that is over: nobody else takes, replaces or queues a part it is still to read, and
no other completion renews or clears its mark. -/
theorem completion_undisturbed (s : CompletionSystem) (run : List CompletionEvent)
    (hstart : s.completions = []) (hown : s.OwnPaths)
    (hassumed : Along CompletionSystem.step CompletionSystem.Assumed s run)
    (hhonest : Along CompletionSystem.step CompletionSystem.MarkHonest s run) :
    Along CompletionSystem.step CompletionSystem.Guarded s run := by
  have hsound : s.Sound := by
    refine ⟨?_, ?_, ?_, ?_, hown⟩ <;> simp [hstart]
  refine (along_and hassumed hhonest).of_invariant hsound (fun s e h he => h.step he.1 he.2) ?_
  intro s e h he
  exact ⟨fun i c hc hother p hp => h.untouched he.1 he.2 hc hother hp,
    fun i j c hactor hne hc hrun => h.marks_kept hactor hne hc hrun⟩

instance CompletionSystem.decidableAssumed (s : CompletionSystem) (e : CompletionEvent) :
    Decidable (s.Assumed e) := by
  cases e <;> dsimp only [CompletionSystem.Assumed, CompletionSystem.AsClaimed] <;> infer_instance

instance CompletionSystem.decidableMarkHonest (s : CompletionSystem) (e : CompletionEvent) :
    Decidable (s.MarkHonest e) := by
  cases e <;> dsimp only [CompletionSystem.MarkHonest] <;> infer_instance

def firstPart : MultipartPart where
  uploadID := "u"
  partNumber := 1
  sizeBytes := 1
  storageKey := "p1"

def secondIntent : PendingObject where
  intentID := "i"
  objectKey := "__multipart/u/1"
  storageKey := "p2"
  backendName := "b"
  sizeBytes := 1

def uploadedTwice : CompletionSystem where
  uploadID := "u"
  ledger := { Ledger.provisioned duoQuota with
    multipartUploads := ⟨[⟨"u", "b", 1⟩], by decide⟩
    multipartParts := ⟨[firstPart], by decide⟩
    pendingObjects := ⟨[secondIntent], by decide⟩ }

def recordAgain (now staleBefore : Time) : CompletionEvent :=
  .recordPart { now := now }
    { uploadID := "u", partNumber := 1, sizeBytes := 1, intent := secondIntent,
      completionStaleBefore := staleBefore }

def diedAndRetried : List CompletionEvent :=
  [.begin 40 100, .crash 0, .begin 140 200, .list 1 [1], recordAgain 201 141, .renew 1 215,
    .read 1, .commit 1, .cleanup 1 { now := 216 } 216, .finish 1 true]

/-- What the second completion reads stays. -/
theorem diedAndRetried_undisturbed :
    Along CompletionSystem.step CompletionSystem.Guarded uploadedTwice diedAndRetried :=
  completion_undisturbed uploadedTwice diedAndRetried rfl ⟨by decide, by decide⟩
    (by decide +kernel) (by decide +kernel)

/-- The first completion stalls past the grace, and the second takes the mark over. Then the first
renews the mark, fails and clears it. -/
def stalledThenCleared : List CompletionEvent :=
  [.begin 40 100, .begin 140 200, .list 1 [1], .renew 0 201, .fail 0, .finish 0 true]

/-- **The first completion clears the mark of the second. A part the second is still to read is
replaced and its bytes queued, and the second commits.** -/
theorem stalledThenCleared_replaces_part :
    let cleared := after CompletionSystem.step uploadedTwice stalledThenCleared
    let replaced := cleared.step (recordAgain 202 142)
    Along CompletionSystem.step CompletionSystem.Assumed uploadedTwice
        (stalledThenCleared ++ [recordAgain 202 142, .read 1, .commit 1]) ∧
      (after CompletionSystem.step uploadedTwice (stalledThenCleared.take 3)).marks = [200] ∧
      (after CompletionSystem.step uploadedTwice (stalledThenCleared.take 4)).marks = [201] ∧
      cleared.marks = [0] ∧ cleared.completions = [.gone, .reading [firstPart]] ∧
      firstPart ∉ replaced.ledger.multipartParts.rows ∧
      replaced.ledger.cleanupQueue.map (fun c => c.request.storageKey) = ["p1"] ∧
      (after CompletionSystem.step replaced [.read 1, .commit 1]).completions =
        [.gone, .stopped true] := by
  decide +kernel

end S3Orchestrator
