import S3Orchestrator.Fleet.Reported

/-!
# Abandoned writes and the latest one

A write whose process died leaves a primary intent and its upload, and the reaper promotes it. A
promotion compares the intent's creation time with the times stamped on the key's rows. The row it
records carries the time of the promotion, not the time of the intent, and the row a companion
records carries the time of its own commit: an abandoned write between the two loses against an
older one.

* **`latest_write_recorded`**.
-/

namespace S3Orchestrator

open RowStore List

def Issued.leftBehind (abandoned : WriteID → Bool) (i : Issued) : Prop :=
  i.row.isCompanion = false ∧ ∃ w ∈ i.write, abandoned w = true
  deriving Decidable

namespace Fleet

section Definitions

variable (abandoned : WriteID → Bool)

/-- The writes of the key and their times: when an abandoned one claimed, and when another one
committed. -/
def contenders (f : Fleet) (key : String) : List (WriteID × Time) :=
  (f.issued.filter fun i => decide (i.leftBehind abandoned ∧ i.row.objectKey = key)).filterMap
    (fun i => i.write.map fun w => (w, i.row.createdAt)) ++
  (f.log.filter fun c => decide (c.key = key)).filterMap fun c => c.write.map fun w => (w, c.time)

/-- An intent of an abandoned write that the reaper has not resolved. -/
def Unresolved (f : Fleet) (key : String) (i : Issued) : Prop :=
  i ∈ f.issued ∧ i.leftBehind abandoned ∧ i.row.objectKey = key ∧
    i.row ∈ f.ledger.pendingObjects.rows
  deriving Decidable

/-- Once no abandoned intent of the key is left, the key is recorded as the write with the greatest
time. -/
def LatestRecorded (f : Fleet) (key : String) : Prop :=
  (∀ i ∈ f.issued, ¬ f.Unresolved abandoned key i) → f.contenders abandoned key ≠ [] →
    ∃ c ∈ f.contenders abandoned key, f.Visible key c.1 ∧
      ∀ d ∈ f.contenders abandoned key, d.2 ≤ c.2
  deriving Decidable

/-- Abandoned writes make no call after their claims and have the bytes of their primary intents, so
the reaper promotes these. -/
def Abandoning (f : Fleet) : Act → Prop
  | .claim _ _ _ | .settle _ => True
  | .recordObject w _ | .commitCompanion w _ => abandoned w = false
  | .discard p _ | .drop p => ∀ i ∈ f.issued, i.row.intentID = p.intentID → ¬ i.leftBehind abandoned
  | .promote p => p.isCompanion = true ∨ ∃ i ∈ f.issued, i.row = p ∧ i.leftBehind abandoned
  | .placeCopy _ | .deleteObjectsBatch _ | .deleteObjectLocation _ _ _ => False

/-- A promotion that commits finds no abandoned intent of the key created later. A companion that
joins finds the key its own write's and none abandoned. -/
def InOrder (f : Fleet) : Act → Prop
  | .promote p => f.ledger.holdsAll [p.intentID] → p.isCompanion = false →
      ¬ f.ledger.supersedes p → ∀ i ∈ f.issued, f.Unresolved abandoned p.objectKey i →
        i.row.createdAt ≤ p.createdAt
  | .commitCompanion w p => f.ledger.holdsAll [p.intentID] →
      f.Visible p.objectKey w ∧ ∀ i ∈ f.issued, ¬ f.Unresolved abandoned p.objectKey i
  | _ => True

instance (f : Fleet) : DecidablePred (f.Abandoning abandoned) := by
  rintro ⟨⟩ <;> dsimp only [Abandoning] <;> infer_instance

instance (f : Fleet) : DecidablePred (f.InOrder abandoned) := by
  rintro ⟨⟩ <;> dsimp only [InOrder] <;> infer_instance

/-- An abandoned write at least as new waits for the reaper. -/
def Awaited (f : Fleet) (key : String) (d : WriteID × Time) : Prop :=
  ∃ i, f.Unresolved abandoned key i ∧ d.2 ≤ i.row.createdAt

/-- The contender holds the key: some row carries a time as late as its own, an abandoned intent
that a row supersedes is not later than it, and it outweighs every contender that no abandoned
intent outweighs. -/
structure Leader (f : Fleet) (key : String) (c : WriteID × Time) : Prop where
  contends : c ∈ f.contenders abandoned key
  rows : f.RowsOf key c.1
  stamp : ∃ l ∈ f.ledger.objectLocations.rows, l.objectKey = key ∧ c.2 ≤ l.createdAt
  superseded : ∀ i, f.Unresolved abandoned key i → ∀ l ∈ f.ledger.objectLocations.rows,
    l.objectKey = key → i.row.createdAt < l.createdAt → i.row.createdAt ≤ c.2
  outweighs : ∀ d ∈ f.contenders abandoned key, d.2 ≤ c.2 ∨ f.Awaited abandoned key d

/-- The key has no copy, and each contender waits for a newer one. -/
structure Vacant (f : Fleet) (key : String) : Prop where
  rows : ∀ l ∈ f.ledger.objectLocations.rows, l.objectKey ≠ key
  awaited : ∀ d ∈ f.contenders abandoned key, f.Awaited abandoned key d

def Leads (f : Fleet) (key : String) : Prop :=
  f.Vacant abandoned key ∨ ∃ c, f.Leader abandoned key c

end Definitions

section Contenders

variable {abandoned : WriteID → Bool} {f : Fleet} {tx : TxAdapter} {minAge : Nat} {key : String}
  {d : WriteID × Time}

theorem mem_contenders : d ∈ f.contenders abandoned key ↔
    (∃ i ∈ f.issued, i.leftBehind abandoned ∧ i.row.objectKey = key ∧ i.write = some d.1 ∧
      i.row.createdAt = d.2) ∨
    ∃ c ∈ f.log, c.key = key ∧ c.write = some d.1 ∧ c.time = d.2 := by
  obtain ⟨w, t⟩ := d
  simp only [contenders, mem_append, mem_filterMap, mem_filter, decide_eq_true_eq,
    Option.map_eq_some_iff, Prod.mk.injEq]
  constructor
  · rintro (⟨i, ⟨hi, hleft, hkey⟩, v, hv, rfl, rfl⟩ | ⟨c, ⟨hc, hkey⟩, v, hv, rfl, rfl⟩)
    · exact .inl ⟨i, hi, hleft, hkey, hv, rfl⟩
    · exact .inr ⟨c, hc, hkey, hv, rfl⟩
  · rintro (⟨i, hi, hleft, hkey, hv, rfl⟩ | ⟨c, hc, hkey, hv, rfl⟩)
    · exact .inl ⟨i, ⟨hi, hleft, hkey⟩, w, hv, rfl, rfl⟩
    · exact .inr ⟨c, ⟨hc, hkey⟩, w, hv, rfl, rfl⟩

theorem contenders_mono {a : Act} (h : d ∈ f.contenders abandoned key) :
    d ∈ (f.step (tx, a)).contenders abandoned key := by
  rw [mem_contenders] at h ⊢
  rcases h with ⟨i, hi, h⟩ | ⟨c, hc, h⟩
  · exact .inl ⟨i, mem_append_right _ hi, h⟩
  · exact .inr ⟨c, mem_append_left _ hc, h⟩

theorem contenders_step {a : Act} (h : d ∈ (f.step (tx, a)).contenders abandoned key) :
    d ∈ f.contenders abandoned key ∨
      (∃ i ∈ f.issues tx a, i.leftBehind abandoned ∧ i.row.objectKey = key ∧
        i.row.createdAt = d.2) ∨
      ∃ c ∈ f.commits tx a, c.key = key ∧ c.write = some d.1 ∧ c.time = d.2 := by
  rw [mem_contenders] at h
  rcases h with ⟨i, hi, hleft, hkey, hw, ht⟩ | ⟨c, hc, hkey, hw, ht⟩
  · rcases mem_append.mp hi with hi | hi
    · exact .inr (.inl ⟨i, hi, hleft, hkey, ht⟩)
    · exact .inl (mem_contenders.mpr (.inl ⟨i, hi, hleft, hkey, hw, ht⟩))
  · rcases mem_append.mp hc with hc | hc
    · exact .inl (mem_contenders.mpr (.inr ⟨c, hc, hkey, hw, ht⟩))
    · exact .inr (.inr ⟨c, hc, hkey, hw, ht⟩)

theorem contenders_idle {a : Act} (hnew : f.issues tx a = []) (hcommit : f.commits tx a = [])
    (h : d ∈ (f.step (tx, a)).contenders abandoned key) : d ∈ f.contenders abandoned key := by
  rcases contenders_step h with h | ⟨i, hi, _⟩ | ⟨c, hc, _⟩
  · exact h
  · rw [hnew] at hi
    cases hi
  · rw [hcommit] at hc
    cases hc

theorem Leads.congr {f' : Fleet} (hrows : ∀ l, l.objectKey = key →
      (l ∈ f'.ledger.objectLocations.rows ↔ l ∈ f.ledger.objectLocations.rows))
    (htag : ∀ l ∈ f.ledger.objectLocations.rows,
      f'.tagOf l.backendName l.storageKey = f.tagOf l.backendName l.storageKey)
    (hcont : ∀ d, d ∈ f'.contenders abandoned key ↔ d ∈ f.contenders abandoned key)
    (hunres : ∀ i, f'.Unresolved abandoned key i ↔ f.Unresolved abandoned key i)
    (h : f.Leads abandoned key) : f'.Leads abandoned key := by
  have hawait : ∀ d, f.Awaited abandoned key d → f'.Awaited abandoned key d :=
    fun d ⟨i, hi, hle⟩ => ⟨i, (hunres i).mpr hi, hle⟩
  rcases h with h | ⟨c, h⟩
  · refine .inl ⟨fun l hl hkey => h.rows l ((hrows l hkey).mp hl) hkey, fun d hd => ?_⟩
    exact hawait d (h.awaited d ((hcont d).mp hd))
  · refine .inr ⟨c, (hcont c).mpr h.contends, fun l hl hkey => ?_, ?_, fun i hi l hl hkey => ?_,
      fun d hd => ?_⟩
    · rw [htag l ((hrows l hkey).mp hl)]
      exact h.rows l ((hrows l hkey).mp hl) hkey
    · obtain ⟨l, hl, hkey, hle⟩ := h.stamp
      exact ⟨l, (hrows l hkey).mpr hl, hkey, hle⟩
    · exact h.superseded i ((hunres i).mp hi) l ((hrows l hkey).mp hl) hkey
    · exact (h.outweighs d ((hcont d).mp hd)).imp_right (hawait d)

end Contenders

/-! ## Times -/

/-- No time is ahead of the clock. -/
structure Timely (f : Fleet) : Prop where
  tagged : f.Tagged
  rows : ∀ l ∈ f.ledger.objectLocations.rows, l.createdAt ≤ f.clock
  issued : ∀ i ∈ f.issued, i.row.createdAt ≤ f.clock
  log : ∀ c ∈ f.log, c.time ≤ f.clock

section Times

variable {abandoned : WriteID → Bool} {f : Fleet} {tx : TxAdapter} {minAge : Nat} {key : String}
  {a : Act}

theorem issues_createdAt {i : Issued} (hi : i ∈ f.issues tx a) : i.row.createdAt = tx.now := by
  obtain ⟨_, w, p, accepts, rfl, rfl⟩ := issues_of_mem hi
  rfl

theorem commits_time {c : ClientCommit} (hc : c ∈ f.commits tx a) : c.time = tx.now := by
  cases a with
  | recordObject w req =>
    have hcommits : f.commits tx (.recordObject w req) =
        if (Act.recordObject w req).succeeds tx f.ledger &&
          decide (f.ledger.holdsAll (intentIDs req.copies)) then
            [⟨req.key, some w, tx.now⟩] else [] := rfl
    rw [hcommits] at hc
    split_ifs at hc
    · rw [mem_singleton.mp hc]
    · cases hc
  | deleteObjectsBatch keys =>
    have hcommits : f.commits tx (.deleteObjectsBatch keys) =
        if (Act.deleteObjectsBatch keys).succeeds tx f.ledger then
          keys.map fun key => ⟨key, none, tx.now⟩ else [] := rfl
    rw [hcommits] at hc
    split_ifs at hc
    · obtain ⟨_, _, rfl⟩ := mem_map.mp hc
      rfl
    · cases hc
  | _ => cases hc

theorem recorded_createdAt {op : Op} {e : Effect} (hdoes : a.does = .inl op)
    (ho : Outcome tx f.ledger op e) {l : ObjectLocation} (hl : l ∈ e.recorded) :
    l.createdAt = tx.now ∨ ∃ src ∈ f.ledger.objectLocations.rows, l.createdAt = src.createdAt := by
  cases a with
  | recordObject w req =>
    cases hdoes
    cases ho with
    | recorded =>
      obtain ⟨c, _, rfl⟩ := mem_map.mp hl
      exact .inl rfl
    | nothing | overtaken => cases hl
  | placeCopy pl =>
    cases hdoes
    cases ho with
    | placed _ hsrc =>
      rename_i src _ _ _ _
      obtain rfl := mem_singleton.mp hl
      by_cases hzero : (pl.placedCopy src).createdAt = 0
      · exact .inl (if_pos hzero)
      · refine .inr ⟨src, hsrc, ?_⟩
        rw [← placedCopy_createdAt pl src]
        exact if_neg hzero
    | nothing | placementLost | placementRefused => cases hl
  | settle st => cases hdoes
  | _ =>
    cases hdoes
    cases ho <;> first
      | exact absurd hl not_mem_nil
      | exact .inl (by rw [mem_singleton.mp hl]; rfl)

theorem Timely.step (hf : f.Timely) (hl : f.Lawful minAge (tx, a)) : (f.step (tx, a)).Timely where
  tagged := hf.tagged.step hl
  rows l hrow := by
    have hclock : f.clock ≤ tx.now := hl.2.1
    have hold : ∀ l ∈ f.ledger.objectLocations.rows, l.createdAt ≤ tx.now :=
      fun l hl => (hf.rows l hl).trans hclock
    rcases f.step_cases tx a with ⟨st, rfl, hset⟩ | ⟨op, e, hdoes, ho, happ⟩
    · exact hold l (hset.locations ▸ hrow)
    · rcases happ.mem_locations.mp hrow with ⟨hrow, _⟩ | hrec
      · exact hold l hrow
      · rcases recorded_createdAt hdoes ho hrec with heq | ⟨src, hsrc, heq⟩
        · exact heq.le
        · exact heq.le.trans (hold src hsrc)
  issued i hi := by
    rcases mem_append.mp hi with hi | hi
    · exact (issues_createdAt hi).le
    · exact (hf.issued i hi).trans hl.2.1
  log c hc := by
    rcases mem_append.mp hc with hc | hc
    · exact (hf.log c hc).trans hl.2.1
    · exact (commits_time hc).le

theorem timely_start (quotas : Table BackendQuota sameBackend) : (start quotas).Timely where
  tagged := tagged_start quotas
  rows _ hl := by cases hl
  issued _ hi := by cases hi
  log _ hc := by cases hc

theorem Timely.contenders_le (hf : f.Timely) {d : WriteID × Time}
    (hd : d ∈ f.contenders abandoned key) : d.2 ≤ f.clock := by
  rcases mem_contenders.mp hd with ⟨i, hi, _, _, _, htime⟩ | ⟨c, hc, _, _, htime⟩ <;> rw [← htime]
  · exact hf.issued i hi
  · exact hf.log c hc

end Times

/-! ## Act by act -/

section Acts

variable {abandoned : WriteID → Bool} {f : Fleet} {tx : TxAdapter} {minAge : Nat} {key : String}
  {a : Act} {e : Effect} {w : WriteID} {p : PendingObject} {i : Issued}

theorem unresolved_step (ha : f.Promised minAge tx a) (hnew : f.issues tx a = [])
    (h : (f.step (tx, a)).Unresolved abandoned key i) :
    f.Unresolved abandoned key i := by
  obtain ⟨hi, hleft, hkey, hrow⟩ := h
  have hi : i ∈ f.issued := by
    change i ∈ f.issues tx a ++ f.issued at hi
    rwa [hnew, nil_append] at hi
  exact ⟨hi, hleft, hkey, pending_step ha hi hrow⟩

theorem Unresolved.kept (happ : Applies e f.ledger (f.step (tx, a)).ledger)
    (h : f.Unresolved abandoned key i) (hkeep : e.dropped i.row = false) :
    (f.step (tx, a)).Unresolved abandoned key i := by
  obtain ⟨hi, hleft, hkey, hrow⟩ := h
  exact ⟨mem_append_right _ hi, hleft, hkey, happ.mem_pending.mpr (.inl ⟨hrow, hkeep⟩)⟩

theorem Leads.quiet (hf : f.Tagged) (ha : f.Promised minAge tx a)
    (happ : Applies e f.ledger (f.step (tx, a)).ledger)
    (hrem : ∀ l ∈ f.ledger.objectLocations.rows, l.objectKey = key → e.removed l = false)
    (hrec : ∀ l ∈ e.recorded, l.objectKey ≠ key)
    (hkept : ∀ i, f.Unresolved abandoned key i → e.dropped i.row = false)
    (hnew : f.issues tx a = []) (hcommit : ∀ c ∈ f.commits tx a, c.key ≠ key)
    (h : f.Leads abandoned key) : (f.step (tx, a)).Leads abandoned key := by
  refine h.congr (fun l hkey => ?_) (fun l hl => hf.tagOf_row ha hl) (fun d => ?_) (fun i => ?_)
  · rw [happ.mem_locations]
    constructor
    · rintro (⟨hl, _⟩ | hl)
      · exact hl
      · exact absurd hkey (hrec l hl)
    · exact fun hl => .inl ⟨hl, hrem l hl hkey⟩
  · refine ⟨fun hd => ?_, contenders_mono⟩
    rcases contenders_step hd with hd | ⟨i, hi, _⟩ | ⟨c, hc, hkey, _⟩
    · exact hd
    · rw [hnew] at hi
      cases hi
    · exact absurd hkey (hcommit c hc)
  · exact ⟨unresolved_step ha hnew, fun hi => hi.kept happ (hkept i hi)⟩

theorem Leads.idle (hf : f.Tagged) (ha : f.Promised minAge tx a)
    (happ : Applies e f.ledger (f.step (tx, a)).ledger) (hrem : ∀ l, e.removed l = false)
    (hrec : e.recorded = []) (hkept : ∀ i, f.Unresolved abandoned key i → e.dropped i.row = false)
    (hnew : f.issues tx a = []) (hcommit : f.commits tx a = []) (h : f.Leads abandoned key) :
    (f.step (tx, a)).Leads abandoned key := by
  refine h.quiet hf ha happ (fun l _ _ => hrem l) (fun l hl => ?_) hkept hnew (fun c hc => ?_)
  · rw [hrec] at hl
    cases hl
  · rw [hcommit] at hc
    cases hc

theorem Leader.step (hf : f.Tagged) (ha : f.Promised minAge tx a)
    (happ : Applies e f.ledger (f.step (tx, a)).ledger) (hrem : ∀ l, e.removed l = false)
    {c : WriteID × Time} (h : f.Leader abandoned key c)
    (hrec : ∀ l ∈ e.recorded, l.objectKey = key →
      (f.step (tx, a)).tagOf l.backendName l.storageKey = some c.1)
    (hsup : ∀ i, (f.step (tx, a)).Unresolved abandoned key i →
      ∀ l ∈ (f.step (tx, a)).ledger.objectLocations.rows, l.objectKey = key →
        i.row.createdAt < l.createdAt → i.row.createdAt ≤ c.2)
    (hout : ∀ d ∈ (f.step (tx, a)).contenders abandoned key,
      d.2 ≤ c.2 ∨ (f.step (tx, a)).Awaited abandoned key d) :
    (f.step (tx, a)).Leader abandoned key c where
  contends := contenders_mono h.contends
  rows := h.rows.step hf ha happ hrec
  stamp := by
    obtain ⟨l, hl, hkey, hle⟩ := h.stamp
    exact ⟨l, happ.mem_locations.mpr (.inl ⟨hl, hrem l⟩), hkey, hle⟩
  superseded := hsup
  outweighs := hout

section

variable (hf : f.Timely)
include hf

theorem claim_leads {w : Option WriteID} {accepts : BackendFlags}
    (hl : f.Lawful minAge (tx, .claim w p accepts)) (ho : Outcome tx f.ledger (.claim p accepts) e)
    (happ : Applies e f.ledger (f.step (tx, .claim w p accepts)).ledger)
    (h : f.Leads abandoned key) : (f.step (tx, .claim w p accepts)).Leads abandoned key := by
  have ha : f.Promised minAge tx (.claim w p accepts) := hl.2.2
  have hclock : f.clock ≤ tx.now := hl.2.1
  have hs' := (hf.tagged.step hl).sound
  have hrem : ∀ l, e.removed l = false := by cases ho <;> exact fun _ => rfl
  have hdrop : ∀ q, e.dropped q = false := by cases ho <;> exact fun _ => rfl
  have hrec : e.recorded = [] := by cases ho <;> rfl
  have hrows : ∀ l ∈ (f.step (tx, .claim w p accepts)).ledger.objectLocations.rows,
      l ∈ f.ledger.objectLocations.rows := fun l hl => by
    rw [happ.mem_locations, hrec] at hl
    simpa [hrem l] using hl
  have hawait : ∀ d, f.Awaited abandoned key d →
      (f.step (tx, .claim w p accepts)).Awaited abandoned key d :=
    fun d ⟨i, hi, hle⟩ => ⟨i, hi.kept happ (hdrop i.row), hle⟩
  -- A contender that is new is the intent just claimed, which waits for itself.
  have hcont : ∀ d ∈ (f.step (tx, .claim w p accepts)).contenders abandoned key,
      d ∈ f.contenders abandoned key ∨
        (f.step (tx, .claim w p accepts)).Awaited abandoned key d := by
    intro d hd
    rcases contenders_step hd with hd | ⟨i, hi, hleft, hkey, ht⟩ | ⟨c, hc, _⟩
    · exact .inl hd
    · exact .inr ⟨i, ⟨mem_append_left _ hi, hleft, hkey, hs'.issues_pending hi⟩, ht.ge⟩
    · cases hc
  rcases h with h | ⟨c, h⟩
  · refine .inl ⟨fun l hl => h.rows l (hrows l hl), fun d hd => ?_⟩
    exact (hcont d hd).elim (fun hd => hawait d (h.awaited d hd)) id
  · refine .inr ⟨c, h.step hf.tagged ha happ hrem (fun l hl => ?_) (fun i hi l hl hkey hlt => ?_)
      fun d hd => ?_⟩
    · rw [hrec] at hl
      cases hl
    · rcases mem_append.mp hi.1 with hnew | hold
      · have hle : l.createdAt ≤ tx.now := (hf.rows l (hrows l hl)).trans hclock
        rw [issues_createdAt hnew] at hlt
        exact absurd hle (Nat.not_le.mpr hlt)
      · exact h.superseded i ⟨hold, hi.2.1, hi.2.2.1, pending_step ha hold hi.2.2.2⟩ l
          (hrows l hl) hkey hlt
    · rcases hcont d hd with hd | hd
      · exact (h.outweighs d hd).imp_right (hawait d)
      · exact .inr hd

theorem recording_leads {req : RecordObjectRequest} (hl : f.Lawful minAge (tx, .recordObject w req))
    (hlive : abandoned w = false) (hcopies : req.copies ≠ [])
    (hok : (Op.recordObject req).succeeds tx f.ledger = true)
    (hheld : f.ledger.holdsAll (intentIDs req.copies))
    (happ : Applies (.recording tx f.ledger req) f.ledger
      (f.step (tx, .recordObject w req)).ledger) :
    (f.step (tx, .recordObject w req)).Leader abandoned req.key (w, tx.now) := by
  have ha : f.Promised minAge tx (.recordObject w req) := hl.2.2
  have hcommits := commits_recorded w hok hheld
  refine ⟨?_, (recording_belongs hf.tagged ha happ).1, ?_, fun i hi => ?_, fun d hd => ?_⟩
  · refine mem_contenders.mpr (.inr ⟨⟨req.key, some w, tx.now⟩, ?_, rfl, rfl, rfl⟩)
    change _ ∈ f.log ++ f.commits tx (.recordObject w req)
    rw [hcommits]
    exact mem_append_right _ mem_cons_self
  · obtain ⟨c, hc⟩ := exists_mem_of_ne_nil _ hcopies
    refine ⟨tx.locationRow (req.location c), ?_, rfl, le_refl tx.now⟩
    exact happ.mem_locations.mpr (.inr (mem_map_of_mem hc))
  · -- The intents of the key that are left are the write's own.
    obtain ⟨hi, ⟨_, v, hv, hv'⟩, hkey, hrow⟩ := hi
    have hiw := hf.tagged.sound.write_of_left ha happ hi hkey hrow
    rw [Option.some.inj (hv.symm.trans hiw), hlive] at hv'
    cases hv'
  · exact .inl ((hf.step hl).contenders_le hd)

theorem joining_leads (hl : f.Lawful minAge (tx, .commitCompanion w p))
    (hvis : f.Visible p.objectKey w)
    (hnone : ∀ i ∈ f.issued, ¬ f.Unresolved abandoned p.objectKey i)
    (happ : Applies (.joining tx p) f.ledger (f.step (tx, .commitCompanion w p)).ledger)
    (h : f.Leads abandoned p.objectKey) :
    (f.step (tx, .commitCompanion w p)).Leads abandoned p.objectKey := by
  have ha : f.Promised minAge tx (.commitCompanion w p) := hl.2.2
  obtain ⟨_, _, i, hi, hiw, hdesc⟩ := id ha
  obtain ⟨⟨l0, hl0, hkey0⟩, hrows⟩ := hvis
  have hnone' : ∀ j, ¬ (f.step (tx, .commitCompanion w p)).Unresolved abandoned p.objectKey j :=
    fun j hj => hnone j (unresolved_step ha rfl hj).1 (unresolved_step ha rfl hj)
  rcases h with h | ⟨c, h⟩
  · exact absurd hkey0 (h.rows l0 hl0)
  · have hc : c.1 = w :=
      Option.some.inj ((h.rows l0 hl0 hkey0).symm.trans (hrows l0 hl0 hkey0))
    refine .inr ⟨c, h.step hf.tagged ha happ (fun _ => rfl) (fun l hl _ => ?_)
      (fun j hj => absurd hj (hnone' j)) fun d hd => .inl ?_⟩
    · obtain rfl := mem_singleton.mp hl
      exact hf.tagged.tagOf_at ha hi (hc ▸ hiw) (hdesc.location (hf.tagged.sound.named i hi).2 tx)
    · rcases h.outweighs d (contenders_idle rfl rfl hd) with hle | ⟨j, hj, _⟩
      · exact hle
      · exact absurd hj (hnone j hj.1)

theorem superseded_leads (hl : f.Lawful minAge (tx, .promote i.row))
    (hi : f.Unresolved abandoned key i) (hsup : f.ledger.supersedes i.row)
    (happ : Applies (.dropping i.row cleanupReasonSupersededIntent) f.ledger
      (f.step (tx, .promote i.row)).ledger) (h : f.Leads abandoned key) :
    (f.step (tx, .promote i.row)).Leads abandoned key := by
  have ha : f.Promised minAge tx (.promote i.row) := hl.2.2
  obtain ⟨l0, hl0, _, hlt⟩ := hsup
  obtain ⟨hl0, hkey0⟩ := copiesOf_key hl0
  have hkey0 : l0.objectKey = key := (mem_singleton.mp hkey0).trans hi.2.2.1
  rcases h with h | ⟨c, h⟩
  · exact absurd hkey0 (h.rows l0 hl0)
  · have hle : i.row.createdAt ≤ c.2 := h.superseded i hi l0 hl0 hkey0 hlt
    refine .inr ⟨c, h.step hf.tagged ha happ (fun _ => rfl) (fun l hl => by cases hl)
      (fun j hj l hl => ?_) fun d hd => ?_⟩
    · rcases happ.mem_locations.mp hl with ⟨hl, _⟩ | hl
      · exact h.superseded j (unresolved_step ha rfl hj) l hl
      · cases hl
    · rcases h.outweighs d (contenders_idle rfl rfl hd) with hd | ⟨j, hj, hdj⟩
      · exact .inl hd
      · by_cases hid : j.row.intentID = i.row.intentID
        · rw [hf.tagged.sound.ids j hj.1 i hi.1 hid] at hdj
          exact .inl (hdj.trans hle)
        · exact .inr ⟨j, hj.kept happ (decide_eq_false hid), hdj⟩

theorem promoting_leads (hl : f.Lawful minAge (tx, .promote i.row))
    (hi : f.Unresolved abandoned key i) (hw : i.write = some w) (hsup : ¬ f.ledger.supersedes i.row)
    (hlast : ∀ j ∈ f.issued, f.Unresolved abandoned i.row.objectKey j →
      j.row.createdAt ≤ i.row.createdAt)
    (happ : Applies (.promoting tx f.ledger i.row) f.ledger (f.step (tx, .promote i.row)).ledger)
    (h : f.Leads abandoned key) :
    (f.step (tx, .promote i.row)).Leader abandoned key (w, i.row.createdAt) := by
  have ha : f.Promised minAge tx (.promote i.row) := hl.2.2
  obtain ⟨him, hleft, hkey, _⟩ := id hi
  have hnow : i.row.createdAt ≤ tx.now := (Nat.le_add_right _ minAge).trans ha.1
  have hlast : ∀ j, f.Unresolved abandoned key j → j.row.createdAt ≤ i.row.createdAt :=
    fun j hj => hlast j hj.1 (hkey.symm ▸ hj)
  have hrow : ∀ l ∈ (f.step (tx, .promote i.row)).ledger.objectLocations.rows,
      l.objectKey = key → l = i.row.location tx := by
    intro l hl hlkey
    rcases happ.mem_locations.mp hl with ⟨_, hkeep⟩ | hl
    · exact absurd (mem_singleton.mpr (hlkey.trans hkey.symm)) (of_decide_eq_false hkeep)
    · exact mem_singleton.mp hl
  refine ⟨?_, fun l hl hlkey => ?_, ⟨i.row.location tx, ?_, hkey, hnow⟩, fun j hj _ _ _ _ => ?_,
    fun d hd => .inl ?_⟩
  · exact contenders_mono (mem_contenders.mpr (.inl ⟨i, him, hleft, hkey, hw, rfl⟩))
  · rw [hrow l hl hlkey]
    exact hf.tagged.tagOf_at ha him hw (i.describes_row.location (hf.tagged.sound.named i him).2 tx)
  · exact happ.mem_locations.mpr (.inr mem_cons_self)
  · exact hlast j (unresolved_step ha rfl hj)
  · have hd := contenders_idle rfl rfl hd
    -- The leader so far is no later, since none of its rows supersedes the intent.
    have hawait : f.Awaited abandoned key d → d.2 ≤ i.row.createdAt :=
      fun ⟨j, hj, hle⟩ => hle.trans (hlast j hj)
    rcases h with h | ⟨c, h⟩
    · exact hawait (h.awaited d hd)
    · rcases h.outweighs d hd with hle | hd
      · obtain ⟨l, hl, hlkey, hstamp⟩ := h.stamp
        refine hle.trans (hstamp.trans (Nat.le_of_not_lt fun hlt => hsup ⟨l, ?_, ?_, hlt⟩))
        · simpa [Ledger.copiesOf, hl] using hlkey.trans hkey.symm
        · exact Nat.ne_of_gt (Nat.lt_of_le_of_lt (Nat.zero_le _) hlt)
      · exact hawait hd

theorem recordObject_leads {req : RecordObjectRequest}
    (hl : f.Lawful minAge (tx, .recordObject w req)) (hlive : abandoned w = false)
    (h : f.Leads abandoned key) : (f.step (tx, .recordObject w req)).Leads abandoned key := by
  have ha : f.Promised minAge tx (.recordObject w req) := hl.2.2
  -- The call touches no abandoned intent of another write through the ids it names.
  have hown : ∀ i, f.Unresolved abandoned key i → i.row.intentID ∉ intentIDs req.copies := by
    rintro i ⟨hi, ⟨_, v, hv, hv'⟩, _⟩ hmem
    have hiw := hf.tagged.sound.write_of_named ha.2.1 hi hmem
    rw [Option.some.inj (hv.symm.trans hiw), hlive] at hv'
    cases hv'
  rcases recordObject_cases tx f.ledger req with ⟨hfail, hsame⟩ | ⟨hok, hcopies, hdone⟩
  · have hcommits : f.commits tx (.recordObject w req) = [] :=
      if_neg (by simp [Act.succeeds, Act.does, hfail])
    refine h.idle hf.tagged ha (e := {}) ?_ (fun _ => rfl) rfl (fun _ _ => rfl) rfl hcommits
    rw [show (f.step (tx, .recordObject w req)).ledger = f.ledger from hsame]
    exact Applies.none f.ledger
  · rcases hdone with ⟨hgone, happ⟩ | ⟨hheld, happ⟩
    · have hcommits : f.commits tx (.recordObject w req) = [] := if_neg (by simp [hgone])
      refine h.idle hf.tagged ha happ (fun _ => rfl) rfl (fun i hi => ?_) rfl hcommits
      exact decide_eq_false fun hmem => hown i hi hmem.2
    · by_cases hkey : key = req.key
      · subst hkey
        exact .inr ⟨_, recording_leads hf hl hlive hcopies hok hheld happ⟩
      · have hcommits := commits_recorded w hok hheld
        refine h.quiet hf.tagged ha happ (fun l _ hlkey => ?_) (fun l hl => ?_) (fun i hi => ?_)
          rfl (fun c hc => ?_)
        · simp [Effect.recording, hlkey, hkey]
        · obtain ⟨c, _, rfl⟩ := mem_map.mp hl
          exact Ne.symm hkey
        · simp [Effect.recording, TxAdapter.clears, hi.2.2.1, hkey]
        · rw [hcommits] at hc
          rw [mem_singleton.mp hc]
          exact Ne.symm hkey

theorem promote_leads (hl : f.Lawful minAge (tx, .promote p))
    (hab : f.Abandoning abandoned (.promote p)) (hord : f.InOrder abandoned (.promote p))
    (ho : Outcome tx f.ledger (.promotePending p) e)
    (happ : Applies e f.ledger (f.step (tx, .promote p)).ledger) (h : f.Leads abandoned key) :
    (f.step (tx, .promote p)).Leads abandoned key := by
  have ha : f.Promised minAge tx (.promote p) := hl.2.2
  obtain ⟨i, hi, rfl⟩ := ha.2
  -- Where the intent is no abandoned one of the key, its row is no matter.
  have hquiet : (∀ l ∈ f.ledger.objectLocations.rows, l.objectKey = key → e.removed l = false) →
      (∀ l ∈ e.recorded, l.objectKey ≠ key) →
      (∀ q, e.dropped q = true → q.intentID = i.row.intentID) →
      ¬ f.Unresolved abandoned key i → (f.step (tx, .promote i.row)).Leads abandoned key := by
    intro hrem hrec hdrop hnot
    refine h.quiet hf.tagged ha happ hrem hrec (fun j hj => ?_) rfl (fun c hc => by cases hc)
    by_contra hd
    have hid := hdrop j.row (by simpa using hd)
    rw [hf.tagged.sound.ids j hj.1 i hi hid] at hj
    exact hnot hj
  have hcompanion : i.row.isCompanion = true → ¬ f.Unresolved abandoned key i := by
    rintro hrole ⟨_, ⟨hprimary, _⟩, _⟩
    rw [hrole] at hprimary
    cases hprimary
  cases ho with
  | nothing => exact h.idle hf.tagged ha happ (fun _ => rfl) rfl (fun _ _ => rfl) rfl rfl
  | companionKept _ hrole | companionDiscarded _ hrole =>
    exact hquiet (fun _ _ _ => rfl) (fun _ hl => by cases hl)
      (fun _ => of_decide_eq_true) (hcompanion hrole)
  | superseded hheld hrole hsup =>
    by_cases hun : f.Unresolved abandoned key i
    · exact superseded_leads hf hl hun hsup happ h
    · exact hquiet (fun _ _ _ => rfl) (fun _ hl => by cases hl) (fun _ => of_decide_eq_true) hun
  | promoted hheld hrole hsup =>
    have hleft : i.leftBehind abandoned := by
      rcases hab with hcomp | ⟨j, hj, hrow, hleft⟩
      · rw [hrole] at hcomp
        cases hcomp
      · rwa [hf.tagged.sound.ids j hj i hi (by rw [hrow])] at hleft
    by_cases hkey : i.row.objectKey = key
    · obtain ⟨_, w, hw, _⟩ := id hleft
      have hun : f.Unresolved abandoned key i :=
        ⟨hi, hleft, hkey, hf.tagged.sound.held_row hi hheld⟩
      exact .inr ⟨_, promoting_leads hf hl hun hw hsup (hord hheld hrole hsup) happ h⟩
    · refine hquiet (fun l _ hlkey => ?_) (fun l hl => ?_) (fun _ => of_decide_eq_true)
        (fun hun => hkey hun.2.2.1)
      · simp [Effect.promoting, hlkey, Ne.symm hkey]
      · rw [mem_singleton.mp hl]
        exact hkey

theorem leads_step (hl : f.Lawful minAge (tx, a)) (hab : f.Abandoning abandoned a)
    (hord : f.InOrder abandoned a) (h : f.Leads abandoned key) :
    (f.step (tx, a)).Leads abandoned key := by
  have ha : f.Promised minAge tx a := hl.2.2
  rcases f.step_cases tx a with ⟨st, rfl, hset⟩ | ⟨op, e, hdoes, ho, happ⟩
  · refine h.congr (fun l _ => by rw [hset.locations]) (fun l hl => hf.tagged.tagOf_row ha hl)
      (fun d => ⟨contenders_idle rfl rfl, contenders_mono⟩) (fun i => ?_)
    unfold Unresolved
    rw [hset.pending]
    rfl
  cases a with
  | claim w p accepts =>
    cases hdoes
    exact claim_leads hf hl ho happ h
  | recordObject w req => exact recordObject_leads hf hl hab h
  | promote p =>
    cases hdoes
    exact promote_leads hf hl hab hord ho happ h
  | commitCompanion w p =>
    cases hdoes
    cases ho with
    | joined hheld =>
      obtain ⟨hvis, hno⟩ := hord hheld
      by_cases hkey : p.objectKey = key
      · subst hkey
        exact joining_leads hf hl hvis hno happ h
      · obtain ⟨_, _, i, hi, hiw, hdesc⟩ := ha
        refine h.quiet hf.tagged hl.2.2 happ (fun _ _ _ => rfl) (fun l hl => ?_)
          (fun j hj => decide_eq_false fun hid => ?_) rfl fun c hc => by cases hc
        · rw [mem_singleton.mp hl]
          exact hkey
        · rw [← hf.tagged.sound.ids i hi j hj.1 (hdesc.1.trans hid.symm)] at hj
          exact hkey (hdesc.2.1.symm.trans hj.2.2.1)
    | _ => exact h.idle hf.tagged ha happ (fun _ => rfl) rfl (fun _ _ => rfl) rfl rfl
  | discard | drop =>
    cases hdoes
    cases ho with
    | nothing => exact h.idle hf.tagged ha happ (fun _ => rfl) rfl (fun _ _ => rfl) rfl rfl
    | _ =>
      exact h.idle hf.tagged ha happ (fun _ => rfl) rfl
        (fun j hj => decide_eq_false fun hid => hab j hj.1 hid hj.2.1) rfl rfl
  | settle => cases hdoes
  | placeCopy | deleteObjectsBatch | deleteObjectLocation => exact hab.elim

end

theorem Leads.latest (h : f.Leads abandoned key) : f.LatestRecorded abandoned key := by
  intro hnone hne
  have hawait : ∀ d, ¬ f.Awaited abandoned key d := fun d ⟨i, hi, _⟩ => hnone i hi.1 hi
  rcases h with h | ⟨c, h⟩
  · obtain ⟨d, hd⟩ := exists_mem_of_ne_nil _ hne
    exact absurd (h.awaited d hd) (hawait d)
  · obtain ⟨l, hl, hkey, _⟩ := h.stamp
    refine ⟨c, h.contends, ⟨⟨l, hl, hkey⟩, h.rows⟩, fun d hd => ?_⟩
    exact (h.outweighs d hd).resolve_right (hawait d)

/-- What every step keeps. -/
structure Led (abandoned : WriteID → Bool) (f : Fleet) : Prop where
  timely : f.Timely
  leads : ∀ key, f.Leads abandoned key

theorem led_start (quotas : Table BackendQuota sameBackend) : (start quotas).Led abandoned where
  timely := timely_start quotas
  leads _ := .inl ⟨fun _ hl => absurd hl List.not_mem_nil, fun _ hd => absurd hd List.not_mem_nil⟩

end Acts

end Fleet

/-- **In every run in order, once no abandoned intent of a key is left, the object is that of the
write with the greatest time.** -/
theorem latest_write_recorded (minAge : Nat) (abandoned : WriteID → Bool)
    (quotas : Table BackendQuota sameBackend) (run : List (TxAdapter × Act))
    (hrun : Along Fleet.step (fun f ev => f.Lawful minAge ev ∧ f.Abandoning abandoned ev.2 ∧
      f.InOrder abandoned ev.2) (Fleet.start quotas) run) (key : String) :
    (after Fleet.step (Fleet.start quotas) run).LatestRecorded abandoned key := by
  have hled : (after Fleet.step (Fleet.start quotas) run).Led abandoned := by
    refine hrun.invariant (Fleet.led_start quotas) ?_
    exact fun f _ hf h => ⟨hf.timely.step h.1,
      fun key => Fleet.leads_step hf.timely h.1 h.2.1 h.2.2 (hf.leads key)⟩
  exact (hled.leads key).latest

def oldestFirst : List (TxAdapter × Act) :=
  [(tick 1, .claim (some 0) (keyIntent "i" "b" .primary) 0),
   (tick 2, .claim (some 1) (keyIntent "j" "b" .primary) 0),
   (tick 10, .promote (keyRow 1 "i" "b" .primary)),
   (tick 11, .promote (keyRow 2 "j" "b" .primary))]

/-- An abandoned write of a key between the commit of another one and that one's companion. -/
def lateCompanion : List (TxAdapter × Act) :=
  [(tick 1, .claim (some 0) (keyIntent "i" "b" .primary) 0),
   (tick 1, .claim (some 0) (keyIntent "i2" "c" .companion) 0),
   (tick 2, .recordObject 0 (keyCommit "i" "b" [⟨"c", "i2", "k!i2"⟩])),
   (tick 3, .claim (some 1) (keyIntent "j" "b" .primary) 0),
   (tick 4, .commitCompanion 0 (keyIntent "i2" "c" .companion)),
   (tick 10, .promote (keyRow 3 "j" "b" .primary))]

/-- The older write stays recorded in both runs, and the newer abandoned one is dropped. -/
theorem older_write_stays :
    (Along Fleet.step (fun f ev => f.Lawful 5 ev ∧ f.Abandoning (fun _ => true) ev.2)
        (Fleet.start soloQuota) oldestFirst ∧
      (after Fleet.step (Fleet.start soloQuota) oldestFirst).ledger.pendingObjects.rows = [] ∧
      (after Fleet.step (Fleet.start soloQuota) oldestFirst).contenders (fun _ => true) "k" =
        [(1, 2), (0, 1)] ∧
      (after Fleet.step (Fleet.start soloQuota) oldestFirst).Visible "k" 0 ∧
      ¬ (after Fleet.step (Fleet.start soloQuota) oldestFirst).LatestRecorded (fun _ => true) "k") ∧
    Along Fleet.step (fun f ev => f.Lawful 5 ev ∧ f.Abandoning (· == 1) ev.2)
        (Fleet.start duoQuota) lateCompanion ∧
      (after Fleet.step (Fleet.start duoQuota) lateCompanion).ledger.pendingObjects.rows = [] ∧
      (after Fleet.step (Fleet.start duoQuota) lateCompanion).contenders (· == 1) "k" =
        [(1, 3), (0, 2)] ∧
      (after Fleet.step (Fleet.start duoQuota) lateCompanion).Visible "k" 0 ∧
      ¬ (after Fleet.step (Fleet.start duoQuota) lateCompanion).LatestRecorded (· == 1) "k" := by
  decide

def newestFirst : List (TxAdapter × Act) :=
  [(tick 1, .claim (some 2) (keyIntent "m" "b" .primary) 0),
   (tick 2, .recordObject 2 (keyCommit "m" "b" [])),
   (tick 3, .claim (some 0) (keyIntent "i" "b" .primary) 0),
   (tick 4, .claim (some 1) (keyIntent "j" "b" .primary) 0),
   (tick 10, .promote (keyRow 4 "j" "b" .primary)),
   (tick 11, .promote (keyRow 3 "i" "b" .primary))]

theorem newestFirst_latest :
    (after Fleet.step (Fleet.start soloQuota) newestFirst).contenders (· != 2) "k" =
        [(1, 4), (0, 3), (2, 2)] ∧
      (after Fleet.step (Fleet.start soloQuota) newestFirst).LatestRecorded (· != 2) "k" :=
  ⟨by decide, latest_write_recorded 5 (· != 2) soloQuota newestFirst (by decide) "k"⟩

end S3Orchestrator
