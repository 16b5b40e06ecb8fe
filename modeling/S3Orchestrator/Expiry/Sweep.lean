import S3Orchestrator.Expiry.Listing
import S3Orchestrator.Ledger.Stripes

/-!
# Lifecycle expiry

A sweep lists a page of expired objects in one query and deletes them in later transactions, a group
of keys each. Other parties write, copy, tag and delete objects in between.

* **`expired_removed_only`**.
-/

namespace S3Orchestrator

open RowStore List

/-! ## The system -/

/-- The copy a transaction other than a write adds: its key, backend and path. -/
def Op.adds : Op → Option (String × String × String)
  | .commitCompanionCopy p =>
    some (p.objectKey, p.backendName, storagePath p.objectKey p.storageKey)
  | .importObject req => some (req.key, req.backend, req.key)
  | .placeCopy p => some (p.source.objectKey, p.intent.backendName, p.intent.storageKey)
  | _ => none

/-- A sweep and the ledger. `listed` are the rows of the page whose keys are not yet deleted. -/
structure ExpirySystem where
  ledger : Ledger
  rule : LifecycleRule
  cutoff : Time := 0
  after : String := ""
  listed : List ObjectLocation := []

/-- The most keys that one transaction deletes. -/
def deleteGroupSize : Nat := 100

/-- The length of a day of a rule's period. -/
def secondsPerDay : Nat := 86400

/-- The sweep goes to a rule, lists a page or deletes a group, or another party runs a transaction
or replaces tags. -/
inductive ExpiryEvent
  | applyRule (rule : LifecycleRule) (now : Time)
  | list (batchSize : Nat)
  | deleteGroup (tx : TxAdapter)
  | transact (tx : TxAdapter) (op : Op)
  | tag (tx : TxAdapter) (key : String) (tags : List Tag)

namespace ExpirySystem

/-- The next page of the rule's listing. -/
def page (s : ExpirySystem) (batchSize : Nat) : List ObjectLocation :=
  listExpiredObjects s.ledger
    { keyPrefix := s.rule.keyPrefix, tags := s.rule.tags, cutoff := s.cutoff, after := s.after,
      limit := batchSize }

/-- The keys the next delete names. -/
def group (s : ExpirySystem) : List String :=
  (s.listed.take deleteGroupSize).map ObjectLocation.objectKey

/-- A sweep takes the next page when every key of the last one was tried. -/
def step (s : ExpirySystem) : ExpiryEvent → ExpirySystem
  | .applyRule rule now =>
    if s.listed = [] then
      { s with rule := rule, cutoff := now - rule.expirationDays * secondsPerDay, after := "" }
    else s
  | .list batchSize =>
    if s.listed = [] then
      { s with
        listed := s.page batchSize
        after := ((s.page batchSize).getLast?.map ObjectLocation.objectKey).getD s.after }
    else s
  | .deleteGroup tx =>
    -- A group that fails is passed over.
    { s with
      ledger := (Op.deleteObjectsBatch s.group).apply tx s.ledger
      listed := s.listed.drop deleteGroupSize }
  | .transact tx op => { s with ledger := op.apply tx s.ledger }
  | .tag tx key tags => { s with ledger := (replaceObjectTags tx key tags).commit s.ledger }

/-! ## Versions -/

section

variable (writeOf : String → String → Nat)

/-- Two copies are of one version of the object where one write made the bytes at their paths. -/
def SameWrite (l r : ObjectLocation) : Prop :=
  writeOf l.backendName l.storageKey = writeOf r.backendName r.storageKey

/-- The row lies behind the cutoff, and the object matches the rule now. -/
def Expired (s : ExpirySystem) (r : ObjectLocation) : Prop :=
  r.createdAt < s.cutoff ∧ s.rule.keyPrefix.toList <+: r.objectKey.toList ∧
    ∀ t ∈ s.rule.tags, s.ledger.hasTag r.objectKey t = true

/-- Every row the sweep removes is of the version it listed, which is expired when the row goes. -/
def RemovesExpired (s : ExpirySystem) : ExpiryEvent → Prop
  | .deleteGroup tx => ∀ l ∈ s.ledger.objectLocations.rows,
      l ∉ (s.step (.deleteGroup tx)).ledger.objectLocations.rows →
        ∃ r ∈ s.listed, r.objectKey = l.objectKey ∧ SameWrite writeOf l r ∧ s.Expired r
  | _ => True

/-- A key has copies of one write when it is listed. Until it is deleted nobody writes it or changes
its tags, and a copy is added to those it has only of the write that was listed. -/
def Undisturbed (s : ExpirySystem) : ExpiryEvent → Prop
  | .list batchSize => ∀ r ∈ s.page batchSize, ∀ l ∈ s.ledger.copiesOf [r.objectKey],
      SameWrite writeOf l r
  | .transact _ op => ∀ r ∈ s.listed, op.writes ≠ some r.objectKey ∧
      ∀ a ∈ op.adds, a.1 = r.objectKey → s.ledger.copiesOf [r.objectKey] ≠ [] ∧
        writeOf a.2.1 a.2.2 = writeOf r.backendName r.storageKey
  | .tag _ key _ => ∀ r ∈ s.listed, r.objectKey ≠ key
  | _ => True

end

/-! ## The invariant -/

/-- What is recorded of a listed key is of the listed version, and the object matches the rule while
it is recorded. -/
structure Listed (writeOf : String → String → Nat) (s : ExpirySystem) (r : ObjectLocation) :
    Prop where
  one : ∀ l ∈ s.ledger.objectLocations.rows, l.objectKey = r.objectKey → SameWrite writeOf l r
  expired : s.ledger.copiesOf [r.objectKey] = [] ∨ s.Expired r

section Steps

variable {writeOf : String → String → Nat} {s : ExpirySystem} {tx : TxAdapter} {key : String}
  {op : Op} {r : ObjectLocation}

theorem mem_writes_or_adds {l : Ledger} {e : Effect} (h : Outcome tx l op e)
    (hr : r ∈ e.recorded) :
    op.writes = some r.objectKey ∨ op.adds = some (r.objectKey, r.backendName, r.storageKey) := by
  cases h with
  | recorded =>
    obtain ⟨c, -, rfl⟩ := mem_map.mp hr
    exact .inl rfl
  | promoted =>
    rw [mem_singleton.mp hr]
    exact .inl rfl
  | joined =>
    rw [mem_singleton.mp hr]
    exact .inr rfl
  | imported =>
    rw [mem_singleton.mp hr]
    simp [Op.adds, TxAdapter.locationRow, ImportObjectRequest.location, objectFromStoredForm,
      storagePath]
  | @placed p src _ _ hkey =>
    rw [mem_singleton.mp hr, Op.adds, ← hkey]
    refine .inr ?_
    unfold TxAdapter.locationRow Placement.placedCopy
    split_ifs <;> rfl
  | _ => cases hr

theorem Listed.transact (h : s.Listed writeOf r) (tx : TxAdapter) (listed : List ObjectLocation)
    (hw : op.writes ≠ some r.objectKey)
    (ha : ∀ a ∈ op.adds, a.1 = r.objectKey → s.ledger.copiesOf [r.objectKey] ≠ [] ∧
      writeOf a.2.1 a.2.2 = writeOf r.backendName r.storageKey) :
    Listed writeOf { s with ledger := op.apply tx s.ledger, listed := listed } r := by
  obtain ⟨e, ho, happ⟩ := apply_outcome tx s.ledger op
  have hadded : ∀ l ∈ e.recorded, l.objectKey = r.objectKey →
      s.ledger.copiesOf [r.objectKey] ≠ [] ∧ SameWrite writeOf l r := by
    intro l hl hkey
    refine ha _ ((mem_writes_or_adds ho hl).resolve_left ?_) hkey
    rw [hkey]
    exact hw
  refine ⟨fun l hl hkey => ?_, ?_⟩
  · rcases happ.mem_locations.mp hl with ⟨hold, -⟩ | hnew
    · exact h.one l hold hkey
    · exact (hadded l hnew hkey).2
  rcases h.expired with hnone | ⟨hold, hprefix, htags⟩
  · refine .inl (copiesOf_singleton_eq_nil.mpr fun l hl hkey => ?_)
    rcases happ.mem_locations.mp hl with ⟨hrow, -⟩ | hnew
    · exact copiesOf_singleton_eq_nil.mp hnone l hrow hkey
    · exact (hadded l hnew hkey).1 hnone
  · rcases Op.tags_kept tx s.ledger hw with hkept | hgone
    · exact .inr ⟨hold, hprefix, fun t ht => (Ledger.hasTag_congr hkept t).trans (htags t ht)⟩
    · exact .inl hgone

theorem Listed.tag (h : s.Listed writeOf r) (hkey : r.objectKey ≠ key) (tags : List Tag) :
    (s.step (.tag tx key tags)).Listed writeOf r := by
  have hrows : ((replaceObjectTags tx key tags).commit s.ledger).objectLocations =
      s.ledger.objectLocations :=
    Tx.Within.commit (R := fun s s' => s'.objectLocations = s.objectLocations) (fun _ => rfl)
      (locations_replaceObjectTags key tags) s.ledger
  refine ⟨fun l hl => h.one l (by rwa [← hrows]), ?_⟩
  refine h.expired.imp (fun hnone => ?_) fun ⟨hold, hprefix, htags⟩ => ?_
  · rw [copiesOf_singleton_eq_nil] at hnone ⊢
    dsimp only [step]
    rw [hrows]
    exact hnone
  · have hkept : TagsKept r.objectKey s.ledger ((replaceObjectTags tx key tags).commit s.ledger) :=
      (tags_replaceObjectTags hkey.symm tags).commit (tags_admits tx r.objectKey).refl s.ledger
    exact ⟨hold, hprefix, fun t ht => (Ledger.hasTag_congr hkept t).trans (htags t ht)⟩

theorem listed_page {batchSize : Nat} (hr : r ∈ s.page batchSize) {listed : List ObjectLocation}
    {after : String} (hone : ∀ l ∈ s.ledger.copiesOf [r.objectKey], SameWrite writeOf l r) :
    Listed writeOf { s with listed := listed, after := after } r := by
  obtain ⟨-, hprefix, hold, htags⟩ := mem_listExpiredObjects hr
  exact ⟨fun l hl hkey => hone l (mem_copiesOf_singleton.mpr ⟨hl, hkey⟩),
    .inr ⟨hold, hprefix, htags⟩⟩

theorem listed_step (h : ∀ r ∈ s.listed, s.Listed writeOf r) {e : ExpiryEvent}
    (hu : s.Undisturbed writeOf e) : ∀ r ∈ (s.step e).listed, (s.step e).Listed writeOf r := by
  cases e with
  | applyRule rule now =>
    dsimp only [step]
    split_ifs with hnil
    · simp [hnil]
    · exact h
  | list batchSize =>
    dsimp only [step]
    split_ifs
    · exact fun r hr => listed_page hr (hu r hr)
    · exact h
  | deleteGroup tx =>
    intro r hr
    exact (h r (mem_of_mem_drop hr)).transact tx _ (by simp [Op.writes]) (by simp [Op.adds])
  | transact tx op => exact fun r hr => (h r hr).transact tx _ (hu r hr).1 (hu r hr).2
  | tag tx key tags => exact fun r hr => (h r hr).tag (hu r hr) tags

theorem removesExpired_of_listed (h : ∀ r ∈ s.listed, s.Listed writeOf r) (e : ExpiryEvent) :
    s.RemovesExpired writeOf e := by
  cases e with
  | deleteGroup tx =>
    intro l hl hgone
    have hkey : l.objectKey ∈ s.group := by
      by_contra hnot
      obtain ⟨e, ho, happ⟩ := apply_outcome tx s.ledger (.deleteObjectsBatch s.group)
      refine hgone (happ.mem_locations.mpr (.inl ⟨hl, ?_⟩))
      cases ho with
      | nothing => rfl
      | deleted => exact decide_eq_false hnot
    obtain ⟨r, hr, hrl⟩ := mem_map.mp hkey
    have hlisted := mem_of_mem_take hr
    refine ⟨r, hlisted, hrl, (h r hlisted).one l hl hrl.symm, ?_⟩
    exact (h r hlisted).expired.resolve_left fun hnone =>
      copiesOf_singleton_eq_nil.mp hnone l hl hrl.symm
  | applyRule rule now | list batchSize | transact tx op | tag tx key tags => trivial

end Steps

end ExpirySystem

/-! ## Runs -/

instance ExpirySystem.decidableUndisturbed (writeOf : String → String → Nat) (s : ExpirySystem)
    (e : ExpiryEvent) : Decidable (s.Undisturbed writeOf e) := by
  cases e <;> dsimp only [ExpirySystem.Undisturbed, ExpirySystem.SameWrite] <;> infer_instance

def loggedCopy : ObjectLocation where
  objectKey := "logs/a"
  backendName := "b"
  storageKey := "p1"
  sizeBytes := 1
  createdAt := 1

def newWrite : PendingObject where
  intentID := "i"
  objectKey := "logs/a"
  storageKey := "p2"
  backendName := "c"
  sizeBytes := 1

def oldLog : ExpirySystem where
  ledger := { Ledger.provisioned duoQuota with
    objectLocations := ⟨[loggedCopy], by decide⟩
    objectTags := ⟨[⟨"logs/a", "keep", "no"⟩], by decide⟩
    pendingObjects := ⟨[newWrite], by decide⟩ }
  rule := ⟨"", [], 0⟩

def dailyLogs : LifecycleRule where
  keyPrefix := "logs/"
  tags := [⟨"keep", "no"⟩]
  expirationDays := 1

def listLogs : List ExpiryEvent := [.applyRule dailyLogs 200000, .list 10]

def overwriteLog : ExpiryEvent :=
  .transact { now := 200001 } (.recordObject ⟨"logs/a", 1, none, none, [], [newWrite.copy], []⟩)

/-- The bytes at each of the two paths are of a write of its own. -/
def writeAt (_ path : String) : Nat := if path = "p1" then 1 else 2

end S3Orchestrator
