import S3Orchestrator.Ledger.Surplus

/-!
# Under-replicated objects

The replicator asks the ledger which keys have too few copies and plans the missing ones. The query
counts the managed rows of a key on healthy backends and its intents. It returns all rows of the
keys it selects, and the plan counts those.

* **`plannedExactly_iff`**.
-/

namespace S3Orchestrator

open RowStore List

/-! ## The query -/

/-- The copy counts for replication. -/
def ObjectLocation.counts (excluded : List String) (l : ObjectLocation) : Bool :=
  decide (l.backendName ∉ excluded) && !l.unmanaged

namespace Ledger

def countedCopies (s : Ledger) (excluded : List String) (key : String) : Nat :=
  (s.copiesOf [key]).countP (ObjectLocation.counts excluded)

/-- The rows of the key that do not: unmanaged ones, and those on an excluded backend. -/
def uncountedCopies (s : Ledger) (excluded : List String) (key : String) : Nat :=
  (s.copiesOf [key]).countP fun l => !l.counts excluded

def intentCount (s : Ledger) (key : String) : Nat :=
  s.pendingObjects.rows.countP fun p => decide (p.objectKey = key)

/-- How many copies and intents a key has too few. -/
def missingCopies (s : Ledger) (factor : Int) (excluded : List String) (key : String) : Int :=
  factor - (s.countedCopies excluded key + s.intentCount key)

/-- The keys with a counted copy that are short of the factor. -/
def underReplicatedKeys (s : Ledger) (factor : Int) (excluded : List String) : List String :=
  ((s.objectLocations.rows.filter (ObjectLocation.counts excluded)).map
    ObjectLocation.objectKey).dedup.filter
      fun key => decide (0 < s.missingCopies factor excluded key)

end Ledger

/-- The keys a run of the query selects: any, up to the limit. A negative limit is none. -/
structure UnderReplicatedScan (s : Ledger) (factor limit : Int) (excluded : List String) where
  keys : List String
  nodup : keys.Nodup
  selected : keys ⊆ s.underReplicatedKeys factor excluded
  limited : keys.length = if limit < 0 then (s.underReplicatedKeys factor excluded).length
    else min limit.toNat (s.underReplicatedKeys factor excluded).length

def ObjectLocation.comesFirst (a b : ObjectLocation) : Prop :=
  a.objectKey < b.objectKey ∨ a.objectKey = b.objectKey ∧ a.createdAt ≤ b.createdAt

instance : DecidableRel ObjectLocation.comesFirst := fun a b => by
  unfold ObjectLocation.comesFirst
  infer_instance

/-- All copies of the scanned keys, by key and age. -/
def getUnderReplicatedObjects {s : Ledger} {factor limit : Int} {excluded : List String}
    (scan : UnderReplicatedScan s factor limit excluded) : List ObjectLocation :=
  (s.copiesOf scan.keys).insertionSort ObjectLocation.comesFirst

/-! ## The plan -/

structure CopySet where
  key : String
  copies : List ObjectLocation
  off : Int

/-- The keys whose number of listed copies is off. -/
def planCopySets (locations : List ObjectLocation) (offBy : Int → Int) : List CopySet :=
  (groupOn ObjectLocation.objectKey locations).filterMap fun g =>
    let off := offBy g.2.length
    if 0 < off then some ⟨g.1, g.2, off⟩ else none

def shortBy (factor copies : Int) : Int := factor - copies

namespace UnderReplicatedScan

variable {s : Ledger} {factor limit : Int} {excluded : List String}

/-- What the replicator sets out to do after a scan. -/
def plan (scan : UnderReplicatedScan s factor limit excluded) : List CopySet :=
  planCopySets (getUnderReplicatedObjects scan) (shortBy factor)

/-- Every selected key is planned once, for as many copies as it is short of, and no other key is
planned. -/
def PlannedExactly (scan : UnderReplicatedScan s factor limit excluded) : Prop :=
  (scan.plan.map CopySet.key).Nodup ∧ (∀ set ∈ scan.plan, set.key ∈ scan.keys) ∧
    ∀ key ∈ scan.keys, 0 < s.missingCopies factor excluded key ∧
      (∃ set ∈ scan.plan, set.key = key) ∧
      ∀ set ∈ scan.plan, set.key = key → set.off = s.missingCopies factor excluded key

end UnderReplicatedScan

/-! ## Counting rows -/

theorem countedCopies_add_uncountedCopies (s : Ledger) (excluded : List String) (key : String) :
    s.countedCopies excluded key + s.uncountedCopies excluded key = (s.copiesOf [key]).length := by
  rw [length_eq_countP_add_countP (ObjectLocation.counts excluded), Ledger.countedCopies,
    Ledger.uncountedCopies]
  simp

theorem mem_underReplicatedKeys {s : Ledger} {factor : Int} {excluded : List String}
    {key : String} (h : key ∈ s.underReplicatedKeys factor excluded) :
    0 < s.countedCopies excluded key ∧ 0 < s.missingCopies factor excluded key := by
  obtain ⟨hmem, hmissing⟩ := mem_filter.mp h
  obtain ⟨l, hl, rfl⟩ := mem_map.mp (mem_dedup.mp hmem)
  obtain ⟨hrow, hcounts⟩ := mem_filter.mp hl
  refine ⟨?_, of_decide_eq_true hmissing⟩
  exact countP_pos_iff.mpr ⟨l, mem_copiesOf_singleton.mpr ⟨hrow, rfl⟩, hcounts⟩

theorem mem_planCopySets {locations : List ObjectLocation} {offBy : Int → Int} {set : CopySet} :
    set ∈ planCopySets locations offBy ↔
      set.copies = locations.filter (fun l => decide (l.objectKey = set.key)) ∧ set.copies ≠ [] ∧
        set.off = offBy set.copies.length ∧ 0 < set.off := by
  rw [planCopySets, mem_filterMap]
  constructor
  · rintro ⟨g, hg, hset⟩
    obtain ⟨hrows, hne⟩ := (mem_groupOn _).mp hg
    dsimp only at hset
    split_ifs at hset with hoff
    obtain rfl := Option.some.inj hset
    exact ⟨hrows, hne, rfl, hoff⟩
  · rintro ⟨hrows, hne, hoff, hpos⟩
    refine ⟨(set.key, set.copies), (mem_groupOn _).mpr ⟨hrows, hne⟩, ?_⟩
    rw [← hoff, if_pos hpos]

theorem nodup_planCopySets (locations : List ObjectLocation) (offBy : Int → Int) :
    ((planCopySets locations offBy).map CopySet.key).Nodup := by
  have hsub : ((planCopySets locations offBy).map CopySet.key).Sublist
      ((groupOn ObjectLocation.objectKey locations).map Prod.fst) := by
    rw [planCopySets]
    induction groupOn ObjectLocation.objectKey locations with
    | nil => exact List.Sublist.refl _
    | cons g groups ih =>
      rw [filterMap_cons]
      by_cases hoff : 0 < offBy g.2.length
      · rw [if_pos hoff]
        exact ih.cons_cons _
      · rw [if_neg hoff]
        exact ih.cons _
  exact (nodup_groupOn _ _).sublist hsub

namespace UnderReplicatedScan

variable {s : Ledger} {factor limit : Int} {excluded : List String}
  {scan : UnderReplicatedScan s factor limit excluded}

theorem rows_of_key {key : String} (h : key ∈ scan.keys) :
    ((getUnderReplicatedObjects scan).filter fun l => decide (l.objectKey = key)).Perm
      (s.copiesOf [key]) := by
  have hperm := (perm_insertionSort ObjectLocation.comesFirst (s.copiesOf scan.keys)).filter
    fun l => decide (l.objectKey = key)
  refine hperm.trans (List.Perm.of_eq ?_)
  rw [Ledger.copiesOf, Ledger.copiesOf, filter_filter]
  refine filter_congr fun l _ => ?_
  by_cases hl : l.objectKey = key <;> simp [hl, h]

theorem mem_plan {set : CopySet} (h : set ∈ scan.plan) :
    set.key ∈ scan.keys ∧ set.off = factor - (s.copiesOf [set.key]).length ∧ 0 < set.off := by
  obtain ⟨hrows, hne, hoff, hpos⟩ := mem_planCopySets.mp h
  have hkey : set.key ∈ scan.keys := by
    obtain ⟨l, hl⟩ := exists_mem_of_ne_nil _ hne
    rw [hrows, mem_filter] at hl
    have hcopy := (perm_insertionSort _ _).mem_iff.mp hl.1
    rw [← of_decide_eq_true hl.2]
    exact (copiesOf_key hcopy).2
  refine ⟨hkey, ?_, hpos⟩
  rw [hoff, hrows, (rows_of_key hkey).length_eq]
  rfl

theorem exists_mem_plan {key : String} (h : key ∈ scan.keys)
    (hshort : ((s.copiesOf [key]).length : Int) < factor) : ∃ set ∈ scan.plan, set.key = key := by
  have hrows := rows_of_key h
  have hlen := hrows.length_eq
  let copies := (getUnderReplicatedObjects scan).filter fun l => decide (l.objectKey = key)
  refine ⟨⟨key, copies, shortBy factor copies.length⟩,
    mem_planCopySets.mpr ⟨rfl, fun hnil => ?_, rfl, ?_⟩, rfl⟩
  · rw [show (getUnderReplicatedObjects scan).filter _ = [] from hnil] at hrows
    have hcounted := (mem_underReplicatedKeys (scan.selected h)).1
    rw [Ledger.countedCopies, ← hrows.nil_eq] at hcounted
    exact absurd hcounted (Nat.lt_irrefl 0)
  · dsimp only [shortBy]
    rw [hlen]
    omega

/-- **The plan is the number of missing copies exactly where, for every selected key, the rows not
counted are as many as the intents counted.** -/
theorem plannedExactly_iff (scan : UnderReplicatedScan s factor limit excluded) :
    scan.PlannedExactly ↔
      ∀ key ∈ scan.keys, s.uncountedCopies excluded key = s.intentCount key := by
  constructor
  · rintro ⟨-, -, hplanned⟩ key hkey
    obtain ⟨-, ⟨set, hset, rfl⟩, hexact⟩ := hplanned key hkey
    have hoff := hexact set hset rfl
    rw [(mem_plan hset).2.1, Ledger.missingCopies] at hoff
    have hcount := countedCopies_add_uncountedCopies s excluded set.key
    omega
  · intro hagree
    refine ⟨nodup_planCopySets _ _, fun set hset => (mem_plan hset).1, fun key hkey => ?_⟩
    have hcount := countedCopies_add_uncountedCopies s excluded key
    have hmissing := (mem_underReplicatedKeys (scan.selected hkey)).2
    have hsame := hagree key hkey
    rw [Ledger.missingCopies] at hmissing ⊢
    refine ⟨hmissing, exists_mem_plan hkey (by omega), ?_⟩
    rintro set hset rfl
    rw [(mem_plan hset).2.1]
    omega

end UnderReplicatedScan

/-! ## Keys the plan drops or overfills -/

def pairedCopies : Ledger := twoCopies false {}

def arrivingCopy : Ledger :=
  { Ledger.provisioned duoQuota with
    objectLocations := ⟨[{ objectKey := "k", backendName := "b", storageKey := "k!i" }], by simp⟩
    pendingObjects :=
      ⟨[{ intentID := "j", objectKey := "k", storageKey := "k!j", backendName := "c",
          role := .companion }], by simp⟩ }

def unhealthyScan : UnderReplicatedScan pairedCopies 2 10 ["c"] :=
  ⟨["k"], by decide, by decide, by decide⟩

def arrivingScan : UnderReplicatedScan arrivingCopy 3 10 [] :=
  ⟨["k"], by decide, by decide, by decide⟩

/-- A copy on an unhealthy backend counts in the plan, so the key is dropped; an intent does not, so
one copy too many is planned. -/
theorem plan_drops_and_overfills :
    ("k" ∈ unhealthyScan.keys ∧ pairedCopies.missingCopies 2 ["c"] "k" = 1 ∧
      unhealthyScan.plan = []) ∧
    "k" ∈ arrivingScan.keys ∧ arrivingCopy.missingCopies 3 [] "k" = 1 ∧
      arrivingScan.plan.map (fun set => (set.key, set.off)) = [("k", 2)] ∧
    ¬ unhealthyScan.PlannedExactly ∧ ¬ arrivingScan.PlannedExactly := by
  refine ⟨by decide, by decide, by decide, by decide, fun h => ?_, fun h => ?_⟩
  · have hplanned := (h.2.2 "k" (by decide)).2.1
    exact absurd hplanned (by decide)
  · have hexact := (h.2.2 "k" (by decide)).2.2
    exact absurd hexact (by decide)

end S3Orchestrator
