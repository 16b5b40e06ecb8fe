import S3Orchestrator.Ledger.Tracked

/-!
# What a batch delete leaves behind

A batch delete reads the copies of its keys first. It ends there when it finds none, and otherwise
clears the intents of the keys it found a copy of. An intent of a key without a recorded copy is
left to the reaper, which records it.

* **`delete_clears_iff`**.
-/

namespace S3Orchestrator

open RowStore

def Ledger.clearOf (s : Ledger) (keys : List String) : Prop :=
  s.copiesOf keys = [] ∧ (∀ t ∈ s.objectTags.rows, t.objectKey ∉ keys) ∧
    ∀ p ∈ s.pendingObjects.rows, p.objectKey ∉ keys
  deriving Decidable

/-- Every supplied key that has an intent has a recorded copy; and where no supplied key has a
copy, none has a tag. -/
def Ledger.deletable (s : Ledger) (keys : List String) : Prop :=
  (∀ p ∈ s.pendingObjects.rows, p.objectKey ∈ keys →
    ∃ l ∈ s.copiesOf keys, l.objectKey = p.objectKey) ∧
  (s.copiesOf keys = [] → ∀ t ∈ s.objectTags.rows, t.objectKey ∉ keys)
  deriving Decidable

def Op.resolves (s : Ledger) : Op → Prop
  | .promotePending p | .commitCompanionCopy p => p.intentID ≠ "" ∧
      ∃ q ∈ s.pendingObjects.rows, q.intentID = p.intentID ∧ q.objectKey = p.objectKey
  | .deletePending _ | .discardPending _ _ => True
  | _ => False

section Delete

variable {tx : TxAdapter} {s s' : Ledger} {keys : List String} {items : List CleanupItem}

theorem copiesOf_eq_nil : s.copiesOf keys = [] ↔
    ∀ l ∈ s.objectLocations.rows, l.objectKey ∉ keys := by
  simp [Ledger.copiesOf]

theorem clearedBy_iff {p : PendingObject} : Effect.clearedBy s keys p = true ↔
    ∃ l ∈ s.copiesOf keys, l.objectKey = p.objectKey := by
  simp [Effect.clearedBy]

theorem delete_clearOf_iff (h : deleteObjectsBatch tx keys s = .ok (items, s')) :
    s'.clearOf keys ↔ s.deletable keys := by
  rcases deleteObjectsBatch_ok h with ⟨hnone, rfl⟩ | ⟨hfound, happ, htags⟩
  · -- Nothing was found, and nothing was done.
    constructor
    · rintro ⟨_, ht, hp⟩
      exact ⟨fun p hpm hk => absurd hk (hp p hpm), fun _ => ht⟩
    · rintro ⟨hp, ht⟩
      refine ⟨hnone, ht hnone, fun p hpm hk => ?_⟩
      obtain ⟨l, hl, _⟩ := hp p hpm hk
      rw [hnone] at hl
      cases hl
  · have hrows : s'.copiesOf keys = [] := by
      rw [copiesOf_eq_nil]
      intro l hl
      rcases happ.mem_locations.mp hl with ⟨_, hr⟩ | hr
      · exact of_decide_eq_false hr
      · cases hr
    have htag : ∀ t ∈ s'.objectTags.rows, t.objectKey ∉ keys := by
      intro t ht
      rw [htags, Table.rows_deleteWhere] at ht
      simpa using (List.mem_filter.mp ht).2
    constructor
    · rintro ⟨_, _, hp⟩
      refine ⟨fun p hpm hk => ?_, fun hnone => absurd hnone hfound⟩
      by_contra hc
      have hkeep : Effect.clearedBy s keys p = false := by
        rw [← Bool.not_eq_true, clearedBy_iff]
        exact hc
      exact hp p (happ.mem_pending.mpr (.inl ⟨hpm, hkeep⟩)) hk
    · rintro ⟨hp, _⟩
      refine ⟨hrows, htag, fun p hpm hk => ?_⟩
      rcases happ.mem_pending.mp hpm with ⟨hpm, hkeep⟩ | hpm
      · have hclear := clearedBy_iff.mpr (hp p hpm hk)
        have hkeep : Effect.clearedBy s keys p = false := hkeep
        rw [hkeep] at hclear
        cases hclear
      · cases hpm

end Delete

/-! ## Resolving old intents -/

section Resolve

variable {s : Ledger} {keys : List String}

def Ledger.Spent (s : Ledger) (keys : List String) (s₁ : Ledger) : Prop :=
  s₁.copiesOf keys = [] ∧
    ∀ q ∈ s₁.pendingObjects.rows, q ∈ s.pendingObjects.rows ∧ q.objectKey ∉ keys

theorem intent_unique {p q : PendingObject} (hp : p ∈ s.pendingObjects.rows)
    (hq : q ∈ s.pendingObjects.rows) (hid : p.intentID = q.intentID) : p = q := by
  refine s.pendingObjects.eq_of_clash hp hq ?_ ?_ <;> simp [sameIntent, hid]

variable {s₁ : Ledger}

theorem Ledger.Spent.key_of_held (h : s.Spent keys s₁) {p : PendingObject} (hid : p.intentID ≠ "")
    (hold : ∃ q ∈ s.pendingObjects.rows, q.intentID = p.intentID ∧ q.objectKey = p.objectKey)
    (hheld : s₁.holdsAll [p.intentID]) : p.objectKey ∉ keys := by
  obtain ⟨q, hq, hqid⟩ := Ledger.holds_iff.mp (Ledger.holdsAll_singleton.mp hheld hid)
  obtain ⟨q', hq', hqid', hkey⟩ := hold
  obtain ⟨hqs, hkeys⟩ := h.2 q hq
  obtain rfl := intent_unique hqs hq' (hqid.trans hqid'.symm)
  rw [← hkey]
  exact hkeys

theorem Outcome.resolves_recorded {tx : TxAdapter} {op : Op} {e : Effect} (ho : Outcome tx s₁ op e)
    (h : s.Spent keys s₁) (hop : op.resolves s) :
    ∀ l ∈ e.recorded, l.objectKey ∉ keys := by
  intro l hl
  cases ho with
  | promoted hheld hrole hsup | joined hheld =>
    obtain rfl := List.mem_singleton.mp hl
    exact h.key_of_held hop.1 hop.2 hheld
  | recorded | placed | imported => exact hop.elim
  | _ => cases hl

theorem Outcome.resolves_claimed {tx : TxAdapter} {op : Op} {e : Effect} (ho : Outcome tx s₁ op e)
    (hop : op.resolves s) : e.claimed = [] := by
  cases ho with
  | claimed => exact hop.elim
  | _ => rfl

theorem Ledger.Spent.step (h : s.Spent keys s₁) {st : Step} (hop : st.2.resolves s) :
    s.Spent keys (s₁.step st) := by
  obtain ⟨e, ho, happ⟩ := apply_outcome st.1 s₁ st.2
  refine ⟨copiesOf_eq_nil.mpr fun l hl => ?_, fun q hq => ?_⟩
  · rcases happ.mem_locations.mp hl with ⟨hl, _⟩ | hl
    · exact copiesOf_eq_nil.mp h.1 l hl
    · exact ho.resolves_recorded h hop l hl
  · rcases happ.mem_pending.mp hq with ⟨hq, _⟩ | hq
    · exact h.2 q hq
    · rw [ho.resolves_claimed hop] at hq
      cases hq

theorem clearOf_resolved {s' : Ledger} (hclear : s'.clearOf keys)
    (hsub : ∀ q ∈ s'.pendingObjects.rows, q ∈ s.pendingObjects.rows) {run : List Step}
    (hrun : Along Ledger.step (fun _ st => st.2.resolves s) s' run) :
    (after Ledger.step s' run).copiesOf keys = [] := by
  have hstart : s.Spent keys s' := ⟨hclear.1, fun q hq => ⟨hsub q hq, hclear.2.2 q hq⟩⟩
  exact (hrun.invariant (I := fun s₁ => s.Spent keys s₁) hstart fun _ _ h hop => h.step hop).1

end Resolve

theorem delete_pending_subset {tx : TxAdapter} {s s' : Ledger} {keys : List String}
    {items : List CleanupItem} (h : deleteObjectsBatch tx keys s = .ok (items, s')) :
    ∀ q ∈ s'.pendingObjects.rows, q ∈ s.pendingObjects.rows := by
  intro q hq
  rcases deleteObjectsBatch_ok h with ⟨_, rfl⟩ | ⟨_, happ, _⟩
  · exact hq
  · rcases happ.mem_pending.mp hq with ⟨hq, _⟩ | hq
    · exact hq
    · cases hq

/-- **Batch delete.** A committed delete leaves no copy, tag or intent of its keys, now or when an
intent it met is resolved, exactly when every supplied key with an intent had a recorded copy and no
tags were without any copy. -/
theorem delete_clears_iff (tx : TxAdapter) (s s' : Ledger) (keys : List String)
    (items : List CleanupItem) (h : deleteObjectsBatch tx keys s = .ok (items, s')) :
    (s'.clearOf keys ∧ ∀ run, Along Ledger.step (fun _ st => st.2.resolves s) s' run →
      (after Ledger.step s' run).copiesOf keys = []) ↔ s.deletable keys := by
  rw [← delete_clearOf_iff h]
  constructor
  · exact fun hclear => hclear.1
  · exact fun hclear => ⟨hclear, fun run hrun =>
      clearOf_resolved hclear (delete_pending_subset h) hrun⟩

def mixedKeys : Ledger :=
  (Op.recordObject { key := "a", size := 1, copies := [⟨"b", "", "a"⟩] }).apply
    ⟨"", 2, fun _ _ => false⟩ soloClaimed

def staleIntent : PendingObject := TxAdapter.pendingRow ⟨"", 1, fun _ _ => false⟩ soloIntent

/-- A delete of `k` alone, and one of `a` and `k`, commits and leaves the intent of `k`, which the
reaper then records. -/
theorem delete_leaves_intent :
    ((Op.deleteObjectsBatch ["k"]).succeeds ⟨"", 3, fun _ _ => false⟩ soloClaimed = true ∧
      ¬ ((Op.deleteObjectsBatch ["k"]).apply ⟨"", 3, fun _ _ => false⟩ soloClaimed).clearOf ["k"] ∧
      (after Ledger.step soloClaimed
        [(⟨"", 3, fun _ _ => false⟩, .deleteObjectsBatch ["k"]),
         (⟨"", 9, fun _ _ => false⟩, .promotePending staleIntent)]).copiesOf ["k"] ≠ []) ∧
    ((Op.deleteObjectsBatch ["a", "k"]).succeeds ⟨"", 3, fun _ _ => false⟩ mixedKeys = true ∧
      ¬ ((Op.deleteObjectsBatch ["a", "k"]).apply ⟨"", 3, fun _ _ => false⟩ mixedKeys).clearOf
        ["a", "k"] ∧
      (after Ledger.step mixedKeys
        [(⟨"", 3, fun _ _ => false⟩, .deleteObjectsBatch ["a", "k"]),
         (⟨"", 9, fun _ _ => false⟩, .promotePending staleIntent)]).copiesOf ["a", "k"] ≠ []) := by
  decide

theorem delete_clears_copies :
    ((Op.deleteObjectsBatch ["a"]).apply ⟨"", 3, fun _ _ => false⟩ mixedKeys).clearOf ["a"] :=
  have hok := Tx.commit_of_isOk (x := deleteObjectsBatch ⟨"", 3, fun _ _ => false⟩ ["a"])
    (s := mixedKeys) (by decide)
  ((delete_clears_iff _ _ _ _ _ hok.choose_spec).mpr (by decide)).1

end S3Orchestrator
