import S3Orchestrator.Ledger.Import
import S3Orchestrator.Ledger.Stripes

/-!
# Removing surplus copies

The drainer and the over-replication cleaner remove single copies of a key and give the number of
copies to keep. The guard counts every row of the key, also the rows a client cannot see, and its
second test looks only at rows that carry a key.

* **`removals_spare_iff`**.
-/

namespace S3Orchestrator

open RowStore List Ledger Tx

/-! ## What a client has of a key -/

/-- The copy is managed, and not an envelope without a key. -/
def ObjectLocation.isClientReadable (l : ObjectLocation) : Bool :=
  !l.unmanaged && !l.storedForm.unreadable

/-- The envelope's key is on the row. -/
def ObjectLocation.carriesKey (l : ObjectLocation) : Bool :=
  l.storedForm.encrypted && decide (l.storedForm.encryptionKey ≠ [])

/-- How many copies of the key clients are served from. -/
def Ledger.managedCopies (s : Ledger) (key : String) : Nat :=
  (s.copiesOf [key]).countP fun l => !l.unmanaged

/-- A client can read the key. -/
def Ledger.clientReadable (s : Ledger) (key : String) : Prop :=
  ∃ l ∈ s.copiesOf [key], l.isClientReadable = true
  deriving Decidable

/-- A step that took a managed copy of the key left `n` of them, and one a client can read where
there was one. -/
def Ledger.spared (n : Int) (key : String) (s s' : Ledger) : Prop :=
  (s'.managedCopies key < s.managedCopies key → n ≤ s'.managedCopies key) ∧
    (s.clientReadable key → s'.clientReadable key)

/-! ## Removals -/

/-- A call to `DeleteObjectLocation` as the drainer and the cleaner make it. -/
structure Removal where
  loc : ObjectLocation
  keepAtLeast : Int
  reason : String
  keeps : 1 ≤ keepAtLeast

namespace Removal

/-- The transaction of the call. -/
def op (r : Removal) : Op := .deleteObjectLocation r.loc r.keepAtLeast r.reason

/-- The rows of the key. -/
def copies (s : Ledger) (r : Removal) : List ObjectLocation := s.copiesOf [r.loc.objectKey]

/-- The call may take the row: it names its backend and path, the key has more rows than are kept,
and another row carries a key if this one does. -/
def takes (s : Ledger) (r : Removal) (l : ObjectLocation) : Prop :=
  l.backendName = r.loc.backendName ∧ l.storageKey = r.loc.storageKey ∧
    r.keepAtLeast < (r.copies s).length ∧
    (l.carriesKey = true → ∃ l' ∈ r.copies s, l' ≠ l ∧ l'.carriesKey = true)
  deriving Decidable

/-- The row is one of the managed copies to keep, or the only one a client can read. -/
def needed (s : Ledger) (r : Removal) (l : ObjectLocation) : Prop :=
  (l.unmanaged = false ∧ s.managedCopies r.loc.objectKey ≤ r.keepAtLeast) ∨
    (l.isClientReadable = true ∧ ∀ l' ∈ r.copies s, l' ≠ l → l'.isClientReadable = false)
  deriving Decidable

/-- The call may take a row that is needed. -/
def overdraws (s : Ledger) (r : Removal) : Prop :=
  ∃ l ∈ r.copies s, r.takes s l ∧ r.needed s l
  deriving Decidable

end Removal

/-- The ledger after a call. -/
def Ledger.removeCopy (s : Ledger) (st : TxAdapter × Removal) : Ledger := st.2.op.apply st.1 s

/-- Every row is of a backend the ledger has a quota for, as its foreign key asks. -/
def Ledger.BackendsKnown (s : Ledger) : Prop :=
  ∀ l ∈ s.objectLocations.rows, s.hasBackend l.backendName = true
  deriving Decidable

section Removals

variable {tx : TxAdapter} {s s' : Ledger} {l : ObjectLocation} {reason : String}

section

variable (hl : l ∈ s.objectLocations.rows)
include hl

theorem copiesOf_removing (h : Applies (Effect.removing l reason) s s') :
    s'.copiesOf [l.objectKey] = (s.copiesOf [l.objectKey]).filter fun a => !decide (a = l) := by
  unfold copiesOf
  rw [h.locations]
  simp only [Effect.removing, append_nil, filter_filter]
  refine filter_congr fun a ha => ?_
  by_cases hkey : a.objectKey = l.objectKey
  · by_cases hback : a.backendName = l.backendName
    · simp [slot_unique ha hl hkey hback]
    · have hne : a ≠ l := fun he => hback (by rw [he])
      simp [hback, hne]
  · simp [hkey]

theorem filter_copy : (s.copiesOf [l.objectKey]).filter (fun a => decide (a = l)) = [l] := by
  rw [← filter_slot hl, copiesOf, filter_filter]
  refine filter_congr fun a ha => ?_
  by_cases hslot : a.objectKey = l.objectKey ∧ a.backendName = l.backendName
  · simp [slot_unique ha hl hslot.1 hslot.2]
  · have hne : a ≠ l := fun he => hslot (by rw [he]; exact ⟨rfl, rfl⟩)
    simp [hslot, hne]

theorem managedCopies_removing (h : Applies (Effect.removing l reason) s s') :
    s.managedCopies l.objectKey =
      (if l.unmanaged then 0 else 1) + s'.managedCopies l.objectKey := by
  have hsplit := countP_eq_countP_filter_add (s.copiesOf [l.objectKey])
    (fun a => !a.unmanaged) fun a => decide (a = l)
  rw [filter_copy hl] at hsplit
  unfold managedCopies
  rw [copiesOf_removing hl h, hsplit, countP_singleton]
  cases l.unmanaged <;> simp

theorem clientReadable_removing (h : Applies (Effect.removing l reason) s s') :
    s'.clientReadable l.objectKey ↔
      ∃ l' ∈ s.copiesOf [l.objectKey], l' ≠ l ∧ l'.isClientReadable = true := by
  unfold clientReadable
  rw [copiesOf_removing hl h]
  simp [and_assoc]

theorem spared_removing_iff {r : Removal} (hkey : l.objectKey = r.loc.objectKey)
    (h : Applies (Effect.removing l reason) s s') :
    spared r.keepAtLeast r.loc.objectKey s s' ↔ ¬r.needed s l := by
  have hcount := managedCopies_removing hl h
  unfold Removal.needed Removal.copies
  rw [← hkey, not_or]
  refine and_congr ?_ ?_
  · cases hun : l.unmanaged with
    | true =>
      rw [hun, if_pos rfl] at hcount
      simp [hcount]
    | false =>
      rw [hun, if_neg Bool.false_ne_true] at hcount
      simp only [true_and]
      omega
  · rw [clientReadable_removing hl h]
    constructor
    · rintro hr ⟨hread, hnone⟩
      obtain ⟨a, ha, hal, haread⟩ := hr ⟨l, mem_copiesOf_singleton.mpr ⟨hl, rfl⟩, hread⟩
      rw [hnone a ha hal] at haread
      cases haread
    · rintro hr ⟨a, ha, hread⟩
      by_cases hal : a = l
      · subst hal
        by_contra hnone
        push Not at hnone
        exact hr ⟨hread, fun b hb hba => Bool.eq_false_iff.mpr (hnone b hb hba)⟩
      · exact ⟨a, ha, hal, hread⟩

theorem copyOnBackend_eq : copyOnBackend ((s.copiesOf [l.objectKey]).map ObjectLocation.existing)
    l.backendName = some l.existing := by
  have hmem : l ∈ s.copiesOf [l.objectKey] := mem_copiesOf_singleton.mpr ⟨hl, rfl⟩
  cases hfind : copyOnBackend ((s.copiesOf [l.objectKey]).map ObjectLocation.existing)
      l.backendName with
  | none =>
    have hno := find?_eq_none.mp hfind _ (mem_map_of_mem hmem)
    simp [ObjectLocation.existing] at hno
  | some ec =>
    obtain ⟨hec, hback⟩ := copyOnBackend_some hfind
    obtain ⟨a, ha, hkey, rfl⟩ := mem_existing hec
    rw [slot_unique ha hl hkey hback]

/-- The keys among the rows: that of the one named, and the others'. -/
theorem isLastDecryptableCopy_eq (hmore : 1 < (s.copiesOf [l.objectKey]).length) :
    isLastDecryptableCopy ((s.copiesOf [l.objectKey]).map ObjectLocation.existing) l.backendName =
      decide (l.carriesKey = true ∧
        ∀ a ∈ s.copiesOf [l.objectKey], a ≠ l → a.carriesKey = false) := by
  have hform : ∀ a : ObjectLocation, StoredFlags.has a.existing.form storedReadable =
      a.carriesKey := fun a => StoredForm.has_form_readable a.storedForm
  have hsplit := countP_eq_countP_filter_add (s.copiesOf [l.objectKey])
    ObjectLocation.carriesKey fun a => decide (a = l)
  rw [filter_copy hl, countP_singleton] at hsplit
  have htarget : (s.copiesOf [l.objectKey]).countP
      (fun a => a.carriesKey && decide (a.backendName = l.backendName)) =
      if l.carriesKey then 1 else 0 := by
    rw [← countP_singleton, ← filter_copy hl, countP_filter]
    refine countP_congr fun a ha => ?_
    obtain ⟨hrow, hkey⟩ := mem_copiesOf_singleton.mp ha
    have hslot : a.backendName = l.backendName ↔ a = l :=
      ⟨slot_unique hrow hl hkey, fun he => by rw [he]⟩
    simp [hslot]
  have hothers : ((s.copiesOf [l.objectKey]).filter fun a => !decide (a = l)).countP
      ObjectLocation.carriesKey = 0 ↔
        ∀ a ∈ s.copiesOf [l.objectKey], a ≠ l → a.carriesKey = false := by
    simp
  unfold isLastDecryptableCopy
  simp only [countP_map, length_map, Function.comp_def, hform, ← hothers]
  refine decide_eq_decide.mpr ?_
  change _ ∧ (s.copiesOf [l.objectKey]).countP
    (fun a => a.carriesKey && decide (a.backendName = l.backendName)) = 1 ∧ _ ↔ _
  rw [htarget, hsplit]
  cases l.carriesKey with
  | false => simp
  | true =>
    simp only [if_true, true_and]
    omega

/-- The guard is what `Removal.takes` says. -/
theorem removableCopy_iff {r : Removal} (hkey : l.objectKey = r.loc.objectKey)
    (hback : l.backendName = r.loc.backendName) :
    removableCopy ((s.copiesOf [r.loc.objectKey]).map ObjectLocation.existing) r.loc
      r.keepAtLeast = .ok l.existing ↔ r.takes s l := by
  have hkeeps := r.keeps
  unfold removableCopy Removal.takes Removal.copies
  rw [← hkey, ← hback, copyOnBackend_eq hl]
  simp only [length_map]
  by_cases hpath : l.storageKey = r.loc.storageKey
  · rw [if_neg (by simpa [ObjectLocation.existing] using hpath), if_neg (by omega)]
    by_cases hmore : r.keepAtLeast < (s.copiesOf [l.objectKey]).length
    · rw [if_neg (by omega), isLastDecryptableCopy_eq hl (by omega)]
      simp only [hpath, hmore, true_and, decide_eq_true_eq]
      split_ifs with hlast
      · simp only [false_iff]
        rintro hother
        obtain ⟨a, ha, hal, hakey⟩ := hother hlast.1
        rw [hlast.2 a ha hal] at hakey
        cases hakey
      · simp only [true_iff]
        intro hcarries
        by_contra hnone
        push Not at hnone
        exact hlast ⟨hcarries, fun a ha hal => Bool.eq_false_iff.mpr (hnone a ha hal)⟩
    · rw [if_pos (by omega)]
      simp [hmore]
  · rw [if_pos (by simpa [ObjectLocation.existing] using hpath)]
    simp [hpath]

end

theorem deleteObjectLocation_runs (hf : tx.faultless) (hb : s.hasBackend l.backendName = true)
    {loc : ObjectLocation} {n : Int}
    (hguard : removableCopy ((s.copiesOf [loc.objectKey]).map ObjectLocation.existing) loc n =
      .ok l.existing) :
    (deleteObjectLocation tx loc n reason s).isOk = true := by
  have hremove : ∀ last, ∃ s', removeCopyRow tx loc.objectKey l.existing last s = .ok ((), s') ∧
      s'.hasBackend l.backendName = true := by
    intro last
    cases last with
    | false =>
      obtain ⟨s', hcharge, hb'⟩ := chargeStripes_runs (s := { s with
        objectLocations := s.objectLocations.deleteWhere fun a =>
          decide (a.objectKey = loc.objectKey ∧ a.backendName = l.existing.backendName) })
        hf loc.objectKey (-l.existing.sizeBytes) hb
      exact ⟨s', bind_eq_ok.mpr ⟨(), _, exec_runs hf rfl, hcharge⟩, hb'⟩
    | true =>
      obtain ⟨s', hcharge, hb'⟩ := chargeStripes_runs (s := { s with
        objectLocations := s.objectLocations.deleteWhere fun a =>
          decide (a.objectKey = loc.objectKey ∧ a.backendName = l.existing.backendName)
        objectTags := s.objectTags.deleteWhere fun t => decide (t.objectKey ∈ [loc.objectKey]) })
        hf loc.objectKey (-l.existing.sizeBytes) hb
      exact ⟨s', bind_eq_ok.mpr ⟨(), _, exec_runs hf rfl, bind_eq_ok.mpr
        ⟨(), _, mapError_eq_ok.mpr (exec_runs hf rfl), hcharge⟩⟩, hb'⟩
  obtain ⟨s', hremoved, hb'⟩ := hremove
    (decide (((s.copiesOf [loc.objectKey]).map ObjectLocation.existing).length = 1))
  have hqueued : ∃ items s'', (if reason = "" then pure [] else
      enqueueRemoved tx loc.objectKey reason (removedFromExisting [l.existing]) :
      LedgerTx (List CleanupItem)) s' = .ok (items, s'') := by
    split_ifs
    · exact ⟨[], s', rfl⟩
    · exact ⟨_, _, mapError_eq_ok.mpr (exec_runs hf (references_runs hb' rfl))⟩
  obtain ⟨items, s'', hqueued⟩ := hqueued
  have hok : deleteObjectLocation tx loc n reason s = .ok (items, s'') :=
    bind_eq_ok.mpr ⟨_, s, exec_runs hf rfl, bind_eq_ok.mpr ⟨l.existing, s,
      ofExcept_eq_ok.mpr ⟨hguard, rfl⟩, bind_eq_ok.mpr ⟨(), s', hremoved, hqueued⟩⟩⟩
  rw [hok]
  rfl

theorem spared_refl (n : Int) (key : String) (s : Ledger) : spared n key s s :=
  ⟨fun hlt => absurd hlt (lt_irrefl _), fun hr => hr⟩

/-- What a call does: nothing, or it takes a row that it may take. -/
theorem removeCopy_cases (s : Ledger) (st : TxAdapter × Removal) :
    s.removeCopy st = s ∨ ∃ l ∈ s.objectLocations.rows, l.objectKey = st.2.loc.objectKey ∧
      st.2.takes s l ∧ Applies (Effect.removing l st.2.reason) s (s.removeCopy st) := by
  cases hok : st.2.op.succeeds st.1 s with
  | false => exact .inl (Op.apply_of_not_succeeds hok)
  | true =>
    obtain ⟨items, h⟩ := Tx.commit_of_isOk hok
    obtain ⟨l, hl, hkey, hback, -, hguard, happ⟩ := deleteObjectLocation_ok h
    exact .inr ⟨l, hl, hkey, (removableCopy_iff hl hkey hback).mp hguard, happ⟩

theorem spared_of_not_overdraws {st : TxAdapter × Removal} (h : ¬st.2.overdraws s) :
    spared st.2.keepAtLeast st.2.loc.objectKey s (s.removeCopy st) := by
  rcases removeCopy_cases s st with hsame | ⟨l, hl, hkey, htakes, happ⟩
  · rw [hsame]
    exact spared_refl _ _ s
  · exact (spared_removing_iff hl hkey happ).mpr fun hneeded =>
      h ⟨l, mem_copiesOf_singleton.mpr ⟨hl, hkey⟩, htakes, hneeded⟩

theorem not_overdraws_of_spared {st : TxAdapter × Removal} (hf : st.1.faultless)
    (hknown : s.BackendsKnown)
    (h : spared st.2.keepAtLeast st.2.loc.objectKey s (s.removeCopy st)) : ¬st.2.overdraws s := by
  rintro ⟨l, hmem, htakes, hneeded⟩
  obtain ⟨hl, hkey⟩ := mem_copiesOf_singleton.mp hmem
  have hguard := (removableCopy_iff hl hkey htakes.1).mpr htakes
  have hruns : (deleteObjectLocation st.1 st.2.loc st.2.keepAtLeast st.2.reason s).isOk = true :=
    deleteObjectLocation_runs hf (hknown l hl) hguard
  obtain ⟨items, hok⟩ := Tx.commit_of_isOk hruns
  obtain ⟨a, ha, hakey, haback, -, -, happ⟩ := deleteObjectLocation_ok hok
  obtain rfl := slot_unique ha hl (hakey.trans hkey.symm) (haback.trans htakes.1.symm)
  exact (spared_removing_iff ha hkey happ).mp h hneeded

theorem BackendsKnown.removeCopy (h : s.BackendsKnown) (st : TxAdapter × Removal) :
    (s.removeCopy st).BackendsKnown := by
  rcases removeCopy_cases s st with hsame | ⟨l, -, -, -, happ⟩
  · rw [hsame]
    exact h
  · intro a ha
    rcases happ.mem_locations.mp ha with ⟨hold, -⟩ | hnew
    · rw [hasBackend, happ.quotas]
      exact h a hold
    · cases hnew

end Removals

/-- **Surplus removals.** Along every sequence of calls, each keeps the managed copies it was told
to keep and a readable one if no call may take a row that is needed; and only then, where no
statement fails and every row's backend is known. -/
theorem removals_spare_iff (s : Ledger) (run : List (TxAdapter × Removal)) :
    (Along removeCopy (fun s st => ¬st.2.overdraws s) s run →
      Along removeCopy (fun s st =>
        spared st.2.keepAtLeast st.2.loc.objectKey s (s.removeCopy st)) s run) ∧
    ((∀ st ∈ run, st.1.faultless) → s.BackendsKnown →
      Along removeCopy (fun s st =>
        spared st.2.keepAtLeast st.2.loc.objectKey s (s.removeCopy st)) s run →
      Along removeCopy (fun s st => ¬st.2.overdraws s) s run) := by
  refine ⟨fun h => h.imp_mem fun s st _ hno => spared_of_not_overdraws hno, fun hf hknown h => ?_⟩
  induction run generalizing s with
  | nil => trivial
  | cons st run ih =>
    refine ⟨not_overdraws_of_spared (hf st mem_cons_self) hknown h.1, ?_⟩
    exact ih (s.removeCopy st) (fun st' hst => hf st' (mem_cons_of_mem st hst))
      (BackendsKnown.removeCopy hknown st) h.2

/-- A plaintext copy on one backend, and a row on another. -/
def twoCopies (unmanaged : Bool) (form : StoredForm) : Ledger :=
  { Ledger.provisioned duoQuota with
    objectLocations :=
      ⟨[{ objectKey := "k", backendName := "b", storageKey := "k!i" },
        { objectKey := "k", backendName := "c", storageKey := "k", unmanaged, storedForm := form }],
      by simp [sameSlot]⟩ }

/-- The plaintext copy is trimmed, to one copy. -/
def trim : TxAdapter × Removal :=
  (⟨"", 5, fun _ _ => false⟩,
    ⟨{ objectKey := "k", backendName := "b", storageKey := "k!i" }, 1, "r", le_refl _⟩)

/-- The trim is fair beside a managed plaintext copy, and overdraws beside an unmanaged row. -/
theorem trim_spares_iff :
    Along removeCopy (fun s st =>
      spared st.2.keepAtLeast st.2.loc.objectKey s (s.removeCopy st)) (twoCopies false {}) [trim] ∧
    ¬Along removeCopy (fun s st =>
      spared st.2.keepAtLeast st.2.loc.objectKey s (s.removeCopy st)) (twoCopies true {}) [trim] :=
  ⟨(removals_spare_iff _ _).1 (by decide), fun h =>
    absurd ((removals_spare_iff _ _).2 (by simp [trim, TxAdapter.faultless]) (by decide) h)
      (by decide)⟩

/-- An unmanaged row counts as a copy to keep, and a plaintext copy beside a keyless envelope is let
go: the last managed copy goes in the first case, the last readable one in both. -/
theorem trim_removes_last_readable :
    ((twoCopies true {}).managedCopies "k" = 1 ∧ (twoCopies true {}).clientReadable "k" ∧
      ((twoCopies true {}).removeCopy trim).managedCopies "k" = 0 ∧
      ¬ ((twoCopies true {}).removeCopy trim).clientReadable "k") ∧
    (twoCopies false { encrypted := true }).clientReadable "k" ∧
      ¬ ((twoCopies false { encrypted := true }).removeCopy trim).clientReadable "k" := by
  decide

end S3Orchestrator
