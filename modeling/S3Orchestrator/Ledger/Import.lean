import S3Orchestrator.Store.Outcome

/-!
# When an import inserts a row

An import looks at the path and at the key, and at nothing else. `Ledger.imports` is what it asks
for: where it holds the row goes in (**`importObject_inserts`**), and where it does not the ledger
stays as it was (**`importObject_skips`**).
-/

namespace S3Orchestrator

open RowStore List Tx TxAdapter

/-- An import inserts a row: the backend is known, no row names the path, and the key has no copy on
the backend. -/
def Ledger.imports (s : Ledger) (req : ImportObjectRequest) : Bool :=
  s.hasBackend req.backend && decide (s.pathState req.backend req.key = .untracked) &&
    !s.objectLocations.rows.any fun l =>
      decide (l.objectKey = req.key ∧ l.backendName = req.backend)

theorem location_path (req : ImportObjectRequest) (tx : TxAdapter) :
    (tx.locationRow (req.location tx.now)).storageKey = req.key := by
  simp [locationRow, ImportObjectRequest.location, objectFromStoredForm, storagePath]

section Imports

variable {tx : TxAdapter} {s s' : Ledger} {backend : String}

def TxAdapter.faultless (tx : TxAdapter) : Prop := ∀ what s, tx.fault what s = false

theorem exec_runs (hf : tx.faultless) {α : Type} {what : String} {f : Unit → LedgerTx α}
    {r : α × Ledger} (h : f () s = .ok r) : (tx.exec what >>= f) s = .ok r :=
  bind_eq_ok.mpr ⟨(), s, require_eq_ok.mpr ⟨by rw [hf what s]; rfl, rfl⟩, h⟩

theorem references_runs {α : Type} {what : String} {f : Unit → LedgerTx α} {r : α × Ledger}
    (hb : s.hasBackend backend = true) (h : f () s = .ok r) :
    (references what backend >>= f) s = .ok r :=
  bind_eq_ok.mpr ⟨(), s, require_eq_ok.mpr ⟨hb, rfl⟩, h⟩

theorem backend_of_mem_charges {key : String} {size : Int} {c : StripeCharge}
    (hc : c ∈ (stripesOf key (Tally.add Table.empty backend size)).charges) :
    c.backend = backend := by
  obtain ⟨row, hrow, rfl⟩ := mem_map.mp hc
  have hrow := (mem_insertionSort _).mp (mem_of_mem_filter hrow)
  obtain ⟨entry, hentry, rfl⟩ := mem_map.mp hrow
  simp [stripesOf, StripeDeltas.add, Tally.add] at hentry
  rw [hentry]

theorem chargeStripes_runs (hf : tx.faultless) (key : String) (size : Int)
    (hb : s.hasBackend backend = true) :
    ∃ s', chargeStripes tx key (Tally.add Table.empty backend size) s = .ok ((), s') ∧
      s'.hasBackend backend = true := by
  unfold chargeStripes StripeDeltas.charge
  split_ifs with hc
  · exact ⟨s, rfl, hb⟩
  · have hruns := forEach_runs (f := tx.adjustQuotaStripe)
      (P := fun s => s.hasBackend backend = true)
      (stripesOf key (Tally.add Table.empty backend size)).charges ?_ hb
    · obtain ⟨s', h, hb'⟩ := hruns
      exact ⟨s', mapError_eq_ok.mpr h, hb'⟩
    intro c hc s1 hb1
    rw [← backend_of_mem_charges hc] at hb1 ⊢
    exact ⟨_, exec_runs hf (references_runs hb1 rfl), hb1⟩

theorem not_recorded_of_untracked {path : String} (h : s.pathState backend path = .untracked) :
    ∀ l ∈ s.objectLocations.rows, ¬ (l.backendName = backend ∧ l.storageKey = path) := by
  unfold Ledger.pathState at h
  split_ifs at h with hc hp hl
  intro l hmem ha
  exact hl (any_eq_true.mpr ⟨l, hmem, decide_eq_true ha⟩)

variable {req : ImportObjectRequest}

theorem untracked_of_inserted (h : importObject tx req s = .ok (.inserted, s')) :
    s.imports req = true := by
  obtain ⟨states, s1, h1, h2⟩ := bind_eq_ok.mp h
  obtain ⟨rfl, rfl⟩ := read_eq_ok.mp (of_exec h1)
  cases hpath : s1.pathState req.backend req.key with
  | untracked =>
    rw [hpath] at h2
    obtain ⟨inserted, s2, h3, h4⟩ := bind_eq_ok.mp h2
    have h5 := of_read (of_exec h3)
    split_ifs at h5 with hfound
    · obtain ⟨rfl, rfl⟩ := pure_eq_ok.mp h5
      exact absurd (pure_eq_ok.mp h4).1 (by simp)
    · obtain ⟨_, s3, h6, -⟩ := bind_eq_ok.mp h5
      obtain ⟨hb, -⟩ := of_references (of_exec h6)
      refine Bool.and_eq_true_iff.mpr ⟨Bool.and_eq_true_iff.mpr ⟨hb, decide_eq_true hpath⟩, ?_⟩
      exact Bool.not_eq_eq_eq_not.mpr (Bool.eq_false_iff.mpr hfound)
  | recorded | inFlight | pendingCleanup =>
    rw [hpath] at h2
    exact absurd (pure_eq_ok.mp h2).1 (by simp)

theorem importObject_skips (h : s.imports req = false) : (importObject tx req).commit s = s := by
  rcases commit_cases (importObject tx req) s with hsame | ⟨r, hok⟩
  · exact hsame
  rcases importObject_ok hok with ⟨-, hsame⟩ | ⟨rfl, -⟩
  · exact hsame
  · rw [untracked_of_inserted hok] at h
    cases h

theorem importObject_inserts (hf : tx.faultless) (h : s.imports req = true) :
    tx.locationRow (req.location tx.now) ∈
      ((importObject tx req).commit s).objectLocations.rows := by
  simp only [Ledger.imports, Bool.and_eq_true, decide_eq_true_eq, Bool.not_eq_true'] at h
  obtain ⟨⟨hb, hpath⟩, hkey⟩ := h
  -- Neither of the two constraints on the table is in the way.
  have hfree : ∀ a ∈ s.objectLocations.rows,
      sameSlot a (tx.locationRow (req.location tx.now)) = false := by
    intro a ha
    have hslot := any_eq_false.mp hkey a ha
    have hstored := not_recorded_of_untracked hpath a ha
    simp only [decide_eq_true_eq] at hslot
    rw [sameSlot, Bool.and_eq_false_iff, Bool.or_eq_false_iff, location_path]
    by_cases hab : a.backendName = req.backend
    · exact .inr ⟨decide_eq_false fun hk => hslot ⟨hk, hab⟩,
        decide_eq_false fun hs => hstored ⟨hab, hs⟩⟩
    · exact .inl (decide_eq_false hab)
  obtain ⟨t, ht⟩ := Table.exists_insert hfree
  obtain ⟨s', hcharge, -⟩ := chargeStripes_runs (s := { s with objectLocations := t }) hf req.key
    req.size hb
  have hinsert : tx.insertObjectLocationIfNotExists (req.location tx.now) s =
      .ok (true, { s with objectLocations := t }) := by
    refine exec_runs hf (bind_eq_ok.mpr ⟨false, s, read_eq_ok.mpr ⟨hkey.symm, rfl⟩, ?_⟩)
    refine bind_eq_ok.mpr ⟨(), _, ?_, rfl⟩
    refine exec_runs hf (references_runs hb (tryEdit_eq_ok.mpr ?_))
    rw [ht, Option.map_some]
  have hok : importObject tx req s = .ok (.inserted, s') := by
    refine bind_eq_ok.mpr ⟨s.pathState req.backend, s, exec_runs hf rfl, ?_⟩
    rw [hpath]
    exact bind_eq_ok.mpr ⟨true, _, hinsert, bind_eq_ok.mpr ⟨(), s', hcharge, rfl⟩⟩
  rw [commit_of_ok hok]
  rcases importObject_ok hok with ⟨hne, -⟩ | ⟨-, happ⟩
  · exact absurd rfl hne
  · exact happ.mem_locations.mpr (.inr (mem_singleton_self _))

end Imports

end S3Orchestrator
