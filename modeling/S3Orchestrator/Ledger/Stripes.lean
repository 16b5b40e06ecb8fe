import S3Orchestrator.Ledger.Op

/-!
# The byte counter agrees with the recorded copies

Every transaction gathers what it moved apart from the rows it changes. Here the two are compared:
in every state a sequence of transactions reaches from an empty ledger, every sum of stripe rows is
the size of exactly the recorded copies whose backend and key fall on those stripes.

* **`stripes_match_copies`**.
-/

namespace S3Orchestrator

open RowStore

/-- A transaction together with the adapter it ran through. -/
abbrev Step : Type := TxAdapter × Op

def Ledger.step (s : Ledger) (st : Step) : Ledger := st.2.apply st.1 s

def Ledger.provisioned (quotas : Table BackendQuota sameBackend) : Ledger :=
  { backendQuotas := quotas }

/-- On every selection of stripe rows, the counter is the size of the recorded copies. -/
def Balanced (s : Ledger) : Prop :=
  ∀ p, Tally.total p s.quotaStripes = storedOn p s.objectLocations.rows

theorem balanced_provisioned (quotas : Table BackendQuota sameBackend) :
    Balanced (Ledger.provisioned quotas) := fun _ => rfl

theorem storedOn_append (p : StripeRow → Bool) (rows rows' : List ObjectLocation) :
    storedOn p (rows ++ rows') = storedOn p rows + storedOn p rows' :=
  sumOn_append _ _ _ _

variable {s : Ledger} {e : Effect}

theorem Applies.storedOn_locations {s s' : Ledger} (h : Applies e s s') (p : StripeRow → Bool) :
    storedOn p s'.objectLocations.rows = storedOn p s.objectLocations.rows -
      storedOn p (s.objectLocations.rows.filter e.removed) + storedOn p e.recorded := by
  rw [h.locations, storedOn_append]
  congr 1
  exact sumOn_filter_not _ _ _ _

theorem Applies.balanced {s s' : Ledger} (h : Applies e s s') (hs : Balanced s) : Balanced s' := by
  intro p
  rw [h.stripes p, h.storedOn_locations p, hs p]
  ring

theorem Balanced.apply (hs : Balanced s) (st : Step) : Balanced (s.step st) := by
  obtain ⟨e, _, happ⟩ := apply_outcome st.1 s st.2
  exact happ.balanced hs

/-! ## Sizes -/

def SizesNonneg (s : Ledger) : Prop := ∀ l ∈ s.objectLocations.rows, 0 ≤ l.sizeBytes

def Op.sized : Op → Prop
  | .recordObject req => 0 ≤ req.size
  | .placeCopy p => 0 ≤ p.intent.sizeBytes
  | .promotePending p => 0 ≤ p.sizeBytes
  | .commitCompanionCopy p => 0 ≤ p.sizeBytes
  | .importObject req => 0 ≤ req.size
  | _ => True

instance : DecidablePred Op.sized := fun op => by
  cases op <;> dsimp only [Op.sized] <;> infer_instance

theorem Outcome.recorded_nonneg {tx : TxAdapter} {op : Op} (ho : Outcome tx s op e)
    (hsized : op.sized) (hs : SizesNonneg s) :
    ∀ l ∈ e.recorded, 0 ≤ l.sizeBytes := by
  intro l hl
  cases ho with
  | recorded hcopies hheld =>
    obtain ⟨c, _, rfl⟩ := List.mem_map.mp hl
    exact hsized
  | placed hheld hsrc hkey hbackend hpath =>
    -- A placed copy has the size of its source, or the one its intent gives.
    rename_i p src
    rw [List.mem_singleton.mp hl]
    unfold Placement.placedCopy
    split_ifs
    · exact hsized
    · exact hs src hsrc
  | promoted hheld hrole hsup | joined hheld | imported req =>
    rw [List.mem_singleton.mp hl]
    exact hsized
  | _ => cases hl

theorem SizesNonneg.apply {st : Step} (hs : SizesNonneg s) (hsized : st.2.sized) :
    SizesNonneg (s.step st) := by
  obtain ⟨e, ho, happ⟩ := apply_outcome st.1 s st.2
  intro l hl
  rcases happ.mem_locations.mp hl with ⟨hl, _⟩ | hl
  · exact hs l hl
  · exact ho.recorded_nonneg hsized hs l hl

/-! ## Every reachable ledger -/

def Ledger.recordedBytes (s : Ledger) (backend : String) : Int :=
  sumOn ObjectLocation.sizeBytes (fun l => decide (l.backendName = backend)) s.objectLocations.rows

def Ledger.recordedOnStripe (s : Ledger) (row : StripeRow) : Int :=
  sumOn ObjectLocation.sizeBytes
    (fun l => decide (l.backendName = row.backend ∧ stripeFor l.objectKey = row.stripe))
    s.objectLocations.rows

def Ledger.stripeTotal (s : Ledger) (backend : String) : Int :=
  Tally.total (fun r => decide (r.backend = backend)) s.quotaStripes

theorem Balanced.stripeTotal_eq (hs : Balanced s) (backend : String) :
    s.stripeTotal backend = s.recordedBytes backend := hs _

theorem Balanced.stripe_eq (hs : Balanced s) (row : StripeRow) :
    Tally.get s.quotaStripes row = s.recordedOnStripe row := by
  rw [Tally.get, hs]
  refine sumOn_congr _ _ fun l _ => ⟨?_, fun _ => rfl⟩
  cases row
  simp

theorem SizesNonneg.stripe_nonneg (hs : SizesNonneg s) (row : StripeRow) :
    0 ≤ s.recordedOnStripe row :=
  sumOn_nonneg _ _ fun l hl _ => hs l hl

/-- **In every reachable ledger the stripes are the recorded copies**: each backend's rows add up to
its copies and each row to the copies whose key falls on it, and none is negative where no argument
carried a negative size. -/
theorem stripes_match_copies (quotas : Table BackendQuota sameBackend) (run : List Step) :
    let s := after Ledger.step (Ledger.provisioned quotas) run
    (∀ backend, s.stripeTotal backend = s.recordedBytes backend) ∧
    (∀ row, Tally.get s.quotaStripes row = s.recordedOnStripe row) ∧
    (Along Ledger.step (fun _ st => st.2.sized) (Ledger.provisioned quotas) run →
      ∀ row, 0 ≤ Tally.get s.quotaStripes row) := by
  intro s
  have hrun : Along Ledger.step (fun _ _ => True) (Ledger.provisioned quotas) run :=
    along_of_forall fun _ _ => trivial
  have hbal : Balanced s :=
    hrun.invariant (balanced_provisioned quotas) fun s st hs _ => hs.apply st
  refine ⟨hbal.stripeTotal_eq, hbal.stripe_eq, fun hsized row => ?_⟩
  have hnn : SizesNonneg s :=
    hsized.invariant (fun l hl => by cases hl) fun s st hs h => hs.apply h
  rw [hbal.stripe_eq]
  exact hnn.stripe_nonneg row

/-! ## One backend -/

def soloQuota : Table BackendQuota sameBackend := ⟨[⟨"b", 10⟩], by decide⟩

def duoQuota : Table BackendQuota sameBackend := ⟨[⟨"b", 10⟩, ⟨"c", 10⟩], by decide⟩

def soloWrite (size : Int) : Step :=
  (⟨"", 1, fun _ _ => false⟩, .recordObject { key := "k", size := size, copies := [⟨"b", "", ""⟩] })

/-- A recorded negative size makes its stripe negative. -/
theorem soloWrite_negative :
    Tally.get (after Ledger.step (Ledger.provisioned soloQuota) [soloWrite (-5)]).quotaStripes
      ⟨"b", stripeFor "k"⟩ < 0 := by
  decide

theorem soloWrite_nonneg :
    0 ≤ Tally.get (after Ledger.step (Ledger.provisioned soloQuota) [soloWrite 5]).quotaStripes
      ⟨"b", stripeFor "k"⟩ :=
  (stripes_match_copies soloQuota [soloWrite 5]).2.2 ⟨by decide, trivial⟩ _

end S3Orchestrator
