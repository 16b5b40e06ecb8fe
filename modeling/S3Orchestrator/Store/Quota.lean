import S3Orchestrator.Store.Adapter

/-!
# Quota stripes

A backend's byte total is spread over `quotaStripeCount` rows, and a key always maps to the same
one. Every mutation gathers the bytes it moved on each backend and charges them to its key's stripe
inside its own transaction.

* **`charge_ok`**: a charge moves every sum of stripe rows by exactly what was gathered for them.
-/

namespace S3Orchestrator

open RowStore

def quotaStripeCount : Nat := 16

def fnv32a (key : String) : UInt32 :=
  key.toUTF8.data.toList.foldl (fun h b => (h ^^^ b.toUInt32) * 16777619) 2166136261

def stripeFor (key : String) : Nat := (fnv32a key).toNat % quotaStripeCount

abbrev QuotaDeltas : Type := Tally String

abbrev StripeDeltas : Type := Tally StripeRow

def StripeDeltas.add (d : StripeDeltas) (key backend : String) (delta : Int) : StripeDeltas :=
  Tally.add d ⟨backend, stripeFor key⟩ delta

def StripeRow.le (a b : StripeRow) : Prop :=
  a.backend < b.backend ∨ a.backend = b.backend ∧ a.stripe ≤ b.stripe

instance : DecidableRel StripeRow.le := fun a b => by unfold StripeRow.le; infer_instance

def StripeDeltas.charges (d : StripeDeltas) : List StripeCharge :=
  let rows := (d.rows.map Prod.fst).insertionSort StripeRow.le
  (rows.filter fun row => decide (Tally.get d row ≠ 0)).map fun row =>
    ⟨row.backend, row.stripe, Tally.get d row⟩

def StripeDeltas.charge (d : StripeDeltas) (tx : TxAdapter) : LedgerTx Unit :=
  if d.charges = [] then pure ()
  else Tx.mapError (wrapError "charge quota stripes") (tx.adjustQuotaStripes d.charges)

def stripesOf (key : String) (deltas : QuotaDeltas) : StripeDeltas :=
  deltas.rows.foldl (fun rows e => StripeDeltas.add rows key e.1 e.2) Table.empty

def chargeStripes (tx : TxAdapter) (key : String) (deltas : QuotaDeltas) : LedgerTx Unit :=
  StripeDeltas.charge (stripesOf key deltas) tx

/-! ## What a charge moves -/

section Charge

variable {tx : TxAdapter} {s s' : Ledger} {u : Unit}

theorem sumOn_map_get {d : StripeDeltas} (p : StripeRow → Bool) (rows : List (StripeRow × Int))
    (h : ∀ e ∈ rows, Tally.get d e.1 = e.2) :
    sumOn (Tally.get d) p (rows.map Prod.fst) = sumOn Prod.snd (fun e => p e.1) rows := by
  rw [sumOn_map]
  exact sumOn_congr _ _ fun e he => ⟨rfl, fun _ => h e he⟩

theorem sumOn_charges (d : StripeDeltas) (p : StripeRow → Bool) :
    sumOn Prod.snd (fun e => p e.1) (d.charges.map TxAdapter.chargeEntry) = Tally.total p d := by
  have hget : ∀ e ∈ d.rows, Tally.get d e.1 = e.2 := fun e he => Tally.get_of_mem he
  have hperm := List.perm_insertionSort StripeRow.le (d.rows.map Prod.fst)
  calc sumOn Prod.snd (fun e => p e.1) (d.charges.map TxAdapter.chargeEntry)
      = sumOn (Tally.get d) p (((d.rows.map Prod.fst).insertionSort StripeRow.le).filter
          fun row => decide (Tally.get d row ≠ 0)) := by
        rw [StripeDeltas.charges, List.map_map, sumOn_map]
        rfl
    _ = sumOn (Tally.get d) p (d.rows.map Prod.fst) := by
        rw [sumOn_filter_ne_zero, sumOn_perm _ _ hperm]
    _ = Tally.total p d := sumOn_map_get p d.rows hget

theorem charge_ok {d : StripeDeltas} (h : d.charge tx s = .ok (u, s')) :
    ∃ t, s' = { s with quotaStripes := t } ∧
      ∀ p, Tally.total p t = Tally.total p s.quotaStripes + Tally.total p d := by
  have hs : s' = { s with
      quotaStripes := Tally.addAll s.quotaStripes (d.charges.map TxAdapter.chargeEntry) } := by
    unfold StripeDeltas.charge at h
    split_ifs at h with hc
    · obtain ⟨_, rfl⟩ := Tx.pure_eq_ok.mp h
      simp [hc, Tally.addAll]
    · exact TxAdapter.adjustQuotaStripes_ok (Tx.mapError_eq_ok.mp h)
  refine ⟨_, hs, fun p => ?_⟩
  rw [Tally.total_addAll, sumOn_charges]

theorem total_stripesOf (key : String) (deltas : QuotaDeltas) (p : StripeRow → Bool) :
    Tally.total p (stripesOf key deltas) =
      Tally.total (fun backend => p ⟨backend, stripeFor key⟩) deltas := by
  have h : stripesOf key deltas =
      Tally.addAll Table.empty (deltas.rows.map fun e => (⟨e.1, stripeFor key⟩, e.2)) := by
    rw [stripesOf, Tally.addAll, List.foldl_map]
    rfl
  rw [h, Tally.total_addAll, Tally.total_empty, zero_add, sumOn_map]
  rfl

theorem chargeStripes_ok {key : String} {deltas : QuotaDeltas}
    (h : chargeStripes tx key deltas s = .ok (u, s')) :
    ∃ t, s' = { s with quotaStripes := t } ∧ ∀ p, Tally.total p t = Tally.total p s.quotaStripes +
        Tally.total (fun backend => p ⟨backend, stripeFor key⟩) deltas := by
  obtain ⟨t, hs, ht⟩ := charge_ok h
  exact ⟨t, hs, fun p => by rw [ht p, total_stripesOf]⟩

end Charge

end S3Orchestrator
