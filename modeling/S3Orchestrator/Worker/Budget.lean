import S3Orchestrator.Worker.Rebalance
import Mathlib.Data.Fintype.EquivFin

/-!
# What a plan is charged

A plan remembers the bytes its moves send and receive and tests every next move with them. It does
not remember the calls: each move is tested for one call against the request pools as they were
before the plan.

* **`Reaches.budgeted`**: the bytes of every plan fit;
* **`packs_all`**: objects that nothing refuses are all moved;
* **`plan_within_limits_iff`**.
-/

namespace S3Orchestrator.Rebalance

open RowStore List Function

/-- What a move charges to a backend: a read on its source, a write on its destination. -/
def RebalanceMove.charges (u : UsageView) (b : String) (m : RebalanceMove) : List Charge :=
  (if m.source.backendName = b then [u.charge b .getObject m.source.sizeBytes 0] else []) ++
    if m.toBackend = b then [u.charge b .putObject 0 m.source.sizeBytes] else []

/-- What the moves of a plan charge to a backend together. -/
def charged (u : UsageView) (plan : List RebalanceMove) (b : String) (cell : Cell) : Int :=
  (plan.map fun m => ((m.charges u b).map fun c => c.amount cell).sum).sum

/-- A move of the plan reads from the backend or writes to it. -/
def Touches (plan : List RebalanceMove) (b : String) : Prop :=
  ∃ m ∈ plan, m.source.backendName = b ∨ m.toBackend = b

/-- Bytes more fit the backend's egress and ingress limits. -/
def BytesFit (u : UsageView) (b : String) (egress ingress : Int) : Prop :=
  (0 < (u.limitsOf b).egressByteLimit →
    u.used b .egress + egress ≤ (u.limitsOf b).egressByteLimit) ∧
  (0 < (u.limitsOf b).ingressByteLimit →
    u.used b .ingress + ingress ≤ (u.limitsOf b).ingressByteLimit)

/-- The plan as a whole fits the limits of every backend it touches. -/
def FitsLimits (u : UsageView) (plan : List RebalanceMove) : Prop :=
  ∀ b, Touches plan b →
    BytesFit u b (charged u plan b .egress) (charged u plan b .ingress) ∧
    ∀ pool ∈ (u.limitsOf b).pools, 0 < pool.limit →
      u.used b (.pool pool.name) + charged u plan b (.pool pool.name) ≤ pool.limit

/-- The limits let some object be read from the backend. -/
def CanSend (u : UsageView) (b : String) : Prop :=
  ∃ size, 0 ≤ size ∧ u.withinLimits b .getObject size 0 = true

/-- The limits let some object be written to the backend. -/
def CanReceive (u : UsageView) (b : String) : Prop :=
  ∃ size, 0 ≤ size ∧ u.withinLimits b .putObject 0 size = true

/-- A backend that can send has room in its pools for a batch of reads, and one that can receive
for a batch of writes. -/
def RoomForBatch (u : UsageView) (batchSize : Int) : Prop :=
  0 < batchSize → ∀ b, ∀ pool ∈ (u.limitsOf b).pools, 0 < pool.limit →
    (CanSend u b → u.used b (.pool pool.name) +
      batchSize * (u.limitsOf b).poolCharge .getObject pool.name ≤ pool.limit) ∧
    (CanReceive u b → u.used b (.pool pool.name) +
      batchSize * (u.limitsOf b).poolCharge .putObject pool.name ≤ pool.limit)

/-- The objects of a backend are listed from the zero size cursor on, no more than asked for. -/
structure Paged (store : RebalancerStore) : Prop where
  past : ∀ {src : String} {limit : Int} {objects : List ObjectLocation},
    store.listObjectsByBackend src limit = .ok objects →
      ∀ obj ∈ objects, 0 ≤ obj.sizeBytes ∧ (obj.sizeBytes = 0 → obj.objectKey ≠ "")
  short : ∀ {src : String} {limit : Int} {objects : List ObjectLocation},
    store.listObjectsByBackend src limit = .ok objects → objects.length ≤ limit.toNat

open UsageView

/-! ## Sums of charges -/

section Charged

variable {u : UsageView} {plan : List RebalanceMove} {b : String}

theorem charged_concat (m : RebalanceMove) (cell : Cell) : charged u (plan ++ [m]) b cell =
      charged u plan b cell + ((m.charges u b).map fun c => c.amount cell).sum := by
  simp [charged]

theorem charges_egress (m : RebalanceMove) : ((m.charges u b).map fun c => c.amount .egress).sum =
      if m.source.backendName = b then m.source.sizeBytes else 0 := by
  unfold RebalanceMove.charges
  split_ifs <;> simp [charge, Charge.amount]

theorem charges_ingress (m : RebalanceMove) : ((m.charges u b).map fun c => c.amount .ingress).sum =
      if m.toBackend = b then m.source.sizeBytes else 0 := by
  unfold RebalanceMove.charges
  split_ifs <;> simp [charge, Charge.amount]

theorem charged_nonneg (h : ∀ m ∈ plan, 0 ≤ m.source.sizeBytes) (b : String) :
    0 ≤ charged u plan b .egress ∧ 0 ≤ charged u plan b .ingress := by
  constructor
  all_goals
    refine List.sum_nonneg fun x hx => ?_
    obtain ⟨m, hm, rfl⟩ := mem_map.mp hx
  · rw [charges_egress]
    split_ifs
    · exact h m hm
    · exact le_rfl
  · rw [charges_ingress]
    split_ifs
    · exact h m hm
    · exact le_rfl

theorem charged_of_untouched (h : ¬Touches plan b) (cell : Cell) : charged u plan b cell = 0 := by
  refine sum_eq_zero fun x hx => ?_
  obtain ⟨m, hm, rfl⟩ := mem_map.mp hx
  have hsrc : m.source.backendName ≠ b := fun he => h ⟨m, hm, .inl he⟩
  have hdest : m.toBackend ≠ b := fun he => h ⟨m, hm, .inr he⟩
  simp [RebalanceMove.charges, hsrc, hdest]

/-- How many moves read from the backend. -/
def sent (plan : List RebalanceMove) (b : String) : Nat :=
  plan.countP fun m => decide (m.source.backendName = b)

/-- How many moves write to the backend. -/
def received (plan : List RebalanceMove) (b : String) : Nat :=
  plan.countP fun m => decide (m.toBackend = b)

theorem charged_pool (name : String) :
    charged u plan b (.pool name) = sent plan b * (u.limitsOf b).poolCharge .getObject name +
      received plan b * (u.limitsOf b).poolCharge .putObject name := by
  induction plan with
  | nil => simp [charged, sent, received]
  | cons m plan ih =>
    have hone : charged u (m :: plan) b (.pool name) =
        ((m.charges u b).map fun c => c.amount (.pool name)).sum +
          charged u plan b (.pool name) := sum_cons
    rw [hone, ih, sent, sent, received, received, countP_cons, countP_cons]
    unfold RebalanceMove.charges
    split_ifs <;> simp_all [charge, Charge.amount, UsageLimits.poolCharge] <;> ring

theorem sent_add_received_le (h : ∀ m ∈ plan, m.toBackend ≠ m.source.backendName) :
    sent plan b + received plan b ≤ plan.length := by
  induction plan with
  | nil => simp [sent, received]
  | cons m plan ih =>
    obtain ⟨hm, hrest⟩ := forall_mem_cons.mp h
    have := ih hrest
    rw [sent, received, countP_cons, countP_cons, length_cons]
    rw [sent, received] at this
    by_cases hsrc : m.source.backendName = b
    · have hdest : m.toBackend ≠ b := fun he => hm (he.trans hsrc.symm)
      simp only [hsrc, hdest, decide_true, decide_false, if_true, Bool.false_eq_true, if_false]
      omega
    · simp only [hsrc, decide_false, Bool.false_eq_true, if_false]
      split_ifs <;> omega

end Charged

/-! ## The bytes of a plan -/

section Budgeted

variable {u : UsageView} {f : Fleet} {batchSize : Int} {q q' : Planning}

/-- The budget has the plan's bytes, and they fit; every move was allowed. -/
structure Budgeted (u : UsageView) (q : Planning) : Prop where
  egress : ∀ b, q.state.budget.egress b = charged u q.plan b .egress
  ingress : ∀ b, q.state.budget.ingress b = charged u q.plan b .ingress
  fit : ∀ b, Touches q.plan b →
    BytesFit u b (charged u q.plan b .egress) (charged u q.plan b .ingress)
  allowed : ∀ m ∈ q.plan, CanSend u m.source.backendName ∧ CanReceive u m.toBackend

theorem bytesFit_of_withinLimits {b : String} {op : S3Op} {egress ingress : Int}
    (h : u.withinLimits b op egress ingress = true) : BytesFit u b egress ingress :=
  ⟨(withinLimits_iff.mp h).1, (withinLimits_iff.mp h).2.1⟩

theorem Reaches.sizes (hpaged : Paged f.store) (h : Reaches f batchSize q) :
    (∀ src objects, q.byBackend src = some objects → ∀ obj ∈ objects, 0 ≤ obj.sizeBytes) ∧
      ∀ m ∈ q.plan, 0 ≤ m.source.sizeBytes := by
  induction h with
  | start => exact ⟨fun _ _ h => (by cases h), fun m hm => (by cases hm)⟩
  | @fetched q q' src objects _ hfetch ih =>
    obtain ⟨-, rfl | ⟨copyMap, hlist, -, rfl⟩⟩ := forBackend_ok hfetch
    · exact ih
    · refine ⟨fun src' objects' h obj hobj => ?_, ih.2⟩
      change update q.byBackend src (some objects) src' = some objects' at h
      by_cases hsrc : src' = src
      · rw [hsrc, update_self] at h
        cases h
        exact (hpaged.past hlist obj hobj).1
      · exact ih.1 src' objects' ((update_of_ne hsrc ..).symm.trans h) obj hobj
  | planned _ hget hobj _ _ _ _ _ hmove ih =>
    obtain ⟨-, -, rfl⟩ := move_eq_some.mp hmove
    refine ⟨ih.1, forall_mem_append.mpr ⟨ih.2, forall_mem_singleton.mpr ?_⟩⟩
    exact ih.1 _ _ hget _ hobj

theorem Budgeted.moved (h : Budgeted u q) (hu : q.state.budget.usage = some u)
    (hsizes : ∀ m ∈ q.plan, 0 ≤ m.source.sizeBytes) {obj : ObjectLocation} {dest : String}
    (hobj : 0 ≤ obj.sizeBytes) (hmove : q.move obj dest = some q') :
    Budgeted u q' := by
  obtain ⟨-, hallows, rfl⟩ := move_eq_some.mp hmove
  simp only [UsageBudget.allows, hu] at hallows
  split_ifs at hallows with hsend
  rw [Bool.not_eq_false] at hsend
  have hout : ∀ b, charged u (q.plan ++ [⟨obj, dest⟩]) b .egress =
      charged u q.plan b .egress + if obj.backendName = b then obj.sizeBytes else 0 := fun b => by
    rw [charged_concat, charges_egress]
  have hin : ∀ b, charged u (q.plan ++ [⟨obj, dest⟩]) b .ingress =
      charged u q.plan b .ingress + if dest = b then obj.sizeBytes else 0 := fun b => by
    rw [charged_concat, charges_ingress]
  have hegress : 0 ≤ q.state.budget.egress obj.backendName + obj.sizeBytes := by
    rw [h.egress]
    exact add_nonneg (charged_nonneg hsizes _).1 hobj
  have hingress : 0 ≤ q.state.budget.ingress dest + obj.sizeBytes := by
    rw [h.ingress]
    exact add_nonneg (charged_nonneg hsizes _).2 hobj
  refine ⟨fun b => ?_, fun b => ?_, fun b hb => ?_, forall_mem_append.mpr
    ⟨h.allowed, forall_mem_singleton.mpr ⟨⟨_, hegress, hsend⟩, ⟨_, hingress, hallows⟩⟩⟩⟩
  · change update q.state.budget.egress obj.backendName _ b = _
    rw [hout]
    by_cases hb : b = obj.backendName
    · rw [hb, update_self, h.egress, if_pos rfl]
    · rw [update_of_ne hb, h.egress, if_neg (Ne.symm hb), add_zero]
  · change update q.state.budget.ingress dest _ b = _
    rw [hin]
    by_cases hb : b = dest
    · rw [hb, update_self, h.ingress, if_pos rfl]
    · rw [update_of_ne hb, h.ingress, if_neg (Ne.symm hb), add_zero]
  · -- The move's own checks speak for what it adds, and what was there fitted before it.
    have hsrc := bytesFit_of_withinLimits hsend
    have hdest := bytesFit_of_withinLimits hallows
    rw [h.egress] at hsrc
    rw [h.ingress] at hdest
    have hnew : obj.backendName = b ∨ dest = b ∨ Touches q.plan b := by
      obtain ⟨m, hm, hmb⟩ := hb
      rcases mem_append.mp hm with hm | hm
      · exact .inr (.inr ⟨m, hm, hmb⟩)
      · rw [mem_singleton.mp hm] at hmb
        exact hmb.imp_right .inl
    by_cases ht : Touches q.plan b
    · have hfit := h.fit b ht
      unfold BytesFit at *
      by_cases hs : obj.backendName = b <;> by_cases hd : dest = b <;> simp_all
    · have hzero := charged_of_untouched (u := u) ht
      unfold BytesFit at *
      by_cases hs : obj.backendName = b <;> by_cases hd : dest = b <;> simp_all

theorem Reaches.budgeted (hu : f.usage = some u) (hpaged : Paged f.store)
    (h : Reaches f batchSize q) : Budgeted u q := by
  induction h with
  | start =>
    refine ⟨fun b => rfl, fun b => rfl, fun b hb => ?_, fun m hm => by cases hm⟩
    obtain ⟨m, hm, -⟩ := hb
    cases hm
  | fetched _ hfetch ih =>
    obtain ⟨-, rfl | ⟨copyMap, -, -, rfl⟩⟩ := forBackend_ok hfetch
    · exact ih
    · exact ⟨ih.egress, ih.ingress, ih.fit, ih.allowed⟩
  | planned hq hget hobj _ _ _ _ _ hmove ih =>
    have hsizes := hq.sizes hpaged
    exact ih.moved (hq.frame.2.2.trans hu) hsizes.2 (hsizes.1 _ _ hget _ hobj) hmove

end Budgeted

/-! ## A plan that moves every object -/

section Packs

variable {u : UsageView} {src dest : String}

/-- Every object is empty and may move: there is room, the budget allows it, and no key is on its
way. -/
structure Ready (u : UsageView) (f : Fleet) (src dest : String) (objects : List ObjectLocation)
    (q : Planning) : Prop where
  usage : q.state.budget.usage = some u
  left : (objects.length : Int) ≤ q.state.remaining
  room : 0 < q.state.room dest
  emptier : f.atLeastAsFull q.state src dest = false
  budget : q.state.budget.egress src = 0 ∧ q.state.budget.ingress dest = 0
  free : ∀ o ∈ objects, o.backendName = src ∧ o.sizeBytes = 0 ∧
    ⟨o.objectKey, src⟩ ∉ q.state.leaving ∧ ⟨o.objectKey, dest⟩ ∉ q.state.holders
  keys : (objects.map ObjectLocation.objectKey).Nodup

theorem moved_empty (used : String → Int) {m : RebalanceMove} (h : m.source.sizeBytes = 0) :
    moved used m = used := by
  simp [moved, h]

theorem packs_all {f : Fleet} {objects : List ObjectLocation} {q : Planning}
    (hsend : u.withinLimits src .getObject 0 0 = true)
    (hreceive : u.withinLimits dest .putObject 0 0 = true)
    (h : Ready u f src dest objects q) :
    (f.packMovesFromSource src dest objects q).plan = q.plan ++ objects.map (⟨·, dest⟩) ∧
      (f.packMovesFromSource src dest objects q).state.remaining =
        q.state.remaining - objects.length := by
  induction objects generalizing q with
  | nil => simp [Fleet.packMovesFromSource]
  | cons o objects ih =>
    obtain ⟨⟨hsrc, hsz, hstay, hnew⟩, hrest⟩ := forall_mem_cons.mp h.free
    obtain ⟨hkey, hkeys⟩ := nodup_cons.mp h.keys
    have hleft := h.left
    rw [length_cons, Nat.cast_succ] at hleft
    have hroom := h.room
    have hmovable : q.state.movable o dest = true := by
      simp [PlanState.movable, hsrc, hstay, hnew]
    have hallows : q.state.budget.allows o.backendName dest o.sizeBytes = true := by
      simp [UsageBudget.allows, h.usage, hsrc, hsz, h.budget.1, h.budget.2, hsend, hreceive]
    obtain ⟨q', hmove⟩ : ∃ q', q.move o dest = some q' :=
      ⟨_, move_eq_some.mpr ⟨hmovable, hallows, rfl⟩⟩
    rw [Fleet.packMovesFromSource, if_neg (by omega), if_neg (by omega), h.emptier,
      if_neg Bool.false_ne_true, hmove, Option.getD_some]
    obtain ⟨-, -, hq'⟩ := move_eq_some.mp hmove
    rw [moved_empty _ hsz] at hq'
    have hready : Ready u f src dest objects q' := by
      subst hq'
      refine ⟨h.usage, by change _ ≤ _ - 1; omega, hroom, h.emptier, ⟨?_, ?_⟩, fun o' ho' => ?_,
        hkeys⟩
      · change update q.state.budget.egress o.backendName _ src = 0
        rw [hsrc, update_self, h.budget.1, hsz, add_zero]
      · change update q.state.budget.ingress dest _ dest = 0
        rw [update_self, h.budget.2, hsz, add_zero]
      · obtain ⟨hsrc', hsz', hstay', hnew'⟩ := hrest o' ho'
        have hother : o'.objectKey ≠ o.objectKey := fun he => hkey (he ▸ mem_map_of_mem ho')
        exact ⟨hsrc', hsz', by simp [hstay', hother], by simp [hnew', hother]⟩
    obtain ⟨hplan, hremaining⟩ := ih hready
    rw [hplan, hremaining, hq', length_cons, Nat.cast_succ]
    exact ⟨by simp, by change _ - 1 - _ = _; omega⟩

def nth (k : Nat) : String := String.ofList (List.replicate (k + 1) 'x')

theorem nth_length (k : Nat) : (nth k).length = k + 1 := by simp [nth]

theorem nth_injective : Function.Injective nth := fun a b h => by
  have := congrArg String.length h
  rw [nth_length, nth_length] at this
  omega

/-- Empty objects on a backend. -/
def batchOf (src : String) (n : Nat) : List ObjectLocation :=
  (List.range n).map fun k =>
    { objectKey := nth k, backendName := src, storageKey := nth k, sizeBytes := 0 }

/-- A backend that is half full, and an emptier one with as many empty objects as asked for. -/
def sending (u : UsageView) (src dest : String) : Fleet where
  cmp := exactComparisons
  store :=
    { listObjectsByBackend := fun b limit => .ok (if b = src then batchOf src limit.toNat else [])
      getObjectBackendsForKeys := fun keys => .ok (keys.map fun key => (key, [src])) }
  order := [dest, src]
  writeTargets := [dest]
  usage := some u
  stats b := some { bytesLimit := 2, bytesUsed := if b = dest then 1 else 0 }

theorem sending_consistent (u : UsageView) (src dest : String) :
    Consistent (sending u src dest).store fun _ b => b = src where
  listed {b limit objects} h obj hobj := by
    cases h
    split_ifs at hobj with hb
    · obtain ⟨k, -, rfl⟩ := mem_map.mp hobj
      exact ⟨hb.symm, hb⟩
    · cases hobj
  mapped {keys copyMap} h key hkey b hb := by
    cases h
    exact mem_flatMap.mpr ⟨_, mem_map_of_mem hkey, hb ▸ mem_cons_self⟩

theorem sending_paged (u : UsageView) (src dest : String) :
    Paged (sending u src dest).store where
  past {b limit objects} h obj hobj := by
    cases h
    split_ifs at hobj with hb
    · obtain ⟨k, -, rfl⟩ := mem_map.mp hobj
      refine ⟨le_rfl, fun _ he => ?_⟩
      simpa [nth_length] using congrArg String.length he
    · cases hobj
  short {b limit objects} h := by
    cases h
    split_ifs <;> simp [batchOf]

variable (u) in
theorem sending_emptier (hne : dest ≠ src) (batchSize : Int) :
    (sending u src dest).atLeastAsFull ((sending u src dest).start batchSize).state src dest =
      false := by
  simp [sending, Fleet.start, newPlanState, Fleet.atLeastAsFull, exactComparisons, PlanState.ratio,
    Stats.get, hne.symm]

variable (u) in
theorem sending_order (hne : dest ≠ src) (batchSize : Int) :
    (sending u src dest).limitedByUtilDesc ((sending u src dest).start batchSize).state =
      [dest, src] := by
  simp [sending, Fleet.start, newPlanState, Fleet.limitedByUtilDesc, exactComparisons,
    PlanState.ratio, Stats.get, hne.symm]
  decide

variable (u) in
theorem sending_fetched (hne : dest ≠ src) (n : Nat) :
    ∃ q, (sending u src dest).forBackend n ((sending u src dest).start n) src =
        .ok (batchOf src n, q) ∧
      Ready u (sending u src dest) src dest (batchOf src n) q ∧ q.state.remaining = n ∧
      q.plan = [] := by
  refine ⟨{ (sending u src dest).start n with
    state := { ((sending u src dest).start n).state with
      holders := copiesOf (((batchOf src n).map ObjectLocation.objectKey).map
        fun key => (key, [src])) }
    byBackend := update (fun _ => none) src (some (batchOf src n)) }, ?_,
    ⟨rfl, by simp [batchOf, sending, Fleet.start, newPlanState], ?_, sending_emptier u hne n,
      ⟨rfl, rfl⟩, fun o ho => ?_, ?_⟩, rfl, rfl⟩
  · simp only [Fleet.forBackend, sending, if_true]
    rfl
  · simp [PlanState.room, sending, Fleet.start, newPlanState, Stats.get, QuotaStat.unrecorded]
  · obtain ⟨k, -, rfl⟩ := mem_map.mp ho
    exact ⟨rfl, rfl, not_mem_nil, by simp [copiesOf, hne]⟩
  · rw [batchOf, map_map]
    exact nodup_range.map nth_injective

theorem sending_planned (hne : dest ≠ src) (hsend : u.withinLimits src .getObject 0 0 = true)
    (hreceive : u.withinLimits dest .putObject 0 0 = true) {n : Nat} (hn : 0 < n) :
    ((sending u src dest).planned n .pack).1 = (batchOf src n).map (⟨·, dest⟩) := by
  obtain ⟨q, hfetch, hready, hleft, hempty⟩ := sending_fetched u hne n
  obtain ⟨hplan, hremaining⟩ := packs_all hsend hreceive hready
  have hpos : ¬((sending u src dest).start n).state.remaining ≤ 0 := by
    change ¬(n : Int) ≤ 0
    omega
  have hroom : ¬((sending u src dest).start n).state.room dest ≤ 0 := by
    simp [PlanState.room, sending, Fleet.start, newPlanState, Stats.get, QuotaStat.unrecorded]
  have hrunning : ¬(sending u src dest).cancelled 0 = true := Bool.false_ne_true
  have htakes : ((sending u src dest).start n).state.takes dest = true :=
    decide_eq_true mem_cons_self
  have hinto : (sending u src dest).packMovesIntoDestination n dest [src]
      ((sending u src dest).start n) =
        .ok ((sending u src dest).packMovesFromSource src dest (batchOf src n) q) := by
    rw [Fleet.packMovesIntoDestination, if_neg (by simp [hroom, htakes]), reverse_singleton,
      Fleet.packSources, if_neg (by simp [hpos, hroom]), sending_emptier u hne,
      if_neg Bool.false_ne_true, hfetch]
    rfl
  change ((sending u src dest).packLoop n 0 _ _).1 = _
  rw [sending_order u hne, Fleet.packLoop, if_neg hpos, if_neg hrunning, hinto]
  change ((sending u src dest).packLoop n 1 [src] _).1 = _
  rw [Fleet.packLoop, if_pos (by rw [hremaining, hleft]; simp [batchOf]), hplan, hempty, nil_append]

theorem sent_batch (b : String) (n : Nat) :
    sent ((batchOf src n).map (⟨·, dest⟩)) b = if src = b then n else 0 := by
  simp only [sent, batchOf, countP_map, comp_def]
  split_ifs with h <;> simp [h]

theorem received_batch (b : String) (n : Nat) :
    received ((batchOf src n).map (⟨·, dest⟩)) b = if dest = b then n else 0 := by
  simp only [received, batchOf, countP_map, comp_def]
  split_ifs with h <;> simp [h]

theorem touches_batch {n : Nat} (hn : 0 < n) : Touches ((batchOf src n).map (⟨·, dest⟩)) src ∧
      Touches ((batchOf src n).map (⟨·, dest⟩)) dest := by
  obtain ⟨o, ho, hsrc⟩ : ∃ o ∈ batchOf src n, o.backendName = src :=
    ⟨_, mem_map_of_mem (mem_range.mpr hn), rfl⟩
  exact ⟨⟨_, mem_map_of_mem ho, .inl hsrc⟩, ⟨_, mem_map_of_mem ho, .inr rfl⟩⟩

end Packs

/-! ## The plans that fit -/

theorem exists_fresh (u : UsageView) (b : String) :
    ∃ c, c ≠ b ∧ ∀ op egress ingress, u.withinLimits c op egress ingress = true := by
  obtain ⟨c, hc⟩ := Infinite.exists_notMem_finset (insert b (u.limits.map Prod.fst).toFinset)
  rw [Finset.mem_insert, not_or, mem_toFinset] at hc
  refine ⟨c, hc.1, fun op egress ingress => ?_⟩
  have hnone : u.limits.lookup c = none := lookup_eq_none_iff.mpr fun e he =>
    bne_iff_ne.mpr fun hce => hc.2 (mem_map.mpr ⟨e, he, hce.symm⟩)
  rw [withinLimits, hnone]

section Within

variable {u : UsageView} {b : String}

theorem CanSend.empty (h : CanSend u b) : u.withinLimits b .getObject 0 0 = true := by
  obtain ⟨size, hsize, h⟩ := h
  obtain ⟨hout, hin, hpools⟩ := withinLimits_iff.mp h
  exact withinLimits_iff.mpr ⟨fun hpos => by linarith [hout hpos], hin, hpools⟩

theorem CanReceive.empty (h : CanReceive u b) : u.withinLimits b .putObject 0 0 = true := by
  obtain ⟨size, hsize, h⟩ := h
  obtain ⟨hout, hin, hpools⟩ := withinLimits_iff.mp h
  exact withinLimits_iff.mpr ⟨hout, fun hpos => by linarith [hin hpos], hpools⟩

theorem poolCharge_nonneg (lim : UsageLimits) (op : S3Op) (name : String) :
    0 ≤ lim.poolCharge op name := Int.natCast_nonneg _

variable {plan : List RebalanceMove}

theorem sent_pos (h : 0 < sent plan b) : ∃ m ∈ plan, m.source.backendName = b := by
  simpa using countP_pos_iff.mp h

theorem received_pos (h : 0 < received plan b) : ∃ m ∈ plan, m.toBackend = b := by
  simpa using countP_pos_iff.mp h

theorem charged_pool_le {name : String} {used limit n : Int}
    (hlen : ((sent plan b + received plan b : Nat) : Int) ≤ n)
    (hmoved : 0 < sent plan b ∨ 0 < received plan b)
    (hget : 0 < sent plan b → used + n * (u.limitsOf b).poolCharge .getObject name ≤ limit)
    (hput : 0 < received plan b → used + n * (u.limitsOf b).poolCharge .putObject name ≤ limit) :
    used + charged u plan b (.pool name) ≤ limit := by
  rw [charged_pool]
  have hg := poolCharge_nonneg (u.limitsOf b) .getObject name
  have hp := poolCharge_nonneg (u.limitsOf b) .putObject name
  generalize (u.limitsOf b).poolCharge .getObject name = g at *
  generalize (u.limitsOf b).poolCharge .putObject name = p at *
  generalize sent plan b = s at *
  generalize received plan b = r at *
  push_cast at hlen
  rcases Nat.eq_zero_or_pos s with rfl | hs
  · have hr := hput (by omega)
    have : (r : Int) * p ≤ n * p := by gcongr; omega
    omega
  · rcases le_total p g with hle | hle
    · have : (r : Int) * p ≤ r * g := by gcongr
      have : ((s : Int) + r) * g ≤ n * g := by gcongr
      linarith [hget hs, add_mul (s : Int) r g]
    · rcases Nat.eq_zero_or_pos r with rfl | hr
      · have : (s : Int) * g ≤ n * g := by gcongr; omega
        simp only [Nat.cast_zero]
        linarith [hget hs]
      · have : (s : Int) * g ≤ s * p := by gcongr
        have : ((s : Int) + r) * p ≤ n * p := by gcongr
        linarith [hput hr, add_mul (s : Int) r p]

end Within

/-- **Every plan fits the limits** if and only if each backend that can send or receive has room in
its pools for a batch of such calls. -/
theorem plan_within_limits_iff (u : UsageView) (batchSize : Int) :
    (∀ f : Fleet, f.usage = some u → (∃ holds, Consistent f.store holds) → Paged f.store →
      ∀ strategy, FitsLimits u (f.planned batchSize strategy).1) ↔ RoomForBatch u batchSize := by
  constructor
  · intro h hpos b pool hpool hlimit
    obtain ⟨n, rfl⟩ := Int.eq_ofNat_of_zero_le hpos.le
    have hn : 0 < n := by omega
    obtain ⟨c, hc, hfree⟩ := exists_fresh u b
    constructor
    · intro hsend
      have hfits := h (sending u b c) rfl ⟨_, sending_consistent u b c⟩ (sending_paged u b c) .pack
      rw [sending_planned hc hsend.empty (hfree _ _ _) hn] at hfits
      have hpool := (hfits b (touches_batch hn).1).2 pool hpool hlimit
      rw [charged_pool, sent_batch, received_batch, if_pos rfl, if_neg hc] at hpool
      simpa using hpool
    · intro hreceive
      have hfits := h (sending u c b) rfl ⟨_, sending_consistent u c b⟩ (sending_paged u c b) .pack
      rw [sending_planned (Ne.symm hc) (hfree _ _ _) hreceive.empty hn] at hfits
      have hpool := (hfits b (touches_batch hn).2).2 pool hpool hlimit
      rw [charged_pool, sent_batch, received_batch, if_pos rfl, if_neg hc] at hpool
      simpa using hpool
  · intro hroom f hu ⟨holds, hstore⟩ hpaged strategy b hb
    obtain ⟨q, hq, hplan⟩ := planned_reaches f batchSize strategy
    have hbudget := hq.budgeted hu hpaged
    have hsound := (hq.sound hstore).executable
    rw [← hplan] at hb ⊢
    obtain ⟨m, hm, hmb⟩ := hb
    have hlen : (q.plan.length : Int) ≤ batchSize := by
      have := length_pos_of_mem hm
      have := hsound.within
      omega
    have hcount : sent q.plan b + received q.plan b ≤ q.plan.length :=
      sent_add_received_le fun m hm => (hsound.free m hm).2.2
    refine ⟨hbudget.fit b ⟨m, hm, hmb⟩, fun pool hpool hlimit => ?_⟩
    obtain ⟨hget, hput⟩ := hroom (by have := length_pos_of_mem hm; omega) b pool hpool hlimit
    refine charged_pool_le (by omega) ?_ (fun hs => hget ?_) (fun hr => hput ?_)
    · exact hmb.imp (fun h => countP_pos_iff.mpr ⟨m, hm, by simpa using h⟩)
        (fun h => countP_pos_iff.mpr ⟨m, hm, by simpa using h⟩)
    · obtain ⟨m, hm, rfl⟩ := sent_pos hs
      exact (hbudget.allowed m hm).1
    · obtain ⟨m, hm, rfl⟩ := received_pos hr
      exact (hbudget.allowed m hm).2

def oneReadLeft : UsageView where
  limits := [("b", { pools := [⟨"reads", 1, [.getObject]⟩] })]

/-- Each read alone is within the limit, and the plan makes two. -/
theorem two_reads_planned :
    ((twoBackends (some oneReadLeft)).planned 5 .pack).1.length = 2 ∧
    ¬FitsLimits oneReadLeft ((twoBackends (some oneReadLeft)).planned 5 .pack).1 := by
  refine ⟨by decide +kernel, fun h => ?_⟩
  have htouched : Touches ((twoBackends (some oneReadLeft)).planned 5 .pack).1 "b" := by
    unfold Touches
    decide +kernel
  have hpool := (h "b" htouched).2 ⟨"reads", 1, [.getObject]⟩ mem_cons_self Int.one_pos
  revert hpool
  decide +kernel

end S3Orchestrator.Rebalance
