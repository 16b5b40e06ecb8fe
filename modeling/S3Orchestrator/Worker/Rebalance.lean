import S3Orchestrator.Counter.Limits
import S3Orchestrator.Lib.Tx
import Mathlib.Algebra.BigOperators.Group.Finset.Piecewise

/-!
# Planning a rebalance

A rebalance plans moves of copies between backends against a simulation of the fleet, and then runs
them. Packing fills the fullest backends from the emptiest; spreading moves what a backend has over
its share to those that are below theirs. The copies of a backend, and where else their keys live,
are fetched when the backend first becomes a source.

* `Reaches`, **`planned_reaches`**: a planner fetches sources, plans moves and does nothing else;
* `Executable`, `Sound`, **`Reaches.sound`**: what every plan keeps;
* **`plans_executable`**: the moves of a plan can be run in its order.
-/

namespace S3Orchestrator.Rebalance

open RowStore Function

/-! ## The simulation -/

structure QuotaStat where
  bytesUsed : Int := 0
  bytesLimit : Int := 0
  orphanBytes : Int := 0
  inflightBytes : Int := 0

/-- Bytes that take room and are in no recorded row. -/
def QuotaStat.unrecorded (q : QuotaStat) : Int := q.orphanBytes + q.inflightBytes

abbrev Stats : Type := String → Option QuotaStat

def Stats.get (stats : Stats) (name : String) : QuotaStat := (stats name).getD {}

/-- A copy of a key on a backend. -/
structure CopyAt where
  key : String
  backend : String
  deriving DecidableEq

/-- A copy to move, and where to. -/
structure RebalanceMove where
  source : ObjectLocation
  toBackend : String

/-- The copy a move removes. -/
def RebalanceMove.taken (m : RebalanceMove) : CopyAt := ⟨m.source.objectKey, m.source.backendName⟩

/-- The copy a move makes. -/
def RebalanceMove.made (m : RebalanceMove) : CopyAt := ⟨m.source.objectKey, m.toBackend⟩

/-- The bytes used on each backend, after a move. -/
def moved (used : String → Int) (m : RebalanceMove) : String → Int :=
  let used := Function.update used m.toBackend (used m.toBackend + m.source.sizeBytes)
  Function.update used m.source.backendName (used m.source.backendName - m.source.sizeBytes)

/-- The usage at the start of a plan, and the bytes the plan has committed so far. -/
structure UsageBudget where
  usage : Option UsageView
  egress : String → Int := fun _ => 0
  ingress : String → Int := fun _ => 0

/-- A move fits the limits of its source and its destination. -/
def UsageBudget.allows (b : UsageBudget) (src dest : String) (size : Int) : Bool :=
  match b.usage with
  | none => true
  | some usage =>
    if usage.withinLimits src .getObject (b.egress src + size) 0 = false then false
    else usage.withinLimits dest .putObject 0 (b.ingress dest + size)

/-- The bytes of a planned move count for the moves after it. -/
def UsageBudget.commit (b : UsageBudget) (src dest : String) (size : Int) : UsageBudget :=
  { b with
    egress := Function.update b.egress src (b.egress src + size)
    ingress := Function.update b.ingress dest (b.ingress dest + size) }

/-- What the planner keeps track of while it plans. -/
structure PlanState where
  stats : Stats
  simUsed : String → Int
  budget : UsageBudget
  targets : List String
  holders : List CopyAt := []
  leaving : List CopyAt := []
  remaining : Int

def newPlanState (stats : Stats) (writeTargets : List String) (usage : Option UsageView)
    (batchSize : Int) : PlanState where
  stats := stats
  simUsed name := (stats.get name).bytesUsed
  budget := { usage := usage }
  targets := writeTargets
  remaining := batchSize

namespace PlanState

variable (p : PlanState)

/-- The backend accepts writes. -/
def takes (dest : String) : Bool := decide (dest ∈ p.targets)

/-- The bytes that are free on a backend, with the moves planned so far. -/
def room (dest : String) : Int :=
  (p.stats.get dest).bytesLimit - (p.stats.get dest).unrecorded - p.simUsed dest

/-- The copy is not on its way already, and the destination holds none of its object. -/
def movable (obj : ObjectLocation) (dest : String) : Bool :=
  decide (⟨obj.objectKey, obj.backendName⟩ ∉ p.leaving) &&
    decide (⟨obj.objectKey, dest⟩ ∉ p.holders)

/-- Plans a move, if it is possible and fits the usage limits, and counts it as made. -/
def plan (obj : ObjectLocation) (dest : String) : Option (RebalanceMove × PlanState) :=
  if p.movable obj dest = false then none
  else if p.budget.allows obj.backendName dest obj.sizeBytes = false then none
  else some (⟨obj, dest⟩,
    { p with
      budget := p.budget.commit obj.backendName dest obj.sizeBytes
      simUsed := moved p.simUsed ⟨obj, dest⟩
      holders := p.holders ++ [⟨obj.objectKey, dest⟩]
      leaving := p.leaving ++ [⟨obj.objectKey, obj.backendName⟩]
      remaining := p.remaining - 1 })

/-- How full a backend is. -/
def ratio (name : String) : Int × Int := (p.simUsed name, (p.stats.get name).bytesLimit)

end PlanState

/-! ## Candidates -/

structure RebalancerStore where
  listObjectsByBackend : String → Int → Except String (List ObjectLocation)
  getObjectBackendsForKeys : List String → Except String (List (String × List String))

def copiesOf (copyMap : List (String × List String)) : List CopyAt :=
  copyMap.flatMap fun e => e.2.map fun b => ⟨e.1, b⟩

/-- What floating point and sorting make of the figures: two ratios compared, the bytes a backend
should hold, an order. -/
structure Comparisons where
  ratioGE : Int × Int → Int × Int → Bool
  compareRatio : Int × Int → Int × Int → Ordering
  targetBytes : Int → Int → Int → Int
  sortFunc : {α : Type} → (α → α → Ordering) → List α → List α
  sortFunc_perm : ∀ {α : Type} (cmp : α → α → Ordering) (l : List α), (sortFunc cmp l).Perm l

/-- What a plan is made from. `cancelled` says at which source or destination the context is found
done. -/
structure Fleet where
  cmp : Comparisons
  store : RebalancerStore
  order : List String
  writeTargets : List String
  usage : Option UsageView
  stats : Stats
  cancelled : Nat → Bool := fun _ => false

structure Planning where
  state : PlanState
  byBackend : String → Option (List ObjectLocation) := fun _ => none
  plan : List RebalanceMove := []

/-- Adds a move to the plan. -/
def Planning.move (q : Planning) (obj : ObjectLocation) (dest : String) : Option Planning :=
  (q.state.plan obj dest).map fun r => { q with state := r.2, plan := q.plan ++ [r.1] }

namespace Fleet

variable (f : Fleet) (batchSize : Int)

def start : Planning where
  state := newPlanState f.stats f.writeTargets f.usage batchSize

/-- The objects a backend can give away, listed once a plan. -/
def forBackend (q : Planning) (src : String) : Except String (List ObjectLocation × Planning) :=
  match q.byBackend src with
  | some objects => .ok (objects, q)
  | none => do
    let objects ← (f.store.listObjectsByBackend src batchSize).mapError fun e =>
      "failed to list objects on " ++ src ++ ": " ++ e
    let copyMap ← (f.store.getObjectBackendsForKeys (objects.map ObjectLocation.objectKey)).mapError
      fun e => "fetch copy map for rebalance planning: " ++ e
    .ok (objects,
      { q with
        state := { q.state with holders := q.state.holders ++ copiesOf copyMap }
        byBackend := Function.update q.byBackend src (some objects) })

/-- A source as full as the destination is not packed from. -/
def atLeastAsFull (p : PlanState) (src dest : String) : Bool :=
  f.cmp.ratioGE (p.ratio src) (p.ratio dest)

/-! ## Packing -/

/-- The backends with a limit, the fullest first. -/
def limitedByUtilDesc (p : PlanState) : List String :=
  f.cmp.sortFunc (fun a b => f.cmp.compareRatio (p.ratio b) (p.ratio a))
    (f.order.filter fun name => decide ((p.stats.get name).bytesLimit ≠ 0))

/-- Moves what fits from one source, as long as it is the emptier one. -/
def packMovesFromSource (src dest : String) : List ObjectLocation → Planning → Planning
  | [], q => q
  | obj :: objects, q =>
    if q.state.remaining ≤ 0 ∨ q.state.room dest ≤ 0 then q
    else if q.state.room dest < obj.sizeBytes then packMovesFromSource src dest objects q
    else if f.atLeastAsFull q.state src dest then q
    else packMovesFromSource src dest objects ((q.move obj dest).getD q)

def packSources (dest : String) : List String → Planning → Except String Planning
  | [], q => .ok q
  | src :: sources, q =>
    if q.state.remaining ≤ 0 ∨ q.state.room dest ≤ 0 then .ok q
    else if f.atLeastAsFull q.state src dest then packSources dest sources q
    else do
      let (objects, q) ← f.forBackend batchSize q src
      packSources dest sources (f.packMovesFromSource src dest objects q)

/-- Fills a destination from the emptier backends after it, the emptiest first. -/
def packMovesIntoDestination (dest : String) (after : List String) (q : Planning) :
    Except String Planning :=
  if q.state.room dest ≤ 0 ∨ q.state.takes dest = false then .ok q
  else f.packSources batchSize dest after.reverse q

def packLoop : Nat → List String → Planning → List RebalanceMove × Option String
  | _, [], q => (q.plan, none)
  | i, dest :: after, q =>
    if q.state.remaining ≤ 0 then (q.plan, none)
    else if f.cancelled i then (q.plan, some "context canceled")
    else
      match f.packMovesIntoDestination batchSize dest after q with
      | .error e => ([], some e)
      | .ok q => packLoop (i + 1) after q

/-- Fills the fullest backends first. -/
def planPackTight : List RebalanceMove × Option String :=
  f.packLoop batchSize 0 (f.limitedByUtilDesc (f.start batchSize).state) (f.start batchSize)

end Fleet

/-! ## Spreading -/

/-- The bytes a backend has over its share, negative if under. -/
structure BackendBalance where
  name : String
  balance : Int

/-- The first backend under its share that has room for the object. -/
def findSpreadDestination (obj : ObjectLocation) (destinations : List BackendBalance)
    (p : PlanState) : Option Nat :=
  destinations.findIdx? fun d => p.movable obj d.name && decide (obj.sizeBytes ≤ -d.balance) &&
    decide (obj.sizeBytes ≤ p.room d.name)

def spreadObject (obj : ObjectLocation) (destinations : List BackendBalance) (q : Planning) :
    Option (List BackendBalance × Planning) := do
  let i ← findSpreadDestination obj destinations q.state
  let dest ← destinations[i]?
  let q ← q.move obj dest.name
  some (destinations.set i ⟨dest.name, dest.balance + obj.sizeBytes⟩, q)

def spreadObjects :
    List ObjectLocation → Int → List BackendBalance → Planning → List BackendBalance × Planning
  | [], _, destinations, q => (destinations, q)
  | obj :: objects, balance, destinations, q =>
    if q.state.remaining ≤ 0 ∨ balance ≤ 0 then (destinations, q)
    else if balance < obj.sizeBytes then spreadObjects objects balance destinations q
    else
      match spreadObject obj destinations q with
      | none => spreadObjects objects balance destinations q
      | some (destinations, q) =>
        spreadObjects objects (balance - obj.sizeBytes) destinations q

namespace Fleet

variable (f : Fleet) (batchSize : Int)

/-- Who is over its share of the bytes and who is under it. -/
def computeSpreadBalances : Option (List BackendBalance × List BackendBalance) :=
  let known := f.order.filterMap fun name => (f.stats name).map fun stat => (name, stat)
  let totalUsed := (known.map fun e => e.2.bytesUsed).sum
  let totalLimit := (known.map fun e => e.2.bytesLimit).sum
  if totalLimit = 0 then none
  else
    let balances := known.map fun e => (⟨e.1, e.2.bytesUsed -
      f.cmp.targetBytes totalUsed totalLimit e.2.bytesLimit⟩ : BackendBalance)
    some (f.cmp.sortFunc (fun a b => compare b.balance a.balance)
        (balances.filter fun b => decide (0 < b.balance)),
      f.cmp.sortFunc (fun a b => compare a.balance b.balance)
        (balances.filter fun b => decide (b.balance < 0)))

def spreadMovesFromSource (src : BackendBalance) (destinations : List BackendBalance)
    (q : Planning) : Except String (List BackendBalance × Planning) := do
  let (objects, q) ← f.forBackend batchSize q src.name
  .ok (spreadObjects objects src.balance destinations q)

def spreadLoop : Nat → List BackendBalance → List BackendBalance → Planning →
    List RebalanceMove × Option String
  | _, [], _, q => (q.plan, none)
  | i, src :: sources, destinations, q =>
    if q.state.remaining ≤ 0 ∨ f.cancelled i = true then (q.plan, none)
    else
      match f.spreadMovesFromSource batchSize src destinations q with
      | .error e => ([], some e)
      | .ok (destinations, q) => spreadLoop (i + 1) sources destinations q

/-- Moves objects from backends over their share to those under it. -/
def planSpreadEven : List RebalanceMove × Option String :=
  match f.computeSpreadBalances with
  | none => ([], none)
  | some (sources, destinations) =>
    f.spreadLoop batchSize 0 sources
      (destinations.filter fun d => (f.start batchSize).state.takes d.name) (f.start batchSize)

end Fleet

inductive Strategy
  | pack
  | spread

/-- The plan of a strategy, and its error. -/
def Fleet.planned (f : Fleet) (batchSize : Int) : Strategy → List RebalanceMove × Option String
  | .pack => f.planPackTight batchSize
  | .spread => f.planSpreadEven batchSize

/-! ## What a planner does -/

section Reaches

variable (f : Fleet) (batchSize : Int)

/-- A planner has fetched candidates, and planned moves of candidates to write targets with room. -/
inductive Reaches : Planning → Prop
  | start : Reaches (f.start batchSize)
  | fetched {q q' : Planning} {src : String} {objects : List ObjectLocation} (h : Reaches q)
      (hfetch : f.forBackend batchSize q src = .ok (objects, q')) : Reaches q'
  | planned {q q' : Planning} {src dest : String} {objects : List ObjectLocation}
      {obj : ObjectLocation} (h : Reaches q) (hget : q.byBackend src = some objects)
      (hobj : obj ∈ objects) (hsrc : (f.stats src).isSome = true)
      (hdest : (f.stats dest).isSome = true) (htarget : dest ∈ f.writeTargets)
      (hremaining : 0 < q.state.remaining) (hroom : obj.sizeBytes ≤ q.state.room dest)
      (hmove : q.move obj dest = some q') : Reaches q'

variable {f batchSize} {q q' : Planning} {src dest : String} {obj : ObjectLocation}
  {objects : List ObjectLocation}

theorem move_eq_some : q.move obj dest = some q' ↔ q.state.movable obj dest = true ∧
      q.state.budget.allows obj.backendName dest obj.sizeBytes = true ∧
      q' = { q with
        state :=
          { q.state with
            budget := q.state.budget.commit obj.backendName dest obj.sizeBytes
            simUsed := moved q.state.simUsed ⟨obj, dest⟩
            holders := q.state.holders ++ [⟨obj.objectKey, dest⟩]
            leaving := q.state.leaving ++ [⟨obj.objectKey, obj.backendName⟩]
            remaining := q.state.remaining - 1 }
        plan := q.plan ++ [⟨obj, dest⟩] } := by
  unfold Planning.move PlanState.plan
  split_ifs with hmovable hallows
  · simp [hmovable]
  · simp [hallows]
  · simp [hmovable, hallows, eq_comm]

theorem forBackend_ok (h : f.forBackend batchSize q src = .ok (objects, q')) :
    q'.byBackend src = some objects ∧ (q' = q ∨ ∃ copyMap,
      f.store.listObjectsByBackend src batchSize = .ok objects ∧
      f.store.getObjectBackendsForKeys (objects.map ObjectLocation.objectKey) = .ok copyMap ∧
      q' = { q with
        state := { q.state with holders := q.state.holders ++ copiesOf copyMap }
        byBackend := update q.byBackend src (some objects) }) := by
  unfold Fleet.forBackend at h
  split at h
  · next hget =>
      cases h
      exact ⟨hget, .inl rfl⟩
  · obtain ⟨_, hlist, h⟩ := exists_of_bind_ok h
    obtain ⟨copyMap, hmap, h⟩ := exists_of_bind_ok h
    cases h
    exact ⟨update_self .., .inr ⟨copyMap, ok_of_mapError_ok hlist, ok_of_mapError_ok hmap, rfl⟩⟩

theorem move_byBackend (h : q.move obj dest = some q') : q'.byBackend = q.byBackend := by
  obtain ⟨-, -, rfl⟩ := move_eq_some.mp h
  rfl

theorem Reaches.frame (h : Reaches f batchSize q) :
    q.state.stats = f.stats ∧ q.state.targets = f.writeTargets ∧
      q.state.budget.usage = f.usage := by
  induction h with
  | start => exact ⟨rfl, rfl, rfl⟩
  | fetched _ hfetch ih =>
    obtain ⟨-, rfl | ⟨copyMap, -, -, rfl⟩⟩ := forBackend_ok hfetch
    · exact ih
    · exact ih
  | planned _ _ _ _ _ _ _ _ hmove ih =>
    obtain ⟨-, -, rfl⟩ := move_eq_some.mp hmove
    exact ih

theorem takes_iff (h : Reaches f batchSize q) :
    q.state.takes dest = true ↔ dest ∈ f.writeTargets := by
  rw [PlanState.takes, decide_eq_true_eq, h.frame.2.1]

/-! ### Packing -/

variable {candidates : List ObjectLocation}

theorem packMovesFromSource_reaches (hq : Reaches f batchSize q)
    (hget : q.byBackend src = some candidates) (hsub : objects ⊆ candidates)
    (hsrc : (f.stats src).isSome = true) (hdest : (f.stats dest).isSome = true)
    (htarget : dest ∈ f.writeTargets) :
    Reaches f batchSize (f.packMovesFromSource src dest objects q) := by
  induction objects generalizing q with
  | nil => exact hq
  | cons obj objects ih =>
    obtain ⟨hobj, hrest⟩ := List.cons_subset.mp hsub
    rw [Fleet.packMovesFromSource]
    split_ifs with hstop hlarge
    · exact hq
    · exact ih hq hget hrest
    · exact hq
    · cases hmove : q.move obj dest with
      | none => exact ih hq hget hrest
      | some q1 =>
        exact ih (hq.planned hget hobj hsrc hdest htarget (by omega) (by omega) hmove)
          (move_byBackend hmove ▸ hget) hrest

theorem packSources_reaches {sources : List String} (hq : Reaches f batchSize q)
    (hsources : ∀ src ∈ sources, (f.stats src).isSome = true)
    (hdest : (f.stats dest).isSome = true) (htarget : dest ∈ f.writeTargets)
    (h : f.packSources batchSize dest sources q = .ok q') : Reaches f batchSize q' := by
  induction sources generalizing q with
  | nil =>
    cases h
    exact hq
  | cons src sources ih =>
    obtain ⟨hsrc, hrest⟩ := List.forall_mem_cons.mp hsources
    rw [Fleet.packSources] at h
    split_ifs at h
    · cases h
      exact hq
    · exact ih hq hrest h
    · obtain ⟨⟨objects, q1⟩, hfetch, h⟩ := exists_of_bind_ok h
      exact ih (packMovesFromSource_reaches (hq.fetched hfetch) (forBackend_ok hfetch).1
        (List.Subset.refl _) hsrc hdest htarget) hrest h

theorem packLoop_reaches {i : Nat} {backends : List String} (hq : Reaches f batchSize q)
    (hbackends : ∀ b ∈ backends, (f.stats b).isSome = true) :
    ∃ q', Reaches f batchSize q' ∧ q'.plan = (f.packLoop batchSize i backends q).1 := by
  induction backends generalizing i q with
  | nil => exact ⟨q, hq, rfl⟩
  | cons dest after ih =>
    obtain ⟨hdest, hrest⟩ := List.forall_mem_cons.mp hbackends
    rw [Fleet.packLoop]
    split_ifs
    · exact ⟨q, hq, rfl⟩
    · exact ⟨q, hq, rfl⟩
    · cases hinto : f.packMovesIntoDestination batchSize dest after q with
      | error e => exact ⟨_, .start, rfl⟩
      | ok q1 =>
        refine ih ?_ hrest
        unfold Fleet.packMovesIntoDestination at hinto
        split_ifs at hinto with hskip
        · cases hinto
          exact hq
        · rw [not_or, Bool.not_eq_false, takes_iff hq] at hskip
          exact packSources_reaches hq (fun s hs => hrest s (List.mem_reverse.mp hs)) hdest hskip.2
            hinto

/-! ### Spreading -/

def Fleet.Receives (f : Fleet) (destinations : List BackendBalance) : Prop :=
  ∀ d ∈ destinations, (f.stats d.name).isSome = true ∧ d.name ∈ f.writeTargets

theorem spreadObject_reaches {destinations destinations' : List BackendBalance}
    (hq : Reaches f batchSize q) (hget : q.byBackend src = some objects) (hobj : obj ∈ objects)
    (hsrc : (f.stats src).isSome = true) (hdests : f.Receives destinations)
    (hremaining : 0 < q.state.remaining)
    (h : spreadObject obj destinations q = some (destinations', q')) :
    Reaches f batchSize q' ∧ q'.byBackend src = some objects ∧ f.Receives destinations' := by
  simp only [spreadObject, Option.bind_eq_bind, Option.bind_eq_some_iff, Option.some.injEq,
    Prod.mk.injEq] at h
  obtain ⟨i, hfind, dest, hdest, q1, hmove, rfl, rfl⟩ := h
  obtain ⟨hlt, rfl⟩ := List.getElem?_eq_some_iff.mp hdest
  have hok := (List.findIdx?_eq_some_iff_getElem.mp hfind).2.1
  rw [Bool.and_eq_true, decide_eq_true_eq] at hok
  obtain ⟨hstats, htarget⟩ := hdests _ (List.getElem_mem hlt)
  refine ⟨hq.planned hget hobj hsrc hstats htarget hremaining hok.2 hmove,
    by rwa [move_byBackend hmove], fun d hd => ?_⟩
  rcases List.mem_or_eq_of_mem_set hd with hd | rfl
  · exact hdests d hd
  · exact ⟨hstats, htarget⟩

theorem spreadObjects_reaches {destinations : List BackendBalance} {balance : Int}
    (hq : Reaches f batchSize q) (hget : q.byBackend src = some candidates)
    (hsub : objects ⊆ candidates) (hsrc : (f.stats src).isSome = true)
    (hdests : f.Receives destinations) :
    Reaches f batchSize (spreadObjects objects balance destinations q).2 ∧
      f.Receives (spreadObjects objects balance destinations q).1 := by
  induction objects generalizing q balance destinations with
  | nil => exact ⟨hq, hdests⟩
  | cons obj objects ih =>
    obtain ⟨hobj, hrest⟩ := List.cons_subset.mp hsub
    rw [spreadObjects]
    split_ifs with hstop
    · exact ⟨hq, hdests⟩
    · exact ih hq hget hrest hdests
    · cases hone : spreadObject obj destinations q with
      | none => exact ih hq hget hrest hdests
      | some r =>
        obtain ⟨hq1, hget1, hdests1⟩ :=
          spreadObject_reaches hq hget hobj hsrc hdests (by omega) hone
        exact ih hq1 hget1 hrest hdests1

variable {sources destinations : List BackendBalance}

theorem spreadLoop_reaches {i : Nat} (hq : Reaches f batchSize q)
    (hsources : ∀ s ∈ sources, (f.stats s.name).isSome = true) (hdests : f.Receives destinations) :
    ∃ q', Reaches f batchSize q' ∧
      q'.plan = (f.spreadLoop batchSize i sources destinations q).1 := by
  induction sources generalizing i destinations q with
  | nil => exact ⟨q, hq, rfl⟩
  | cons src sources ih =>
    obtain ⟨hsrc, hrest⟩ := List.forall_mem_cons.mp hsources
    rw [Fleet.spreadLoop]
    split_ifs
    · exact ⟨q, hq, rfl⟩
    · cases hspread : f.spreadMovesFromSource batchSize src destinations q with
      | error e => exact ⟨_, .start, rfl⟩
      | ok r =>
        obtain ⟨⟨objects, q1⟩, hfetch, h⟩ := exists_of_bind_ok hspread
        cases h
        obtain ⟨hq2, hdests2⟩ := spreadObjects_reaches (hq.fetched hfetch)
          (forBackend_ok hfetch).1 (List.Subset.refl _) hsrc hdests
        exact ih hq2 hrest hdests2

/-! ### Both -/

theorem limitedByUtilDesc_known {name : String}
    (h : name ∈ f.limitedByUtilDesc (f.start batchSize).state) :
    (f.stats name).isSome = true := by
  have hlimit := of_decide_eq_true (List.mem_filter.mp ((f.cmp.sortFunc_perm _ _).subset h)).2
  cases hstat : f.stats name with
  | none =>
    refine absurd ?_ hlimit
    simp [Fleet.start, newPlanState, Stats.get, hstat]
  | some stat => rfl

theorem computeSpreadBalances_known (h : f.computeSpreadBalances = some (sources, destinations)) :
    ∀ b ∈ sources ++ destinations, (f.stats b.name).isSome = true := by
  unfold Fleet.computeSpreadBalances at h
  extract_lets known totalUsed totalLimit balances at h
  split_ifs at h
  cases h
  intro b hb
  have hb : b ∈ balances := by
    rcases List.mem_append.mp hb with hb | hb
    · exact (List.mem_filter.mp ((f.cmp.sortFunc_perm _ _).subset hb)).1
    · exact (List.mem_filter.mp ((f.cmp.sortFunc_perm _ _).subset hb)).1
  obtain ⟨e, he, rfl⟩ := List.mem_map.mp hb
  obtain ⟨name, -, hname⟩ := List.mem_filterMap.mp he
  obtain ⟨stat, hstat, rfl⟩ := Option.map_eq_some_iff.mp hname
  simp [hstat]

theorem planned_reaches (f : Fleet) (batchSize : Int) (strategy : Strategy) :
    ∃ q, Reaches f batchSize q ∧ q.plan = (f.planned batchSize strategy).1 := by
  cases strategy with
  | pack => exact packLoop_reaches .start fun b hb => limitedByUtilDesc_known hb
  | spread =>
    change ∃ q, _ ∧ _ = (f.planSpreadEven batchSize).1
    unfold Fleet.planSpreadEven
    cases hbalances : f.computeSpreadBalances with
    | none => exact ⟨_, .start, rfl⟩
    | some r =>
      have hknown := computeSpreadBalances_known hbalances
      refine spreadLoop_reaches .start (fun s hs => hknown s (List.mem_append_left _ hs))
        fun d hd => ?_
      obtain ⟨hd, htakes⟩ := List.mem_filter.mp hd
      exact ⟨hknown d (List.mem_append_right _ hd), (takes_iff .start).mp htakes⟩

end Reaches

/-! ## Plans can be run -/

/-- The object lists and copy maps agree with where the keys live. -/
structure Consistent (store : RebalancerStore) (holds : String → String → Prop) : Prop where
  listed : ∀ {src : String} {limit : Int} {objects : List ObjectLocation},
    store.listObjectsByBackend src limit = .ok objects →
      ∀ obj ∈ objects, obj.backendName = src ∧ holds obj.objectKey src
  mapped : ∀ {keys : List String} {copyMap : List (String × List String)},
    store.getObjectBackendsForKeys keys = .ok copyMap →
      ∀ key ∈ keys, ∀ b, holds key b → ⟨key, b⟩ ∈ copiesOf copyMap

/-- The bytes on each backend after some moves. -/
def Fleet.stored (f : Fleet) (moves : List RebalanceMove) : String → Int :=
  after moved (fun b => (f.stats.get b).bytesUsed) moves

section Sound

variable (f : Fleet) (batchSize : Int) (holds : String → String → Prop)

/-- Few enough moves, each taking and making a copy once, from a backend that holds the key to a
write target that does not and has the room when it runs. -/
structure Executable (plan : List RebalanceMove) : Prop where
  within : (plan.length : Int) ≤ max batchSize 0
  takenOnce : (plan.map RebalanceMove.taken).Nodup
  madeOnce : (plan.map RebalanceMove.made).Nodup
  free : ∀ m ∈ plan, holds m.source.objectKey m.source.backendName ∧
    ¬holds m.source.objectKey m.toBackend ∧ m.toBackend ≠ m.source.backendName
  targets : ∀ m ∈ plan, m.toBackend ∈ f.writeTargets
  fits : ∀ moves m, moves ++ [m] <+: plan → f.stored (moves ++ [m]) m.toBackend +
    (f.stats.get m.toBackend).unrecorded ≤ (f.stats.get m.toBackend).bytesLimit

/-- What every step of the planner keeps. -/
structure Sound (q : Planning) : Prop where
  stored : q.state.simUsed = f.stored q.plan
  remaining : q.state.remaining = batchSize - q.plan.length
  candidates : ∀ src objects, q.byBackend src = some objects → ∀ obj ∈ objects,
    obj.backendName = src ∧ holds obj.objectKey src ∧
      ∀ b, holds obj.objectKey b → ⟨obj.objectKey, b⟩ ∈ q.state.holders
  booked : ∀ m ∈ q.plan, m.taken ∈ q.state.leaving ∧ m.made ∈ q.state.holders
  known : ∀ m ∈ q.plan,
    (f.stats m.source.backendName).isSome = true ∧ (f.stats m.toBackend).isSome = true
  executable : Executable f batchSize holds q.plan

variable {f batchSize holds} {q q' : Planning} {src dest : String} {obj : ObjectLocation}
  {objects : List ObjectLocation}

theorem Sound.start : Sound f batchSize holds (f.start batchSize) where
  stored := rfl
  remaining := by simp [Fleet.start, newPlanState]
  candidates src objects h := by cases h
  booked m hm := by cases hm
  known m hm := by cases hm
  executable :=
    { within := by simp [Fleet.start]
      takenOnce := List.nodup_nil
      madeOnce := List.nodup_nil
      free := fun m hm => by cases hm
      targets := fun m hm => by cases hm
      fits := fun moves m h => by simp [Fleet.start] at h }

theorem Sound.fetched (h : Sound f batchSize holds q) (hstore : Consistent f.store holds)
    (hfetch : f.forBackend batchSize q src = .ok (objects, q')) : Sound f batchSize holds q' := by
  obtain ⟨-, rfl | ⟨copyMap, hlist, hmap, rfl⟩⟩ := forBackend_ok hfetch
  · exact h
  refine ⟨h.stored, h.remaining, fun src' objects' hget obj hobj => ?_, fun m hm =>
    ⟨(h.booked m hm).1, List.mem_append_left _ (h.booked m hm).2⟩, h.known, h.executable⟩
  change update q.byBackend src (some objects) src' = _ at hget
  by_cases hsame : src' = src
  · rw [hsame, update_self, Option.some.injEq] at hget
    subst hsame hget
    obtain ⟨hname, hholds⟩ := hstore.listed hlist obj hobj
    exact ⟨hname, hholds, fun b hb => List.mem_append_right _
      (hstore.mapped hmap _ (List.mem_map_of_mem hobj) b hb)⟩
  · rw [update_of_ne hsame] at hget
    obtain ⟨hname, hholds, hall⟩ := h.candidates src' objects' hget obj hobj
    exact ⟨hname, hholds, fun b hb => List.mem_append_left _ (hall b hb)⟩

variable {used : String → Int}

theorem moved_dest {m : RebalanceMove} (h : m.toBackend ≠ m.source.backendName) :
    moved used m m.toBackend = used m.toBackend + m.source.sizeBytes := by
  rw [moved, update_of_ne h, update_self]

theorem nodup_map_concat {α β : Type} {g : α → β} {l : List α} {a : α} {s : List β}
    (hl : (l.map g).Nodup) (hs : ∀ x ∈ l, g x ∈ s) (ha : g a ∉ s) :
    ((l ++ [a]).map g).Nodup := by
  rw [List.map_append, List.nodup_append]
  refine ⟨hl, List.nodup_singleton _, fun b hb b' hb' he => ha ?_⟩
  obtain ⟨x, hx, rfl⟩ := List.mem_map.mp hb
  rw [← List.mem_singleton.mp hb', ← he]
  exact hs x hx

theorem Sound.planned (h : Sound f batchSize holds q) (hq : Reaches f batchSize q)
    (hget : q.byBackend src = some objects) (hobj : obj ∈ objects)
    (hsrc : (f.stats src).isSome = true) (hdest : (f.stats dest).isSome = true)
    (htarget : dest ∈ f.writeTargets) (hremaining : 0 < q.state.remaining)
    (hroom : obj.sizeBytes ≤ q.state.room dest) (hmove : q.move obj dest = some q') :
    Sound f batchSize holds q' := by
  obtain ⟨hmovable, -, rfl⟩ := move_eq_some.mp hmove
  obtain ⟨rfl, hholds, hall⟩ := h.candidates src objects hget obj hobj
  rw [PlanState.movable, Bool.and_eq_true, decide_eq_true_eq, decide_eq_true_eq] at hmovable
  obtain ⟨hstay, hnew⟩ := hmovable
  have hfree : ¬holds obj.objectKey dest := fun hb => hnew (hall dest hb)
  have hother : dest ≠ obj.backendName := fun he => hfree (he ▸ hholds)
  have hstored : moved q.state.simUsed ⟨obj, dest⟩ = f.stored (q.plan ++ [⟨obj, dest⟩]) := by
    rw [h.stored, Fleet.stored, Fleet.stored, after_append, after_cons, after_nil]
  have hlength : ((q.plan ++ [(⟨obj, dest⟩ : RebalanceMove)]).length : Int) =
      q.plan.length + 1 := by simp
  have hleft := h.remaining
  refine ⟨hstored, by rw [hlength]; change _ - 1 = _; omega, fun src' objects' hget' o ho => ?_,
    List.forall_mem_append.mpr ⟨fun m hm => ?_, List.forall_mem_singleton.mpr ⟨?_, ?_⟩⟩,
    List.forall_mem_append.mpr ⟨h.known, List.forall_mem_singleton.mpr ⟨hsrc, hdest⟩⟩, ?_⟩
  · obtain ⟨hname, ho, hob⟩ := h.candidates src' objects' hget' o ho
    exact ⟨hname, ho, fun b hb => List.mem_append_left _ (hob b hb)⟩
  · exact ⟨List.mem_append_left _ (h.booked m hm).1, List.mem_append_left _ (h.booked m hm).2⟩
  · exact List.mem_append_right _ List.mem_cons_self
  · exact List.mem_append_right _ List.mem_cons_self
  · obtain ⟨hwithin, htaken, hmade, hfrees, htargets, hfits⟩ := h.executable
    refine ⟨by rw [hlength]; omega, nodup_map_concat htaken (fun m hm => (h.booked m hm).1) hstay,
      nodup_map_concat hmade (fun m hm => (h.booked m hm).2) hnew,
      List.forall_mem_append.mpr ⟨hfrees, List.forall_mem_singleton.mpr ⟨hholds, hfree, hother⟩⟩,
      List.forall_mem_append.mpr ⟨htargets, List.forall_mem_singleton.mpr htarget⟩,
      fun moves m hpre => ?_⟩
    rcases List.prefix_concat_iff.mp hpre with heq | hpre
    · obtain ⟨rfl, rfl⟩ := List.append_inj' heq rfl |>.imp id fun h => (List.cons.inj h).1
      rw [← hstored, moved_dest hother]
      rw [PlanState.room, hq.frame.1] at hroom
      change q.state.simUsed dest + obj.sizeBytes + (f.stats.get dest).unrecorded ≤
        (f.stats.get dest).bytesLimit
      omega
    · exact hfits moves m hpre

theorem Reaches.sound (hstore : Consistent f.store holds) (h : Reaches f batchSize q) :
    Sound f batchSize holds q := by
  induction h with
  | start => exact .start
  | fetched _ hfetch ih => exact ih.fetched hstore hfetch
  | planned hq hget hobj hsrc hdest htarget hremaining hroom hmove ih =>
    exact ih.planned hq hget hobj hsrc hdest htarget hremaining hroom hmove

theorem sum_update_add {fleet : Finset String} {b : String} (d : Int) (hb : b ∈ fleet) :
    ∑ c ∈ fleet, update used b (used b + d) c = ∑ c ∈ fleet, used c + d := by
  rw [Finset.sum_update_of_mem hb, Finset.sum_eq_add_sum_sdiff_singleton_of_mem hb used]
  omega

theorem sum_moved {fleet : Finset String} {moves : List RebalanceMove}
    (h : ∀ m ∈ moves, m.source.backendName ∈ fleet ∧ m.toBackend ∈ fleet) :
    ∑ b ∈ fleet, after moved used moves b = ∑ b ∈ fleet, used b := by
  induction moves generalizing used with
  | nil => rfl
  | cons m moves ih =>
    obtain ⟨⟨hsrc, hdest⟩, hrest⟩ := List.forall_mem_cons.mp h
    rw [after_cons, ih hrest, moved, sub_eq_add_neg, sum_update_add _ hsrc, sum_update_add _ hdest]
    omega

/-- **Plans are executable**: at most the batch's moves, every copy taken and made once, to write
targets that do not have the key, and every destination within its limit when its move runs. -/
theorem plans_executable (f : Fleet) (holds : String → String → Prop)
    (hstore : Consistent f.store holds) (batchSize : Int) (strategy : Strategy) :
    Executable f batchSize holds (f.planned batchSize strategy).1 ∧
    ∀ fleet : Finset String, (∀ name, (f.stats name).isSome = true → name ∈ fleet) →
      ∀ moves, moves <+: (f.planned batchSize strategy).1 →
        ∑ b ∈ fleet, f.stored moves b = ∑ b ∈ fleet, (f.stats.get b).bytesUsed := by
  obtain ⟨q, hq, hplan⟩ := planned_reaches f batchSize strategy
  have hsound := hq.sound hstore
  rw [← hplan]
  refine ⟨hsound.executable, fun fleet hfleet moves hpre => ?_⟩
  have hknown : ∀ m ∈ moves, m.source.backendName ∈ fleet ∧ m.toBackend ∈ fleet := fun m hm =>
    (hsound.known m (hpre.subset hm)).imp (hfleet _) (hfleet _)
  exact sum_moved hknown

def exactComparisons : Comparisons where
  ratioGE a b := decide (b.1 * a.2 ≤ a.1 * b.2)
  compareRatio a b := compare (a.1 * b.2) (b.1 * a.2)
  targetBytes used limit share := used * share / limit
  sortFunc cmp l := l.insertionSort fun a b => cmp a b ≠ .gt
  sortFunc_perm _ l := List.perm_insertionSort _ l

/-- Two backends of 100 bytes, with 80 used on one and 20 on the other, which has two objects of
ten bytes. -/
def twoBackends (usage : Option UsageView) : Fleet where
  cmp := exactComparisons
  store :=
    { listObjectsByBackend := fun src _ => .ok (if src = "b" then
        [{ objectKey := "k", backendName := "b", storageKey := "k", sizeBytes := 10 },
          { objectKey := "l", backendName := "b", storageKey := "l", sizeBytes := 10 }] else [])
      getObjectBackendsForKeys := fun keys => .ok (keys.map fun key => (key, ["b"])) }
  order := ["b", "a"]
  writeTargets := ["a"]
  usage := usage
  stats name := if name = "a" then some { bytesUsed := 80, bytesLimit := 100 }
    else if name = "b" then some { bytesUsed := 20, bytesLimit := 100 } else none

theorem twoBackends_consistent (usage : Option UsageView) :
    Consistent (twoBackends usage).store fun _ b => b = "b" where
  listed {src limit objects} h obj hobj := by
    cases h
    split_ifs at hobj with hsrc
    · subst hsrc
      simp only [List.mem_cons, List.not_mem_nil, or_false] at hobj
      obtain rfl | rfl := hobj
      · exact ⟨rfl, rfl⟩
      · exact ⟨rfl, rfl⟩
    · cases hobj
  mapped {keys copyMap} h key hkey b hb := by
    cases h
    subst hb
    exact List.mem_flatMap.mpr ⟨_, List.mem_map_of_mem hkey, List.mem_cons_self⟩

theorem two_objects_packed :
    ((twoBackends none).planned 5 .pack).1.map RebalanceMove.made = [⟨"k", "a"⟩, ⟨"l", "a"⟩] ∧
    Executable (twoBackends none) 5 (fun _ b => b = "b") ((twoBackends none).planned 5 .pack).1 :=
  ⟨by decide +kernel, (plans_executable _ _ (twoBackends_consistent none) 5 .pack).1⟩

end Sound

end S3Orchestrator.Rebalance
