import S3Orchestrator.Lib.Run
import S3Orchestrator.Lib.Table
import S3Orchestrator.Store.Types

/-!
# Usage counters in memory

Charges and flushes run beside each other. A charge looks its accumulator up under the registry's
lock and adds to it afterwards, one atomic counter after the other. A flush takes the whole map in
one swap, reads the accumulators it held, counter by counter, and hands what it read to the store,
or puts it back where the store did not apply it.

* **`usage_balance`**;
* **`usage_conserved`**: nothing is lost where every step is undisturbed.
-/

namespace S3Orchestrator

open RowStore List

/-! ## Usage -/

/-- One of the amounts that usage is counted in. -/
inductive Cell
  | requests
  | egress
  | ingress
  | pool (name : String)
  deriving DecidableEq

def Cell.isPool : Cell → Bool
  | .pool _ => true
  | _ => false

structure BucketKey where
  bucket : Time
  backend : String
  workload : String
  deriving DecidableEq

/-- What one call adds to the usage of a backend. -/
structure Charge where
  apiRequests : Int := 0
  egressBytes : Int := 0
  ingressBytes : Int := 0
  workload : String := ""
  pools : List String := []
  poolN : Int := 0

namespace Charge

/-- A charge that `Charge` drops. -/
def empty (c : Charge) : Bool :=
  decide (c.apiRequests ≤ 0 ∧ c.egressBytes ≤ 0 ∧ c.ingressBytes ≤ 0 ∧
    (c.pools = [] ∨ c.poolN ≤ 0))

/-- What a charge adds to a cell. -/
def amount (c : Charge) : Cell → Int
  | .requests => c.apiRequests
  | .egress => c.egressBytes
  | .ingress => c.ingressBytes
  | .pool name => c.pools.count name * c.poolN

def NonNeg (c : Charge) : Prop :=
  0 ≤ c.apiRequests ∧ 0 ≤ c.egressBytes ∧ 0 ≤ c.ingressBytes ∧ 0 ≤ c.poolN
  deriving Decidable

end Charge

abbrev Usage : Type := List (Cell × Int)

/-- The amount of a cell in a reading. -/
def Usage.on (u : Usage) (cell : Cell) : Int := sumOn Prod.snd (fun e => decide (e.1 = cell)) u

def Usage.isZero (u : Usage) : Bool := u.all fun e => decide (e.2 = 0)

/-- The amount of a cell in the readings of a bucket. -/
def usageIn (entries : List (BucketKey × Usage)) (k : BucketKey) (cell : Cell) : Int :=
  sumOn (fun e => Usage.on e.2 cell) (fun e => decide (e.1 = k)) entries

/-! ## Adding to an accumulator -/

/-- A step of a call that holds an accumulator: add to a counter, or look up that of a pool to add
to next. -/
inductive CounterAct
  | add (cell : Cell) (n : Int)
  | pool (name : String) (n : Int)
  deriving DecidableEq

/-- The cell that an act adds to. -/
def CounterAct.cell : CounterAct → Cell
  | .add cell _ => cell
  | .pool name _ => .pool name

def CounterAct.amount : CounterAct → Int
  | .add _ n => n
  | .pool _ n => n

/-- What some acts add to a cell. -/
def actsOn (acts : List CounterAct) (cell : Cell) : Int :=
  sumOn CounterAct.amount (fun a => decide (a.cell = cell)) acts

def addStat (api egress ingress : Int) : List CounterAct :=
  [.add .requests api, .add .egress egress, .add .ingress ingress]

/-- The additions a charge makes, one atomic step each. -/
def Charge.acts (c : Charge) : List CounterAct :=
  addStat c.apiRequests c.egressBytes c.ingressBytes ++
    if c.poolN ≤ 0 then [] else c.pools.map fun name => .pool name c.poolN

/-- The additions that put a reading back. -/
def settleActs (u : Usage) : List CounterAct :=
  u.map fun e =>
    match e with
    | (.pool name, n) => .pool name n
    | (cell, n) => .add cell n

/-! ## Accumulators -/

/-- Where an accumulator is: in the registry's map, in the map a flush took, being read, or read. A
flush that is reading has counters to load next, and, once the totals are loaded, holds the pools'
lock. -/
inductive Phase
  | live
  | taken (flush : Nat)
  | reading (flush : Nat) (todo : List Cell) (ranging : Bool) (u : Usage)
  | gone
  deriving DecidableEq

/-- The counters of a bucket, and how far a flush has come with them. -/
structure Accumulator where
  key : BucketKey
  cells : Cell → Int := fun _ => 0
  pools : List String := []
  phase : Phase := .live

namespace Accumulator

def isLive (a : Accumulator) : Bool := decide (a.phase = .live)

/-- A flush has taken the accumulator and not read all of it. -/
def awaits (flush : Nat) (a : Accumulator) : Bool :=
  match a.phase with
  | .taken f => decide (f = flush)
  | .reading f _ _ _ => decide (f = flush)
  | _ => false

def isReading (flush : Nat) (a : Accumulator) : Bool :=
  match a.phase with
  | .reading f _ _ _ => decide (f = flush)
  | _ => false

def ranging (a : Accumulator) : Bool :=
  match a.phase with
  | .reading _ _ r _ => r
  | _ => false

/-- The cell will still be read, or counts as it stands. -/
def unread (a : Accumulator) (cell : Cell) : Bool :=
  match a.phase with
  | .live => true
  | .taken _ => true
  | .reading _ todo ranging _ => decide (cell ∈ todo) || (!ranging && cell.isPool)
  | .gone => false

/-- What a flush has read so far. -/
def readings (a : Accumulator) : Usage :=
  match a.phase with
  | .reading _ _ _ u => u
  | _ => []

/-- What an accumulator holds of a cell, in its counters or in a reading. -/
def held (a : Accumulator) (cell : Cell) : Int :=
  Usage.on a.readings cell + if a.unread cell then a.cells cell else 0

/-- One addition. A pool that is new to the map waits while the map is ranged over. -/
def perform (a : Accumulator) : CounterAct → Option (Accumulator × List CounterAct)
  | .add cell n => some ({ a with cells := Function.update a.cells cell (a.cells cell + n) }, [])
  | .pool name n =>
    if name ∈ a.pools then some (a, [.add (.pool name) n])
    else if a.ranging then none
    else some ({ a with pools := a.pools ++ [name] }, [.add (.pool name) n])

/-- A flush takes every live accumulator out of the registry. -/
def swap (flush : Nat) (a : Accumulator) : Accumulator :=
  if a.isLive then { a with phase := .taken flush } else a

def readsNext (a : Accumulator) (cell : Cell) : Bool :=
  match a.phase with
  | .reading _ (next :: _) _ _ => decide (cell = next)
  | .reading _ [] false _ => cell.isPool && !(a.pools.map Cell.pool).contains cell
  | _ => false

end Accumulator

/-! ## Calls -/

/-- How far a call has come with its additions. -/
inductive Work
  | idle
  | lookup (key : BucketKey) (acts : List CounterAct)
  | adding (key : BucketKey) (id : Nat) (acts : List CounterAct)
  deriving DecidableEq

/-- A charge or a flush under way. A flush has batches read and not applied, and entries to be put
back. -/
structure Call where
  work : Work := .idle
  batches : List (BucketKey × Usage) := []
  back : List (BucketKey × Usage) := []
  deriving DecidableEq

def Work.actsFor (w : Work) (id : Nat) : List CounterAct :=
  match w with
  | .adding _ i acts => if i = id then acts else []
  | _ => []

/-- The counters of an instance, with the calls under way and what the store was given. -/
structure CounterSystem where
  backends : List String
  heap : List Accumulator := []
  calls : List Call := []
  store : BucketKey → Cell → Int := fun _ _ => 0

/-- One atomic step of a charge or a flush. -/
inductive CounterEvent
  | charge (backend : String) (bucket : Time) (c : Charge)
  | flush
  | work (call : Nat)
  | read (flush id : Nat)
  | load (flush id : Nat)
  | apply (flush : Nat) (backend : String) (ok : Bool)
  | settle (flush entry : Nat)

/-- The accumulator of the key, created on first use. A look that finds none changes nothing, so
this is one step. -/
def registryGet (heap : List Accumulator) (key : BucketKey) : List Accumulator × Nat :=
  match heap.findIdx? fun a => a.isLive && decide (a.key = key) with
  | some id => (heap, id)
  | none => (heap ++ [{ key := key }], heap.length)

namespace CounterSystem

/-- The next step of a call that adds: find its accumulator, or add to it. -/
def stepWork (s : CounterSystem) (i : Nat) (call : Call) : CounterSystem :=
  match call.work with
  | .idle => s
  | .lookup key acts =>
    let found := registryGet s.heap key
    { s with
      heap := found.1
      calls := s.calls.set i { call with work := .adding key found.2 acts } }
  | .adding _ _ [] => { s with calls := s.calls.set i { call with work := .idle } }
  | .adding key id (act :: acts) =>
    match s.heap[id]? with
    | none => s
    | some a =>
      match a.perform act with
      | none => s
      | some (a', more) =>
        { s with
          heap := s.heap.set id a'
          calls := s.calls.set i { call with work := .adding key id (more ++ acts) } }

/-- A flush reads the next cell of an accumulator it has taken. -/
def stepLoad (s : CounterSystem) (i id : Nat) (a : Accumulator) (call : Call) : CounterSystem :=
  match a.phase with
  | .reading f (cell :: todo) ranging u =>
    if f = i then
      { s with
        heap := s.heap.set id
          { a with phase := .reading f todo ranging (u ++ [(cell, a.cells cell)]) } }
    else s
  | .reading f [] false u =>
    if f = i then
      { s with
        heap := s.heap.set id { a with phase := .reading f (a.pools.map Cell.pool) true u } }
    else s
  | .reading f [] true u =>
    if f = i then
      { s with
        heap := s.heap.set id { a with phase := .gone }
        calls := s.calls.set i
          { call with batches := call.batches ++ if u.isZero then [] else [(a.key, u)] } }
    else s
  | _ => s

/-- The store takes the batch of a backend, or it is to be put back. -/
def stepApply (s : CounterSystem) (i : Nat) (call : Call) (backend : String) (ok : Bool) :
    CounterSystem :=
  let batch := call.batches.filter fun e => decide (e.1.backend = backend)
  let rest := call.batches.filter fun e => !decide (e.1.backend = backend)
  if ok then
    { s with
      store := fun k cell => s.store k cell + usageIn batch k cell
      calls := s.calls.set i { call with batches := rest } }
  else { s with calls := s.calls.set i { call with batches := rest, back := batch } }

/-- A flush has read all it took. -/
def ready (s : CounterSystem) (i : Nat) (call : Call) : Bool :=
  decide (call.work = .idle) && decide (call.back = []) && s.heap.all fun a => !a.awaits i

/-- One step. A step whose call is elsewhere, or that a lock holds back, changes nothing. -/
def step (s : CounterSystem) : CounterEvent → CounterSystem
  | .charge backend bucket c =>
    let work := if c.empty = true ∨ backend ∉ s.backends then Work.idle
      else .lookup ⟨bucket, backend, c.workload⟩ c.acts
    { s with calls := s.calls ++ [{ work }] }
  | .flush =>
    { s with heap := s.heap.map (Accumulator.swap s.calls.length), calls := s.calls ++ [{}] }
  | .work i =>
    match s.calls[i]? with
    | some call => s.stepWork i call
    | none => s
  | .read i id =>
    match s.heap[id]? with
    | some a =>
      if a.phase = .taken i ∧ s.heap.all (fun a => !a.isReading i) = true then
        { s with
          heap := s.heap.set id
            { a with phase := .reading i [.requests, .egress, .ingress] false [] } }
      else s
    | none => s
  | .load i id =>
    match s.heap[id]?, s.calls[i]? with
    | some a, some call => s.stepLoad i id a call
    | _, _ => s
  | .apply i backend ok =>
    match s.calls[i]? with
    | some call => if s.ready i call then s.stepApply i call backend ok else s
    | none => s
  | .settle i j =>
    match s.calls[i]? with
    | some call =>
      match call.back[j]? with
      | some e =>
        if call.work = .idle then
          { s with
            calls := s.calls.set i
              { call with
                work := .lookup e.1 (settleActs e.2)
                back := call.back.eraseIdx j } }
        else s
      | none => s
    | none => s

/-- No call is under way. -/
def Finished (s : CounterSystem) : Prop :=
  (∀ call ∈ s.calls, call = {}) ∧ ∀ a ∈ s.heap, a.phase = .live ∨ a.phase = .gone
  deriving Decidable

/-- What the registry shows of a cell. -/
def inCounters (s : CounterSystem) (k : BucketKey) (cell : Cell) : Int :=
  sumOn (fun a => a.cells cell) (fun a => a.isLive && decide (a.key = k)) s.heap

/-- What an event charges to a cell. -/
def charged (k : BucketKey) (cell : Cell) : CounterEvent → Int
  | .charge backend bucket c => if ⟨bucket, backend, c.workload⟩ = k then c.amount cell else 0
  | _ => 0

/-- The charge is one the counters take, and a flush reads no counter a call under way is still to
add to. -/
def Undisturbed (s : CounterSystem) : CounterEvent → Prop
  | .charge backend _ c => backend ∈ s.backends ∧ c.NonNeg
  | .load _ id =>
    ∀ a ∈ s.heap[id]?, ∀ call ∈ s.calls, ∀ act ∈ call.work.actsFor id,
      a.readsNext act.cell = false
  | _ => True

end CounterSystem

/-! ## Amounts -/

@[simp] theorem Usage.on_nil (cell : Cell) : Usage.on [] cell = 0 := rfl

variable {u : Usage} {w : Work} {f : Nat} {calls : List Call}

theorem Usage.on_append (u v : Usage) (cell : Cell) :
    Usage.on (u ++ v) cell = Usage.on u cell + Usage.on v cell := sumOn_append _ _ u v

theorem Usage.on_singleton (c : Cell) (n : Int) (cell : Cell) :
    Usage.on [(c, n)] cell = if c = cell then n else 0 := by
  rw [Usage.on, sumOn_cons, sumOn_nil, Int.add_zero]
  by_cases h : c = cell <;> simp

theorem Usage.on_of_isZero (h : u.isZero = true) (cell : Cell) : u.on cell = 0 :=
  sumOn_eq_zero _ _ fun e he _ => of_decide_eq_true (all_eq_true.mp h e he)

@[simp] theorem actsOn_nil (cell : Cell) : actsOn [] cell = 0 := rfl

theorem actsOn_cons (act : CounterAct) (acts : List CounterAct) (cell : Cell) :
    actsOn (act :: acts) cell = (if act.cell = cell then act.amount else 0) + actsOn acts cell := by
  rw [actsOn, sumOn_cons]
  by_cases h : act.cell = cell <;> simp [actsOn]

theorem actsOn_append (acts acts' : List CounterAct) (cell : Cell) :
    actsOn (acts ++ acts') cell = actsOn acts cell + actsOn acts' cell :=
  sumOn_append _ _ acts acts'

theorem actsOn_settleActs (u : Usage) (cell : Cell) : actsOn (settleActs u) cell = u.on cell := by
  rw [actsOn, settleActs, sumOn_map, Usage.on]
  refine sumOn_congr _ _ fun e _ => ?_
  obtain ⟨c, n⟩ := e
  cases c <;> exact ⟨rfl, fun _ => rfl⟩

theorem actsOn_pool (name : String) (n : Int) (cell : Cell) :
    actsOn [.add (.pool name) n] cell = actsOn [.pool name n] cell := by
  rw [actsOn_cons, actsOn_cons]
  rfl

def poolShare (pools : List String) (n : Int) : Cell → Int
  | .pool name => pools.count name * n
  | _ => 0

theorem actsOn_pools (pools : List String) (n : Int) (cell : Cell) :
    actsOn (pools.map fun name => CounterAct.pool name n) cell = poolShare pools n cell := by
  induction pools with
  | nil => cases cell <;> simp [poolShare]
  | cons p pools ih =>
    rw [map_cons, actsOn_cons, ih]
    cases cell with
    | pool name =>
      by_cases h : p = name
      · simp [h, CounterAct.cell, CounterAct.amount, poolShare]
        ring
      · simp [h, CounterAct.cell, poolShare]
    | _ => simp [CounterAct.cell, poolShare]

/-- Every accumulator of the heap is still there, changed as `R` allows. -/
def Kept (R : Accumulator → Accumulator → Prop) (heap heap' : List Accumulator) : Prop :=
  ∀ (id : Nat) (a : Accumulator), heap[id]? = some a → ∃ a', heap'[id]? = some a' ∧ R a a'

theorem Charge.NonNeg.actsOn {c : Charge} (h : c.NonNeg) (cell : Cell) :
    S3Orchestrator.actsOn c.acts cell = c.amount cell := by
  have hpools : S3Orchestrator.actsOn
      (if c.poolN ≤ 0 then [] else c.pools.map fun name => CounterAct.pool name c.poolN) cell =
      poolShare c.pools c.poolN cell := by
    split_ifs with hn
    · have hzero : c.poolN = 0 := Int.le_antisymm hn h.2.2.2
      cases cell <;> simp [hzero, poolShare]
    · exact actsOn_pools _ _ _
  rw [Charge.acts, actsOn_append, hpools]
  cases cell <;> simp [addStat, actsOn_cons, CounterAct.cell, CounterAct.amount, Charge.amount,
    poolShare]

theorem Charge.NonNeg.amount_of_empty {c : Charge} (h : c.NonNeg) (hempty : c.empty = true)
    (cell : Cell) : c.amount cell = 0 := by
  obtain ⟨h1, h2, h3, h4⟩ := of_decide_eq_true hempty
  obtain ⟨g1, g2, g3, g4⟩ := h
  cases cell with
  | requests => exact Int.le_antisymm h1 g1
  | egress => exact Int.le_antisymm h2 g2
  | ingress => exact Int.le_antisymm h3 g3
  | pool name =>
    rw [Charge.amount]
    rcases h4 with hnil | hn
    · simp [hnil]
    · simp [Int.le_antisymm hn g4]

/-! ## What is under way -/

/-- What a call has yet to add where it will be read. -/
def Work.pending (heap : List Accumulator) (w : Work) (k : BucketKey) (cell : Cell) : Int :=
  match w with
  | .idle => 0
  | .lookup key acts => if key = k then actsOn acts cell else 0
  | .adding key id acts =>
    if key = k ∧ (heap[id]?.any fun a => a.unread cell) = true then actsOn acts cell else 0

/-- What a call has yet to add, store or put back. -/
def Call.pending (heap : List Accumulator) (call : Call) (k : BucketKey) (cell : Cell) : Int :=
  call.work.pending heap k cell + usageIn call.batches k cell + usageIn call.back k cell

def Work.Ok (heap : List Accumulator) : Work → Prop
  | .idle => True
  | .lookup _ acts => ∀ name n, CounterAct.add (.pool name) n ∉ acts
  | .adding key id acts =>
    ∃ a, heap[id]? = some a ∧ a.key = key ∧
      ∀ name n, CounterAct.add (.pool name) n ∈ acts → name ∈ a.pools

def Accumulator.TodoOk (a : Accumulator) : Prop :=
  match a.phase with
  | .reading _ todo ranging _ => todo.Nodup ∧ (ranging = false → ∀ c ∈ todo, c.isPool = false)
  | _ => True

structure Accumulator.Ok (a : Accumulator) : Prop where
  nodup : a.pools.Nodup
  zero : ∀ name ∉ a.pools, a.cells (.pool name) = 0
  todo : a.TodoOk

/-- What every step keeps. -/
structure CounterSystem.Sound (s : CounterSystem) : Prop where
  heap : ∀ a ∈ s.heap, a.Ok
  works : ∀ call ∈ s.calls, call.work.Ok s.heap

namespace CounterSystem

/-- All there is of a cell: stored, held in an accumulator, or on its way. -/
def account (k : BucketKey) (cell : Cell) (s : CounterSystem) : Int :=
  s.store k cell + sumOn (fun a => a.held cell) (fun a => decide (a.key = k)) s.heap +
    sumOn (fun call => call.pending s.heap k cell) (fun _ => true) s.calls

/-- What an event takes out of the account. -/
def lost (k : BucketKey) (cell : Cell) (s : CounterSystem) : CounterEvent → Int
  | .charge backend bucket c =>
    if ⟨bucket, backend, c.workload⟩ = k then
      c.amount cell - if c.empty = true ∨ backend ∉ s.backends then 0 else actsOn c.acts cell
    else 0
  | .load i id =>
    match s.heap[id]?, s.calls[i]? with
    | some a, some _ =>
      if a.isReading i = true ∧ a.key = k ∧ a.readsNext cell = true then
        sumOn (fun call => actsOn (call.work.actsFor id) cell) (fun _ => true) s.calls
      else 0
    | _, _ => 0
  | _ => 0

end CounterSystem

/-! ## Changes of the heap -/

section Heap

variable {heap heap' : List Accumulator}

def Extends (heap heap' : List Accumulator) : Prop :=
  Kept (fun a a' => a'.key = a.key ∧ a.pools ⊆ a'.pools) heap heap'

theorem Work.Ok.extend (h : w.Ok heap) (hext : Extends heap heap') : w.Ok heap' := by
  cases w with
  | idle => trivial
  | lookup key acts => exact h
  | adding key id acts =>
    obtain ⟨a, ha, hkey, hpools⟩ := h
    obtain ⟨a', ha', hkey', hsub⟩ := hext id a ha
    exact ⟨a', ha', hkey'.trans hkey, fun name n hmem => hsub (hpools name n hmem)⟩

variable {R : Accumulator → Accumulator → Prop} {a a' : Accumulator}

theorem kept_set (hrefl : ∀ b, R b b) {id : Nat} (ha : heap[id]? = some a) (h : R a a') :
    Kept R heap (heap.set id a') := by
  intro j b hb
  by_cases hj : id = j
  · subst hj
    obtain rfl : a = b := Option.some.inj (ha.symm.trans hb)
    exact ⟨a', by rw [getElem?_set_self', ha]; rfl, h⟩
  · exact ⟨b, by rw [getElem?_set_ne hj, hb], hrefl b⟩

theorem kept_append (hrefl : ∀ b, R b b) (a : Accumulator) : Kept R heap (heap ++ [a]) := by
  intro j b hb
  have hlt : j < heap.length := (List.getElem?_eq_some_iff.mp hb).1
  exact ⟨b, by rw [List.getElem?_append_left hlt, hb], hrefl b⟩

theorem extends_set {id : Nat} (ha : heap[id]? = some a) (hkey : a'.key = a.key)
    (hpools : a.pools ⊆ a'.pools) : Extends heap (heap.set id a') :=
  kept_set (fun _ => ⟨rfl, fun _ h => h⟩) ha ⟨hkey, hpools⟩

abbrev SameUnread (cell : Cell) (a a' : Accumulator) : Prop := a'.unread cell = a.unread cell

theorem Work.pending_congr {k : BucketKey} {cell : Cell} (h : w.Ok heap)
    (hsame : Kept (SameUnread cell) heap heap') :
    w.pending heap' k cell = w.pending heap k cell := by
  cases w with
  | idle | lookup key acts => rfl
  | adding key id acts =>
    obtain ⟨a, ha, -, -⟩ := h
    obtain ⟨a', ha', hunread⟩ := hsame id a ha
    simp only [Work.pending, ha, ha', Option.any_some, hunread]

/-- What a read of the accumulator takes from the adds under way: those of its key that come to a
counter it has read. -/
theorem Work.pending_set {k : BucketKey} {cell : Cell} {id : Nat} {r : Bool}
    (h : w.Ok heap) (ha : heap[id]? = some a) (hr : r = true → a.unread cell = true)
    (hun : a'.unread cell = (a.unread cell && !r)) :
    w.pending (heap.set id a') k cell +
      (if a.key = k ∧ r = true then actsOn (w.actsFor id) cell else 0) = w.pending heap k cell := by
  cases w with
  | idle | lookup key acts => simp [Work.pending, Work.actsFor]
  | adding key j acts =>
    obtain ⟨b, hb, rfl, -⟩ := h
    by_cases hj : id = j
    · subst hj
      obtain rfl : a = b := Option.some.inj (ha.symm.trans hb)
      have hset : (heap.set id a')[id]? = some a' := by
        rw [getElem?_set_self', ha]
        rfl
      simp only [Work.pending, Work.actsFor, hset, ha, Option.any_some, hun]
      by_cases hk : a.key = k
      · cases r with
        | false => simp
        | true => simp [hk, hr rfl]
      · simp [hk]
    · simp [Work.pending, Work.actsFor, getElem?_set_ne hj, Ne.symm hj]

end Heap

/-! ## One accumulator -/

namespace Accumulator

variable {a a' : Accumulator}

theorem isLive_iff : a.isLive = true ↔ a.phase = .live := decide_eq_true_iff

theorem unread_of_live (h : a.phase = .live) (cell : Cell) : a.unread cell = true := by
  rw [unread, h]

theorem held_of_live (h : a.phase = .live) (cell : Cell) : a.held cell = a.cells cell := by
  rw [held, readings, unread_of_live h, h]
  simp

theorem held_of_gone (h : a.phase = .gone) (cell : Cell) : a.held cell = 0 := by
  rw [held, readings, unread, h]
  simp

theorem swap_spec (i : Nat) (a : Accumulator) : (a.swap i).key = a.key ∧
    (a.swap i).pools = a.pools ∧ (a.Ok → (a.swap i).Ok) ∧
    ∀ cell, (a.swap i).unread cell = a.unread cell ∧ (a.swap i).held cell = a.held cell := by
  unfold swap
  split_ifs with h
  · have h := isLive_iff.mp h
    refine ⟨rfl, rfl, fun hok => ⟨hok.nodup, hok.zero, trivial⟩, fun cell => ?_⟩
    rw [unread_of_live h, held_of_live h, held, readings, unread]
    simp
  · exact ⟨rfl, rfl, id, fun _ => ⟨rfl, rfl⟩⟩

theorem perform_ok {act : CounterAct} {more : List CounterAct}
    (h : a.perform act = some (a', more)) :
    a'.key = a.key ∧ a'.phase = a.phase ∧ a.pools ⊆ a'.pools ∧
      ∀ cell, a'.held cell + (if a.unread cell then actsOn more cell else 0) =
        a.held cell + if a.unread cell then actsOn [act] cell else 0 := by
  cases act with
  | add c n =>
    obtain ⟨rfl, rfl⟩ := Prod.mk.inj (Option.some.inj h)
    refine ⟨rfl, rfl, fun _ hp => hp, fun cell => ?_⟩
    have hheld (f : Cell → Int) : ({ a with cells := f } : Accumulator).held cell =
        Usage.on a.readings cell + if a.unread cell then f cell else 0 := rfl
    rw [hheld, held, actsOn_cons, actsOn_nil]
    cases a.unread cell with
    | false => simp
    | true =>
      by_cases hc : cell = c
      · subst hc
        simp [CounterAct.cell, CounterAct.amount, Int.add_assoc]
      · simp [CounterAct.cell, Function.update_of_ne hc, Ne.symm hc]
  | pool name n =>
    rw [perform] at h
    split_ifs at h
    · obtain ⟨rfl, rfl⟩ := Prod.mk.inj (Option.some.inj h)
      exact ⟨rfl, rfl, fun _ hp => hp, fun cell => by rw [actsOn_pool]⟩
    · obtain ⟨rfl, rfl⟩ := Prod.mk.inj (Option.some.inj h)
      refine ⟨rfl, rfl, fun _ hp => mem_append_left _ hp, fun cell => ?_⟩
      rw [actsOn_pool]
      rfl

theorem Ok.perform (h : a.Ok) {act : CounterAct} {more : List CounterAct}
    (hact : ∀ name n, act = .add (.pool name) n → name ∈ a.pools)
    (hp : a.perform act = some (a', more)) :
    a'.Ok ∧ ∀ name n, CounterAct.add (.pool name) n ∈ more → name ∈ a'.pools := by
  cases act with
  | add c n =>
    obtain ⟨rfl, rfl⟩ := Prod.mk.inj (Option.some.inj hp)
    refine ⟨⟨h.nodup, fun name hname => ?_, h.todo⟩, fun _ _ hmem => by cases hmem⟩
    by_cases hc : Cell.pool name = c
    · exact absurd (hact name n (by rw [hc])) hname
    · rw [← h.zero name hname]
      exact Function.update_of_ne hc _ _
  | pool name n =>
    have hmem : ∀ pools : List String, name ∈ pools → ∀ name' n',
        CounterAct.add (.pool name') n' ∈ [CounterAct.add (.pool name) n] → name' ∈ pools := by
      intro pools hin name' n' hmem
      obtain ⟨rfl, -⟩ : name' = name ∧ n' = n := by simpa using hmem
      exact hin
    rw [Accumulator.perform] at hp
    split_ifs at hp with hin
    · obtain ⟨rfl, rfl⟩ := Prod.mk.inj (Option.some.inj hp)
      exact ⟨h, hmem _ hin⟩
    · obtain ⟨rfl, rfl⟩ := Prod.mk.inj (Option.some.inj hp)
      refine ⟨⟨?_, fun name' hname => ?_, h.todo⟩, hmem _ (by simp)⟩
      · exact h.nodup.append (nodup_singleton _) (by simpa using hin)
      · exact h.zero name' fun h' => hname (mem_append_left _ h')

theorem begin_read {i : Nat} (h : a.phase = .taken i)
    (ha' : a' = { a with phase := .reading i [.requests, .egress, .ingress] false [] })
    (cell : Cell) : a'.held cell = a.held cell ∧ a'.unread cell = a.unread cell := by
  subst ha'
  have hbefore : a.unread cell = true := by rw [unread, h]
  have hafter : Accumulator.unread { a with
      phase := .reading i [.requests, .egress, .ingress] false [] } cell = true := by
    rw [unread]
    cases cell <;> simp [Cell.isPool]
  refine ⟨?_, hafter.trans hbefore.symm⟩
  rw [held, held, hbefore, hafter, readings, readings, h]

theorem Ok.load {cell : Cell} {todo : List Cell} {ranging : Bool} (h : a.Ok)
    (hphase : a.phase = .reading f (cell :: todo) ranging u)
    (ha' : a' = { a with phase := .reading f todo ranging (u ++ [(cell, a.cells cell)]) }) :
    a'.Ok ∧ (∀ c, a'.held c = a.held c) ∧ a.unread cell = true ∧
      ∀ c, a'.unread c = (a.unread c && !decide (c = cell)) := by
  have htodo := h.todo
  rw [TodoOk, hphase] at htodo
  obtain ⟨hnd, hstat⟩ := htodo
  obtain ⟨hnot, hnd⟩ := nodup_cons.mp hnd
  have hun : ∀ c, a.unread c = (decide (c ∈ cell :: todo) || (!ranging && c.isPool)) := fun c => by
    rw [unread, hphase]
  have hloses : ∀ c, a'.unread c = (a.unread c && !decide (c = cell)) := by
    intro c
    rw [hun, ha', unread]
    by_cases hc : c = cell
    · subst hc
      cases ranging with
      | false => simp [hnot, hstat rfl c mem_cons_self]
      | true => simp [hnot]
    · simp [hc]
  have hfirst : a.unread cell = true := by
    rw [hun]
    simp
  have hread : a.readings = u ∧ a'.readings = u ++ [(cell, a.cells cell)] := by
    rw [ha', readings, readings, hphase]
    exact ⟨rfl, rfl⟩
  have hcells : a'.cells = a.cells := by rw [ha']
  refine ⟨?_, fun c => ?_, hfirst, hloses⟩
  · rw [ha']
    exact ⟨h.nodup, h.zero, hnd, fun hr c hc => hstat hr c (mem_cons_of_mem _ hc)⟩
  · rw [held, held, hread.1, hread.2, hcells, hloses, Usage.on_append, Usage.on_singleton]
    by_cases hc : c = cell
    · subst hc
      simp [hfirst]
    · simp [hc, Ne.symm hc]

theorem Ok.range (h : a.Ok) (hphase : a.phase = .reading f [] false u)
    (ha' : a' = { a with phase := .reading f (a.pools.map Cell.pool) true u }) :
    a'.Ok ∧ (∀ c, a'.held c = a.held c) ∧ ∀ c, a'.unread c = (a.unread c && !a.readsNext c) := by
  have hun : ∀ c, a.unread c = c.isPool := fun c => by
    rw [unread, hphase]
    simp
  have hun' : ∀ c, a'.unread c = (a.pools.map Cell.pool).contains c := fun c => by
    rw [ha', unread]
    simp
  have hread : a'.readings = a.readings := by
    rw [ha', readings, readings, hphase]
  have hcells : a'.cells = a.cells := by rw [ha']
  refine ⟨?_, fun c => ?_, fun c => ?_⟩
  · rw [ha']
    exact ⟨h.nodup, h.zero, h.nodup.map fun x y hxy => Cell.pool.inj hxy, fun hr => by cases hr⟩
  · rw [held, held, hread, hcells, hun, hun']
    cases c with
    | pool name =>
      by_cases hin : name ∈ a.pools
      · simp [hin, Cell.isPool]
      · simp [hin, Cell.isPool, h.zero name hin]
    | _ => simp [Cell.isPool]
  · rw [hun, hun', readsNext, hphase]
    cases c <;> simp [Cell.isPool]

end Accumulator

/-! ## What is accounted for -/

namespace CounterSystem

variable {s : CounterSystem} {store' : BucketKey → Cell → Int} {i : Nat}

theorem Sound.update (h : s.Sound) {heap' : List Accumulator} {calls' : List Call}
    (hheap : ∀ a ∈ heap', a.Ok) (hext : Extends s.heap heap')
    (hcalls : ∀ call ∈ calls', call ∈ s.calls ∨ call.work.Ok heap') :
    Sound ⟨s.backends, heap', calls', store'⟩ := by
  refine ⟨hheap, fun call hcall => ?_⟩
  rcases hcalls call hcall with hold | hnew
  · exact (h.works call hold).extend hext
  · exact hnew

theorem extends_refl (heap : List Accumulator) : Extends heap heap :=
  fun _ a ha => ⟨a, ha, rfl, fun _ hp => hp⟩

variable {call' : Call}

theorem of_mem_set {P : Call → Prop} (h : P call') :
    ∀ c ∈ calls.set i call', c ∈ calls ∨ P c :=
  fun _ hc => (mem_or_eq_of_mem_set hc).imp_right (by rintro rfl; exact h)

theorem of_mem_append {P : Call → Prop} (h : P call') :
    ∀ c ∈ calls ++ [call'], c ∈ calls ∨ P c :=
  fun c hc => (mem_append.mp hc).imp_right fun hc => by rwa [mem_singleton.mp hc]

theorem Sound.set (h : s.Sound) {id : Nat} {a a' : Accumulator} {calls' : List Call}
    (ha : s.heap[id]? = some a) (hok : a'.Ok) (hkey : a'.key = a.key) (hpools : a.pools ⊆ a'.pools)
    (hcalls : ∀ call ∈ calls', call ∈ s.calls ∨ call.work.Ok (s.heap.set id a')) :
    Sound ⟨s.backends, s.heap.set id a', calls', store'⟩ := by
  refine h.update (fun b hb => ?_) (extends_set ha hkey hpools) hcalls
  rcases mem_or_eq_of_mem_set hb with hb | rfl
  · exact h.heap b hb
  · exact hok

theorem Sound.setCall (h : s.Sound) (hwork : call'.work.Ok s.heap) :
    Sound ⟨s.backends, s.heap, s.calls.set i call', store'⟩ :=
  h.update h.heap (extends_refl _) (of_mem_set hwork)

theorem no_pool_adds (c : Charge) (name : String) (n : Int) :
    CounterAct.add (.pool name) n ∉ c.acts := by
  intro hmem
  rw [Charge.acts, mem_append] at hmem
  rcases hmem with hmem | hmem
  · simp [addStat] at hmem
  · split_ifs at hmem <;> simp at hmem

theorem no_pool_adds_settle (u : Usage) (name : String) (n : Int) :
    CounterAct.add (.pool name) n ∉ settleActs u := by
  intro hmem
  obtain ⟨⟨c, m⟩, -, he⟩ := mem_map.mp hmem
  cases c <;> simp at he

theorem registryGet_spec (heap : List Accumulator) (key : BucketKey) :
    ∃ a, (registryGet heap key).1[(registryGet heap key).2]? = some a ∧ a.key = key ∧
      a.phase = .live := by
  unfold registryGet
  cases hfind : heap.findIdx? fun a => a.isLive && decide (a.key = key) with
  | none => exact ⟨{ key := key }, by simp, rfl, rfl⟩
  | some id =>
    obtain ⟨hlt, hp, -⟩ := findIdx?_eq_some_iff_getElem.mp hfind
    rw [Bool.and_eq_true, Accumulator.isLive_iff, decide_eq_true_eq] at hp
    exact ⟨heap[id], getElem?_eq_getElem hlt, hp.2, hp.1⟩

theorem registryGet_heap (heap : List Accumulator) (key : BucketKey) :
    (registryGet heap key).1 = heap ∨
      (registryGet heap key).1 = heap ++ [({ key := key } : Accumulator)] := by
  unfold registryGet
  cases heap.findIdx? fun a => a.isLive && decide (a.key = key) with
  | none => exact .inr rfl
  | some id => exact .inl rfl

theorem ok_new (key : BucketKey) : Accumulator.Ok { key := key } :=
  ⟨nodup_nil, fun _ _ => rfl, trivial⟩

/-! ## The account, step by step -/

section Balance

variable {k : BucketKey} {cell : Cell}

def heldOn (heap : List Accumulator) (k : BucketKey) (cell : Cell) : Int :=
  sumOn (fun a => a.held cell) (fun a => decide (a.key = k)) heap

def pendingOn (heap : List Accumulator) (calls : List Call) (k : BucketKey) (cell : Cell) : Int :=
  sumOn (fun c => c.pending heap k cell) (fun _ => true) calls

/-- What calls have still to add to the accumulator. -/
def lateOn (calls : List Call) (id : Nat) (cell : Cell) : Int :=
  sumOn (fun c => actsOn (c.work.actsFor id) cell) (fun _ => true) calls

theorem account_eq : account k cell s =
    s.store k cell + heldOn s.heap k cell + pendingOn s.heap s.calls k cell := rfl

theorem usageIn_append (es es' : List (BucketKey × Usage)) :
    usageIn (es ++ es') k cell = usageIn es k cell + usageIn es' k cell := sumOn_append _ _ es es'

theorem usageIn_singleton (e : BucketKey × Usage) :
    usageIn [e] k cell = if e.1 = k then Usage.on e.2 cell else 0 := by
  rw [usageIn, sumOn_cons, sumOn_nil, Int.add_zero]
  by_cases h : e.1 = k <;> simp

variable {heap : List Accumulator} {call : Call} {a a' : Accumulator} {id : Nat} {i : Nat}

theorem held_set (ha : heap[id]? = some a) (hkey : a'.key = a.key) :
    heldOn (heap.set id a') k cell =
      heldOn heap k cell + if a.key = k then a'.held cell - a.held cell else 0 := by
  rw [heldOn, sumOn_set _ _ ha, hkey, heldOn]
  by_cases h : a.key = k
  · simp only [h, decide_true, if_true]
    ring
  · simp [h]

theorem pendings_set (h : calls[i]? = some call) (call' : Call) :
    pendingOn heap (calls.set i call') k cell =
      pendingOn heap calls k cell - call.pending heap k cell + call'.pending heap k cell := by
  simpa [pendingOn] using sumOn_set (fun c : Call => c.pending heap k cell) (fun _ => true) h call'

theorem pendings_congr (h : s.Sound) {heap' : List Accumulator}
    (hsame : Kept (SameUnread cell) s.heap heap') :
    pendingOn heap' s.calls k cell = pendingOn s.heap s.calls k cell := by
  refine sumOn_congr _ _ fun call hcall => ⟨rfl, fun _ => ?_⟩
  rw [Call.pending, Call.pending, Work.pending_congr (h.works call hcall) hsame]

theorem pendings_read (h : s.Sound) {r : Bool} (ha : s.heap[id]? = some a)
    (hr : r = true → a.unread cell = true) (hun : a'.unread cell = (a.unread cell && !r)) :
    pendingOn (s.heap.set id a') s.calls k cell = pendingOn s.heap s.calls k cell -
        if a.key = k ∧ r = true then lateOn s.calls id cell else 0 := by
  have hpoint : sumOn (fun c : Call => c.pending (s.heap.set id a') k cell +
      if a.key = k ∧ r = true then actsOn (c.work.actsFor id) cell else 0) (fun _ => true) s.calls =
      pendingOn s.heap s.calls k cell := by
    refine sumOn_congr _ _ fun call hcall => ⟨rfl, fun _ => ?_⟩
    have := Work.pending_set (k := k) (h.works call hcall) ha hr hun
    rw [Call.pending, Call.pending]
    linarith
  rw [sumOn_add] at hpoint
  rw [← hpoint, pendingOn, lateOn]
  split_ifs
  · ring
  · rw [sumOn_eq_zero _ _ fun _ _ _ => rfl]
    ring

/-! ## What every step does -/

/-- A step keeps the system sound and adds `d` to what is accounted for. -/
structure Moves (s s' : CounterSystem) (d : BucketKey → Cell → Int) : Prop where
  sound : s'.Sound
  account : ∀ k cell, account k cell s' = account k cell s + d k cell

theorem Sound.stays (h : s.Sound) : Moves s s fun _ _ => 0 :=
  ⟨h, fun _ _ => (Int.add_zero _).symm⟩

theorem Sound.read (h : s.Sound) {r : Cell → Bool} (ha : s.heap[id]? = some a) (hok : a'.Ok)
    (hkey : a'.key = a.key) (hpools : a'.pools = a.pools) (hheld : ∀ c, a'.held c = a.held c)
    (hr : ∀ c, r c = true → a.unread c = true)
    (hun : ∀ c, a'.unread c = (a.unread c && !r c)) :
    Moves s { s with heap := s.heap.set id a' } fun k cell =>
      -if a.key = k ∧ r cell = true then lateOn s.calls id cell else 0 := by
  refine ⟨h.set ha hok hkey (fun _ hp => hpools ▸ hp) fun _ hc => .inl hc, fun k cell => ?_⟩
  simp only [account_eq]
  rw [held_set ha hkey, hheld, Int.sub_self, ite_self, Int.add_zero,
    pendings_read h ha (hr cell) (hun cell)]
  ring

theorem Sound.stepWork (h : s.Sound) (hcall : s.calls[i]? = some call) :
    Moves s (s.stepWork i call) fun _ _ => 0 := by
  have hwork := h.works call (mem_of_getElem? hcall)
  unfold CounterSystem.stepWork
  cases hw : call.work with
  | idle => exact h.stays
  | lookup key acts =>
    rw [hw] at hwork
    obtain ⟨a, ha, hkey, hlive⟩ := registryGet_spec s.heap key
    constructor
    · refine h.update ?_ ?_
        (of_mem_set ⟨a, ha, hkey, fun name n hmem => absurd hmem (hwork name n)⟩)
      · rcases registryGet_heap s.heap key with he | he <;> rw [he]
        · exact h.heap
        · intro b hb
          rcases mem_append.mp hb with hb | hb
          · exact h.heap b hb
          · exact mem_singleton.mp hb ▸ ok_new key
      · rcases registryGet_heap s.heap key with he | he <;> rw [he]
        · exact extends_refl _
        · exact kept_append (fun _ => ⟨rfl, fun _ h => h⟩) _
    · intro k cell
      have hheap : heldOn (registryGet s.heap key).1 k cell = heldOn s.heap k cell ∧
          Kept (SameUnread cell) s.heap (registryGet s.heap key).1 := by
        rcases registryGet_heap s.heap key with he | he <;> rw [he]
        · exact ⟨rfl, fun id a ha => ⟨a, ha, rfl⟩⟩
        · refine ⟨?_, kept_append (R := SameUnread cell) (fun _ => rfl) _⟩
          rw [heldOn, sumOn_append, sumOn_cons, sumOn_nil, Accumulator.held_of_live rfl]
          simp [heldOn]
      have hsame : Call.pending (registryGet s.heap key).1
          { call with work := .adding key (registryGet s.heap key).2 acts } k cell =
          call.pending (registryGet s.heap key).1 k cell := by
        rw [Call.pending, Call.pending, hw]
        simp only [Work.pending, ha, Option.any_some, Accumulator.unread_of_live hlive, and_true]
      simp only [account_eq, hheap.1]
      rw [pendings_set hcall, pendings_congr h hheap.2, hsame]
      ring
  | adding key id acts =>
    rw [hw] at hwork
    obtain ⟨a, ha, hkey, hadds⟩ := hwork
    cases acts with
    | nil =>
      refine ⟨h.setCall trivial, fun k cell => ?_⟩
      simp only [account_eq]
      rw [pendings_set hcall, Call.pending, Call.pending, hw]
      simp only [Work.pending, actsOn_nil, ite_self]
      ring
    | cons act acts =>
      cases hp : a.perform act with
      | none =>
        simp only [ha, hp]
        exact h.stays
      | some r =>
        obtain ⟨a', more⟩ := r
        obtain ⟨hkey', hphase, hsub, hheld⟩ := Accumulator.perform_ok hp
        obtain ⟨hok, hmore⟩ := (h.heap a (mem_of_getElem? ha)).perform
          (fun name n he => hadds name n (he ▸ mem_cons_self)) hp
        have hset : (s.heap.set id a')[id]? = some a' := by
          rw [getElem?_set_self', ha]
          rfl
        simp only [ha, hp]
        constructor
        · refine h.set ha hok hkey' hsub
            (of_mem_set ⟨a', hset, hkey'.trans hkey, fun name n hmem => ?_⟩)
          rcases mem_append.mp hmem with hmem | hmem
          · exact hmore name n hmem
          · exact hsub (hadds name n (mem_cons_of_mem _ hmem))
        · intro k cell
          have hun : a'.unread cell = a.unread cell := by
            rw [Accumulator.unread, Accumulator.unread, hphase]
          have hmove := hheld cell
          rw [actsOn_cons act [], actsOn_nil, Int.add_zero] at hmove
          simp only [account_eq]
          rw [held_set ha hkey', pendings_set hcall,
            pendings_congr h (kept_set (R := SameUnread cell) (fun _ => rfl) ha hun), Call.pending,
            Call.pending, hw]
          simp only [Work.pending, hset, Option.any_some, hun, ← hkey, actsOn_append,
            actsOn_cons act acts]
          by_cases hk : a.key = k
          · cases hu : a.unread cell <;> simp [hu] at hmove <;> simp [hk] <;> linarith
          · simp [hk]

theorem Sound.handOver (h : s.Sound) (ha : s.heap[id]? = some a)
    (hcall : s.calls[i]? = some call) (hphase : a.phase = .reading f [] true u) :
    Moves s { s with
      heap := s.heap.set id { a with phase := .gone }
      calls := s.calls.set i
        { call with batches := call.batches ++ if u.isZero then [] else [(a.key, u)] } }
      fun _ _ => 0 := by
  have hok := h.heap a (mem_of_getElem? ha)
  have hwork := h.works call (mem_of_getElem? hcall)
  refine ⟨h.set ha ⟨hok.nodup, hok.zero, trivial⟩ rfl (fun _ hp => hp)
    (of_mem_set (hwork.extend (extends_set ha rfl fun _ hp => hp))), fun k cell => ?_⟩
  have hgone : Kept (SameUnread cell) s.heap
      (s.heap.set id { a with phase := .gone }) := by
    refine kept_set (R := SameUnread cell) (fun _ => rfl) ha ?_
    rw [SameUnread, Accumulator.unread, Accumulator.unread, hphase]
    simp
  have hheld : a.held cell = Usage.on u cell := by
    rw [Accumulator.held, Accumulator.readings, Accumulator.unread, hphase]
    simp
  have hbatch : usageIn (if u.isZero then [] else [(a.key, u)]) k cell =
      if a.key = k then Usage.on u cell else 0 := by
    split_ifs with hz hk hk
    · exact (Usage.on_of_isZero hz cell).symm
    · rfl
    · rw [usageIn_singleton, if_pos hk]
    · rw [usageIn_singleton, if_neg hk]
  simp only [account_eq]
  rw [held_set ha (by rfl), Accumulator.held_of_gone (by rfl), hheld, pendings_set hcall,
    pendings_congr h hgone, Call.pending, Call.pending, usageIn_append, hbatch,
    Work.pending_congr hwork hgone]
  split_ifs <;> ring

theorem isReading_iff : a.isReading i = true ↔
    ∃ todo ranging u, a.phase = .reading i todo ranging u := by
  unfold Accumulator.isReading
  split
  next f todo ranging u hphase => simp [hphase]
  next hne => simpa using fun todo ranging u => hne i todo ranging u

theorem stepLoad_of_not_reading (h : a.isReading i = false) : s.stepLoad i id a call = s := by
  have hne {f : Nat} {todo : List Cell} {ranging : Bool} {u : Usage}
      (hphase : a.phase = .reading f todo ranging u) : f ≠ i := by
    rintro rfl
    rw [isReading_iff.mpr ⟨todo, ranging, u, hphase⟩] at h
    cases h
  unfold stepLoad
  split
  next hphase => exact if_neg (hne hphase)
  next hphase => exact if_neg (hne hphase)
  next hphase => exact if_neg (hne hphase)
  next => rfl

section

variable (h : s.Sound)
include h

theorem Sound.stepLoad (ha : s.heap[id]? = some a) (hcall : s.calls[i]? = some call) :
    Moves s (s.stepLoad i id a call) fun k cell =>
      -if a.isReading i = true ∧ a.key = k ∧ a.readsNext cell = true then lateOn s.calls id cell
      else 0 := by
  have hok := h.heap a (mem_of_getElem? ha)
  cases hmine : a.isReading i with
  | false =>
    rw [stepLoad_of_not_reading hmine]
    simpa using h.stays
  | true =>
    obtain ⟨todo, ranging, u, hphase⟩ := isReading_iff.mp hmine
    simp only [CounterSystem.stepLoad, hphase, true_and]
    cases todo with
    | cons c todo =>
      have hnext : ∀ cell, a.readsNext cell = decide (cell = c) := fun _ => by
        rw [Accumulator.readsNext, hphase]
      obtain ⟨hok', hheld, hfirst, hloses⟩ := hok.load hphase rfl
      simp only [hnext]
      exact h.read ha hok' rfl rfl hheld (fun _ hc => of_decide_eq_true hc ▸ hfirst) hloses
    | nil =>
      cases ranging with
      | false =>
        obtain ⟨hok', hheld, hloses⟩ := hok.range hphase rfl
        simp only [if_true]
        refine h.read ha hok' rfl rfl hheld (fun cell hc => ?_) hloses
        rw [Accumulator.readsNext, hphase, Bool.and_eq_true] at hc
        rw [Accumulator.unread, hphase]
        simp [hc.1]
      | true =>
        have hnext : ∀ cell, a.readsNext cell = false := fun _ => by
          rw [Accumulator.readsNext, hphase]
        simpa [hnext] using h.handOver ha hcall hphase

theorem Sound.stepApply (hcall : s.calls[i]? = some call) (hback : call.back = [])
    (backend : String) (ok : Bool) : Moves s (s.stepApply i call backend ok) fun _ _ => 0 := by
  have hwork := h.works call (mem_of_getElem? hcall)
  refine ⟨by unfold CounterSystem.stepApply; dsimp only; split_ifs <;> exact h.setCall hwork,
    fun k cell => ?_⟩
  have hsplit := sumOn_filter_add (fun e : BucketKey × Usage => Usage.on e.2 cell)
    (fun e => decide (e.1 = k)) (fun e => decide (e.1.backend = backend)) call.batches
  unfold CounterSystem.stepApply
  cases ok <;> simp only [Bool.false_eq_true, if_false, if_true, account_eq] <;>
    rw [pendings_set hcall, Call.pending, Call.pending, hback] <;>
    simp only [usageIn, sumOn_nil] at hsplit ⊢ <;> linarith

theorem Sound.settle {j : Nat} {e : BucketKey × Usage} (hcall : s.calls[i]? = some call)
    (hidle : call.work = .idle) (he : call.back[j]? = some e) :
    Moves s { s with
      calls := s.calls.set i
        { call with work := .lookup e.1 (settleActs e.2), back := call.back.eraseIdx j } }
      fun _ _ => 0 := by
  refine ⟨h.setCall (no_pool_adds_settle e.2), fun k cell => ?_⟩
  have herase : usageIn (call.back.eraseIdx j) k cell =
      usageIn call.back k cell - if e.1 = k then Usage.on e.2 cell else 0 := by
    rw [usageIn, sumOn_eraseIdx _ _ he]
    by_cases hk : e.1 = k <;> simp [hk, usageIn]
  simp only [account_eq]
  rw [pendings_set hcall, Call.pending, Call.pending, hidle, herase]
  simp only [Work.pending, actsOn_settleActs]
  ring

theorem Sound.charge (backend : String) (bucket : Time) (c : Charge) :
    Moves s (s.step (.charge backend bucket c)) fun k cell =>
      charged k cell (.charge backend bucket c) - lost k cell s (.charge backend bucket c) := by
  refine ⟨h.update h.heap (extends_refl _) (of_mem_append ?_), fun k cell => ?_⟩
  · dsimp only
    split_ifs
    · trivial
    · exact no_pool_adds c
  · simp only [CounterSystem.step, account, sumOn_append, sumOn_cons, sumOn_nil, if_true,
      Int.add_zero, charged, lost, Call.pending]
    by_cases hkey : (⟨bucket, backend, c.workload⟩ : BucketKey) = k
    · rw [if_pos hkey, if_pos hkey]
      split_ifs
      · simp [Work.pending, usageIn]
      · simp only [Work.pending, if_pos hkey, usageIn, sumOn_nil]
        ring
    · rw [if_neg hkey, if_neg hkey]
      split_ifs
      · simp [Work.pending, usageIn]
      · simp [Work.pending, hkey, usageIn]

theorem Sound.flush : Moves s (s.step .flush) fun _ _ => 0 := by
  constructor
  · refine h.update (fun a ha => ?_) (fun id a ha => ?_) (of_mem_append trivial)
    · obtain ⟨b, hb, rfl⟩ := mem_map.mp ha
      exact (b.swap_spec _).2.2.1 (h.heap b hb)
    · obtain ⟨hkey, hpools, -⟩ := a.swap_spec s.calls.length
      exact ⟨a.swap s.calls.length, by rw [getElem?_map, ha]; rfl, hkey, fun _ hp => hpools ▸ hp⟩
  · intro k cell
    have hheld : heldOn (s.heap.map (Accumulator.swap s.calls.length)) k cell =
        heldOn s.heap k cell := by
      rw [heldOn, sumOn_map]
      refine sumOn_congr _ _ fun a _ => ?_
      obtain ⟨hkey, -, -, hsame⟩ := a.swap_spec s.calls.length
      exact ⟨by rw [hkey], fun _ => (hsame cell).2⟩
    have hpend : pendingOn (s.heap.map (Accumulator.swap s.calls.length)) s.calls k cell =
        pendingOn s.heap s.calls k cell :=
      pendings_congr h fun id a ha =>
        ⟨a.swap s.calls.length, by rw [getElem?_map, ha]; rfl, ((a.swap_spec _).2.2.2 cell).1⟩
    have hcalls (heap : List Accumulator) :
        pendingOn heap (s.calls ++ [({} : Call)]) k cell = pendingOn heap s.calls k cell := by
      simp [pendingOn, sumOn_cons, Call.pending, Work.pending, usageIn]
    simp only [CounterSystem.step, account_eq, hcalls, hheld, hpend, Int.add_zero]

theorem Sound.step (e : CounterEvent) :
    Moves s (s.step e) fun k cell => charged k cell e - lost k cell s e := by
  cases e with
  | charge backend bucket c => exact h.charge backend bucket c
  | flush => exact h.flush
  | work i =>
    rw [CounterSystem.step]
    split
    next call hcall => exact h.stepWork hcall
    next => exact h.stays
  | read i id =>
    rw [CounterSystem.step]
    split
    next a ha =>
      split_ifs with hc
      · have hok := h.heap a (mem_of_getElem? ha)
        have hok' : Accumulator.Ok
            { a with phase := .reading i [.requests, .egress, .ingress] false [] } :=
          ⟨hok.nodup, hok.zero, by decide, by decide⟩
        have hbegin := Accumulator.begin_read hc.1 rfl
        simpa [charged, lost] using h.read (r := fun _ => false) ha hok' rfl rfl
          (fun c => (hbegin c).1) (fun _ hr => by cases hr)
          fun c => (hbegin c).2.trans (Bool.and_true _).symm
      · exact h.stays
    next => exact h.stays
  | load i id =>
    simp only [CounterSystem.step, charged, lost, Int.zero_sub]
    split
    next a call ha hcall => exact h.stepLoad ha hcall
    next => exact h.stays
  | apply i backend ok =>
    rw [CounterSystem.step]
    split
    next call hcall =>
      split_ifs with hready
      · simp only [ready, Bool.and_eq_true, decide_eq_true_eq] at hready
        exact h.stepApply hcall hready.1.2 backend ok
      · exact h.stays
    next => exact h.stays
  | settle i j =>
    rw [CounterSystem.step]
    split
    next call hcall =>
      split
      next e he =>
        split_ifs with hidle
        · exact h.settle hcall hidle he
        · exact h.stays
      next => exact h.stays
    next => exact h.stays

end

theorem account_of_finished (h : s.Finished) :
    account k cell s = s.store k cell + s.inCounters k cell := by
  have hcalls : pendingOn s.heap s.calls k cell = 0 := by
    refine sumOn_eq_zero _ _ fun call hcall _ => ?_
    rw [h.1 call hcall]
    rfl
  have hheld : heldOn s.heap k cell = s.inCounters k cell := by
    rw [inCounters, heldOn, ← sumOn_filter_add _ _ Accumulator.isLive, sumOn_filter, sumOn_filter]
    have hgone : sumOn (fun a => a.held cell) (fun a => decide (a.key = k) && !a.isLive) s.heap =
        0 := by
      refine sumOn_eq_zero _ _ fun a ha hp => ?_
      rw [Bool.and_eq_true, Bool.not_eq_true', Bool.eq_false_iff] at hp
      rcases h.2 a ha with hlive | hg
      · exact absurd (Accumulator.isLive_iff.mpr hlive) hp.2
      · exact Accumulator.held_of_gone hg cell
    rw [hgone, Int.add_zero]
    refine sumOn_congr _ _ fun a _ => ⟨Bool.and_comm _ _, fun hp => ?_⟩
    rw [Bool.and_eq_true, Accumulator.isLive_iff] at hp
    exact Accumulator.held_of_live hp.1 cell
  rw [account_eq, hcalls, hheld, Int.add_zero]

theorem lost_of_undisturbed {e : CounterEvent} (h : s.Undisturbed e) : lost k cell s e = 0 := by
  cases e with
  | charge backend bucket c =>
    obtain ⟨hbackend, hnn⟩ := h
    simp only [lost]
    split_ifs with hkey hdrop
    · rcases hdrop with hempty | hno
      · rw [hnn.amount_of_empty hempty, Int.sub_zero]
      · exact absurd hbackend hno
    · rw [hnn.actsOn, Int.sub_self]
    · rfl
  | load i id =>
    simp only [lost]
    split
    next a call ha hcall =>
      split_ifs with hreads
      · refine sumOn_eq_zero _ _ fun c hc _ => ?_
        refine sumOn_eq_zero _ _ fun act hact hcell => ?_
        have hno := h a ha c hc act hact
        rw [of_decide_eq_true hcell, hreads.2.2] at hno
        cases hno
      · rfl
    next => rfl
  | flush | work i | read i id | apply i backend ok | settle i j => rfl

end Balance

theorem sound_start (backends : List String) : Sound { backends := backends } :=
  ⟨fun _ ha => absurd ha not_mem_nil, fun _ hc => absurd hc not_mem_nil⟩

end CounterSystem

/-! ## Runs -/

section Runs

variable {backends : List String} {run : List CounterEvent}

/-- **Once every call has returned, what was charged is in the store or the counters, but for what
was lost.** -/
theorem usage_balance
    (hfin : (after CounterSystem.step { backends := backends } run).Finished) (k : BucketKey)
    (cell : Cell) :
    (after CounterSystem.step { backends := backends } run).store k cell +
        (after CounterSystem.step { backends := backends } run).inCounters k cell =
      (run.map (CounterSystem.charged k cell)).sum -
        tallied CounterSystem.step (CounterSystem.lost k cell) { backends := backends } run := by
  rw [← CounterSystem.account_of_finished hfin,
    after_balance (CounterSystem.sound_start backends) (fun _ e h => (h.step e).sound)
      fun _ e h => ((h.step e).account k cell).trans (Int.add_sub_assoc _ _ _).symm, tallied_map]
  simp [CounterSystem.account]

/-- **No charge is lost or counted twice in a run that disturbs no flush: once every call has
returned, the store and the counters have the sum of all charges.** -/
theorem usage_conserved
    (hrun : Along CounterSystem.step CounterSystem.Undisturbed { backends := backends } run)
    (hfin : (after CounterSystem.step { backends := backends } run).Finished) (k : BucketKey)
    (cell : Cell) :
    (after CounterSystem.step { backends := backends } run).store k cell +
        (after CounterSystem.step { backends := backends } run).inCounters k cell =
      (run.map (CounterSystem.charged k cell)).sum := by
  have hlost : tallied CounterSystem.step (CounterSystem.lost k cell) { backends := backends }
      run = 0 := tallied_eq_zero hrun fun _ _ h => CounterSystem.lost_of_undisturbed h
  rw [usage_balance hfin, hlost, Int.sub_zero]

end Runs

def oneRequest : CounterEvent := .charge "b" 0 { apiRequests := 1, workload := "w" }

def flushOne : List CounterEvent :=
  [.read 1 0, .load 1 0, .load 1 0, .load 1 0, .load 1 0, .load 1 0, .apply 1 "b" true]

def chargeThenFlush : List CounterEvent :=
  [oneRequest, .work 0, .work 0, .work 0, .work 0, .work 0, .flush] ++ flushOne

def chargeBesideFlush : List CounterEvent :=
  [oneRequest, .work 0, .flush] ++ flushOne ++ [.work 0, .work 0, .work 0, .work 0]

instance (s : CounterSystem) (e : CounterEvent) : Decidable (s.Undisturbed e) := by
  cases e <;> dsimp only [CounterSystem.Undisturbed] <;> infer_instance

/-- The one request reaches the store. -/
theorem chargeThenFlush_conserved :
    (after CounterSystem.step { backends := ["b"] } chargeThenFlush).store ⟨0, "b", "w"⟩ .requests +
      (after CounterSystem.step { backends := ["b"] } chargeThenFlush).inCounters ⟨0, "b", "w"⟩
        .requests = 1 :=
  usage_conserved (by decide) (by decide) ⟨0, "b", "w"⟩ .requests

/-- The one request is neither in the store nor in the counters when both calls have returned. -/
theorem chargeBesideFlush_lost :
    (after CounterSystem.step { backends := ["b"] } chargeBesideFlush).Finished ∧
    (chargeBesideFlush.map (CounterSystem.charged ⟨0, "b", "w"⟩ .requests)).sum = 1 ∧
    (after CounterSystem.step { backends := ["b"] } chargeBesideFlush).store ⟨0, "b", "w"⟩
      .requests = 0 ∧
    (after CounterSystem.step { backends := ["b"] } chargeBesideFlush).inCounters ⟨0, "b", "w"⟩
      .requests = 0 := by
  decide

end S3Orchestrator
