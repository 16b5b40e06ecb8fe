import S3Orchestrator.Counter.Local

/-!
# Usage limits

A backend has limits on the bytes out and in, and on requests by pools of operations. A check adds
one call to the usage so far and compares every dimension that has a limit.

* **`withinLimits_iff`**.
-/

namespace S3Orchestrator

inductive S3Op
  | putObject
  | getObject
  | headObject
  | deleteObject
  | deleteObjects
  | copyObject
  | listObjects
  | listObjectsV2
  | createMultipartUpload
  | uploadPart
  | completeMultipartUpload
  | abortMultipartUpload
  | getParts
  | headBucket
  deriving DecidableEq

/-- A limit shared by the calls of some operations. -/
structure RequestPool where
  name : String
  limit : Int
  operations : List S3Op

structure UsageLimits where
  egressByteLimit : Int := 0
  ingressByteLimit : Int := 0
  pools : List RequestPool := []

namespace UsageLimits

def poolsFor (lim : UsageLimits) (op : S3Op) : List RequestPool :=
  lim.pools.filter fun pool => decide (op ∈ pool.operations)

def unlimited (lim : UsageLimits) : Bool :=
  decide (lim.egressByteLimit ≤ 0 ∧ lim.ingressByteLimit ≤ 0 ∧ ∀ pool ∈ lim.pools, pool.limit ≤ 0)

/-- How often an operation counts in the pools of a name. -/
def poolCharge (lim : UsageLimits) (op : S3Op) (pool : String) : Int :=
  ((lim.poolsFor op).map RequestPool.name).count pool

/-- One more call fits every bounded pool it counts in. -/
def poolsFit (lim : UsageLimits) (op : S3Op) (base cur : Usage) : Bool :=
  lim.pools.all fun pool => !decide (0 < pool.limit ∧ 0 < lim.poolCharge op pool.name ∧
    pool.limit < base.on (.pool pool.name) + cur.on (.pool pool.name) +
      lim.poolCharge op pool.name)

end UsageLimits

/-- The limits, and each backend's usage this cycle: flushed, and not yet. -/
structure UsageView where
  limits : List (String × UsageLimits) := []
  base : String → Usage := fun _ => []
  cur : String → Usage := fun _ => []

namespace UsageView

variable (u : UsageView)

def limitsOf (backend : String) : UsageLimits := (u.limits.lookup backend).getD {}

/-- What a backend has used in the cycle. -/
def used (backend : String) (cell : Cell) : Int :=
  (u.base backend).on cell + (u.cur backend).on cell

/-- A call with these bytes fits the limits of the backend. -/
def withinLimits (backend : String) (op : S3Op) (egress ingress : Int) : Bool :=
  match u.limits.lookup backend with
  | none => true
  | some lim =>
    if lim.unlimited then true
    else if 0 < lim.egressByteLimit ∧ lim.egressByteLimit < u.used backend .egress + egress then
      false
    else if 0 < lim.ingressByteLimit ∧ lim.ingressByteLimit < u.used backend .ingress + ingress then
      false
    else lim.poolsFit op (u.base backend) (u.cur backend)

def charge (backend : String) (op : S3Op) (egress ingress : Int) : Charge where
  apiRequests := 1
  egressBytes := egress
  ingressBytes := ingress
  pools := ((u.limitsOf backend).poolsFor op).map RequestPool.name
  poolN := 1

variable {u} {backend : String} {op : S3Op} {egress ingress : Int}

/-- **A call is within the limits if every dimension it is charged in has room, and the other one of
bytes is not over.** -/
theorem withinLimits_iff : u.withinLimits backend op egress ingress = true ↔
    (0 < (u.limitsOf backend).egressByteLimit →
      u.used backend .egress + egress ≤ (u.limitsOf backend).egressByteLimit) ∧
    (0 < (u.limitsOf backend).ingressByteLimit →
      u.used backend .ingress + ingress ≤ (u.limitsOf backend).ingressByteLimit) ∧
    ∀ pool ∈ (u.limitsOf backend).pools, 0 < pool.limit →
      0 < (u.limitsOf backend).poolCharge op pool.name →
      u.used backend (.pool pool.name) + (u.limitsOf backend).poolCharge op pool.name ≤
        pool.limit := by
  rw [withinLimits, limitsOf]
  cases hlim : u.limits.lookup backend with
  | none => simp
  | some lim =>
    simp only [Option.getD_some]
    split_ifs with hun heg hin
    · obtain ⟨heg, hin, hpools⟩ := of_decide_eq_true hun
      refine iff_of_true rfl ⟨fun h => absurd h (not_lt.mpr heg), fun h =>
        absurd h (not_lt.mpr hin), fun pool hpool h => absurd h (not_lt.mpr (hpools pool hpool))⟩
    · exact iff_of_false (by simp) fun h => absurd (h.1 heg.1) (not_le.mpr heg.2)
    · exact iff_of_false (by simp) fun h => absurd (h.2.1 hin.1) (not_le.mpr hin.2)
    · rw [UsageLimits.poolsFit, List.all_eq_true]
      constructor
      · intro h
        refine ⟨fun hpos => not_lt.mp fun hlt => heg ⟨hpos, hlt⟩,
          fun hpos => not_lt.mp fun hlt => hin ⟨hpos, hlt⟩, fun pool hpool hpos hcharge => ?_⟩
        have hnot := h pool hpool
        rw [Bool.not_eq_true', decide_eq_false_iff_not] at hnot
        exact not_lt.mp fun hlt => hnot ⟨hpos, hcharge, hlt⟩
      · rintro ⟨-, -, h⟩ pool hpool
        rw [Bool.not_eq_true', decide_eq_false_iff_not]
        rintro ⟨hpos, hcharge, hlt⟩
        exact absurd (h pool hpool hpos hcharge) (not_le.mpr hlt)

end UsageView

end S3Orchestrator
