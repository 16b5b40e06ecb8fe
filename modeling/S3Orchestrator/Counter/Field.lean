import S3Orchestrator.Counter.Local
import S3Orchestrator.Lib.HttpRange

/-!
# Counters in a shared hash

With a shared backend the counters of one backend are the fields of one hash. A field's name spells
the bucket, the workload and the dimension it counts, and a flush reads them back from the name.

* **`usageIn_readFields`**: the batch carries exactly the charges.
-/

namespace S3Orchestrator

open Fields HttpRange RowStore List

abbrev Text : Type := List Char

def cutPrefix (p s : Text) : Option Text := if p.isPrefixOf s then some (s.drop p.length) else none

theorem cutPrefix_append (p s : Text) : cutPrefix p (p ++ s) = some s := by
  rw [cutPrefix, if_pos (by simp), drop_left]

/-! ## Fields -/

def int64End : Nat := 9223372036854775808

def fieldAPIRequests : Text := "api_requests".toList
def fieldEgressBytes : Text := "egress_bytes".toList
def fieldIngressBytes : Text := "ingress_bytes".toList
def poolFieldPrefix : Text := "pool:".toList
def workloadFieldPrefix : Text := "w:".toList
def stagedInfix : Text := ":usage-staged:".toList

def fieldPrefix (bucket : Time) (workload : String) : Text :=
  Nat.toDigits 10 bucket ++ ':' :: (workloadFieldPrefix ++ (workload.toList ++ [':']))

def fieldName : Cell → Text
  | .requests => fieldAPIRequests
  | .egress => fieldEgressBytes
  | .ingress => fieldIngressBytes
  | .pool name => poolFieldPrefix ++ name.toList

def parseUnix (s : Text) : Option Time :=
  (decimal s).bind fun n => if n < int64End then some n else none

def parseField (field : Text) : Option (Time × Text × Text) :=
  match cut ':' field with
  | none => none
  | some (unix, rest) =>
    match parseUnix unix, cutPrefix workloadFieldPrefix rest with
    | some secs, some rest => (cut ':' rest).map fun p => (secs, p.1, p.2)
    | _, _ => none

def cellOf (name : Text) : Option Cell :=
  if name = fieldAPIRequests then some .requests
  else if name = fieldEgressBytes then some .egress
  else if name = fieldIngressBytes then some .ingress
  else (cutPrefix poolFieldPrefix name).map fun p => .pool (String.ofList p)

def decodeField (field : Text) : Option (Time × String × Cell) :=
  match parseField field with
  | none => none
  | some (bucket, workload, name) =>
    (cellOf name).map fun cell => (bucket, String.ofList workload, cell)

theorem cellOf_fieldName (cell : Cell) : cellOf (fieldName cell) = some cell := by
  cases cell with
  | requests | egress | ingress => decide
  | pool name =>
    have hfirst : poolFieldPrefix.head? = some 'p' := by decide
    have hhead : (fieldName (.pool name)).head? = some 'p' := by
      rw [fieldName, head?_append, hfirst, Option.some_or]
    have hne : ∀ s : Text, s.head? ≠ some 'p' → fieldName (.pool name) ≠ s := by
      rintro _ hs rfl
      exact hs hhead
    rw [cellOf, if_neg (hne _ (by decide)), if_neg (hne _ (by decide)),
      if_neg (hne _ (by decide)), fieldName, cutPrefix_append, Option.map_some,
      String.ofList_toList]

theorem decodeField_encode {bucket : Time} {workload : String} (hb : bucket < int64End)
    (hw : ':' ∉ workload.toList) (cell : Cell) :
    decodeField (fieldPrefix bucket workload ++ fieldName cell) =
      some (bucket, workload, cell) := by
  have hshape : fieldPrefix bucket workload ++ fieldName cell = Nat.toDigits 10 bucket ++
        ':' :: (workloadFieldPrefix ++ (workload.toList ++ ':' :: fieldName cell)) := by
    simp [fieldPrefix]
  have hparse : parseField (fieldPrefix bucket workload ++ fieldName cell) =
      some (bucket, workload.toList, fieldName cell) := by
    rw [parseField, hshape, cut_append (not_mem_toDigits (by decide) bucket)]
    simp only [parseUnix, decimal_toDigits, Option.bind_some, if_pos hb, cutPrefix_append,
      cut_append hw, Option.map_some]
  rw [decodeField, hparse]
  simp only [cellOf_fieldName, Option.map_some, String.ofList_toList]

/-! ## Staged keys -/

def stagedKey (keyPrefix backend flushID : String) : Text :=
  (keyPrefix.toList ++ stagedInfix) ++ (backend.toList ++ ':' :: flushID.toList)

def parseStagedKey (keyPrefix : String) (key : Text) : Option (String × String) :=
  match cutPrefix (keyPrefix.toList ++ stagedInfix) key with
  | none => none
  | some rest =>
    let flushID := (rest.reverse.takeWhile (· != ':')).reverse
    let backend := rest.take (rest.length - flushID.length - 1)
    if ':' ∉ rest ∨ backend = [] ∨ flushID = [] then none
    else some (String.ofList backend, String.ofList flushID)

theorem parseStagedKey_stagedKey (keyPrefix : String) {backend flushID : String}
    (hb : backend.toList ≠ []) (hf : flushID.toList ≠ []) (hcolon : ':' ∉ flushID.toList) :
    parseStagedKey keyPrefix (stagedKey keyPrefix backend flushID) = some (backend, flushID) := by
  have hlast : ((backend.toList ++ ':' :: flushID.toList).reverse.takeWhile (· != ':')).reverse =
      flushID.toList := by
    have hrev : (backend.toList ++ ':' :: flushID.toList).reverse =
        flushID.toList.reverse ++ ':' :: backend.toList.reverse := by simp
    rw [hrev, takeWhile_append_sep (by simpa using hcolon), reverse_reverse]
  have hlen : (backend.toList ++ ':' :: flushID.toList).length - flushID.toList.length - 1 =
      backend.toList.length := by
    rw [length_append, length_cons]
    omega
  rw [parseStagedKey, stagedKey, cutPrefix_append]
  simp only [hlast, hlen, take_left]
  rw [if_neg (by simp [hb, hf]), String.ofList_toList, String.ofList_toList]

/-! ## Charges and the hash they add up to -/

def Charge.increments (c : Charge) : Usage :=
  ([(Cell.requests, c.apiRequests), (.egress, c.egressBytes), (.ingress, c.ingressBytes)] ++
    c.pools.map fun name => (Cell.pool name, c.poolN)).filter fun e => decide (0 < e.2)

structure Booked where
  serial : Nat
  backend : String
  bucket : Time
  charge : Charge

namespace Booked

def key (b : Booked) : BucketKey := ⟨b.bucket, b.backend, b.charge.workload⟩

def amount (b : Booked) (cell : Cell) : Int := b.charge.increments.on cell

def fields (b : Booked) : List (Text × Int) :=
  b.charge.increments.map fun e => (fieldPrefix b.bucket b.charge.workload ++ fieldName e.1, e.2)

def Legible (b : Booked) : Prop := b.bucket < int64End ∧ ':' ∉ b.charge.workload.toList

end Booked

def hashFields (hash : List Booked) : Tally Text :=
  Tally.addAll Table.empty (hash.flatMap Booked.fields)

def readFields (backend : String) (fields : List (Text × Int)) : List (BucketKey × Usage) :=
  fields.filterMap fun e =>
    (decodeField e.1).map fun d => (⟨d.1, backend, d.2.1⟩, [(d.2.2, e.2)])

theorem usageIn_cons (e : BucketKey × Usage) (es : List (BucketKey × Usage)) (k : BucketKey)
    (cell : Cell) :
    usageIn (e :: es) k cell = (if e.1 = k then e.2.on cell else 0) + usageIn es k cell := by
  rw [usageIn, sumOn_cons]
  by_cases h : e.1 = k <;> simp [usageIn]

theorem usageIn_readFields_rows (backend : String) (fields : List (Text × Int)) (k : BucketKey)
    (cell : Cell) :
    usageIn (readFields backend fields) k cell =
      sumOn Prod.snd (fun e => decide (backend = k.backend ∧
        decodeField e.1 = some (k.bucket, k.workload, cell))) fields := by
  induction fields with
  | nil => rfl
  | cons e fields ih =>
    rw [readFields, filterMap_cons, sumOn_cons, ← ih]
    cases hd : decodeField e.1 with
    | none => simp [readFields]
    | some d =>
      obtain ⟨bucket, workload, c⟩ := d
      simp only [Option.map_some, usageIn_cons, Usage.on_singleton, readFields]
      by_cases hkey : (⟨bucket, backend, workload⟩ : BucketKey) = k
      · subst hkey
        by_cases hc : c = cell <;> simp
      · have hne : ¬ (backend = k.backend ∧ bucket = k.bucket ∧ workload = k.workload) := by
          rintro ⟨rfl, rfl, rfl⟩
          exact hkey rfl
        rw [if_neg hkey, if_neg]
        simp only [Option.some.injEq, Prod.mk.injEq, decide_eq_true_eq]
        rintro ⟨h1, h2, h3, -⟩
        exact hne ⟨h1, h2, h3⟩

theorem sumOn_fields {b : Booked} (h : b.Legible) (k : BucketKey) (cell : Cell) :
    sumOn Prod.snd (fun e => decide (b.backend = k.backend ∧
        decodeField e.1 = some (k.bucket, k.workload, cell))) b.fields =
      if b.key = k then b.amount cell else 0 := by
  have hkey : ∀ c : Cell, decide (b.backend = k.backend ∧
      some (b.bucket, b.charge.workload, c) = some (k.bucket, k.workload, cell)) =
      (decide (b.key = k) && decide (c = cell)) := by
    intro c
    rw [← Bool.decide_and]
    refine decide_eq_decide.mpr ?_
    obtain ⟨bucket, backend, workload⟩ := k
    simp only [Booked.key, Option.some.injEq, Prod.mk.injEq, BucketKey.mk.injEq]
    constructor
    · rintro ⟨h1, h2, h3, h4⟩
      exact ⟨⟨h2, h1, h3⟩, h4⟩
    · rintro ⟨⟨h2, h1, h3⟩, h4⟩
      exact ⟨h1, h2, h3, h4⟩
  rw [Booked.fields, sumOn_map]
  simp only [decodeField_encode h.1 h.2, hkey]
  by_cases hb : b.key = k
  · simp [hb, Booked.amount, Usage.on]
  · simp [hb, sumOn]

theorem usageIn_readFields {backend : String} {hash : List Booked}
    (h : ∀ b ∈ hash, b.Legible ∧ b.backend = backend) (k : BucketKey) (cell : Cell) :
    usageIn (readFields backend (hashFields hash).rows) k cell =
      sumOn (fun b => b.amount cell) (fun b => decide (b.key = k)) hash := by
  have hrows : sumOn Prod.snd (fun e => decide (backend = k.backend ∧
      decodeField e.1 = some (k.bucket, k.workload, cell))) (hashFields hash).rows =
      sumOn Prod.snd (fun e => decide (backend = k.backend ∧
        decodeField e.1 = some (k.bucket, k.workload, cell))) (hash.flatMap Booked.fields) := by
    have htotal := Tally.total_addAll (fun f => decide (backend = k.backend ∧
      decodeField f = some (k.bucket, k.workload, cell))) Table.empty (hash.flatMap Booked.fields)
    simpa [Tally.total, hashFields] using htotal
  rw [usageIn_readFields_rows, hrows]
  clear hrows
  induction hash with
  | nil => rfl
  | cons b hash ih =>
    obtain ⟨hlegible, rfl⟩ := h b mem_cons_self
    rw [flatMap_cons, sumOn_append, sumOn_cons, sumOn_fields hlegible,
      ih fun b' hb' => h b' (mem_cons_of_mem _ hb')]
    by_cases hb : b.key = k <;> simp

end S3Orchestrator
