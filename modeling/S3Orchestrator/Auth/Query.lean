import S3Orchestrator.Auth.SigV4
import Mathlib.Data.List.Perm.Basic

/-!
# Canonical query strings

The query string a signature is made over, next to the one SigV4 defines. The code sorts the joined
`name=value` texts; the definition sorts by name and then by value.

* **`buildCanonicalQueryString_eq_canonicalQuery_iff`**;
* `buildCanonicalQueryString_eq_iff`: two queries of one canonical form differ in their order only.
-/

namespace S3Orchestrator

open List

def ampersand : UInt8 := 0x26

def percentEncode (s : Bytes) : Bytes :=
  s.flatMap fun b => if isUnreservedPathByte b then [b] else escapeByte b

def canonicalQuery (values : List (Bytes × Bytes)) : Bytes :=
  let params := values.map fun kv => (percentEncode kv.1, percentEncode kv.2)
  List.intercalate [ampersand]
    ((params.mergeSort Fields.pairLE).map (Fields.join equalsSign))

def writtenBelowEquals (b : UInt8) : Bool := !isUnreservedPathByte b || decide (b < equalsSign)

def NamesApart (values : List (Bytes × Bytes)) : Prop :=
  ∀ kv ∈ values, ∀ kv' ∈ values, ∀ b r, kv'.1 = kv.1 ++ b :: r → writtenBelowEquals b = false

variable {s : Bytes} {c : UInt8}

/-! ## Percent encoding -/

theorem sigV4Encode_eq (s : Bytes) : sigV4Encode s = percentEncode s := by
  have hbyte : ∀ b : UInt8, flatMap (fun c => if c = 0x2B then bytesOf "%20" else [c])
        (if isUnreservedPathByte b then [b] else if b = space then [0x2B] else escapeByte b) =
      if isUnreservedPathByte b then [b] else escapeByte b := forall_byte (by decide +kernel)
  rw [sigV4Encode, queryEscape, flatMap_assoc, percentEncode]
  simp only [hbyte]

theorem percentEncode_cons (b : UInt8) (s : Bytes) : percentEncode (b :: s) =
      (if isUnreservedPathByte b then [b] else escapeByte b) ++ percentEncode s :=
  flatMap_cons

theorem percentEncode_eq_nil (h : percentEncode s = []) : s = [] := by
  cases s with
  | nil => rfl
  | cons b s =>
    have hcode := (append_eq_nil_iff.mp (percentEncode_cons b s ▸ h)).1
    split_ifs at hcode
    exact absurd hcode (cons_ne_nil _ _)

theorem mem_escapeByte {b : UInt8} (h : c ∈ escapeByte b) :
    isUnreservedPathByte c = true ∨ c = percent := by
  have hbyte : ∀ b : UInt8,
      ((escapeByte b).all fun c => isUnreservedPathByte c || c == percent) = true :=
    forall_byte (by decide +kernel)
  simpa using all_eq_true.mp (hbyte b) c h

theorem mem_percentEncode (h : c ∈ percentEncode s) :
    isUnreservedPathByte c = true ∨ c = percent := by
  obtain ⟨b, -, hc⟩ := mem_flatMap.mp h
  split_ifs at hc with hb
  · rw [mem_singleton] at hc
    exact .inl (hc ▸ hb)
  · exact mem_escapeByte hc

theorem not_mem_percentEncode (hres : isUnreservedPathByte c = false)
    (hne : c ≠ percent) : c ∉ percentEncode s := by
  intro h
  rcases mem_percentEncode h with hc | hc
  · exact Bool.false_ne_true (hres.symm.trans hc)
  · exact hne hc

theorem percentEncode_append_eq {t x : Bytes} (h : percentEncode s ++ x = percentEncode t) :
    ∃ u, t = s ++ u ∧ x = percentEncode u := by
  induction s generalizing t with
  | nil => exact ⟨t, rfl, h⟩
  | cons a s ih =>
    cases t with
    | nil =>
      have hnil := (append_eq_nil_iff.mp h).1
      exact absurd (percentEncode_eq_nil hnil) (cons_ne_nil _ _)
    | cons b t =>
      rw [percentEncode_cons, percentEncode_cons, append_assoc] at h
      have hhead : a = b ∧ percentEncode s ++ x = percentEncode t := by
        split_ifs at h with ha hb hb
        · exact cons.inj h
        · rw [(cons.inj h).1] at ha
          exact absurd ha (by decide)
        · rw [← (cons.inj h).1] at hb
          exact absurd hb (by decide)
        · exact escapeByte_inj h
      obtain ⟨rfl, htail⟩ := hhead
      obtain ⟨u, rfl, hu⟩ := ih htail
      exact ⟨u, rfl, hu⟩

theorem percentEncode_injective : Function.Injective percentEncode := by
  intro s t h
  obtain ⟨u, htu, hu⟩ := percentEncode_append_eq ((append_nil _).trans h)
  rw [htu, percentEncode_eq_nil hu.symm, append_nil]

theorem extendsBelow_percentEncode_iff {t : Bytes} :
    Fields.ExtendsBelow equalsSign (percentEncode s) (percentEncode t) ↔
      ∃ b r, t = s ++ b :: r ∧ writtenBelowEquals b = true := by
  have hfirst : ∀ b : UInt8, ∀ c ∈ (if isUnreservedPathByte b then [b] else escapeByte b).head?,
      (c < equalsSign ↔ writtenBelowEquals b = true) := by
    intro b c hc
    unfold writtenBelowEquals
    split_ifs at hc with hb
    · obtain rfl := Option.some.inj hc
      simp [hb]
    · obtain rfl := Option.some.inj hc
      simp [hb, show percent < equalsSign by decide]
  constructor
  · rintro ⟨c, x, heq, hc⟩
    obtain ⟨u, rfl, hu⟩ := percentEncode_append_eq heq.symm
    cases u with
    | nil => cases hu
    | cons b r =>
      refine ⟨b, r, rfl, (hfirst b c ?_).mp hc⟩
      rw [percentEncode_cons] at hu
      split_ifs at hu ⊢
      · exact congrArg head? hu.symm
      · exact congrArg head? hu.symm
  · rintro ⟨b, r, rfl, hb⟩
    have hsplit : percentEncode (s ++ b :: r) = percentEncode s ++ percentEncode (b :: r) :=
      flatMap_append
    rw [hsplit, percentEncode_cons]
    split_ifs with hres
    · exact ⟨b, percentEncode r, rfl, (hfirst b b (by rw [if_pos hres]; rfl)).mpr hb⟩
    · exact ⟨percent, _, rfl, by decide⟩

/-! ## Query strings -/

def queryParams (values : List (Bytes × Bytes)) : List Bytes :=
  (values.map fun kv => (percentEncode kv.1, percentEncode kv.2)).map (Fields.join equalsSign)

theorem buildCanonicalQueryString_eq (values : List (Bytes × Bytes)) :
    buildCanonicalQueryString values =
      List.intercalate [ampersand] ((queryParams values).mergeSort fun a b => decide (a ≤ b)) := by
  rw [buildCanonicalQueryString, queryParams, map_map]
  simp only [sigV4Encode_eq]
  rfl

variable {values : List (Bytes × Bytes)}

theorem mem_queryParams {p : Bytes} (h : p ∈ queryParams values) : ampersand ∉ p ∧ p ≠ [] := by
  rw [queryParams, map_map] at h
  obtain ⟨kv, -, rfl⟩ := mem_map.mp h
  refine ⟨fun hmem => ?_, append_ne_nil_of_right_ne_nil _ (cons_ne_nil _ _)⟩
  rcases mem_append.mp hmem with hname | hvalue
  · exact not_mem_percentEncode (by decide) (by decide) hname
  · rcases mem_cons.mp hvalue with heq | hvalue
    · exact absurd heq (by decide)
    · exact not_mem_percentEncode (by decide) (by decide) hvalue

theorem mem_sorted :
    ∀ p ∈ (queryParams values).mergeSort fun a b => decide (a ≤ b), ampersand ∉ p ∧ p ≠ [] :=
  fun _ hp => mem_queryParams ((mergeSort_perm _ _).mem_iff.mp hp)

/-- **The string is the defined one just if no name goes on where another one ends with a byte that
is written below `=`.** -/
theorem buildCanonicalQueryString_eq_canonicalQuery_iff (values : List (Bytes × Bytes)) :
    buildCanonicalQueryString values = canonicalQuery values ↔ NamesApart values := by
  have hnames : ∀ p ∈ values.map fun kv => (percentEncode kv.1, percentEncode kv.2),
      equalsSign ∉ p.1 := by
    intro p hp
    obtain ⟨kv, -, rfl⟩ := mem_map.mp hp
    exact not_mem_percentEncode (by decide) (by decide)
  have hjoined : ∀ p ∈ ((values.map fun kv => (percentEncode kv.1, percentEncode kv.2)).mergeSort
      Fields.pairLE).map (Fields.join equalsSign), ampersand ∉ p ∧ p ≠ [] := by
    intro p hp
    exact mem_queryParams (((mergeSort_perm _ _).map _).mem_iff.mp hp)
  rw [buildCanonicalQueryString_eq, canonicalQuery]
  rw [Fields.intercalate_inj mem_sorted hjoined, queryParams, Fields.sort_joined_iff _ hnames]
  simp only [forall_mem_map, extendsBelow_percentEncode_iff, NamesApart, not_exists, not_and,
    Bool.not_eq_true]

variable {q1 q2 : List (Bytes × Bytes)}

theorem map_param_perm_iff : (queryParams q1).Perm (queryParams q2) ↔ q1.Perm q2 := by
  have hinj : Function.Injective fun kv : Bytes × Bytes =>
      Fields.join equalsSign (percentEncode kv.1, percentEncode kv.2) := by
    intro p q h
    have hno : ∀ s, equalsSign ∉ percentEncode s :=
      fun s => not_mem_percentEncode (by decide) (by decide)
    obtain ⟨hname, hvalue⟩ := (Fields.append_cons_inj (hno _) (hno _)).mp h
    exact Prod.ext (percentEncode_injective hname) (percentEncode_injective hvalue)
  rw [queryParams, queryParams, map_map, map_map]
  exact map_perm_map_iff hinj

theorem buildCanonicalQueryString_eq_iff :
    buildCanonicalQueryString q1 = buildCanonicalQueryString q2 ↔ q1.Perm q2 := by
  rw [buildCanonicalQueryString_eq, buildCanonicalQueryString_eq,
    Fields.intercalate_inj mem_sorted mem_sorted, Fields.sort_eq_iff, map_param_perm_iff]

def dashedQuery : List (Bytes × Bytes) :=
  [(bytesOf "a", bytesOf "1"), (bytesOf "a-b", bytesOf "2")]

/-- The hyphen comes before the equals sign, and the two names in the other order. -/
theorem dashedQuery_out_of_order :
    buildCanonicalQueryString dashedQuery = bytesOf "a-b=2&a=1" ∧
    canonicalQuery dashedQuery = bytesOf "a=1&a-b=2" ∧
    buildCanonicalQueryString dashedQuery ≠ canonicalQuery dashedQuery := by
  have hbuilt : buildCanonicalQueryString dashedQuery = bytesOf "a-b=2&a=1" := by
    rw [buildCanonicalQueryString, dashedQuery, map_cons, map_cons, map_nil,
      Fields.mergeSort_pair, if_neg (by decide +kernel)]
    decide +kernel
  have hdefined : canonicalQuery dashedQuery = bytesOf "a=1&a-b=2" := by
    rw [canonicalQuery, dashedQuery, map_cons, map_cons, map_nil,
      Fields.mergeSort_pair, if_pos (by decide +kernel)]
    decide +kernel
  rw [hbuilt, hdefined]
  decide +kernel

end S3Orchestrator
