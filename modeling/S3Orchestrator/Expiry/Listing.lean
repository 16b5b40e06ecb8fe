import S3Orchestrator.Ledger.Tags
import Mathlib.Data.String.Basic

/-!
# Listing expired objects

The listing scans a range of keys for copies older than a cutoff whose object carries every tag of a
rule, and returns one row for each key.

* **`isPrefixOf_of_range`**: every key in the range has the prefix.
-/

namespace S3Orchestrator

open RowStore List

/-! ## Ranges of keys -/

def maxRune : Char := Char.ofNat 0x10FFFF

def afterSurrogates : Char := Char.ofNat 0xE000

def nextRune (c : Char) : Char :=
  if 0xD800 ≤ c.toNat + 1 ∧ c.toNat + 1 < 0xE000 then afterSurrogates else Char.ofNat (c.toNat + 1)

def raiseFirst : List Char → Option (List Char)
  | [] => none
  | c :: rest => if c = maxRune then raiseFirst rest else some (nextRune c :: rest)

/-- The first string above every key under the prefix: its last character that can rise, raised, or
the highest code point. -/
def prefixEnd (keyPrefix : String) : String :=
  match raiseFirst keyPrefix.toList.reverse with
  | some raised => String.ofList raised.reverse
  | none => String.ofList [maxRune]

def keyStep : String := "\x01"

def keysFrom (keyPrefix after : String) : String :=
  if after = "" then keyPrefix
  else if keyPrefix ≤ after ++ keyStep then after ++ keyStep
  else keyPrefix

theorem toNat_lt_of_ne_maxRune {c : Char} (h : c ≠ maxRune) : c.toNat < 0x10FFFF := by
  have hle : c.toNat ≤ 0x10FFFF := by
    rcases c.valid with hv | ⟨-, hv⟩
    · exact Nat.le_of_lt (Nat.lt_trans hv (by decide))
    · exact Nat.le_of_lt_succ hv
  refine Nat.lt_of_le_of_ne hle fun heq => h ?_
  rw [← Char.ofNat_toNat c, heq]
  rfl

theorem toNat_ofNat_of_valid {n : Nat} (h : n.isValidChar) : (Char.ofNat n).toNat = n := by
  rw [Char.ofNat, dif_pos h]
  rfl

theorem le_of_lt_nextRune {b c : Char} (hc : c ≠ maxRune) (h : b < nextRune c) :
    b.toNat ≤ c.toNat := by
  have hlt := toNat_lt_of_ne_maxRune hc
  have hb : b.toNat < (nextRune c).toNat := h
  unfold nextRune at hb
  split_ifs at hb with hs
  · -- Past the surrogates: no character has a surrogate's number.
    have hval : afterSurrogates.toNat = 0xE000 := by decide
    rcases b.valid with hv | ⟨hv, -⟩
    · have : b.toNat < 0xD800 := hv
      omega
    · have : 0xDFFF < b.toNat := hv
      omega
  · rw [toNat_ofNat_of_valid (by unfold Nat.isValidChar; omega)] at hb
    omega

section Range

theorem isPrefix_of_maxRunes {m k : List Char} (hm : ∀ c ∈ m, c = maxRune) (h : ¬ k < m) :
    m <+: k := by
  induction m generalizing k with
  | nil => exact nil_prefix
  | cons c m ih =>
    obtain rfl := hm c mem_cons_self
    cases k with
    | nil => exact absurd (nil_lt_cons _ _) h
    | cons b k =>
      rw [cons_lt_cons_iff, not_or] at h
      have hb : b = maxRune := by
        by_contra hne
        exact h.1 (toNat_lt_of_ne_maxRune hne)
      subst hb
      rw [prefix_cons_inj]
      exact ih (fun c' hc' => hm c' (mem_cons_of_mem _ hc')) fun hk => h.2 ⟨rfl, hk⟩

theorem isPrefix_of_nextRune {c : Char} {m k : List Char} (hc : c ≠ maxRune)
    (hm : ∀ c' ∈ m, c' = maxRune) (hlow : ¬ k < c :: m) (hhigh : k < [nextRune c]) :
    c :: m <+: k := by
  cases k with
  | nil => exact absurd (nil_lt_cons _ _) hlow
  | cons b k =>
    rw [cons_lt_cons_iff, not_or] at hlow
    have hb : b < nextRune c := by
      rcases cons_lt_cons_iff.mp hhigh with hb | ⟨-, hnil⟩
      · exact hb
      · exact absurd hnil (not_lt_nil _)
    have heq : b = c := by
      rw [← Char.toNat_inj]
      exact Nat.le_antisymm (le_of_lt_nextRune hc hb) (Nat.le_of_not_lt hlow.1)
    subst heq
    rw [prefix_cons_inj]
    exact isPrefix_of_maxRunes hm fun hk => hlow.2 ⟨rfl, hk⟩

theorem isPrefix_of_common {a p q k : List Char} (h : ∀ k, ¬ k < p → k < q → p <+: k)
    (hlow : ¬ k < a ++ p) (hhigh : k < a ++ q) : a ++ p <+: k := by
  induction a generalizing k with
  | nil => exact h k hlow hhigh
  | cons c a ih =>
    cases k with
    | nil => exact absurd (nil_lt_cons _ _) hlow
    | cons b k =>
      simp only [cons_append, cons_lt_cons_iff, not_or, not_and] at hlow hhigh
      have heq : b = c := by
        rcases hhigh with hb | ⟨rfl, -⟩
        · exact absurd hb hlow.1
        · rfl
      subst heq
      have hk : k < a ++ q := by
        rcases hhigh with hb | ⟨-, hk⟩
        · exact absurd hb (lt_irrefl _)
        · exact hk
      rw [cons_append, prefix_cons_inj]
      exact ih (hlow.2 rfl) hk

theorem raiseFirst_eq_none {r : List Char} (h : raiseFirst r = none) : ∀ c ∈ r, c = maxRune := by
  induction r with
  | nil => simp
  | cons c r ih =>
    unfold raiseFirst at h
    split_ifs at h with hc
    simpa [hc] using ih h

theorem raiseFirst_eq_some {r raised : List Char} (h : raiseFirst r = some raised) :
    ∃ m c rest, r = m ++ c :: rest ∧ (∀ c' ∈ m, c' = maxRune) ∧ c ≠ maxRune ∧
      raised = nextRune c :: rest := by
  induction r with
  | nil => simp [raiseFirst] at h
  | cons c r ih =>
    unfold raiseFirst at h
    split_ifs at h with hc
    · obtain ⟨m, c', rest, rfl, hm, hne, hraised⟩ := ih h
      exact ⟨c :: m, c', rest, rfl, by simpa [hc] using hm, hne, hraised⟩
    · exact ⟨[], c, r, rfl, by simp, hc, (Option.some.inj h).symm⟩

theorem isPrefixOf_of_range {keyPrefix key : String} (hlow : keyPrefix ≤ key)
    (hhigh : key < prefixEnd keyPrefix) : keyPrefix.toList <+: key.toList := by
  have hlow' : ¬ key.toList < keyPrefix.toList := by
    rw [← String.lt_iff_toList_lt]
    exact not_lt.mpr hlow
  rw [String.lt_iff_toList_lt] at hhigh
  unfold prefixEnd at hhigh
  split at hhigh
  next raised hraised =>
    obtain ⟨m, c, rest, hsplit, hm, hne, rfl⟩ := raiseFirst_eq_some hraised
    have hp : keyPrefix.toList = rest.reverse ++ c :: m.reverse := by
      rw [← reverse_reverse keyPrefix.toList, hsplit]
      simp
    rw [hp] at hlow' ⊢
    rw [String.toList_ofList, reverse_cons] at hhigh
    refine isPrefix_of_common (fun k hk hk' => isPrefix_of_nextRune hne ?_ hk hk') hlow' hhigh
    simpa using hm
  next hnone =>
    refine isPrefix_of_maxRunes (fun c hc => ?_) hlow'
    exact raiseFirst_eq_none hnone c (mem_reverse.mpr hc)

theorem le_keysFrom (keyPrefix after : String) : keyPrefix ≤ keysFrom keyPrefix after := by
  unfold keysFrom
  split_ifs with _ hle
  · exact le_refl _
  · exact hle
  · exact le_refl _

end Range

/-! ## The listing -/

structure LifecycleRule where
  keyPrefix : String := ""
  tags : List Tag := []
  expirationDays : Nat

structure ExpiredObjectsQuery where
  keyPrefix : String
  tags : List Tag
  cutoff : Time
  after : String
  limit : Nat

def ExpiredObjectsQuery.selects (q : ExpiredObjectsQuery) (s : Ledger) (l : ObjectLocation) :
    Bool :=
  decide (keysFrom q.keyPrefix q.after ≤ l.objectKey) &&
    decide (l.objectKey < prefixEnd q.keyPrefix) && decide (l.createdAt < q.cutoff) &&
    q.tags.all (s.hasTag l.objectKey)

def listExpiredObjects (s : Ledger) (q : ExpiredObjectsQuery) : List ObjectLocation :=
  let rows := s.objectLocations.rows.filter (q.selects s)
  let keys := ((rows.map ObjectLocation.objectKey).dedup.insertionSort (· ≤ ·)).take q.limit
  keys.filterMap fun k => rows.find? fun l => decide (l.objectKey = k)

theorem mem_listExpiredObjects {s : Ledger} {q : ExpiredObjectsQuery} {l : ObjectLocation}
    (h : l ∈ listExpiredObjects s q) :
    l ∈ s.objectLocations.rows ∧ q.keyPrefix.toList <+: l.objectKey.toList ∧
      l.createdAt < q.cutoff ∧ ∀ t ∈ q.tags, s.hasTag l.objectKey t = true := by
  obtain ⟨k, -, hfind⟩ := mem_filterMap.mp h
  obtain ⟨hl, hsel⟩ := mem_filter.mp (mem_of_find?_eq_some hfind)
  simp only [ExpiredObjectsQuery.selects, Bool.and_eq_true, decide_eq_true_eq, all_eq_true] at hsel
  obtain ⟨⟨⟨hfrom, hend⟩, hold⟩, htags⟩ := hsel
  exact ⟨hl, isPrefixOf_of_range ((le_keysFrom _ _).trans hfrom) hend, hold, htags⟩

end S3Orchestrator
