import Mathlib.Order.Lattice
import Mathlib.Data.List.Basic

/-!
# Merging two ascending streams

A merge holds the next key of each stream and takes a turn: the smaller key alone, or both where
they agree. The streams are handed over in pages, each a stretch of an ascending list above the
position the page before it ended at.

* `turn`: which side moves, from the keys at the heads;
* **`turn_right_absent`**: where the right side moves alone, its key was nowhere on the left;
* **`mem_nextPage_of_le`**: a page misses nothing up to its end.
-/

namespace RowStore

open List

inductive Turn where
  | left
  | right
  | both
  | done

section Turns

variable {κ : Type} [LinearOrder κ]

/-- The side that holds the smaller key moves, and both where they agree. -/
def turn : Option κ → Option κ → Turn
  | none, none => .done
  | some _, none => .left
  | none, some _ => .right
  | some a, some b => if a < b then .left else if b < a then .right else .both

theorem turn_left {l r : Option κ} (h : turn l r = .left) : ∃ a, l = some a ∧ ∀ b ∈ r, a < b := by
  cases l with
  | none => cases r <;> cases h
  | some a =>
    refine ⟨a, rfl, fun b hb => ?_⟩
    cases hb
    by_contra hlt
    rw [turn, if_neg hlt] at h
    split_ifs at h

theorem turn_right {l r : Option κ} (h : turn l r = .right) : ∃ b, r = some b ∧ ∀ a ∈ l, b < a := by
  cases r with
  | none => cases l <;> cases h
  | some b =>
    refine ⟨b, rfl, fun a ha => ?_⟩
    cases ha
    by_contra hlt
    rw [turn, if_neg hlt] at h
    split_ifs at h

theorem turn_both {l r : Option κ} (h : turn l r = .both) : ∃ a, l = some a ∧ r = some a := by
  cases l with
  | none => cases r <;> cases h
  | some a =>
    cases r with
    | none => cases h
    | some b =>
      rw [turn] at h
      split_ifs at h with h1 h2
      exact ⟨a, rfl, congrArg some (le_antisymm (not_lt.mp h1) (not_lt.mp h2))⟩

/-- **Where the right side moves alone, its key is nowhere on the left**, behind the merge, at the
head or ahead. -/
theorem turn_right_absent {l : Option κ} {b : κ} (behind ahead : κ → Prop)
    (h : turn l (some b) = .right) (hbehind : ∀ a, behind a → a < b)
    (hahead : ∀ c, ahead c → ∃ a ∈ l, a < c) : ¬ behind b ∧ b ∉ l ∧ ¬ ahead b := by
  obtain ⟨_, hb, hleft⟩ := turn_right h
  obtain rfl := Option.some.inj hb
  refine ⟨fun hb => lt_irrefl b (hbehind b hb), fun hb => lt_irrefl b (hleft b hb), fun hb => ?_⟩
  obtain ⟨a, ha, hlt⟩ := hahead b hb
  exact lt_asymm (hleft a ha) hlt

end Turns

section Pages

variable {α κ : Type} [LinearOrder κ] (key : α → κ)

def Above (pos : Option κ) (k : κ) : Prop := ∀ p ∈ pos, p < k
  deriving Decidable

def nextPage (l : List α) (pos : Option κ) (n : Nat) : List α :=
  (l.filter fun a => decide (Above pos (key a))).take n

/-- Where a page ends; an empty one ends where it began. -/
def pageEnd (pos : Option κ) (page : List α) : Option κ := (page.getLast?.map key).or pos

variable {key} {l page : List α} {pos : Option κ} {n : Nat} {a : α}

theorem mem_of_nextPage (h : a ∈ nextPage key l pos n) : a ∈ l ∧ Above pos (key a) := by
  have := mem_of_mem_take h
  simpa using this

theorem nextPage_pairwise (hasc : l.Pairwise fun a b => key a < key b) :
    (nextPage key l pos n).Pairwise fun a b => key a < key b :=
  (hasc.filter _).sublist (take_sublist _ _)

omit [LinearOrder κ] in
theorem pageEnd_of_getLast {b : α} (h : page.getLast? = some b) :
    pageEnd key pos page = some (key b) := by
  rw [pageEnd, h]
  rfl

theorem le_pageEnd (hasc : page.Pairwise fun a b => key a < key b) (h : a ∈ page) :
    ∃ p ∈ pageEnd key pos page, key a ≤ p := by
  obtain ⟨init, b, rfl⟩ := eq_nil_or_concat' page |>.resolve_left (ne_nil_of_mem h)
  refine ⟨key b, pageEnd_of_getLast getLast?_concat, ?_⟩
  rcases mem_append.mp h with hmem | hmem
  · exact ((pairwise_append.mp hasc).2.2 a hmem b mem_cons_self).le
  · rw [mem_singleton.mp hmem]

theorem pos_le_pageEnd (habove : ∀ a ∈ page, Above pos (key a)) {p : κ} (hp : p ∈ pos) :
    ∃ q ∈ pageEnd key pos page, p ≤ q := by
  cases hlast : page.getLast? with
  | none => exact ⟨p, by rw [pageEnd, hlast]; exact hp, le_refl p⟩
  | some b =>
    exact ⟨key b, pageEnd_of_getLast hlast, (habove b (mem_of_getLast? hlast) p hp).le⟩

/-- **A page misses nothing up to its end.** -/
theorem mem_nextPage_of_le (hasc : l.Pairwise fun a b => key a < key b) (ha : a ∈ l)
    (habove : Above pos (key a)) (hle : ∃ p ∈ pageEnd key pos (nextPage key l pos n), key a ≤ p) :
    a ∈ nextPage key l pos n := by
  obtain ⟨p, hp, hle⟩ := hle
  cases hlast : (nextPage key l pos n).getLast? with
  | none =>
    -- An empty page ends at the position, and the element is above it.
    rw [pageEnd, hlast] at hp
    exact absurd hle (not_le.mpr (habove p hp))
  | some b =>
    rw [pageEnd_of_getLast hlast] at hp
    obtain rfl := Option.some.inj hp
    have hmem : a ∈ l.filter fun a => decide (Above pos (key a)) := by simpa [ha] using habove
    have hrest := hasc.filter fun a => decide (Above pos (key a))
    rw [← take_append_drop n (l.filter _)] at hmem hrest
    rcases mem_append.mp hmem with hmem | hmem
    · exact hmem
    · have hlt := (pairwise_append.mp hrest).2.2 b (mem_of_getLast? hlast) a hmem
      exact absurd hle (not_le.mpr hlt)

theorem mem_nextPage_of_length (ha : a ∈ l) (habove : Above pos (key a))
    (hlen : (l.filter fun a => decide (Above pos (key a))).length ≤ n) :
    a ∈ nextPage key l pos n := by
  rw [nextPage, take_of_length_le hlen]
  simpa [ha] using habove

end Pages

end RowStore
