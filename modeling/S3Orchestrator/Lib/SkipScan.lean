import Mathlib.Data.List.Sort

/-!
# Skip scans

The elements of an ordered list fall into classes, each a stretch of the list. A skip scan looks up
the first element from a bound on, and goes on with the bound behind that element's class.

* `heads`: the first element of each class;
* **`walk_eq`**: a scan returns the heads from its bound on;
* **`heads_behind`**: what is left behind a page of heads are the heads of what is left.
-/

namespace SkipScan

open List

variable {α β : Type} [LinearOrder β] (f : α → β)

/-- What is behind the class of an element. -/
def behind (a : α) (l : List α) : List α := l.filter fun x => decide (f a < f x)

def heads : List α → List α
  | [] => []
  | a :: l => a :: heads (behind f a l)
termination_by l => l.length
decreasing_by exact Nat.lt_succ_of_le (List.length_filter_le _ _)

variable {f} {a x : α} {l : List α}

theorem mem_behind : x ∈ behind f a l ↔ x ∈ l ∧ f a < f x := by
  rw [behind, mem_filter, decide_eq_true_eq]

theorem behind_cons_self : behind f a (a :: l) = behind f a l := by
  rw [behind, filter_cons_of_neg (by simp)]
  rfl

theorem heads_sublist (l : List α) : (heads f l).Sublist l := by
  fun_induction heads f l with
  | case1 => exact List.Sublist.refl _
  | case2 a l ih => exact (ih.trans filter_sublist).cons_cons a

theorem pairwise_heads (l : List α) : (heads f l).Pairwise fun a b => f a < f b := by
  fun_induction heads f l with
  | case1 => exact List.Pairwise.nil
  | case2 a l ih =>
    rw [pairwise_cons]
    exact ⟨fun b hb => (mem_behind.mp ((heads_sublist _).subset hb)).2, ih⟩

theorem heads_eq_self (hasc : l.Pairwise fun a b => f a < f b) : heads f l = l := by
  fun_induction heads f l with
  | case1 => rfl
  | case2 a l ih =>
    rw [pairwise_cons] at hasc
    have hall : behind f a l = l :=
      filter_eq_self.mpr fun x hx => decide_eq_true (hasc.1 x hx)
    rw [ih (hasc.2.filter _), hall]

theorem exists_head (hasc : l.Pairwise fun a b => f a ≤ f b) (hx : x ∈ l) :
    ∃ a ∈ heads f l, f a = f x := by
  fun_induction heads f l with
  | case1 => cases hx
  | case2 a l ih =>
    rw [pairwise_cons] at hasc
    rcases mem_cons.mp hx with rfl | htail
    · exact ⟨x, mem_cons_self, rfl⟩
    · rcases lt_or_eq_of_le (hasc.1 x htail) with hlt | heq
      · obtain ⟨b, hb, hbx⟩ := ih (hasc.2.filter _) (mem_behind.mpr ⟨htail, hlt⟩)
        exact ⟨b, mem_cons_of_mem a hb, hbx⟩
      · exact ⟨a, mem_cons_self, heq⟩

theorem behind_behind {b : α} (h : f a ≤ f b) : behind f b (behind f a l) = behind f b l := by
  rw [behind, behind, filter_filter]
  refine filter_congr fun x _ => ?_
  rw [Bool.eq_iff_iff, Bool.and_eq_true, decide_eq_true_eq, decide_eq_true_eq]
  exact and_iff_left_of_imp fun hlt => h.trans_lt hlt

/-- **What is left behind a page of heads.** -/
theorem heads_behind {n : Nat} (h : ((heads f l).take n).getLast? = some a) :
    heads f (behind f a l) = (heads f l).drop n := by
  induction n generalizing l with
  | zero => cases h
  | succ n ih =>
    cases l with
    | nil => simp [heads] at h
    | cons b l =>
      rw [heads, take_succ_cons] at h
      rw [heads, drop_succ_cons]
      cases hrest : ((heads f (behind f b l)).take n).getLast? with
      | none =>
        rw [getLast?_eq_none_iff] at hrest
        rw [hrest, getLast?_singleton, Option.some.injEq] at h
        subst h
        have hdrop : (heads f (behind f b l)).drop n = heads f (behind f b l) := by
          rcases take_eq_nil_iff.mp hrest with rfl | hnil
          · rfl
          · rw [hnil, drop_nil]
        rw [behind_cons_self, hdrop]
      | some c =>
        have hlast : a = c := by
          rw [getLast?_cons, hrest] at h
          exact (Option.some.inj h).symm
        subst hlast
        have hmem : a ∈ behind f b l :=
          (heads_sublist _).subset (mem_of_mem_take (mem_of_getLast? hrest))
        have hlt := (mem_behind.mp hmem).2
        have hskip : behind f a (b :: l) = behind f a (behind f b l) := by
          rw [behind_behind hlt.le, behind, filter_cons_of_neg (by simpa using hlt.le)]
          rfl
        rw [hskip, ih hrest]

/-! ## The scan -/

section Walk

variable {Λ : Type} (next : Λ → Option α) (bound : α → Λ)

/-- At most so many look-ups, each from the bound behind what the one before it found. -/
def walk : Nat → Λ → List α
  | 0, _ => []
  | n + 1, lo =>
    match next lo with
    | none => []
    | some a => a :: walk n (bound a)

variable {next bound} (rest : Λ → List α) (good : Λ → Prop)

/-- **A scan returns the heads of what its bound leaves.** -/
theorem walk_eq (hnext : ∀ lo, good lo → next lo = (rest lo).head?)
    (hgood : ∀ lo, good lo → ∀ a ∈ rest lo, good (bound a))
    (hbound : ∀ lo, good lo → ∀ a ∈ rest lo, rest (bound a) = behind f a (rest lo)) (n : Nat)
    {lo : Λ} (hlo : good lo) : walk next bound n lo = (heads f (rest lo)).take n := by
  induction n generalizing lo with
  | zero => rfl
  | succ n ih =>
    rw [walk, hnext lo hlo]
    cases hrest : rest lo with
    | nil => simp [heads]
    | cons a l =>
      have hmem : a ∈ rest lo := by
        rw [hrest]
        exact mem_cons_self
      rw [head?_cons, heads, take_succ_cons, ← behind_cons_self, ← hrest, ← hbound lo hlo a hmem]
      exact congrArg (a :: ·) (ih (hgood lo hlo a hmem))

end Walk

end SkipScan
