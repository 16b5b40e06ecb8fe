import Mathlib.Data.List.Sort

/-!
# Fields joined by separators

Texts that are put together from fields with a separator between them, and what the order of the
joined texts has to do with the order of the fields.

* `append_cons_inj`, `intercalate_inj`: fields without the separator are read back;
* **`sort_joined_iff`**: sorting the joined texts is sorting the pairs just if no first field
  extends another one by a letter below the separator.
-/

namespace Fields

open List

section Reading

variable {α : Type} {sep : α} {s t x y : List α}

theorem append_cons_inj (hs : sep ∉ s) (ht : sep ∉ t) :
    s ++ sep :: x = t ++ sep :: y ↔ s = t ∧ x = y := by
  refine ⟨fun h => ?_, by rintro ⟨rfl, rfl⟩; rfl⟩
  induction s generalizing t with
  | nil =>
    cases t with
    | nil => exact ⟨rfl, (cons.inj h).2⟩
    | cons b t => exact absurd ((cons.inj h).1 ▸ mem_cons_self) ht
  | cons a s ih =>
    cases t with
    | nil => exact absurd ((cons.inj h).1.symm ▸ mem_cons_self) hs
    | cons b t =>
      obtain ⟨rfl, htail⟩ := cons.inj h
      obtain ⟨rfl, rfl⟩ := ih (fun hm => hs (mem_cons_of_mem _ hm))
        (fun hm => ht (mem_cons_of_mem _ hm)) htail
      exact ⟨rfl, rfl⟩

theorem append_cons_inj_right (hx : sep ∉ x) (hy : sep ∉ y) :
    s ++ sep :: x = t ++ sep :: y ↔ s = t ∧ x = y := by
  have hrev : ∀ a b : List α, (a ++ sep :: b).reverse = b.reverse ++ sep :: a.reverse := by
    simp
  rw [← reverse_inj, hrev, hrev, append_cons_inj (by simpa using hx) (by simpa using hy)]
  rw [reverse_inj, reverse_inj, and_comm]

/-- The text before the first separator, and the text after it. -/
def cut [DecidableEq α] (sep : α) (s : List α) : Option (List α × List α) :=
  if sep ∈ s then some (s.takeWhile (· != sep), (s.dropWhile (· != sep)).drop 1) else none

theorem takeWhile_append_sep [DecidableEq α] (h : sep ∉ s) (x : List α) :
    (s ++ sep :: x).takeWhile (· != sep) = s := by
  have hfree : ∀ c ∈ s, (c != sep) = true := fun c hc => bne_iff_ne.mpr fun hc' => h (hc' ▸ hc)
  simp [takeWhile_append_of_pos hfree]

theorem cut_append [DecidableEq α] (h : sep ∉ s) (x : List α) :
    cut sep (s ++ sep :: x) = some (s, x) := by
  have hsplit := takeWhile_append_dropWhile (p := (· != sep)) (l := s ++ sep :: x)
  rw [takeWhile_append_sep h, append_cancel_left_eq] at hsplit
  rw [cut, if_pos (by simp), takeWhile_append_sep h, hsplit]
  rfl

theorem cut_eq_some [DecidableEq α] : cut sep s = some (x, y) ↔ s = x ++ sep :: y ∧ sep ∉ x := by
  constructor
  · intro h
    have hmem : sep ∈ s := by
      by_contra hnot
      rw [cut, if_neg hnot] at h
      cases h
    obtain ⟨a, b, rfl, ha⟩ := eq_append_cons_of_mem hmem
    rw [cut_append ha, Option.some.injEq, Prod.mk.injEq] at h
    obtain ⟨rfl, rfl⟩ := h
    exact ⟨rfl, ha⟩
  · rintro ⟨rfl, hx⟩
    exact cut_append hx y

theorem cut_eq_none [DecidableEq α] : cut sep s = none ↔ sep ∉ s := by
  simp [cut]

theorem intercalate_cons (a : List α) (l : List (List α)) (hl : l ≠ []) :
    List.intercalate [sep] (a :: l) = a ++ sep :: List.intercalate [sep] l := by
  obtain ⟨b, l, rfl⟩ := exists_cons_of_ne_nil hl
  simp

theorem intercalate_inj {l l' : List (List α)} (hl : ∀ a ∈ l, sep ∉ a ∧ a ≠ [])
    (hl' : ∀ a ∈ l', sep ∉ a ∧ a ≠ []) :
    List.intercalate [sep] l = List.intercalate [sep] l' ↔ l = l' := by
  refine ⟨fun h => ?_, congrArg _⟩
  have hnil : ∀ a : List α, ∀ m : List (List α), a ≠ [] → intercalate [sep] (a :: m) ≠ [] := by
    intro a m ha
    cases m with
    | nil => simpa using ha
    | cons b m =>
      simp
  have hone : ∀ a b : List α, ∀ m : List (List α), sep ∉ a → m ≠ [] →
      intercalate [sep] [a] ≠ intercalate [sep] (b :: m) := by
    intro a b m ha hm heq
    rw [intercalate_cons b m hm] at heq
    have hmem : sep ∈ intercalate [sep] [a] := by
      rw [heq]
      simp
    exact ha (by simpa [intercalate] using hmem)
  induction l generalizing l' with
  | nil =>
    cases l' with
    | nil => rfl
    | cons b l' => exact absurd h.symm (hnil b l' (hl' b mem_cons_self).2)
  | cons a l ih =>
    cases l' with
    | nil => exact absurd h (hnil a l (hl a mem_cons_self).2)
    | cons b l' =>
      obtain ⟨ha, -⟩ := hl a mem_cons_self
      obtain ⟨hb, -⟩ := hl' b mem_cons_self
      by_cases hnl : l = []
      · subst hnl
        by_cases hnl' : l' = []
        · subst hnl'
          simpa [intercalate] using h
        · exact absurd h (hone a b l' ha hnl')
      · by_cases hnl' : l' = []
        · subst hnl'
          exact absurd h.symm (hone b a l hb hnl)
        · rw [intercalate_cons a l hnl, intercalate_cons b l' hnl', append_cons_inj ha hb] at h
          rw [h.1, ih (fun c hc => hl c (mem_cons_of_mem _ hc))
            (fun c hc => hl' c (mem_cons_of_mem _ hc)) h.2]

end Reading

/-! ## Order -/

section Order

variable {α : Type} [LT α] {sep : α}

def join (sep : α) (p : List α × List α) : List α := p.1 ++ sep :: p.2

/-- One field is another one with more letters, the first of them below the separator. -/
def ExtendsBelow (sep : α) (s t : List α) : Prop := ∃ b r, t = s ++ b :: r ∧ b < sep

theorem join_lt_of_extendsBelow {s t v w : List α} (h : ExtendsBelow sep s t) :
    t ++ sep :: w < s ++ sep :: v := by
  obtain ⟨b, r, rfl, hb⟩ := h
  induction s with
  | nil => exact cons_lt_cons_iff.mpr (.inl hb)
  | cons a s ih => exact cons_lt_cons_iff.mpr (.inr ⟨rfl, ih⟩)

theorem lt_append_cons (s : List α) (b : α) (r : List α) : s < s ++ b :: r := by
  induction s with
  | nil => exact nil_lt_cons b r
  | cons a s ih => exact cons_lt_cons_iff.mpr (.inr ⟨rfl, ih⟩)

variable [LE α] [Std.LawfulOrderLT α]

theorem join_lt {s t v w : List α} (h : s < t) (hext : ∀ b r, t = s ++ b :: r → sep < b) :
    s ++ sep :: v < t ++ sep :: w := by
  induction s generalizing t with
  | nil =>
    cases t with
    | nil => exact absurd h (List.lt_irrefl [])
    | cons b t => exact List.cons_lt_cons_iff.mpr (.inl (hext b t rfl))
  | cons a s ih =>
    cases t with
    | nil => exact absurd h (not_lt_nil _)
    | cons b t =>
      refine cons_lt_cons_iff.mpr ((cons_lt_cons_iff.mp h).imp_right ?_)
      rintro ⟨rfl, hst⟩
      exact ⟨rfl, ih hst fun c r hc => hext c r (by rw [hc]; rfl)⟩

theorem append_lt_append_iff (s : List α) {v w : List α} : s ++ v < s ++ w ↔ v < w := by
  induction s with
  | nil => rfl
  | cons a s ih =>
    rw [cons_append, cons_append, cons_lt_cons_iff, ih]
    simp [Std.lt_irrefl]

variable [Std.IsLinearOrder α] [DecidableEq α] [DecidableLT α]

/-- By the first field, and by the second where the first is the same. -/
def pairLE (p q : List α × List α) : Bool := decide (p.1 < q.1 ∨ p.1 = q.1 ∧ p.2 ≤ q.2)

theorem join_le {p q : List α × List α} (hq : sep ∉ q.1) (h : pairLE p q = true)
    (hext : ¬ ExtendsBelow sep p.1 q.1) : join sep p ≤ join sep q := by
  rcases of_decide_eq_true h with hlt | ⟨heq, hle⟩
  · refine List.le_of_lt (join_lt hlt fun b r hb => Std.lt_of_le_of_ne ?_ ?_)
    · exact Std.not_lt.mp fun hlt => hext ⟨b, r, hb, hlt⟩
    · rintro rfl
      exact hq (hb ▸ mem_append_right _ mem_cons_self)
  · intro hlt
    rw [join, join, heq, append_lt_append_iff, cons_lt_cons_iff] at hlt
    exact hle (hlt.resolve_left Std.lt_irrefl).2

theorem pairLE_trans (p q r : List α × List α) (hpq : pairLE p q = true)
    (hqr : pairLE q r = true) : pairLE p r = true := by
  refine decide_eq_true ?_
  rcases of_decide_eq_true hpq with hlt | ⟨heq, hle⟩ <;>
    rcases of_decide_eq_true hqr with hlt' | ⟨heq', hle'⟩
  · exact .inl (List.lt_trans hlt hlt')
  · exact .inl (heq' ▸ hlt)
  · exact .inl (heq ▸ hlt')
  · exact .inr ⟨heq.trans heq', List.le_trans hle hle'⟩

theorem pairLE_total (p q : List α × List α) : (pairLE p q || pairLE q p) = true := by
  rw [Bool.or_eq_true]
  by_cases hpq : p.1 < q.1
  · exact .inl (decide_eq_true (.inl hpq))
  by_cases hqp : q.1 < p.1
  · exact .inr (decide_eq_true (.inl hqp))
  have heq : p.1 = q.1 := List.le_antisymm hqp hpq
  exact (List.le_total p.2 q.2).imp (fun h => decide_eq_true (.inr ⟨heq, h⟩))
    fun h => decide_eq_true (.inr ⟨heq.symm, h⟩)

theorem pairwise_sort (l : List (List α)) :
    (l.mergeSort fun a b => decide (a ≤ b)).Pairwise (· ≤ ·) :=
  (List.pairwise_mergeSort (fun a b c hab hbc => decide_eq_true
    (List.le_trans (show a ≤ b from of_decide_eq_true hab) (show b ≤ c from of_decide_eq_true hbc)))
    (fun a b => by simpa using List.le_total a b) l).imp of_decide_eq_true

theorem sort_eq_iff {l l' : List (List α)} :
    (l.mergeSort fun a b => decide (a ≤ b)) = (l'.mergeSort fun a b => decide (a ≤ b)) ↔
      l.Perm l' := by
  constructor
  · intro h
    exact (mergeSort_perm l _).symm.trans (h ▸ mergeSort_perm l' _)
  · intro h
    exact List.Perm.eq_of_pairwise (fun _ _ _ _ => List.le_antisymm) (pairwise_sort l)
      (pairwise_sort l')
      ((mergeSort_perm l _).trans (h.trans (mergeSort_perm l' _).symm))

/-- **Sorting the joined texts is sorting the pairs, unless a first field extends another one by a
letter below the separator.** -/
theorem sort_joined_iff (ps : List (List α × List α)) (hps : ∀ p ∈ ps, sep ∉ p.1) :
    (ps.map (join sep)).mergeSort (fun a b => decide (a ≤ b)) =
        (ps.mergeSort pairLE).map (join sep) ↔
      ∀ p ∈ ps, ∀ q ∈ ps, ¬ ExtendsBelow sep p.1 q.1 := by
  have hpairs := pairwise_mergeSort pairLE_trans pairLE_total ps
  have hmem : ∀ {p}, p ∈ ps.mergeSort pairLE ↔ p ∈ ps := (mergeSort_perm ps pairLE).mem_iff
  have htexts := pairwise_sort (ps.map (join sep))
  constructor
  · -- The texts of the sorted pairs are in order, and the two pairs come in the other order.
    rintro heq p hp q hq hext
    have hlt : p.1 < q.1 := by
      obtain ⟨b, r, hb, -⟩ := hext
      rw [hb]
      exact lt_append_cons p.1 b r
    rw [heq, pairwise_map] at htexts
    obtain ⟨i, hi, rfl⟩ := getElem_of_mem (hmem.mpr hp)
    obtain ⟨j, hj, rfl⟩ := getElem_of_mem (hmem.mpr hq)
    rcases lt_trichotomy i j with hij | rfl | hij
    · exact List.pairwise_iff_getElem.mp htexts i j hi hj hij (join_lt_of_extendsBelow hext)
    · exact List.lt_irrefl _ hlt
    · rcases of_decide_eq_true (List.pairwise_iff_getElem.mp hpairs j i hj hi hij) with h | ⟨h, -⟩
      · exact List.lt_asymm h hlt
      · exact List.lt_irrefl _ (h ▸ hlt)
  · intro hext
    refine List.Perm.eq_of_pairwise (fun _ _ _ _ => List.le_antisymm) htexts ?_ ?_
    · rw [List.pairwise_map]
      refine hpairs.imp_of_mem fun {p q} hp hq h => ?_
      exact join_le (hps q (hmem.mp hq)) h (hext p (hmem.mp hp) q (hmem.mp hq))
    · exact (mergeSort_perm _ _).trans ((mergeSort_perm ps pairLE).map _).symm

end Order

theorem mergeSort_pair {β : Type} (le : β → β → Bool) (a b : β) :
    [a, b].mergeSort le = if le a b = true then [a, b] else [b, a] := by
  simp [mergeSort, merge]

end Fields
