import Mathlib.Data.List.Basic

/-!
# Paged listings

A listing answers a cursor with a page, and a page that is not the last one leads to the next
cursor. A client follows the cursors until a page leads nowhere.

* `Follows`: the pages a client sees from a cursor on;
* **`Advances.exists_follows`**: the pages of such a listing are all that the cursor leaves.
-/

namespace Paging

variable {γ π ε α : Type}

/-- The pages a client sees from a cursor on. -/
inductive Follows (list : γ → Except ε π) (next : π → Option γ) : γ → List π → Prop
  | last {c : γ} {page : π} (hpage : list c = .ok page) (hend : next page = none) :
      Follows list next c [page]
  | more {c c' : γ} {page : π} {pages : List π} (hpage : list c = .ok page)
      (hmore : next page = some c') (hrest : Follows list next c' pages) :
      Follows list next c (page :: pages)

variable {list : γ → Except ε π} {next : π → Option γ} {c c' : γ} {page : π} {pages : List π}

theorem follows_of_last (hpage : list c = .ok page) (hend : next page = none) :
    Follows list next c pages ↔ pages = [page] := by
  constructor
  · intro h
    cases h with
    | last hpage' _ =>
      rw [hpage, Except.ok.injEq] at hpage'
      rw [hpage']
    | more hpage' hmore _ =>
      rw [hpage, Except.ok.injEq] at hpage'
      rw [← hpage', hend] at hmore
      cases hmore
  · rintro rfl
    exact .last hpage hend

theorem Follows.ne_of_loop (hpage : list c = .ok page) (hmore : next page = some c)
    (h : Follows list next c' pages) : c' ≠ c := by
  induction h with
  | last hpage' hend =>
    rintro rfl
    rw [hpage, Except.ok.injEq] at hpage'
    rw [← hpage', hmore] at hend
    cases hend
  | more hpage' hmore' _ ih =>
    rintro rfl
    rw [hpage, Except.ok.injEq] at hpage'
    rw [← hpage', hmore, Option.some.injEq] at hmore'
    exact ih hmore'.symm

/-- Each page takes some of what its cursor leaves, from the front, and the next cursor leaves the
rest. -/
def Advances (list : γ → Except ε π) (next : π → Option γ) (items : π → List α)
    (left : γ → List α) (P : γ → Prop) : Prop :=
  ∀ c, P c → ∃ page, list c = .ok page ∧
    (next page = none ∧ items page = left c ∨
      ∃ c', next page = some c' ∧ P c' ∧ items page ≠ [] ∧ left c = items page ++ left c')

theorem Advances.exists_follows {items : π → List α} {left : γ → List α} {P : γ → Prop}
    (h : Advances list next items left P) (hc : P c) :
    ∃ pages, Follows list next c pages ∧ pages.flatMap items = left c := by
  -- On the number of items the cursor leaves: a page that is not the last takes at least one.
  induction hn : (left c).length using Nat.strongRecOn generalizing c with
  | ind n ih =>
    obtain ⟨page, hpage, ⟨hend, hitems⟩ | ⟨c', hmore, hc', hne, hleft⟩⟩ := h c hc
    · exact ⟨[page], .last hpage hend, by simp [hitems]⟩
    · have hlt : (left c').length < n := by
        have hpos := List.length_pos_of_ne_nil hne
        rw [← hn, hleft, List.length_append]
        omega
      obtain ⟨pages, hfollows, hall⟩ := ih _ hlt hc' rfl
      exact ⟨page :: pages, .more hpage hmore hfollows, by rw [List.flatMap_cons, hall, hleft]⟩

end Paging
