import Mathlib.Algebra.Order.BigOperators.Group.List
import Mathlib.Data.List.Induction
import Mathlib.Data.List.Sort
import Mathlib.Tactic.Ring
import Mathlib.Tactic.Linarith

/-!
# Tables and tallies

* `Table ρ clash`: rows no two of which clash, as a table under a uniqueness constraint holds them.
  `insert?` refuses a row that clashes with one already there, `upsert` replaces it, `deleteWhere`
  removes the rows a condition selects, `update` changes columns the constraint does not read.
-/

namespace RowStore

open List

/-! ## Sums of a column -/

section SumOn

variable {ρ : Type} (f : ρ → Int) (p : ρ → Bool)

def sumOn (rows : List ρ) : Int := ((rows.filter p).map f).sum

@[simp] theorem sumOn_nil : sumOn f p [] = 0 := rfl

theorem sumOn_cons (r : ρ) (rows : List ρ) :
    sumOn f p (r :: rows) = (if p r then f r else 0) + sumOn f p rows := by
  unfold sumOn
  rw [filter_cons]
  split_ifs <;> simp

theorem sumOn_singleton (r : ρ) : sumOn f p [r] = if p r then f r else 0 := by
  rw [sumOn_cons, sumOn_nil, add_zero]

@[simp] theorem sumOn_append (rows rows' : List ρ) :
    sumOn f p (rows ++ rows') = sumOn f p rows + sumOn f p rows' := by
  simp [sumOn, filter_append]

variable {rows : List ρ} {r : ρ}

theorem sumOn_set {i : Nat} (h : rows[i]? = some r) (r' : ρ) : sumOn f p (rows.set i r') =
      sumOn f p rows - (if p r then f r else 0) + (if p r' then f r' else 0) := by
  induction rows generalizing i with
  | nil => simp at h
  | cons a rows ih =>
    cases i with
    | zero =>
      obtain rfl : a = r := by simpa using h
      rw [set_cons_zero, sumOn_cons, sumOn_cons]
      ring
    | succ i =>
      rw [set_cons_succ, sumOn_cons, sumOn_cons, ih (by simpa using h)]
      ring

theorem sumOn_eraseIdx {i : Nat} (h : rows[i]? = some r) :
    sumOn f p (rows.eraseIdx i) = sumOn f p rows - if p r then f r else 0 := by
  induction rows generalizing i with
  | nil => simp at h
  | cons a rows ih =>
    cases i with
    | zero =>
      obtain rfl : a = r := by simpa using h
      rw [eraseIdx_cons_zero, sumOn_cons]
      ring
    | succ i =>
      rw [eraseIdx_cons_succ, sumOn_cons, sumOn_cons, ih (by simpa using h)]
      ring

theorem sumOn_add (g : ρ → Int) (rows : List ρ) :
    sumOn (fun r => f r + g r) p rows = sumOn f p rows + sumOn g p rows := by
  induction rows with
  | nil => rfl
  | cons r rows ih =>
    rw [sumOn_cons, sumOn_cons, sumOn_cons, ih]
    split_ifs <;> ring

theorem sumOn_filter_add (q : ρ → Bool) (rows : List ρ) :
    sumOn f p (rows.filter q) + sumOn f p (rows.filter fun r => !q r) = sumOn f p rows := by
  induction rows with
  | nil => rfl
  | cons r rows ih =>
    cases hq : q r <;> simp only [filter_cons, hq, sumOn_cons, Bool.not_true, Bool.not_false,
      if_true, Bool.false_eq_true, if_false] <;> linarith

theorem sumOn_filter_not (q : ρ → Bool) (rows : List ρ) :
    sumOn f p (rows.filter fun r => !q r) = sumOn f p rows - sumOn f p (rows.filter q) := by
  have := sumOn_filter_add f p q rows
  linarith

theorem sumOn_filter (q : ρ → Bool) (rows : List ρ) :
    sumOn f p (rows.filter q) = sumOn f (fun r => p r && q r) rows := by
  unfold sumOn
  rw [filter_filter]

theorem sumOn_nonneg (h : ∀ r ∈ rows, p r = true → 0 ≤ f r) : 0 ≤ sumOn f p rows := by
  refine sum_nonneg ?_
  intro x hx
  obtain ⟨r, hr, rfl⟩ := mem_map.mp hx
  obtain ⟨hr, hp⟩ := mem_filter.mp hr
  exact h r hr hp

theorem sumOn_congr {g : ρ → Int} {q : ρ → Bool}
    (h : ∀ r ∈ rows, p r = q r ∧ (q r = true → f r = g r)) : sumOn f p rows = sumOn g q rows := by
  induction rows with
  | nil => rfl
  | cons r rows ih =>
    obtain ⟨hp, hf⟩ := h r mem_cons_self
    rw [sumOn_cons, sumOn_cons, ih fun r' hr' => h r' (mem_cons_of_mem _ hr'), hp]
    cases hq : q r
    · rfl
    · simp [hf hq]

theorem sumOn_eq_zero (h : ∀ r ∈ rows, p r = true → f r = 0) : sumOn f p rows = 0 := by
  refine sum_eq_zero fun x hx => ?_
  obtain ⟨r, hr, rfl⟩ := mem_map.mp hx
  obtain ⟨hr, hp⟩ := mem_filter.mp hr
  exact h r hr hp

theorem sumOn_map {ρ' : Type} (g : ρ' → ρ) (rows : List ρ') :
    sumOn f p (rows.map g) = sumOn (fun r => f (g r)) (fun r => p (g r)) rows := by
  induction rows with
  | nil => rfl
  | cons r rows ih => rw [map_cons, sumOn_cons, sumOn_cons, ih]

theorem sumOn_perm {rows rows' : List ρ} (h : rows.Perm rows') : sumOn f p rows = sumOn f p rows' :=
  ((h.filter p).map f).sum_eq

theorem sumOn_filter_ne_zero (rows : List ρ) :
    sumOn f p (rows.filter fun r => decide (f r ≠ 0)) = sumOn f p rows := by
  induction rows with
  | nil => rfl
  | cons r rows ih =>
    rw [filter_cons, sumOn_cons]
    by_cases hr : f r = 0
    · rw [if_neg (by simpa using hr), ih, hr, ite_self, zero_add]
    · rw [if_pos (by simpa using hr), sumOn_cons, ih]

theorem sumOn_neg (rows : List ρ) : sumOn (fun r => -f r) p rows = -sumOn f p rows := by
  induction rows with
  | nil => rfl
  | cons r rows ih =>
    rw [sumOn_cons, sumOn_cons, ih]
    split_ifs <;> ring

theorem le_sumOn_of_mem (rows : List ρ) (h : ∀ r ∈ rows, p r = true → 0 ≤ f r) (hr : r ∈ rows) :
    (if p r then f r else 0) ≤ sumOn f p rows := by
  obtain ⟨l1, l2, rfl⟩ := append_of_mem hr
  have h1 : 0 ≤ sumOn f p l1 := sumOn_nonneg f p fun x hx => h x (by simp [hx])
  have h2 : 0 ≤ sumOn f p l2 := sumOn_nonneg f p fun x hx => h x (by simp [hx])
  rw [sumOn_append, sumOn_cons]
  linarith

theorem sumOn_matched_le {κ γ : Type} [DecidableEq κ] {key : ρ → κ} {id : γ → κ} {g : γ → Int}
    {q : γ → Bool} (h : ∀ r ∈ rows, p r = true → 0 ≤ f r) {cs : List γ} (hnd : (cs.map id).Nodup)
    (hrow : ∀ c ∈ cs, ∃ r ∈ rows, key r = id c ∧ p r = q c ∧ f r = g c) :
    sumOn g q cs ≤ sumOn f p (rows.filter fun r => decide (key r ∈ cs.map id)) := by
  induction cs with
  | nil => simp
  | cons c cs ih =>
    obtain ⟨hc, hnd⟩ := nodup_cons.mp hnd
    have hrest := ih hnd fun c' hc' => hrow c' (mem_cons_of_mem _ hc')
    obtain ⟨r, hr, hkey, hp, hf⟩ := hrow c mem_cons_self
    have hsplit := sumOn_filter_add f p (fun x => decide (key x = id c))
      (rows.filter fun x => decide (key x ∈ (c :: cs).map id))
    -- The row of `c` is not among those of the other requests.
    have hother : (rows.filter fun x => decide (key x ∈ (c :: cs).map id)).filter
        (fun x => !decide (key x = id c)) =
        rows.filter fun x => decide (key x ∈ cs.map id) := by
      rw [filter_filter]
      refine filter_congr fun x _ => ?_
      by_cases hx : key x = id c
      · simp [hx, hc]
      · simp [hx]
    have hown := le_sumOn_of_mem f p ((rows.filter fun x =>
      decide (key x ∈ (c :: cs).map id)).filter fun x => decide (key x = id c))
      (fun x hx => h x (mem_of_mem_filter (mem_of_mem_filter hx))) (r := r)
      (by simp [hr, hkey])
    rw [hother] at hsplit
    rw [hp, hf] at hown
    rw [sumOn_cons]
    linarith

end SumOn

theorem flatMap_filter_perm {ρ κ : Type} [DecidableEq κ] (key : ρ → κ) {keys : List κ}
    (hnd : keys.Nodup) {rows : List ρ} (h : ∀ r ∈ rows, key r ∈ keys) :
    (keys.flatMap fun k => rows.filter fun r => decide (key r = k)).Perm rows := by
  induction keys generalizing rows with
  | nil =>
    cases rows with
    | nil => exact List.Perm.nil
    | cons r rows => exact absurd (h r mem_cons_self) not_mem_nil
  | cons k keys ih =>
    obtain ⟨hk, hnd⟩ := nodup_cons.mp hnd
    -- The other keys find the same rows once those of `k` are gone.
    have hrest : (keys.flatMap fun k' => rows.filter fun r => decide (key r = k')) =
        keys.flatMap fun k' =>
          (rows.filter fun r => !decide (key r = k)).filter fun r => decide (key r = k') := by
      refine flatMap_congr fun k' hk' => ?_
      rw [filter_filter]
      refine filter_congr fun r _ => ?_
      by_cases hr : key r = k'
      · have : k' ≠ k := fun he => hk (he ▸ hk')
        simp [hr, this]
      · simp [hr]
    have hkeys : ∀ r ∈ rows.filter (fun r => !decide (key r = k)), key r ∈ keys := by
      intro r hr
      obtain ⟨hr, hne⟩ := mem_filter.mp hr
      rcases mem_cons.mp (h r hr) with he | hmem
      · simp [he] at hne
      · exact hmem
    rw [flatMap_cons, hrest]
    exact (List.Perm.append_left _ (ih hnd hkeys)).trans (filter_append_perm _ rows)

/-! ## Tables under a uniqueness constraint -/

structure Table (ρ : Type) (clash : ρ → ρ → Bool) where
  rows : List ρ
  distinct : rows.Pairwise fun a b => clash a b = false

namespace Table

variable {ρ : Type} {clash : ρ → ρ → Bool}

def empty : Table ρ clash := ⟨[], List.Pairwise.nil⟩

instance : Inhabited (Table ρ clash) := ⟨empty⟩

@[simp] theorem rows_empty : (empty : Table ρ clash).rows = [] := rfl

/-- Add a row, unless it clashes with one already there. -/
def insert? (t : Table ρ clash) (r : ρ) : Option (Table ρ clash) :=
  if h : (t.rows.any fun a => clash a r) = true then none
  else some ⟨t.rows ++ [r], by
    rw [List.pairwise_append]
    refine ⟨t.distinct, List.pairwise_singleton _ _, fun a ha b hb => ?_⟩
    rw [List.mem_singleton] at hb
    subst hb
    simp only [List.any_eq_true, not_exists, not_and, Bool.not_eq_true] at h
    exact h a ha⟩

variable {t : Table ρ clash} {r : ρ}

theorem insert?_eq_some {t t' : Table ρ clash} :
    t.insert? r = some t' ↔ (∀ a ∈ t.rows, clash a r = false) ∧ t'.rows = t.rows ++ [r] := by
  unfold insert?
  split_ifs with h
  · refine iff_of_false (by simp) ?_
    rintro ⟨hc, -⟩
    obtain ⟨a, ha, har⟩ := any_eq_true.mp h
    rw [hc a ha] at har
    cases har
  · simp only [any_eq_true, not_exists, not_and, Bool.not_eq_true] at h
    constructor
    · intro he
      cases he
      exact ⟨h, rfl⟩
    · rintro ⟨_, he⟩
      cases t'
      cases he
      rfl

theorem exists_insert (h : ∀ a ∈ t.rows, clash a r = false) : ∃ t', t.insert? r = some t' := by
  have hnone : ¬ (t.rows.any fun a => clash a r) = true := by
    simpa using h
  exact ⟨_, dif_neg hnone⟩

def deleteWhere (t : Table ρ clash) (p : ρ → Bool) : Table ρ clash :=
  ⟨t.rows.filter fun r => !p r, t.distinct.filter _⟩

@[simp] theorem rows_deleteWhere (t : Table ρ clash) (p : ρ → Bool) :
    (t.deleteWhere p).rows = t.rows.filter fun r => !p r := rfl

theorem deleteWhere_eq_self {p : ρ → Bool} (h : ∀ r ∈ t.rows, p r = false) :
    t.deleteWhere p = t := by
  have hrows : (t.rows.filter fun r => !p r) = t.rows := by
    rw [filter_eq_self]
    intro r hr
    simp [h r hr]
  cases t
  simpa [deleteWhere] using hrows

theorem filter_eq_singleton {p : ρ → Bool} (hr : r ∈ t.rows) (hp : p r = true)
    (h : ∀ a, p a = true → clash a r = true ∧ clash r a = true) :
    t.rows.filter p = [r] := by
  obtain ⟨l1, l2, hl⟩ := append_of_mem hr
  have hd := t.distinct
  rw [hl, pairwise_append, pairwise_cons] at hd
  obtain ⟨_, ⟨h2, _⟩, h1⟩ := hd
  have hl1 : l1.filter p = [] := by
    rw [filter_eq_nil_iff]
    intro a ha hpa
    have := h1 a ha r mem_cons_self
    rw [(h a hpa).1] at this
    cases this
  have hl2 : l2.filter p = [] := by
    rw [filter_eq_nil_iff]
    intro a ha hpa
    have := h2 a ha
    rw [(h a hpa).2] at this
    cases this
  simp [hl, hl1, hl2, hp]

/-- Put a row in place of the one it clashes with, or beside the others. -/
def upsert (t : Table ρ clash) (r : ρ) : Table ρ clash :=
  ⟨(t.rows.filter fun a => !clash a r) ++ [r], by
    rw [List.pairwise_append]
    refine ⟨t.distinct.filter _, List.pairwise_singleton _ _, fun a ha b hb => ?_⟩
    rw [List.mem_singleton] at hb
    subst hb
    simpa using (List.mem_filter.mp ha).2⟩

@[simp] theorem rows_upsert (t : Table ρ clash) (r : ρ) :
    (t.upsert r).rows = (t.rows.filter fun a => !clash a r) ++ [r] := rfl

/-- Change every row in a way the constraint does not see. -/
def update (t : Table ρ clash) (f : ρ → ρ) (h : ∀ a b, clash (f a) (f b) = clash a b) :
    Table ρ clash :=
  ⟨t.rows.map f, by simpa only [List.pairwise_map, h] using t.distinct⟩

@[simp] theorem rows_update (t : Table ρ clash) (f : ρ → ρ)
    (h : ∀ a b, clash (f a) (f b) = clash a b) : (t.update f h).rows = t.rows.map f := rfl

theorem nodup (t : Table ρ clash) (hrefl : ∀ a, clash a a = true) : t.rows.Nodup :=
  t.distinct.imp fun {a b} hab heq => by
    rw [heq, hrefl b] at hab
    cases hab

theorem eq_of_clash (t : Table ρ clash) {a b : ρ} (ha : a ∈ t.rows) (hb : b ∈ t.rows)
    (hab : clash a b = true) (hba : clash b a = true) : a = b := by
  by_contra hne
  have hp := t.distinct
  obtain ⟨i, hi, rfl⟩ := getElem_of_mem ha
  obtain ⟨j, hj, rfl⟩ := getElem_of_mem hb
  rw [pairwise_iff_getElem] at hp
  rcases lt_trichotomy i j with h | h | h
  · rw [hp i j hi hj h] at hab
    cases hab
  · subst h
    exact hne rfl
  · rw [hp j i hj hi h] at hba
    cases hba

end Table

/-! ## Tallies -/

/-- Two entries of a tally clash when they are for the same key. -/
def sameEntry {κ : Type} [DecidableEq κ] (a b : κ × Int) : Bool := decide (a.1 = b.1)

/-- Running totals by key. A key with no entry stands at zero. -/
abbrev Tally (κ : Type) [DecidableEq κ] : Type := Table (κ × Int) sameEntry

namespace Tally

variable {κ : Type} [DecidableEq κ]

def total (p : κ → Bool) (t : Tally κ) : Int := sumOn Prod.snd (fun e => p e.1) t.rows

def get (t : Tally κ) (k : κ) : Int := total (fun k' => decide (k' = k)) t

def add (t : Tally κ) (k : κ) (n : Int) : Tally κ := t.upsert (k, get t k + n)

def addAll (t : Tally κ) (l : List (κ × Int)) : Tally κ := l.foldl (fun t e => add t e.1 e.2) t

@[simp] theorem total_empty (p : κ → Bool) : total p (Table.empty : Tally κ) = 0 := rfl

@[simp] theorem get_empty (k : κ) : get (Table.empty : Tally κ) k = 0 := rfl

theorem sumOn_of_key (p : κ → Bool) (k : κ) (l : List (κ × Int)) :
    sumOn Prod.snd (fun e => p e.1) (l.filter fun e => decide (e.1 = k)) =
      if p k then sumOn Prod.snd (fun e => decide (e.1 = k)) l else 0 := by
  induction l with
  | nil => simp
  | cons e l ih =>
    by_cases he : e.1 = k
    · simp only [filter_cons, he, decide_true, if_true, sumOn_cons, ih]
      split_ifs <;> simp
    · simp only [filter_cons, he, decide_false, Bool.false_eq_true, if_false, sumOn_cons, ih,
        zero_add]

theorem total_add (p : κ → Bool) (t : Tally κ) (k : κ) (n : Int) :
    total p (add t k n) = total p t + if p k then n else 0 := by
  have hk := sumOn_of_key p k t.rows
  simp only [total, add, Table.rows_upsert, sumOn_append, sameEntry, sumOn_filter_not, hk,
    sumOn_cons, sumOn_nil]
  split_ifs
  · simp only [get, total]
    ring
  · ring

theorem get_of_mem {t : Tally κ} {e : κ × Int} (he : e ∈ t.rows) : get t e.1 = e.2 := by
  have hfilter : t.rows.filter (fun e' => decide (e'.1 = e.1)) = [e] := by
    refine Table.filter_eq_singleton he (by simp) fun a ha => ?_
    have : a.1 = e.1 := by simpa using ha
    simp [sameEntry, this]
  simp [get, total, sumOn, hfilter]

theorem total_addAll (p : κ → Bool) (t : Tally κ) (l : List (κ × Int)) :
    total p (addAll t l) = total p t + sumOn Prod.snd (fun e => p e.1) l := by
  induction l generalizing t with
  | nil => simp [addAll]
  | cons e l ih =>
    change total p (addAll (add t e.1 e.2) l) = _
    rw [ih, total_add, sumOn_cons]
    ring

end Tally

/-! ## Rows grouped by a key -/

section GroupOn

variable {ρ κ : Type} [DecidableEq κ] (key : ρ → κ)

def addToGroup (groups : List (κ × List ρ)) (r : ρ) : List (κ × List ρ) :=
  if key r ∈ groups.map Prod.fst then
    groups.map fun g => if g.1 = key r then (g.1, g.2 ++ [r]) else g
  else groups ++ [(key r, [r])]

def groupOn (rows : List ρ) : List (κ × List ρ) := rows.foldl (addToGroup key) []

theorem groupOn_append_singleton (rows : List ρ) (r : ρ) :
    groupOn key (rows ++ [r]) = addToGroup key (groupOn key rows) r := by
  simp [groupOn]

theorem mem_groupOn {rows : List ρ} {g : κ × List ρ} :
    g ∈ groupOn key rows ↔ g.2 = rows.filter (fun r => decide (key r = g.1)) ∧ g.2 ≠ [] := by
  induction rows using reverseRecOn generalizing g with
  | nil =>
    constructor
    · intro h
      cases h
    · rintro ⟨h, hne⟩
      exact absurd h hne
  | append_singleton rows r ih =>
    rw [groupOn_append_singleton, filter_append]
    have hone : [r].filter (fun r => decide (key r = g.1)) = if key r = g.1 then [r] else [] := by
      by_cases h : key r = g.1 <;> simp [h]
    rw [hone]
    unfold addToGroup
    by_cases hk : key r ∈ (groupOn key rows).map Prod.fst
    · rw [if_pos hk, mem_map]
      obtain ⟨old, hold, holdkey⟩ := mem_map.mp hk
      constructor
      · rintro ⟨g', hg', rfl⟩
        have hspec := ih.mp hg'
        by_cases he : g'.1 = key r
        · simp [he, hspec.1]
        · rw [if_neg he]
          simpa [Ne.symm he] using hspec
      · rintro ⟨h, hne⟩
        by_cases he : key r = g.1
        · refine ⟨old, hold, ?_⟩
          have hspec := (ih.mp hold).1
          rw [holdkey, he] at hspec
          rw [if_pos holdkey]
          refine Prod.ext (holdkey.trans he) ?_
          rw [h, if_pos he, hspec]
        · rw [if_neg he, append_nil] at h
          exact ⟨g, ih.mpr ⟨h, hne⟩, if_neg fun h' => he h'.symm⟩
    · rw [if_neg hk, mem_append, mem_singleton]
      -- The key is new, so no earlier row has it.
      have hnew : rows.filter (fun r' => decide (key r' = key r)) = [] := by
        by_contra hne
        exact hk (mem_map.mpr ⟨(key r, _), ih.mpr ⟨rfl, hne⟩, rfl⟩)
      constructor
      · rintro (hg | rfl)
        · have he : ¬ key r = g.1 := fun he => hk (he ▸ mem_map_of_mem hg)
          rw [if_neg he, append_nil]
          exact ih.mp hg
        · simp [hnew]
      · rintro ⟨h, hne⟩
        by_cases he : key r = g.1
        · right
          rw [if_pos he, ← he, hnew, nil_append] at h
          exact Prod.ext he.symm h
        · left
          rw [if_neg he, append_nil] at h
          exact ih.mpr ⟨h, hne⟩

theorem nodup_groupOn (rows : List ρ) : ((groupOn key rows).map Prod.fst).Nodup := by
  induction rows using reverseRecOn with
  | nil => exact nodup_nil
  | append_singleton rows r ih =>
    rw [groupOn_append_singleton]
    unfold addToGroup
    split_ifs with hk
    · have hkeys : ((groupOn key rows).map fun g =>
          if g.1 = key r then (g.1, g.2 ++ [r]) else g).map Prod.fst =
          (groupOn key rows).map Prod.fst := by
        rw [map_map]
        refine map_congr_left fun g _ => ?_
        by_cases he : g.1 = key r <;> simp [he]
      rw [hkeys]
      exact ih
    · rw [map_append]
      exact ih.append (nodup_singleton _) (by simpa using hk)

end GroupOn

/-! ## Lookups -/

theorem lookup_filter_ne {κ ν : Type} [DecidableEq κ] [BEq κ] [LawfulBEq κ] (rows : List (κ × ν))
    (k k' : κ) : (rows.filter fun r => !decide (r.1 = k)).lookup k' =
      if k' = k then none else rows.lookup k' := by
  induction rows with
  | nil => simp
  | cons r rows ih =>
    by_cases hr : r.1 = k
    · rw [filter_cons_of_neg (by simp [hr]), ih]
      split_ifs with hk
      · rfl
      · rw [lookup_cons, hr, beq_false_of_ne hk]
    · rw [filter_cons_of_pos (by simp [hr]), lookup_cons, lookup_cons, ih]
      by_cases hk : k' = r.1
      · simp [hk, hr]
      · rw [beq_false_of_ne hk]

end RowStore
