import S3Orchestrator.Lib.Merge
import Mathlib.Tactic.Linarith
import Mathlib.Tactic.Ring

/-!
# Paged passes

A pass lists the rows it has work for a page at a time, from the last row of the page before it on,
and hands the rows of a page to the work one after the other. A row that is done leaves the listing.
A page shorter than asked for is the last.

* **`capped_passes_finish`**: what a capped pass converts, and that repeating it finishes;
* **`reports_unfinished_iff`**: when a pass that was cut short says so.
-/

namespace S3Orchestrator.Walking

open RowStore List

/-- Why a walk ended. -/
inductive Stop where
  | exhausted
  | stopped
  | cancelled
  deriving DecidableEq, Repr

/-- When the context is cancelled: never, before a page is listed, or after so many rows of a page.
-/
inductive Moment where
  | never
  | before (page : Nat)
  | within (page handed : Nat)

/-- The walk sees the cancellation before this page. -/
def Moment.seen : Moment → Nat → Bool
  | .never, _ => false
  | .before i, page => decide (i ≤ page)
  | .within i _, page => decide (i < page)

variable {ρ κ : Type}

/-- The rows of a page that are handed out before the cancellation. -/
def Moment.hands (m : Moment) (page : Nat) (rows : List ρ) : List ρ :=
  match m with
  | .within i handed => if i = page then rows.take handed else rows
  | _ => rows

/-- The rows its work succeeds on, the page size by the rows converted, the cap (zero for none),
whether it pauses, and when it is cancelled. -/
structure Pass (ρ κ : Type) where
  cursorOf : ρ → κ
  converts : ρ → Bool
  pageSize : Nat → Nat
  cap : Nat
  pause : Bool
  moment : Moment

/-- The rows stored, the cursor, and what was handed out so far. -/
structure State (ρ κ : Type) where
  rows : List ρ
  after : Option κ := none
  page : Nat := 0
  handed : List ρ := []
  succeeded : Nat := 0

variable [LinearOrder κ] [DecidableEq ρ]

namespace Pass

/-- A row that was converted is no longer listed. -/
def left (p : Pass ρ κ) (handed rows : List ρ) : List ρ :=
  rows.filter fun r => !(decide (r ∈ handed) && p.converts r)

/-- Hands out a page of rows and moves the cursor behind it. -/
def visit (p : Pass ρ κ) (s : State ρ κ) (rows : List ρ) : State ρ κ where
  rows := p.left (p.moment.hands s.page rows) s.rows
  after := pageEnd p.cursorOf s.after rows
  page := s.page + 1
  handed := s.handed ++ p.moment.hands s.page rows
  succeeded := s.succeeded + (p.moment.hands s.page rows).countP p.converts

/-- The visitor stops the walk: the cap is reached, or the pause after a full page is cut short. -/
def stops (p : Pass ρ κ) (s : State ρ κ) (full : Bool) : Bool :=
  decide (0 < p.cap ∧ p.cap ≤ s.succeeded) || (full && p.pause && p.moment.seen s.page)

/-- Pages until the rows run out, the pass stops or it is cancelled. -/
def walk (p : Pass ρ κ) : Nat → State ρ κ → Option (Stop × State ρ κ)
  | 0, _ => none
  | fuel + 1, s =>
    if p.moment.seen s.page then some (.cancelled, s)
    else
      let size := p.pageSize s.succeeded
      let rows := nextPage p.cursorOf s.rows s.after size
      if rows = [] then some (.exhausted, s)
      else if p.stops (p.visit s rows) (decide (size ≤ rows.length)) then
        some (.stopped, p.visit s rows)
      else if rows.length < size then some (.exhausted, p.visit s rows)
      else p.walk fuel (p.visit s rows)

/-- The pass over a listing; a walk has no more pages than the listing rows, and an empty one. -/
def run (p : Pass ρ κ) (rows : List ρ) : Option (Stop × State ρ κ) :=
  p.walk (rows.length + 1) { rows := rows }

end Pass

def bulkRewritePageSize (batch maxRewrites rewritten : Nat) : Nat :=
  if maxRewrites = 0 then batch
  else if maxRewrites - rewritten < batch then maxRewrites - rewritten
  else batch

def bulkRewrite (cursorOf : ρ → κ) (converts : ρ → Bool) (batch maxRewrites : Nat) : Pass ρ κ :=
  ⟨cursorOf, converts, bulkRewritePageSize batch maxRewrites, maxRewrites, false, .never⟩

def backfill (cursorOf : ρ → κ) (converts : ρ → Bool) (batchSize maxObjects : Nat) (pause : Bool)
    (m : Moment) : Pass ρ κ :=
  ⟨cursorOf, converts, fun _ => batchSize, maxObjects, pause, m⟩

def rotateKey (cursorOf : ρ → κ) (converts : ρ → Bool) (batchSize : Nat) (m : Moment) : Pass ρ κ :=
  ⟨cursorOf, converts, fun _ => batchSize, 0, false, m⟩

/-! ## One page -/

/-- The rows that are behind the cursor, in the order of the listing. -/
def Pass.ahead (p : Pass ρ κ) (s : State ρ κ) : List ρ :=
  s.rows.filter fun r => decide (Above s.after (p.cursorOf r))

variable {p : Pass ρ κ} {s : State ρ κ} {fuel n : Nat}

/-- The rows are in the order of their cursors. -/
def Listed (p : Pass ρ κ) (rows : List ρ) : Prop :=
  rows.Pairwise fun a b => p.cursorOf a < p.cursorOf b

variable {rows : List ρ}

omit [DecidableEq ρ] in
theorem mem_of_hands {m : Moment} {i : Nat} {r : ρ} (h : r ∈ m.hands i rows) : r ∈ rows := by
  unfold Moment.hands at h
  split at h
  · split_ifs at h
    · exact mem_of_mem_take h
    · exact h
  · exact h

theorem walk_succ (p : Pass ρ κ) (s : State ρ κ) (fuel : Nat) : p.walk (fuel + 1) s =
      if p.moment.seen s.page then some (.cancelled, s)
      else if (p.ahead s).take (p.pageSize s.succeeded) = [] then some (.exhausted, s)
      else
        let next := p.visit s ((p.ahead s).take (p.pageSize s.succeeded))
        let got := ((p.ahead s).take (p.pageSize s.succeeded)).length
        if p.stops next (decide (p.pageSize s.succeeded ≤ got)) then some (.stopped, next)
        else if got < p.pageSize s.succeeded then some (.exhausted, next)
        else p.walk fuel next :=
  rfl

theorem listed_visit (h : Listed p s.rows) (rows : List ρ) : Listed p (p.visit s rows).rows :=
  h.filter _

/-- **The page after a page**: what the first one takes is gone from the rows ahead, whatever its
rows turn into. -/
theorem ahead_visit (h : Listed p s.rows) (hne : (p.ahead s).take n ≠ []) :
    p.ahead (p.visit s ((p.ahead s).take n)) = (p.ahead s).drop n := by
  obtain ⟨init, last, hpage⟩ := eq_nil_or_concat' _ |>.resolve_left hne
  have hend : (p.visit s ((p.ahead s).take n)).after = some (p.cursorOf last) := by
    simp only [hpage]
    exact pageEnd_of_getLast getLast?_concat
  have hasc : Listed p (init ++ [last] ++ (p.ahead s).drop n) := by
    rw [← hpage, take_append_drop]
    exact h.filter _
  obtain ⟨hfront, _, hsplit⟩ := pairwise_append.mp hasc
  have hlast : last ∈ p.ahead s := mem_of_mem_take (hpage ▸ mem_concat_self)
  have habove : Above s.after (p.cursorOf last) := by simpa using (mem_filter.mp hlast).2
  have hnot : ∀ r, p.cursorOf last < p.cursorOf r →
      r ∉ p.moment.hands s.page ((p.ahead s).take n) := by
    intro r hr hmem
    rcases mem_append.mp (hpage ▸ mem_of_hands hmem) with hmem | hmem
    · exact lt_asymm hr ((pairwise_append.mp hfront).2.2 r hmem last mem_cons_self)
    · exact lt_irrefl _ (mem_singleton.mp hmem ▸ hr)
  -- Above the last row of the page means ahead, and past the page.
  have hfilter : p.ahead (p.visit s ((p.ahead s).take n)) =
      (p.ahead s).filter fun r => decide (p.cursorOf last < p.cursorOf r) := by
    rw [Pass.ahead, hend, Pass.visit, Pass.left]
    generalize p.moment.hands s.page ((p.ahead s).take n) = gone at hnot
    rw [Pass.ahead, filter_filter, filter_filter]
    refine filter_congr fun r _ => ?_
    by_cases hr : p.cursorOf last < p.cursorOf r
    · have hahead : Above s.after (p.cursorOf r) := fun k hk => (habove k hk).trans hr
      have hpast : Above (some (p.cursorOf last)) (p.cursorOf r) :=
        fun k hk => Option.some.inj hk ▸ hr
      simp only [hr, hpast, hahead, hnot r hr, decide_true, decide_false, Bool.false_and,
        Bool.not_false, Bool.and_self]
    · have hpast : ¬ Above (some (p.cursorOf last)) (p.cursorOf r) := fun h => hr (h _ rfl)
      simp only [hr, hpast, decide_false, Bool.false_and]
  rw [hfilter]
  nth_rewrite 1 [← take_append_drop n (p.ahead s)]
  rw [hpage, filter_append, filter_eq_nil_iff.mpr, nil_append, filter_eq_self.mpr]
  · exact fun r hr => decide_eq_true (hsplit last (by simp) r hr)
  · intro r hr
    rcases mem_append.mp hr with hr | hr
    · have hlt := (pairwise_append.mp hfront).2.2 r hr last mem_cons_self
      simpa using hlt.le
    · simp [mem_singleton.mp hr]

/-! ## Capped passes -/

omit [LinearOrder κ] in
theorem mem_left {handed rows : List ρ} {r : ρ} :
    r ∈ p.left handed rows ↔ r ∈ rows ∧ (r ∈ handed → p.converts r = false) := by
  simp [Pass.left, imp_iff_not_or]

omit [LinearOrder κ] in
theorem left_append (h1 h2 rows : List ρ) :
    p.left h2 (p.left h1 rows) = p.left (h1 ++ h2) rows := by
  simp only [Pass.left, filter_filter]
  refine filter_congr fun r _ => ?_
  cases p.converts r <;> simp [Bool.and_comm]

/-- What a walk has done between two of its states: the rows it handed to the work. -/
structure Went (p : Pass ρ κ) (s s' : State ρ κ) (front : List ρ) : Prop where
  handed : s'.handed = s.handed ++ front
  rows : s'.rows = p.left front s.rows
  succeeded : s'.succeeded = s.succeeded + front.countP p.converts

omit [LinearOrder κ] in
theorem Went.refl (p : Pass ρ κ) (s : State ρ κ) : Went p s s [] :=
  ⟨(append_nil _).symm, (filter_eq_self.mpr fun _ _ => by simp).symm, rfl⟩

omit [LinearOrder κ] in
theorem Went.visit {s' : State ρ κ} {page front : List ρ} (hm : p.moment = .never)
    (h : Went p (p.visit s page) s' front) : Went p s s' (page ++ front) where
  handed := by simp [h.handed, Pass.visit, hm, Moment.hands]
  rows := by simp [h.rows, Pass.visit, hm, Moment.hands, left_append]
  succeeded := by simp [h.succeeded, Pass.visit, hm, Moment.hands, Nat.add_assoc]

omit [LinearOrder κ] in
theorem Went.page (hm : p.moment = .never) (page : List ρ) : Went p s (p.visit s page) page := by
  simpa using (Went.refl p (p.visit s page)).visit hm

/-- **A capped walk** hands out a front of the listing, all of it unless the cap was reached, and
passes the cap by less than its last page. -/
theorem walk_capped (hm : p.moment = .never) (hsize : ∀ k < p.cap, 0 < p.pageSize k)
    (h : Listed p s.rows) (hfuel : (p.ahead s).length < fuel) (hs : s.succeeded < p.cap) :
    ∃ stop s' front, p.walk fuel s = some (stop, s') ∧ Went p s s' front ∧
      front <+: p.ahead s ∧ (s'.succeeded < p.cap → front = p.ahead s) ∧
      ∃ k < p.cap, s'.succeeded ≤ k + p.pageSize k := by
  induction fuel generalizing s with
  | zero => exact absurd hfuel (by omega)
  | succ fuel ih =>
    have hpos := hsize _ hs
    have hgain : (p.visit s ((p.ahead s).take (p.pageSize s.succeeded))).succeeded ≤
        s.succeeded + p.pageSize s.succeeded := by
      rw [(Went.page hm _).succeeded]
      exact Nat.add_le_add_left (countP_le_length.trans (length_take_le _ _)) _
    have hseen : ∀ i, p.moment.seen i = false := fun i => by rw [hm]; rfl
    simp only [walk_succ, hseen, Bool.false_eq_true, if_false]
    split_ifs with hnil hstop hshort
    · have hnil : p.ahead s = [] := by
        rcases take_eq_nil_iff.mp hnil with hzero | hnil
        · omega
        · exact hnil
      exact ⟨_, _, [], rfl, Went.refl p s, nil_prefix, fun _ => hnil.symm, _, hs,
        Nat.le_add_right ..⟩
    · have hcap : p.cap ≤ (p.visit s ((p.ahead s).take (p.pageSize s.succeeded))).succeeded := by
        simpa [Pass.stops, hseen, (by omega : 0 < p.cap)] using hstop
      exact ⟨_, _, _, rfl, Went.page hm _, take_prefix .., fun hlt => absurd hlt (by omega), _, hs,
        hgain⟩
    · have hall : (p.ahead s).take (p.pageSize s.succeeded) = p.ahead s :=
        take_of_length_le (by simp at hshort; omega)
      exact ⟨_, _, _, rfl, Went.page hm _, take_prefix .., fun _ => hall, _, hs, hgain⟩
    · have hahead := ahead_visit h hnil
      obtain ⟨stop, s', front, hwalk, hwent, hfront, hrest, hk⟩ :=
        ih (s := p.visit s ((p.ahead s).take (p.pageSize s.succeeded))) (listed_visit h _)
          (by rw [hahead, length_drop]
              have := length_pos_iff.mpr hnil
              simp at this; omega)
          (by simpa [Pass.stops, hseen, (by omega : 0 < p.cap)] using hstop)
      rw [hahead] at hfront hrest
      refine ⟨stop, s', _, hwalk, hwent.visit hm, ?_, fun hlt => ?_, hk⟩
      · nth_rewrite 2 [← take_append_drop (p.pageSize s.succeeded) (p.ahead s)]
        exact (prefix_append_right_inj _).mpr hfront
      · rw [hrest hlt, take_append_drop]

theorem run_capped (hm : p.moment = .never) (hcap : 0 < p.cap)
    (hsize : ∀ k < p.cap, 0 < p.pageSize k) (h : Listed p rows) :
    ∃ stop s, p.run rows = some (stop, s) ∧ s.handed <+: rows ∧ s.rows = p.left s.handed rows ∧
      s.succeeded = s.handed.countP p.converts ∧ (s.succeeded < p.cap → s.handed = rows) ∧
      ∃ k < p.cap, s.succeeded ≤ k + p.pageSize k := by
  have hahead : p.ahead { rows := rows } = rows := by simp [Pass.ahead, Above]
  obtain ⟨stop, s, front, hrun, hwent, hfront, hall, hk⟩ :=
    walk_capped (s := { rows := rows }) hm hsize h (by rw [hahead]; exact Nat.lt_succ_self _) hcap
  obtain rfl : s.handed = front := by simpa using hwent.handed
  rw [hahead] at hfront hall
  exact ⟨stop, s, hrun, hfront, hwent.rows, by simpa using hwent.succeeded, hall, hk⟩

/-- Passes repeated until one converts fewer rows than its cap, with the rows they leave. -/
def Pass.drain (p : Pass ρ κ) : Nat → List ρ → Option (List ρ)
  | 0, _ => none
  | n + 1, rows => (p.run rows).bind fun (_, s) =>
    if s.succeeded < p.cap then some s.rows else p.drain n s.rows

omit [LinearOrder κ] in
theorem countP_left {handed rows : List ρ} (h : handed <+: rows) :
    (p.left handed rows).countP p.converts + handed.countP p.converts ≤ rows.countP p.converts := by
  obtain ⟨rest, rfl⟩ := h
  have hnone : (p.left handed handed).countP p.converts = 0 :=
    countP_eq_zero.mpr fun r hr => by simp [(mem_left.mp hr).2 (mem_left.mp hr).1]
  have hrest : (p.left handed rest).countP p.converts ≤ rest.countP p.converts :=
    filter_sublist.countP_le
  simp only [Pass.left, filter_append, countP_append] at hnone hrest ⊢
  omega

theorem drain_capped (hm : p.moment = .never) (hcap : 0 < p.cap)
    (hsize : ∀ k < p.cap, 0 < p.pageSize k) (h : Listed p rows) (hn : rows.countP p.converts < n) :
    ∃ rest, p.drain n rows = some rest ∧ ∀ r ∈ rest, p.converts r = false := by
  induction n generalizing rows with
  | zero => exact absurd hn (by omega)
  | succ n ih =>
    obtain ⟨stop, s, hrun, hfront, hrows, hcount, hall, -⟩ := run_capped hm hcap hsize h
    simp only [Pass.drain, hrun, Option.bind_some]
    split_ifs with hlt
    · refine ⟨_, rfl, fun r hr => ?_⟩
      rw [hrows, hall hlt] at hr
      exact (mem_left.mp hr).2 (mem_left.mp hr).1
    · have hleft := hrows ▸ countP_left (p := p) hfront
      exact ih (hrows ▸ h.filter _) (by omega)

/-- **Capped passes respect their cap and finish the backlog.** -/
theorem capped_passes_finish (cursorOf : ρ → κ) (converts : ρ → Bool) (rows : List ρ)
    (h : rows.Pairwise fun a b => cursorOf a < cursorOf b) (c b : Nat) (hc : 0 < c) (hb : 0 < b)
    (pause : Bool) :
    (∃ stop s, (bulkRewrite cursorOf converts b c).run rows = some (stop, s) ∧ s.handed.Nodup ∧
      s.succeeded = min c (rows.countP converts)) ∧
    (∃ stop s, (backfill cursorOf converts b c pause .never).run rows = some (stop, s) ∧
      s.handed.Nodup ∧ min c (rows.countP converts) ≤ s.succeeded ∧ s.succeeded < c + b) ∧
    ∀ p, p = bulkRewrite cursorOf converts b c ∨ p = backfill cursorOf converts b c pause .never →
      ∃ rest, p.drain (rows.length + 1) rows = some rest ∧ ∀ r ∈ rest, converts r = false := by
  have hnodup : rows.Nodup := h.imp fun hlt heq => (heq ▸ hlt).false
  have hsize : ∀ k < c, 0 < bulkRewritePageSize b c k := by
    intro k hk
    unfold bulkRewritePageSize
    split_ifs <;> omega
  refine ⟨?_, ?_, ?_⟩
  · obtain ⟨stop, s, hrun, hfront, -, hcount, hall, k, hk, hle⟩ :=
      run_capped (p := bulkRewrite cursorOf converts b c) rfl hc hsize h
    refine ⟨stop, s, hrun, hnodup.sublist hfront.sublist, ?_⟩
    have hmost : s.succeeded ≤ rows.countP converts := hcount ▸ hfront.sublist.countP_le
    have hcap : s.succeeded ≤ c := by
      simp only [bulkRewrite, bulkRewritePageSize] at hle hk
      split_ifs at hle <;> omega
    by_cases hlt : s.succeeded < c
    · have hsame : s.succeeded = rows.countP converts := hall hlt ▸ hcount
      omega
    · omega
  · obtain ⟨stop, s, hrun, hfront, -, hcount, hall, k, hk, hle⟩ :=
      run_capped (p := backfill cursorOf converts b c pause .never) rfl hc (fun _ _ => hb) h
    refine ⟨stop, s, hrun, hnodup.sublist hfront.sublist, ?_, by simp [backfill] at hle hk; omega⟩
    by_cases hlt : s.succeeded < c
    · have hsame : s.succeeded = rows.countP converts := hall hlt ▸ hcount
      omega
    · omega
  · rintro p (rfl | rfl)
    · exact drain_capped (p := bulkRewrite ..) rfl hc hsize h (Nat.lt_succ_of_le countP_le_length)
    · exact drain_capped (p := backfill ..) rfl hc (fun _ _ => hb) h
        (Nat.lt_succ_of_le countP_le_length)

/-- A backlog of four rows, one of which cannot be converted, under a cap of two. -/
theorem capped_passes_finish_four :
    ∃ stop s, (bulkRewrite id (fun r => r != 2) 2 2).run [1, 2, 3, 4] = some (stop, s) ∧
      s.handed.Nodup ∧ s.succeeded = 2 :=
  (capped_passes_finish id (fun r => r != 2) [1, 2, 3, 4] (by decide) 2 2 (by decide) (by decide)
    false).1

/-! ## A cancelled pass -/

omit [DecidableEq ρ] in
theorem hands_of_ne {m : Moment} {i : Nat} (h : ∀ j, m ≠ .within i j) (rows : List ρ) :
    m.hands i rows = rows := by
  cases m with
  | never | before _ => rfl
  | within k j =>
    refine if_neg fun heq : k = i => h j ?_
    rw [heq]

/-- The rows converted when so many more of the rows ahead are out. -/
def Pass.converted (p : Pass ρ κ) (s : State ρ κ) (k : Nat) : Nat :=
  s.succeeded + ((p.ahead s).take k).countP p.converts

theorem converted_visit (h : Listed p s.rows) (hne : (p.ahead s).take n ≠ [])
    (hin : ∀ j, p.moment ≠ .within s.page j) (k : Nat) :
    p.converted (p.visit s ((p.ahead s).take n)) k = p.converted s (n + k) := by
  rw [Pass.converted, ahead_visit h hne, Pass.visit, hands_of_ne hin, Pass.converted, take_add,
    countP_append, Nat.add_assoc]

/-- **A walk that ends with its listing** handed out all of it, unless it was cancelled inside a
short page before the cap was reached. -/
theorem walk_whole {b : Nat} (hsize : ∀ k, p.pageSize k = b) (hb : 0 < b) (h : Listed p s.rows)
    (hfuel : (p.ahead s).length < fuel)
    (hcut : ∀ i j, p.moment = .within (s.page + i) j →
      (p.ahead s).length ≤ i * b + j ∨ (i + 1) * b ≤ (p.ahead s).length ∨
        0 < p.cap ∧ p.cap ≤ p.converted s (i * b + j)) :
    ∃ stop s', p.walk fuel s = some (stop, s') ∧
      (stop = .exhausted → s'.handed = s.handed ++ p.ahead s) := by
  induction fuel generalizing s with
  | zero => exact absurd hfuel (by omega)
  | succ fuel ih =>
    simp only [walk_succ, hsize]
    split_ifs with hseen hnil hstop hshort
    · exact ⟨_, _, rfl, fun h => by cases h⟩
    · have hnil : p.ahead s = [] := (take_eq_nil_iff.mp hnil).resolve_left (by omega)
      exact ⟨_, _, rfl, fun _ => by rw [hnil, append_nil]⟩
    · exact ⟨_, _, rfl, fun h => by cases h⟩
    · -- The last page: a cancellation inside it came after its last row.
      have hlen : (p.ahead s).length < b := by simp at hshort; omega
      have hall : (p.ahead s).take b = p.ahead s := take_of_length_le hlen.le
      refine ⟨_, _, rfl, fun _ => congrArg (s.handed ++ ·) ?_⟩
      rw [hall]
      by_cases hin : ∃ j, p.moment = .within s.page j
      · obtain ⟨j, hj⟩ := hin
        have hle : (p.ahead s).length ≤ j := by
          rcases hcut 0 j hj with hle | hle | hcap
          · simpa using hle
          · omega
          · -- The cap would have stopped the walk.
            refine absurd (Bool.or_eq_true_iff.mpr (.inl (decide_eq_true ?_))) hstop
            rw [hall]
            simpa [Pass.visit, hj, Moment.hands, Pass.converted] using hcap
        simpa [hj, Moment.hands] using take_of_length_le hle
      · exact hands_of_ne (fun j hj => hin ⟨j, hj⟩) _
    · have hpage : 0 < ((p.ahead s).take b).length := length_pos_iff.mpr hnil
      have hpage' : b ≤ (p.ahead s).length := by simp at hshort; omega
      have hahead := ahead_visit h hnil
      by_cases hin : ∃ j, p.moment = .within s.page j
      · -- Cancelled inside a full page: the next page is not listed.
        obtain ⟨j, hj⟩ := hin
        obtain ⟨fuel, rfl⟩ : ∃ f, fuel = f + 1 := ⟨fuel - 1, by omega⟩
        rw [Pass.walk, if_pos (by simp [hj, Moment.seen, Pass.visit])]
        exact ⟨_, _, rfl, fun h => by cases h⟩
      · obtain ⟨stop, s', hwalk, hwhole⟩ := ih (s := p.visit s ((p.ahead s).take b))
          (listed_visit h _) (by rw [hahead, length_drop]; omega) fun i j hj => by
            have hnext := hcut (i + 1) j (hj.trans (congrArg (Moment.within · j) (by
              simp only [Pass.visit]
              omega)))
            rw [hahead, length_drop, converted_visit h hnil fun j hj => hin ⟨j, hj⟩,
              show b + (i * b + j) = (i + 1) * b + j by rw [Nat.succ_mul]; omega]
            simp only [Nat.succ_mul] at hnext ⊢
            omega
        refine ⟨stop, s', hwalk, fun hend => ?_⟩
        rw [hwhole hend, hahead, Pass.visit, hands_of_ne fun j hj => hin ⟨j, hj⟩, append_assoc,
          take_append_drop]

theorem walk_cut {b i j : Nat} (hsize : ∀ k, p.pageSize k = b) (h : Listed p s.rows)
    (hfuel : (p.ahead s).length < fuel) (hm : p.moment = .within (s.page + i) j)
    (hj : i * b + j < (p.ahead s).length) (hlast : (p.ahead s).length < (i + 1) * b)
    (hcap : ¬ (0 < p.cap ∧ p.cap ≤ p.converted s (i * b + j))) :
    ∃ s', p.walk fuel s = some (.exhausted, s') ∧
      s'.handed.length < s.handed.length + (p.ahead s).length := by
  induction fuel generalizing s i with
  | zero => exact absurd hfuel (by omega)
  | succ fuel ih =>
    have hnil : (p.ahead s).take b ≠ [] := by
      rw [Ne, take_eq_nil_iff]
      rintro (rfl | hnil)
      · simp at hlast
      · simp [hnil] at hj
    have hseen : p.moment.seen s.page = false := by simp [hm, Moment.seen]
    simp only [walk_succ, hseen, hsize, Bool.false_eq_true, if_false]
    rw [if_neg hnil]
    cases i with
    | zero =>
      have hlen : (p.ahead s).length < b := by simpa using hlast
      have hall : (p.ahead s).take b = p.ahead s := take_of_length_le hlen.le
      have hstops : p.stops (p.visit s (p.ahead s)) (decide (b ≤ (p.ahead s).length)) = false := by
        simpa [Pass.stops, Pass.visit, hm, Moment.hands, Moment.seen, Pass.converted,
          hlen.not_ge] using hcap
      rw [hall, hstops, if_neg Bool.false_ne_true, if_pos hlen]
      simp [Pass.visit, hm, Moment.hands]
      omega
    | succ i =>
      have hahead := ahead_visit h hnil
      have hin : ∀ k, p.moment ≠ .within s.page k := fun k hk => by
        rw [hm] at hk
        injection hk
        omega
      have hshift : b + (i * b + j) = (i + 1) * b + j := by rw [Nat.succ_mul]; omega
      have hstops : p.stops (p.visit s ((p.ahead s).take b))
          (decide (b ≤ ((p.ahead s).take b).length)) = false := by
        have hle : (p.visit s ((p.ahead s).take b)).succeeded ≤
            p.converted s ((i + 1) * b + j) := by
          rw [← hshift, ← converted_visit h hnil hin]
          exact Nat.le_add_right ..
        have hlow : ¬ (0 < p.cap ∧ p.cap ≤ (p.visit s ((p.ahead s).take b)).succeeded) :=
          fun ⟨hpos, hreach⟩ => hcap ⟨hpos, hreach.trans hle⟩
        have hlater : p.moment.seen (p.visit s ((p.ahead s).take b)).page = false := by
          simp [hm, Moment.seen, Pass.visit]
        rw [Pass.stops, decide_eq_false hlow, hlater, Bool.and_false, Bool.or_false]
      simp only [Nat.succ_mul] at hj hlast
      rw [hstops, if_neg Bool.false_ne_true, if_neg (by simp; omega)]
      obtain ⟨s', hwalk, hlt⟩ := ih (s := p.visit s ((p.ahead s).take b)) (i := i)
        (listed_visit h _) (by rw [hahead, length_drop]; omega)
        (hm.trans (congrArg (Moment.within · j) (by simp only [Pass.visit]; omega)))
        (by rw [hahead, length_drop]; omega) (by rw [hahead, length_drop, Nat.succ_mul]; omega)
        (by rwa [converted_visit h hnil hin, hshift])
      refine ⟨s', hwalk, ?_⟩
      rw [hahead, length_drop] at hlt
      simp only [Pass.visit, hands_of_ne hin, length_append, length_take] at hlt
      omega

/-- A walk that says it is exhausted has handed out every row. -/
def Reports (p : Pass ρ κ) (rows : List ρ) : Prop :=
  ∃ stop s, p.run rows = some (stop, s) ∧ (stop = .exhausted → s.handed = rows)

/-- No cancellation lands inside the last page, if that is a short one, before its rows are out. -/
def Uncut (m : Moment) (b length : Nat) : Prop :=
  ∀ i j, m = .within i j → length ≤ i * b + j ∨ (i + 1) * b ≤ length

omit [DecidableEq ρ] in
theorem ahead_start (rows : List ρ) : p.ahead { rows := rows } = rows := by
  simp [Pass.ahead, Above]

/-- The cap is reached with the rows that are out when the pass is cancelled. -/
def CapFirst (cap : Nat) (converts : ρ → Bool) (m : Moment) (b : Nat) (rows : List ρ) : Prop :=
  0 < cap ∧ ∃ i j, m = .within i j ∧ cap ≤ (rows.take (i * b + j)).countP converts

theorem reports_iff {b : Nat} (hsize : ∀ k, p.pageSize k = b) (hb : 0 < b) (h : Listed p rows) :
    Reports p rows ↔
      Uncut p.moment b rows.length ∨ CapFirst p.cap p.converts p.moment b rows := by
  have hfuel : (p.ahead { rows := rows }).length < rows.length + 1 := by simp [ahead_start]
  have hconverted : ∀ k, p.converted { rows := rows } k = (rows.take k).countP p.converts := by
    simp [Pass.converted, ahead_start]
  constructor
  · rintro ⟨stop, s, hrun, hall⟩
    rw [or_iff_not_imp_right]
    intro hcap i j hm
    by_contra! hcut
    obtain ⟨s', hwalk, hlt⟩ := walk_cut hsize h hfuel (by simpa using hm)
      (by simpa [ahead_start] using hcut.1) (by simpa [ahead_start] using hcut.2)
      fun ⟨hpos, hle⟩ => hcap ⟨hpos, i, j, hm, hconverted _ ▸ hle⟩
    obtain ⟨rfl, rfl⟩ := Prod.mk.inj (Option.some.inj (hwalk.symm.trans hrun))
    simp [ahead_start, hall rfl] at hlt
  · intro hcut
    have hwhole : ∀ i j, p.moment = .within (0 + i) j → rows.length ≤ i * b + j ∨
        (i + 1) * b ≤ rows.length ∨
          0 < p.cap ∧ p.cap ≤ (rows.take (i * b + j)).countP p.converts := by
      intro i j hm
      rw [Nat.zero_add] at hm
      rcases hcut with hcut | ⟨hpos, i', j', hm', hle⟩
      · exact (hcut i j hm).imp_right .inl
      · cases hm'.symm.trans hm
        exact .inr (.inr ⟨hpos, hle⟩)
    simpa [Reports, Pass.run, ahead_start] using
      walk_whole hsize hb h hfuel (by simpa [ahead_start, hconverted] using hwhole)

/-- **A pass cut short says so** exactly if it is not cut inside a short last page, or its cap was
reached before that. -/
theorem reports_unfinished_iff (cursorOf : ρ → κ) (converts : ρ → Bool) (rows : List ρ)
    (h : rows.Pairwise fun a b => cursorOf a < cursorOf b) (b : Nat) (hb : 0 < b) (m : Moment) :
    (Reports (rotateKey cursorOf converts b m) rows ↔ Uncut m b rows.length) ∧
    ∀ cap pause, Reports (backfill cursorOf converts b cap pause m) rows ↔
      Uncut m b rows.length ∨ CapFirst cap converts m b rows := by
  refine ⟨?_, fun cap pause => reports_iff (p := backfill ..) (fun _ => rfl) hb h⟩
  rw [reports_iff (p := rotateKey cursorOf converts b m) (fun _ => rfl) hb h]
  exact or_iff_left fun hcap => absurd hcap.1 (Nat.lt_irrefl 0)

/-- Three rows in pages of two, cancelled before the second page. -/
theorem reports_before_last :
    Reports (rotateKey id (fun _ => true) 2 (.before 1)) [1, 2, 3] :=
  (reports_unfinished_iff id (fun _ => true) [1, 2, 3] (by decide) 2 (by decide)
    (.before 1)).1.mpr fun _ _ h => by cases h

/-- Two rows in one page of three, cancelled once the first is out: reported as finished. -/
theorem cut_reported_finished :
    ((backfill id (fun _ => true) 3 0 false (.within 0 1)).run [1, 2]).map
      (fun r => (r.1, r.2.handed)) = some (.exhausted, [1]) ∧
    ((rotateKey id (fun _ => true) 3 (.within 0 1)).run [1, 2]).map
      (fun r => (r.1, r.2.handed)) = some (.exhausted, [1]) := by
  decide

end S3Orchestrator.Walking
