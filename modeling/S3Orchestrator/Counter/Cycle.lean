import Mathlib.Algebra.Order.Archimedean.Basic
import Mathlib.Data.Int.ConditionallyCompleteOrder

/-!
# Usage cycles

A backend's usage is counted in monthly cycles that begin at midnight of a reset day, on the wall
clock of the provider's zone. The start of a cycle is read off the month of an instant, the next
start off the wall clock of that start.

* `daysBefore`, `monthOf`: the calendar; `Zone`: a wall clock, and how it is read back;
* `UsagePeriod.cycle`, `UsageCycle.following`: the two ways to the next start;
* **`cycles_tile_iff`**.
-/

namespace S3Orchestrator.UsageCycles

/-! ## The calendar -/

/-- The days before a month; days and months count from March of year 0. -/
def daysBefore (month : Int) : Int :=
  365 * (month / 12) + month / 12 / 4 - month / 12 / 100 + month / 12 / 400 +
    (153 * (month % 12) + 2) / 5

theorem daysBefore_succ (m : Int) :
    daysBefore m + 28 ≤ daysBefore (m + 1) ∧ daysBefore (m + 1) ≤ daysBefore m + 31 := by
  unfold daysBefore
  by_cases h : m % 12 = 11
  · have hy : (m + 1) / 12 = m / 12 + 1 := by omega
    omega
  · have hy : (m + 1) / 12 = m / 12 := by omega
    have hm : (m + 1) % 12 = m % 12 + 1 := by omega
    rw [hy, hm]
    omega

theorem daysBefore_near (m : Int) :
    146097 * m - 11000 ≤ 4800 * daysBefore m ∧ 4800 * daysBefore m ≤ 146097 * m + 16000 := by
  unfold daysBefore
  omega

/-- The month a day falls in, from the mean length of a month. -/
def monthOfDay (day : Int) : Int :=
  let month := 4800 * day / 146097
  if day < daysBefore month then month - 1
  else if daysBefore (month + 1) ≤ day then month + 1
  else month

theorem monthOfDay_spec (day : Int) :
    daysBefore (monthOfDay day) ≤ day ∧ day < daysBefore (monthOfDay day + 1) := by
  have hbelow := daysBefore_near (4800 * day / 146097 - 1)
  have habove := daysBefore_near (4800 * day / 146097 + 1 + 1)
  unfold monthOfDay
  dsimp only
  split_ifs with h1 h2
  · rw [sub_add_cancel]
    omega
  · omega
  · omega

/-- A day, in nanoseconds. -/
def dayLength : Int := 86400000000000

/-- An hour, in nanoseconds. -/
def hourLength : Int := 3600000000000

/-- Midnight of the first of a month, on the wall clock. -/
def monthStart (month : Int) : Int := daysBefore month * dayLength

/-- The month a wall clock time falls in. -/
def monthOf (wall : Int) : Int := monthOfDay (wall / dayLength)

theorem monthOf_spec (wall : Int) :
    monthStart (monthOf wall) ≤ wall ∧ wall < monthStart (monthOf wall + 1) := by
  have h := monthOfDay_spec (wall / dayLength)
  unfold monthStart monthOf
  unfold dayLength at h ⊢
  omega

theorem monthStart_succ (m : Int) : monthStart m + 28 * dayLength ≤ monthStart (m + 1) ∧
    monthStart (m + 1) ≤ monthStart m + 31 * dayLength := by
  have := daysBefore_succ m
  unfold monthStart dayLength
  omega

theorem monthStart_strictMono : StrictMono monthStart := strictMono_int_of_lt_succ fun m => by
  have := monthStart_succ m
  unfold dayLength at this
  omega

theorem monthOf_eq {wall m : Int} (h : monthStart m ≤ wall) (h' : wall < monthStart (m + 1)) :
    monthOf wall = m := by
  obtain ⟨hs, hs'⟩ := monthOf_spec wall
  have := monthStart_strictMono.lt_iff_lt.mp (h.trans_lt hs')
  have := monthStart_strictMono.lt_iff_lt.mp (hs.trans_lt h')
  omega

/-! ## Zones and cycles -/

/-- A time zone: the offset in force at every instant, less than 26 hours either way, and the
instant `date` makes of a wall clock time. A time the clock shows is read back; one that a
transition skips is read with the offset before or after it. -/
structure Zone where
  offset : Int → Int
  near : ∀ t, -(26 * hourLength) < offset t ∧ offset t < 26 * hourLength
  date : Int → Int
  shown : ∀ t, date (t + offset t) + offset (date (t + offset t)) = t + offset t
  skipped : ∀ w, (∀ t, t + offset t ≠ w) → ∃ t, t - 1 + offset (t - 1) < w ∧ w < t + offset t ∧
    (date w = w - offset (t - 1) ∨ date w = w - offset t)

/-- What the wall clock shows at an instant. -/
def Zone.wall (z : Zone) (t : Int) : Int := t + z.offset t

/-- The wall clock never shows the time. -/
def Zone.Skips (z : Zone) (w : Int) : Prop := ∀ t, z.wall t ≠ w

/-- Coordinated universal time, for a period with no location. -/
def utc : Zone :=
  ⟨fun _ => 0, fun _ => by decide, id, by simp, fun w h => absurd (add_zero w) (h w)⟩

/-- When a backend's usage is reset. -/
structure UsagePeriod where
  resetDay : Int
  location : Option Zone

/-- The instants from `start` to before `next`. -/
structure UsageCycle where
  start : Int
  next : Int
  deriving DecidableEq

/-- The wall clock time of a midnight; days past the month's end run into the next. -/
def midnight (month day : Int) : Int := monthStart month + (day - 1) * dayLength

/-- The same wall clock time a month later. -/
def Zone.addMonth (z : Zone) (t : Int) : Int :=
  z.date (monthStart (monthOf (z.wall t) + 1) + (z.wall t - monthStart (monthOf (z.wall t))))

namespace UsagePeriod

/-- The reset day, which is the first where none is set. -/
def day (p : UsagePeriod) : Int := if p.resetDay ≤ 0 then 1 else p.resetDay

/-- The zone of the reset, which is UTC where none is set. -/
def zone (p : UsagePeriod) : Zone := p.location.getD utc

/-- The instant the reset midnight of a month is read as. -/
def startOf (p : UsagePeriod) (month : Int) : Int := p.zone.date (midnight month p.day)

/-- The cycle of an instant. -/
def cycle (p : UsagePeriod) (now : Int) : UsageCycle :=
  let month := monthOf (p.zone.wall now)
  let start := if now < p.startOf month then p.startOf (month - 1) else p.startOf month
  ⟨start, p.zone.addMonth start⟩

end UsagePeriod

/-- The cycle after this one. -/
def UsageCycle.following (z : Zone) (c : UsageCycle) : UsageCycle := ⟨c.next, z.addMonth c.next⟩

/-- **Cycles tile time**: every instant lies in its cycle, the cycle of a cycle's end is the one
that follows, and two cycles are equal or apart. -/
def UsagePeriod.Tiles (p : UsagePeriod) : Prop :=
  (∀ now, (p.cycle now).start ≤ now ∧ now < (p.cycle now).next ∧
    p.cycle (p.cycle now).next = (p.cycle now).following p.zone) ∧
  ∀ now now', p.cycle now = p.cycle now' ∨ (p.cycle now).next ≤ (p.cycle now').start ∨
    (p.cycle now').next ≤ (p.cycle now).start

/-- The reset of a month comes out even. If its midnight is skipped, the time that the clock shows
at the start instead is read, a month later, as the next start. Once the month has started the clock
is not put back into the month before, which on day 1 a repeated midnight read as its first instant
does; and before it has started the clock does not show the month after. -/
structure UsagePeriod.Even (p : UsagePeriod) (m : Int) : Prop where
  carried : p.zone.Skips (midnight m p.day) →
    p.zone.addMonth (p.startOf m) = p.startOf (m + 1)
  kept : ∀ t, p.startOf m ≤ t → monthStart m ≤ p.zone.wall t
  ahead : ∀ t, t < p.startOf m → p.zone.wall t < monthStart (m + 1)

/-! ## Starts -/

section Starts

variable {p : UsagePeriod}

theorem Zone.date_near (z : Zone) (w : Int) :
    w - 26 * hourLength < z.date w ∧ z.date w < w + 26 * hourLength := by
  obtain ⟨t, ht⟩ : ∃ t, z.date w = w - z.offset t := by
    by_cases hskips : z.Skips w
    · obtain ⟨t, -, -, h | h⟩ := z.skipped w hskips
      exacts [⟨_, h⟩, ⟨_, h⟩]
    · obtain ⟨t, rfl⟩ : ∃ t, z.wall t = w := by simpa [Zone.Skips] using hskips
      exact ⟨_, eq_sub_of_add_eq (z.shown t)⟩
  have := z.near t
  omega

theorem day_pos (p : UsagePeriod) : 1 ≤ p.day := by
  unfold UsagePeriod.day
  split_ifs <;> omega

theorem startOf_strictMono (p : UsagePeriod) : StrictMono p.startOf :=
  strictMono_int_of_lt_succ fun m => by
    have h := p.zone.date_near (midnight m p.day)
    have h' := p.zone.date_near (midnight (m + 1) p.day)
    have := monthStart_succ m
    unfold UsagePeriod.startOf
    unfold midnight at *
    unfold hourLength dayLength at *
    omega

/-- A midnight that the clock shows is carried to the next month's. -/
theorem addMonth_startOf (hday : p.day ≤ 28) {m : Int}
    (h : ¬p.zone.Skips (midnight m p.day)) :
    p.zone.addMonth (p.startOf m) = p.startOf (m + 1) := by
  obtain ⟨t, ht⟩ : ∃ t, p.zone.wall t = midnight m p.day := by simpa [Zone.Skips] using h
  have hwall : p.zone.wall (p.zone.date (midnight m p.day)) = midnight m p.day :=
    ht ▸ p.zone.shown t
  have hmonth : monthOf (midnight m p.day) = m := by
    have := monthStart_succ m
    have := day_pos p
    refine monthOf_eq ?_ ?_ <;> unfold midnight <;> unfold dayLength at * <;> omega
  simp only [Zone.addMonth, UsagePeriod.startOf, hwall, hmonth]
  simp [midnight]

/-- A month after a start lies between that start and the start of the month after next. -/
theorem addMonth_near (p : UsagePeriod) (m : Int) :
    p.startOf m < p.zone.addMonth (p.startOf m) ∧
      p.zone.addMonth (p.startOf m) < p.startOf (m + 2) := by
  have hstart := p.zone.date_near (midnight m p.day)
  have hlater := p.zone.date_near (midnight (m + 2) p.day)
  have hnear := p.zone.near (p.startOf m)
  have hlen := monthStart_succ (monthOf (p.zone.wall (p.startOf m)))
  have hm := monthStart_succ m
  have hm' := monthStart_succ (m + 1)
  have hnext := p.zone.date_near (monthStart (monthOf (p.zone.wall (p.startOf m)) + 1) +
    (p.zone.wall (p.startOf m) - monthStart (monthOf (p.zone.wall (p.startOf m)))))
  rw [← Zone.addMonth] at hnext
  rw [← UsagePeriod.startOf] at hstart hlater
  have hwall : p.zone.wall (p.startOf m) = p.startOf m + p.zone.offset (p.startOf m) := rfl
  rw [add_assoc m 1 1, one_add_one_eq_two] at hm'
  unfold midnight at *
  unfold hourLength dayLength at *
  omega

/-- The cycle of an instant begins with its month's start or with the one before. -/
theorem cycle_eq (p : UsagePeriod) (now : Int) :
    ∃ k, p.cycle now = ⟨p.startOf k, p.zone.addMonth (p.startOf k)⟩ ∧
      k ≤ monthOf (p.zone.wall now) ∧ monthOf (p.zone.wall now) ≤ k + 1 := by
  unfold UsagePeriod.cycle
  dsimp only
  split_ifs
  · exact ⟨_, rfl, by omega, by omega⟩
  · exact ⟨_, rfl, le_rfl, by omega⟩

end Starts

/-! ## Tiling -/

section Tiling

variable {p : UsagePeriod}

theorem UsagePeriod.Even.next (hday : p.day ≤ 28) {m : Int} (h : p.Even m) :
    p.zone.addMonth (p.startOf m) = p.startOf (m + 1) := by
  by_cases hskips : p.zone.Skips (midnight m p.day)
  · exact h.carried hskips
  · exact addMonth_startOf hday hskips

/-- The cycle of an instant is the one between two starts that it lies in. -/
theorem cycle_between (hday : p.day ≤ 28) (h : ∀ m, p.Even m) (now : Int) :
    ∃ m, p.cycle now = ⟨p.startOf m, p.startOf (m + 1)⟩ ∧ p.startOf m ≤ now ∧
      now < p.startOf (m + 1) := by
  obtain ⟨hs, hs'⟩ := monthOf_spec (p.zone.wall now)
  have hlow : p.startOf (monthOf (p.zone.wall now) - 1) ≤ now := not_lt.mp fun hlt => by
    have := (h _).ahead now hlt
    rw [sub_add_cancel] at this
    omega
  have hhigh : now < p.startOf (monthOf (p.zone.wall now) + 1) := not_le.mp fun hle =>
    hs'.not_ge ((h _).kept now hle)
  unfold UsagePeriod.cycle
  dsimp only
  split_ifs with hlt
  · refine ⟨_, congrArg _ ((h _).next hday), hlow, ?_⟩
    rwa [sub_add_cancel]
  · exact ⟨_, congrArg _ ((h _).next hday), not_lt.mp hlt, hhigh⟩

theorem tiles_of_even (hday : p.day ≤ 28) (h : ∀ m, p.Even m) : p.Tiles := by
  have hmono := startOf_strictMono p
  refine ⟨fun now => ?_, fun now now' => ?_⟩
  · obtain ⟨m, hm, hlow, hhigh⟩ := cycle_between hday h now
    obtain ⟨k, hk, hlow', hhigh'⟩ := cycle_between hday h (p.startOf (m + 1))
    have hkm : k = m + 1 := by
      have := hmono.le_iff_le.mp hlow'
      have := hmono.lt_iff_lt.mp hhigh'
      omega
    rw [hm]
    refine ⟨hlow, hhigh, ?_⟩
    rw [hk, hkm]
    exact congrArg _ ((h (m + 1)).next hday).symm
  · obtain ⟨m, hm, -⟩ := cycle_between hday h now
    obtain ⟨k, hk, -⟩ := cycle_between hday h now'
    rw [hm, hk]
    rcases lt_trichotomy m k with hlt | rfl | hlt
    · exact .inr (.inl (hmono.monotone (by omega)))
    · exact .inl rfl
    · exact .inr (.inr (hmono.monotone (by omega)))

/-- Cycles that tile time lie between two starts. -/
theorem UsagePeriod.Tiles.between (h : p.Tiles) (now : Int) :
    ∃ k, p.zone.addMonth (p.startOf k) = p.startOf (k + 1) ∧ p.startOf k ≤ now ∧
      now < p.startOf (k + 1) ∧ k ≤ monthOf (p.zone.wall now) ∧
      monthOf (p.zone.wall now) ≤ k + 1 := by
  have hmono := startOf_strictMono p
  obtain ⟨k, hk, hmonth⟩ := cycle_eq p now
  obtain ⟨hlow, hhigh, hfollowing⟩ := h.1 now
  rw [hk] at hlow hhigh hfollowing
  -- The cycle of the end begins there, so the end is some start, and only one is near enough.
  obtain ⟨j, hj, -⟩ := cycle_eq p (p.zone.addMonth (p.startOf k))
  have hend : p.startOf j = p.zone.addMonth (p.startOf k) :=
    congrArg UsageCycle.start (hj.symm.trans hfollowing)
  obtain ⟨hafter, hbefore⟩ := addMonth_near p k
  rw [← hend] at hafter hbefore hhigh
  have hjk : j = k + 1 := by
    have := hmono.lt_iff_lt.mp hafter
    have := hmono.lt_iff_lt.mp hbefore
    omega
  subst hjk
  exact ⟨k, hend.symm, hlow, hhigh, hmonth⟩

theorem UsagePeriod.Tiles.even (h : p.Tiles) (m : Int) : p.Even m where
  carried _ := by
    have hmono := startOf_strictMono p
    obtain ⟨k, hnext, hlow, hhigh, -⟩ := h.between (p.startOf m)
    have hkm : k = m := by
      have := hmono.le_iff_le.mp hlow
      have := hmono.lt_iff_lt.mp hhigh
      omega
    exact hkm ▸ hnext
  kept t ht := by
    obtain ⟨k, -, -, hhigh, hmonth, -⟩ := h.between t
    have := (startOf_strictMono p).lt_iff_lt.mp (ht.trans_lt hhigh)
    exact (monthStart_strictMono.monotone (by omega)).trans (monthOf_spec (p.zone.wall t)).1
  ahead t ht := by
    obtain ⟨k, -, hlow, -, -, hmonth⟩ := h.between t
    have := (startOf_strictMono p).lt_iff_lt.mp (hlow.trans_lt ht)
    exact (monthOf_spec (p.zone.wall t)).2.trans_le (monthStart_strictMono.monotone (by omega))

end Tiling

/-- **Cycles tile time** if and only if the reset of every month comes out even. -/
theorem cycles_tile_iff (p : UsagePeriod) (hday : p.day ≤ 28) : p.Tiles ↔ ∀ m, p.Even m :=
  ⟨fun h => h.even, tiles_of_even hday⟩

theorem cycles_tile_utc : UsagePeriod.Tiles ⟨1, none⟩ :=
  (cycles_tile_iff ⟨1, none⟩ (by decide)).mpr fun m =>
    have hstart : UsagePeriod.startOf ⟨1, none⟩ m = monthStart m :=
      (congrArg (monthStart m + ·) (zero_mul dayLength)).trans (add_zero _)
    { carried := fun hskips => absurd (add_zero _) (hskips _)
      kept := fun t ht => (hstart ▸ ht).trans_eq (add_zero t).symm
      ahead := fun t ht => (add_zero t).trans_lt ((hstart ▸ ht).trans
        (monthStart_strictMono (lt_add_one m))) }

/-- A zone whose clock is put forward an hour at midnight of 4 November 2018. -/
def springForward : Zone where
  offset t := if t < midnight 24224 4 then 0 else 3600000000000
  near t := by
    unfold hourLength
    split_ifs <;> omega
  date w := if w < midnight 24224 4 + 3600000000000 then w else w - 3600000000000
  shown t := by
    generalize midnight 24224 4 = w
    split_ifs <;> omega
  skipped w h := by
    refine ⟨midnight 24224 4, ?_⟩
    have h₁ := h w
    have h₂ := h (w - 3600000000000)
    revert h₁ h₂
    generalize midnight 24224 4 = s
    split_ifs <;> omega

/-- With the reset on that day, the cycle that begins there ends an hour into the next one. -/
theorem skipped_midnight_overlaps :
    let p : UsagePeriod := ⟨4, some springForward⟩
    let c := p.cycle (midnight 24224 4)
    p.cycle c.next ≠ c.following springForward ∧
      (p.cycle c.next).start = c.next - 3600000000000 ∧ c.start < (p.cycle c.next).start := by
  decide +kernel

end S3Orchestrator.UsageCycles
