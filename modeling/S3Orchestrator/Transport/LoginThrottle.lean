import S3Orchestrator.Lib.Run
import S3Orchestrator.Store.Types
import Mathlib.Data.List.Induction

/-!
# Login throttle

Failed logins are counted per client address, and an address that reaches the limit is locked out
for a while. The counts live in a table that a background sweep clears of the entries whose lockout
has passed. An attempt looks at the table, checks the credentials, and records what came of it, with
other attempts and sweeps in between.

* **`locked_out_along`**.
-/

namespace S3Orchestrator

open RowStore (after Along)

/-! ## The table -/

abbrev IpTable (T : Type) : Type := String → Option T

namespace IpTable

variable {T : Type}

def visit (t : IpTable T) (ip : String) (fn : Option T → Option T) : IpTable T :=
  Function.update t ip (fn (t ip))

def sweep (t : IpTable T) (stale : T → Time → Bool) (now : Time) : IpTable T :=
  fun ip => (t ip).filter fun e => !stale e now

theorem visit_self (t : IpTable T) (ip : String) (fn : Option T → Option T) :
    t.visit ip fn ip = fn (t ip) := Function.update_self ip _ t

theorem visit_of_ne (t : IpTable T) {ip ip' : String} (h : ip' ≠ ip) (fn : Option T → Option T) :
    t.visit ip fn ip' = t ip' := Function.update_of_ne h _ t

theorem sweep_of_kept {t : IpTable T} {ip : String} {stale : T → Time → Bool} {now : Time}
    (h : ∀ e ∈ t ip, stale e now = false) : t.sweep stale now ip = t ip := by
  cases he : t ip with
  | none => rw [sweep, he, Option.filter_none]
  | some e => simp [sweep, he, h e he]

end IpTable

/-! ## The throttle -/

structure LoginAttempt where
  failures : Nat := 0
  lockedUntil : Time := 0

structure LoginThrottle where
  attempts : IpTable LoginAttempt
  maxFailures : Nat
  lockoutDuration : Time

def newLoginThrottle (maxFailures : Nat) (lockoutDuration : Time) : LoginThrottle :=
  ⟨fun _ => none, maxFailures, lockoutDuration⟩

namespace LoginThrottle

def stale (a : LoginAttempt) (now : Time) : Bool := decide (a.lockedUntil < now)

def isLockedOut (lt : LoginThrottle) (ip : String) (now : Time) : Bool :=
  (lt.attempts ip).any fun a => decide (now < a.lockedUntil)

def failed (lt : LoginThrottle) (now : Time) (a : LoginAttempt) : LoginAttempt :=
  { failures := a.failures + 1
    lockedUntil := if lt.maxFailures ≤ a.failures + 1 then now + lt.lockoutDuration
      else a.lockedUntil }

def recordFailure (lt : LoginThrottle) (ip : String) (now : Time) : LoginThrottle :=
  { lt with attempts := lt.attempts.visit ip fun a => some (lt.failed now (a.getD {})) }

def recordSuccess (lt : LoginThrottle) (ip : String) : LoginThrottle :=
  { lt with attempts := lt.attempts.visit ip fun _ => none }

def sweep (lt : LoginThrottle) (now : Time) : LoginThrottle :=
  { lt with attempts := lt.attempts.sweep stale now }

def counted (lt : LoginThrottle) (ip : String) : Nat := ((lt.attempts ip).getD {}).failures

end LoginThrottle

/-! ## Attempts and sweeps -/

inductive LoginStep where
  /-- An attempt begins: it is refused, or its credentials are checked. -/
  | attempt (ip : String)
  /-- The credentials of an attempt were wrong. -/
  | failure (ip : String)
  /-- The credentials of an attempt were right. -/
  | success (ip : String)
  | sweep
  deriving DecidableEq, Repr

structure LoginEvent where
  now : Time
  step : LoginStep

/-- `checking` are the addresses of the attempts whose credentials are being checked. -/
structure LoginState where
  throttle : LoginThrottle
  clock : Time := 0
  checking : List String := []

namespace LoginState

def next (s : LoginState) (e : LoginEvent) : LoginState :=
  match e.step with
  | .attempt ip =>
    { s with clock := e.now
             checking := if s.throttle.isLockedOut ip e.now then s.checking else ip :: s.checking }
  | .failure ip => ⟨s.throttle.recordFailure ip e.now, e.now, s.checking.erase ip⟩
  | .success ip => ⟨s.throttle.recordSuccess ip, e.now, s.checking.erase ip⟩
  | .sweep => { s with throttle := s.throttle.sweep e.now, clock := e.now }

/-- The clock does not go back, and only an attempt whose credentials are checked ends. -/
def Legal (s : LoginState) (e : LoginEvent) : Prop :=
  s.clock ≤ e.now ∧
    match e.step with
    | .failure ip | .success ip => ip ∈ s.checking
    | _ => True

/-- A sweep finds no failures of the address counted without a lockout running, and the address does
not log in while it is locked out. -/
def Undisturbed (ip : String) (s : LoginState) (e : LoginEvent) : Prop :=
  match e.step with
  | .sweep => ∀ a ∈ s.throttle.attempts ip, LoginThrottle.stale a e.now = false
  | .success ip' => ip' = ip → s.throttle.isLockedOut ip e.now = false
  | _ => True

end LoginState

def streak (ip : String) (run : List LoginEvent) : Nat :=
  run.foldl (fun n e => if e.step = .failure ip then n + 1
    else if e.step = .success ip then 0 else n) 0

/-- After `n` failures of the address in a row, none of its attempts within `d` of the last has its
credentials checked. -/
def LocksOut (ip : String) (s : LoginState) (run : List LoginEvent) : Prop :=
  ∀ t earlier between t' later,
    run = earlier ++ ⟨t, .failure ip⟩ :: (between ++ ⟨t', .attempt ip⟩ :: later) →
    s.throttle.maxFailures ≤ streak ip (earlier ++ [⟨t, .failure ip⟩]) →
    t' < t + s.throttle.lockoutDuration →
    (after LoginState.next s (earlier ++ ⟨t, .failure ip⟩ :: between)).throttle.isLockedOut ip t'
      = true

open LoginThrottle

namespace LoginState

variable {s : LoginState} {e : LoginEvent} {run : List LoginEvent} {ip : String} {last : Time}

theorem settings_next (s : LoginState) (e : LoginEvent) :
    (s.next e).throttle.maxFailures = s.throttle.maxFailures ∧
      (s.next e).throttle.lockoutDuration = s.throttle.lockoutDuration ∧
      (s.next e).clock = e.now := by
  obtain ⟨_, _ | _ | _ | _⟩ := e <;> exact ⟨rfl, rfl, rfl⟩

theorem settings_after (s : LoginState) (run : List LoginEvent) :
    (after next s run).throttle.maxFailures = s.throttle.maxFailures ∧
      (after next s run).throttle.lockoutDuration = s.throttle.lockoutDuration := by
  induction run generalizing s with
  | nil => exact ⟨rfl, rfl⟩
  | cons e run ih =>
    have hstep := settings_next s e
    exact ⟨(ih _).1.trans hstep.1, (ih _).2.trans hstep.2.1⟩

theorem attempts_next (h : Undisturbed ip s e) : (s.next e).throttle.attempts ip =
      if e.step = .failure ip then some (s.throttle.failed e.now ((s.throttle.attempts ip).getD {}))
      else if e.step = .success ip then none else s.throttle.attempts ip := by
  obtain ⟨now, step⟩ := e
  cases step with
  | attempt ip' => simp [next]
  | failure ip' =>
    by_cases heq : ip = ip'
    · subst heq
      simp [next, recordFailure, IpTable.visit_self]
    · simp [next, recordFailure, IpTable.visit_of_ne _ heq, Ne.symm heq]
  | success ip' =>
    by_cases heq : ip = ip'
    · subst heq
      simp [next, recordSuccess, IpTable.visit_self]
    · simp [next, recordSuccess, IpTable.visit_of_ne _ heq, Ne.symm heq]
  | sweep => simp [next, sweep, IpTable.sweep_of_kept h]

theorem counted_after (h : Along next (Undisturbed ip) s run)
    (hs : s.throttle.attempts ip = none) :
    (after next s run).throttle.counted ip = streak ip run := by
  induction run using List.reverseRecOn with
  | nil => simp [counted, hs, streak]
  | append_singleton run e ih =>
    obtain ⟨hrun, he, _⟩ := RowStore.along_append.mp h
    have hcount := ih hrun
    rw [RowStore.after_append, RowStore.after_cons, RowStore.after_nil, counted, attempts_next he]
    rw [streak, List.foldl_concat, ← streak, ← hcount]
    split_ifs <;> rfl

def Held (ip : String) (last : Time) (s : LoginState) : Prop :=
  last ≤ s.clock ∨ ∃ a, s.throttle.attempts ip = some a ∧ s.throttle.maxFailures ≤ a.failures ∧
    last ≤ a.lockedUntil

theorem held_failure (h : Undisturbed ip s e) (he : e.step = .failure ip)
    (hn : s.throttle.maxFailures ≤ s.throttle.counted ip + 1) :
    (s.next e).Held ip (e.now + s.throttle.lockoutDuration) := by
  refine .inr ⟨_, (attempts_next h).trans (if_pos he), ?_, (if_pos hn).ge⟩
  rw [(settings_next s e).1]
  exact hn

/-- **A lockout lasts**: another failure only puts its end off, and a login that would clear it
comes after its end. -/
theorem held_next (hlegal : s.Legal e) (h : Undisturbed ip s e)
    (hlast : last ≤ s.clock + s.throttle.lockoutDuration) (hheld : s.Held ip last) :
    (s.next e).Held ip last := by
  have hclock : s.clock ≤ (s.next e).clock := hlegal.1.trans (settings_next s e).2.2.ge
  rcases hheld with hpast | ⟨a, ha, hn, hle⟩
  · exact .inl (hpast.trans hclock)
  · by_cases hfail : e.step = .failure ip
    · have hcount : s.throttle.maxFailures ≤ s.throttle.counted ip + 1 := by
        rw [counted, ha]
        exact hn.trans (Nat.le_succ _)
      have hnow : last ≤ e.now + s.throttle.lockoutDuration :=
        hlast.trans (Nat.add_le_add_right hlegal.1 _)
      exact (held_failure h hfail hcount).imp hnow.trans fun ⟨b, hb, hbn, hble⟩ =>
        ⟨b, hb, hbn, hnow.trans hble⟩
    · by_cases hok : e.step = .success ip
      · have hopen : s.throttle.isLockedOut ip e.now = false := by
          obtain ⟨now, step⟩ := e
          obtain rfl : step = .success ip := hok
          exact h rfl
        have hpast : ¬ e.now < a.lockedUntil := by
          simpa [isLockedOut, ha] using hopen
        exact .inl ((hle.trans (not_lt.mp hpast)).trans (settings_next s e).2.2.ge)
      · refine .inr ⟨a, ?_, (settings_next s e).1.trans_le hn, hle⟩
        rw [attempts_next h, if_neg hfail, if_neg hok, ha]

theorem held_after (hlegal : Along next Legal s run) (h : Along next (Undisturbed ip) s run)
    (hlast : last ≤ s.clock + s.throttle.lockoutDuration) (hheld : s.Held ip last) :
    (after next s run).Held ip last := by
  induction run generalizing s with
  | nil => exact hheld
  | cons e run ih =>
    have hnext := settings_next s e
    refine ih hlegal.2 h.2 ?_ (held_next hlegal.1 h.1 hlast hheld)
    rw [hnext.2.1, hnext.2.2]
    exact hlast.trans (Nat.add_le_add_right hlegal.1.1 _)

end LoginState

open LoginState in
/-- **The failures of an address lock it out** in every run where no sweep meets failures of it
counted without a lockout, and it does not log in while it is locked out. -/
theorem locked_out_along (maxFailures : Nat) (lockoutDuration : Time) (ip : String)
    (run : List LoginEvent)
    (hlegal : Along next Legal { throttle := newLoginThrottle maxFailures lockoutDuration } run)
    (h : Along next (Undisturbed ip)
      { throttle := newLoginThrottle maxFailures lockoutDuration } run) :
    LocksOut ip { throttle := newLoginThrottle maxFailures lockoutDuration } run := by
  rintro t earlier between t' later rfl hn ht
  obtain ⟨hearlier, hfail, hrest⟩ := RowStore.along_append.mp h
  obtain ⟨_, hfailLegal, hrestLegal⟩ := RowStore.along_append.mp hlegal
  obtain ⟨hbetween, _⟩ := RowStore.along_append.mp hrest
  obtain ⟨hbetweenLegal, hattempt, _⟩ := RowStore.along_append.mp hrestLegal
  rw [RowStore.after_append, RowStore.after_cons]
  set s := after next _ earlier with hs
  obtain ⟨hmax, hdur⟩ : s.throttle.maxFailures = maxFailures ∧
      s.throttle.lockoutDuration = lockoutDuration := settings_after _ earlier
  have hcount : s.throttle.maxFailures ≤ s.throttle.counted ip + 1 := by
    rw [hs, counted_after hearlier rfl, ← hs, hmax]
    simpa [streak, newLoginThrottle] using hn
  have hheld := held_failure hfail rfl hcount
  rw [hdur] at hheld
  obtain hpast | ⟨a, ha, _, hle⟩ :=
    held_after hbetweenLegal hbetween (by simp [settings_next, hdur]) hheld
  · exact absurd ht (not_lt.mpr (hpast.trans hattempt.1))
  · simpa [LoginThrottle.isLockedOut, ha] using ht.trans_le hle

def lockedRun : List LoginEvent :=
  [⟨1, .attempt "a"⟩, ⟨2, .failure "a"⟩, ⟨3, .attempt "a"⟩, ⟨4, .failure "a"⟩, ⟨5, .sweep⟩,
    ⟨6, .attempt "a"⟩]

theorem locked_run_locks_out : streak "a" lockedRun = 2 ∧
    LocksOut "a" { throttle := newLoginThrottle 2 10 } lockedRun := by
  refine ⟨rfl, locked_out_along 2 10 "a" lockedRun ?_ ?_⟩
  · simp [lockedRun, LoginState.Legal, LoginState.next, LoginThrottle.isLockedOut,
      LoginThrottle.recordFailure, LoginThrottle.failed, IpTable.visit, newLoginThrottle]
  · refine ⟨trivial, trivial, trivial, trivial, fun a ha => ?_, trivial, trivial⟩
    simp [LoginState.next, LoginThrottle.recordFailure, LoginThrottle.failed, IpTable.visit,
      newLoginThrottle] at ha
    subst ha
    rfl

def sweptRun : List LoginEvent :=
  [⟨1, .attempt "a"⟩, ⟨2, .failure "a"⟩, ⟨3, .sweep⟩, ⟨4, .attempt "a"⟩, ⟨5, .failure "a"⟩,
    ⟨6, .attempt "a"⟩]

theorem swept_run_not_locked_out :
    Along LoginState.next LoginState.Legal { throttle := newLoginThrottle 2 10 } sweptRun ∧
      ¬ LocksOut "a" { throttle := newLoginThrottle 2 10 } sweptRun := by
  constructor
  · simp [sweptRun, LoginState.Legal, LoginState.next, LoginThrottle.isLockedOut,
      LoginThrottle.recordFailure, LoginThrottle.failed, LoginThrottle.sweep, IpTable.visit,
      IpTable.sweep, LoginThrottle.stale, newLoginThrottle]
  · intro h
    have hlocked := h 5 (sweptRun.take 4) [] 6 [] rfl (by decide) (by decide)
    simp [sweptRun, LoginState.next, LoginThrottle.isLockedOut, LoginThrottle.recordFailure,
      LoginThrottle.failed, LoginThrottle.sweep, IpTable.visit, IpTable.sweep,
      LoginThrottle.stale, newLoginThrottle, Option.filter] at hlocked

/-! ## Who is locked out -/

/-- The lockout of the address until `last` comes of a failure that completed a streak, and the
address has not logged in since. -/
def LockedBy (maxFailures : Nat) (lockoutDuration : Time) (ip : String) (run : List LoginEvent)
    (last : Time) : Prop :=
  ∃ earlier t later, run = earlier ++ ⟨t, .failure ip⟩ :: later ∧
    maxFailures ≤ streak ip (earlier ++ [⟨t, .failure ip⟩]) ∧ last = t + lockoutDuration ∧
    ∀ e ∈ later, e.step ≠ .success ip

def LoginThrottle.entry (lt : LoginThrottle) (ip : String) : LoginAttempt :=
  (lt.attempts ip).getD {}

section Causes

variable {n : Nat} {d last : Time} {ip : String} {run : List LoginEvent} {e : LoginEvent}

theorem LockedBy.concat (h : LockedBy n d ip run last) (he : e.step ≠ .success ip) :
    LockedBy n d ip (run ++ [e]) last := by
  obtain ⟨earlier, t, later, rfl, hn, hlast, hlater⟩ := h
  refine ⟨earlier, t, later ++ [e], by simp, hn, hlast, fun e' he' => ?_⟩
  rcases List.mem_append.mp he' with he' | he'
  · exact hlater e' he'
  · exact List.mem_singleton.mp he' ▸ he

theorem streak_concat : streak ip (run ++ [e]) = if e.step = .failure ip then streak ip run + 1
    else if e.step = .success ip then 0 else streak ip run :=
  List.foldl_concat ..

/-- Whatever sweeps and logins there are, an entry is empty, counts one more failure, or stays. -/
theorem LoginState.entry_next (s : LoginState) (e : LoginEvent) (ip : String) :
    (s.next e).throttle.entry ip = {} ∨ (e.step = .failure ip ∧
        (s.next e).throttle.entry ip = s.throttle.failed e.now (s.throttle.entry ip)) ∨
      (e.step ≠ .failure ip ∧ e.step ≠ .success ip ∧
        (s.next e).throttle.entry ip = s.throttle.entry ip) := by
  obtain ⟨now, step⟩ := e
  unfold entry
  cases step with
  | attempt => exact .inr (.inr ⟨nofun, nofun, rfl⟩)
  | sweep =>
    cases ha : s.throttle.attempts ip with
    | none => exact .inl (by simp [next, sweep, IpTable.sweep, ha])
    | some a => cases hs : stale a now <;>
        simp [next, sweep, IpTable.sweep, ha, Option.filter, hs]
  | failure ip' =>
    by_cases heq : ip = ip'
    · subst heq
      exact .inr (.inl ⟨rfl, by simp [next, recordFailure, IpTable.visit_self]⟩)
    · simp [next, recordFailure, IpTable.visit_of_ne _ heq, Ne.symm heq]
  | success ip' =>
    by_cases heq : ip = ip'
    · subst heq
      exact .inl (by simp [next, recordSuccess, IpTable.visit_self])
    · simp [next, recordSuccess, IpTable.visit_of_ne _ heq, Ne.symm heq]

/-- An entry counts no more failures than the streak has, and its lockout has a cause. -/
theorem LoginState.entry_after (n : Nat) (d : Time) (run : List LoginEvent) (ip : String) :
    let a := (after next { throttle := newLoginThrottle n d } run).throttle.entry ip
    a.failures ≤ streak ip run ∧ (0 < a.lockedUntil → LockedBy n d ip run a.lockedUntil) := by
  induction run using List.reverseRecOn with
  | nil => exact ⟨Nat.zero_le _, nofun⟩
  | append_singleton run e ih =>
    obtain ⟨hmax, hdur⟩ := settings_after { throttle := newLoginThrottle n d } run
    rw [RowStore.after_append, streak_concat]
    generalize after next _ run = s at ih hmax hdur ⊢
    rcases s.entry_next e ip with h | ⟨hfail, h⟩ | ⟨hfail, hok, h⟩ <;>
      rw [RowStore.after_cons, RowStore.after_nil, h]
    · exact ⟨Nat.zero_le _, nofun⟩
    · obtain ⟨t, step⟩ := e
      obtain rfl : step = .failure ip := hfail
      rw [if_pos rfl]
      refine ⟨Nat.succ_le_succ ih.1, fun hpos => ?_⟩
      simp only [failed, hmax, hdur] at hpos ⊢
      split_ifs at hpos ⊢ with hn
      · refine ⟨run, t, [], rfl, ?_, rfl, nofun⟩
        rw [streak_concat, if_pos rfl]
        exact hn.trans (Nat.succ_le_succ ih.1)
      · exact (ih.2 hpos).concat nofun
    · rw [if_neg hfail, if_neg hok]
      exact ⟨ih.1, fun hpos => (ih.2 hpos).concat hok⟩

end Causes

/-- **Nobody is locked out without cause**: whatever the interleaving, an address that is refused
has failed often enough in a row, the last time within the lockout, and not logged in since. -/
theorem locked_out_only_by_failures (maxFailures : Nat) (lockoutDuration : Time)
    (run : List LoginEvent) (ip : String) (now : Time)
    (h : (after LoginState.next { throttle := newLoginThrottle maxFailures lockoutDuration }
      run).throttle.isLockedOut ip now = true) :
    ∃ last, now < last ∧ LockedBy maxFailures lockoutDuration ip run last := by
  obtain ⟨a, ha, hlt⟩ := (Option.any_eq_true _ _).mp h
  have hlt := of_decide_eq_true hlt
  have hcause := (LoginState.entry_after maxFailures lockoutDuration run ip).2
  rw [entry, ha, Option.getD_some] at hcause
  exact ⟨a.lockedUntil, hlt, hcause (Nat.zero_lt_of_lt hlt)⟩

theorem lockedRun_locked_by_failures : ∃ last, 6 < last ∧ LockedBy 2 10 "a" lockedRun last :=
  locked_out_only_by_failures 2 10 lockedRun "a" 6 (by decide)

end S3Orchestrator
