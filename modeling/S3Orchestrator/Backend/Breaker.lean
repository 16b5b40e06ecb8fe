import S3Orchestrator.Reconcile.Merge
import Mathlib.Data.List.Infix

/-!
# Circuit breakers of a backend

A backend's calls go through two nested breakers: one for the backend, which counts failures to
reach it, and one for the call, which counts refusals of that call. Each counts failures of its own
scope in a row, and opens at the threshold. What is no failure of its scope is a success to it.

* **`cut_off_iff`**: when a call that keeps failing is cut off;
* **`listings_quiet_iff`**: when listings the caller stops leave the breakers alone.
-/

namespace S3Orchestrator

open RowStore (after Along)

/-! ## Failures -/

/-- An error: a sentinel, an answer of the backend with its status, a text, or one error wrapped in
another. -/
inductive Failure
  | canceled
  | deadlineExceeded
  | unsupported
  | unavailable
  | stopListing
  | text (message : String)
  | response (status : Nat) (inner : Failure)
  | wrapped (outer inner : Failure)
deriving DecidableEq

def Failure.is (e target : Failure) : Bool :=
  e = target ||
    match e with
    | .response _ inner => inner.is target
    | .wrapped outer inner => outer.is target || inner.is target
    | _ => false

def Failure.status? : Failure → Option Nat
  | .response status _ => some status
  | .wrapped outer inner => outer.status? <|> inner.status?
  | _ => none

def statusOf (e : Failure) : Nat := e.status?.getD 0

inductive FailureScope
  | none
  | backend
  | call
deriving DecidableEq

def classifyFailure : Option Failure → FailureScope
  | .none => .none
  | some err =>
    if err.is .canceled || err.is .deadlineExceeded || err.is .unsupported ||
        err.is .unavailable then .none
    else
      let status := statusOf err
      if status = 0 ∨ status = 401 then .backend
      else if 500 ≤ status ∨ status = 429 ∨ status = 403 then .call
      else .none

namespace Backend

/-! ## Listings -/

def probeKey : String := ".s3o-probe"

def convertListPage (page : List ListedObject) : List ListedObject :=
  page.filter fun obj => obj.key != probeKey

/-- What the backend answers for each page of a listing, and what the caller's callback returns when
handed it. -/
abbrev Pages := List (Except Failure (List ListedObject) × Option Failure)

def listObjects : Pages → Option Failure
  | [] => none
  | (.error err, _) :: _ => some err
  | (.ok page, returned) :: pages =>
    if convertListPage page = [] then listObjects pages
    else
      match returned with
      | none => listObjects pages
      | some err => if err.is .stopListing then none else some err

def callerError (pages : Pages) : Option Failure :=
  pages.findSome? fun page =>
    match page.1 with
    | .error _ => none
    | .ok objects => if convertListPage objects = [] then none else page.2

def Answered (pages : Pages) : Prop := ∀ page ∈ pages, ∃ objects, page.1 = .ok objects

theorem listObjects_of_answered {pages : Pages} (h : Answered pages) :
    listObjects pages = (callerError pages).filter fun err => !err.is .stopListing := by
  induction pages with
  | nil => rfl
  | cons page pages ih =>
    have ih := ih fun p hp => h p (List.mem_cons_of_mem _ hp)
    obtain ⟨answer, returned⟩ := page
    obtain ⟨objects, rfl⟩ : ∃ objects, answer = .ok objects := h _ (List.mem_cons_self ..)
    by_cases hempty : convertListPage objects = []
    · simpa [listObjects, callerError, hempty] using ih
    · cases returned with
      | none => simpa [listObjects, callerError] using ih
      | some err =>
        cases hstop : err.is .stopListing with
        | true | false => simp [listObjects, callerError, hempty, hstop, Option.filter_some]

def errBudgetExhausted : Failure := .text "backend API budget exhausted mid-walk"

end Backend

/-! ## One breaker -/

inductive CircuitState
  | closed
  | opened
deriving DecidableEq

structure CircuitBreaker where
  state : CircuitState := .closed
  failures : Nat := 0
  failThreshold : Nat

namespace CircuitBreaker

def preCheck (cb : CircuitBreaker) : Option Failure :=
  if cb.state = .opened then some .unavailable else none

def onSuccess (cb : CircuitBreaker) : CircuitBreaker := { cb with failures := 0 }

def onFailure (cb : CircuitBreaker) : CircuitBreaker :=
  let failures := cb.failures + 1
  if cb.state = .closed ∧ cb.failThreshold ≤ failures then
    { cb with failures := failures, state := .opened }
  else { cb with failures := failures }

def postCheck (isError : Option Failure → Bool) (cb : CircuitBreaker) (err : Option Failure) :
    CircuitBreaker × Option Failure :=
  match isError err, err with
  | true, some e =>
    let cb' := cb.onFailure
    (cb', if cb'.state = .closed then some e else some (.wrapped .unavailable e))
  | _, _ => (cb.onSuccess, err)

def call {S : Type} (get : S → CircuitBreaker) (put : CircuitBreaker → S → S)
    (isError : Option Failure → Bool) (fn : S → S × Option Failure) (s : S) :
    S × Option Failure :=
  match (get s).preCheck with
  | some refused => (s, some refused)
  | none =>
    let result := fn s
    let checked := (get result.1).postCheck isError result.2
    (put checked.1 result.1, checked.2)

end CircuitBreaker

/-! ## A backend's breakers -/

inductive BackendCall
  | putObject
  | getObject
  | headObject
  | deleteObject
  | deleteObjects
  | copyObject
  | listObjects
deriving DecidableEq

/-- The breakers, and how many calls have reached the backend. -/
structure CircuitBreakerBackend where
  backend : CircuitBreaker
  calls : BackendCall → CircuitBreaker
  reached : Nat := 0

namespace CircuitBreakerBackend

def new (failureThreshold : Nat) : CircuitBreakerBackend where
  backend := { failThreshold := failureThreshold }
  calls := fun _ => { failThreshold := failureThreshold }

def putBackend (b : CircuitBreaker) (s : CircuitBreakerBackend) : CircuitBreakerBackend :=
  { s with backend := b }

def putCall (call : BackendCall) (b : CircuitBreaker) (s : CircuitBreakerBackend) :
    CircuitBreakerBackend :=
  { s with calls := fun c => if c = call then b else s.calls c }

def isError (scope : FailureScope) (err : Option Failure) : Bool :=
  decide (classifyFailure err = scope)

def guard (call : BackendCall) (result : Option Failure) (s : CircuitBreakerBackend) :
    CircuitBreakerBackend × Option Failure :=
  CircuitBreaker.call backend putBackend (isError .backend)
    (CircuitBreaker.call (fun s => s.calls call) (putCall call) (isError .call)
      fun s => ({ s with reached := s.reached + 1 }, result)) s

def Served (s : CircuitBreakerBackend) (call : BackendCall) : Prop :=
  s.backend.state = .closed ∧ (s.calls call).state = .closed
  deriving Decidable

/-! ## One call -/

def counted (b : CircuitBreaker) (own scope : FailureScope) : CircuitBreaker :=
  if scope = own then b.onFailure else b.onSuccess

theorem state_counted {b : CircuitBreaker} (h : b.state = .closed) (own scope : FailureScope) :
    (counted b own scope).state = .closed ↔ ¬ (scope = own ∧ b.failThreshold ≤ b.failures + 1) := by
  by_cases hown : scope = own
  · by_cases hfail : b.failThreshold ≤ b.failures + 1
    · simp [counted, CircuitBreaker.onFailure, hown, h, hfail]
    · simp [counted, CircuitBreaker.onFailure, hown, h, hfail]
  · simp [counted, CircuitBreaker.onSuccess, hown, h]

@[simp] theorem failures_counted (b : CircuitBreaker) (own scope : FailureScope) :
    (counted b own scope).failures = if scope = own then b.failures + 1 else 0 := by
  simp only [counted, CircuitBreaker.onFailure, CircuitBreaker.onSuccess]
  split_ifs <;> rfl

@[simp] theorem failThreshold_counted (b : CircuitBreaker) (own scope : FailureScope) :
    (counted b own scope).failThreshold = b.failThreshold := by
  simp only [counted, CircuitBreaker.onFailure, CircuitBreaker.onSuccess]
  split_ifs <;> rfl

theorem fst_postCheck (b : CircuitBreaker) {own : FailureScope} (hown : own ≠ .none)
    (err : Option Failure) :
    (b.postCheck (isError own) err).1 = counted b own (classifyFailure err) := by
  cases err with
  | none =>
    have hne : classifyFailure none ≠ own := hown.symm
    simp [CircuitBreaker.postCheck, counted, hne]
  | some e =>
    by_cases heq : classifyFailure (some e) = own
    · simp [CircuitBreaker.postCheck, counted, isError, heq]
    · simp [CircuitBreaker.postCheck, counted, isError, heq]

theorem counted_postCheck (outer inner : CircuitBreaker) (err : Option Failure) :
    counted outer .backend (classifyFailure (inner.postCheck (isError .call) err).2) =
      counted outer .backend (classifyFailure err) := by
  cases err with
  | none => simp [CircuitBreaker.postCheck]
  | some e =>
    by_cases heq : classifyFailure (some e) = .call
    · -- the opening failure comes back wrapped in the refusal, which counts nowhere
      have hwrapped : classifyFailure (some (.wrapped .unavailable e)) = .none := by
        simp [classifyFailure, Failure.is]
      simp only [CircuitBreaker.postCheck, isError, heq, decide_true]
      split_ifs
      · rw [heq]
      · rw [hwrapped]
        simp [counted]
    · simp [CircuitBreaker.postCheck, isError, heq]

variable {s : CircuitBreakerBackend} {call : BackendCall}

theorem guard_of_served (h : s.Served call) (result : Option Failure) : (s.guard call result).1 =
      { backend := counted s.backend .backend (classifyFailure result)
        calls := fun c =>
          if c = call then counted (s.calls call) .call (classifyFailure result) else s.calls c
        reached := s.reached + 1 } := by
  obtain ⟨hbackend, hcall⟩ := h
  have hb : s.backend.preCheck = none := by simp [CircuitBreaker.preCheck, hbackend]
  have hc : (s.calls call).preCheck = none := by simp [CircuitBreaker.preCheck, hcall]
  simp only [guard, CircuitBreaker.call, hb, hc, putCall, putBackend,
    fst_postCheck _ (by decide : FailureScope.backend ≠ .none),
    fst_postCheck _ (by decide : FailureScope.call ≠ .none), counted_postCheck]

/-- **A call that is not served does not reach the backend**, and changes at most the count of its
breaker, which it clears. -/
theorem guard_of_not_served (h : ¬ s.Served call) (result : Option Failure) :
    s.guard call result = (s, some .unavailable) ∨
      s.guard call result = (s.putBackend s.backend.onSuccess, some .unavailable) := by
  by_cases hbackend : s.backend.state = .closed
  · right
    have hcall : (s.calls call).state = .opened := by
      cases hstate : (s.calls call).state with
      | closed => exact absurd ⟨hbackend, hstate⟩ h
      | opened => rfl
    have hb : s.backend.preCheck = none := by simp [CircuitBreaker.preCheck, hbackend]
    have hc : (s.calls call).preCheck = some .unavailable := by
      simp [CircuitBreaker.preCheck, hcall]
    have hscope : isError .backend (some .unavailable) = false := by decide
    simp only [guard, CircuitBreaker.call, hb, hc, CircuitBreaker.postCheck, hscope]
  · left
    have hb : s.backend.preCheck = some .unavailable := by
      cases hstate : s.backend.state with
      | closed => exact absurd hstate hbackend
      | opened => simp [CircuitBreaker.preCheck, hstate]
    simp only [guard, CircuitBreaker.call, hb]

theorem not_served_guard (h : ¬ s.Served call) (result : Option Failure) :
    ¬ (s.guard call result).1.Served call := by
  obtain heq | heq := guard_of_not_served h result
  · rw [heq]
    exact h
  · rw [heq]
    exact h

/-! ## A call that keeps failing -/

def HasThreshold (s : CircuitBreakerBackend) (t : Nat) (call : BackendCall) : Prop :=
  s.backend.failThreshold = t ∧ (s.calls call).failThreshold = t

def count (s : CircuitBreakerBackend) (call : BackendCall) : FailureScope → Nat
  | .none => 0
  | .backend => s.backend.failures
  | .call => (s.calls call).failures

def attempts (call : BackendCall) (s : CircuitBreakerBackend) (results : List Failure) :
    CircuitBreakerBackend :=
  after (fun s err => (guard call (some err) s).1) s results

end CircuitBreakerBackend

/-- Results in a row of one scope come to the threshold, with those counted before if the row starts
with the first. -/
def Streak (t : Nat) (count : FailureScope → Nat) (scopes : List FailureScope) : Prop :=
  ∃ earlier scope n later, scopes = earlier ++ List.replicate n scope ++ later ∧ 0 < n ∧
    t ≤ (if earlier = [] then count scope else 0) + n

theorem not_streak_nil (t : Nat) (count : FailureScope → Nat) : ¬ Streak t count [] := by
  rintro ⟨earlier, scope, n, later, heq, hn, -⟩
  have hlen := congrArg List.length heq
  simp only [List.length_nil, List.length_append, List.length_replicate] at hlen
  omega

def countAfter (count : FailureScope → Nat) (scope : FailureScope) : FailureScope → Nat :=
  fun other => if scope = other then count other + 1 else 0

theorem streak_cons {t : Nat} {count : FailureScope → Nat} {scope : FailureScope}
    {scopes : List FailureScope} :
    Streak t count (scope :: scopes) ↔
      t ≤ count scope + 1 ∨ Streak t (countAfter count scope) scopes := by
  constructor
  · rintro ⟨earlier, sc, n, later, heq, hn, ht⟩
    cases earlier with
    | nil =>
      obtain ⟨m, rfl⟩ : ∃ m, n = m + 1 := ⟨n - 1, by omega⟩
      obtain ⟨rfl, rfl⟩ := heq
      rw [if_pos rfl] at ht
      rcases Nat.eq_zero_or_pos m with rfl | hm
      · exact .inl ht
      · refine .inr ⟨[], scope, m, later, rfl, hm, ?_⟩
        simp only [countAfter, if_true]
        omega
    | cons first earlier =>
      obtain ⟨rfl, rfl⟩ := heq
      rw [if_neg (List.cons_ne_nil _ _), Nat.zero_add] at ht
      exact .inr ⟨earlier, sc, n, later, rfl, hn, ht.trans (Nat.le_add_left _ _)⟩
  · rintro (ht | ⟨earlier, sc, n, later, rfl, hn, ht⟩)
    · exact ⟨[], scope, 1, scopes, rfl, Nat.one_pos, ht⟩
    · by_cases hjoin : earlier = [] ∧ scope = sc
      · -- the row goes on from the result in front of it
        obtain ⟨rfl, rfl⟩ := hjoin
        refine ⟨[], scope, n + 1, later, by simp [List.replicate_succ], Nat.succ_pos n, ?_⟩
        simp only [countAfter, if_true] at ht ⊢
        omega
      · refine ⟨scope :: earlier, sc, n, later, rfl, hn, ?_⟩
        have hzero : (if earlier = [] then countAfter count scope sc else 0) = 0 := by
          by_cases hnil : earlier = []
          · rw [if_pos hnil, countAfter, if_neg fun heq => hjoin ⟨hnil, heq⟩]
          · rw [if_neg hnil]
        rw [hzero] at ht
        rw [if_neg (List.cons_ne_nil _ _)]
        exact ht

namespace CircuitBreakerBackend

open Backend

variable {s : CircuitBreakerBackend} {call : BackendCall}

theorem guard_failure {t : Nat} (hs : s.Served call) (ht : s.HasThreshold t call) {err : Failure}
    (herr : classifyFailure (some err) ≠ .none) :
    (s.guard call (some err)).1.HasThreshold t call ∧
    (s.guard call (some err)).1.count call =
      countAfter (s.count call) (classifyFailure (some err)) ∧
    ((s.guard call (some err)).1.Served call ↔
      ¬ t ≤ s.count call (classifyFailure (some err)) + 1) := by
  obtain ⟨hbackend, hcall⟩ := hs
  obtain ⟨htb, htc⟩ := ht
  rw [guard_of_served ⟨hbackend, hcall⟩]
  refine ⟨by simp [HasThreshold, htb, htc], ?_, ?_⟩
  · funext other
    cases other with
    | none => simp [count, countAfter, herr]
    | backend | call => simp [count, countAfter]
  · simp only [Served, if_true, state_counted hbackend, state_counted hcall, htb, htc]
    cases hscope : classifyFailure (some err) with
    | none => exact absurd hscope herr
    | backend | call => simp [count]

theorem not_served_attempts (h : ¬ s.Served call) (results : List Failure) :
    ¬ (s.attempts call results).Served call := by
  induction results generalizing s with
  | nil => exact h
  | cons err results ih => exact ih (not_served_guard h (some err))

theorem not_served_attempts_iff {t : Nat} (hs : s.Served call) (ht : s.HasThreshold t call)
    {results : List Failure} (hfail : ∀ err ∈ results, classifyFailure (some err) ≠ .none) :
    ¬ (s.attempts call results).Served call ↔
      Streak t (s.count call) (results.map fun err => classifyFailure (some err)) := by
  induction results generalizing s with
  | nil => simp [attempts, hs, not_streak_nil]
  | cons err results ih =>
    have hrest := fun e he => hfail e (List.mem_cons_of_mem _ he)
    obtain ⟨ht', hcount, hserved⟩ := guard_failure hs ht (hfail err (List.mem_cons_self ..))
    rw [List.map_cons, streak_cons, ← hcount]
    by_cases hreach : t ≤ s.count call (classifyFailure (some err)) + 1
    · have hopen : ¬ (s.guard call (some err)).1.Served call :=
        fun hstill => hserved.mp hstill hreach
      exact iff_of_true (not_served_attempts hopen results) (.inl hreach)
    · exact (ih (hserved.mpr hreach) ht' hrest).trans (or_iff_right hreach).symm

/-- **When a call that keeps failing is cut off**: exactly where a breaker was open to begin with,
or failures of one scope came to the threshold in a row. -/
theorem cut_off_iff (t : Nat) (call : BackendCall) (s : CircuitBreakerBackend)
    (ht : s.HasThreshold t call) (results : List Failure)
    (hfail : ∀ err ∈ results, classifyFailure (some err) ≠ .none) :
    (¬ (s.attempts call results).Served call ∧ ∀ next,
        ((s.attempts call results).guard call next).2 = some .unavailable ∧
        ((s.attempts call results).guard call next).1.reached =
          (s.attempts call results).reached) ↔
      ¬ s.Served call ∨
        Streak t (s.count call) (results.map fun err => classifyFailure (some err)) := by
  have hrefused : ¬ (s.attempts call results).Served call → ∀ next,
      ((s.attempts call results).guard call next).2 = some .unavailable ∧
      ((s.attempts call results).guard call next).1.reached =
        (s.attempts call results).reached := by
    intro hopen next
    obtain heq | heq := guard_of_not_served hopen next
    · exact heq ▸ ⟨rfl, rfl⟩
    · exact heq ▸ ⟨rfl, rfl⟩
  rw [and_iff_left_of_imp hrefused]
  by_cases hs : s.Served call
  · rw [not_served_attempts_iff hs ht hfail, or_iff_right (not_not_intro hs)]
  · exact iff_of_true (not_served_attempts hs results) (.inl hs)

def refusedConnection : Failure := .text "connection refused"
def slowDown : Failure := .response 503 (.text "SlowDown")

/-- Failures that take turns between the scopes never open a breaker: each clears the count of the
other's. -/
theorem taking_turns_never_cut_off :
    let results := [refusedConnection, slowDown, refusedConnection, slowDown]
    let s := (new 2).attempts .getObject results
    (∀ err ∈ results, classifyFailure (some err) = .backend ∨ classifyFailure (some err) = .call) ∧
    2 * 2 ≤ results.length ∧ s.Served .getObject ∧ s.reached = 4 ∧
    (s.guard .getObject (some slowDown)).1.reached = 5 := by
  decide

/-- Failures of one scope in a row do. -/
theorem cut_off_after_two_refusals :
    ¬ ((new 2).attempts .getObject [refusedConnection, slowDown, slowDown]).Served .getObject :=
  ((cut_off_iff 2 .getObject (new 2) ⟨rfl, rfl⟩ [refusedConnection, slowDown, slowDown]
    (by decide)).mpr (.inr ⟨[.backend], .call, 2, [], by decide, by decide, by decide⟩)).1

/-! ## Listings the caller stops -/

/-- A listing, or another call that succeeds. -/
inductive BackendEvent
  | list (pages : Pages)
  | succeed (call : BackendCall)

def BackendEvent.next (s : CircuitBreakerBackend) : BackendEvent → CircuitBreakerBackend
  | .list pages => (s.guard .listObjects (listObjects pages)).1
  | .succeed call => (s.guard call none).1

def BackendEvent.Answered : BackendEvent → Prop
  | .list pages => Backend.Answered pages
  | .succeed _ => True

def BreakerQuiet (b b' : CircuitBreaker) : Prop :=
  (b.state = .closed → b'.state = .closed) ∧ b'.failures ≤ b.failures

def Quiet (s s' : CircuitBreakerBackend) : Prop :=
  BreakerQuiet s.backend s'.backend ∧ ∀ call, BreakerQuiet (s.calls call) (s'.calls call)

/-- An error of the caller's known not to be the backend's: it stops a listing, is exempt by name,
or has a status about one request. -/
def CallerSide (err : Failure) : Prop :=
  (∃ kind ∈ [Failure.stopListing, .canceled, .deadlineExceeded, .unsupported, .unavailable],
    err.is kind = true) ∨
  statusOf err ≠ 0 ∧ statusOf err ∉ [401, 403, 429] ∧ statusOf err < 500

theorem callerSide_iff (err : Failure) :
    CallerSide err ↔ err.is .stopListing = true ∨ classifyFailure (some err) = .none := by
  rw [CallerSide, classifyFailure]
  simp only [List.mem_cons, List.not_mem_nil, or_false, exists_eq_or_imp, exists_eq_left]
  split_ifs with hexempt hbackend hcall
  · simp only [Bool.or_eq_true] at hexempt
    tauto
  all_goals simp only [Bool.or_eq_true, not_or] at hexempt
  · simp only [hexempt, reduceCtorEq, or_false, or_iff_left_iff_imp]
    omega
  · simp only [hexempt, reduceCtorEq, or_false, or_iff_left_iff_imp]
    omega
  · exact iff_of_true (.inr (by omega)) (.inr rfl)

/-- Where listings are served, the error that ends this one is known to be the caller's. -/
def BackendEvent.Known (s : CircuitBreakerBackend) : BackendEvent → Prop
  | .list pages => s.Served .listObjects → ∀ err, callerError pages = some err → CallerSide err
  | .succeed _ => True

theorem BreakerQuiet.refl (b : CircuitBreaker) : BreakerQuiet b b := ⟨id, le_rfl⟩

theorem BreakerQuiet.onSuccess (b : CircuitBreaker) : BreakerQuiet b b.onSuccess :=
  ⟨id, Nat.zero_le _⟩

theorem breakerQuiet_counted (b : CircuitBreaker) (own scope : FailureScope) :
    BreakerQuiet b (counted b own scope) ↔ scope ≠ own := by
  constructor
  · rintro ⟨-, hle⟩ rfl
    simp at hle
  · intro hne
    rw [counted, if_neg hne]
    exact .onSuccess b

theorem quiet_guard_iff (s : CircuitBreakerBackend) (call : BackendCall) (result : Option Failure) :
    Quiet s (s.guard call result).1 ↔ (s.Served call → classifyFailure result = .none) := by
  by_cases hs : s.Served call
  · rw [guard_of_served hs, imp_iff_right hs, Quiet, breakerQuiet_counted]
    constructor
    · rintro ⟨hbackend, hcalls⟩
      have hcall := hcalls call
      simp only [if_true, breakerQuiet_counted] at hcall
      cases hscope : classifyFailure result with
      | none => rfl
      | backend => exact absurd hscope hbackend
      | call => exact absurd hscope hcall
    · intro hnone
      refine ⟨by simp [hnone], fun c => ?_⟩
      by_cases hc : c = call
      · subst hc
        simp [breakerQuiet_counted, hnone]
      · simp only [if_neg hc]
        exact .refl _
  · refine iff_of_true ?_ fun hserved => absurd hserved hs
    obtain heq | heq := guard_of_not_served hs result
    · rw [heq]
      exact ⟨.refl _, fun _ => .refl _⟩
    · rw [heq]
      exact ⟨.onSuccess _, fun _ => .refl _⟩

theorem quiet_next_iff (s : CircuitBreakerBackend) {e : BackendEvent} (h : e.Answered) :
    Quiet s (e.next s) ↔ e.Known s := by
  cases e with
  | succeed call => exact iff_of_true ((quiet_guard_iff s call none).mpr fun _ => rfl) trivial
  | list pages =>
    rw [BackendEvent.next, quiet_guard_iff, listObjects_of_answered h, BackendEvent.Known]
    refine imp_congr_right fun _ => ?_
    cases callerError pages with
    | none => exact iff_of_true rfl fun _ h => by cases h
    | some err =>
      cases hstop : err.is .stopListing with
      | true => simp [callerSide_iff, hstop, Option.filter_some, classifyFailure]
      | false => simp [callerSide_iff, hstop, Option.filter_some]

/-- **When listings the caller stops leave the breakers alone**: exactly where every error the
caller ends a served listing with is one the breakers know to be the caller's. -/
theorem listings_quiet_iff (s : CircuitBreakerBackend) (events : List BackendEvent)
    (h : ∀ e ∈ events, e.Answered) :
    Along BackendEvent.next (fun s e => Quiet s (e.next s)) s events ↔
      Along BackendEvent.next (fun s e => e.Known s) s events := by
  constructor
  · intro hquiet
    exact hquiet.imp_mem fun s e he => (quiet_next_iff s (h e he)).mp
  · intro hknown
    exact hknown.imp_mem fun s e he => (quiet_next_iff s (h e he)).mpr

def endedWith (err : Failure) : BackendEvent :=
  .list [(.ok [{ key := "photos/a", sizeBytes := 1 }], some err)]

theorem endedWith_answered (err : Failure) : (endedWith err).Answered := by
  intro page hpage
  exact ⟨_, congrArg Prod.fst (List.mem_singleton.mp hpage)⟩

/-- Five scans that spend their budget open the breaker of a sound backend, and an upload is
refused. -/
theorem spent_budget_opens_backend :
    (∀ e ∈ List.replicate 5 (endedWith errBudgetExhausted), e.Answered) ∧
    let s := after BackendEvent.next (new 5) (List.replicate 5 (endedWith errBudgetExhausted))
    (new 5).backend.state = .closed ∧ s.backend.state = .opened ∧
    (new 5).backend.failures = 0 ∧ s.backend.failures = 5 ∧
    s.guard .putObject none = (s, some .unavailable) := by
  refine ⟨fun e he => List.eq_of_mem_replicate he ▸ endedWith_answered _, ?_⟩
  exact ⟨rfl, by decide, rfl, by decide, rfl⟩

/-- A scan whose context is cancelled does not. -/
theorem cancelled_scan_quiet :
    Along BackendEvent.next (fun s e => Quiet s (e.next s)) (new 5)
      [endedWith .canceled, .succeed .putObject] := by
  refine (listings_quiet_iff _ _ ?_).mpr ⟨fun _ err herr => ?_, trivial, trivial⟩
  · intro e he
    rcases List.mem_pair.mp he with rfl | rfl
    · exact endedWith_answered _
    · trivial
  · cases (by simpa [callerError, convertListPage, probeKey] using herr : Failure.canceled = err)
    exact .inl ⟨.canceled, by simp, rfl⟩

end CircuitBreakerBackend

end S3Orchestrator
