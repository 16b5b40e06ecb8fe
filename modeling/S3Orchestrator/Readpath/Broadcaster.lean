import S3Orchestrator.Readpath.Scheduler
import S3Orchestrator.Backend.Breaker

/-!
# The answer of a degraded read

A degraded read asks every backend that is configured. When none of them has the object to give, its
error is made from the failure that arrived last.

* **`reports_last`**.
-/

namespace S3Orchestrator.Readpath

open List ProbeScheduler

open RowStore (after Along after_append after_cons after_nil)

variable {α : Type}

/-! ## The read -/

/-- The error of a read that no backend answered: there was no backend to ask, or the last of the
failures, wrapped. -/
inductive BroadcastError
  | objectNotFound
  | allFailed (last : Failure)

/-- The error of a read, from the failures in the order they arrived. -/
def broadcastAllFailed (errs : List Failure) : BroadcastError :=
  match errs.getLast? with
  | none => .objectNotFound
  | some last => .allFailed last

/-- The order of the backends, whether each name stands for one, and how many are asked at once. -/
structure Broadcaster where
  order : List String
  resolves : String → Bool
  parallel : Bool
  parallelism : Int

namespace Broadcaster

variable (b : Broadcaster)

/-- The backends that are asked. -/
def eligibleBackends : List String := b.order.filter b.resolves

/-- The probes, one at a time unless the broadcast is parallel. -/
def scheduler : ProbeScheduler where
  pending := b.eligibleBackends
  parallelism := if b.parallel then b.parallelism else 1

/-- The result of a read whose scheduler is in this state, once it has ended. -/
def tryAllBackends (s : Broadcast α Failure) : Option (Except BroadcastError (α × String)) :=
  match s.phase with
  | .running => none
  | .won r => r.outcome.toOption.map fun res => .ok (res.value, r.name)
  | .lost => some (.error (broadcastAllFailed s.errs))

end Broadcaster

/-! ## Outcomes -/

/-- What each backend's probe comes to. -/
abbrev Outcomes (α : Type) := String → Except Failure (ProbeResult α)

/-- The backend has the object to give. -/
def Answers (outcome : Outcomes α) (name : String) : Prop := ∃ res, outcome name = .ok res

/-- The probes of the run come to these outcomes. -/
def Follows (outcome : Outcomes α) (run : List (ProbeScheduler.Event α Failure)) : Prop :=
  ∀ r, ProbeScheduler.Event.send r ∈ run → r.outcome = outcome r.name

/-- The failure of the backend can be the last to arrive. With one slot the failures arrive in the
order of the list. -/
def Broadcaster.CanBeLast (b : Broadcaster) (name : String) : Prop :=
  b.scheduler.slots ≠ 1 ∨ b.eligibleBackends.getLast? = some name

/-- The read succeeds just if a probe that was started does. Where it fails no backend has the
object, and the error is the failure that arrived last, or says not found if none was asked. -/
def Broadcaster.ReportsLast (b : Broadcaster) (outcome : Outcomes α) (s : Broadcast α Failure)
    (result : Except BroadcastError (α × String)) : Prop :=
  ((∃ won, result = .ok won) ↔ ∃ name ∈ s.cancels, Answers outcome name) ∧
  ∀ err, result = .error err → (∀ name ∈ b.eligibleBackends, ¬ Answers outcome name) ∧
    match s.seen.getLast? with
    | none => b.eligibleBackends = [] ∧ err = .objectNotFound
    | some r => r.name ∈ b.eligibleBackends ∧ b.CanBeLast r.name ∧
        ∃ failure, outcome r.name = .error failure ∧ err = .allFailed failure

/-! ## Runs with assigned outcomes -/

section Runs

variable {sched : ProbeScheduler} {outcome : Outcomes α} {s : Broadcast α Failure}

@[simp] theorem sent_launchNext : (sched.launchNext s).sent = s.sent := by
  unfold launchNext
  split <;> rfl

@[simp] theorem received_launchNext : (sched.launchNext s).received = s.received := by
  unfold launchNext
  split <;> rfl

@[simp] theorem sent_loop : (loop s).sent = s.sent := by
  unfold loop
  split <;> rfl

@[simp] theorem received_loop : (loop s).received = s.received := by
  unfold loop
  split <;> rfl

theorem sent_step (sched : ProbeScheduler) (e : ProbeScheduler.Event α Failure) :
    (sched.step s e).sent = s.sent ∨
      ∃ r, e = .send r ∧ r.name ∈ s.cancels ∧ r.name ∉ s.sent.map BroadcastResult.name ∧
        (sched.step s e).sent = s.sent ++ [r] := by
  cases e with
  | send r =>
    simp only [step]
    split_ifs with hsend
    · exact .inr ⟨r, rfl, hsend.1, hsend.2, rfl⟩
    · exact .inl rfl
  | receive =>
    refine .inl ?_
    simp only [step]
    split
    · simp only [receive]
      split <;> simp
    · rfl
  | drain | stopDrain =>
    refine .inl ?_
    simp only [step]
    split <;> rfl

@[simp] theorem sent_start : (sched.start : Broadcast α Failure).sent = [] := by
  rw [start, launchNext_iterate slots_le, sent_loop]

@[simp] theorem received_start : (sched.start : Broadcast α Failure).received = 0 := by
  rw [start, launchNext_iterate slots_le, received_loop]

variable {r : BroadcastResult α Failure}

theorem outcome_of_follows (sched : ProbeScheduler) {run : List (ProbeScheduler.Event α Failure)}
    (hrun : Follows outcome run) (hr : r ∈ (after sched.step sched.start run).sent) :
    r.outcome = outcome r.name := by
  have hall : Along sched.step (fun _ e => ∀ r, e = .send r → r.outcome = outcome r.name)
      (sched.start : Broadcast α Failure) run := by
    have htrue : Along sched.step (fun _ _ => True) (sched.start : Broadcast α Failure) run :=
      RowStore.along_of_forall fun _ _ => trivial
    exact htrue.imp_mem fun _ e he _ r heq => hrun r (heq ▸ he)
  refine hall.invariant (I := fun s => ∀ r ∈ s.sent, r.outcome = outcome r.name) (by simp) ?_ r hr
  intro s e hs he r hr
  rcases sent_step sched e with hsame | ⟨r', rfl, -, -, hadd⟩
  · exact hs r (hsame ▸ hr)
  · rw [hadd] at hr
    rcases mem_append.mp hr with hr | hr
    · exact hs r hr
    · rw [mem_singleton.mp hr]
      exact he r' rfl

/-! ### One slot -/

theorem launched_le_of_one_slot (h : s.Sound sched) (hslots : sched.slots = 1) :
    s.launched ≤ s.sent.length + 1 := by
  have htaken := h.taken
  cases h.stands with
  | running _ hfailed | won _ hfailed hreceived | lost _ hfailed =>
    have := hfailed.window
    omega

theorem names_prefix_of_one_slot (hslots : sched.slots = 1)
    (run : List (ProbeScheduler.Event α Failure)) :
    (after sched.step sched.start run).sent.map BroadcastResult.name <+: sched.pending := by
  have hall : Along sched.step (fun _ _ => True) (sched.start : Broadcast α Failure) run :=
    RowStore.along_of_forall fun _ _ => trivial
  refine (hall.invariant
    (I := fun s => s.Sound sched ∧ s.sent.map BroadcastResult.name <+: sched.pending)
    ⟨sound_start, by simp⟩ ?_).2
  rintro s e ⟨hs, hprefix⟩ -
  refine ⟨hs.step e, ?_⟩
  rcases sent_step sched e with hsame | ⟨r, rfl, hstarted, hfresh, hadd⟩
  · rwa [hsame]
  · -- the only probe that is out is the next of the list
    have hlaunched := launched_le_of_one_slot hs hslots
    have hsent : s.sent.map BroadcastResult.name = sched.pending.take s.sent.length := by
      have htake := prefix_iff_eq_take.mp hprefix
      rwa [length_map] at htake
    rw [hs.cancels] at hstarted
    rw [hsent] at hfresh
    have hin : r.name ∈ sched.pending.take (s.sent.length + 1) :=
      take_subset_take_left _ hlaunched hstarted
    have hlt : s.sent.length < sched.pending.length := by
      by_contra hnot
      rw [take_of_length_le (by omega)] at hin hfresh
      exact hfresh hin
    rw [take_succ_eq_append_getElem hlt, mem_append] at hin
    have hname := mem_singleton.mp (hin.resolve_left hfresh)
    rw [hadd, map_append, hsent, map_singleton, hname, ← take_succ_eq_append_getElem hlt]
    exact take_prefix _ _

/-! ### Any order that the window admits -/

def arrive (outcome : Outcomes α) (name : String) : List (ProbeScheduler.Event α Failure) :=
  [.send ⟨name, outcome name⟩, .receive]

theorem follows_arrive (outcome : Outcomes α) (names : List String) :
    Follows outcome (names.flatMap (arrive outcome)) := by
  intro r hr
  obtain ⟨name, -, hr⟩ := mem_flatMap.mp hr
  simp only [arrive, mem_cons, ProbeScheduler.Event.send.injEq, reduceCtorEq,
    not_mem_nil, or_false] at hr
  rw [hr]

theorem step_receive {rest : List (BroadcastResult α Failure)} (hphase : s.phase = .running)
    (hch : s.ch = r :: rest) : sched.step s .receive = sched.receive r s := by
  simp only [step, hphase, hch]

theorem after_arrive (h : s.Sound sched) (hreceived : s.received = s.sent.length)
    (hnone : ∀ r ∈ s.sent, ¬ r.Succeeded) (hmore : s.sent.length < sched.pending.length)
    {name : String} (hname : name ∈ sched.pending.take (sched.slots + s.sent.length))
    (hfresh : name ∉ s.sent.map BroadcastResult.name) {err : Failure}
    (herr : outcome name = .error err) :
    (after sched.step s (arrive outcome name)).sent = s.sent ++ [⟨name, outcome name⟩] ∧
      (after sched.step s (arrive outcome name)).received = s.received + 1 := by
  cases h.stands with
  | won _ _ _ hwinner hok => exact absurd hok (hnone _ (mem_of_getElem? hwinner))
  | lost _ _ hall =>
    omega
  | running hphase hfailed _ hdrain =>
    have hstarted : name ∈ s.cancels := by
      have hwindow := hfailed.window
      rw [hreceived] at hwindow
      rw [h.cancels, hwindow]
      rwa [take_eq_take_min] at hname
    have hsend : sched.step s (.send ⟨name, outcome name⟩) =
        { s with sent := s.sent ++ [⟨name, outcome name⟩] } := by
      exact if_pos ⟨hstarted, hfresh⟩
    have hch : ({ s with sent := s.sent ++ [⟨name, outcome name⟩] } : Broadcast α Failure).ch =
        [⟨name, outcome name⟩] := by
      simp [Broadcast.ch, hreceived, hdrain.drained]
    rw [arrive, after_cons, after_cons, after_nil, hsend,
      step_receive (s := { s with sent := s.sent ++ [⟨name, outcome name⟩] }) hphase hch]
    simp [receive, herr]

theorem arrives_in_order {names : List String} (hdistinct : names.Nodup)
    (hlen : names.length ≤ sched.pending.length)
    (hadmits : ∀ k (hk : k < names.length), names[k] ∈ sched.pending.take (sched.slots + k))
    (hfails : ∀ name ∈ names, ∃ err, outcome name = .error err) :
    (after sched.step sched.start (names.flatMap (arrive outcome))).sent =
        names.map (fun name => ⟨name, outcome name⟩) ∧
      (after sched.step sched.start (names.flatMap (arrive outcome))).received = names.length := by
  suffices hupto : ∀ k ≤ names.length,
      (after sched.step sched.start ((names.take k).flatMap (arrive outcome))).sent =
        (names.take k).map (fun name => ⟨name, outcome name⟩) ∧
      (after sched.step sched.start ((names.take k).flatMap (arrive outcome))).received = k by
    simpa using hupto names.length le_rfl
  intro k hk
  induction k with
  | zero => simp
  | succ k ih =>
    obtain ⟨hsent, hreceived⟩ := ih (by omega)
    have hlt : k < names.length := hk
    have hsound := sound_after sched ((names.take k).flatMap (arrive outcome))
    rw [take_succ_eq_append_getElem hlt, flatMap_append, after_append,
      flatMap_singleton, map_append, map_singleton]
    generalize after sched.step sched.start ((names.take k).flatMap (arrive outcome)) = s
      at hsent hreceived hsound
    have hcount : s.sent.length = k := by
      rw [hsent, length_map, length_take]
      omega
    obtain ⟨err, herr⟩ := hfails _ (getElem_mem hlt)
    have hnone : ∀ r ∈ s.sent, ¬ r.Succeeded := by
      intro r hr
      rw [hsent] at hr
      obtain ⟨name, hname, rfl⟩ := mem_map.mp hr
      obtain ⟨err', herr'⟩ := hfails name (mem_of_mem_take hname)
      simp [BroadcastResult.Succeeded, BroadcastResult.error?, herr']
    have hfresh : names[k] ∉ s.sent.map BroadcastResult.name := by
      rw [hsent, map_map]
      intro hin
      obtain ⟨name, hname, heq⟩ := mem_map.mp hin
      have hdisjoint := hdistinct
      rw [← take_append_drop k names, drop_eq_getElem_cons hlt] at hdisjoint
      exact (disjoint_of_nodup_append hdisjoint) hname
        (by rw [show name = names[k] from heq]; exact mem_cons_self)
    have hstep := after_arrive hsound (hreceived.trans hcount.symm) hnone (by omega)
      (by rw [hcount]; exact hadmits k hlt) hfresh herr
    rw [hsent, hreceived] at hstep
    exact hstep

end Runs

/-! ## What a read reports -/

section Reporting

variable {b : Broadcaster} {outcome : Outcomes α} {run : List (ProbeScheduler.Event α Failure)}
  {s : Broadcast α Failure}

theorem seen_of_lost (h : s.Sound b.scheduler) (hphase : s.phase = .lost) :
    s.Failed b.scheduler s.received ∧ s.seen.length = b.eligibleBackends.length ∧
      ∀ name ∈ b.eligibleBackends, ∃ r ∈ s.seen, r.name = name := by
  cases h.stands with
  | running hphase' | won hphase' => simp [hphase] at hphase'
  | lost _ hfailed hall =>
    have htaken := h.taken
    have hlen : s.seen.length = b.eligibleBackends.length := by
      rw [Broadcast.seen, length_take, Nat.min_eq_left (by omega)]
      exact hall
    exact ⟨hfailed, hlen, fun name hname => h.mem_names (by rw [length_map]; exact hlen.ge) hname⟩

theorem error_of_lost (h : s.Sound b.scheduler) (hphase : s.phase = .lost)
    (hsent : ∀ r ∈ s.sent, r.outcome = outcome r.name) :
    match s.seen.getLast? with
    | none => broadcastAllFailed s.errs = .objectNotFound
    | some r => ∃ failure, outcome r.name = .error failure ∧
        broadcastAllFailed s.errs = .allFailed failure := by
  have hlast : s.seen.getLast?.map BroadcastResult.error? = s.errs.getLast?.map some := by
    rw [← getLast?_map, ← getLast?_map, Broadcast.seen, (seen_of_lost h hphase).1.errs]
  unfold broadcastAllFailed
  cases hseen : s.seen.getLast? with
  | none =>
    rw [hseen, Option.map_none, eq_comm, Option.map_eq_none_iff] at hlast
    simp only [hlast]
  | some r =>
    rw [hseen, Option.map_some, eq_comm] at hlast
    obtain ⟨err, herr, hrerr⟩ := Option.map_eq_some_iff.mp hlast
    simp only [herr]
    refine ⟨err, ?_, rfl⟩
    rw [← hsent r (mem_of_mem_take (mem_of_getLast? hseen))]
    unfold BroadcastResult.error? at hrerr
    split at hrerr
    · next err' heq =>
        cases hrerr
        exact heq
    · cases hrerr

variable {r : BroadcastResult α Failure}

theorem answers_of_succeeded (hok : r.Succeeded) (hout : r.outcome = outcome r.name) :
    Answers outcome r.name := by
  cases hr : r.outcome with
  | error err => simp [BroadcastResult.Succeeded, BroadcastResult.error?, hr] at hok
  | ok res => exact ⟨res, hout.symm.trans hr⟩

theorem not_answers_of_lost (h : s.Sound b.scheduler) (hphase : s.phase = .lost)
    (hsent : ∀ r ∈ s.sent, r.outcome = outcome r.name) {name : String}
    (hname : name ∈ b.eligibleBackends) : ¬ Answers outcome name := by
  obtain ⟨hfailed, -, hall⟩ := seen_of_lost h hphase
  obtain ⟨r, hr, rfl⟩ := hall name hname
  rintro ⟨res, hres⟩
  refine hfailed.not_succeeded hr ?_
  rw [BroadcastResult.Succeeded, BroadcastResult.error?, hsent r (mem_of_mem_take hr), hres]

theorem Broadcaster.mem_eligible (h : s.Sound b.scheduler) {name : String}
    (hname : name ∈ s.cancels) : name ∈ b.eligibleBackends := by
  rw [h.cancels] at hname
  exact mem_of_mem_take hname

theorem succeeds_iff (hrun : Follows outcome run) {result : Except BroadcastError (α × String)}
    (hresult : Broadcaster.tryAllBackends (after b.scheduler.step b.scheduler.start run) =
      some result) :
    (∃ won, result = .ok won) ↔
      ∃ name ∈ (after b.scheduler.step b.scheduler.start run).cancels, Answers outcome name := by
  have h := sound_after b.scheduler run
  have hsent := fun r => outcome_of_follows (r := r) b.scheduler hrun
  generalize after b.scheduler.step b.scheduler.start run = s at h hsent hresult
  unfold Broadcaster.tryAllBackends at hresult
  cases hphase : s.phase with
  | running => simp [hphase] at hresult
  | won r =>
    obtain ⟨hseen, hok, -⟩ := h.winner_kept hphase
    have hin := mem_of_mem_take hseen
    obtain ⟨res, hres⟩ := answers_of_succeeded hok (hsent r hin)
    rw [← hsent r hin] at hres
    rw [hphase] at hresult
    simp only [hres, Except.toOption, Option.map_some, Option.some.injEq] at hresult
    exact ⟨fun _ => ⟨r.name, h.sent r hin, res, (hsent r hin).symm.trans hres⟩,
      fun _ => ⟨_, hresult.symm⟩⟩
  | lost =>
    rw [hphase] at hresult
    obtain rfl := Option.some.inj hresult
    refine ⟨by simp, ?_⟩
    rintro ⟨name, hname, hanswers⟩
    exact absurd hanswers (not_answers_of_lost h hphase hsent (b.mem_eligible h hname))

theorem canBeLast_of_lost (hlost : (after b.scheduler.step b.scheduler.start run).phase = .lost)
    (hr : (after b.scheduler.step b.scheduler.start run).seen.getLast? = some r) :
    b.CanBeLast r.name := by
  by_cases hslots : b.scheduler.slots = 1
  · have h := sound_after b.scheduler run
    obtain ⟨-, hlen, -⟩ := seen_of_lost h hlost
    have hprefix : (after b.scheduler.step b.scheduler.start run).seen.map BroadcastResult.name <+:
        b.eligibleBackends :=
      (( take_prefix _ _).map _).trans (names_prefix_of_one_slot hslots run)
    have hnames := hprefix.eq_of_length (by rw [length_map]; exact hlen)
    refine .inr ?_
    rw [← hnames, getLast?_map, hr]
    rfl
  · exact .inl hslots

theorem reportsLast_of_follows (hrun : Follows outcome run)
    {result : Except BroadcastError (α × String)}
    (hresult : Broadcaster.tryAllBackends (after b.scheduler.step b.scheduler.start run) =
      some result) :
    b.ReportsLast outcome (after b.scheduler.step b.scheduler.start run) result := by
  refine ⟨succeeds_iff hrun hresult, ?_⟩
  rintro err rfl
  have h := sound_after b.scheduler run
  have hsent := fun r => outcome_of_follows (r := r) b.scheduler hrun
  have hlast : ∀ r, (after b.scheduler.step b.scheduler.start run).phase = .lost →
      (after b.scheduler.step b.scheduler.start run).seen.getLast? = some r →
      b.CanBeLast r.name := fun _ hlost hr => canBeLast_of_lost hlost hr
  generalize after b.scheduler.step b.scheduler.start run = s at h hsent hlast hresult
  unfold Broadcaster.tryAllBackends at hresult
  cases hphase : s.phase with
  | running => simp [hphase] at hresult
  | won r =>
    rw [hphase] at hresult
    obtain ⟨res, -, hres⟩ := Option.map_eq_some_iff.mp hresult
    cases hres
  | lost =>
    rw [hphase] at hresult
    simp only [Option.some.injEq, Except.error.injEq] at hresult
    refine ⟨fun name hname => not_answers_of_lost h hphase hsent hname, ?_⟩
    have herror := error_of_lost h hphase hsent
    obtain ⟨-, hlen, -⟩ := seen_of_lost h hphase
    rw [hresult] at herror
    cases hseen : s.seen.getLast? with
    | none =>
      rw [hseen] at herror
      rw [getLast?_eq_none_iff.mp hseen] at hlen
      exact ⟨eq_nil_of_length_eq_zero hlen.symm, herror⟩
    | some r =>
      rw [hseen] at herror
      exact ⟨b.mem_eligible h (h.sent r (mem_of_mem_take (mem_of_getLast? hseen))),
        hlast r hphase hseen, herror⟩

theorem exists_order (hdistinct : b.eligibleBackends.Nodup) {last : String}
    (hmem : last ∈ b.eligibleBackends) (hlast : b.CanBeLast last) :
    ∃ names : List String, names.Nodup ∧ (∀ name, name ∈ names ↔ name ∈ b.eligibleBackends) ∧
      names.length = b.eligibleBackends.length ∧ names.getLast? = some last ∧
      ∀ k (hk : k < names.length), names[k] ∈ b.scheduler.pending.take (b.scheduler.slots + k) := by
  have hpos : 0 < b.scheduler.slots := slots_pos (ne_nil_of_mem hmem)
  by_cases hslots : b.scheduler.slots = 1
  · refine ⟨b.eligibleBackends, hdistinct, fun _ => Iff.rfl, rfl,
      hlast.resolve_left (not_not.mpr hslots), fun k hk => ?_⟩
    exact mem_take_iff_getElem.mpr ⟨k, by rw [hslots]; exact lt_min (by omega) hk, rfl⟩
  · -- every other backend in the order of the list, each in the first slot that is free
    obtain ⟨before, rest, heq⟩ := append_of_mem hmem
    have hperm : (before ++ rest ++ [last]).Perm b.eligibleBackends := by
      rw [heq, append_assoc]
      exact (perm_append_singleton last rest).append_left before
    refine ⟨before ++ rest ++ [last], hperm.nodup_iff.mpr hdistinct, fun _ => hperm.mem_iff,
      hperm.length_eq, by simp, fun k hk => ?_⟩
    have hpending : b.scheduler.pending = before ++ last :: rest := heq
    simp only [length_append, length_singleton] at hk
    rw [hpending, mem_take_iff_getElem]
    by_cases hbefore : k < before.length
    · exact ⟨k, by simp; omega, by simp [hbefore]⟩
    · by_cases hrest : k < before.length + rest.length
      · refine ⟨k + 1, by simp; omega, ?_⟩
        rw [getElem_append_right (by omega), getElem_append_left (by simpa using hrest),
          getElem_append_right (by omega)]
        simp [Nat.succ_sub (not_lt.mp hbefore)]
      · refine ⟨before.length, by simp; omega, ?_⟩
        have hk' : k = (before ++ rest).length := by
          rw [length_append]
          omega
        simp [hk']

theorem exists_run_ending (hdistinct : b.order.Nodup)
    (hnone : ∀ name ∈ b.eligibleBackends, ¬ Answers outcome name) {last : String}
    (hmem : last ∈ b.eligibleBackends) (hlast : b.CanBeLast last) :
    ∃ run failure, Follows outcome run ∧ outcome last = .error failure ∧
      Broadcaster.tryAllBackends (after b.scheduler.step b.scheduler.start run) =
        some (.error (.allFailed failure)) := by
  obtain ⟨names, hnodup, hnames, hlen, hend, hadmits⟩ :=
    exists_order (hdistinct.filter _) hmem hlast
  have hfails : ∀ name ∈ names, ∃ err, outcome name = .error err := by
    intro name hname
    cases hout : outcome name with
    | error err => exact ⟨err, rfl⟩
    | ok res => exact absurd ⟨res, hout⟩ (hnone name ((hnames name).mp hname))
  obtain ⟨failure, hfailure⟩ := hfails last ((hnames last).mpr hmem)
  have hfollows := follows_arrive outcome names
  refine ⟨names.flatMap (arrive outcome), failure, hfollows, hfailure, ?_⟩
  obtain ⟨hsent, hreceived⟩ := arrives_in_order hnodup hlen.le hadmits hfails
  have hsound := sound_after b.scheduler (names.flatMap (arrive outcome))
  have hout := fun r => outcome_of_follows (r := r) b.scheduler hfollows
  generalize after b.scheduler.step b.scheduler.start (names.flatMap (arrive outcome)) = s
    at hsent hreceived hsound hout
  have hlost : s.phase = .lost := by
    cases hsound.stands with
    | lost hphase => exact hphase
    | won _ _ _ hwinner hok =>
      have hin := mem_of_getElem? hwinner
      rw [hsent] at hin
      obtain ⟨name, hname, rfl⟩ := mem_map.mp hin
      obtain ⟨err, herr⟩ := hfails name hname
      simp [BroadcastResult.Succeeded, BroadcastResult.error?, herr] at hok
    | running _ hfailed hwaits =>
      have hwindow := hfailed.window
      have : b.scheduler.pending.length = b.eligibleBackends.length := rfl
      omega
  have hseen : s.seen.getLast? = some ⟨last, outcome last⟩ := by
    rw [Broadcast.seen, hsent, hreceived, take_of_length_le (by simp), getLast?_map, hend]
    rfl
  have herror := error_of_lost hsound hlost hout
  rw [hseen] at herror
  obtain ⟨failure', hfailure', herror⟩ := herror
  obtain rfl : failure = failure' := Except.error.inj (hfailure.symm.trans hfailure')
  simp only [Broadcaster.tryAllBackends, hlost, herror]

/-- The first backend cannot be reached, the second answers not found. -/
def unreachableAndAbsent : Outcomes Unit
  | "a" => .error .deadlineExceeded
  | _ => .error (.response 404 (.text "NoSuchKey"))

/-- The two, asked at once. -/
def twoAtOnce : Broadcaster := ⟨["a", "b"], fun _ => true, true, 0⟩

end Reporting

end S3Orchestrator.Readpath
