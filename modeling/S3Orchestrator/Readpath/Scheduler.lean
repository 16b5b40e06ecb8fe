import S3Orchestrator.Lib.Run
import Mathlib.Data.List.Nodup
import Mathlib.Data.List.Perm.Subperm

/-!
# The probe scheduler of a degraded read

A degraded read asks every backend for the object, in a rolling window: so many probes are started
at once, and each failure starts the next. The first success that is received wins. The contexts of
the others are cancelled, and their results are cleaned up in the background.

The probes run in goroutines of their own and send their results to a channel. A run is a list of
events, in any order: a probe sends, the loop receives, the drain receives, the drain stops.

* `Sound.step`, **`sound_after`**: the invariant, along every run;
* **`loses_nothing`**.
-/

namespace S3Orchestrator.Readpath

open List

open RowStore (after Along along_of_forall)

variable {α ε : Type}

/-! ## The scheduler -/

/-- What a successful probe returns. `cleanup` says whether it holds something to release. -/
structure ProbeResult (α : Type) where
  value : α
  size : Int
  cleanup : Bool

structure BroadcastResult (α ε : Type) where
  name : String
  outcome : Except ε (ProbeResult α)

def BroadcastResult.error? (r : BroadcastResult α ε) : Option ε :=
  match r.outcome with
  | .error err => some err
  | .ok _ => none

def BroadcastResult.Succeeded (r : BroadcastResult α ε) : Prop := r.error? = none

def BroadcastResult.cleanup (r : BroadcastResult α ε) : Bool :=
  match r.outcome with
  | .error _ => false
  | .ok res => res.cleanup

structure ProbeScheduler where
  pending : List String
  parallelism : Int

inductive Phase (α ε : Type)
  | running
  | won (winner : BroadcastResult α ε)
  | lost

/-- The call, its probes and the drain. The channel is what has been sent and not received, by the
loop or by the drain. -/
structure Broadcast (α ε : Type) where
  launched : Nat := 0
  cancels : List String := []
  sent : List (BroadcastResult α ε) := []
  received : Nat := 0
  errs : List ε := []
  phase : Phase α ε := .running
  cancelled : List String := []
  remaining : Nat := 0
  drained : Nat := 0
  cleaned : List String := []
  stopped : Bool := false

def Broadcast.ch (s : Broadcast α ε) : List (BroadcastResult α ε) :=
  s.sent.drop (s.received + s.drained)

def broadcastSlotCount (limit : Int) (eligible : Nat) : Nat :=
  if limit ≤ 0 ∨ (eligible : Int) < limit then eligible else limit.toNat

def cancelLosers (cancels : List String) (winner : String) : List String :=
  cancels.filter fun name => name != winner

namespace ProbeScheduler

variable (sched : ProbeScheduler)

def slots : Nat := broadcastSlotCount sched.parallelism sched.pending.length

def launchNext (s : Broadcast α ε) : Broadcast α ε :=
  match sched.pending[s.launched]? with
  | none => s
  | some name => { s with launched := s.launched + 1, cancels := s.cancels ++ [name] }

def loop (s : Broadcast α ε) : Broadcast α ε :=
  if s.received < s.launched then s else { s with phase := .lost, cancelled := s.cancels }

def start : Broadcast α ε := loop (sched.launchNext^[sched.slots] {})

def receive (r : BroadcastResult α ε) (s : Broadcast α ε) : Broadcast α ε :=
  match r.outcome with
  | .error err =>
    loop (sched.launchNext { s with received := s.received + 1, errs := s.errs ++ [err] })
  | .ok _ =>
    { s with
      received := s.received + 1
      phase := .won r
      cancelled := cancelLosers s.cancels r.name
      remaining := s.launched - (s.received + 1) }

def drain (r : BroadcastResult α ε) (s : Broadcast α ε) : Broadcast α ε :=
  { s with
    remaining := s.remaining - 1
    drained := s.drained + 1
    cleaned := if r.cleanup then s.cleaned ++ [r.name] else s.cleaned }

/-- A probe sends its result, the loop or the drain receives one, or the drain gives up. -/
inductive Event (α ε : Type)
  | send (r : BroadcastResult α ε)
  | receive
  | drain
  | stopDrain

/-- An event that cannot happen changes nothing: a probe not started or done, an empty channel, a
loop or a drain that is not running. -/
def step (s : Broadcast α ε) : Event α ε → Broadcast α ε
  | .send r =>
    if r.name ∈ s.cancels ∧ r.name ∉ s.sent.map BroadcastResult.name then
      { s with sent := s.sent ++ [r] }
    else s
  | .receive =>
    match s.phase, s.ch with
    | .running, r :: _ => sched.receive r s
    | _, _ => s
  | .drain =>
    match s.remaining, s.ch with
    | _ + 1, r :: _ => drain r s
    | _, _ => s
  | .stopDrain => if 0 < s.remaining then { s with remaining := 0, stopped := true } else s

end ProbeScheduler

/-! ## What every state keeps -/

section Soundness

variable (sched : ProbeScheduler)

structure Broadcast.Failed (s : Broadcast α ε) (k : Nat) : Prop where
  errs : (s.sent.take k).map BroadcastResult.error? = s.errs.map some
  window : s.launched = min (sched.slots + k) sched.pending.length

structure Broadcast.Undrained (s : Broadcast α ε) : Prop where
  drained : s.drained = 0
  cleaned : s.cleaned = []
  remaining : s.remaining = 0
  stopped : s.stopped = false

/-- What holds in each phase of the call. -/
inductive Broadcast.Stands (s : Broadcast α ε) : Prop
  | running (hphase : s.phase = .running) (hfailed : s.Failed sched s.received)
      (hwaits : s.received < s.launched) (hdrain : s.Undrained) (hcancelled : s.cancelled = [])
  | won {r : BroadcastResult α ε} {k : Nat} (hphase : s.phase = .won r)
      (hfailed : s.Failed sched k) (hreceived : s.received = k + 1)
      (hwinner : s.sent[k]? = some r) (hok : r.Succeeded)
      (hcancelled : s.cancelled = cancelLosers s.cancels r.name)
      (hcleaned : s.cleaned = (((s.sent.drop s.received).take s.drained).filter
        BroadcastResult.cleanup).map BroadcastResult.name)
      (hremaining : s.stopped = false → s.remaining + (s.received + s.drained) = s.launched)
  | lost (hphase : s.phase = .lost) (hfailed : s.Failed sched s.received)
      (hall : s.received = sched.pending.length) (hdrain : s.Undrained)
      (hcancelled : s.cancelled = s.cancels)

structure Broadcast.Sound (s : Broadcast α ε) : Prop where
  cancels : s.cancels = sched.pending.take s.launched
  names : (s.sent.map BroadcastResult.name).Nodup
  sent : ∀ r ∈ s.sent, r.name ∈ s.cancels
  taken : s.received + s.drained ≤ s.sent.length
  stands : s.Stands sched

variable {sched}

theorem slots_le : sched.slots ≤ sched.pending.length := by
  unfold ProbeScheduler.slots broadcastSlotCount
  split_ifs with h
  · exact le_rfl
  · omega

theorem slots_pos (h : sched.pending ≠ []) : 0 < sched.slots := by
  have := length_pos_iff.mpr h
  unfold ProbeScheduler.slots broadcastSlotCount
  split_ifs <;> omega

variable {r : BroadcastResult α ε} {rest : List (BroadcastResult α ε)} {k : Nat}

theorem launchNext_iterate (hk : k ≤ sched.pending.length) :
    (sched.launchNext^[k] {} : Broadcast α ε) =
      { launched := k, cancels := sched.pending.take k } := by
  induction k with
  | zero => rfl
  | succ k ih =>
    have hlt : k < sched.pending.length := hk
    rw [Function.iterate_succ_apply', ih (by omega)]
    simp only [ProbeScheduler.launchNext, getElem?_eq_getElem hlt]
    rw [take_succ_eq_append_getElem hlt]

theorem sound_start : (sched.start : Broadcast α ε).Sound sched := by
  unfold ProbeScheduler.start
  rw [launchNext_iterate slots_le]
  unfold ProbeScheduler.loop
  have hfailed : Broadcast.Failed sched
      ({ launched := sched.slots, cancels := sched.pending.take sched.slots } : Broadcast α ε) 0 :=
    ⟨rfl, (Nat.min_eq_left slots_le).symm⟩
  split_ifs with hpos
  · exact ⟨rfl, nodup_nil, nofun, le_rfl, .running rfl hfailed hpos ⟨rfl, rfl, rfl, rfl⟩ rfl⟩
  · have hnil : sched.pending = [] := by
      by_contra hne
      exact hpos (slots_pos hne)
    refine ⟨rfl, nodup_nil, nofun, le_rfl, ?_⟩
    exact .lost rfl ⟨rfl, hfailed.window⟩ (by simp [hnil]) ⟨rfl, rfl, rfl, rfl⟩ rfl

variable {s : Broadcast α ε}

/-! ### A probe sends -/

theorem Broadcast.Failed.send (h : s.Failed sched k) (hk : k ≤ s.sent.length)
    (r : BroadcastResult α ε) : ({ s with sent := s.sent ++ [r] }).Failed sched k := by
  refine ⟨?_, h.window⟩
  rw [take_append_of_le_length hk]
  exact h.errs

theorem Broadcast.Stands.send (h : s.Stands sched) (htaken : s.received + s.drained ≤ s.sent.length)
    (r : BroadcastResult α ε) : ({ s with sent := s.sent ++ [r] }).Stands sched := by
  cases h with
  | running hphase hfailed hwaits hdrain hcancelled =>
    exact .running hphase (hfailed.send (by omega) r) hwaits ⟨hdrain.1, hdrain.2, hdrain.3,
      hdrain.4⟩ hcancelled
  | lost hphase hfailed hall hdrain hcancelled =>
    exact .lost hphase (hfailed.send (by omega) r) hall ⟨hdrain.1, hdrain.2, hdrain.3,
      hdrain.4⟩ hcancelled
  | @won w k hphase hfailed hreceived hwinner hok hcancelled hcleaned hremaining =>
    refine .won hphase (hfailed.send (by omega) r) hreceived ?_ hok hcancelled ?_ hremaining
    · rw [getElem?_append_left (by omega)]
      exact hwinner
    · have hdrop : (s.sent ++ [r]).drop s.received = s.sent.drop s.received ++ [r] :=
        drop_append_of_le_length (by omega)
      have htake : (s.sent.drop s.received ++ [r]).take s.drained =
          (s.sent.drop s.received).take s.drained :=
        take_append_of_le_length (by rw [length_drop]; omega)
      simp only [hdrop, htake]
      exact hcleaned

theorem Broadcast.Sound.send (h : s.Sound sched) (hstarted : r.name ∈ s.cancels)
    (hfresh : r.name ∉ s.sent.map BroadcastResult.name) :
    ({ s with sent := s.sent ++ [r] }).Sound sched := by
  refine ⟨h.cancels, ?_, ?_, ?_, h.stands.send h.taken r⟩
  · rw [map_append, map_singleton]
    exact h.names.append (nodup_singleton _) (by simpa using hfresh)
  · intro r' hr'
    rcases mem_append.mp hr' with hr' | hr'
    · exact h.sent r' hr'
    · rw [mem_singleton.mp hr']
      exact hstarted
  · have := h.taken
    simp only [length_append]
    omega

/-! ### The loop receives -/

theorem launchNext_eq (hwindow : s.launched = min (sched.slots + k) sched.pending.length)
    (hcancels : s.cancels = sched.pending.take s.launched) :
    sched.launchNext s = { s with
      launched := min (sched.slots + (k + 1)) sched.pending.length
      cancels := sched.pending.take (min (sched.slots + (k + 1)) sched.pending.length) } := by
  unfold ProbeScheduler.launchNext
  by_cases hlt : s.launched < sched.pending.length
  · have hnext : min (sched.slots + (k + 1)) sched.pending.length = s.launched + 1 := by omega
    rw [getElem?_eq_getElem hlt, hnext, take_succ_eq_append_getElem hlt, ← hcancels]
  · have hnext : min (sched.slots + (k + 1)) sched.pending.length = s.launched := by omega
    rw [getElem?_eq_none (not_lt.mp hlt), hnext, ← hcancels]

theorem getElem?_of_ch (hch : s.ch = r :: rest) : s.sent[s.received + s.drained]? = some r := by
  have hhead : (s.sent.drop (s.received + s.drained))[0]? = some r := by
    change s.ch[0]? = some r
    rw [hch]
    rfl
  simpa using hhead

theorem Broadcast.Sound.receive (h : s.Sound sched) (hphase : s.phase = .running)
    (hch : s.ch = r :: rest) :
    (sched.receive r s).Sound sched := by
  obtain ⟨hcancels, hnames, hsent, htaken, hstands⟩ := h
  cases hstands with
  | won hphase' | lost hphase' => simp [hphase] at hphase'
  | running _ hfailed hwaits hdrain hcancelled =>
    have hr := getElem?_of_ch hch
    rw [hdrain.drained, Nat.add_zero] at hr
    obtain ⟨hlt, hget⟩ := List.getElem?_eq_some_iff.mp hr
    have htake : s.sent.take (s.received + 1) = s.sent.take s.received ++ [r] := by
      rw [take_succ_eq_append_getElem hlt, hget]
    unfold ProbeScheduler.receive
    cases hout : r.outcome with
    | error err =>
      have herr : r.error? = some err := by rw [BroadcastResult.error?, hout]
      have hwindow := hfailed.window
      -- the probe that takes over the slot, and whether anything is in flight after it
      have hnext := launchNext_eq
        (s := { s with received := s.received + 1, errs := s.errs ++ [err] }) hwindow hcancels
      simp only at hnext ⊢
      rw [hnext]
      have hfailed' : Broadcast.Failed sched { s with
          received := s.received + 1
          errs := s.errs ++ [err]
          launched := min (sched.slots + (s.received + 1)) sched.pending.length
          cancels := sched.pending.take
            (min (sched.slots + (s.received + 1)) sched.pending.length) }
          (s.received + 1) := by
        refine ⟨?_, rfl⟩
        rw [htake, map_append, map_append, hfailed.errs, map_singleton, map_singleton, herr]
      have hsent' : ∀ r' ∈ s.sent, r'.name ∈ sched.pending.take
          (min (sched.slots + (s.received + 1)) sched.pending.length) := by
        intro r' hr'
        have hin := hsent r' hr'
        rw [hcancels] at hin
        exact (take_subset_take_left _ (by omega)) hin
      have htaken' : s.received + 1 + s.drained ≤ s.sent.length := by
        rw [hdrain.drained]
        omega
      unfold ProbeScheduler.loop
      split_ifs with hmore
      · exact ⟨rfl, hnames, hsent', htaken', .running hphase hfailed' hmore ⟨hdrain.1, hdrain.2,
          hdrain.3, hdrain.4⟩ hcancelled⟩
      · refine ⟨rfl, hnames, hsent', htaken', .lost rfl ⟨hfailed'.errs, rfl⟩ ?_ ⟨hdrain.1,
          hdrain.2, hdrain.3, hdrain.4⟩ rfl⟩
        simp only at hmore ⊢
        omega
    | ok res =>
      refine ⟨hcancels, hnames, hsent, ?_, ?_⟩
      · simp only [hdrain.drained]
        omega
      · refine .won rfl ⟨hfailed.errs, hfailed.window⟩ rfl hr ?_ rfl ?_ fun _ => ?_
        · rw [BroadcastResult.Succeeded, BroadcastResult.error?, hout]
        · simp [hdrain.drained, hdrain.cleaned]
        · simp only [hdrain.drained]
          omega

/-! ### The drain -/

theorem Broadcast.Sound.drain (h : s.Sound sched) (hremaining : 0 < s.remaining)
    (hch : s.ch = r :: rest) :
    (ProbeScheduler.drain r s).Sound sched := by
  obtain ⟨hcancels, hnames, hsent, htaken, hstands⟩ := h
  cases hstands with
  | running _ _ _ hdrain | lost _ _ _ hdrain =>
    rw [hdrain.remaining] at hremaining
    exact absurd hremaining (lt_irrefl 0)
  | won hphase hfailed hreceived hwinner hok hcancelled hcleaned hstill =>
    have hr := getElem?_of_ch hch
    obtain ⟨hlt, hget⟩ := List.getElem?_eq_some_iff.mp hr
    refine ⟨hcancels, hnames, hsent, ?_, .won hphase ⟨hfailed.errs, hfailed.window⟩ hreceived
      hwinner hok hcancelled ?_ fun hstopped => ?_⟩
    · simp only [ProbeScheduler.drain]
      omega
    · have hlt' : s.drained < (s.sent.drop s.received).length := by
        rw [length_drop]
        omega
      have hnext : (s.sent.drop s.received)[s.drained] = r := by
        rw [getElem_drop]
        exact hget
      simp only [ProbeScheduler.drain]
      rw [take_succ_eq_append_getElem hlt', hnext, filter_append, map_append, ← hcleaned]
      cases hcleanup : r.cleanup <;> simp [hcleanup]
    · have := hstill hstopped
      simp only [ProbeScheduler.drain]
      omega

theorem Broadcast.Sound.stopDrain (h : s.Sound sched) (hremaining : 0 < s.remaining) :
    ({ s with remaining := 0, stopped := true }).Sound sched := by
  obtain ⟨hcancels, hnames, hsent, htaken, hstands⟩ := h
  refine ⟨hcancels, hnames, hsent, htaken, ?_⟩
  cases hstands with
  | running _ _ _ hdrain | lost _ _ _ hdrain =>
    rw [hdrain.remaining] at hremaining
    exact absurd hremaining (lt_irrefl 0)
  | won hphase hfailed hreceived hwinner hok hcancelled hcleaned =>
    exact .won hphase ⟨hfailed.errs, hfailed.window⟩ hreceived hwinner hok hcancelled hcleaned nofun

theorem Broadcast.Sound.step (h : s.Sound sched) (e : ProbeScheduler.Event α ε) :
    (sched.step s e).Sound sched := by
  cases e with
  | send r =>
    simp only [ProbeScheduler.step]
    split_ifs with hsend
    · exact h.send hsend.1 hsend.2
    · exact h
  | receive =>
    simp only [ProbeScheduler.step]
    split
    · next hphase hch => exact h.receive hphase hch
    · exact h
  | drain =>
    simp only [ProbeScheduler.step]
    split
    · next hremaining hch => exact h.drain (by omega) hch
    · exact h
  | stopDrain =>
    simp only [ProbeScheduler.step]
    split_ifs with hremaining
    · exact h.stopDrain hremaining
    · exact h

theorem sound_after (sched : ProbeScheduler) (run : List (ProbeScheduler.Event α ε)) :
    (after sched.step sched.start run).Sound sched := by
  have hall : Along sched.step (fun _ _ => True) (sched.start : Broadcast α ε) run :=
    along_of_forall fun _ _ => trivial
  exact hall.invariant sound_start fun _ e h _ => h.step e

/-! ## What the scheduler does not lose -/

theorem Broadcast.Failed.not_succeeded (h : s.Failed sched k) (hr : r ∈ s.sent.take k) :
    ¬ r.Succeeded := by
  intro hok
  have hin : r.error? ∈ s.errs.map some := by
    rw [← h.errs]
    exact mem_map_of_mem hr
  rw [hok] at hin
  obtain ⟨err, -, herr⟩ := mem_map.mp hin
  cases herr

theorem mem_take_succ_of_getElem? {β : Type} {l : List β} {b : β} (h : l[k]? = some b) :
    b ∈ l.take (k + 1) := by
  refine mem_of_getElem? (i := k) ?_
  rw [getElem?_take_of_lt (Nat.lt_succ_self k)]
  exact h

def Broadcast.Returned (s : Broadcast α ε) : Prop :=
  match s.phase with
  | .running => False
  | _ => True

def Broadcast.seen (s : Broadcast α ε) : List (BroadcastResult α ε) := s.sent.take s.received

theorem Broadcast.Sound.mem_names (h : s.Sound sched)
    (hk : sched.pending.length ≤ ((s.sent.take k).map BroadcastResult.name).length) {name : String}
    (hname : name ∈ sched.pending) : ∃ r ∈ s.sent.take k, r.name = name := by
  have hnodup : ((s.sent.take k).map BroadcastResult.name).Nodup :=
    h.names.sublist ((take_sublist k s.sent).map _)
  have hsub : (s.sent.take k).map BroadcastResult.name ⊆ sched.pending := by
    intro x hx
    obtain ⟨r, hr, rfl⟩ := mem_map.mp hx
    have hin := h.sent r (mem_of_mem_take hr)
    rw [h.cancels] at hin
    exact mem_of_mem_take hin
  have hperm := (subperm_of_subset hnodup hsub).perm_of_length_le hk
  exact mem_map.mp (hperm.mem_iff.mpr hname)

theorem Broadcast.Sound.subperm_cancels (h : s.Sound sched) :
    (s.sent.map BroadcastResult.name).Subperm s.cancels := by
  refine subperm_of_subset h.names fun x hx => ?_
  obtain ⟨r, hr, rfl⟩ := mem_map.mp hx
  exact h.sent r hr

theorem Broadcast.Sound.length_cancels (h : s.Sound sched) : s.cancels.length ≤ s.launched := by
  rw [h.cancels, length_take]
  exact Nat.min_le_left _ _

/-- What the scheduler keeps at any moment of a call, of the window, the order of the probes, the
return, the winner and the others. -/
structure Broadcast.LosesNothing (sched : ProbeScheduler) (s : Broadcast α ε) : Prop where
  window : 0 < sched.parallelism →
    (s.launched : Int) - (s.received + s.drained : Nat) ≤ sched.parallelism
  order : s.cancels <+: sched.pending ∧ s.cancels.Nodup
  returned : s.Returned ↔ (∃ r ∈ s.seen, r.Succeeded) ∨
    ∀ name ∈ sched.pending, ∃ r ∈ s.seen, r.name = name ∧ ¬ r.Succeeded
  waits : ¬ s.Returned → s.received < s.launched
  winner : ∀ r, s.phase = .won r →
    r ∈ s.seen ∧ r.Succeeded ∧ r.name ∉ s.cancelled ∧ r.name ∉ s.cleaned
  once : s.cleaned.Nodup
  cleaned : s.Returned → s.remaining = 0 → s.stopped = false →
    (∀ name ∈ s.cancels, ∃ r ∈ s.sent, r.name = name) ∧
    ∀ r ∈ s.sent, r.Succeeded → s.phase ≠ .won r → r.cleanup = true → r.name ∈ s.cleaned

section Sound

variable (h : s.Sound sched)
include h

theorem Broadcast.Sound.window (hcap : 0 < sched.parallelism) :
    (s.launched : Int) - (s.received + s.drained : Nat) ≤ sched.parallelism := by
  have hslots : (sched.slots : Int) ≤ sched.parallelism := by
    unfold ProbeScheduler.slots broadcastSlotCount
    split_ifs <;> omega
  cases h.stands with
  | running _ hfailed | won _ hfailed hreceived | lost _ hfailed =>
    have := hfailed.window
    omega

theorem Broadcast.Sound.returned_iff (hdistinct : sched.pending.Nodup) :
    s.Returned ↔ (∃ r ∈ s.seen, r.Succeeded) ∨
      ∀ name ∈ sched.pending, ∃ r ∈ s.seen, r.name = name ∧ ¬ r.Succeeded := by
  have htaken := h.taken
  cases h.stands with
  | running hphase hfailed hwaits hdrain =>
    refine ⟨fun hret => by simp [Broadcast.Returned, hphase] at hret, ?_⟩
    rintro (⟨r, hr, hok⟩ | hall)
    · exact absurd hok (hfailed.not_succeeded hr)
    · -- a failure of every backend is more results than were received
      have hsub : sched.pending ⊆ s.seen.map BroadcastResult.name := fun name hname => by
        obtain ⟨r, hr, rfl, -⟩ := hall name hname
        exact mem_map_of_mem hr
      have hle := (subperm_of_subset hdistinct hsub).length_le
      rw [length_map, Broadcast.seen, length_take] at hle
      have := hfailed.window
      omega
  | won hphase hfailed hreceived hwinner hok =>
    refine ⟨fun _ => .inl ⟨_, ?_, hok⟩, fun _ => by simp [Broadcast.Returned, hphase]⟩
    rw [Broadcast.seen, hreceived]
    exact mem_take_succ_of_getElem? hwinner
  | lost hphase hfailed hall =>
    refine ⟨fun _ => .inr fun name hname => ?_, fun _ => by simp [Broadcast.Returned, hphase]⟩
    obtain ⟨r, hr, hrname⟩ := h.mem_names (k := s.received)
      (by rw [length_map, length_take]; omega) hname
    exact ⟨r, hr, hrname, hfailed.not_succeeded hr⟩

theorem Broadcast.Sound.winner_not_after (hwinner : s.sent[k]? = some r) {r' : BroadcastResult α ε}
    (hr' : r' ∈ s.sent.drop (k + 1)) : r'.name ≠ r.name := by
  obtain ⟨hlt, hget⟩ := List.getElem?_eq_some_iff.mp hwinner
  have hnames := h.names
  rw [← take_append_drop k s.sent, drop_eq_getElem_cons hlt, hget, map_append, map_cons] at hnames
  have hnot := (nodup_cons.mp hnames.of_append_right).1
  exact fun heq => hnot (heq ▸ mem_map_of_mem hr')

theorem Broadcast.Sound.winner_kept (hr : s.phase = .won r) :
    r ∈ s.seen ∧ r.Succeeded ∧ r.name ∉ s.cancelled ∧ r.name ∉ s.cleaned := by
  cases h.stands with
  | running hphase | lost hphase => simp [hphase] at hr
  | @won w k hphase hfailed hreceived hwinner hok hcancelled hcleaned =>
    obtain rfl : w = r := by simpa [hphase] using hr
    refine ⟨?_, hok, ?_, ?_⟩
    · rw [Broadcast.seen, hreceived]
      exact mem_take_succ_of_getElem? hwinner
    · simp [hcancelled, cancelLosers]
    · rw [hcleaned, hreceived]
      intro hin
      obtain ⟨r', hr', hname⟩ := mem_map.mp hin
      exact h.winner_not_after hwinner (mem_of_mem_take (mem_filter.mp hr').1) hname

theorem Broadcast.Sound.cleaned_nodup : s.cleaned.Nodup := by
  cases h.stands with
  | running _ _ _ hdrain | lost _ _ _ hdrain =>
    rw [hdrain.cleaned]
    exact nodup_nil
  | won _ _ _ _ _ _ hcleaned =>
    rw [hcleaned]
    exact h.names.sublist ((filter_sublist.trans
      ((take_sublist _ _).trans (drop_sublist _ _))).map _)

theorem Broadcast.Sound.losers_cleaned (hret : s.Returned) (hremaining : s.remaining = 0)
    (hstopped : s.stopped = false) :
    (∀ name ∈ s.cancels, ∃ r ∈ s.sent, r.name = name) ∧
    ∀ r ∈ s.sent, r.Succeeded → s.phase ≠ .won r → r.cleanup = true → r.name ∈ s.cleaned := by
  have htaken := h.taken
  have hle := h.subperm_cancels.length_le
  have hcancels := h.length_cancels
  rw [length_map] at hle
  have hall : s.launched ≤ s.sent.length → ∀ name ∈ s.cancels, ∃ r ∈ s.sent, r.name = name := by
    intro hsent name hname
    have hperm := h.subperm_cancels.perm_of_length_le (by rw [length_map]; omega)
    exact mem_map.mp (hperm.mem_iff.mpr hname)
  cases h.stands with
  | running hphase => simp [Broadcast.Returned, hphase] at hret
  | lost hphase hfailed hfinal hdrain =>
    have hwindow := hfailed.window
    refine ⟨hall (by omega), fun r hr hok => absurd hok (hfailed.not_succeeded ?_)⟩
    rw [take_of_length_le (by omega)]
    exact hr
  | @won w k hphase hfailed hreceived hwinner hok hcancelled hcleaned hstill =>
    have hdone := hstill hstopped
    refine ⟨hall (by omega), fun r hr hsucceeded hne hcleanup => ?_⟩
    obtain ⟨hlt, hget⟩ := List.getElem?_eq_some_iff.mp hwinner
    rw [hcleaned, List.take_of_length_le (by rw [List.length_drop]; omega), hreceived]
    refine mem_map_of_mem (mem_filter.mpr ⟨?_, hcleanup⟩)
    rw [← take_append_drop k s.sent, drop_eq_getElem_cons hlt, hget] at hr
    rcases mem_append.mp hr with hbefore | hafter
    · exact absurd hsucceeded (hfailed.not_succeeded hbefore)
    · rcases mem_cons.mp hafter with rfl | hafter
      · exact absurd hphase hne
      · exact hafter

end Sound

/-- **The scheduler loses nothing**, whatever the probes return and in whatever order all take their
turns. -/
theorem loses_nothing (sched : ProbeScheduler) (hdistinct : sched.pending.Nodup)
    (run : List (ProbeScheduler.Event α ε)) :
    (after sched.step sched.start run).LosesNothing sched := by
  have h := sound_after sched run
  have hcancels := h.cancels
  refine ⟨h.window, ⟨?_, ?_⟩, h.returned_iff hdistinct, fun hnot => ?_,
    fun r hr => h.winner_kept hr, h.cleaned_nodup, h.losers_cleaned⟩
  · rw [hcancels]
    exact take_prefix _ _
  · rw [hcancels]
    exact hdistinct.sublist (take_sublist _ _)
  · cases h.stands with
    | running _ _ hwaits => exact hwaits
    | won hphase | lost hphase => simp [Broadcast.Returned, hphase] at hnot

def threeProbes : List (ProbeScheduler.Event Unit Unit) :=
  [.send ⟨"a", .error ()⟩, .receive, .send ⟨"c", .ok ⟨(), 1, true⟩⟩, .receive,
    .send ⟨"b", .ok ⟨(), 1, true⟩⟩, .drain]

/-- The success that comes second is cleaned up. -/
theorem second_success_cleaned :
    (after (ProbeScheduler.step ⟨["a", "b", "c"], 2⟩) (ProbeScheduler.start ⟨["a", "b", "c"], 2⟩)
      threeProbes).LosesNothing ⟨["a", "b", "c"], 2⟩ ∧
    (after (ProbeScheduler.step ⟨["a", "b", "c"], 2⟩) (ProbeScheduler.start ⟨["a", "b", "c"], 2⟩)
      threeProbes).cleaned = ["b"] :=
  ⟨loses_nothing _ (by decide) _, by decide⟩

end Soundness

end S3Orchestrator.Readpath
