import S3Orchestrator.Lib.Run
import Mathlib.Algebra.Order.BigOperators.Group.List
import Mathlib.Data.List.Nodup

/-!
# Webhook deliveries

An event is queued once for each endpoint that wants it, as an outbox row with the endpoint's URL.
A drain pass takes the rows that are due, finds their endpoint by that URL and posts them; a failed
row comes back until its attempts run out.

* `fanOutToEndpoints`, `drain`: the two phases; `setDefaultsAndValidate`: the accepted endpoints;
* **`own_settings_along`**.
-/

namespace S3Orchestrator.Notify

open RowStore List

structure NotificationEndpoint where
  url : String
  events : List String
  keyPrefix : String := ""
  secret : String := ""
  timeout : Int := 0
  maxRetries : Int := 0
  deriving DecidableEq

inductive ConfigError where
  | required (path : String)
  | notPositive (path : String) (value : Int)

def required (path : String) (set : Bool) : Option ConfigError :=
  if set then none else some (.required path)

def positive (path : String) (v : Int) : Option ConfigError :=
  if 0 < v then none else some (.notPositive path v)

/-- An unset timeout is five seconds, unset retries are three. -/
def NotificationEndpoint.withDefaults (ep : NotificationEndpoint) : NotificationEndpoint :=
  { ep with
    timeout := if ep.timeout = 0 then 5000000000 else ep.timeout
    maxRetries := if ep.maxRetries = 0 then 3 else ep.maxRetries }

def NotificationEndpoint.failed (ep : NotificationEndpoint) (path : String) : List ConfigError :=
  [required (path ++ ".url") (ep.url ≠ ""), required (path ++ ".events") (ep.events ≠ []),
    positive (path ++ ".timeout") ep.timeout,
    positive (path ++ ".max_retries") ep.maxRetries].filterMap id

def setDefaultsAndValidate (eps : List NotificationEndpoint) :
    List NotificationEndpoint × List ConfigError :=
  let eps := eps.map (·.withDefaults)
  (eps, eps.zipIdx.flatMap fun (ep, i) =>
    ep.failed ("notifications.endpoints[" ++ toString i ++ "]"))

/-- The endpoints of a configuration that passed. -/
def Accepted (eps : List NotificationEndpoint) : Prop :=
  ∃ raw, setDefaultsAndValidate raw = (eps, [])

structure Event where
  type : String
  subject : String
  payload : String

def matchesFilter (eventType : String) (patterns : List String) : Bool :=
  patterns.any fun p => p == "*" || p == eventType ||
    (p.toList.getLast? == some '*' && p.toList.dropLast.isPrefixOf eventType.toList)

/-- The event matches a pattern and the prefix of the endpoint. -/
def NotificationEndpoint.wants (ep : NotificationEndpoint) (ev : Event) : Bool :=
  matchesFilter ev.type ep.events &&
    !(ep.keyPrefix != "" && ev.subject != "" &&
      !ep.keyPrefix.toList.isPrefixOf ev.subject.toList)

structure NotificationRow where
  id : Nat
  eventType : String
  payload : String
  endpointURL : String
  attempts : Nat := 0
  nextRetry : Nat

/-- A posted notification: what was sent where, under which settings, and how it was answered. -/
structure Sent where
  rowID : Nat
  url : String
  payload : String
  secret : String
  timeout : Int
  delivered : Bool
  deriving DecidableEq

/-- The outbox, oldest row first, and the posts made. -/
structure Outbox where
  rows : List NotificationRow := []
  nextID : Nat := 0
  sent : List Sent := []

namespace Outbox

def insertNotification (now : Nat) (ev : Event) (s : Outbox) (url : String) : Outbox :=
  { s with
    rows := s.rows ++ [⟨s.nextID, ev.type, ev.payload, url, 0, now⟩]
    nextID := s.nextID + 1 }

def update (s : Outbox) (id : Nat) (u : NotificationRow → Option NotificationRow) : Outbox :=
  { s with rows := s.rows.filterMap fun r => if r.id = id then u r else some r }

def completeNotification (s : Outbox) (id : Nat) : Outbox :=
  s.update id fun _ => none

def retryNotification (s : Outbox) (id retry : Nat) : Outbox :=
  s.update id fun r => some { r with attempts := r.attempts + 1, nextRetry := retry }

def getPendingNotifications (s : Outbox) (now limit : Nat) : List NotificationRow :=
  (s.rows.filter (·.nextRetry ≤ now)).take limit

end Outbox

def pendingBatchSize : Nat := 50

/-- A second doubled for each attempt, up to a ceiling of 64. -/
def retryBackoff : Nat → Nat → Nat
  | 0, d => min d 64000000000
  | attempts + 1, d => if 32000000000 ≤ d then 64000000000 else retryBackoff attempts (d * 2)

/-- One row for every endpoint that wants the event. -/
def fanOutToEndpoints (eps : List NotificationEndpoint) (now : Nat) (ev : Event) (s : Outbox) :
    Outbox :=
  (eps.filter (·.wants ev)).foldl (fun s ep => s.insertNotification now ev ep.url) s

def findEndpoint (eps : List NotificationEndpoint) (url : String) : Option NotificationEndpoint :=
  eps.find? (·.url == url)

/-- A drain pass: when it lists the rows, how each post of it is answered, and when. -/
structure Pass where
  now : Nat
  delivers : Nat → Bool
  clock : Nat → Nat

def deliver (p : Pass) (row : NotificationRow) (ep : NotificationEndpoint) : Sent :=
  ⟨row.id, ep.url, row.payload, ep.secret, ep.timeout, p.delivers row.id⟩

/-- A delivery that failed is tried again, or given up at the limit. -/
def handleDeliveryFailure (p : Pass) (s : Outbox) (row : NotificationRow)
    (ep : NotificationEndpoint) : Outbox :=
  if ep.maxRetries ≤ row.attempts + 1 then s.completeNotification row.id
  else s.retryNotification row.id (p.clock row.id + retryBackoff row.attempts 1000000000)

/-- One attempt at a row; a row of an unknown endpoint is dropped. -/
def processPendingRow (eps : List NotificationEndpoint) (p : Pass) (s : Outbox)
    (row : NotificationRow) : Outbox :=
  match findEndpoint eps row.endpointURL with
  | none => s.completeNotification row.id
  | some ep =>
    let s := { s with sent := s.sent ++ [deliver p row ep] }
    if p.delivers row.id then s.completeNotification row.id else handleDeliveryFailure p s row ep

/-- One pass over the rows that are due. -/
def drain (eps : List NotificationEndpoint) (s : Outbox) (p : Pass) : Outbox :=
  (s.getPendingNotifications p.now pendingBatchSize).foldl (processPendingRow eps p) s

/-! ## What an endpoint is owed -/

/-- The attempts made for a row. -/
def Outbox.sentFor (s : Outbox) (id : Nat) : List Sent :=
  s.sent.filter (·.rowID = id)

def Outbox.Holds (s : Outbox) (id : Nat) : Prop :=
  ∃ r ∈ s.rows, r.id = id

/-- The row was posted under the endpoint's settings, at most `max_retries` times, not after a
success, and given up on only after that many failures. -/
structure Outbox.Owned (s : Outbox) (ev : Event) (ep : NotificationEndpoint) (id : Nat) : Prop where
  own : ∀ d ∈ s.sentFor id, d.url = ep.url ∧ d.payload = ev.payload ∧ d.secret = ep.secret ∧
    d.timeout = ep.timeout
  most : ((s.sentFor id).length : Int) ≤ ep.maxRetries
  stops : (s.sentFor id).Pairwise fun d _ => d.delivered = false
  ends : s.Holds id ∨ (∃ d ∈ (s.sentFor id).getLast?, d.delivered = true) ∨
    ((s.sentFor id).length : Int) = ep.maxRetries ∧ ∀ d ∈ s.sentFor id, d.delivered = false

/-- The rows from `base` on are the event's, one for each endpoint that wants it. -/
structure Outbox.Serves (eps : List NotificationEndpoint) (ev : Event) (base : Nat) (s : Outbox) :
    Prop where
  owned : ∀ k ep, (eps.filter (·.wants ev))[k]? = some ep → s.Owned ev ep (base + k)
  only : ∀ d ∈ s.sent, base ≤ d.rowID → d.rowID < base + (eps.filter (·.wants ev)).length

structure Outbox.Sound (s : Outbox) : Prop where
  distinct : s.rows.Pairwise fun a b => a.id ≠ b.id
  fresh : ∀ r ∈ s.rows, r.id < s.nextID
  logged : ∀ d ∈ s.sent, d.rowID < s.nextID

variable {eps : List NotificationEndpoint} {p : Pass} {s : Outbox} {ev : Event}
  {f : NotificationEndpoint} {r : NotificationRow} {id : Nat}

theorem Outbox.Sound.eq_of_id (hs : s.Sound) {a b : NotificationRow} (ha : a ∈ s.rows)
    (hb : b ∈ s.rows) (h : a.id = b.id) : a = b :=
  inj_on_of_nodup_map (pairwise_map.mpr hs.distinct) ha hb h

/-! ## One row of a pass -/

/-- The row that takes the place of a processed one. -/
def processed (eps : List NotificationEndpoint) (p : Pass) (row : NotificationRow) :
    Option NotificationRow :=
  match findEndpoint eps row.endpointURL with
  | none => none
  | some ep =>
    if p.delivers row.id = true ∨ ep.maxRetries ≤ row.attempts + 1 then none
    else some { row with
      attempts := row.attempts + 1
      nextRetry := p.clock row.id + retryBackoff row.attempts 1000000000 }

def posts (eps : List NotificationEndpoint) (p : Pass) (row : NotificationRow) : List Sent :=
  ((findEndpoint eps row.endpointURL).map (deliver p row)).toList

/-- **A processed row** is posted under its endpoint's settings, and changes no other row. -/
theorem process_eq (hs : s.Sound) (hr : r ∈ s.rows) : processPendingRow eps p s r =
      { s.update r.id fun _ => processed eps p r with sent := s.sent ++ posts eps p r } := by
  have hsame : ∀ u : NotificationRow → Option NotificationRow,
      s.update r.id u = s.update r.id fun _ => u r := by
    intro u
    refine congrArg (fun rows => { s with rows := rows }) (filterMap_congr fun x hx => ?_)
    split_ifs with hid
    · rw [hs.eq_of_id hx hr hid]
    · rfl
  unfold processPendingRow processed posts
  cases findEndpoint eps r.endpointURL with
  | none => simp [Outbox.completeNotification, Outbox.update]
  | some ep =>
    by_cases hok : p.delivers r.id = true
    · simp [hok, Outbox.completeNotification, Outbox.update]
    · by_cases hend : ep.maxRetries ≤ r.attempts + 1
      · simp [hend, handleDeliveryFailure, Outbox.completeNotification, Outbox.update]
      · have hrow := congrArg Outbox.rows (hsame fun x => some { x with
          attempts := x.attempts + 1
          nextRetry := p.clock r.id + retryBackoff r.attempts 1000000000 })
        simpa [hok, hend, handleDeliveryFailure, Outbox.retryNotification, Outbox.update] using hrow

theorem processed_id {r' : NotificationRow} (h : processed eps p r = some r') :
    r'.id = r.id ∧ r'.endpointURL = r.endpointURL ∧ r'.payload = r.payload := by
  unfold processed at h
  split at h
  · cases h
  · split_ifs at h
    exact Option.some.inj h ▸ ⟨rfl, rfl, rfl⟩

theorem mem_process (hs : s.Sound) (hr : r ∈ s.rows) {x : NotificationRow} :
    x ∈ (processPendingRow eps p s r).rows ↔
      (x ∈ s.rows ∧ x.id ≠ r.id) ∨ processed eps p r = some x := by
  rw [process_eq hs hr]
  simp only [Outbox.update, mem_filterMap]
  constructor
  · rintro ⟨y, hy, h⟩
    split_ifs at h with hid
    · exact .inr h
    · exact .inl (Option.some.inj h ▸ ⟨hy, hid⟩)
  · rintro (⟨hx, hid⟩ | hx)
    · exact ⟨x, hx, if_neg hid⟩
    · exact ⟨r, hr, (if_pos rfl).trans hx⟩

theorem posts_id {d : Sent} (h : d ∈ posts eps p r) :
    d.rowID = r.id ∧ d.delivered = p.delivers r.id := by
  obtain ⟨ep, -, rfl⟩ : ∃ ep, _ ∧ deliver p r ep = d := by simpa [posts] using h
  exact ⟨rfl, rfl⟩

theorem sentFor_process (hs : s.Sound) (hr : r ∈ s.rows) :
    (processPendingRow eps p s r).sentFor id =
      s.sentFor id ++ if r.id = id then posts eps p r else [] := by
  rw [process_eq hs hr]
  refine filter_append _ _ |>.trans (congrArg (s.sentFor id ++ ·) ?_)
  split_ifs with hid
  · exact filter_eq_self.mpr fun d hd => decide_eq_true ((posts_id hd).1.trans hid)
  · exact filter_eq_nil_iff.mpr fun d hd => by simpa [(posts_id hd).1] using hid

theorem Outbox.Sound.process (hs : s.Sound) (hr : r ∈ s.rows) :
    (processPendingRow eps p s r).Sound := by
  refine ⟨?_, fun x hx => ?_, fun d hd => ?_⟩
  · rw [process_eq hs hr]
    refine hs.distinct.filterMap _ fun a b hne a' ha' b' hb' => ?_
    have hid : ∀ c c' : NotificationRow,
        (if c.id = r.id then processed eps p r else some c) = some c' → c'.id = c.id := by
      intro c c' h
      split_ifs at h with hc
      · exact (processed_id h).1.trans hc.symm
      · exact Option.some.inj h ▸ rfl
    rwa [hid a a' ha', hid b b' hb']
  · rw [process_eq hs hr]
    rcases (mem_process hs hr).mp hx with ⟨hx, -⟩ | hx
    · exact hs.fresh x hx
    · exact (processed_id hx).1 ▸ hs.fresh r hr
  · rw [process_eq hs hr] at hd ⊢
    rcases mem_append.mp hd with hd | hd
    · exact hs.logged d hd
    · exact (posts_id hd).1 ▸ hs.fresh r hr

variable {P : Outbox → Prop}

/-- Every row of the snapshot is processed as it stands in the outbox. -/
theorem fold_invariant (hstep : ∀ s r, s.Sound → r ∈ s.rows → P s → P (processPendingRow eps p s r))
    {snapshot : List NotificationRow} (hd : snapshot.Pairwise fun a b => a.id ≠ b.id)
    (hsub : ∀ r ∈ snapshot, r ∈ s.rows) (hs : s.Sound) (h : P s) :
    (snapshot.foldl (processPendingRow eps p) s).Sound ∧
      P (snapshot.foldl (processPendingRow eps p) s) := by
  induction snapshot generalizing s with
  | nil => exact ⟨hs, h⟩
  | cons r rest ih =>
    have hr := hsub r mem_cons_self
    obtain ⟨hne, hd⟩ := pairwise_cons.mp hd
    refine ih hd (fun x hx => ?_) (hs.process hr) (hstep s r hs hr h)
    exact (mem_process hs hr).mpr (.inl ⟨hsub x (mem_cons_of_mem _ hx), (hne x hx).symm⟩)

theorem snapshot_sublist (s : Outbox) (p : Pass) :
    s.getPendingNotifications p.now pendingBatchSize <+ s.rows :=
  (take_sublist _ _).trans filter_sublist

theorem drain_invariant
    (hstep : ∀ s r, s.Sound → r ∈ s.rows → P s → P (processPendingRow eps p s r)) (hs : s.Sound)
    (h : P s) : (drain eps s p).Sound ∧ P (drain eps s p) :=
  have hsub := snapshot_sublist s p
  fold_invariant hstep (hs.distinct.sublist hsub) (fun _ h => hsub.subset h) hs h

theorem drains_invariant
    (hstep : ∀ p s r, s.Sound → r ∈ s.rows → P s → P (processPendingRow eps p s r)) (hs : s.Sound)
    (h : P s) (passes : List Pass) :
    (after (drain eps) s passes).Sound ∧ P (after (drain eps) s passes) := by
  induction passes generalizing s with
  | nil => exact ⟨hs, h⟩
  | cons p passes ih =>
    obtain ⟨hs, h⟩ := drain_invariant (hstep p) hs h
    exact ih hs h

/-! ## The history of a row -/

/-- Failures up to the first success, or up to the limit. -/
def Ended (most : Int) (answers : List Bool) : Prop :=
  ∃ n : Nat, (answers = replicate n false ++ [true] ∧ (n : Int) < most) ∨
    (answers = replicate n false ∧ (n : Int) = most)

/-- The history of a row with `f`'s URL: posted under `f`'s settings, it is pending with an attempt
for each failure, or ended. -/
structure Traced (f : NotificationEndpoint) (ev : Event) (id : Nat) (s : Outbox) : Prop where
  under : ∀ d ∈ s.sentFor id, d = ⟨id, f.url, ev.payload, f.secret, f.timeout, d.delivered⟩
  stage : (∃ r ∈ s.rows, r.id = id ∧ r.endpointURL = f.url ∧ r.payload = ev.payload ∧
      (s.sentFor id).map (·.delivered) = replicate r.attempts false ∧
      (r.attempts : Int) < f.maxRetries) ∨
    (¬ s.Holds id ∧ Ended f.maxRetries ((s.sentFor id).map (·.delivered)))

theorem Traced.process (hf : findEndpoint eps f.url = some f) (hs : s.Sound) (hr : r ∈ s.rows)
    (h : Traced f ev id s) : Traced f ev id (processPendingRow eps p s r) := by
  have hfor : (processPendingRow eps p s r).sentFor id = _ := sentFor_process hs hr
  by_cases hid : r.id = id
  · -- The row is pending, and its post is answered.
    obtain ⟨r', hr', hid', hurl, hpay, hans, hlt⟩ : ∃ r', _ :=
      h.stage.resolve_right fun hend => hend.1 ⟨r, hr, hid⟩
    obtain rfl := hs.eq_of_id hr hr' (hid.trans hid'.symm)
    have hpost : posts eps p r = [deliver p r f] := by simp [posts, hurl, hf]
    rw [if_pos hid, hpost] at hfor
    refine ⟨fun d hd => ?_, ?_⟩
    · rcases mem_append.mp (hfor ▸ hd) with hd | hd
      · exact h.under d hd
      · rw [mem_singleton.mp hd, deliver, hid, hpay]
    · have hnew := processed.eq_1 eps p r
      rw [hurl, hf] at hnew
      dsimp only at hnew
      simp only [hfor, map_append, hans, deliver]
      split_ifs at hnew with hend
      · refine .inr ⟨?_, ?_⟩
        · rintro ⟨x, hx, hxid⟩
          rcases (mem_process hs hr).mp hx with ⟨-, hne⟩ | hx
          · exact hne (hxid.trans hid.symm)
          · exact absurd (hnew.symm.trans hx) (by simp)
        · cases hok : p.delivers r.id with
          | true => exact ⟨r.attempts, .inl ⟨rfl, hlt⟩⟩
          | false =>
            refine ⟨r.attempts + 1, .inr ⟨replicate_succ'.symm, ?_⟩⟩
            have hlast := hend.resolve_left (by simp [hok])
            omega
      · obtain ⟨hok, hmore⟩ := not_or.mp hend
        refine .inl ⟨_, (mem_process hs hr).mpr (.inr hnew), hid, rfl, hpay, ?_, ?_⟩
        · rw [Bool.not_eq_true _ |>.mp hok]
          exact replicate_succ'.symm
        · push_cast
          omega
  · rw [if_neg hid, append_nil] at hfor
    refine ⟨hfor ▸ h.under, ?_⟩
    rw [hfor]
    refine h.stage.imp (fun ⟨r', hr', hid', hrest⟩ => ?_) fun ⟨hgone, hend⟩ => ⟨?_, hend⟩
    · exact ⟨r', (mem_process hs hr).mpr (.inl ⟨hr', fun heq => hid (heq ▸ hid')⟩), hid', hrest⟩
    · rintro ⟨x, hx, hxid⟩
      rcases (mem_process hs hr).mp hx with ⟨hx, -⟩ | hx
      · exact hgone ⟨x, hx, hxid⟩
      · exact hid ((processed_id hx).1.symm.trans hxid)

variable {ep : NotificationEndpoint}

/-- A row traced under `f` is owned by any endpoint with `f`'s settings. -/
theorem Traced.owned (h : Traced f ev id s) (hurl : f.url = ep.url)
    (hset : f.secret = ep.secret ∧ f.timeout = ep.timeout ∧ f.maxRetries = ep.maxRetries) :
    s.Owned ev ep id := by
  obtain ⟨hsecret, htimeout, hmax⟩ := hset
  have hlen : (s.sentFor id).length = ((s.sentFor id).map (·.delivered)).length := by simp
  have hstops : ∀ n : Nat, (replicate n false).Pairwise fun b _ => b = false := fun n =>
    pairwise_replicate.mpr (.inr rfl)
  refine ⟨fun d hd => ?_, ?_, ?_, ?_⟩
  · rw [h.under d hd]
    exact ⟨hurl, rfl, hsecret, htimeout⟩
  · rcases h.stage with ⟨r, -, -, -, -, hans, hlt⟩ | ⟨-, n, ⟨hans, hlt⟩ | ⟨hans, heq⟩⟩ <;>
      rw [hlen, hans] <;> simp <;> omega
  · suffices h : ((s.sentFor id).map (·.delivered)).Pairwise fun b _ => b = false from
      pairwise_map.mp h
    rcases h.stage with ⟨r, -, -, -, -, hans, -⟩ | ⟨-, n, ⟨hans, -⟩ | ⟨hans, -⟩⟩ <;> rw [hans]
    · exact hstops _
    · exact pairwise_append.mpr
        ⟨hstops n, pairwise_singleton _ _, fun b hb _ _ => eq_of_mem_replicate hb⟩
    · exact hstops n
  · rcases h.stage with ⟨r, hr, hid, -⟩ | ⟨-, n, ⟨hans, -⟩ | ⟨hans, heq⟩⟩
    · exact .inl ⟨r, hr, hid⟩
    · exact .inr (.inl (by simpa using congrArg getLast? hans))
    · refine .inr (.inr ⟨?_, fun d hd => ?_⟩)
      · rw [hlen, hans, length_replicate, heq, hmax]
      · exact eq_of_mem_replicate (hans ▸ mem_map_of_mem hd)

/-! ## Fan-out and the passes after it -/

theorem fanOut_spec (ev : Event) (hs : s.Sound) (now : Nat) (wanting : List NotificationEndpoint) :
    let s' := wanting.foldl (fun s ep => s.insertNotification now ev ep.url) s
    s'.Sound ∧ s'.sent = s.sent ∧ s'.nextID = s.nextID + wanting.length ∧ s.rows <+: s'.rows ∧
      ∀ k ep, wanting[k]? = some ep →
        ⟨s.nextID + k, ev.type, ev.payload, ep.url, 0, now⟩ ∈ s'.rows := by
  induction wanting generalizing s with
  | nil => exact ⟨hs, rfl, rfl, prefix_rfl, fun k ep h => by cases h⟩
  | cons ep wanting ih =>
    have hins : (s.insertNotification now ev ep.url).Sound := by
      refine ⟨?_, fun r hr => ?_, fun d hd => (hs.logged d hd).trans (Nat.lt_succ_self _)⟩
      · refine pairwise_append.mpr ⟨hs.distinct, pairwise_singleton _ _, fun a ha b hb => ?_⟩
        exact mem_singleton.mp hb ▸ (hs.fresh a ha).ne
      · rcases mem_append.mp hr with hr | hr
        · exact (hs.fresh r hr).trans (Nat.lt_succ_self _)
        · exact mem_singleton.mp hr ▸ Nat.lt_succ_self _
    obtain ⟨hsound, hsent, hnext, hrows, hall⟩ := ih hins
    refine ⟨hsound, hsent, hnext.trans ?_, (prefix_append _ _).trans hrows, fun k e hk => ?_⟩
    · simp [Outbox.insertNotification]
      omega
    · cases k with
      | zero =>
        obtain rfl := Option.some.inj hk
        exact hrows.subset mem_concat_self
      | succ k =>
        have := hall k e hk
        rwa [show (s.insertNotification now ev ep.url).nextID + k = s.nextID + (k + 1) by
          simp [Outbox.insertNotification]; omega] at this

theorem traced_fanOut (hacc : ∀ {ep}, ep ∈ eps → 0 < ep.maxRetries) (hs : s.Sound) (now : Nat)
    {k : Nat} (hk : (eps.filter (·.wants ev))[k]? = some ep)
    (hf : findEndpoint eps ep.url = some f) :
    Traced f ev (s.nextID + k) (fanOutToEndpoints eps now ev s) := by
  obtain ⟨-, hsent, -, -, hall⟩ := fanOut_spec ev hs now (eps.filter (·.wants ev))
  have hnone : (fanOutToEndpoints eps now ev s).sentFor (s.nextID + k) = [] :=
    filter_eq_nil_iff.mpr fun d hd => by
      have := hs.logged d (hsent ▸ hd)
      simp
      omega
  have hurl : f.url = ep.url := by simpa using find?_some hf
  refine ⟨by simp [hnone], .inl ⟨_, hall k ep hk, rfl, hurl.symm, rfl, ?_, ?_⟩⟩
  · simp [hnone]
  · simpa using hacc (mem_of_find?_eq_some hf)

theorem maxRetries_pos (h : Accepted eps) (hep : ep ∈ eps) : 0 < ep.maxRetries := by
  obtain ⟨raw, hraw⟩ := h
  obtain ⟨rfl, herrs⟩ := Prod.mk.inj hraw
  obtain ⟨i, hi⟩ := mem_iff_getElem?.mp hep
  have hnone : ep.failed ("notifications.endpoints[" ++ toString i ++ "]") = [] :=
    flatMap_eq_nil_iff.mp herrs (ep, i) (mk_mem_zipIdx_iff_getElem?.mpr hi)
  by_contra hle
  have hnot := filterMap_eq_nil_iff.mp hnone _ (mem_of_getLast? rfl)
  exact absurd ((if_neg hle).symm.trans hnot) (by simp)

/-- The first endpoint with the URL of one that wants the event has its settings. -/
def FirstSame (eps : List NotificationEndpoint) (ev : Event) : Prop :=
  ∀ ep ∈ eps, ep.wants ev = true → ∀ f, findEndpoint eps ep.url = some f →
    f.secret = ep.secret ∧ f.timeout = ep.timeout ∧ f.maxRetries = ep.maxRetries

/-- **Each endpoint gets its events under its own settings**, through all passes, if the endpoint
found by its URL has them. -/
theorem own_settings_along (eps : List NotificationEndpoint) (hacc : Accepted eps) (ev : Event)
    (hsame : FirstSame eps ev) (s : Outbox) (hs : s.Sound) (now : Nat) (passes : List Pass) :
    (after (drain eps) (fanOutToEndpoints eps now ev s) passes).Serves eps ev s.nextID := by
  obtain ⟨hsound, -, hnext, -⟩ := fanOut_spec ev hs now (eps.filter (·.wants ev))
  refine ⟨fun k ep hk => ?_, fun d hd _ => ?_⟩
  · obtain ⟨hep, hwants⟩ := mem_filter.mp (mem_of_getElem? hk)
    obtain ⟨f, hf⟩ : ∃ f, findEndpoint eps ep.url = some f :=
      Option.isSome_iff_exists.mp (find?_isSome.mpr ⟨ep, hep, by simp⟩)
    have hurl : f.url = ep.url := by simpa using find?_some hf
    have htraced := (drains_invariant (fun _ _ _ => Traced.process (hurl ▸ hf)) hsound
      (traced_fanOut (maxRetries_pos hacc) hs now hk hf) passes).2
    exact htraced.owned hurl (hsame ep hep hwants f hf)
  · have hid : ∀ p (t : Outbox) r, t.Sound → r ∈ t.rows →
        t.nextID = (fanOutToEndpoints eps now ev s).nextID →
        (processPendingRow eps p t r).nextID = (fanOutToEndpoints eps now ev s).nextID := by
      intro p t r ht hr h
      rw [process_eq ht hr]
      exact h
    obtain ⟨hend, hkept⟩ := drains_invariant hid hsound rfl passes
    exact hnext ▸ hkept ▸ hend.logged d hd

def onePost : List NotificationEndpoint :=
  [⟨"a", ["backend.*"], "", "s", 1, 1⟩, ⟨"b", ["*"], "", "t", 1, 2⟩]

/-- Two endpoints with their own URLs, one of which wants the event. -/
theorem own_settings_two :
    (after (drain onePost) (fanOutToEndpoints onePost 0 ⟨"s3:x", "k", "p"⟩ {})
      [⟨0, fun _ => false, fun _ => 0⟩]).Serves onePost ⟨"s3:x", "k", "p"⟩ 0 :=
  own_settings_along onePost ⟨onePost, rfl⟩ _ (by
    unfold FirstSame
    decide) {} ⟨.nil, by simp, by simp⟩ 0 _

/-- Two endpoints share a URL: the second one's events are signed with the first one's secret. -/
def sharedURL : List NotificationEndpoint :=
  [⟨"a", ["backend.*"], "", "s", 1, 1⟩, ⟨"a", ["*"], "", "t", 1, 2⟩]

theorem shared_url_wrong_secret :
    (setDefaultsAndValidate sharedURL).2 = [] ∧
    (drain sharedURL (fanOutToEndpoints sharedURL 0 ⟨"s3:x", "k", "p"⟩ {})
      ⟨0, fun _ => false, fun _ => 0⟩).sent = [⟨0, "a", "p", "s", 1, false⟩] ∧
    ¬ (drain sharedURL (fanOutToEndpoints sharedURL 0 ⟨"s3:x", "k", "p"⟩ {})
      ⟨0, fun _ => false, fun _ => 0⟩).Serves sharedURL ⟨"s3:x", "k", "p"⟩ 0 := by
  refine ⟨rfl, by decide, fun h => ?_⟩
  have hown := (h.owned 0 ⟨"a", ["*"], "", "t", 1, 2⟩ (by decide)).own ⟨0, "a", "p", "s", 1, false⟩
    (by decide)
  exact absurd hown.2.2.1 (by decide)

end S3Orchestrator.Notify
