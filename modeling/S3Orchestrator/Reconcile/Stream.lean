import S3Orchestrator.Backend.Breaker

/-!
# The stream of listed keys

A goroutine walks the backend's listing and sends every listed key over a channel; the merge takes
them from there. The walk ends with an error, which goes over a second channel, or with none, and
then both are closed. The merge takes the end of the stream for the end of the backend.

* **`endsWhole_iff`**.
-/

namespace S3Orchestrator.KeyStream

open RowStore List
open Backend (convertListPage errBudgetExhausted)

def s3StreamSize : Nat := 1000

inductive Closing
  | returned
  | reported
  | errClosed
  | closed

inductive Producer
  | fetching
  | emitting (rest : List ListedObject) (canContinue : Bool)
  | closing (stage : Closing) (err : Option Failure)

/-- The stream. `remaining` are the pages the backend has not been asked for, `streamErr` ends the
goroutine's context and `ctxErr` the caller's. `delivered` are the entries `Next` has returned, and
`ended` says that it has reported the end without an error. -/
structure Walk where
  remaining : List (List ListedObject)
  producer : Producer := .fetching
  ch : List Entry := []
  chClosed : Bool := false
  errCh : Option Failure := none
  errChClosed : Bool := false
  ctxErr : Option Failure := none
  streamErr : Option Failure := none
  pending : Option Failure := none
  delivered : List Entry := []
  ended : Bool := false

namespace Walk

/-- What the goroutine does next if it can. `canContinue` is what the budget answers when a page is
charged. -/
def produce (prefixes : List String) (canContinue : Bool) (w : Walk) : Walk :=
  match w.producer with
  | .fetching =>
    match w.remaining with
    | [] => { w with producer := .closing .returned none }
    | page :: rest =>
      -- a page without objects is passed over
      if convertListPage page = [] then { w with remaining := rest }
      else
        { w with remaining := rest, producer := .emitting (convertListPage page) canContinue }
  | .emitting [] canContinue =>
    if canContinue then { w with producer := .fetching }
    else { w with producer := .closing .returned (some errBudgetExhausted) }
  | .emitting (obj :: rest) canContinue =>
    if w.ch.length < s3StreamSize then
      { w with
        ch := w.ch ++ [listedEntry prefixes obj]
        producer := .emitting rest canContinue }
    else w
  | .closing .returned err =>
    { w with
      errCh := err.filter fun err => !err.is .canceled
      producer := .closing .reported err }
  | .closing .reported err => { w with errChClosed := true, producer := .closing .errClosed err }
  | .closing .errClosed err => { w with chClosed := true, producer := .closing .closed err }
  | .closing .closed _ => w

def giveUp (w : Walk) : Walk :=
  match w.producer, w.streamErr with
  | .emitting (_ :: _) _, some err => { w with producer := .closing .returned (some err) }
  | _, _ => w

def fetchFails (err : Failure) (w : Walk) : Walk :=
  match w.producer, w.remaining with
  | .fetching, _ :: _ => { w with producer := .closing .returned (some err) }
  | _, _ => w

def cancel (err : Failure) (w : Walk) : Walk :=
  { w with ctxErr := w.ctxErr <|> some err, streamErr := w.streamErr <|> some err }

def stop (w : Walk) : Walk := { w with streamErr := w.streamErr <|> some .canceled }

/-- A call of `Next` that takes the channel or, with `done`, the caller's context, and waits where
that is empty. -/
def next (done : Bool) (w : Walk) : Walk :=
  match w.pending with
  | some _ => w
  | none =>
    if done then { w with pending := w.ctxErr }
    else
      match w.ch with
      | e :: rest => { w with ch := rest, delivered := w.delivered ++ [e] }
      | [] =>
        if w.chClosed then
          match w.errCh with
          | some err => { w with errCh := none, pending := some err }
          | none => if w.errChClosed then { w with ended := true } else w
        else w

end Walk

inductive Step
  | produce (canContinue : Bool)
  | giveUp
  | fetchFails (err : Failure)
  | cancel (deadline : Bool)
  | stop
  | next (done : Bool)

def Walk.step (prefixes : List String) (w : Walk) : Step → Walk
  | .produce canContinue => w.produce prefixes canContinue
  | .giveUp => w.giveUp
  | .fetchFails err => w.fetchFails err
  | .cancel deadline => w.cancel (if deadline then .deadlineExceeded else .canceled)
  | .stop => w.stop
  | .next done => w.next done

def entries (prefixes : List String) (pages : List (List ListedObject)) : List Entry :=
  (pages.flatMap convertListPage).map (listedEntry prefixes)

/-- The end was reported without an error only after the whole listing, with every entry of it
delivered. -/
def EndsWhole (prefixes : List String) (pages : List (List ListedObject)) (w : Walk) : Prop :=
  w.ended = true →
    w.producer = .closing .closed none ∧ w.delivered = entries prefixes pages

/-- The step does not end the listing with a cancellation, at a send or for a page, unless `Next`
has returned an error. -/
def Heard (w : Walk) : Step → Prop
  | .giveUp => w.pending = none →
      ∀ obj rest canContinue, w.producer = .emitting (obj :: rest) canContinue →
        w.streamErr ≠ some .canceled
  | .fetchFails err => w.pending = none → w.producer = .fetching → w.remaining ≠ [] →
      err.is .canceled = false
  | _ => True

/-! ## What every state keeps -/

/-- What is delivered, in the channel and still to come is the listing, until an error ends it,
which is on its way. -/
def Kept (prefixes : List String) (all : List Entry) (w : Walk) : Prop :=
  match w.producer with
  | .fetching => w.delivered ++ w.ch ++ entries prefixes w.remaining = all
  | .emitting rest _ =>
    w.delivered ++ w.ch ++ rest.map (listedEntry prefixes) ++ entries prefixes w.remaining = all
  | .closing _ none => w.delivered ++ w.ch = all
  | .closing .returned (some err) => err.is .canceled = false ∨ w.pending ≠ none
  | .closing _ (some err) => w.errCh = some err ∨ w.pending ≠ none

/-- What every state of a walk keeps whose steps are all heard. -/
structure Sound (prefixes : List String) (all : List Entry) (w : Walk) : Prop where
  kept : Kept prefixes all w
  closed : w.chClosed = true → ∃ err, w.producer = .closing .closed err
  drained : w.ended = true → w.producer = .closing .closed none ∧ w.ch = []
  cause : ∀ err, w.streamErr = some err → err = .canceled ∨ err = .deadlineExceeded

variable {prefixes : List String} {all : List Entry} {w : Walk}

theorem sound_start (prefixes : List String) (pages : List (List ListedObject)) :
    Sound prefixes (entries prefixes pages) { remaining := pages } where
  kept := rfl
  closed h := by cases h
  drained h := by cases h
  cause _ h := by cases h

@[simp] theorem entries_cons (page : List ListedObject) (pages : List (List ListedObject)) :
    entries prefixes (page :: pages) =
      (convertListPage page).map (listedEntry prefixes) ++ entries prefixes pages := by
  simp [entries]

section Steps

variable (h : Sound prefixes all w)
include h

theorem Sound.open (hopen : ∀ err, w.producer ≠ .closing .closed err) :
    w.chClosed = false ∧ w.ended = false := by
  constructor
  · by_contra hclosed
    obtain ⟨err, herr⟩ := h.closed (by simpa using hclosed)
    exact hopen err herr
  · by_contra hended
    exact hopen none (h.drained (by simpa using hended)).1

theorem Sound.produce (canContinue : Bool) :
    Sound prefixes all (w.produce prefixes canContinue) := by
  have hkept := h.kept
  unfold Walk.produce
  unfold Kept at hkept
  split
  case h_1 hp =>
    obtain ⟨hclosed, hended⟩ := h.open (by simp [hp])
    simp only [hp] at hkept
    split
    case h_1 hr =>
      refine ⟨?_, by simp [hclosed], by simp [hended], h.cause⟩
      simpa [Kept, hr, entries] using hkept
    case h_2 page rest hr =>
      split_ifs with hempty
      · refine ⟨?_, by simp [hclosed], by simp [hended], h.cause⟩
        simpa [Kept, hp, hr, hempty] using hkept
      · refine ⟨?_, by simp [hclosed], by simp [hended], h.cause⟩
        simpa [Kept, hr] using hkept
  case h_2 hp =>
    obtain ⟨hclosed, hended⟩ := h.open (by simp [hp])
    simp only [hp] at hkept
    split_ifs
    · refine ⟨?_, by simp [hclosed], by simp [hended], h.cause⟩
      simpa [Kept] using hkept
    · have hbudget : errBudgetExhausted.is .canceled = false := by decide
      exact ⟨.inl hbudget, by simp [hclosed], by simp [hended], h.cause⟩
  case h_3 obj rest _ hp =>
    obtain ⟨hclosed, hended⟩ := h.open (by simp [hp])
    simp only [hp] at hkept
    split_ifs
    · refine ⟨?_, by simp [hclosed], by simp [hended], h.cause⟩
      simpa [Kept, append_assoc] using hkept
    · exact h
  case h_4 err hp =>
    obtain ⟨hclosed, hended⟩ := h.open (by simp [hp])
    refine ⟨?_, by simp [hclosed], by simp [hended], h.cause⟩
    cases err with
    | none => simpa [Kept, hp] using hkept
    | some err =>
      simp only [hp] at hkept
      exact hkept.imp_left fun hcanceled => by simp [hcanceled]
  case h_5 err hp =>
    obtain ⟨hclosed, hended⟩ := h.open (by simp [hp])
    refine ⟨?_, by simp [hclosed], by simp [hended], h.cause⟩
    cases err with
    | none | some err => simpa [Kept, hp] using hkept
  case h_6 err hp =>
    obtain ⟨-, hended⟩ := h.open (by simp [hp])
    refine ⟨?_, fun _ => ⟨err, rfl⟩, by simp [hended], h.cause⟩
    cases err with
    | none | some err => simpa [Kept, hp] using hkept
  case h_7 => exact h

theorem Sound.giveUp (hheard : Heard w .giveUp) : Sound prefixes all w.giveUp := by
  unfold Walk.giveUp
  split
  case h_1 obj rest canContinue err hp herr =>
    obtain ⟨hclosed, hended⟩ := h.open (by simp [hp])
    have hdeadline : err.is .canceled = false ∨ w.pending ≠ none := by
      by_cases hpending : w.pending = none
      · -- the context did not end with a cancellation, so it ran into its deadline
        rcases h.cause err herr with rfl | rfl
        · exact absurd herr (hheard hpending obj rest canContinue hp)
        · exact .inl (by decide)
      · exact .inr hpending
    exact ⟨hdeadline, by simp [hclosed], by simp [hended], h.cause⟩
  case h_2 => exact h

theorem Sound.fetchFails {err : Failure} (hheard : Heard w (.fetchFails err)) :
    Sound prefixes all (w.fetchFails err) := by
  unfold Walk.fetchFails
  split
  case h_1 page rest hp hr =>
    obtain ⟨hclosed, hended⟩ := h.open (by simp [hp])
    have hloud : err.is .canceled = false ∨ w.pending ≠ none := by
      by_cases hpending : w.pending = none
      · exact .inl (hheard hpending hp (by simp [hr]))
      · exact .inr hpending
    exact ⟨hloud, by simp [hclosed], by simp [hended], h.cause⟩
  case h_2 => exact h

theorem Sound.withErr {ctxErr streamErr : Option Failure}
    (hcause : ∀ err, streamErr = some err → err = .canceled ∨ err = .deadlineExceeded) :
    Sound prefixes all { w with ctxErr := ctxErr, streamErr := streamErr } :=
  ⟨h.kept, h.closed, h.drained, hcause⟩

theorem Sound.take {e : Entry} {rest : List Entry} (hch : w.ch = e :: rest) :
    Sound prefixes all { w with ch := rest, delivered := w.delivered ++ [e] } := by
  have hkept := h.kept
  refine ⟨?_, h.closed, fun hended => ?_, h.cause⟩
  · cases hp : w.producer with
    | fetching | emitting rest canContinue => simpa [Kept, hp, hch] using hkept
    | closing stage err =>
      cases err with
      | none => simpa [Kept, hp, hch] using hkept
      | some err => cases stage <;> simpa [Kept, hp] using hkept
  · -- a stream that has ended had nothing in its channel
    have := (h.drained hended).2
    simp [hch] at this

theorem Sound.latch (hnone : w.pending = none) {errCh pending : Option Failure}
    (hpending : pending = none → errCh = w.errCh) :
    Sound prefixes all { w with errCh := errCh, pending := pending } := by
  have hkept := h.kept
  refine ⟨?_, h.closed, h.drained, h.cause⟩
  cases hp : w.producer with
  | fetching | emitting rest canContinue => simpa [Kept, hp] using hkept
  | closing stage err =>
    cases err with
    | none => simpa [Kept, hp] using hkept
    | some err =>
      by_cases hnew : pending = none
      · cases stage <;> simpa [Kept, hp, hnone, hnew, hpending hnew] using hkept
      · cases stage <;> simp_all [Kept]

theorem Sound.next (done : Bool) : Sound prefixes all (w.next done) := by
  have hkept := h.kept
  unfold Walk.next
  split
  case h_1 => exact h
  case h_2 hpending =>
    by_cases hdone : done = true
    · rw [if_pos hdone]
      exact h.latch hpending fun _ => rfl
    · rw [if_neg hdone]
      split
      case h_1 e rest hch => exact h.take hch
      case h_2 hch =>
        by_cases hclosed : w.chClosed = true
        · rw [if_pos hclosed]
          split
          case h_1 err _ => exact h.latch hpending nofun
          case h_2 herrCh =>
            by_cases herrClosed : w.errChClosed = true
            · -- the channel is closed and drained, and the other has no error: none was sent
              rw [if_pos herrClosed]
              obtain ⟨err, hp⟩ := h.closed hclosed
              cases err with
              | none => exact ⟨hkept, h.closed, fun _ => ⟨hp, hch⟩, h.cause⟩
              | some err => simp [Kept, hp, herrCh, hpending] at hkept
            · rw [if_neg herrClosed]
              exact h
        · rw [if_neg hclosed]
          exact h

theorem Sound.step {e : Step} (hheard : Heard w e) : Sound prefixes all (w.step prefixes e) := by
  cases e with
  | produce canContinue => exact h.produce canContinue
  | giveUp => exact h.giveUp hheard
  | fetchFails err => exact h.fetchFails hheard
  | cancel deadline =>
    refine h.withErr fun err herr => ?_
    cases hctx : w.streamErr with
    | some e => exact h.cause err (by simpa [hctx] using herr)
    | none => cases deadline <;> simp_all
  | stop =>
    refine h.withErr fun err herr => ?_
    cases hctx : w.streamErr with
    | some e => exact h.cause err (by simpa [hctx] using herr)
    | none => simp_all
  | next done => exact h.next done

end Steps

theorem endsWhole_of_heard {pages : List (List ListedObject)} {steps : List Step}
    (h : Along (Walk.step prefixes) Heard { remaining := pages } steps) :
    EndsWhole prefixes pages (after (Walk.step prefixes) { remaining := pages } steps) := by
  have hsound := h.invariant (sound_start prefixes pages) fun w e hw he => hw.step he
  intro hended
  obtain ⟨hp, hch⟩ := hsound.drained hended
  have hkept := hsound.kept
  simp only [Kept, hp, hch, append_nil] at hkept
  exact ⟨hp, hkept⟩

/-! ## What a cancellation leaves behind -/

def Step.Plain : Step → Prop
  | .produce _ | .next false => True
  | _ => False

theorem heard_of_plain {e : Step} (h : e.Plain) (w : Walk) : Heard w e := by
  cases e with
  | produce | next => trivial
  | giveUp | fetchFails | cancel | stop => exact h.elim

theorem ended_after_drain (hpending : w.pending = none) (hch : w.chClosed = true)
    (herrCh : w.errCh = none) (herr : w.errChClosed = true) :
    let w' := after (Walk.step prefixes) w (List.replicate (w.ch.length + 1) (.next false))
    w'.ended = true ∧ w'.producer = w.producer := by
  obtain ⟨entries, hentries⟩ : ∃ entries, w.ch = entries := ⟨_, rfl⟩
  induction entries generalizing w with
  | nil => simp [hentries, replicate, Walk.step, Walk.next, hpending, hch, herrCh, herr]
  | cons e rest ih =>
    have hstep : w.next false = { w with ch := rest, delivered := w.delivered ++ [e] } := by
      simp [Walk.next, hpending, hentries]
    have := ih (w := w.next false) (by simp [hstep, hpending]) (by simp [hstep, hch])
      (by simp [hstep, herrCh]) (by simp [hstep, herr]) (by simp [hstep])
    simpa [hentries, hstep, replicate_succ, Walk.step] using this

theorem ended_after_cancellation (prefixes : List String) (hpending : w.pending = none)
    {err : Failure}
    (hp : w.producer = .closing .returned (some err)) (herr : err.is .canceled = true) :
    ∃ more : List Step, (∀ e ∈ more, e.Plain) ∧ (after (Walk.step prefixes) w more).ended = true ∧
      (after (Walk.step prefixes) w more).producer = .closing .closed (some err) := by
  have hclosed : after (Walk.step prefixes) w (replicate 3 (.produce true)) =
      { w with
        errCh := none
        errChClosed := true
        chClosed := true
        producer := .closing .closed (some err) } := by
    simp [Walk.step, Walk.produce, hp, herr]
  refine ⟨replicate 3 (.produce true) ++ replicate (w.ch.length + 1) (.next false), ?_, ?_⟩
  · intro e he
    rcases mem_append.mp he with he | he
    · rw [eq_of_mem_replicate he]
      trivial
    · rw [eq_of_mem_replicate he]
      trivial
  · rw [after_append, hclosed]
    exact ended_after_drain hpending rfl rfl rfl

theorem returned_of_not_heard (prefixes : List String) {e : Step} (h : ¬ Heard w e) :
    w.pending = none ∧ (w.step prefixes e).pending = none ∧ ∃ err, err.is .canceled = true ∧
        (w.step prefixes e).producer = .closing .returned (some err) := by
  cases e with
  | produce | cancel | stop | next => exact absurd trivial h
  | giveUp =>
    simp only [Heard, not_forall, not_not] at h
    obtain ⟨hpending, obj, rest, canContinue, hp, herr⟩ := h
    simp [Walk.step, Walk.giveUp, hp, herr, hpending, Failure.is]
  | fetchFails err =>
    simp only [Heard, not_forall] at h
    obtain ⟨hpending, hp, hr, herr⟩ := h
    obtain ⟨page, rest, hr⟩ := exists_cons_of_ne_nil hr
    simp [Walk.step, Walk.fetchFails, hp, hr, hpending, herr]

/-- **When the end of the stream is the end of the backend.** From every moment of a run the stream,
left to itself, reports its end without an error only after a whole listing, exactly where no step
ends the listing with a cancellation before `Next` has returned an error. -/
theorem endsWhole_iff (prefixes : List String) (pages : List (List ListedObject))
    (steps : List Step) :
    (∀ earlier later, steps = earlier ++ later → ∀ more : List Step, (∀ e ∈ more, e.Plain) →
        EndsWhole prefixes pages
          (after (Walk.step prefixes) { remaining := pages } (earlier ++ more))) ↔
      Along (Walk.step prefixes) Heard { remaining := pages } steps := by
  constructor
  · intro h
    refine along_iff_forall_append.mpr fun earlier e later hsteps => ?_
    by_contra hunheard
    obtain ⟨-, hpending, err, herr, hp⟩ := returned_of_not_heard prefixes hunheard
    obtain ⟨more, hplain, hended, hproducer⟩ :=
      ended_after_cancellation prefixes hpending hp herr
    have hwhole := h (earlier ++ [e]) later (by simpa using hsteps) more hplain
    rw [after_append, after_append] at hwhole
    have := (hwhole hended).1
    rw [after_cons, after_nil, hproducer] at this
    cases this
  · rintro h earlier later rfl more hplain
    refine endsWhole_of_heard (along_append.mpr ⟨(along_append.mp h).1, ?_⟩)
    exact along_iff_forall_append.mpr fun a e b heq =>
      heard_of_plain (hplain e (by simp [heq])) _

/-! ## A walk that is cancelled -/

def twoKeys : List (List ListedObject) := [[{ key := "photos/a" }, { key := "photos/b" }]]

/-- The context is cancelled after the first key. The goroutine stops without a word and `Next`
takes the closed channel: the backend seems to hold one key. -/
theorem cancelled_walk_ends_short :
    let w := after (Walk.step ["photos/"]) { remaining := twoKeys }
      [.produce true, .produce true, .cancel false, .giveUp, .produce true, .produce true,
        .produce true, .next false, .next false]
    w.ended = true ∧ w.pending = none ∧ w.delivered.map Entry.key = ["photos/a"] := by
  decide

end S3Orchestrator.KeyStream
