import Mathlib.Data.List.Basic
import Mathlib.Tactic.Linarith

/-!
# Runs of a system

A system is a function `next` from a state and an event to the next state. A run is a list of
events. `after` is the state a run ends in, and `Along P` says that `P` holds of every state of the
run with the event taken there. Every prefix of a run is a run, so what is proved of `after` for all
runs holds in every state reached.

* **`Along.invariant`**: what every step keeps holds after the run;
* **`Along.congr`**: two conditions that agree at every step of a run agree along it;
* **`Along.traced`**: what every step keeps of the state and a record beside it holds after the run;
* **`after_balance`**: a measure ends at what the steps put in less what they lose.
-/

namespace RowStore

variable {σ ε : Type}

def after (next : σ → ε → σ) (s : σ) (run : List ε) : σ := run.foldl next s

def Along (next : σ → ε → σ) (P : σ → ε → Prop) : σ → List ε → Prop
  | _, [] => True
  | s, e :: run => P s e ∧ Along next P (next s e) run

instance (next : σ → ε → σ) (P : σ → ε → Prop) [∀ s e, Decidable (P s e)] :
    ∀ (s : σ) (run : List ε), Decidable (Along next P s run)
  | _, [] => inferInstanceAs (Decidable True)
  | s, e :: run =>
    have := instDecidableAlong next P (next s e) run
    inferInstanceAs (Decidable (P s e ∧ Along next P (next s e) run))

variable {next : σ → ε → σ} {P Q : σ → ε → Prop} {s : σ} {run : List ε}

@[simp] theorem after_nil : after next s [] = s := rfl

@[simp] theorem after_cons (e : ε) : after next s (e :: run) = after next (next s e) run := rfl

@[simp] theorem along_nil : Along next P s [] := trivial

@[simp] theorem along_cons (e : ε) :
    Along next P s (e :: run) ↔ P s e ∧ Along next P (next s e) run := Iff.rfl

theorem along_of_forall (h : ∀ s e, P s e) : Along next P s run := by
  induction run generalizing s with
  | nil => trivial
  | cons e run ih => exact ⟨h s e, ih⟩

theorem along_and (hP : Along next P s run) (hQ : Along next Q s run) :
    Along next (fun s e => P s e ∧ Q s e) s run := by
  induction run generalizing s with
  | nil => trivial
  | cons e run ih => exact ⟨⟨hP.1, hQ.1⟩, ih hP.2 hQ.2⟩

@[simp] theorem after_append (earlier later : List ε) :
    after next s (earlier ++ later) = after next (after next s earlier) later :=
  List.foldl_append

theorem along_append {earlier later : List ε} : Along next P s (earlier ++ later) ↔
      Along next P s earlier ∧ Along next P (after next s earlier) later := by
  induction earlier generalizing s with
  | nil => simp
  | cons e earlier ih => simp [ih, and_assoc]

theorem along_iff_forall_append :
    Along next P s run ↔ ∀ earlier e later, run = earlier ++ e :: later →
      P (after next s earlier) e := by
  constructor
  · rintro h earlier e later rfl
    exact (along_append.mp h).2.1
  · intro h
    induction run generalizing s with
    | nil => trivial
    | cons e run ih =>
      refine ⟨h [] e run rfl, ih fun earlier e' later heq => ?_⟩
      exact h (e :: earlier) e' later (congrArg (e :: ·) heq)

theorem Along.imp_mem (h : Along next P s run) (hPQ : ∀ s, ∀ e ∈ run, P s e → Q s e) :
    Along next Q s run := by
  induction run generalizing s with
  | nil => trivial
  | cons e run ih =>
    exact ⟨hPQ s e List.mem_cons_self h.1, ih h.2 fun s e he => hPQ s e (List.mem_cons_of_mem _ he)⟩

variable {I : σ → Prop}

/-- **Invariant rule.** What every step that meets `P` keeps holds after the run. -/
theorem Along.invariant (h : Along next P s run) (hs : I s)
    (hstep : ∀ s e, I s → P s e → I (next s e)) : I (after next s run) := by
  induction run generalizing s with
  | nil => exact hs
  | cons e run ih => exact ih h.2 (hstep s e hs h.1)

theorem Along.of_invariant (h : Along next P s run) (hs : I s)
    (hstep : ∀ s e, I s → P s e → I (next s e)) (hQ : ∀ s e, I s → P s e → Q s e) :
    Along next Q s run := by
  induction run generalizing s with
  | nil => trivial
  | cons e run ih => exact ⟨hQ s e hs h.1, ih h.2 (hstep s e hs h.1)⟩

theorem along_of_mem (hs : I s) {R : ε → Prop} (hrun : ∀ e ∈ run, R e)
    (hstep : ∀ s e, I s → R e → I (next s e)) : Along next (fun s e => I s ∧ R e) s run := by
  induction run generalizing s with
  | nil => trivial
  | cons e run ih =>
    obtain ⟨he, hrest⟩ := List.forall_mem_cons.mp hrun
    exact ⟨⟨hs, he⟩, ih (hstep s e hs he) hrest⟩

/-- Along a run whose steps meet `R`, two conditions agree that agree at every such step where an
invariant holds that one of them keeps. -/
theorem Along.congr {R : σ → ε → Prop} (h : Along next R s run) (hs : I s)
    (hPQ : ∀ s e, I s → R s e → (P s e ↔ Q s e))
    (hstep : ∀ s e, I s → R s e → P s e → I (next s e)) :
    Along next P s run ↔ Along next Q s run := by
  induction run generalizing s with
  | nil => rfl
  | cons e run ih =>
    rw [along_cons, along_cons, ← hPQ s e hs h.1]
    refine and_congr_right fun he => ?_
    exact ih h.2 (hstep s e hs h.1 he)

/-- Two conditions that agree wherever an invariant holds agree along every run that keeps it. -/
theorem along_congr (hs : I s) (hPQ : ∀ s e, I s → (P s e ↔ Q s e))
    (hstep : ∀ s e, I s → P s e → I (next s e)) : Along next P s run ↔ Along next Q s run :=
  (along_of_forall (P := fun _ _ => True) fun _ _ => trivial).congr hs
    (fun s e hI _ => hPQ s e hI) fun s e hI _ => hstep s e hI

def tallied (next : σ → ε → σ) (f : σ → ε → Int) : σ → List ε → Int
  | _, [] => 0
  | s, e :: run => f s e + tallied next f (next s e) run

/-- What a record kept beside the state reads after a run. -/
def traced {γ : Type} (next : σ → ε → σ) (record : σ → γ → ε → γ) : σ → γ → List ε → γ
  | _, c, [] => c
  | s, c, e :: run => traced next record (next s e) (record s c e) run

/-- **Record rule.** What every step keeps of the state and the record holds after the run. -/
theorem Along.traced {γ : Type} {record : σ → γ → ε → γ} {c : γ} {J : σ → γ → Prop}
    (h : Along next P s run) (hs : J s c)
    (hstep : ∀ s c e, J s c → P s e → J (next s e) (record s c e)) :
    J (after next s run) (RowStore.traced next record s c run) := by
  induction run generalizing s c with
  | nil => exact hs
  | cons e run ih => exact ih h.2 (hstep s c e hs h.1)

/-- **Balance rule.** A measure that every step moves by what it puts in less what it loses ends at
the difference of the two. -/
theorem after_balance {m : σ → Int} {gain loss : σ → ε → Int} (hs : I s)
    (hstep : ∀ s e, I s → I (next s e))
    (hm : ∀ s e, I s → m (next s e) = m s + gain s e - loss s e) :
    m (after next s run) = m s + tallied next gain s run - tallied next loss s run := by
  induction run generalizing s with
  | nil => simp [tallied]
  | cons e run ih =>
    have hnext := hm s e hs
    have hrest := ih (hstep s e hs)
    rw [after_cons, tallied, tallied]
    linarith

theorem tallied_map (f : ε → Int) : tallied next (fun _ e => f e) s run = (run.map f).sum := by
  induction run generalizing s with
  | nil => rfl
  | cons e run ih => rw [tallied, ih, List.map_cons, List.sum_cons]

theorem tallied_eq_zero {f : σ → ε → Int} (h : Along next P s run)
    (hf : ∀ s e, P s e → f s e = 0) : tallied next f s run = 0 := by
  induction run generalizing s with
  | nil => rfl
  | cons e run ih => rw [tallied, hf s e h.1, ih h.2, Int.zero_add]

end RowStore
