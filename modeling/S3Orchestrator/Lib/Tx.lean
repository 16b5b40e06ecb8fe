import Mathlib.Tactic.Common

/-!
# Transactions

`Tx σ ε α` is the body of a transaction over states `σ`: it reads and edits a private copy of the
state, and ends with a value or with an error. `commit` is what the store keeps of it: the edited
state of a body that succeeded, and the state it began with otherwise.

* `bind_eq_ok` peels one statement off a body that succeeded; the other `_eq_ok` lemmas read the
  single statements, so a proof about a body never unfolds the monad;
* **`forEach_induct`**: what every turn of a loop carries, the whole loop carries;
* `Within R`: the body moves the state along the preorder `R`. **`Within.bind`** and
  **`Within.forEach`** build this up statement by statement.
-/

namespace RowStore

theorem exists_of_bind_ok {α β ε : Type} {x : Except ε α} {f : α → Except ε β} {b : β}
    (h : (x >>= f) = .ok b) : ∃ a, x = .ok a ∧ f a = .ok b := by
  cases x with
  | error e => cases h
  | ok a => exact ⟨a, rfl, h⟩

theorem exists_of_map_ok {α β ε : Type} {x : Except ε α} {f : α → β} {b : β}
    (h : x.map f = .ok b) : ∃ a, x = .ok a ∧ b = f a := by
  cases x with
  | error e => cases h
  | ok a => exact ⟨a, rfl, (Except.ok.inj h).symm⟩

theorem ok_of_mapError_ok {α ε ε' : Type} {x : Except ε α} {f : ε → ε'} {a : α}
    (h : x.mapError f = .ok a) : x = .ok a := by
  cases x with
  | error e => cases h
  | ok a' => exact congrArg Except.ok (Except.ok.inj h)

/-- A transaction body: a value and the edited state, or an error. -/
def Tx (σ ε α : Type) : Type := σ → Except ε (α × σ)

namespace Tx

variable {σ ε α β : Type}

instance : Monad (Tx σ ε) where
  pure a := fun s => .ok (a, s)
  bind x f := fun s =>
    match x s with
    | .ok (a, s₁) => f a s₁
    | .error e => .error e

def fail (e : ε) : Tx σ ε α := fun _ => .error e

def read (f : σ → α) : Tx σ ε α := fun s => .ok (f s, s)

def ofExcept (r : Except ε α) : Tx σ ε α := fun s =>
  match r with
  | .ok a => .ok (a, s)
  | .error e => .error e

def edit (f : σ → σ) : Tx σ ε Unit := fun s => .ok ((), f s)

/-- Go on only while `c` holds of the state. -/
def require (c : σ → Bool) (e : ε) : Tx σ ε Unit := fun s => if c s then .ok ((), s) else .error e

/-- Edit the state where `f` can, and fail where it cannot. -/
def tryEdit (f : σ → Option σ) (e : ε) : Tx σ ε Unit := fun s =>
  match f s with
  | some s' => .ok ((), s')
  | none => .error e

/-- Rewrite the error of a body, as a caller that adds context to it does. -/
def mapError (g : ε → ε) (x : Tx σ ε α) : Tx σ ε α := fun s =>
  match x s with
  | .ok r => .ok r
  | .error e => .error (g e)

def forEach (f : α → Tx σ ε Unit) : List α → Tx σ ε Unit
  | [] => pure ()
  | a :: l => do
    f a
    forEach f l

/-- What the store holds after the transaction: an error rolls it back. -/
def commit (x : Tx σ ε α) (s : σ) : σ :=
  match x s with
  | .ok (_, s') => s'
  | .error _ => s

def result (x : Tx σ ε α) (s : σ) : Except ε α :=
  match x s with
  | .ok (a, _) => .ok a
  | .error e => .error e

/-! ## Reading a body that succeeded -/

variable {x : Tx σ ε α} {f : α → Tx σ ε β} {s s' : σ} {a : α} {e : ε} {u : Unit} {r : β × σ}

@[simp] theorem pure_eq_ok {a b : α} : (pure a : Tx σ ε α) s = .ok (b, s') ↔ b = a ∧ s' = s := by
  constructor
  · intro h
    cases h
    exact ⟨rfl, rfl⟩
  · rintro ⟨rfl, rfl⟩
    rfl

theorem bind_eq_ok : (x >>= f) s = .ok r ↔ ∃ a s1, x s = .ok (a, s1) ∧ f a s1 = .ok r := by
  change (match x s with
    | .ok (a, s1) => f a s1
    | .error e => .error e) = .ok r ↔ _
  cases hx : x s with
  | error e => simp
  | ok p =>
    obtain ⟨a, s1⟩ := p
    constructor
    · intro h
      exact ⟨a, s1, rfl, h⟩
    · rintro ⟨a', s₁', he, h⟩
      cases he
      exact h

/-- Sequencing: what is known of the first step, and then the rest. -/
theorem bind_ok {P : α → σ → Prop}
    (h : (x >>= f) s = .ok r) (hx : ∀ {a s1}, x s = .ok (a, s1) → P a s1) :
    ∃ a s1, P a s1 ∧ f a s1 = .ok r := by
  obtain ⟨a, s1, h1, h2⟩ := bind_eq_ok.mp h
  exact ⟨a, s1, hx h1, h2⟩

theorem bind_pure_ok {g : α → β} {b : β}
    (h : (x >>= fun a => pure (g a)) s = .ok (b, s')) : ∃ a, x s = .ok (a, s') ∧ b = g a := by
  obtain ⟨a, s1, h1, h2⟩ := bind_eq_ok.mp h
  obtain ⟨rfl, rfl⟩ := pure_eq_ok.mp h2
  exact ⟨a, h1, rfl⟩

theorem bind_eq_error :
    (x >>= f) s = .error e ↔ x s = .error e ∨ ∃ a s1, x s = .ok (a, s1) ∧ f a s1 = .error e := by
  change (match x s with
    | .ok (a, s1) => f a s1
    | .error e => .error e) = .error e ↔ _
  cases hx : x s with
  | error e' => simp
  | ok p =>
    obtain ⟨a, s1⟩ := p
    simp

theorem require_eq_error {c : σ → Bool} {e e' : ε} :
    (require c e : Tx σ ε Unit) s = .error e' ↔ c s = false ∧ e' = e := by
  unfold require
  split_ifs with hc
  · simp [hc]
  · simp only [Except.error.injEq, Bool.eq_false_iff.mpr hc, true_and]
    exact eq_comm

@[simp] theorem fail_eq_ok {r : α × σ} : (fail e : Tx σ ε α) s = .ok r ↔ False := by
  simp [fail]

@[simp] theorem read_eq_ok {f : σ → α} :
    (read f : Tx σ ε α) s = .ok (a, s') ↔ a = f s ∧ s' = s := by
  simp only [read, Except.ok.injEq, Prod.mk.injEq]
  exact and_congr eq_comm eq_comm

@[simp] theorem ofExcept_eq_ok {r : Except ε α} :
    (ofExcept r : Tx σ ε α) s = .ok (a, s') ↔ r = .ok a ∧ s' = s := by
  cases r with
  | error e => simp [ofExcept]
  | ok b =>
    simp only [ofExcept, Except.ok.injEq, Prod.mk.injEq]
    exact and_congr Iff.rfl eq_comm

@[simp] theorem edit_eq_ok {f : σ → σ} : (edit f : Tx σ ε Unit) s = .ok (u, s') ↔ s' = f s := by
  simp only [edit, Except.ok.injEq, Prod.mk.injEq, true_and]
  exact eq_comm

@[simp] theorem require_eq_ok {c : σ → Bool} :
    (require c e : Tx σ ε Unit) s = .ok (u, s') ↔ c s = true ∧ s' = s := by
  unfold require
  split_ifs with hc
  · simp only [Except.ok.injEq, Prod.mk.injEq, true_and, hc]
    exact eq_comm
  · simp [hc]

@[simp] theorem tryEdit_eq_ok {f : σ → Option σ} :
    (tryEdit f e : Tx σ ε Unit) s = .ok (u, s') ↔ f s = some s' := by
  unfold tryEdit
  cases f s <;> simp

@[simp] theorem mapError_eq_ok {g : ε → ε} {r : α × σ} : mapError g x s = .ok r ↔ x s = .ok r := by
  unfold mapError
  cases x s <;> simp

theorem bind_mapError_ok {g : ε → ε}
    {P : α → σ → Prop} (h : (mapError g x >>= f) s = .ok r)
    (hx : ∀ {a s1}, x s = .ok (a, s1) → P a s1) : ∃ a s1, P a s1 ∧ f a s1 = .ok r :=
  bind_ok h fun h => hx (mapError_eq_ok.mp h)

theorem forEach_nil_eq_ok {f : α → Tx σ ε Unit} : forEach f [] s = .ok (u, s') ↔ s' = s := by
  simp [forEach]

theorem forEach_cons_eq_ok {f : α → Tx σ ε Unit} {l : List α} : forEach f (a :: l) s = .ok (u, s') ↔
      ∃ s1, f a s = .ok ((), s1) ∧ forEach f l s1 = .ok ((), s') := by
  change (f a >>= fun _ => forEach f l) s = .ok (u, s') ↔ _
  rw [bind_eq_ok]
  constructor
  · rintro ⟨_, s1, h1, h2⟩
    exact ⟨s1, h1, h2⟩
  · rintro ⟨s1, h1, h2⟩
    exact ⟨(), s1, h1, h2⟩

/-- **Loop rule.** What every turn of a loop carries along, with the elements done so far, the whole
loop carries. -/
theorem forEach_induct {f : α → Tx σ ε Unit} (P : List α → σ → Prop)
    (hstep : ∀ done a s s', P done s → f a s = .ok ((), s') → P (done ++ [a]) s') :
    ∀ (l done : List α) (s s' : σ) (u : Unit), P done s → forEach f l s = .ok (u, s') →
      P (done ++ l) s' := by
  intro l
  induction l with
  | nil =>
    intro done s s' u hP h
    rw [forEach_nil_eq_ok] at h
    subst h
    simpa using hP
  | cons a l ih =>
    intro done s s' u hP h
    obtain ⟨s1, h1, h2⟩ := forEach_cons_eq_ok.mp h
    have := ih (done ++ [a]) s1 s' () (hstep done a s s1 hP h1) h2
    simpa using this

theorem forEach_runs {f : α → Tx σ ε Unit} {P : σ → Prop} (l : List α)
    (hstep : ∀ a ∈ l, ∀ s, P s → ∃ s', f a s = .ok ((), s') ∧ P s') (hs : P s) :
    ∃ s', forEach f l s = .ok ((), s') ∧ P s' := by
  induction l generalizing s with
  | nil => exact ⟨s, rfl, hs⟩
  | cons a l ih =>
    obtain ⟨s1, h1, hs1⟩ := hstep a List.mem_cons_self s hs
    obtain ⟨s', h', hs'⟩ := ih (fun b hb => hstep b (List.mem_cons_of_mem a hb)) hs1
    exact ⟨s', forEach_cons_eq_ok.mpr ⟨s1, h1, h'⟩, hs'⟩

/-! ## Commit and rollback -/

theorem commit_of_ok (h : x s = .ok (a, s')) : x.commit s = s' := by
  simp [commit, h]

theorem commit_of_error (h : x s = .error e) : x.commit s = s := by
  simp [commit, h]

theorem commit_cases (x : Tx σ ε α) (s : σ) : x.commit s = s ∨ ∃ a, x s = .ok (a, x.commit s) := by
  cases h : x s with
  | error e => exact .inl (commit_of_error h)
  | ok p => exact .inr ⟨p.1, by rw [commit_of_ok h]⟩

/-- What holds before the transaction and after its body holds of what the store keeps. -/
theorem commit_induct {P : σ → Prop} (hs : P s)
    (hx : ∀ a s', x s = .ok (a, s') → P s') : P (x.commit s) := by
  rcases commit_cases x s with h | ⟨a, h⟩
  · rw [h]
    exact hs
  · exact hx a _ h

theorem commit_of_isOk (h : (x s).isOk = true) : ∃ a, x s = .ok (a, x.commit s) := by
  cases hx : x s with
  | error e =>
    rw [hx] at h
    cases h
  | ok p => exact ⟨p.1, by rw [commit_of_ok hx]⟩

theorem commit_of_result (h : x.result s = .ok a) : x s = .ok (a, x.commit s) := by
  cases hx : x s with
  | error e =>
    rw [result, hx] at h
    cases h
  | ok p =>
    rw [result, hx] at h
    cases h
    rw [commit_of_ok hx]

theorem commit_of_not_isOk (h : (x s).isOk = false) : x.commit s = s := by
  cases hx : x s with
  | error e => exact commit_of_error hx
  | ok p =>
    rw [hx] at h
    cases h

/-! ## What a body can do to the state -/

section Within

variable {R : σ → σ → Prop}

/-- A run that succeeds moves the state along `R`. -/
def Within (R : σ → σ → Prop) (x : Tx σ ε α) : Prop := ∀ ⦃s a s'⦄, x s = .ok (a, s') → R s s'

theorem within_pure (hrefl : ∀ s, R s s) (a : α) : Within R (pure a : Tx σ ε α) := by
  intro s b s' h
  rw [(pure_eq_ok.mp h).2]
  exact hrefl s

theorem within_fail (e : ε) : Within R (fail e : Tx σ ε α) := fun _ _ _ h => absurd h (by simp)

theorem within_ofExcept (hrefl : ∀ s, R s s) (r : Except ε α) :
    Within R (ofExcept r : Tx σ ε α) := by
  intro s b s' h
  rw [(ofExcept_eq_ok.mp h).2]
  exact hrefl s

/-- **Sequence rule.** -/
theorem Within.bind (htrans : ∀ s1 s2 s3, R s1 s2 → R s2 s3 → R s1 s3)
    {g : α → Tx σ ε β} (hx : Within R x) (hg : ∀ a, Within R (g a)) : Within R (x >>= g) := by
  intro s b s' h
  obtain ⟨a, s1, h1, h2⟩ := bind_eq_ok.mp h
  exact htrans _ _ _ (hx h1) (hg a h2)

theorem Within.mapError (g : ε → ε) (hx : Within R x) : Within R (mapError g x) :=
  fun _ _ _ h => hx (mapError_eq_ok.mp h)

/-- **Loop rule.** A loop moves the state along a preorder that every turn moves it along. -/
theorem Within.forEach (hrefl : ∀ s, R s s) (htrans : ∀ s1 s2 s3, R s1 s2 → R s2 s3 → R s1 s3)
    {g : α → Tx σ ε Unit} (hg : ∀ a, Within R (g a)) : ∀ l : List α, Within R (forEach g l)
  | [] => within_pure hrefl ()
  | a :: l => (hg a).bind htrans fun _ => Within.forEach hrefl htrans hg l

theorem Within.ite {c : Prop} [Decidable c] {x y : Tx σ ε α} (hx : Within R x)
    (hy : Within R y) : Within R (if c then x else y) := by
  split_ifs
  · exact hx
  · exact hy

theorem Within.commit (hrefl : ∀ s, R s s) (hx : Within R x) (s : σ) : R s (x.commit s) :=
  commit_induct (hrefl s) fun _ _ h => hx h

end Within

end Tx

end RowStore
