import S3Orchestrator.Counter.Field
import Mathlib.Data.List.Perm.Lattice

/-!
# Flushing shared usage

Instances charge one hash per backend, stage it under a fresh flush id, read what is staged, apply
it to the store with that id and delete it. Any of them may read a staged hash, and any may stop
between two steps.

* **`shared_usage_once`**.
-/

namespace S3Orchestrator

open RowStore List

/-! ## State -/

/-- What became of a staged hash. -/
inductive HashStatus
  | present
  | deleted
  | expired
  deriving DecidableEq

/-- A hash staged for a flush: what it was charged, whether it is still there, and how often the
store added it. -/
structure StagedHash where
  backend : String
  id : String
  hash : List Booked
  status : HashStatus := .present
  applied : Nat := 0

def StagedHash.remove (e : StagedHash) (status : HashStatus) : StagedHash :=
  if e.status = .present then { e with status := status } else e

/-- A staged hash that an instance has read. -/
structure HeldBatch where
  holder : Nat
  backend : String
  id : String
  buckets : List (BucketKey × Usage)
  applied : Bool := false

/-- The shared counters, what instances have read of them, and the store. `live` are the charges in
the live hashes, `expired` those whose hash expired, `stored` those in the store's buckets, `pruned`
those whose bucket it dropped, and `made` counts the charges. -/
structure SharedUsage where
  keyPrefix : String
  backends : List String
  live : List Booked := []
  expired : List Booked := []
  staged : List StagedHash := []
  held : List HeldBatch := []
  flushes : List (String × Time) := []
  totals : BucketKey → Cell → Int := fun _ _ => 0
  stored : List Booked := []
  pruned : List Booked := []
  made : Nat := 0

/-- How long the record of a flush is kept: forty days, in seconds. -/
def usageFlushRetention : Time := 3456000

/-- How long a bucket is kept: a hundred days, in seconds. -/
def usageRetention : Time := 8640000

/-- A command of one instance. One that is not `ok` failed and had no effect. -/
inductive SharedEvent
  | charge (backend : String) (bucket : Time) (c : Charge) (ok : Bool)
  | stage (backend flushID : String) (ok : Bool)
  | read (holder : Nat) (backend flushID : String) (ok : Bool)
  | apply (batch : Nat) (now : Time) (ok : Bool)
  | unstage (batch : Nat) (ok : Bool)
  | crash (holder : Nat)
  | expireLive (backend : String)
  | expireStaged (backend flushID : String)

namespace SharedUsage

def update (s : SharedUsage) (backend flushID : String) (f : StagedHash → StagedHash) :
    List StagedHash :=
  s.staged.map fun e => if e.backend = backend ∧ e.id = flushID then f e else e

/-- The record of the flush is pruned. -/
def outdated (now : Time) (f : String × Time) : Bool := decide (f.2 + usageFlushRetention < now)

/-- `pruneUsageBuckets`: the bucket is dropped with a batch of this backend. -/
def drops (backend : String) (now : Time) (k : BucketKey) : Bool :=
  decide (k.backend = backend ∧ k.bucket + usageRetention < now)

/-- What is staged under the id for the backend. -/
def hashOf (s : SharedUsage) (backend flushID : String) : List Booked :=
  (s.staged.filter fun e => decide (e.backend = backend ∧ e.id = flushID)).flatMap StagedHash.hash

/-- A charge, in one transaction on the live hash. One that fails, is empty or is not counted leaves
no trace. -/
def stepCharge (s : SharedUsage) (backend : String) (bucket : Time) (c : Charge) (ok : Bool) :
    SharedUsage :=
  if ok = false ∨ c.empty = true ∨ backend ∉ s.backends then s
  else { s with live := s.live ++ [⟨s.made, backend, bucket, c⟩], made := s.made + 1 }

/-- Renames the live hash of a backend to one of its own for the flush. -/
def stepStage (s : SharedUsage) (backend flushID : String) (ok : Bool) : SharedUsage :=
  let hash := s.live.filter fun b => decide (b.backend = backend)
  if ok = false ∨ backend ∉ s.backends ∨ hash = [] then s
  else
    { s with
      live := s.live.filter fun b => !decide (b.backend = backend)
      staged := s.staged ++ [{ backend := backend, id := flushID, hash := hash }] }

/-- Reads a staged hash into the memory of an instance. -/
def stepRead (s : SharedUsage) (holder : Nat) (backend flushID : String) (ok : Bool) :
    SharedUsage :=
  match s.staged.find? fun e => decide (e.backend = backend ∧ e.id = flushID),
      parseStagedKey s.keyPrefix (stagedKey s.keyPrefix backend flushID) with
  | some e, some (b, id) =>
    if ok = false ∨ e.status ≠ .present then s
    else
      { s with
        held := s.held ++ [⟨holder, b, id, readFields b (hashFields e.hash).rows, false⟩] }
  | _, _ => s

/-- The store's transaction: a recorded id is left alone; a fresh one is recorded, old records are
pruned, the batch is added, and the backend's old buckets are dropped. -/
def applyUsageBatch (s : SharedUsage) (b : HeldBatch) (now : Time) : SharedUsage :=
  if b.id ∈ s.flushes.map Prod.fst then s
  else
    { s with
      flushes := (s.flushes ++ [(b.id, now)]).filter fun f => !outdated now f
      totals := fun k cell =>
        if drops b.backend now k then 0 else s.totals k cell + usageIn b.buckets k cell
      stored := (s.stored ++ s.hashOf b.backend b.id).filter fun c => !drops b.backend now c.key
      pruned :=
        s.pruned ++ (s.stored ++ s.hashOf b.backend b.id).filter fun c => drops b.backend now c.key
      staged := s.update b.backend b.id fun e => { e with applied := e.applied + 1 } }

def step (s : SharedUsage) : SharedEvent → SharedUsage
  | .charge backend bucket c ok => s.stepCharge backend bucket c ok
  | .stage backend flushID ok => s.stepStage backend flushID ok
  | .read holder backend flushID ok => s.stepRead holder backend flushID ok
  | .apply j now ok =>
    match s.held[j]? with
    | none => s
    | some b =>
      if b.applied then s
      else if ok then
        { s.applyUsageBatch b now with held := s.held.set j { b with applied := true } }
      else { s with held := s.held.eraseIdx j }
  | .unstage j ok =>
    match s.held[j]? with
    | none => s
    | some b =>
      if b.applied then
        { s with
          held := s.held.eraseIdx j
          staged := s.update b.backend b.id fun e => if ok then e.remove .deleted else e }
      else s
  | .crash holder => { s with held := s.held.filter fun b => decide (b.holder ≠ holder) }
  | .expireLive backend =>
    { s with
      live := s.live.filter fun b => !decide (b.backend = backend)
      expired := s.expired ++ s.live.filter fun b => decide (b.backend = backend) }
  | .expireStaged backend flushID =>
    { s with staged := s.update backend flushID fun e => e.remove .expired }

/-! ## Assumptions -/

/-- Workloads are the fixed names of the audit log, times are `int64`s, and backends have names. A
flush id is fresh and has no colon, and a record that is pruned is of a staged hash that is gone. -/
def Assumed (s : SharedUsage) : SharedEvent → Prop
  | .charge backend bucket c _ =>
    backend.toList ≠ [] ∧ bucket < int64End ∧ ':' ∉ c.workload.toList
  | .stage _ flushID _ =>
    flushID.toList ≠ [] ∧ ':' ∉ flushID.toList ∧ flushID ∉ s.staged.map StagedHash.id
  | .apply _ now _ =>
    ∀ f ∈ s.flushes, outdated now f = true →
      ∀ e ∈ s.staged, e.id = f.1 → e.status ≠ .present
  | _ => True

/-- No instance has read a batch and not yet applied it when the record of its flush is pruned. -/
def Settled (s : SharedUsage) : SharedEvent → Prop
  | .apply _ now _ =>
    ∀ f ∈ s.flushes, outdated now f = true → ∀ b ∈ s.held, b.id = f.1 → b.applied = true
  | _ => True

/-! ## Where charges are -/

/-- The charges staged and not yet added to the store. -/
def inStaged (s : SharedUsage) : List Booked :=
  s.staged.flatMap fun e => if e.status = .present ∧ e.applied = 0 then e.hash else []

/-- What the store has ever added, each hash as often as it was applied. -/
def added (s : SharedUsage) : List Booked :=
  s.staged.flatMap fun e => (List.replicate e.applied e.hash).flatten

/-- The charges that expired before they were added. -/
def inExpired (s : SharedUsage) : List Booked :=
  s.expired ++ s.staged.flatMap fun e =>
    if e.status = .expired ∧ e.applied = 0 then e.hash else []

/-- Every charge made is in exactly one of the places, and the totals are those of the charges in
the store. -/
def ExactlyOnce (s : SharedUsage) : Prop :=
  ((s.live ++ s.inStaged ++ (s.stored ++ s.pruned) ++ s.inExpired).map Booked.serial).Perm
      (List.range s.made) ∧
    ∀ k cell, s.totals k cell =
      sumOn (fun b => b.amount cell) (fun b => decide (b.key = k)) s.stored

/-! ## The invariant -/

/-- The batch was read from a staged hash. -/
def HeldFrom (staged : List StagedHash) (b : HeldBatch) : Prop :=
  ∃ e ∈ staged, e.backend = b.backend ∧ e.id = b.id ∧
    b.buckets = readFields e.backend (hashFields e.hash).rows ∧ (b.applied = true → e.applied ≠ 0)

/-- Applied once, and recorded while the hash is there or a batch read from it may be applied.
Deleted only once applied. -/
def StagedOk (s : SharedUsage) (e : StagedHash) : Prop :=
  (∀ b ∈ e.hash, b.Legible ∧ b.backend = e.backend) ∧ e.backend.toList ≠ [] ∧ e.id.toList ≠ [] ∧
    ':' ∉ e.id.toList ∧ e.applied ≤ 1 ∧ (e.status = .deleted → e.applied ≠ 0) ∧
    (e.applied ≠ 0 → e.id ∈ s.flushes.map Prod.fst ∨
      e.status ≠ .present ∧ ∀ b ∈ s.held, b.id = e.id → b.applied = true)

/-- What every event keeps. -/
structure Sound (s : SharedUsage) : Prop where
  serials : ((s.live ++ s.expired ++ s.staged.flatMap StagedHash.hash).map Booked.serial).Perm
    (List.range s.made)
  legible : ∀ b ∈ s.live, b.Legible ∧ b.backend.toList ≠ []
  ids : (s.staged.map StagedHash.id).Nodup
  staged : ∀ e ∈ s.staged, s.StagedOk e
  held : ∀ b ∈ s.held, HeldFrom s.staged b
  flushes : ∀ f ∈ s.flushes, ∃ e ∈ s.staged, e.id = f.1 ∧ e.applied ≠ 0
  added : (s.stored ++ s.pruned).Perm s.added
  totals : ∀ k cell, s.totals k cell =
    sumOn (fun b => b.amount cell) (fun b => decide (b.key = k)) s.stored

/-! ## Staged hashes -/

section Staged

variable {s : SharedUsage} {backend flushID : String} {f : StagedHash → StagedHash}

/-- The change of a staged hash keeps its name, its fields and that it was applied. -/
def Keeps (f : StagedHash → StagedHash) : Prop :=
  ∀ e, (f e).backend = e.backend ∧ (f e).id = e.id ∧ (f e).hash = e.hash ∧
    (e.applied ≠ 0 → (f e).applied ≠ 0)

theorem keeps_remove (status : HashStatus) : Keeps fun e => e.remove status := by
  intro e
  dsimp only [StagedHash.remove]
  split_ifs <;> exact ⟨rfl, rfl, rfl, fun h => h⟩

theorem keeps_unstage (ok : Bool) : Keeps fun e => if ok then e.remove .deleted else e := by
  intro e
  cases ok with
  | true => exact keeps_remove .deleted e
  | false => exact ⟨rfl, rfl, rfl, fun h => h⟩

theorem keeps_apply : Keeps fun e => { e with applied := e.applied + 1 } :=
  fun _ => ⟨rfl, rfl, rfl, fun _ => Nat.succ_ne_zero _⟩

theorem Keeps.guard (h : Keeps f) :
    Keeps fun e => if e.backend = backend ∧ e.id = flushID then f e else e := by
  intro e
  dsimp only
  split_ifs
  · exact h e
  · exact ⟨rfl, rfl, rfl, fun h => h⟩

theorem map_id_update (h : Keeps f) :
    (s.update backend flushID f).map StagedHash.id = s.staged.map StagedHash.id := by
  rw [update, map_map]
  exact map_congr_left fun e _ => (h.guard e).2.1

theorem flatMap_hash_update (h : Keeps f) :
    (s.update backend flushID f).flatMap StagedHash.hash = s.staged.flatMap StagedHash.hash := by
  rw [update, flatMap_map]
  exact flatMap_congr fun e _ => (h.guard e).2.2.1

variable {e : StagedHash}

theorem exists_mem_update (h : Keeps f) (he : e ∈ s.staged) :
    ∃ e' ∈ s.update backend flushID f, e'.backend = e.backend ∧ e'.id = e.id ∧ e'.hash = e.hash ∧
      (e.applied ≠ 0 → e'.applied ≠ 0) :=
  ⟨_, mem_map_of_mem he, h.guard e⟩

theorem HeldFrom.update (h : Keeps f) {b : HeldBatch} (hb : HeldFrom s.staged b) :
    HeldFrom (s.update backend flushID f) b := by
  obtain ⟨e, he, hbackend, hid, hbuckets, happlied⟩ := hb
  obtain ⟨e', he', hbackend', hid', hhash', happlied'⟩ := exists_mem_update h he
  refine ⟨e', he', hbackend'.trans hbackend, hid'.trans hid, ?_, fun ha => happlied' (happlied ha)⟩
  rw [hbuckets, hbackend', hhash']

theorem Sound.eq_of_id (h : s.Sound) {e e' : StagedHash} (he : e ∈ s.staged) (he' : e' ∈ s.staged)
    (hid : e.id = e'.id) : e = e' := List.inj_on_of_nodup_map h.ids he he' hid

theorem Sound.update_eq (h : s.Sound) (he : e ∈ s.staged) (f : StagedHash → StagedHash) :
    ∃ front rest, s.staged = front ++ e :: rest ∧
      s.update e.backend e.id f = front ++ f e :: rest := by
  obtain ⟨front, rest, hsplit⟩ := append_of_mem he
  have hids := h.ids
  rw [hsplit, map_append, map_cons, nodup_append, nodup_cons] at hids
  have hsame : ∀ l : List StagedHash, e.id ∉ l.map StagedHash.id →
      l.map (fun x => if x.backend = e.backend ∧ x.id = e.id then f x else x) = l := fun l hl =>
    (map_congr_left fun x hx => if_neg fun hkey : x.backend = e.backend ∧ x.id = e.id =>
      hl (hkey.2 ▸ mem_map_of_mem hx)).trans (map_id l)
  refine ⟨front, rest, hsplit, ?_⟩
  rw [update, hsplit, map_append, map_cons, if_pos ⟨rfl, rfl⟩, hsame rest hids.2.1.1,
    hsame front fun hin => hids.2.2 _ hin _ mem_cons_self rfl]

/-- What is staged stays in order if what is recorded, or read and not applied, does. -/
theorem StagedOk.mono {s' : SharedUsage} (h : s.StagedOk e) (hflushes : s'.flushes = s.flushes)
    (hheld : e.status ≠ .present → (∀ b ∈ s.held, b.id = e.id → b.applied = true) →
      ∀ b ∈ s'.held, b.id = e.id → b.applied = true) :
    s'.StagedOk e := by
  obtain ⟨h1, h2, h3, h4, h5, h6, h7⟩ := h
  exact ⟨h1, h2, h3, h4, h5, h6, fun ha => (h7 ha).imp (fun hin => hflushes ▸ hin) fun hg =>
    ⟨hg.1, hheld hg.1 hg.2⟩⟩

end Staged

/-! ## Every step keeps the invariant -/

section Steps

variable {s : SharedUsage} {b : HeldBatch} {e : StagedHash} {ok : Bool} {j : Nat}

theorem pruned_perm (stored pruned hash : List Booked) (p : Booked → Bool) :
    ((stored ++ pruned) ++ hash).Perm (((stored ++ hash).filter fun c => !p c) ++
      (pruned ++ (stored ++ hash).filter p)) := by
  classical
  refine perm_iff_count.mpr fun c => ?_
  have hsplit := (filter_append_perm p (stored ++ hash)).count_eq c
  simp only [count_append] at hsplit ⊢
  omega

theorem move_to_end (a b c d : List Booked) : (a ++ d ++ b ++ c).Perm (a ++ b ++ (c ++ d)) := by
  classical
  simp only [perm_iff_count, count_append]
  omega

theorem Sound.stepCharge (h : s.Sound) {backend : String} {bucket : Time} {c : Charge}
    (ha : s.Assumed (.charge backend bucket c ok)) : (s.stepCharge backend bucket c ok).Sound := by
  unfold SharedUsage.stepCharge
  split_ifs
  · exact h
  refine ⟨?_, fun b hb => ?_, h.ids, h.staged, h.held, h.flushes, h.added, h.totals⟩
  · refine ((move_to_end _ _ _ _).map _).trans ?_
    rw [← append_assoc, map_append, range_succ]
    exact h.serials.append_right _
  · rcases mem_append.mp hb with hold | hnew
    · exact h.legible b hold
    · rw [mem_singleton.mp hnew]
      exact ⟨⟨ha.2.1, ha.2.2⟩, ha.1⟩

theorem filter_backend_perm (live : List Booked) (backend : String) :
    ((live.filter fun b => !decide (b.backend = backend)) ++
      live.filter fun b => decide (b.backend = backend)).Perm live :=
  perm_append_comm.trans (filter_append_perm _ live)

variable {backend flushID : String}

theorem Sound.stepStage (h : s.Sound) (ha : s.Assumed (.stage backend flushID ok)) :
    (s.stepStage backend flushID ok).Sound := by
  unfold SharedUsage.stepStage
  dsimp only
  split_ifs with hskip
  · exact h
  push Not at hskip
  obtain ⟨-, -, hne⟩ := hskip
  have hmine : ∀ b ∈ s.live.filter fun b => decide (b.backend = backend),
      b.Legible ∧ b.backend = backend := fun b hb =>
    ⟨(h.legible b (mem_filter.mp hb).1).1, of_decide_eq_true (mem_filter.mp hb).2⟩
  refine ⟨?_, fun b hb => h.legible b (mem_filter.mp hb).1, ?_, fun e he => ?_, fun b hb => ?_,
    fun f hf => ?_, ?_, h.totals⟩
  · refine List.Perm.trans (List.Perm.map _ ?_) h.serials
    rw [flatMap_append, flatMap_singleton]
    refine (move_to_end _ _ _ _).symm.trans ?_
    rw [append_assoc, append_assoc s.live]
    exact (filter_backend_perm s.live backend).append_right _
  · rw [map_append]
    exact h.ids.append (nodup_singleton _) (by simpa using ha.2.2)
  · rcases mem_append.mp he with hold | hnew
    · exact h.staged e hold
    · rw [mem_singleton.mp hnew]
      obtain ⟨b, hb⟩ := exists_mem_of_ne_nil _ hne
      have hbackend : backend.toList ≠ [] := by
        rw [← (hmine b hb).2]
        exact (h.legible b (mem_filter.mp hb).1).2
      exact ⟨hmine, hbackend, ha.1, ha.2.1, Nat.zero_le _, (fun hdel => by cases hdel),
        fun hz => absurd rfl hz⟩
  · obtain ⟨e, he, hrest⟩ := h.held b hb
    exact ⟨e, mem_append_left _ he, hrest⟩
  · obtain ⟨e, he, hid⟩ := h.flushes f hf
    exact ⟨e, mem_append_left _ he, hid⟩
  · simpa [SharedUsage.added] using h.added

theorem Sound.stepRead (h : s.Sound) (holder : Nat) (backend flushID : String) (ok : Bool) :
    (s.stepRead holder backend flushID ok).Sound := by
  unfold SharedUsage.stepRead
  split
  next e b id hfind hparse =>
    split_ifs with hskip
    · exact h
    push Not at hskip
    have hmem : e ∈ s.staged := mem_of_find?_eq_some hfind
    obtain ⟨hbackend, hid⟩ : e.backend = backend ∧ e.id = flushID := by
      simpa using find?_some hfind
    obtain ⟨hlegible, hb, hf, hcolon, hrest⟩ := h.staged e hmem
    rw [← hbackend, ← hid, parseStagedKey_stagedKey s.keyPrefix hb hf hcolon] at hparse
    obtain ⟨rfl, rfl⟩ := Prod.mk.inj (Option.some.inj hparse)
    refine ⟨h.serials, h.legible, h.ids, fun e' he' => ?_, fun b hb' => ?_, h.flushes, h.added,
      h.totals⟩
    · refine (h.staged e' he').mono rfl fun hgone hall b hb' hsame => ?_
      rcases mem_append.mp hb' with hold | hnew
      · exact hall b hold hsame
      · rw [mem_singleton.mp hnew] at hsame
        exact absurd (h.eq_of_id he' hmem hsame.symm ▸ hskip.2) hgone
    · rcases mem_append.mp hb' with hold | hnew
      · exact h.held b hold
      · rw [mem_singleton.mp hnew]
        exact ⟨e, hmem, rfl, rfl, rfl, fun ha => absurd ha Bool.false_ne_true⟩
  next => exact h

variable {f : StagedHash → StagedHash}

theorem Sound.recorded_update (h : s.Sound) (hkeep : Keeps f) {r : String × Time}
    (hr : r ∈ s.flushes) : ∃ e ∈ s.update backend flushID f, e.id = r.1 ∧ e.applied ≠ 0 := by
  obtain ⟨e, he, hid, ha⟩ := h.flushes r hr
  obtain ⟨e', he', -, hid', -, ha'⟩ := exists_mem_update hkeep he
  exact ⟨e', he', hid'.trans hid, ha' ha⟩

theorem Sound.removeStaged (h : s.Sound) {held' : List HeldBatch} (hkeep : Keeps f)
    (happ : ∀ e, (f e).applied = e.applied)
    (hpres : ∀ e, (f e).status = .present → e.status = .present)
    (hdel : ∀ e ∈ s.staged, e.backend = backend ∧ e.id = flushID → (f e).status = .deleted →
      e.applied ≠ 0)
    (hheld : ∀ b ∈ held', b ∈ s.held) :
    Sound { s with staged := s.update backend flushID f, held := held' } := by
  refine ⟨?_, h.legible, ?_, fun e' he' => ?_, fun b hb => (h.held b (hheld b hb)).update hkeep,
    fun r hr => h.recorded_update hkeep hr, ?_, h.totals⟩
  · dsimp only
    rw [flatMap_hash_update hkeep]
    exact h.serials
  · dsimp only
    rw [map_id_update hkeep]
    exact h.ids
  · obtain ⟨e, he, rfl⟩ := mem_map.mp he'
    have hok := h.staged e he
    by_cases hkey : e.backend = backend ∧ e.id = flushID
    · obtain ⟨h1, h2, h3, h4, h5, h6, h7⟩ := hok
      obtain ⟨hb, hid, hh, -⟩ := hkeep e
      simp only [if_pos hkey]
      unfold StagedOk
      rw [hb, hid, hh, happ]
      exact ⟨h1, h2, h3, h4, h5, hdel e he hkey, fun ha => (h7 ha).imp_right fun hg =>
        ⟨fun hp => hg.1 (hpres e hp), fun b hb => hg.2 b (hheld b hb)⟩⟩
    · simp only [if_neg hkey]
      exact hok.mono rfl fun _ hall b hb => hall b (hheld b hb)
  · have hstore : SharedUsage.added { s with
        staged := s.update backend flushID f, held := held' } = s.added := by
      simp only [SharedUsage.added, update, flatMap_map]
      refine flatMap_congr fun e _ => ?_
      by_cases hkey : e.backend = backend ∧ e.id = flushID
      · simp only [if_pos hkey, happ, (hkeep e).2.2.1]
      · simp only [if_neg hkey]
    rw [hstore]
    exact h.added

theorem mem_set_held {b : HeldBatch} {id : String}
    (hall : ∀ b' ∈ s.held, b'.id = id → b'.applied = true) :
    ∀ b' ∈ s.held.set j { b with applied := true }, b'.id = id → b'.applied = true := by
  intro b' hb' hsame
  rcases mem_or_eq_of_mem_set hb' with hold | rfl
  · exact hall b' hold hsame
  · rfl

section

variable (h : s.Sound)
include h

theorem Sound.applyRecorded (hb : s.held[j]? = some b) (hrec : b.id ∈ s.flushes.map Prod.fst) :
    Sound { s with held := s.held.set j { b with applied := true } } := by
  obtain ⟨e, he, hbackend, hid, hbuckets, -⟩ := h.held b (mem_of_getElem? hb)
  refine ⟨h.serials, h.legible, h.ids, fun e' he' =>
    (h.staged e' he').mono rfl fun _ => mem_set_held, fun b' hb' => ?_, h.flushes, h.added,
    h.totals⟩
  rcases mem_or_eq_of_mem_set hb' with hold | rfl
  · exact h.held b' hold
  · refine ⟨e, he, hbackend, hid, hbuckets, fun _ => ?_⟩
    obtain ⟨f, hf, hfid⟩ := mem_map.mp hrec
    obtain ⟨e', he', hid', ha'⟩ := h.flushes f hf
    rwa [h.eq_of_id he he' (by rw [hid, hid', hfid])]

theorem Sound.fresh (hb : b ∈ s.held) (hnot : b.applied = false)
    (hrec : b.id ∉ s.flushes.map Prod.fst) (he : e ∈ s.staged) (hid : e.id = b.id) :
    e.applied = 0 := by
  by_contra ha
  obtain ⟨-, -, -, -, -, -, h7⟩ := h.staged e he
  rcases h7 ha with hin | ⟨-, hgone⟩
  · exact hrec (hid ▸ hin)
  · rw [hgone b hb hid.symm] at hnot
    cases hnot

theorem Sound.hashOf_eq (he : e ∈ s.staged) : s.hashOf e.backend e.id = e.hash := by
  have hmine : (s.staged.filter fun e' => decide (e'.backend = e.backend ∧ e'.id = e.id)) =
      [e] := by
    obtain ⟨front, rest, hsplit⟩ := append_of_mem he
    have hids := h.ids
    rw [hsplit, map_append, map_cons, nodup_append, nodup_cons] at hids
    have hnone : ∀ l : List StagedHash, e.id ∉ l.map StagedHash.id →
        l.filter (fun e' => decide (e'.backend = e.backend ∧ e'.id = e.id)) = [] := fun l hl =>
      filter_eq_nil_iff.mpr fun e' he' hkey =>
        hl ((of_decide_eq_true hkey).2 ▸ mem_map_of_mem he')
    rw [hsplit, filter_append, filter_cons_of_pos (by simp), hnone rest hids.2.1.1,
      hnone front fun hin => hids.2.2 _ hin _ mem_cons_self rfl]
    rfl
  rw [hashOf, hmine, flatMap_singleton]

theorem Sound.added_apply (he : e ∈ s.staged) :
    ((s.update e.backend e.id fun e => { e with applied := e.applied + 1 }).flatMap
      fun e => (List.replicate e.applied e.hash).flatten).Perm (s.added ++ e.hash) := by
  classical
  obtain ⟨front, rest, hsplit, hupdate⟩ :=
    h.update_eq he fun e => { e with applied := e.applied + 1 }
  rw [SharedUsage.added, hupdate, hsplit]
  simp only [flatMap_append, flatMap_cons, replicate_succ, flatten_cons, perm_iff_count,
    count_append]
  omega

theorem Sound.totals_apply (he : e ∈ s.staged)
    (hbuckets : b.buckets = readFields e.backend (hashFields e.hash).rows) (now : Time)
    (k : BucketKey) (cell : Cell) :
    (if drops e.backend now k then 0 else s.totals k cell + usageIn b.buckets k cell) =
      sumOn (fun b => b.amount cell) (fun b => decide (b.key = k))
        ((s.stored ++ s.hashOf e.backend e.id).filter fun c => !drops e.backend now c.key) := by
  rw [sumOn_filter, h.hashOf_eq he]
  cases hdrops : drops e.backend now k with
  | true =>
    have hnone : ∀ c : Booked, (decide (c.key = k) && !drops e.backend now c.key) = false := by
      intro c
      by_cases hkey : c.key = k
      · simp [hkey, hdrops]
      · simp [hkey]
    simp [sumOn, hnone]
  | false =>
    have hall : ∀ c : Booked, (decide (c.key = k) && !drops e.backend now c.key) =
        decide (c.key = k) := by
      intro c
      by_cases hkey : c.key = k
      · simp [hkey, hdrops]
      · simp [hkey]
    simp only [hall, Bool.false_eq_true, if_false, sumOn_append]
    rw [h.totals, hbuckets, usageIn_readFields (h.staged e he).1]

theorem Sound.applyFresh {now : Time} (hassumed : s.Assumed (.apply j now ok))
    (hsettled : s.Settled (.apply j now ok)) (hb : s.held[j]? = some b) (hnot : b.applied = false)
    (hrec : b.id ∉ s.flushes.map Prod.fst) :
    Sound { s.applyUsageBatch b now with held := s.held.set j { b with applied := true } } := by
  have hmem := mem_of_getElem? hb
  obtain ⟨e, he, hbackend, hid, hbuckets, -⟩ := h.held b hmem
  have hnow : (b.id, now) ∈ (s.flushes ++ [(b.id, now)]).filter fun f => !outdated now f :=
    mem_filter.mpr ⟨mem_append_right _ mem_cons_self, by simp [outdated]⟩
  have happlied : ∃ e' ∈ s.update b.backend b.id fun e => { e with applied := e.applied + 1 },
      e'.backend = e.backend ∧ e'.id = e.id ∧ e'.hash = e.hash ∧ e'.applied ≠ 0 := by
    refine ⟨_, mem_map_of_mem he, ?_⟩
    rw [if_pos ⟨hbackend, hid⟩]
    exact ⟨rfl, rfl, rfl, Nat.succ_ne_zero _⟩
  unfold applyUsageBatch
  rw [if_neg hrec]
  refine ⟨?_, h.legible, ?_, fun e' he' => ?_, fun b' hb' => ?_, fun f hf => ?_, ?_, ?_⟩
  · dsimp only
    rw [flatMap_hash_update keeps_apply]
    exact h.serials
  · dsimp only
    rw [map_id_update keeps_apply]
    exact h.ids
  · obtain ⟨e1, he1, rfl⟩ := mem_map.mp he'
    obtain ⟨h1, h2, h3, h4, h5, h6, h7⟩ := h.staged e1 he1
    by_cases hkey : e1.backend = b.backend ∧ e1.id = b.id
    · rw [if_pos hkey]
      have hone : e1.applied = 0 := h.fresh hmem hnot hrec he1 hkey.2
      refine ⟨h1, h2, h3, h4, ?_, fun _ => Nat.succ_ne_zero _, fun _ => .inl ?_⟩
      · dsimp only
        omega
      · dsimp only
        rw [hkey.2]
        exact mem_map_of_mem (f := Prod.fst) hnow
    · rw [if_neg hkey]
      refine ⟨h1, h2, h3, h4, h5, h6, fun ha => ?_⟩
      rcases h7 ha with hin | hgone
      · -- The record is kept, or it was pruned after the hash was gone and its batches applied.
        obtain ⟨f, hf, hfid⟩ := mem_map.mp hin
        cases hout : outdated now f with
        | true => exact .inr ⟨hassumed f hf hout e1 he1 hfid.symm, mem_set_held fun b' hb' hsame =>
            hsettled f hf hout b' hb' (hsame.trans hfid.symm)⟩
        | false => exact .inl (hfid ▸ mem_map_of_mem (f := Prod.fst)
            (mem_filter.mpr ⟨mem_append_left _ hf, by rw [hout]; rfl⟩))
      · exact .inr ⟨hgone.1, mem_set_held hgone.2⟩
  · rcases mem_or_eq_of_mem_set hb' with hold | rfl
    · exact (h.held b' hold).update keeps_apply
    · obtain ⟨e', he', hbackend', hid', hhash', ha'⟩ := happlied
      refine ⟨e', he', hbackend'.trans hbackend, hid'.trans hid, ?_, fun _ => ha'⟩
      rw [hbackend', hhash']
      exact hbuckets
  · rcases mem_append.mp (mem_filter.mp hf).1 with hold | hnew
    · exact h.recorded_update keeps_apply hold
    · obtain ⟨e', he', -, hid', -, ha'⟩ := happlied
      rw [mem_singleton.mp hnew]
      exact ⟨e', he', hid'.trans hid, ha'⟩
  · dsimp only
    rw [← hbackend, ← hid, h.hashOf_eq he]
    refine List.Perm.trans ?_ (h.added_apply he).symm
    refine List.Perm.trans ?_ (h.added.append_right e.hash)
    exact (pruned_perm _ _ _ _).symm
  · dsimp only
    rw [← hbackend, ← hid]
    exact h.totals_apply he hbuckets now

theorem Sound.dropHeld {held' : List HeldBatch} (hheld : ∀ b ∈ held', b ∈ s.held) :
    Sound { s with held := held' } :=
  ⟨h.serials, h.legible, h.ids, fun e he => (h.staged e he).mono rfl fun _ hall b hb =>
    hall b (hheld b hb), fun b hb => h.held b (hheld b hb), h.flushes, h.added, h.totals⟩

theorem Sound.step {e : SharedEvent} (ha : s.Assumed e) (hs : s.Settled e) : (s.step e).Sound := by
  cases e with
  | charge backend bucket c ok => exact h.stepCharge ha
  | stage backend flushID ok => exact h.stepStage ha
  | read holder backend flushID ok => exact h.stepRead holder backend flushID ok
  | apply j now ok =>
    rw [SharedUsage.step]
    split
    next => exact h
    next b hb =>
      split_ifs with happlied hok
      · exact h
      · have hnot : b.applied = false := by simpa using happlied
        by_cases hrec : b.id ∈ s.flushes.map Prod.fst
        · rw [applyUsageBatch, if_pos hrec]
          exact h.applyRecorded hb hrec
        · exact h.applyFresh ha hs hb hnot hrec
      · exact h.dropHeld fun b' hb' => mem_of_mem_eraseIdx hb'
  | unstage j ok =>
    rw [SharedUsage.step]
    split
    next => exact h
    next b hb =>
      split
      next happlied =>
        obtain ⟨e, he, hbackend, hid, -, hone⟩ := h.held b (mem_of_getElem? hb)
        refine h.removeStaged (keeps_unstage ok) (fun e' => ?_) (fun e' hp => ?_)
          (fun e' he' hkey _ => ?_) fun b' hb' => mem_of_mem_eraseIdx hb'
        · cases ok <;> simp only [StagedHash.remove] <;> split_ifs <;> rfl
        · by_contra hne
          cases ok <;> simp [StagedHash.remove, hne] at hp
        · rw [h.eq_of_id he' he (hkey.2.trans hid.symm)]
          exact hone happlied
      next => exact h
  | crash holder => exact h.dropHeld fun b hb => (mem_filter.mp hb).1
  | expireLive backend =>
    refine ⟨?_, fun b hb => h.legible b (mem_filter.mp hb).1, h.ids, h.staged, h.held,
      h.flushes, h.added, h.totals⟩
    refine List.Perm.trans (List.Perm.map _ ?_) h.serials
    refine List.Perm.append_right _ ?_
    refine List.Perm.trans ?_ ((filter_backend_perm s.live backend).append_right s.expired)
    rw [append_assoc]
    exact List.Perm.append_left _ perm_append_comm
  | expireStaged backend flushID =>
    refine h.removeStaged (keeps_remove .expired) (fun e => ?_) (fun e hp => ?_)
      (fun e he _ hdel => ?_) fun b hb => hb
    · simp only [StagedHash.remove]
      split_ifs <;> rfl
    · by_contra hne
      simp [StagedHash.remove, hne] at hp
    · unfold StagedHash.remove at hdel
      split_ifs at hdel with hp
      · exact (h.staged e he).2.2.2.2.2.1 hdel

end

/-! ## Every charge in one place -/

theorem one_place (h : s.StagedOk e) :
    (if e.status = .present ∧ e.applied = 0 then e.hash else []) ++
      ((List.replicate e.applied e.hash).flatten ++
        if e.status = .expired ∧ e.applied = 0 then e.hash else []) = e.hash := by
  obtain ⟨-, -, -, -, hle, hdel, -⟩ := h
  obtain hzero | hone : e.applied = 0 ∨ e.applied = 1 := by omega
  · cases hst : e.status with
    | present => simp [hzero]
    | deleted => exact absurd hzero (hdel hst)
    | expired => simp [hzero]
  · simp [hone]

theorem Sound.exactlyOnce (h : s.Sound) : s.ExactlyOnce := by
  refine ⟨List.Perm.trans (List.Perm.map _ ?_) h.serials, h.totals⟩
  have hplaces : (s.inStaged ++ (s.added ++ s.staged.flatMap fun e =>
      if e.status = .expired ∧ e.applied = 0 then e.hash else [])).Perm
      (s.staged.flatMap StagedHash.hash) := by
    refine ((List.Perm.append_left _ (flatMap_append_perm _ _ _)).trans
      (flatMap_append_perm _ _ _)).trans (List.Perm.of_eq ?_)
    exact flatMap_congr fun e he => one_place (h.staged e he)
  have hmove : ∀ a b c d e : List Booked,
      (a ++ b ++ c ++ (d ++ e)).Perm (a ++ d ++ (b ++ (c ++ e))) := by
    classical
    simp only [perm_iff_count, count_append]
    omega
  refine (((h.added.append_left _).append_right _).trans (hmove _ _ _ _ _)).trans ?_
  exact List.Perm.append_left _ hplaces

end Steps

end SharedUsage

/-! ## Runs -/

def SharedUsage.start (keyPrefix : String) (backends : List String) : SharedUsage where
  keyPrefix := keyPrefix
  backends := backends

theorem SharedUsage.sound_start (keyPrefix : String) (backends : List String) :
    (SharedUsage.start keyPrefix backends).Sound where
  serials := List.Perm.refl _
  legible := fun _ hb => by cases hb
  ids := List.nodup_nil
  staged := fun _ he => by cases he
  held := fun _ hb => by cases hb
  flushes := fun _ hf => by cases hf
  added := List.Perm.refl _
  totals := fun _ _ => rfl

/-- **Shared usage is flushed exactly once**, in every run in which no instance holds a batch, not
yet applied, whose record is pruned: every charge is in exactly one of the places, and the store
counts those it was given once. -/
theorem shared_usage_once (keyPrefix : String) (backends : List String) (run : List SharedEvent)
    (hassumed : Along SharedUsage.step SharedUsage.Assumed (.start keyPrefix backends) run)
    (hsettled : Along SharedUsage.step SharedUsage.Settled (.start keyPrefix backends) run) :
    (after SharedUsage.step (.start keyPrefix backends) run).ExactlyOnce := by
  have hboth : Along SharedUsage.step (fun s e => s.Assumed e ∧ s.Settled e)
      (.start keyPrefix backends) run := along_and hassumed hsettled
  exact (hboth.invariant (SharedUsage.sound_start keyPrefix backends)
    fun s e h he => h.step he.1 he.2).exactlyOnce

instance SharedUsage.decidableAssumed (s : SharedUsage) (e : SharedEvent) :
    Decidable (s.Assumed e) := by
  cases e <;> dsimp only [SharedUsage.Assumed] <;> infer_instance

instance SharedUsage.decidableSettled (s : SharedUsage) (e : SharedEvent) :
    Decidable (s.Settled e) := by
  cases e <;> dsimp only [SharedUsage.Settled] <;> infer_instance

def sharedRequest : SharedEvent := .charge "b" 0 { apiRequests := 1, workload := "client" } true

def readTwice : List SharedEvent :=
  [sharedRequest, .stage "b" "F" true, .read 0 "b" "F" true, .read 1 "b" "F" true,
    .apply 0 0 true, .apply 1 0 true, .unstage 0 true, .unstage 0 true]

/-- The request is counted once. -/
theorem readTwice_once :
    (after SharedUsage.step (.start "p" ["b"]) readTwice).ExactlyOnce ∧
      (after SharedUsage.step (.start "p" ["b"]) readTwice).totals ⟨0, "b", "client"⟩
        .requests = 1 :=
  ⟨shared_usage_once "p" ["b"] readTwice (by decide +kernel) (by decide +kernel), by decide +kernel⟩

/-- Instance 0 reads a staged hash and stalls. Instance 1 applies and deletes it, and applies
another forty days later, which prunes the record of the first. Then instance 0 goes on. -/
def stalledReader : List SharedEvent :=
  [sharedRequest, .stage "b" "F" true, .read 0 "b" "F" true, .read 1 "b" "F" true,
    .apply 1 0 true, .unstage 1 true, sharedRequest, .stage "b" "G" true, .read 1 "b" "G" true,
    .apply 1 3456001 true, .apply 0 3456001 true]

/-- A staged hash that nobody reads expires. -/
def abandonedHash : List SharedEvent := [sharedRequest, .stage "b" "F" true, .expireStaged "b" "F"]

/-- A batch comes so late that its bucket is dropped with it. -/
def lateBatch : List SharedEvent :=
  [sharedRequest, .stage "b" "F" true, .read 0 "b" "F" true, .apply 0 8640001 true]

/-- Two requests are counted as three; and one that expired with its hash, or was dropped with its
bucket, is nowhere. -/
theorem stalledReader_counts_twice :
    (Along SharedUsage.step SharedUsage.Assumed (.start "p" ["b"]) stalledReader ∧
      (after SharedUsage.step (.start "p" ["b"]) stalledReader).made = 2 ∧
      (after SharedUsage.step (.start "p" ["b"]) stalledReader).totals ⟨0, "b", "client"⟩
        .requests = 3) ∧
    ∀ run ∈ [abandonedHash, lateBatch],
      Along SharedUsage.step SharedUsage.Assumed (.start "p" ["b"]) run ∧
      (after SharedUsage.step (.start "p" ["b"]) run).made = 1 ∧
      ((after SharedUsage.step (.start "p" ["b"]) run).live ++
        (after SharedUsage.step (.start "p" ["b"]) run).inStaged ++
        (after SharedUsage.step (.start "p" ["b"]) run).stored).length = 0 := by
  decide +kernel

end S3Orchestrator
