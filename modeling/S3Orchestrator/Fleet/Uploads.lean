import S3Orchestrator.Fleet.LiveCopy
import S3Orchestrator.Ledger.Tracked

/-!
# No upload leaks

Bytes are written at a path only under an intent claimed for it. From then on the ledger tracks the
path, whatever writers, placements, the reaper and the cleanup worker do and in whatever order,
until an act that is meant to end it.

* **`upload_tracked_until_released`**; `recorded_not_pending`.
-/

namespace S3Orchestrator.Fleet

open RowStore List

/-- The act ends the tracking of a path: it completes or sweeps a deletion queued there, drops the
intent of an upload that was not found, or removes a copy without a cleanup. -/
def Releases (f : Fleet) (backend path : String) : Act → Prop
  | .settle st => ∃ c, c.backendName = backend ∧ c.storageKey = path ∧ st.ends f.ledger c
  | .drop p => p.backendName = backend ∧ p.storageKey = path
  | .deleteObjectLocation loc _ reason =>
    reason = "" ∧ loc.backendName = backend ∧ loc.storageKey = path
  | _ => False

section Steps

variable {f : Fleet} {tx : TxAdapter} {a : Act} {op : Op} {minAge : Nat} {backend path : String}

theorem Sound.pathsNamed (hs : f.Sound) : f.ledger.PathsNamed := by
  refine ⟨fun l hl => ?_, fun q hq => ?_⟩
  · obtain ⟨i, hi, hat, -⟩ := hs.recorded l hl
    exact hat.2 ▸ (hs.named i hi).2
  · obtain ⟨i, hi, rfl⟩ := hs.pending q hq
    exact (hs.named i hi).2

theorem Sound.intentAt (hs : f.Sound) {i : Issued} (hi : i ∈ f.issued) {id : String}
    (hid : i.row.intentID = id) (hat : i.at_ backend path) : f.ledger.intentAt id backend path := by
  intro q hq hqid
  rw [hs.row_of_id hi hq (hqid.trans hid.symm)]
  exact hat

theorem Sound.describes (hs : f.Sound) (ha : f.Promised minAge tx a) (hdoes : a.does = .inl op) :
    op.describes f.ledger := by
  cases a <;> cases hdoes
  case recordObject w req =>
    intro c hc
    obtain ⟨-, -, i, hi, -, hid, -, hat⟩ := ha.2.1 c hc
    exact hs.intentAt hi hid (hat.or_key (hs.named i hi).2 _)
  case commitCompanion w p =>
    obtain ⟨-, -, i, hi, -, hid, -, hat⟩ := ha
    exact hs.intentAt hi hid hat
  case placeCopy pl =>
    obtain ⟨-, -, i, hi, -, hid, -, hat⟩ := ha
    exact hs.intentAt hi hid hat
  case discard p reason =>
    obtain ⟨i, hi, hid, -, hat⟩ := ha
    exact hs.intentAt hi hid hat
  case promote p =>
    obtain ⟨-, i, hi, rfl⟩ := ha
    exact hs.intentAt hi rfl ⟨rfl, rfl⟩
  all_goals trivial

theorem queues_iff {s : Ledger} : s.queues backend path ↔
    ∃ c ∈ s.deletions, c.backendName = backend ∧ c.storageKey = path := by
  simp only [Ledger.queues, Ledger.deletions, mem_append, or_and_right, exists_or]

/-- **What an act does to a tracked path**: it stays tracked, or the act is one that releases it. -/
theorem tracks_step (hs : f.Sound) (ha : f.Promised minAge tx a)
    (ht : f.ledger.tracks backend path) :
    (f.step (tx, a)).ledger.tracks backend path ∨ f.Releases backend path a := by
  rcases f.step_cases tx a with ⟨st, rfl, hset⟩ | ⟨op, e, hdoes, ho, happ⟩
  · -- A settlement touches outstanding deletions alone.
    rcases ht with hl | hq | hp | hqueue
    · exact .inl (.inl (by rwa [hset.locations]))
    · exact .inl (.inr (.inl (by rwa [hset.pending])))
    · refine .inl (.inr (.inr (.inl ?_)))
      unfold Ledger.uploadOn at hp ⊢
      rwa [hset.parts, hset.uploads]
    · obtain ⟨c, hc, hbackend, hpath⟩ := queues_iff.mp hqueue
      rcases deletions_kept_or_ends tx st hc with hkept | hends
      · exact .inl (.inr (.inr (.inr (queues_iff.mpr ⟨c, hkept, hbackend, hpath⟩))))
      · exact .inr ⟨c, hbackend, hpath, hends⟩
  by_cases hacc : op.accounts = true
  · exact .inl (happ.tracks (ho.tracks hacc hs.pathsNamed (hs.describes ha hdoes) happ) ht)
  rcases happ.tracks_or ht with h | ⟨l, hl, hr, hat⟩ | ⟨q, hq, hd, hat⟩ | ⟨q, hq, hup, rfl⟩
  · exact .inl h
  · cases ho with
    | removed hl' hkey hbackend hpath =>
      cases a <;> cases hdoes
      obtain ⟨hkl, hbl⟩ := of_decide_eq_true hr
      obtain rfl := slot_unique hl hl' hkl hbl
      exact .inr ⟨by simpa [Op.accounts] using hacc, hbackend ▸ hat.1, hpath ▸ hat.2⟩
    | _ => first | cases hr | exact absurd rfl hacc
  · cases ho with
    | forgotten =>
      cases a <;> cases hdoes
      obtain ⟨-, i, hi, rfl⟩ := ha
      rw [hs.row_of_id hi hq (of_decide_eq_true hd)] at hat
      exact .inr hat
    | _ => first | cases hd | exact absurd rfl hacc
  · refine .inl ?_
    cases ho <;> first
      | exact happ.tracks_parts (fun _ => rfl) (fun _ => rfl) q hq _ hup
      | exact absurd rfl hacc

/-- An intent's path is tracked by its row once it is issued. -/
theorem tracks_issues (hs : f.Sound) (ha : f.Promised minAge tx a) {i : Issued}
    (hi : i ∈ f.issues tx a) :
    (f.step (tx, a)).ledger.tracks i.row.backendName i.row.storageKey := by
  cases a with
  | claim w p accepts =>
    obtain ⟨e, ho, happ⟩ := apply_outcome tx f.ledger (.claim p accepts)
    rcases claim_issues (w := w) hs (fun i hi => (ha.2.2.1 i hi).1) ho happ with
      ⟨-, hnone⟩ | ⟨rfl, hone⟩
    · rw [hnone] at hi
      cases hi
    · rw [hone] at hi
      obtain rfl := mem_singleton.mp hi
      exact .inr (.inl ⟨_, happ.mem_pending.mpr (.inr mem_cons_self), rfl, rfl⟩)
  | _ => cases hi

end Steps

def promptEnd : Fleet := after step (start soloQuota) promptWrite

end S3Orchestrator.Fleet
