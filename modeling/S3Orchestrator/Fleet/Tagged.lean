import S3Orchestrator.Fleet.Sound

/-!
# Which write the bytes at a path belong to

The tag of a path is set when its intent is claimed, and for a placement when it is committed. No
path that holds a copy or was claimed by a write is tagged again, so a recorded copy keeps its tag
as long as it is recorded.

* **`Fleet.Tagged.step`**: every lawful act keeps this.
-/

namespace S3Orchestrator

open RowStore List

namespace Fleet

/-- The tags of the bytes claimed so far. -/
structure Tagged (f : Fleet) : Prop where
  sound : f.Sound
  placedOnce : f.PlacedOnce
  writes : ∀ i ∈ f.issued, ∀ w, i.write = some w →
    f.tagOf i.row.backendName i.row.storageKey = some w
  keys : ∀ i ∈ f.issued, ∀ j ∈ f.issued, ∀ w, i.write = some w → j.write = some w →
    i.row.objectKey = j.row.objectKey
  answered : ∀ w ∈ f.answered, w ∈ f.called

/-! ## Placements -/

section Placements

variable {f : Fleet} {tx : TxAdapter} {minAge : Nat} {i : Issued} {a : Act}

theorem recorded_placement (hs : f.Sound) {op : Op} (ha : f.Promised minAge tx a)
    (hdoes : a.does = .inl op) {e : Effect} (ho : Outcome tx f.ledger op e) {l : ObjectLocation}
    (hl : l ∈ e.recorded) (hi : i ∈ f.issued) (hat : i.at_ l.backendName l.storageKey)
    (hw : i.write = none) :
    i.row.intentID ∈ a.spends := by
  obtain ⟨j, hj, _, hjat, _, hspends⟩ := (lawful_sourced hs ha hdoes ho).recorded l hl
  obtain rfl := hs.same_at hi hj hat hjat
  exact hspends hw

theorem claimed_nil {op : Op} {e : Effect} (hdoes : a.does = .inl op)
    (ho : Outcome tx f.ledger op e) (hclaim : ∀ w p accepts, a ≠ .claim w p accepts) :
    e.claimed = [] := by
  cases a with
  | claim w p accepts => exact absurd rfl (hclaim w p accepts)
  | settle st => cases hdoes
  | _ =>
    cases hdoes
    cases ho <;> rfl

theorem pending_step (ha : f.Promised minAge tx a) (hi : i ∈ f.issued)
    (hrow : i.row ∈ (f.step (tx, a)).ledger.pendingObjects.rows) :
    i.row ∈ f.ledger.pendingObjects.rows := by
  rcases f.step_cases tx a with ⟨st, rfl, hset⟩ | ⟨op, e, hdoes, ho, happ⟩
  · exact hset.pending ▸ hrow
  rcases happ.mem_pending.mp hrow with ⟨hrow, _⟩ | hnew
  · exact hrow
  · cases a with
    | claim w p accepts =>
      cases hdoes
      cases ho with
      | nothing => cases hnew
      | claimed =>
        have hid : i.row.intentID = p.intentID := by rw [mem_singleton.mp hnew]; rfl
        exact absurd hid (ha.2.2.1 i hi).1
    | _ =>
      rw [claimed_nil hdoes ho (fun _ _ _ h => by cases h)] at hnew
      cases hnew

theorem issues_of_mem (h : i ∈ f.issues tx a) : f.issues tx a = [i] ∧
      ∃ w p accepts, a = .claim w p accepts ∧ i = ⟨tx.pendingRow p, w, f.log.length⟩ := by
  cases a with
  | claim w p accepts =>
    have hissues : f.issues tx (.claim w p accepts) =
        if ((Act.claim w p accepts).apply tx f.ledger).holds p.intentID then
          [⟨tx.pendingRow p, w, f.log.length⟩] else [] := rfl
    rw [hissues] at h ⊢
    split_ifs at h ⊢
    · obtain rfl := mem_singleton.mp h
      exact ⟨rfl, w, p, accepts, rfl, rfl⟩
    · cases h
  | _ => cases h

theorem Sound.issues_pending (hs : (f.step (tx, a)).Sound) (hi : i ∈ f.issues tx a) :
    i.row ∈ (f.step (tx, a)).ledger.pendingObjects.rows := by
  have hi' : i ∈ (f.step (tx, a)).issued := mem_append_left _ hi
  obtain ⟨hissues, w, p, accepts, rfl, rfl⟩ := issues_of_mem hi
  have hheld : ((Act.claim w p accepts).apply tx f.ledger).holds p.intentID = true := by
    by_contra hnot
    have : f.issues tx (.claim w p accepts) = [] := if_neg hnot
    rw [this] at hi
    cases hi
  obtain ⟨q, hq, hid⟩ := Ledger.holds_iff.mp hheld
  rw [hs.row_of_id hi' hq hid] at hq
  exact hq

theorem issues_fresh (ha : f.Promised minAge tx a) (hi : i ∈ f.issues tx a) :
    ∀ j ∈ f.issued, ¬ j.at_ i.row.backendName i.row.storageKey := by
  obtain ⟨_, w, p, accepts, rfl, rfl⟩ := issues_of_mem hi
  exact (fresh_claim ha).paths _ mem_cons_self

theorem Sound.issues_unrecorded (hs : f.Sound) (ha : f.Promised minAge tx a)
    (hi : i ∈ f.issues tx a) : f.unrecorded i.row.backendName i.row.storageKey := by
  intro l hl hat
  obtain ⟨j, hj, hjat, _⟩ := hs.recorded l hl
  exact issues_fresh ha hi j hj ⟨hjat.1.trans hat.1.symm, hjat.2.trans hat.2.symm⟩

theorem PlacedOnce.step (hs : f.Sound) (honce : f.PlacedOnce) (ha : f.Promised minAge tx a) :
    (f.step (tx, a)).PlacedOnce := by
  rcases f.step_cases tx a with ⟨st, rfl, hset⟩ | ⟨op, e, hdoes, ho, happ⟩
  · exact fun i hi hw hspent l hl => honce i hi hw hspent l (hset.locations ▸ hl)
  intro i hi hw hspent l hl hat
  rcases mem_append.mp hi with hi | hi
  · -- A claim records nothing.
    obtain ⟨_, w, p, accepts, rfl, rfl⟩ := issues_of_mem hi
    cases hdoes
    rcases happ.mem_locations.mp hl with ⟨hl, _⟩ | hl
    · exact hs.issues_unrecorded ha hi l hl hat
    · cases ho <;> exact by cases hl
  · rcases happ.mem_locations.mp hl with ⟨hl, _⟩ | hl
    · exact honce i hi hw (fun h => hspent (mem_append_right _ h)) l hl hat
    · exact hspent (mem_append_left _ (recorded_placement hs ha hdoes ho hl hi hat hw))

end Placements

/-! ## Tags -/

section Tags

variable {f : Fleet} {tx : TxAdapter} {minAge : Nat} {a : Act} {w : WriteID}

theorem tagOf_step {backend path : String} (h : ∀ m ∈ f.marks tx a, m.1 ≠ (backend, path)) :
    (f.step (tx, a)).tagOf backend path = f.tagOf backend path := by
  change (f.marks tx a ++ f.tags).lookup (backend, path) = f.tags.lookup (backend, path)
  rw [lookup_append, lookup_eq_none_iff.mpr]
  · rfl
  · intro m hm
    simpa using fun heq => h m hm heq.symm

theorem mem_marks (ha : f.Promised minAge tx a) {m : (String × String) × WriteID}
    (hm : m ∈ f.marks tx a) :
    (∃ i ∈ f.issues tx a, i.write = some m.2 ∧ m.1 = (i.row.backendName, i.row.storageKey)) ∨
      ∃ i ∈ f.issued, i.write = none ∧ i.row.intentID ∉ f.spent ∧
        m.1 = (i.row.backendName, i.row.storageKey) := by
  cases a with
  | claim w p accepts =>
    obtain ⟨i, hi, hm⟩ := mem_filterMap.mp hm
    obtain ⟨v, hv, rfl⟩ := Option.map_eq_some_iff.mp hm
    exact .inl ⟨i, hi, hv, rfl⟩
  | placeCopy pl =>
    obtain ⟨hspent, _, i, hi, hw, hdesc⟩ := ha
    obtain ⟨v, _, rfl⟩ := Option.map_eq_some_iff.mp (Option.mem_toList.mp hm)
    refine .inr ⟨i, hi, hw, hdesc.1 ▸ hspent, ?_⟩
    rw [hdesc.2.2.1, hdesc.2.2.2]
  | _ => cases hm

theorem Tagged.tagOf_row (hf : f.Tagged) (ha : f.Promised minAge tx a) {l : ObjectLocation}
    (hl : l ∈ f.ledger.objectLocations.rows) :
    (f.step (tx, a)).tagOf l.backendName l.storageKey = f.tagOf l.backendName l.storageKey := by
  refine tagOf_step fun m hm heq => ?_
  rcases mem_marks ha hm with ⟨i, hi, _, hat⟩ | ⟨i, hi, hw, hspent, hat⟩ <;>
    obtain ⟨hb, hp⟩ := Prod.mk.inj (hat.symm.trans heq)
  · exact hf.sound.issues_unrecorded ha hi l hl ⟨hb, hp⟩
  · exact hf.placedOnce i hi hw hspent l hl ⟨hb, hp⟩

theorem Tagged.writes_step (hf : f.Tagged) (ha : f.Promised minAge tx a) {i : Issued}
    (hi : i ∈ f.issued) (hw : i.write = some w) :
    (f.step (tx, a)).tagOf i.row.backendName i.row.storageKey = some w := by
  rw [tagOf_step, hf.writes i hi w hw]
  intro m hm heq
  rcases mem_marks ha hm with ⟨j, hj, _, hat⟩ | ⟨j, hj, hjw, _, hat⟩ <;>
    obtain ⟨hb, hp⟩ := Prod.mk.inj (hat.symm.trans heq)
  · exact issues_fresh ha hj i hi ⟨hb.symm, hp.symm⟩
  · rw [hf.sound.paths j hj i hi ⟨hb, hp⟩, hw] at hjw
    cases hjw

theorem Tagged.tagOf_at (hf : f.Tagged) (ha : f.Promised minAge tx a) {i : Issued}
    (hi : i ∈ f.issued) (hw : i.write = some w) {backend path : String}
    (hat : i.at_ backend path) : (f.step (tx, a)).tagOf backend path = some w := by
  rw [← hat.1, ← hat.2]
  exact hf.writes_step ha hi hw

theorem tagOf_claimed {i : Issued} (hi : i ∈ f.issues tx a) (hw : i.write = some w) :
    (f.step (tx, a)).tagOf i.row.backendName i.row.storageKey = some w := by
  obtain ⟨hissues, v, p, accepts, rfl, rfl⟩ := issues_of_mem hi
  obtain rfl : v = some w := hw
  change (f.marks tx _ ++ f.tags).lookup _ = _
  rw [marks, hissues]
  simp

theorem tagOf_placed {pl : Placement}
    (hw : f.tagOf pl.source.backendName pl.source.storageKey = some w) :
    (f.step (tx, .placeCopy pl)).tagOf pl.intent.backendName pl.intent.storageKey = some w := by
  change (f.marks tx (.placeCopy pl) ++ f.tags).lookup _ = _
  simp [marks, hw]

theorem answers_calls (h : w ∈ f.answers tx a) : w ∈ a.calls := by
  unfold answers at h
  split_ifs at h
  · exact h
  · cases h

theorem Tagged.step (hf : f.Tagged) {ev : TxAdapter × Act} (hl : f.Lawful minAge ev) :
    (f.step ev).Tagged := by
  obtain ⟨tx, a⟩ := ev
  have ha : f.Promised minAge tx a := hl.2.2
  refine ⟨hf.sound.step hl, hf.placedOnce.step hf.sound ha, ?_, ?_, ?_⟩
  · intro i hi w hw
    rcases mem_append.mp hi with hi | hi
    · exact tagOf_claimed hi hw
    · exact hf.writes_step ha hi hw
  · intro i hi j hj w hw hw'
    rcases mem_append.mp hi with hnew | hold <;> rcases mem_append.mp hj with hnew' | hold'
    · obtain ⟨_, _, p, _, rfl, rfl⟩ := issues_of_mem hnew
      obtain ⟨_, _, _, _, ha', rfl⟩ := issues_of_mem hnew'
      cases ha'
      rfl
    · obtain ⟨_, _, p, _, rfl, rfl⟩ := issues_of_mem hnew
      exact ((ha.2.2.2.2 w hw).2 j hold' hw').symm
    · obtain ⟨_, _, p, _, rfl, rfl⟩ := issues_of_mem hnew'
      exact (ha.2.2.2.2 w hw').2 i hold hw
    · exact hf.keys i hold j hold' w hw hw'
  · intro w hw
    rcases mem_append.mp hw with hw | hw
    · exact mem_append_left _ (answers_calls hw)
    · exact mem_append_right _ (hf.answered w hw)

theorem tagged_start (quotas : Table BackendQuota sameBackend) : (start quotas).Tagged where
  sound := sound_start quotas
  placedOnce _ hi := by cases hi
  writes _ hi := by cases hi
  keys _ hi := by cases hi
  answered _ hw := by cases hw

end Tags

end Fleet

end S3Orchestrator
