import S3Orchestrator.Ledger.Tags
import S3Orchestrator.Ledger.Stripes
import S3Orchestrator.Store.Backends

/-!
# Tags and the objects they describe

Tags are kept beside the copies with no foreign key between them. Every transaction that removes an
object's last copy has to clear its tags, and every transaction that writes an object has to replace
them. Removing a backend deletes the copies it holds and no tag.

* **`tags_follow_objects_iff`**.
-/

namespace S3Orchestrator

open RowStore List Tx

def Ledger.TagsOwned (s : Ledger) : Prop :=
  ∀ t ∈ s.objectTags.rows, ∃ l ∈ s.objectLocations.rows, l.objectKey = t.objectKey
  deriving Decidable

def tagRows (key : String) (tags : List Tag) : List ObjectTag :=
  tags.map fun t => ⟨key, t.key, t.value⟩

theorem tagsOwned_iff {s : Ledger} :
    s.TagsOwned ↔ ∀ key, s.copiesOf [key] = [] → s.tagsOf key = [] := by
  constructor
  · intro h key hnone
    refine filter_eq_nil_iff.mpr fun t ht hkey => ?_
    obtain ⟨l, hl, hlk⟩ := h t ht
    exact copiesOf_singleton_eq_nil.mp hnone l hl (hlk.trans (of_decide_eq_true hkey))
  · intro h t ht
    by_contra hnone
    have hcopies : s.copiesOf [t.objectKey] = [] :=
      copiesOf_singleton_eq_nil.mpr fun l hl hk => hnone ⟨l, hl, hk⟩
    have hmem : t ∈ s.tagsOf t.objectKey := mem_filter.mpr ⟨ht, by simp⟩
    rw [h _ hcopies] at hmem
    cases hmem

section Follow

variable {tx : TxAdapter} {s s' : Ledger} {key : String}

theorem TagsFollow.tags_eq_nil (h : TagsFollow key s s') (hs : s.TagsOwned)
    (hnone : s'.copiesOf [key] = []) : s'.tagsOf key = [] := by
  rcases h with ⟨htags, hcopies⟩ | ⟨htags, -⟩
  · rw [htags, tagsOwned_iff.mp hs key (hcopies hnone)]
  · exact htags

/-! ## Writes -/

theorem tagsOf_replaceObjectTagsTx {tags : List Tag} {u : Unit}
    (h : replaceObjectTagsTx tx key tags s = .ok (u, s')) : s'.tagsOf key = tagRows key tags := by
  obtain ⟨_, s1, h1, h2⟩ := bind_eq_ok.mp h
  have hcleared : s1.tagsOf key = tagRows key [] := tagsOf_clearTagsForKey (by simp) h1
  refine forEach_induct (fun done s2 => s2.tagsOf key = tagRows key done) ?_ tags [] s1 s' u
    hcleared h2
  intro done t s2 s3 hdone h3
  obtain ⟨t', -, hrows, rfl⟩ :=
    TxAdapter.of_insert (TxAdapter.of_exec (mapError_eq_ok.mp h3))
  calc t'.rows.filter (fun r => decide (r.objectKey = key))
      = s2.tagsOf key ++ tagRows key [t] := by
        rw [hrows, filter_append, ← Ledger.tagsOf]
        simp [tagRows]
    _ = tagRows key (done ++ [t]) := by rw [hdone, tagRows, tagRows, tagRows, map_append]

theorem recordObject_tags {req : RecordObjectRequest} {items : List CleanupItem}
    (h : recordObject tx req s = .ok (items, s')) :
    (¬ s.holdsAll (intentIDs req.copies) ∧ ∀ key, s'.tagsOf key = s.tagsOf key) ∨
      (s.holdsAll (intentIDs req.copies) ∧ s'.tagsOf req.key = tagRows req.key req.tags) := by
  obtain ⟨-, h⟩ := recordObject_ok h
  obtain ⟨held, s1, ⟨rfl, hheld⟩, h2⟩ := bind_ok h intentsHeld_ok
  cases hb : held with
  | false =>
    rw [hb] at h2 hheld
    refine .inl ⟨fun hh => (by cases hheld.mpr hh), fun key => ?_⟩
    exact (tags_admits tx key).discardOvertakenWrite req h2
  | true =>
    rw [hb] at h2 hheld
    obtain ⟨_, s2, -, h3⟩ := bind_eq_ok.mp h2
    obtain ⟨_, s3, -, h4⟩ := bind_eq_ok.mp h3
    obtain ⟨_, s4, h5, h6⟩ := bind_eq_ok.mp h4
    obtain ⟨_, s5, h7, h8⟩ := bind_eq_ok.mp h6
    obtain ⟨_, s6, h9, h10⟩ := bind_eq_ok.mp h8
    obtain ⟨_, s7, h11, h12⟩ := bind_eq_ok.mp h10
    refine .inr ⟨hheld.mp rfl, ?_⟩
    -- Nothing after the replacement touches tags.
    calc s'.tagsOf req.key = s7.tagsOf req.key := (tags_admits tx _).enqueueRemoved _ _ _ h12
      _ = s6.tagsOf req.key := (tags_admits tx _).clearSupersededIntents _ _ _ h11
      _ = s5.tagsOf req.key := (tags_admits tx _).chargeStripes _ _ h9
      _ = s4.tagsOf req.key := (tags_admits tx _).forEach
        (fun c => Tx.Within.mapError _ ((tags_admits tx _).insertObjectLocation _)) _ h7
      _ = tagRows req.key req.tags := tagsOf_replaceObjectTagsTx h5

theorem promotePending_tags {p : PendingObject} {r : PromoteOutcome}
    (h : promotePending tx p s = .ok (r, s')) :
    (r.result ≠ .committed ∧ ∀ key, s'.tagsOf key = s.tagsOf key) ∨
      (r.result = .committed ∧ s'.tagsOf p.objectKey = tagRows p.objectKey p.tags) := by
  have h := mapError_eq_ok.mp h
  rcases held_cases h with ⟨hn, h⟩ | ⟨hh, h⟩
  · obtain ⟨rfl, rfl⟩ := pure_eq_ok.mp h
    exact .inl ⟨by simp, fun _ => rfl⟩
  obtain ⟨existing, s1, ⟨rfl, rfl⟩, h2⟩ := bind_ok h TxAdapter.getExistingCopiesForUpdate_ok
  split_ifs at h2 with hcomp hsup
  · unfold resolveCompanion at h2
    split_ifs at h2 with hrec
    · obtain ⟨_, h3, rfl⟩ := bind_pure_ok h2
      exact .inl ⟨by simp, fun _ => (tags_admits tx _).deletePending _ (mapError_eq_ok.mp h3)⟩
    · obtain ⟨cleanup, h3, rfl⟩ := bind_pure_ok h2
      exact .inl ⟨by simp, fun _ => (tags_admits tx _).dropIntent _ _ h3⟩
  · obtain ⟨cleanup, h3, rfl⟩ := bind_pure_ok h2
    exact .inl ⟨by simp, fun _ => (tags_admits tx _).dropIntent _ _ h3⟩
  · obtain ⟨_, s2, -, h3⟩ := bind_eq_ok.mp h2
    obtain ⟨_, s3, -, h4⟩ := bind_eq_ok.mp h3
    obtain ⟨_, s4, h5, h6⟩ := bind_eq_ok.mp h4
    obtain ⟨cleanup, h7, rfl⟩ := bind_pure_ok h6
    refine .inr ⟨rfl, ?_⟩
    rw [← tagsOf_replaceObjectTagsTx h5]
    exact (tags_admits tx _).enqueueRemoved _ _ _ h7

theorem copies_of_recorded {e : Effect} (happ : Applies e s s') {l : ObjectLocation}
    (hl : l ∈ e.recorded) : s'.copiesOf [l.objectKey] ≠ [] :=
  ne_nil_of_mem (mem_copiesOf_singleton.mpr ⟨happ.mem_locations.mpr (.inr hl), rfl⟩)

theorem recordObject_leaves {req : RecordObjectRequest} {items : List CleanupItem}
    (h : recordObject tx req s = .ok (items, s')) (hheld : s.holdsAll (intentIDs req.copies)) :
    s'.copiesOf [req.key] ≠ [] := by
  obtain ⟨hcopies, h⟩ := recordObject_ok h
  rcases recordObjectTx_ok h with ⟨hgone, -⟩ | ⟨-, happ⟩
  · exact absurd hheld hgone
  · obtain ⟨c, hc⟩ := exists_mem_of_ne_nil _ hcopies
    have hrow : tx.locationRow (req.location c) ∈ (Effect.recording tx s req).recorded :=
      mem_map_of_mem hc
    exact copies_of_recorded happ hrow

theorem promotePending_leaves {p : PendingObject} {r : PromoteOutcome}
    (h : promotePending tx p s = .ok (r, s')) (hr : r.result = .committed) :
    s'.copiesOf [p.objectKey] ≠ [] := by
  rcases promotePendingTx_ok (mapError_eq_ok.mp h) with ⟨-, hres, -⟩ |
    ⟨-, ⟨-, -, hres, -⟩ | ⟨-, -, hres, -⟩ | ⟨-, -, hres, -⟩ | ⟨-, -, -, happ⟩⟩
  · simp [hr] at hres
  · simp [hr] at hres
  · simp [hr] at hres
  · simp [hr] at hres
  · have hrow : p.location tx ∈ (Effect.promoting tx s p).recorded := mem_singleton_self _
    exact copies_of_recorded happ hrow

theorem Op.tags_of_writes {op : Op} (hw : op.writes = some key) :
    (op.apply tx s).tagsOf key = s.tagsOf key ∨ (op.apply tx s).copiesOf [key] ≠ [] := by
  cases op with
  | recordObject req =>
    cases hw
    rcases commit_cases (S3Orchestrator.recordObject tx req) s with h | ⟨a, h⟩
    · exact .inl (congrArg (·.tagsOf req.key) h)
    · rcases recordObject_tags h with ⟨-, htags⟩ | ⟨hheld, -⟩
      · exact .inl (htags req.key)
      · exact .inr (recordObject_leaves h hheld)
  | promotePending p =>
    cases hw
    rcases commit_cases (S3Orchestrator.promotePending tx p) s with h | ⟨a, h⟩
    · exact .inl (congrArg (·.tagsOf p.objectKey) h)
    · rcases promotePending_tags h with ⟨-, htags⟩ | ⟨hres, -⟩
      · exact .inl (htags p.objectKey)
      · exact .inr (promotePending_leaves h hres)
  | _ => cases hw

end Follow

/-! ## The owner condition, transaction by transaction -/

section Owned

variable {tx : TxAdapter} {s : Ledger}

theorem Op.tagsOwned (tx : TxAdapter) (op : Op) (hs : s.TagsOwned) : (op.apply tx s).TagsOwned := by
  refine tagsOwned_iff.mpr fun key hnone => ?_
  by_cases hw : op.writes = some key
  · have hdel : op.deletes = false := by
      cases op <;> first | rfl | cases hw
    rcases Op.tags_of_writes hw with htags | hcopies
    · rw [htags, tagsOwned_iff.mp hs key (Op.copies_left hdel hnone)]
    · exact absurd hnone hcopies
  · exact (Op.tagsFollow hw).tags_eq_nil hs hnone

theorem tagsOwned_replaceObjectTags (tx : TxAdapter) (key : String) (tags : List Tag)
    (hs : s.TagsOwned) : ((replaceObjectTags tx key tags).commit s).TagsOwned := by
  rcases commit_cases (replaceObjectTags tx key tags) s with h | ⟨u, h⟩
  · rw [h]
    exact hs
  have hcopies : ∀ k, ((replaceObjectTags tx key tags).commit s).copiesOf [k] = s.copiesOf [k] :=
    fun k => by rw [Ledger.copiesOf, locations_replaceObjectTags key tags h, ← Ledger.copiesOf]
  refine tagsOwned_iff.mpr fun k hnone => ?_
  rw [hcopies] at hnone
  by_cases hk : key = k
  · -- The transaction found a copy of the key it tags.
    subst hk
    obtain ⟨_, s1, ⟨-, rfl⟩, h2⟩ := bind_ok h ofExcept_eq_ok.mp
    obtain ⟨_, s2, h3, -⟩ := bind_eq_ok.mp h2
    obtain ⟨existing, s3, ⟨rfl, rfl⟩, h5⟩ := bind_ok h3 TxAdapter.getExistingCopiesForUpdate_ok
    rw [hnone, map_nil, if_pos rfl] at h5
    exact absurd h5 (by simp)
  · exact (tags_replaceObjectTags hk tags h).trans (tagsOwned_iff.mp hs k hnone)

def Ledger.SparesTagged (s : Ledger) (backend : String) : Prop :=
  ∀ t ∈ s.objectTags.rows, ∃ l ∈ s.objectLocations.rows,
    l.objectKey = t.objectKey ∧ l.backendName ≠ backend

theorem tagsOwned_withoutBackend {backend : String} :
    (s.withoutBackend backend).TagsOwned ↔ s.SparesTagged backend := by
  refine forall₂_congr fun t _ => exists_congr fun l => ?_
  simp only [Ledger.withoutBackend, Table.rows_deleteWhere, mem_filter, Bool.not_eq_true',
    decide_eq_false_iff_not]
  tauto

end Owned

/-! ## Runs -/

/-- A change that touches neither tags nor which keys have copies. -/
structure Aside where
  run : Ledger → Ledger
  tags : ∀ s, (run s).objectTags = s.objectTags
  keys : ∀ s, (run s).objectLocations.rows.map ObjectLocation.objectKey =
    s.objectLocations.rows.map ObjectLocation.objectKey

inductive StoreStep where
  | transact (tx : TxAdapter) (op : Op)
  | replaceObjectTags (tx : TxAdapter) (key : String) (tags : List Tag)
  | deleteBackendData (now : Time) (backend : String)
  | aside (a : Aside)

namespace StoreStep

/-- The ledger after the operation. A backend removal the database fails is rolled back and is no
step. -/
def next (s : Ledger) : StoreStep → Ledger
  | .transact tx op => op.apply tx s
  | .replaceObjectTags tx key tags => (S3Orchestrator.replaceObjectTags tx key tags).commit s
  | .deleteBackendData now backend =>
    (S3Orchestrator.deleteBackendData { now := now } backend).commit s
  | .aside a => a.run s

def committed (s : Ledger) : StoreStep → Option (String × List Tag)
  | .transact tx (.recordObject req) =>
    if (Op.recordObject req).succeeds tx s ∧ s.holdsAll (intentIDs req.copies) then
      some (req.key, req.tags)
    else none
  | .transact tx (.promotePending p) =>
    match (S3Orchestrator.promotePending tx p).result s with
    | .ok r => if r.result = .committed then some (p.objectKey, p.tags) else none
    | .error _ => none
  | _ => none

def Spares (s : Ledger) : StoreStep → Prop
  | .deleteBackendData _ backend => s.SparesTagged backend
  | _ => True

/-- After the operation every tag has an object, and a committed write has exactly its tags. -/
def Follows (s : Ledger) (e : StoreStep) : Prop :=
  (e.next s).TagsOwned ∧ ∀ w, e.committed s = some w → (e.next s).tagsOf w.1 = tagRows w.1 w.2

variable {s : Ledger}

theorem next_deleteBackendData (now : Time) (backend : String) :
    (StoreStep.deleteBackendData now backend).next s = s.withoutBackend backend := rfl

theorem tagsOwned_aside (a : Aside) (hs : s.TagsOwned) : (a.run s).TagsOwned := by
  intro t ht
  rw [a.tags] at ht
  obtain ⟨l, hl, hk⟩ := hs t ht
  have hkey : t.objectKey ∈ (a.run s).objectLocations.rows.map ObjectLocation.objectKey := by
    rw [a.keys, ← hk]
    exact mem_map_of_mem hl
  exact mem_map.mp hkey

theorem tagsOwned_next_iff (hs : s.TagsOwned) (e : StoreStep) :
    (e.next s).TagsOwned ↔ e.Spares s := by
  cases e with
  | transact tx op => exact iff_of_true (Op.tagsOwned tx op hs) trivial
  | replaceObjectTags tx key tags =>
    exact iff_of_true (tagsOwned_replaceObjectTags tx key tags hs) trivial
  | deleteBackendData now backend =>
    rw [next_deleteBackendData]
    exact tagsOwned_withoutBackend
  | aside a => exact iff_of_true (tagsOwned_aside a hs) trivial

theorem tagsOf_committed {e : StoreStep} {w : String × List Tag} (h : e.committed s = some w) :
    (e.next s).tagsOf w.1 = tagRows w.1 w.2 := by
  cases e with
  | transact tx op =>
    cases op with
    | recordObject req =>
      simp only [committed] at h
      split_ifs at h with hc
      cases h
      obtain ⟨items, hok⟩ := commit_of_isOk hc.1
      rcases recordObject_tags hok with ⟨hgone, -⟩ | ⟨-, htags⟩
      · exact absurd hc.2 hgone
      · exact htags
    | promotePending p =>
      simp only [committed] at h
      split at h
      · rename_i r hr
        split_ifs at h with hres
        cases h
        rcases promotePending_tags (commit_of_result hr) with ⟨hne, -⟩ | ⟨-, htags⟩
        · exact absurd hres hne
        · exact htags
      · cases h
    | _ => cases h
  | _ => cases h

/-- **Tags follow their objects through a run from the configured backends alone, exactly when every
backend removed spares the tagged objects.** -/
theorem tags_follow_objects_iff (quotas : Table BackendQuota sameBackend) (run : List StoreStep) :
    Along next Follows (.provisioned quotas) run ↔ Along next Spares (.provisioned quotas) run := by
  have hstart : (Ledger.provisioned quotas).TagsOwned := fun t ht =>
    by cases ht
  refine along_congr hstart (fun s e hs => ?_) fun s e _ he => he.1
  exact ⟨fun h => (tagsOwned_next_iff hs e).mp h.1,
    fun h => ⟨(tagsOwned_next_iff hs e).mpr h, fun w hw => tagsOf_committed hw⟩⟩

def taggedIntent : PendingObject where
  intentID := "i"
  objectKey := "k"
  storageKey := "k-1"
  backendName := "b"
  sizeBytes := 1
  tags := [⟨"class", "secret"⟩]

def taggedWrite : RecordObjectRequest where
  key := "k"
  size := 1
  tags := [⟨"class", "secret"⟩]
  copies := [taggedIntent.copy]

def removedWithTags : List StoreStep :=
  [.transact { now := 1 } (.claim taggedIntent 0),
    .transact { now := 2 } (.recordObject taggedWrite),
    .deleteBackendData 3 "b"]

/-- The object is gone with the backend, and its tag is still there. -/
theorem tag_outlives_backend :
    (after next (Ledger.provisioned soloQuota) removedWithTags).objectLocations.rows = [] ∧
      (after next (.provisioned soloQuota) removedWithTags).tagsOf "k" =
        [⟨"k", "class", "secret"⟩] ∧
      ¬ Along next Follows (.provisioned soloQuota) removedWithTags := by
  refine ⟨by decide +kernel, by decide +kernel, fun h => ?_⟩
  have howned := h.2.2.1.1
  revert howned
  decide +kernel

end StoreStep

end S3Orchestrator
