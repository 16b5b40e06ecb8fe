import S3Orchestrator.Ledger.Within

/-!
# What transactions do to tags

Tags belong to the object. A transaction that writes no object under a key leaves the key's tags
alone, or takes the key's last copy away with them.

* **`Op.tags_kept`**.
-/

namespace S3Orchestrator

open RowStore List

def Ledger.tagsOf (s : Ledger) (key : String) : List ObjectTag :=
  s.objectTags.rows.filter fun t => decide (t.objectKey = key)

def Ledger.hasTag (s : Ledger) (key : String) (t : Tag) : Bool :=
  s.objectTags.rows.any fun r =>
    decide (r.objectKey = key ∧ r.tagKey = t.key ∧ r.tagValue = t.value)

theorem Ledger.hasTag_congr {s s' : Ledger} {key : String} (h : s'.tagsOf key = s.tagsOf key)
    (t : Tag) : s'.hasTag key t = s.hasTag key t := by
  have hread : ∀ l : Ledger, l.hasTag key t =
      (l.tagsOf key).any fun r => decide (r.tagKey = t.key ∧ r.tagValue = t.value) := by
    intro l
    rw [Ledger.hasTag, Ledger.tagsOf, any_filter]
    refine any_congr rfl fun r => ?_
    by_cases hr : r.objectKey = key <;> simp
  rw [hread, hread, h]

def requireObjectExists (tx : TxAdapter) (key : String) : LedgerTx Unit := do
  let existing ← tx.getExistingCopiesForUpdate [key]
  if existing = [] then Tx.fail .errObjectNotFound else return ()

def replaceObjectTags (tx : TxAdapter) (key : String) (tags : List Tag) : LedgerTx Unit := do
  Tx.ofExcept (validateTags tags)
  requireObjectExists tx key
  replaceObjectTagsTx tx key tags

def TagsKept (key : String) (s s' : Ledger) : Prop := s'.tagsOf key = s.tagsOf key

section Kept

open Tx (Within within_pure within_fail within_ofExcept)

variable {tx : TxAdapter} {key : String}

theorem tags_admits (tx : TxAdapter) (key : String) : Admits tx (TagsKept key) where
  refl _ := rfl
  trans _ _ _ h1 h2 := Eq.trans h2 h1
  pending _ _ := rfl
  locations _ _ := rfl
  stripes _ _ := rfl
  parts _ _ := rfl
  uploads _ _ := rfl
  queued cs s a s' h := by
    obtain ⟨-, n, rfl⟩ := TxAdapter.insertCleanup_ok h
    rfl

variable {keys : List String} {k : String}

theorem tagsOf_cleared {s s' : Ledger} (h : s'.objectTags =
      s.objectTags.deleteWhere fun t => decide (t.objectKey ∈ keys)) :
    s'.tagsOf key = if key ∈ keys then [] else s.tagsOf key := by
  simp only [Ledger.tagsOf, h, Table.rows_deleteWhere, filter_filter]
  split_ifs with hk
  · refine filter_eq_nil_iff.mpr fun t _ ht => ?_
    simp only [Bool.and_eq_true, decide_eq_true_eq, Bool.not_eq_true', decide_eq_false_iff_not]
      at ht
    exact ht.2 (ht.1 ▸ hk)
  · refine filter_congr fun t _ => ?_
    by_cases ht : t.objectKey = key <;> simp [ht, hk]

theorem tags_clearTagsForKey (hne : key ∉ keys) :
    Within (TagsKept key) (clearTagsForKey tx keys) := by
  intro s a s' h
  rw [TagsKept, tagsOf_cleared (congrArg Ledger.objectTags (clearTagsForKey_ok h)), if_neg hne]

theorem tagsOf_clearTagsForKey {s s' : Ledger} {u : Unit} (hk : key ∈ keys)
    (h : clearTagsForKey tx keys s = .ok (u, s')) : s'.tagsOf key = [] := by
  rw [tagsOf_cleared (congrArg Ledger.objectTags (clearTagsForKey_ok h)), if_pos hk]

theorem tags_replaceObjectTagsTx (hne : k ≠ key) (tags : List Tag) :
    Within (TagsKept key) (replaceObjectTagsTx tx k tags) := by
  have htx := tags_admits tx key
  have hclear : Within (TagsKept key) (clearTagsForKey tx [k]) :=
    tags_clearTagsForKey (by simpa using Ne.symm hne)
  refine htx.bind hclear fun _ => htx.forEach (fun t => Within.mapError _ ?_) tags
  intro s a s' h
  obtain ⟨t', -, hrows, rfl⟩ := TxAdapter.of_insert (TxAdapter.of_exec h)
  simp [TagsKept, Ledger.tagsOf, hrows, hne]

theorem tags_replaceObjectTags (hne : k ≠ key) (tags : List Tag) :
    Within (TagsKept key) (replaceObjectTags tx k tags) := by
  have htx := tags_admits tx key
  refine htx.bind (within_ofExcept htx.refl _) fun _ =>
    htx.bind ?_ fun _ => tags_replaceObjectTagsTx hne tags
  exact htx.bind (htx.getExisting _) fun _ => Within.ite (within_fail _) (htx.pure' _)

theorem locations_replaceObjectTags (k : String) (tags : List Tag) :
    Within (fun s s' => s'.objectLocations = s.objectLocations) (replaceObjectTags tx k tags) := by
  intro s a s' h
  obtain ⟨_, s1, ⟨-, rfl⟩, h2⟩ := Tx.bind_ok h Tx.ofExcept_eq_ok.mp
  obtain ⟨_, s2, h3, h4⟩ := Tx.bind_eq_ok.mp h2
  obtain ⟨existing, s3, ⟨-, rfl⟩, h6⟩ := Tx.bind_ok h3 TxAdapter.getExistingCopiesForUpdate_ok
  split_ifs at h6 with hnone
  · exact absurd h6 (by simp)
  · obtain ⟨-, rfl⟩ := Tx.pure_eq_ok.mp h6
    obtain ⟨t, rfl⟩ := replaceObjectTagsTx_ok h4
    rfl

theorem tags_removeCopyRow {held : ExistingCopy} {last : Bool} (h : last = true → k ≠ key) :
    Within (TagsKept key) (removeCopyRow tx k held last) := by
  have htx := tags_admits tx key
  refine htx.bind (htx.deleteObjectFromBackend _ _) fun _ => ?_
  split_ifs with hlast
  · have hclear : Within (TagsKept key) (clearTagsForKey tx [k]) :=
      tags_clearTagsForKey (by simpa using Ne.symm (h hlast))
    exact htx.bind hclear fun _ => htx.chargeStripes _ _
  · exact htx.chargeStripes _ _

end Kept

/-! ## Deletes -/

section Deletes

variable {tx : TxAdapter} {s s' : Ledger} {key : String}

theorem copiesOf_singleton_eq_nil : s.copiesOf [key] = [] ↔
    ∀ l ∈ s.objectLocations.rows, l.objectKey ≠ key := by
  simp [Ledger.copiesOf]

def TagsFollow (key : String) (s s' : Ledger) : Prop :=
  (s'.tagsOf key = s.tagsOf key ∧ (s'.copiesOf [key] = [] → s.copiesOf [key] = [])) ∨
    (s'.tagsOf key = [] ∧ s'.copiesOf [key] = [])

theorem TagsFollow.refl (key : String) (s : Ledger) : TagsFollow key s s :=
  .inl ⟨rfl, fun h => h⟩

theorem copies_left {e : Effect} (happ : Applies e s s')
    (h : ∀ l ∈ s.objectLocations.rows, l.objectKey = key → e.removed l = true →
      ∃ l' ∈ e.recorded, l'.objectKey = key) :
    s'.copiesOf [key] = [] → s.copiesOf [key] = [] := by
  intro hnone
  refine copiesOf_singleton_eq_nil.mpr fun l hl hk => ?_
  have hgone := copiesOf_singleton_eq_nil.mp hnone
  cases hr : e.removed l with
  | false => exact hgone l (happ.mem_locations.mpr (.inl ⟨hl, hr⟩)) hk
  | true =>
    obtain ⟨l', hl', hk'⟩ := h l hl hk hr
    exact hgone l' (happ.mem_locations.mpr (.inr hl')) hk'

theorem follow_deleteObjectsBatch {keys : List String} {items : List CleanupItem}
    (h : deleteObjectsBatch tx keys s = .ok (items, s')) : TagsFollow key s s' := by
  rcases deleteObjectsBatch_ok h with ⟨-, rfl⟩ | ⟨-, happ, htags⟩
  · exact TagsFollow.refl key s'
  by_cases hk : key ∈ keys
  · refine .inr ⟨by rw [tagsOf_cleared htags, if_pos hk], ?_⟩
    refine copiesOf_singleton_eq_nil.mpr fun l hl hkey => ?_
    rcases happ.mem_locations.mp hl with ⟨-, hgone⟩ | hnew
    · simp [Effect.deleting, hkey, hk] at hgone
    · cases hnew
  · refine .inl ⟨by rw [tagsOf_cleared htags, if_neg hk], copies_left happ fun l _ hl hr => ?_⟩
    simp [Effect.deleting, hl, hk] at hr

theorem nodup_copiesOf (s : Ledger) (keys : List String) : (s.copiesOf keys).Nodup := by
  refine List.Nodup.filter _ (s.objectLocations.distinct.imp fun h he => ?_)
  subst he
  simp [sameSlot] at h

theorem exists_other_copy {l : ObjectLocation} (hl : l ∈ s.objectLocations.rows)
    (hkey : l.objectKey = key) (hmore : (s.copiesOf [key]).length ≠ 1) :
    ∃ a ∈ s.objectLocations.rows, a.objectKey = key ∧ a.backendName ≠ l.backendName := by
  by_contra hnone
  push Not at hnone
  have hall : ∀ a ∈ s.copiesOf [key], a = l := by
    intro a ha
    obtain ⟨hrow, hak⟩ := mem_copiesOf_singleton.mp ha
    exact slot_unique hrow hl (hak.trans hkey.symm) (hnone a hrow hak)
  have hrep := eq_replicate_of_mem hall
  have hle : (s.copiesOf [key]).length ≤ 1 := by
    have hnd := nodup_copiesOf s [key]
    rw [hrep] at hnd
    exact nodup_replicate.mp hnd
  have hpos : 0 < (s.copiesOf [key]).length :=
    length_pos_of_mem (mem_copiesOf_singleton.mpr ⟨hl, hkey⟩)
  omega

theorem follow_deleteObjectLocation {loc : ObjectLocation} {keepAtLeast : Int} {reason : String}
    {items : List CleanupItem}
    (h : deleteObjectLocation tx loc keepAtLeast reason s = .ok (items, s')) :
    TagsFollow key s s' := by
  obtain ⟨l, hl, hkey, hbackend, -, -, happ⟩ := deleteObjectLocation_ok h
  obtain ⟨existing, s1, ⟨rfl, rfl⟩, h2⟩ := Tx.bind_ok h TxAdapter.getExistingCopiesForUpdate_ok
  obtain ⟨held, s2, ⟨-, rfl⟩, h4⟩ := Tx.bind_ok h2 Tx.ofExcept_eq_ok.mp
  obtain ⟨_, s3, h5, h6⟩ := Tx.bind_eq_ok.mp h4
  have hqueued : s'.tagsOf key = s3.tagsOf key :=
    Tx.Within.ite ((tags_admits tx key).pure' _) ((tags_admits tx key).enqueueRemoved _ _ _) h6
  by_cases hlast : ((s2.copiesOf [loc.objectKey]).map ObjectLocation.existing).length = 1 ∧
      loc.objectKey = key
  · -- The row of the last copy takes the tags with it.
    obtain ⟨hone, hk⟩ := hlast
    rw [removeCopyRow, decide_eq_true hone] at h5
    obtain ⟨_, s4, -, h7⟩ := Tx.bind_eq_ok.mp h5
    obtain ⟨_, s5, h8, h9⟩ := Tx.bind_eq_ok.mp h7
    have htags : s'.tagsOf key = [] :=
      calc s'.tagsOf key = s3.tagsOf key := hqueued
        _ = s5.tagsOf key := (tags_admits tx key).chargeStripes _ _ h9
        _ = [] := tagsOf_clearTagsForKey (by simp [hk]) h8
    rw [length_map] at hone
    obtain ⟨only, honly⟩ := length_eq_one_iff.mp hone
    refine .inr ⟨htags, copiesOf_singleton_eq_nil.mpr fun a ha hak => ?_⟩
    rcases happ.mem_locations.mp ha with ⟨hold, hgone⟩ | hnew
    · have ha' : a = only := by
        simpa [honly] using mem_copiesOf_singleton.mpr ⟨hold, hak.trans hk.symm⟩
      have hl' : l = only := by
        simpa [honly] using mem_copiesOf_singleton.mpr ⟨hl, hkey⟩
      simp [Effect.removing, ha', hl'] at hgone
    · cases hnew
  · left
    refine ⟨?_, fun hnone => ?_⟩
    · rw [hqueued]
      exact tags_removeCopyRow (fun hl hk => hlast ⟨of_decide_eq_true hl, hk⟩) h5
    refine copies_left happ (fun a ha hak hr => ?_) hnone
    simp only [Effect.removing, decide_eq_true_eq] at hr
    have hlk : l.objectKey = key := hr.1.symm.trans hak
    have hmore : (s2.copiesOf [key]).length ≠ 1 := by
      intro hone
      have hlock : loc.objectKey = key := hkey.symm.trans hlk
      exact hlast ⟨by rw [length_map, hlock, hone], hlock⟩
    obtain ⟨b, hb, hbk, hbb⟩ := exists_other_copy hl hlk hmore
    have hstay : b ∈ s'.objectLocations.rows :=
      happ.mem_locations.mpr (.inl ⟨hb, by simp [Effect.removing, hbb]⟩)
    exact absurd hbk (copiesOf_singleton_eq_nil.mp hnone b hstay)

end Deletes

/-! ## All transactions -/

section Transactions

variable {tx : TxAdapter} {s s' : Ledger} {key : String} {op : Op}

theorem Outcome.copies_left {e : Effect} (ho : Outcome tx s op e) (happ : Applies e s s')
    (hdel : op.deletes = false) :
    s'.copiesOf [key] = [] → s.copiesOf [key] = [] := by
  refine S3Orchestrator.copies_left happ fun l hl hk hr => ?_
  cases ho with
  | deleted | removed => cases hdel
  | @recorded req hcopies hheld =>
    -- The key's copies go, and those of the write come.
    have hreq : l.objectKey = req.key := by simpa [Effect.recording] using hr
    obtain ⟨c, hc⟩ := exists_mem_of_ne_nil _ hcopies
    exact ⟨_, mem_map_of_mem hc, hreq.symm.trans hk⟩
  | @promoted p hheld hrole hsup =>
    have hp : l.objectKey = p.objectKey := by simpa [Effect.promoting] using hr
    exact ⟨_, mem_singleton_self _, hp.symm.trans hk⟩
  | @placed p src hheld hsrc hkey hbackend hpath =>
    -- A moved copy is placed before the source is gone.
    have hsame : l.objectKey = src.objectKey := by
      simp only [Effect.placing, Bool.and_eq_true, decide_eq_true_eq] at hr
      exact hr.2.1
    refine ⟨_, mem_singleton_self _, ?_⟩
    exact (placedCopy_objectKey p src).trans (hsame.symm.trans hk)
  | _ => simp [Effect.claiming, Effect.overtaken, Effect.requeueing, Effect.dropping,
      Effect.forgetting, Effect.joining, Effect.importing, Effect.recordingPart,
      Effect.deletingUpload] at hr

theorem Op.copies_left (hdel : op.deletes = false) (hnone : (op.apply tx s).copiesOf [key] = []) :
    s.copiesOf [key] = [] := by
  obtain ⟨e, ho, happ⟩ := apply_outcome tx s op
  exact ho.copies_left happ hdel hnone

theorem Op.tags_unchanged (hw : op.writes ≠ some key) (hdel : op.deletes = false) :
    (op.apply tx s).tagsOf key = s.tagsOf key := by
  refine (tags_admits tx key).op s (fun k tags hk => ?_) fun h => absurd h (by simp [hdel])
  have hne : k ≠ key := fun he => hw (hk.trans (congrArg some he))
  exact tags_replaceObjectTagsTx hne tags

theorem Op.tagsFollow (hw : op.writes ≠ some key) : TagsFollow key s (op.apply tx s) := by
  cases hdel : op.deletes with
  | false => exact .inl ⟨Op.tags_unchanged hw hdel, Op.copies_left hdel⟩
  | true =>
    cases op with
    | deleteObjectsBatch keys =>
      rcases Tx.commit_cases (S3Orchestrator.deleteObjectsBatch tx keys) s with h | ⟨a, h⟩
      · rw [Op.apply, h]
        exact TagsFollow.refl key s
      · exact follow_deleteObjectsBatch h
    | deleteObjectLocation loc keepAtLeast reason =>
      rcases Tx.commit_cases
        (S3Orchestrator.deleteObjectLocation tx loc keepAtLeast reason) s with h | ⟨a, h⟩
      · rw [Op.apply, h]
        exact TagsFollow.refl key s
      · exact follow_deleteObjectLocation h
    | _ => cases hdel

end Transactions

theorem Op.tags_kept (tx : TxAdapter) (s : Ledger) {op : Op} {key : String}
    (hw : op.writes ≠ some key) :
    (op.apply tx s).tagsOf key = s.tagsOf key ∨ (op.apply tx s).copiesOf [key] = [] := by
  have hfollow : TagsFollow key s (op.apply tx s) := Op.tagsFollow hw
  rcases hfollow with ⟨htags, -⟩ | ⟨-, hcopies⟩
  · exact .inl htags
  · exact .inr hcopies

end S3Orchestrator
