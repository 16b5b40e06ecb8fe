import S3Orchestrator.Reconcile.Merge
import Mathlib.Data.List.Chain

/-!
# The sorted merge

`Sorted` pulls from two key streams in lockstep, calls the import handler for a path only the
backend has and the delete handler for one only the ledger has, and refuses a stream that goes back
or repeats a key.

* **`sorted_exact`**.
-/

namespace S3Orchestrator.SortedMerge

open RowStore List List.Sublist

inductive Call where
  | imported (e : Entry)
  | deleted (e : Entry)

def imports : List Call → List Entry :=
  List.filterMap fun | .imported e => some e | .deleted _ => none

def deletes : List Call → List Entry :=
  List.filterMap fun | .deleted e => some e | .imported _ => none

variable {ε : Type}

/-- The error a call of a handler returns after the calls before it, and how a stream ends. -/
structure Env (ε : Type) where
  onImport : List Call → Entry → Option ε
  onDelete : List Call → Entry → Option ε
  ends : Side → Option ε

/-- How the merge ends: the calls made, what each stream has left, and the error. -/
structure Outcome (ε : Type) where
  calls : List Call
  s3 : List Entry
  db : List Entry
  err : Option (ReconcileError ⊕ ε)

def advance (o : Env ε) (side : Side) (cur : Option Entry) (rest : List Entry) :
    Option (ReconcileError ⊕ ε) :=
  match rest with
  | [] => (o.ends side).map .inr
  | n :: _ =>
    match advanceCursor side cur (some n) with
    | .ok _ => none
    | .error e => some (.inl e)

def rounds (o : Env ε) (calls : List Call) (s3 db : List Entry) : Outcome ε :=
  match turn (s3.head?.map Entry.key) (db.head?.map Entry.key), s3, db with
  | .left, e :: s3, db =>
    match ((o.onImport calls e).map .inr).or (advance o .backend (some e) s3) with
    | some err => ⟨calls ++ [.imported e], s3, db, some err⟩
    | none => rounds o (calls ++ [.imported e]) s3 db
  | .right, s3, e :: db =>
    match ((o.onDelete calls e).map .inr).or (advance o .ledger (some e) db) with
    | some err => ⟨calls ++ [.deleted e], s3, db, some err⟩
    | none => rounds o (calls ++ [.deleted e]) s3 db
  | .both, e :: s3, e' :: db =>
    match (advance o .backend (some e) s3).or (advance o .ledger (some e') db) with
    | some err => ⟨calls, s3, db, some err⟩
    | none => rounds o calls s3 db
  | _, s3, db => ⟨calls, s3, db, none⟩
termination_by s3.length + db.length

def sorted (o : Env ε) (s3 db : List Entry) : Outcome ε :=
  match (advance o .backend none s3).or (advance o .ledger none db) with
  | some err => ⟨[], s3, db, some err⟩
  | none => rounds o [] s3 db

def Ascending (l : List Entry) : Prop := l.IsChain fun a b => a.key < b.key

def Env.Succeeds (o : Env ε) : Prop :=
  (∀ calls e, o.onImport calls e = none ∧ o.onDelete calls e = none) ∧ ∀ side, o.ends side = none

def only (l r : List Entry) : List Entry := l.filter fun e => decide (∀ e' ∈ r, e'.key ≠ e.key)

variable {o : Env ε} {side : Side} {e : Entry} {calls : List Call} {l r : List Entry}

variable {s3 db : List Entry}

theorem advance_head (h : advance o side (some e) l = none) : ∀ n ∈ l.head?, e.key < n.key := by
  cases l with
  | nil => exact fun n hn => by cases hn
  | cons n l =>
    rw [advance] at h
    split at h
    · next hok =>
      intro n' hn
      obtain rfl : n = n' := Option.some.inj hn
      exact (advanceCursor_ok hok).2 e rfl n rfl
    · cases h

theorem Ascending.cons {front back : List Entry} (h : Ascending front) (hl : l = front ++ back)
    (hadv : advance o side (some e) l = none) : Ascending (e :: front) := by
  refine isChain_cons.mpr ⟨fun n hn => advance_head hadv n ?_, h⟩
  rw [hl, head?_append, hn]
  rfl

theorem advance_of_ascending (hends : ∀ side, o.ends side = none) (h : Ascending (e :: l)) :
    advance o side (some e) l = none := by
  cases l with
  | nil => simp [advance, hends side]
  | cons n l => simp [advance, advanceCursor, checkAscending, (isChain_cons_cons.mp h).1,
      Except.map]

theorem empty_of_done
    (hleft : ∀ e rest, turn (s3.head?.map Entry.key) (db.head?.map Entry.key) = .left →
      s3 = e :: rest → False)
    (hright : ∀ e rest, turn (s3.head?.map Entry.key) (db.head?.map Entry.key) = .right →
      db = e :: rest → False)
    (hboth : ∀ e rest e' rest', turn (s3.head?.map Entry.key) (db.head?.map Entry.key) = .both →
      s3 = e :: rest → db = e' :: rest' → False) : s3 = [] ∧ db = [] := by
  cases s3 with
  | nil =>
    cases db with
    | nil => exact ⟨rfl, rfl⟩
    | cons e' db => exact (hright e' db rfl rfl).elim
  | cons e s3 =>
    cases db with
    | nil => exact (hleft e s3 rfl rfl).elim
    | cons e' db =>
      cases hturn : turn (some e.key) (some e'.key) with
      | left => exact (hleft e s3 hturn rfl).elim
      | right => exact (hright e' db hturn rfl).elim
      | both => exact (hboth e s3 e' db hturn rfl rfl).elim
      | done =>
        rw [turn] at hturn
        split_ifs at hturn

/-- **What the merge took from each stream ascends, and the handlers saw nothing else**; without an
error it took everything. -/
structure Took (calls : List Call) (s3 db : List Entry) (out : Outcome ε)
    (front back : List Entry) (new : List Call) : Prop where
  s3 : s3 = front ++ out.s3
  db : db = back ++ out.db
  ascends : Ascending front
  ascends' : Ascending back
  calls : out.calls = calls ++ new
  imports : (SortedMerge.imports new).Sublist front
  deletes : (SortedMerge.deletes new).Sublist back
  whole : out.err = none → out.s3 = [] ∧ out.db = []

theorem rounds_took (o : Env ε) (calls : List Call) (s3 db : List Entry) :
    ∃ front back new, Took calls s3 db (rounds o calls s3 db) front back new := by
  fun_induction rounds o calls s3 db with
  | case1 calls e s3 db err herr hturn =>
    simp only [herr, hturn]
    exact ⟨[e], [], [.imported e], rfl, rfl, isChain_singleton e, isChain_nil, rfl,
      refl _, refl _, fun h => by cases h⟩
  | case2 calls e s3 db hnone hturn ih =>
    obtain ⟨front, back, new, h⟩ := ih
    have hadv := (Option.or_eq_none_iff.mp hnone).2
    simp only [hnone, hturn]
    exact ⟨e :: front, back, .imported e :: new, congrArg (e :: ·) h.s3, h.db,
      h.ascends.cons h.s3 hadv, h.ascends', by rw [h.calls, append_assoc]; rfl,
      h.imports.cons_cons e, h.deletes, h.whole⟩
  | case3 calls s3 e db err herr hturn =>
    simp only [herr, hturn]
    exact ⟨[], [e], [.deleted e], rfl, rfl, isChain_nil, isChain_singleton e, rfl,
      refl _, refl _, fun h => by cases h⟩
  | case4 calls s3 e db hnone hturn ih =>
    obtain ⟨front, back, new, h⟩ := ih
    have hadv := (Option.or_eq_none_iff.mp hnone).2
    simp only [hnone, hturn]
    exact ⟨front, e :: back, .deleted e :: new, h.s3, congrArg (e :: ·) h.db, h.ascends,
      h.ascends'.cons h.db hadv, by rw [h.calls, append_assoc]; rfl, h.imports,
      h.deletes.cons_cons e, h.whole⟩
  | case5 calls e s3 e' db err herr hturn =>
    simp only [herr, hturn]
    exact ⟨[e], [e'], [], rfl, rfl, isChain_singleton e, isChain_singleton e',
      (append_nil _).symm, nil_sublist _, nil_sublist _, fun h => by cases h⟩
  | case6 calls e s3 e' db hnone hturn ih =>
    obtain ⟨front, back, new, h⟩ := ih
    obtain ⟨hadv, hadv'⟩ := Option.or_eq_none_iff.mp hnone
    simp only [hnone, hturn]
    exact ⟨e :: front, e' :: back, new, congrArg (e :: ·) h.s3, congrArg (e' :: ·) h.db,
      h.ascends.cons h.s3 hadv, h.ascends'.cons h.db hadv', h.calls, h.imports.cons e,
      h.deletes.cons e', h.whole⟩
  | case7 calls s3 db hleft hright hboth =>
    obtain ⟨rfl, rfl⟩ := empty_of_done hleft hright hboth
    exact ⟨[], [], [], rfl, rfl, isChain_nil, isChain_nil, (append_nil _).symm,
      refl _, refl _, fun _ => ⟨rfl, rfl⟩⟩

/-! ## Ascending streams -/

instance : IsTrans Entry fun a b => a.key < b.key := ⟨fun _ _ _ => lt_trans⟩

theorem Ascending.below (h : Ascending (e :: l)) : ∀ x ∈ l, e.key < x.key :=
  (pairwise_cons.mp (isChain_iff_pairwise.mp h)).1

theorem Ascending.below_of_head (h : Ascending l) (hlt : ∀ k ∈ l.head?.map Entry.key, e.key < k) :
    ∀ x ∈ l, e.key < x.key :=
  Ascending.below (isChain_cons.mpr ⟨fun n hn => hlt n.key (Option.mem_map_of_mem _ hn), h⟩)

theorem only_keep (h : ∀ x ∈ r, e.key < x.key) : only (e :: l) r = e :: only l r :=
  filter_cons_of_pos (decide_eq_true fun x hx => (h x hx).ne')

theorem only_drop {e' : Entry} (h : e'.key = e.key) : only (e :: l) (e' :: r) = only l (e' :: r) :=
  filter_cons_of_neg (by simp [h])

theorem only_skip (h : ∀ x ∈ l, e.key < x.key) : only l (e :: r) = only l r :=
  filter_congr fun x hx => by simp [(h x hx).ne]

theorem only_eq_nil (h : ∀ k ∈ l.map Entry.key, k ∈ r.map Entry.key) : only l r = [] := by
  refine filter_eq_nil_iff.mpr fun e he hnot => ?_
  obtain ⟨e', he', hk⟩ := mem_map.mp (h _ (mem_map_of_mem he))
  exact of_decide_eq_true hnot e' he' hk

/-- No handler fails on an entry only one of the streams has, and both streams end well. -/
structure Env.Clean (o : Env ε) (s3 db : List Entry) : Prop where
  imports : ∀ e ∈ only s3 db, ∀ calls, o.onImport calls e = none
  deletes : ∀ e ∈ only db s3, ∀ calls, o.onDelete calls e = none
  ends : ∀ side, o.ends side = none

theorem rounds_exact (o : Env ε) (calls : List Call) (s3 db : List Entry) (hs3 : Ascending s3)
    (hdb : Ascending db) :
    (o.Clean s3 db → (rounds o calls s3 db).err = none) ∧
    ((rounds o calls s3 db).err = none →
      imports (rounds o calls s3 db).calls = imports calls ++ only s3 db ∧
        deletes (rounds o calls s3 db).calls = deletes calls ++ only db s3) := by
  fun_induction rounds o calls s3 db with
  | case1 calls e s3 db err hsome hturn =>
    obtain ⟨_, he, hlt⟩ := turn_left hturn
    obtain rfl := Option.some.inj he
    simp only [hsome, hturn]
    refine ⟨fun ho => ?_, nofun⟩
    have hfree := ho.imports e (only_keep (hdb.below_of_head hlt) ▸ mem_cons_self) calls
    simp [hfree, advance_of_ascending ho.ends hs3] at hsome
  | case2 calls e s3 db hnone hturn ih =>
    obtain ⟨_, he, hlt⟩ := turn_left hturn
    obtain rfl := Option.some.inj he
    obtain ⟨hruns, hexact⟩ := ih hs3.tail hdb
    have hkeep := only_keep (l := s3) (hdb.below_of_head hlt)
    have hskip := only_skip (r := s3) (hdb.below_of_head hlt)
    simp only [hnone, hturn]
    refine ⟨fun ho => hruns ⟨fun x hx => ho.imports x (hkeep ▸ mem_cons_of_mem e hx),
      hskip ▸ ho.deletes, ho.ends⟩, fun herr => ?_⟩
    rw [(hexact herr).1, (hexact herr).2, hkeep, hskip]
    exact ⟨by simp [imports], by simp [deletes]⟩
  | case3 calls s3 e db err hsome hturn =>
    obtain ⟨_, he, hlt⟩ := turn_right hturn
    obtain rfl := Option.some.inj he
    simp only [hsome, hturn]
    refine ⟨fun ho => ?_, nofun⟩
    have hfree := ho.deletes e (only_keep (hs3.below_of_head hlt) ▸ mem_cons_self) calls
    simp [hfree, advance_of_ascending ho.ends hdb] at hsome
  | case4 calls s3 e db hnone hturn ih =>
    obtain ⟨_, he, hlt⟩ := turn_right hturn
    obtain rfl := Option.some.inj he
    obtain ⟨hruns, hexact⟩ := ih hs3 hdb.tail
    have hkeep := only_keep (l := db) (hs3.below_of_head hlt)
    have hskip := only_skip (r := db) (hs3.below_of_head hlt)
    simp only [hnone, hturn]
    refine ⟨fun ho => hruns ⟨hskip ▸ ho.imports,
      fun x hx => ho.deletes x (hkeep ▸ mem_cons_of_mem e hx), ho.ends⟩, fun herr => ?_⟩
    rw [(hexact herr).1, (hexact herr).2, hkeep, hskip]
    exact ⟨by simp [imports], by simp [deletes]⟩
  | case5 calls e s3 e' db err hsome hturn =>
    simp only [hsome, hturn]
    refine ⟨fun ho => ?_, nofun⟩
    simp [advance_of_ascending ho.ends hs3, advance_of_ascending ho.ends hdb] at hsome
  | case6 calls e s3 e' db hnone hturn ih =>
    obtain ⟨_, he, he'⟩ := turn_both hturn
    have hkey : e.key = e'.key := Option.some.inj (he.trans he'.symm)
    have hleft : only (e :: s3) (e' :: db) = only s3 db :=
      (only_drop hkey.symm).trans (only_skip (hkey ▸ hs3.below))
    have hright : only (e' :: db) (e :: s3) = only db s3 :=
      (only_drop hkey).trans (only_skip (hkey ▸ hdb.below))
    obtain ⟨hruns, hexact⟩ := ih hs3.tail hdb.tail
    simp only [hnone, hturn, hleft, hright]
    exact ⟨fun ho => hruns ⟨hleft ▸ ho.imports, hright ▸ ho.deletes, ho.ends⟩, hexact⟩
  | case7 calls s3 db hleft hright hboth =>
    obtain ⟨rfl, rfl⟩ := empty_of_done hleft hright hboth
    exact ⟨fun _ => rfl, fun _ => ⟨(append_nil _).symm, (append_nil _).symm⟩⟩

/-! ## The merge -/

theorem sorted_took (o : Env ε) (s3 db : List Entry) :
    ∃ front back new, Took [] s3 db (sorted o s3 db) front back new := by
  rw [sorted]
  split
  · exact ⟨[], [], [], rfl, rfl, isChain_nil, isChain_nil, rfl, refl _, refl _, fun h => by cases h⟩
  · exact rounds_took o [] s3 db

theorem front_of_step {front rest a b : List Entry} {x y : Entry} (hfront : Ascending front)
    (heq : a ++ x :: y :: b = front ++ rest) (hxy : ¬ x.key < y.key) :
    front <+: a ++ [x] ∧ rest ≠ [] := by
  have hnot : ¬ a ++ [x, y] <+: front := by
    rintro ⟨c, rfl⟩
    have hchain : (a ++ x :: y :: c).IsChain fun a b => a.key < b.key := by
      simpa [Ascending] using hfront
    exact hxy (isChain_append_cons_cons.mp hchain).2.1
  have hpair : a ++ [x, y] <+: front ++ rest := ⟨b, by simp [← heq]⟩
  refine ⟨?_, ?_⟩
  · have hle := ( prefix_or_prefix_of_prefix hpair ⟨rest, rfl⟩).resolve_left hnot
    have hcut : front <+: (a ++ [x]) ++ [y] := by simpa using hle
    exact (prefix_concat_iff.mp hcut).resolve_left fun h => hnot (by simp [h])
  · rintro rfl
    exact hnot (by simpa using hpair)

theorem sorted_calls (hs3 : Ascending s3) (hdb : Ascending db)
    (herr : (sorted o s3 db).err = none) :
    imports (sorted o s3 db).calls = only s3 db ∧ deletes (sorted o s3 db).calls = only db s3 := by
  rw [sorted] at herr ⊢
  split at herr
  · cases herr
  · exact (rounds_exact o [] s3 db hs3 hdb).2 herr

theorem sorted_err (hs3 : Ascending s3) (hdb : Ascending db)
    (ho : o.Clean s3 db) : (sorted o s3 db).err = none := by
  have hnone (side : Side) (l : List Entry) : advance o side none l = none := by
    cases l <;> simp [advance, advanceCursor, ho.ends side]
  simpa [sorted, hnone] using (rounds_exact o [] s3 db hs3 hdb).1 ho

theorem ascending_of_sorted (herr : (sorted o s3 db).err = none) :
    Ascending s3 ∧ Ascending db ∧ (sorted o s3 db).s3 = [] ∧ (sorted o s3 db).db = [] := by
  obtain ⟨front, back, new, h⟩ := sorted_took o s3 db
  obtain ⟨hs3, hdb⟩ := h.whole herr
  have hfront := h.s3
  have hback := h.db
  rw [hs3, append_nil] at hfront
  rw [hdb, append_nil] at hback
  exact ⟨hfront ▸ h.ascends, hback ▸ h.ascends', hs3, hdb⟩

/-- **The merge is exact.** Of two ascending streams the handlers see the entries only one of them
has. Without an error both were read to their end. A stream that does not ascend ends the merge
before a handler sees the entry that steps back. -/
theorem sorted_exact (o : Env ε) (s3 db : List Entry) :
    (Ascending s3 → Ascending db → o.Succeeds → (sorted o s3 db).err = none ∧
      imports (sorted o s3 db).calls = only s3 db ∧ deletes (sorted o s3 db).calls = only db s3) ∧
    ((sorted o s3 db).err = none → Ascending s3 ∧ Ascending db ∧
      (sorted o s3 db).s3 = [] ∧ (sorted o s3 db).db = []) ∧
    ∀ a x y b, ¬ x.key < y.key →
      (s3 = a ++ x :: y :: b → (sorted o s3 db).err ≠ none ∧
        (imports (sorted o s3 db).calls).Sublist (a ++ [x])) ∧
      (db = a ++ x :: y :: b → (sorted o s3 db).err ≠ none ∧
        (deletes (sorted o s3 db).calls).Sublist (a ++ [x])) := by
  obtain ⟨front, back, new, h⟩ := sorted_took o s3 db
  have hnew : (sorted o s3 db).calls = new := h.calls
  refine ⟨fun hs3 hdb ho => ?_, ascending_of_sorted, fun a x y b hxy =>
    ⟨fun heq => ?_, fun heq => ?_⟩⟩
  · have herr := sorted_err hs3 hdb
      ⟨fun e _ calls => (ho.1 calls e).1, fun e _ calls => (ho.1 calls e).2, ho.2⟩
    exact ⟨herr, sorted_calls hs3 hdb herr⟩
  · obtain ⟨hsub, hrest⟩ := front_of_step h.ascends (heq.symm.trans h.s3) hxy
    exact ⟨fun herr => hrest (h.whole herr).1, hnew ▸ h.imports.trans hsub.sublist⟩
  · obtain ⟨hsub, hrest⟩ := front_of_step h.ascends' (heq.symm.trans h.db) hxy
    exact ⟨fun herr => hrest (h.whole herr).2, hnew ▸ h.deletes.trans hsub.sublist⟩

/-! ## Repeated passes -/

/-- The ledger's paths after a merge: what it imported is there, what it deleted is not. -/
def FollowsCalls (calls : List Call) (db db' : List Entry) : Prop :=
  ∀ k, k ∈ db'.map Entry.key ↔ k ∈ (imports calls).map Entry.key ∨
    k ∈ db.map Entry.key ∧ k ∉ (deletes calls).map Entry.key

theorem followsCalls_iff {db' : List Entry} (herr : (sorted o s3 db).err = none) :
    FollowsCalls (sorted o s3 db).calls db db' ↔
      ∀ k, k ∈ db'.map Entry.key ↔ k ∈ s3.map Entry.key := by
  obtain ⟨hs3, hdb, -⟩ := ascending_of_sorted herr
  obtain ⟨himp, hdel⟩ := sorted_calls hs3 hdb herr
  refine forall_congr' fun k => ?_
  simp only [himp, hdel, only, mem_map]
  grind

/-- **Reconciling twice is reconciling once.** When a merge has run through and the ledger has
followed it, the next merge over the same listing calls no handler. -/
theorem second_merge_idle (o o' : Env ε) (hends : ∀ side, o'.ends side = none)
    (s3 db db' : List Entry) (herr : (sorted o s3 db).err = none) (hdb' : Ascending db')
    (hfollows : FollowsCalls (sorted o s3 db).calls db db') :
    (sorted o' s3 db').calls = [] ∧ (sorted o' s3 db').err = none := by
  have hkeys := (followsCalls_iff herr).mp hfollows
  have hnew : only s3 db' = [] := only_eq_nil fun k => (hkeys k).mpr
  have hgone : only db' s3 = [] := only_eq_nil fun k => (hkeys k).mp
  have hs3 := (ascending_of_sorted herr).1
  have herr' : (sorted o' s3 db').err = none :=
    sorted_err hs3 hdb' ⟨by simp [hnew], by simp [hgone], hends⟩
  obtain ⟨himp, hdel⟩ := sorted_calls hs3 hdb' herr'
  rw [hnew] at himp
  rw [hgone] at hdel
  refine ⟨?_, herr'⟩
  -- No call is an import and none a delete.
  rcases hcalls : (sorted o' s3 db').calls with _ | ⟨_ | _, _⟩ <;> rw [hcalls] at himp hdel
  · cases himp
  · cases hdel

/-- A listed path that the ledger lacks, and a row that is not listed. In the second merge a handler
would fail. -/
theorem second_merge_idle_one :
    (sorted (⟨fun _ _ => some (), fun _ _ => some (), fun _ => none⟩ : Env Unit) [{ key := "a" }]
      [{ key := "a" }]).calls = [] := by
  have herr : (sorted (⟨fun _ _ => none, fun _ _ => none, fun _ => none⟩ : Env Unit)
      [{ key := "a" }] [{ key := "b" }]).err = none :=
    sorted_err (.singleton _) (.singleton _) ⟨by simp, by simp, by simp⟩
  exact (second_merge_idle _ _ (fun _ => rfl) _ [{ key := "b" }] _ herr (.singleton _)
    ((followsCalls_iff herr).mpr fun _ => Iff.rfl)).1

end S3Orchestrator.SortedMerge
