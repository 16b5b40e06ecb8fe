import S3Orchestrator.Lib.TextOrder
import Mathlib.Order.Fin.Basic

/-!
# The newest copy without the ledger

A write stores its bytes under the object's key, a separator and an id of its own. When the ledger
is down, a read lists the backend from the object's key on, stops at the first path past the copies,
and takes the newest of the paths that look like a copy of the key.

* **`newest_own_iff`**.
-/

namespace S3Orchestrator.Newest

open List TextOrder

abbrev Path : Type := List (Fin 256)

def writeSeparator : Path := [33]

def copyPrefixOf (objectKey : Path) : Path := objectKey ++ writeSeparator

def storageKey (objectKey intentID : Path) : Path := copyPrefixOf objectKey ++ intentID

def writeIDLength : Nat := 32

def isHex (c : Fin 256) : Bool := (48 ≤ c && c ≤ 57) || (97 ≤ c && c ≤ 102)

def isCopyOf (objectKey path : Path) : Bool :=
  path == objectKey ||
    ((copyPrefixOf objectKey).isPrefixOf path &&
      (path.drop (copyPrefixOf objectKey).length).length == writeIDLength &&
      (path.drop (copyPrefixOf objectKey).length).all isHex)

structure ListedObject where
  key : Path
  sizeBytes : Nat
  lastModified : Nat

/-- The newest match so far. -/
structure Best where
  newest : Path
  size : Nat := 0
  newestAt : Nat := 0
  found : Bool := false

def Best.offer (key : Path) (b : Best) (o : ListedObject) : Best :=
  if !isCopyOf key o.key then b
  else if !b.found || b.newestAt < o.lastModified then ⟨o.key, o.sizeBytes, o.lastModified, true⟩
  else b

def visitPage (key : Path) (b : Best) : List ListedObject → Best × Bool
  | [] => (b, false)
  | o :: page =>
    if copyPrefixOf key < o.key ∧ ¬ copyPrefixOf key <+: o.key then (b, true)
    else visitPage key (b.offer key o) page

def visitPages (key : Path) (b : Best) : List (List ListedObject) → Best
  | [] => b
  | page :: pages =>
    match visitPage key b page with
    | (b, true) => b
    | (b, false) => visitPages key b pages

def newestCopy (key : Path) (pages : List (List ListedObject)) : Path × Nat :=
  let b := visitPages key { newest := key } pages
  (b.newest, b.size)

/-! ## The path scheme -/

/-- A write of an object, whose bytes sit at its own path. -/
structure Write where
  key : Path
  id : Path
  size : Nat
  modified : Nat
  hex : id.length = writeIDLength ∧ id.all isHex = true

def Write.path (w : Write) : Path := storageKey w.key w.id

def Write.listed (w : Write) : ListedObject := ⟨w.path, w.size, w.modified⟩

variable {key : Path} {w w' : Write} {b : Best} {o : ListedObject}

theorem Write.isCopyOf_key (w : Write) : isCopyOf w.key w.path = true := by
  simp [isCopyOf, Write.path, storageKey, w.hex]

theorem Write.key_of_isCopyOf (h : isCopyOf key w.path = true) (hne : w.path ≠ key) :
    w.key = key := by
  obtain ⟨⟨⟨t, ht⟩, hlen⟩, -⟩ : (copyPrefixOf key <+: w.path ∧
      (w.path.drop (copyPrefixOf key).length).length = writeIDLength) ∧ _ := by
    simpa [isCopyOf, hne] using h
  have hsplit : copyPrefixOf w.key ++ w.id = copyPrefixOf key ++ t := ht.symm
  have htl : w.id.length = t.length := by
    rw [w.hex.1, ← hlen, ← ht, drop_left]
  exact (append_inj' (append_inj' hsplit htl).1 rfl).1

theorem lt_copyPrefixOf (key : Path) : key < copyPrefixOf key := by
  refine lt_of_le_of_ne (le_of_isPrefix (prefix_append _ _)) fun h => ?_
  simpa [copyPrefixOf, writeSeparator] using congrArg length h

theorem copyPrefixOf_of_isCopyOf (h : isCopyOf key o.key = true) (hne : o.key ≠ key) :
    copyPrefixOf key <+: o.key := by
  simp only [isCopyOf, beq_iff_eq, hne, Bool.or_eq_true, Bool.and_eq_true, false_or] at h
  exact isPrefixOf_iff_prefix.mp h.1.1

theorem not_isCopyOf_of_le {path : Path} (hlt : copyPrefixOf key < path)
    (hnot : ¬ copyPrefixOf key <+: path) (hle : path ≤ o.key) : isCopyOf key o.key = false := by
  by_contra h
  have h : isCopyOf key o.key = true := by simpa using h
  by_cases heq : o.key = key
  · exact absurd (lt_copyPrefixOf key) (heq ▸ hlt.trans_le hle).asymm
  · exact hnot (isPrefix_of_between (copyPrefixOf_of_isCopyOf h heq) hlt.le hle)

/-! ## The search -/

def Ascending (l : List ListedObject) : Prop := l.Pairwise fun a b => a.key < b.key

theorem offer_fold_of_none {l : List ListedObject}
    (h : ∀ o ∈ l, isCopyOf key o.key = false) : l.foldl (Best.offer key) b = b := by
  induction l with
  | nil => rfl
  | cons o l ih =>
    have ho := h o mem_cons_self
    simp only [foldl_cons, Best.offer, ho]
    exact ih fun x hx => h x (mem_cons_of_mem _ hx)

theorem visitPage_eq {page rest : List ListedObject} (h : Ascending (page ++ rest)) :
    (page ++ rest).foldl (Best.offer key) b =
      if (visitPage key b page).2 then (visitPage key b page).1
      else rest.foldl (Best.offer key) (visitPage key b page).1 := by
  induction page generalizing b with
  | nil => simp [visitPage]
  | cons o page ih =>
    obtain ⟨hlt, htail⟩ := pairwise_cons.mp h
    by_cases hend : copyPrefixOf key < o.key ∧ ¬ copyPrefixOf key <+: o.key
    · simp only [visitPage, if_pos hend]
      refine offer_fold_of_none fun x hx => not_isCopyOf_of_le hend.1 hend.2 ?_
      rcases mem_cons.mp hx with rfl | hx
      · exact le_rfl
      · exact (hlt x hx).le
    · simp only [visitPage, if_neg hend]
      exact ih htail

theorem visitPages_eq {pages : List (List ListedObject)} (h : Ascending pages.flatten) :
    visitPages key b pages = pages.flatten.foldl (Best.offer key) b := by
  induction pages generalizing b with
  | nil => rfl
  | cons page pages ih =>
    rw [flatten_cons] at h ⊢
    rw [visitPage_eq h, visitPages]
    rcases hv : visitPage key b page with ⟨b', _ | _⟩
    · exact ih (pairwise_append.mp h).2.1
    · rfl

def FirstNewest (key : Path) (l : List ListedObject) (b : Best) : Prop :=
  ((∀ o ∈ l, isCopyOf key o.key = false) ∧ b = { newest := key }) ∨
    ∃ before o rest, l = before ++ o :: rest ∧ isCopyOf key o.key = true ∧
      b = ⟨o.key, o.sizeBytes, o.lastModified, true⟩ ∧
      (∀ x ∈ before, isCopyOf key x.key = true → x.lastModified < o.lastModified) ∧
      ∀ x ∈ rest, isCopyOf key x.key = true → x.lastModified ≤ o.lastModified

theorem firstNewest_offer {l : List ListedObject} (h : FirstNewest key l b) (o : ListedObject) :
    FirstNewest key (l ++ [o]) (b.offer key o) := by
  unfold Best.offer
  by_cases hc : isCopyOf key o.key = true
  · simp only [hc, Bool.not_true]
    rcases h with ⟨hnone, rfl⟩ | ⟨before, best, rest, rfl, hbest, rfl, hbefore, hrest⟩
    · refine .inr ⟨l, o, [], rfl, hc, rfl, fun x hx hxc => ?_, fun x hx => by cases hx⟩
      exact absurd hxc (by simp [hnone x hx])
    · by_cases hlt : best.lastModified < o.lastModified
      · refine .inr ⟨_, o, [], rfl, hc, by simp [hlt], fun x hx hxc => ?_, fun x hx => by cases hx⟩
        rcases mem_append.mp hx with hx | hx
        · exact (hbefore x hx hxc).trans hlt
        · rcases mem_cons.mp hx with rfl | hx
          · exact hlt
          · exact (hrest x hx hxc).trans_lt hlt
      · refine .inr ⟨before, best, rest ++ [o], by simp, hbest, by simp [hlt], hbefore, ?_⟩
        intro x hx hxc
        rcases mem_append.mp hx with hx | hx
        · exact hrest x hx hxc
        · exact mem_singleton.mp hx ▸ not_lt.mp hlt
  · simp only [hc]
    rcases h with ⟨hnone, rfl⟩ | ⟨before, best, rest, rfl, hbest, rfl, hbefore, hrest⟩
    · refine .inl ⟨fun x hx => ?_, rfl⟩
      rcases mem_append.mp hx with hx | hx
      · exact hnone x hx
      · exact mem_singleton.mp hx ▸ by simpa using hc
    · refine .inr ⟨before, best, rest ++ [o], by simp, hbest, rfl, hbefore, fun x hx hxc => ?_⟩
      rcases mem_append.mp hx with hx | hx
      · exact hrest x hx hxc
      · exact absurd (mem_singleton.mp hx ▸ hxc) hc

theorem firstNewest_fold (key : Path) (l : List ListedObject) :
    FirstNewest key l (l.foldl (Best.offer key) { newest := key }) := by
  induction l using reverseRecOn with
  | nil => exact .inl ⟨fun o ho => absurd ho not_mem_nil, rfl⟩
  | append_singleton l o ih =>
    rw [foldl_append]
    exact firstNewest_offer ih o

/-- The pages list the backend's objects from the key on, in byte order. -/
structure Lists (writes : List Write) (key : Path) (pages : List (List ListedObject)) : Prop where
  ascending : Ascending pages.flatten
  mem : ∀ o, o ∈ pages.flatten ↔ ∃ w ∈ writes, w.listed = o ∧ key <+: w.path

def Finds (writes : List Write) (key : Path) (result : Path × Nat) : Prop :=
  (∃ w ∈ writes, w.key = key ∧ result = (w.path, w.size) ∧
    ∀ w' ∈ writes, w'.key = key → w'.modified ≤ w.modified) ∨
  (∀ w ∈ writes, w.key ≠ key) ∧ (∀ w ∈ writes, w.path ≠ key) ∧ result = (key, 0)

theorem Write.key_lt_path (w : Write) : w.key < w.path :=
  (lt_copyPrefixOf w.key).trans_le (le_of_isPrefix (prefix_append _ _))

/-- **The search finds the key's own newest copy**, exactly if no write of another key sits at the
key itself, or an own copy is newer. -/
theorem newest_own_iff (writes : List Write) (key : Path) (pages : List (List ListedObject))
    (h : Lists writes key pages) :
    Finds writes key (newestCopy key pages) ↔
      ∀ w ∈ writes, w.path = key → ∃ w' ∈ writes, w'.key = key ∧ w.modified < w'.modified := by
  have hlisted : ∀ w ∈ writes, isCopyOf key w.path = true → w.listed ∈ pages.flatten := by
    intro w hw hc
    refine (h.mem _).mpr ⟨w, hw, rfl, ?_⟩
    by_cases heq : w.path = key
    · exact heq ▸ prefix_rfl
    · exact (prefix_append _ _).trans (copyPrefixOf_of_isCopyOf (o := w.listed) hc heq)
  have hown : ∀ w ∈ writes, w.key = key → w.listed ∈ pages.flatten :=
    fun w hw hk => hlisted w hw (hk ▸ w.isCopyOf_key)
  unfold newestCopy
  rw [visitPages_eq h.ascending]
  rcases firstNewest_fold key pages.flatten with
    ⟨hnone, hb⟩ | ⟨before, o, rest, hsplit, hcopy, hb, hbefore, hrest⟩ <;> rw [hb]
  · -- No match: the key has no copy, and nothing sits at it.
    have hpath : ∀ w ∈ writes, w.path ≠ key := by
      intro w hw heq
      have := hnone _ (hlisted w hw (by simp [isCopyOf, heq]))
      simp [isCopyOf, Write.listed, heq] at this
    refine ⟨fun _ w hw heq => absurd heq (hpath w hw), fun _ =>
      .inr ⟨fun w hw hk => ?_, hpath, rfl⟩⟩
    have := hnone _ (hown w hw hk)
    simp [Write.listed, ← hk, w.isCopyOf_key] at this
  · obtain ⟨w₀, hw₀, rfl, -⟩ := (h.mem o).mp (hsplit ▸ by simp)
    have hmost : ∀ w ∈ writes, isCopyOf key w.path = true → w.modified ≤ w₀.modified := by
      intro w hw hc
      have hmem := hlisted w hw hc
      rw [hsplit] at hmem
      rcases mem_append.mp hmem with hmem | hmem
      · exact (hbefore _ hmem hc).le
      · rcases mem_cons.mp hmem with heq | hmem
        · exact (congrArg ListedObject.lastModified heq).le
        · exact hrest _ hmem hc
    constructor
    · rintro (⟨w, hw, hk, hres, hmax⟩ | ⟨-, hpath, -⟩) w' hw' heq
      · -- The bare path comes first, so what was found after it is newer.
        have hc : isCopyOf key w'.path = true := by simp [isCopyOf, heq]
        have hmem := hlisted w' hw' hc
        have hpath : w₀.path = w.path := congrArg Prod.fst hres
        have hafter : key < w₀.path := hpath ▸ hk ▸ w.key_lt_path
        rw [hsplit] at hmem
        have hasc := h.ascending
        rw [hsplit] at hasc
        have hfirst : w'.listed ∈ before := by
          refine (mem_append.mp hmem).resolve_right fun hmem => ?_
          rcases mem_cons.mp hmem with hsame | hmem
          · exact hafter.ne (heq.symm.trans (congrArg ListedObject.key hsame))
          · have hlt := (pairwise_cons.mp (pairwise_append.mp hasc).2.1).1 _ hmem
            exact absurd (heq ▸ hlt : w₀.path < key) hafter.asymm
        refine ⟨w₀, hw₀, ?_, hbefore _ hfirst hc⟩
        exact Write.key_of_isCopyOf hcopy hafter.ne'
      · exact absurd heq (hpath w' hw')
    · intro hnewer
      by_cases heq : w₀.path = key
      · obtain ⟨w, hw, hk, hlt⟩ := hnewer w₀ hw₀ heq
        exact absurd (hmost w hw (hk ▸ w.isCopyOf_key)) hlt.not_ge
      · refine .inl ⟨w₀, hw₀, Write.key_of_isCopyOf hcopy heq, rfl, fun w hw hk => ?_⟩
        exact hmost w hw (hk ▸ w.isCopyOf_key)

def sample (key : Path) (modified : Nat) : Write := ⟨key, replicate 32 48, 3, modified, by decide⟩

def later (modified : Nat) : Write := ⟨[97], replicate 32 49, 5, modified, by decide⟩

/-- Two copies of the key on two pages, the older one listed last, and a write of another key. -/
theorem newest_own_two :
    newestCopy [97] [[(sample [97] 2).listed], [(later 1).listed]] = ((sample [97] 2).path, 3) ∧
    Finds [sample [97] 2, sample [98] 3, later 1] [97]
      (newestCopy [97] [[(sample [97] 2).listed], [(later 1).listed]]) := by
  have hlists : Lists [sample [97] 2, sample [98] 3, later 1] [97]
      [[(sample [97] 2).listed], [(later 1).listed]] := by
    refine ⟨pairwise_pair.mpr (by decide), fun o => ?_⟩
    simp [sample, later, Write.listed, Write.path, storageKey, copyPrefixOf, writeSeparator,
      eq_comm]
  exact ⟨by decide, (newest_own_iff _ _ _ hlists).mpr (by decide)⟩

/-- A requested key that is the path of another key's write: the search returns that write. -/
theorem path_as_key_found :
    Lists [sample [97] 1] (sample [97] 1).path [[(sample [97] 1).listed]] ∧
    newestCopy (sample [97] 1).path [[(sample [97] 1).listed]] = ((sample [97] 1).path, 3) ∧
    ¬ Finds [sample [97] 1] (sample [97] 1).path
      (newestCopy (sample [97] 1).path [[(sample [97] 1).listed]]) := by
  refine ⟨⟨pairwise_singleton _ _, fun o => by simp [eq_comm]⟩, by decide, ?_⟩
  rintro (⟨w, hw, hk, -⟩ | ⟨-, hpath, -⟩)
  · obtain rfl := mem_singleton.mp hw
    exact (sample [97] 1).key_lt_path.ne hk
  · exact hpath _ mem_cons_self rfl

end S3Orchestrator.Newest
