import S3Orchestrator.Expiry.Listing
import S3Orchestrator.Lib.SkipScan
import S3Orchestrator.Lib.TextOrder

/-!
# Listing a page

A page of the keys under a prefix after a cursor. With a delimiter the keys that hold it behind the
prefix are folded into their common prefixes, and the store finds one key of each by seeks.

* **`seekFrom_le_iff`**, **`resumeFrom_le_iff`**: the seek and the cursor behind an entry leave the
  keys that are listed after it;
* **`listObjects_spec`**: what a page holds.
-/

namespace S3Orchestrator.Listing

open TextOrder SkipScan List ObjectLocation

/-! ## Pages -/

structure ListObjectsResult where
  objects : List ObjectLocation := []
  commonPrefixes : List String := []
  isTruncated : Bool := false
  nextContinuationToken : String := ""

def trimPage {α : Type} (rows : List α) (limit : Nat) : List α × Bool :=
  if limit < rows.length then (rows.take limit, true) else (rows, false)

theorem trimPage_of_length {α : Type} {rows : List α} {limit total : Nat}
    (h : rows.length = min (limit + 1) total) :
    trimPage rows limit = (rows.take limit, decide (limit < total)) := by
  rw [trimPage]
  split_ifs with hlong
  · rw [decide_eq_true (by omega)]
  · rw [take_of_length_le (by omega), decide_eq_false (by omega)]

def commonPrefix (keyPrefix delimiter key : String) : Option String :=
  if ¬keyPrefix.toList <+: key.toList ∨ delimiter = "" then none
  else
    match cutBefore delimiter.toList (key.toList.drop keyPrefix.toList.length) with
    | none => none
    | some child => some (String.ofList (key.toList.take
        (keyPrefix.toList.length + child.length + delimiter.toList.length)))

structure Gathered where
  objects : List ObjectLocation := []
  commonPrefixes : List String := []
  last : String := ""

def Gathered.add (keyPrefix delimiter : String) (g : Gathered) (row : ObjectLocation) : Gathered :=
  match commonPrefix keyPrefix delimiter row.objectKey with
  | some group => { g with commonPrefixes := g.commonPrefixes ++ [group], last := group }
  | none => { g with objects := g.objects ++ [row], last := row.objectKey }

def buildPage (rows : List ObjectLocation) (keyPrefix delimiter : String) (maxKeys : Nat) :
    ListObjectsResult :=
  let (rows, truncated) := trimPage rows maxKeys
  let g := rows.foldl (Gathered.add keyPrefix delimiter) {}
  { objects := g.objects
    commonPrefixes := g.commonPrefixes
    isTruncated := truncated
    nextContinuationToken := if truncated then g.last else "" }

def resumeFrom (keyPrefix delimiter startAfter : String) : String :=
  if commonPrefix keyPrefix delimiter startAfter = some startAfter then prefixEnd startAfter
  else keysFrom keyPrefix startAfter

variable {ε : Type}

def listPage (flat : String → String → Nat → Except ε (List ObjectLocation))
    (delimited : String → String → String → String → Nat → Except ε (List ObjectLocation))
    (keyPrefix delimiter startAfter : String) (maxKeys : Int) : Except ε ListObjectsResult :=
  if maxKeys ≤ 0 then .ok {}
  else do
    let lo := resumeFrom keyPrefix delimiter startAfter
    let hi := prefixEnd keyPrefix
    let rows ←
      if delimiter = "" then flat lo hi (maxKeys + 1).toNat
      else delimited keyPrefix delimiter lo hi (maxKeys + 1).toNat
    .ok (buildPage rows keyPrefix delimiter maxKeys.toNat)

/-! ## The SQLite readers -/

section Sqlite

variable (rows : List ObjectLocation)

def listedIdentity (etag : String) : Option ObjectIdentity :=
  if etag = "" then none else some ⟨etag, "", []⟩

def recordedSize (l : ObjectLocation) : Int :=
  if l.storedForm.compressionAlgorithm ≠ "" then l.storedForm.logicalSize
  else if l.storedForm.encrypted then l.storedForm.plaintextSize
  else l.sizeBytes

def slim (l : ObjectLocation) : ObjectLocation where
  objectKey := l.objectKey
  backendName := l.backendName
  storageKey := l.storageKey
  sizeBytes := recordedSize l
  createdAt := l.createdAt
  identity := listedIdentity ((l.identity.map ObjectIdentity.eTag).getD "")

def managedKeys : List String :=
  (((rows.filter fun l => !l.unmanaged).map ObjectLocation.objectKey).dedup).insertionSort (· ≤ ·)

def firstRow (key : String) : Option ObjectLocation :=
  rows.find? fun l => !l.unmanaged && decide (l.objectKey = key)

def listFlat (lo hi : String) (limit : Nat) : List ObjectLocation :=
  (((managedKeys rows).filter fun k => decide (lo ≤ k) && decide (k < hi)).take limit).filterMap
    fun k => (firstRow rows k).map slim

def instr (text sub : List Char) : Nat :=
  match cutBefore sub text with
  | none => 0
  | some before => before.length + 1

def unicode (text : List Char) : Nat := (text.head?.map Char.toNat).getD 0

def char (v : Nat) : Nat := if 0x10FFFF < v then 0xFFFD else v

/-- Just past a leaf, or at the common prefix with its last character raised, which may be a
surrogate, and so no string. -/
def seekFrom (keyPrefix delimiter key : String) : List Nat :=
  let n := keyPrefix.toList.length
  let pos := instr (key.toList.drop n) delimiter.toList
  if 0 < pos then
    let stop := n + pos + delimiter.toList.length - 2
    (key.toList.take stop).map Char.toNat ++ [char (unicode (key.toList.drop stop) + 1)]
  else points key ++ [char 1]

def seek (hi : String) (lo : List Nat) : Option String :=
  ((managedKeys rows).filter fun k => decide (lo ≤ points k) && decide (k < hi)).head?

def entryRow (keyPrefix delimiter key : String) : ObjectLocation :=
  let placeholder : ObjectLocation := { objectKey := key, backendName := "", storageKey := "" }
  if instr (key.toList.drop keyPrefix.toList.length) delimiter.toList = 0 then
    ((firstRow rows key).map slim).getD placeholder
  else placeholder

def listDelimited (keyPrefix delimiter lo hi : String) (limit : Nat) : List ObjectLocation :=
  ((walk (seek rows hi) (seekFrom keyPrefix delimiter) limit (points lo)).insertionSort
    (· ≤ ·)).map (entryRow rows keyPrefix delimiter)

def listObjects (keyPrefix delimiter startAfter : String) (maxKeys : Int) :
    Except ε ListObjectsResult :=
  listPage (fun lo hi limit => .ok (listFlat rows lo hi limit))
    (fun keyPrefix delimiter lo hi limit =>
      .ok (listDelimited rows keyPrefix delimiter lo hi limit))
    keyPrefix delimiter startAfter maxKeys

end Sqlite

/-! ## The answer to the client -/

structure XmlContent where
  key : String
  size : Int
  lastModified : Time
  eTag : String
  storageClass : String

def listStorageClass : String := "STANDARD"

structure ListPage where
  name : String
  keyPrefix : String
  delimiter : String
  maxKeys : Int
  isTruncated : Bool := false
  contents : List XmlContent := []
  commonPrefixes : List String := []
  nextToken : String := ""

def strip (bucketPrefix key : String) : String :=
  String.ofList (key.toList.drop bucketPrefix.toList.length)

def buildListContents (objects : List ObjectLocation) (prefixes : List String)
    (bucketPrefix : String) : List XmlContent × List String :=
  (objects.map fun l =>
    { key := strip bucketPrefix l.objectKey
      size := l.sizeBytes
      lastModified := l.createdAt
      eTag := match l.identity with
        | some id => if id.eTag ≠ "" then id.eTag else "\"\""
        | none => "\"\""
      storageClass := listStorageClass },
   prefixes.map (strip bucketPrefix))

/-- The page after the client's key, under a bucket's prefix. The empty prefix gives the store's own
listing. -/
def listBucketAt (rows : List ObjectLocation)
    (bucketPrefix name keyPrefix delimiter startAfter : String) (maxKeys : Int) :
    Except ε ListPage := do
  let after := if startAfter ≠ "" then bucketPrefix ++ startAfter else startAfter
  let result ← listObjects rows (bucketPrefix ++ keyPrefix) delimiter after maxKeys
  let (contents, prefixes) := buildListContents result.objects result.commonPrefixes bucketPrefix
  .ok
    { name := name
      keyPrefix := keyPrefix
      delimiter := delimiter
      maxKeys := maxKeys
      isTruncated := result.isTruncated
      contents := contents
      commonPrefixes := prefixes
      nextToken := if result.nextContinuationToken ≠ "" then
          strip bucketPrefix result.nextContinuationToken
        else "" }

def listBucket (rows : List ObjectLocation) (bucket keyPrefix delimiter startAfter : String)
    (maxKeys : Int) : Except ε ListPage :=
  listBucketAt rows (bucket ++ "/") bucket keyPrefix delimiter startAfter maxKeys

/-! ## Bounds -/

def Storable (key : String) : Prop := ∀ c ∈ key.toList, c ≠ Char.ofNat 0 ∧ c ≠ maxRune

instance Storable.decidable (key : String) : Decidable (Storable key) :=
  decidable_of_iff (key.toList.all fun c => decide (c ≠ Char.ofNat 0 ∧ c ≠ maxRune))
    (by simp [Storable])

theorem Storable.one_le {key : String} (h : Storable key) {c : Char} (hc : c ∈ key.toList) :
    1 ≤ c.toNat := by
  refine Nat.one_le_iff_ne_zero.mpr fun hzero => (h c hc).1 ?_
  rw [← Char.ofNat_toNat c, hzero]

def entryName (keyPrefix delimiter key : String) : String :=
  (commonPrefix keyPrefix delimiter key).getD key

section Bounds

variable {keyPrefix delimiter key other group : String}

theorem commonPrefix_eq (keyPrefix delimiter key : String) : commonPrefix keyPrefix delimiter key =
      (groupOf keyPrefix.toList delimiter.toList key.toList).map String.ofList := by
  have hempty : delimiter = "" ↔ delimiter.toList = [] := by
    rw [← String.toList_inj]
    rfl
  unfold commonPrefix groupOf
  by_cases hcond : keyPrefix.toList <+: key.toList ∧ delimiter.toList ≠ []
  · obtain ⟨⟨rest, hrest⟩, hne⟩ := hcond
    rw [← hrest, if_neg (by simp [hempty, hne]), if_pos ⟨prefix_append _ _, hne⟩, drop_left]
    cases hcut : cutBefore delimiter.toList rest with
    | none => rfl
    | some child =>
      obtain ⟨more, hmore⟩ := isPrefix_of_cutBefore hcut
      simp only [Option.map_some, Option.some.injEq]
      congr 1
      rw [← hmore, ← append_assoc, ← append_assoc]
      refine take_left' ?_
      simp [Nat.add_assoc]
  · rw [if_neg hcond, if_pos (by rw [hempty]; tauto)]
    rfl

theorem groupOf_of_commonPrefix (h : commonPrefix keyPrefix delimiter key = some group) :
    groupOf keyPrefix.toList delimiter.toList key.toList = some group.toList := by
  rw [commonPrefix_eq] at h
  obtain ⟨g, hg, rfl⟩ := Option.map_eq_some_iff.mp h
  rw [hg, String.toList_ofList]

theorem groupOf_of_commonPrefix_none (h : commonPrefix keyPrefix delimiter key = none) :
    groupOf keyPrefix.toList delimiter.toList key.toList = none := by
  rw [commonPrefix_eq] at h
  exact Option.map_eq_none_iff.mp h

theorem toList_entryName (keyPrefix delimiter key : String) :
    (entryName keyPrefix delimiter key).toList =
      nameOf keyPrefix.toList delimiter.toList key.toList := by
  rw [entryName, nameOf, commonPrefix_eq]
  cases groupOf keyPrefix.toList delimiter.toList key.toList with
  | none => rfl
  | some g => exact String.toList_ofList

theorem entryName_mono (h : key ≤ other) :
    entryName keyPrefix delimiter key ≤ entryName keyPrefix delimiter other := by
  rw [← not_lt, String.lt_iff_toList_lt, toList_entryName, toList_entryName, not_lt]
  refine nameOf_mono ?_
  rw [← not_lt, ← String.lt_iff_toList_lt, not_lt]
  exact h

theorem lt_entryName_iff_of_none (h : commonPrefix keyPrefix delimiter key = none) :
    entryName keyPrefix delimiter key < entryName keyPrefix delimiter other ↔ key < other := by
  rw [String.lt_iff_toList_lt, toList_entryName, toList_entryName, String.lt_iff_toList_lt,
    nameOf, groupOf_of_commonPrefix_none h]
  exact lt_nameOf_iff_of_none (groupOf_of_commonPrefix_none h)

theorem lt_entryName_iff_of_some (h : commonPrefix keyPrefix delimiter key = some group) :
    entryName keyPrefix delimiter key < entryName keyPrefix delimiter other ↔
      group ≤ other ∧ ¬group.toList <+: other.toList := by
  rw [String.lt_iff_toList_lt, toList_entryName, toList_entryName, nameOf,
    groupOf_of_commonPrefix h, ← not_lt, String.lt_iff_toList_lt, not_lt]
  exact lt_nameOf_iff_of_some (groupOf_of_commonPrefix h)

theorem lt_nextRune {c : Char} (hc : c ≠ maxRune) : c < nextRune c := by
  have hlt := toNat_lt_of_ne_maxRune hc
  change c.toNat < (nextRune c).toNat
  unfold nextRune
  split_ifs with hs
  · have hval : afterSurrogates.toNat = 0xE000 := by decide
    omega
  · rw [toNat_ofNat_of_valid (by unfold Nat.isValidChar; omega)]
    exact Nat.lt_succ_self _

theorem nextRune_le_iff {c : Char} (hc : c ≠ maxRune) (e : Char) : nextRune c ≤ e ↔ c < e := by
  constructor
  · exact fun hle => (lt_nextRune hc).trans_le hle
  · intro hlt
    by_contra hnot
    exact absurd (le_of_lt_nextRune hc (not_le.mp hnot)) (not_le.mpr hlt)

theorem prefixEnd_le_iff_of_last {init : List Char} {c : Char}
    (hsplit : keyPrefix.toList = init ++ [c]) (hc : c ≠ maxRune) :
    prefixEnd keyPrefix ≤ key ↔ keyPrefix ≤ key ∧ ¬keyPrefix.toList <+: key.toList := by
  have hend : (prefixEnd keyPrefix).toList = init ++ [nextRune c] := by
    rw [prefixEnd, hsplit, reverse_append, reverse_singleton, singleton_append,
      raiseFirst, if_neg hc]
    simp
  rw [← not_lt, ← not_lt, String.lt_iff_toList_lt, String.lt_iff_toList_lt, hend, hsplit, not_lt,
    not_lt]
  exact append_succ_le_iff (nextRune_le_iff hc)

theorem prefixEnd_le_iff (hne : keyPrefix ≠ "") (hmax : maxRune ∉ keyPrefix.toList) :
    prefixEnd keyPrefix ≤ key ↔ keyPrefix ≤ key ∧ ¬keyPrefix.toList <+: key.toList := by
  have hnil : keyPrefix.toList ≠ [] := by simpa using hne
  obtain ⟨init, c, hsplit⟩ : ∃ init c, keyPrefix.toList = init ++ [c] :=
    ⟨_, _, (dropLast_append_getLast hnil).symm⟩
  refine prefixEnd_le_iff_of_last hsplit ?_
  rintro rfl
  exact hmax (by rw [hsplit]; simp)

theorem lt_prefixEnd (h : keyPrefix.toList <+: key.toList) (hkey : Storable key) :
    key < prefixEnd keyPrefix := by
  by_cases hne : keyPrefix = ""
  · subst hne
    change key.toList < (String.ofList [maxRune]).toList
    cases hlist : key.toList with
    | nil => exact nil_lt_cons _ _
    | cons c rest =>
      have hc := (hkey c (by rw [hlist]; exact mem_cons_self)).2
      exact cons_lt_cons_iff.mpr (.inl (toNat_lt_of_ne_maxRune hc))
  · have hmax : maxRune ∉ keyPrefix.toList := fun hmem => (hkey _ (h.subset hmem)).2 rfl
    rw [← not_le, prefixEnd_le_iff hne hmax]
    exact fun hnot => hnot.2 h

theorem seekFrom_of_some (h : commonPrefix keyPrefix delimiter key = some group) :
    ∃ init c, group.toList = init ++ [c] ∧ c ∈ key.toList ∧
      seekFrom keyPrefix delimiter key = init.map Char.toNat ++ [char (c.toNat + 1)] := by
  have hgroup := groupOf_of_commonPrefix h
  obtain ⟨more, hmore⟩ := isPrefix_of_groupOf hgroup
  obtain ⟨rest, child, hkey, hne, hcut, hname⟩ := exists_of_groupOf hgroup
  obtain ⟨init, c, hsplit⟩ : ∃ init c, group.toList = init ++ [c] := by
    refine ⟨_, _, (dropLast_append_getLast ?_).symm⟩
    rw [hname]
    simp [hne]
  have hlist : key.toList = init ++ c :: more := by
    rw [← hmore, hsplit, append_assoc]
    rfl
  have hlength : keyPrefix.toList.length + (child.length + 1) + delimiter.toList.length - 2 =
      init.length := by
    have hlen := congrArg length (hname.symm.trans hsplit)
    simp only [length_append, length_singleton] at hlen
    omega
  refine ⟨init, c, hsplit, by rw [hlist]; simp, ?_⟩
  have hpos : instr (key.toList.drop keyPrefix.toList.length) delimiter.toList =
      child.length + 1 := by
    rw [instr, hkey, drop_left, hcut]
  rw [seekFrom]
  dsimp only
  rw [hpos, if_pos (Nat.succ_pos _), hlength, hlist, take_left, drop_left]
  rfl

section

variable (hunder : keyPrefix.toList <+: key.toList)
include hunder

theorem instr_eq_zero_iff (hne : delimiter ≠ "") :
    instr (key.toList.drop keyPrefix.toList.length) delimiter.toList = 0 ↔
      commonPrefix keyPrefix delimiter key = none := by
  have hdelim : delimiter.toList ≠ [] := by simpa using hne
  obtain ⟨rest, hrest⟩ := hunder
  rw [commonPrefix_eq, Option.map_eq_none_iff, ← hrest, groupOf_append hdelim,
    Option.map_eq_none_iff, drop_left, instr]
  cases cutBefore delimiter.toList rest <;> simp

theorem seekFrom_le_iff (hne : delimiter ≠ "") (hkey : Storable key) (hother : Storable other) :
    seekFrom keyPrefix delimiter key ≤ points other ↔
      entryName keyPrefix delimiter key < entryName keyPrefix delimiter other := by
  cases h : commonPrefix keyPrefix delimiter key with
  | none =>
    have hpos := (instr_eq_zero_iff hunder hne).mpr h
    have hlow : ∀ v ∈ points other, 1 ≤ v := by
      intro v hv
      obtain ⟨c, hc, rfl⟩ := mem_map.mp hv
      exact hother.one_le hc
    rw [lt_entryName_iff_of_none h, ← points_lt_iff]
    simp only [seekFrom, hpos]
    exact append_le_iff hlow
  | some group =>
    obtain ⟨init, c, hsplit, hmem, hseek⟩ := seekFrom_of_some h
    have hchar : char (c.toNat + 1) = c.toNat + 1 := by
      have := toNat_lt_of_ne_maxRune (hkey c hmem).2
      rw [char, if_neg (by omega)]
    have hpoints : points group = init.map Char.toNat ++ [c.toNat] := by
      rw [points, hsplit, map_append]
      rfl
    have habove : ∀ e, c.toNat + 1 ≤ e ↔ c.toNat < e := fun _ => Nat.succ_le_iff
    rw [hseek, hchar, lt_entryName_iff_of_some h, append_succ_le_iff habove, ← hpoints,
      points_isPrefix_iff, ← not_lt, points_lt_iff, not_lt]

theorem resumeFrom_le_iff (hkey : Storable key) (hother : Storable other)
    (hne : entryName keyPrefix delimiter key ≠ "") :
    resumeFrom keyPrefix delimiter (entryName keyPrefix delimiter key) ≤ other ↔
      entryName keyPrefix delimiter key < entryName keyPrefix delimiter other := by
  cases h : commonPrefix keyPrefix delimiter key with
  | none =>
    have hname : entryName keyPrefix delimiter key = key := by rw [entryName, h]; rfl
    have hlow : ∀ c ∈ other.toList, Char.ofNat 1 ≤ c := fun c hc => hother.one_le hc
    have hstep : (key ++ keyStep).toList = key.toList ++ [Char.ofNat 1] := String.toList_append
    have hfrom : keyPrefix ≤ key ++ keyStep := by
      rw [← not_lt, String.lt_iff_toList_lt, not_lt, hstep]
      exact le_of_isPrefix (hunder.trans (prefix_append _ _))
    rw [hname] at hne
    rw [lt_entryName_iff_of_none h, hname, resumeFrom, h, if_neg (by simp), keysFrom, if_neg hne,
      if_pos hfrom, ← not_lt, String.lt_iff_toList_lt, String.lt_iff_toList_lt, hstep, not_lt]
    exact append_le_iff hlow
  | some group =>
    have hname : entryName keyPrefix delimiter key = group := by rw [entryName, h]; rfl
    have hgroup := groupOf_of_commonPrefix h
    have hself : commonPrefix keyPrefix delimiter group = some group := by
      rw [commonPrefix_eq, groupOf_of_isPrefix hgroup (prefix_refl _)]
      exact congrArg some String.ofList_toList
    have hmax : maxRune ∉ group.toList := fun hmem =>
      (hkey _ ((isPrefix_of_groupOf hgroup).subset hmem)).2 rfl
    rw [hname] at hne
    rw [lt_entryName_iff_of_some h, hname, resumeFrom, if_pos hself]
    exact prefixEnd_le_iff hne hmax

end

theorem resumeFrom_empty (keyPrefix delimiter : String) :
    resumeFrom keyPrefix delimiter "" = keyPrefix := by
  have hnone : commonPrefix keyPrefix delimiter "" ≠ some "" := by
    intro h
    obtain ⟨rest, child, hempty, hne, -, hname⟩ := exists_of_groupOf (groupOf_of_commonPrefix h)
    exact hne (append_eq_nil_iff.mp hname.symm).2
  rw [resumeFrom, if_neg hnone]
  exact if_pos rfl

theorem points_isPrefix_seekFrom (hunder : keyPrefix.toList <+: key.toList) (hne : delimiter ≠ "") :
    points keyPrefix <+: seekFrom keyPrefix delimiter key := by
  cases h : commonPrefix keyPrefix delimiter key with
  | none =>
    have hpos := (instr_eq_zero_iff hunder hne).mpr h
    simp only [seekFrom, hpos]
    exact (points_isPrefix_iff.mpr hunder).trans (prefix_append _ _)
  | some group =>
    obtain ⟨init, c, hsplit, -, hseek⟩ := seekFrom_of_some h
    have hgroup := groupOf_of_commonPrefix h
    have hlonger := begin_isPrefix_of_groupOf hgroup
    have hinit : keyPrefix.toList <+: init := by
      rw [hsplit, prefix_concat_iff] at hlonger
      rcases hlonger with heq | hle
      · exact absurd (hsplit.trans heq.symm) (ne_of_groupOf hgroup)
      · exact hle
    rw [hseek]
    exact (hinit.map Char.toNat).trans (prefix_append _ _)

end Bounds

/-! ## The keys of a page -/

section Keys

variable {rows : List ObjectLocation} {keyPrefix delimiter key : String}

theorem mem_managedKeys :
    key ∈ managedKeys rows ↔ ∃ l ∈ rows, l.unmanaged = false ∧ l.objectKey = key := by
  simp [managedKeys, and_assoc]

theorem pairwise_managedKeys (rows : List ObjectLocation) :
    (managedKeys rows).Pairwise (· < ·) := by
  have hle := pairwise_insertionSort (· ≤ ·)
    (((rows.filter fun l => !l.unmanaged).map objectKey).dedup)
  have hnodup : (managedKeys rows).Nodup :=
    (perm_insertionSort _ _).nodup_iff.mpr (nodup_dedup _)
  exact (hle.and hnodup).imp fun h => lt_of_le_of_ne h.1 h.2

theorem firstRow_of_mem (h : key ∈ managedKeys rows) :
    ∃ l, firstRow rows key = some l ∧ l.objectKey = key := by
  obtain ⟨l, hl, hmanaged, hkey⟩ := mem_managedKeys.mp h
  have hsome : (firstRow rows key).isSome := by
    rw [firstRow, find?_isSome]
    exact ⟨l, hl, by simp [hmanaged, hkey]⟩
  obtain ⟨first, hfirst⟩ := Option.isSome_iff_exists.mp hsome
  refine ⟨first, hfirst, ?_⟩
  have := find?_some hfirst
  simp only [Bool.and_eq_true, decide_eq_true_eq] at this
  exact this.2

theorem map_firstRow {keys : List String} (h : ∀ k ∈ keys, k ∈ managedKeys rows) :
    (keys.filterMap fun k => (firstRow rows k).map slim).map objectKey = keys := by
  induction keys with
  | nil => rfl
  | cons k keys ih =>
    obtain ⟨l, hfirst, hkey⟩ := firstRow_of_mem (h k mem_cons_self)
    have hslim : (slim l).objectKey = l.objectKey := rfl
    rw [filterMap_cons, hfirst]
    dsimp only [Option.map_some]
    rw [map_cons, hslim, hkey, ih fun k' hk' => h k' (mem_cons_of_mem k hk')]

theorem entryRow_objectKey (h : key ∈ managedKeys rows) :
    (entryRow rows keyPrefix delimiter key).objectKey = key := by
  obtain ⟨l, hfirst, hkey⟩ := firstRow_of_mem h
  unfold entryRow
  split_ifs
  · rw [hfirst]
    exact hkey
  · rfl

def keysUnder (rows : List ObjectLocation) (keyPrefix : String) : List String :=
  (managedKeys rows).filter fun k => decide (keyPrefix.toList <+: k.toList)

theorem mem_keysUnder :
    key ∈ keysUnder rows keyPrefix ↔ key ∈ managedKeys rows ∧ keyPrefix.toList <+: key.toList := by
  rw [keysUnder, mem_filter, decide_eq_true_eq]

theorem pairwise_keysUnder (rows : List ObjectLocation) (keyPrefix : String) :
    (keysUnder rows keyPrefix).Pairwise (· < ·) :=
  (pairwise_managedKeys rows).filter _

theorem pairwise_entryName (rows : List ObjectLocation) (keyPrefix delimiter : String) :
    (keysUnder rows keyPrefix).Pairwise fun a b =>
      entryName keyPrefix delimiter a ≤ entryName keyPrefix delimiter b :=
  (pairwise_keysUnder rows keyPrefix).imp fun h => entryName_mono h.le

variable (hrows : ∀ l ∈ rows, Storable l.objectKey)

include hrows

theorem storable_of_mem (h : key ∈ managedKeys rows) : Storable key := by
  obtain ⟨l, hl, -, rfl⟩ := mem_managedKeys.mp h
  exact hrows l hl

theorem filter_range (above : String → Bool) (habove : ∀ k, above k = true → keyPrefix ≤ k) :
    ((managedKeys rows).filter fun k => above k && decide (k < prefixEnd keyPrefix)) =
      (keysUnder rows keyPrefix).filter above := by
  rw [keysUnder, filter_filter]
  refine filter_congr fun k hk => ?_
  rw [Bool.eq_iff_iff, Bool.and_eq_true, Bool.and_eq_true, decide_eq_true_eq, decide_eq_true_eq]
  refine and_congr_right fun hab => ?_
  exact ⟨fun hlt => isPrefixOf_of_range (habove k hab) hlt,
    fun hunder => lt_prefixEnd hunder (storable_of_mem hrows hk)⟩

theorem listFlat_keys {lo : String} (hlo : keyPrefix ≤ lo) (limit : Nat) :
    (listFlat rows lo (prefixEnd keyPrefix) limit).map objectKey =
      ((keysUnder rows keyPrefix).filter fun k => decide (lo ≤ k)).take limit := by
  rw [listFlat, filter_range hrows _ fun k hk => hlo.trans (of_decide_eq_true hk)]
  refine map_firstRow fun k hk => ?_
  exact (mem_keysUnder.mp (mem_of_mem_filter (mem_of_mem_take hk))).1

theorem walk_keys (hne : delimiter ≠ "") {lo : String} (hlo : keyPrefix ≤ lo) (limit : Nat) :
    walk (seek rows (prefixEnd keyPrefix)) (seekFrom keyPrefix delimiter) limit (points lo) =
      (heads (entryName keyPrefix delimiter)
        ((keysUnder rows keyPrefix).filter fun k => decide (lo ≤ k))).take limit := by
  have hpoints : ∀ a b : String, points a ≤ points b ↔ a ≤ b := fun a b => by
    rw [← not_lt, points_lt_iff, not_lt]
  have hstart : ((keysUnder rows keyPrefix).filter fun k => decide (lo ≤ k)) =
      (keysUnder rows keyPrefix).filter fun k => decide (points lo ≤ points k) := by
    simp only [hpoints]
  rw [hstart]
  refine walk_eq (fun b => (keysUnder rows keyPrefix).filter fun k => decide (b ≤ points k))
    (fun b => points keyPrefix ≤ b) ?_ ?_ ?_ limit ((hpoints _ _).mpr hlo)
  · intro b hb
    rw [seek, filter_range hrows _ fun k hk =>
      (hpoints _ _).mp (hb.trans (of_decide_eq_true hk))]
  · intro b _ a ha
    have hunder := (mem_keysUnder.mp (mem_of_mem_filter ha)).2
    exact le_of_isPrefix (points_isPrefix_seekFrom hunder hne)
  · intro b _ a ha
    obtain ⟨hmem, hba⟩ := mem_filter.mp ha
    obtain ⟨hmanaged, hunder⟩ := mem_keysUnder.mp hmem
    rw [behind, filter_filter]
    refine filter_congr fun k hk => ?_
    have hseek := seekFrom_le_iff hunder hne (storable_of_mem hrows hmanaged)
      (storable_of_mem hrows (mem_keysUnder.mp hk).1)
    rw [Bool.eq_iff_iff, Bool.and_eq_true, decide_eq_true_eq, decide_eq_true_eq,
      decide_eq_true_eq, hseek]
    -- what is behind the entry is above the bound it was found from
    refine (and_iff_left_of_imp fun hlt => ?_).symm
    have hak : a ≤ k := by
      by_contra hka
      exact absurd (entryName_mono (not_le.mp hka).le) (not_le.mpr hlt)
    exact (of_decide_eq_true hba).trans ((hpoints _ _).mpr hak)

theorem listDelimited_keys (hne : delimiter ≠ "") {lo : String} (hlo : keyPrefix ≤ lo)
    (limit : Nat) :
    (listDelimited rows keyPrefix delimiter lo (prefixEnd keyPrefix) limit).map objectKey =
      (heads (entryName keyPrefix delimiter)
        ((keysUnder rows keyPrefix).filter fun k => decide (lo ≤ k))).take limit := by
  have hheads := heads_sublist (f := entryName keyPrefix delimiter)
    ((keysUnder rows keyPrefix).filter fun k => decide (lo ≤ k))
  have hsub := ((take_sublist limit _).trans hheads).trans filter_sublist
  have hsorted := ((pairwise_keysUnder rows keyPrefix).sublist hsub).imp le_of_lt
  rw [listDelimited, walk_keys hrows hne hlo, hsorted.insertionSort_eq, map_map]
  refine (map_congr_left fun k hk => ?_).trans (map_id _)
  exact entryRow_objectKey (mem_keysUnder.mp (hsub.subset hk)).1

def entryKeys (rows : List ObjectLocation) (keyPrefix delimiter startAfter : String) :
    List String :=
  heads (entryName keyPrefix delimiter) ((keysUnder rows keyPrefix).filter fun k =>
    decide (resumeFrom keyPrefix delimiter startAfter ≤ k))

end Keys

section Spec

variable {rows : List ObjectLocation} {keyPrefix delimiter startAfter : String}

theorem foldl_add (keyPrefix delimiter : String) (rows : List ObjectLocation) (g : Gathered) :
    (rows.foldl (Gathered.add keyPrefix delimiter) g).objects = g.objects ++
        rows.filter (fun l => decide (commonPrefix keyPrefix delimiter l.objectKey = none)) ∧
      (rows.foldl (Gathered.add keyPrefix delimiter) g).commonPrefixes = g.commonPrefixes ++
        (rows.map objectKey).filterMap (commonPrefix keyPrefix delimiter) ∧
      (rows.foldl (Gathered.add keyPrefix delimiter) g).last = ((rows.map objectKey).getLast?.map
          (entryName keyPrefix delimiter)).getD g.last := by
  induction rows generalizing g with
  | nil => simp
  | cons l rows ih =>
    obtain ⟨hobjects, hprefixes, hlast⟩ := ih (Gathered.add keyPrefix delimiter g l)
    have hname :
        (g.add keyPrefix delimiter l).last = entryName keyPrefix delimiter l.objectKey := by
      unfold Gathered.add entryName
      cases commonPrefix keyPrefix delimiter l.objectKey <;> rfl
    rw [foldl_cons, hobjects, hprefixes, hlast, hname, map_cons, getLast?_cons]
    refine ⟨?_, ?_, ?_⟩
    · unfold Gathered.add
      cases h : commonPrefix keyPrefix delimiter l.objectKey <;> simp [h]
    · unfold Gathered.add
      cases h : commonPrefix keyPrefix delimiter l.objectKey <;> simp [h]
    · cases (rows.map objectKey).getLast? <;> rfl

/-- What a page holds of the keys its rows are for. -/
structure PageOf (keyPrefix delimiter : String) (keys : List String) (n : Nat)
    (page : ListObjectsResult) : Prop where
  objects : page.objects.map ObjectLocation.objectKey =
    (keys.take n).filter fun k => decide (commonPrefix keyPrefix delimiter k = none)
  commonPrefixes : page.commonPrefixes = (keys.take n).filterMap (commonPrefix keyPrefix delimiter)
  isTruncated : page.isTruncated = decide (n < keys.length)
  token : page.nextContinuationToken = if n < keys.length then
    ((keys.take n).getLast?.map (entryName keyPrefix delimiter)).getD "" else ""

theorem buildPage_spec {n : Nat} {keys : List String} (h : rows.map objectKey = keys.take (n + 1)) :
    PageOf keyPrefix delimiter keys n (buildPage rows keyPrefix delimiter n) := by
  have hlength := congrArg length h
  rw [length_map, length_take] at hlength
  have htrim : trimPage rows n = (rows.take n, decide (n < keys.length)) :=
    trimPage_of_length hlength
  have htake : (rows.take n).map objectKey = keys.take n := by
    rw [map_take, h, take_take, Nat.min_eq_left (Nat.le_succ n)]
  obtain ⟨hobjects, hprefixes, hlast⟩ := foldl_add keyPrefix delimiter (rows.take n) {}
  rw [htake] at hprefixes hlast
  rw [buildPage, htrim]
  refine ⟨?_, ?_, rfl, ?_⟩
  · dsimp only
    rw [hobjects, nil_append, ← htake, filter_map]
    rfl
  · dsimp only
    rw [hprefixes, nil_append]
  · dsimp only
    rw [hlast]
    simp only [decide_eq_true_eq]

variable (hrows : ∀ l ∈ rows, Storable l.objectKey)

include hrows

theorem listObjects_spec (hlo : keyPrefix ≤ resumeFrom keyPrefix delimiter startAfter) {n : Nat}
    (hn : 0 < n) : ∃ page, (listObjects rows keyPrefix delimiter startAfter n :
        Except ε ListObjectsResult) = .ok page ∧
      PageOf keyPrefix delimiter (entryKeys rows keyPrefix delimiter startAfter) n page := by
  have hlimit : ((n : Int) + 1).toNat = n + 1 := by omega
  rw [listObjects, listPage, if_neg (by omega)]
  rw [hlimit, Int.toNat_natCast]
  by_cases hdelim : delimiter = ""
  · have hnone : ∀ k, commonPrefix keyPrefix delimiter k = none := fun k => if_pos (.inr hdelim)
    have hname : ∀ k, entryName keyPrefix delimiter k = k := fun k => by
      rw [entryName, hnone]
      rfl
    have hself : entryKeys rows keyPrefix delimiter startAfter =
        (keysUnder rows keyPrefix).filter fun k =>
          decide (resumeFrom keyPrefix delimiter startAfter ≤ k) := by
      refine heads_eq_self (((pairwise_keysUnder rows keyPrefix).filter _).imp fun h => ?_)
      rwa [hname, hname]
    rw [if_pos hdelim]
    exact ⟨_, rfl, buildPage_spec (by rw [hself, listFlat_keys hrows hlo])⟩
  · rw [if_neg hdelim]
    exact ⟨_, rfl, buildPage_spec (listDelimited_keys hrows hdelim hlo (n + 1))⟩

end Spec

end S3Orchestrator.Listing
