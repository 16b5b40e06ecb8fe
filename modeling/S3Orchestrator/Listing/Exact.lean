import S3Orchestrator.Listing.Page

/-!
# A listing followed to its end

The client follows the token of each page until one is not truncated.

* **`paged_listing_exact_iff`**.
-/

namespace S3Orchestrator.Listing

open TextOrder SkipScan List

/-! ## Stripped keys -/

section Strip

variable {base key other : String}

theorem strip_append (base key : String) : strip base (base ++ key) = key := by
  rw [strip, String.toList_append, drop_left, String.ofList_toList]

theorem append_strip (h : base.toList <+: key.toList) : base ++ strip base key = key := by
  obtain ⟨rest, hrest⟩ := h
  rw [← String.toList_inj, String.toList_append, strip, String.toList_ofList, ← hrest, drop_left]

theorem append_lt_append_iff (base : String) : base ++ key < base ++ other ↔ key < other := by
  rw [String.lt_iff_toList_lt, String.lt_iff_toList_lt, String.toList_append, String.toList_append]
  refine ⟨fun h => ?_, fun h => append_left_lt h⟩
  rcases lt_trichotomy key.toList other.toList with hlt | heq | hgt
  · exact hlt
  · exact absurd (heq ▸ h) (lt_irrefl _)
  · exact absurd h (append_left_lt hgt).not_gt

theorem strip_lt_strip_iff (hkey : base.toList <+: key.toList)
    (hother : base.toList <+: other.toList) : strip base key < strip base other ↔ key < other := by
  rw [← append_lt_append_iff base, append_strip hkey, append_strip hother]

end Strip

/-! ## Following -/

inductive Follows {ε : Type} (list : String → Except ε ListPage) : String → List ListPage → Prop
  | last {startAfter : String} {page : ListPage} (hpage : list startAfter = .ok page)
      (hend : page.isTruncated = false) : Follows list startAfter [page]
  | more {startAfter : String} {page : ListPage} {pages : List ListPage}
      (hpage : list startAfter = .ok page) (hmore : page.isTruncated = true)
      (hrest : Follows list page.nextToken pages) : Follows list startAfter (page :: pages)

theorem Follows.ne_of_loop {ε : Type} {list : String → Except ε ListPage} {start after : String}
    {page : ListPage} {pages : List ListPage} (hpage : list start = .ok page)
    (hmore : page.isTruncated = true) (htoken : page.nextToken = start)
    (h : Follows list after pages) : after ≠ start := by
  induction h with
  | last hlast hend =>
    rintro rfl
    rw [hpage, Except.ok.injEq] at hlast
    rw [← hlast, hmore] at hend
    cases hend
  | more hnext _ _ ih =>
    rintro rfl
    rw [hpage, Except.ok.injEq] at hnext
    exact ih (hnext ▸ htoken)

def ListPage.keys (page : ListPage) : List String := page.contents.map XmlContent.key

def ListPage.names (page : ListPage) : List String := page.keys ++ page.commonPrefixes

def foldFlat (rows : List ObjectLocation) (keyPrefix delimiter : String) :
    List String × List String :=
  let keys := (listFlat rows keyPrefix (prefixEnd keyPrefix) rows.length).map
    ObjectLocation.objectKey
  (keys.filter fun k => decide (commonPrefix keyPrefix delimiter k = none),
    (keys.filterMap (commonPrefix keyPrefix delimiter)).dedup)

/-! ## The keys a cursor leaves -/

section Remaining

variable {rows : List ObjectLocation} {keyPrefix delimiter startAfter key : String}

theorem isPrefix_entryName (delimiter : String) (h : keyPrefix.toList <+: key.toList) :
    keyPrefix.toList <+: (entryName keyPrefix delimiter key).toList := by
  rw [toList_entryName, nameOf]
  cases hgroup : groupOf keyPrefix.toList delimiter.toList key.toList with
  | none => exact h
  | some g => exact begin_isPrefix_of_groupOf hgroup

theorem entryKeys_start (rows : List ObjectLocation) (keyPrefix delimiter : String) :
    entryKeys rows keyPrefix delimiter "" =
      heads (entryName keyPrefix delimiter) (keysUnder rows keyPrefix) := by
  rw [entryKeys, resumeFrom_empty, filter_eq_self.mpr]
  intro k hk
  rw [decide_eq_true_eq, ← not_lt, String.lt_iff_toList_lt, not_lt]
  exact le_of_isPrefix (mem_keysUnder.mp hk).2

theorem mem_keysUnder_of_entryKeys (h : key ∈ entryKeys rows keyPrefix delimiter startAfter) :
    key ∈ keysUnder rows keyPrefix :=
  mem_of_mem_filter ((heads_sublist _).subset h)

variable (hrows : ∀ l ∈ rows, Storable l.objectKey)

include hrows

theorem le_resumeFrom (hkey : key ∈ keysUnder rows keyPrefix) :
    keyPrefix ≤ resumeFrom keyPrefix delimiter (entryName keyPrefix delimiter key) := by
  obtain ⟨hmanaged, hunder⟩ := mem_keysUnder.mp hkey
  have hstorable := storable_of_mem hrows hmanaged
  rw [resumeFrom]
  split_ifs with hgroup
  · have hname : Storable (entryName keyPrefix delimiter key) := by
      intro c hc
      rw [toList_entryName] at hc
      exact hstorable c (nameOf_isPrefix.subset hc)
    refine le_trans ?_ (lt_prefixEnd (prefix_refl _) hname).le
    rw [← not_lt, String.lt_iff_toList_lt, not_lt]
    exact le_of_isPrefix (isPrefix_entryName _ hunder)
  · exact le_keysFrom _ _

theorem entryKeys_next (hkey : key ∈ entryKeys rows keyPrefix delimiter startAfter) {n : Nat}
    (hlast : ((entryKeys rows keyPrefix delimiter startAfter).take n).getLast? = some key)
    (hne : entryName keyPrefix delimiter key ≠ "") :
    entryKeys rows keyPrefix delimiter (entryName keyPrefix delimiter key) =
      (entryKeys rows keyPrefix delimiter startAfter).drop n := by
  have hmem : key ∈ (keysUnder rows keyPrefix).filter fun k =>
      decide (resumeFrom keyPrefix delimiter startAfter ≤ k) := (heads_sublist _).subset hkey
  obtain ⟨hunder, hfrom⟩ := mem_filter.mp hmem
  obtain ⟨hmanaged, hbegins⟩ := mem_keysUnder.mp hunder
  rw [entryKeys, entryKeys, ← heads_behind hlast]
  congr 1
  rw [behind, filter_filter]
  refine filter_congr fun k hk => ?_
  have hresume := resumeFrom_le_iff hbegins (storable_of_mem hrows hmanaged)
    (storable_of_mem hrows (mem_keysUnder.mp hk).1) hne
  rw [Bool.eq_iff_iff, Bool.and_eq_true, decide_eq_true_eq, decide_eq_true_eq, decide_eq_true_eq,
    hresume]
  refine (and_iff_left_of_imp fun hlt => ?_).symm
  have hle : key ≤ k := by
    by_contra hgt
    exact absurd (entryName_mono (not_le.mp hgt).le) (not_le.mpr hlt)
  exact (of_decide_eq_true hfrom).trans hle

end Remaining

/-! ## Pages in the client's keys -/

section Client

variable {ε : Type} {rows : List ObjectLocation}
  {base name keyPrefix delimiter startAfter : String} {n : Nat}

def cursor (base startAfter : String) : String :=
  if startAfter ≠ "" then base ++ startAfter else startAfter

def entriesFrom (rows : List ObjectLocation) (base keyPrefix delimiter startAfter : String) :
    List String :=
  entryKeys rows (base ++ keyPrefix) delimiter (cursor base startAfter)

def clientName (base keyPrefix delimiter key : String) : String :=
  strip base (entryName (base ++ keyPrefix) delimiter key)

def leaves (base keyPrefix delimiter : String) (keys : List String) : List String :=
  (keys.filter fun k => decide (commonPrefix (base ++ keyPrefix) delimiter k = none)).map
    (strip base)

def groups (base keyPrefix delimiter : String) (keys : List String) : List String :=
  (keys.filterMap (commonPrefix (base ++ keyPrefix) delimiter)).map (strip base)

/-- What a page of a bucket holds of the entries behind its cursor. -/
structure BucketPageOf (base keyPrefix delimiter : String) (entries : List String) (n : Nat)
    (page : ListPage) : Prop where
  keys : page.keys = leaves base keyPrefix delimiter (entries.take n)
  commonPrefixes : page.commonPrefixes = groups base keyPrefix delimiter (entries.take n)
  isTruncated : page.isTruncated = decide (n < entries.length)
  nextToken : ∀ key, (entries.take n).getLast? = some key → n < entries.length →
    page.nextToken = clientName base keyPrefix delimiter key

variable {entries : List String} {key : String}

theorem BucketPageOf.exists_of_name {page : ListPage}
    (h : BucketPageOf base keyPrefix delimiter entries n page) {x : String} (hx : x ∈ page.names) :
    ∃ k ∈ entries.take n, x = clientName base keyPrefix delimiter k := by
  rw [ListPage.names, h.keys, h.commonPrefixes, mem_append] at hx
  rcases hx with hx | hx
  · obtain ⟨k, hk, rfl⟩ := mem_map.mp hx
    obtain ⟨hmem, hnone⟩ := mem_filter.mp hk
    exact ⟨k, hmem, by rw [clientName, entryName, of_decide_eq_true hnone]; rfl⟩
  · obtain ⟨g, hg, rfl⟩ := mem_map.mp hx
    obtain ⟨k, hmem, hsome⟩ := mem_filterMap.mp hg
    exact ⟨k, hmem, by rw [clientName, entryName, hsome]; rfl⟩

theorem isPrefix_base (h : (base ++ keyPrefix).toList <+: key.toList) :
    base.toList <+: key.toList := by
  refine List.IsPrefix.trans ?_ h
  rw [String.toList_append]
  exact prefix_append _ _

theorem eq_of_clientName (hunder : (base ++ keyPrefix).toList <+: key.toList)
    (h : clientName base keyPrefix delimiter key = "") : key = base := by
  have hbegins := isPrefix_entryName delimiter hunder
  have hname := append_strip (isPrefix_base hbegins)
  rw [← clientName, h, String.append_empty] at hname
  rw [← hname] at hbegins
  have heq : (base ++ keyPrefix).toList = base.toList := by
    refine hbegins.eq_of_length (le_antisymm hbegins.length_le ?_)
    rw [String.toList_append, length_append]
    exact Nat.le_add_right _ _
  cases hgroup : commonPrefix (base ++ keyPrefix) delimiter key with
  | none =>
    rw [entryName, hgroup] at hname
    exact hname.symm
  | some g =>
    rw [entryName, hgroup, Option.getD_some] at hname
    refine absurd ?_ (ne_of_groupOf (groupOf_of_commonPrefix hgroup))
    rw [heq, hname]

theorem mem_keysUnder_of_entriesFrom
    (h : key ∈ entriesFrom rows base keyPrefix delimiter startAfter) :
    key ∈ keysUnder rows (base ++ keyPrefix) :=
  mem_keysUnder_of_entryKeys h

theorem pairwise_entriesFrom (rows : List ObjectLocation)
    (base keyPrefix delimiter startAfter : String) :
    (entriesFrom rows base keyPrefix delimiter startAfter).Pairwise fun a b =>
      clientName base keyPrefix delimiter a < clientName base keyPrefix delimiter b := by
  have hlt := pairwise_heads (f := entryName (base ++ keyPrefix) delimiter)
    ((keysUnder rows (base ++ keyPrefix)).filter fun k =>
      decide (resumeFrom (base ++ keyPrefix) delimiter (cursor base startAfter) ≤ k))
  refine List.Pairwise.imp_of_mem ?_ hlt
  intro a b ha hb h
  have hbegins : ∀ k ∈ entriesFrom rows base keyPrefix delimiter startAfter,
      base.toList <+: (entryName (base ++ keyPrefix) delimiter k).toList := fun k hk =>
    isPrefix_base (isPrefix_entryName _ (mem_keysUnder.mp (mem_keysUnder_of_entriesFrom hk)).2)
  exact (strip_lt_strip_iff (hbegins a ha) (hbegins b hb)).mpr h

theorem clientName_base (base keyPrefix delimiter : String) :
    clientName base keyPrefix delimiter base = "" := by
  have hle : (entryName (base ++ keyPrefix) delimiter base).toList <+: base.toList := by
    rw [toList_entryName]
    exact nameOf_isPrefix
  rw [clientName, strip, drop_of_length_le hle.length_le, String.ofList_nil]

theorem lt_of_take_drop {a b : String} (hasc : entries.Pairwise fun a b =>
      clientName base keyPrefix delimiter a < clientName base keyPrefix delimiter b)
    (ha : a ∈ entries.take n) (hb : b ∈ entries.drop n) :
    clientName base keyPrefix delimiter a < clientName base keyPrefix delimiter b := by
  rw [← take_append_drop n entries, pairwise_append] at hasc
  exact hasc.2.2 a ha b hb

/-- The pages that are seen of some entries. -/
structure Seen (base keyPrefix delimiter : String) (entries : List String)
    (pages : List ListPage) : Prop where
  keys : pages.flatMap ListPage.keys = leaves base keyPrefix delimiter entries
  commonPrefixes : pages.flatMap ListPage.commonPrefixes = groups base keyPrefix delimiter entries
  names : ∀ page ∈ pages, ∀ x ∈ page.names,
    ∃ k ∈ entries, x = clientName base keyPrefix delimiter k
  ordered : pages.Pairwise fun a b => ∀ x ∈ a.names, ∀ y ∈ b.names, x < y

theorem Seen.cons {page : ListPage} {pages : List ListPage}
    (h : Seen base keyPrefix delimiter (entries.drop n) pages)
    (hpage : BucketPageOf base keyPrefix delimiter entries n page)
    (hasc : entries.Pairwise fun a b =>
      clientName base keyPrefix delimiter a < clientName base keyPrefix delimiter b) :
    Seen base keyPrefix delimiter entries (page :: pages) := by
  refine ⟨?_, ?_, ?_, ?_⟩
  · rw [flatMap_cons, hpage.keys, h.keys, leaves, leaves, leaves, ← map_append,
      ← filter_append, take_append_drop]
  · rw [flatMap_cons, hpage.commonPrefixes, h.commonPrefixes, groups, groups, groups,
      ← map_append, ← filterMap_append, take_append_drop]
  · intro p hp x hx
    rcases mem_cons.mp hp with rfl | hp
    · obtain ⟨k, hk, rfl⟩ := hpage.exists_of_name hx
      exact ⟨k, mem_of_mem_take hk, rfl⟩
    · obtain ⟨k, hk, rfl⟩ := h.names p hp x hx
      exact ⟨k, mem_of_mem_drop hk, rfl⟩
  · rw [pairwise_cons]
    refine ⟨fun p hp x hx y hy => ?_, h.ordered⟩
    obtain ⟨a, ha, rfl⟩ := hpage.exists_of_name hx
    obtain ⟨b, hb, rfl⟩ := h.names p hp y hy
    exact lt_of_take_drop hasc ha hb

variable (hrows : ∀ l ∈ rows, Storable l.objectKey)

include hrows

theorem listBucketAt_spec (name : String) (hn : 0 < n)
    (hlo : base ++ keyPrefix ≤ resumeFrom (base ++ keyPrefix) delimiter (cursor base startAfter)) :
    ∃ page, (listBucketAt rows base name keyPrefix delimiter startAfter n : Except ε ListPage) =
        .ok page ∧
      BucketPageOf base keyPrefix delimiter (entriesFrom rows base keyPrefix delimiter startAfter) n
        page := by
  obtain ⟨result, hresult, hspec⟩ := listObjects_spec (ε := ε) hrows hlo hn
  change ∃ page, (listObjects rows (base ++ keyPrefix) delimiter (cursor base startAfter) n >>= _) =
    .ok page ∧ _
  rw [hresult]
  refine ⟨_, rfl, ?_, ?_, hspec.isTruncated, fun key hlast hlong => ?_⟩
  · rw [leaves, entriesFrom, ← hspec.objects, map_map]
    change (map _ result.objects).map XmlContent.key = _
    rw [map_map]
    rfl
  · rw [groups, entriesFrom, ← hspec.commonPrefixes]
  · have htoken := hspec.token
    rw [entriesFrom] at hlast hlong
    rw [if_pos hlong, hlast, Option.map_some, Option.getD_some] at htoken
    rw [htoken, clientName]
    split_ifs with hne
    · rfl
    · rw [not_not.mp hne, strip]
      simp

theorem entriesFrom_next (hne : key ≠ base)
    (hlast : ((entriesFrom rows base keyPrefix delimiter startAfter).take n).getLast? = some key) :
    base ++ keyPrefix ≤ resumeFrom (base ++ keyPrefix) delimiter
        (cursor base (clientName base keyPrefix delimiter key)) ∧
      entriesFrom rows base keyPrefix delimiter (clientName base keyPrefix delimiter key) =
        (entriesFrom rows base keyPrefix delimiter startAfter).drop n := by
  have hmem := mem_of_mem_take (mem_of_getLast? hlast)
  have hkey := mem_keysUnder_of_entriesFrom hmem
  have hunder := (mem_keysUnder.mp hkey).2
  have htoken : clientName base keyPrefix delimiter key ≠ "" :=
    fun h => hne (eq_of_clientName hunder h)
  have hname : entryName (base ++ keyPrefix) delimiter key ≠ "" := by
    intro h
    rw [clientName, h, strip] at htoken
    simp at htoken
  have hcursor : cursor base (clientName base keyPrefix delimiter key) =
      entryName (base ++ keyPrefix) delimiter key := by
    rw [cursor, if_pos htoken, clientName,
      append_strip (isPrefix_base (isPrefix_entryName _ hunder))]
  rw [entriesFrom, entriesFrom, hcursor]
  exact ⟨le_resumeFrom hrows hkey, entryKeys_next hrows hmem hlast hname⟩

theorem exists_follows (name : String) (hn : 0 < n)
    (hlo : base ++ keyPrefix ≤ resumeFrom (base ++ keyPrefix) delimiter (cursor base startAfter))
    (hstall : ∀ key,
      ((entriesFrom rows base keyPrefix delimiter startAfter).take n).getLast? = some key →
      n < (entriesFrom rows base keyPrefix delimiter startAfter).length → key ≠ base) :
    ∃ pages, Follows (fun after =>
        (listBucketAt rows base name keyPrefix delimiter after n : Except ε ListPage))
        startAfter pages ∧
      Seen base keyPrefix delimiter (entriesFrom rows base keyPrefix delimiter startAfter)
        pages := by
  generalize hlen : (entriesFrom rows base keyPrefix delimiter startAfter).length = m
  induction m using Nat.strong_induction_on generalizing startAfter with
  | _ m ih =>
    obtain ⟨page, hpage, hspec⟩ := listBucketAt_spec (ε := ε) hrows name hn hlo
    have htruncated := hspec.isTruncated
    by_cases hlong : n < (entriesFrom rows base keyPrefix delimiter startAfter).length
    · rw [decide_eq_true hlong] at htruncated
      obtain ⟨key, hlast⟩ : ∃ key, ((entriesFrom rows base keyPrefix delimiter
          startAfter).take n).getLast? = some key := by
        refine ⟨_, getLast?_eq_some_getLast (ne_nil_of_length_pos ?_)⟩
        rw [length_take]
        omega
      have hne := hstall key hlast hlong
      obtain ⟨hnext, hdrop⟩ := entriesFrom_next hrows hne hlast
      have hstall' : ∀ other, ((entriesFrom rows base keyPrefix delimiter
          (clientName base keyPrefix delimiter key)).take n).getLast? = some other →
          n < (entriesFrom rows base keyPrefix delimiter
            (clientName base keyPrefix delimiter key)).length → other ≠ base := by
        rintro other hother - rfl
        rw [hdrop] at hother
        have hbehind := mem_of_mem_take (mem_of_getLast? hother)
        have hlt := lt_of_take_drop (pairwise_entriesFrom rows other keyPrefix delimiter _)
          (mem_of_getLast? hlast) hbehind
        rw [clientName_base, String.lt_iff_toList_lt] at hlt
        exact not_lt_nil _ hlt
      obtain ⟨pages, hfollows, hseen⟩ := ih _ (by rw [hdrop, length_drop]; omega) hnext hstall' rfl
      rw [hdrop] at hseen
      refine ⟨page :: pages, .more hpage htruncated ?_, ?_⟩
      · rw [hspec.nextToken key hlast hlong]
        exact hfollows
      · exact hseen.cons hspec (pairwise_entriesFrom _ _ _ _ _)
    · rw [decide_eq_false hlong] at htruncated
      have hdrop : (entriesFrom rows base keyPrefix delimiter startAfter).drop n = [] :=
        drop_of_length_le (not_lt.mp hlong)
      have hnone : Seen base keyPrefix delimiter
          ((entriesFrom rows base keyPrefix delimiter startAfter).drop n) [] := by
        rw [hdrop]
        exact ⟨rfl, rfl, (fun _ h => by cases h), List.Pairwise.nil⟩
      exact ⟨[page], .last hpage htruncated, hnone.cons hspec (pairwise_entriesFrom _ _ _ _ _)⟩

end Client

/-! ## The whole listing -/

section Whole

variable {rows : List ObjectLocation} {base keyPrefix delimiter : String} {n : Nat}

theorem entriesFrom_start (rows : List ObjectLocation) (base keyPrefix delimiter : String) :
    entriesFrom rows base keyPrefix delimiter "" =
      heads (entryName (base ++ keyPrefix) delimiter) (keysUnder rows (base ++ keyPrefix)) :=
  entryKeys_start rows (base ++ keyPrefix) delimiter

theorem exists_entry (delimiter : String) {key : String}
    (h : key ∈ keysUnder rows (base ++ keyPrefix)) :
    ∃ k ∈ entriesFrom rows base keyPrefix delimiter "",
      entryName (base ++ keyPrefix) delimiter k = entryName (base ++ keyPrefix) delimiter key := by
  rw [entriesFrom_start]
  exact exists_head (pairwise_entryName rows (base ++ keyPrefix) delimiter) h

/-- The key that is the bucket's prefix itself is the only entry of a page, and not the last. -/
def Stalls (rows : List ObjectLocation) (base keyPrefix : String) (n : Nat) : Prop :=
  n = 1 ∧ keyPrefix = "" ∧ base ∈ managedKeys rows ∧
    ∃ k ∈ managedKeys rows, k ≠ base ∧ base.toList <+: k.toList

theorem not_mem_of_pairwise {a : String} {entries : List String}
    (hasc : (a :: entries).Pairwise fun a b =>
      clientName base keyPrefix delimiter a < clientName base keyPrefix delimiter b) :
    base ∉ entries := by
  intro hmem
  have hlt := (pairwise_cons.mp hasc).1 base hmem
  rw [clientName_base, String.lt_iff_toList_lt] at hlt
  exact not_lt_nil _ hlt

theorem stalls_of_last (hn : 0 < n)
    (hlast : ((entriesFrom rows base keyPrefix delimiter "").take n).getLast? = some base)
    (hlong : n < (entriesFrom rows base keyPrefix delimiter "").length) :
    Stalls rows base keyPrefix n := by
  have hasc := pairwise_entriesFrom rows base keyPrefix delimiter ""
  have hmem := mem_of_getLast? hlast
  obtain ⟨hmanaged, hunder⟩ :=
    mem_keysUnder.mp (mem_keysUnder_of_entriesFrom (mem_of_mem_take hmem))
  have hfront : keyPrefix = "" := by
    have hlength := hunder.length_le
    rw [String.toList_append, length_append] at hlength
    rw [← String.toList_inj]
    exact eq_nil_of_length_eq_zero (by omega)
  obtain ⟨m, rfl⟩ := Nat.exists_eq_add_of_lt hn
  rw [Nat.zero_add] at hlast hlong
  cases hentries : entriesFrom rows base keyPrefix delimiter "" with
  | nil => rw [hentries] at hlong; exact absurd hlong (Nat.not_lt_zero _)
  | cons a entries =>
    rw [hentries] at hasc hlast hlong
    rw [length_cons] at hlong
    rw [take_succ_cons, getLast?_cons, Option.some.injEq] at hlast
    have hnot := not_mem_of_pairwise hasc
    have hone : m = 0 := by
      by_contra hm
      have hne : entries.take m ≠ [] := by
        refine ne_nil_of_length_pos ?_
        rw [length_take]
        omega
      rw [getLast?_eq_some_getLast hne, Option.getD_some] at hlast
      exact hnot (hlast ▸ mem_of_mem_take (getLast_mem hne))
    subst hone
    refine ⟨rfl, hfront, hmanaged, ?_⟩
    obtain ⟨b, hb⟩ := exists_mem_of_length_pos (by omega : 0 < entries.length)
    have hbu : b ∈ keysUnder rows (base ++ keyPrefix) := by
      have hbe : b ∈ entriesFrom rows base keyPrefix delimiter "" := by
        rw [hentries]
        exact mem_cons_of_mem a hb
      exact mem_keysUnder_of_entriesFrom hbe
    obtain ⟨hbk, hbunder⟩ := mem_keysUnder.mp hbu
    exact ⟨b, hbk, fun heq => hnot (heq ▸ hb), isPrefix_base hbunder⟩

theorem last_of_stalls (delimiter : String) (h : Stalls rows base keyPrefix n) :
    ((entriesFrom rows base keyPrefix delimiter "").take n).getLast? = some base ∧
      n < (entriesFrom rows base keyPrefix delimiter "").length := by
  obtain ⟨rfl, rfl, hmanaged, other, hother, hne, hunder⟩ := h
  have hasc := pairwise_entriesFrom rows base "" delimiter ""
  have hbase : ∀ key ∈ entriesFrom rows base "" delimiter "",
      clientName base "" delimiter key = "" → key = base := fun key hkey =>
    eq_of_clientName (mem_keysUnder.mp (mem_keysUnder_of_entriesFrom hkey)).2
  have hself : base ∈ entriesFrom rows base "" delimiter "" := by
    have hunder : base ∈ keysUnder rows (base ++ "") := mem_keysUnder.mpr ⟨hmanaged, by simp⟩
    obtain ⟨k, hk, hname⟩ := exists_entry delimiter hunder
    have := hbase k hk (by rw [clientName, hname, ← clientName, clientName_base])
    exact this ▸ hk
  have hsecond : ∃ k ∈ entriesFrom rows base "" delimiter "", k ≠ base := by
    have hunder' : (base ++ "").toList <+: other.toList := by simpa using hunder
    obtain ⟨k, hk, hname⟩ := exists_entry delimiter (mem_keysUnder.mpr ⟨hother, hunder'⟩)
    refine ⟨k, hk, ?_⟩
    rintro rfl
    have hclient : clientName k "" delimiter other = "" := by
      rw [clientName, ← hname, ← clientName, clientName_base]
    exact hne (eq_of_clientName hunder' hclient)
  cases hentries : entriesFrom rows base "" delimiter "" with
  | nil => rw [hentries] at hself; cases hself
  | cons a entries =>
    rw [hentries] at hasc hself hsecond
    have ha : a = base := by
      rcases mem_cons.mp hself with heq | hmem
      · exact heq.symm
      · exact absurd hmem (not_mem_of_pairwise hasc)
    obtain ⟨k, hk, hkne⟩ := hsecond
    have hmem : k ∈ entries := (mem_cons.mp hk).resolve_left fun heq => hkne (heq.trans ha)
    refine ⟨congrArg some ha, ?_⟩
    rw [length_cons]
    have := length_pos_of_mem hmem
    omega

theorem commonPrefix_of_entryName {a b g : String}
    (hname : entryName keyPrefix delimiter a = entryName keyPrefix delimiter b)
    (ha : commonPrefix keyPrefix delimiter a = some g) :
    commonPrefix keyPrefix delimiter b = some g := by
  rw [entryName, ha, Option.getD_some] at hname
  have hfront : g.toList <+: b.toList := by
    rw [hname, toList_entryName]
    exact nameOf_isPrefix
  rw [commonPrefix_eq, groupOf_of_isPrefix (groupOf_of_commonPrefix ha) hfront]
  exact congrArg some String.ofList_toList

theorem filter_leaf_heads (rows : List ObjectLocation) (keyPrefix delimiter : String) :
    ((heads (entryName keyPrefix delimiter) (keysUnder rows keyPrefix)).filter fun k =>
        decide (commonPrefix keyPrefix delimiter k = none)) =
      (keysUnder rows keyPrefix).filter fun k =>
        decide (commonPrefix keyPrefix delimiter k = none) := by
  have hasc := pairwise_keysUnder rows keyPrefix
  have hsub := heads_sublist (f := entryName keyPrefix delimiter) (keysUnder rows keyPrefix)
  refine ((hasc.sublist hsub).filter _).eq_of_mem_iff (hasc.filter _) fun k => ?_
  rw [mem_filter, mem_filter]
  refine and_congr_left fun hleaf => ⟨fun h => hsub.subset h, fun h => ?_⟩
  have hnone := of_decide_eq_true hleaf
  obtain ⟨a, ha, hname⟩ := exists_head (pairwise_entryName rows keyPrefix delimiter) h
  cases hgroup : commonPrefix keyPrefix delimiter a with
  | none =>
    rw [entryName, entryName, hgroup, hnone, Option.getD_none, Option.getD_none] at hname
    exact hname ▸ ha
  | some g =>
    have := commonPrefix_of_entryName hname hgroup
    rw [hnone] at this
    cases this

theorem entryName_of_some {k g : String} (h : commonPrefix keyPrefix delimiter k = some g) :
    entryName keyPrefix delimiter k = g := by
  rw [entryName, h]
  rfl

theorem pairwise_group_heads (rows : List ObjectLocation) (keyPrefix delimiter : String) :
    ((heads (entryName keyPrefix delimiter) (keysUnder rows keyPrefix)).filterMap
      (commonPrefix keyPrefix delimiter)).Pairwise (· < ·) := by
  rw [pairwise_filterMap]
  refine (pairwise_heads (keysUnder rows keyPrefix)).imp fun h g hg g' hg' => ?_
  rwa [entryName_of_some hg, entryName_of_some hg'] at h

theorem filterMap_group_heads (rows : List ObjectLocation) (keyPrefix delimiter : String) :
    (heads (entryName keyPrefix delimiter) (keysUnder rows keyPrefix)).filterMap
        (commonPrefix keyPrefix delimiter) =
      ((keysUnder rows keyPrefix).filterMap (commonPrefix keyPrefix delimiter)).dedup := by
  have hright : (((keysUnder rows keyPrefix).filterMap
      (commonPrefix keyPrefix delimiter)).dedup).Pairwise (· < ·) := by
    have hle : ((keysUnder rows keyPrefix).filterMap
        (commonPrefix keyPrefix delimiter)).Pairwise (· ≤ ·) := by
      rw [pairwise_filterMap]
      refine (pairwise_entryName rows keyPrefix delimiter).imp fun h g hg g' hg' => ?_
      rwa [entryName_of_some hg, entryName_of_some hg'] at h
    exact ((hle.sublist (dedup_sublist _)).and (nodup_dedup _)).imp fun h => lt_of_le_of_ne h.1 h.2
  refine (pairwise_group_heads rows keyPrefix delimiter).eq_of_mem_iff hright fun g => ?_
  rw [mem_dedup, mem_filterMap, mem_filterMap]
  constructor
  · rintro ⟨k, hk, hg⟩
    exact ⟨k, (heads_sublist _).subset hk, hg⟩
  · rintro ⟨k, hk, hg⟩
    obtain ⟨a, ha, heq⟩ := exists_head (pairwise_entryName rows keyPrefix delimiter) hk
    exact ⟨a, ha, commonPrefix_of_entryName heq.symm hg⟩

def FirstAt (sep before text : String) : Prop :=
  (before ++ sep).toList <+: text.toList ∧
    ∀ other : String, (other ++ sep).toList <+: text.toList →
      before.toList.length ≤ other.toList.length

/-- The pages hold the managed keys under the prefix with no delimiter after it, and the common
prefixes of those with one, each once and in byte order. -/
structure Exact (rows : List ObjectLocation) (base keyPrefix delimiter : String)
    (pages : List ListPage) : Prop where
  ordered : pages.Pairwise fun a b => ∀ x ∈ a.names, ∀ y ∈ b.names, bytes x < bytes y
  keys_ascending : (pages.flatMap ListPage.keys).Pairwise fun a b => bytes a < bytes b
  prefixes_ascending :
    (pages.flatMap ListPage.commonPrefixes).Pairwise fun a b => bytes a < bytes b
  mem_keys : ∀ k, k ∈ pages.flatMap ListPage.keys ↔
    ∃ l ∈ rows, l.unmanaged = false ∧ l.objectKey = base ++ k ∧
      ∃ rest, k = keyPrefix ++ rest ∧ (delimiter = "" ∨ ¬delimiter.toList <:+: rest.toList)
  mem_prefixes : ∀ g, g ∈ pages.flatMap ListPage.commonPrefixes ↔
    ∃ l ∈ rows, l.unmanaged = false ∧ ∃ rest child, l.objectKey = base ++ (keyPrefix ++ rest) ∧
      delimiter ≠ "" ∧ FirstAt delimiter child rest ∧ g = keyPrefix ++ child ++ delimiter
  keys_folded : pages.flatMap ListPage.keys =
    (foldFlat rows (base ++ keyPrefix) delimiter).1.map (strip base)
  prefixes_folded : pages.flatMap ListPage.commonPrefixes =
    (foldFlat rows (base ++ keyPrefix) delimiter).2.map (strip base)

theorem firstAt_iff {sep before text : String} :
    FirstAt sep before text ↔ cutBefore sep.toList text.toList = some before.toList := by
  rw [cutBefore_eq_some_iff, FirstAt, String.toList_append]
  refine and_congr_right fun _ => ⟨fun h other hother => ?_, fun h other hother => ?_⟩
  · have := h (String.ofList other) (by rwa [String.toList_append, String.toList_ofList])
    rwa [String.toList_ofList] at this
  · exact h other.toList (by rwa [String.toList_append] at hother)

theorem commonPrefix_append_none (rest : String) :
    commonPrefix keyPrefix delimiter (keyPrefix ++ rest) = none ↔
      delimiter = "" ∨ ¬delimiter.toList <:+: rest.toList := by
  by_cases hempty : delimiter = ""
  · exact iff_of_true (if_pos (.inr hempty)) (.inl hempty)
  · have hne : delimiter.toList ≠ [] := by simpa using hempty
    rw [commonPrefix_eq, Option.map_eq_none_iff, String.toList_append, groupOf_append hne,
      Option.map_eq_none_iff, cutBefore_eq_none_iff, or_iff_right hempty]

theorem commonPrefix_append_some {rest g : String} :
    commonPrefix keyPrefix delimiter (keyPrefix ++ rest) = some g ↔
      delimiter ≠ "" ∧ ∃ child, FirstAt delimiter child rest ∧
        g = keyPrefix ++ child ++ delimiter := by
  by_cases hempty : delimiter = ""
  · have hnone : commonPrefix keyPrefix delimiter (keyPrefix ++ rest) = none := if_pos (.inr hempty)
    rw [hnone]
    exact iff_of_false (fun h => by cases h) fun h => h.1 hempty
  · have hne : delimiter.toList ≠ [] := by simpa using hempty
    rw [commonPrefix_eq, String.toList_append, groupOf_append hne, Option.map_map,
      Option.map_eq_some_iff]
    refine Iff.trans ?_ (and_iff_right hempty).symm
    constructor
    · rintro ⟨child, hcut, rfl⟩
      refine ⟨String.ofList child, ?_, ?_⟩
      · rw [firstAt_iff, String.toList_ofList]
        exact hcut
      · rw [← String.toList_inj]
        simp
    · rintro ⟨child, hfirst, rfl⟩
      refine ⟨child.toList, firstAt_iff.mp hfirst, ?_⟩
      rw [← String.toList_inj]
      simp

theorem mem_keysUnder_iff {key : String} : key ∈ keysUnder rows (base ++ keyPrefix) ↔
    (∃ rest, key = base ++ keyPrefix ++ rest) ∧
      ∃ l ∈ rows, l.unmanaged = false ∧ l.objectKey = key := by
  rw [mem_keysUnder, mem_managedKeys, and_comm]
  refine and_congr_left fun _ => ⟨fun h => ⟨_, (append_strip h).symm⟩, ?_⟩
  rintro ⟨rest, rfl⟩
  exact ⟨rest.toList, String.toList_append.symm⟩

theorem mem_leaves {k : String} :
    k ∈ leaves base keyPrefix delimiter (keysUnder rows (base ++ keyPrefix)) ↔
      ∃ l ∈ rows, l.unmanaged = false ∧ l.objectKey = base ++ k ∧
        ∃ rest, k = keyPrefix ++ rest ∧ (delimiter = "" ∨ ¬delimiter.toList <:+: rest.toList) := by
  rw [leaves, mem_map]
  constructor
  · rintro ⟨key, hkey, rfl⟩
    obtain ⟨hunder, hleaf⟩ := mem_filter.mp hkey
    obtain ⟨⟨rest, rfl⟩, l, hl, hmanaged, hloc⟩ := mem_keysUnder_iff.mp hunder
    rw [decide_eq_true_eq, commonPrefix_append_none] at hleaf
    rw [String.append_assoc, strip_append]
    exact ⟨l, hl, hmanaged, by rw [hloc, String.append_assoc], rest, rfl, hleaf⟩
  · rintro ⟨l, hl, hmanaged, hloc, rest, rfl, hleaf⟩
    refine ⟨base ++ keyPrefix ++ rest, mem_filter.mpr ⟨?_, ?_⟩, ?_⟩
    · exact mem_keysUnder_iff.mpr ⟨⟨rest, rfl⟩, l, hl, hmanaged, by rw [hloc, String.append_assoc]⟩
    · rw [decide_eq_true_eq, commonPrefix_append_none]
      exact hleaf
    · rw [String.append_assoc, strip_append]

theorem mem_groups {g : String} :
    g ∈ groups base keyPrefix delimiter (keysUnder rows (base ++ keyPrefix)) ↔
      ∃ l ∈ rows, l.unmanaged = false ∧ ∃ rest child, l.objectKey = base ++ (keyPrefix ++ rest) ∧
        delimiter ≠ "" ∧ FirstAt delimiter child rest ∧ g = keyPrefix ++ child ++ delimiter := by
  have hstrip : ∀ child : String, strip base (base ++ keyPrefix ++ child ++ delimiter) =
      keyPrefix ++ child ++ delimiter := fun child => by
    rw [String.append_assoc, String.append_assoc, strip_append, String.append_assoc]
  rw [groups, mem_map]
  constructor
  · rintro ⟨name, hname, rfl⟩
    obtain ⟨key, hunder, hgroup⟩ := mem_filterMap.mp hname
    obtain ⟨⟨rest, rfl⟩, l, hl, hmanaged, hloc⟩ := mem_keysUnder_iff.mp hunder
    obtain ⟨hne, child, hfirst, rfl⟩ := commonPrefix_append_some.mp hgroup
    exact ⟨l, hl, hmanaged, rest, child, by rw [hloc, String.append_assoc], hne, hfirst,
      hstrip child⟩
  · rintro ⟨l, hl, hmanaged, rest, child, hloc, hne, hfirst, rfl⟩
    refine ⟨base ++ keyPrefix ++ child ++ delimiter, mem_filterMap.mpr ?_, hstrip child⟩
    refine ⟨base ++ keyPrefix ++ rest, ?_, commonPrefix_append_some.mpr ⟨hne, child, hfirst, rfl⟩⟩
    exact mem_keysUnder_iff.mpr ⟨⟨rest, rfl⟩, l, hl, hmanaged, by rw [hloc, String.append_assoc]⟩

variable (hrows : ∀ l ∈ rows, Storable l.objectKey)

include hrows

theorem foldFlat_eq (keyPrefix delimiter : String) : foldFlat rows keyPrefix delimiter =
    ((keysUnder rows keyPrefix).filter fun k => decide (commonPrefix keyPrefix delimiter k = none),
      ((keysUnder rows keyPrefix).filterMap (commonPrefix keyPrefix delimiter)).dedup) := by
  have hall : ((keysUnder rows keyPrefix).filter fun k => decide (keyPrefix ≤ k)) =
      keysUnder rows keyPrefix := by
    rw [filter_eq_self]
    intro k hk
    rw [decide_eq_true_eq, ← not_lt, String.lt_iff_toList_lt, not_lt]
    exact le_of_isPrefix (mem_keysUnder.mp hk).2
  have hlength : (keysUnder rows keyPrefix).length ≤ rows.length := by
    calc (keysUnder rows keyPrefix).length
        ≤ (managedKeys rows).length := length_filter_le _ _
      _ ≤ ((rows.filter fun l => !l.unmanaged).map ObjectLocation.objectKey).length := by
          rw [managedKeys, length_insertionSort]
          exact (dedup_sublist _).length_le
      _ ≤ rows.length := by
          rw [length_map]
          exact length_filter_le _ _
  rw [foldFlat, listFlat_keys hrows le_rfl, hall, take_of_length_le hlength]

theorem exact_of_seen {pages : List ListPage}
    (h : Seen base keyPrefix delimiter (entriesFrom rows base keyPrefix delimiter "") pages) :
    Exact rows base keyPrefix delimiter pages := by
  have hkeys : pages.flatMap ListPage.keys =
      leaves base keyPrefix delimiter (keysUnder rows (base ++ keyPrefix)) := by
    rw [h.keys, entriesFrom_start, leaves, filter_leaf_heads]
    rfl
  have hprefixes : pages.flatMap ListPage.commonPrefixes = (((keysUnder rows
      (base ++ keyPrefix)).filterMap (commonPrefix (base ++ keyPrefix) delimiter)).dedup).map
        (strip base) := by
    rw [h.commonPrefixes, entriesFrom_start, groups, filterMap_group_heads]
  refine ⟨?_, ?_, ?_, fun k => ?_, fun g => ?_, ?_, ?_⟩
  · exact h.ordered.imp fun hlt x hx y hy => bytes_lt_iff.mpr (hlt x hx y hy)
  · rw [hkeys, leaves, pairwise_map]
    refine List.Pairwise.imp_of_mem (fun ha hb hlt => ?_)
      ((pairwise_keysUnder rows (base ++ keyPrefix)).filter _)
    have hbegins : ∀ k ∈ (keysUnder rows (base ++ keyPrefix)).filter fun k =>
        decide (commonPrefix (base ++ keyPrefix) delimiter k = none), base.toList <+: k.toList :=
      fun k hk => isPrefix_base (mem_keysUnder.mp (mem_of_mem_filter hk)).2
    exact bytes_lt_iff.mpr ((strip_lt_strip_iff (hbegins _ ha) (hbegins _ hb)).mpr hlt)
  · rw [h.commonPrefixes, entriesFrom_start, groups, pairwise_map]
    refine List.Pairwise.imp_of_mem (fun ha hb hlt => ?_)
      (pairwise_group_heads rows (base ++ keyPrefix) delimiter)
    have hbegins : ∀ g ∈ (heads (entryName (base ++ keyPrefix) delimiter)
        (keysUnder rows (base ++ keyPrefix))).filterMap
          (commonPrefix (base ++ keyPrefix) delimiter), base.toList <+: g.toList := by
      intro g hg
      obtain ⟨k, -, hgroup⟩ := mem_filterMap.mp hg
      exact isPrefix_base (begin_isPrefix_of_groupOf (groupOf_of_commonPrefix hgroup))
    exact bytes_lt_iff.mpr ((strip_lt_strip_iff (hbegins _ ha) (hbegins _ hb)).mpr hlt)
  · rw [hkeys, mem_leaves]
  · rw [hprefixes, ← mem_groups, groups, mem_map, mem_map]
    simp only [mem_dedup]
  · rw [hkeys, foldFlat_eq hrows]
    rfl
  · rw [hprefixes, foldFlat_eq hrows]

omit hrows in
theorem le_resumeFrom_start (base keyPrefix delimiter : String) :
    base ++ keyPrefix ≤ resumeFrom (base ++ keyPrefix) delimiter (cursor base "") := by
  rw [cursor, if_neg (by simp), resumeFrom_empty]

theorem not_follows_of_stalls {ε : Type} (name delimiter : String)
    (hstalls : Stalls rows base keyPrefix n) (pages : List ListPage) :
    ¬Follows (fun after =>
      (listBucketAt rows base name keyPrefix delimiter after n : Except ε ListPage)) "" pages := by
  have hn : 0 < n := hstalls.1 ▸ Nat.one_pos
  have hlo := le_resumeFrom_start base keyPrefix delimiter
  obtain ⟨hlast, hlong⟩ := last_of_stalls delimiter hstalls
  obtain ⟨page, hpage, hspec⟩ := listBucketAt_spec (ε := ε) hrows name hn hlo
  have hmore := hspec.isTruncated
  have htoken := hspec.nextToken base hlast hlong
  rw [decide_eq_true hlong] at hmore
  rw [clientName_base] at htoken
  exact fun h => h.ne_of_loop hpage hmore htoken rfl

/-- **A listing is exact if and only if it does not stall.** -/
theorem paged_listing_exact_iff (name : String) (hn : 0 < n) :
    (∃ pages, Follows (fun after =>
        (listBucketAt rows base name keyPrefix delimiter after n : Except String ListPage)) ""
        pages ∧ Exact rows base keyPrefix delimiter pages) ↔ ¬Stalls rows base keyPrefix n := by
  have hlo := le_resumeFrom_start base keyPrefix delimiter
  constructor
  · rintro ⟨pages, hfollows, -⟩ hstalls
    exact not_follows_of_stalls hrows name delimiter hstalls pages hfollows
  · intro hstalls
    obtain ⟨pages, hfollows, hseen⟩ := exists_follows (ε := String) hrows name hn hlo
      fun key hlast hlong hbase => hstalls (stalls_of_last hn (hbase ▸ hlast) hlong)
    exact ⟨pages, hfollows, exact_of_seen hrows hseen⟩

end Whole

/-! ## A bucket with a directory, and one with a folder marker -/

def listedRow (key : String) : ObjectLocation :=
  { objectKey := key, backendName := "s", storageKey := key, sizeBytes := 1 }

def directoryRows : List ObjectLocation :=
  [listedRow "b/a", listedRow "b/d/1", { listedRow "b/d/2" with unmanaged := true }]

theorem directory_listed :
    ∃ pages, Follows (fun after =>
        (listBucketAt directoryRows "b/" "b" "" "/" after 1 : Except String ListPage)) "" pages ∧
      Exact directoryRows "b/" "" "/" pages := by
  have hrows : ∀ l ∈ directoryRows, Storable l.objectKey := by
    simp only [directoryRows, forall_mem_cons]
    exact ⟨by decide, by decide, by decide, by simp⟩
  refine (paged_listing_exact_iff hrows "b" Nat.one_pos).mpr ?_
  rintro ⟨-, -, hbase, -⟩
  revert hbase
  decide

/-- The object a backend's console makes for a folder, imported under the bucket's own prefix. -/
def folderRows : List ObjectLocation := [listedRow "b/", listedRow "b/a"]

/-- One key at a time, the listing comes back to its start for ever. -/
theorem folder_marker_stalls :
    (∀ l ∈ folderRows, Storable l.objectKey) ∧ ∀ pages, ¬Follows (fun after =>
      (listBucket folderRows "b" "" "" after 1 : Except String ListPage)) "" pages := by
  have hrows : ∀ l ∈ folderRows, Storable l.objectKey := by
    simp only [folderRows, forall_mem_cons]
    exact ⟨by decide, by decide, by simp⟩
  have hstalls : Stalls folderRows "b/" "" 1 := by
    refine ⟨rfl, rfl, mem_managedKeys.mpr ?_, "b/a", mem_managedKeys.mpr ?_, ?_, ?_⟩ <;> decide
  exact ⟨hrows, not_follows_of_stalls hrows "b" "" hstalls⟩

end S3Orchestrator.Listing
