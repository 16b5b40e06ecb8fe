import Mathlib.Data.List.Infix
import Mathlib.Data.String.Basic

/-!
# Words in dictionary order

Words over an ordered alphabet. The words that begin with a given one are an interval, and words are
grouped by what they have up to the first separator behind a common beginning.

* `cutBefore`: what stands before the first occurrence of a separator;
* **`lt_nameOf_iff`**: the words behind a name are those above a bound;
* `encodePoint`, **`encode_lt_encode_iff`**: UTF-8 keeps the order of the code points.
-/

namespace TextOrder

open List

/-! ## Beginnings -/

section Beginnings

variable {α : Type} [LinearOrder α] {a b w : List α} {c : α}

theorem le_of_isPrefix (h : a <+: w) : a ≤ w := by
  obtain ⟨t, rfl⟩ := h
  rw [← not_lt]
  induction a with
  | nil => exact not_lt_nil _
  | cons c a ih =>
    rw [cons_append, cons_lt_cons_iff, not_or]
    exact ⟨lt_irrefl c, fun h => ih h.2⟩

theorem isPrefix_of_between (hb : a <+: b) (hlow : a ≤ w) (hhigh : w ≤ b) : a <+: w := by
  induction a generalizing b w with
  | nil => exact nil_prefix
  | cons c a ih =>
    obtain ⟨t, rfl⟩ := hb
    cases w with
    | nil => exact absurd (nil_lt_cons c a) (not_lt.mpr hlow)
    | cons d w =>
      rw [cons_append] at hhigh
      rw [← not_lt, cons_lt_cons_iff, not_or] at hlow hhigh
      obtain rfl : c = d := le_antisymm (not_lt.mp hlow.1) (not_lt.mp hhigh.1)
      rw [prefix_cons_inj]
      exact ih (prefix_append a t) (not_lt.mp fun h => hlow.2 ⟨rfl, h⟩)
        (not_lt.mp fun h => hhigh.2 ⟨rfl, h⟩)

theorem append_le_iff (hc : ∀ d ∈ w, c ≤ d) : a ++ [c] ≤ w ↔ a < w := by
  rw [← not_lt]
  induction a generalizing w with
  | nil =>
    cases w with
    | nil => simp
    | cons d w =>
      have hd := hc d mem_cons_self
      rw [nil_append, cons_lt_cons_iff, not_or]
      exact ⟨fun _ => nil_lt_cons d w, fun _ => ⟨not_lt.mpr hd, fun h => not_lt_nil w h.2⟩⟩
  | cons b a ih =>
    cases w with
    | nil => simp
    | cons d w =>
      have hih := ih fun e he => hc e (mem_cons_of_mem d he)
      rw [cons_append, cons_lt_cons_iff, cons_lt_cons_iff, not_or, not_and]
      constructor
      · rintro ⟨hge, htail⟩
        rcases lt_or_eq_of_le (not_lt.mp hge) with hlt | rfl
        · exact .inl hlt
        · exact .inr ⟨rfl, hih.mp (htail rfl)⟩
      · rintro (hlt | ⟨rfl, htail⟩)
        · exact ⟨hlt.not_gt, fun h => absurd hlt (h ▸ lt_irrefl _)⟩
        · exact ⟨lt_irrefl _, fun _ => hih.mpr htail⟩

theorem append_succ_le_iff {d : α} (hd : ∀ e, d ≤ e ↔ c < e) :
    a ++ [d] ≤ w ↔ a ++ [c] ≤ w ∧ ¬a ++ [c] <+: w := by
  rw [← not_lt, ← not_lt]
  induction a generalizing w with
  | nil =>
    cases w with
    | nil => simp
    | cons e w =>
      have hnil : ∀ x : α, e :: w < [x] ↔ e < x := fun x => by
        rw [cons_lt_cons_iff]
        exact or_iff_left fun h => not_lt_nil w h.2
      rw [nil_append, nil_append, hnil, hnil, not_lt, not_lt, hd,
        cons_prefix_cons, and_iff_left nil_prefix]
      exact lt_iff_le_and_ne
  | cons b a ih =>
    cases w with
    | nil => simp
    | cons e w =>
      simp only [cons_append, cons_lt_cons_iff, not_or, not_and, cons_prefix_cons]
      constructor
      · rintro ⟨hge, htail⟩
        refine ⟨⟨hge, fun heq => (ih.mp (htail heq)).1⟩, fun heq => ?_⟩
        exact (ih.mp (htail heq.symm)).2
      · rintro ⟨⟨hge, htail⟩, hnot⟩
        exact ⟨hge, fun heq => ih.mpr ⟨htail heq, hnot heq.symm⟩⟩

end Beginnings

/-! ## Groups -/

section Groups

variable {α : Type} [DecidableEq α]

/-- What stands before the first occurrence of the separator. -/
def cutBefore (sep : List α) : List α → Option (List α)
  | [] => if sep = [] then some [] else none
  | c :: w => if sep <+: c :: w then some [] else (cutBefore sep w).map (c :: ·)

variable {sep w before rest : List α}

section

variable (h : cutBefore sep w = some before)
include h

theorem isPrefix_of_cutBefore : before ++ sep <+: w := by
  induction w generalizing before with
  | nil =>
    unfold cutBefore at h
    split_ifs at h with hsep
    cases h
    rw [hsep]
    exact nil_prefix
  | cons c w ih =>
    unfold cutBefore at h
    split_ifs at h with hhere
    · cases h
      exact hhere
    · obtain ⟨rest, hrest, rfl⟩ := Option.map_eq_some_iff.mp h
      rw [cons_append, prefix_cons_inj]
      exact ih hrest

theorem cutBefore_append (rest : List α) : cutBefore sep (w ++ rest) = some before := by
  induction w generalizing before with
  | nil =>
    unfold cutBefore at h
    split_ifs at h with hsep
    cases h
    subst hsep
    cases rest with
    | nil => rfl
    | cons c rest => exact if_pos nil_prefix
  | cons c w ih =>
    rw [cutBefore] at h
    rw [cons_append, cutBefore]
    by_cases hhere : sep <+: c :: w
    · rw [if_pos hhere] at h
      have hlong : sep <+: c :: (w ++ rest) := hhere.trans (prefix_append (c :: w) rest)
      rw [if_pos hlong, h]
    · rw [if_neg hhere] at h
      obtain ⟨tail, htail, rfl⟩ := Option.map_eq_some_iff.mp h
      have hlong : ¬sep <+: c :: (w ++ rest) := by
        -- the separator fits into the word, where it was found later
        have hfits : sep.length ≤ (c :: w).length := by
          have := (isPrefix_of_cutBefore htail).length_le
          rw [length_append] at this
          rw [length_cons]
          omega
        exact fun hle => hhere (prefix_of_prefix_length_le hle (prefix_append (c :: w) rest) hfits)
      rw [if_neg hlong, ih htail]
      rfl

theorem cutBefore_self : cutBefore sep (before ++ sep) = some before := by
  induction w generalizing before with
  | nil =>
    unfold cutBefore at h
    split_ifs at h with hsep
    cases h
    subst hsep
    rfl
  | cons c w ih =>
    rw [cutBefore] at h
    by_cases hhere : sep <+: c :: w
    · rw [if_pos hhere, Option.some.injEq] at h
      subst h
      cases sep with
      | nil => rfl
      | cons d sep => exact if_pos (prefix_refl (d :: sep))
    · rw [if_neg hhere] at h
      obtain ⟨tail, htail, rfl⟩ := Option.map_eq_some_iff.mp h
      have hlater : ¬sep <+: c :: (tail ++ sep) := fun hle =>
        hhere (hle.trans ((prefix_cons_inj c).mpr (isPrefix_of_cutBefore htail)))
      rw [cons_append, cutBefore, if_neg hlater, ih htail]
      rfl

end

theorem cutBefore_eq_none_iff : cutBefore sep w = none ↔ ¬sep <:+: w := by
  induction w with
  | nil =>
    rw [cutBefore, infix_nil]
    split_ifs with hsep <;> simp [hsep]
  | cons c w ih =>
    rw [cutBefore, infix_cons_iff, not_or, ← ih]
    split_ifs with hhere <;> simp [hhere]

theorem length_le_of_cutBefore (h : cutBefore sep w = some before) {other : List α}
    (hother : other ++ sep <+: w) : before.length ≤ other.length := by
  induction w generalizing before other with
  | nil =>
    unfold cutBefore at h
    split_ifs at h
    cases h
    exact Nat.zero_le _
  | cons c w ih =>
    rw [cutBefore] at h
    split_ifs at h with hhere
    · cases h
      exact Nat.zero_le _
    · obtain ⟨tail, htail, rfl⟩ := Option.map_eq_some_iff.mp h
      cases other with
      | nil => exact absurd hother hhere
      | cons d other =>
        rw [cons_append, cons_prefix_cons] at hother
        exact Nat.succ_le_succ (ih htail hother.2)

theorem cutBefore_eq_some_iff : cutBefore sep w = some before ↔ before ++ sep <+: w ∧
    ∀ other, other ++ sep <+: w → before.length ≤ other.length := by
  constructor
  · exact fun h => ⟨isPrefix_of_cutBefore h, fun other => length_le_of_cutBefore h⟩
  · rintro ⟨hle, hfirst⟩
    cases hcut : cutBefore sep w with
    | none =>
      obtain ⟨rest, hrest⟩ := hle
      exact absurd ⟨before, rest, hrest⟩ (cutBefore_eq_none_iff.mp hcut)
    | some found =>
      have hfound := isPrefix_of_cutBefore hcut
      have hlength : found.length = before.length :=
        le_antisymm (length_le_of_cutBefore hcut hle) (hfirst found hfound)
      have hfront := prefix_of_prefix_length_le ((prefix_append _ _).trans hfound)
        ((prefix_append _ _).trans hle) hlength.le
      rw [hfront.eq_of_length hlength]

variable {begin w' : List α}

/-- The group of a word that starts with `begin`: up to the first separator behind it. -/
def groupOf (begin sep w : List α) : Option (List α) :=
  if begin <+: w ∧ sep ≠ [] then
    (cutBefore sep (w.drop begin.length)).map fun child => begin ++ child ++ sep
  else none

/-- The name of a word: its group, or the word itself. -/
def nameOf (begin sep w : List α) : List α := (groupOf begin sep w).getD w

variable {g : List α}

theorem exists_of_groupOf (h : groupOf begin sep w = some g) :
    ∃ rest child, w = begin ++ rest ∧ sep ≠ [] ∧ cutBefore sep rest = some child ∧
      g = begin ++ child ++ sep := by
  unfold groupOf at h
  split_ifs at h with hcond
  obtain ⟨⟨rest, rfl⟩, hsep⟩ := hcond
  rw [drop_left] at h
  obtain ⟨child, hchild, rfl⟩ := Option.map_eq_some_iff.mp h
  exact ⟨rest, child, rfl, hsep, hchild, rfl⟩

theorem groupOf_append (hsep : sep ≠ []) (rest : List α) : groupOf begin sep (begin ++ rest) =
      (cutBefore sep rest).map fun child => begin ++ child ++ sep := by
  rw [groupOf, if_pos ⟨prefix_append begin rest, hsep⟩, drop_left]

section

variable (h : groupOf begin sep w = some g)
include h

theorem isPrefix_of_groupOf : g <+: w := by
  obtain ⟨rest, child, rfl, -, hchild, rfl⟩ := exists_of_groupOf h
  rw [append_assoc, prefix_append_right_inj]
  exact isPrefix_of_cutBefore hchild

/-- **Every word that begins with a group's name is in the group.** -/
theorem groupOf_of_isPrefix (hle : g <+: w') : groupOf begin sep w' = some g := by
  obtain ⟨rest, child, rfl, hsep, hchild, rfl⟩ := exists_of_groupOf h
  obtain ⟨more, rfl⟩ := hle
  rw [append_assoc, append_assoc, groupOf_append hsep, ← append_assoc,
    cutBefore_append (cutBefore_self hchild)]
  rw [Option.map_some, append_assoc]

theorem begin_isPrefix_of_groupOf : begin <+: g := by
  obtain ⟨rest, child, rfl, -, -, rfl⟩ := exists_of_groupOf h
  rw [append_assoc]
  exact prefix_append begin _

theorem ne_of_groupOf : g ≠ begin := by
  obtain ⟨rest, child, rfl, hsep, -, rfl⟩ := exists_of_groupOf h
  intro heq
  rw [append_assoc, append_right_eq_self, append_eq_nil_iff] at heq
  exact hsep heq.2

end

theorem nameOf_isPrefix : nameOf begin sep w <+: w := by
  unfold nameOf
  cases h : groupOf begin sep w with
  | none => exact prefix_refl w
  | some g => exact isPrefix_of_groupOf h

end Groups

section Names

variable {α : Type} [LinearOrder α] {begin sep w w' g : List α}

theorem nameOf_le : nameOf begin sep w ≤ w := le_of_isPrefix nameOf_isPrefix

theorem lt_nameOf_iff_of_none (h : groupOf begin sep w = none) :
    w < nameOf begin sep w' ↔ w < w' := by
  refine ⟨fun hlt => hlt.trans_le nameOf_le, fun hlt => ?_⟩
  by_contra hnot
  -- a name at or below the word would be a group the word is in
  have hle : nameOf begin sep w' <+: w :=
    isPrefix_of_between nameOf_isPrefix (not_lt.mp hnot) hlt.le
  cases hgroup : groupOf begin sep w' with
  | none =>
    rw [nameOf, hgroup] at hnot
    exact hnot hlt
  | some g =>
    rw [nameOf, hgroup] at hle
    have := groupOf_of_isPrefix hgroup hle
    rw [h] at this
    cases this

theorem lt_nameOf_iff_of_some (h : groupOf begin sep w = some g) :
    g < nameOf begin sep w' ↔ g ≤ w' ∧ ¬g <+: w' := by
  constructor
  · intro hlt
    refine ⟨hlt.le.trans nameOf_le, fun hle => ?_⟩
    rw [nameOf, groupOf_of_isPrefix h hle] at hlt
    exact lt_irrefl g hlt
  · rintro ⟨hle, hnot⟩
    have hself := groupOf_of_isPrefix h (prefix_refl g)
    by_contra hge
    have hbetween : nameOf begin sep w' <+: g :=
      isPrefix_of_between nameOf_isPrefix (not_lt.mp hge) hle
    cases hgroup : groupOf begin sep w' with
    | none =>
      rw [nameOf, hgroup] at hge hbetween
      have heq : g = w' := le_antisymm hle (not_lt.mp hge)
      exact hnot (heq ▸ prefix_refl g)
    | some g' =>
      rw [nameOf, hgroup] at hbetween
      have := groupOf_of_isPrefix hgroup hbetween
      rw [hself, Option.some.injEq] at this
      exact hnot (this ▸ isPrefix_of_groupOf hgroup)

theorem nameOf_mono (h : w ≤ w') : nameOf begin sep w ≤ nameOf begin sep w' := by
  by_contra hlt
  rw [not_le] at hlt
  cases hgroup : groupOf begin sep w' with
  | none =>
    have hname : nameOf begin sep w' = w' := by rw [nameOf, hgroup]; rfl
    rw [hname, lt_nameOf_iff_of_none hgroup] at hlt
    exact absurd h (not_le.mpr hlt)
  | some g =>
    have hname : nameOf begin sep w' = g := by rw [nameOf, hgroup]; rfl
    rw [hname, lt_nameOf_iff_of_some hgroup] at hlt
    exact hlt.2 (isPrefix_of_between (isPrefix_of_groupOf hgroup) hlt.1 h)

end Names

/-! ## UTF-8 -/

section Utf8

/-- A code point in UTF-8. Surrogates are encoded as any other. -/
def encodePoint (v : Nat) : List UInt8 :=
  if v ≤ 0x7F then [UInt8.ofNat v]
  else if v ≤ 0x7FF then [UInt8.ofNat (v / 64 % 32 + 192), UInt8.ofNat (v % 64 + 128)]
  else if v ≤ 0xFFFF then
    [UInt8.ofNat (v / 4096 % 16 + 224), UInt8.ofNat (v / 64 % 64 + 128),
      UInt8.ofNat (v % 64 + 128)]
  else
    [UInt8.ofNat (v / 262144 % 8 + 240), UInt8.ofNat (v / 4096 % 64 + 128),
      UInt8.ofNat (v / 64 % 64 + 128), UInt8.ofNat (v % 64 + 128)]

def encode (w : List Nat) : List UInt8 := w.flatMap encodePoint

theorem ofNat_lt_ofNat {a b : Nat} (h : a < b) (hb : b < 256) : UInt8.ofNat a < UInt8.ofNat b := by
  rw [UInt8.lt_iff_toNat_lt, UInt8.toNat_ofNat_of_lt' (by simpa using h.trans hb),
    UInt8.toNat_ofNat_of_lt' (by simpa using hb)]
  exact h

theorem cons_lt_cons_of_le {a b : Nat} {x y : List UInt8} (h : a ≤ b) (hb : b < 256)
    (htail : a = b → x < y) : UInt8.ofNat a :: x < UInt8.ofNat b :: y := by
  rw [cons_lt_cons_iff]
  rcases Nat.lt_or_eq_of_le h with hlt | rfl
  · exact .inl (ofNat_lt_ofNat hlt hb)
  · exact .inr ⟨rfl, htail rfl⟩

theorem encodePoint_lt {v w : Nat} (h : v < w) (hw : w < 0x110000) (x y : List UInt8) :
    encodePoint v ++ x < encodePoint w ++ y := by
  unfold encodePoint
  split_ifs <;> simp only [cons_append]
  -- byte by byte: either it decides, or the digits so far are the same
  all_goals repeat first
      | omega
      | refine cons_lt_cons_of_le (by omega) (by omega) fun _ => ?_

theorem encodePoint_ne_nil (v : Nat) : encodePoint v ≠ [] := by
  unfold encodePoint
  split_ifs <;> simp

theorem encode_lt_encode {a b : List Nat} (hb : ∀ v ∈ b, v < 0x110000) (h : a < b) :
    encode a < encode b := by
  induction b generalizing a with
  | nil => exact absurd h (not_lt_nil a)
  | cons w b ih =>
    have hw := hb w mem_cons_self
    rw [encode, encode, flatMap_cons]
    cases a with
    | nil =>
      cases hpoint : encodePoint w with
      | nil => exact absurd hpoint (encodePoint_ne_nil w)
      | cons c rest => exact nil_lt_cons c _
    | cons v a =>
      rcases cons_lt_cons_iff.mp h with hlt | ⟨rfl, htail⟩
      · exact encodePoint_lt hlt hw _ _
      · exact append_left_lt (ih (fun u hu => hb u (mem_cons_of_mem v hu)) htail)

/-- **Code points and their bytes are in the same order.** -/
theorem encode_lt_encode_iff {a b : List Nat} (ha : ∀ v ∈ a, v < 0x110000)
    (hb : ∀ v ∈ b, v < 0x110000) : encode a < encode b ↔ a < b := by
  refine ⟨fun h => ?_, encode_lt_encode hb⟩
  rcases lt_trichotomy a b with hlt | rfl | hgt
  · exact hlt
  · exact absurd h (List.lt_irrefl _)
  · exact absurd h (List.lt_asymm (encode_lt_encode ha hgt))

end Utf8

/-! ## Strings -/

section Strings

variable {s t : String}

def points (s : String) : List Nat := s.toList.map Char.toNat

theorem map_toNat_lt_iff {a b : List Char} : a.map Char.toNat < b.map Char.toNat ↔ a < b := by
  induction a generalizing b with
  | nil => cases b <;> simp
  | cons c a ih =>
    cases b with
    | nil => simp
    | cons d b =>
      rw [map_cons, map_cons, cons_lt_cons_iff, cons_lt_cons_iff, ih, Char.toNat_inj]
      rfl

theorem points_lt_iff : points s < points t ↔ s < t := by
  rw [points, points, map_toNat_lt_iff, String.lt_iff_toList_lt]

theorem points_isPrefix_iff : points s <+: points t ↔ s.toList <+: t.toList :=
  prefix_map_iff_of_injective fun _ _ => Char.toNat_inj.mp

def bytes (s : String) : List UInt8 := s.toByteArray.data.toList

theorem bytes_eq (s : String) : bytes s = encode (points s) := by
  rw [bytes, ← String.utf8Encode_toList, utf8Encode, encode, points, flatMap_map]
  simp
  rfl

theorem toNat_lt (c : Char) : c.toNat < 0x110000 := by
  rcases c.valid with hv | ⟨-, hv⟩
  · exact Nat.lt_trans hv (by decide)
  · exact hv

/-- **Strings are ordered by their bytes.** -/
theorem bytes_lt_iff : bytes s < bytes t ↔ s < t := by
  have hbound : ∀ (s : String), ∀ v ∈ points s, v < 0x110000 := by
    intro s v hv
    obtain ⟨c, -, rfl⟩ := mem_map.mp hv
    exact toNat_lt c
  rw [bytes_eq, bytes_eq, encode_lt_encode_iff (hbound s) (hbound t), points_lt_iff]

end Strings

end TextOrder
