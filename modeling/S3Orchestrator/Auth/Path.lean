import Mathlib.Data.List.Basic

/-!
# The canonical path

A request's path arrives percent-encoded. The URL parser keeps it decoded in `Path`, and keeps the
wire form in `RawPath` only where it is not the default encoding of `Path`. The canonical request is
built from `RawPath`, or from `Path` where there is none, and passes percent triplets through in
both cases.

* **`encodePath_eq_iff`**: two strings have one canonical path where they are alike, and nowhere
  else;
* **`WirePath.path_of_encodePath_eq`**: two plainly spelled paths with one canonical path are equal.
-/

namespace S3Orchestrator

open List

abbrev Bytes : Type := List UInt8

def bytesOf (s : String) : Bytes := s.toUTF8.data.toList

theorem bytesOf_injective : Function.Injective bytesOf := by
  intro s t h
  have hdata : s.toUTF8.data = t.toUTF8.data := Array.toList_inj.mp h
  exact String.toByteArray_inj.mp (ByteArray.ext hdata)

theorem bytesOf_inj {s t : String} : bytesOf s = bytesOf t ↔ s = t := bytesOf_injective.eq_iff

theorem bytesOf_beq (s t : String) : (bytesOf s == bytesOf t) = (s == t) := by
  rw [Bool.eq_iff_iff, beq_iff_eq, beq_iff_eq, bytesOf_inj]

def slash : UInt8 := 0x2F
def percent : UInt8 := 0x25

def isHexByte (b : UInt8) : Bool :=
  (0x30 ≤ b && b ≤ 0x39) || (0x61 ≤ b && b ≤ 0x66) || (0x41 ≤ b && b ≤ 0x46)

def isUnreservedPathByte (b : UInt8) : Bool :=
  (0x41 ≤ b && b ≤ 0x5A) || (0x61 ≤ b && b ≤ 0x7A) || (0x30 ≤ b && b ≤ 0x39) ||
    b == 0x2D || b == 0x2E || b == 0x5F || b == 0x7E

def hexUpper (n : UInt8) : UInt8 := if n < 10 then 0x30 + n else 0x37 + n

def unhex (b : UInt8) : UInt8 :=
  if b ≤ 0x39 then b - 0x30 else if b ≤ 0x46 then b - 0x37 else b - 0x57

def escapeByte (b : UInt8) : Bytes := [percent, hexUpper (b >>> 4), hexUpper (b &&& 0x0F)]

def startsHex : Bytes → Bool
  | h :: l :: _ => isHexByte h && isHexByte l
  | _ => false

def encodeFrom : Nat → Bytes → Bytes
  | _, [] => []
  | skip + 1, c :: s => c :: encodeFrom skip s
  | 0, c :: s =>
    if c = slash then c :: encodeFrom 0 s
    else if c = percent ∧ startsHex s = true then c :: encodeFrom 2 s
    else if isUnreservedPathByte c = true then c :: encodeFrom 0 s
    else escapeByte c ++ encodeFrom 0 s

def encodePath (wirePath : Bytes) : Bytes :=
  if wirePath = [] then [slash] else encodeFrom 0 wirePath

def unescape : Bytes → Option Bytes
  | [] => some []
  | c :: s =>
    if c = percent then
      match s with
      | h :: l :: t =>
        if isHexByte h && isHexByte l then
          (unescape t).map fun p => (unhex h <<< 4 ||| unhex l) :: p
        else none
      | _ => none
    else (unescape s).map fun p => c :: p

structure WirePath (escape : Bytes → Bytes) where
  wire : Bytes
  path : Bytes
  rawPath : Bytes
  decoded : unescape wire = some path
  raw : rawPath = if escape path = wire then [] else wire

def WirePath.parse (escape : Bytes → Bytes) (wire : Bytes) : Option (WirePath escape) :=
  match h : unescape wire with
  | some path => some ⟨wire, path, if escape path = wire then [] else wire, h, rfl⟩
  | none => none

/-- The path as the client sent it, or the decoded one where the parser kept no other. -/
def WirePath.canonicalPath {escape : Bytes → Bytes} (u : WirePath escape) : Bytes :=
  if u.rawPath ≠ [] then u.rawPath else u.path

def passes (b : UInt8) : Bool := b == slash || isUnreservedPathByte b

def escapes (b : UInt8) (s : Bytes) : Prop :=
  passes b = false ∧ ¬ (b = percent ∧ startsHex s = true)

/-- The strings differ only in bytes that one of them writes raw and the other as their upper-case
triplet. -/
inductive Alike : Bytes → Bytes → Prop
  | nil : Alike [] []
  | same (b : UInt8) {s t : Bytes} : passes b = true → Alike s t → Alike (b :: s) (b :: t)
  | triplet (h l : UInt8) {s t : Bytes} : isHexByte h = true → isHexByte l = true → Alike s t →
      Alike (percent :: h :: l :: s) (percent :: h :: l :: t)
  | raw (b : UInt8) {s t : Bytes} : escapes b s → escapes b t → Alike s t →
      Alike (b :: s) (b :: t)
  | left (b : UInt8) {s t : Bytes} : escapes b s → Alike s t → Alike (b :: s) (escapeByte b ++ t)
  | right (b : UInt8) {s t : Bytes} : escapes b t → Alike s t → Alike (escapeByte b ++ s) (b :: t)

def rooted (s : Bytes) : Bytes := if s = [] then [slash] else s

/-- No percent triplet where the canonical path is read from the decoded one, and not empty. -/
def WirePath.Plain {escape : Bytes → Bytes} (u : WirePath escape) : Prop :=
  u.path ≠ [] ∧ (u.rawPath = [] → ∀ s t, u.path = s ++ percent :: t → startsHex t = false)

/-! ## Bytes -/

theorem forall_byte {p : UInt8 → Prop} (h : ∀ i : Fin 256, p (UInt8.ofFin i)) (b : UInt8) :
    p b := by
  have := h b.toFin
  rwa [UInt8.ofFin_toFin] at this

theorem isHexByte_hexUpper (b : UInt8) :
    isHexByte (hexUpper (b >>> 4)) = true ∧ isHexByte (hexUpper (b &&& 0x0F)) = true := by
  revert b
  exact forall_byte (by decide +kernel)

theorem unhex_hexUpper (b : UInt8) :
    unhex (hexUpper (b >>> 4)) <<< 4 ||| unhex (hexUpper (b &&& 0x0F)) = b := by
  revert b
  exact forall_byte (by decide +kernel)

theorem slash_ne_percent : slash ≠ percent := by decide

variable {s t : Bytes} {b : UInt8}

theorem passes_iff : passes b = true ↔ b = slash ∨ isUnreservedPathByte b = true := by
  simp [passes]

theorem ne_percent_of_passes (h : passes b = true) : b ≠ percent := by
  rintro rfl
  cases h

/-! ## The loop, one byte at a time -/

theorem encodeFrom_passes (h : passes b = true) (s : Bytes) :
    encodeFrom 0 (b :: s) = b :: encodeFrom 0 s := by
  rw [encodeFrom]
  rcases passes_iff.mp h with rfl | hu
  · rw [if_pos rfl]
  · by_cases hs : b = slash
    · rw [if_pos hs]
    · have hp : ¬ (b = percent ∧ startsHex s = true) := fun hb => ne_percent_of_passes h hb.1
      rw [if_neg hs, if_neg hp, if_pos hu]

theorem encodeFrom_triplet {h l : UInt8} (hh : isHexByte h = true) (hl : isHexByte l = true)
    (s : Bytes) : encodeFrom 0 (percent :: h :: l :: s) = percent :: h :: l :: encodeFrom 0 s := by
  have hhex : startsHex (h :: l :: s) = true := by rw [startsHex, hh, hl]; rfl
  rw [encodeFrom, if_neg slash_ne_percent.symm, if_pos ⟨rfl, hhex⟩]
  rfl

theorem encodeFrom_escapes {s : Bytes} (h : escapes b s) :
    encodeFrom 0 (b :: s) = escapeByte b ++ encodeFrom 0 s := by
  have hpass := h.1
  rw [passes, Bool.or_eq_false_iff, beq_eq_false_iff_ne] at hpass
  rw [encodeFrom, if_neg hpass.1, if_neg h.2, if_neg (Bool.eq_false_iff.mp hpass.2)]

theorem encodeFrom_escapeByte (b : UInt8) (s : Bytes) :
    encodeFrom 0 (escapeByte b ++ s) = escapeByte b ++ encodeFrom 0 s :=
  encodeFrom_triplet (isHexByte_hexUpper b).1 (isHexByte_hexUpper b).2 s

theorem bytes_cases (b : UInt8) (s : Bytes) :
    passes b = true ∨ (∃ h l t, b = percent ∧ s = h :: l :: t ∧ isHexByte h = true ∧
      isHexByte l = true) ∨ escapes b s := by
  by_cases hpass : passes b = true
  · exact .inl hpass
  right
  by_cases htrip : b = percent ∧ startsHex s = true
  · left
    obtain ⟨hb, hhex⟩ := htrip
    match s, hhex with
    | h :: l :: t, hhex =>
      rw [startsHex, Bool.and_eq_true] at hhex
      exact ⟨h, l, t, hb, rfl, hhex.1, hhex.2⟩
  · exact .inr ⟨by simpa using hpass, htrip⟩

/-! ## Strings with one canonical path -/

theorem Alike.encodeFrom_eq (h : Alike s t) : encodeFrom 0 s = encodeFrom 0 t := by
  induction h with
  | nil => rfl
  | same b hb _ ih => rw [encodeFrom_passes hb, encodeFrom_passes hb, ih]
  | triplet h l hh hl _ ih => rw [encodeFrom_triplet hh hl, encodeFrom_triplet hh hl, ih]
  | raw b hs ht _ ih => rw [encodeFrom_escapes hs, encodeFrom_escapes ht, ih]
  | left b hs _ ih => rw [encodeFrom_escapes hs, encodeFrom_escapeByte, ih]
  | right b ht _ ih => rw [encodeFrom_escapes ht, encodeFrom_escapeByte, ih]

theorem encodeFrom_ne_nil (b : UInt8) (s : Bytes) : encodeFrom 0 (b :: s) ≠ [] := by
  rcases bytes_cases b s with h | ⟨h, l, t, rfl, rfl, hh, hl⟩ | h
  · rw [encodeFrom_passes h]
    exact cons_ne_nil _ _
  · rw [encodeFrom_triplet hh hl]
    exact cons_ne_nil _ _
  · rw [encodeFrom_escapes h]
    exact cons_ne_nil _ _

theorem escapeByte_inj {b c : UInt8} (h : escapeByte b ++ s = escapeByte c ++ t) :
    b = c ∧ s = t := by
  simp only [escapeByte, cons_append, cons.injEq, true_and] at h
  obtain ⟨h1, h2, h3⟩ := h
  refine ⟨?_, h3⟩
  rw [← unhex_hexUpper b, ← unhex_hexUpper c, h1, h2]

theorem triplet_eq_escapeByte {h l b : UInt8} (he : percent :: h :: l :: s = escapeByte b ++ t) :
    (∀ u, percent :: h :: l :: u = escapeByte b ++ u) ∧ s = t := by
  obtain ⟨rfl, rfl, rfl⟩ := he
  exact ⟨fun u => rfl, rfl⟩

theorem passes_ne_escape {b c : UInt8} (hb : passes b = true) :
    b :: s ≠ escapeByte c ++ t := fun h => by
  exact ne_percent_of_passes hb (List.cons.inj h).1

theorem alike_of_encodeFrom_eq :
    ∀ (n : Nat) (s t : Bytes), s.length + t.length ≤ n → encodeFrom 0 s = encodeFrom 0 t →
      Alike s t := by
  intro n
  induction n with
  | zero =>
    intro s t hn _
    obtain rfl := length_eq_zero_iff.mp (show s.length = 0 by omega)
    obtain rfl := length_eq_zero_iff.mp (show t.length = 0 by omega)
    exact Alike.nil
  | succ n ih =>
    intro s t hn h
    match s, t with
    | [], [] => exact Alike.nil
    | [], c :: t => exact absurd h.symm (encodeFrom_ne_nil c t)
    | b :: s, [] => exact absurd h (encodeFrom_ne_nil b s)
    | b :: s, c :: t =>
      simp only [length_cons] at hn
      -- What stands next on the left, against what stands next on the right.
      rcases bytes_cases b s with hb | ⟨x, y, s, rfl, rfl, hx, hy⟩ | hb <;>
        rcases bytes_cases c t with hc | ⟨z, w, t, rfl, rfl, hz, hw⟩ | hc
      · rw [encodeFrom_passes hb, encodeFrom_passes hc] at h
        obtain ⟨rfl, htail⟩ := cons.inj h
        exact Alike.same b hb (ih s t (by omega) htail)
      · rw [encodeFrom_passes hb, encodeFrom_triplet hz hw] at h
        exact absurd (cons.inj h).1 (ne_percent_of_passes hb)
      · rw [encodeFrom_passes hb, encodeFrom_escapes hc] at h
        exact absurd h (passes_ne_escape hb)
      · rw [encodeFrom_triplet hx hy, encodeFrom_passes hc] at h
        exact absurd (cons.inj h).1.symm (ne_percent_of_passes hc)
      · rw [encodeFrom_triplet hx hy, encodeFrom_triplet hz hw] at h
        simp only [cons.injEq, true_and] at h
        obtain ⟨rfl, rfl, h⟩ := h
        simp only [length_cons] at hn
        exact Alike.triplet x y hx hy (ih s t (by omega) h)
      · rw [encodeFrom_triplet hx hy, encodeFrom_escapes hc] at h
        obtain ⟨hform, h⟩ := triplet_eq_escapeByte h
        rw [hform]
        simp only [length_cons] at hn
        exact Alike.right c hc (ih s t (by omega) h)
      · rw [encodeFrom_escapes hb, encodeFrom_passes hc] at h
        exact absurd h.symm (passes_ne_escape hc)
      · rw [encodeFrom_escapes hb, encodeFrom_triplet hz hw] at h
        obtain ⟨hform, h⟩ := triplet_eq_escapeByte h.symm
        rw [hform]
        simp only [length_cons] at hn
        exact Alike.left b hb (ih s t (by omega) h.symm)
      · rw [encodeFrom_escapes hb, encodeFrom_escapes hc] at h
        obtain ⟨rfl, htail⟩ := escapeByte_inj h
        exact Alike.raw b hb hc (ih s t (by omega) htail)

theorem encodePath_eq (s : Bytes) : encodePath s = encodeFrom 0 (rooted s) := by
  unfold encodePath rooted
  split_ifs
  · rw [encodeFrom_passes (by decide)]
    rfl
  · rfl

theorem encodePath_eq_iff : encodePath s = encodePath t ↔ Alike (rooted s) (rooted t) := by
  rw [encodePath_eq, encodePath_eq]
  exact ⟨alike_of_encodeFrom_eq _ _ _ (Nat.le_refl _), Alike.encodeFrom_eq⟩

/-! ## Decoding a canonical path -/

theorem unescape_cons (h : b ≠ percent) (s : Bytes) :
    unescape (b :: s) = (unescape s).map fun p => b :: p := by
  rw [unescape.eq_def]
  exact if_neg h

theorem unescape_triplet {h l : UInt8} (hh : isHexByte h = true) (hl : isHexByte l = true)
    (s : Bytes) :
    unescape (percent :: h :: l :: s) =
      (unescape s).map fun p => (unhex h <<< 4 ||| unhex l) :: p := by
  rw [unescape, if_pos rfl]
  simp only [hh, hl, Bool.and_self, if_true]

theorem unescape_escapeByte (b : UInt8) (s : Bytes) :
    unescape (escapeByte b ++ s) = (unescape s).map fun p => b :: p := by
  have := unescape_triplet (isHexByte_hexUpper b).1 (isHexByte_hexUpper b).2 s
  rwa [unhex_hexUpper] at this

theorem unescape_percent {s : Bytes} (h : startsHex s = false) :
    unescape (percent :: s) = none := by
  rw [unescape.eq_def]
  match s, h with
  | [], _ => exact if_pos rfl
  | [_], _ => exact if_pos rfl
  | h :: l :: t, hhex =>
    rw [startsHex] at hhex
    simp only [hhex, Bool.false_eq_true, if_false, if_true]

theorem unescape_encodeFrom :
    ∀ (n : Nat) (s : Bytes) {p : Bytes}, s.length ≤ n → unescape s = some p →
      unescape (encodeFrom 0 s) = some p := by
  intro n
  induction n with
  | zero =>
    intro s p hn h
    obtain rfl := length_eq_zero_iff.mp (Nat.le_zero.mp hn)
    exact h
  | succ n ih =>
    intro s p hn h
    match s with
    | [] => exact h
    | b :: s =>
      simp only [length_cons] at hn
      rcases bytes_cases b s with hb | ⟨x, y, s, rfl, rfl, hx, hy⟩ | hb
      · have hne := ne_percent_of_passes hb
        rw [unescape_cons hne, Option.map_eq_some_iff] at h
        obtain ⟨q, hq, rfl⟩ := h
        rw [encodeFrom_passes hb, unescape_cons hne, ih s (by omega) hq]
        rfl
      · simp only [length_cons] at hn
        rw [unescape_triplet hx hy, Option.map_eq_some_iff] at h
        obtain ⟨q, hq, rfl⟩ := h
        rw [encodeFrom_triplet hx hy, unescape_triplet hx hy, ih s (by omega) hq]
        rfl
      · -- An escaped `%` would be one without digits, which the parser refuses.
        have hne : b ≠ percent := by
          rintro rfl
          have hhex : startsHex s = false := by
            simpa using fun hs => hb.2 ⟨rfl, hs⟩
          rw [unescape_percent hhex] at h
          cases h
        rw [unescape_cons hne, Option.map_eq_some_iff] at h
        obtain ⟨q, hq, rfl⟩ := h
        rw [encodeFrom_escapes hb, unescape_escapeByte, ih s (by omega) hq]
        rfl

theorem unescape_encodeFrom_self {s : Bytes}
    (h : ∀ u t, s = u ++ percent :: t → startsHex t = false) :
    unescape (encodeFrom 0 s) = some s := by
  induction s with
  | nil => rfl
  | cons b s ih =>
    have htail : ∀ u t, s = u ++ percent :: t → startsHex t = false := by
      intro u t hs
      exact h (b :: u) t (by rw [hs]; rfl)
    rcases bytes_cases b s with hb | ⟨x, y, t, rfl, rfl, hx, hy⟩ | hb
    · rw [encodeFrom_passes hb, unescape_cons (ne_percent_of_passes hb), ih htail]
      rfl
    · have hhex := h [] _ rfl
      rw [startsHex, hx, hy] at hhex
      cases hhex
    · rw [encodeFrom_escapes hb, unescape_escapeByte, ih htail]
      rfl

section

variable {escape : Bytes → Bytes} {u : WirePath escape}

theorem WirePath.canonicalPath_of_raw (h : u.rawPath ≠ []) : u.canonicalPath = u.wire := by
  rw [canonicalPath, if_pos h, u.raw, if_neg]
  intro hd
  exact h (by rw [u.raw, if_pos hd])

theorem WirePath.canonicalPath_of_path (h : u.rawPath = []) : u.canonicalPath = u.path := by
  rw [canonicalPath, if_neg (by simp [h])]

theorem encodePath_of_ne_nil {s : Bytes} (h : s ≠ []) : encodePath s = encodeFrom 0 s := by
  rw [encodePath, if_neg h]

theorem WirePath.Plain.unescape (h : u.Plain) :
    S3Orchestrator.unescape (encodePath u.canonicalPath) = some u.path := by
  by_cases hraw : u.rawPath = []
  · rw [canonicalPath_of_path hraw, encodePath_of_ne_nil h.1]
    exact unescape_encodeFrom_self (h.2 hraw)
  · have hwire : u.wire ≠ [] := by
      rw [← canonicalPath_of_raw hraw, canonicalPath, if_pos hraw]
      exact hraw
    rw [canonicalPath_of_raw hraw, encodePath_of_ne_nil hwire]
    exact unescape_encodeFrom _ _ (Nat.le_refl _) u.decoded

theorem WirePath.path_of_encodePath_eq {u v : WirePath escape} (hu : u.Plain) (hv : v.Plain)
    (h : encodePath u.canonicalPath = encodePath v.canonicalPath) : u.path = v.path := by
  have := hu.unescape
  rw [h, hv.unescape] at this
  exact (Option.some.inj this).symm

end

end S3Orchestrator
