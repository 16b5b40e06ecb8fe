import Mathlib.Data.List.Basic
import Mathlib.Data.List.TakeWhile
import Mathlib.Algebra.Order.Ring.Nat
import S3Orchestrator.Lib.Fields

/-!
# Byte ranges in HTTP

A client asks for part of a representation with a `Range` header. RFC 9110 leaves a server some
freedom in what it answers: it may ignore the header, and it may refuse one that is not well formed.

* `decimal`: numbers in digits;
* **`ranges_single`**: a header without commas and blanks lists at most one range.
-/

namespace HttpRange

open Fields

/-! ## Numbers -/

section Decimal

variable {s : List Char} {n : Nat}

def decimal (s : List Char) : Option Nat :=
  if s ≠ [] ∧ s.all Char.isDigit = true then some (Nat.ofDigitChars 10 s 0) else none

theorem decimal_toDigits (n : Nat) : decimal (Nat.toDigits 10 n) = some n := by
  have hdigits : (Nat.toDigits 10 n).all Char.isDigit = true := by
    rw [List.all_eq_true]
    exact fun c hc => Nat.isDigit_of_mem_toDigits (by decide) (by decide) hc
  rw [decimal, Nat.ofDigitChars_ten_toDigits, if_pos ⟨Nat.toDigits_ne_nil, hdigits⟩]

theorem digits_of_decimal (h : decimal s = some n) : s ≠ [] ∧ ∀ c ∈ s, c.isDigit = true := by
  unfold decimal at h
  split_ifs at h with hs
  exact ⟨hs.1, List.all_eq_true.mp hs.2⟩

theorem not_mem_toDigits {c : Char} (hc : c.isDigit = false) (n : Nat) : c ∉ Nat.toDigits 10 n :=
  fun hmem => by
    rw [Nat.isDigit_of_mem_toDigits (by decide) (by decide) hmem] at hc
    cases hc

end Decimal

/-! ## Ranges -/

/-- One range: two positions, everything from a position on, or the last bytes. -/
inductive RangeSpec
  | fromTo (first last : Nat)
  | fromOn (first : Nat)
  | suffix (length : Nat)

namespace RangeSpec

/-- The range a text spells. One whose last position comes before its first is invalid. -/
def ofText (s : List Char) : Option RangeSpec :=
  match cut '-' s with
  | none => none
  | some (first, last) =>
    if first = [] then (decimal last).map suffix
    else if last = [] then (decimal first).map fromOn
    else
      match decimal first, decimal last with
      | some a, some b => if a ≤ b then some (fromTo a b) else none
      | _, _ => none

/-- The first and the last byte selected from a representation of the given length, if any. -/
def resolve (length : Nat) : RangeSpec → Option (Nat × Nat)
  | fromTo first last => if first < length then some (first, min last (length - 1)) else none
  | fromOn first => if first < length then some (first, length - 1) else none
  | suffix n => if 0 < n ∧ 0 < length then some (length - n, length - 1) else none

end RangeSpec

def isBlank (c : Char) : Bool := c == ' ' || c == '\t'

def trimBlanks (s : List Char) : List Char :=
  ((s.dropWhile isBlank).reverse.dropWhile isBlank).reverse

/-- The ranges of a comma-separated list, in which elements may be empty. -/
def rangeSet (s : List Char) : Option (List RangeSpec) :=
  let elements := ((s.splitOn ',').map trimBlanks).filter (· ≠ [])
  if elements = [] then none else elements.mapM RangeSpec.ofText

def ranges (header : String) : Option (List RangeSpec) :=
  match cut '=' header.toList with
  | none => none
  | some (unit, set) => if unit.map Char.toLower = "bytes".toList then rangeSet set else none

section Single

variable {s : List Char}

theorem trimBlanks_of_no_blank (h : ∀ c ∈ s, isBlank c = false) : trimBlanks s = s := by
  have hself : ∀ l : List Char, (∀ c ∈ l, isBlank c = false) → l.dropWhile isBlank = l := by
    intro l hl
    cases l with
    | nil => rfl
    | cons c l => simp [hl c List.mem_cons_self]
  rw [trimBlanks, hself s h, hself s.reverse fun c hc => h c (List.mem_reverse.mp hc),
    List.reverse_reverse]

theorem rangeSet_single (hne : s ≠ []) (h : ∀ c ∈ s, c ≠ ',' ∧ isBlank c = false) :
    rangeSet s = (RangeSpec.ofText s).map ([·]) := by
  have hsplit : s.splitOn ',' = [s] :=
    List.splitOnP_eq_singleton fun c hc => by simpa using (h c hc).1
  have htrim := trimBlanks_of_no_blank fun c hc => (h c hc).2
  have helements : ((s.splitOn ',').map trimBlanks).filter (· ≠ []) = [s] := by
    rw [hsplit, List.map_singleton, htrim]
    simp [hne]
  rw [rangeSet, helements]
  cases hspec : RangeSpec.ofText s <;> simp [hspec]

/-- **A header in bytes without commas and blanks lists at most one range.** -/
theorem ranges_single {header : String} (hheader : header.toList = "bytes=".toList ++ s)
    (hne : s ≠ []) (h : ∀ c ∈ s, c ≠ ',' ∧ isBlank c = false) :
    ranges header = (RangeSpec.ofText s).map ([·]) := by
  have hunit : '=' ∉ "bytes".toList := by decide
  have hcut : cut '=' header.toList = some ("bytes".toList, s) := by
    rw [hheader]
    exact cut_append hunit s
  rw [ranges, hcut]
  dsimp only
  rw [if_pos (by decide), rangeSet_single hne h]

theorem ofText_fromTo {a b : Nat} (h : a ≤ b) :
    RangeSpec.ofText (Nat.toDigits 10 a ++ '-' :: Nat.toDigits 10 b) = some (.fromTo a b) := by
  rw [RangeSpec.ofText, cut_append (not_mem_toDigits (by decide) a)]
  dsimp only
  rw [if_neg Nat.toDigits_ne_nil, if_neg Nat.toDigits_ne_nil, decimal_toDigits, decimal_toDigits]
  exact if_pos h

end Single

/-! ## Replies -/

section Replies

variable {α : Type}

/-- A body with its `Content-Range`, empty with the whole representation, or that no range can be
satisfied. -/
inductive Reply (α : Type)
  | ok (body : List α) (contentRange : String)
  | notSatisfiable

def slice (body : List α) (first last : Nat) : List α := (body.drop first).take (last + 1 - first)

def contentRange (first last length : Nat) : String :=
  "bytes " ++ toString first ++ "-" ++ toString last ++ "/" ++ toString length

/-- A server may answer so. It may ignore the header, and refuse one that is not well formed. One
range is answered with its bytes, or refused if it selects none; how several are answered is left
open. -/
def Conforms (body : List α) (header : String) (r : Reply α) : Prop :=
  r = .ok body "" ∨ header ≠ "" ∧
    match ranges header with
    | none => r = .notSatisfiable
    | some [spec] =>
      match spec.resolve body.length with
      | none => r = .notSatisfiable
      | some (first, last) =>
        r = .ok (slice body first last) (contentRange first last body.length)
    | some _ => True

theorem length_slice {body : List α} {first last : Nat} (hle : first ≤ last)
    (hlt : last < body.length) : (slice body first last).length = last + 1 - first := by
  rw [slice, List.length_take, List.length_drop]
  omega

theorem contentRange_ne_empty (first last length : Nat) : contentRange first last length ≠ "" := by
  intro h
  have := congrArg String.toList h
  simp [contentRange] at this

/-- A server that answers one range, and ignores every other header. -/
def serve (body : List α) (header : String) : Reply α :=
  match ranges header with
  | some [spec] =>
    match spec.resolve body.length with
    | none => .notSatisfiable
    | some (first, last) => .ok (slice body first last) (contentRange first last body.length)
  | _ => .ok body ""

theorem conforms_serve (body : List α) (header : String) :
    Conforms body header (serve body header) := by
  unfold Conforms serve
  cases hranges : ranges header with
  | none => exact .inl rfl
  | some specs =>
    have hheader : header ≠ "" := by
      rintro rfl
      cases hranges
    refine .inr ⟨hheader, ?_⟩
    match specs with
    | [] => trivial
    | [spec] =>
      dsimp only
      cases spec.resolve body.length <;> rfl
    | _ :: _ :: _ => trivial

end Replies

end HttpRange
