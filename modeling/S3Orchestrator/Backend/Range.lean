import S3Orchestrator.Lib.HttpRange
import S3Orchestrator.Lib.Stream

/-!
# Ranged reads of a backend

`parse` resolves a `Range` header against the size of an object. A backend that does not support
ranges answers with the whole object; `emulateRange` cuts the range out of its answer.

* **`parse_rfc`**: a header that resolves is one range of RFC 9110, or not well formed there;
* **`getObject_range`**: whatever the backend does with the header, the range resolved is read.
-/

namespace S3Orchestrator.Backend

open ByteStream Fields HttpRange List

/-! ## Ranges -/

def parseInt64 (s : List Char) : Option Int :=
  match s with
  | '+' :: s => (decimal s).bind fun n => if n < 2 ^ 63 then some n else none
  | '-' :: s => (decimal s).bind fun n => if n ≤ 2 ^ 63 then some (-n) else none
  | s => (decimal s).bind fun n => if n < 2 ^ 63 then some n else none

def parse (header : String) (size : Int) : Option (Int × Int) :=
  match "bytes=".toList.isPrefixOf? header.toList with
  | none => none
  | some spec =>
    match cut '-' spec with
    | none => none
    | some (front, back) =>
      if front = [] then
        match parseInt64 back with
        | none => none
        | some n => if n ≤ 0 then none else some (max (size - n) 0, size - 1)
      else
        match parseInt64 front with
        | none => none
        | some start =>
          if start < 0 ∨ size ≤ start then none
          else if back = [] then some (start, size - 1)
          else
            match parseInt64 back with
            | none => none
            | some stop => if stop < start then none else some (start, min stop (size - 1))

def rangeHeader (start stop : Int) : String := "bytes=" ++ toString start ++ "-" ++ toString stop

def contentRange (start stop size : Int) : String :=
  "bytes " ++ toString start ++ "-" ++ toString stop ++ "/" ++ toString size

theorem contentRange_ne (start stop size : Int) : contentRange start stop size ≠ "" := by
  intro h
  have := congrArg String.toList h
  simp [contentRange] at this

/-! ## Reading -/

def limitReader (t : Feed) (n : Int) : Feed :=
  if n ≤ t.data.length then ⟨t.data.take n.toNat, .eof⟩ else t

def window (t : Feed) (skip n : Int) : Except Err Feed :=
  if 0 < skip ∧ t.data.length < skip then
    .error (if t.ending.is .eof then .unexpectedEOF else t.ending)
  else .ok (limitReader (t.drop skip.toNat) n)

def errStatus416 : Err := .text "api error InvalidRange: status 416"

def errRangeNotSatisfiable (header : String) (size : Int) : Err :=
  .text ("range " ++ header ++ " not satisfiable for a " ++ toString size ++ "-byte object")

structure GetObjectResult where
  body : Feed
  size : Int
  contentRange : String
  wireSize : Int := 0

def applyRange (res : GetObjectResult) (header : String) : Except Err GetObjectResult :=
  match parse header res.size with
  | none => .error (errRangeNotSatisfiable header res.size)
  | some (start, stop) =>
    match window res.body start (stop - start + 1) with
    | .error e => .error (.wrap "skip to range start" e)
    | .ok body =>
      .ok { body := body
            size := stop - start + 1
            contentRange := contentRange start stop res.size
            wireSize := stop + 1 }

def emulateRange (res : GetObjectResult) (header : String) : Except Err GetObjectResult :=
  if header = "" ∨ res.contentRange ≠ "" then .ok res else applyRange res header

/-- `S3Backend.GetObject` of an object for which the backend answers each header as given. -/
def getObject (reply : String → Reply UInt8) (header : String) :
    Except Err GetObjectResult :=
  match reply header with
  | .notSatisfiable => .error errStatus416
  | .ok body range => emulateRange ⟨⟨body, .eof⟩, body.length, range, 0⟩ header

/-! ## What a header resolves to -/

section Parse

variable {header : String} {size start stop n : Int} {s : List Char}

theorem plain_of_isDigit {c : Char} (hc : c.isDigit = true) : c ≠ ',' ∧ isBlank c = false := by
  refine ⟨fun hcomma => absurd (hcomma ▸ hc) (by decide), ?_⟩
  simp only [isBlank, Bool.or_eq_false_iff, beq_eq_false_iff_ne]
  exact ⟨fun hblank => absurd (hblank ▸ hc) (by decide),
    fun hblank => absurd (hblank ▸ hc) (by decide)⟩

theorem chars_of_parseInt64 (h : parseInt64 s = some n) :
    s ≠ [] ∧ ∀ c ∈ s, c ≠ ',' ∧ isBlank c = false := by
  have hsigned : ∀ (sign : Char) (l : List Char) (k : Nat), sign ≠ ',' → isBlank sign = false →
      decimal l = some k → ∀ c ∈ sign :: l, c ≠ ',' ∧ isBlank c = false := by
    intro sign l k hcomma hblank hl c hc
    rcases mem_cons.mp hc with rfl | hc
    · exact ⟨hcomma, hblank⟩
    · exact plain_of_isDigit ((digits_of_decimal hl).2 c hc)
  unfold parseInt64 at h
  split at h
  · obtain ⟨k, hk, -⟩ := Option.bind_eq_some_iff.mp h
    exact ⟨cons_ne_nil _ _, hsigned '+' _ k (by decide) (by decide) hk⟩
  · obtain ⟨k, hk, -⟩ := Option.bind_eq_some_iff.mp h
    exact ⟨cons_ne_nil _ _, hsigned '-' _ k (by decide) (by decide) hk⟩
  · obtain ⟨k, hk, -⟩ := Option.bind_eq_some_iff.mp h
    exact ⟨(digits_of_decimal hk).1, fun c hc =>
      plain_of_isDigit ((digits_of_decimal hk).2 c hc)⟩

theorem parseInt64_of_decimal {k : Nat} (h : decimal s = some k) :
    parseInt64 s = if k < 2 ^ 63 then some (k : Int) else none := by
  have hdigit := (digits_of_decimal h).2
  unfold parseInt64
  split
  · exact absurd (hdigit '+' mem_cons_self) (by decide)
  · exact absurd (hdigit '-' mem_cons_self) (by decide)
  · rw [h, Option.bind_some]

theorem exists_of_parse (h : parse header size = some (start, stop)) :
    ∃ front back, header.toList = "bytes=".toList ++ (front ++ '-' :: back) ∧ '-' ∉ front ∧
      ((front = [] ∧ ∃ n, parseInt64 back = some n ∧ 0 < n ∧ start = max (size - n) 0 ∧
          stop = size - 1) ∨
        (front ≠ [] ∧ parseInt64 front = some start ∧ 0 ≤ start ∧ start < size ∧
          ((back = [] ∧ stop = size - 1) ∨
            ∃ last, parseInt64 back = some last ∧ start ≤ last ∧ stop = min last (size - 1)))) := by
  unfold parse at h
  split at h
  · cases h
  rename_i spec hspec
  have hheader := append_eq_of_isPrefixOf?_eq_some hspec
  split at h
  · cases h
  rename_i front back hcut
  obtain ⟨rfl, hfront⟩ := cut_eq_some.mp hcut
  refine ⟨front, back, hheader.symm, hfront, ?_⟩
  by_cases hempty : front = []
  · rw [if_pos hempty] at h
    cases hback : parseInt64 back with
    | none =>
      rw [hback] at h
      cases h
    | some n =>
      rw [hback] at h
      dsimp only at h
      split_ifs at h with hn
      obtain ⟨rfl, rfl⟩ := Prod.mk.inj (Option.some.inj h)
      exact .inl ⟨hempty, n, rfl, by omega, rfl, rfl⟩
  · rw [if_neg hempty] at h
    refine .inr ⟨hempty, ?_⟩
    cases hfirst : parseInt64 front with
    | none =>
      rw [hfirst] at h
      cases h
    | some first =>
      rw [hfirst] at h
      dsimp only at h
      split_ifs at h with hbounds hback
      · obtain ⟨rfl, rfl⟩ := Prod.mk.inj (Option.some.inj h)
        exact ⟨rfl, by omega, by omega, .inl ⟨hback, rfl⟩⟩
      · cases hlast : parseInt64 back with
        | none =>
          rw [hlast] at h
          cases h
        | some last =>
          rw [hlast] at h
          dsimp only at h
          split_ifs at h with hle
          obtain ⟨rfl, rfl⟩ := Prod.mk.inj (Option.some.inj h)
          exact ⟨rfl, by omega, by omega, .inr ⟨last, rfl, by omega, rfl⟩⟩

theorem bounds_of_parse (h : parse header size = some (start, stop)) (hsize : 0 < size) :
    0 ≤ start ∧ start ≤ stop ∧ stop < size := by
  obtain ⟨front, back, -, -, ⟨-, n, -, hn, rfl, rfl⟩ | ⟨-, -, hstart, hlt, hstop⟩⟩ :=
    exists_of_parse h
  · omega
  · rcases hstop with ⟨-, rfl⟩ | ⟨last, -, hle, rfl⟩
    · omega
    · omega

theorem eq_of_parse_empty (h : parse header 0 = some (start, stop)) : start = 0 ∧ stop = -1 := by
  obtain ⟨front, back, -, -, ⟨-, n, -, hn, rfl, rfl⟩ | ⟨-, -, hstart, hlt, -⟩⟩ :=
    exists_of_parse h
  · omega
  · omega

theorem toList_rangeHeader (first last : Nat) : (rangeHeader first last).toList =
    "bytes=".toList ++ (Nat.toDigits 10 first ++ '-' :: Nat.toDigits 10 last) := by
  have hdecimal : ∀ n : Nat, (n : Int).repr.toList = Nat.toDigits 10 n := fun n => Nat.toList_repr
  simp [rangeHeader, hdecimal]

theorem rangeHeader_ne_empty (first last : Int) : rangeHeader first last ≠ "" := by
  intro h
  have := congrArg String.toList h
  simp [rangeHeader] at this

theorem front_of_isPrefixOf {front back : List Char} (hfront : '-' ∉ front)
    (h : "bytes=0-".toList.isPrefixOf ("bytes=".toList ++ (front ++ '-' :: back)) = true) :
    front = ['0'] := by
  obtain ⟨t, ht⟩ := isPrefixOf_iff_prefix.mp h
  have hzero : ['0'] ++ '-' :: t = front ++ '-' :: back :=
    append_cancel_left (show "bytes=".toList ++ (['0'] ++ '-' :: t) = _ from ht)
  have hcut := congrArg (cut '-') hzero
  rw [cut_append (by decide), cut_append hfront, Option.some.injEq, Prod.mk.injEq] at hcut
  exact hcut.1.symm

theorem not_isPrefixOf_rangeHeader {first : Nat} (hfirst : 0 < first) (last : Nat) :
    "bytes=0-".toList.isPrefixOf (rangeHeader first last).toList = false := by
  rw [Bool.eq_false_iff, toList_rangeHeader]
  intro h
  have hdecimal := decimal_toDigits first
  rw [front_of_isPrefixOf (not_mem_toDigits (by decide) first) h,
    show decimal ['0'] = some 0 by decide, Option.some.injEq] at hdecimal
  omega

theorem start_of_isPrefixOf (h : parse header size = some (start, stop))
    (hzero : "bytes=0-".toList.isPrefixOf header.toList = true) : start = 0 := by
  obtain ⟨front, back, hheader, hfront, hcases⟩ := exists_of_parse h
  rw [hheader] at hzero
  obtain rfl := front_of_isPrefixOf hfront hzero
  rcases hcases with ⟨hnil, -⟩ | ⟨-, hfirst, -⟩
  · cases hnil
  · rw [show parseInt64 ['0'] = some 0 by decide, Option.some.injEq] at hfirst
    exact hfirst.symm

theorem ranges_rangeHeader {first last : Nat} (hle : first ≤ last) :
    ranges (rangeHeader first last) = some [.fromTo first last] := by
  have hchars : ∀ c ∈ Nat.toDigits 10 first ++ '-' :: Nat.toDigits 10 last,
      c ≠ ',' ∧ isBlank c = false := by
    have hdigits : ∀ n, ∀ c ∈ Nat.toDigits 10 n, c ≠ ',' ∧ isBlank c = false := fun n c hc =>
      plain_of_isDigit (Nat.isDigit_of_mem_toDigits (by decide) (by decide) hc)
    intro c hc
    rcases mem_append.mp hc with hc | hc
    · exact hdigits first c hc
    · rcases mem_cons.mp hc with rfl | hc
      · exact ⟨by decide, by decide⟩
      · exact hdigits last c hc
  rw [ranges_single (toList_rangeHeader first last) (by simp) hchars, ofText_fromTo hle]
  rfl

theorem parse_rangeHeader {first last : Nat} (size : Int) (hle : first ≤ last)
    (hlast : last < 2 ^ 63) (hlt : first < size) :
    parse (rangeHeader first last) size = some ((first : Int), min (last : Int) (size - 1)) := by
  have hspec : "bytes=".toList.isPrefixOf? (rangeHeader first last).toList =
      some (Nat.toDigits 10 first ++ '-' :: Nat.toDigits 10 last) := by
    rw [toList_rangeHeader, isPrefixOf?_eq_some_iff_append_eq]
  rw [parse, hspec]
  dsimp only
  rw [cut_append (not_mem_toDigits (by decide) first)]
  dsimp only
  rw [if_neg Nat.toDigits_ne_nil, parseInt64_of_decimal (decimal_toDigits first), if_pos (by omega)]
  dsimp only
  rw [if_neg (by omega), if_neg Nat.toDigits_ne_nil,
    parseInt64_of_decimal (decimal_toDigits last), if_pos hlast]
  dsimp only
  rw [if_neg (by omega)]

theorem parse_rfc {length : Nat} (h : parse header length = some (start, stop))
    (hlength : 0 < length) :
    ranges header = none ∨ ∃ spec first last, ranges header = some [spec] ∧
      spec.resolve length = some (first, last) ∧ start = first ∧ stop = last := by
  obtain ⟨front, back, hheader, hfront, hcases⟩ := exists_of_parse h
  have hchars : ∀ c ∈ front ++ '-' :: back, c ≠ ',' ∧ isBlank c = false := by
    have hside : ∀ l : List Char, l = [] ∨ (∃ n, parseInt64 l = some n) →
        ∀ c ∈ l, c ≠ ',' ∧ isBlank c = false := by
      rintro l (rfl | ⟨n, hn⟩) c hc
      · cases hc
      · exact (chars_of_parseInt64 hn).2 c hc
    intro c hc
    rcases mem_append.mp hc with hc | hc
    · refine hside front ?_ c hc
      rcases hcases with ⟨hnil, -⟩ | ⟨-, hfirst, -⟩
      · exact .inl hnil
      · exact .inr ⟨_, hfirst⟩
    · rcases mem_cons.mp hc with rfl | hc
      · exact ⟨by decide, by decide⟩
      · refine hside back ?_ c hc
        rcases hcases with ⟨-, n, hn, -⟩ | ⟨-, -, -, -, ⟨hnil, -⟩ | ⟨last, hlast, -⟩⟩
        · exact .inr ⟨n, hn⟩
        · exact .inl hnil
        · exact .inr ⟨last, hlast⟩
  rw [ranges_single hheader (by simp) hchars, RangeSpec.ofText, cut_append hfront]
  dsimp only
  have hint : ∀ {l : List Char} {k : Nat} {n : Int}, decimal l = some k → parseInt64 l = some n →
      n = k := by
    intro l k n hk hn
    rw [parseInt64_of_decimal hk] at hn
    split_ifs at hn
    exact (Option.some.inj hn).symm
  rcases hcases with ⟨rfl, n, hn, hpos, rfl, rfl⟩ | ⟨hne, hfirst, hstart, hlt, hback⟩
  · rw [if_pos rfl]
    cases hk : decimal back with
    | none => exact .inl rfl
    | some k =>
      obtain rfl := hint hk hn
      refine .inr ⟨.suffix k, length - k, length - 1, rfl, ?_, by omega, by omega⟩
      rw [RangeSpec.resolve, if_pos ⟨by omega, hlength⟩]
  · rw [if_neg hne]
    rcases hback with ⟨rfl, rfl⟩ | ⟨last, hlast, hle, rfl⟩
    · rw [if_pos rfl]
      cases hk : decimal front with
      | none => exact .inl rfl
      | some k =>
        obtain rfl := hint hk hfirst
        refine .inr ⟨.fromOn k, k, length - 1, rfl, ?_, rfl, by omega⟩
        rw [RangeSpec.resolve, if_pos (by omega)]
    · rw [if_neg (chars_of_parseInt64 hlast).1]
      cases hk : decimal front with
      | none => exact .inl rfl
      | some k =>
        cases hm : decimal back with
        | none => exact .inl rfl
        | some m =>
          obtain rfl := hint hk hfirst
          obtain rfl := hint hm hlast
          refine .inr ⟨.fromTo k m, k, min m (length - 1), ?_, ?_, rfl, by omega⟩
          · dsimp only
            rw [if_pos (by omega)]
            rfl
          · rw [RangeSpec.resolve, if_pos (by omega)]

end Parse

/-! ## What a read returns -/

section Read

variable {header : String} {bytes : Octets} {reply : String → Reply UInt8} {start stop : Int}

theorem window_eq {t : Feed} {skip n : Int} (hskip : 0 ≤ skip) (hn : 0 ≤ n)
    (hle : skip + n ≤ t.data.length) :
    window t skip n = .ok ⟨(t.data.drop skip.toNat).take n.toNat, .eof⟩ := by
  have hlimit : n ≤ ((t.drop skip.toNat).data.length : Int) := by
    rw [Feed.drop, length_drop]
    omega
  rw [window, if_neg (by omega), limitReader, if_pos hlimit]
  rfl

/-- What a read of the range returns, however it came about. -/
structure ReadsRange (bytes : Octets) (start stop : Int) (res : GetObjectResult) : Prop where
  body : res.body = ⟨slice bytes start.toNat stop.toNat, .eof⟩
  size : res.size = stop - start + 1
  contentRange : res.contentRange = contentRange start stop bytes.length

theorem applyRange_eq (hbounds : 0 ≤ start ∧ start ≤ stop ∧ stop < bytes.length)
    (hparse : parse header bytes.length = some (start, stop)) :
    ∃ res, applyRange ⟨⟨bytes, .eof⟩, bytes.length, "", 0⟩ header = .ok res ∧
      ReadsRange bytes start stop res := by
  have hwindow := window_eq (t := ⟨bytes, .eof⟩) hbounds.1 (n := stop - start + 1) (by omega)
    (by dsimp only; omega)
  unfold applyRange
  rw [hparse]
  dsimp only
  rw [hwindow]
  refine ⟨_, rfl, ?_, rfl, rfl⟩
  have hcount : (stop - start + 1).toNat = stop.toNat + 1 - start.toNat := by omega
  rw [slice, hcount]

theorem getObject_range (hconf : ∀ h, Conforms bytes h (reply h)) (hne : bytes ≠ [])
    (hparse : parse header bytes.length = some (start, stop))
    (haccepts : ranges header = none → reply header ≠ .notSatisfiable) :
    ∃ res, getObject reply header = .ok res ∧ ReadsRange bytes start stop res := by
  have hlength : 0 < bytes.length := length_pos_of_ne_nil hne
  have hbounds := bounds_of_parse hparse (by omega)
  have hheader : header ≠ "" := by
    rintro rfl
    cases hparse
  have hignored : reply header = .ok bytes "" →
      ∃ res, getObject reply header = .ok res ∧ ReadsRange bytes start stop res := by
    intro hreply
    rw [getObject, hreply]
    dsimp only
    rw [emulateRange, if_neg (by simp [hheader])]
    exact applyRange_eq hbounds hparse
  rcases hconf header with hreply | ⟨-, hreply⟩
  · exact hignored hreply
  · rcases parse_rfc hparse hlength with hnone | ⟨spec, first, last, hranges, hresolve, rfl, rfl⟩
    · rw [hnone] at hreply
      exact absurd hreply (haccepts hnone)
    · rw [hranges] at hreply
      dsimp only at hreply
      rw [hresolve] at hreply
      rw [getObject, hreply]
      dsimp only
      rw [emulateRange, if_pos (.inr (contentRange_ne_empty _ _ _))]
      have hcount : (slice bytes first last).length = last + 1 - first :=
        length_slice (by omega) (by omega)
      refine ⟨_, rfl, rfl, ?_, rfl⟩
      change ((slice bytes first last).length : Int) = last - first + 1
      omega

end Read

end S3Orchestrator.Backend
