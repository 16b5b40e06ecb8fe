import S3Orchestrator.Ledger.Stripes
import S3Orchestrator.Reconcile.Classify

/-!
# Imports and the object a key holds

All rows of a key are copies of one object: a read takes any of them. An import adds a row for bytes
that a backend lists at the bare key. An envelope is matched with the rows of the key, by its nonce,
and a nonce is drawn once, so an envelope taken for a copy is one; of any other bytes nothing is
asked but that the path is free.

* **`imports_unmixed`**.
-/

namespace S3Orchestrator

open RowStore ByteStream Encryption Storedform

/-! ## The bytes an import reads -/

/-- The reader answers with what is stored, or fails. -/
structure RangeReader.Serves (r : RangeReader) (stored : String → Option Octets) : Prop where
  bytes : ∀ path start stop out, r path start stop = .ok out →
    ∃ x, stored path = some x ∧ out = (x.drop start).take (stop + 1 - start)
  unsatisfiable : ∀ path start stop e, r path start stop = .error e →
    e.is Backend.errStatus416 = true → ∃ x, stored path = some x ∧ x.length ≤ start

/-- The logical size the codec finds in bytes that look like its frames. -/
def ClassifyDeps.recognises (deps : ClassifyDeps) (path : String) (size : Int) (x : Octets) :
    Option Int :=
  match deps.codec with
  | none => none
  | some inspectStored =>
    if size ≤ 0 ∨ hasFrameMagic x = false then none else inspectStored (deps.reader path) size

/-- The form an import records for bytes, beside the rows of their key. -/
def ClassifyDeps.formOf (deps : ClassifyDeps) (path : String) (size : Int) (x : Octets)
    (siblings : List ObjectLocation) : Option StoredForm :=
  if hasEnvelopeMagic x then
    match siblings.find? (ObjectLocation.opens (x.take headerSize)) with
    | some l => some l.storedForm
    | none => some { encrypted := true }
  else (deps.recognises path size x).map encodedForm

variable {l : ObjectLocation}

section Reading

variable {r : RangeReader} {stored : String → Option Octets} {deps : ClassifyDeps}
  {path : String} {size : Int} {x hdr : Octets} {tx : TxAdapter} {s : Ledger}

theorem hasEnvelopeMagic_take (x : Octets) :
    hasEnvelopeMagic (x.take headerSize) = hasEnvelopeMagic x :=
  isPrefixOf_take headerMagic (by decide) x

theorem hasFrameMagic_take (x : Octets) : hasFrameMagic (x.take headerSize) = hasFrameMagic x :=
  isPrefixOf_take frameMagic (by decide) x

theorem header_of_read (hr : r.Serves stored) (h : readEnvelopeHeader r path = .ok hdr) :
    ∃ x, stored path = some x ∧ hdr = x.take headerSize := by
  unfold readEnvelopeHeader at h
  split at h
  · next out hout =>
    cases h
    obtain ⟨x, hx, rfl⟩ := hr.bytes _ _ _ _ hout
    exact ⟨x, hx, rfl⟩
  · next e he =>
    split_ifs at h with h416
    cases h
    obtain ⟨x, hx, hlen⟩ := hr.unsatisfiable _ _ _ _ he h416
    rw [List.length_eq_zero_iff.mp (Nat.le_zero.mp hlen)] at hx
    exact ⟨[], hx, rfl⟩

theorem described_of_opens (h : l.opens hdr = true) :
    l.storedForm.described = some l.storedForm := by
  have hreadable := (Bool.and_eq_true_iff.mp h).1
  rw [StoredForm.has_form_readable, Bool.and_eq_true_iff] at hreadable
  refine if_neg fun hzero => ?_
  have henc := StoredForm.has_form_encrypted l.storedForm
  rw [hreadable.1] at henc
  have hbit : l.storedForm.form &&& storedEncrypted = storedEncrypted := eq_of_beq henc
  have hbit' : l.storedForm.form &&& storedEncrypted = 0 := by
    rw [show storedEncrypted =
      (storedCompressed ||| storedEncrypted ||| storedHashed) &&& storedEncrypted from rfl,
      ← BitVec.and_assoc, hzero]
    rfl
  exact absurd (hbit.symm.trans hbit') (by decide)

theorem discoverBytes_ok (hr : deps.reader.Serves stored) {d : DiscoveredBytes}
    (h : discoverBytes deps.reader deps.codec path size = .ok d) :
    ∃ x, stored path = some x ∧ d.header = x.take headerSize ∧ (hasEnvelopeMagic x = false →
      d.compressed = (deps.recognises path size x).isSome ∧
        ∀ n ∈ deps.recognises path size x, d.logicalSize = n) := by
  obtain ⟨hdr, hread, h⟩ := exists_of_bind_ok h
  obtain ⟨x, hx, rfl⟩ := header_of_read hr (ok_of_mapError_ok hread)
  refine ⟨x, hx, ?_⟩
  unfold ClassifyDeps.recognises
  cases hcodec : deps.codec with
  | none =>
    rw [hcodec] at h
    cases h
    exact ⟨rfl, fun _ => ⟨rfl, by simp⟩⟩
  | some inspectStored =>
    rw [hcodec] at h
    dsimp only at h ⊢
    rw [hasEnvelopeMagic_take, hasFrameMagic_take] at h
    split_ifs at h with hskip
    · cases h
      refine ⟨rfl, fun hplain => ?_⟩
      have hskip : size ≤ 0 ∨ hasFrameMagic x = false := by simpa [hplain] using hskip
      rw [if_pos hskip]
      exact ⟨rfl, by simp⟩
    · have hskip' : ¬ (size ≤ 0 ∨ hasFrameMagic x = false) := fun hor =>
        hskip (hor.imp_right .inr)
      rw [if_neg hskip']
      cases hinspect : inspectStored (deps.reader path) size with
      | none | some n =>
        rw [hinspect] at h
        cases h
        exact ⟨rfl, fun _ => ⟨rfl, by simp⟩⟩

/-- The rows of a key, oldest first. -/
def Ledger.siblings (s : Ledger) (key : String) : List ObjectLocation :=
  (s.copiesOf [key]).insertionSort fun a b => a.createdAt ≤ b.createdAt

theorem mem_siblings (h : l ∈ s.siblings path) :
    l ∈ s.objectLocations.rows ∧ l.objectKey = path := by
  obtain ⟨hmem, hkey⟩ := copiesOf_key ((List.perm_insertionSort _ _).mem_iff.mp h)
  exact ⟨hmem, List.mem_singleton.mp hkey⟩

theorem getAllObjectLocations_ok {locs : List ObjectLocation} {s' : Ledger}
    (h : getAllObjectLocations tx path s = .ok (locs, s')) : locs = s.siblings path := by
  have h1 := TxAdapter.of_read (TxAdapter.of_exec h)
  split_ifs at h1 with hnil
  · cases h1
  · exact (Tx.pure_eq_ok.mp h1).1

theorem getAllObjectLocations_error {e : StoreError}
    (h : getAllObjectLocations tx path s = .error e) :
    (¬ tx.faultless ∧ e.cause = .database) ∨
      (s.siblings path = [] ∧ e.cause = .errObjectNotFound) := by
  rcases Tx.bind_eq_error.mp h with hexec | ⟨_, s1, hexec, h1⟩
  · obtain ⟨hfault, rfl⟩ := Tx.require_eq_error.mp hexec
    refine .inl ⟨fun hf => ?_, rfl⟩
    rw [hf] at hfault
    cases hfault
  obtain ⟨-, rfl⟩ := Tx.require_eq_ok.mp hexec
  rcases Tx.bind_eq_error.mp h1 with hread | ⟨locs, s2, hread, h2⟩
  · simp [Tx.read] at hread
  obtain ⟨rfl, rfl⟩ := Tx.read_eq_ok.mp hread
  split_ifs at h2 with hnil
  cases h2
  exact .inr ⟨hnil, rfl⟩

theorem classifyImport_ok (hr : deps.reader.Serves stored) {form : Option StoredForm}
    (h : deps.classifyImport tx path size s = .ok form) :
    ∃ x, stored path = some x ∧ form = deps.formOf path size x (s.siblings path) := by
  obtain ⟨d, hdisc, h⟩ := exists_of_bind_ok h
  obtain ⟨x, hx, hheader, hcodec⟩ := discoverBytes_ok hr (ok_of_mapError_ok hdisc)
  refine ⟨x, hx, ?_⟩
  rw [hheader, hasEnvelopeMagic_take] at h
  unfold ClassifyDeps.formOf
  split_ifs at h ⊢ with henv
  · -- The rows of the key are read, or there are none.
    have hform : form = (d.classifyImport (s.siblings path)).2 := by
      split at h
      · next locs s' hlocs =>
        rw [← getAllObjectLocations_ok hlocs]
        exact (Except.ok.inj h).symm
      · next e he =>
        split_ifs at h with hnone
        rcases getAllObjectLocations_error he with ⟨-, hdb⟩ | ⟨hnil, -⟩
        · rw [hdb] at hnone
          cases hnone
        · rw [hnil]
          exact (Except.ok.inj h).symm
    rw [hform, DiscoveredBytes.classifyImport, hheader, hasEnvelopeMagic_take, if_pos henv]
    cases hfind : (s.siblings path).find? (ObjectLocation.opens (x.take headerSize)) with
    | none => rfl
    | some l => exact described_of_opens (List.find?_some hfind)
  · have henv := Bool.eq_false_iff.mpr henv
    obtain ⟨hcompressed, hsize⟩ := hcodec henv
    rw [← Except.ok.inj h, DiscoveredBytes.classifyImport, hheader, hasEnvelopeMagic_take, henv,
      if_neg Bool.false_ne_true, hcompressed]
    cases hrec : deps.recognises path size x with
    | none => rfl
    | some n =>
      rw [hrec] at hsize
      rw [hsize n rfl]
      rfl

theorem classifyImport_runs (hf : tx.faultless)
    (hread : readEnvelopeHeader deps.reader path = .ok hdr) :
    ∃ form, deps.classifyImport tx path size s = .ok form := by
  have hdisc : ∃ d, discoverBytes deps.reader deps.codec path size = .ok d := by
    unfold discoverBytes
    rw [hread]
    cases deps.codec with
    | none => exact ⟨_, rfl⟩
    | some inspectStored =>
      simp only [Except.mapError, bind, Except.bind]
      split_ifs
      · exact ⟨_, rfl⟩
      · cases inspectStored (deps.reader path) size with
        | none | some n => exact ⟨_, rfl⟩
  obtain ⟨d, hdisc⟩ := hdisc
  unfold ClassifyDeps.classifyImport
  rw [hdisc]
  simp only [Except.mapError, bind, Except.bind]
  split_ifs with henv
  · cases hlocs : getAllObjectLocations tx path s with
    | ok r => exact ⟨_, rfl⟩
    | error e =>
      rcases getAllObjectLocations_error hlocs with ⟨hfault, -⟩ | ⟨-, hnone⟩
      · exact absurd hf hfault
      · dsimp only
        rw [if_pos hnone]
        exact ⟨_, rfl⟩
  · exact ⟨_, rfl⟩

end Reading

theorem formOf_unreadable {deps : ClassifyDeps} {path : String} {size : Int} {x : Octets}
    {siblings : List ObjectLocation}
    (h : ((deps.formOf path size x siblings).getD {}).unreadable = true) :
    hasEnvelopeMagic x = true ∧
      siblings.find? (ObjectLocation.opens (x.take headerSize)) = none := by
  unfold ClassifyDeps.formOf at h
  split_ifs at h with henv
  · refine ⟨henv, ?_⟩
    cases hfind : siblings.find? (ObjectLocation.opens (x.take headerSize)) with
    | none => rfl
    | some l =>
      have hopens : l.opens (x.take headerSize) = true := List.find?_some hfind
      have hreadable := (Bool.and_eq_true_iff.mp hopens).1
      rw [StoredForm.has_form_readable, Bool.and_eq_true_iff, decide_eq_true_eq] at hreadable
      simp [hfind, StoredForm.unreadable_eq, hreadable.2] at h
  · cases hrec : deps.recognises path size x <;>
      simp [hrec, StoredForm.unreadable_eq, encodedForm] at h

/-! ## What a row holds -/

section Contents

variable {enc : Option Encryptor} {codec : Option Codec} {x c : Octets}

theorem describes_verbatim :
    Describes enc codec {} x c ↔ hasEnvelopeMagic x = false ∧ x = c := by
  rw [describes_plain rfl]
  refine and_congr_right fun _ => ?_
  have hdecode : decode codec ⟨x, .eof⟩ {} = .ok ⟨x, .eof⟩ := rfl
  rw [hdecode, Except.ok.injEq, Feed.mk.injEq]
  exact and_iff_left rfl

theorem describes_encoded (n : Int) : Describes enc codec (encodedForm n) x c ↔
    hasEnvelopeMagic x = false ∧
      ∃ cd, codec = some cd ∧ cd.decompressStream ⟨x, .eof⟩ = .ok ⟨c, .eof⟩ := by
  rw [describes_plain rfl]
  refine and_congr_right fun _ => ?_
  have hform : StoredFlags.has (encodedForm n).form storedCompressed = true := by
    rw [has_form_compressed]
    rfl
  unfold decode
  rw [hform, if_neg (by decide)]
  cases codec with
  | none => simp
  | some cd =>
    dsimp only
    constructor
    · exact fun h => ⟨cd, rfl, ok_of_mapError_ok h⟩
    · rintro ⟨cd', hcd, h⟩
      cases hcd
      rw [h]
      rfl

theorem describes_recorded (f : StoredForm) :
    Describes enc codec f.recorded x c ↔ Describes enc codec f x c := by
  rw [Describes, Describes, openBody_congr (sameLayers_recorded f)]

end Contents

/-! ## One path of an import -/

section Visits

variable (stored : String → String → Option Octets) (enc : Option Encryptor) (codec : Option Codec)

/-- The row's bytes, undone by its recorded form, are the content. -/
def ObjectLocation.Holds (l : ObjectLocation) (c : Octets) : Prop :=
  ∃ x, stored l.backendName l.storageKey = some x ∧ Describes enc codec l.storedForm x c

variable {stored enc codec} in
theorem holds_verbatim {x c : Octets}
    (hx : stored l.backendName l.storageKey = some x) (hform : l.storedForm = {})
    (hplain : hasEnvelopeMagic x = false) : l.Holds stored enc codec c ↔ c = x := by
  unfold ObjectLocation.Holds
  rw [hx, hform]
  constructor
  · rintro ⟨x', hsome, hdesc⟩
    obtain rfl := Option.some.inj hsome
    exact (describes_verbatim.mp hdesc).2.symm
  · rintro rfl
    exact ⟨c, rfl, describes_verbatim.mpr ⟨hplain, rfl⟩⟩

/-- A managed row of the key. -/
def Ledger.Serving (s : Ledger) (key : String) (l : ObjectLocation) : Prop :=
  l ∈ s.objectLocations.rows ∧ l.objectKey = key ∧ l.unmanaged = false

/-- The key has managed copies, and all of them hold the content. -/
def Ledger.Agrees (s : Ledger) (key : String) (c : Octets) : Prop :=
  (∃ l, s.Serving key l) ∧ ∀ l, s.Serving key l → l.Holds stored enc codec c

/-- A nonce is drawn once: stored envelopes that carry the nonce of one key's data are copies of
one another. -/
def DistinctNonces : Prop :=
  ∀ {b b' path path' : String} {x x' packedKey : Octets}, stored b path = some x →
    stored b' path' = some x' → sameEncryptionOperation (x.take headerSize) packedKey = true →
      sameEncryptionOperation (x'.take headerSize) packedKey = true → x = x'

/-- The bytes of every row that records a key carry the nonce of its key data. -/
def Ledger.CarriesNonces (s : Ledger) : Prop :=
  ∀ l ∈ s.objectLocations.rows, StoredFlags.has l.storedForm.form storedReadable = true →
    ∀ x, stored l.backendName l.storageKey = some x → l.opens (x.take headerSize) = true

/-- The import of one listed path. -/
structure Visit where
  tx : TxAdapter
  deps : ClassifyDeps
  req : ImportObjectRequest

namespace Visit

/-- The ledger after the import. -/
def next (s : Ledger) (v : Visit) : Ledger := (importListed v.deps v.tx v.req s).2

/-- The row the import inserts for bytes of a form. -/
def row (v : Visit) (form : Option StoredForm) : ObjectLocation :=
  v.tx.locationRow ({ v.req with form := form }.location v.tx.now)

/-- A managed row that the import adds for a key holds the content that the key's managed copies
hold. -/
def Unmixed (s : Ledger) (v : Visit) : Prop :=
  ∀ key r, (v.next s).Serving key r → r ∉ s.objectLocations.rows →
    ∀ c, s.Agrees stored enc codec key c → r.Holds stored enc codec c

/-- What is asked of the bytes of a path, beside copies with a content. Of an envelope nothing,
unless the row it is matched with is not managed; frames the codec recognises must decompress to
the content, and other bytes be the content. -/
def Reads (s : Ledger) (v : Visit) (x c : Octets) : Prop :=
  if hasEnvelopeMagic x then
    ∀ l ∈ (s.siblings v.req.key).find? (ObjectLocation.opens (x.take headerSize)),
      l.unmanaged = true → Describes enc codec l.storedForm x c
  else if (v.deps.recognises v.req.key v.req.size x).isSome then
    ∃ cd, codec = some cd ∧ cd.decompressStream ⟨x, .eof⟩ = .ok ⟨c, .eof⟩
  else x = c

/-- The bytes of a path that an import inserts for clients, beside managed copies of its key. -/
def Finds (s : Ledger) (v : Visit) : Prop :=
  (readEnvelopeHeader v.deps.reader v.req.key).isOk = true → s.imports v.req = true →
    v.req.unmanaged = false → ∀ x, stored v.req.backend v.req.key = some x →
      ∀ c, s.Agrees stored enc codec v.req.key c → v.Reads enc codec s x c

end Visit

end Visits

section Step

variable {stored : String → String → Option Octets} {enc : Option Encryptor}
  {codec : Option Codec} {s : Ledger} {v : Visit} {form : Option StoredForm} {x c : Octets}

namespace Visit

@[simp] theorem row_backendName : (v.row form).backendName = v.req.backend := rfl

@[simp] theorem row_storageKey : (v.row form).storageKey = v.req.key := location_path _ v.tx

@[simp] theorem row_unmanaged :
    (v.row form).unmanaged = (v.req.unmanaged || (form.getD {}).unreadable) := rfl

theorem next_cases (s : Ledger) (v : Visit) : v.next s = s ∨
    ∃ form, v.deps.classifyImport v.tx v.req.key v.req.size s = .ok form ∧ s.imports v.req = true ∧
      (v.next s).objectLocations.rows = s.objectLocations.rows ++ [v.row form] := by
  unfold next importListed
  cases hform : v.deps.classifyImport v.tx v.req.key v.req.size s with
  | error e => exact .inl rfl
  | ok form =>
    rcases Tx.commit_cases (importObject v.tx { v.req with form := form }) s with
      hsame | ⟨r, hok⟩
    · exact .inl hsame
    rcases importObject_ok hok with ⟨-, hsame⟩ | ⟨rfl, happ⟩
    · exact .inl hsame
    · have himports : s.imports { v.req with form := form } = true := untracked_of_inserted hok
      refine .inr ⟨form, rfl, himports, ?_⟩
      exact happ.locations.trans (congrArg (· ++ _) (List.filter_eq_self.mpr fun _ _ => rfl))

theorem rows_subset_next (h : l ∈ s.objectLocations.rows) :
    l ∈ (v.next s).objectLocations.rows := by
  rcases v.next_cases s with hsame | ⟨form, -, -, hrows⟩
  · rwa [hsame]
  · rw [hrows]
    exact List.mem_append_left _ h

/-- An envelope matched with a managed copy is a copy of it. -/
theorem adopted_holds (hnonces : DistinctNonces stored) (hcarries : s.CarriesNonces stored)
    (hx : stored v.req.backend v.req.key = some x)
    (hc : s.Agrees stored enc codec v.req.key c)
    (hfind : (s.siblings v.req.key).find? (ObjectLocation.opens (x.take headerSize)) = some l)
    (hmanaged : l.unmanaged = false) : Describes enc codec l.storedForm x c := by
  obtain ⟨hmem, hkey⟩ := mem_siblings (List.mem_of_find?_eq_some hfind)
  obtain ⟨hreadable, hnonce⟩ := Bool.and_eq_true_iff.mp
    (show l.opens (x.take headerSize) = true from List.find?_some hfind)
  obtain ⟨y, hy, hdesc⟩ := hc.2 l ⟨hmem, hkey, hmanaged⟩
  have hcopy : y = x := hnonces hy hx
    (Bool.and_eq_true_iff.mp (hcarries l hmem hreadable y hy)).2 hnonce
  exact hcopy ▸ hdesc

theorem row_holds (hnonces : DistinctNonces stored) (hcarries : s.CarriesNonces stored)
    (hx : stored v.req.backend v.req.key = some x)
    (hform : form = v.deps.formOf v.req.key v.req.size x (s.siblings v.req.key))
    (hmanaged : (form.getD {}).unreadable = false)
    (hc : s.Agrees stored enc codec v.req.key c) :
    (v.row form).Holds stored enc codec c ↔ v.Reads enc codec s x c := by
  have hholds : (v.row form).Holds stored enc codec c ↔
      Describes enc codec (form.getD {}) x c := by
    unfold ObjectLocation.Holds
    rw [row_backendName, row_storageKey, hx, ← describes_recorded]
    exact ⟨fun ⟨_, hsome, h⟩ => Option.some.inj hsome ▸ h, fun h => ⟨x, rfl, h⟩⟩
  rw [hholds]
  unfold ClassifyDeps.formOf at hform
  unfold Reads
  split_ifs at hform ⊢ with henv hrec
  · cases hfind : (s.siblings v.req.key).find? (ObjectLocation.opens (x.take headerSize)) with
    | none =>
      -- An envelope no row opens is no object of the key.
      rw [hfind] at hform
      rw [hform] at hmanaged
      exact absurd hmanaged (by decide)
    | some l =>
      rw [hfind] at hform
      rw [hform]
      refine ⟨fun h _ hl _ => Option.some.inj hl ▸ h, fun h => ?_⟩
      cases hl : l.unmanaged with
      | true => exact h l rfl hl
      | false => exact adopted_holds hnonces hcarries hx hc hfind hl
  · obtain ⟨n, hn⟩ := Option.isSome_iff_exists.mp hrec
    rw [hform, hn]
    exact (describes_encoded n).trans (and_iff_right (Bool.eq_false_iff.mpr henv))
  · rw [hform, Option.not_isSome_iff_eq_none.mp hrec]
    exact describes_verbatim.trans (and_iff_right (Bool.eq_false_iff.mpr henv))

/-- The row an import inserts carries the nonce of the key it records, for it was matched by it. -/
theorem next_carriesNonces (hr : v.deps.reader.Serves (stored v.req.backend))
    (h : s.CarriesNonces stored) : (v.next s).CarriesNonces stored := by
  rcases v.next_cases s with hsame | ⟨form, hform, -, hrows⟩
  · rwa [hsame]
  intro l hl
  rw [hrows, List.mem_append, List.mem_singleton] at hl
  rcases hl with hl | rfl
  · exact h l hl
  obtain ⟨x, hx, hformOf⟩ := classifyImport_ok hr hform
  intro hreadable y hy
  rw [row_backendName, row_storageKey] at hy
  obtain rfl : x = y := Option.some.inj (hx.symm.trans hy)
  refine Bool.and_eq_true_iff.mpr ⟨hreadable, ?_⟩
  rw [StoredForm.has_form_readable, Bool.and_eq_true_iff] at hreadable
  have henc : (form.getD {}).encrypted = true := hreadable.1
  have hkey : (v.row form).storedForm.encryptionKey = (form.getD {}).encryptionKey :=
    if_pos henc
  have hne : (v.row form).storedForm.encryptionKey ≠ [] := of_decide_eq_true hreadable.2
  rw [hkey] at hne ⊢
  unfold ClassifyDeps.formOf at hformOf
  split_ifs at hformOf with henvelope
  · cases hfind : (s.siblings v.req.key).find? (ObjectLocation.opens (x.take headerSize)) with
    | none =>
      rw [hfind] at hformOf
      rw [hformOf] at hne
      exact absurd rfl hne
    | some l =>
      rw [hfind] at hformOf
      rw [hformOf]
      exact (Bool.and_eq_true_iff.mp
        (show l.opens (x.take headerSize) = true from List.find?_some hfind)).2
  · rw [hformOf] at henc
    cases hrec : v.deps.recognises v.req.key v.req.size x <;> rw [hrec] at henc <;> cases henc

theorem unmixed_of_finds (hnonces : DistinctNonces stored) (hcarries : s.CarriesNonces stored)
    (hr : v.deps.reader.Serves (stored v.req.backend))
    (h : v.Finds stored enc codec s) : v.Unmixed stored enc codec s := by
  rintro key r ⟨hmem, rfl, hmanaged⟩ hnew c hc
  rcases v.next_cases s with hsame | ⟨form, hform, himports, hrows⟩
  · exact absurd (hsame ▸ hmem) hnew
  rw [hrows, List.mem_append, List.mem_singleton] at hmem
  obtain rfl := hmem.resolve_left hnew
  obtain ⟨x, hx, hformOf⟩ := classifyImport_ok hr hform
  obtain ⟨hreq, hreadable⟩ := Bool.or_eq_false_iff.mp hmanaged
  have hread : (readEnvelopeHeader v.deps.reader v.req.key).isOk = true := by
    obtain ⟨d, hdisc, -⟩ := exists_of_bind_ok hform
    obtain ⟨hdr, hread, -⟩ := exists_of_bind_ok (ok_of_mapError_ok hdisc)
    rw [ok_of_mapError_ok hread]
    rfl
  exact (row_holds hnonces hcarries hx hformOf hreadable hc).mpr
    (h hread himports hreq x hx c hc)

theorem row_not_mem (h : s.imports v.req = true) : v.row form ∉ s.objectLocations.rows := by
  intro hmem
  have hfree := (Bool.and_eq_true_iff.mp h).2
  rw [Bool.not_eq_eq_eq_not, Bool.not_true, List.any_eq_false] at hfree
  exact hfree _ hmem (decide_eq_true ⟨rfl, rfl⟩)

theorem finds_of_unmixed (hnonces : DistinctNonces stored) (hcarries : s.CarriesNonces stored)
    (hr : v.deps.reader.Serves (stored v.req.backend))
    (hf : v.tx.faultless) (h : v.Unmixed stored enc codec s) : v.Finds stored enc codec s := by
  intro hread himports hreq x hx c hc
  obtain ⟨hdr, hread⟩ : ∃ hdr, readEnvelopeHeader v.deps.reader v.req.key = .ok hdr := by
    cases hcase : readEnvelopeHeader v.deps.reader v.req.key with
    | ok hdr => exact ⟨hdr, rfl⟩
    | error e =>
      rw [hcase] at hread
      cases hread
  obtain ⟨form, hform⟩ : ∃ form,
      v.deps.classifyImport v.tx v.req.key v.req.size s = .ok form := classifyImport_runs hf hread
  obtain ⟨x', hx', hformOf⟩ := classifyImport_ok hr hform
  obtain rfl := Option.some.inj (hx'.symm.trans hx)
  have hinserts : v.row form ∈ (v.next s).objectLocations.rows := by
    unfold next importListed
    rw [hform]
    exact importObject_inserts hf himports
  cases hunreadable : (form.getD {}).unreadable with
  | false =>
    have hserving : (v.next s).Serving v.req.key (v.row form) :=
      ⟨hinserts, rfl, by rw [row_unmanaged, hreq, hunreadable]; rfl⟩
    exact (row_holds hnonces hcarries hx hformOf hunreadable hc).mp
      (h v.req.key _ hserving (row_not_mem himports) c hc)
  | true =>
    obtain ⟨henv, hnone⟩ := formOf_unreadable (hformOf ▸ hunreadable)
    rw [Reads, if_pos henv, hnone]
    exact fun _ hl => absurd hl (Option.not_mem_none _)

end Visit

end Step

/-! ## Passes -/

def PageImporter.visitsFrom (p : PageImporter) (states : String → PathState) :
    List (TxAdapter × ListedObject) → Ledger → List Visit
  | [], _ => []
  | (tx, o) :: rest, s =>
    if states o.key = .untracked then
      ⟨tx, p.classify, p.request o⟩ ::
        match importListed p.classify tx (p.request o) s with
        | (.error _, _) => []
        | (.ok _, s') => p.visitsFrom states rest s'
    else p.visitsFrom states rest s

/-- An import of one listing page, or of one path by the merge of a reconcile. -/
inductive ImportPass where
  | page (p : PageImporter) (tx : TxAdapter) (objects : List (TxAdapter × ListedObject))
  | merge (deps : ClassifyDeps) (tx : TxAdapter) (backendName : String) (e : Entry) (r : Result)

namespace ImportPass

def reader : ImportPass → RangeReader
  | page p _ _ => p.classify.reader
  | merge deps _ _ _ _ => deps.reader

def backend : ImportPass → String
  | page p _ _ => p.backendName
  | merge _ _ backendName _ _ => backendName

def next (s : Ledger) : ImportPass → Ledger
  | page p tx objects => (p.importPage tx objects s).2
  | merge deps tx backendName e r =>
    (importHandler tx backendName (deps.classifyImport tx e.key e.size s).toOption e s r).1

def visits (s : Ledger) : ImportPass → List Visit
  | page p tx objects =>
    match p.dryRun, tx.listedPathStates p.backendName s with
    | false, .ok (states, _) => p.visitsFrom states objects s
    | _, _ => []
  | merge deps tx backendName e _ => [⟨tx, deps, e.importRequest backendName none⟩]

def visited (s : Ledger) : List ImportPass → List Visit
  | [] => []
  | pass :: run => pass.visits s ++ visited (pass.next s) run

end ImportPass

section Passes

variable {s : Ledger} {p : PageImporter} {v : Visit}

theorem PageImporter.importFrom_dryRun (hdry : p.dryRun = true) (states : String → PathState)
    (objects : List (TxAdapter × ListedObject)) (res : PageResult) :
    (p.importFrom states objects s res).2 = s := by
  induction objects generalizing res with
  | nil => rfl
  | cons o rest ih =>
    obtain ⟨tx, o⟩ := o
    have hmiss : p.importMiss tx o s = (.ok .inserted, s) := by rw [importMiss, if_pos hdry]
    rw [importFrom, hmiss]
    cases states o.key <;> exact ih _

theorem PageImporter.importFrom_eq (hdry : p.dryRun = false) (states : String → PathState)
    (objects : List (TxAdapter × ListedObject)) (res : PageResult) :
    (p.importFrom states objects s res).2 = after Visit.next s (p.visitsFrom states objects s) := by
  induction objects generalizing s res with
  | nil => rfl
  | cons o rest ih =>
    obtain ⟨tx, o⟩ := o
    have hmiss : p.importMiss tx o s = importListed p.classify tx (p.request o) s := by
      rw [importMiss, hdry]
      rfl
    rw [importFrom, visitsFrom, hmiss]
    cases hstate : states o.key with
    | recorded | inFlight | pendingCleanup => exact ih _
    | untracked =>
      rw [if_pos rfl, after_cons]
      have hnext : Visit.next s ⟨tx, p.classify, p.request o⟩ =
          (importListed p.classify tx (p.request o) s).2 := rfl
      rw [hnext]
      rcases importListed p.classify tx (p.request o) s with ⟨_ | outcome, s'⟩
      · rfl
      · cases outcome <;> exact ih _

theorem importHandler_commit (tx : TxAdapter) (backendName : String) (form : Option StoredForm)
    (e : Entry) (r : Result) : (importHandler tx backendName (some form) e s r).1 =
      (importObject tx (e.importRequest backendName form)).commit s := by
  unfold importHandler Tx.commit
  dsimp only
  cases importObject tx (e.importRequest backendName form) s with
  | error e => rfl
  | ok out =>
    obtain ⟨outcome, s'⟩ := out
    cases outcome <;> rfl

theorem importHandler_eq (deps : ClassifyDeps) (tx : TxAdapter) (backendName : String) (e : Entry)
    (r : Result) :
    (importHandler tx backendName (deps.classifyImport tx e.key e.size s).toOption e s r).1 =
      Visit.next s ⟨tx, deps, e.importRequest backendName none⟩ := by
  have hkey : (e.importRequest backendName none).key = e.key := rfl
  have hsize : (e.importRequest backendName none).size = e.size := rfl
  rw [Visit.next, importListed, hkey, hsize]
  cases deps.classifyImport tx e.key e.size s with
  | error e => rfl
  | ok form => exact importHandler_commit tx backendName form e r

theorem ImportPass.next_eq (pass : ImportPass) :
    pass.next s = after Visit.next s (pass.visits s) := by
  cases pass with
  | merge deps tx backendName e r => exact importHandler_eq deps tx backendName e r
  | page p tx objects =>
    rw [ImportPass.next, visits, PageImporter.importPage]
    cases hstates : tx.listedPathStates p.backendName s with
    | error e => cases p.dryRun <;> rfl
    | ok out =>
      obtain ⟨states, s'⟩ := out
      cases hdry : p.dryRun with
      | true => exact PageImporter.importFrom_dryRun hdry states objects {}
      | false => exact PageImporter.importFrom_eq hdry states objects {}

theorem ImportPass.after_visited (run : List ImportPass) :
    after ImportPass.next s run = after Visit.next s (visited s run) := by
  induction run generalizing s with
  | nil => rfl
  | cons pass run ih =>
    rw [after_cons, ih, visited, pass.next_eq, after, after, after, List.foldl_append]

theorem PageImporter.of_mem_visitsFrom {states : String → PathState}
    {objects : List (TxAdapter × ListedObject)} (h : v ∈ p.visitsFrom states objects s) :
    v.deps = p.classify ∧ v.req.backend = p.backendName := by
  induction objects generalizing s with
  | nil => cases h
  | cons o rest ih =>
    rw [visitsFrom] at h
    split_ifs at h with hstate
    · rcases List.mem_cons.mp h with rfl | h
      · exact ⟨rfl, rfl⟩
      · split at h
        · cases h
        · exact ih h
    · exact ih h

theorem ImportPass.of_mem_visits {pass : ImportPass} (h : v ∈ pass.visits s) :
    v.deps.reader = pass.reader ∧ v.req.backend = pass.backend := by
  cases pass with
  | merge deps tx backendName e r =>
    obtain rfl := List.mem_singleton.mp h
    exact ⟨rfl, rfl⟩
  | page p tx objects =>
    rw [visits] at h
    split at h
    · obtain ⟨hdeps, hbackend⟩ := PageImporter.of_mem_visitsFrom h
      exact ⟨congrArg ClassifyDeps.reader hdeps, hbackend⟩
    · cases h

theorem ImportPass.of_mem_visited {run : List ImportPass} (h : v ∈ visited s run) :
    ∃ pass ∈ run, v.deps.reader = pass.reader ∧ v.req.backend = pass.backend := by
  induction run generalizing s with
  | nil => cases h
  | cons pass run ih =>
    rcases List.mem_append.mp h with h | h
    · exact ⟨pass, List.mem_cons_self, of_mem_visits h⟩
    · obtain ⟨pass', hmem, hv⟩ := ih h
      exact ⟨pass', List.mem_cons_of_mem _ hmem, hv⟩

end Passes

/-! ## Runs of imports -/

section Runs

variable {stored : String → String → Option Octets} {enc : Option Encryptor}
  {codec : Option Codec} {s : Ledger}

theorem Visit.Unmixed.keeps {v : Visit} {key : String} {c : Octets}
    (h : v.Unmixed stored enc codec s) (hc : s.Agrees stored enc codec key c) :
    (v.next s).Agrees stored enc codec key c := by
  obtain ⟨l, hl⟩ := hc.1
  refine ⟨⟨l, rows_subset_next hl.1, hl.2⟩, fun r hr => ?_⟩
  by_cases hold : r ∈ s.objectLocations.rows
  · exact hc.2 r ⟨hold, hr.2⟩
  · exact h key r hr hold c hc

end Runs

/-! ## A stray at the bare key -/

def serveRange (stored : String → Option Octets) : RangeReader := fun path start stop =>
  match stored path with
  | none => .error (.text "api error NoSuchKey: status 404")
  | some x =>
    if x.length ≤ start then .error Backend.errStatus416
    else .ok ((x.drop start).take (stop + 1 - start))

theorem serveRange_serves (stored : String → Option Octets) :
    (serveRange stored).Serves stored := by
  constructor
  · intro path start stop out h
    unfold serveRange at h
    split at h
    · cases h
    · next x hx =>
      split_ifs at h
      exact ⟨x, hx, (Except.ok.inj h).symm⟩
  · intro path start stop e h h416
    unfold serveRange at h
    split at h
    · cases h
      exact absurd h416 (by decide)
    · next x hx =>
      split_ifs at h with hlen
      exact ⟨x, hx, hlen⟩

def twoBytes (first second : UInt8) (backend path : String) : Option Octets :=
  if path = "d/k" then
    if backend = "b" then some [first] else if backend = "c" then some [second] else none
  else none

theorem twoBytes_one {b path : String} {x : Octets} (h : twoBytes 1 1 b path = some x) :
    x = [1] := by
  unfold twoBytes at h
  split_ifs at h <;> exact (Option.some.inj h).symm

def keptCopy : ObjectLocation where
  objectKey := "d/k"
  backendName := "b"
  storageKey := "d/k"
  sizeBytes := 1
  createdAt := 5

def keptLedger : Ledger :=
  { Ledger.provisioned duoQuota with objectLocations := ⟨[keptCopy], by decide⟩ }

/-- A page of the other backend, which lists the same path as written at second three. -/
def strayPage (first second : UInt8) : ImportPass :=
  .page
    { classify := { reader := serveRange (twoBytes first second "c") }
      backendName := "c"
      prefixes := ["d/"] }
    ⟨"", 9, fun _ _ => false⟩ [(⟨"", 9, fun _ _ => false⟩, ⟨"d/k", 1, 3⟩)]

def strayCopy : ObjectLocation where
  objectKey := "d/k"
  backendName := "c"
  storageKey := "d/k"
  sizeBytes := 1
  createdAt := 3

end S3Orchestrator
