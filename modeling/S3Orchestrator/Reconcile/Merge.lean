import S3Orchestrator.Ledger.Settle
import S3Orchestrator.Lib.Merge
import Mathlib.Data.String.Basic

/-!
# The reconcile pass of one backend

A pass walks the backend's listing and the ledger's rows for that backend in storage path order, and
merges the two: a path only the backend has is imported, a row only the ledger has is deleted. Both
sides arrive in pages, the listing from a goroutine that runs ahead of the merge and the rows when
the merge needs them.

* `Entry`, `S3KeyStream`, `DBCursorStream`, `Cursor`: the merge's inputs.
-/

namespace S3Orchestrator

open RowStore List

/-! ## The backend -/

structure ListedObject where
  key : String
  sizeBytes : Int := 0
  lastModified : Time := 0

/-- The objects on a backend, in the order it lists them. -/
structure Bucket where
  objects : List ListedObject
  ascending : objects.Pairwise fun a b => a.key < b.key

def insertObject (o : ListedObject) : List ListedObject → List ListedObject
  | [] => [o]
  | a :: l =>
    if o.key < a.key then o :: a :: l
    else if a.key < o.key then a :: insertObject o l
    else o :: l

theorem mem_insertObject {o a : ListedObject} {l : List ListedObject}
    (h : a ∈ insertObject o l) : a = o ∨ a ∈ l := by
  induction l with
  | nil => exact .inl (mem_singleton.mp h)
  | cons b l ih =>
    rw [insertObject] at h
    split_ifs at h
    · exact mem_cons.mp h
    · rcases mem_cons.mp h with rfl | h
      · exact .inr mem_cons_self
      · exact (ih h).imp_right (mem_cons_of_mem b)
    · exact (mem_cons.mp h).imp_right (mem_cons_of_mem b)

theorem insertObject_pairwise {o : ListedObject} {l : List ListedObject}
    (h : l.Pairwise fun a b => a.key < b.key) :
    (insertObject o l).Pairwise fun a b => a.key < b.key := by
  induction l with
  | nil => exact pairwise_singleton _ o
  | cons b l ih =>
    obtain ⟨hb, hl⟩ := pairwise_cons.mp h
    rw [insertObject]
    split_ifs with hlt hgt
    · refine pairwise_cons.mpr ⟨fun a ha => ?_, h⟩
      rcases mem_cons.mp ha with rfl | ha
      · exact hlt
      · exact hlt.trans (hb a ha)
    · refine pairwise_cons.mpr ⟨fun a ha => ?_, ih hl⟩
      rcases mem_insertObject ha with rfl | ha
      · exact hgt
      · exact hb a ha
    · have heq : o.key = b.key := le_antisymm (not_lt.mp hgt) (not_lt.mp hlt)
      exact pairwise_cons.mpr ⟨fun a ha => heq ▸ hb a ha, hl⟩

namespace Bucket

def put (d : Bucket) (o : ListedObject) : Bucket :=
  ⟨insertObject o d.objects, insertObject_pairwise d.ascending⟩

def remove (d : Bucket) (path : String) : Bucket :=
  ⟨d.objects.filter fun o => decide (o.key ≠ path), d.ascending.filter _⟩

def holds (d : Bucket) (path : String) : Prop := ∃ o ∈ d.objects, o.key = path
  deriving Decidable

theorem holds_put {d : Bucket} {o : ListedObject} {path : String} (h : (d.put o).holds path) :
    path = o.key ∨ d.holds path := by
  obtain ⟨a, ha, rfl⟩ := h
  rcases mem_insertObject ha with rfl | ha
  · exact .inl rfl
  · exact .inr ⟨a, ha, rfl⟩

theorem holds_remove {d : Bucket} {gone path : String} (h : (d.remove gone).holds path) :
    d.holds path := by
  obtain ⟨a, ha, hkey⟩ := h
  exact ⟨a, mem_of_mem_filter ha, hkey⟩

end Bucket

/-! ## The two streams -/

/-- A listed path, or a row under its storage path, with its `created_at` as `lastModified`. -/
structure Entry where
  key : String
  objectKey : String := ""
  size : Int := 0
  unmanaged : Bool := false
  lastModified : Time := 0

def bucketPrefixes (buckets : List String) : List String := buckets.map fun b => b ++ "/"

/-- The path is under no configured bucket. -/
def isUnmanaged (rawKey : String) (prefixes : List String) : Bool :=
  !prefixes.any fun p => p.toList.isPrefixOf rawKey.toList

structure S3KeyStream where
  ch : List Entry := []
  position : Option String := none
  closed : Bool := false

def listedEntry (prefixes : List String) (o : ListedObject) : Entry where
  key := o.key
  size := o.sizeBytes
  unmanaged := isUnmanaged o.key prefixes
  lastModified := o.lastModified

/-- The producer lists one page and sends its keys. -/
def S3KeyStream.emitPage (s : S3KeyStream) (prefixes : List String) (d : Bucket) (n : Nat)
    (last : Bool) : S3KeyStream where
  ch := s.ch ++ (nextPage ListedObject.key d.objects s.position n).map (listedEntry prefixes)
  position := pageEnd ListedObject.key s.position (nextPage ListedObject.key d.objects s.position n)
  closed := last && decide
    ((d.objects.filter fun o => decide (Above s.position o.key)).length ≤ n)

/-- The next listed entry, or the end; nothing while the walk has to list another page. -/
def S3KeyStream.next (s : S3KeyStream) : Option (Option Entry × S3KeyStream) :=
  match s.ch with
  | e :: rest => some (some e, { s with ch := rest })
  | [] => if s.closed then some (none, s) else none

theorem S3KeyStream.next_cases {s s' : S3KeyStream} {e : Option Entry} (h : s.next = some (e, s')) :
    (∃ a, e = some a ∧ s.ch = a :: s'.ch ∧ s'.position = s.position ∧ s'.closed = s.closed) ∨
      (e = none ∧ s.ch = [] ∧ s.closed = true ∧ s' = s) := by
  unfold S3KeyStream.next at h
  split at h
  · next a rest hch =>
      cases h
      exact .inl ⟨a, rfl, hch, rfl, rfl⟩
  · next hch =>
      split_ifs at h with hclosed
      cases h
      exact .inr ⟨rfl, hch, hclosed, rfl⟩

def dbCursorPageSize : Nat := 1000

def Ledger.listObjectsByBackendKeyAsc (s : Ledger) (backend after : String) (limit : Nat) :
    List ObjectLocation :=
  nextPage ObjectLocation.storageKey
    ((s.objectLocations.rows.filter fun l => decide (l.backendName = backend)).insertionSort
      fun a b => a.storageKey ≤ b.storageKey) (some after) limit

/-- The rows of the page not consumed, the path the walk has come to, and whether the last page was
short. -/
structure DBCursorStream where
  page : List Entry := []
  after : String := ""
  exhausted : Bool := false

def rowEntry (l : ObjectLocation) : Entry where
  key := l.storageKey
  objectKey := l.objectKey
  size := l.sizeBytes
  lastModified := l.createdAt

/-- Reads the next page of the ledger's rows. -/
def DBCursorStream.fetch (d : DBCursorStream) (s : Ledger) (backend : String) : DBCursorStream :=
  let rows := s.listObjectsByBackendKeyAsc backend d.after dbCursorPageSize
  { page := rows.map rowEntry
    after := (rows.getLast?.map ObjectLocation.storageKey).getD d.after
    exhausted := decide (rows.length < dbCursorPageSize) }

def DBCursorStream.next (d : DBCursorStream) : Option (Option Entry × DBCursorStream) :=
  match d.page with
  | e :: rest => some (some e, { d with page := rest })
  | [] => if d.exhausted then some (none, d) else none

theorem DBCursorStream.next_mem {d d' : DBCursorStream} {e : Option Entry}
    (h : d.next = some (e, d')) : ∀ a ∈ e.toList ++ d'.page, a ∈ d.page := by
  unfold DBCursorStream.next at h
  split at h
  · next b rest hpage =>
      cases h
      rw [hpage]
      exact fun a ha => ha
  · next hpage =>
      split_ifs at h
      cases h
      exact fun a ha => ha

/-! ## Cursors -/

inductive Side where
  | backend
  | ledger
  deriving DecidableEq, Repr

def Side.text : Side → String
  | .backend => "backend listing"
  | .ledger => "ledger cursor"

inductive ReconcileError where
  | errNotAscending (side prev next : String)

def checkAscending (side : Side) (prev next : String) : Except ReconcileError Unit :=
  if prev < next then .ok () else .error (.errNotAscending side.text prev next)

/-- Takes the next entry of a side, unless it is out of order. -/
def advanceCursor (side : Side) (cur next : Option Entry) : Except ReconcileError (Option Entry) :=
  match cur, next with
  | some c, some n => (checkAscending side c.key n.key).map fun _ => some n
  | _, _ => .ok next

theorem advanceCursor_ok {side : Side} {cur next cur' : Option Entry}
    (h : advanceCursor side cur next = .ok cur') :
    cur' = next ∧ ∀ c ∈ cur, ∀ n ∈ next, c.key < n.key := by
  cases cur with
  | none =>
    cases h
    exact ⟨rfl, fun c hc => by cases hc⟩
  | some c =>
    cases next with
    | none =>
      cases h
      exact ⟨rfl, fun _ _ n hn => by cases hn⟩
    | some n =>
      rw [advanceCursor, checkAscending] at h
      split_ifs at h with hlt
      · cases h
        refine ⟨rfl, fun c' hc n' hn => ?_⟩
        cases hc
        cases hn
        exact hlt
      · cases h

/-! ## Handlers -/

structure Result where
  imported : Nat := 0
  removed : Nat := 0
  suppressedPendingCleanup : Nat := 0

def ledgerClockGrace : Nat := 60

def Entry.importRequest (e : Entry) (backendName : String) (form : Option StoredForm) :
    ImportObjectRequest where
  key := e.key
  backend := backendName
  size := e.size
  unmanaged := e.unmanaged
  form := form
  writtenAt := e.lastModified

/-- Import a path only the backend has. A failure, and a path whose bytes are not classified
(`none`), is logged. -/
def importHandler (tx : TxAdapter) (backendName : String) (classified : Option (Option StoredForm))
    (e : Entry) (s : Ledger) (r : Result) : Ledger × Result :=
  match classified with
  | none => (s, r)
  | some form =>
    match importObject tx (e.importRequest backendName form) s with
    | .ok (.inserted, s') => (s', { r with imported := r.imported + 1 })
    | .ok (.skippedPendingCleanup, s') =>
      (s', { r with suppressedPendingCleanup := r.suppressedPendingCleanup + 1 })
    | .ok (.skippedExisting, s') => (s', r)
    | .error _ => (s, r)

/-- Removes a row whose path was not listed, unless it is newer than the listing. -/
def deleteHandler (tx : TxAdapter) (backendName : String) (listedAt : Time) (e : Entry) (s : Ledger)
    (r : Result) : Ledger × Result :=
  if listedAt - ledgerClockGrace < e.lastModified then (s, r)
  else
    match deleteObjectLocation tx
        { objectKey := e.objectKey, backendName := backendName, storageKey := e.key } 0 "" s with
    | .ok (_, s') => ((sweepStaleCleanupQueueRows tx e.key backendName).commit s',
        { r with removed := r.removed + 1 })
    | .error _ => (s, r)

theorem importHandler_ledger (tx : TxAdapter) (backendName : String)
    (classified : Option (Option StoredForm)) (e : Entry) (s : Ledger) (r : Result) :
    (importHandler tx backendName classified e s r).1 = s ∨ ∃ form,
      Applies (.importing tx (e.importRequest backendName form)) s
        (importHandler tx backendName classified e s r).1 := by
  cases classified with
  | none => exact .inl rfl
  | some form =>
    cases h : importObject tx (e.importRequest backendName form) s with
    | error => simp [importHandler, h]
    | ok out =>
      obtain ⟨outcome, s'⟩ := out
      have hledger : (importHandler tx backendName (some form) e s r).1 = s' := by
        cases outcome <;> simp [importHandler, h]
      rw [hledger]
      exact (importObject_ok h).imp (fun h => h.2) fun h => ⟨form, h.2⟩

theorem deleteHandler_ledger (tx : TxAdapter) (backendName : String) (listedAt : Time) (e : Entry)
    (s : Ledger) (r : Result) :
    (deleteHandler tx backendName listedAt e s r).1 = s ∨
      (e.lastModified ≤ listedAt - ledgerClockGrace ∧ ∃ l ∈ s.objectLocations.rows,
        l.backendName = backendName ∧ l.storageKey = e.key ∧
        ∀ a, a ∈ (deleteHandler tx backendName listedAt e s r).1.objectLocations.rows ↔
          a ∈ s.objectLocations.rows ∧ a ≠ l) := by
  by_cases hfresh : listedAt - ledgerClockGrace < e.lastModified
  · simp [deleteHandler, hfresh]
  · cases h : deleteObjectLocation tx
        { objectKey := e.objectKey, backendName := backendName, storageKey := e.key } 0 "" s with
    | error => simp [deleteHandler, h]
    | ok out =>
      obtain ⟨items, s'⟩ := out
      obtain ⟨l, hl, _, hback, hpath, _, happ⟩ := deleteObjectLocation_ok h
      refine .inr ⟨not_lt.mp hfresh, l, hl, hback, hpath, fun a => ?_⟩
      have hledger : (deleteHandler tx backendName listedAt e s r).1 =
          (Settle.sweep e.key backendName).apply tx s' := by
        simp [deleteHandler, hfresh, h, Settle.apply]
      rw [hledger, (apply_settled tx s' _).locations, happ.mem_locations]
      constructor
      · rintro (⟨ha, hkeep⟩ | ha)
        · refine ⟨ha, ?_⟩
          rintro rfl
          simp [Effect.removing] at hkeep
        · cases ha
      · rintro ⟨ha, hne⟩
        refine .inl ⟨ha, decide_eq_false fun hslot => hne ?_⟩
        exact slot_unique ha hl hslot.1 hslot.2

/-! ## The merge -/

/-- The state of a pass. `todo` are the cursors to advance before the next round. -/
structure Pass where
  backendName : String
  prefixes : List String := []
  listedAt : Time
  s3 : S3KeyStream := {}
  db : DBCursorStream := {}
  s3Cur : Option Entry := none
  dbCur : Option Entry := none
  todo : List Side := [.backend, .ledger]
  err : Option ReconcileError := none
  result : Result := {}

namespace Pass

/-- Which side has the smaller key. -/
def branch (p : Pass) : Turn := turn (p.s3Cur.map Entry.key) (p.dbCur.map Entry.key)

/-- Takes the next entry on a side that is due. -/
def advance (p : Pass) : Pass :=
  match p.todo with
  | [] => p
  | .backend :: rest =>
    match p.s3.next with
    | none => p
    | some (next, s3) =>
      match advanceCursor .backend p.s3Cur next with
      | .ok cur => { p with s3 := s3, s3Cur := cur, todo := rest }
      | .error e => { p with err := some e }
  | .ledger :: rest =>
    match p.db.next with
    | none => p
    | some (next, db) =>
      match advanceCursor .ledger p.dbCur next with
      | .ok cur => { p with db := db, dbCur := cur, todo := rest }
      | .error e => { p with err := some e }

/-- Imports or deletes what only one side has, and says which sides advance next. -/
def dispatch (tx : TxAdapter) (classified : Option (Option StoredForm)) (s : Ledger) (p : Pass) :
    Ledger × Pass :=
  if p.todo = [] then
    match p.branch, p.s3Cur, p.dbCur with
    | .left, some e, _ =>
      let (s', r) := importHandler tx p.backendName classified e s p.result
      (s', { p with result := r, todo := [.backend] })
    | .right, _, some e =>
      let (s', r) := deleteHandler tx p.backendName p.listedAt e s p.result
      (s', { p with result := r, todo := [.ledger] })
    | .both, _, _ => (s, { p with todo := [.backend, .ledger] })
    | _, _, _ => (s, p)
  else (s, p)

theorem dispatch_cases (tx : TxAdapter) (classified : Option (Option StoredForm)) (s : Ledger)
    (p : Pass) :
    p.dispatch tx classified s = (s, p) ∨ (p.todo = [] ∧
      ((∃ e, p.s3Cur = some e ∧ p.branch = .left ∧ p.dispatch tx classified s =
          ((importHandler tx p.backendName classified e s p.result).1,
            { p with
              result := (importHandler tx p.backendName classified e s p.result).2
              todo := [.backend] })) ∨
       (∃ e, p.dbCur = some e ∧ p.branch = .right ∧ p.dispatch tx classified s =
          ((deleteHandler tx p.backendName p.listedAt e s p.result).1,
            { p with
              result := (deleteHandler tx p.backendName p.listedAt e s p.result).2
              todo := [.ledger] })) ∨
       (p.branch = .both ∧ p.dispatch tx classified s =
          (s, { p with todo := [.backend, .ledger] })))) := by
  by_cases htodo : p.todo = []
  · unfold dispatch
    rw [if_pos htodo]
    split
    · next e hbranch hcur => exact .inr ⟨htodo, .inl ⟨e, hcur, hbranch, rfl⟩⟩
    · next e hbranch hcur => exact .inr ⟨htodo, .inr (.inl ⟨e, hcur, hbranch, rfl⟩)⟩
    · next hbranch => exact .inr ⟨htodo, .inr (.inr ⟨hbranch, rfl⟩)⟩
    · exact .inl rfl
  · exact .inl (if_neg htodo)

theorem advance_cases (p : Pass) :
    p.advance = p ∨ (∃ e, p.advance = { p with err := some e }) ∨
      (∃ rest next s3, p.todo = .backend :: rest ∧ p.s3.next = some (next, s3) ∧
        p.advance = { p with s3 := s3, s3Cur := next, todo := rest }) ∨
      ∃ rest next db, p.todo = .ledger :: rest ∧ p.db.next = some (next, db) ∧
        (∀ c ∈ p.dbCur, ∀ n ∈ next, c.key < n.key) ∧
        p.advance = { p with db := db, dbCur := next, todo := rest } := by
  unfold advance
  split
  · exact .inl rfl
  · next rest htodo =>
      split
      · exact .inl rfl
      · next next s3 hnext =>
          cases hadv : advanceCursor .backend p.s3Cur next with
          | error e => exact .inr (.inl ⟨e, rfl⟩)
          | ok cur =>
            obtain ⟨rfl, _⟩ := advanceCursor_ok hadv
            exact .inr (.inr (.inl ⟨rest, cur, s3, htodo, hnext, rfl⟩))
  · next rest htodo =>
      split
      · exact .inl rfl
      · next next db hnext =>
          cases hadv : advanceCursor .ledger p.dbCur next with
          | error e => exact .inr (.inl ⟨e, rfl⟩)
          | ok cur =>
            obtain ⟨rfl, hlt⟩ := advanceCursor_ok hadv
            exact .inr (.inr (.inr ⟨rest, cur, db, htodo, hnext, hlt, rfl⟩))

end Pass

end S3Orchestrator
