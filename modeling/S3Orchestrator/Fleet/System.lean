import S3Orchestrator.Ledger.Settle
import S3Orchestrator.Ledger.Stripes

/-!
# Writers, copiers and the reaper on one ledger

Any number of client writes, placements, deletes and reaper passes run against one ledger, and their
transactions interleave in any order. The ledger alone does not say which write an intent belongs
to, whether its writer has made its commit, or what was reported to a client; `Fleet` carries this
beside the ledger.

* `Issued`: an intent that was claimed, with the client write it belongs to.
-/

namespace S3Orchestrator

open RowStore

abbrev WriteID : Type := Nat

/-- A claimed intent: its row, its client write (none for a placement), and how many client commits
came before it. -/
structure Issued where
  row : PendingObject
  write : Option WriteID
  since : Nat
  deriving DecidableEq

namespace Issued

/-- The intent was claimed for this path. -/
def at_ (i : Issued) (backend path : String) : Prop :=
  i.row.backendName = backend ∧ i.row.storageKey = path
  deriving Decidable

def describes (i : Issued) (p : PendingObject) : Prop :=
  i.row.intentID = p.intentID ∧ i.row.objectKey = p.objectKey ∧ i.at_ p.backendName p.storageKey
  deriving Decidable

/-- The copy of a request is the one that was claimed. -/
def names (i : Issued) (key : String) (c : ObjectCopy) : Prop :=
  i.row.intentID = c.intentID ∧ i.row.objectKey = key ∧ i.at_ c.backend c.storageKey
  deriving Decidable

end Issued

/-- A write or a delete that was answered. -/
structure ClientCommit where
  key : String
  write : Option WriteID
  time : Time

/-- The ledger, with what the parties know: the intents whose writer has made its call (`spent`),
the writes that have called `RecordObject` (`called`) and those it reported success to (`answered`),
the intents whose row the reaper took, the write that bytes belong to, and the commits in order. -/
structure Fleet where
  ledger : Ledger
  clock : Time := 0
  issued : List Issued := []
  spent : List String := []
  called : List WriteID := []
  answered : List WriteID := []
  reaped : List String := []
  tags : List ((String × String) × WriteID) := []
  log : List ClientCommit := []

/-- A call of a writer, a placement, the reaper, a delete or the cleanup worker. -/
inductive Act where
  | claim (write : Option WriteID) (p : PendingObject) (accepts : BackendFlags)
  | recordObject (write : WriteID) (req : RecordObjectRequest)
  | commitCompanion (write : WriteID) (p : PendingObject)
  | placeCopy (pl : Placement)
  | discard (p : PendingObject) (reason : String)
  | promote (p : PendingObject)
  | drop (p : PendingObject)
  | deleteObjectsBatch (keys : List String)
  | deleteObjectLocation (loc : ObjectLocation) (keepAtLeast : Int) (reason : String)
  | settle (st : Settle)

namespace Act

def does : Act → Op ⊕ Settle
  | .claim _ p accepts => .inl (.claim p accepts)
  | .recordObject _ req => .inl (.recordObject req)
  | .commitCompanion _ p => .inl (.commitCompanionCopy p)
  | .placeCopy pl => .inl (.placeCopy pl)
  | .discard p reason => .inl (.discardPending p reason)
  | .promote p => .inl (.promotePending p)
  | .drop p => .inl (.deletePending p.intentID)
  | .deleteObjectsBatch keys => .inl (.deleteObjectsBatch keys)
  | .deleteObjectLocation loc keepAtLeast reason =>
    .inl (.deleteObjectLocation loc keepAtLeast reason)
  | .settle st => .inr st

def apply (tx : TxAdapter) (s : Ledger) (a : Act) : Ledger :=
  match a.does with
  | .inl op => op.apply tx s
  | .inr st => st.apply tx s

def succeeds (tx : TxAdapter) (s : Ledger) (a : Act) : Bool :=
  match a.does with
  | .inl op => op.succeeds tx s
  | .inr _ => true

def spends : Act → List String
  | .recordObject _ req => intentIDs req.copies
  | .commitCompanion _ p | .discard p _ => [p.intentID]
  | .placeCopy pl => [pl.intent.intentID]
  | _ => []

def calls : Act → List WriteID
  | .recordObject w _ => [w]
  | _ => []

end Act

namespace Fleet

def tagOf (f : Fleet) (backend path : String) : Option WriteID := f.tags.lookup (backend, path)

/-- The intent that a claim inserted. -/
def issues (f : Fleet) (tx : TxAdapter) (a : Act) : List Issued :=
  match a with
  | .claim w p _ =>
    if (a.apply tx f.ledger).holds p.intentID then [⟨tx.pendingRow p, w, f.log.length⟩] else []
  | _ => []

def answers (f : Fleet) (tx : TxAdapter) (a : Act) : List WriteID :=
  if a.succeeds tx f.ledger then a.calls else []

/-- The intent that the reaper resolved. -/
def reaps (f : Fleet) (tx : TxAdapter) (a : Act) : List String :=
  match a with
  | .promote p | .drop p =>
    if f.ledger.holds p.intentID && !(a.apply tx f.ledger).holds p.intentID then [p.intentID]
    else []
  | _ => []

/-- Which write the bytes at a new path are of. -/
def marks (f : Fleet) (tx : TxAdapter) (a : Act) : List ((String × String) × WriteID) :=
  match a with
  | .claim _ _ _ => (f.issues tx a).filterMap fun i =>
    i.write.map fun w => ((i.row.backendName, i.row.storageKey), w)
  | .placeCopy pl => ((f.tagOf pl.source.backendName pl.source.storageKey).map fun w =>
    ((pl.intent.backendName, pl.intent.storageKey), w)).toList
  | _ => []

/-- The client's writes and deletes that take effect. -/
def commits (f : Fleet) (tx : TxAdapter) (a : Act) : List ClientCommit :=
  match a with
  | .recordObject w req =>
    if a.succeeds tx f.ledger && decide (f.ledger.holdsAll (intentIDs req.copies)) then
      [⟨req.key, some w, tx.now⟩] else []
  | .deleteObjectsBatch keys =>
    if a.succeeds tx f.ledger then keys.map fun key => ⟨key, none, tx.now⟩ else []
  | _ => []

def step (f : Fleet) (ev : TxAdapter × Act) : Fleet where
  ledger := ev.2.apply ev.1 f.ledger
  clock := ev.1.now
  issued := f.issues ev.1 ev.2 ++ f.issued
  spent := ev.2.spends ++ f.spent
  called := ev.2.calls ++ f.called
  answered := f.answers ev.1 ev.2 ++ f.answered
  reaped := f.reaps ev.1 ev.2 ++ f.reaped
  tags := f.marks ev.1 ev.2 ++ f.tags
  log := f.log ++ f.commits ev.1 ev.2

def start (quotas : Table BackendQuota sameBackend) : Fleet where
  ledger := Ledger.provisioned quotas

/-- The copies of the request are intents of the write that no call has named yet. -/
def Owns (f : Fleet) (w : WriteID) (req : RecordObjectRequest) : Prop :=
  ∀ c ∈ req.copies, c.intentID ∉ f.spent ∧ c.intentID ∉ intentIDs req.placing ∧
    ∃ i ∈ f.issued, i.write = some w ∧ i.names req.key c
  deriving Decidable

/-- What the callers promise about their arguments. -/
def Promised (minAge : Nat) (f : Fleet) (tx : TxAdapter) : Act → Prop
  | .claim write p _ => p.intentID ≠ "" ∧ p.storageKey ≠ "" ∧
      (∀ i ∈ f.issued, i.row.intentID ≠ p.intentID ∧ ¬ i.at_ p.backendName p.storageKey) ∧
      (write = none → p.role = .companion) ∧
      ∀ w ∈ write, w ∉ f.called ∧
        ∀ i ∈ f.issued, i.write = some w → i.row.objectKey = p.objectKey
  | .recordObject w req => w ∉ f.called ∧ f.Owns w req ∧
      ∀ c ∈ req.placing, ∃ i ∈ f.issued, i.write = some w ∧ i.row.intentID = c.intentID
  | .commitCompanion w p => w ∈ f.answered ∧ p.intentID ∉ f.spent ∧
      ∃ i ∈ f.issued, i.write = some w ∧ i.describes p
  | .placeCopy pl => pl.intent.intentID ∉ f.spent ∧ pl.intent.objectKey = pl.source.objectKey ∧
      ∃ i ∈ f.issued, i.write = none ∧ i.describes pl.intent
  | .discard p _ => ∃ i ∈ f.issued, i.describes p
  | .promote p | .drop p => p.createdAt + minAge ≤ tx.now ∧ ∃ i ∈ f.issued, i.row = p
  | .deleteObjectsBatch _ | .deleteObjectLocation _ _ _ | .settle _ => True

instance (minAge : Nat) (f : Fleet) (tx : TxAdapter) :
    DecidablePred (f.Promised minAge tx) := by
  rintro ⟨⟩ <;> dsimp only [Promised] <;> infer_instance

/-- Time does not go back, and the callers keep their promises. -/
def Lawful (minAge : Nat) (f : Fleet) (ev : TxAdapter × Act) : Prop :=
  0 < ev.1.now ∧ f.clock ≤ ev.1.now ∧ f.Promised minAge ev.1 ev.2
  deriving Decidable

end Fleet

/-! ## Runs on one key -/

def tick (now : Time) : TxAdapter := { now := now }

def keyIntent (id backend : String) (role : PendingRole) : PendingObject :=
  { intentID := id, objectKey := "k", storageKey := "k!" ++ id, backendName := backend,
    role := role }

def keyRow (since : Time) (id backend : String) (role : PendingRole) : PendingObject :=
  (tick since).pendingRow (keyIntent id backend role)

def keyCommit (id backend : String) (placing : List ObjectCopy) : RecordObjectRequest :=
  { key := "k", copies := [⟨backend, id, "k!" ++ id⟩], placing := placing }

end S3Orchestrator
