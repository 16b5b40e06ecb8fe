import S3Orchestrator.Backend.Range
import S3Orchestrator.Ledger.Import
import S3Orchestrator.Reconcile.Merge
import S3Orchestrator.StoredForm.Describes

/-!
# Importing what a listing found

An import is the one write that starts from bytes: it reads the first of them, asks the codec about
those that could be an encoding, and looks for the key of an envelope among the rows of the object
key. Page imports and the merge of a reconcile come through the same `importListed`.

* `DiscoveredBytes.classifyImport`: the stored form, from the bytes and the key's rows.
-/

namespace S3Orchestrator

open RowStore ByteStream Encryption Storedform

/-! ## Classification -/

inductive ImportDecision where
  | plaintext
  | adoptKey
  | unreadable
  | compressed

structure DiscoveredBytes where
  header : Octets
  compressed : Bool := false
  logicalSize : Int := 0

def sameEncryptionOperation (hdr packedKey : Octets) : Bool :=
  match parseHeaderBytes hdr, unpackKeyData packedKey with
  | .ok (_, headerNonce), .ok (storedNonce, _) => decide (headerNonce = storedNonce)
  | _, _ => false

def ObjectLocation.opens (hdr : Octets) (l : ObjectLocation) : Bool :=
  StoredFlags.has l.storedForm.form storedReadable &&
    sameEncryptionOperation hdr l.storedForm.encryptionKey

def encodedForm (logicalSize : Int) : StoredForm where
  compressionAlgorithm := compressionAlgorithm
  compressionFormatVersion := compressionFormatVersion
  logicalSize := logicalSize

def DiscoveredBytes.classifyImport (b : DiscoveredBytes) (siblings : List ObjectLocation) :
    ImportDecision × Option StoredForm :=
  if hasEnvelopeMagic b.header then
    match siblings.find? (ObjectLocation.opens b.header) with
    | some l => (.adoptKey, l.storedForm.described)
    | none => (.unreadable, some { encrypted := true })
  else if b.compressed then (.compressed, some (encodedForm b.logicalSize))
  else (.plaintext, none)

/-! ## Reading the bytes -/

abbrev RangeReader : Type := String → Nat → Nat → Except Err Octets

abbrev StoredInspector : Type := (Nat → Nat → Except Err Octets) → Int → Option Int

def frameMagic : Octets := [0x28, 0xB5, 0x2F, 0xFD]

def hasFrameMagic (b : Octets) : Bool := frameMagic.isPrefixOf b

def readEnvelopeHeader (r : RangeReader) (key : String) : Except Err Octets :=
  match r key 0 (headerSize - 1) with
  | .ok hdr => .ok hdr
  | .error e => if e.is Backend.errStatus416 then .ok [] else .error (.wrap "read object header" e)

def discoverBytes (r : RangeReader) (codec : Option StoredInspector) (path : String) (size : Int) :
    Except Err DiscoveredBytes := do
  let hdr ← (readEnvelopeHeader r path).mapError (.wrap ("failed to inspect " ++ path))
  match codec with
  | none => .ok { header := hdr }
  | some inspectStored =>
    if size ≤ 0 ∨ hasEnvelopeMagic hdr = true ∨ hasFrameMagic hdr = false then .ok { header := hdr }
    else
      match inspectStored (r path) size with
      | some logicalSize => .ok { header := hdr, compressed := true, logicalSize := logicalSize }
      | none => .ok { header := hdr }

/-! ## Classifying and importing -/

def getAllObjectLocations (tx : TxAdapter) (key : String) : LedgerTx (List ObjectLocation) := do
  tx.exec "failed to get object locations"
  let locs ← Tx.read fun s =>
    (s.copiesOf [key]).insertionSort fun a b => a.createdAt ≤ b.createdAt
  if locs = [] then Tx.fail .errObjectNotFound else return locs

structure ClassifyDeps where
  reader : RangeReader
  codec : Option StoredInspector := none

inductive ImportError where
  | inspect (e : Err)
  | siblings (key : String) (e : StoreError)
  | ledger (e : StoreError)

def ClassifyDeps.classifyImport (deps : ClassifyDeps) (tx : TxAdapter) (key : String) (size : Int)
    (s : Ledger) : Except ImportError (Option StoredForm) := do
  let discovered ← (discoverBytes deps.reader deps.codec key size).mapError .inspect
  if hasEnvelopeMagic discovered.header then
    match getAllObjectLocations tx key s with
    | .ok (siblings, _) => .ok (discovered.classifyImport siblings).2
    | .error e =>
      if e.cause = .errObjectNotFound then .ok (discovered.classifyImport []).2
      else .error (.siblings key e)
  else .ok (discovered.classifyImport []).2

def importListed (deps : ClassifyDeps) (tx : TxAdapter) (req : ImportObjectRequest) (s : Ledger) :
    Except ImportError ImportOutcome × Ledger :=
  match deps.classifyImport tx req.key req.size s with
  | .error e => (.error e, s)
  | .ok form =>
    let x := importObject tx { req with form := form }
    ((x.result s).mapError .ledger, x.commit s)

/-! ## Pages -/

structure PageImporter where
  classify : ClassifyDeps
  backendName : String
  prefixes : List String
  dryRun : Bool := false

structure PageResult where
  imported : Nat := 0
  skipped : Nat := 0
  importedBytes : Int := 0

inductive PageError where
  | lookUpListedPaths (e : StoreError)
  | failedToImport (key : String) (e : ImportError)

namespace PageImporter

variable (p : PageImporter)

def request (o : ListedObject) : ImportObjectRequest where
  key := o.key
  backend := p.backendName
  size := o.sizeBytes
  unmanaged := isUnmanaged o.key p.prefixes
  writtenAt := o.lastModified

def importMiss (tx : TxAdapter) (o : ListedObject) (s : Ledger) :
    Except ImportError ImportOutcome × Ledger :=
  if p.dryRun then (.ok .inserted, s) else importListed p.classify tx (p.request o) s

def importFrom (states : String → PathState) :
    List (TxAdapter × ListedObject) → Ledger → PageResult → (PageResult × Option PageError) × Ledger
  | [], s, res => ((res, none), s)
  | (tx, o) :: rest, s, res =>
    match states o.key with
    | .pendingCleanup | .recorded | .inFlight =>
      importFrom states rest s { res with skipped := res.skipped + 1 }
    | .untracked =>
      match p.importMiss tx o s with
      | (.error e, s') => ((res, some (.failedToImport o.key e)), s')
      | (.ok .inserted, s') => importFrom states rest s' { res with
          imported := res.imported + 1
          importedBytes := res.importedBytes + o.sizeBytes }
      | (.ok _, s') => importFrom states rest s' { res with skipped := res.skipped + 1 }

def importPage (tx : TxAdapter) (objects : List (TxAdapter × ListedObject)) (s : Ledger) :
    (PageResult × Option PageError) × Ledger :=
  match tx.listedPathStates p.backendName s with
  | .error e => (({}, some (.lookUpListedPaths e)), s)
  | .ok (states, _) => p.importFrom states objects s {}

end PageImporter

end S3Orchestrator
