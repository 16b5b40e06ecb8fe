import S3Orchestrator.Store.Adapter

/-!
# Object tags

Tags describe the object, not any one copy of it: they are keyed by object key alone, replaced with
the object and cleared with its last copy.

* `validateTags` checks a proposed set, in the order the source checks it.
-/

namespace S3Orchestrator

open RowStore

def maxTagsPerObject : Nat := 10
def maxTagKeyLength : Nat := 128
def maxTagValueLength : Nat := 256

def utf16Length (s : String) : Nat :=
  (s.toList.map fun c => if c.toNat > 0xFFFF then 2 else 1).sum

def validateTag (seen : List String) (t : Tag) : Except StoreError Unit :=
  if t.key = "" then .error .errEmptyTagKey
  else if utf16Length t.key > maxTagKeyLength then
    .error (.detailed .errTagKeyTooLong ("key is " ++ toString (utf16Length t.key) ++
      " UTF-16 units, limit is " ++ toString maxTagKeyLength))
  else if utf16Length t.value > maxTagValueLength then
    .error (.detailed .errTagValueTooLong ("value for key " ++ t.key.quote ++ " is " ++
      toString (utf16Length t.value) ++ " UTF-16 units, limit is " ++ toString maxTagValueLength))
  else if t.key ∈ seen then .error (.detailed .errDuplicateTagKey t.key.quote)
  else .ok ()

def validateEach : List String → List Tag → Except StoreError Unit
  | _, [] => .ok ()
  | seen, t :: tags => do
    validateTag seen t
    validateEach (t.key :: seen) tags

def validateTags (tags : List Tag) : Except StoreError Unit :=
  if tags.length > maxTagsPerObject then
    .error (.detailed .errTooManyTags (toString tags.length ++ " tags supplied, limit is " ++
      toString maxTagsPerObject))
  else validateEach [] tags

def clearTagsForKey (tx : TxAdapter) (keys : List String) : LedgerTx Unit :=
  Tx.mapError (wrapError "clear object tags") (tx.deleteObjectTags keys)

def replaceObjectTagsTx (tx : TxAdapter) (key : String) (tags : List Tag) : LedgerTx Unit := do
  clearTagsForKey tx [key]
  Tx.forEach (fun t => Tx.mapError (wrapError ("insert tag " ++ t.key.quote))
    (tx.insertObjectTag key t.key t.value)) tags

/-! ## What a replacement changes -/

section Ok

variable {tx : TxAdapter} {s s' : Ledger} {u : Unit}

theorem clearTagsForKey_ok {keys : List String} (h : clearTagsForKey tx keys s = .ok (u, s')) :
    s' = { s with
      objectTags := s.objectTags.deleteWhere fun t => decide (t.objectKey ∈ keys) } :=
  TxAdapter.deleteObjectTags_ok (Tx.mapError_eq_ok.mp h)

theorem replaceObjectTagsTx_ok {key : String} {tags : List Tag}
    (h : replaceObjectTagsTx tx key tags s = .ok (u, s')) :
    ∃ t, s' = { s with objectTags := t } := by
  obtain ⟨_, s1, h1, h2⟩ := Tx.bind_eq_ok.mp h
  have hs1 := clearTagsForKey_ok h1
  refine Tx.forEach_induct (fun _ s2 => ∃ t, s2 = { s with objectTags := t }) ?_ tags [] s1 s' u
    ⟨_, hs1⟩ h2
  rintro done t _ s3 ⟨t2, rfl⟩ h3
  obtain ⟨t3, rfl⟩ := TxAdapter.insertObjectTag_ok (Tx.mapError_eq_ok.mp h3)
  exact ⟨t3, rfl⟩

end Ok

end S3Orchestrator
