import S3Orchestrator.Auth.SigV4

/-!
# The signing-key chain

`deriveSigningKey` computes four HMACs with one digest and one pad. The pad holds the key under the
inner mask first and is flipped to the outer one in place, and from the second HMAC on the key is
read from the buffer that its result is written to.

* `hmac`: what RFC 2104 prescribes; `Memory`, `sum`: what the code does with its buffers;
* **`signing_key_chain`**: they agree for every key and every memory, and so does the chain;
* `deriveSigningKey_eq`: the key that signatures are checked with is the chain's.
-/

namespace S3Orchestrator.SigningKey

open List (replicate finRange nodup_cons foldl_cons nodup_finRange ext_getElem getElem_append_left
  getElem_append_right map_map take_append take_of_length_le take_replicate)

variable (sha256 : Bytes → Vector UInt8 32)

/-! ## RFC 2104 -/

def blockKey (key : Bytes) : Bytes :=
  let key := if 64 < key.length then (sha256 key).toList else key
  key ++ replicate (64 - key.length) 0

def hmac (key text : Bytes) : Vector UInt8 32 :=
  sha256 ((blockKey sha256 key).map (· ^^^ 0x5C) ++
    (sha256 ((blockKey sha256 key).map (· ^^^ 0x36) ++ text)).toList)

/-! ## The code -/

/-- The bytes written to the digest since its last reset, the pad, and the buffer the result goes
to. -/
structure Memory where
  d : Bytes
  pad : Vector UInt8 64
  out : Vector UInt8 32

/-- A key slice: bytes of its own, or the output buffer. -/
inductive Key where
  | own (bytes : Bytes)
  | out

def Key.read (m : Memory) : Key → Bytes
  | .own bytes => bytes
  | .out => m.out.toList

def clearPad : StateM Memory Unit :=
  modify fun m => { m with pad := .replicate 64 0 }

def copyToPad (key : Key) : StateM Memory Unit :=
  modify fun m => { m with pad := .ofFn fun i => (key.read m)[i]?.getD m.pad[i] }

def xorAt {n : Nat} (mask : UInt8) (pad : Vector UInt8 n) (i : Fin n) : Vector UInt8 n :=
  pad.set i (pad[i] ^^^ mask)

def xorPad (mask : UInt8) : StateM Memory Unit :=
  (finRange 64).forM fun i => modify fun m => { m with pad := xorAt mask m.pad i }

def reset : StateM Memory Unit :=
  modify fun m => { m with d := [] }

def write (source : Memory → Bytes) : StateM Memory Unit :=
  modify fun m => { m with d := m.d ++ source m }

def sumInto : StateM Memory Unit :=
  modify fun m => { m with out := sha256 m.d }

def sum (key : Key) (msg : Bytes) : StateM Memory Unit := do
  let m ← get
  let key := if 64 < (key.read m).length then .own (sha256 (key.read m)).toList else key
  clearPad
  copyToPad key
  xorPad 0x36
  reset
  write fun m => m.pad.toList
  write fun _ => msg
  sumInto sha256
  xorPad (0x36 ^^^ 0x5C)
  reset
  write fun m => m.pad.toList
  write fun m => m.out.toList
  sumInto sha256

def deriveSigningKey (secret dateStamp region service : Bytes) : Vector UInt8 32 :=
  let chain : StateM Memory Unit := do
    sum sha256 (.own (bytesOf "AWS4" ++ secret)) dateStamp
    sum sha256 .out region
    sum sha256 .out service
    sum sha256 .out (bytesOf "aws4_request")
  (chain.run ⟨[], .replicate 64 0, .replicate 32 0⟩).2.out

/-! ## The pad -/

section Pad

variable {n : Nat} {mask : UInt8}

theorem getElem_xorAt (pad : Vector UInt8 n) (i j : Fin n) :
    (xorAt mask pad i)[j] = if i = j then pad[j] ^^^ mask else pad[j] := by
  by_cases h : i = j
  · subst h
    simp [xorAt]
  · have hne : i.val ≠ j.val := fun heq => h (Fin.ext heq)
    simp [xorAt, h, hne]

-- The induction is on the positions still to come: each is flipped once, and no other.
theorem getElem_xorEach {l : List (Fin n)} (hl : l.Nodup) (pad : Vector UInt8 n) (j : Fin n) :
    (l.foldl (xorAt mask) pad)[j] = if j ∈ l then pad[j] ^^^ mask else pad[j] := by
  induction l generalizing pad with
  | nil => simp
  | cons i l ih =>
    obtain ⟨hi, hl⟩ := nodup_cons.mp hl
    rw [foldl_cons, ih hl, getElem_xorAt]
    by_cases h : i = j
    · subst h
      simp [hi]
    · simp [h, Ne.symm h]

theorem xorEach_eq_map (pad : Vector UInt8 n) :
    (finRange n).foldl (xorAt mask) pad = pad.map (· ^^^ mask) := by
  refine Vector.ext fun j hj => ?_
  exact (getElem_xorEach (nodup_finRange n) pad ⟨j, hj⟩).trans (by simp)

theorem run_xorEach (l : List (Fin 64)) (m : Memory) :
    (l.forM fun i => modify fun m : Memory => { m with pad := xorAt mask m.pad i } :
      StateM Memory Unit).run m = ((), { m with pad := l.foldl (xorAt mask) m.pad }) := by
  induction l generalizing m with
  | nil => rfl
  | cons i l ih => exact ih { m with pad := xorAt mask m.pad i }

theorem run_xorPad (m : Memory) :
    (xorPad mask).run m = ((), { m with pad := m.pad.map (· ^^^ mask) }) := by
  rw [xorPad, run_xorEach, xorEach_eq_map]

/-- The pad after the key was copied over zeros. -/
def zeroPadded (key : Bytes) : Vector UInt8 n :=
  .ofFn fun i => key[i]?.getD (Vector.replicate n 0)[i]

theorem toList_zeroPadded {key : Bytes} (hkey : key.length ≤ n) :
    (zeroPadded key : Vector UInt8 n).toList = key ++ replicate (n - key.length) 0 := by
  refine ext_getElem (by simp; omega) fun i hi _ => ?_
  by_cases h : i < key.length
  · simp [zeroPadded, h]
  · rw [getElem_append_right (by omega)]
    simp [zeroPadded, h]

end Pad

/-! ## One HMAC, and the chain -/

/-- The bytes that go into the pad: those of the key, or its digest if they exceed a block. -/
def shortened (key : Bytes) : Bytes :=
  if 64 < key.length then (sha256 key).toList else key

theorem length_shortened_le (key : Bytes) : (shortened sha256 key).length ≤ 64 := by
  unfold shortened
  split_ifs with h
  · simp
  · exact Nat.le_of_not_lt h

theorem toList_block (key : Bytes) :
    (zeroPadded (shortened sha256 key) : Vector UInt8 64).toList = blockKey sha256 key :=
  toList_zeroPadded (length_shortened_le sha256 key)

theorem run_sum (key : Key) (msg : Bytes) (m : Memory) : ((sum sha256 key msg).run m).2.out =
      let inner := (zeroPadded (shortened sha256 (key.read m)) : Vector UInt8 64).map (· ^^^ 0x36)
      sha256 ((inner.map (· ^^^ (0x36 ^^^ 0x5C))).toList ++
        (sha256 (inner.toList ++ msg)).toList) := by
  -- The key is read once, when only the pad has changed.
  have hread : (if 64 < (key.read m).length then .own (sha256 (key.read m)).toList
      else key).read { m with pad := .replicate 64 0 } = shortened sha256 (key.read m) := by
    unfold shortened
    split_ifs
    · rfl
    · cases key <;> rfl
  simp only [sum, clearPad, copyToPad, reset, write, sumInto, StateT.run_bind, run_xorPad]
  rw [← hread]
  rfl

theorem sum_eq_hmac (key : Key) (msg : Bytes) (m : Memory) :
    ((sum sha256 key msg).run m).2.out = hmac sha256 (key.read m) msg := by
  have hflip : ((· ^^^ (0x36 ^^^ 0x5C)) : UInt8 → UInt8) ∘ (· ^^^ 0x36) = (· ^^^ 0x5C) := by
    funext b
    rw [Function.comp_apply, ← UInt8.xor_assoc, UInt8.xor_assoc b, UInt8.xor_self, UInt8.xor_zero]
  rw [run_sum]
  simp only [Vector.toList_map, map_map, hflip, toList_block]
  rfl

theorem deriveSigningKey_eq_chain (secret dateStamp region service : Bytes) :
    deriveSigningKey sha256 secret dateStamp region service = hmac sha256 (hmac sha256 (hmac sha256
        (hmac sha256 (bytesOf "AWS4" ++ secret) dateStamp).toList region).toList service).toList
        (bytesOf "aws4_request") := by
  have hout : ∀ msg m, ((sum sha256 .out msg).run m).2.out = hmac sha256 m.out.toList msg :=
    sum_eq_hmac sha256 .out
  simp only [deriveSigningKey, StateT.run_bind]
  refine (hout _ _).trans (congrArg (fun k => hmac sha256 (Vector.toList k) _) ?_)
  refine (hout _ _).trans (congrArg (fun k => hmac sha256 (Vector.toList k) _) ?_)
  refine (hout _ _).trans (congrArg (fun k => hmac sha256 (Vector.toList k) _) ?_)
  exact sum_eq_hmac sha256 _ _ _

/-- **The hand-written chain is HMAC.** -/
theorem signing_key_chain :
    (∀ (key : Key) (msg : Bytes) (m : Memory),
      ((sum sha256 key msg).run m).2.out = hmac sha256 (key.read m) msg) ∧
    ∀ secret dateStamp region service,
      deriveSigningKey sha256 secret dateStamp region service =
        hmac sha256 (hmac sha256 (hmac sha256
          (hmac sha256 (bytesOf "AWS4" ++ secret) dateStamp).toList region).toList service).toList
          (bytesOf "aws4_request") :=
  ⟨sum_eq_hmac sha256, deriveSigningKey_eq_chain sha256⟩

/-! ## The signatures -/

section Signatures

variable {sha256} {std : SigV4Std} (h : ∀ data, std.sum256 data = (sha256 data).toList)
include h

theorem hmacPad_eq_blockKey (key : Bytes) : hmacPad std key = blockKey sha256 key := by
  simp only [hmacPad, h]
  change (shortened sha256 key ++ _).take 64 = shortened sha256 key ++ _
  rw [take_append, take_of_length_le (length_shortened_le sha256 key), take_replicate,
    min_eq_left (Nat.sub_le _ _)]
  rfl

/-- The signing key of the signature check is the chain's. -/
theorem deriveSigningKey_eq (secret : Bytes) (scope : CredentialScope) :
    S3Orchestrator.deriveSigningKey std secret scope =
      (deriveSigningKey sha256 secret scope.date scope.region scope.service).toList := by
  have hmac_eq : ∀ key msg, hmacSHA256 std key msg = (hmac sha256 key msg).toList := by
    intro key msg
    simp only [hmacSHA256, hmac, hmacPad_eq_blockKey h, h]
  simp only [S3Orchestrator.deriveSigningKey, hmac_eq, deriveSigningKey_eq_chain]

end Signatures

theorem deriveSigningKey_eq_constant : S3Orchestrator.deriveSigningKey
        ⟨fun _ => (Vector.replicate 32 7).toList, id, fun _ _ => false, fun _ => none⟩ [1]
        ⟨[2], [3], [4]⟩ =
      (deriveSigningKey (fun _ => Vector.replicate 32 7) [1] [2] [3] [4]).toList :=
  deriveSigningKey_eq (fun _ => rfl) [1] ⟨[2], [3], [4]⟩

end S3Orchestrator.SigningKey
