import Bluetalk.Js.Base64

/-!
# Encrypted video

`iv.js`, and `encryptCallPayload` of `crypto.js`: everything that is encrypted in a call is encrypted
with the key of the call, under a vector of a direction and a number.
-/

namespace Bluetalk.Calls

inductive Role
  | caller
  | callee
  deriving DecidableEq

inductive StreamKind
  | camera
  | screen
  deriving DecidableEq

def callDirOut : Nat := 0x00000001
def callDirIn : Nat := 0x00000002
def callIvCamOut : Nat := 0x00000011
def callIvCamIn : Nat := 0x00000012
def callIvScreenOut : Nat := 0x00000021
def callIvScreenIn : Nat := 0x00000022

def callVideoIvDirection (stream : StreamKind) (role : Role) (sending : Bool) : Nat :=
  let isCaller : Bool := role = .caller
  let callerToCallee := if sending then isCaller else !isCaller
  match stream with
  | .screen => if callerToCallee then callIvScreenOut else callIvScreenIn
  | .camera => if callerToCallee then callIvCamOut else callIvCamIn

/-- The direction that `createAudioPipeline` sends in. -/
def callAudioIvDirection (role : Role) : Nat := if role = .caller then callDirOut else callDirIn

/-- The upper and the lower word of a number. -/
def toUint64Parts (seq : Nat) : Nat × Nat :=
  if seq = 0 then (0, 0) else (seq / 0x100000000 % 0x100000000, seq % 0x100000000)

def buildCallIv (direction seq : Nat) : Bytes :=
  let (hi, lo) := toUint64Parts seq
  bigEndian 4 direction ++ bigEndian 4 hi ++ bigEndian 4 lo

/-- `n + 1` of a number: `2 ^ 53` is its own successor. -/
def addOne (n : Nat) : Nat := if n < 2 ^ 53 then n + 1 else n

/-- AES-GCM under the key of a call. -/
structure CallCipher where
  encrypt : (iv plaintext : Bytes) → Bytes
  decrypt : (iv ciphertext : Bytes) → Option Bytes

variable {direction direction' seq seq' : Nat} {role : Role} {n : Nat}

theorem buildCallIv_eq : buildCallIv direction seq = bigEndian 4 direction ++ bigEndian 8 seq := by
  have hparts : bigEndian 4 (toUint64Parts seq).1 ++ bigEndian 4 (toUint64Parts seq).2 =
      bigEndian 8 seq := by
    rw [toUint64Parts]
    split
    next h =>
      subst h
      rfl
    · have hmod : ∀ n, bigEndian 4 (n % 0x100000000) = bigEndian 4 n := fun n => bigEndian_mod
      rw [hmod, hmod]
      exact (bigEndian_add (v := 4) (w := 4)).symm
  rw [← hparts, ← List.append_assoc]
  rfl

theorem buildCallIv_inj (hd : direction < 2 ^ 32) (hd' : direction' < 2 ^ 32) (hn : seq < 2 ^ 64)
    (hn' : seq' < 2 ^ 64) (h : buildCallIv direction seq = buildCallIv direction' seq') :
    direction = direction' ∧ seq = seq' := by
  rw [buildCallIv_eq, buildCallIv_eq] at h
  obtain ⟨hdirection, hseq⟩ := List.append_inj h (by rw [length_bigEndian, length_bigEndian])
  exact ⟨bigEndian_inj hd hd' hdirection, bigEndian_inj hn hn' hseq⟩

theorem callVideoIvDirection_lt {stream : StreamKind} {sending : Bool} :
    callVideoIvDirection stream role sending < 2 ^ 32 := by
  cases stream <;> cases role <;> cases sending <;> decide

theorem callAudioIvDirection_lt : callAudioIvDirection role < 2 ^ 32 := by
  cases role <;> decide

theorem addOne_of_lt (h : n < 2 ^ 53) : addOne n = n + 1 := if_pos h

theorem lt_addOne (h : n < 2 ^ 53) : n < addOne n := by
  rw [addOne_of_lt h]
  exact Nat.lt_succ_self n

theorem le_addOne : n ≤ addOne n := by
  rw [addOne]
  split <;> omega

end Bluetalk.Calls

/-!
## Outgoing video

`handleEncoded` of `videoPipeline.js`: a frame that the encoder hands out is cut into fragments, and
these are numbered, encrypted and sent one after the other. Every encryption is awaited, so that
several frames of a direction can be on their way at once; they share its counter.
-/

namespace Bluetalk.Calls

def videoMaxFragmentBytes : Nat := 24 * 1024

/-- What the encoder hands out; `description` is that of the decoder's configuration. -/
structure EncodedChunk where
  bytes : Bytes
  key : Bool
  timestamp : Int
  description : Option Bytes := none

def splitVideoFrame (bytes : Bytes) : List Bytes :=
  let size := videoMaxFragmentBytes
  if bytes.length = 0 then [[]]
  else (List.range ((bytes.length + size - 1) / size)).map fun i =>
    (bytes.drop (i * size)).take size

def encryptCallPayload (C : CallCipher) (frames : Bytes) (direction seq : Nat) : String :=
  bytesToBase64 (C.encrypt (buildCallIv direction seq) frames)

def decryptCallPayload (C : CallCipher) (dataB64 : String) (direction seq : Nat) : Option Bytes :=
  (base64ToBytes dataB64).bind (C.decrypt (buildCallIv direction seq))

/-- A call of `handleEncoded` that awaits the encryption of its fragment `i`. -/
structure EncodeCall where
  /-- which of the frames that the direction was handed it is about -/
  frame : Nat
  chunk : EncodedChunk
  parts : List Bytes
  i : Nat
  fragmentSeq : Nat

/-- The fragment that is encrypted. -/
def EncodeCall.part (call : EncodeCall) : Bytes := call.parts.getD call.i []

structure VideoDirection where
  kind : StreamKind
  role : Role
  seq : Nat := 0
  closed : Bool := false
  /-- how many frames it was handed -/
  handed : Nat := 0
  calls : List EncodeCall := []

namespace VideoDirection

def ivDirection (d : VideoDirection) : Nat := callVideoIvDirection d.kind d.role true

/-- Up to the first encryption, with the call that awaits it. -/
def handleEncoded (d : VideoDirection) (still : Bool) (chunk : EncodedChunk) :
    VideoDirection × Option EncodeCall :=
  if d.closed || !still then (d, none)
  else
    let call : EncodeCall := ⟨d.handed, chunk, splitVideoFrame chunk.bytes, 0, d.seq⟩
    ({ d with seq := addOne d.seq, handed := d.handed + 1, calls := d.calls ++ [call] }, some call)

/-- How a call of `handleEncoded` goes on. -/
structure Resumed where
  direction : VideoDirection
  /-- the call as it stood when it sent its fragment -/
  sent : Option EncodeCall := none
  /-- the call as it awaits the next encryption -/
  next : Option EncodeCall := none

/-- The encryption that the `j`-th call awaits has come out, or failed. -/
def resumeEncoded (d : VideoDirection) (still : Bool) (j : Nat) (ok : Bool) : Option Resumed :=
  match d.calls[j]? with
  | none => none
  | some call =>
    let returned : VideoDirection := { d with calls := d.calls.eraseIdx j }
    if !ok then some { direction := returned }
    else if d.closed || !still then some { direction := returned }
    else if call.i + 1 < call.parts.length then
      let next : EncodeCall := { call with i := call.i + 1, fragmentSeq := d.seq }
      some ⟨{ d with seq := addOne d.seq, calls := d.calls.set j next }, some call, some next⟩
    else some ⟨returned, some call, none⟩

def close (d : VideoDirection) : VideoDirection := { d with closed := true }

end VideoDirection
end Bluetalk.Calls
