import Bluetalk.Theory.BigEndian
import Mathlib.Data.Nat.Bitwise

/-!
# Encrypted records

`SendCipher`, `ReceiveCipher` and `derive_session_ciphers` of the desktop's `protocol/mod.rs` and of
the web client's `peerProtocol/records.js`, and what both of them do. ChaCha20-Poly1305, HKDF and
SHA-256 are parameters. The messages that were sealed are kept in a log, from which an ideal cipher
knows what it may open; the code sees no more of it than the results.
-/

open List

namespace Bluetalk.PeerProtocol

def utf8 (text : String) : Bytes := text.toUTF8.data.toList

/-- A message that was sealed. -/
structure Sealed where
  key : Bytes
  nonce : Bytes
  aad : Bytes
  message : Bytes
  deriving DecidableEq

/-- Authenticated encryption with associated data. -/
structure Aead where
  enc : (key nonce aad message : Bytes) → Option Bytes
  /-- given what was sealed so far -/
  dec : (log : List Sealed) → (key nonce aad ciphertext : Bytes) → Option Bytes

namespace Aead

def encrypt (A : Aead) (log : List Sealed) (key nonce aad message : Bytes) :
    Option Bytes × List Sealed :=
  match A.enc key nonce aad message with
  | some ciphertext => (some ciphertext, log ++ [⟨key, nonce, aad, message⟩])
  | none => (none, log)

/-- What is opened was sealed, under the same key, nonce and data. -/
def Ideal (A : Aead) : Prop := ∀ log key nonce aad ciphertext message,
  A.dec log key nonce aad ciphertext = some message ↔
    ⟨key, nonce, aad, message⟩ ∈ log ∧ A.enc key nonce aad message = some ciphertext

end Aead

/-- HKDF with SHA-256: salt, input, info and length. -/
abbrev Hkdf := Bytes → Bytes → Bytes → Nat → Bytes

def recordAadDomain : Bytes := utf8 "BlueTalk/v2/record\x00"
def sessionKdfInfo : Bytes := utf8 "BlueTalk/v2/session-keys/1"

def makeNonce (pre sequence : Bytes) : Bytes := pre ++ sequence

def makeAad (transcriptHash sequence : Bytes) : Bytes :=
  recordAadDomain ++ transcriptHash ++ sequence

/-- The bytes that the keys of a session are cut from. -/
def keyMaterial (hkdf : Hkdf) (sharedSecret transcriptHash : Bytes) : Bytes :=
  hkdf transcriptHash sharedSecret sessionKdfInfo 72

def initiatorKey (material : Bytes) : Bytes := material.take 32
def responderKey (material : Bytes) : Bytes := (material.drop 32).take 32
def initiatorPrefix (material : Bytes) : Bytes := (material.drop 64).take 4
def responderPrefix (material : Bytes) : Bytes := (material.drop 68).take 4

/-! ## The desktop -/

inductive NetworkError
  | frameTooLarge (actual maximum : Nat)
  | protocol (message : String)
  | crypto (message : String)
  | handshake (message : String)
  | incompatibleProtocol (remote supported : String)
  | closed

namespace Desktop

structure SendCipher where
  cipher : Bytes
  noncePrefix : Bytes
  nextSequence : UInt64
  transcriptHash : Bytes
  maxPlaintextBytes : Nat

structure ReceiveCipher where
  cipher : Bytes
  noncePrefix : Bytes
  nextSequence : UInt64
  transcriptHash : Bytes
  maxPlaintextBytes : Nat

/-- `to_be_bytes` -/
def toBeBytes (n : UInt64) : Bytes := bigEndian 8 n.toNat

def SendCipher.encrypt (A : Aead) (c : SendCipher) (log : List Sealed) (plaintext : Bytes) :
    Except NetworkError Bytes × SendCipher × List Sealed :=
  if c.maxPlaintextBytes < plaintext.length then
    (.error (.frameTooLarge plaintext.length c.maxPlaintextBytes), c, log)
  else if c.nextSequence = .ofNat (2 ^ 64 - 1) then
    (.error (.protocol "record sequence exhausted; reconnect required"), c, log)
  else
    let sequence := c.nextSequence
    let nonce := makeNonce c.noncePrefix (toBeBytes sequence)
    let aad := makeAad c.transcriptHash (toBeBytes sequence)
    match A.encrypt log c.cipher nonce aad plaintext with
    | (none, log) => (.error (.crypto "record encryption failed"), c, log)
    | (some ciphertext, log) =>
      (.ok (toBeBytes sequence ++ ciphertext), { c with nextSequence := sequence + 1 }, log)

def ReceiveCipher.maximumRecordBytes (c : ReceiveCipher) : Nat := c.maxPlaintextBytes + 8 + 16

def ReceiveCipher.decrypt (A : Aead) (c : ReceiveCipher) (log : List Sealed) (record : Bytes) :
    Except NetworkError Bytes × ReceiveCipher :=
  if record.length < 8 + 16 then
    (.error (.protocol "encrypted record is shorter than its header and tag"), c)
  else if c.maxPlaintextBytes + 8 + 16 < record.length then
    (.error (.frameTooLarge (record.length - 8 - 16) c.maxPlaintextBytes), c)
  else
    let sequence := UInt64.ofNat (ofBigEndian (record.take 8))
    if sequence ≠ c.nextSequence then
      (.error (.protocol
        s!"unexpected record sequence {sequence}; expected {c.nextSequence}"), c)
    else
      let nonce := makeNonce c.noncePrefix (toBeBytes sequence)
      let aad := makeAad c.transcriptHash (toBeBytes sequence)
      match A.dec log c.cipher nonce aad (record.drop 8) with
      | none => (.error (.crypto "record authentication failed"), c)
      | some plaintext => (.ok plaintext, { c with nextSequence := c.nextSequence + 1 })

def deriveSessionCiphers (hkdf : Hkdf) (sharedSecret transcriptHash : Bytes) (initiator : Bool)
    (maxFrameBytes : Nat) : SendCipher × ReceiveCipher :=
  let material := keyMaterial hkdf sharedSecret transcriptHash
  let (sendKey, receiveKey, sendPrefix, receivePrefix) :=
    if initiator then
      (initiatorKey material, responderKey material, initiatorPrefix material,
        responderPrefix material)
    else
      (responderKey material, initiatorKey material, responderPrefix material,
        initiatorPrefix material)
  (⟨sendKey, sendPrefix, 0, transcriptHash, maxFrameBytes⟩,
    ⟨receiveKey, receivePrefix, 0, transcriptHash, maxFrameBytes⟩)

end Desktop

/-! ## The web client -/

namespace Web

/-- An error that is thrown, with its text; or one of the library. -/
inductive Error
  | thrown (message : String)
  | library

/-- A cipher whose sequence is a `BigInt`. -/
structure SendCipher where
  key : Bytes
  noncePrefix : Bytes
  transcriptHash : Bytes
  maxPlaintextBytes : Nat
  nextSequence : Nat := 0

structure ReceiveCipher where
  key : Bytes
  noncePrefix : Bytes
  transcriptHash : Bytes
  maxPlaintextBytes : Nat
  nextSequence : Nat := 0

/-- `DataView.setUint32` of a number -/
def setUint32 (n : Nat) : Bytes := bigEndian 4 n
/-- `DataView.getUint32` -/
def getUint32 (bytes : Bytes) (offset : Nat) : Nat := ofBigEndian ((bytes.drop offset).take 4)

def u64Be (value : Nat) : Bytes :=
  setUint32 ((value >>> 32) &&& 0xffffffff) ++ setUint32 (value &&& 0xffffffff)

def SendCipher.encrypt (A : Aead) (c : SendCipher) (log : List Sealed) (plaintext : Bytes) :
    Except Error Bytes × SendCipher × List Sealed :=
  if plaintext.length > c.maxPlaintextBytes then
    (.error (.thrown s!"frame too large: {plaintext.length} > {c.maxPlaintextBytes}"), c, log)
  else if c.nextSequence = 0xffffffffffffffff then
    (.error (.thrown "record sequence exhausted; reconnect required"), c, log)
  else
    let sequence := c.nextSequence
    let nonce := makeNonce c.noncePrefix (u64Be sequence)
    let aad := makeAad c.transcriptHash (u64Be sequence)
    match A.encrypt log c.key nonce aad plaintext with
    | (none, log) => (.error .library, c, log)
    | (some ciphertext, log) =>
      (.ok (u64Be sequence ++ ciphertext), { c with nextSequence := c.nextSequence + 1 }, log)

def ReceiveCipher.maximumRecordBytes (c : ReceiveCipher) : Nat := c.maxPlaintextBytes + 8 + 16

def ReceiveCipher.decrypt (A : Aead) (c : ReceiveCipher) (log : List Sealed) (record : Bytes) :
    Except Error Bytes × ReceiveCipher :=
  if record.length < 8 + 16 then
    (.error (.thrown "encrypted record is shorter than its header and tag"), c)
  else if record.length > c.maxPlaintextBytes + 8 + 16 then
    (.error (.thrown s!"frame too large: {record.length - 8 - 16} > {c.maxPlaintextBytes}"), c)
  else
    let sequence := (getUint32 (record.take 8) 0 <<< 32) ||| getUint32 (record.take 8) 4
    if sequence ≠ c.nextSequence then
      (.error (.thrown s!"unexpected record sequence {sequence}; expected {c.nextSequence}"), c)
    else
      let nonce := makeNonce c.noncePrefix (u64Be sequence)
      let aad := makeAad c.transcriptHash (u64Be sequence)
      match A.dec log c.key nonce aad (record.drop 8) with
      | none => (.error .library, c)
      | some plaintext => (.ok plaintext, { c with nextSequence := c.nextSequence + 1 })

def deriveSessionCiphers (hkdf : Hkdf) (shared transcript : Bytes) (initiator : Bool)
    (maxPlaintextBytes : Nat) : SendCipher × ReceiveCipher :=
  let material := keyMaterial hkdf shared transcript
  let sendKey := if initiator then initiatorKey material else responderKey material
  let receiveKey := if initiator then responderKey material else initiatorKey material
  let sendPrefix := if initiator then initiatorPrefix material else responderPrefix material
  let receivePrefix := if initiator then responderPrefix material else initiatorPrefix material
  (⟨sendKey, sendPrefix, transcript, maxPlaintextBytes, 0⟩,
    ⟨receiveKey, receivePrefix, transcript, maxPlaintextBytes, 0⟩)

theorem u64Be_eq {n : Nat} : u64Be n = bigEndian 8 n := by
  have hmask : ∀ m, m &&& 0xffffffff = m % 256 ^ 4 := fun m => Nat.and_two_pow_sub_one_eq_mod m 32
  rw [u64Be, setUint32, setUint32, hmask, hmask, bigEndian_mod, bigEndian_mod,
    Nat.shiftRight_eq_div_pow]
  exact (bigEndian_add (v := 4) (w := 4)).symm

theorem getUint32_pair {bytes : Bytes} (h : bytes.length = 8) :
    (getUint32 bytes 0 <<< 32) ||| getUint32 bytes 4 = ofBigEndian bytes := by
  have hlow : ((bytes.drop 4).take 4).length = 4 := by
    rw [length_take, length_drop, h]
    rfl
  have hsplit : bytes = bytes.take 4 ++ (bytes.drop 4).take 4 := by
    have hall : (bytes.drop 4).take 4 = bytes.drop 4 := by
      refine take_of_length_le ?_
      rw [length_drop, h]
    rw [hall, take_append_drop]
  have hlt : getUint32 bytes 4 < 2 ^ 32 := by
    have hlt : ofBigEndian ((bytes.drop 4).take 4) < 256 ^ ((bytes.drop 4).take 4).length :=
      ofBigEndian_lt
    rw [hlow] at hlt
    exact hlt
  rw [← Nat.shiftLeft_add_eq_or_of_lt hlt, Nat.shiftLeft_eq, getUint32, getUint32, drop_zero]
  conv_rhs => rw [hsplit, ofBigEndian_append, hlow]
  rw [Nat.mul_comm]
  rfl

end Web

/-! ## What both of them do -/

/-- A cipher of either direction, of either client. -/
structure Cipher where
  key : Bytes
  noncePrefix : Bytes
  transcriptHash : Bytes
  maximum : Nat
  next : Nat

namespace Cipher

variable (A : Aead) (c : Cipher) (log : List Sealed)

def nonce (sequence : Nat) : Bytes := makeNonce c.noncePrefix (bigEndian 8 sequence)
def aad (sequence : Nat) : Bytes := makeAad c.transcriptHash (bigEndian 8 sequence)

def seals (sequence : Nat) (message : Bytes) : Sealed :=
  ⟨c.key, c.nonce sequence, c.aad sequence, message⟩

def send (plaintext : Bytes) : Option Bytes × Cipher × List Sealed :=
  if c.maximum < plaintext.length ∨ c.next = 2 ^ 64 - 1 then (none, c, log)
  else
    match A.encrypt log c.key (c.nonce c.next) (c.aad c.next) plaintext with
    | (none, log) => (none, c, log)
    | (some ciphertext, log) =>
      (some (bigEndian 8 c.next ++ ciphertext), { c with next := c.next + 1 }, log)

def receive (record : Bytes) : Option Bytes × Cipher :=
  if record.length < 24 ∨ c.maximum + 24 < record.length ∨ ofBigEndian (record.take 8) ≠ c.next then
    (none, c)
  else
    match A.dec log c.key (c.nonce c.next) (c.aad c.next) (record.drop 8) with
    | none => (none, c)
    | some plaintext => (some plaintext, { c with next := c.next + 1 })

end Cipher

def Desktop.SendCipher.view (c : Desktop.SendCipher) : Cipher :=
  ⟨c.cipher, c.noncePrefix, c.transcriptHash, c.maxPlaintextBytes, c.nextSequence.toNat⟩
def Desktop.ReceiveCipher.view (c : Desktop.ReceiveCipher) : Cipher :=
  ⟨c.cipher, c.noncePrefix, c.transcriptHash, c.maxPlaintextBytes, c.nextSequence.toNat⟩
def Web.SendCipher.view (c : Web.SendCipher) : Cipher :=
  ⟨c.key, c.noncePrefix, c.transcriptHash, c.maxPlaintextBytes, c.nextSequence⟩
def Web.ReceiveCipher.view (c : Web.ReceiveCipher) : Cipher :=
  ⟨c.key, c.noncePrefix, c.transcriptHash, c.maxPlaintextBytes, c.nextSequence⟩

variable {A : Aead} {log : List Sealed} {plaintext record : Bytes} {c : Web.ReceiveCipher}

theorem Desktop.SendCipher.encrypt_view {c : Desktop.SendCipher}
    {r : Except NetworkError Bytes × Desktop.SendCipher × List Sealed}
    (h : c.encrypt A log plaintext = r) :
    c.view.send A log plaintext = (r.1.toOption, r.2.1.view, r.2.2) := by
  have hmax : c.nextSequence = .ofNat (2 ^ 64 - 1) ↔ c.nextSequence.toNat = 2 ^ 64 - 1 := by
    rw [← UInt64.toNat_inj]
    rfl
  rw [Cipher.send]
  rw [encrypt] at h
  split at h
  next hlong =>
    subst h
    exact if_pos (.inl hlong)
  next hlong =>
  split at h
  next hend =>
    subst h
    exact if_pos (.inr (hmax.mp hend))
  next hend =>
  have hgoes : ¬ (c.view.maximum < plaintext.length ∨ c.view.next = 2 ^ 64 - 1) :=
    not_or.mpr ⟨hlong, fun h => hend (hmax.mpr h)⟩
  rw [if_neg hgoes]
  have hcall : A.encrypt log c.view.key (c.view.nonce c.view.next) (c.view.aad c.view.next)
      plaintext = A.encrypt log c.cipher (makeNonce c.noncePrefix (toBeBytes c.nextSequence))
        (makeAad c.transcriptHash (toBeBytes c.nextSequence)) plaintext := rfl
  rw [hcall]
  dsimp only at h
  split at h
  · subst h
    rfl
  subst h
  have hlt := c.nextSequence.toNat_lt
  have hnext : (c.nextSequence + 1).toNat = c.nextSequence.toNat + 1 := by
    have hend : c.nextSequence.toNat ≠ 2 ^ 64 - 1 := fun h => hend (hmax.mpr h)
    rw [UInt64.toNat_add, UInt64.toNat_one]
    omega
  simp only [view, Except.toOption, hnext]
  rfl

theorem Web.SendCipher.encrypt_view {c : Web.SendCipher}
    {r : Except Web.Error Bytes × Web.SendCipher × List Sealed}
    (h : c.encrypt A log plaintext = r) :
    c.view.send A log plaintext = (r.1.toOption, r.2.1.view, r.2.2) := by
  rw [Cipher.send]
  rw [encrypt] at h
  split at h
  next hlong =>
    subst h
    exact if_pos (.inl hlong)
  next hlong =>
  split at h
  next hend =>
    subst h
    exact if_pos (.inr hend)
  next hend =>
  have hgoes : ¬ (c.view.maximum < plaintext.length ∨ c.view.next = 2 ^ 64 - 1) :=
    not_or.mpr ⟨hlong, hend⟩
  rw [if_neg hgoes]
  have hcall : A.encrypt log c.view.key (c.view.nonce c.view.next) (c.view.aad c.view.next)
      plaintext = A.encrypt log c.key (makeNonce c.noncePrefix (u64Be c.nextSequence))
        (makeAad c.transcriptHash (u64Be c.nextSequence)) plaintext := by
    rw [u64Be_eq]
    rfl
  rw [hcall]
  dsimp only at h
  split at h
  · subst h
    rfl
  · subst h
    rw [u64Be_eq]
    rfl

theorem Desktop.ReceiveCipher.decrypt_view {c : Desktop.ReceiveCipher}
    {r : Except NetworkError Bytes × Desktop.ReceiveCipher} (h : c.decrypt A log record = r) :
    (c.view.receive A log record).1 = r.1.toOption ∧
      (r.1.toOption = none ∨ c.view.next + 1 < 2 ^ 64 →
        (c.view.receive A log record).2 = r.2.view) := by
  rw [Cipher.receive]
  rw [decrypt] at h
  split at h
  next hshort =>
    subst h
    rw [if_pos (.inl hshort)]
    exact ⟨rfl, fun _ => rfl⟩
  next hshort =>
  split at h
  next hlong =>
    subst h
    rw [if_pos (.inr (.inl hlong))]
    exact ⟨rfl, fun _ => rfl⟩
  next hlong =>
  have hseq : UInt64.ofNat (ofBigEndian (record.take 8)) = c.nextSequence ↔
      ofBigEndian (record.take 8) = c.view.next := by
    have hlt : ofBigEndian (record.take 8) < 256 ^ (record.take 8).length := ofBigEndian_lt
    have hlength : (record.take 8).length = 8 := by
      rw [length_take]
      omega
    rw [hlength] at hlt
    rw [← UInt64.toNat_inj, UInt64.toNat_ofNat_of_lt' hlt]
    rfl
  dsimp only at h
  split at h
  next hne =>
    subst h
    rw [if_pos (.inr (.inr fun heq => hne (hseq.mpr heq)))]
    exact ⟨rfl, fun _ => rfl⟩
  next heq =>
  have heq := not_not.mp heq
  have hgoes : ¬ (record.length < 24 ∨ c.view.maximum + 24 < record.length ∨
      ofBigEndian (record.take 8) ≠ c.view.next) :=
    not_or.mpr ⟨hshort, not_or.mpr ⟨hlong, not_not.mpr (hseq.mp heq)⟩⟩
  rw [if_neg hgoes]
  rw [heq] at h
  have hcall : A.dec log c.view.key (c.view.nonce c.view.next) (c.view.aad c.view.next)
      (record.drop 8) = A.dec log c.cipher (makeNonce c.noncePrefix (toBeBytes c.nextSequence))
        (makeAad c.transcriptHash (toBeBytes c.nextSequence)) (record.drop 8) := rfl
  rw [hcall]
  split at h
  · subst h
    exact ⟨rfl, fun _ => rfl⟩
  subst h
  refine ⟨rfl, fun hroom => ?_⟩
  have hlt : c.nextSequence.toNat + 1 < 2 ^ 64 := hroom.resolve_left (Option.some_ne_none _)
  have hnext : (c.nextSequence + 1).toNat = c.nextSequence.toNat + 1 := by
    rw [UInt64.toNat_add, UInt64.toNat_one]
    omega
  simp only [view, hnext]

theorem Web.ReceiveCipher.decrypt_view {r : Except Web.Error Bytes × Web.ReceiveCipher} (h : c.decrypt A log record = r) :
    c.view.receive A log record = (r.1.toOption, r.2.view) := by
  rw [Cipher.receive]
  rw [decrypt] at h
  split at h
  next hshort =>
    subst h
    exact if_pos (.inl hshort)
  next hshort =>
  split at h
  next hlong =>
    subst h
    exact if_pos (.inr (.inl hlong))
  next hlong =>
  have hlength : (record.take 8).length = 8 := by
    rw [length_take]
    omega
  rw [getUint32_pair hlength] at h
  dsimp only at h
  split at h
  next hne =>
    subst h
    exact if_pos (.inr (.inr hne))
  next heq =>
  have hgoes : ¬ (record.length < 24 ∨ c.view.maximum + 24 < record.length ∨
      ofBigEndian (record.take 8) ≠ c.view.next) :=
    not_or.mpr ⟨hshort, not_or.mpr ⟨hlong, heq⟩⟩
  rw [if_neg hgoes]
  rw [not_not.mp heq, u64Be_eq] at h
  have hcall : A.dec log c.view.key (c.view.nonce c.view.next) (c.view.aad c.view.next)
      (record.drop 8) = A.dec log c.key (makeNonce c.noncePrefix (bigEndian 8 c.nextSequence))
        (makeAad c.transcriptHash (bigEndian 8 c.nextSequence)) (record.drop 8) := rfl
  rw [hcall]
  split at h
  · subst h
    rfl
  · subst h
    rfl

theorem Desktop.ReceiveCipher.decrypt_error {c : Desktop.ReceiveCipher} {e : NetworkError}
    (h : (c.decrypt A log record).1 = .error e) : (c.decrypt A log record).2 = c := by
  rw [decrypt] at h ⊢
  split
  · rfl
  next hshort =>
  rw [if_neg hshort] at h
  split
  · rfl
  next hlong =>
  rw [if_neg hlong] at h
  dsimp only at h ⊢
  split
  · rfl
  next hseq =>
  rw [if_neg hseq] at h
  split
  · rfl
  next hopen =>
  rw [hopen] at h
  cases h

theorem Web.ReceiveCipher.decrypt_error {e : Web.Error}
    (h : (c.decrypt A log record).1 = .error e) : (c.decrypt A log record).2 = c := by
  rw [decrypt] at h ⊢
  split
  · rfl
  next hshort =>
  rw [if_neg hshort] at h
  split
  · rfl
  next hlong =>
  rw [if_neg hlong] at h
  dsimp only at h ⊢
  split
  · rfl
  next hseq =>
  rw [if_neg hseq] at h
  split
  · rfl
  next hopen =>
  rw [hopen] at h
  cases h

/-! ## The keys of a session -/

/-- The ciphers of one end: it sends with the keys that are the other's to receive with. -/
def sessionCiphers (hkdf : Hkdf) (sharedSecret transcriptHash : Bytes) (initiator : Bool)
    (maximum : Nat) : Cipher × Cipher :=
  let material := keyMaterial hkdf sharedSecret transcriptHash
  let ours : Cipher := ⟨initiatorKey material, initiatorPrefix material, transcriptHash, maximum, 0⟩
  let theirs : Cipher := ⟨responderKey material, responderPrefix material, transcriptHash, maximum, 0⟩
  if initiator then (ours, theirs) else (theirs, ours)

variable {hkdf : Hkdf} {sharedSecret transcriptHash : Bytes} {initiator : Bool} {maximum : Nat}

theorem Desktop.deriveSessionCiphers_view :
    let ciphers := Desktop.deriveSessionCiphers hkdf sharedSecret transcriptHash initiator maximum
    (ciphers.1.view, ciphers.2.view) =
      sessionCiphers hkdf sharedSecret transcriptHash initiator maximum := by
  cases initiator <;> rfl

theorem Web.deriveSessionCiphers_view :
    let ciphers := Web.deriveSessionCiphers hkdf sharedSecret transcriptHash initiator maximum
    (ciphers.1.view, ciphers.2.view) =
      sessionCiphers hkdf sharedSecret transcriptHash initiator maximum := by
  cases initiator <;> rfl

/-- The two clients take the same bytes to the same bytes: what is produced and accepted depends
only on the keys, the counter and the plaintext or record. -/
structure ClientsAgree (A : Aead) : Prop where
  encrypt : ∀ (d : Desktop.SendCipher) (w : Web.SendCipher), d.view = w.view → ∀ log plaintext,
    (d.encrypt A log plaintext).1.toOption = (w.encrypt A log plaintext).1.toOption ∧
      (d.encrypt A log plaintext).2.1.view = (w.encrypt A log plaintext).2.1.view
  decrypt : ∀ (d : Desktop.ReceiveCipher) (w : Web.ReceiveCipher), d.view = w.view →
    ∀ log record, (d.decrypt A log record).1.toOption = (w.decrypt A log record).1.toOption

theorem clients_agree (A : Aead) : ClientsAgree A := by
  constructor
  · intro d w h log plaintext
    have hd := Desktop.SendCipher.encrypt_view (rfl : d.encrypt A log plaintext = _)
    rw [h, Web.SendCipher.encrypt_view rfl] at hd
    obtain ⟨hresult, hnext⟩ := Prod.mk.inj hd
    exact ⟨hresult.symm, (Prod.mk.inj hnext).1.symm⟩
  intro d w h log record
  have hd := (Desktop.ReceiveCipher.decrypt_view (rfl : d.decrypt A log record = _)).1
  rw [h, Web.ReceiveCipher.decrypt_view rfl] at hd
  exact hd.symm

end Bluetalk.PeerProtocol
