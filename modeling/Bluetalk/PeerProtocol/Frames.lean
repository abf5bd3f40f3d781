import Bluetalk.PeerProtocol.Records
import Bluetalk.Theory.Framing
import Bluetalk.Theory.Run

/-!
# The stream of a connection

`frames.js` and `createStreamTransport` of the web client, `read_prefixed` and `write_prefixed` of
the desktop. The web client is pushed chunks of a stream while the handshake and then the session
read one frame after the other from the same transport, each with a limit of its own; between two
reads they do other things. The desktop reads from a stream that gives it as many bytes as it asks
for, or ends.
-/

namespace Bluetalk.PeerProtocol

def maxHandshakeBytes : Nat := 64 * 1024

/-- The limits of what an end reads: a hello, and then records. -/
def readLimit (maxFrameBytes : Nat) : Nat → Nat
  | 0 => maxHandshakeBytes
  | _ + 1 => maxFrameBytes + 8 + 16

/-! ## The web client -/

namespace Web

def u32Be (value : Nat) : Bytes := setUint32 value
def readU32Be (bytes : Bytes) : Nat := getUint32 bytes 0

def frameTooLarge (length maximum : Nat) : Error := .thrown s!"frame too large: {length} > {maximum}"

def encodePrefixed (bytes : Bytes) (maximum : Nat) : Except Error Bytes :=
  if bytes.length > maximum || bytes.length > 0xffffffff then
    .error (frameTooLarge bytes.length maximum)
  else .ok (u32Be bytes.length ++ bytes)

/-- The first frame of a buffer, and what is behind it. -/
def tryReadPrefixed (buffer : Bytes) (maximum : Nat) : Except Error (Option (Bytes × Bytes)) :=
  if buffer.length < 4 then .ok none
  else
    let length := readU32Be buffer
    if length > maximum then .error (frameTooLarge length maximum)
    else if buffer.length < 4 + length then .ok none
    else .ok (some ((buffer.drop 4).take length, buffer.drop (4 + length)))

structure ByteAssembler where
  buffer : Bytes := []

namespace ByteAssembler

def push (assembler : ByteAssembler) (chunk : Bytes) : ByteAssembler :=
  if chunk.length = 0 then assembler else ⟨assembler.buffer ++ chunk⟩

def nextFrame (assembler : ByteAssembler) (maximum : Nat) :
    Except Error (Option (Bytes × ByteAssembler)) :=
  match tryReadPrefixed assembler.buffer maximum with
  | .error e => .error e
  | .ok none => .ok none
  | .ok (some (frame, rest)) => .ok (some (frame, ⟨rest⟩))

end ByteAssembler

/-- `createStreamTransport`; a waiter is known by its maximum. -/
structure Transport where
  assembler : ByteAssembler := {}
  pending : List Nat := []
  failed : Option Error := none
  closed : Bool := false

/-- How a waiter is settled. -/
abbrev Settled := Except Error Bytes

namespace Transport

/-- Waiters are served as far as the buffer reaches. -/
def serve (assembler : ByteAssembler) : List Nat → ByteAssembler × List Nat × List Settled
  | [] => (assembler, [], [])
  | maximum :: pending =>
    match assembler.nextFrame maximum with
    | .ok none => (assembler, maximum :: pending, [])
    | .ok (some (frame, assembler)) =>
      let (assembler, pending, settled) := serve assembler pending
      (assembler, pending, .ok frame :: settled)
    | .error e =>
      let (assembler, pending, settled) := serve assembler pending
      (assembler, pending, .error e :: settled)

def push (t : Transport) (chunk : Bytes) : Transport × List Settled :=
  let (assembler, pending, settled) := serve (t.assembler.push chunk) t.pending
  ({ t with assembler := assembler, pending := pending }, settled)

/-- Reads at once, or leaves a waiter. -/
def readPrefixed (t : Transport) (maximum : Nat) : Transport × Option Settled :=
  match t.assembler.nextFrame maximum with
  | .error e => (t, some (.error e))
  | .ok (some (frame, assembler)) => ({ t with assembler := assembler }, some (.ok frame))
  | .ok none =>
    match t.failed with
    | some e => (t, some (.error e))
    | none =>
      if t.closed then (t, some (.error (.thrown "connection closed")))
      else ({ t with pending := t.pending ++ [maximum] }, none)

def settle (t : Transport) : Transport × List Settled :=
  match t.failed with
  | some e => ({ t with pending := [] }, t.pending.map fun _ => .error e)
  | none =>
    if t.closed && t.assembler.buffer.length = 0 then
      ({ t with pending := [] }, t.pending.map fun _ => .error (.thrown "connection closed"))
    else (t, [])

def fail (t : Transport) (e : Error) : Transport × List Settled :=
  { t with failed := some e }.settle

def close (t : Transport) : Transport × List Settled := { t with closed := true }.settle

end Transport

/-- Where the reader is. -/
inductive ReadPhase
  /-- it is not reading -/
  | idle
  | waiting
  /-- its turn comes, with what it read -/
  | due (result : Settled)
  | stopped (e : Error)

/-- The handshake and the session that follows it, as they read. -/
structure Reader where
  transport : Transport := {}
  phase : ReadPhase := .idle
  delivered : List Bytes := []
  /-- all bytes that were pushed -/
  pushed : Bytes := []

inductive ReaderAction
  | push (chunk : Bytes)
  /-- the reader calls `readPrefixed` -/
  | call
  /-- the reader goes on with what it read -/
  | resume
  | fail (e : Error)
  | close

namespace Reader

/-- A reader that waits goes on with what its waiter was settled with. -/
def wake (s : Reader) (r : Transport × List Settled) : Reader :=
  { s with
    transport := r.1
    phase := match s.phase, r.2 with
      | .waiting, result :: _ => .due result
      | phase, _ => phase }

/-- The frames are read with one limit after the other. -/
def step (limit : Nat → Nat) (s : Reader) : ReaderAction → Option Reader
  | .push chunk => some { s.wake (s.transport.push chunk) with pushed := s.pushed ++ chunk }
  | .call =>
    match s.phase with
    | .idle =>
      let (transport, result) := s.transport.readPrefixed (limit s.delivered.length)
      some { s with
        transport := transport
        phase := match result with
          | some result => .due result
          | none => .waiting }
    | _ => none
  | .resume =>
    match s.phase with
    | .due (.ok frame) => some { s with phase := .idle, delivered := s.delivered ++ [frame] }
    | .due (.error e) => some { s with phase := .stopped e }
    | _ => none
  | .fail e => some (s.wake (s.transport.fail e))
  | .close => some (s.wake s.transport.close)

def isOpen (s : Reader) : Bool := s.transport.failed.isNone && !s.transport.closed

/-- There is nothing to do for the reader. -/
def atRest (s : Reader) : Bool :=
  match s.phase with
  | .waiting | .stopped _ => true
  | .idle | .due _ => false

/-- What was taken off the stream. -/
def taken (s : Reader) : List Bytes :=
  match s.phase with
  | .due (.ok frame) => s.delivered ++ [frame]
  | .idle | .waiting | .due (.error _) | .stopped _ => s.delivered

end Reader
end Web

/-! ## The desktop -/

namespace Desktop

def writePrefixed (bytes : Bytes) (maximum : Nat) : Except NetworkError Bytes :=
  if maximum < bytes.length || 0xffffffff < bytes.length then
    .error (.frameTooLarge bytes.length maximum)
  else .ok (bigEndian 4 bytes.length ++ bytes)

/-- `read_exact`, with what is left of the stream. -/
def readExact (stream : Bytes) (n : Nat) : Option (Bytes × Bytes) :=
  if stream.length < n then none else some (stream.take n, stream.drop n)

def readPrefixed (stream : Bytes) (maximum : Nat) : Except NetworkError (Bytes × Bytes) :=
  match readExact stream 4 with
  | none => .error .closed
  | some (header, stream) =>
    let length := ofBigEndian header
    if maximum < length then .error (.frameTooLarge length maximum)
    else
      match readExact stream length with
      | none => .error .closed
      | some (bytes, rest) => .ok (bytes, rest)

theorem readPrefixed_eq (stream : Bytes) (maximum : Nat) : readPrefixed stream maximum =
    match unframe maximum stream with
    | .incomplete => .error .closed
    | .oversized length => .error (.frameTooLarge length maximum)
    | .frame bytes rest => .ok (bytes, rest) := by
  rw [readPrefixed, readExact, unframe]
  by_cases hshort : stream.length < 4
  · rw [if_pos hshort, if_pos hshort]
  rw [if_neg hshort, if_neg hshort]
  dsimp only
  by_cases hmax : maximum < ofBigEndian (stream.take 4)
  · rw [if_pos hmax, if_pos hmax]
  rw [if_neg hmax, if_neg hmax, readExact, List.length_drop]
  by_cases hlong : stream.length < 4 + ofBigEndian (stream.take 4)
  · rw [if_pos hlong, if_pos (by omega)]
  · rw [if_neg hlong, if_neg (by omega), List.drop_drop]

/-- Reads until there is an error. -/
def readAll (limit : Nat → Nat) (n : Nat) (stream : Bytes) : List Bytes × NetworkError :=
  match h : readPrefixed stream (limit n) with
  | .error e => ([], e)
  | .ok (bytes, rest) =>
    have : rest.length < stream.length := by
      rw [readPrefixed_eq] at h
      split at h
      · cases h
      · cases h
      next hframe =>
      cases h
      exact length_lt_of_unframe hframe
    let (frames, e) := readAll limit (n + 1) rest
    (bytes :: frames, e)
termination_by stream.length

variable {limit : Nat → Nat} {n : Nat} {stream bytes rest : Bytes}

theorem readAll_error {e : NetworkError} (h : readPrefixed stream (limit n) = .error e) :
    readAll limit n stream = ([], e) := by
  rw [readAll]
  split
  next heq =>
    cases h.symm.trans heq
    rfl
  next heq => cases h.symm.trans heq

theorem readAll_ok (h : readPrefixed stream (limit n) = .ok (bytes, rest)) :
    readAll limit n stream =
      (bytes :: (readAll limit (n + 1) rest).1, (readAll limit (n + 1) rest).2) := by
  rw [readAll]
  split
  next heq => cases h.symm.trans heq
  next heq =>
  cases h.symm.trans heq
  rfl

theorem readAll_eq (n : Nat) (stream : Bytes) : readAll limit n stream =
    ((unframeAll limit n stream).1, match (unframeAll limit n stream).2 with
      | none => .closed
      | some length =>
        .frameTooLarge length (limit (n + (unframeAll limit n stream).1.length))) := by
  have hread := readPrefixed_eq stream (limit n)
  cases hstart : unframe (limit n) stream with
  | incomplete =>
    rw [hstart] at hread
    rw [readAll_error hread, unframeAll_incomplete hstart]
  | oversized length =>
    rw [hstart] at hread
    rw [readAll_error hread, unframeAll_oversized hstart]
    rfl
  | frame bytes rest =>
    rw [hstart] at hread
    have hlt := length_lt_of_unframe hstart
    rw [readAll_ok hread, unframeAll_frame hstart, readAll_eq (n + 1) rest, List.length_cons,
      Nat.add_right_comm n 1, Nat.add_assoc n]
termination_by stream.length

end Desktop
end Bluetalk.PeerProtocol
