import Bluetalk.Calls.VideoFragments
import Bluetalk.Theory.Run

/-!
# A stream of video

One direction of a call from `handleEncoded` on one side to the reassembler on the other. The frames
that the encoder hands out may be encrypted side by side, the encryptions come out in any order, and
so do the packets arrive and get decrypted.
-/

namespace Bluetalk.Calls

def Role.other : Role → Role
  | .caller => .callee
  | .callee => .caller

inductive VideoCodec
  | vp8
  | avc1

def VideoCodec.name : VideoCodec → String
  | .vp8 => "vp8"
  | .avc1 => "avc1"

def StreamKind.name : StreamKind → String
  | .camera => "camera"
  | .screen => "screen"

/-- `evenDim` of a number that is rounded. -/
def evenDim (rounded max : Int) : Int :=
  let n := Max.max 2 (Min.min max rounded)
  n - n % 2

/-- What a direction of a call is created with. -/
structure VideoCall where
  callId : String
  callId_ok : callId ≠ "" ∧ utf16Length callId ≤ callIdMaxLen
  kind : StreamKind
  role : Role
  codec : Option VideoCodec
  /-- the size of the track, scaled and rounded -/
  scaled : Int × Int

namespace VideoCall

def width (c : VideoCall) : Int :=
  evenDim c.scaled.1 (if c.kind = .screen then 1280 else 640)

def height (c : VideoCall) : Int :=
  evenDim c.scaled.2 (if c.kind = .screen then 720 else 360)

def codecName (c : VideoCall) : String := (c.codec.getD .vp8).name

/-- The message that `sendVideoFragment` makes of a fragment. -/
def message (c : VideoCall) (C : CallCipher) (call : EncodeCall) : VideoMessage where
  callId := some (.str c.callId)
  stream := some (.str c.kind.name)
  seq := some (.num call.fragmentSeq)
  frag := some (.num call.i)
  frags := some (.num call.parts.length)
  key := some (.bool call.chunk.key)
  ts := some (.num call.chunk.timestamp)
  codec := some (.str c.codecName)
  w := some (.num c.width)
  h := some (.num c.height)
  data := some (.str (encryptCallPayload C call.part (callVideoIvDirection c.kind c.role true)
    call.fragmentSeq))
  desc := if call.i = 0 then call.chunk.description.map fun desc => .str (bytesToBase64 desc)
    else none

/-- A frame as the reassembler gives it out. -/
def original (c : VideoCall) (chunk : EncodedChunk) : Assembled where
  bytes := chunk.bytes
  key := chunk.key
  ts := some chunk.timestamp
  codec := some c.codecName
  w := some c.width
  h := some c.height
  stream := c.kind
  desc := chunk.description

end VideoCall

/-- A packet that was sent, with what it was made of. -/
structure Sent where
  call : EncodeCall
  message : VideoMessage

namespace Sent

def frame (x : Sent) : Nat := x.call.frame
def frag (x : Sent) : Nat := x.call.i
def seq (x : Sent) : Nat := x.call.fragmentSeq

end Sent

structure VideoStream where
  sender : VideoDirection
  /-- the frames that `handleEncoded` was called with -/
  frames : List EncodedChunk := []
  sent : List Sent := []
  inFlight : List Sent := []
  delivered : List Sent := []
  reassembler : Reassembler := {}
  output : List Assembled := []

inductive StreamAction
  | encoded (chunk : EncodedChunk)
  /-- the encryption that the `j`-th frame on its way awaits comes out -/
  | encrypted (j : Nat)
  /-- the `k`-th packet under way arrives and is decrypted at an instant -/
  | deliver (k : Nat) (now : Int)

namespace VideoStream

def start (c : VideoCall) : VideoStream where
  sender := { kind := c.kind, role := c.role }

def step (C : CallCipher) (c : VideoCall) (s : VideoStream) : StreamAction → Option VideoStream
  | .encoded chunk =>
    some { s with
      sender := (s.sender.handleEncoded true chunk).1, frames := s.frames ++ [chunk] }
  | .encrypted j =>
    match s.sender.resumeEncoded true j true with
    | none => none
    | some r =>
      let packets := r.sent.toList.map fun call => (⟨call, c.message C call⟩ : Sent)
      some { s with
        sender := r.direction, sent := s.sent ++ packets, inFlight := s.inFlight ++ packets }
  | .deliver k now =>
    match s.inFlight[k]? with
    | none => none
    | some x =>
      let s := { s with inFlight := s.inFlight.eraseIdx k, delivered := s.delivered ++ [x] }
      match sanitizeCallVideo x.message with
      | none => some s
      | some packet =>
        let (r, assembled) := pushRemotePacket C c.role.other s.reassembler packet now
        some { s with reassembler := r, output := s.output ++ assembled.toList }

/-- What a frame may be: not empty, and no longer than its fragments can be; the description of a
configuration fits the receiver's bound. -/
def isFrame (chunk : EncodedChunk) : Bool :=
  0 < chunk.bytes.length && chunk.bytes.length ≤ videoMaxFrags * videoMaxFragmentBytes &&
    chunk.description.all fun desc => 0 < desc.length && desc.length ≤ videoMaxDescBytes

/-- Whether a reassembler takes a fragment in without dropping anything. -/
def hasRoom (r : Reassembler) (x : Sent) (kind : StreamKind) (now : Int) : Bool :=
  r.pending.all (fun e => now - e.createdAt ≤ videoReassemblyTtlMs) &&
    (x.call.parts.length = 1 ||
      r.totalBytes + x.call.part.length ≤ videoMaxReassemblyBytes &&
        ((r.get (kind, (x.seq : Int) - x.frag)).isSome || r.streamCount kind < videoMaxOpenFrames))

/-- Only frames are handed in. -/
def onlyFrames (_ : VideoStream) : StreamAction → Bool
  | .encoded chunk => isFrame chunk
  | .encrypted _ | .deliver .. => true

/-- A frame is handed in when the last fragments of those before it have their numbers, and while the
numbers last; and a packet arrives when the receiver has room for it. -/
def unbroken (c : VideoCall) (s : VideoStream) : StreamAction → Bool
  | .encoded chunk =>
    isFrame chunk && s.sender.calls.all (fun call => call.i + 1 = call.parts.length) &&
      s.sender.seq + (splitVideoFrame chunk.bytes).length ≤ 2 ^ 53
  | .encrypted _ => true
  | .deliver k now => s.inFlight[k]?.all fun x => hasRoom s.reassembler x c.kind now

/-- The number of a fragment and its place tell which frame it belongs to, every packet passes, and
the receiver puts together the frames that were handed in, each of them once. -/
structure Whole (c : VideoCall) (s : VideoStream) : Prop where
  numbered : ∀ x ∈ s.sent, ∀ y ∈ s.sent,
    x.frame = y.frame ↔ (x.seq : Int) - x.frag = (y.seq : Int) - y.frag
  accepted : ∀ x ∈ s.sent, ∃ packet, sanitizeCallVideo x.message = some packet ∧
    packet.stream = c.kind ∧ packet.seq = x.seq ∧ packet.frag = x.frag
  output : ∃ done : List Nat, done.Nodup ∧
    s.output = done.filterMap fun i => s.frames[i]?.map c.original
  /-- when all is encrypted, every frame has been sent in its fragments -/
  fragments : s.sender.calls = [] → ∀ i chunk, s.frames[i]? = some chunk →
    ((s.sent.filter fun x => x.frame = i).map Sent.frag).Perm
      (List.range (splitVideoFrame chunk.bytes).length)
  /-- when all has arrived, every frame has come out -/
  complete : s.sender.calls = [] → s.inFlight = [] → s.output.Perm (s.frames.map c.original)

end VideoStream
end Bluetalk.Calls
