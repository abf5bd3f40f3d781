import Bluetalk.Calls.VideoDirection
import Bluetalk.Js.Text
import Bluetalk.Theory.Keyed

/-!
# Incoming video

`sanitizeCallVideo` of `callLimits.js`, the reassembler of `videoFragments.js`, and what
`handleVideoPacket` and `pushRemotePacket` do between the two. Instants are milliseconds.
-/

namespace Bluetalk

/-- `Number(x)` of a field, `none` for what is no integer, where texts are decimal. -/
def Json.number? : Option Json → Option Int
  | none | some (.obj _) => none
  | some .null => some 0
  | some (.bool b) => some (if b then 1 else 0)
  | some (.num n) => some n
  | some (.str s) => ofText s
  | some (.arr items) => ofText (Json.arr items).toText
where
  ofText (s : String) : Option Int := if jsTrim s = "" then some 0 else (jsTrim s).toInt?

namespace Calls

def callIdMaxLen : Nat := 128
def callDeviceKeyMaxLen : Nat := 256
def callMaxCodecLen : Nat := 32
def videoFragmentOverhead : Nat := 64
def videoMaxCipherBytes : Nat := videoMaxFragmentBytes + videoFragmentOverhead
/-- `Math.ceil(videoMaxCipherBytes * 4 / 3) + 8` -/
def videoMaxPacketB64 : Nat := (videoMaxCipherBytes * 4 + 2) / 3 + 8
def videoMaxFrags : Nat := 64
def videoMaxOpenFrames : Nat := 8
def videoMaxReassemblyBytes : Nat := 4 * 1024 * 1024
def videoMaxWidth : Int := 3840
def videoMaxHeight : Int := 2160
def videoMaxDescBytes : Nat := 8 * 1024
def videoMaxDescB64 : Nat := (videoMaxDescBytes * 4 + 2) / 3 + 8
def videoReassemblyTtlMs : Int := 1000
def maxSafeInteger : Int := 2 ^ 53 - 1

/-- A message of a peer, as far as it is read; `none` stands for a field that is missing. -/
structure VideoMessage where
  callId : Option Json := none
  stream : Option Json := none
  seq : Option Json := none
  frag : Option Json := none
  frags : Option Json := none
  key : Option Json := none
  ts : Option Json := none
  codec : Option Json := none
  w : Option Json := none
  h : Option Json := none
  data : Option Json := none
  desc : Option Json := none
  fromDevice : Option Json := none

/-- What `sanitizeCallVideo` makes of a message. -/
structure VideoPacket where
  callId : String
  stream : StreamKind
  seq : Nat
  frag : Nat
  frags : Nat
  key : Bool
  data : String
  codec : Option String := none
  w : Option Int := none
  h : Option Int := none
  ts : Option Int := none
  desc : Option Json := none
  fromDevice : Option String := none

def boundedString (value : Option Json) (maxLen : Nat) : String :=
  match value with
  | some (.str s) => if s = "" || utf16Length s > maxLen then "" else s
  | _ => ""

/-- `isSafeSeq`, with the number that it is about. -/
def safeSeq? (seq : Option Json) : Option Nat :=
  match Json.number? seq with
  | some n => if 0 ≤ n && n ≤ maxSafeInteger then some n.toNat else none
  | none => none

/-- `value == null` -/
def isNullish : Option Json → Bool
  | none | some .null => true
  | some _ => false

def fieldText (value : Option Json) : String := (value.getD .null).textOrEmpty

def isAllowedVideoCodec (codec : String) : Bool :=
  let value := codec.toLower
  "vp8".toList.isPrefixOf value.toList || "avc1".toList.isPrefixOf value.toList

def isPlausibleVideoSize (width height : Option Json) : Bool :=
  if isNullish width && isNullish height then true
  else
    match Json.number? width, Json.number? height with
    | some w, some h => 1 ≤ w && 1 ≤ h && w ≤ videoMaxWidth && h ≤ videoMaxHeight
    | _, _ => false

/-- Only a text has a payload, in what comes over the network. -/
def payloadWithin (data : Option Json) (maxB64 : Nat) : Bool :=
  match data with
  | some (.str s) => 0 < utf16Length s && utf16Length s ≤ maxB64
  | _ => false

def descWithin (desc : Option Json) : Bool :=
  match desc with
  | some (.str s) => utf16Length s ≤ videoMaxDescB64
  | _ => true

def sanitizeCallVideo (msg : VideoMessage) : Option VideoPacket :=
  let callId := boundedString msg.callId callIdMaxLen
  match safeSeq? msg.seq with
  | none => none
  | some seq =>
    if callId = "" then none
    else
      match Json.number? msg.frags, Json.number? msg.frag with
      | some frags, some frag =>
        if frags < 1 || frags > videoMaxFrags then none
        else if frag < 0 || frag ≥ frags then none
        else if !payloadWithin msg.data videoMaxPacketB64 then none
        else if !isNullish msg.codec && !isAllowedVideoCodec (fieldText msg.codec) then none
        else if utf16Length (fieldText msg.codec) > callMaxCodecLen then none
        else if !isPlausibleVideoSize msg.w msg.h then none
        else if !descWithin msg.desc then none
        else
          let fromDevice := boundedString msg.fromDevice callDeviceKeyMaxLen
          some {
            callId := callId
            stream := if msg.stream = some (.str "screen") then .screen else .camera
            seq := seq
            frag := frag.toNat
            frags := frags.toNat
            key := msg.key = some (.bool true)
            data := (msg.data.getD .null).toText
            codec := if isNullish msg.codec then none else some (msg.codec.getD .null).toText
            w := Json.number? msg.w
            h := Json.number? msg.h
            ts := Json.number? msg.ts
            desc := if isNullish msg.desc then none else msg.desc
            fromDevice := if fromDevice = "" then none else some fromDevice }
      | _, _ => none

/-- The description of a packet as bytes: `toBytes` makes an empty array of what is none. -/
def descBytes (desc : Option Json) : Option Bytes :=
  match desc with
  | none => none
  | some (.str s) => if s = "" then some [] else base64ToBytes s
  | some _ => some []

/-- What a reassembler is given. -/
structure FragmentMessage where
  stream : StreamKind
  seq : Nat
  frag : Nat
  frags : Nat
  key : Bool
  ts : Option Int
  codec : Option String
  w : Option Int
  h : Option Int
  data : Bytes
  desc : Option Bytes

/-- A frame that was put together again. -/
structure Assembled where
  bytes : Bytes
  key : Bool
  ts : Option Int
  codec : Option String
  w : Option Int
  h : Option Int
  stream : StreamKind
  desc : Option Bytes

def toFragCount (n : Nat) : Nat := if n < 1 || n > videoMaxFrags then 0 else n

def toFragIndex (n frags : Nat) : Option Nat := if n ≥ frags then none else some n

/-- `boundedDesc`; the inner `none` is `null`. -/
def boundedDesc : Option Bytes → Option (Option Bytes)
  | none => some none
  | some bytes =>
    if bytes.length = 0 || bytes.length > videoMaxDescBytes then none else some (some bytes)

def validMeta (msg : FragmentMessage) : Bool :=
  if msg.codec.any fun codec => !isAllowedVideoCodec codec then false
  else if (msg.w.isSome || msg.h.isSome) && !(match msg.w, msg.h with
      | some w, some h => !(w < 1 || h < 1 || w > videoMaxWidth || h > videoMaxHeight)
      | _, _ => false) then false
  else (boundedDesc msg.desc).isSome

/-- A frame some of whose fragments are there. -/
structure PendingFrame where
  stream : StreamKind
  startSeq : Int
  parts : List (Option Bytes)
  got : Nat := 0
  frags : Nat
  createdAt : Int
  key : Bool
  ts : Option Int
  codec : Option String
  w : Option Int
  h : Option Int
  desc : Option Bytes

/-- The key of the map. -/
def PendingFrame.id (e : PendingFrame) : StreamKind × Int := (e.stream, e.startSeq)

def PendingFrame.byteCount (e : PendingFrame) : Nat :=
  (e.parts.map fun part => (part.getD []).length).sum

structure Reassembler where
  pending : List PendingFrame := []

namespace Reassembler

def totalBytes (r : Reassembler) : Nat := (r.pending.map PendingFrame.byteCount).sum

def streamCount (r : Reassembler) (stream : StreamKind) : Nat :=
  r.pending.countP fun e => e.stream = stream

def get (r : Reassembler) (id : StreamKind × Int) : Option PendingFrame :=
  r.pending.find? fun e => e.id = id

def delete (r : Reassembler) (id : StreamKind × Int) : Reassembler :=
  ⟨r.pending.filter fun e => e.id ≠ id⟩

def set (r : Reassembler) (e : PendingFrame) : Reassembler := ⟨put PendingFrame.id e r.pending⟩

def oldest (r : Reassembler) (stream : Option StreamKind) : Option PendingFrame :=
  r.pending.foldl (fun best e =>
    if stream.any fun stream => e.stream ≠ stream then best
    else
      match best with
      | some b => if e.createdAt < b.createdAt then some e else best
      | none => some e) none

/-- Drops the oldest frame while there is one and the condition holds. -/
def dropWhile (cond : Reassembler → Bool) (stream : Option StreamKind) :
    Nat → Reassembler → Reassembler
  | 0, r => r
  | fuel + 1, r =>
    if cond r then
      match r.oldest stream with
      | some e => dropWhile cond stream fuel (r.delete e.id)
      | none => r
    else r

def gc (r : Reassembler) (now : Int) : Reassembler :=
  ⟨r.pending.filter fun e => !(now - e.createdAt > videoReassemblyTtlMs)⟩

/-- Every round drops a frame, so that there are at most as many as there are frames. -/
def ensureBudget (r : Reassembler) (extraBytes : Nat) (stream : StreamKind) : Reassembler × Bool :=
  let r := dropWhile (fun r => r.streamCount stream ≥ videoMaxOpenFrames) (some stream)
    r.pending.length r
  let r := dropWhile (fun r => r.totalBytes + extraBytes > videoMaxReassemblyBytes) none
    r.pending.length r
  (r, r.totalBytes + extraBytes ≤ videoMaxReassemblyBytes)

/-- The frame that a fragment belongs to, which is begun if it is not there. -/
def entryFor (r : Reassembler) (msg : FragmentMessage) (now : Int) :
    Reassembler × Option PendingFrame :=
  let startSeq : Int := msg.seq - msg.frag
  match (r.get (msg.stream, startSeq)).filter fun e => e.frags = msg.frags with
  | some e => (r, some e)
  | none =>
    match r.ensureBudget msg.data.length msg.stream with
    | (r, false) => (r, none)
    | (r, true) =>
      let e : PendingFrame := {
        stream := msg.stream, startSeq := startSeq, parts := List.replicate msg.frags none
        frags := msg.frags, createdAt := now, key := msg.key, ts := msg.ts, codec := msg.codec
        w := msg.w, h := msg.h, desc := (boundedDesc msg.desc).join }
      (r.set e, some e)

/-- The fragment takes its place in its frame. -/
def addPart (e : PendingFrame) (msg : FragmentMessage) : PendingFrame :=
  { e with
    got := if ((e.parts[msg.frag]?).join).isNone then e.got + 1 else e.got
    parts := e.parts.set msg.frag (some msg.data)
    key := e.key || msg.key
    desc := match (boundedDesc msg.desc).join with
      | some desc => some desc
      | none => e.desc }

def complete (e : PendingFrame) : Option Assembled :=
  if e.parts.all Option.isSome then
    some {
      bytes := (e.parts.map fun part => part.getD []).flatten
      key := e.key, ts := e.ts, codec := e.codec, w := e.w, h := e.h, stream := e.stream
      desc := e.desc }
  else none

def push (r : Reassembler) (msg : FragmentMessage) (now : Int) : Reassembler × Option Assembled :=
  let r := r.gc now
  let frags := toFragCount msg.frags
  if frags = 0 then (r, none)
  else if (toFragIndex msg.frag frags).isNone then (r, none)
  else if !validMeta msg then (r, none)
  else if msg.data.length = 0 || msg.data.length > videoMaxFragmentBytes then (r, none)
  else if frags = 1 then
    (r, some {
      bytes := msg.data, key := msg.key, ts := msg.ts, codec := msg.codec, w := msg.w, h := msg.h
      stream := msg.stream, desc := msg.desc })
  else
    match r.entryFor msg now with
    | (r, none) => (r, none)
    | (r, some e) =>
      let previous := ((e.parts[msg.frag]?).join.getD []).length
      if msg.data.length > previous &&
          r.totalBytes + (msg.data.length - previous) > videoMaxReassemblyBytes then (r, none)
      else
        let e := addPart e msg
        if e.got < e.frags then (r.set e, none) else (r.delete e.id, complete e)

end Reassembler

/-- `handleVideoPacket` and `pushRemotePacket` of an active call, up to the reassembler. -/
def pushRemotePacket (C : CallCipher) (role : Role) (r : Reassembler) (packet : VideoPacket)
    (now : Int) : Reassembler × Option Assembled :=
  let ivDir := callVideoIvDirection packet.stream role false
  match decryptCallPayload C packet.data ivDir packet.seq with
  | none => (r, none)
  | some plain =>
    if plain.length > videoMaxFragmentBytes then (r, none)
    else
      r.push {
        stream := packet.stream, seq := packet.seq, frag := packet.frag, frags := packet.frags
        key := packet.key, ts := packet.ts, codec := packet.codec, w := packet.w, h := packet.h
        data := plain, desc := descBytes packet.desc } now

end Calls
end Bluetalk
