import Bluetalk.Calls.CallManager
import Bluetalk.Calls.VideoFragments
import Bluetalk.Js.CodeUnits

/-!
# Calls and their devices

`callDevices.js`: the offer goes to every device of a peer, and the call is bound to the one that
accepts it. A device key that is missing is `none`; where the code asks whether there is one, an
empty text counts as none.
-/

open List

namespace Bluetalk.Calls

/-- `Boolean(x)` of a text that may be missing. -/
def isText (x : Option String) : Bool := x.any (· ≠ "")

/-- `x || null` -/
def textOrNull (x : Option String) : Option String := if isText x then x else none

def addDevice (out : List String) (id : Option String) : List String :=
  let key := jsTrim (id.getD "")
  if key ≠ "" && !out.contains key then out ++ [key] else out

def uniqueDevices (list : List (Option String)) : List String := list.foldl addDevice []

/-- A bound call drops the messages of other devices; old clients without a device pass. -/
def shouldDropBoundMessage (remoteDevice fromDevice : Option String) : Bool :=
  if !isText remoteDevice then false
  else if !isText fromDevice then false
  else fromDevice ≠ remoteDevice

/-- What a `busy` of a device makes of the devices that ring and of those that are busy. -/
structure BusyResult where
  ringing : List String
  busy : List String
  endBusy : Bool

def applyRemoteBusy (ringingDevices busyDevices : List String) (fromDevice : Option String) :
    BusyResult :=
  let ringing := uniqueDevices (ringingDevices.map some)
  if !isText fromDevice then ⟨ringing, uniqueDevices (busyDevices.map some), true⟩
  else
    let busy := uniqueDevices (busyDevices.map some ++ [fromDevice])
    let waiting := ringing.filter fun id => !busy.contains id
    ⟨ringing, busy, 0 < ringing.length && waiting.length = 0⟩

def devicesToCancel (ringingDevices : List String) (exceptDevice : Option String) : List String :=
  (uniqueDevices (ringingDevices.map some)).filter fun id => some id ≠ exceptDevice

def isAnsweredElsewhere (reason : Option String) : Bool := reason = some "answered-elsewhere"

variable {x y : Option String} {list : List (Option String)} {out : List String} {id : String}

@[simp] theorem isText_none : isText none = false := rfl

@[simp] theorem isText_some : isText (some id) = decide (id ≠ "") := rfl

theorem textOrNull_of_isText (h : isText x) : textOrNull x = x := if_pos h

@[simp] theorem isText_textOrNull : isText (textOrNull x) = isText x := by
  rw [textOrNull]
  split
  · rfl
  next h => simpa using h

theorem mem_addDevice :
    id ∈ addDevice out x ↔ id ∈ out ∨ id = jsTrim (x.getD "") ∧ jsTrim (x.getD "") ≠ "" := by
  rw [addDevice]
  split
  next h =>
    simp only [Bool.and_eq_true, decide_eq_true_eq] at h
    simp [mem_append, h.1]
  next h =>
  simp only [Bool.and_eq_true, decide_eq_true_eq, Bool.not_eq_true', contains_eq_mem,
    decide_eq_false_iff_not, not_and, not_not] at h
  constructor
  · exact .inl
  · rintro (hmem | ⟨rfl, hne⟩)
    · exact hmem
    · exact h hne

theorem mem_foldl_addDevice : id ∈ list.foldl addDevice out ↔
    id ∈ out ∨ ∃ x ∈ list, id = jsTrim (x.getD "") ∧ jsTrim (x.getD "") ≠ "" := by
  induction list generalizing out with
  | nil => simp
  | cons x list ih =>
    rw [foldl_cons, ih, mem_addDevice, exists_mem_cons_iff, or_assoc]

theorem mem_uniqueDevices :
    id ∈ uniqueDevices list ↔ ∃ x ∈ list, id = jsTrim (x.getD "") ∧ jsTrim (x.getD "") ≠ "" := by
  rw [uniqueDevices, mem_foldl_addDevice]
  simp

end Bluetalk.Calls

/-!
## The state machine of a call

`reduceCall` of `callState.js`. It makes of a state and an event the next state, and says what the
manager has to do: send, ring, log, start and stop media. The time of an event is the one that it
carries, or that of the clock where it carries none.
-/

namespace Bluetalk.Calls

/-- `{ video, screen }`; a missing `screen` counts as `true`. -/
structure Capabilities where
  video : List String := []
  screen : Bool := false
  deriving DecidableEq

def videoCodecVp8 : String := "vp8"
def videoCodecAvc1 : String := "avc1"

/-- `value.toLowerCase().startsWith(name)` -/
def hasPrefix (name value : String) : Bool := name.toList.isPrefixOf value.toLower.toList

def addCapability (out : List String) (value : String) : List String :=
  if hasPrefix videoCodecVp8 value && !out.contains videoCodecVp8 then out ++ [videoCodecVp8]
  else if hasPrefix videoCodecAvc1 value && !out.contains videoCodecAvc1 then
    out ++ [videoCodecAvc1]
  else out

def normalizeCapabilityList (list : List String) : List String := list.foldl addCapability []

def pickVideoCodec (localList remoteList : List String) : Option String :=
  let has (list : List String) (name : String) : Bool := list.any (hasPrefix name)
  if has localList videoCodecVp8 && has remoteList videoCodecVp8 then some videoCodecVp8
  else if has localList videoCodecAvc1 && has remoteList videoCodecAvc1 then some videoCodecAvc1
  else none

def peerSupportsVideo (capabilities : Capabilities) : Bool :=
  0 < (normalizeCapabilityList capabilities.video).length

def ringTimeoutMs : Int := 45000
def callWatchdogMs : Int := 15000
def callOfferMaxAgeMs : Int := 60000

/-- `createIdleCallState()`, as long as nothing is said of a field. -/
structure CallState where
  phase : CallPhase := .idle
  callId : Option String := none
  peerId : Option String := none
  role : Option Role := none
  callKeyB64 : String := ""
  codecs : List String := ["opus", "pcm16"]
  codec : Option String := none
  muted : Bool := false
  ringingAt : Int := 0
  connectedAt : Int := 0
  rttMs : Option Int := none
  lastHeardAt : Int := 0
  peerRinging : Bool := false
  remoteDevice : Option String := none
  ringingDevices : List String := []
  busyDevices : List String := []
  /-- `media.video` -/
  mediaVideo : Bool := false
  capabilities : Capabilities := {}
  remoteCapabilities : Capabilities := {}
  videoCodec : Option String := none
  localCamera : Bool := false
  localScreen : Bool := false
  remoteCamera : Bool := false
  remoteScreen : Bool := false
  hadVideo : Bool := false

def createIdleCallState : CallState := {}

inductive SignalOp
  | ringing
  | accept
  | reject
  | busy
  | cancel
  | endCall
  | videoOn
  | videoOff
  | screenOn
  | screenOff
  | keyframe
  | ping
  | pong
  deriving DecidableEq

inductive CallOutcome
  | completed
  | missed
  | rejected
  | busy
  | failed

/-- What a call is remembered by. -/
structure CallLogEntry where
  peerId : Option String
  /-- `direction` is `out` -/
  outgoing : Bool
  outcome : CallOutcome
  durationMs : Int
  video : Bool

structure SignalEffect where
  op : SignalOp
  peerId : Option String
  callId : Option String
  deviceKey : Option String := none
  codec : Option String := none
  stream : Option StreamKind := none

namespace CallState

/-- What every event may carry. -/
structure Base where
  peerId : Option String := none
  callId : Option String := none
  fromDevice : Option String := none
  now : Int := 0

inductive Event
  | localStart (base : Base) (callKeyB64 : String) (codecs : Option (List String)) (video : Bool)
      (capabilities : Capabilities)
  | remoteOffer (base : Base) (callKeyB64 : String) (codecs : List String)
      (timestamp : Option Int) (video : Bool) (capabilities : Capabilities) (blocked : Bool)
  | remoteRinging (base : Base) (capabilities : Option Capabilities)
  | localAccept (base : Base) (codec : Option String) (camera : Bool)
      (localVideoCodecs : Option (List String)) (capabilities : Option Capabilities)
  | remoteAccept (base : Base) (codec : Option String) (capabilities : Option Capabilities)
  | localReject (base : Base)
  | remoteReject (base : Base)
  | localCancel (base : Base)
  | remoteCancel (base : Base) (reason : Option String)
  | localEnd (base : Base)
  | remoteEnd (base : Base)
  | remoteBusy (base : Base)
  | offerFailed (base : Base)
  | ringTimeout (base : Base)
  | connectionLost (base : Base)
  | toggleMute
  | localMedia (kind : StreamKind) (base : Base) (on : Bool)
  | remoteMedia (kind : StreamKind) (base : Base) (on : Bool)
  | localKeyframe (base : Base) (stream : StreamKind)
  | pong (base : Base) (t : Option Int)
  | heard (base : Base)
  /-- any other type -/
  | unknown

inductive Effect
  | sendOffer
  | sendSignal (signal : SignalEffect)
  | cancelOtherDevices (peerId callId exceptDevice : Option String) (ringingDevices : List String)
  | armRingTimeout
  | armWatchdog
  | startPing
  | clearTimers
  | startRingtone
  | startRingback
  | stopRingtone
  | startMedia
  | stopMedia
  | startVideo (kind : StreamKind)
  | stopVideo (kind : StreamKind)
  | applyMute
  | notifyIncoming
  | callLog (entry : CallLogEntry)
  | toast (message : String)

def isStaleCallOffer (timestamp : Option Int) (now : Int) : Bool :=
  match timestamp with
  | none => false
  | some ts => if ts ≤ 0 then false else now - ts > callOfferMaxAgeMs

def ignore (s : CallState) : CallState × List Effect := (s, [])

def idleWith (effects : List Effect) : CallState × List Effect := (createIdleCallState, effects)

/-- An event that names no call is about the current one. -/
def sameCall (s : CallState) (b : Base) : Bool :=
  if s.phase = .idle then false
  else if isText b.callId && b.callId ≠ s.callId then false
  else if isText b.peerId && b.peerId ≠ s.peerId then false
  else true

def offerCodecs (codecs : List String) : List String :=
  if codecs.length = 0 then ["opus", "pcm16"] else codecs

def offerCapabilities (caps : Capabilities) : Capabilities :=
  let video := normalizeCapabilityList caps.video
  { video := video, screen := caps.screen && 0 < video.length }

/-- A signal that ends a call carries its peer, its id and its device, since the manager goes idle
before it sends. -/
def signalEffect (s : CallState) (op : SignalOp) (codec : Option String := none)
    (stream : Option StreamKind := none) : Effect :=
  .sendSignal {
    op := op, peerId := s.peerId, callId := s.callId, deviceKey := textOrNull s.remoteDevice
    codec := textOrNull codec, stream := stream }

def callHasVideo (s : CallState) : Bool :=
  s.localCamera || s.localScreen || s.remoteCamera || s.remoteScreen

/-- `state.role === 'caller'` -/
def isCaller (s : CallState) : Bool := s.role = some .caller

def callLogEffect (s : CallState) (outcome : CallOutcome) (now : Int) : Effect :=
  .callLog {
    peerId := s.peerId, outgoing := s.isCaller, outcome := outcome
    durationMs := if s.connectedAt = 0 then 0 else max 0 (now - s.connectedAt)
    video := s.hadVideo || s.callHasVideo }

def reduceLocalStart (s : CallState) (b : Base) (callKeyB64 : String)
    (codecs : Option (List String)) (video : Bool) (capabilities : Capabilities) :
    CallState × List Effect :=
  if s.phase ≠ .idle then (s, [])
  else
    ({ createIdleCallState with
        phase := .outgoing, callId := b.callId, peerId := b.peerId, role := some .caller
        callKeyB64 := callKeyB64, codecs := codecs.getD ["opus", "pcm16"], ringingAt := b.now
        lastHeardAt := b.now, mediaVideo := video
        capabilities := offerCapabilities capabilities },
      [.sendOffer, .startRingback, .armRingTimeout])

def beginIncoming (b : Base) (callKeyB64 : String) (codecs : List String) (video : Bool)
    (capabilities : Capabilities) : CallState × List Effect :=
  let remoteDevice := textOrNull b.fromDevice
  ({ createIdleCallState with
      phase := .incoming, callId := b.callId, peerId := b.peerId, role := some .callee
      callKeyB64 := callKeyB64, codecs := offerCodecs codecs, ringingAt := b.now
      lastHeardAt := b.now, mediaVideo := video
      remoteCapabilities := offerCapabilities capabilities, remoteDevice := remoteDevice },
    [signalEffect { peerId := b.peerId, callId := b.callId, remoteDevice := remoteDevice } .ringing,
      .armRingTimeout, .notifyIncoming, .startRingtone])

/-- Both call each other at once: the offer with the smaller id wins, and the side that loses turns
to it without accepting. -/
def reduceGlare (s : CallState) (b : Base) (incoming : CallState × List Effect) :
    CallState × List Effect :=
  let incomingId := b.callId.getD ""
  let outgoingId := s.callId.getD ""
  if incomingId = "" || outgoingId = "" || incomingId = outgoingId then s.ignore
  else if jsLt outgoingId incomingId then s.ignore
  else (incoming.1, [s.signalEffect .cancel, .stopRingtone] ++ incoming.2)

/-- `signalEffect(state, 'busy', { peerId, callId, deviceKey })` -/
def busySignal (s : CallState) (b : Base) : Effect :=
  .sendSignal {
    op := .busy, peerId := b.peerId.or s.peerId, callId := b.callId.or s.callId
    deviceKey := textOrNull b.fromDevice }

def reduceRemoteOffer (s : CallState) (b : Base) (callKeyB64 : String) (codecs : List String)
    (timestamp : Option Int) (video : Bool) (capabilities : Capabilities) (blocked : Bool) :
    CallState × List Effect :=
  if blocked then s.ignore
  else if isStaleCallOffer timestamp b.now then s.ignore
  else if s.phase = .outgoing ∧ b.peerId = s.peerId then
    s.reduceGlare b (beginIncoming b callKeyB64 codecs video capabilities)
  else if s.phase ≠ .idle then (s, [s.busySignal b])
  else beginIncoming b callKeyB64 codecs video capabilities

/-- `event.capabilities ? offerCapabilities(event) : state.remoteCapabilities` -/
def eventCapabilities (s : CallState) (capabilities : Option Capabilities) : Capabilities :=
  match capabilities with
  | some caps => offerCapabilities caps
  | none => s.remoteCapabilities

def reduceRemoteRinging (s : CallState) (b : Base) (capabilities : Option Capabilities) :
    CallState × List Effect :=
  if !s.sameCall b || s.phase ≠ .outgoing then s.ignore
  else
    ({ s with
        lastHeardAt := b.now, peerRinging := true
        ringingDevices := uniqueDevices (s.ringingDevices.map some ++ [b.fromDevice])
        remoteCapabilities := s.eventCapabilities capabilities }, [])

def reduceLocalAccept (s : CallState) (b : Base) (codec : Option String) (camera : Bool)
    (localVideoCodecs : Option (List String)) (capabilities : Option Capabilities) :
    CallState × List Effect :=
  if s.phase ≠ .incoming then s.ignore
  else
    let codec := (textOrNull codec).getD "pcm16"
    let camera := camera && peerSupportsVideo s.remoteCapabilities
    let videoCodec :=
      pickVideoCodec (localVideoCodecs.getD s.capabilities.video) s.remoteCapabilities.video
    ({ s with
        phase := .active, codec := some codec, connectedAt := b.now, lastHeardAt := b.now
        muted := false, localCamera := camera, hadVideo := camera || s.mediaVideo
        videoCodec := videoCodec, capabilities := capabilities.getD s.capabilities },
      [.stopRingtone, s.signalEffect .accept (some codec), .startMedia, .armWatchdog, .startPing] ++
        if camera then [.startVideo .camera] else [])

def reduceRemoteAccept (s : CallState) (b : Base) (codec : Option String)
    (capabilities : Option Capabilities) : CallState × List Effect :=
  if !s.sameCall b || s.phase ≠ .outgoing then s.ignore
  else
    let codec := if codec = some "opus" || codec = some "pcm16" then codec else some "pcm16"
    let remoteDevice := if isText b.fromDevice then b.fromDevice else s.remoteDevice
    let remoteCapabilities := s.eventCapabilities capabilities
    let videoCodec := pickVideoCodec s.capabilities.video remoteCapabilities.video
    let startCamera := s.mediaVideo && peerSupportsVideo remoteCapabilities
    ({ s with
        phase := .active, codec := codec, connectedAt := b.now, lastHeardAt := b.now
        remoteDevice := remoteDevice, remoteCapabilities := remoteCapabilities
        videoCodec := videoCodec, localCamera := startCamera, hadVideo := startCamera },
      [.stopRingtone, .startMedia, .armWatchdog, .startPing,
        .cancelOtherDevices s.peerId s.callId remoteDevice s.ringingDevices] ++
        if startCamera then [.startVideo .camera] else [])

def reduceLocalReject (s : CallState) (b : Base) : CallState × List Effect :=
  if s.phase ≠ .incoming then s.ignore
  else idleWith [.stopRingtone, s.signalEffect .reject, .stopMedia, .clearTimers,
    s.callLogEffect .rejected b.now]

def reduceLocalCancel (s : CallState) (b : Base) : CallState × List Effect :=
  if s.phase ≠ .outgoing then s.ignore
  else idleWith [s.signalEffect .cancel, .stopRingtone, .clearTimers,
    s.callLogEffect .failed b.now]

/-- What `remote-cancel` and `remote-end` share: how a call ends that the other side gives up. -/
def givenUp (s : CallState) (b : Base) : CallState × List Effect :=
  match s.phase with
  | .incoming => idleWith [.stopRingtone, .clearTimers, s.callLogEffect .missed b.now]
  | .outgoing => idleWith [.clearTimers, s.callLogEffect .failed b.now]
  | .active => idleWith [.stopMedia, .clearTimers, s.callLogEffect .completed b.now]
  | .idle => s.ignore

def reduceRemoteCancel (s : CallState) (b : Base) (reason : Option String) :
    CallState × List Effect :=
  if !s.sameCall b then s.ignore
  else if isAnsweredElsewhere reason then
    if s.phase = .incoming then idleWith [.stopRingtone, .clearTimers] else s.ignore
  else s.givenUp b

def reduceLocalEnd (s : CallState) (b : Base) : CallState × List Effect :=
  if s.phase ≠ .active then s.ignore
  else idleWith [s.signalEffect .endCall, .stopMedia, .clearTimers,
    s.callLogEffect .completed b.now]

def reduceRemoteEnd (s : CallState) (b : Base) : CallState × List Effect :=
  if !s.sameCall b then s.ignore else s.givenUp b

def reduceRemoteBusy (s : CallState) (b : Base) : CallState × List Effect :=
  if !s.sameCall b || s.phase ≠ .outgoing then s.ignore
  else
    let r := applyRemoteBusy s.ringingDevices s.busyDevices b.fromDevice
    if !r.endBusy then
      ({ s with busyDevices := r.busy, ringingDevices := r.ringing, lastHeardAt := b.now }, [])
    else idleWith [.clearTimers, s.callLogEffect .busy b.now]

def reduceOfferFailed (s : CallState) (b : Base) : CallState × List Effect :=
  if s.phase ≠ .outgoing || !s.sameCall b then s.ignore
  else idleWith [.clearTimers, .toast "Nicht erreichbar", s.callLogEffect .failed b.now]

def reduceHangup (s : CallState) (b : Base) (outcome : CallOutcome) : CallState × List Effect :=
  if !s.sameCall b || s.phase ≠ .outgoing then s.ignore
  else idleWith [.clearTimers, s.callLogEffect outcome b.now]

def reduceRingTimeout (s : CallState) (b : Base) : CallState × List Effect :=
  if s.phase = .outgoing && s.sameCall b then
    idleWith [s.signalEffect .cancel, .clearTimers, s.callLogEffect .failed b.now]
  else if s.phase = .incoming && s.sameCall b then
    idleWith [.stopRingtone, .clearTimers, s.callLogEffect .missed b.now]
  else s.ignore

def reduceConnectionLost (s : CallState) (b : Base) : CallState × List Effect :=
  if s.phase ≠ .active || !s.sameCall b then s.ignore
  else idleWith [s.signalEffect .endCall, .stopMedia, .clearTimers, .toast "Verbindung verloren",
    s.callLogEffect .failed b.now]

def reduceToggleMute (s : CallState) : CallState × List Effect :=
  if s.phase = .active then ({ s with muted := !s.muted }, [.applyMute]) else s.ignore

def reducePong (s : CallState) (b : Base) (t : Option Int) : CallState × List Effect :=
  if !s.sameCall b || s.phase ≠ .active then s.ignore
  else
    let rttMs := match t with
      | some sentAt => some (max 0 (b.now - sentAt))
      | none => s.rttMs
    ({ s with rttMs := rttMs, lastHeardAt := b.now }, [])

/-- `state[flag]` of the streams that go out -/
def localFlag (s : CallState) : StreamKind → Bool
  | .camera => s.localCamera
  | .screen => s.localScreen

def setLocalFlag (s : CallState) (kind : StreamKind) (on : Bool) : CallState :=
  match kind with
  | .camera => { s with localCamera := on }
  | .screen => { s with localScreen := on }

def remoteFlag (s : CallState) : StreamKind → Bool
  | .camera => s.remoteCamera
  | .screen => s.remoteScreen

def setRemoteFlag (s : CallState) (kind : StreamKind) (on : Bool) : CallState :=
  match kind with
  | .camera => { s with remoteCamera := on }
  | .screen => { s with remoteScreen := on }

def mediaOp (stream : StreamKind) (on : Bool) : SignalOp :=
  match stream with
  | .screen => if on then .screenOn else .screenOff
  | .camera => if on then .videoOn else .videoOff

def reduceLocalMediaFlag (s : CallState) (on : Bool) (stream : StreamKind) :
    CallState × List Effect :=
  if s.phase ≠ .active then s.ignore
  else if on && !peerSupportsVideo s.remoteCapabilities then s.ignore
  else if s.localFlag stream = on then s.ignore
  else
    ({ s.setLocalFlag stream on with hadVideo := s.hadVideo || on },
      [s.signalEffect (mediaOp stream on) none (some stream),
        if on then .startVideo stream else .stopVideo stream])

def reduceRemoteMediaFlag (s : CallState) (b : Base) (on : Bool) (stream : StreamKind) :
    CallState × List Effect :=
  if !s.sameCall b || s.phase ≠ .active then s.ignore
  else if s.remoteFlag stream = on then s.ignore
  else ({ s.setRemoteFlag stream on with hadVideo := s.hadVideo || on, lastHeardAt := b.now }, [])

def reduceLocalKeyframe (s : CallState) (stream : StreamKind) : CallState × List Effect :=
  if s.phase ≠ .active then s.ignore
  else (s, [s.signalEffect .keyframe none (some stream)])

def reduceHeard (s : CallState) (b : Base) : CallState × List Effect :=
  if s.sameCall b then ({ s with lastHeardAt := b.now }, []) else s.ignore

def reduceCall (s : CallState) : Event → CallState × List Effect
  | .localStart b callKeyB64 codecs video capabilities =>
    s.reduceLocalStart b callKeyB64 codecs video capabilities
  | .remoteOffer b callKeyB64 codecs timestamp video capabilities blocked =>
    s.reduceRemoteOffer b callKeyB64 codecs timestamp video capabilities blocked
  | .remoteRinging b capabilities => s.reduceRemoteRinging b capabilities
  | .localAccept b codec camera localVideoCodecs capabilities =>
    s.reduceLocalAccept b codec camera localVideoCodecs capabilities
  | .remoteAccept b codec capabilities => s.reduceRemoteAccept b codec capabilities
  | .localReject b => s.reduceLocalReject b
  | .remoteReject b => s.reduceHangup b .rejected
  | .localCancel b => s.reduceLocalCancel b
  | .remoteCancel b reason => s.reduceRemoteCancel b reason
  | .localEnd b => s.reduceLocalEnd b
  | .remoteEnd b => s.reduceRemoteEnd b
  | .remoteBusy b => s.reduceRemoteBusy b
  | .offerFailed b => s.reduceOfferFailed b
  | .ringTimeout b => s.reduceRingTimeout b
  | .connectionLost b => s.reduceConnectionLost b
  | .toggleMute => s.reduceToggleMute
  | .localMedia kind _ on => s.reduceLocalMediaFlag on kind
  | .remoteMedia kind b on => s.reduceRemoteMediaFlag b on kind
  | .localKeyframe _ stream => s.reduceLocalKeyframe stream
  | .pong b t => s.reducePong b t
  | .heard b => s.reduceHeard b
  | .unknown => s.ignore

end CallState
end Bluetalk.Calls
