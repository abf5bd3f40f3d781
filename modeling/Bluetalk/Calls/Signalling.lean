import Bluetalk.Calls.CallChanges

/-!
# Offers and signals

`CallManager.js` as far as it concerns what a call says to the other side: what is let in of a
message (`callLimits.js`, `handleInbound`), the event that it becomes, and what the effects of the
state machine send.
-/

namespace Bluetalk.Calls

def callReasonMaxLen : Nat := 64
def callSenderMaxLen : Nat := 128
def callMaxCodecs : Nat := 8
def callKeyB64MaxLen : Nat := 64
def callAudioCodecs : List String := ["opus", "pcm16"]

/-- A `call-offer` as it comes in; `none` stands for a field that is missing. -/
structure OfferMessage where
  callId : Option Json := none
  callKeyB64 : Option Json := none
  codecs : Option Json := none
  media : Option Json := none
  capabilities : Option Json := none
  timestamp : Option Json := none
  sender : Option Json := none
  fromDevice : Option Json := none

/-- A `call-signal` as it comes in. -/
structure SignalMessage where
  op : Option Json := none
  callId : Option Json := none
  codec : Option Json := none
  reason : Option Json := none
  t : Option Json := none
  stream : Option Json := none
  capabilities : Option Json := none
  fromDevice : Option Json := none

structure CallOffer where
  callId : String
  callKeyB64 : String
  codecs : List String := []
  /-- `media.video` -/
  video : Bool := false
  capabilities : Capabilities := {}
  timestamp : Option Int := none
  sender : Option String := none
  fromDevice : Option String := none
  deriving DecidableEq

structure CallSignal where
  op : SignalOp
  callId : String
  codec : Option String := none
  reason : Option String := none
  t : Option Int := none
  stream : Option StreamKind := none
  capabilities : Option Capabilities := none
  fromDevice : Option String := none
  deriving DecidableEq

/-- `if (text) out.field = text` -/
def textField (text : String) : Option String := if text = "" then none else some text

/-- `raw?.[name]` of a plain object -/
def objectField (raw : Option Json) (name : String) : Option Json :=
  match raw with
  | some (.obj fields) => fields.lookup name
  | _ => none

/-- `Array.isArray(raw) ? raw.slice(0, max) : []` -/
def arrayField (raw : Option Json) (max : Nat) : List Json :=
  match raw with
  | some (.arr items) => items.take max
  | _ => []

def sanitizeCapabilities (raw : Option Json) : Capabilities :=
  let video := normalizeCapabilityList
    ((arrayField (objectField raw "video") callMaxCodecs).map Json.textOrEmpty)
  { video := video
    screen := objectField raw "screen" = some (.bool true) && 0 < video.length }

def addCodec (out : List String) (item : Json) : List String :=
  let value := item.textOrEmpty
  if value = "" || utf16Length value > callMaxCodecLen then out
  else if !callAudioCodecs.contains value || out.contains value then out
  else out ++ [value]

def sanitizeCodecList (list : Option Json) : List String :=
  (arrayField list callMaxCodecs).foldl addCodec []

def sanitizeCallOffer (msg : OfferMessage) : Option CallOffer :=
  let callId := boundedString msg.callId callIdMaxLen
  let callKeyB64 := boundedString msg.callKeyB64 callKeyB64MaxLen
  if callId = "" || callKeyB64 = "" then none
  else some {
    callId := callId
    callKeyB64 := callKeyB64
    codecs := sanitizeCodecList msg.codecs
    video := objectField msg.media "video" = some (.bool true)
    capabilities := sanitizeCapabilities msg.capabilities
    timestamp := (Json.number? msg.timestamp).filter (0 ≤ ·)
    sender := textField (boundedString msg.sender callSenderMaxLen)
    fromDevice := textField (boundedString msg.fromDevice callDeviceKeyMaxLen) }

/-- `CALL_SIGNAL_OPS` -/
def signalOps : List (String × SignalOp) :=
  [("ringing", .ringing), ("accept", .accept), ("reject", .reject), ("busy", .busy),
    ("cancel", .cancel), ("end", .endCall), ("video-on", .videoOn), ("video-off", .videoOff),
    ("screen-on", .screenOn), ("screen-off", .screenOff), ("keyframe", .keyframe),
    ("ping", .ping), ("pong", .pong)]

def signalOp? (op : Option Json) : Option SignalOp :=
  match op with
  | some (.str name) => signalOps.lookup name
  | _ => none

/-- `typeof msg.codec === 'string'`, one of the codecs of a call -/
def acceptCodec (codec : Option Json) : Option String :=
  match codec with
  | some (.str name) =>
    if utf16Length name ≤ callMaxCodecLen && callAudioCodecs.contains name then some name else none
  | _ => none

def signalTime (t : Option Json) : Option Int :=
  (Json.number? t).filter fun n => n.natAbs ≤ maxSafeInteger

/-- `msg.capabilities && typeof msg.capabilities === 'object'` -/
def signalCapabilities (capabilities : Option Json) : Option Capabilities :=
  match capabilities with
  | some (.obj _) | some (.arr _) => some (sanitizeCapabilities capabilities)
  | _ => none

def sanitizeCallSignal (msg : SignalMessage) : Option CallSignal :=
  let callId := boundedString msg.callId callIdMaxLen
  match signalOp? msg.op with
  | none => none
  | some op =>
    if callId = "" then none
    else some {
      op := op
      callId := callId
      fromDevice := textField (boundedString msg.fromDevice callDeviceKeyMaxLen)
      codec := if op = .accept then acceptCodec msg.codec else none
      reason :=
        if op = .cancel then textField (boundedString msg.reason callReasonMaxLen) else none
      t := if op = .ping ∨ op = .pong then signalTime msg.t else none
      stream :=
        if CallState.SignalOp.isMedia op then
          some (if msg.stream = some (.str "screen") then .screen else .camera)
        else none
      capabilities :=
        if op = .ringing ∨ op = .accept then signalCapabilities msg.capabilities else none }

inductive CallMessage
  | offer (offer : CallOffer)
  | signal (signal : CallSignal)
  deriving DecidableEq

/-- What is given to `sendPairwiseEncrypted` and to `sendPeer`; without a device it goes to all of
the peer's. -/
structure SentMessage where
  peerId : String
  message : CallMessage
  deviceKey : Option String := none

/-- The manager of a device, as far as it speaks. -/
structure CallSpeaker where
  state : CallState := createIdleCallState
  localCapabilities : Capabilities := {}
  displayName : String := ""

namespace CallSpeaker

open CallState

variable (m : CallSpeaker)

/-- `fields.peerId || this.state.peerId` -/
def textOr (x y : Option String) : Option String := if isText x then x else y

/-- `sendSignal({ op, t })` of a signal that no effect asks for has neither peer nor call. -/
def sendSignal (x : SignalEffect) (t : Option Int := none) : List SentMessage :=
  match textOrNull (textOr x.peerId m.state.peerId), textOrNull (textOr x.callId m.state.callId) with
  | some peerId, some callId =>
    [{ peerId := peerId
       message := .signal {
         op := x.op, callId := callId, codec := x.codec, t := t, stream := x.stream
         capabilities :=
           if x.op = .ringing ∨ x.op = .accept then some m.localCapabilities else none }
       deviceKey :=
         textOrNull (if x.deviceKey.isSome then x.deviceKey else m.state.remoteDevice) }]
  | _, _ => []

def sendOffer (now : Int) : List SentMessage :=
  match textOrNull m.state.peerId, textOrNull m.state.callId with
  | some peerId, some callId =>
    [{ peerId := peerId
       message := .offer {
         callId := callId, callKeyB64 := m.state.callKeyB64, codecs := m.state.codecs
         video := m.state.mediaVideo, capabilities := m.localCapabilities, timestamp := some now
         sender := some m.displayName } }]
  | _, _ => []

def cancelOtherDevices (peerId callId exceptDevice : Option String) (ringingDevices : List String) :
    List SentMessage :=
  match textOrNull (textOr peerId m.state.peerId), textOrNull (textOr callId m.state.callId) with
  | some peerId, some callId =>
    let message : CallMessage :=
      .signal { op := .cancel, callId := callId, reason := some "answered-elsewhere" }
    let others := devicesToCancel ringingDevices exceptDevice
    if 0 < others.length then
      others.map fun deviceKey => { peerId := peerId, message := message, deviceKey := some deviceKey }
    else [{ peerId := peerId, message := message }]
  | _, _ => []

/-- What an effect says. -/
def runEffect (now : Int) : Effect → List SentMessage
  | .sendOffer => m.sendOffer now
  | .sendSignal x => m.sendSignal x
  | .cancelOtherDevices peerId callId exceptDevice ringingDevices =>
    m.cancelOtherDevices peerId callId exceptDevice ringingDevices
  | _ => []

/-- The effects run in the state that the event has led to. -/
def dispatch (event : Event) (now : Int) : CallSpeaker × List SentMessage :=
  let r := m.state.reduceCall event
  let m' := { m with state := r.1 }
  (m', r.2.flatMap (m'.runEffect now))

def offerBase (fromId : String) (msg : CallOffer) (now : Int) : Base :=
  { peerId := some fromId, callId := some msg.callId, fromDevice := msg.fromDevice, now := now }

def offerEvent (fromId : String) (msg : CallOffer) (blocked : Bool) (now : Int) : Event :=
  .remoteOffer (offerBase fromId msg now) msg.callKeyB64 msg.codecs msg.timestamp msg.video msg.capabilities blocked

def handleOffer (fromId : String) (msg : CallOffer) (blocked : Bool) (now : Int) :
    CallSpeaker × List SentMessage :=
  m.dispatch (offerEvent fromId msg blocked now) now

/-- The event that a signal becomes, unless it is answered at once. -/
def signalEvent (fromId : String) (msg : CallSignal) (now : Int) : Event :=
  let base : Base :=
    { peerId := some fromId, callId := some msg.callId, fromDevice := msg.fromDevice, now := now }
  match msg.op with
  | .ringing => .remoteRinging base msg.capabilities
  | .accept => .remoteAccept base msg.codec msg.capabilities
  | .reject => .remoteReject base
  | .busy => .remoteBusy base
  | .cancel => .remoteCancel base msg.reason
  | .endCall => .remoteEnd base
  | .videoOn => .remoteMedia .camera base true
  | .videoOff => .remoteMedia .camera base false
  | .screenOn => .remoteMedia .screen base true
  | .screenOff => .remoteMedia .screen base false
  | .pong => .pong base msg.t
  | .keyframe | .ping => .unknown

def handleSignal (fromId : String) (msg : CallSignal) (now : Int) : CallSpeaker × List SentMessage :=
  match msg.op with
  | .keyframe => (m, [])
  | .ping =>
    if m.state.callId = some msg.callId ∧ m.state.peerId = some fromId then
      let m' := { m with state := { m.state with lastHeardAt := now } }
      (m', m'.sendSignal { op := .pong, peerId := none, callId := none } msg.t)
    else (m, [])
  | _ => m.dispatch (signalEvent fromId msg now) now

/-- What `handleInbound` asks of a device before it looks at the message. -/
def passesDevice (fromDevice : Option Json) : Bool :=
  if isNullish fromDevice || fromDevice = some (.str "") then true
  else
    let device := boundedString fromDevice callDeviceKeyMaxLen
    if device = "" then false else !shouldDropBoundMessage m.state.remoteDevice (some device)

def handleInboundOffer (fromId : String) (msg : OfferMessage) (blocked : Bool) (now : Int) :
    CallSpeaker × List SentMessage :=
  if fromId = "" then (m, [])
  else if !m.passesDevice msg.fromDevice then (m, [])
  else
    match sanitizeCallOffer msg with
    | none => (m, [])
    | some offer => m.handleOffer fromId offer blocked now

def handleInboundSignal (fromId : String) (msg : SignalMessage) (now : Int) :
    CallSpeaker × List SentMessage :=
  if fromId = "" then (m, [])
  else if !m.passesDevice msg.fromDevice then (m, [])
  else
    match sanitizeCallSignal msg with
    | none => (m, [])
    | some signal => m.handleSignal fromId signal now

/-- What `handleInbound` does with a message that is well formed. -/
def receive (fromId : String) (message : CallMessage) (blocked : Bool) (now : Int) :
    CallSpeaker × List SentMessage :=
  match message with
  | .offer offer =>
    if shouldDropBoundMessage m.state.remoteDevice offer.fromDevice then (m, [])
    else m.handleOffer fromId offer blocked now
  | .signal signal =>
    if shouldDropBoundMessage m.state.remoteDevice signal.fromDevice then (m, [])
    else m.handleSignal fromId signal now

variable {m} {now : Int} {x : SignalEffect} {fromId : String} {blocked : Bool}

section

variable {offer : CallOffer} {s : CallState} {blocked : Bool}

@[simp] theorem offerBase_peerId : (offerBase fromId offer now).peerId = some fromId := rfl
@[simp] theorem offerBase_callId : (offerBase fromId offer now).callId = some offer.callId := rfl
@[simp] theorem offerBase_fromDevice : (offerBase fromId offer now).fromDevice = offer.fromDevice :=
  rfl
@[simp] theorem offerBase_now : (offerBase fromId offer now).now = now := rfl

theorem change_offerEvent : s.change (offerEvent fromId offer blocked now) =
    if blocked || isStaleCallOffer offer.timestamp now then .kept
    else if s.phase = .outgoing ∧ s.peerId = some fromId then
      if s.losesGlare (offerBase fromId offer now) then .crossed else .kept
    else if s.phase = .idle then .rang
    else .busied := by
  simp only [offerEvent, change, offerBase_peerId, offerBase_now, eq_comm (a := some fromId)]

end

theorem flatMap_runEffect {effects : List Effect} :
    effects.flatMap (m.runEffect now) = (speech effects).flatMap (m.runEffect now) := by
  induction effects with
  | nil => rfl
  | cons x effects ih =>
    rw [List.flatMap_cons, ih, speech, speech, List.filter_cons]
    cases x <;> rfl

theorem sendSignal_eq {t : Option Int} {peerId callId : String} (hpeer : x.peerId = some peerId)
    (hcall : x.callId = some callId) (hpeerText : isText (some peerId) = true)
    (hcallText : isText (some callId) = true) :
    m.sendSignal x t = [{
      peerId := peerId
      message := .signal {
        op := x.op, callId := callId, codec := x.codec, t := t, stream := x.stream
        capabilities :=
          if x.op = .ringing ∨ x.op = .accept then some m.localCapabilities else none }
      deviceKey := textOrNull (if x.deviceKey.isSome then x.deviceKey else m.state.remoteDevice) }] := by
  rw [sendSignal, hpeer, hcall, textOr, textOr, if_pos hpeerText, if_pos hcallText,
    textOrNull_of_isText hpeerText, textOrNull_of_isText hcallText]

theorem passesDevice_eq {fromDevice : Option Json}
    (h : isNullish fromDevice = true ∨ fromDevice = some (.str "") ∨
      boundedString fromDevice callDeviceKeyMaxLen ≠ "") :
    m.passesDevice fromDevice = !shouldDropBoundMessage m.state.remoteDevice
      (textField (boundedString fromDevice callDeviceKeyMaxLen)) := by
  have hdrop : shouldDropBoundMessage m.state.remoteDevice none = false := by
    rw [shouldDropBoundMessage, isText_none]
    split <;> rfl
  rw [passesDevice]
  split
  next hnone =>
    rw [Bool.or_eq_true, decide_eq_true_eq] at hnone
    have hfield : textField (boundedString fromDevice callDeviceKeyMaxLen) = none := by
      rcases hnone with hnull | rfl
      · match fromDevice, hnull with
        | none, _ | some .null, _ => rfl
      · rfl
    rw [hfield, hdrop]
    rfl
  next hsome =>
  rw [Bool.or_eq_true, decide_eq_true_eq, not_or] at hsome
  have hne := (h.resolve_left hsome.1).resolve_left hsome.2
  simp only [textField, if_neg hne]

theorem handleInboundOffer_eq {msg : OfferMessage} {offer : CallOffer} (hpeer : fromId ≠ "") (hoffer : sanitizeCallOffer msg = some offer)
    (hdevice : isNullish msg.fromDevice = true ∨ msg.fromDevice = some (.str "") ∨
      boundedString msg.fromDevice callDeviceKeyMaxLen ≠ "") :
    m.handleInboundOffer fromId msg blocked now = m.receive fromId (.offer offer) blocked now := by
  have hfrom : offer.fromDevice = textField (boundedString msg.fromDevice callDeviceKeyMaxLen) := by
    rw [sanitizeCallOffer] at hoffer
    simp only [Option.ite_none_left_eq_some, Option.some.injEq] at hoffer
    rw [← hoffer.2]
  rw [handleInboundOffer, if_neg hpeer, passesDevice_eq hdevice, ← hfrom, Bool.not_not, hoffer,
    receive]

theorem handleInboundSignal_eq {msg : SignalMessage} {signal : CallSignal} (hpeer : fromId ≠ "") (hsignal : sanitizeCallSignal msg = some signal)
    (hdevice : isNullish msg.fromDevice = true ∨ msg.fromDevice = some (.str "") ∨
      boundedString msg.fromDevice callDeviceKeyMaxLen ≠ "") :
    m.handleInboundSignal fromId msg now = m.receive fromId (.signal signal) blocked now := by
  have hfrom : signal.fromDevice = textField (boundedString msg.fromDevice callDeviceKeyMaxLen) := by
    rw [sanitizeCallSignal] at hsignal
    split at hsignal
    · cases hsignal
    · simp only [Option.ite_none_left_eq_some, Option.some.injEq] at hsignal
      rw [← hsignal.2]
  rw [handleInboundSignal, if_neg hpeer, passesDevice_eq hdevice, ← hfrom, Bool.not_not, hsignal,
    receive]

end CallSpeaker
end Bluetalk.Calls
