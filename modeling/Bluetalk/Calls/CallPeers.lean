import Bluetalk.Calls.CallProtocol
import Bluetalk.Calls.Signalling

/-!
# Two peers that call each other

Two managers, each on the one device of its peer, and what each has sent and the other not yet
heard, in order. A step is what a user, a timer or the connection does at one peer, or the arrival
of the next message; a call that is started has a new id.
-/

open List Function

namespace Bluetalk.Calls

/-- The device that `x` is sent to is this one, of this peer. -/
def SentMessage.reaches (peerId : String) (device : Option String) (x : SentMessage) : Bool :=
  x.peerId = peerId && (x.deviceKey = none || x.deviceKey = device)

def delivered (peerId : String) (device : Option String) (sents : List SentMessage) : List CallMessage :=
  (sents.filter (SentMessage.reaches peerId device)).map SentMessage.message

/-- The transport says which device a message is from. -/
def CallMessage.stamped (device : Option String) : CallMessage → CallMessage
  | .offer o => .offer { o with fromDevice := device }
  | .signal x => .signal { x with fromDevice := device }

def CallMessage.callId : CallMessage → String
  | .offer o => o.callId
  | .signal x => x.callId

/-- The two peers, with the device of each as the other side knows it. -/
structure CallPair where
  name : Bool → String
  device : Bool → Option String
  named : ∀ p, name p ≠ ""
  text : ∀ p, textOrNull (device p) = device p

structure PeerCalls where
  speaker : Bool → CallSpeaker
  /-- on the way from a peer to the other one -/
  sent : Bool → List CallMessage
  /-- the ids of the calls so far -/
  used : List String

open CallState in
/-- What a device dispatches on its own. -/
def CallState.Event.isOwn : Event → Bool
  | .localAccept .. | .localReject _ | .localCancel _ | .localEnd _ | .ringTimeout _ |
    .connectionLost _ | .toggleMute | .localMedia .. | .localKeyframe .. | .heard _ | .unknown =>
    true
  | .localStart .. | .remoteOffer .. | .remoteRinging .. | .remoteAccept .. | .remoteReject _ |
    .remoteCancel .. | .remoteEnd _ | .remoteBusy _ | .offerFailed _ | .remoteMedia .. | .pong .. =>
    false

inductive PeerAction
  /-- the end of `startCall` -/
  | start (p : Bool) (callId callKeyB64 : String) (codecs : List String) (video : Bool) (now : Int)
  /-- the user, a timer or the connection -/
  | own (p : Bool) (event : CallState.Event) (now : Int)
  /-- a `ping`, or what is said of the media by itself -/
  | signal (p : Bool) (op : SignalOp) (stream : Option StreamKind) (t : Option Int)
  /-- the offer of a call is not delivered, and reported so -/
  | offerFailed (p : Bool) (callId : String) (now : Int)
  /-- the next message arrives at `p` -/
  | deliver (p : Bool) (blocked : Bool) (now : Int)

namespace PeerCalls

variable (pair : CallPair)

/-- Peer `p` becomes `m`, with `theirs` left on the way to it, and says what it sends. -/
def put (s : PeerCalls) (p : Bool) (r : CallSpeaker × List SentMessage) (mine theirs : List CallMessage) :
    PeerCalls :=
  { s with
    speaker := update s.speaker p r.1
    sent := update
      (update s.sent p (mine ++ delivered (pair.name !p) (pair.device !p) r.2))
      (!p) theirs }

def isOffer (callId : String) : CallMessage → Bool
  | .offer o => o.callId = callId
  | .signal _ => false

def startEvent (callId callKeyB64 : String) (codecs : List String) (video : Bool)
    (capabilities : Capabilities) (peerId : String) (now : Int) : CallState.Event :=
  .localStart { peerId := some peerId, callId := some callId, now := now } callKeyB64 (some codecs)
    video capabilities

def step (s : PeerCalls) : PeerAction → Option PeerCalls
  | .start p callId callKeyB64 codecs video now =>
    if callId = "" ∨ callId ∈ s.used then none
    else
      let m := s.speaker p
      let event := startEvent callId callKeyB64 codecs video m.localCapabilities (pair.name !p) now
      some { s.put pair p (m.dispatch event now) (s.sent p) (s.sent !p) with
        used := if m.state.phase = .idle then callId :: s.used else s.used }
  | .own p event now =>
    if event.isOwn then
      some (s.put pair p ((s.speaker p).dispatch event now) (s.sent p) (s.sent !p))
    else none
  | .signal p op stream t =>
    if op = .ping ∨ CallState.SignalOp.isMedia op then
      let m := s.speaker p
      let sents :=
        if m.state.phase = .active then
          m.sendSignal { op := op, peerId := none, callId := none, stream := stream } t
        else []
      some (s.put pair p (m, sents) (s.sent p) (s.sent !p))
    else none
  | .offerFailed p callId now =>
    if (s.sent p).any (isOffer callId) then
      let m := s.speaker p
      let kept := (s.sent p).filter fun x => !isOffer callId x
      if m.state.callId = some callId ∧ m.state.phase = .outgoing then
        let event := .offerFailed { peerId := m.state.peerId, callId := some callId, now := now }
        some (s.put pair p (m.dispatch event now) kept (s.sent !p))
      else some (s.put pair p (m, []) kept (s.sent !p))
    else none
  | .deliver p blocked now =>
    match s.sent !p with
    | [] => none
    | x :: rest =>
      let r := (s.speaker p).receive (pair.name !p) (x.stamped (pair.device !p)) blocked now
      some (s.put pair p r (s.sent p) rest)

/-- Two devices on which nothing has happened. -/
def start (capabilities : Bool → Capabilities) : PeerCalls where
  speaker p := { localCapabilities := capabilities p }
  sent _ := []
  used := []

open CallSpeaker CallState

variable {peerId : String} {device : Option String} {m : CallSpeaker} {e : Event} {now : Int}

theorem delivered_append {l l' : List SentMessage} : delivered peerId device (l ++ l') =
    delivered peerId device l ++ delivered peerId device l' := by
  rw [delivered, filter_append, map_append]
  rfl

theorem delivered_flatMap {α : Type} {l : List α} {f : α → List SentMessage} :
    delivered peerId device (l.flatMap f) = l.flatMap fun x => delivered peerId device (f x) := by
  induction l with
  | nil => rfl
  | cons x l ih => rw [flatMap_cons, flatMap_cons, delivered_append, ih]

theorem delivered_dispatch : delivered peerId device (m.dispatch e now).2 =
    (speech (m.state.reduceCall e).2).flatMap fun x =>
      delivered peerId device ((m.dispatch e now).1.runEffect now x) := by
  rw [← delivered_flatMap]
  exact congrArg _ flatMap_runEffect

end PeerCalls
end Bluetalk.Calls
