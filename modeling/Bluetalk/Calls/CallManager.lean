import Bluetalk.Calls.VideoDirection
import Bluetalk.Theory.Run

/-!
# The media of a call

`CallManager.js` on every device that takes part in a call, with what `callState.js` makes of the
events that start and stop media. A function of the manager runs up to where it awaits something;
what is left of it stands in a list of tasks. Device `0` has started the call; the offer, which holds
the key, rings on any others. What is encrypted is written down in a log.
-/

namespace Bluetalk.Calls

inductive CallPhase
  | idle
  | outgoing
  | incoming
  | active
  deriving DecidableEq

/-- The manager of one device. -/
structure CallManager where
  phase : CallPhase := .idle
  role : Role := .callee
  muted : Bool := false
  /-- `localCamera` and `localScreen` -/
  localMedia : StreamKind → Bool := fun _ => false
  /-- `peerSupportsVideo(remoteCapabilities)` -/
  remoteVideo : Bool := false
  mediaGeneration : Nat := 0
  videoStartGen : StreamKind → Nat := fun _ => 0
  /-- whether the key is imported -/
  callKey : Bool := false
  /-- `cameraOut` and `screenOut` -/
  out : StreamKind → Option Nat := fun _ => none
  pipeline : Option Nat := none

namespace CallManager

def isCurrentMedia (m : CallManager) (generation : Nat) : Bool :=
  m.mediaGeneration = generation && m.phase = .active

def isCurrentVideo (m : CallManager) (kind : StreamKind) (generation : Nat) : Bool :=
  m.videoStartGen kind = generation && m.phase = .active && m.localMedia kind

/-- The state is that of no call; the rest of the manager stays. -/
def toIdle (m : CallManager) : CallManager :=
  { m with
    phase := .idle, role := .callee, muted := false, localMedia := fun _ => false
    remoteVideo := false }

end CallManager

/-- A direction of a device's video. -/
structure Outgoing where
  device : Nat
  generation : Nat
  hasKey : Bool
  /-- its encoder has begun -/
  capturing : Bool := false
  direction : VideoDirection

structure AudioPipeline where
  device : Nat
  role : Role
  nextSendSeq : Nat := 0
  muted : Bool := false
  closed : Bool := false

def AudioPipeline.ivDirection (p : AudioPipeline) : Nat := callAudioIvDirection p.role

/-- What a function of the manager awaits. -/
inductive MediaTask
  /-- `stopMedia`, which `startMedia` may wait for -/
  | stoppingCamera (start : Option Nat)
  | stoppingScreen (start : Option Nat)
  | stoppingPipeline (start : Option Nat)
  /-- `startMedia` -/
  | importingMedia (generation : Nat)
  | openingPipeline (generation : Nat)
  | startingPipeline (generation pipeline : Nat)
  /-- `startOutgoingVideo` -/
  | importingVideo (kind : StreamKind) (generation : Nat)
  | stoppingVideo (kind : StreamKind) (generation : Nat)
  | openingVideo (kind : StreamKind) (generation direction : Nat)
  | startingVideo (kind : StreamKind) (generation direction : Nat)

/-- What has a counter of its own. -/
inductive Source
  | direction (i : Nat)
  | pipeline (i : Nat)
  deriving DecidableEq

structure Encryption where
  source : Source
  seq : Nat
  iv : Bytes
  plaintext : Bytes
  deriving DecidableEq

structure Call where
  devices : Nat → CallManager
  directions : List Outgoing := []
  pipelines : List AudioPipeline := []
  tasks : List (Nat × MediaTask) := []
  log : List Encryption := []

/-- The events that a device's state machine is about, as far as they concern its media. -/
inductive CallEvent
  | remoteOffer (remoteVideo : Bool)
  | localAccept (camera : Bool)
  | remoteAccept (video remoteVideo : Bool)
  | localReject
  /-- a call that rings is cancelled, refused, missed or taken elsewhere -/
  | dropped
  /-- an active call ends, from either side or with the connection -/
  | ended
  | toggleMute
  | localMedia (kind : StreamKind) (on : Bool)

inductive CallAction
  | dispatch (device : Nat) (event : CallEvent)
  /-- what the `j`-th task awaits has come, or failed -/
  | resume (j : Nat) (ok : Bool)
  /-- an encoder hands out a frame -/
  | encoded (i : Nat) (chunk : EncodedChunk)
  /-- the encryption that the `j`-th frame of a direction awaits comes out, or fails -/
  | encrypted (i j : Nat) (ok : Bool)
  /-- an audio pipeline has packed what it sends next -/
  | packed (i : Nat) (framesBytes : Bytes)

namespace Call

def setManager (s : Call) (d : Nat) (m : CallManager) : Call :=
  { s with devices := Function.update s.devices d m }

def spawn (s : Call) (d : Nat) (task : MediaTask) : Call :=
  { s with tasks := s.tasks ++ [(d, task)] }

def closeDirection (s : Call) (i : Nat) : Call :=
  { s with directions := s.directions.modify i fun o => { o with direction := o.direction.close } }

def closePipeline (s : Call) (i : Nat) : Call :=
  { s with pipelines := s.pipelines.modify i fun p => { p with closed := true } }

/-- `stopOutgoingVideo`, up to where the direction is closed. -/
def stopOutgoingVideo (s : Call) (d : Nat) (kind : StreamKind) : Call :=
  let m := s.devices d
  match m.out kind with
  | none => s
  | some i => (s.setManager d { m with out := Function.update m.out kind none }).closeDirection i

def stopMedia (s : Call) (d : Nat) (start : Option Nat) : Call :=
  (s.stopOutgoingVideo d .camera).spawn d (.stoppingCamera start)

def startMedia (s : Call) (d : Nat) : Call :=
  let m := s.devices d
  let generation := m.mediaGeneration + 1
  (s.setManager d { m with mediaGeneration := generation }).stopMedia d (some generation)

def startOutgoingVideo (s : Call) (d : Nat) (kind : StreamKind) : Call :=
  let m := s.devices d
  let generation := m.videoStartGen kind + 1
  let m := { m with videoStartGen := Function.update m.videoStartGen kind generation }
  let s := s.setManager d m
  if m.phase ≠ .active then s
  else if !m.callKey then s.spawn d (.importingVideo kind generation)
  else if !m.isCurrentVideo kind generation then s
  else (s.stopOutgoingVideo d kind).spawn d (.stoppingVideo kind generation)

/-- The effect `stop-media`. -/
def stopMediaEffect (s : Call) (d : Nat) : Call :=
  let m := s.devices d
  (s.setManager d { m with
    mediaGeneration := m.mediaGeneration + 1
    videoStartGen := fun kind => m.videoStartGen kind + 1 }).stopMedia d none

/-- The effects `stop-camera` and `stop-screen`. -/
def stopVideoEffect (s : Call) (d : Nat) (kind : StreamKind) : Call :=
  let m := s.devices d
  let generation := m.videoStartGen kind + 1
  let m := { m with videoStartGen := Function.update m.videoStartGen kind generation }
  (s.setManager d m).stopOutgoingVideo d kind

/-- The call becomes active on a device. -/
def activate (s : Call) (d : Nat) (m : CallManager) (camera : Bool) : Call :=
  let s := s.setManager d { m with
    phase := .active, localMedia := Function.update m.localMedia .camera camera }
  let s := s.startMedia d
  if camera then s.startOutgoingVideo d .camera else s

def setLocalMedia (s : Call) (d : Nat) (kind : StreamKind) (on : Bool) : Call :=
  let m := s.devices d
  if m.phase ≠ .active then s
  else if on && !m.remoteVideo then s
  else if m.localMedia kind = on then s
  else
    let s := s.setManager d { m with localMedia := Function.update m.localMedia kind on }
    if on then s.startOutgoingVideo d kind else s.stopVideoEffect d kind

def endCall (s : Call) (d : Nat) : Call :=
  let m := s.devices d
  if m.phase ≠ .active then s else (s.setManager d m.toIdle).stopMediaEffect d

def dispatch (s : Call) (d : Nat) (event : CallEvent) : Call :=
  let m := s.devices d
  match event with
  | .remoteOffer remoteVideo =>
    if m.phase ≠ .idle then s
    else s.setManager d { m.toIdle with phase := .incoming, remoteVideo := remoteVideo }
  | .localAccept camera =>
    if m.phase ≠ .incoming then s
    else s.activate d { m with muted := false } (camera && m.remoteVideo)
  | .remoteAccept video remoteVideo =>
    if m.phase ≠ .outgoing then s
    else s.activate d { m with remoteVideo := remoteVideo } (video && remoteVideo)
  | .localReject =>
    if m.phase ≠ .incoming then s else (s.setManager d m.toIdle).stopMediaEffect d
  | .dropped =>
    if m.phase = .incoming || m.phase = .outgoing then s.setManager d m.toIdle else s
  | .ended => s.endCall d
  | .toggleMute =>
    if m.phase ≠ .active then s
    else
      let muted := !m.muted
      let s := s.setManager d { m with muted := muted }
      match m.pipeline with
      | none => s
      | some i => { s with pipelines := s.pipelines.modify i fun p => { p with muted := muted } }
  | .localMedia kind on => s.setLocalMedia d kind on

/-- `startMedia` fails. -/
def mediaFailed (s : Call) (d generation : Nat) : Call :=
  if (s.devices d).isCurrentMedia generation then s.endCall d else s

/-- `startOutgoingVideo` fails. -/
def videoFailed (s : Call) (d : Nat) (kind : StreamKind) (generation : Nat) : Call :=
  if (s.devices d).isCurrentVideo kind generation then s.setLocalMedia d kind false else s

/-- How a task of a device goes on. -/
def resumeTask (s : Call) (d : Nat) (task : MediaTask) (ok : Bool) : Call :=
  let m := s.devices d
  match task with
  | .stoppingCamera start => (s.stopOutgoingVideo d .screen).spawn d (.stoppingScreen start)
  | .stoppingScreen start =>
    let s' := s.setManager d { m with callKey := false, pipeline := none }
    let s' := match m.pipeline with
      | none => s'
      | some i => s'.closePipeline i
    s'.spawn d (.stoppingPipeline start)
  | .stoppingPipeline none => s
  | .stoppingPipeline (some generation) =>
    if m.isCurrentMedia generation then s.spawn d (.importingMedia generation) else s
  | .importingMedia generation =>
    if !ok then s.mediaFailed d generation
    else
      let s := s.setManager d { m with callKey := true }
      if m.isCurrentMedia generation then s.spawn d (.openingPipeline generation) else s
  | .openingPipeline generation =>
    if !ok then s.mediaFailed d generation
    else if m.isCurrentMedia generation then
      let pipeline : AudioPipeline := { device := d, role := m.role }
      spawn { s with pipelines := s.pipelines ++ [pipeline] } d
        (.startingPipeline generation s.pipelines.length)
    else s
  | .startingPipeline generation i =>
    if !ok then s.mediaFailed d generation
    else if m.isCurrentMedia generation then
      let s := s.setManager d { m with pipeline := some i }
      { s with pipelines := s.pipelines.modify i fun p => { p with muted := m.muted } }
    else s.closePipeline i
  | .importingVideo kind generation =>
    if !ok then s
    else
      let m := { m with callKey := true }
      let s := s.setManager d m
      if m.isCurrentVideo kind generation then
        (s.stopOutgoingVideo d kind).spawn d (.stoppingVideo kind generation)
      else s
  | .stoppingVideo kind generation =>
    if m.isCurrentVideo kind generation then
      let o : Outgoing := {
        device := d, generation := generation, hasKey := m.callKey
        direction := { kind := kind, role := m.role } }
      spawn { s with directions := s.directions ++ [o] } d
        (.openingVideo kind generation s.directions.length)
    else s
  | .openingVideo kind generation i =>
    if !ok then (s.closeDirection i).videoFailed d kind generation
    else if m.isCurrentVideo kind generation then
      spawn { s with directions := s.directions.modify i fun o => { o with capturing := true } } d
        (.startingVideo kind generation i)
    else s.closeDirection i
  | .startingVideo kind generation i =>
    if !ok then (s.closeDirection i).videoFailed d kind generation
    else if m.isCurrentVideo kind generation then
      s.setManager d { m with out := Function.update m.out kind (some i) }
    else s.closeDirection i

/-- `isCurrent()` of a direction. -/
def still (s : Call) (o : Outgoing) : Bool :=
  (s.devices o.device).isCurrentVideo o.direction.kind o.generation

/-- A fragment of a direction is given to the cipher, which needs a key. -/
def encryptFragment (s : Call) (i : Nat) (o : Outgoing) (direction : VideoDirection)
    (call : Option EncodeCall) : Call :=
  { s with
    directions := s.directions.set i { o with direction := direction }
    log := s.log ++ match call with
      | some call =>
        if o.hasKey then
          [⟨.direction i, call.fragmentSeq, buildCallIv direction.ivDirection call.fragmentSeq,
            call.part⟩]
        else []
      | none => [] }

def step (s : Call) : CallAction → Option Call
  | .dispatch d event => some (s.dispatch d event)
  | .resume j ok =>
    match s.tasks[j]? with
    | none => none
    | some (d, task) => some (resumeTask { s with tasks := s.tasks.eraseIdx j } d task ok)
  | .encoded i chunk =>
    match s.directions[i]? with
    | none => none
    | some o =>
      if o.capturing then
        let (direction, call) := o.direction.handleEncoded (s.still o) chunk
        some (s.encryptFragment i o direction call)
      else none
  | .encrypted i j ok =>
    match s.directions[i]? with
    | none => none
    | some o =>
      -- without a key there is nothing that could come out
      match o.direction.resumeEncoded (s.still o) j (ok && o.hasKey) with
      | none => none
      | some r => some (s.encryptFragment i o r.direction r.next)
  | .packed i framesBytes =>
    match s.pipelines[i]? with
    | none => none
    | some p =>
      if p.closed || p.muted then some s
      else
        some { s with
          pipelines := s.pipelines.set i { p with nextSendSeq := addOne p.nextSendSeq }
          log := s.log ++ [⟨.pipeline i, p.nextSendSeq, buildCallIv p.ivDirection p.nextSendSeq,
            framesBytes⟩] }

/-- A call that device `0` has offered, and that has not rung anywhere yet. -/
def offered : Call where
  devices := Function.update (fun _ => {}) 0 { phase := .outgoing, role := .caller }

/-- No two plaintexts are encrypted under one vector. -/
def NoIvReuse (s : Call) : Prop := ∀ x ∈ s.log, ∀ y ∈ s.log, x.iv = y.iv → x.plaintext = y.plaintext

end Call
end Bluetalk.Calls
