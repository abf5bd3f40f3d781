import Bluetalk.Relay.Tunnel
import Mathlib.Data.List.Dedup
import Mathlib.Data.List.Sort

/-!
# The hub of the relay

`hub.rs`: the connected devices, their watch lists and the tunnel table. A connection is named by
its generation. Each function here is what the source does between taking and releasing the lock;
the messages it queues for other connections are returned, to be sent after the release. The sync
hints are not part of this model.
-/

namespace Bluetalk.Relay

structure ConnSlot where
  peerId : String
  device : String
  deviceName : String
  name : String
  /-- A set, so that no peer stands twice in it. -/
  watch : List String := []

structure RegisterSpec where
  peerId : String
  device : String
  deviceName : String
  name : String

/-- A message for the control queue of a connection. -/
abbrev Push := Nat × Control

structure Hub where
  /-- Generation → connection. -/
  conns : AList fun _ : Nat => ConnSlot := ∅
  /-- Peer → device → generation. -/
  byPeer : AList fun _ : String => AList fun _ : String => Nat := ∅
  tunnels : Tunnels := {}
  nextGen : Nat := 1

/-- `replaced` is the connection that is told so and closed, while the lock is still held. -/
structure RegisterResult where
  generation : Nat
  device : String
  otherDevices : List DeviceInfo
  replaced : Option Nat

namespace Hub

/-- The devices of a peer, with their connections. -/
def devicesOf (h : Hub) (peerId : String) : AList fun _ : String => Nat :=
  (h.byPeer.lookup peerId).getD ∅

def generationsOf (h : Hub) (peerId : String) : List Nat :=
  (h.devicesOf peerId).entries.map (·.2)

/-- The live connections of a peer, with their generations. -/
def connsOf (h : Hub) (peerId : String) : List (Nat × ConnSlot) :=
  (h.generationsOf peerId).filterMap fun gid => (h.conns.lookup gid).map (gid, ·)

def connMatches (h : Hub) (peerId : String) (generation : Nat) : Bool :=
  (h.conns.lookup generation).any (·.peerId = peerId)

def deviceList (h : Hub) (peerId : String) : List DeviceInfo :=
  ((h.devicesOf peerId).entries.filterMap fun d =>
    (h.conns.lookup d.2).map fun c => ⟨d.1, c.deviceName⟩).insertionSort (·.id ≤ ·.id)

def otherDevices (h : Hub) (peerId except : String) : List DeviceInfo :=
  (h.deviceList peerId).filter (·.id ≠ except)

def unionWatch (h : Hub) (peerId : String) : List String :=
  ((h.connsOf peerId).flatMap (·.2.watch)).dedup

def peerWatches (h : Hub) (watcher target : String) : Bool :=
  (h.connsOf watcher).any (target ∈ ·.2.watch)

def mutualPeers (h : Hub) (me : String) : List String :=
  (h.unionWatch me).filter fun other => other ≠ me && h.peerWatches other me

def pushPresenceToWatchers (h : Hub) (watcherPeer subject : String) (online : Bool)
    (devices : List DeviceInfo) : List Push :=
  ((h.connsOf watcherPeer).filter (subject ∈ ·.2.watch)).map fun c =>
    (c.1, .presence subject online devices)

/-- The present truth to the watchers, after a change of the devices of `subject` or of who
watches whom. -/
def queuePresenceDiff (h : Hub) (subject : String) (oldMutual : List String) : List Push :=
  let newMutual := h.mutualPeers subject
  let devices := h.deviceList subject
  let online := !devices.isEmpty
  (oldMutual.filter (· ∉ newMutual)).flatMap
      (fun q => h.pushPresenceToWatchers q subject false []) ++
    if online then newMutual.flatMap fun q => h.pushPresenceToWatchers q subject true devices
    else []

def queueOwnDevices (h : Hub) (peerId : String) (exceptGen : Option Nat) : List Push :=
  let all := h.deviceList peerId
  (h.devicesOf peerId).entries.filterMap fun d =>
    if some d.2 = exceptGen then none
    else (h.conns.lookup d.2).map fun _ => (d.2, .devices (all.filter (·.id ≠ d.1)))

/-- Removes a connection from the maps and ends its tunnels. -/
def detachConn (h : Hub) (generation : Nat) : Hub × List Push :=
  match h.conns.lookup generation with
  | none => (h, [])
  | some slot =>
    let conns := h.conns.erase generation
    let map := h.devicesOf slot.peerId
    let map := if map.lookup slot.device = some generation then map.erase slot.device else map
    let byPeer := if slot.peerId ∉ h.byPeer then h.byPeer
      else if map.keys.isEmpty then h.byPeer.erase slot.peerId
      else h.byPeer.insert slot.peerId map
    let (notify, tunnels) := h.tunnels.dropConn generation
    ({ h with conns, byPeer, tunnels },
      (notify.filter (·.1 ∈ conns)).map fun n => (n.1, .closed n.2 "disconnect"))

/-- The connection that makes way for a new one of the peer: the one of the same device, or the
oldest when there are as many devices as a peer may have. -/
def displaced (h : Hub) (peerId device : String) : Option Nat :=
  match (h.devicesOf peerId).lookup device with
  | some old => some old
  | none =>
    if (h.devicesOf peerId).keys.length ≥ maxDevicesPerPeer then (h.generationsOf peerId).min?
    else none

/-- Detaches the connection that makes way. Yields its generation. -/
def makeRoom (h : Hub) (peerId device : String) : Option Nat × Hub × List Push :=
  match (h.displaced peerId device).filter (· ∈ h.conns) with
  | some old => (some old, h.detachConn old)
  | none => (none, h, [])

/-- Enters a new connection into the maps. -/
def enter (h : Hub) (generation : Nat) (spec : RegisterSpec) : Hub :=
  { h with
    conns := h.conns.insert generation
      ⟨spec.peerId, spec.device, spec.deviceName, spec.name, []⟩
    byPeer := h.byPeer.insert spec.peerId
      ((h.devicesOf spec.peerId).insert spec.device generation) }

def register (h : Hub) (spec : RegisterSpec) : RegisterResult × Hub × List Push :=
  let generation := h.nextGen
  let h := { h with nextGen := h.nextGen + 1 }
  let oldMutual := h.mutualPeers spec.peerId
  let (replaced, h, pushes) := h.makeRoom spec.peerId spec.device
  let h := h.enter generation spec
  (⟨generation, spec.device, h.otherDevices spec.peerId spec.device, replaced⟩, h,
    pushes ++ h.queueOwnDevices spec.peerId (some generation) ++
      h.queuePresenceDiff spec.peerId oldMutual)

def unregister (h : Hub) (peerId : String) (generation : Nat) : Hub × List Push :=
  if h.connMatches peerId generation then
    let oldMutual := h.mutualPeers peerId
    let (h, pushes) := h.detachConn generation
    (h, pushes ++ h.queueOwnDevices peerId none ++ h.queuePresenceDiff peerId oldMutual)
  else (h, [])

/-- Replaces the watch list of a connection. Yields the snapshot for the caller. -/
def setWatch (h : Hub) (peerId : String) (generation : Nat) (peers : List String) :
    List Control × Hub × List Push :=
  match h.conns.lookup generation with
  | none => ([], h, [])
  | some c =>
    if c.peerId ≠ peerId then ([], h, [])
    else
      let oldMutual := h.mutualPeers peerId
      let myWatch := peers.dedup
      let h := { h with conns := h.conns.insert generation { c with watch := myWatch } }
      let newMutual := h.mutualPeers peerId
      let snapshot := (myWatch.filter (· ∈ newMutual)).map fun other =>
        Control.presence other true (h.deviceList other)
      let myDevices := h.deviceList peerId
      (snapshot, h, (oldMutual.filter (· ∉ newMutual)).flatMap
            (fun q => h.pushPresenceToWatchers q peerId false []) ++
          (newMutual.filter (· ∉ oldMutual)).flatMap
            fun q => h.pushPresenceToWatchers q peerId true myDevices)

/-- The connection an `open` goes to: of the device, or the youngest of the peer. -/
def targetGen (h : Hub) (toPeer : String) : Option String → Option Nat
  | some device => (h.devicesOf toPeer).lookup device
  | none => (h.generationsOf toPeer).max?

/-- Enters a pending tunnel. Yields the callee's connection and the `incoming` for it. -/
def openTunnel (h : Hub) (sender : String) (generation : Nat) (localId : UInt32)
    (toPeer : String) (toDevice : Option String) : Except String Push × Hub :=
  match (h.conns.lookup generation).filter (·.peerId = sender) with
  | none => (.error "invalid", h)
  | some c =>
    if sender = toPeer then (.error "self", h)
    else
      match h.targetGen toPeer toDevice with
      | none => (.error "offline", h)
      | some target =>
        if target ∉ h.conns then (.error "offline", h)
        else
          match h.tunnels.open generation sender localId target toPeer with
          | (.ok remoteId, tunnels) =>
            (.ok (target, .incoming remoteId sender c.device c.name), { h with tunnels })
          | (.error .limit, tunnels) => (.error "limit", { h with tunnels })
          | (.error .selfOpen, tunnels) => (.error "self", { h with tunnels })
          | (.error .invalid, tunnels) => (.error "invalid", { h with tunnels })

/-- Tells a connection, if it is still there. -/
def tell (h : Hub) (generation : Nat) (msg : Control) : List Push :=
  if generation ∈ h.conns then [(generation, msg)] else []

def failOpen (h : Hub) (sender : String) (localId : UInt32) (generation : Nat) (code : String) :
    Hub × List Push :=
  if h.connMatches sender generation then
    match h.tunnels.timeoutOpen generation localId with
    | (none, tunnels) => ({ h with tunnels }, [])
    | (some (remoteGen, remoteId), tunnels) =>
      ({ h with tunnels }, h.tell generation (.openFailed localId code) ++
        h.tell remoteGen (.closed remoteId "remote"))
  else (h, [])

def acceptTunnel (h : Hub) (peer : String) (generation : Nat) (localId : UInt32) :
    Except Unit (List Push) × Hub :=
  if h.connMatches peer generation then
    match h.tunnels.accept generation localId with
    | (.ok (fromGen, fromId), tunnels) => (.ok (h.tell fromGen (.opened fromId)), { h with tunnels })
    | (.error _, tunnels) => (.error (), { h with tunnels })
  else (.error (), h)

def rejectTunnel (h : Hub) (peer : String) (generation : Nat) (localId : UInt32) :
    Except Unit (List Push) × Hub :=
  if h.connMatches peer generation then
    match h.tunnels.reject generation localId with
    | (.ok (fromGen, fromId), tunnels) =>
      (.ok (h.tell fromGen (.openFailed fromId "rejected")), { h with tunnels })
    | (.error _, tunnels) => (.error (), { h with tunnels })
  else (.error (), h)

def closeTunnel (h : Hub) (peer : String) (generation : Nat) (localId : UInt32) (code : String) :
    Hub × List Push :=
  if h.connMatches peer generation then
    match h.tunnels.close generation localId with
    | (none, tunnels) => ({ h with tunnels }, [])
    | (some (remoteGen, remoteId), tunnels) =>
      ({ h with tunnels }, h.tell remoteGen (.closed remoteId code))
  else (h, [])

/-- Where a frame goes: the connection of the other end and its tunnel id. -/
def forwardBinary (h : Hub) (sender : String) (generation : Nat) (localId : UInt32) :
    Option Endpoint :=
  if h.connMatches sender generation then
    (h.tunnels.lookup generation localId).filter (·.remoteGen ∈ h.conns)
  else none

/-- The connections of a peer, as `deliver_control` reaches them. -/
def controlTargets (h : Hub) (peerId : String) : List Nat := (h.connsOf peerId).map (·.1)

end Hub

end Bluetalk.Relay
