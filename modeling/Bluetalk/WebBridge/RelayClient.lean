import Bluetalk.WebBridge.Sessions

/-!
# The web client of the relay

`RelayClient` of `webBridge/relayClient.js`: its tables of tunnels, opens and posts, the messages of
the relay that change them, and the requests of the application, over the sessions of the bridge.
`attachTunnel` is a task: it asks for the display name, runs the handshake over a stream transport,
and goes on as in `Sessions`. Of the bytes of a handshake the model has whether the transport holds
a part of a frame. The relay has the requests that it received, and answers each of them once.

Promises, bindings and requests are numbered. A binding is a call of `bindTunnel`. The number of the
request that an answer is for, `released` and `answers` are kept for the statements; no step depends
on them.
-/

namespace Bluetalk.WebBridge

def maxPendingOpens : Nat := 8
/-- The most entries that a `Map` holds. -/
def mapCapacity : Nat := 2 ^ 24

/-- How a promise was settled. -/
inductive Outcome
  /-- by the answer to the request of that number, or by what was begun for it -/
  | answered (request : Nat)
  /-- `tearDownTunnels` -/
  | interrupted
  /-- at the call -/
  | refused
  deriving DecidableEq

inductive Request
  | «open» (peerId deviceKey : String)
  | post (id : String)

structure Promise where
  request : Request
  outcome : Option Outcome := none

structure PendingOpen where
  peerId : String
  deviceKey : String
  promise : Nat

/-- The handle of a tunnel. -/
structure Tunnel where
  peerId : String
  deviceKey : String
  deviceName : String
  binding : Nat
  deriving DecidableEq

inductive ClientMessage
  | «open» (tunnel : Nat) (target device : String)
  | accept (tunnel : Nat)
  | reject (tunnel : Nat)
  | close (tunnel : Nat)
  | post (id target : String) (body : Json)

/-- How far `attachTunnel` is. -/
inductive BindingPhase
  /-- it waits for the display name; `onReady` was not called -/
  | naming
  /-- the handshake waits for a frame, of which the transport may hold a part -/
  | shaking (part : Bool)
  /-- what the handshake waits for was rejected -/
  | failing
  /-- the handshake is done -/
  | established
  /-- the promise of `attachTunnel` is settled -/
  | done
  deriving DecidableEq

structure Binding where
  tunnelId : Nat
  connection : Nat
  peerId : String
  deviceKey : String
  deviceName : String
  initiator : Bool
  /-- the promise that it settles, and the request whose answer it was begun for -/
  follows : Option (Nat × Nat)
  phase : BindingPhase := .naming
  /-- its session in the bridge -/
  session : Option Nat := none
  /-- the relay has closed the tunnel -/
  released : Bool := false
  deriving DecidableEq

/-- A transport is closed. One that holds a part of a frame rejects nobody. -/
def Binding.closeTransport (x : Binding) : Binding :=
  match x.phase with
  | .shaking false => { x with phase := .failing }
  | .naming | .shaking true | .failing | .established | .done => x

def Binding.release (tunnelId connection : Nat) (x : Binding) : Binding :=
  if x.tunnelId = tunnelId && x.connection = connection then { x with released := true } else x

structure RelayClient where
  bridge : Bridge := {}
  /-- `snapshot.state === 'online'` -/
  online : Bool := false
  /-- the socket is open for sending -/
  socketOpen : Bool := false
  /-- `runSession` handles messages -/
  serving : Bool := false
  /-- how many sessions with the relay there were -/
  connection : Nat := 0
  ourPeerId : String := ""
  ourDeviceId : String := ""
  blocked : List String := []
  maxTunnels : Nat := 64
  maxMailBody : Nat := 1024 * 1024
  tunnels : List (Nat × Tunnel) := []
  pendingOpen : List (Nat × PendingOpen) := []
  openingKeys : List (String × String) := []
  remoteDevices : List (String × List (String × String)) := []
  pendingPost : List (String × Nat) := []
  nextTunnelId : Nat := 1
  promises : List Promise := []
  bindings : List Binding := []
  /-- what was sent, each with its connection -/
  sent : List (Nat × ClientMessage) := []
  /-- the requests that the relay has to answer, each with its promise -/
  openRequests : List (Nat × Nat) := []
  postRequests : List (String × Nat) := []
  /-- the promises whose requests were answered -/
  answers : List Nat := []

inductive ClientAction
  /-- `ready` on a new connection -/
  | connect (ourPeerId ourDeviceId : String) (maxTunnels maxMailBody : Nat)
  | socketGone
  /-- the state is set to another than online -/
  | leaveOnline
  | tearDown
  | setBlocked (peers : List String)
  | openPeer (peerId : String) (deviceId : Option String)
  | postMail (peerId : String) (body : Json) (id uuid : String)
  | presence (value : Json)
  | incoming (tunnel : Nat) (sender senderDevice : String)
  /-- the relay answers its request at `k` -/
  | answerOpen (k : Nat) (opened : Bool)
  | answerPost (k : Nat)
  | closed (tunnel : Nat)
  /-- a frame that is too long -/
  | overflow (tunnel : Nat)
  /-- `attachTunnel` of a binding calls `onReady` -/
  | ready (b : Nat) (part : Bool)
  /-- bytes for a handshake -/
  | bytes (b : Nat) (part : Bool)
  | handshakeFails (b : Nat)
  | handshakeDone (b : Nat) (remotePeerId remoteDisplayName remoteAddress : String) (now : Int)
  /-- `attachTunnel` returns -/
  | attachDone (b : Nat)
  /-- a step of the sessions -/
  | bridge (a : BridgeAction)

/-! ## Devices -/

/-- The code units of a text, by which texts are compared. -/
def utf16Units (s : String) : List Nat :=
  s.toList.flatMap fun c =>
    if c.toNat < 0x10000 then [c.toNat]
    else [0xD800 + (c.toNat - 0x10000) / 0x400, 0xDC00 + (c.toNat - 0x10000) % 0x400]

def openerToken (peerId deviceKey : String) : String :=
  peerId ++ "/" ++ normalizeDeviceKey deviceKey

/-- Who has the smaller token opens the tunnel. -/
def shouldOpenTunnel (ourPeerId ourDeviceKey remotePeerId remoteDeviceKey : String) : Bool :=
  if ourPeerId = "" || remotePeerId = "" || ourPeerId = remotePeerId then false
  else decide (utf16Units (openerToken ourPeerId ourDeviceKey) <
    utf16Units (openerToken remotePeerId remoteDeviceKey))

/-- `parseDeviceList`: ids with names, each id once. A name is cut at 64 characters. -/
def parseDeviceList : List Json → List String → List (String × String)
  | [], _ => []
  | item :: items, seen =>
    let rawId := match item with
      | .str s => s
      | other => (other.get "id").textOrEmpty
    let trimmed := jsTrim rawId
    if !Relay.validDeviceId trimmed && trimmed ≠ legacyDeviceKey && trimmed ≠ directDeviceKey then
      parseDeviceList items seen
    else
      let id := normalizeDeviceKey trimmed
      if id ∈ seen then parseDeviceList items seen
      else
        let name := match item with
          | .str _ => ""
          | other => String.ofList ((other.get "name").textOrEmpty.toList.take 64)
        (id, name) :: parseDeviceList items (id :: seen)

/-- The devices of a presence; a peer that names none has one. -/
def remoteDevicesFromPresence (value : Json) : List (String × String) :=
  if !(value.get "online").truthy then []
  else
    let parsed := match value.get "devices" with
      | .arr items => parseDeviceList items []
      | _ => []
    if parsed.isEmpty then [(legacyDeviceKey, "")] else parsed

/-- The id that mail is posted under: the caller's, or a new one. -/
def mailPostId (id uuid : String) : String :=
  let trimmed := jsTrim id
  if trimmed ≠ "" && trimmed.length ≤ 128 && trimmed.toList.all Relay.isIdChar then trimmed else uuid

namespace RelayClient

variable (s : RelayClient)

/-! ## The tables -/

def ownDeviceKey : String :=
  if Relay.validDeviceId s.ourDeviceId then s.ourDeviceId else legacyDeviceKey

def hasBoundSession (peerId deviceKey : String) : Bool :=
  let key := normalizeDeviceKey deviceKey
  (s.bridge.get peerId key).isSome ||
    s.tunnels.any fun t => t.2.peerId = peerId && t.2.deviceKey = key

def sessionOccupied (peerId deviceKey : String) : Bool :=
  (peerId, normalizeDeviceKey deviceKey) ∈ s.openingKeys || s.hasBoundSession peerId deviceKey

def deviceNameOf (peerId deviceKey : String) : String :=
  let list := (s.remoteDevices.lookup peerId).getD []
  (list.lookup (normalizeDeviceKey deviceKey)).getD ""

def rememberRemoteDevice (peerId deviceKey deviceName : String) : RelayClient :=
  let key := normalizeDeviceKey deviceKey
  if key = legacyDeviceKey then s
  else
    let list := (s.remoteDevices.lookup peerId).getD []
    if list.any (·.1 = key) then s
    else { s with
      remoteDevices := put Prod.fst (peerId, list ++ [(key, deviceName)]) s.remoteDevices }

def sendJson (message : ClientMessage) : RelayClient :=
  if s.socketOpen then { s with sent := s.sent ++ [(s.connection, message)] } else s

def settle (q : Nat) (outcome : Outcome) : RelayClient :=
  { s with
    promises := s.promises.modify q fun x => { x with outcome := x.outcome.or (some outcome) } }

def newPromise (request : Request) (outcome : Option Outcome) : RelayClient :=
  { s with promises := s.promises ++ [⟨request, outcome⟩] }

/-- The search for an id that is free, from the next one on; with the one to start from then. -/
def allocFrom (used : List Nat) : Nat → Nat → Nat × Nat
  | 0, next => (1, next)
  | i + 1, next => if next ≠ 0 && next ∉ used then (next, next + 1) else allocFrom used i (next + 1)

def allocTunnelId : Nat × Nat :=
  allocFrom (s.tunnels.map (·.1) ++ s.pendingOpen.map (·.1)) 0xffffffff s.nextTunnelId

/-! ## Requests of the application -/

/-- A request that may be made: it is in the tables and, while the socket is open, with the relay. -/
def requestOpen (target remoteKey : String) : RelayClient :=
  let q := s.promises.length
  let (id, next) := s.allocTunnelId
  let s := { s with
    nextTunnelId := next
    openingKeys := if (target, remoteKey) ∈ s.openingKeys then s.openingKeys
      else s.openingKeys ++ [(target, remoteKey)]
    pendingOpen := put Prod.fst (id, ⟨target, remoteKey, q⟩) s.pendingOpen
    openRequests := if s.socketOpen then s.openRequests ++ [(id, q)] else s.openRequests }
  (s.newPromise (.open target remoteKey) none).sendJson (.open id target remoteKey)

def startOpen (target deviceKey : String) : RelayClient :=
  let remoteKey := normalizeDeviceKey deviceKey
  if maxPendingOpens ≤ s.pendingOpen.length || s.maxTunnels ≤ s.tunnels.length ||
      s.sessionOccupied target remoteKey then
    s.newPromise (.open target remoteKey) (some .refused)
  else s.requestOpen target remoteKey

/-- Opens the devices of a list that are not occupied, one after the other. -/
def openAll (target : String) (devices : List String) : RelayClient :=
  devices.foldl (fun s device =>
    if s.sessionOccupied target device then s else s.startOpen target device) s

def openPeer (peerId : String) (deviceId : Option String) : RelayClient :=
  let target := jsTrim peerId
  if target = "" || !s.online then s
  else
    match deviceId.filter (· ≠ "") with
    | some device => s.openAll target [normalizeDeviceKey device]
    | none =>
      match (s.remoteDevices.lookup target).getD [] with
      | [] => s.openAll target [legacyDeviceKey]
      | known => s.openAll target (known.map (·.1))

/-- Whether `postMail` takes a mail. -/
def takesMail (peerId : String) (body : Json) : Bool :=
  jsTrim peerId ≠ "" && s.online && jsonBytes body ≤ s.maxMailBody

def postMail (peerId : String) (body : Json) (id uuid : String) : RelayClient :=
  if !s.takesMail peerId body then s
  else
    let q := s.promises.length
    let postId := mailPostId id uuid
    let s := { s with
      pendingPost := put Prod.fst (postId, q) s.pendingPost
      postRequests := if s.socketOpen then s.postRequests ++ [(postId, q)] else s.postRequests }
    (s.newPromise (.post postId) none).sendJson (.post postId (jsTrim peerId) body)

/-! ## Messages of the relay -/

def maybeOpen (peerId deviceKey : String) : RelayClient :=
  let remoteKey := normalizeDeviceKey deviceKey
  if s.sessionOccupied peerId remoteKey then s
  else if shouldOpenTunnel s.ourPeerId s.ownDeviceKey peerId remoteKey then
    s.startOpen peerId remoteKey
  else s

def handlePresence (value : Json) : RelayClient :=
  let peerId := (value.get "peerId").textOrEmpty
  if peerId = "" then s
  else
    let online := (value.get "online").truthy
    let devices := remoteDevicesFromPresence value
    let s := { s with remoteDevices :=
      if online then put Prod.fst (peerId, devices) s.remoteDevices
      else s.remoteDevices.filter (·.1 ≠ peerId) }
    if !online || peerId ∈ s.blocked || peerId = s.ourPeerId then s
    else devices.foldl (fun s device => s.maybeOpen peerId device.1) s

/-- `bindTunnel` up to its await. -/
def bindTunnel (tunnelId : Nat) (peerId : String) (initiator : Bool) (deviceKey deviceName : String)
    (follows : Option (Nat × Nat)) : RelayClient :=
  let key := normalizeDeviceKey deviceKey
  { s with
    tunnels := put Prod.fst (tunnelId, ⟨peerId, key, deviceName, s.bindings.length⟩) s.tunnels
    bindings := s.bindings ++
      [⟨tunnelId, s.connection, peerId, key, deviceName, initiator, follows, .naming, none, false⟩] }

/-- `closeSession` of a handle -/
def closeTransport (b : Nat) : RelayClient :=
  { s with bindings := s.bindings.modify b Binding.closeTransport }

def closeLocalTunnel (tunnelId : Nat) : RelayClient :=
  match s.tunnels.find? (·.1 = tunnelId) with
  | none => s
  | some (_, handle) =>
    { s with tunnels := s.tunnels.filter (·.1 ≠ tunnelId) }.closeTransport handle.binding

def handleIncoming (tunnelId : Nat) (sender senderDevice : String) : RelayClient :=
  let deviceKey := normalizeDeviceKey senderDevice
  let s := s.rememberRemoteDevice sender deviceKey ""
  if tunnelId = 0 || sender = "" || sender = s.ourPeerId || sender ∈ s.blocked ||
      s.hasBoundSession sender deviceKey || s.maxTunnels ≤ s.tunnels.length then
    s.sendJson (.reject tunnelId)
  else
    (s.sendJson (.accept tunnelId)).bindTunnel tunnelId sender false deviceKey
      (s.deviceNameOf sender deviceKey) none

def removePending (tunnelId : Nat) (pending : PendingOpen) : RelayClient :=
  { s with
    pendingOpen := s.pendingOpen.filter (·.1 ≠ tunnelId)
    openingKeys := s.openingKeys.filter (· ≠ (pending.peerId, pending.deviceKey)) }

/-- `handleOpened`, for the answer to the request of a promise. -/
def handleOpened (tunnelId request : Nat) : RelayClient :=
  match s.pendingOpen.find? (·.1 = tunnelId) with
  | none => s
  | some (_, pending) =>
    (s.removePending tunnelId pending).bindTunnel tunnelId pending.peerId true pending.deviceKey
      (s.deviceNameOf pending.peerId pending.deviceKey) (some (pending.promise, request))

def handleOpenFailed (tunnelId request : Nat) : RelayClient :=
  match s.pendingOpen.find? (·.1 = tunnelId) with
  | none => s
  | some (_, pending) =>
    (s.removePending tunnelId pending).settle pending.promise (.answered request)

/-- `posted` or `post_failed` -/
def handlePosted (id : String) (request : Nat) : RelayClient :=
  match s.pendingPost.find? (·.1 = id) with
  | none => s
  | some (_, q) =>
    { s with pendingPost := s.pendingPost.filter (·.1 ≠ id) }.settle q (.answered request)

/-! ## The connection -/

def connect (ourPeerId ourDeviceId : String) (maxTunnels maxMailBody : Nat) : RelayClient :=
  { s with
    online := true, socketOpen := true, serving := true, connection := s.connection + 1
    ourPeerId, ourDeviceId, maxTunnels, maxMailBody
    tunnels := [], pendingOpen := [], openingKeys := [], remoteDevices := [], pendingPost := []
    nextTunnelId := 1 }

def closeAll : RelayClient := s.tunnels.foldl (fun s t => s.closeTransport t.2.binding) s

def interruptOpens : RelayClient :=
  s.pendingOpen.foldl (fun s p => s.settle p.2.promise .interrupted) s

def interruptPosts : RelayClient := s.pendingPost.foldl (fun s p => s.settle p.2 .interrupted) s

/-- `tearDownTunnels` at the end of `runSession`. The relay drops the requests it has. -/
def tearDown : RelayClient :=
  { s.closeAll.interruptOpens.interruptPosts with
    serving := false, socketOpen := false
    tunnels := [], pendingOpen := [], openingKeys := [], remoteDevices := [], pendingPost := []
    openRequests := [], postRequests := [] }

/-! ## Bindings -/

def setPhase (b : Nat) (phase : BindingPhase) : RelayClient :=
  { s with bindings := s.bindings.modify b ({ · with phase := phase }) }

/-- The end of `attachTunnel`: the promise that waits for it is settled. -/
def finishBinding (b : Nat) (x : Binding) : RelayClient :=
  let s := s.setPhase b .done
  match x.follows with
  | some (q, request) => s.settle q (.answered request)
  | none => s

def release (tunnelId : Nat) : RelayClient :=
  { s with bindings := s.bindings.map (·.release tunnelId s.connection) }

def attachOf (x : Binding) (remotePeerId remoteDisplayName remoteAddress : String) (now : Int) :
    Attach :=
  ⟨x.peerId, x.deviceKey, x.deviceName, x.initiator, remoteAddress, remotePeerId, remoteDisplayName,
    now⟩

def move (own : String) (s : RelayClient) : ClientAction → Option RelayClient
  | .connect peerId deviceId maxTunnels maxMailBody =>
    if s.serving || s.online then none
    else some (s.connect peerId deviceId maxTunnels maxMailBody)
  | .socketGone => some { s with socketOpen := false }
  | .leaveOnline => some { s with online := false }
  | .tearDown => if s.serving then some s.tearDown else none
  | .setBlocked peers => some { s with blocked := peers }
  | .openPeer peerId deviceId => some (s.openPeer peerId deviceId)
  | .postMail peerId body id uuid => some (s.postMail peerId body id uuid)
  | .presence value => if s.serving then some (s.handlePresence value) else none
  | .incoming tunnel sender senderDevice =>
    if s.serving then some (s.handleIncoming tunnel sender senderDevice) else none
  | .answerOpen k opened =>
    if s.serving then
      (s.openRequests[k]?).map fun (id, request) =>
        let s := { s with
          openRequests := s.openRequests.eraseIdx k, answers := request :: s.answers }
        if opened then s.handleOpened id request else s.handleOpenFailed id request
    else none
  | .answerPost k =>
    if s.serving then
      (s.postRequests[k]?).map fun (id, request) =>
        { s with postRequests := s.postRequests.eraseIdx k, answers := request :: s.answers
          }.handlePosted id request
    else none
  | .closed tunnel => if s.serving then some ((s.release tunnel).closeLocalTunnel tunnel) else none
  | .overflow tunnel => if s.serving then some (s.closeLocalTunnel tunnel) else none
  | .ready b part =>
    (s.bindings[b]?).bind fun x =>
      if x.phase = .naming then some (s.setPhase b (.shaking part)) else none
  | .bytes b part =>
    -- the bytes come through the table of tunnels
    (s.bindings[b]?).bind fun x =>
      match x.phase with
      | .shaking _ =>
        if s.serving && s.tunnels.any (·.2.binding = b) then some (s.setPhase b (.shaking part))
        else none
      | _ => none
  | .handshakeFails b =>
    (s.bindings[b]?).bind fun x =>
      match x.phase with
      | .naming | .shaking _ | .failing => some ((s.closeLocalTunnel x.tunnelId).finishBinding b x)
      | .established | .done => none
  | .handshakeDone b remotePeerId remoteDisplayName remoteAddress now =>
    (s.bindings[b]?).bind fun x =>
      match x.phase with
      | .shaking _ =>
        (s.bridge.step own
            (.establish (attachOf x remotePeerId remoteDisplayName remoteAddress now))).map fun br =>
          { s with
            bridge := br
            bindings := s.bindings.modify b fun x => { x with
              phase := .established, session := some s.bridge.sessions.length } }
      | _ => none
  | .attachDone b =>
    (s.bindings[b]?).bind fun x =>
      if x.phase = .established then
        (x.session.bind fun i => s.bridge.sessions[i]?).bind fun session =>
          match session.phase with
          | .attached => some (s.finishBinding b x)
          | .refused =>
            -- a session with oneself is an error
            if session.info.id = own then
              some ((s.closeLocalTunnel x.tunnelId).finishBinding b x)
            else some (s.finishBinding b x)
          | .ready | .replacing _ _ => none
      else none
  | .bridge a =>
    match a with
    | .establish _ => none
    | .resume _ | .enter _ | .close _ _ _ | .finishClose _ =>
      (s.bridge.step own a).map fun br => { s with bridge := br }

/-- A step, in which no table grows beyond what it can hold. -/
def step (own : String) (s : RelayClient) (a : ClientAction) : Option RelayClient :=
  (s.move own a).filter fun s => s.tunnels.length ≤ mapCapacity

end RelayClient
end Bluetalk.WebBridge
