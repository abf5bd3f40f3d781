import Bluetalk.Relay.Hub
import Bluetalk.Theory.Tasks

/-!
# The relay at work

`ws.rs` over `hub.rs`: connections with their queues and writers, and the tasks that serve them. The
hub changes under its lock, one call at a time. What a call leaves to be sent goes into the queues
after the lock was released, message by message, so that other tasks come in between.

A connection begins here with its registration. `Ledger` and the numbers that messages carry beside
their content are kept for the statements; nothing the relay does depends on them.
-/

open Function

namespace Bluetalk.Relay

/-! ## Queues -/

/-- What the writer takes from the control queue; `pong` answers a ping frame. -/
inductive Outbound
  | text (msg : Control)
  | pong
  | close
  deriving DecidableEq

/-- An entry of a control queue, with the tunnel it is about and the request it answers. -/
structure Item where
  msg : Outbound
  tunnel : Option Nat := none
  answers : Option Nat := none
  deriving DecidableEq

/-- A frame of a data queue, with the tunnel it was sent through. -/
structure Frame where
  tunnelId : UInt32
  payload : List UInt8
  tunnel : Nat
  deriving DecidableEq

/-- What a client receives. -/
inductive Event
  | control (item : Item)
  | frame (frame : Frame)
  deriving DecidableEq

def Event.item? : Event → Option Item
  | control item => some item
  | frame _ => none

/-- The writer polls the control queue first, and the data queue after it found that one empty. -/
inductive Writer
  | idle
  | sawNoControl
  | gone
  deriving DecidableEq

/-- A connection: the loop of `handle_socket`, its `cancel` flag, the queues and what went out. -/
structure Line where
  peerId : String := ""
  running : Bool := false
  cancelled : Bool := false
  control : List Item := []
  data : List Frame := []
  writer : Writer := .idle
  received : List Event := []
  /-- How much had been put into the control queue at the last `watch`. -/
  watchedAt : Nat := 0

namespace Line

/-- Everything that was put into the control queue so far, as long as nothing was lost with it. -/
def sent (l : Line) : List Item := l.received.filterMap Event.item? ++ l.control

/-- `Sender::try_send` on the control queue: `none` when the queue is full or the writer is gone. -/
def trySend (l : Line) (item : Item) : Option Line :=
  if l.writer = .gone ∨ outboundControlCap ≤ l.control.length then none
  else some { l with control := l.control ++ [item] }

/-- `try_send_ctl`: who does not keep up is cancelled. -/
def trySendCtl (l : Line) (item : Item) : Line :=
  (l.trySend item).getD { l with cancelled := true }

/-- `Sender::send` on the data queue, as long as it need not wait. -/
def sendFrame (l : Line) (frame : Frame) : Option Line :=
  if l.writer = .gone ∨ outboundDataCap ≤ l.data.length then none
  else some { l with data := l.data ++ [frame] }

/-- What `detach_conn` does to a connection that is replaced. -/
def replaced (l : Line) : Line :=
  let l := l.trySendCtl { msg := .text (.error "replaced") }
  { (l.trySend { msg := .close }).getD l with cancelled := true }

end Line

/-- What the writer of a connection does next. -/
inductive WriterMove
  | takeControl
  | seeNoControl
  | takeFrame
  | wake
  | ends

/-- The loop of the writer: whatever has an outcome in the state it is in. -/
def Line.write (l : Line) : WriterMove → Option Line
  | .takeControl =>
    match l.writer, l.control with
    | .idle, item :: rest => some { l with
        control := rest
        received := l.received ++ [.control item]
        writer := if item.msg = .close then .gone else .idle }
    | _, _ => none
  | .seeNoControl =>
    if l.writer = .idle ∧ l.control = [] then some { l with writer := .sawNoControl } else none
  | .takeFrame =>
    match l.writer, l.data with
    | .sawNoControl, frame :: rest => some { l with
        data := rest, received := l.received ++ [.frame frame], writer := .idle }
    | _, _ => none
  | .wake => if l.writer = .sawNoControl then some { l with writer := .idle } else none
  | .ends => if l.writer ≠ .gone then some { l with writer := .gone } else none

/-! ## Tasks -/

/-- A tunnel as the ledger knows it: its number, the request that began it, and when that was. -/
structure Label where
  tunnel : Nat := 0
  request : Nat := 0
  since : Nat := 0
  deriving DecidableEq

/-- The open of a connection that waits for its answer. -/
structure Opening where
  sender : String
  gen : Nat
  localId : UInt32
  label : Label
  deriving DecidableEq

/-- A post that waits for its answer. -/
structure Posting where
  peerId : String
  gen : Nat
  id : String
  request : Nat
  deriving DecidableEq

/-- A mail of the mailbox, as far as `mail` sends it on. -/
structure MailRow where
  id : String
  sender : String
  ts : Int
  body : Json
  deriving DecidableEq

def MailRow.item (row : MailRow) : Item := { msg := .text (.mail row.id row.sender row.ts row.body) }

/-- What is done under the lock of the hub. -/
inductive Call
  | watch (peerId : String) (gen : Nat) (peers : List String)
  | «open» (sender : String) (gen : Nat) (localId : UInt32) (toPeer : String)
      (toDevice : Option String) (request : Nat)
  | failOpen (opening : Opening) (code : String)
  | accept (peerId : String) (gen : Nat) (localId : UInt32)
  | reject (peerId : String) (gen : Nat) (localId : UInt32)
  /-- `sentFor` is the tunnel that the client means, where it is known. -/
  | close (peerId : String) (gen : Nat) (localId : UInt32) (code : String) (sentFor : Option Nat)
  | tell (gen : Nat) (item : Item)
  | forward (peerId : String) (gen : Nat) (localId : UInt32) (payload : List UInt8)
  | deliver (post : Posting) (toPeer : String) (row : MailRow)
  | unregister (peerId : String) (gen : Nat)
  deriving DecidableEq

/-- How a message is put into a control queue, which says what comes of it. -/
inductive How
  /-- `try_send_ctl` -/
  | push
  /-- The `try_send_ctl` of `open_tunnel`. -/
  | offer (opening : Opening)
  /-- `enqueue`, by the connection itself -/
  | enqueue (peerId : String)
  /-- The waiting `send` of `handle_auth`. -/
  | send (peerId : String)
  /-- `send_ctl_wait`, in the loop of `deliver_control`. -/
  | deliver (others : List Nat) (any : Bool) (post : Posting)
  deriving DecidableEq

inductive Effect
  | put (how : How) (gen : Nat) (item : Item)
  /-- The `send` of `forward_binary`. -/
  | frame (sender : String) (gen : Nat) (localId : UInt32) (toGen : Nat) (frame : Frame)
  | sleep (ms : Nat)
  | wait (due : Nat)
  | call (c : Call)
  deriving DecidableEq

def posted (post : Posting) (any : Bool) : Effect :=
  .put (.enqueue post.peerId) post.gen
    { msg := .text (.posted post.id (if any then "delivered" else "stored")),
      answers := some post.request }

/-- The loop of `deliver_control`, and the answer of `handle_post` after it. -/
def deliverTo (post : Posting) (mail : Item) (any : Bool) : List Nat → Effect
  | [] => posted post any
  | gen :: others => .put (.deliver others any post) gen mail

namespace How

/-- Whether a full queue is waited for. -/
def waits : How → Bool
  | send _ | deliver .. => true
  | _ => false

/-- What is done next, after the message went into the queue. `handle_open` spawns the timer. -/
def sent (item : Item) (rest : List Effect) : How → List Effect
  | offer opening => .sleep openTimeout :: .call (.failOpen opening "timeout") :: rest
  | deliver others _ post => deliverTo post item true others :: rest
  | _ => rest

/-- The timer runs on its own. -/
def owner (o : Option Nat) : How → Option Nat
  | offer _ => none
  | _ => o

/-- What is done next, after the queue was full or closed. -/
def failed (gen : Nat) (item : Item) (rest : List Effect) : How → List Effect
  | push => rest
  | offer opening =>
    .call (.failOpen opening "limit") ::
      .put (.enqueue opening.sender) opening.gen
        { msg := .text (.openFailed opening.localId "limit"),
          answers := some opening.label.request } :: rest
  | enqueue peerId | send peerId => [.call (.unregister peerId gen)]
  | deliver others any post => deliverTo post item any others :: rest

/-- What becomes of the connection whose queue was full or closed. -/
def fail (l : Line) : How → Line
  | push | offer _ => { l with cancelled := true }
  | enqueue _ | send _ => { l with running := false }
  | deliver .. => if l.writer = .gone then l else { l with cancelled := true }

end How

/-! ## The state -/

/-- A request that is to be answered. -/
inductive Ask
  | «open» (gen : Nat) (localId : UInt32)
  | post (gen : Nat) (id : String)
  deriving DecidableEq

structure Ledger where
  /-- The requests; their numbers are the positions. -/
  asked : List Ask := []
  /-- The connections that tunnels were offered to; the numbers of the tunnels are the positions. -/
  offeredTo : List Nat := []
  /-- The tunnel last entered at an end. -/
  label : Endpoint → Label := fun _ => {}
  /-- When the opens that timed out were entered, and when they timed out. -/
  timeouts : List (Nat × Nat) := []
  /-- The requests that the opener closed before the answer. -/
  withdrawn : List Nat := []
  /-- The tunnels that a `close` was sent for and that it removed. -/
  closings : List (Nat × Nat) := []

structure Server where
  hub : Hub := {}
  lines : Nat → Line := fun _ => {}
  tasks : List (Task Nat Effect) := []
  now : Nat := 0
  ledger : Ledger := {}

inductive PostOutcome
  | stored
  | duplicate (status : String)
  | failed (code : String)
  deriving DecidableEq

inductive Action
  /-- A connection has proved who it is; `mails` wait for it. -/
  | connect (spec : RegisterSpec) (mails : List MailRow)
  /-- A text frame (`none`: not JSON); whether the limiter lets it pass, what the mailbox says to a
  `post`, and the tunnel that a `close` means. -/
  | text (gen : Nat) (granted : Bool) (text : Option Json) (outcome : PostOutcome)
      (sentFor : Option Nat)
  | binary (gen : Nat) (bytes : List UInt8)
  | ping (gen : Nat)
  /-- The loop of a connection ends, after a time without traffic or for another reason. -/
  | leave (gen : Nat) (idle : Bool)
  | perform (k : Nat)
  /-- The waiting of a task has lasted too long. -/
  | expire (k : Nat)
  | tick (ms : Nat)
  | write (gen : Nat) (move : WriterMove)

/-! ## Requests -/

/-- The request of a text frame, where it names what an answer could name. -/
def askOf (gen : Nat) (text : Option Json) : Option Ask :=
  text.bind fun v =>
    match (v.field? "t").bind Json.asStr with
    | none => none
    | some t =>
      if t = "open" then (tunnelId v).map (.open gen)
      else if t = "post" then ((v.field? "id").bind Json.asStr).map (.post gen)
      else none

section

variable (peerId : String) (gen request now : Nat)

def reply (msg : Control) (answers : Option Nat := none) : Effect :=
  .put (.enqueue peerId) gen { msg := .text msg, answers }

def handleWatch (v : Json) : Effect :=
  match watchPeers peerId v with
  | none => reply peerId gen (.error "invalid")
  | some peers => .call (.watch peerId gen peers)

def handleOpen (v : Json) : Effect :=
  match tunnelId v with
  | none => reply peerId gen (.error "invalid")
  | some tid =>
    match ((v.field? "to").bind Json.asStr).bind parsePeerId with
    | none => reply peerId gen (.openFailed tid "invalid") (some request)
    | some toPeer =>
      match toDevice v with
      | none => reply peerId gen (.openFailed tid "invalid") (some request)
      | some device => .call (.open peerId gen tid toPeer device request)

def handlePost (outcome : PostOutcome) (v : Json) : Effect :=
  match (v.field? "id").bind Json.asStr with
  | none => reply peerId gen (.error "invalid")
  | some id =>
    let invalid := reply peerId gen (.postFailed id "invalid") (some request)
    if !validMailId id then invalid
    else
      match ((v.field? "to").bind Json.asStr).bind parsePeerId with
      | none => invalid
      | some toPeer =>
        if toPeer = peerId then invalid
        else
          match v.field? "body" with
          | none => invalid
          | some body =>
            match outcome with
            | .failed code => reply peerId gen (.postFailed id code) (some request)
            | .duplicate status => reply peerId gen (.posted id status) (some request)
            | .stored => .call (.deliver ⟨peerId, gen, id, request⟩ toPeer ⟨id, peerId, now, body⟩)

/-- `on_text`, for a connection that is ready. -/
def onText (granted : Bool) (text : Option Json) (outcome : PostOutcome) (sentFor : Option Nat) :
    List Effect :=
  match text with
  | none => [reply peerId gen (.error "invalid")]
  | some v =>
    match (v.field? "t").bind Json.asStr with
    | none => [reply peerId gen (.error "invalid")]
    | some t =>
      if t ≠ "auth" && !granted then [reply peerId gen (.error "rate")]
      else if t = "ping" then [reply peerId gen (.pong ((v.field? "n").getD (.num 0)))]
      else if t = "auth" then [reply peerId gen (.error "invalid")]
      else if t = "watch" then [handleWatch peerId gen v]
      else if t = "open" then [handleOpen peerId gen request v]
      else if t = "accept" then
        match tunnelId v with
        | none => [reply peerId gen (.error "invalid")]
        | some tid => [.call (.accept peerId gen tid)]
      else if t = "reject" then
        match tunnelId v with
        | none => [reply peerId gen (.error "invalid")]
        | some tid => [.call (.reject peerId gen tid)]
      else if t = "close" then
        match tunnelId v with
        | none => []
        | some tid => [.call (.close peerId gen tid "remote" sentFor)]
      else if t = "post" then [handlePost peerId gen request now outcome v]
      -- `ack` only touches the mailbox
      else if t = "ack" then []
      else [reply peerId gen (.error "unknown_type")]

end

namespace Ledger

/-- A message of the hub for a connection, as the ledger knows its tunnel. -/
def item (l : Ledger) (gen : Nat) (msg : Control) : Item :=
  match msg with
  | .incoming x _ _ _ | .closed x _ =>
    { msg := .text msg, tunnel := some (l.label ⟨gen, x⟩).tunnel }
  | .opened x | .openFailed x _ =>
    { msg := .text msg, tunnel := some (l.label ⟨gen, x⟩).tunnel,
      answers := some (l.label ⟨gen, x⟩).request }
  | _ => { msg := .text msg }

def pushes (l : Ledger) (ps : List Push) : List Effect :=
  ps.map fun p => .put .push p.1 (l.item p.1 p.2)

/-- A tunnel between two ends begins. -/
def enter (l : Ledger) (a b : Endpoint) (label : Label) : Ledger :=
  { l with
    offeredTo := l.offeredTo ++ [b.remoteGen]
    label := update (update l.label a label) b label }

end Ledger

namespace Server

variable (s : Server)

/-! ## Calls -/

def labelOf (gen : Nat) (id : UInt32) : Label := s.ledger.label ⟨gen, id⟩

/-- What is written down when a connection closes a tunnel. -/
def noteClose (peerId : String) (gen : Nat) (localId : UInt32) (sentFor : Option Nat) : Ledger :=
  if s.hub.connMatches peerId gen && (s.hub.tunnels.conn gen).used localId then
    let label := s.labelOf gen localId
    { s.ledger with
      withdrawn := if (s.hub.tunnels.entry .pendingOut gen localId).isSome then
          s.ledger.withdrawn ++ [label.request] else s.ledger.withdrawn
      closings := s.ledger.closings ++ (sentFor.map (·, label.tunnel)).toList }
  else s.ledger

/-- What is written down when an open is failed. -/
def noteFail (opening : Opening) (code : String) : Ledger :=
  if code = "timeout" && s.hub.connMatches opening.sender opening.gen &&
      (s.hub.tunnels.entry .pendingOut opening.gen opening.localId).isSome then
    { s.ledger with
      timeouts := s.ledger.timeouts ++
        [((s.labelOf opening.gen opening.localId).since, s.now)] }
  else s.ledger

/-- The critical section of a call, and what it leaves to be done after it. -/
def enter : Call → Server × List Effect
  | .watch peerId gen peers =>
    let (snapshot, hub, pushes) := s.hub.setWatch peerId gen peers
    let l := s.lines gen
    ({ s with hub, lines := update s.lines gen { l with watchedAt := l.sent.length } },
      s.ledger.pushes pushes ++ snapshot.map (reply peerId gen ·))
  | .open sender gen localId toPeer toDevice request =>
    match s.hub.openTunnel sender gen localId toPeer toDevice with
    | (.error code, hub) =>
      ({ s with hub }, [reply sender gen (.openFailed localId code) (some request)])
    | (.ok (target, msg), hub) =>
      let label : Label := ⟨s.ledger.offeredTo.length, request, s.now⟩
      let other := (hub.tunnels.entry .pendingOut gen localId).getD ⟨target, 0⟩
      let ledger := s.ledger.enter ⟨gen, localId⟩ other label
      ({ s with hub, ledger },
        [.put (.offer ⟨sender, gen, localId, label⟩) target (ledger.item target msg)])
  | .failOpen opening code =>
    let (hub, pushes) := s.hub.failOpen opening.sender opening.localId opening.gen code
    ({ s with hub, ledger := s.noteFail opening code }, s.ledger.pushes pushes)
  | .accept peerId gen localId =>
    match s.hub.acceptTunnel peerId gen localId with
    | (.ok pushes, hub) => ({ s with hub }, s.ledger.pushes pushes)
    | (.error _, hub) => ({ s with hub }, [reply peerId gen (.error "invalid")])
  | .reject peerId gen localId =>
    match s.hub.rejectTunnel peerId gen localId with
    | (.ok pushes, hub) => ({ s with hub }, s.ledger.pushes pushes)
    | (.error _, hub) => ({ s with hub }, [reply peerId gen (.error "invalid")])
  | .close peerId gen localId code sentFor =>
    let (hub, pushes) := s.hub.closeTunnel peerId gen localId code
    ({ s with hub, ledger := s.noteClose peerId gen localId sentFor }, s.ledger.pushes pushes)
  | .tell gen item => (s, if gen ∈ s.hub.conns then [.put .push gen item] else [])
  | .forward peerId gen localId payload =>
    match s.hub.forwardBinary peerId gen localId with
    | none => (s, [])
    | some e =>
      (s, [.frame peerId gen localId e.remoteGen
        ⟨e.remoteId, payload, (s.labelOf gen localId).tunnel⟩])
  | .deliver post toPeer row =>
    (s, [deliverTo post row.item false (s.hub.controlTargets toPeer)])
  | .unregister peerId gen =>
    let (hub, pushes) := s.hub.unregister peerId gen
    ({ s with hub }, s.ledger.pushes pushes)

/-! ## Steps -/

def spawn (gen : Nat) (todo : List Effect) : Server :=
  { s with tasks := Task.spawn s.tasks (some gen) todo }

/-- `register`, and what `handle_auth` does after it. The queues of the new connection are empty,
as those of a generation that was not given yet. -/
def connect (spec : RegisterSpec) (mails : List MailRow) : Server :=
  let (res, hub, pushes) := s.hub.register spec
  let lines := match res.replaced with
    | none => s.lines
    | some old => update s.lines old (s.lines old).replaced
  let l := { s.lines res.generation with peerId := spec.peerId, running := true }
  let lines := update lines res.generation l
  let ready : Item := { msg := .text (.ready spec.peerId res.device res.otherDevices) }
  { s with hub, lines }.spawn res.generation
    (s.ledger.pushes pushes ++
      (ready :: mails.map MailRow.item).map (Effect.put (.send spec.peerId) res.generation))

/-- A connection reads its next frame: its loop goes on and is not in the middle of one. -/
def reads (gen : Nat) : Bool :=
  (s.lines gen).running && s.tasks.all (·.owner ≠ some gen)

def text (gen : Nat) (granted : Bool) (text : Option Json) (outcome : PostOutcome)
    (sentFor : Option Nat) : Server :=
  let todo := onText (s.lines gen).peerId gen s.ledger.asked.length s.now granted text outcome
    sentFor
  let ledger := { s.ledger with asked := s.ledger.asked ++ (askOf gen text).toList }
  { s with ledger }.spawn gen todo

def leave (gen : Nat) (idle : Bool) : Server :=
  let l := s.lines gen
  let l := if idle then (l.trySend { msg := .close }).getD l else l
  { s with lines := update s.lines gen { l with running := false } }.spawn gen
    [.call (.unregister (s.lines gen).peerId gen)]

/-- A message is not taken by its queue. -/
def putFails (k : Nat) (o : Option Nat) (rest : List Effect) (how : How) (gen : Nat)
    (item : Item) : Server :=
  { s with
    lines := update s.lines gen (how.fail (s.lines gen))
    tasks := Task.advance s.tasks k o (how.failed gen item rest) }

/-- A frame is not taken by its queue: the tunnel is closed for `overflow`. -/
def frameFails (k : Nat) (o : Option Nat) (rest : List Effect) (sender : String) (gen : Nat)
    (localId : UInt32) (frame : Frame) : Server :=
  { s with
    tasks := Task.advance s.tasks k o
      (.call (.close sender gen localId "overflow" none) ::
        .call (.tell gen { msg := .text (.closed localId "overflow"), tunnel := frame.tunnel }) ::
        rest) }

/-- A task performs its next effect, unless it has to wait. After a call the task goes to the end
of the list, so that the list is in the order of the calls. -/
def perform (k : Nat) (o : Option Nat) (rest : List Effect) : Effect → Option Server
  | .put how gen item =>
    match (s.lines gen).trySend item with
    | some l => some { s with
        lines := update s.lines gen l
        tasks := Task.advance s.tasks k (how.owner o) (how.sent item rest) }
    | none =>
      if how.waits && (s.lines gen).writer ≠ .gone then none
      else some (s.putFails k o rest how gen item)
  | .frame sender gen localId toGen frame =>
    match (s.lines toGen).sendFrame frame with
    | some l => some { s with
        lines := update s.lines toGen l
        tasks := Task.advance s.tasks k o rest }
    | none =>
      if (s.lines toGen).writer ≠ .gone then none
      else some (s.frameFails k o rest sender gen localId frame)
  | .sleep ms => some { s with tasks := Task.advance s.tasks k o (.wait (s.now + ms) :: rest) }
  | .wait due =>
    if due ≤ s.now then some { s with tasks := Task.advance s.tasks k o rest } else none
  | .call c =>
    let (s', es) := s.enter c
    some { s' with tasks := Task.requeue s.tasks k o (es ++ rest) }

/-- A task gives up waiting for a full queue: after `CONTROL_PUSH_TIMEOUT_MS` in `send_ctl_wait`,
after `FORWARD_TIMEOUT_SECS` in `forward_binary`. -/
def expire (k : Nat) (o : Option Nat) (rest : List Effect) : Effect → Option Server
  | .put (.deliver others any post) gen item =>
    if (s.lines gen).trySend item = none then
      some (s.putFails k o rest (.deliver others any post) gen item)
    else none
  | .frame sender gen localId toGen frame =>
    if (s.lines toGen).sendFrame frame = none then
      some (s.frameFails k o rest sender gen localId frame)
    else none
  | _ => none

/-- The next effect of a task, with what comes after it. -/
def next (k : Nat) : Option (Option Nat × Effect × List Effect) :=
  match s.tasks[k]? with
  | some ⟨o, e :: rest⟩ => some (o, e, rest)
  | _ => none

/-- The effect that an action performs, if it lets a task go on. -/
def performed : Action → Option Effect
  | .perform k => (s.next k).map (·.2.1)
  | _ => none

def step : Action → Option Server
  | .connect spec mails => some (s.connect spec mails)
  | .text gen granted v outcome sentFor =>
    if s.reads gen then some (s.text gen granted v outcome sentFor) else none
  | .binary gen bytes =>
    if s.reads gen then
      match decodeFrame bytes with
      | none => some s
      | some (tid, payload) =>
        some (s.spawn gen [.call (.forward (s.lines gen).peerId gen tid payload)])
    else none
  | .ping gen =>
    if s.reads gen then
      some (s.spawn gen [.put (.enqueue (s.lines gen).peerId) gen { msg := .pong }])
    else none
  | .leave gen idle => if s.reads gen then some (s.leave gen idle) else none
  | .perform k => (s.next k).bind fun (o, e, rest) => s.perform k o rest e
  | .expire k => (s.next k).bind fun (o, e, rest) => s.expire k o rest e
  | .tick ms => some { s with now := s.now + ms }
  | .write gen move =>
    ((s.lines gen).write move).map fun l => { s with lines := update s.lines gen l }

end Server

end Bluetalk.Relay
