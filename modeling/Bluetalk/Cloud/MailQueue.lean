import Bluetalk.Relay.Mailbox
import Bluetalk.Theory.Keyed

/-!
# The mail of a device

`cloud/mailbox.rs`, and `handleMail`, `drainMail` and `ackMail` of `relayClient.js`, which keep the
same two collections: devices with their queues, over the relay with its mailbox. The queue of a
device outlives its connections. The app takes a batch out of the queue and acknowledges what it
could handle of it.

`got`, `mark`, `lost` and `suppressed` are kept for the statements; no step depends on them.
-/

namespace Bluetalk.Cloud

open Relay

abbrev MailItem := MailRow

/-- `in_flight` is a map from the ids. -/
structure MailQueue where
  items : List MailItem := []
  inFlight : List MailItem := []

namespace MailQueue

variable (q : MailQueue)

def push (item : MailItem) : MailQueue :=
  if q.inFlight.any (·.id = item.id) then q
  else if q.items.any (·.id = item.id) then q
  else { q with items := q.items ++ [item] }

/-- What is handed out is on its way; nothing is acknowledged yet. -/
def drain : List MailItem × MailQueue :=
  (q.items, { items := [], inFlight := putAll (·.id) q.items q.inFlight })

def ack (ids : List String) : MailQueue where
  items := q.items.filter (·.id ∉ ids)
  inFlight := q.inFlight.filter (·.id ∉ ids)

/-- In a new session the relay sends again what is not acknowledged. -/
def clearInFlight : MailQueue := { q with inFlight := [] }

end MailQueue

/-- The ids that `ackMail` sends. The desktop trims with `str::trim` and counts bytes. -/
def ackIds (ids : List String) : List String :=
  ((ids.map jsTrim).filter fun id => id ≠ "" ∧ utf16Length id ≤ 128).take 500

/-- What makes two mails for a recipient the same one. -/
structure Letter where
  id : String
  sender : String
  body : Json
  deriving DecidableEq

def letterOf (item : MailItem) : Letter := ⟨item.id, item.sender, item.body⟩

/-- The mail that a message brings. -/
def mailOf (item : Item) : Option MailItem :=
  match item.msg with
  | .text (.mail id sender ts body) => some ⟨id, sender, ts, body⟩
  | _ => none

structure MailClient where
  peerId : String
  /-- The connections it has had, and the one it reads from. -/
  conns : List Nat := []
  conn : Option Nat := none
  /-- How many messages it has read from that. -/
  read : Nat := 0
  queue : MailQueue := {}
  /-- What the app has taken out and not finished with. -/
  batches : List (List MailItem) := []
  /-- The `ack`s that have not reached the relay. -/
  acks : List (List String) := []

namespace MailClient

variable (c : MailClient)

/-- A message is handled. -/
def receive (item : Item) : MailClient :=
  let c := { c with read := c.read + 1 }
  match item.msg with
  | .text (.ready ..) => { c with queue := c.queue.clearInFlight }
  | .text (.mail id sender ts body) => { c with queue := c.queue.push ⟨id, sender, ts, body⟩ }
  | _ => c

/-- `drainCloudMail` takes a batch. -/
def drain : MailClient :=
  { c with queue := c.queue.drain.2, batches := c.batches ++ [c.queue.drain.1] }

/-- It is through with a batch, and acknowledges these ids of it. -/
def handled (k : Nat) (ids : List String) : MailClient :=
  let c := { c with batches := c.batches.eraseIdx k }
  if (ackIds ids).isEmpty then c
  else { c with queue := c.queue.ack (ackIds ids), acks := c.acks ++ [ackIds ids] }

def loseAck (k : Nat) : MailClient := { c with acks := c.acks.eraseIdx k }

/-- The mails it has, and those it may acknowledge. -/
def kept : List MailItem := c.queue.items ++ c.queue.inFlight ++ c.batches.flatten

def known : List String := c.kept.map (·.id) ++ c.acks.flatten

end MailClient

def ackFrame (ids : List String) : Json :=
  .obj [("t", .str "ack"), ("ids", .arr (ids.map .str))]

structure MailNet where
  relay : MailServer := {}
  clients : List MailClient := []
  /-- What devices have received, each with its peer. -/
  got : List (String × Letter) := []
  /-- How much had been received when the mail of this key was stored. -/
  mark : String × String → Nat := fun _ => 0
  /-- What an `ack` removed that no device had received since it was stored. -/
  lost : List Mail := []
  /-- What a queue did not take though it was another mail than the one that the queue had. -/
  suppressed : List (String × Letter) := []

inductive MailNetAction
  /-- A device of a peer. -/
  | start (peerId : String)
  | connect (c : Nat) (spec : RegisterSpec)
  | disconnect (c : Nat)
  /-- The relay does something, or anybody sends it anything but an `ack`. -/
  | relay (act : MailAction)
  | ack (c k gen : Nat) (granted : Bool)
  | loseAck (c k : Nat)
  | read (c : Nat)
  | drain (c : Nat)
  | handled (c k : Nat) (ids : List String)

def storing (s : MailServer) : MailAction → Option (String × MailPost)
  | .text gen granted text faults size stamp _ =>
    let peerId := (s.server.lines gen).peerId
    match postOf peerId granted text, (s.jobs gen granted text faults size stamp).1 with
    | some p, .stored => some (peerId, p)
    | _, _ => none
  | _ => none

/-- The relay takes these without a device's part in it. -/
def unprompted : MailAction → Bool
  | .connect _ => false
  | .text _ granted text .. => ackOf granted text = []
  | _ => true

/-- The messages that can be read from a connection: none that is left in the queue when the writer
is gone. -/
def readable (l : Line) : List Item :=
  if l.writer = .gone then l.received.filterMap Event.item? else l.sent

/-- The connections to which an effect sends its message. -/
def receivers (how : How) (gen : Nat) : List Nat :=
  match how with
  | .deliver others _ _ => gen :: others
  | _ => [gen]

/-- The mail that an effect is about to send to the peer, through connections that it reads. -/
def carried (reach : Nat → Bool) (peerId : String) : Effect → Option Letter
  | .put how gen item => if (receivers how gen).any reach then (mailOf item).map letterOf else none
  | .call (.deliver _ toPeer row) => if toPeer = peerId then some (letterOf row) else none
  | _ => none

namespace MailNet

variable (s : MailNet)

def set (c : Nat) (client : MailClient) : MailNet := { s with clients := s.clients.set c client }

def mail (m : Mail) : Letter := ⟨m.id, m.sender, m.body⟩

def markStored (act : MailAction) : String × String → Nat :=
  match storing s.relay act with
  | some (sender, p) => Function.update s.mark (sender, p.id) s.got.length
  | none => s.mark

/-- The mails that were in the mailbox and are not any more, unreceived. -/
def unreceived (box : Mailbox) : List Mail :=
  s.relay.box.mail.filter fun m =>
    m ∉ box.mail ∧ (m.recipient, mail m) ∉ s.got.drop (s.mark m.key)

/-- The client reads a message. -/
def readBy (c : Nat) (client : MailClient) (item : Item) : MailNet :=
  let s' := s.set c (client.receive item)
  match mailOf item with
  | none => s'
  | some row =>
    let letter := letterOf row
    let held := client.queue.items ++ client.queue.inFlight
    { s' with
      got := s.got ++ [(client.peerId, letter)]
      suppressed :=
        if held.any (·.id = row.id) && !held.any (letterOf · = letter) then
          s.suppressed ++ [(client.peerId, letter)]
        else s.suppressed }

def incoming (client : MailClient) : List Item :=
  match client.conn with
  | none => []
  | some g => (readable (s.relay.server.lines g)).drop client.read

def step : MailNetAction → Option MailNet
  | .start peerId => some { s with clients := s.clients ++ [{ peerId }] }
  | .connect c spec =>
    s.clients[c]?.bind fun client =>
      if spec.peerId = client.peerId then
        let gen := (s.relay.server.hub.register spec).1.generation
        (s.relay.step (.connect spec)).map fun relay =>
          { s with relay }.set c { client with
            conns := gen :: client.conns, conn := some gen, read := 0 }
      else none
  | .disconnect c => s.clients[c]?.map fun client => s.set c { client with conn := none }
  | .relay act =>
    if unprompted act then
      (s.relay.step act).map fun relay => { s with relay, mark := s.markStored act }
    else none
  | .ack c k gen granted =>
    s.clients[c]?.bind fun client =>
      client.acks[k]?.bind fun ids =>
        if gen ∈ client.conns then
          (s.relay.step (.text gen granted (some (ackFrame ids)) {} 0 0 none)).map fun relay =>
            { s with relay, lost := s.lost ++ s.unreceived relay.box }.set c (client.loseAck k)
        else none
  | .loseAck c k => s.clients[c]?.map fun client => s.set c (client.loseAck k)
  | .read c =>
    s.clients[c]?.bind fun client =>
      client.conn.bind fun gen =>
        (((s.relay.server.lines gen).received.filterMap Event.item?)[client.read]?).map
          (s.readBy c client)
  | .drain c => s.clients[c]?.map fun client => s.set c client.drain
  | .handled c k ids =>
    s.clients[c]?.bind fun client =>
      client.batches[k]?.bind fun batch =>
        if ids.all (· ∈ batch.map (·.id)) then some (s.set c (client.handled k ids)) else none

/-! ## The mails that are around -/

/-- A device of the peer can still read what goes to the connection. -/
def reachable (peerId : String) (g : Nat) : Bool :=
  s.clients.any (fun c => c.peerId = peerId ∧ c.conn = some g) &&
    (s.relay.server.lines g).writer ≠ .gone

def clientsOf (peerId : String) : List MailClient := s.clients.filter (·.peerId = peerId)

/-- The mails for the peer: those that wait, those that are on their way, and those that a device
has. -/
def letters (peerId : String) : List Letter :=
  (s.relay.box.mailsFor peerId).map mail ++
    (Task.allTodo s.relay.server.tasks).filterMap (carried (s.reachable peerId) peerId) ++
      (s.clientsOf peerId).flatMap fun c =>
        ((s.incoming c).filterMap mailOf ++ c.kept).map letterOf

/-- The ids that an `ack` on its way names. -/
def acked (peerId : String) : List String := (s.clientsOf peerId).flatMap (·.acks.flatten)

/-- A mail is stored only under an id that no other mail for the recipient has that is around, and
that no `ack` names. -/
def unused : MailNetAction → Bool
  | .relay act =>
    (storing s.relay act).all fun (_, p) =>
      (s.letters p.toPeer).all (·.id ≠ p.id) && p.id ∉ s.acked p.toPeer
  | _ => true

/-- No `ack` has removed a mail that no device of its recipient received since it was stored, and no
queue has taken a mail for another. -/
structure Safe : Prop where
  lost : s.lost = []
  suppressed : s.suppressed = []

end MailNet

end Bluetalk.Cloud
