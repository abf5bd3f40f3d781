import Bluetalk.Chat.GroupAgreement
import Bluetalk.Groups.Publishing

/-!
# Packets of groups between clients

Clients that send each other the packets of their groups, and answer them. What a client queues is sent
again until it is answered. `processed` notes every packet that is queued and that its recipient has
processed, with the place of his answers among what he has sent; `read` notes what has arrived.
-/

open List Option

namespace Bluetalk.Chat
open CloudAccount Storage Groups

structure Processed where
  sender : String
  entry : OutboxEntry
  first : Nat
  last : Nat

structure Exchange where
  clients : String → Client
  read : List (String × Nat)
  processed : List Processed

inductive ExchangeAct
  | perform (p : String) (now : Int) (messageId groupId : String) (act : GroupAction)
  | create (p : String) (now : Int) (id : String) (inviteId : String → String)
      (contacts : List Json) (name image displayName : Json) (memberIds : List String)
  | update (p : String) (now : Int) (updateId : String) (inviteId : String → String)
      (contacts : List Json) (groupId : Json) (patch : Groups.Device.GroupPatch)
  | leave (p : String) (now : Int) (newId : String) (groupId : Json)
  | flush (p peerId : String)
  | transmit (p peerId : String) (packet : Json)
  /-- What a client has sent arrives, for the first time or once more. -/
  | deliver (p : String) (i : Nat) (encrypted : Message) (now : Int) (newId : String)
  /-- Whatever else happens on a client. It may take packets from the outbox. -/
  | other (p : String) (c : Client)

namespace Exchange

def device (s : Exchange) (p : String) : Groups.Device := (s.clients p).device

/-- The client goes on, and what is not queued any more need not be answered. -/
def goOn (s : Exchange) (p : String) (c : Client) (read : List (String × Nat))
    (processed : List Processed) : Exchange :=
  let clients := Function.update s.clients p c
  { clients := clients
    read := read ++ s.read
    processed := (processed ++ s.processed).filter fun x =>
      x.entry ∈ (clients x.sender).device.outbox }

/-- Only the device of a client goes on. -/
def onDevice (s : Exchange) (p : String) (d : Groups.Device) : Exchange :=
  s.goOn p { s.clients p with device := d } [] []

def arrival (s : Exchange) (p : String) (packet : Json) (encrypted : Message) (now : Int)
    (newId : String) : Arrival :=
  sealed encrypted newId now (s.clients p).displayName p packet

def step (s : Exchange) : ExchangeAct → Option Exchange
  | .perform p now messageId groupId act =>
    if messageId = "" then none
    else some (s.goOn p (act.perform now messageId groupId (s.clients p)).1 [] [])
  | .create p now id inviteId contacts name image displayName memberIds =>
    if ∃ r ∈ memberIds, inviteId r = "" then none
    else some (s.onDevice p ((s.device p).createGroupChat now id inviteId contacts name image
      displayName memberIds))
  | .update p now updateId inviteId contacts groupId patch =>
    if updateId = "" ∨ ((s.device p).group? groupId).any (fun g =>
        ∃ r ∈ Groups.Device.newIds now g contacts patch, inviteId r = "") then none
    else some (s.onDevice p ((s.device p).updateGroupChat now updateId inviteId contacts groupId
      patch))
  | .leave p now newId groupId =>
    if newId = "" then none
    else some (s.onDevice p ((s.device p).leaveGroupChat now newId groupId))
  | .flush p peerId => some (s.onDevice p ((s.device p).flushGroupOutbox peerId))
  | .transmit p peerId packet => some (s.onDevice p ((s.device p).transmit peerId packet))
  | .deliver p i encrypted now newId =>
    match (s.device p).sent[i]? with
    | none => none
    | some (q, packet) =>
      if p = "" ∨ q = p ∨ newId = "" ∨
          ¬ (groupProtocolKinds.any fun k => packet.get "kind" = .str k) then none
      else
        let received := (s.clients q).receive now newId (s.arrival p packet encrypted now newId)
        let queued := (s.device p).outbox.filter fun e => e.peerId = q && e.packet = packet
        some (s.goOn q received.1 [(p, i)] (queued.map fun e =>
          ⟨p, e, (s.device q).sent.length, received.1.device.sent.length⟩))
  | .other p c =>
    if c.device.ownPeerId = (s.device p).ownPeerId ∧ c.device.sent = (s.device p).sent ∧
        c.device.outbox ⊆ (s.device p).outbox then some (s.goOn p c [] [])
    else none

/-- Of every packet that is still queued and that the recipient has processed, the sender has yet to
process an answer. -/
def Drained (s : Exchange) : Prop := ∀ x ∈ s.processed, ∃ j packet, x.first ≤ j ∧ j < x.last ∧
  (s.device x.entry.peerId).sent[j]? = some (x.sender, packet) ∧ (x.entry.peerId, j) ∉ s.read

/-- An event of the device's own, as `sendGroupPacket` queues it -/
structure OwnEvent (ownPeerId : String) (e : OutboxEntry) : Prop where
  packetId : e.packetId ≠ ""
  kind : e.packet.get "kind" = .str groupEventKind
  eventId : e.packet.get "eventId" = .str e.packetId
  actorId : e.packet.get "actorId" = .str ownPeerId

/-- A message, a reaction or an edit of the device's own, as `sendGroupPacket` queues it -/
structure OwnMessage (ownPeerId : String) (e : OutboxEntry) : Prop where
  messageId : e.messageId ≠ ""
  kind : e.packet.get "kind" = .str groupMessageKind
  packetMessageId : e.packet.get "messageId" = .str e.messageId
  senderPeerId : e.packet.get "senderPeerId" = .str ownPeerId
  content : e.type = "message" ∨
    isStoreableChatKind ((e.packet.get "payload").get "kind") = false

def OwnPacket (ownPeerId : String) (e : OutboxEntry) : Prop :=
  OwnEvent ownPeerId e ∨ OwnMessage ownPeerId e

structure Start (s : Exchange) : Prop where
  ownPeerId : ∀ p, (s.device p).ownPeerId = p
  outbox : ∀ p, ∀ e ∈ (s.device p).outbox, OwnPacket p e
  read : s.read = []
  processed : s.processed = []

/-! ### When packets are answered -/

/-- The device answers the frame: it knows the event or applies it, or stores the message. -/
def Answers (c : Client) (fromId : String) (now : Int) (m : Message) : Prop :=
  m.field "kind" = .str groupEventKind ∧ (m.field "eventId" ∈ c.device.eventIds ∨
    ∃ g duplicate shouldAccept shouldBroadcast,
      applyGroupEvent now (c.device.group? (m.field "groupId")) (.obj m.fields) c.device.ownPeerId =
        .ok (.applied g duplicate shouldAccept shouldBroadcast)) ∨
  m.field "kind" = .str groupMessageKind ∧ ∃ g message, c.Accepts fromId m g message

/-- The receipt of a client for the packet -/
structure Answer (receipt : Json) (fromId : String) (e : OutboxEntry) : Prop where
  kind : receipt.get "kind" = .str groupReceiptKind
  senderPeerId : receipt.get "senderPeerId" = .str fromId
  ref : (receipt.get "refEventId").truthy ∧ receipt.get "refEventId" = .str e.packetId ∨
    ¬ (receipt.get "refEventId").truthy ∧ (receipt.get "refMessageId").truthy ∧
      receipt.get "refMessageId" = .str e.messageId ∧ e.type = "message"

/-- The device still has the group of a receipt, and for the receipt of a message the message is loaded
and went to the sender of the receipt, and the store takes its change. -/
def Clears (c : Client) (fromId : String) (now : Int) (m : Message) : Prop :=
  ∃ g, c.device.group? (m.field "groupId") = some g ∧ ((m.field "refEventId").truthy ∨
    ∃ existing c', (c.cache g.id).find? (fun item => item.field "messageId" = m.field "refMessageId" &&
        item.field "from" = .str "self") = some existing ∧
      (existing.field "groupRecipientIds").items.contains (.str fromId) ∧
      c.applyMessagePatch g.id (m.field "refMessageId")
        (Client.receiptPatch existing (.obj m.fields) fromId now) = .ok c')

/-- A queued packet is answered where it arrives, and a receipt for one arrives where the device can make
something of it; neither comes from a blocked contact. -/
def Prompt (s : Exchange) : ExchangeAct → Prop
  | .deliver p i encrypted now newId => ∀ q packet m, (s.device p).sent[i]? = some (q, packet) →
    (s.arrival p packet encrypted now newId).normalized now newId = some (m, true) →
    ((∃ e ∈ (s.device p).outbox, e.peerId = q ∧ e.packet = packet) →
      (s.clients q).isBlocked p = false ∧ Answers (s.clients q) p now m) ∧
    ((∃ e ∈ (s.device q).outbox, e.peerId = p ∧ Answer (.obj m.fields) p e) →
      (s.clients q).isBlocked p = false ∧ Clears (s.clients q) p now m)
  | _ => True

/-! ### What a client sends -/

/-- A client goes on: it sends more, and what it queues is its own. -/
structure Extends (d d' : Groups.Device) : Prop where
  ownPeerId : d'.ownPeerId = d.ownPeerId
  sent : d.sent <+: d'.sent
  outbox : ∀ e ∈ d'.outbox, e ∈ d.outbox ∨ OwnPacket d.ownPeerId e

/-- An event of a group, with its author and its id -/
structure IsEvent (event : Json) (actorId id : String) : Prop where
  kind : event.get "kind" = .str groupEventKind
  eventId : event.get "eventId" = .str id
  actorId : event.get "actorId" = .str actorId

section

variable {d d₁ d₂ : Groups.Device} {now : Int} {id newId peerId fromId actorId groupId : String}
  {event packet : Json} {g next : Group} {outbox : List OutboxEntry} {recipients : List String}
  {inviteId : String → String} {contacts : List Json}

namespace Extends

theorem of_outbox_subset (hown : d₁.ownPeerId = d.ownPeerId) (hsent : d.sent <+: d₁.sent)
    (houtbox : d₁.outbox ⊆ d.outbox) : Extends d d₁ :=
  ⟨hown, hsent, fun _ he => .inl (houtbox he)⟩

theorem refl (d : Groups.Device) : Extends d d := .of_outbox_subset rfl (prefix_refl _) (List.Subset.refl _)

theorem trans (h₁ : Extends d d₁) (h₂ : Extends d₁ d₂) : Extends d d₂ where
  ownPeerId := h₂.ownPeerId.trans h₁.ownPeerId
  sent := h₁.sent.trans h₂.sent
  outbox := by
    intro e he
    obtain he | hown := h₂.outbox e he
    · exact h₁.outbox e he
    · exact .inr (h₁.ownPeerId ▸ hown)

end Extends

theorem extends_transmit : Extends d (d.transmit peerId packet) :=
  .of_outbox_subset rfl (prefix_append _ _) (List.Subset.refl _)

theorem mem_persistGroupOutbox {e : OutboxEntry}
    (h : e ∈ (d.persistGroupOutbox outbox).outbox) : e ∈ outbox := by
  have hdrop : (d.persistGroupOutbox outbox).outbox = outbox.rtake 1000 := by
    rw [Groups.Device.persistGroupOutbox]
  rw [hdrop, List.rtake] at h
  exact mem_of_mem_drop h

theorem extends_persistGroupOutbox (h : outbox ⊆ d.outbox) :
    Extends d (d.persistGroupOutbox outbox) := by
  have hsent : (d.persistGroupOutbox outbox).sent = d.sent := by
    rw [Groups.Device.persistGroupOutbox]
  refine .of_outbox_subset Groups.Device.sameGroups_persistGroupOutbox.ownPeerId ?_ fun e he =>
    h (mem_persistGroupOutbox he)
  exact hsent ▸ prefix_refl _

theorem extends_sendGroupPacket {type packetId messageId : String}
    (h : OwnPacket d.ownPeerId (Groups.Device.entryOf peerId packet type packetId messageId groupId)) :
    Extends d (d.sendGroupPacket peerId packet type packetId messageId groupId) := by
  have henqueue : Extends d
      (d.enqueue (Groups.Device.entryOf peerId packet type packetId messageId groupId)) := by
    refine ⟨Groups.Device.sameGroups_persistGroupOutbox.ownPeerId, ?_, fun e he => ?_⟩
    · exact Groups.Device.sent_enqueue ▸ prefix_refl _
    obtain he | he := mem_append.mp (mem_persistGroupOutbox he)
    · exact .inl (mem_of_mem_filter he)
    · rw [mem_singleton.mp he]
      exact .inr h
  exact henqueue.trans extends_transmit

theorem IsEvent.ownPacket (h : IsEvent event actorId id) (hid : id ≠ "") :
    OwnPacket actorId (Groups.Device.entryOf peerId event "control" (event.get "eventId").stringOrEmpty ""
      groupId) := by
  have hentry : (event.get "eventId").stringOrEmpty = id := by
    rw [h.eventId]
    rfl
  rw [hentry]
  exact .inl ⟨hid, h.kind, h.eventId, h.actorId⟩

theorem extends_sendControl (h : IsEvent event d.ownPeerId id)
    (hid : id ≠ "") : Extends d (d.sendControl recipients event groupId) := by
  induction recipients generalizing d with
  | nil => exact .refl d
  | cons recipientId recipients ih =>
    have hfirst : Extends d (d.sendGroupPacket recipientId event "control"
        (event.get "eventId").stringOrEmpty "" groupId) := extends_sendGroupPacket (h.ownPacket hid)
    exact hfirst.trans (ih (by rw [hfirst.ownPeerId]; exact h))

theorem isEvent_of_carries (h : Groups.Carries event actorId id g) : IsEvent event actorId id :=
  ⟨h.kind, h.eventId, h.actorId⟩

theorem isEvent_update {previous : Group} {reason : String}
    (h : createGroupUpdateEvent previous next actorId reason id now = .ok event) :
    IsEvent event actorId id := by
  obtain ⟨v, -, hcarries, -⟩ := carries_update h
  exact isEvent_of_carries hcarries

theorem isEvent_accept (h : createGroupAcceptEvent g actorId id now = .ok event) :
    IsEvent event actorId id := by
  rw [createGroupAcceptEvent] at h
  split at h
  · split at h
    · obtain rfl := Except.ok.inj h
      exact ⟨rfl, rfl, rfl⟩
    · cases h
  · cases h

theorem isEvent_leave (h : createGroupLeaveEvent g actorId id now = .ok event) :
    IsEvent event actorId id := by
  rw [createGroupLeaveEvent] at h
  split at h
  · obtain rfl := Except.ok.inj h
    exact ⟨rfl, rfl, rfl⟩
  · cases h

theorem extends_sendInvites (hid : ∀ r ∈ recipients, inviteId r ≠ "") :
    Extends d (d.sendInvites now inviteId g recipients) := by
  induction recipients generalizing d with
  | nil => exact .refl d
  | cons recipientId recipients ih =>
    rw [forall_mem_cons] at hid
    rw [Groups.Device.sendInvites]
    split
    next => exact .refl d
    next invite hinvite =>
    obtain ⟨v, -, hcarries⟩ := carries_invite hinvite
    exact (extends_sendControl (isEvent_of_carries hcarries) hid.1).trans (ih hid.2)

theorem extends_replaceGroup : Extends d (d.replaceGroup now g) := by
  rw [Groups.Device.replaceGroup]
  split
  · exact .refl d
  · exact .of_outbox_subset rfl (prefix_refl _) (List.Subset.refl _)

theorem extends_acceptInvitation (hid : newId ≠ "") :
    Extends d (d.acceptInvitation now newId fromId g) := by
  rw [Groups.Device.acceptInvitation]
  split
  next => exact .refl d
  next accept haccept => exact extends_sendControl (isEvent_accept haccept) hid

theorem extends_publishMembership {current : Group} (hid : newId ≠ "") :
    Extends d (d.publishMembership now newId event current g) := by
  rw [Groups.Device.publishMembership]
  split
  next => exact .refl d
  next update hupdate => exact extends_sendControl (isEvent_update hupdate) hid

theorem extends_handleEventReceipt : Extends d (d.handleEventReceipt packet fromId) := by
  rw [Groups.Device.handleEventReceipt]
  split
  · exact extends_persistGroupOutbox fun _ he => mem_of_mem_filter he
  · exact .refl d

theorem extends_eventReceipt (hid : newId ≠ "") (hfrom : fromId ≠ "")
    (hactor : event.get "actorId" = .str fromId)
    (hanswers : event.get "eventId" ∈ d.eventIds ∨ ∃ g, d.Applies now event g) :
    ∃ d₁, Extends d₁ (d.handleGroupEvent now newId event fromId) ∧ d₁.ownPeerId = d.ownPeerId ∧
      d₁.outbox = d.outbox ∧ d₁.sent = d.sent ++ [(fromId, Groups.Device.eventReceipt now event d.ownPeerId)] := by
  rw [Groups.Device.handleGroupEvent, if_neg (not_or.mpr ⟨hfrom, not_not_intro hactor⟩)]
  split
  next => exact ⟨_, .refl _, rfl, rfl, rfl⟩
  next hfresh =>
  obtain ⟨g, duplicate, shouldAccept, shouldBroadcast, happlied⟩ := hanswers.resolve_left hfresh
  dsimp only
  rw [happlied]
  dsimp only
  obtain ⟨stored, hstored⟩ : ∃ stored, stored =
    (d.rememberIncomingGroupEvent (event.get "eventId")).replaceGroup now g := ⟨_, rfl⟩
  rw [← hstored]
  have hsame : stored.ownPeerId = d.ownPeerId ∧ stored.outbox = d.outbox ∧
      stored.sent = d.sent := by
    rw [hstored, Groups.Device.replaceGroup]
    split <;> exact ⟨rfl, rfl, rfl⟩
  refine ⟨stored.sendEventReceipt now event fromId, ?_, hsame.1, hsame.2.1, ?_⟩
  · have haccepted : Extends (stored.sendEventReceipt now event fromId)
        (if shouldAccept then (stored.sendEventReceipt now event fromId).acceptInvitation now newId
          fromId g else stored.sendEventReceipt now event fromId) := by
      split
      · exact extends_acceptInvitation hid
      · exact .refl _
    split
    · split
      · exact haccepted.trans (extends_publishMembership hid)
      · exact haccepted
    · exact haccepted
  · rw [Groups.Device.sendEventReceipt, Groups.Device.transmit, hsame.1, hsame.2.2]

theorem extends_handleGroupEvent (hid : newId ≠ "") :
    Extends d (d.handleGroupEvent now newId event fromId) := by
  by_cases hsender : fromId = "" ∨ event.get "actorId" ≠ .str fromId
  · rw [Groups.Device.handleGroupEvent, if_pos hsender]
    exact .refl d
  obtain ⟨hfrom, hactor⟩ := not_or.mp hsender
  by_cases hanswers : event.get "eventId" ∈ d.eventIds ∨ ∃ g, d.Applies now event g
  · obtain ⟨d₁, hextends, hown, houtbox, hsent⟩ :=
      extends_eventReceipt hid hfrom (not_not.mp hactor) hanswers
    refine .trans (.of_outbox_subset hown ?_ ?_) hextends
    · rw [hsent]
      exact prefix_append _ _
    · rw [houtbox]
      exact List.Subset.refl _
  · obtain ⟨hfresh, hunapplied⟩ := not_or.mp hanswers
    rw [Groups.Device.handleGroupEvent, if_neg hsender, if_neg hfresh]
    dsimp only
    split
    · exact .refl d
    · exact .refl d
    next g duplicate shouldAccept shouldBroadcast happlied =>
    exact absurd ⟨g, _, _, _, happlied⟩ hunapplied

theorem extends_createGroupChat {name image displayName : Json} {memberIds : List String} (hid : ∀ r ∈ memberIds, inviteId r ≠ "") :
    Extends d (d.createGroupChat now id inviteId contacts name image displayName memberIds) := by
  obtain heq | ⟨g, v, recipients, -, -, -, hsubset, -, heq⟩ := @Groups.Device.createGroupChat_cases d now
    inviteId contacts id name image displayName memberIds
  · rw [heq]
    exact .refl d
  · rw [heq]
    exact extends_replaceGroup.trans (extends_sendInvites fun r hr => hid r (hsubset hr))

theorem extends_updateGroupChat {updateId : String} {groupId : Json} {patch : Groups.Device.GroupPatch} (hupdate : updateId ≠ "")
    (hid : ∀ g, d.group? groupId = some g → ∀ r ∈ Groups.Device.newIds now g contacts patch,
      inviteId r ≠ "") :
    Extends d (d.updateGroupChat now updateId inviteId contacts groupId patch) := by
  obtain heq | ⟨g, next, v, update, hg, -, -, hcarries, -, -, -, -, heq⟩ :=
    @Groups.Device.updateGroupChat_cases d now updateId inviteId contacts groupId patch
  · rw [heq]
    exact .refl d
  rw [heq]
  have hstored : Extends d (d.replaceGroup now next) := extends_replaceGroup
  refine (hstored.trans (extends_sendControl ?_ hupdate)).trans (extends_sendInvites (hid g hg))
  rw [hstored.ownPeerId]
  exact isEvent_of_carries hcarries

theorem extends_leaveGroupChat {groupId : Json} (hid : newId ≠ "") :
    Extends d (d.leaveGroupChat now newId groupId) := by
  rw [Groups.Device.leaveGroupChat]
  split
  · exact .refl d
  next current _ =>
  split
  next leave next hleave _ =>
    have hstored : Extends d (d.replaceGroup now next) := extends_replaceGroup
    split
    · split
      · exact hstored
      next update hupdate =>
      refine hstored.trans (extends_sendControl ?_ hid)
      rw [hstored.ownPeerId]
      exact isEvent_update hupdate
    · refine hstored.trans (extends_sendControl ?_ hid)
      rw [hstored.ownPeerId]
      exact isEvent_leave hleave
  · exact .refl d

theorem extends_flushGroupOutbox : Extends d (d.flushGroupOutbox peerId) := by
  have hfold : ∀ (entries : List OutboxEntry) (d : Groups.Device), Extends d
      (entries.foldl (fun d entry => d.transmit peerId entry.packet) d) := by
    intro entries
    induction entries with
    | nil => exact fun d => .refl d
    | cons entry entries ih => exact fun d => extends_transmit.trans (ih _)
  exact hfold _ d

end

section

variable {c c' : Client} {now time : Int} {messageId groupId newId fromId : String} {g : Group}
  {payload sender : Json} {type packetId : String} {recipients : List String}

theorem ownPacket_groupEnvelope {actorId recipientId : String} (hid : messageId ≠ "")
    (htype : type = "message" ∨ isStoreableChatKind (payload.get "kind") = false) :
    OwnPacket actorId (Groups.Device.entryOf recipientId
      (groupEnvelope g messageId actorId sender time payload) type packetId messageId groupId) :=
  .inr ⟨hid, rfl, rfl, rfl, htype⟩

theorem extends_sendToGroup {packet : Json}
    (h : ∀ r, OwnPacket c.device.ownPeerId
      (Groups.Device.entryOf r packet type packetId messageId groupId)) :
    Extends c.device (c.sendToGroup recipients packet type packetId messageId groupId).device := by
  have hfold : ∀ (recipients : List String) (d : Groups.Device), d.ownPeerId = c.device.ownPeerId →
      Extends d (recipients.foldl (fun d recipientId =>
        d.sendGroupPacket recipientId packet type packetId messageId groupId) d) := by
    intro recipients
    induction recipients with
    | nil => exact fun d _ => .refl d
    | cons recipientId recipients ih =>
      intro d hown
      have hfirst : Extends d (d.sendGroupPacket recipientId packet type packetId messageId groupId) :=
        extends_sendGroupPacket (hown ▸ h recipientId)
      exact hfirst.trans (ih _ (hfirst.ownPeerId.trans hown))
  exact hfold recipients c.device rfl

theorem extends_sendGroupChatMessage {uuid : String} {fails : Bool} {handedOn : String → Bool}
    (hid : messageId ≠ "") :
    Extends c.device
      (c.sendGroupChatMessage now messageId uuid fails handedOn groupId payload).1.device := by
  rw [Client.sendGroupChatMessage]
  split
  · exact .refl _
  next g _ =>
  dsimp only
  split
  · exact .refl _
  split
  · exact .refl _
  · rw [Client.device_patched]
    exact extends_sendToGroup fun r => ownPacket_groupEnvelope hid (.inl rfl)

theorem extends_toggleMessageReaction {message : Message} {emoji : String} :
    Extends c.device (c.toggleMessageReaction now groupId message emoji).1.device := by
  rw [Client.toggleMessageReaction]
  dsimp only
  split
  · exact .refl _
  split
  · exact .refl _
  next c' hpatch =>
  rw [← device_applyMessagePatch hpatch]
  split
  · exact .refl _
  have hid : "react:" ++ (message.field "messageId").toText ≠ "" := by
    intro hempty
    have hlength := congrArg String.length hempty
    rw [String.length_append] at hlength
    exact absurd (Nat.eq_zero_of_add_eq_zero_right hlength) (by decide)
  have hkind : isStoreableChatKind (.str reactionKind) = false := by decide
  exact extends_sendToGroup fun r => ownPacket_groupEnvelope hid (.inr hkind)

theorem extends_sendMessageEdit {contacts : List Json} {refMessageId text : String}
    (hid : messageId ≠ "") :
    Extends c.device
      (c.sendMessageEdit now messageId contacts groupId refMessageId text).1.device := by
  rw [Client.sendMessageEdit]
  split
  · exact .refl _
  dsimp only
  split
  · exact .refl _
  split
  · exact .refl _
  · exact .refl _
  split
  · exact .refl _
  split
  · exact .refl _
  next c' hpatch =>
  rw [← device_applyMessagePatch hpatch]
  have hkind : isStoreableChatKind (.str messageEditKind) = false := by decide
  exact extends_sendToGroup fun r => ownPacket_groupEnvelope hid (.inr hkind)

theorem extends_perform {act : GroupAction} (hid : messageId ≠ "") :
    Extends c.device (act.perform now messageId groupId c).1.device := by
  cases act with
  | message uuid fails handedOn payload => exact extends_sendGroupChatMessage hid
  | reaction target emoji => exact extends_toggleMessageReaction
  | edit contacts refMessageId text => exact extends_sendMessageEdit hid

end

/-! ### What arrives -/

section

variable {c : Client} {now : Int} {newId fromId : String} {a : Arrival} {m : Message} {e : OutboxEntry}
  {receipt packet : Json} {g : Group} {message : Message}

theorem extends_handleMessageReceipt :
    Extends c.device (c.handleMessageReceipt now receipt fromId).device := by
  rw [Client.handleMessageReceipt]
  split
  · exact .refl _
  dsimp only
  split
  · exact .refl _
  split
  · exact .refl _
  split
  · exact .refl _
  split
  · exact .refl _
  next c' hpatch =>
  rw [← device_applyMessagePatch hpatch]
  exact extends_persistGroupOutbox fun _ he => mem_of_mem_filter he

theorem extends_handleGroupReceipt :
    Extends c.device (c.handleGroupReceipt now receipt fromId).device := by
  rw [Client.handleGroupReceipt]
  split
  · exact extends_handleEventReceipt
  · exact extends_handleMessageReceipt

theorem extends_receiveGroupMessage :
    Extends c.device (c.receiveGroupMessage now fromId m).1.device := by
  obtain ⟨g, message, -, heq⟩ | ⟨-, c', heq, hdevice⟩ := c.receiveGroupMessage_cases now fromId m
  · rw [heq]
    exact extends_transmit
  · rw [heq, hdevice]
    exact .refl _

theorem extends_receive (hid : newId ≠ "") : Extends c.device (c.receive now newId a).1.device := by
  rw [Client.receive]
  split
  · rw [Client.refuse]
    split
    · exact extends_transmit
    · exact .refl _
  split
  · exact .refl _
  dsimp only
  split
  · rw [Client.handleGroupProtocolFrame]
    split
    · exact .refl _
    split
    · exact extends_handleGroupEvent hid
    split
    · exact extends_handleGroupReceipt
    · exact extends_receiveGroupMessage
  split
  · rw [Client.device_applyInboundChatEdit]
    exact .refl _
  split
  · rw [Client.device_handleReaction]
    exact .refl _
  · exact .refl _

theorem receive_of_groupKind (h : a.normalized now newId = some (m, true))
    (hblocked : c.isBlocked a.fromId = false)
    (hkind : groupProtocolKinds.any fun k => m.field "kind" = .str k) :
    c.receive now newId a = c.handleGroupProtocolFrame now newId a.fromId m true := by
  rw [Client.receive, hblocked, h]
  dsimp only
  rw [if_neg (by decide), if_pos hkind]

theorem Accepts.isStoreable (h : c.Accepts fromId m g message) :
    isStoreableChatKind ((m.field "payload").get "kind") := by
  have hstoreable := h.storeable
  rw [field_checkContent h.content (by decide), field_groupMessageOf (by decide)] at hstoreable
  exact hstoreable

theorem getElem?_of_prefix {α : Type} {l l' : List α} {x : α} (h : l ++ [x] <+: l') :
    l'[l.length]? = some x := by
  obtain ⟨rest, rfl⟩ := h
  simp

theorem exists_eventAnswer (hnew : newId ≠ "") (hfrom : a.fromId ≠ "") (hown : OwnEvent a.fromId e)
    (hnormalized : a.normalized now newId = some (m, true)) (hreads : Reads m e.packet)
    (hblocked : c.isBlocked a.fromId = false)
    (hanswers : m.field "eventId" ∈ c.device.eventIds ∨
      ∃ g duplicate shouldAccept shouldBroadcast,
        applyGroupEvent now (c.device.group? (m.field "groupId")) (.obj m.fields)
          c.device.ownPeerId = .ok (.applied g duplicate shouldAccept shouldBroadcast)) :
    ∃ receipt, Answer receipt c.device.ownPeerId e ∧
      (c.receive now newId a).1.device.sent[c.device.sent.length]? = some (a.fromId, receipt) := by
  have hkind : m.field "kind" = .str groupEventKind :=
    (hreads.field "kind" (by decide)).trans hown.kind
  have heventId : m.field "eventId" = .str e.packetId :=
    (hreads.field "eventId" (by decide)).trans hown.eventId
  have hactor : m.field "actorId" = .str a.fromId :=
    (hreads.field "actorId" (by decide)).trans hown.actorId
  obtain ⟨d, hextends, -, -, hsent⟩ :=
    @extends_eventReceipt _ now newId a.fromId (.obj m.fields) hnew hfrom hactor hanswers
  have hreceive : (c.receive now newId a).1.device =
      c.device.handleGroupEvent now newId (.obj m.fields) a.fromId := by
    rw [receive_of_groupKind hnormalized hblocked (by rw [hkind]; decide),
      Client.handleGroupProtocolFrame, if_neg (by decide), if_pos hkind]
  refine ⟨Groups.Device.eventReceipt now (.obj m.fields) c.device.ownPeerId,
    ⟨rfl, rfl, .inl ⟨?_, heventId⟩⟩, ?_⟩
  · have htruthy : (m.field "eventId").truthy := by
      rw [heventId]
      exact decide_eq_true hown.packetId
    exact htruthy
  · rw [hreceive]
    exact getElem?_of_prefix (hsent ▸ hextends.sent)

theorem exists_messageAnswer (hown : OwnMessage a.fromId e) (hnormalized : a.normalized now newId = some (m, true)) (hreads : Reads m e.packet)
    (hblocked : c.isBlocked a.fromId = false) (haccepts : c.Accepts a.fromId m g message) :
    ∃ receipt, Answer receipt c.device.ownPeerId e ∧
      (c.receive now newId a).1.device.sent[c.device.sent.length]? = some (a.fromId, receipt) := by
  have hkind : m.field "kind" = .str groupMessageKind :=
    (hreads.field "kind" (by decide)).trans hown.kind
  have htruthy : (Json.str e.messageId).truthy := decide_eq_true hown.messageId
  have hid : message.field "messageId" = .str e.messageId := by
    rw [haccepts.messageId, ← hown.packetMessageId]
    exact hreads.messageId (hown.packetMessageId ▸ htruthy)
  have htype : e.type = "message" := by
    refine hown.content.resolve_right fun hcontent => ?_
    rw [← hreads.field "payload" (by decide), Accepts.isStoreable haccepts] at hcontent
    cases hcontent
  obtain ⟨g', message', haccepts', heq⟩ | ⟨hnone, -⟩ :=
    c.receiveGroupMessage_cases now a.fromId m
  · obtain ⟨rfl, rfl⟩ := haccepts.unique haccepts'
    refine ⟨groupMessageReceipt g'.id (message'.field "messageId") c.device.ownPeerId now,
      ⟨rfl, rfl, .inr ⟨Bool.false_ne_true, ?_, hid, htype⟩⟩, ?_⟩
    · have htruthy' : (message'.field "messageId").truthy := by
        rw [hid]
        exact htruthy
      exact htruthy'
    · rw [Client.receive_of_groupMessage hnormalized hblocked hkind, if_pos rfl, heq]
      exact getElem?_of_prefix (prefix_refl _)
  · exact absurd haccepts (hnone g message)

theorem exists_answer (hnew : newId ≠ "") (hfrom : a.fromId ≠ "") (hown : OwnPacket a.fromId e)
    (hnormalized : a.normalized now newId = some (m, true)) (hreads : Reads m e.packet)
    (hblocked : c.isBlocked a.fromId = false) (hanswers : Answers c a.fromId now m) :
    ∃ receipt, Answer receipt c.device.ownPeerId e ∧
      (c.receive now newId a).1.device.sent[c.device.sent.length]? = some (a.fromId, receipt) := by
  have hkinds : groupEventKind ≠ groupMessageKind := by decide
  have hkind := hreads.field "kind" (by decide)
  obtain ⟨hevent, hanswers⟩ | ⟨hmessage, g, message, haccepts⟩ := hanswers
  · obtain hown | hown := hown
    · exact exists_eventAnswer hnew hfrom hown hnormalized hreads hblocked hanswers
    · rw [hevent, hown.kind] at hkind
      exact absurd (Json.str.inj hkind) hkinds
  obtain hown | hown := hown
  · rw [hmessage, hown.kind] at hkind
    exact absurd (Json.str.inj hkind).symm hkinds
  · exact exists_messageAnswer hown hnormalized hreads hblocked haccepts

theorem cleared (hnormalized : a.normalized now newId = some (m, true))
    (hblocked : c.isBlocked a.fromId = false) (hpeer : e.peerId = a.fromId)
    (hanswer : Answer (.obj m.fields) a.fromId e) (hclears : Clears c a.fromId now m) :
    e ∉ (c.receive now newId a).1.device.outbox := by
  have hkind : m.field "kind" = .str groupReceiptKind := hanswer.kind
  have hnot : m.field "kind" ≠ .str groupEventKind := by
    rw [hkind]
    decide
  obtain ⟨g, hgroup, hclears⟩ := hclears
  have hgroup' : c.device.group? ((Json.obj m.fields).get "groupId") = some g := hgroup
  rw [receive_of_groupKind hnormalized hblocked (by rw [hkind]; decide),
    Client.handleGroupProtocolFrame, if_neg (by decide), if_neg hnot, if_pos hkind,
    Client.handleGroupReceipt, hgroup', hanswer.senderPeerId]
  intro he
  obtain ⟨htruthy, href⟩ | ⟨hfalse, htruthy, href, htype⟩ := hanswer.ref
  · rw [if_pos (by simp [htruthy])] at he
    have hremoved : e ∈ (c.device.handleEventReceipt (.obj m.fields) a.fromId).outbox := he
    rw [Groups.Device.handleEventReceipt, if_pos ⟨by rw [hgroup']; rfl, hanswer.senderPeerId, htruthy⟩]
      at hremoved
    have hkept := of_decide_eq_true (mem_filter.mp (mem_persistGroupOutbox hremoved)).2
    exact hkept ⟨hpeer, href.symm⟩
  rw [if_neg (by simp [hfalse])] at he
  obtain ⟨existing, c', hfound, hrecipient, hpatch⟩ := hclears.resolve_left hfalse
  have hpatch' : c.applyMessagePatch g.id ((Json.obj m.fields).get "refMessageId")
      (Client.receiptPatch existing (.obj m.fields) a.fromId now) = .ok c' := hpatch
  have hfound' : ((c.cache g.id).find? fun item =>
      item.field "messageId" = (Json.obj m.fields).get "refMessageId" &&
        item.field "from" = .str "self") = some existing := hfound
  rw [Client.handleMessageReceipt, hgroup'] at he
  dsimp only at he
  rw [if_neg (by simp [hanswer.senderPeerId, htruthy]), hfound'] at he
  dsimp only at he
  rw [if_neg (by rw [hrecipient]; decide), hpatch'] at he
  have hkept := (mem_filter.mp (mem_persistGroupOutbox he)).2
  simp [htype, hpeer, href] at hkept

end

/-! ### What holds in every run -/

/-- Of every packet that has been processed, an answer is on its way. -/
structure Inv (s : Exchange) : Prop where
  ownPeerId : ∀ p, (s.device p).ownPeerId = p
  outbox : ∀ p, ∀ e ∈ (s.device p).outbox, OwnPacket p e
  read : ∀ x ∈ s.read, x.2 < (s.device x.1).sent.length
  queued : ∀ x ∈ s.processed, x.entry ∈ (s.device x.sender).outbox
  answered : ∀ x ∈ s.processed, ∃ j packet, x.first ≤ j ∧ j < x.last ∧
    (s.device x.entry.peerId).sent[j]? = some (x.sender, packet) ∧
    Answer packet x.entry.peerId x.entry ∧ (x.entry.peerId, j) ∉ s.read

section

variable {s s' : Exchange} {p q : String} {c : Client} {read : List (String × Nat)}
  {processed : List Processed} {acts : List ExchangeAct} {act : ExchangeAct}

theorem Start.inv (h : Start s) : Inv s where
  ownPeerId := h.ownPeerId
  outbox := h.outbox
  read := by simp [h.read]
  queued := by simp [h.processed]
  answered := by simp [h.processed]

theorem Inv.drained (h : Inv s) : Drained s := by
  intro x hx
  obtain ⟨j, packet, hfirst, hlast, hsent, -, hunread⟩ := h.answered x hx
  exact ⟨j, packet, hfirst, hlast, hsent, hunread⟩

theorem device_goOn_self : (s.goOn p c read processed).device p = c.device := by
  simp [goOn, device]

theorem device_goOn_of_ne (h : q ≠ p) : (s.goOn p c read processed).device q = s.device q := by
  simp [goOn, device, h]

theorem read_goOn : (s.goOn p c read processed).read = read ++ s.read := rfl

theorem extends_goOn (h : Extends (s.device p) c.device) (q : String) :
    Extends (s.device q) ((s.goOn p c read processed).device q) := by
  by_cases hq : q = p
  · rw [hq, device_goOn_self]
    exact h
  · rw [device_goOn_of_ne hq]
    exact .refl _

theorem mem_goOn {x : Processed} (h : x ∈ (s.goOn p c read processed).processed) :
    (x ∈ processed ∨ x ∈ s.processed) ∧
      x.entry ∈ ((s.goOn p c read processed).device x.sender).outbox := by
  obtain ⟨hx, hqueued⟩ := mem_filter.mp h
  exact ⟨mem_append.mp hx, of_decide_eq_true hqueued⟩

/-- What a client newly processes is answered, and answers nothing that is still queued. -/
theorem Inv.goOn (hs : Inv s) (hextends : Extends (s.device p) c.device)
    (hread : ∀ x ∈ read, x.2 < (s.device x.1).sent.length)
    (hanswered : ∀ x ∈ processed, ∃ j packet, x.first ≤ j ∧ j < x.last ∧
      ((s.goOn p c read processed).device x.entry.peerId).sent[j]? = some (x.sender, packet) ∧
      Answer packet x.entry.peerId x.entry ∧ (x.entry.peerId, j) ∉ read ++ s.read)
    (hkept : ∀ x ∈ s.processed, x.entry ∈ ((s.goOn p c read processed).device x.sender).outbox →
      ∀ j packet, (s.device x.entry.peerId).sent[j]? = some (x.sender, packet) →
      Answer packet x.entry.peerId x.entry → (x.entry.peerId, j) ∉ read) :
    Inv (s.goOn p c read processed) where
  ownPeerId q := by
    rw [(extends_goOn hextends q).ownPeerId]
    exact hs.ownPeerId q
  outbox q e he := by
    obtain he | hown := (extends_goOn hextends q).outbox e he
    · exact hs.outbox q e he
    · exact hs.ownPeerId q ▸ hown
  read x hx := by
    have hextended : Extends (s.device x.1) ((s.goOn p c read processed).device x.1) :=
      extends_goOn hextends x.1
    have hlength := hextended.sent.length_le
    obtain hx | hx := mem_append.mp hx
    · exact (hread x hx).trans_le hlength
    · exact (hs.read x hx).trans_le hlength
  queued x hx := (mem_goOn hx).2
  answered x hx := by
    obtain ⟨hx | hx, hqueued⟩ := mem_goOn hx
    · exact hanswered x hx
    obtain ⟨j, packet, hfirst, hlast, hsent, hanswer, hunread⟩ := hs.answered x hx
    refine ⟨j, packet, hfirst, hlast, ?_, hanswer, ?_⟩
    · have hextended : Extends (s.device x.entry.peerId)
        ((s.goOn p c read processed).device x.entry.peerId) := extends_goOn hextends _
      obtain ⟨rest, hrest⟩ := hextended.sent
      rw [← hrest, List.getElem?_append_left (List.getElem?_eq_some_iff.mp hsent).1]
      exact hsent
    · rw [read_goOn, mem_append, not_or]
      exact ⟨hkept x hx hqueued j packet hsent hanswer, hunread⟩

theorem Inv.goOn_nil (hs : Inv s) (hextends : Extends (s.device p) c.device) :
    Inv (s.goOn p c [] []) :=
  hs.goOn hextends (by simp) (by simp) (by simp)

theorem answer_congr {m : Message} {packet : Json} {fromId : String} {e : OutboxEntry}
    (hreads : Reads m packet) (h : Answer packet fromId e) : Answer (.obj m.fields) fromId e := by
  have hget : ∀ k, k ∉ readdressedFields → (Json.obj m.fields).get k = packet.get k := hreads.field
  refine ⟨(hget _ (by decide)).trans h.kind, (hget _ (by decide)).trans h.senderPeerId, ?_⟩
  rw [hget _ (by decide), hget _ (by decide)]
  exact h.ref

theorem Inv.deliver {i : Nat} {encrypted : Message} {now : Int} {newId : String} {packet : Json}
    (hs : Inv s) (hp : p ≠ "") (hq : q ≠ p) (hnew : newId ≠ "")
    (hsent : (s.device p).sent[i]? = some (q, packet))
    (hprompt : Prompt s (.deliver p i encrypted now newId)) :
    Inv (s.goOn q ((s.clients q).receive now newId (s.arrival p packet encrypted now newId)).1 [(p, i)]
      (((s.device p).outbox.filter fun e => e.peerId = q && e.packet = packet).map fun e =>
        ⟨p, e, (s.device q).sent.length, ((s.clients q).receive now newId
          (s.arrival p packet encrypted now newId)).1.device.sent.length⟩)) := by
  have hcarries : (s.arrival p packet encrypted now newId).Carries p packet :=
    carries_sealed (.inr hnew)
  obtain ⟨m, hnormalized, hreads⟩ := hcarries.reads now newId hp
  obtain ⟨hanswers, hclears⟩ := hprompt q packet m hsent hnormalized
  obtain ⟨a, ha⟩ : ∃ a, a = s.arrival p packet encrypted now newId := ⟨_, rfl⟩
  have hfrom : a.fromId = p := by rw [ha]; rfl
  rw [← ha] at hnormalized ⊢
  clear ha hcarries hprompt
  subst hfrom
  have hextends : Extends (s.device q) ((s.clients q).receive now newId a).1.device :=
    extends_receive hnew
  refine hs.goOn hextends ?_ ?_ ?_
  · intro x hx
    obtain rfl := mem_singleton.mp hx
    exact (List.getElem?_eq_some_iff.mp hsent).1
  · -- the packet is answered by what is sent next
    intro x hx
    obtain ⟨e, he, rfl⟩ := mem_map.mp hx
    obtain ⟨hqueued, hsame⟩ := mem_filter.mp he
    simp only [Bool.and_eq_true, decide_eq_true_eq] at hsame
    obtain ⟨rfl, rfl⟩ := hsame
    obtain ⟨hblocked, hanswers⟩ := hanswers ⟨e, hqueued, rfl, rfl⟩
    obtain ⟨receipt, hanswer, hnext⟩ := exists_answer hnew hp (hs.outbox _ e hqueued) hnormalized hreads
      hblocked hanswers
    have hown : (s.clients e.peerId).device.ownPeerId = e.peerId := hs.ownPeerId e.peerId
    rw [hown] at hanswer
    refine ⟨(s.device e.peerId).sent.length, receipt, le_rfl, (List.getElem?_eq_some_iff.mp hnext).1, ?_,
      hanswer, ?_⟩
    · rw [device_goOn_self]
      exact hnext
    · rw [mem_append, mem_singleton, not_or]
      refine ⟨fun heq => hq (congrArg Prod.fst heq), fun hread => ?_⟩
      exact absurd (hs.read _ hread) (lt_irrefl _)
  · -- what the packet answers is not queued any more
    intro x hx hqueued j answer hat hanswer hj
    obtain ⟨hpeer, rfl⟩ := Prod.mk.inj (mem_singleton.mp hj)
    rw [hpeer, hsent] at hat
    obtain ⟨rfl, rfl⟩ := Prod.mk.inj (some.inj hat)
    rw [hpeer] at hanswer
    have hanswer' := answer_congr hreads hanswer
    obtain ⟨hblocked, hclears⟩ := hclears ⟨x.entry, hs.queued x hx, hpeer, hanswer'⟩
    rw [device_goOn_self] at hqueued
    exact cleared hnormalized hblocked hpeer hanswer' hclears hqueued

theorem Inv.step (hs : Inv s) (hprompt : Prompt s act) (h : step s act = some s') : Inv s' := by
  cases act with
  | perform p now messageId groupId act =>
    obtain ⟨hid, rfl⟩ := by simpa [Exchange.step] using h
    exact hs.goOn_nil (extends_perform hid)
  | create p now id inviteId contacts name image displayName memberIds =>
    rw [Exchange.step] at h
    split at h
    · cases h
    next hids =>
    obtain rfl := some.inj h
    refine hs.goOn_nil (extends_createGroupChat fun r hr hempty => hids ⟨r, hr, hempty⟩)
  | update p now updateId inviteId contacts groupId patch =>
    rw [Exchange.step] at h
    split at h
    · cases h
    next hids =>
    obtain rfl := some.inj h
    obtain ⟨hupdate, hids⟩ := not_or.mp hids
    refine hs.goOn_nil (extends_updateGroupChat hupdate fun g hg r hr hempty => hids ?_)
    rw [hg]
    exact decide_eq_true ⟨r, hr, hempty⟩
  | leave p now newId groupId =>
    obtain ⟨hid, rfl⟩ := by simpa [Exchange.step] using h
    exact hs.goOn_nil (extends_leaveGroupChat hid)
  | flush p peerId =>
    obtain rfl := some.inj h
    exact hs.goOn_nil extends_flushGroupOutbox
  | transmit p peerId packet =>
    obtain rfl := some.inj h
    exact hs.goOn_nil extends_transmit
  | deliver p i encrypted now newId =>
    rw [Exchange.step] at h
    split at h
    · cases h
    next q packet hsent =>
    split at h
    · cases h
    next hallowed =>
    obtain rfl := some.inj h
    simp only [not_or] at hallowed
    exact hs.deliver hallowed.1 hallowed.2.1 hallowed.2.2.1 hsent hprompt
  | other p c =>
    rw [Exchange.step] at h
    split at h
    next hsame =>
      obtain rfl := some.inj h
      obtain ⟨hown, hsent, houtbox⟩ := hsame
      exact hs.goOn_nil (.of_outbox_subset hown (hsent ▸ prefix_refl _) houtbox)
    · cases h

/-- As long as every queued packet is answered where it arrives, and every answer clears what it is to, no
entry is left without an answer to come. -/
theorem outbox_drains (hs : Start s) (h : Run step Prompt s acts s') : Drained s' :=
  (h.invariant (fun hprompt hinv hstep => Inv.step hinv hprompt hstep) hs.inv).drained

end

/-- The members of a choir, each with a client -/
def singers : Exchange where
  clients p := ⟨{ ownPeerId := p, groups := [Reception.choir] }, .web, ⟨[], 0⟩, fun _ => [], [], .str p⟩
  read := []
  processed := []

theorem start_singers : Start singers where
  ownPeerId _ := rfl
  outbox _ _ he := by cases he
  read := rfl
  processed := rfl

/-- Anna's message reaches Ben. -/
def singsToBen : List ExchangeAct :=
  [.perform "anna" 5 "m1" Reception.choir.id sings, .deliver "anna" 0 .empty 6 "n"]

theorem outbox_drains_singers : ∃ s', Run step Prompt singers singsToBen s' ∧ Drained s' := by
  obtain ⟨s₁, hs₁⟩ : ∃ s₁, s₁ = singers.goOn "anna"
    (sings.perform 5 "m1" Reception.choir.id (singers.clients "anna")).1 [] [] := ⟨_, rfl⟩
  have hfirst : step singers (.perform "anna" 5 "m1" Reception.choir.id sings) = some s₁ := by
    rw [hs₁]
    rfl
  have hsecond : (step s₁ (.deliver "anna" 0 .empty 6 "n")).isSome := by
    rw [hs₁]
    decide +kernel
  obtain ⟨s', hs'⟩ := Option.isSome_iff_exists.mp hsecond
  have hprompt : Prompt s₁ (.deliver "anna" 0 .empty 6 "n") := by
    intro q packet m hsent hnormalized
    have hchecked : (s₁.device "anna").sent[0]?.all fun x =>
        ((s₁.arrival "anna" x.2 .empty 6 "n").normalized 6 "n").all fun y =>
          !(s₁.clients x.1).isBlocked "anna" && y.1.field "kind" = .str groupMessageKind &&
          ((s₁.clients x.1).device.group? (y.1.field "groupId")).any fun g =>
            (validateIncomingGroupMessage (some g) (.obj y.1.fields) "anna"
              (s₁.clients x.1).device.ownPeerId).isNone &&
            (checkContent (groupMessageOf g y.1 "anna")).any fun message =>
              isStoreableChatKind (message.field "kind") := by
      rw [hs₁]
      decide +kernel
    rw [hsent, Option.all_some, hnormalized, Option.all_some] at hchecked
    simp only [Bool.and_eq_true, Bool.not_eq_true', decide_eq_true_eq, Option.any_eq_true,
      Option.isNone_iff_eq_none] at hchecked
    obtain ⟨⟨hblocked, hkind⟩, g, hgroup, hvalid, message, hcontent, hstoreable⟩ := hchecked
    refine ⟨fun _ => ⟨hblocked, .inr ⟨hkind, g, message, hgroup, hvalid, hcontent, hstoreable⟩⟩, ?_⟩
    rintro ⟨e, -, -, hanswer⟩
    have hreceipt : m.field "kind" = .str groupReceiptKind := hanswer.kind
    rw [hkind] at hreceipt
    exact absurd (Json.str.inj hreceipt) (by decide)
  have hrun : Run step Prompt singers singsToBen s' := .cons trivial hfirst (.single hprompt hs')
  exact ⟨s', hrun, outbox_drains start_singers hrun⟩

/-- Anna reacts to her message, and Ben's client takes the reaction. -/
theorem reaction_not_answered :
    ¬ ∀ s acts s', Start s → FreeRun step s acts s' → Drained s' := by
  intro h
  have hexec : (exec step singers (singsToBen ++ [.perform "anna" 7 "m2" Reception.choir.id
      (.reaction (JsObject.ofFields [("messageId", .str "m1")]) "👍"),
      .deliver "anna" 2 .empty 8 "n"])).any fun s => s.processed.any fun x => x.last ≤ x.first := by
    decide +kernel
  obtain ⟨s', hs', hprocessed⟩ := (any_eq_true _ _).mp hexec
  obtain ⟨x, hx, hempty⟩ := any_eq_true.mp hprocessed
  obtain ⟨j, packet, hfirst, hlast, -⟩ := h singers _ s' start_singers (.of_exec hs') x hx
  exact absurd (hfirst.trans_lt hlast) (not_lt_of_ge (of_decide_eq_true hempty))

end Exchange
end Bluetalk.Chat
