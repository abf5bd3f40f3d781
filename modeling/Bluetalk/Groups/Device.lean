import Bluetalk.Groups.Events
import Bluetalk.Theory.Keyed

/-!
# Groups on a device

`src/renderer/app/hooks/useGroupChats.js` and the events and receipts of
`src/renderer/app/groupInboundHandler.js`: the groups a device has stored, the events it remembers,
the outbox of what it has to send again, and what it has handed to its connections so far.
-/

namespace Bluetalk.Groups

structure OutboxEntry where
  id : String
  type : String
  packetId : String
  messageId : String
  groupId : String
  peerId : String
  packet : Json
  deriving DecidableEq

structure Device where
  ownPeerId : String
  groups : List Group := []
  eventIds : List Json := []
  outbox : List OutboxEntry := []
  sent : List (String × Json) := []
  deriving DecidableEq

namespace Device

/-- `groupsRef.current.find((group) => group.id === groupId)` -/
def group? (groupId : Json) (d : Device) : Option Group :=
  d.groups.find? fun g => .str g.id = groupId

/-- A group that cannot be normalized is not stored. -/
def replaceGroup (now : Int) (next : Group) (d : Device) : Device :=
  match normalizeGroup now next.json with
  | .error _ => d
  | .ok normalized => { d with groups := put Group.id normalized d.groups }

def persistGroupOutbox (next : List OutboxEntry) (d : Device) : Device :=
  { d with outbox := next.rtake 1000 }

def rememberIncomingGroupEvent (eventId : Json) (d : Device) : Device :=
  { d with eventIds := (rememberGroupEventId d.eventIds eventId).eventIds }

/-- `sendPairwiseEncrypted` -/
def transmit (peerId : String) (packet : Json) (d : Device) : Device :=
  { d with sent := d.sent ++ [(peerId, packet)] }

def entryOf (peerId : String) (packet : Json) (type packetId messageId groupId : String) :
    OutboxEntry :=
  { id := type ++ ":" ++ packetId ++ ":" ++ peerId
    type := type
    packetId := packetId
    messageId := messageId
    groupId := groupId
    peerId := peerId
    packet := packet }

def enqueue (entry : OutboxEntry) (d : Device) : Device :=
  d.persistGroupOutbox (d.outbox.filter (fun item => item.id ≠ entry.id) ++ [entry])

/-- `sendGroupPacket` of a packet that is queued -/
def sendGroupPacket (peerId : String) (packet : Json) (type packetId messageId groupId : String)
    (d : Device) : Device :=
  (d.enqueue (entryOf peerId packet type packetId messageId groupId)).transmit peerId packet

/-- An event goes to each of the recipients. -/
def sendControl (recipients : List String) (event : Json) (groupId : String) (d : Device) :
    Device :=
  recipients.foldl (fun d recipientId => d.sendGroupPacket recipientId event "control"
    (event.get "eventId").stringOrEmpty "" groupId) d

def flushGroupOutbox (peerId : String) (d : Device) : Device :=
  (d.outbox.filter fun entry => entry.peerId = peerId).foldl
    (fun d entry => d.transmit peerId entry.packet) d

/-! ### Events that arrive -/

def eventReceipt (now : Int) (event : Json) (senderPeerId : String) : Json :=
  .obj [("kind", .str groupReceiptKind), ("protocolVersion", .num groupProtocolVersion),
    ("groupId", event.get "groupId"), ("refEventId", event.get "eventId"),
    ("senderPeerId", .str senderPeerId), ("status", .str "delivered"), ("receivedAt", .num now)]

def sendEventReceipt (now : Int) (event : Json) (fromId : String) (d : Device) : Device :=
  d.transmit fromId (eventReceipt now event d.ownPeerId)

/-- The acceptance of an invitation, under an event id of its own -/
def acceptInvitation (now : Int) (newId : String) (fromId : String) (g : Group) (d : Device) :
    Device :=
  match createGroupAcceptEvent g d.ownPeerId newId now with
  | .error _ => d
  | .ok accept => d.sendControl [fromId] accept g.id

def publishMembership (now : Int) (newId : String) (event : Json) (current applied : Group)
    (d : Device) : Device :=
  let reason := if event.get "action" = .str "accept" then "member-accepted" else "member-left"
  match createGroupUpdateEvent current applied d.ownPeerId reason newId now with
  | .error _ => d
  | .ok update => d.sendControl (buildTargetedGroupRoute applied d.ownPeerId true) update applied.id

/-- The event branch of `handleGroupProtocolFrame` -/
def handleGroupEvent (now : Int) (newId : String) (event : Json) (fromId : String) (d : Device) :
    Device :=
  if fromId = "" ∨ event.get "actorId" ≠ .str fromId then d
  else if event.get "eventId" ∈ d.eventIds then d.sendEventReceipt now event fromId
  else
    let current := d.group? (event.get "groupId")
    match applyGroupEvent now current event d.ownPeerId with
    | .error _ | .ok (.refused _) => d
    | .ok (.applied g _ shouldAccept shouldBroadcast) =>
      let stored := ((d.rememberIncomingGroupEvent (event.get "eventId")).replaceGroup now
        g).sendEventReceipt now event fromId
      let answered := if shouldAccept then stored.acceptInvitation now newId fromId g else stored
      match current with
      | some before =>
        if shouldBroadcast ∧ isGroupAdmin g d.ownPeerId then
          answered.publishMembership now newId event before g
        else answered
      | none => answered

/-! ### Receipts of events -/

/-- The branch of `handleGroupProtocolFrame` for the receipt of an event -/
def handleEventReceipt (receipt : Json) (fromId : String) (d : Device) : Device :=
  if (d.group? (receipt.get "groupId")).isSome ∧ receipt.get "senderPeerId" = .str fromId ∧
      (receipt.get "refEventId").truthy then
    d.persistGroupOutbox (d.outbox.filter fun entry =>
      ¬ (entry.peerId = fromId ∧ .str entry.packetId = receipt.get "refEventId"))
  else d

/-! ### What a user does -/

/-- `contactsRef.current.find((entry) => entry.id === peerId)` -/
def contactOf (contacts : List Json) (peerId : String) : Option Json :=
  contacts.find? fun c => c.get "id" = .str peerId

/-- `contact.nickname || contact.name || fallback` -/
def contactName (contact : Json) (fallback : String) : Json :=
  orElse (orElse (contact.get "nickname") (contact.get "name")) (.str fallback)

/-- Each of the invitations has an event id of its own. The first that cannot be made is the last. -/
def sendInvites (now : Int) (inviteId : String → String) (g : Group) : List String → Device → Device
  | [], d => d
  | recipientId :: recipients, d =>
    match createGroupInviteEvent g d.ownPeerId recipientId (inviteId recipientId) now with
    | .error _ => d
    | .ok invite =>
      sendInvites now inviteId g recipients (d.sendControl [recipientId] invite g.id)

def createGroupChat (now : Int) (id : String) (inviteId : String → String) (contacts : List Json)
    (name image displayName : Json) (memberIds : List String) (d : Device) : Device :=
  let selected := ((memberIds.filter fun id => id ≠ "" ∧ id ≠ d.ownPeerId).eraseDups).filterMap
    fun peerId => (contactOf contacts peerId).map fun contact =>
      (peerId, Json.obj [("peerId", .str peerId), ("displayName", contactName contact peerId)])
  if d.ownPeerId = "" then d
  else
    match createGroup id name image
      (.obj [("peerId", .str d.ownPeerId), ("displayName", displayName)])
      (selected.map Prod.snd) now with
    | .error _ => d
    | .ok g => (d.replaceGroup now g).sendInvites now inviteId g (selected.map Prod.fst)

structure GroupPatch where
  name : Option Json := none
  image : Option Json := none
  addMemberIds : List String := []
  removeMemberIds : List String := []
  reason : String := ""

/-- A member who left or was removed is invited again. -/
def readded (now : Int) (contacts : List Json) (m : Member) : Json :=
  .obj (spread m.fields [
    ("displayName", contactName ((contactOf contacts m.peerId).getD .null) m.displayName),
    ("role", .str "member"), ("state", .str "invited"), ("addedAt", .num now), ("joinedAt", .null),
    ("removedAt", .null)])

def addedMember (now : Int) (peerId : String) (contact : Json) : Json :=
  .obj [("peerId", .str peerId), ("displayName", contactName contact peerId),
    ("role", .str "member"), ("state", .str "invited"), ("addedAt", .num now)]

def removeIds (g : Group) (ownPeerId : String) (patch : GroupPatch) : List String :=
  patch.removeMemberIds.filter fun id =>
    id ≠ "" ∧ id ≠ ownPeerId ∧ (getGroupMember g id).isSome

def readdedIds (g : Group) (patch : GroupPatch) : List String :=
  (distinctIds patch.addMemberIds).filter fun id =>
    (getGroupMember g id).any fun m => m.state = .left || m.state = .removed

def addedMembers (now : Int) (g : Group) (contacts : List Json) (patch : GroupPatch) :
    List (String × Json) :=
  ((distinctIds patch.addMemberIds).filter fun id => id ∉ g.members.map Member.peerId).filterMap
    fun peerId => (contactOf contacts peerId).map fun contact =>
      (peerId, addedMember now peerId contact)

def updatedGroup (now : Int) (contacts : List Json) (patch : GroupPatch) (ownPeerId : String)
    (g : Group) : Except GroupError Group :=
  normalizeGroup now (.obj (spread g.fields [("name", patch.name.getD (.str g.name)),
    ("image", patch.image.getD (.str g.image)), ("revision", .num (addOne g.revision)),
    ("updatedAt", .num now),
    ("members", .arr (g.members.map (fun m =>
      if m.peerId ∈ removeIds g ownPeerId patch then
        .obj (spread m.fields [("state", .str "removed"), ("removedAt", .num now)])
      else if m.peerId ∈ readdedIds g patch then readded now contacts m
      else m.json) ++ (addedMembers now g contacts patch).map Prod.snd))]))

/-- The members an update and the invitations go to -/
def newIds (now : Int) (g : Group) (contacts : List Json) (patch : GroupPatch) : List String :=
  ((addedMembers now g contacts patch).map Prod.fst ++ readdedIds g patch).eraseDups

def existingRecipients (now : Int) (g : Group) (contacts : List Json) (patch : GroupPatch)
    (ownPeerId : String) : List String :=
  (groupPeerIds g ownPeerId true ++ removeIds g ownPeerId patch).eraseDups.filter fun peerId =>
    peerId ∉ newIds now g contacts patch

/-- Nothing is changed where the source throws. -/
def updateGroupChat (now : Int) (updateId : String) (inviteId : String → String)
    (contacts : List Json) (groupId : Json) (patch : GroupPatch) (d : Device) : Device :=
  match d.group? groupId with
  | none => d
  | some current =>
    if ¬ isGroupAdmin current d.ownPeerId then d
    else
      match updatedGroup now contacts patch d.ownPeerId current with
      | .error _ => d
      | .ok next =>
        let reason := if patch.reason = "" then "group-info" else patch.reason
        match createGroupUpdateEvent current next d.ownPeerId reason updateId now with
        | .error _ => d
        | .ok update =>
          ((d.replaceGroup now next).sendControl
            (existingRecipients now current contacts patch d.ownPeerId) update next.id).sendInvites
              now inviteId next (newIds now current contacts patch)

/-- The others who are active -/
def otherActive (g : Group) (ownPeerId : String) : List Member :=
  g.members.filter fun m => m.peerId ≠ ownPeerId && m.state = .active

/-- The member who becomes an admin when the last one leaves -/
def promoted (g : Group) (ownPeerId : String) : Option String :=
  let others := otherActive g ownPeerId
  if isGroupAdmin g ownPeerId && !(others.any fun m => m.role = .admin) then
    others.head?.map Member.peerId
  else none

def leftGroup (now : Int) (ownPeerId : String) (g : Group) : Except GroupError Group :=
  normalizeGroup now (.obj (spread g.fields [("revision", .num (addOne g.revision)),
    ("updatedAt", .num now),
    ("members", .arr (g.members.map fun m =>
      let left := if m.peerId = ownPeerId then
          spread m.fields [("state", .str "left"), ("removedAt", .num now)]
        else m.fields
      .obj (if some m.peerId = promoted g ownPeerId then setField "role" (.str "admin") left
        else left)))]))

/-- The update of an admin, or the event of a member, goes out once the group is stored. -/
def leaveGroupChat (now : Int) (newId : String) (groupId : Json) (d : Device) : Device :=
  match d.group? groupId with
  | none => d
  | some current =>
    match createGroupLeaveEvent current d.ownPeerId newId now,
      leftGroup now d.ownPeerId current with
    | .ok leave, .ok next =>
      let left := d.replaceGroup now next
      if isGroupAdmin current d.ownPeerId then
        match createGroupUpdateEvent current next d.ownPeerId "member-left" newId now with
        | .error _ => left
        | .ok update =>
          left.sendControl ((otherActive current d.ownPeerId).map Member.peerId) update current.id
      else
        left.sendControl ((current.members.filter fun m => m.state = .active && m.role = .admin).map
          Member.peerId) leave current.id
    | _, _ => d

/-! ### What sending leaves -/

/-- Only the outbox differs, and what has been sent. -/
structure SameGroups (d d' : Device) : Prop where
  ownPeerId : d'.ownPeerId = d.ownPeerId
  groups : d'.groups = d.groups
  eventIds : d'.eventIds = d.eventIds

namespace SameGroups

variable {d d₁ d₂ : Device}

theorem refl (d : Device) : SameGroups d d := ⟨rfl, rfl, rfl⟩

theorem trans (h₁ : SameGroups d d₁) (h₂ : SameGroups d₁ d₂) : SameGroups d d₂ :=
  ⟨h₂.ownPeerId.trans h₁.ownPeerId, h₂.groups.trans h₁.groups, h₂.eventIds.trans h₁.eventIds⟩

theorem group? (h : SameGroups d d₁) {groupId : Json} : d₁.group? groupId = d.group? groupId := by
  rw [Device.group?, h.groups, Device.group?]

end SameGroups

section

variable {d : Device} {now : Int} {newId fromId peerId : String} {event packet : Json}
  {groupId : String}

theorem sameGroups_transmit : SameGroups d (d.transmit peerId packet) := ⟨rfl, rfl, rfl⟩

theorem sameGroups_persistGroupOutbox {next : List OutboxEntry} :
    SameGroups d (d.persistGroupOutbox next) := by
  constructor <;> rw [persistGroupOutbox]

-- Comparing two devices never counts what the outbox drops.
attribute [irreducible] persistGroupOutbox

theorem sameGroups_sendControl {recipients : List String} :
    SameGroups d (d.sendControl recipients event groupId) := by
  induction recipients generalizing d with
  | nil => exact .refl d
  | cons recipientId recipients ih =>
    exact (sameGroups_persistGroupOutbox.trans sameGroups_transmit).trans ih

theorem sameGroups_acceptInvitation {g : Group} :
    SameGroups d (d.acceptInvitation now newId fromId g) := by
  rw [acceptInvitation]
  split
  · exact .refl d
  · exact sameGroups_sendControl

theorem sameGroups_publishMembership {current applied : Group} :
    SameGroups d (d.publishMembership now newId event current applied) := by
  rw [publishMembership]
  split
  · exact .refl d
  · exact sameGroups_sendControl

theorem sameGroups_handleEventReceipt {receipt : Json} :
    SameGroups d (d.handleEventReceipt receipt fromId) := by
  rw [handleEventReceipt]
  split
  · exact sameGroups_persistGroupOutbox
  · exact .refl d

/-- What `applyGroupEvent` makes of the group of the event -/
def Applies (d : Device) (now : Int) (event : Json) (g : Group) : Prop :=
  ∃ duplicate shouldAccept shouldBroadcast,
    applyGroupEvent now (d.group? (event.get "groupId")) event d.ownPeerId =
      .ok (.applied g duplicate shouldAccept shouldBroadcast)

/-- The device has stored what `applyGroupEvent` makes of the event. -/
structure Stores (d : Device) (now : Int) (event : Json) (g : Group) (d' : Device) : Prop where
  applied : d.Applies now event g
  same : SameGroups ((d.rememberIncomingGroupEvent (event.get "eventId")).replaceGroup now g) d'

/-- Handling an event does nothing, repeats its receipt, or stores what is applied and sends. -/
theorem handleGroupEvent_split :
    d.handleGroupEvent now newId event fromId = d ∨
    (event.get "eventId" ∈ d.eventIds ∧
      d.handleGroupEvent now newId event fromId = d.sendEventReceipt now event fromId) ∨
    ∃ g, fromId ≠ "" ∧ event.get "actorId" = .str fromId ∧ event.get "eventId" ∉ d.eventIds ∧
      d.Stores now event g (d.handleGroupEvent now newId event fromId) := by
  rw [handleGroupEvent]
  split
  · exact .inl rfl
  next hsender =>
  obtain ⟨hfrom, hactor⟩ := not_or.mp hsender
  split
  · next hknown => exact .inr (.inl ⟨hknown, rfl⟩)
  next hfresh =>
  dsimp only
  split
  · exact .inl rfl
  · exact .inl rfl
  next g duplicate shouldAccept shouldBroadcast happlied =>
  refine .inr (.inr ⟨g, hfrom, not_not.mp hactor, hfresh, ⟨_, _, _, happlied⟩, ?_⟩)
  set stored := (d.rememberIncomingGroupEvent (event.get "eventId")).replaceGroup now g
  have hanswered : SameGroups stored
      (if shouldAccept then (stored.sendEventReceipt now event fromId).acceptInvitation now
        newId fromId g else stored.sendEventReceipt now event fromId) := by
    split
    · exact sameGroups_transmit.trans sameGroups_acceptInvitation
    · exact sameGroups_transmit
  split
  · split
    · exact hanswered.trans sameGroups_publishMembership
    · exact hanswered
  · exact hanswered

theorem handleGroupEvent_cases :
    SameGroups d (d.handleGroupEvent now newId event fromId) ∨
    ∃ g, event.get "actorId" = .str fromId ∧ event.get "eventId" ∉ d.eventIds ∧
      d.Stores now event g (d.handleGroupEvent now newId event fromId) := by
  obtain hsame | ⟨-, hagain⟩ | ⟨g, -, hrest⟩ := @handleGroupEvent_split d now newId fromId event
  · rw [hsame]
    exact .inl (.refl d)
  · rw [hagain]
    exact .inl sameGroups_transmit
  · exact .inr ⟨g, hrest⟩

end

variable {d : Device} {groupId : Json} {g : Group}

theorem ownPeerId_handleGroupEvent {now : Int} {newId fromId : String} {event : Json} :
    (d.handleGroupEvent now newId event fromId).ownPeerId = d.ownPeerId := by
  obtain hsame | ⟨g, -, -, -, hsame⟩ := @handleGroupEvent_cases d now newId fromId event
  · exact hsame.ownPeerId
  · rw [hsame.ownPeerId, replaceGroup]
    split <;> rfl

/-! ### The groups that are stored -/

def Stored (d : Device) : Prop := ∀ g ∈ d.groups, g.Stored

theorem Stored.group (hd : d.Stored) (h : d.group? groupId = some g) : g.Stored := hd g (List.mem_of_find?_eq_some h)

theorem group?_id (h : d.group? groupId = some g) :
    groupId = .str g.id := by
  have hid := List.find?_some h
  exact (of_decide_eq_true hid).symm

theorem group?_eq_find? {id : String} :
    d.group? (.str id) = d.groups.find? fun g => g.id = id := by
  rw [group?]
  congr 1
  funext g
  rw [decide_eq_decide]
  exact ⟨Json.str.inj, congrArg Json.str⟩

/-- How an event can change a group: what came out of it is normalized and stored. -/
structure Replaced (now : Int) (event : Json) (fromId selfPeerId : String) (g g' : Group) :
    Prop where
  groupId : event.get "groupId" = .str g.id
  actor : event.get "actorId" = .str fromId
  applied : ∃ g₁ duplicate shouldAccept shouldBroadcast,
    applyGroupEvent now (some g) event selfPeerId =
      .ok (.applied g₁ duplicate shouldAccept shouldBroadcast) ∧
    Handled now g event selfPeerId (.applied g₁ duplicate shouldAccept shouldBroadcast) ∧
    normalizeGroup now g₁.json = .ok g'

section

variable {d : Device} {now : Int} {newId fromId : String} {event : Json} {g' next : Group}

theorem find?_replaceGroup {id : String}
    (h : normalizeGroup now next.json = .ok g') :
    (d.replaceGroup now next).group? (.str id) =
      if g'.id = id then some g' else d.group? (.str id) := by
  rw [replaceGroup, h, group?_eq_find?, group?_eq_find?]
  exact find?_put

theorem replaceGroup_eq (h : normalizeGroup now next.json = .ok g') :
    d.replaceGroup now next = { d with groups := put Group.id g' d.groups } := by
  rw [replaceGroup, h]

theorem SameGroups.stored {d' : Device} (h : SameGroups d d') (hd : d.Stored) : d'.Stored := by
  rw [Stored, h.groups]
  exact hd

theorem Stored.replaceGroup (hd : d.Stored) (h : normalizeGroup now next.json = .ok g') (hg : g'.Stored) :
    (d.replaceGroup now next).Stored := by
  intro g hmem
  rw [Device.replaceGroup, h] at hmem
  obtain rfl | hmem := mem_of_mem_put hmem
  · exact hg
  · exact hd g hmem

theorem group?_handleGroupEvent (hd : d.Stored) {groupId : Json} {g : Group}
    (hg : d.group? groupId = some g) :
    ∃ g', (d.handleGroupEvent now newId event fromId).group? groupId = some g' ∧
      (g' = g ∨ Replaced now event fromId d.ownPeerId g g') := by
  obtain rfl := group?_id hg
  obtain hsame | ⟨g₁, hactor, -, ⟨duplicate, shouldAccept, shouldBroadcast, happlied⟩, hsame⟩ :=
    @handleGroupEvent_cases d now newId fromId event
  · exact ⟨g, hsame.group?.trans hg, .inl rfl⟩
  rw [hsame.group?]
  cases hread : normalizeGroup now g₁.json with
  | error e =>
    refine ⟨g, ?_, .inl rfl⟩
    rw [replaceGroup, hread]
    exact hg
  | ok g' =>
    rw [find?_replaceGroup hread]
    have hid : g'.id = g₁.id := (Json.str.inj (normalized hread).rawId).symm
    cases hcurrent : d.group? (event.get "groupId") with
    | none =>
      -- a group that is new does not have the id of one that is stored
      rw [hcurrent] at happlied
      have hnew := (invited_of_new happlied).id
      have hother : g'.id ≠ g.id := by
        intro heq
        rw [hnew, ← hid, heq, hg] at hcurrent
        cases hcurrent
      exact ⟨g, (if_neg hother).trans hg, .inl rfl⟩
    | some g₀ =>
      rw [hcurrent] at happlied
      have hhandled := handled (hd.group hcurrent) (group?_id hcurrent) happlied
      obtain ⟨-, hid'⟩ := hhandled.stored (hd.group hcurrent) hread
      by_cases hsameId : g₀.id = g.id
      · obtain rfl : g₀ = g := by
          rw [group?_id hcurrent, hsameId, hg] at hcurrent
          exact (Option.some.inj hcurrent).symm
        exact ⟨g', if_pos hid', .inr ⟨group?_id hcurrent, hactor, g₁, duplicate, shouldAccept,
          shouldBroadcast, happlied, hhandled, hread⟩⟩
      · refine ⟨g, (if_neg ?_).trans hg, .inl rfl⟩
        rw [hid']
        exact hsameId

theorem Stored.handleGroupEvent (hd : d.Stored) :
    (d.handleGroupEvent now newId event fromId).Stored := by
  obtain hsame | ⟨g₁, -, -, ⟨duplicate, shouldAccept, shouldBroadcast, happlied⟩, hsame⟩ :=
    @handleGroupEvent_cases d now newId fromId event
  · rw [Stored, hsame.groups]
    exact hd
  rw [Stored, hsame.groups]
  have hremembered : (d.rememberIncomingGroupEvent (event.get "eventId")).Stored := hd
  cases hread : normalizeGroup now g₁.json with
  | error e =>
    rw [Device.replaceGroup, hread]
    exact hremembered
  | ok g' =>
    refine hremembered.replaceGroup hread ?_
    cases hcurrent : d.group? (event.get "groupId") with
    | none =>
      rw [hcurrent] at happlied
      exact stored_of_normalized_twice (invited_of_new happlied).read hread
    | some g₀ =>
      rw [hcurrent] at happlied
      exact ((handled (hd.group hcurrent) (group?_id hcurrent) happlied).stored
        (hd.group hcurrent) hread).1

end

end Device
end Bluetalk.Groups
