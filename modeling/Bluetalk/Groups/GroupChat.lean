import Bluetalk.Js.CleanText
import Bluetalk.Js.Number
import Bluetalk.Js.Object

/-!
# Groups

`src/shared/group-chat.js`: a group with its members, the events that change it, and what a device
makes of an event. Groups that come from elsewhere are normalized: texts are cleaned, members are
listed once, and whoever is named as the founder is an admin.
-/

namespace Bluetalk

namespace Json

/-- The fields that `{ ...x }` takes. -/
def fields : Json → List (String × Json)
  | .obj fields => fields
  | _ => []

/-- `Array.isArray(x) ? x : []` -/
def items : Json → List Json
  | .arr items => items
  | _ => []

/-- A string, and of anything else the empty text, which is no peer's id. -/
def stringOrEmpty : Json → String
  | .str s => s
  | _ => ""

def isString : Json → Bool
  | .str _ => true
  | _ => false

end Json

namespace Groups

def groupProtocolVersion : Int := 1
def groupEventKind : String := "group-event-v1"
def groupMessageKind : String := "group-message-v1"
def groupReceiptKind : String := "group-receipt-v1"
def groupMaxNameChars : Nat := 80
def groupMaxImageChars : Nat := 520 * 1024
def groupEventHistoryLimit : Nat := 512

inductive MemberState
  | invited | active | left | removed
  deriving DecidableEq

namespace MemberState

def text : MemberState → String
  | invited => "invited"
  | active => "active"
  | left => "left"
  | removed => "removed"

/-- A state that is not known is an invitation. -/
def ofJson : Json → MemberState
  | .str "active" => active
  | .str "left" => left
  | .str "removed" => removed
  | _ => invited

end MemberState

inductive MemberRole
  | admin | member
  deriving DecidableEq

namespace MemberRole

def text : MemberRole → String
  | admin => "admin"
  | member => "member"

def ofJson : Json → MemberRole
  | .str "admin" => admin
  | _ => member

end MemberRole

structure Member where
  peerId : String
  displayName : String
  role : MemberRole
  state : MemberState
  addedAt : Int
  joinedAt : Option Int
  removedAt : Option Int
  deriving DecidableEq

structure Group where
  id : String
  revision : Int
  name : String
  image : String
  createdAt : Int
  createdBy : String
  updatedAt : Int
  members : List Member
  deriving DecidableEq

inductive GroupError
  | invalidGroup | invalidGroupCreator | adminRequired | invalidInvitee | notInvited
  | groupIdMismatch | staleGroupRevision | activeMemberRequired | groupMemberRequired
  | creatorRequired

/-- `x || y` -/
def orElse (x y : Json) : Json := if x.truthy then x else y

/-- The number, of what `Number.isFinite` accepts. -/
def finite : Json → Option Int
  | .num n => some n
  | _ => none

def isIdChar (c : Char) : Bool :=
  ('A' ≤ c && c ≤ 'Z') || ('a' ≤ c && c ≤ 'z') || ('0' ≤ c && c ≤ '9') || c = '_' || c = '-'

/-- `/^group:[A-Za-z0-9_-]{8,128}$/` -/
def isGroupChatId (id : String) : Bool :=
  let rest := id.toList.drop 6
  id.toList.take 6 = ['g', 'r', 'o', 'u', 'p', ':'] && 8 ≤ rest.length && rest.length ≤ 128 &&
    rest.all isIdChar

/-! ### In JSON -/

def jsonOrUndefined : Option Int → Json
  | some n => .num n
  | none => .null

def Member.fields (m : Member) : List (String × Json) :=
  [("peerId", .str m.peerId), ("displayName", .str m.displayName), ("role", .str m.role.text),
    ("state", .str m.state.text), ("addedAt", .num m.addedAt),
    ("joinedAt", jsonOrUndefined m.joinedAt), ("removedAt", jsonOrUndefined m.removedAt)]

def Member.json (m : Member) : Json := .obj m.fields

def Group.fields (g : Group) : List (String × Json) :=
  [("id", .str g.id), ("type", .str "group"), ("protocolVersion", .num groupProtocolVersion),
    ("revision", .num g.revision), ("name", .str g.name), ("image", .str g.image),
    ("createdAt", .num g.createdAt), ("createdBy", .str g.createdBy),
    ("updatedAt", .num g.updatedAt), ("members", .arr (g.members.map Member.json))]

def Group.json (g : Group) : Json := .obj g.fields

/-- `{ ...x, ...patch }` -/
def spread (fields patch : List (String × Json)) : List (String × Json) :=
  patch.foldl (fun fields x => setField x.1 x.2 fields) fields

/-! ### Normalizing -/

def normalizeMember (raw : Json) (fallbackNow : Int) : Option Member :=
  let peerId := cleanString (orElse (raw.get "peerId") (raw.get "id")) 96
  if peerId = "" then none
  else
    let state := MemberState.ofJson (raw.get "state")
    some
      { peerId := peerId
        displayName := cleanString
          (orElse (orElse (raw.get "displayName") (raw.get "name")) (.str peerId)) 80
        role := MemberRole.ofJson (raw.get "role")
        state := state
        addedAt := (finite (raw.get "addedAt")).getD fallbackNow
        joinedAt := (finite (raw.get "joinedAt")).or
          (if state = .active then some fallbackNow else none)
        removedAt := finite (raw.get "removedAt") }

/-- The members that are listed, each the first time. -/
def normalizeMembers (createdAt : Int) : List Member → List Json → List Member
  | members, [] => members
  | members, candidate :: candidates =>
    match normalizeMember candidate createdAt with
    | none => normalizeMembers createdAt members candidates
    | some m =>
      if m.peerId ∈ members.map Member.peerId then normalizeMembers createdAt members candidates
      else normalizeMembers createdAt (members ++ [m]) candidates

/-- The founder is an admin, and not invited. -/
def asCreator (createdBy : String) (m : Member) : Member :=
  if m.peerId = createdBy then
    { m with role := .admin, state := if m.state = .invited then .active else m.state }
  else m

def normalizeGroup (now : Int) (raw : Json) : Except GroupError Group :=
  match raw.get "id" with
  | .str id =>
    if isGroupChatId id then
      let createdAt := (finite (raw.get "createdAt")).getD now
      let members := normalizeMembers createdAt [] (raw.get "members").items
      let createdBy := cleanString (raw.get "createdBy") 96
      if createdBy = "" ∨ createdBy ∉ members.map Member.peerId then .error .invalidGroupCreator
      else
        let name := cleanString (raw.get "name") groupMaxNameChars
        .ok
          { id := id
            revision := max 1 ((finite (raw.get "revision")).getD 1)
            name := if name = "" then "Neue Gruppe" else name
            image := cleanString (raw.get "image") groupMaxImageChars
            createdAt := createdAt
            createdBy := createdBy
            updatedAt := (finite (raw.get "updatedAt")).getD createdAt
            members := members.map (asCreator createdBy) }
    else .error .invalidGroup
  | _ => .error .invalidGroup

def memberRow (now : Int) (m : Json) : Json :=
  let active := m.get "state" = .str "active"
  .obj [("peerId", orElse (m.get "peerId") (m.get "id")),
    ("displayName",
      orElse (orElse (orElse (m.get "displayName") (m.get "name")) (m.get "peerId")) (m.get "id")),
    ("role", .str (if m.get "role" = .str "admin" then "admin" else "member")),
    ("state", .str (if active then "active" else "invited")), ("addedAt", .num now),
    ("joinedAt", if active then .num now else .null)]

def createGroup (id : String) (name image creator : Json) (members : List Json) (now : Int) :
    Except GroupError Group :=
  if ¬ (creator.get "peerId").truthy then .error .creatorRequired
  else
    let creatorRow := .obj [("peerId", creator.get "peerId"),
      ("displayName", orElse (creator.get "displayName") (creator.get "peerId")),
      ("role", .str "admin"), ("state", .str "active"), ("addedAt", .num now),
      ("joinedAt", .num now)]
    let rows := creatorRow :: members.map (memberRow now)
    do
      let group ← normalizeGroup now (.obj [("id", .str id), ("name", name), ("image", image),
        ("createdAt", .num now), ("updatedAt", .num now), ("createdBy", creator.get "peerId"),
        ("revision", .num 1), ("members", .arr rows)])
      if group.members.length < 2 then .error .groupMemberRequired else return group

/-! ### Members -/

def getGroupMember (g : Group) (peerId : String) : Option Member :=
  g.members.find? fun m => m.peerId = peerId

def isActiveGroupMember (g : Group) (peerId : String) : Bool :=
  (getGroupMember g peerId).any fun m => m.state = .active

def isGroupAdmin (g : Group) (peerId : String) : Bool :=
  (getGroupMember g peerId).any fun m => m.state = .active && m.role = .admin

def Member.isInvitedOrActive (m : Member) : Bool := m.state = .invited || m.state = .active

def groupPeerIds (g : Group) (excludePeerId : String) (includeInvited : Bool) : List String :=
  ((g.members.filter fun m => m.peerId ≠ excludePeerId &&
    (m.state = .active || includeInvited && m.state = .invited)).map Member.peerId).eraseDups

/-- `buildTargetedGroupRoute(group, senderPeerId, …).recipients` -/
def buildTargetedGroupRoute (g : Group) (senderPeerId : String) (includeInvited : Bool) :
    List String :=
  groupPeerIds g senderPeerId includeInvited

/-! ### Events -/

def eventBase (action eventId groupId actorId : String) (now : Int) : List (String × Json) :=
  [("kind", .str groupEventKind), ("protocolVersion", .num groupProtocolVersion),
    ("eventId", .str eventId), ("action", .str action), ("groupId", .str groupId),
    ("actorId", .str actorId), ("timestamp", .num now)]

def createGroupInviteEvent (g : Group) (actorId recipientId eventId : String) (now : Int) :
    Except GroupError Json :=
  if isGroupAdmin g actorId then
    match getGroupMember g recipientId with
    | some m =>
      if m.isInvitedOrActive then do
        return .obj (eventBase "invite" eventId g.id actorId now ++
          [("recipientId", .str recipientId), ("group", (← normalizeGroup now g.json).json)])
      else .error .invalidInvitee
    | none => .error .invalidInvitee
  else .error .adminRequired

def createGroupAcceptEvent (g : Group) (actorId eventId : String) (now : Int) :
    Except GroupError Json :=
  match getGroupMember g actorId with
  | some m =>
    if m.isInvitedOrActive then
      .ok (.obj (eventBase "accept" eventId g.id actorId now ++
        [("inviteRevision", .num g.revision)]))
    else .error .notInvited
  | none => .error .notInvited

def createGroupUpdateEvent (previousGroup nextGroup : Group) (actorId reason eventId : String)
    (now : Int) : Except GroupError Json :=
  if ¬ isGroupAdmin previousGroup actorId then .error .adminRequired
  else do
    let normalized ← normalizeGroup now nextGroup.json
    if normalized.id ≠ previousGroup.id then .error .groupIdMismatch
    else if normalized.revision ≤ previousGroup.revision then .error .staleGroupRevision
    else
      return .obj (eventBase "update" eventId normalized.id actorId now ++
        [("reason", .str (if cleanText reason 40 = "" then "metadata" else cleanText reason 40)),
          ("group", normalized.json)])

def createGroupLeaveEvent (g : Group) (actorId eventId : String) (now : Int) :
    Except GroupError Json :=
  if isActiveGroupMember g actorId then
    .ok (.obj (eventBase "leave" eventId g.id actorId now ++ [("knownRevision", .num g.revision)]))
  else .error .activeMemberRequired

/-- The group with the next revision and other members, updated at the time that is given. -/
def nextGroup (now : Int) (g : Group) (updatedAt : Json) (members : List Json) :
    Except GroupError Group :=
  normalizeGroup now (.obj (spread g.fields [("revision", .num (addOne g.revision)),
    ("updatedAt", updatedAt), ("members", .arr members)]))

def withAcceptedMember (now : Int) (g : Group) (peerId : String) (at_ : Json) :
    Except GroupError Group :=
  nextGroup now g at_ (g.members.map fun m =>
    if m.peerId = peerId then
      .obj (spread m.fields [("state", .str "active"),
        ("joinedAt", orElse (jsonOrUndefined m.joinedAt) at_), ("removedAt", .null)])
    else m.json)

def withDepartedMember (now : Int) (g : Group) (peerId : String) (state : MemberState)
    (at_ : Json) : Except GroupError Group :=
  nextGroup now g at_ (g.members.map fun m =>
    if m.peerId = peerId then
      .obj (spread m.fields [("state", .str state.text), ("removedAt", at_)])
    else m.json)

/-! ### What a device makes of an event -/

inductive Applied
  | refused (error : String)
  | applied (group : Group) (duplicate shouldAccept shouldBroadcast : Bool)

namespace Applied

def changed (group : Group) : Applied := .applied group false false false
def known (group : Group) : Applied := .applied group true false false

end Applied

/-- A change that the device itself makes by an old kind of event -/
def isLegacy (event : Json) : Bool := (event.get "legacyMutation").truthy

def applyInvite (now : Int) (localGroup : Option Group) (event : Json) (selfPeerId : String) :
    Except GroupError Applied :=
  let actorId := (event.get "actorId").stringOrEmpty
  match isLegacy event && (event.get "invitee").truthy, localGroup with
  | true, some g => do
    let current ← normalizeGroup now g.json
    if ¬ (isGroupAdmin current actorId ∧ event.get "actorId" = .str selfPeerId) then
      return .refused "admin_required"
    if (getGroupMember current ((event.get "invitee").get "peerId").stringOrEmpty).isSome then
      return .known current
    let invitee := spread (event.get "invitee").fields
      [("state", .str "invited"), ("role", .str "member")]
    return .changed (← nextGroup now current (event.get "timestamp")
      (current.members.map Member.json ++ [.obj invitee]))
  | _, _ =>
    if event.get "recipientId" ≠ .str selfPeerId then .ok (.refused "wrong_invitee")
    else
      match normalizeGroup now (event.get "group") with
      | .error _ => .ok (.refused "invalid_group_snapshot")
      | .ok invited => do
        if .str invited.id ≠ event.get "groupId" ∨ ¬ isGroupAdmin invited actorId then
          return .refused "unauthorized_invite"
        if let some g := localGroup then
          let current ← normalizeGroup now g.json
          if ¬ isGroupAdmin current actorId then return .refused "admin_required"
          if invited.revision ≤ current.revision then return .known current
        match getGroupMember invited selfPeerId with
        | some self =>
          if self.isInvitedOrActive then
            return .applied invited false (self.state ≠ .active) false
          else return .refused "not_invited"
        | none => return .refused "not_invited"

def applyAccept (now : Int) (current : Group) (event : Json) (selfPeerId : String) :
    Except GroupError Applied :=
  let actorId := (event.get "actorId").stringOrEmpty
  let member := (getGroupMember current actorId).filter Member.isInvitedOrActive
  if isLegacy event ∧ event.get "actorId" = .str selfPeerId then
    match member with
    | none => .ok (.refused "not_invited")
    | some m =>
      if m.state = .active then .ok (.known current)
      else do return .changed (← withAcceptedMember now current actorId (event.get "timestamp"))
  else if event.get "actorId" = .str selfPeerId then .ok (.refused "self_accept_echo")
  else if ¬ isGroupAdmin current selfPeerId then .ok (.refused "admin_required")
  else
    match member with
    | none => .ok (.refused "not_invited")
    | some m =>
      if m.state = .active then .ok (.known current)
      else do
        return .applied (← withAcceptedMember now current actorId (event.get "timestamp"))
          false false true

def applyUpdate (now : Int) (current : Group) (event : Json) (selfPeerId : String) :
    Except GroupError Applied :=
  let actorId := (event.get "actorId").stringOrEmpty
  if isLegacy event ∧ (event.get "patch").truthy then
    if ¬ (isGroupAdmin current actorId ∧ event.get "actorId" = .str selfPeerId) then
      .ok (.refused "admin_required")
    else do
      return .changed (← normalizeGroup now (.obj (spread
        (spread current.fields (event.get "patch").fields)
        [("id", .str current.id), ("createdBy", .str current.createdBy),
          ("members", .arr (current.members.map Member.json)),
          ("revision", .num (addOne current.revision)), ("updatedAt", event.get "timestamp")])))
  else if ¬ isGroupAdmin current actorId then .ok (.refused "admin_required")
  else
    match normalizeGroup now (event.get "group") with
    | .error _ => .ok (.refused "invalid_group_snapshot")
    | .ok next =>
      if next.id ≠ current.id ∨ next.createdBy ≠ current.createdBy then
        .ok (.refused "group_identity_changed")
      else if next.revision ≤ current.revision then .ok (.known current)
      else .ok (.changed next)

def applyLeave (now : Int) (current : Group) (event : Json) (selfPeerId : String) :
    Except GroupError Applied :=
  let actorId := (event.get "actorId").stringOrEmpty
  if event.get "actorId" = .str selfPeerId then .ok (.refused "self_leave_echo")
  else if ¬ isGroupAdmin current selfPeerId then .ok (.refused "admin_required")
  else if ¬ isActiveGroupMember current actorId then .ok (.refused "active_member_required")
  else do
    return .applied (← withDepartedMember now current actorId .left (event.get "timestamp"))
      false false true

def isGroupEvent (event : Json) : Bool :=
  event.get "kind" = .str groupEventKind && event.get "protocolVersion" = .num groupProtocolVersion &&
    isGroupChatId (event.get "groupId").stringOrEmpty && (event.get "eventId").truthy &&
    (event.get "actorId").truthy

/-- What `normalizeGroup` throws is thrown on. -/
def applyGroupEvent (now : Int) (localGroup : Option Group) (event : Json) (selfPeerId : String) :
    Except GroupError Applied :=
  if ¬ isGroupEvent event then .ok (.refused "invalid_group_event")
  else if event.get "action" = .str "invite" then applyInvite now localGroup event selfPeerId
  else
    match localGroup with
    | none => .ok (.refused "unknown_group")
    | some g =>
      if .str g.id ≠ event.get "groupId" then .ok (.refused "unknown_group")
      else do
        let current ← normalizeGroup now g.json
        if event.get "action" = .str "accept" then applyAccept now current event selfPeerId
        else if event.get "action" = .str "update" then applyUpdate now current event selfPeerId
        else if event.get "action" = .str "leave" then applyLeave now current event selfPeerId
        else return .refused "unsupported_group_action"

/-! ### Messages -/

def groupPayloadKinds : List String := ["chat", "file", "sticker", "contact-share", "reaction"]

/-- The reason why a message is not taken, if there is one. -/
def validateIncomingGroupMessage (group : Option Group) (envelope : Json)
    (transportPeerId selfPeerId : String) : Option String :=
  match group with
  | none => some "invalid_group_message"
  | some g =>
    if envelope.get "kind" ≠ .str groupMessageKind then some "invalid_group_message"
    else if envelope.get "protocolVersion" ≠ .num groupProtocolVersion ∨
        envelope.get "groupId" ≠ .str g.id then some "group_mismatch"
    else if ¬ (envelope.get "messageId").truthy ∨
        envelope.get "senderPeerId" ≠ .str transportPeerId then some "sender_mismatch"
    else if ¬ isActiveGroupMember g transportPeerId then some "sender_not_member"
    else if ¬ isActiveGroupMember g selfPeerId then some "recipient_not_member"
    else if ((envelope.get "payload").get "kind").stringOrEmpty ∉ groupPayloadKinds then
      some "unsupported_group_payload"
    else none

/-! ### Delivery -/

/-- `delivery[peerId]?.status || delivery[peerId] || 'offline'` -/
def deliveryOf (delivery : Json) (peerId : String) : Json :=
  orElse (orElse ((delivery.get peerId).get "status") (delivery.get peerId)) (.str "offline")

def isDelivered (status : Json) : Bool := status = .str "delivered" || status = .str "seen"
def isPending (status : Json) : Bool := status = .str "sent" || status = .str "pending"

/-- `[...new Set(recipientIds.filter(Boolean))]` -/
def distinctIds (recipientIds : List String) : List String :=
  (recipientIds.filter fun id => id ≠ "").eraseDups

def deriveGroupDeliveryStatus (delivery : Json) (recipientIds : List String) : String :=
  let states := (distinctIds recipientIds).map (deliveryOf delivery)
  let delivered := states.countP isDelivered
  if delivered = states.length then "delivered"
  else if 0 < delivered then "partial"
  else if states.any isPending then "pending"
  else "scheduled"

def summarizeGroupDelivery (delivery : Json) (recipientIds : List String) : Json :=
  let states := (distinctIds recipientIds).map (deliveryOf delivery)
  let delivered := states.countP isDelivered
  let pending := states.countP isPending
  .obj [("total", .num states.length), ("delivered", .num delivered), ("pending", .num pending),
    ("offline", .num (states.length - delivered - pending))]

/-! ### Event ids -/

structure Remembered where
  duplicate : Bool
  eventIds : List Json

def rememberGroupEventId (eventIds : List Json) (eventId : Json) : Remembered :=
  let list := eventIds.filter Json.isString
  if ¬ eventId.truthy ∨ eventId ∈ list then
    { duplicate := eventId.truthy && decide (eventId ∈ list), eventIds := list }
  else { duplicate := false, eventIds := (list ++ [eventId]).rtake groupEventHistoryLimit }

end Groups
end Bluetalk
