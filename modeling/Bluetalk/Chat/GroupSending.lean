import Bluetalk.Chat.Inbound

/-!
# What is sent to a group

The messages, reactions and edits that a user sends to a group
(`src/renderer/app/sendGroupChatMessage.js`, `src/renderer/app/sendMessageEdit.js` and
`toggleMessageReaction` of `src/renderer/app/hooks/useMessaging.js`). Each is applied to the sender's own
history and goes to every other active member in the same envelope; an edit goes to those only whose
client is known to understand it.
-/

namespace Bluetalk.Chat
open CloudAccount Storage Groups

/-- The kinds that may be sent as messages of a group -/
def groupMessageKinds : List String := ["chat", "file", "sticker", "contact-share"]

def peerFeatureMessageEdit : String := "message-edit"
def ownPeerFeatures : List String := ["message-edit", "mentions", "pins", "video-call"]

/-- `normalizePeerFeatures` of what a contact reports -/
def normalizePeerFeatures (list : Json) : List String :=
  ((list.items.map fun item => jsTrim item.textOrEmpty).filter fun id =>
    ownPeerFeatures.contains id).eraseDups

def contactHasPeerFeature (contact : Json) (feature : String) : Bool :=
  (normalizePeerFeatures (contact.get "features")).contains feature

/-- The last of several contacts of one id counts. -/
def selectFeatureCapablePeerIds (peerIds : List String) (contacts : List Json) (feature : String) :
    List String :=
  peerIds.filter fun id => contactHasPeerFeature
    (((contacts.filter fun row => (row.get "id").truthy).reverse.find? fun row =>
      row.get "id" = .str id).getD .null) feature

/-- The envelope of what goes to a group -/
def groupEnvelope (g : Group) (messageId senderPeerId : String) (sender : Json) (timestamp : Int)
    (payload : Json) : Json :=
  .obj [("kind", .str groupMessageKind), ("protocolVersion", .num groupProtocolVersion),
    ("groupId", .str g.id), ("groupRevision", .num g.revision), ("messageId", .str messageId),
    ("senderPeerId", .str senderPeerId), ("sender", sender), ("timestamp", .num timestamp),
    ("payload", payload)]

/-- The content of a message as the members get it -/
def wireContent (payload : Json) : List (String × Json) :=
  let outgoing : List (String × Json) := match payload with
    | .str text => [("kind", .str "chat"), ("content", .str text)]
    | payload => Groups.spread [("kind", .str "chat")] payload.fields
  let content := eraseField "localPreviewUrl" outgoing
  match outgoing.lookup "mentions" with
  | some (.arr (m :: mentions)) =>
    if outgoing.lookup "kind" = some (.str "chat") then
      setField "mentions" (.arr ((m :: mentions).filter Json.truthy)) content
    else content
  | _ => content

/-- Only a file or sticker has a preview. -/
def localPreviewUrl (payload : Json) : Json :=
  if payload.get "kind" = .str "file" || payload.get "kind" = .str "sticker" then
    payload.get "localPreviewUrl"
  else .null

namespace Client

/-- The group, if this device is an active member of it -/
def activeGroup (groupId : String) (c : Client) : Option Group :=
  match c.device.group? (.str groupId) with
  | none => none
  | some g =>
    if c.device.ownPeerId ≠ "" && isActiveGroupMember g c.device.ownPeerId then some g else none

/-- `sendGroupPacket` to each of the recipients -/
def sendToGroup (recipients : List String) (packet : Json) (type packetId messageId groupId : String)
    (c : Client) : Client :=
  { c with device := recipients.foldl (fun d recipientId =>
      d.sendGroupPacket recipientId packet type packetId messageId groupId) c.device }

/-! ### Messages -/

def deliveryFields (delivery : Json) (recipients : List String) : List (String × Json) :=
  [("groupDelivery", delivery), ("groupDeliverySummary", summarizeGroupDelivery delivery recipients),
    ("deliveryStatus", .str (deriveGroupDeliveryStatus delivery recipients))]

/-- The message as its sender keeps it -/
def selfMessage (now : Int) (messageId : String) (g : Group) (content : List (String × Json))
    (localPreviewUrl : Json) (c : Client) : Message :=
  let recipients := buildTargetedGroupRoute g c.device.ownPeerId false
  let initialDelivery := Json.obj (recipients.map fun id => (id, .obj [("status", .str "offline")]))
  JsObject.ofFields (Groups.spread content ([("localPreviewUrl", localPreviewUrl),
    ("sender", c.displayName), ("senderPeerId", .str c.device.ownPeerId),
    ("messageId", .str messageId), ("timestamp", .num now), ("groupId", .str g.id),
    ("groupRevision", .num g.revision), ("groupRecipientIds", .arr (recipients.map .str)),
    ("from", .str "self")] ++ deliveryFields initialDelivery recipients))

/-- Whether the packet could be handed on to a member is `handedOn`. -/
def sendGroupChatMessage (now : Int) (messageId uuid : String) (fails : Bool)
    (handedOn : String → Bool) (groupId : String) (payload : Json) (c : Client) :
    Client × Option Json :=
  match c.activeGroup groupId with
  | none => (c, none)
  | some g =>
    let content := wireContent payload
    if !(groupMessageKinds.any fun k => (Json.obj content).get "kind" = .str k) then (c, none)
    else
      let recipients := buildTargetedGroupRoute g c.device.ownPeerId false
      let inner := groupEnvelope g messageId c.device.ownPeerId c.displayName now (.obj content)
      let message := c.selfMessage now messageId g content (localPreviewUrl payload)
      let shown := { c with cache := Function.update c.cache g.id (c.cache g.id ++ [message]) }
      -- nothing is sent if the message cannot be stored
      match if fails then .error .tooLarge
        else c.backend.append c.messages g.id message uuid now with
      | .error _ => (shown, none)
      | .ok (messages, _) =>
        let delivery := Json.obj (recipients.map fun id =>
          (id, .obj [("status", .str (if handedOn id then "sent" else "offline")), ("at", .num now)]))
        ((({ shown with messages := messages }).sendToGroup recipients inner "message" messageId
          messageId g.id).patched g.id (.str messageId)
            (deliveryFields delivery recipients ++ [("localPreviewUrl", Json.null)]), some inner)

/-! ### Reactions -/

/-- The message that is shown, or the one that is loaded under its id -/
def shownMessage (chatId : String) (message : Message) (c : Client) : Message :=
  ((c.cache chatId).find? fun item =>
    item.field "messageId" = message.field "messageId").getD message

/-- Whether the user sets the emoji, or takes it back -/
def setsEmoji (chatId : String) (message : Message) (emoji : String) (c : Client) : Bool :=
  !reactorHasEmoji ((c.shownMessage chatId message).field "reactions") "self" (.str emoji)

/-- The envelope of a reaction has an id that is made of the message's. -/
def toggleMessageReaction (now : Int) (groupId : String) (message : Message) (emoji : String)
    (c : Client) : Client × Option Json :=
  let messageId := message.field "messageId"
  if !messageId.truthy || !isAllowedReactionEmoji (.str emoji) then (c, none)
  else
    let active := c.setsEmoji groupId message emoji
    let reactions := setReactorEmoji ((c.shownMessage groupId message).field "reactions")
      (.str emoji) "self" active
    match c.applyMessagePatch groupId messageId [("reactions", reactions)] with
    | .error _ => (c, none)
    | .ok c =>
      match c.activeGroup groupId with
      | none => (c, none)
      | some g =>
        let packetId := "react:" ++ messageId.toText
        let inner := groupEnvelope g packetId c.device.ownPeerId c.displayName now
          (.obj [("kind", .str reactionKind), ("refMessageId", messageId), ("emoji", .str emoji),
            ("active", .bool active)])
        (c.sendToGroup (buildTargetedGroupRoute g c.device.ownPeerId false) inner "control" packetId
          packetId g.id, some inner)

/-! ### Edits -/

def sendMessageEdit (now : Int) (messageId : String) (contacts : List Json)
    (groupId refMessageId text : String) (c : Client) : Client × Option Json :=
  match (c.cache groupId).find? fun item => item.field "messageId" = .str refMessageId with
  | none => (c, none)
  | some original =>
    let editedAt := max now ((original.field "editedAt").toNumber + 1)
    let inner := buildMessageEditInner refMessageId text editedAt c.displayName messageId
    if !canEditOwnTextMessage original now (original.field "from" = .str "self") then (c, none)
    else
      match applyInboundMessageEdit (some original) inner now true with
      | .error _ | .ok (.skipped _) => (c, none)
      | .ok (.patched _ patch) =>
        match c.activeGroup groupId with
        | none => (c, none)
        | some g =>
          let capable := selectFeatureCapablePeerIds
            (buildTargetedGroupRoute g c.device.ownPeerId false) contacts peerFeatureMessageEdit
          let envelope := groupEnvelope g messageId c.device.ownPeerId c.displayName editedAt
            (.obj [("kind", .str messageEditKind), ("refMessageId", .str refMessageId),
              ("content", .str text), ("editedAt", .num editedAt)])
          match c.applyMessagePatch groupId (.str refMessageId) patch with
          | .error _ => (c, none)
          | .ok c =>
            (c.sendToGroup capable envelope "control" messageId messageId g.id, some envelope)

end Client
end Bluetalk.Chat
