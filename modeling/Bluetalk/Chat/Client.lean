import Bluetalk.Chat.Content
import Bluetalk.Groups.Device

/-!
# Changes of a message that is there

Reactions (`src/renderer/app/messageReactions.js`) and edits (`src/shared/chat-features.js`,
`src/renderer/app/applyInboundChatEdit.js`): what the sender and the recipient of one make of the
message that it names.
-/

namespace Bluetalk.Chat
open CloudAccount

/-! ### Reactions -/

def reactionKind : String := "reaction"

def reactionEmojis : List String := ["👍", "❤️", "😂", "😮", "😢", "🔥", "👏", "🎉"]

def isAllowedReactionEmoji (emoji : Json) : Bool := reactionEmojis.any fun e => emoji = .str e

def reactorHasEmoji (reactions : Json) (reactorId : String) (emoji : Json) : Bool :=
  (reactions.get emoji.stringOrEmpty).items.contains (.str reactorId)

/-- One emoji for each person -/
def setReactorEmoji (reactions emoji : Json) (reactorId : String) (active : Bool) : Json :=
  let next := reactions.fields.filterMap fun x =>
    if !isAllowedReactionEmoji (.str x.1) then none
    else match x.2 with
      | .arr ids =>
        let list := ids.filter fun id => id.truthy && id ≠ .str reactorId
        if list = [] then none else some (x.1, Json.arr list)
      | _ => none
  if active && isAllowedReactionEmoji emoji && reactorId ≠ "" then
    .obj (Groups.spread next [(emoji.stringOrEmpty,
      .arr (((Json.obj next).get emoji.stringOrEmpty).items ++ [.str reactorId]))])
  else .obj next

/-! ### Edits -/

def messageEditKind : String := "message-edit"
def messageEditWindowMs : Int := 24 * 60 * 60 * 1000

def canEditOwnTextMessage (message : Message) (now : Int) (isSelf : Bool) : Bool :=
  message.field "kind" = .str "chat" && isSelf && (message.field "messageId").truthy &&
    decide (0 < (message.field "timestamp").toNumber) &&
    decide (now - (message.field "timestamp").toNumber ≤ messageEditWindowMs)

structure MessageEdit where
  refMessageId : String
  content : String
  editedAt : Int

def validateMessageEditPayload (payload : Json) : Except String MessageEdit :=
  let refMessageId := jsTrim (payload.get "refMessageId").textOrEmpty
  if payload.get "kind" ≠ .str messageEditKind then .error "invalid_kind"
  else if refMessageId = "" then .error "missing_ref"
  else match payload.get "content" with
    | .str content =>
      let editedAt := (payload.get "editedAt").toNumber
      if jsTrim content = "" then .error "empty"
      else if maxChatTextChars < utf16Length content then .error "too_long"
      else if editedAt ≤ 0 then .error "invalid_edited_at"
      else .ok ⟨refMessageId, content, editedAt⟩
    | _ => .error "invalid_content"

/-- What an edit makes of a message: nothing if there is a later edit. -/
inductive EditResult
  | skipped (refMessageId : String)
  | patched (refMessageId : String) (patch : List (String × Json))

def editPatch (edit : MessageEdit) : List (String × Json) :=
  [("content", .str edit.content), ("editedAt", .num edit.editedAt), ("edited", .bool true)]

def applyInboundMessageEdit (existing : Option Message) (payload : Json) (now : Int)
    (editorIsOriginalSender : Bool) : Except String EditResult :=
  match validateMessageEditPayload payload with
  | .error e => .error e
  | .ok edit =>
    if !editorIsOriginalSender then .error "sender_mismatch"
    else
      let patched := if now + 5 * 60 * 1000 < edit.editedAt then .error "edited_in_future"
        else .ok (.patched edit.refMessageId (editPatch edit))
      match existing with
      | none => patched
      | some message =>
        let originalTs := (message.field "timestamp").toNumber
        let prevEdited := (message.field "editedAt").toNumber
        if message.field "kind" ≠ .str "chat" then .error "not_text"
        else if originalTs ≤ 0 then .error "no_timestamp"
        else if messageEditWindowMs < edit.editedAt - originalTs then .error "window_expired"
        else if 0 < prevEdited ∧ edit.editedAt ≤ prevEdited then .ok (.skipped edit.refMessageId)
        else patched

def buildMessageEditInner (refMessageId content : String) (editedAt : Int) (sender : Json)
    (messageId : String) : Json :=
  .obj [("kind", .str messageEditKind), ("refMessageId", .str refMessageId),
    ("content", .str content), ("editedAt", .num editedAt), ("sender", sender),
    ("messageId", .str messageId), ("timestamp", .num editedAt)]

def editorOwnsOriginal (existing : Message) (fromId : String) (isGroup : Bool) : Bool :=
  fromId ≠ "" && existing.field "from" ≠ .str "self" &&
    (existing.field "from" = .str fromId ||
      isGroup && existing.field "senderPeerId" = .str fromId)

end Bluetalk.Chat

/-!
## A client with its messages

The groups and connections of a device together with the messages it has stored and those of them
that are loaded (`messageCacheRef`). Messages are looked up among the loaded ones, and changed both
there and in the store (`src/renderer/app/hooks/useChatData.js`).
-/

namespace Bluetalk.Chat
open CloudAccount Storage Groups

structure Client where
  device : Groups.Device
  backend : Backend
  messages : MessageTable
  /-- `messageCacheRef.current` -/
  cache : String → List Message
  /-- The contacts the user has blocked -/
  blocked : List String
  displayName : Json

namespace Client

/-- `window.bluetalk.peer.send` and `sendPairwiseEncrypted` -/
def send (peerId : String) (packet : Json) (c : Client) : Client :=
  { c with device := c.device.transmit peerId packet }

def findCachedMessage (chatId : String) (messageId : Json) (c : Client) : Option Message :=
  if chatId = "" || !messageId.truthy then none
  else (c.cache chatId).find? fun item => item.field "messageId" = messageId

/-- The last 80 messages that are stored are searched as well. -/
def findMessageForReaction (chatId : String) (messageId : Json) (c : Client) : Option Message :=
  match c.findCachedMessage chatId messageId with
  | some message => some message
  | none =>
    match c.backend.peerKey chatId with
    | .error _ => none
    | .ok key =>
      if !messageId.truthy then none
      else (((c.messages.chat key).rtake 80).map MessageRow.value).find? fun item =>
        item.field "messageId" = messageId

/-- An id as `messages.patch` gets it -/
def patchId : Backend → Json → Except StorageError String
  | .web, messageId => .ok messageId.textOrEmpty
  | .desktop, .str messageId => .ok messageId
  | .desktop, _ => .error .invalidMessageId

/-- Changes the first loaded message of the id. -/
def patchList (messageId : Json) (patch : List (String × Json)) : List Message → List Message
  | [] => []
  | m :: list =>
    if m.field "messageId" = messageId then
      patch.foldl (fun m x => JsObject.set m x.1 x.2) m :: list
    else m :: patchList messageId patch list

/-- What the store refuses is not shown either. -/
def applyMessagePatch (peerId : String) (messageId : Json) (patch : List (String × Json))
    (c : Client) : Except StorageError Client := do
  if peerId = "" || !messageId.truthy then return c
  let messages ← c.backend.patch c.messages peerId (← patchId c.backend messageId) patch
  return { c with
    messages := messages
    cache := Function.update c.cache peerId (patchList messageId patch (c.cache peerId)) }

/-- A change that the store refuses is left. -/
def patched (peerId : String) (messageId : Json) (patch : List (String × Json)) (c : Client) :
    Client :=
  match c.applyMessagePatch peerId messageId patch with
  | .error _ => c
  | .ok c' => c'

/-! ### Reactions and edits that arrive -/

def handleReaction (chatId fromId : String) (reaction : Message) (c : Client) : Client :=
  let emoji := reaction.field "emoji"
  let refMessageId := reaction.field "refMessageId"
  if !isAllowedReactionEmoji emoji || !refMessageId.truthy then c
  else
    match c.findMessageForReaction chatId refMessageId with
    | none => c
    | some existing =>
      let reactions := setReactorEmoji (existing.field "reactions") emoji fromId
        (reaction.field "active" ≠ .bool false)
      c.patched chatId refMessageId [("reactions", reactions)]

def applyInboundChatEdit (now : Int) (chatId fromId : String) (payload : Message) (isGroup : Bool)
    (c : Client) : Client :=
  match applyInboundMessageEdit none (.obj payload.fields) now true with
  | .error _ | .ok (.skipped _) => c
  | .ok (.patched refMessageId _) =>
    match c.findMessageForReaction chatId (.str refMessageId) with
    | none => c
    | some existing =>
      match applyInboundMessageEdit (some existing) (.obj payload.fields) now
          (editorOwnsOriginal existing fromId isGroup) with
      | .error _ | .ok (.skipped _) => c
      | .ok (.patched refMessageId patch) => c.patched chatId (.str refMessageId) patch

end Client
end Bluetalk.Chat
