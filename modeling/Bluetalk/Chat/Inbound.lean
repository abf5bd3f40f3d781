import Bluetalk.Chat.Client

/-!
# Messages that arrive

The chat messages and group messages among what `src/renderer/app/peerMessageHandler.js` and
`src/renderer/app/groupInboundHandler.js` handle. A message is checked as it arrives, and what is to
be stored is left to the store as a task, which may fail. A direct message is acknowledged by the
task, once it is stored, a group message before.
-/

open Option

namespace Bluetalk.Chat
open CloudAccount Storage Groups

/-- What a connection hands on, and what it decrypts to if it is encrypted -/
structure Arrival where
  fromId : String
  msg : Message
  inner : Option Message := none

/-- `messages.append(chatId, message)`, and what is sent to whom once the message is stored -/
structure StoreTask where
  chatId : String
  message : Message
  receipt : Option (String × Json)

def encryptedKind : String := "encrypted-chat-e2ee"
def deliveryReceiptKind : String := "delivery-receipt"

def groupProtocolKinds : List String := [groupEventKind, groupMessageKind, groupReceiptKind]

/-- What a blocked contact learns that he is blocked by -/
def blockableKinds : List String :=
  ["chat", "file", "sticker", encryptedKind, "poker-invite", "uno-invite", "connect-four-invite",
    "chess-invite", "tic-tac-toe-invite", "kart-invite", "live-docs-invite", "contact-share"]

def timestampOr (timestamp : Json) (otherwise : Json) : Json :=
  match timestamp with
  | .num n => .num n
  | _ => otherwise

namespace Arrival

/-- The connection says who sent it. -/
def message (a : Arrival) : Message := JsObject.set a.msg "from" (.str a.fromId)

/-- The message, and whether it was encrypted for this device -/
def normalized (now : Int) (newId : String) (a : Arrival) : Option (Message × Bool) :=
  let messageId := orElse (a.message.field "messageId") (.str newId)
  let timestamp := timestampOr (a.message.field "timestamp") (.num now)
  if a.message.field "kind" = .str encryptedKind && a.fromId ≠ "" then
    match a.inner with
    | none => none
    | some inner =>
      let named := JsObject.set inner "messageId" (orElse (inner.field "messageId") messageId)
      let dated := JsObject.set named "timestamp" (timestampOr (inner.field "timestamp") timestamp)
      some (JsObject.set (JsObject.set dated "from" (.str a.fromId)) "via"
        (orElse (a.message.field "via") (inner.field "via")), true)
  else
    some (JsObject.set (JsObject.set a.message "messageId" messageId) "timestamp" timestamp, false)

end Arrival

def messagingBlocked (messageId sender : Json) : Json :=
  .obj [("kind", .str "messaging-blocked"), ("refMessageId", messageId), ("sender", sender)]

def deliveryReceipt (messageId : Json) (now : Int) (sender : Json) : Json :=
  .obj [("kind", .str deliveryReceiptKind), ("refMessageId", messageId), ("receivedAt", .num now),
    ("sender", sender)]

def groupMessageReceipt (groupId : String) (messageId : Json) (senderPeerId : String) (now : Int) :
    Json :=
  .obj [("kind", .str groupReceiptKind), ("protocolVersion", .num groupProtocolVersion),
    ("groupId", .str groupId), ("refMessageId", messageId), ("senderPeerId", .str senderPeerId),
    ("status", .str "delivered"), ("receivedAt", .num now)]

/-- `{ ...normalized.payload, … }` -/
def groupMessageOf (g : Group) (envelope : Message) (fromId : String) : Message :=
  let name := match getGroupMember g fromId with
    | some m => if m.displayName = "" then fromId else m.displayName
    | none => fromId
  JsObject.ofFields (spread (envelope.field "payload").fields
    [("messageId", envelope.field "messageId"), ("timestamp", envelope.field "timestamp"),
      ("sender", .str name), ("senderPeerId", .str fromId), ("groupId", .str g.id),
      ("groupRevision", envelope.field "groupRevision"), ("from", .str fromId)])

namespace Client

def isBlocked (fromId : String) (c : Client) : Bool := fromId ≠ "" && c.blocked.contains fromId

def isLoaded (chatId : String) (messageId : Json) (c : Client) : Bool :=
  (c.cache chatId).any fun item => item.field "messageId" = messageId

/-- A blocked contact is told so, unless there is nothing that he could be told about. -/
def refuse (a : Arrival) (c : Client) : Client :=
  if (blockableKinds.any fun k => a.message.field "kind" = .str k) && a.fromId ≠ "" &&
      (a.message.field "messageId").truthy then
    c.send a.fromId (messagingBlocked (a.message.field "messageId") c.displayName)
  else c

def receiveDirect (now : Int) (fromId : String) (m : Message) (c : Client) : Option StoreTask :=
  match checkContent m with
  | none => none
  | some m =>
    let messageId := m.field "messageId"
    if messageId.truthy && fromId ≠ "" && c.isLoaded fromId messageId then none
    else if !isStoreableChatKind (m.field "kind") then none
    else
      let receipt := if messageId.truthy && fromId ≠ "" then
          some (fromId, deliveryReceipt messageId now c.displayName)
        else none
      some ⟨fromId, m, receipt⟩

/-- The message branch of `handleGroupProtocolFrame`: the receipt goes out before the message is
stored. -/
def receiveGroupMessage (now : Int) (fromId : String) (envelope : Message) (c : Client) :
    Client × Option StoreTask :=
  let group := c.device.group? (envelope.field "groupId")
  match group, validateIncomingGroupMessage group (.obj envelope.fields) fromId
      c.device.ownPeerId with
  | some g, none =>
    let groupMessage := groupMessageOf g envelope fromId
    let kind := groupMessage.field "kind"
    if kind = .str messageEditKind then
      (c.applyInboundChatEdit now g.id fromId groupMessage true, none)
    else if kind = .str reactionKind then (c.handleReaction g.id fromId groupMessage, none)
    else
      match checkContent groupMessage with
      | none => (c, none)
      | some groupMessage =>
        if !isStoreableChatKind (groupMessage.field "kind") then (c, none)
        else
          let receipt := groupMessageReceipt g.id (groupMessage.field "messageId")
            c.device.ownPeerId now
          (c.send fromId receipt, some ⟨g.id, groupMessage, none⟩)
  | _, _ => (c, none)

/-- A message is stored unless there is one of its id in the conversation. -/
def store (task : StoreTask) (uuid : String) (now : Int) (fails : Bool) (c : Client) : Client :=
  if fails then c
  else
    match c.backend.append c.messages task.chatId task.message uuid now with
    | .error _ | .ok (_, false) => c
    | .ok (messages, true) =>
      let stored := { c with
        messages := messages
        cache := Function.update c.cache task.chatId (c.cache task.chatId ++ [task.message]) }
      match task.receipt with
      | none => stored
      | some (peerId, receipt) => stored.send peerId receipt

end Client

/-! ### Receipts of group messages -/

namespace Client

def receiptPatch (existing : Message) (receipt : Json) (fromId : String) (now : Int) :
    List (String × Json) :=
  let recipients := (existing.field "groupRecipientIds").items.map Json.stringOrEmpty
  let status := if receipt.get "status" = .str "seen" then "seen" else "delivered"
  let at' := ((finite (receipt.get "receivedAt")).getD now)
  let delivery := Json.obj (spread (existing.field "groupDelivery").fields
    [(fromId, .obj [("status", .str status), ("at", .num at')])])
  [("groupDelivery", delivery), ("deliveryStatus", .str (deriveGroupDeliveryStatus delivery recipients)),
    ("groupDeliverySummary", summarizeGroupDelivery delivery recipients)]

/-- The branch of `handleGroupProtocolFrame` for the receipt of a message: the message is looked for
among those that are loaded. -/
def handleMessageReceipt (now : Int) (receipt : Json) (fromId : String) (c : Client) : Client :=
  match c.device.group? (receipt.get "groupId") with
  | none => c
  | some g =>
    let refMessageId := receipt.get "refMessageId"
    if receipt.get "senderPeerId" ≠ .str fromId || !refMessageId.truthy then c
    else
      match (c.cache g.id).find? fun item =>
          item.field "messageId" = refMessageId && item.field "from" = .str "self" with
      | none => c
      | some existing =>
        if !(existing.field "groupRecipientIds").items.contains (.str fromId) then c
        else
          match c.applyMessagePatch g.id refMessageId (receiptPatch existing receipt fromId now) with
          | .error _ => c
          | .ok c =>
            let kept := c.device.outbox.filter fun entry => !(entry.type = "message" &&
              entry.peerId = fromId && refMessageId = .str entry.messageId)
            { c with device := c.device.persistGroupOutbox kept }

/-- The receipt branch of `handleGroupProtocolFrame` -/
def handleGroupReceipt (now : Int) (receipt : Json) (fromId : String) (c : Client) : Client :=
  if (c.device.group? (receipt.get "groupId")).isSome && receipt.get "senderPeerId" = .str fromId &&
      (receipt.get "refEventId").truthy then
    { c with device := c.device.handleEventReceipt receipt fromId }
  else c.handleMessageReceipt now receipt fromId

end Client

/-! ### Everything that arrives -/

namespace Client

def handleGroupProtocolFrame (now : Int) (newId : String) (fromId : String) (frame : Message)
    (encrypted : Bool) (c : Client) : Client × Option StoreTask :=
  if !encrypted then (c, none)
  else if frame.field "kind" = .str groupEventKind then
    ({ c with device := c.device.handleGroupEvent now newId (.obj frame.fields) fromId }, none)
  else if frame.field "kind" = .str groupReceiptKind then
    (c.handleGroupReceipt now (.obj frame.fields) fromId, none)
  else c.receiveGroupMessage now fromId frame

/-- `peer:message` for what belongs to a chat or to a group -/
def receive (now : Int) (newId : String) (a : Arrival) (c : Client) : Client × Option StoreTask :=
  if c.isBlocked a.fromId then (c.refuse a, none)
  else
    match a.normalized now newId with
    | none => (c, none)
    | some (m, encrypted) =>
      let kind := m.field "kind"
      if groupProtocolKinds.any fun k => kind = .str k then
        c.handleGroupProtocolFrame now newId a.fromId m encrypted
      else if kind = .str messageEditKind && a.fromId ≠ "" then
        (c.applyInboundChatEdit now a.fromId a.fromId m false, none)
      else if kind = .str reactionKind && a.fromId ≠ "" then
        (c.handleReaction a.fromId a.fromId m, none)
      else (c, c.receiveDirect now a.fromId m)

end Client

/-! ### What comes of a message -/

section

variable {now : Int} {newId : String} {a : Arrival} {c : Client} {m message : Message}
  {encrypted : Bool} {fromId : String} {g : Group} {kind : Json}

theorem mem_storeableChatKinds (h : isStoreableChatKind kind) :
    ∃ k ∈ storeableChatKinds, kind = .str k := by
  obtain ⟨k, hk, heq⟩ := List.any_eq_true.mp h
  exact ⟨k, hk, of_decide_eq_true heq⟩

theorem truthy_orElse {x y : Json} (h : y.truthy) : (orElse x y).truthy := by
  rw [orElse]
  split
  · assumption
  · exact h

theorem Arrival.truthy_messageId (h : a.normalized now newId = some (m, encrypted))
    (hid : newId ≠ "") : (m.field "messageId").truthy := by
  have hnew : (orElse (a.message.field "messageId") (.str newId)).truthy :=
    truthy_orElse (decide_eq_true hid)
  rw [normalized] at h
  split at h
  · split at h
    · cases h
    · obtain ⟨rfl, -⟩ := Prod.mk.inj (some.inj h)
      rw [field_set_of_ne (by decide), field_set_of_ne (by decide), field_set_of_ne (by decide),
        field_set, if_pos rfl]
      exact truthy_orElse hnew
  · obtain ⟨rfl, -⟩ := Prod.mk.inj (some.inj h)
    rw [field_set_of_ne (by decide), field_set, if_pos rfl]
    exact hnew

theorem Arrival.from_normalized (h : a.normalized now newId = some (m, encrypted)) :
    m.field "from" = .str a.fromId := by
  rw [normalized] at h
  split at h
  · split at h
    · cases h
    · obtain ⟨rfl, -⟩ := Prod.mk.inj (some.inj h)
      rw [field_set_of_ne (by decide), field_set, if_pos rfl]
  · obtain ⟨rfl, -⟩ := Prod.mk.inj (some.inj h)
    rw [field_set_of_ne (by decide), field_set_of_ne (by decide), message, field_set, if_pos rfl]

namespace Client

theorem receive_of_storeable (h : a.normalized now newId = some (m, encrypted))
    (hblocked : c.isBlocked a.fromId = false) (hkind : isStoreableChatKind (m.field "kind")) :
    c.receive now newId a = (c, c.receiveDirect now a.fromId m) := by
  have hplain : (groupProtocolKinds.any fun k => m.field "kind" = .str k) = false ∧
      m.field "kind" ≠ .str messageEditKind ∧ m.field "kind" ≠ .str reactionKind := by
    have hall : ∀ k ∈ storeableChatKinds,
        (groupProtocolKinds.any fun k' => Json.str k = .str k') = false ∧
          Json.str k ≠ .str messageEditKind ∧ Json.str k ≠ .str reactionKind := by decide
    obtain ⟨k, hk, heq⟩ := mem_storeableChatKinds hkind
    rw [heq]
    exact hall k hk
  rw [receive, hblocked, h]
  simp [hplain]

theorem receive_of_groupMessage (h : a.normalized now newId = some (m, encrypted))
    (hblocked : c.isBlocked a.fromId = false) (hkind : m.field "kind" = .str groupMessageKind) :
    c.receive now newId a =
      if encrypted then c.receiveGroupMessage now a.fromId m else (c, none) := by
  have hgroup : (groupProtocolKinds.any fun k => Json.str groupMessageKind = .str k) = true ∧
      Json.str groupMessageKind ≠ .str groupEventKind ∧
      Json.str groupMessageKind ≠ .str groupReceiptKind := by decide
  rw [receive, hblocked, h]
  dsimp only
  rw [hkind, hgroup.1, if_neg (by decide), if_pos rfl, handleGroupProtocolFrame]
  cases encrypted with
  | false => rfl
  | true => rw [if_neg (by decide), hkind, if_neg hgroup.2.1, if_neg hgroup.2.2, if_pos rfl]

theorem receiveDirect_eq (hid : (m.field "messageId").truthy) (hfrom : fromId ≠ "")
    (hkind : isStoreableChatKind (m.field "kind")) :
    c.receiveDirect now fromId m =
      if c.isLoaded fromId (m.field "messageId") then none
      else (checkContent m).map fun checked =>
        ⟨fromId, checked, some (fromId, deliveryReceipt (m.field "messageId") now c.displayName)⟩ := by
  rw [receiveDirect]
  cases hcheck : checkContent m with
  | none => simp
  | some checked =>
    have hsame : checked.field "messageId" = m.field "messageId" ∧
        checked.field "kind" = m.field "kind" :=
      ⟨field_checkContent hcheck (by decide), field_checkContent hcheck (by decide)⟩
    simp [hsame, hid, hfrom, hkind]

theorem device_patched {peerId : String} {messageId : Json} {patch : List (String × Json)} :
    (c.patched peerId messageId patch).device = c.device := by
  rw [patched]
  split
  next => rfl
  next c' h =>
  rw [applyMessagePatch] at h
  split at h
  · obtain rfl := Except.ok.inj h
    rfl
  simp only [bind, Except.bind, pure, Except.pure] at h
  split at h
  · cases h
  split at h
  · cases h
  · obtain rfl := Except.ok.inj h
    rfl

variable {chatId : String}

theorem device_handleReaction :
    (c.handleReaction chatId fromId m).device = c.device := by
  rw [handleReaction]
  split
  · rfl
  split
  · rfl
  · exact device_patched

theorem device_applyInboundChatEdit {isGroup : Bool} :
    (c.applyInboundChatEdit now chatId fromId m isGroup).device = c.device := by
  rw [applyInboundChatEdit]
  split
  · rfl
  · rfl
  split
  · rfl
  split
  · rfl
  · rfl
  · exact device_patched

/-- The device takes the frame for a message of the group that it stores. -/
structure Accepts (c : Client) (fromId : String) (envelope : Message) (g : Group)
    (message : Message) : Prop where
  group : c.device.group? (envelope.field "groupId") = some g
  valid : validateIncomingGroupMessage (some g) (.obj envelope.fields) fromId c.device.ownPeerId =
    none
  content : checkContent (groupMessageOf g envelope fromId) = some message
  storeable : isStoreableChatKind (message.field "kind")

theorem Accepts.unique {g' : Group} {message' : Message} (h : c.Accepts fromId m g message)
    (h' : c.Accepts fromId m g' message') : g' = g ∧ message' = message := by
  obtain rfl := some.inj (h.group.symm.trans h'.group)
  exact ⟨rfl, some.inj (h'.content.symm.trans h.content)⟩

theorem Accepts.messageId (h : c.Accepts fromId m g message) :
    message.field "messageId" = m.field "messageId" := by
  rw [field_checkContent h.content (by decide), groupMessageOf]
  simp [Message.field, Groups.spread, lookup_setField]

theorem Accepts.truthy_messageId (h : c.Accepts fromId m g message) :
    (message.field "messageId").truthy := by
  have hvalid := h.valid
  rw [h.messageId]
  by_contra hfalse
  rw [validateIncomingGroupMessage] at hvalid
  split at hvalid
  · cases hvalid
  split at hvalid
  · cases hvalid
  · rw [if_pos (.inl hfalse)] at hvalid
    cases hvalid

theorem receiveGroupMessage_cases (now : Int) (fromId : String) (m : Message) (c : Client) :
    (∃ g message, c.Accepts fromId m g message ∧ c.receiveGroupMessage now fromId m =
      (c.send fromId (groupMessageReceipt g.id (message.field "messageId") c.device.ownPeerId now),
        some ⟨g.id, message, none⟩)) ∨
    (∀ g message, ¬ c.Accepts fromId m g message) ∧
      ∃ c', c.receiveGroupMessage now fromId m = (c', none) ∧ c'.device = c.device := by
  rw [receiveGroupMessage]
  dsimp only
  split
  next g hgroup hvalid =>
    -- an accepted message has the kind that came with it
    have hkind : ∀ g' message, c.Accepts fromId m g' message →
        g' = g ∧ checkContent (groupMessageOf g m fromId) = some message ∧
          isStoreableChatKind ((groupMessageOf g m fromId).field "kind") := by
      intro g' message h
      obtain rfl := some.inj (h.group.symm.trans hgroup)
      refine ⟨rfl, h.content, ?_⟩
      rw [← field_checkContent h.content (by decide)]
      exact h.storeable
    have hnot : ∀ k, (Json.str k = .str messageEditKind ∨ Json.str k = .str reactionKind) →
        isStoreableChatKind (.str k) = false := by
      rintro k (h | h)
      · rw [h]; decide
      · rw [h]; decide
    split
    next hedit =>
      refine .inr ⟨fun g' message h => ?_, _, rfl, device_applyInboundChatEdit⟩
      have hstoreable := (hkind g' message h).2.2
      rw [hedit, hnot _ (.inl rfl)] at hstoreable
      cases hstoreable
    split
    next hreaction =>
      refine .inr ⟨fun g' message h => ?_, _, rfl, device_handleReaction⟩
      have hstoreable := (hkind g' message h).2.2
      rw [hreaction, hnot _ (.inr rfl)] at hstoreable
      cases hstoreable
    split
    next hcontent =>
      refine .inr ⟨fun g' message h => ?_, _, rfl, rfl⟩
      rw [(hkind g' message h).2.1] at hcontent
      cases hcontent
    next message hcontent =>
    split
    next hunstoreable =>
      refine .inr ⟨fun g' message' h => ?_, _, rfl, rfl⟩
      obtain rfl := some.inj ((hkind g' message' h).2.1.symm.trans hcontent)
      rw [h.storeable] at hunstoreable
      cases hunstoreable
    next hstoreable =>
    rw [hgroup] at hvalid
    exact .inl ⟨g, message, ⟨hgroup, hvalid, hcontent, by simpa using hstoreable⟩, rfl⟩
  next hnone =>
  refine .inr ⟨fun g message h => ?_, _, rfl, rfl⟩
  refine hnone g h.group ?_
  rw [h.group]
  exact h.valid

end Client
end
end Bluetalk.Chat
