import Bluetalk.Chat.GroupSending
import Bluetalk.Chat.Receipts

/-!
# Whether the members agree with the sender

What a user sends to a group reaches a member who has the group in the same state. The member takes
messages whose content is in order and reactions to messages it knows, and makes of them what the sender
has made of them; it takes no edit.
-/

open List Option

namespace Bluetalk.Chat
open CloudAccount Storage Groups

/-- What a user does in a group -/
inductive GroupAction
  | message (uuid : String) (fails : Bool) (handedOn : String → Bool) (payload : Json)
  | reaction (target : Message) (emoji : String)
  | edit (contacts : List Json) (refMessageId text : String)

def GroupAction.perform (now : Int) (messageId groupId : String) (c : Client) :
    GroupAction → Client × Option Json
  | .message uuid fails handedOn payload =>
    c.sendGroupChatMessage now messageId uuid fails handedOn groupId payload
  | .reaction target emoji => c.toggleMessageReaction now groupId target emoji
  | .edit contacts refMessageId text =>
    c.sendMessageEdit now messageId contacts groupId refMessageId text

/-- `sendPairwiseEncrypted`, as it arrives and is decrypted -/
def sealed (encrypted : Message) (newId : String) (now : Int) (sender : Json) (fromId : String)
    (packet : Json) : Arrival where
  fromId := fromId
  msg := JsObject.set (JsObject.set (JsObject.set (JsObject.set encrypted "kind" (.str encryptedKind))
    "sender" sender) "messageId" (orElse (packet.get "messageId") (orElse (packet.get "eventId")
      (orElse (packet.get "refMessageId") (.str newId))))) "timestamp"
        (timestampOr (packet.get "timestamp") (.num now))
  inner := some (JsObject.ofFields packet.fields)

/-! ### What is read of a packet -/

section

variable {m m' : Message} {k : String}

theorem validateStickerData_congr (hdata : m.field "fileData" = m'.field "fileData")
    (htype : m.field "fileType" = m'.field "fileType")
    (hsize : m.field "fileSize" = m'.field "fileSize") :
    validateStickerData m = validateStickerData m' := by
  rw [validateStickerData, validateStickerData, hdata, htype, hsize]

theorem isSome_checkContent_congr (hkind : m.field "kind" = m'.field "kind")
    (hdata : m.field "fileData" = m'.field "fileData")
    (htype : m.field "fileType" = m'.field "fileType")
    (hsize : m.field "fileSize" = m'.field "fileSize")
    (hcontent : m.field "content" = m'.field "content") :
    (checkContent m).isSome = (checkContent m').isSome := by
  rw [checkContent, checkContent, validateStickerData_congr hdata htype hsize, hkind, hdata, hcontent]
  split
  · split <;> rfl
  split
  · dsimp only
    split <;> rfl
  split <;> rfl

theorem fileData_validateStickerData {fields : List (String × Json)}
    (h : validateStickerData m = .ok fields) :
    ∃ type size, fields = [("fileData", m.field "fileData"), ("fileType", type),
      ("fileSize", size)] := by
  rw [validateStickerData] at h
  dsimp only at h
  split at h
  · cases h
  split at h
  · cases h
  split at h
  · cases h
  split at h
  · cases h
  split at h
  · cases h
  · exact ⟨_, _, (Except.ok.inj h).symm⟩

theorem fileData_checkContent (h : checkContent m = some m') :
    m'.field "fileData" = m.field "fileData" := by
  rw [checkContent] at h
  split at h
  · split at h
    next => cases h
    next fields hfields =>
    obtain rfl := some.inj h
    obtain ⟨type, size, rfl⟩ := fileData_validateStickerData hfields
    rw [foldl_cons, field_foldl_set (by simp), field_set, if_pos rfl]
  split at h
  · dsimp only at h
    split at h
    · cases h
    · obtain rfl := some.inj h
      rw [field_withVoice (by decide), field_set_of_ne (by decide)]
  split at h
  · cases h
  · obtain rfl := some.inj h
    rfl

end

/-- The fields that a member sets for itself -/
def envelopeFields : List String :=
  ["messageId", "timestamp", "sender", "senderPeerId", "groupId", "groupRevision", "from"]

/-- The fields of a message that a member may have otherwise than its sender -/
def rewrittenFields : List String := ["fileType", "fileSize", "voice"] ++ envelopeFields

section

variable {encrypted : Message} {newId newId' : String} {now now' : Int} {sender : Json}
  {fromId : String} {packet : Json} {g : Group} {m message : Message} {k : String}

theorem field_ofFields {fields : List (String × Json)} :
    Message.field (JsObject.ofFields fields) k = (Json.obj fields).get k := by
  rw [Message.field, JsObject.get?_ofFields]
  rfl

theorem field_groupMessageOf (h : k ∉ envelopeFields) :
    (groupMessageOf g m fromId).field k = (m.field "payload").get k := by
  simp only [envelopeFields, mem_cons, not_mem_nil, or_false, not_or] at h
  obtain ⟨hid, htime, hsender, hpeer, hgroup, hrevision, hfrom⟩ := h
  rw [groupMessageOf, field_ofFields, Json.get]
  simp only [Groups.spread, foldl_cons, foldl_nil, lookup_setField, if_neg hfrom,
    if_neg hrevision, if_neg hgroup, if_neg hpeer, if_neg hsender, if_neg htime, if_neg hid]
  cases m.field "payload" <;> rfl

theorem from_groupMessageOf : (groupMessageOf g m fromId).field "from" = .str fromId := by
  rw [groupMessageOf, field_ofFields, Json.get]
  simp [Groups.spread, lookup_setField]

structure Arrival.Carries (a : Arrival) (fromId : String) (packet : Json) : Prop where
  fromId : a.fromId = fromId
  kind : a.message.field "kind" = .str encryptedKind
  messageId : (a.message.field "messageId").truthy
  inner : ∃ inner, a.inner = some inner ∧ ∀ k, inner.field k = packet.get k

theorem carries_sealed (hid : (packet.get "messageId").truthy ∨ newId ≠ "") :
    (sealed encrypted newId now sender fromId packet).Carries fromId packet where
  fromId := rfl
  kind := by
    rw [Arrival.message, sealed, field_set_of_ne (by decide), field_set_of_ne (by decide),
      field_set_of_ne (by decide), field_set_of_ne (by decide), field_set, if_pos rfl]
  messageId := by
    rw [Arrival.message, sealed, field_set_of_ne (by decide), field_set_of_ne (by decide), field_set,
      if_pos rfl]
    obtain hid | hid := hid
    · rw [orElse, if_pos hid]
      exact hid
    · exact truthy_orElse (truthy_orElse (truthy_orElse (decide_eq_true hid)))
  inner := by
    refine ⟨_, rfl, fun k => ?_⟩
    rw [field_ofFields]
    cases packet <;> rfl

/-- The fields that a packet may arrive with otherwise than it was sent -/
def readdressedFields : List String := ["messageId", "timestamp", "from", "via"]

/-- What is read of a packet: its fields, with an id or a time of its own only if it has none. -/
structure Reads (m : Message) (packet : Json) : Prop where
  field : ∀ k, k ∉ readdressedFields → m.field k = packet.get k
  messageId : (packet.get "messageId").truthy → m.field "messageId" = packet.get "messageId"
  timestamp : ∀ time, packet.get "timestamp" = .num time → m.field "timestamp" = .num time

theorem Arrival.Carries.reads {a : Arrival} (h : a.Carries fromId packet) (now : Int)
    (newId : String) (hfrom : fromId ≠ "") :
    ∃ m, a.normalized now newId = some (m, true) ∧ Reads m packet := by
  obtain ⟨inner, hinner, hget⟩ := h.inner
  rw [Arrival.normalized]
  rw [h.kind, hinner, if_pos (by simpa [h.fromId] using hfrom)]
  refine ⟨_, rfl, fun k hk => ?_, fun hid => ?_, fun time htime => ?_⟩
  · simp only [readdressedFields, mem_cons, not_mem_nil, or_false, not_or] at hk
    obtain ⟨hid, htime, hfrom, hvia⟩ := hk
    rw [field_set_of_ne hvia, field_set_of_ne hfrom, field_set_of_ne htime, field_set_of_ne hid, hget]
  · rw [field_set_of_ne (by decide), field_set_of_ne (by decide), field_set_of_ne (by decide),
      field_set, if_pos rfl, hget, orElse, if_pos hid]
  · rw [field_set_of_ne (by decide), field_set_of_ne (by decide), field_set, if_pos rfl, hget, htime]
    rfl

theorem Reads.eq_get {time : Int} (h : Reads m packet) (hid : (packet.get "messageId").truthy)
    (htime : packet.get "timestamp" = .num time) (hfrom : k ≠ "from") (hvia : k ≠ "via") :
    m.field k = packet.get k := by
  by_cases hk : k ∈ readdressedFields
  · simp only [readdressedFields, mem_cons, not_mem_nil, or_false, hfrom, hvia] at hk
    obtain rfl | rfl := hk
    · exact h.messageId hid
    · rw [h.timestamp time htime, htime]
  · exact h.field k hk

end

/-! ### What the sender and the members make of it -/

namespace GroupAction

/-- The member accepts the packet, and does what the sender has done: a message is to be stored with the
same content, a reaction is set or taken back, a text is replaced. -/
def Agreed (act : GroupAction) (messageId groupId : String) (a b : Client) (g : Group)
    (packet : Json) (outcome : Client × Option StoreTask) : Prop :=
  validateIncomingGroupMessage (b.device.group? (packet.get "groupId")) packet a.device.ownPeerId
    b.device.ownPeerId = none ∧
  match act with
  | .message _ _ _ payload => ∃ task, outcome.2 = some task ∧ task.chatId = g.id ∧
      task.message.field "messageId" = .str messageId ∧
      task.message.field "from" = .str a.device.ownPeerId ∧
      ∀ k, k ∉ rewrittenFields → task.message.field k = (Json.obj (wireContent payload)).get k
  | .reaction target emoji => ∃ existing,
      b.findMessageForReaction g.id (target.field "messageId") = some existing ∧
      b.applyMessagePatch g.id (target.field "messageId")
        [("reactions", setReactorEmoji (existing.field "reactions") (.str emoji) a.device.ownPeerId
          (a.setsEmoji groupId target emoji))] = .ok outcome.1
  | .edit _ refMessageId text => ∃ editedAt,
      b.applyMessagePatch g.id (.str refMessageId) (editPatch ⟨refMessageId, text, editedAt⟩) =
        .ok outcome.1

/-- The member has not blocked the sender. The content of a message is in order; the message that a
reaction is to is known, and its change is taken by the store; an edit is not taken. -/
def Taken (act : GroupAction) (groupId : String) (a b : Client) (g : Group) : Prop :=
  b.isBlocked a.device.ownPeerId = false ∧
  match act with
  | .message _ _ _ payload => (checkContent (JsObject.ofFields (wireContent payload))).isSome
  | .reaction target emoji => ∃ existing b',
      b.findMessageForReaction g.id (target.field "messageId") = some existing ∧
      b.applyMessagePatch g.id (target.field "messageId")
        [("reactions", setReactorEmoji (existing.field "reactions") (.str emoji) a.device.ownPeerId
          (a.setsEmoji groupId target emoji))] = .ok b'
  | .edit .. => False

end GroupAction

section

variable {now now' : Int} {messageId groupId newId newId' uuid : String} {a b c : Client} {g : Group}
  {packet payload : Json} {sender : Json} {encrypted m : Message} {fails : Bool}
  {handedOn : String → Bool} {time : Int} {peerId emoji refMessageId text fromId : String}
  {id : Json} {patch : List (String × Json)} {c' : Client} {target : Message} {contacts : List Json}
  {arrival : Arrival}

theorem activeGroup_spec (h : c.activeGroup groupId = some g) :
    c.device.group? (.str groupId) = some g ∧ c.device.ownPeerId ≠ "" ∧
      isActiveGroupMember g c.device.ownPeerId := by
  rw [Client.activeGroup] at h
  split at h
  · cases h
  next g' hgroup =>
  split at h
  next hactive =>
    obtain rfl := some.inj h
    rw [Bool.and_eq_true, decide_eq_true_eq] at hactive
    exact ⟨hgroup, hactive⟩
  · cases h

theorem id_of_group? (h : c.device.group? (.str groupId) = some g) : g.id = groupId := by
  have hid := find?_some h
  exact Json.str.inj (of_decide_eq_true hid)

theorem sendGroupChatMessage_packet
    (h : (c.sendGroupChatMessage now messageId uuid fails handedOn groupId payload).2 = some packet) :
    ∃ g, c.activeGroup groupId = some g ∧
      (∃ k ∈ groupMessageKinds, (Json.obj (wireContent payload)).get "kind" = .str k) ∧
      packet = groupEnvelope g messageId c.device.ownPeerId c.displayName now
        (.obj (wireContent payload)) := by
  rw [Client.sendGroupChatMessage] at h
  split at h
  · cases h
  next g hgroup =>
  dsimp only at h
  split at h
  · cases h
  next hkind =>
  split at h
  · cases h
  refine ⟨g, hgroup, ?_, (some.inj h).symm⟩
  rw [Bool.not_eq_true, Bool.not_eq_false'] at hkind
  obtain ⟨k, hk, heq⟩ := any_eq_true.mp hkind
  exact ⟨k, hk, of_decide_eq_true heq⟩

theorem device_applyMessagePatch (h : c.applyMessagePatch peerId id patch = .ok c') : c'.device = c.device := by
  have hpatched : c.patched peerId id patch = c' := by
    rw [Client.patched, h]
  rw [← hpatched]
  exact Client.device_patched

theorem displayName_applyMessagePatch (h : c.applyMessagePatch peerId id patch = .ok c') :
    c'.displayName = c.displayName := by
  rw [Client.applyMessagePatch] at h
  split at h
  · obtain rfl := Except.ok.inj h
    rfl
  obtain ⟨id, -, h⟩ := bind_eq_ok.mp h
  obtain ⟨messages, -, h⟩ := bind_eq_ok.mp h
  obtain rfl := Except.ok.inj h
  rfl

theorem activeGroup_congr (h : c'.device = c.device) :
    c'.activeGroup groupId = c.activeGroup groupId := by
  rw [Client.activeGroup, Client.activeGroup, h]

theorem toggleMessageReaction_packet (h : (c.toggleMessageReaction now groupId target emoji).2 = some packet) :
    ∃ g, c.activeGroup groupId = some g ∧ (target.field "messageId").truthy ∧
      isAllowedReactionEmoji (.str emoji) ∧
      packet = groupEnvelope g ("react:" ++ (target.field "messageId").toText) c.device.ownPeerId
        c.displayName now (.obj [("kind", .str reactionKind),
          ("refMessageId", target.field "messageId"), ("emoji", .str emoji),
          ("active", .bool (c.setsEmoji groupId target emoji))]) := by
  rw [Client.toggleMessageReaction] at h
  dsimp only at h
  split at h
  · cases h
  next hallowed =>
  simp only [Bool.or_eq_true, Bool.not_eq_true', not_or, Bool.not_eq_false] at hallowed
  split at h
  · cases h
  next c' hpatch =>
  split at h
  · cases h
  next g hgroup =>
  rw [activeGroup_congr (device_applyMessagePatch hpatch)] at hgroup
  rw [device_applyMessagePatch hpatch, displayName_applyMessagePatch hpatch] at h
  exact ⟨g, hgroup, hallowed.1, hallowed.2, (some.inj h).symm⟩

theorem sendMessageEdit_packet (h : (c.sendMessageEdit now messageId contacts groupId refMessageId text).2 = some packet) :
    ∃ g editedAt, c.activeGroup groupId = some g ∧
      packet = groupEnvelope g messageId c.device.ownPeerId c.displayName editedAt
        (.obj [("kind", .str messageEditKind), ("refMessageId", .str refMessageId),
          ("content", .str text), ("editedAt", .num editedAt)]) := by
  rw [Client.sendMessageEdit] at h
  split at h
  · cases h
  dsimp only at h
  split at h
  · cases h
  split at h
  · cases h
  · cases h
  split at h
  · cases h
  next g hgroup =>
  split at h
  · cases h
  · exact ⟨g, _, hgroup, (some.inj h).symm⟩

theorem validate_groupEnvelope (hid : messageId ≠ "")
    (ha : isActiveGroupMember g a.device.ownPeerId) (hb : isActiveGroupMember g b.device.ownPeerId) :
    validateIncomingGroupMessage (some g)
      (groupEnvelope g messageId a.device.ownPeerId sender time payload) a.device.ownPeerId
      b.device.ownPeerId =
        if (payload.get "kind").stringOrEmpty ∈ groupPayloadKinds then none
        else some "unsupported_group_payload" := by
  have htruthy : (Json.str messageId).truthy = true := decide_eq_true hid
  have henvelope : ∃ envelope, envelope = groupEnvelope g messageId a.device.ownPeerId sender time
      payload ∧ envelope.get "kind" = .str groupMessageKind ∧
      envelope.get "protocolVersion" = .num groupProtocolVersion ∧
      envelope.get "groupId" = .str g.id ∧ envelope.get "messageId" = .str messageId ∧
      envelope.get "senderPeerId" = .str a.device.ownPeerId ∧ envelope.get "payload" = payload :=
    ⟨_, rfl, rfl, rfl, rfl, rfl, rfl, rfl⟩
  obtain ⟨envelope, heq, hkind, hversion, hgroup, hmessageId, hsender, hpayload⟩ := henvelope
  rw [← heq, validateIncomingGroupMessage, hkind, hversion, hgroup, hmessageId, hsender, hpayload]
  simp [htruthy, ha, hb]

theorem validate_congr {envelope : Json} {selfId : String}
    (h : ∀ k, k ≠ "from" → k ≠ "via" → m.field k = envelope.get k) :
    validateIncomingGroupMessage (some g) (.obj m.fields) fromId selfId =
      validateIncomingGroupMessage (some g) envelope fromId selfId := by
  have hget : ∀ k, k ≠ "from" → k ≠ "via" → (Json.obj m.fields).get k = envelope.get k := h
  rw [validateIncomingGroupMessage, validateIncomingGroupMessage, hget _ (by decide) (by decide),
    hget _ (by decide) (by decide), hget _ (by decide) (by decide), hget _ (by decide) (by decide),
    hget _ (by decide) (by decide), hget _ (by decide) (by decide)]

theorem receive_carried (h : arrival.Carries fromId packet)
    (now : Int) (newId : String) (hfrom : fromId ≠ "") (hblocked : b.isBlocked fromId = false)
    (hkind : packet.get "kind" = .str groupMessageKind) (hid : (packet.get "messageId").truthy)
    (htime : packet.get "timestamp" = .num time) :
    ∃ m, (∀ k, k ≠ "from" → k ≠ "via" → m.field k = packet.get k) ∧
      b.receive now newId arrival = b.receiveGroupMessage now fromId m := by
  obtain ⟨m, hnormalized, hreads⟩ := h.reads now newId hfrom
  rw [← h.fromId] at hblocked ⊢
  refine ⟨m, fun k => hreads.eq_get hid htime, ?_⟩
  rw [Client.receive_of_groupMessage hnormalized hblocked, if_pos rfl]
  rw [hreads.field "kind" (by decide), hkind]

theorem receive_blocked (h : arrival.Carries fromId packet)
    (now : Int) (newId : String) (hfrom : fromId ≠ "") (hblocked : b.isBlocked fromId) :
    ∃ notice, b.receive now newId arrival = (b.send fromId notice, none) := by
  rw [← h.fromId] at hfrom hblocked ⊢
  refine ⟨messagingBlocked (arrival.message.field "messageId") b.displayName, ?_⟩
  rw [Client.receive, if_pos hblocked, Client.refuse, if_pos]
  rw [h.kind]
  simp [blockableKinds, h.messageId, hfrom]

/-! ### Messages -/

theorem kind_of_mem {k : String} (h : k ∈ groupMessageKinds) :
    k ∈ groupPayloadKinds ∧ isStoreableChatKind (.str k) := by
  have hall : ∀ k ∈ groupMessageKinds, k ∈ groupPayloadKinds ∧ isStoreableChatKind (.str k) := by
    decide
  exact hall k h

theorem agreed_message (hid : messageId ≠ "") (hg : b.device.group? (.str groupId) = some g)
    (ha : a.activeGroup groupId = some g) (hb : isActiveGroupMember g b.device.ownPeerId)
    (hpacket : (a.sendGroupChatMessage now messageId uuid fails handedOn groupId payload).2 =
      some packet) :
    (GroupAction.message uuid fails handedOn payload).Agreed messageId groupId a b g packet
        (b.receive now' newId' (sealed encrypted newId now sender a.device.ownPeerId packet)) ↔
      (GroupAction.message uuid fails handedOn payload).Taken groupId a b g := by
  obtain ⟨-, hfrom, hactive⟩ := activeGroup_spec ha
  obtain ⟨g', hg', ⟨k, hk, hkind⟩, rfl⟩ := sendGroupChatMessage_packet hpacket
  obtain rfl := some.inj (ha.symm.trans hg')
  obtain ⟨hpayload, hstoreable⟩ := kind_of_mem hk
  have hgroup : b.device.group? (.str g.id) = some g := by rw [id_of_group? hg, hg]
  have htruthy : (Json.str messageId).truthy = true := decide_eq_true hid
  have hvalid : validateIncomingGroupMessage (some g) (groupEnvelope g messageId a.device.ownPeerId
      a.displayName now (.obj (wireContent payload))) a.device.ownPeerId b.device.ownPeerId =
        none := by
    rw [validate_groupEnvelope hid hactive hb, hkind]
    exact if_pos hpayload
  have hchecked : validateIncomingGroupMessage (b.device.group? ((groupEnvelope g messageId
      a.device.ownPeerId a.displayName now (.obj (wireContent payload))).get "groupId"))
        (groupEnvelope g messageId a.device.ownPeerId a.displayName now (.obj (wireContent payload)))
        a.device.ownPeerId b.device.ownPeerId = none := by
    have hget : b.device.group? ((groupEnvelope g messageId a.device.ownPeerId a.displayName now
        (.obj (wireContent payload))).get "groupId") = some g := hgroup
    rw [hget]
    exact hvalid
  have hcarries : (sealed encrypted newId now sender a.device.ownPeerId (groupEnvelope g messageId
      a.device.ownPeerId a.displayName now (.obj (wireContent payload)))).Carries _ _ :=
    carries_sealed (.inl htruthy)
  cases hblocked : b.isBlocked a.device.ownPeerId with
  | true =>
    obtain ⟨notice, hreceive⟩ := receive_blocked hcarries now' newId' hfrom hblocked
    rw [hreceive]
    refine iff_of_false ?_ fun h => ?_
    · rintro ⟨-, task, htask, -⟩
      cases htask
    · exact Bool.noConfusion (hblocked.symm.trans h.1)
  | false =>
    obtain ⟨m, hfield, hreceive⟩ := receive_carried hcarries now' newId' hfrom hblocked rfl htruthy rfl
    have hcontent : ∀ k, k ∉ envelopeFields →
        (groupMessageOf g m a.device.ownPeerId).field k = (Json.obj (wireContent payload)).get k := by
      intro k hk
      rw [field_groupMessageOf hk, hfield "payload" (by decide) (by decide)]
      rfl
    have hsome : (checkContent (groupMessageOf g m a.device.ownPeerId)).isSome =
        (checkContent (JsObject.ofFields (wireContent payload))).isSome :=
      isSome_checkContent_congr ((hcontent _ (by decide)).trans field_ofFields.symm)
        ((hcontent _ (by decide)).trans field_ofFields.symm)
        ((hcontent _ (by decide)).trans field_ofFields.symm)
        ((hcontent _ (by decide)).trans field_ofFields.symm)
        ((hcontent _ (by decide)).trans field_ofFields.symm)
    have hgroup' : b.device.group? (m.field "groupId") = some g := by
      rw [hfield "groupId" (by decide) (by decide)]
      exact hgroup
    have hvalid' : validateIncomingGroupMessage (some g) (.obj m.fields) a.device.ownPeerId
        b.device.ownPeerId = none := (validate_congr hfield).trans hvalid
    rw [hreceive]
    obtain ⟨g', message, haccepts, heq⟩ | ⟨hrefuses, c', heq, -⟩ :=
      Client.receiveGroupMessage_cases now' a.device.ownPeerId m b
    · obtain rfl := some.inj (hgroup'.symm.trans haccepts.group)
      have hcheck := haccepts.content
      rw [heq]
      have htaken : (checkContent (JsObject.ofFields (wireContent payload))).isSome := by
        rw [← hsome, hcheck]
        rfl
      refine iff_of_true ⟨hchecked, _, rfl, rfl, ?_, ?_, fun k hk => ?_⟩ ⟨hblocked, htaken⟩
      · rw [haccepts.messageId, hfield "messageId" (by decide) (by decide)]
        rfl
      · exact (field_checkContent hcheck (by decide)).trans from_groupMessageOf
      rw [rewrittenFields, mem_append, not_or] at hk
      by_cases hdata : k = "fileData"
      · rw [hdata, fileData_checkContent hcheck, hcontent "fileData" (by decide)]
      · rw [field_checkContent hcheck ?_, hcontent k hk.2]
        rw [contentFields, mem_cons, not_or]
        exact ⟨hdata, hk.1⟩
    · rw [heq]
      refine iff_of_false ?_ fun h => ?_
      · rintro ⟨-, task, htask, -⟩
        cases htask
      obtain ⟨message, hmessage⟩ := isSome_iff_exists.mp (hsome.trans h.2)
      refine hrefuses g message ⟨hgroup', hvalid', hmessage, ?_⟩
      rw [field_checkContent hmessage (by decide), hcontent "kind" (by decide), hkind]
      exact hstoreable

/-! ### Reactions and edits -/

theorem receiveGroupMessage_reaction (hgroup : b.device.group? (m.field "groupId") = some g)
    (hvalid : validateIncomingGroupMessage (some g) (.obj m.fields) a.device.ownPeerId
      b.device.ownPeerId = none)
    (hkind : (groupMessageOf g m a.device.ownPeerId).field "kind" = .str reactionKind) :
    b.receiveGroupMessage now a.device.ownPeerId m =
      (b.handleReaction g.id a.device.ownPeerId (groupMessageOf g m a.device.ownPeerId), none) := by
  rw [Client.receiveGroupMessage]
  rw [hgroup, hvalid]
  dsimp only
  rw [hkind, if_neg (by decide), if_pos rfl]

theorem agreed_reaction (hg : b.device.group? (.str groupId) = some g) (ha : a.activeGroup groupId = some g)
    (hb : isActiveGroupMember g b.device.ownPeerId)
    (hpacket : (a.toggleMessageReaction now groupId target emoji).2 = some packet) :
    (GroupAction.reaction target emoji).Agreed messageId groupId a b g packet
        (b.receive now' newId' (sealed encrypted newId now sender a.device.ownPeerId packet)) ↔
      (GroupAction.reaction target emoji).Taken groupId a b g := by
  obtain ⟨-, hfrom, hactive⟩ := activeGroup_spec ha
  obtain ⟨g', hg', htarget, hemoji, rfl⟩ := toggleMessageReaction_packet hpacket
  obtain rfl := some.inj (ha.symm.trans hg')
  have hgroup : b.device.group? (.str g.id) = some g := by rw [id_of_group? hg, hg]
  have hid : "react:" ++ (target.field "messageId").toText ≠ "" := by
    intro h
    have hlength := congrArg String.length h
    exact absurd hlength (by simp)
  have htruthy : (Json.str ("react:" ++ (target.field "messageId").toText)).truthy = true :=
    decide_eq_true hid
  obtain ⟨payload, hpayload⟩ : ∃ payload, payload = Json.obj [("kind", .str reactionKind),
    ("refMessageId", target.field "messageId"), ("emoji", .str emoji),
    ("active", .bool (a.setsEmoji groupId target emoji))] := ⟨_, rfl⟩
  have hvalid : validateIncomingGroupMessage (some g) (groupEnvelope g
      ("react:" ++ (target.field "messageId").toText) a.device.ownPeerId a.displayName now payload)
        a.device.ownPeerId b.device.ownPeerId = none := by
    rw [validate_groupEnvelope hid hactive hb, hpayload]
    rfl
  rw [← hpayload]
  have hchecked : validateIncomingGroupMessage (b.device.group? ((groupEnvelope g
      ("react:" ++ (target.field "messageId").toText) a.device.ownPeerId a.displayName now
        payload).get "groupId")) (groupEnvelope g ("react:" ++ (target.field "messageId").toText)
          a.device.ownPeerId a.displayName now payload) a.device.ownPeerId b.device.ownPeerId =
            none := by
    have hget : b.device.group? ((groupEnvelope g ("react:" ++ (target.field "messageId").toText)
        a.device.ownPeerId a.displayName now payload).get "groupId") = some g := hgroup
    rw [hget]
    exact hvalid
  have hcarries : (sealed encrypted newId now sender a.device.ownPeerId (groupEnvelope g
      ("react:" ++ (target.field "messageId").toText) a.device.ownPeerId a.displayName now
        payload)).Carries _ _ := carries_sealed (.inl htruthy)
  cases hblocked : b.isBlocked a.device.ownPeerId with
  | true =>
    obtain ⟨notice, hreceive⟩ := receive_blocked hcarries now' newId' hfrom hblocked
    rw [hreceive]
    refine iff_of_false ?_ fun h => Bool.noConfusion (hblocked.symm.trans h.1)
    rintro ⟨-, existing, -, hpatch⟩
    -- the notice is the only difference, and no change of a message sends one
    have hdevice := congrArg (fun d => d.sent.length) (device_applyMessagePatch hpatch)
    simp [Client.send, Device.transmit] at hdevice
  | false =>
    obtain ⟨m, hfield, hreceive⟩ := receive_carried hcarries now' newId' hfrom hblocked rfl htruthy rfl
    have hcontent : ∀ k, k ∉ envelopeFields →
        (groupMessageOf g m a.device.ownPeerId).field k = payload.get k := by
      intro k hk
      rw [field_groupMessageOf hk, hfield "payload" (by decide) (by decide)]
      rfl
    have hgroup' : b.device.group? (m.field "groupId") = some g := by
      rw [hfield "groupId" (by decide) (by decide)]
      exact hgroup
    have hkind : (groupMessageOf g m a.device.ownPeerId).field "kind" = .str reactionKind := by
      rw [hcontent "kind" (by decide), hpayload]
      rfl
    have href : (groupMessageOf g m a.device.ownPeerId).field "refMessageId" =
        target.field "messageId" := by
      rw [hcontent "refMessageId" (by decide), hpayload]
      rfl
    have hemoji' : (groupMessageOf g m a.device.ownPeerId).field "emoji" = .str emoji := by
      rw [hcontent "emoji" (by decide), hpayload]
      rfl
    have hactive' : (decide ((groupMessageOf g m a.device.ownPeerId).field "active" ≠ .bool false)) =
        a.setsEmoji groupId target emoji := by
      have hget : payload.get "active" = .bool (a.setsEmoji groupId target emoji) := by
        rw [hpayload]
        rfl
      rw [hcontent "active" (by decide), hget]
      cases a.setsEmoji groupId target emoji <;> decide
    rw [hreceive, receiveGroupMessage_reaction hgroup'
      ((validate_congr hfield).trans hvalid) hkind]
    constructor
    · rintro ⟨-, existing, hfind, hpatch⟩
      exact ⟨hblocked, existing, _, hfind, hpatch⟩
    rintro ⟨-, existing, b', hfind, hpatch⟩
    refine ⟨hchecked, existing, hfind, ?_⟩
    rw [hpatch, Client.handleReaction, href, hemoji', hactive']
    rw [if_neg (by simp [hemoji, htarget]), hfind]
    dsimp only
    rw [Client.patched, hpatch]

theorem not_agreed_edit {outcome : Client × Option StoreTask} (hid : messageId ≠ "")
    (hg : b.device.group? (.str groupId) = some g) (ha : a.activeGroup groupId = some g)
    (hb : isActiveGroupMember g b.device.ownPeerId)
    (hpacket : (a.sendMessageEdit now messageId contacts groupId refMessageId text).2 = some packet) :
    ¬ (GroupAction.edit contacts refMessageId text).Agreed messageId groupId a b g packet outcome := by
  obtain ⟨-, -, hactive⟩ := activeGroup_spec ha
  obtain ⟨g', editedAt, hg', rfl⟩ := sendMessageEdit_packet hpacket
  obtain rfl := some.inj (ha.symm.trans hg')
  have hgroup : b.device.group? ((groupEnvelope g messageId a.device.ownPeerId a.displayName editedAt
      (.obj [("kind", .str messageEditKind), ("refMessageId", .str refMessageId),
        ("content", .str text), ("editedAt", .num editedAt)])).get "groupId") = some g := by
    have hid : b.device.group? (.str g.id) = some g := by rw [id_of_group? hg, hg]
    exact hid
  rintro ⟨haccepted, -⟩
  rw [hgroup, validate_groupEnvelope hid hactive hb, if_neg] at haccepted
  · cases haccepted
  · exact of_decide_eq_true rfl

/-- A member who has the group in the same state makes of what a user sends to it what the sender has
made of it, exactly when the member takes it. -/
theorem members_agree {act : GroupAction} (hid : messageId ≠ "")
    (hg : b.device.group? (.str groupId) = some g) (ha : a.activeGroup groupId = some g)
    (hb : isActiveGroupMember g b.device.ownPeerId)
    (hpacket : (act.perform now messageId groupId a).2 = some packet) :
    act.Agreed messageId groupId a b g packet
        (b.receive now' newId' (sealed encrypted newId now sender a.device.ownPeerId packet)) ↔
      act.Taken groupId a b g := by
  cases act with
  | message uuid fails handedOn payload => exact agreed_message hid hg ha hb hpacket
  | reaction target emoji => exact agreed_reaction hg ha hb hpacket
  | edit contacts refMessageId text =>
    exact iff_of_false (not_agreed_edit hid hg ha hb hpacket) fun h => h.2

end

open Reception (choir annasClient)

def bensClient : Client :=
  { annasClient with
    device := { annasClient.device with ownPeerId := "ben" }
    displayName := .str "Ben" }

def sings : GroupAction := .message "u" false (fun _ => true) (.str "Hallo")

theorem members_agree_sings : ∃ packet, (sings.perform 5 "m1" choir.id annasClient).2 = some packet ∧
    (sings.Agreed "m1" choir.id annasClient bensClient choir packet
      (bensClient.receive 6 "n" (sealed .empty "n" 5 (.str "Anna") "anna" packet)) ↔
        sings.Taken choir.id annasClient bensClient choir) := by
  have hsome : (sings.perform 5 "m1" choir.id annasClient).2.isSome := by decide +kernel
  obtain ⟨packet, hpacket⟩ := isSome_iff_exists.mp hsome
  have hactive : annasClient.activeGroup choir.id = some choir := by decide
  exact ⟨packet, hpacket, members_agree (by decide) (by decide) hactive (by decide) hpacket⟩

/-- Anna's client, with a message of hers in the group -/
def annasSong : Client :=
  { annasClient with
    cache := fun _ => [JsObject.ofFields [("kind", .str "chat"), ("content", .str "Halo"),
      ("messageId", .str "m1"), ("timestamp", .num 5), ("from", .str "self")]] }

/-- Anna edits a message, and Ben's client understands edits. -/
def corrects : GroupAction :=
  .edit [.obj [("id", .str "ben"), ("features", .arr [.str "message-edit"])]] "m1" "Hallo"

theorem edit_not_taken : ¬ ∀ (act : GroupAction) (now now' : Int) (messageId groupId newId : String)
    (a b : Client) (g : Group) (packet : Json), messageId ≠ "" →
    b.device.group? (.str groupId) = some g → a.activeGroup groupId = some g →
    isActiveGroupMember g b.device.ownPeerId → b.isBlocked a.device.ownPeerId = false →
    (act.perform now messageId groupId a).2 = some packet →
      act.Agreed messageId groupId a b g packet
        (b.receive now' newId (sealed .empty newId now a.displayName a.device.ownPeerId packet)) := by
  intro h
  have hsome : (corrects.perform 7 "m2" choir.id annasSong).2.isSome := by decide +kernel
  obtain ⟨packet, hpacket⟩ := isSome_iff_exists.mp hsome
  have hactive : annasSong.activeGroup choir.id = some choir := by decide
  exact not_agreed_edit (by decide) (by decide) hactive (by decide) hpacket
    (h corrects 7 8 "m2" choir.id "n" annasSong bensClient choir packet (by decide) (by decide)
      hactive (by decide) (by decide) hpacket)
end Bluetalk.Chat
