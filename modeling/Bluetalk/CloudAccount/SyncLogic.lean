import Bluetalk.Js.Object
import Bluetalk.Js.Text
import Bluetalk.Relay.SyncLog
import Bluetalk.Theory.Keyed

/-!
# Entries, outbox and metadata of the sync

The pure functions of `src/renderer/cloudAccount/syncLogic.js`. A pending change and an operation
are typed by their kind; a patch of a store entry is `some value`, or `none` for
`deleted: true`. Timestamps are milliseconds, `0` where a field is missing
(`Number(ts) || 0`).
-/

namespace Bluetalk.CloudAccount

def fileDataStripBytes : Nat := 3 * 512 * 1024
def pushBatch : Nat := 100
def pushBodyMaxBytes : Nat := 8 * 1024 * 1024
def pushItemMaxBytes : Nat := 3 * 1024 * 1024

/-- `SYNCED_STORE_KEYS` of `src/bridge/syncLayer.js` -/
def syncedStoreKeys : List String :=
  ["contacts", "settings", "e2eeSessions", "groups", "chatReadReceipts", "chatLastViewedPeerTs"]

def deviceLocalSettingsKeys : List String :=
  ["peerPort", "peerPorts", "apiPort", "autoUpdateEnabled", "autoDownloadUpdates",
    "minimizeToTray", "launchAtLogin", "debugMode", "windowsNotifications", "uiResize",
    "uiCollapse", "onboardingUsernameDone"]

def arrayStoreKeys : List String := ["contacts", "groups"]

/-! ## Messages -/

/-- A message: the object that `messages.append` gets. -/
abbrev Message := JsObject Json

/-- `message.field`, `null` when the field is missing. -/
def Message.field (m : Message) (field : String) : Json := (JsObject.get? m field).getD .null

/-- `delete next.fileData; next.syncStripped = true` -/
def Message.withoutFileData (m : Message) : Message :=
  (JsObject.erase m "fileData").set "syncStripped" (.bool true)

def prepareMessageForSync (m : Message) : Message :=
  match m.get? "fileData" with
  | some (.str s) => if fileDataStripBytes < s.utf8ByteSize then m.withoutFileData else m
  | _ => m

def stripMessageFileData (m : Message) : Message :=
  if (m.get? "fileData").isSome then m.withoutFileData else m

/-! ## Changes and operations -/

inductive ChangeBody
  | storeEntry (key id : String) (patch : Option Json)
  | store (key : String)
  | chatDel (peerId : String)
  | msgDel (peerId messageId : String)
  | msg (peerId messageId : String) (message : Option Message)
  deriving DecidableEq

/-- A change in the outbox. -/
structure Change where
  ts : Int
  body : ChangeBody
  deriving DecidableEq

inductive OpBody
  | storeEntry (key id : String) (patch : Option Json)
  | store (key : String) (value : Json)
  | chatDel (peerId : String)
  | msgDel (peerId messageId : String)
  | msg (peerId messageId : String) (message : Option Message)
  | unknown
  deriving DecidableEq

/-- An operation of the log, decrypted; a missing text is empty. -/
structure Op where
  ts : Int
  origin : String
  body : OpBody
  deriving DecidableEq

def storeEntryKey (key id : String) : String := "store:" ++ key ++ ":" ++ id

def ChangeBody.logicalKey : ChangeBody → String
  | .storeEntry key id _ => storeEntryKey key id
  | .store key => "store:" ++ key
  | .chatDel peerId => "chat:" ++ peerId
  | .msgDel peerId messageId | .msg peerId messageId _ => "msg:" ++ peerId ++ ":" ++ messageId

def logicalKeyOf (change : Change) : String := change.body.logicalKey

/-- `op.messageId || op.message?.messageId` inside a text. -/
def opMessageId (messageId : String) (message : Option Message) : String :=
  if messageId ≠ "" then messageId
  else
    match message.bind fun m => m.get? "messageId" with
    | some x => x.toText
    | none => "undefined"

def logicalKeyOfOp (op : Op) : String :=
  match op.body with
  | .storeEntry key id _ => if key ≠ "" ∧ id ≠ "" then storeEntryKey key id else ""
  | .store key _ => if key ≠ "" then "store:" ++ key else ""
  | .chatDel peerId => "chat:" ++ peerId
  | .msgDel peerId messageId => "msg:" ++ peerId ++ ":" ++ opMessageId messageId none
  | .msg peerId messageId message => "msg:" ++ peerId ++ ":" ++ opMessageId messageId message
  | .unknown => ""

/-! ## Entries of a store value -/

def isDeviceLocalSetting (field : String) : Bool := deviceLocalSettingsKeys.contains field

/-- The fields of an object, none of any other value. -/
def objectFields : Json → List (String × Json)
  | .obj fields => fields
  | _ => []

/-- The items of an array, none of any other value. -/
def arrayItems : Json → List Json
  | .arr items => items
  | _ => []

def arrayEntryId (key : String) (item : Json) : String :=
  if !item.isObject then ""
  else if key = "groups" then
    (if (item.get "id").truthy then item.get "id" else item.get "groupId").textOrEmpty
  else (item.get "id").textOrEmpty

/-- `if (id) map[id] = item` -/
def addArrayEntry (key : String) (map : JsObject Json) (item : Json) : JsObject Json :=
  if arrayEntryId key item = "" then map else map.set (arrayEntryId key item) item

def entriesOfStore (key : String) (value : Json) : JsObject Json :=
  if key = "settings" then
    .ofFields ((objectFields value).filter fun x => !isDeviceLocalSetting x.1)
  else if arrayStoreKeys.contains key then
    (arrayItems value).foldl (addArrayEntry key) .empty
  else .ofFields ((objectFields value).filter fun x => x.1 ≠ "")

/-- The change of one entry, if its two values differ. -/
def diffEntry (key : String) (current prev : JsObject Json) (id : String) : Option ChangeBody :=
  if current.get? id = prev.get? id then none
  else some (.storeEntry key id (current.get? id))

/-- The changes that lead from a snapshot of the entries to the current value. -/
def diffStoreEntries (key : String) (currentValue : Json) (prev : JsObject Json) :
    List ChangeBody :=
  let current := entriesOfStore key currentValue
  let ids := current.keys ++ prev.keys.filter fun id => id ∉ current.keys
  ids.filterMap (diffEntry key current prev)

/-- `isPlaceholderDisplayName` of `src/renderer/app/contactPatch.js` -/
def isPlaceholderDisplayName (name : String) : Bool :=
  ["", "Anonymous", "BlueTalk user"].contains (jsTrim name)

/-- `{ ...x }` -/
def spread : Json → List (String × Json)
  | .obj fields => fields
  | .arr items => items.zipIdx.map fun x => (toString x.2, x.1)
  | _ => []

/-- `hasName` of `mergeContactIdentity` -/
def hasContactName (incoming value : Json) : Bool :=
  let name := match value with
    | .str s => jsTrim s
    | _ => ""
  name ≠ "" && !isPlaceholderDisplayName name && name ≠ (incoming.get "id").textOrEmpty

/-- A field of the stored contact that an incoming stub does not clear. -/
def keepField (existing : Json) (merged : List (String × Json)) (field : String) :
    List (String × Json) :=
  let next := (merged.lookup field).getD .null
  if (next = .null ∨ next = .str "") ∧ (existing.get field).truthy then
    setField field (existing.get field) merged
  else merged

def mergeContactIdentity (existing incoming : Json) : Json :=
  if !existing.isObject then incoming
  else
    let merged := spread incoming
    let merged :=
      if !hasContactName incoming ((merged.lookup "name").getD .null) &&
          hasContactName incoming (existing.get "name") then
        setField "name" (existing.get "name") merged
      else merged
    .obj (keepField existing (keepField existing merged "profilePicture") "bio")

def applyStoreEntryToValue (key : String) (currentValue : Json) (id : String)
    (patch : Option Json) : Json :=
  if id = "" then currentValue
  else if key = "settings" ∧ isDeviceLocalSetting id then currentValue
  else if arrayStoreKeys.contains key then
    let list := arrayItems currentValue
    match patch with
    | none => .arr (list.eraseP fun item => arrayEntryId key item = id)
    | some value =>
      if !value.isObject then .arr list
      else
        match list.find? fun item => arrayEntryId key item = id with
        | none => .arr (list ++ [value])
        | some existing =>
          let next := if key = "contacts" then mergeContactIdentity existing value else value
          .arr (list.replaceF fun item => if arrayEntryId key item = id then some next else none)
  else
    let fields := objectFields currentValue
    match patch with
    | none => .obj (eraseField id fields)
    | some value => .obj (setField id value fields)

def snapshotAfterEntry (snapshot : JsObject Json) (id : String) (patch : Option Json) :
    JsObject Json :=
  if id = "" then snapshot
  else
    match patch with
    | none => snapshot.erase id
    | some value => snapshot.set id value

/-! ## Outbox -/

/-- `next[idx] = stamped` at the first change of the same logical key, or `next.push(stamped)`. -/
def putChange (change : Change) (box : List Change) : List Change := put logicalKeyOf change box

/-- The deletion of a chat drops the changes of the chat. -/
def keptByChatDel (peerId : String) (c : Change) : Bool :=
  match c.body with
  | .chatDel p | .msgDel p _ | .msg p _ _ => p ≠ peerId
  | .storeEntry .. | .store _ => true

/-- The deletion of a message drops the change of the message. -/
def keptByMsgDel (peerId messageId : String) (c : Change) : Bool :=
  match c.body with
  | .msg p m _ => ¬(p = peerId ∧ m = messageId)
  | _ => true

def mergeOutbox (box : List Change) (change : Change) (now : Int) : List Change :=
  let stamped := { change with ts := if 0 < change.ts then change.ts else now }
  match change.body with
  | .chatDel peerId => box.filter (keptByChatDel peerId) ++ [stamped]
  | .msgDel peerId messageId => putChange stamped (box.filter (keptByMsgDel peerId messageId))
  | _ => putChange stamped box

def dropOutboxIfRemoteNewer (box : List Change) (logicalKey : String) (remoteTs : Int) :
    List Change :=
  box.filter fun c => logicalKeyOf c ≠ logicalKey ∨ remoteTs < c.ts

/-- Changes are marked by logical key and timestamp. -/
def removeSentFromOutbox (box sent : List Change) : List Change :=
  box.filter fun c => ¬ sent.any fun s => logicalKeyOf s = logicalKeyOf c ∧ s.ts = c.ts

def pendingTsFor (box : List Change) (logicalKey : String) : Int :=
  box.foldl (fun m c => if logicalKeyOf c = logicalKey then max m c.ts else m) 0

/-! ## Admission -/

def shouldApplyStoreOp (incomingTs appliedTs : Int) : Bool := appliedTs ≤ incomingTs

def shouldApplyStoreEntry (incomingTs appliedTs pendingLocalTs : Int) : Bool :=
  pendingLocalTs ≤ incomingTs && appliedTs ≤ incomingTs

/-- `Number(message.timestamp) || Number(message.ts) || 0` -/
def messageTs (m : Message) : Int :=
  if (m.field "timestamp").toNumber ≠ 0 then (m.field "timestamp").toNumber
  else (m.field "ts").toNumber

/-- `shouldApplyMessage` of a message with the timestamp `ts`. -/
def shouldApplyMessage (ts chatDelTs : Int) : Bool := chatDelTs ≤ 0 || chatDelTs < ts

def shouldSkipOwnOrigin (op : Op) (origin : String) : Bool :=
  origin ≠ "" && op.origin = origin

/-! ## Metadata -/

structure SyncMeta where
  storeTs : JsObject Int
  chatDel : JsObject Int
  storeSnapshots : JsObject (JsObject Json)
  storeEntryTs : JsObject Int
  deriving DecidableEq

def emptySyncMeta : SyncMeta := ⟨.empty, .empty, .empty, .empty⟩

def entryTsKey (storeKey id : String) : String := storeKey ++ ":" ++ id

/-- The timestamp of the chat deletion of a peer, `0` when there is none. -/
def SyncMeta.tombstone (m : SyncMeta) (peerId : String) : Int := (m.chatDel.get? peerId).getD 0

/-- The snapshot of a store's entries. -/
def SyncMeta.snapshot (m : SyncMeta) (key : String) : JsObject Json :=
  (m.storeSnapshots.get? key).getD .empty

/-- The value of an entry in the snapshot of its store. -/
def SyncMeta.entry (m : SyncMeta) (key id : String) : Option Json := (m.snapshot key).get? id

def storeEntryAppliedTs (m : SyncMeta) (key id : String) : Int :=
  (m.storeEntryTs.get? (entryTsKey key id)).getD 0

def appliedMetaAfterOp (m : SyncMeta) (op : Op) : SyncMeta :=
  match op.body with
  | .store key value =>
    if key = "" then m
    else { m with
      storeTs := m.storeTs.set key op.ts
      storeSnapshots := m.storeSnapshots.set key (entriesOfStore key value) }
  | .storeEntry key id patch =>
    if key = "" ∨ id = "" then m
    else { m with
      storeEntryTs := m.storeEntryTs.set (entryTsKey key id) op.ts
      storeSnapshots := m.storeSnapshots.set key (snapshotAfterEntry (m.snapshot key) id patch) }
  | .chatDel peerId =>
    if peerId = "" then m
    else if m.tombstone peerId ≤ op.ts then { m with chatDel := m.chatDel.set peerId op.ts }
    else m
  | .msg peerId _ message =>
    if peerId = "" then m
    else
      let timestamp := match message with
        | some msg => (msg.field "timestamp").toNumber
        | none => 0
      let ts := if timestamp ≠ 0 then timestamp else op.ts
      if m.tombstone peerId < ts then { m with chatDel := m.chatDel.erase peerId } else m
  | _ => m

end Bluetalk.CloudAccount

/-!
## Contact names from messages

`upsertContactNameFromIncomingMessage` of `src/renderer/app/contactPatch.js`.
-/

namespace Bluetalk.CloudAccount

/-- `/^group:[A-Za-z0-9_-]{8,128}$/` -/
def isGroupChatId (value : String) : Bool :=
  match value.toList with
  | 'g' :: 'r' :: 'o' :: 'u' :: 'p' :: ':' :: rest =>
    8 ≤ rest.length && rest.length ≤ 128 && rest.all fun c => c.isAlphanum || c == '_' || c == '-'
  | _ => false

def isAiChatPeerId (peerId : String) : Bool :=
  peerId = "__ai_chat__" || "__ai_chat__:".toList.isPrefixOf peerId.toList

/-- A name that an incoming message does not replace. -/
def keepsContactName (peerId : String) (existing : Json) : Bool :=
  let name := existing.get "name"
  !isPlaceholderDisplayName name.textOrEmpty && name.truthy && name ≠ .str peerId

/-- The contacts with the name of the sender filled in, `none` when nothing changes. -/
def upsertContactNameFromIncomingMessage (contacts : Json) (peerId : String) (message : Message)
    (now : Int) : Option Json :=
  let list := arrayItems contacts
  if peerId = "" ∨ message.field "from" = .str "self" ∨ isGroupChatId peerId ∨
      isAiChatPeerId peerId then none
  else
    let name := match message.field "sender" with
      | .str s => jsTrim s
      | _ => ""
    if name = "" ∨ isPlaceholderDisplayName name ∨ name = peerId then none
    else
      match list.find? fun row => row.get "id" = .str peerId with
      | some existing =>
        if keepsContactName peerId existing then none
        else
          let next := Json.obj (setField "name" (.str name) (spread existing))
          some (.arr (list.replaceF fun row =>
            if row.get "id" = .str peerId then some next else none))
      | none =>
        let timestamp := (message.field "timestamp").toNumber
        some (.arr (list ++ [.obj [("id", .str peerId), ("name", .str name),
          ("addedAt", .num (if timestamp ≠ 0 then timestamp else now))]]))

end Bluetalk.CloudAccount

/-!
## Sealed items

`sealSyncItem` and `openSyncItem` of `src/renderer/cloudAccount/crypto.js`. What they take from
WebCrypto is a parameter, with the laws the sync relies on.
-/

namespace Bluetalk.CloudAccount
open Relay

structure SessionKeys (κ : Type) where
  encKey : κ
  macKey : κ
  deriving DecidableEq

/-- The primitives under the keys `κ`: the data of an item is a `δ`, and `ν` a random `iv`. -/
structure SyncCipher (κ ν δ : Type) where
  /-- the HMAC of the logical key, as text -/
  syncKeyForLogicalKey : κ → String → String
  /-- AES-GCM with the item key as additional data -/
  encrypt : κ → ν → String → Op → δ
  decrypt : κ → String → δ → Option Op

variable {κ ν δ : Type}

/-- What was encrypted decrypts under the same key. -/
def SyncCipher.Decrypts (cipher : SyncCipher κ ν δ) : Prop :=
  ∀ k iv key op, cipher.decrypt k key (cipher.encrypt k iv key op) = some op

/-- No two logical keys have one item key. -/
def SyncCipher.Separates (cipher : SyncCipher κ ν δ) : Prop :=
  ∀ k, Function.Injective (cipher.syncKeyForLogicalKey k)

def sealSyncItem (cipher : SyncCipher κ ν δ) (keys : SessionKeys κ) (iv : ν) (logicalKey : String)
    (op : Op) : PushItem δ :=
  let key := cipher.syncKeyForLogicalKey keys.macKey logicalKey
  ⟨key, cipher.encrypt keys.encKey iv key op⟩

def openSyncItem (cipher : SyncCipher κ ν δ) (encKey : κ) (item : SyncRow δ) : Option Op :=
  cipher.decrypt encKey item.key item.data

theorem openSyncItem_sealed {cipher : SyncCipher κ ν δ} (h : cipher.Decrypts)
    {keys : SessionKeys κ} {iv : ν} {logicalKey : String} {op : Op} {item : SyncRow δ}
    (hkey : item.key = (sealSyncItem cipher keys iv logicalKey op).key)
    (hdata : item.data = (sealSyncItem cipher keys iv logicalKey op).data) :
    openSyncItem cipher keys.encKey item = some op := by
  rw [openSyncItem, hkey, hdata]
  exact h ..

/-! ### Primitives in the clear -/

def itemKeyChar (c : Char) : List Char :=
  if c = ':' then ['_', 'c'] else if c = '_' then ['_', '_'] else [c]

/-- Primitives that hide nothing: the item key shows the key and the logical key, and data can be
opened with the key and the item key they were sealed with. -/
def plainCipher : SyncCipher String Unit (String × String × Op) where
  syncKeyForLogicalKey k logicalKey :=
    k ++ "-" ++ String.ofList (logicalKey.toList.flatMap itemKeyChar)
  encrypt k _ key op := (k, key, op)
  decrypt k key data := if data.1 = k ∧ data.2.1 = key then some data.2.2 else none

theorem plainCipher_decrypts : plainCipher.Decrypts := by
  intro k iv key op
  exact if_pos ⟨rfl, rfl⟩

theorem flatMap_itemKeyChar_inj {l l' : List Char}
    (h : l.flatMap itemKeyChar = l'.flatMap itemKeyChar) : l = l' := by
  have hne : ∀ c, itemKeyChar c ≠ [] := by
    intro c
    simp only [itemKeyChar]
    split
    · simp
    split <;> simp
  induction l generalizing l' with
  | nil =>
    cases l' with
    | nil => rfl
    | cons c' l' => simp [hne] at h
  | cons c l ih =>
    cases l' with
    | nil => simp [hne] at h
    | cons c' l' =>
      -- the first two characters tell which character was written
      have hcc : c = c' ∧ l.flatMap itemKeyChar = l'.flatMap itemKeyChar := by
        simp only [List.flatMap_cons, itemKeyChar] at h
        grind
      rw [hcc.1, ih hcc.2]

theorem plainCipher_separates : plainCipher.Separates := by
  intro k x y h
  have h : String.ofList (x.toList.flatMap itemKeyChar) =
      String.ofList (y.toList.flatMap itemKeyChar) := by simpa [plainCipher] using h
  exact String.toList_inj.mp (flatMap_itemKeyChar_inj (String.ofList_injective h))

end Bluetalk.CloudAccount
