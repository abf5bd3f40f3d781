import Bluetalk.CloudAccount.SyncLogic

/-!
# The two message stores

The table `messages` of the browser store (`src/bridge/webBridge/idbStore.js`) and of the desktop
database (`src-tauri/src/database/messages.rs`). Both keep one row per `(peer, storage id)` and
number the rows as they come; they differ in the key a conversation is stored under (the browser
store trims the peer id, the desktop only checks the trimmed one) and in what they take for a
message id.
-/

namespace Bluetalk.Storage
open CloudAccount

inductive StorageError
  | invalidPeerId | invalidMessageId | tooLarge

structure MessageRow where
  seq : Nat
  peerId : String
  messageId : Option String
  storageId : String
  timestamp : Int
  value : Message
  deriving DecidableEq

structure MessageTable where
  rows : List MessageRow
  lastSeq : Nat
  deriving DecidableEq

/-- The rows of one conversation. -/
def MessageTable.chat (t : MessageTable) (peerId : String) : List MessageRow :=
  t.rows.filter fun r => r.peerId = peerId

/-- Adds a row unless its storage id is taken in its conversation. -/
def MessageTable.insertRow (t : MessageTable) (peerId : String) (messageId : Option String)
    (storageId : String) (timestamp : Int) (value : Message) : MessageTable × Bool :=
  if t.rows.any fun r => r.peerId = peerId ∧ r.storageId = storageId then (t, false)
  else
    (⟨t.rows ++ [⟨t.lastSeq + 1, peerId, messageId, storageId, timestamp, value⟩], t.lastSeq + 1⟩,
      true)

/-- `next[key] = value` for every field of the patch but `messageId`. -/
def patchMessage (value : Message) (patch : List (String × Json)) : Message :=
  (patch.filter fun x => x.1 ≠ "messageId").foldl (fun m x => JsObject.set m x.1 x.2) value

def maxMessageBytes : Nat := 32 * 1024 * 1024

/-- `ensureSize(message, MAX_MESSAGE_BYTES)` -/
def ensureSize (message : Message) : Except StorageError Unit :=
  if maxMessageBytes < jsonBytes (.obj message.fields) then .error .tooLarge else .ok ()

def patchRows (peerId messageId : String) (patch : List (String × Json)) :
    List MessageRow → Except StorageError (List MessageRow)
  | [] => .ok []
  | r :: rows => do
    if r.peerId = peerId ∧ r.messageId = some messageId then
      ensureSize (patchMessage r.value patch)
      return { r with value := patchMessage r.value patch } :: rows
    else return r :: (← patchRows peerId messageId patch rows)

def MessageTable.patchRow (t : MessageTable) (peerId messageId : String)
    (patch : List (String × Json)) : Except StorageError MessageTable := do
  return { t with rows := ← patchRows peerId messageId patch t.rows }

def MessageTable.removeMessage (t : MessageTable) (peerId messageId : String) : MessageTable :=
  { t with rows := t.rows.filter fun r => ¬(r.peerId = peerId ∧ r.messageId = some messageId) }

def MessageTable.removeChat (t : MessageTable) (peerId : String) : MessageTable :=
  { t with rows := t.rows.filter fun r => r.peerId ≠ peerId }

/-- What both stores refuse in a trimmed id: no text, more than 192 units, a NUL or line break. -/
def idRefused (trimmed : String) (length : Nat) : Bool :=
  trimmed = "" || 192 < length || trimmed.toList.any fun c => c = '\x00' || c = '\r' || c = '\n'

namespace Idb

def validatePeerId (value : String) : Except StorageError String :=
  let trimmed := jsTrim value
  if idRefused trimmed (utf16Length trimmed) then .error .invalidPeerId else .ok trimmed

def validateMessageId (value : String) : Except StorageError String :=
  let trimmed := jsTrim value
  if idRefused trimmed (utf16Length trimmed) then .error .invalidMessageId else .ok trimmed

/-- `message.messageId ? validateMessageId(message.messageId) : null` -/
def messageIdOf (message : Message) : Except StorageError (Option String) :=
  if (message.field "messageId").truthy then
    (validateMessageId (message.field "messageId").textOrEmpty).map some
  else .ok none

def append (t : MessageTable) (peerId : String) (message : Message) (uuid : String) (now : Int) :
    Except StorageError (MessageTable × Bool) := do
  let id ← validatePeerId peerId
  ensureSize message
  let messageId ← messageIdOf message
  let timestamp := match message.field "timestamp" with
    | .num n => n
    | _ => now
  return t.insertRow id messageId (messageId.getD ("anonymous-" ++ uuid)) timestamp message

def patch (t : MessageTable) (peerId messageId : String) (patch : List (String × Json)) :
    Except StorageError MessageTable := do
  t.patchRow (← validatePeerId peerId) (← validateMessageId messageId) patch

def deleteMessage (t : MessageTable) (peerId messageId : String) :
    Except StorageError MessageTable := do
  return t.removeMessage (← validatePeerId peerId) (← validateMessageId messageId)

def deleteChat (t : MessageTable) (peerId : String) : Except StorageError MessageTable := do
  return t.removeChat (← validatePeerId peerId)

end Idb

namespace Database

def rustTrim (s : String) : String := trimBy isRustSpace s

/-- Checks the trimmed id; the conversation keeps the id as it is. -/
def validatePeerStorageId (value : String) : Except StorageError String :=
  let trimmed := rustTrim value
  if idRefused trimmed trimmed.utf8ByteSize then .error .invalidPeerId else .ok value

def validateMessageId (value : String) : Except StorageError String :=
  let trimmed := rustTrim value
  if idRefused trimmed trimmed.utf8ByteSize then .error .invalidMessageId else .ok trimmed

/-- A text that is not blank is checked, anything else is no id. -/
def messageIdOf (message : Message) : Except StorageError (Option String) :=
  match message.field "messageId" with
  | .str s => if rustTrim s = "" then .ok none else (validateMessageId s).map some
  | _ => .ok none

def appendMessage (t : MessageTable) (peerId : String) (message : Message) (uuid : String)
    (now : Int) : Except StorageError (MessageTable × Bool) := do
  let id ← validatePeerStorageId peerId
  let messageId ← messageIdOf message
  let timestamp := match message.field "timestamp" with
    | .num n => n
    | _ => now
  ensureSize message
  return t.insertRow id messageId (messageId.getD ("anonymous-" ++ uuid)) timestamp message

def patchMessage (t : MessageTable) (peerId messageId : String) (patch : List (String × Json)) :
    Except StorageError MessageTable := do
  t.patchRow (← validatePeerStorageId peerId) (← validateMessageId messageId) patch

def deleteMessage (t : MessageTable) (peerId messageId : String) :
    Except StorageError MessageTable := do
  return t.removeMessage (← validatePeerStorageId peerId) (← validateMessageId messageId)

def deleteChat (t : MessageTable) (peerId : String) : Except StorageError MessageTable := do
  return t.removeChat (← validatePeerStorageId peerId)

end Database

/-- The store behind `bluetalk.messages`. -/
inductive Backend
  | web | desktop
  deriving DecidableEq

namespace Backend

/-- The key of a conversation, for an id the store accepts. -/
def peerKey : Backend → String → Except StorageError String
  | .web => Idb.validatePeerId
  | .desktop => Database.validatePeerStorageId

def append : Backend → MessageTable → String → Message → String → Int →
    Except StorageError (MessageTable × Bool)
  | .web => Idb.append
  | .desktop => Database.appendMessage

def patch : Backend → MessageTable → String → String → List (String × Json) →
    Except StorageError MessageTable
  | .web => Idb.patch
  | .desktop => Database.patchMessage

def deleteMessage : Backend → MessageTable → String → String → Except StorageError MessageTable
  | .web => Idb.deleteMessage
  | .desktop => Database.deleteMessage

def deleteChat : Backend → MessageTable → String → Except StorageError MessageTable
  | .web => Idb.deleteChat
  | .desktop => Database.deleteChat

theorem deleteChat_eq (b : Backend) (t : MessageTable) (peerId : String) :
    b.deleteChat t peerId = (b.peerKey peerId).map t.removeChat := by
  cases b with
  | web =>
    simp only [deleteChat, Idb.deleteChat, peerKey]
    cases Idb.validatePeerId peerId <;> rfl
  | desktop =>
    simp only [deleteChat, Database.deleteChat, peerKey]
    cases Database.validatePeerStorageId peerId <;> rfl

end Backend
end Bluetalk.Storage
