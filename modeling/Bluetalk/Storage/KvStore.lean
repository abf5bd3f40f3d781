import Bluetalk.Js.JsonSize

/-!
# The key-value stores

The values of the application by dotted keys: in the browser (`src/bridge/webBridge/idbStore.js`),
where the rows are in one database for the session and one for each account, and on the desktop
(`src-tauri/src/database/kv.rs`, `helpers.rs`), where they are in one table.
-/

namespace Bluetalk.Storage

/-- The errors of a store: those of an argument, and those of `serde_json`. -/
inductive StoreError
  | invalidInput (text : String)
  | json
  deriving DecidableEq

def maxKeyLength : Nat := 256

def maxKeySegments : Nat := 32

def maxStoreValueBytes : Nat := 64 * 1024 * 1024

def forbiddenSegments : List String := ["__proto__", "prototype", "constructor"]

/-- The segments of a key: the first, by which a row is kept, and the others. -/
structure StoreKey where
  top : String
  path : List String
  deriving DecidableEq

/-- The segments of a key of a given length. -/
def splitKeyOf (length : Nat) (key : String) : Except StoreError StoreKey :=
  if key = "" ∨ maxKeyLength < length ∨ '\x00' ∈ key.toList then
    .error (.invalidInput "invalid store key")
  else
    match (key.toList.splitOn '.').map String.ofList with
    | [] => .error (.invalidInput "invalid store key")
    | top :: path =>
      if maxKeySegments < (top :: path).length ∨
          ∃ segment ∈ top :: path, segment = "" ∨ segment ∈ forbiddenSegments then
        .error (.invalidInput "invalid store key")
      else .ok ⟨top, path⟩

/-- `ensure_size` -/
def ensureSizeOf (actual limit : Nat) (kind : String) : Except StoreError Unit :=
  if limit < actual then
    .error (.invalidInput (kind ++ " exceeds the " ++ toString (limit / 1024 / 1024) ++ " MiB limit"))
  else .ok ()

/-- What the application asks of its store. -/
inductive StoreOp
  | get (key : String) (defaultValue : Json)
  | set (key : String) (value : Json)
  | delete (key : String)

def StoreOp.key : StoreOp → String
  | .get key _ | .set key _ | .delete key => key

/-! ### In the browser -/

/-- A value of the language: of the functions there are those that every object inherits. -/
inductive JsValue
  | undefined
  | json (x : Json)
  | function (name : String)
  deriving DecidableEq

/-- What every object inherits, but for the forbidden segments. -/
def prototypeNames : List String :=
  ["toString", "toLocaleString", "valueOf", "hasOwnProperty", "isPrototypeOf",
    "propertyIsEnumerable", "__defineGetter__", "__defineSetter__", "__lookupGetter__",
    "__lookupSetter__"]

namespace JsValue

def ofOption : Option Json → JsValue
  | none => undefined
  | some x => json x

/-- `{ ...x }` of an object that is no array, `{}` of anything else. -/
def fields : JsValue → List (String × Json)
  | json (.obj fields) => fields
  | _ => []

end JsValue

namespace Idb

def splitKey (key : String) : Except StoreError StoreKey := splitKeyOf (utf16Length key) key

/-- `object[k]`, of the object itself or inherited. -/
def readField (fields : List (String × Json)) (k : String) : JsValue :=
  match fields.lookup k with
  | some x => .json x
  | none => if k ∈ prototypeNames then .function k else .undefined

/-- `k in object` -/
def hasField (fields : List (String × Json)) (k : String) : Bool := readField fields k ≠ .undefined

def setNested (root : JsValue) : List String → Json → Json
  | [], value => value
  | [k], value => .obj (setField k value root.fields)
  | k :: l :: path, value =>
    .obj (setField k (setNested (readField root.fields k) (l :: path) value) root.fields)

/-- The next value, if it changes. -/
def deleteNested : JsValue → List String → Option Json
  | .json (.obj fields), [k] => if hasField fields k then some (.obj (eraseField k fields)) else none
  | .json (.obj fields), k :: l :: path =>
    (deleteNested (readField fields k) (l :: path)).map fun next => .obj (setField k next fields)
  | _, _ => none

def walk : JsValue → List String → JsValue
  | value, [] => value
  | .json (.obj fields), k :: path =>
    if hasField fields k then walk (readField fields k) path else .undefined
  | _, _ :: _ => .undefined

end Idb

def sessionDb : String := "bluetalk-web-session"

/-- The databases by their names, and what the store has opened. -/
structure IdbStore where
  kv : String → List (String × Json) := fun _ => []
  accountPeerId : Json := .str ""
  accountDbName : Option String := none

namespace IdbStore

def ensureSize (value : Json) (limit : Nat) (kind : String) : Except StoreError Unit :=
  ensureSizeOf (jsonBytes value) limit kind

def row (s : IdbStore) (db key : String) : Option Json := (s.kv db).lookup key

def putRow (s : IdbStore) (db key : String) (value : Json) : IdbStore :=
  { s with kv := fun name => if name = db then setField key value (s.kv name) else s.kv name }

def deleteRow (s : IdbStore) (db key : String) : IdbStore :=
  { s with kv := fun name => if name = db then eraseField key (s.kv name) else s.kv name }

def rememberPeerId (s : IdbStore) (peerId : Json) : IdbStore :=
  let trimmed := jsTrim peerId.textOrEmpty
  if trimmed = "" ∨ Json.str trimmed = s.accountPeerId then s
  else
    { s.putRow sessionDb "activePeerId" (.str trimmed) with
      accountPeerId := .str trimmed, accountDbName := some ("bluetalk-web-" ++ trimmed) }

/-- The database of the account, or of the session where no account is known. -/
def accountDb (s : IdbStore) : IdbStore × String :=
  match s.accountDbName with
  | some name => (s, name)
  | none =>
    match s.row sessionDb "activePeerId" with
    | none => (s, sessionDb)
    | some peerId =>
      if peerId.truthy then
        let name := "bluetalk-web-" ++ peerId.toText
        ({ s with accountPeerId := peerId, accountDbName := some name }, name)
      else (s, sessionDb)

def kvGetRaw (s : IdbStore) (key : String) : IdbStore × Option Json :=
  let (s, db) := s.accountDb
  match s.row db key with
  | some value => (s, some value)
  | none => (s, if db ≠ sessionDb then s.row sessionDb key else none)

def kvPutRaw (s : IdbStore) (key : String) (value : Json) : IdbStore :=
  let peerId := value.get "peerId"
  let s := if key = "cloudAccount" ∧ peerId.truthy then s.rememberPeerId peerId else s
  let s := if key = "networkIdentity" ∧ s.accountPeerId.truthy then s.rememberPeerId s.accountPeerId
    else s
  let (s, db) := s.accountDb
  let s := s.putRow db key value
  if key = "cloudAccount" ∧ peerId.truthy ∧ db ≠ sessionDb then
    (s.putRow sessionDb key value).putRow sessionDb "activePeerId" peerId
  else s

def kvDeleteRaw (s : IdbStore) (key : String) : IdbStore :=
  let (s, db) := s.accountDb
  s.deleteRow db key

def get (s : IdbStore) (key : String) (defaultValue : Json) :
    IdbStore × Except StoreError JsValue :=
  match Idb.splitKey key with
  | .error e => (s, .error e)
  | .ok key =>
    if key.top = "messages" then (s, .ok (.json defaultValue))
    else
      match s.kvGetRaw key.top with
      | (s, none) => (s, .ok (.json defaultValue))
      | (s, some top) =>
        match Idb.walk (.json top) key.path with
        | .undefined => (s, .ok (.json defaultValue))
        | nested => (s, .ok nested)

def set (s : IdbStore) (key : String) (value : Json) : IdbStore × Except StoreError Bool :=
  match Idb.splitKey key with
  | .error e => (s, .error e)
  | .ok key =>
    if key.top = "messages" then
      (s, .error (.invalidInput "messages must be changed through the paginated message API"))
    else
      match ensureSize value maxStoreValueBytes "store value" with
      | .error e => (s, .error e)
      | .ok _ =>
        match key.path with
        | [] => (s.kvPutRaw key.top value, .ok true)
        | path =>
          let (s, top) := s.kvGetRaw key.top
          (s.kvPutRaw key.top (Idb.setNested (.ofOption top) path value), .ok true)

def delete (s : IdbStore) (key : String) : IdbStore × Except StoreError Bool :=
  match Idb.splitKey key with
  | .error e => (s, .error e)
  | .ok key =>
    if key.top = "messages" then
      (s, .error (.invalidInput "messages must be changed through the message API"))
    else
      match s.kvGetRaw key.top with
      | (s, none) => (s, .ok false)
      | (s, some top) =>
        match key.path with
        | [] => (s.kvDeleteRaw key.top, .ok true)
        | path =>
          match Idb.deleteNested (.json top) path with
          | none => (s, .ok false)
          | some next => (s.kvPutRaw key.top next, .ok true)

/-- What the bridge hands back. -/
def apply (s : IdbStore) : StoreOp → IdbStore × Except StoreError JsValue
  | .get key defaultValue => s.get key defaultValue
  | .set key value => (s.set key value).map id fun r => r.map fun b => .json (.bool b)
  | .delete key => (s.delete key).map id fun r => r.map fun b => .json (.bool b)

end IdbStore

/-! ### On the desktop -/

namespace Database

def splitKey (key : String) : Except StoreError StoreKey := splitKeyOf key.utf8ByteSize key

/-- The fields of `root`, once it is an object. -/
def objectFields : Json → List (String × Json)
  | .obj fields => fields
  | _ => []

def setNested (root : Json) : List String → Json → Json
  | [], value => value
  | [k], value => .obj (setField k value (objectFields root))
  | k :: l :: path, value =>
    let child := ((objectFields root).lookup k).getD (.obj [])
    .obj (setField k (setNested child (l :: path) value) (objectFields root))

/-- What `root` becomes, if something is removed. The order of the fields is not that of the table,
where the last one takes the place of the removed one. -/
def deleteNested : Json → List String → Option Json
  | .obj fields, [k] => (fields.lookup k).map fun _ => .obj (eraseField k fields)
  | .obj fields, k :: l :: path =>
    (fields.lookup k).bind fun child =>
      (deleteNested child (l :: path)).map fun next => .obj (setField k next fields)
  | _, _ => none

/-- The loop of `get` over the segments. -/
def walk : Json → List String → Option Json
  | value, [] => some value
  | .obj fields, k :: path => (fields.lookup k).bind fun next => walk next path
  | _, _ :: _ => none

/-- The nesting that `serde_json` still reads. -/
def maxDepth : Nat := 127

end Database

/-- The rows of the table `kv`, decrypted. -/
structure KvTable where
  rows : List (String × Json) := []

namespace KvTable

def loadTop (t : KvTable) (key : String) : Except StoreError (Option Json) :=
  match t.rows.lookup key with
  | none => .ok none
  | some value => if Database.maxDepth < value.depth then .error .json else .ok (some value)

def writeTop (t : KvTable) (key : String) (value : Json) : Except StoreError KvTable := do
  ensureSizeOf (jsonBytes value) maxStoreValueBytes "store value"
  return ⟨setField key value t.rows⟩

def get (t : KvTable) (key : String) (defaultValue : Json) : Except StoreError Json := do
  let key ← Database.splitKey key
  if key.top = "messages" then return defaultValue
  match ← t.loadTop key.top with
  | none => return defaultValue
  | some value => return (Database.walk value key.path).getD defaultValue

def set (t : KvTable) (key : String) (value : Json) : Except StoreError (KvTable × Bool) := do
  let key ← Database.splitKey key
  if key.top = "messages" then
    throw (.invalidInput "messages must be changed through the paginated message API")
  let topValue ← match key.path with
    | [] => pure value
    | path => do
      let root := ((← t.loadTop key.top).filter fun x => x matches .obj _).getD (.obj [])
      pure (Database.setNested root path value)
  return (← t.writeTop key.top topValue, true)

def delete (t : KvTable) (key : String) : Except StoreError (KvTable × Bool) := do
  let key ← Database.splitKey key
  if key.top = "messages" then
    throw (.invalidInput "messages must be changed through the message API")
  match key.path with
  | [] => return (⟨eraseField key.top t.rows⟩, (t.rows.lookup key.top).isSome)
  | path =>
    match ← t.loadTop key.top with
    | none => return (t, false)
    | some root =>
      match Database.deleteNested root path with
      | none => return (t, false)
      | some next => return (← t.writeTop key.top next, true)

/-- What the command hands back: an error leaves the table as it is. -/
def apply (t : KvTable) : StoreOp → KvTable × Except StoreError Json
  | .get key defaultValue => (t, t.get key defaultValue)
  | .set key value => match t.set key value with
    | .ok (t, b) => (t, .ok (.bool b))
    | .error e => (t, .error e)
  | .delete key => match t.delete key with
    | .ok (t, b) => (t, .ok (.bool b))
    | .error e => (t, .error e)

end KvTable
end Bluetalk.Storage
