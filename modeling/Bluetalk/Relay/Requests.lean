import Bluetalk.Js.Text

/-!
# Messages of the relay

The control messages the relay sends over a connection and the limits it works with, under the
names of `proto.rs`.
-/

namespace Bluetalk.Relay

def maxFramePayload : Nat := 65536
def maxTunnels : Nat := 64
def maxPendingOpens : Nat := 8
def maxWatch : Nat := 2000
def outboundControlCap : Nat := 256
def outboundDataCap : Nat := 64
def maxDevicesPerPeer : Nat := 8
/-- `OPEN_TIMEOUT_SECS`, in milliseconds. -/
def openTimeout : Nat := 15000

/-- The device id of a client that names none. -/
def legacyDevice : String := "legacy"

/-- A connected device, as `ready`, `devices` and `presence` list it. -/
structure DeviceInfo where
  id : String
  name : String
  deriving DecidableEq

/-- The control messages to a client. The clock readings in `ready` and `pong` are left out. -/
inductive Control
  | ready (peerId device : String) (devices : List DeviceInfo)
  | error (code : String)
  | presence (peerId : String) (online : Bool) (devices : List DeviceInfo)
  | incoming (tunnel : UInt32) (sender senderDevice name : String)
  | devices (devices : List DeviceInfo)
  | opened (tunnel : UInt32)
  | openFailed (tunnel : UInt32) (code : String)
  | closed (tunnel : UInt32) (code : String)
  | posted (id status : String)
  | postFailed (id code : String)
  | mail (id sender : String) (ts : Int) (body : Json)
  | pong (n : Json)
  deriving DecidableEq

end Bluetalk.Relay

/-!
## Requests of a client

How `ws.rs` and `util.rs` read the fields of a request: ids of peers, devices, mails and tunnels.
-/

namespace Bluetalk.Json

/-- `Value::get`; the keys of an object are distinct. -/
def field? (v : Json) (key : String) : Option Json :=
  match v with
  | .obj fields => fields.lookup key
  | _ => none

def asStr : Json → Option String
  | .str s => some s
  | _ => none

def asArray : Json → Option (List Json)
  | .arr items => some items
  | _ => none

end Bluetalk.Json

namespace Bluetalk.Relay

def isHexDigit (c : Char) : Bool :=
  c.isDigit || ('a' ≤ c && c ≤ 'f') || ('A' ≤ c && c ≤ 'F')

def isIdChar (c : Char) : Bool :=
  c.isDigit || ('a' ≤ c && c ≤ 'z') || ('A' ≤ c && c ≤ 'Z') || c = '-' || c = '_'

theorem isJsSpace_of_isIdChar {c : Char} (h : isIdChar c) : isJsSpace c = false := by
  have hrange : 45 ≤ c.val.toNat ∧ c.val.toNat ≤ 122 := by
    simp only [isIdChar, Char.isDigit, Bool.or_eq_true, Bool.and_eq_true, decide_eq_true_eq,
      Char.le_def, UInt32.le_iff_toNat_le] at h
    rcases h with (((h | h) | h) | rfl) | rfl
    · exact ⟨Nat.le_trans (by decide) h.1, Nat.le_trans h.2 (by decide)⟩
    · exact ⟨Nat.le_trans (by decide) h.1, Nat.le_trans h.2 (by decide)⟩
    · exact ⟨Nat.le_trans (by decide) h.1, Nat.le_trans h.2 (by decide)⟩
    · decide
    · decide
  rw [← Bool.not_eq_true]
  intro hs
  simp only [isJsSpace, isSpace, Bool.or_eq_true, Bool.and_eq_true, decide_eq_true_eq, beq_iff_eq,
    UInt32.le_iff_toNat_le, ← UInt32.toNat_inj] at hs
  have hval : c.toNat = c.val.toNat := rfl
  simp at hs
  omega

/-- `bt2_` and 64 hexadecimal digits, in lower case. What passes is ASCII, so that characters count
as bytes do. -/
def parsePeerId (raw : String) : Option String :=
  if raw.length = 68 && raw.startsWith "bt2_" && (raw.toList.drop 4).all isHexDigit then
    some (String.ofList (raw.toList.map Char.toLower))
  else none

/-- 8 to 64 characters `[A-Za-z0-9_-]`; `legacy` is too short to be one. -/
def validDeviceId (id : String) : Bool :=
  8 ≤ id.length && id.length ≤ 64 && id.toList.all isIdChar

/-- A UUID, or a short printable name. -/
def validMailId (id : String) : Bool :=
  if id.isEmpty || id.utf8ByteSize > 128 then false
  else if id.utf8ByteSize = 36 then
    id.length = 36 && id.toList.zipIdx.all fun (c, i) =>
      if i = 8 || i = 13 || i = 18 || i = 23 then c = '-' else isHexDigit c
  else id.toList.all isIdChar

/-- The tunnel a request names: a `u32` other than 0. -/
def tunnelId (v : Json) : Option UInt32 :=
  match v.field? "tunnel" with
  | some (.num n) => if 0 < n ∧ n ≤ 4294967295 then some (UInt32.ofNat n.toNat) else none
  | _ => none

/-- The watch list of a `watch` request: `none` when it is malformed or too long, without the peer
itself otherwise. -/
def watchPeers (peerId : String) (v : Json) : Option (List String) :=
  match (v.field? "peers").bind Json.asArray with
  | none => none
  | some arr =>
    if arr.length > maxWatch then none
    else some ((arr.filterMap fun x => x.asStr.bind parsePeerId).filter (· ≠ peerId))

/-- The device an `open` request asks for, `none` when it asks for an invalid one. -/
def toDevice (v : Json) : Option (Option String) :=
  match v.field? "device" with
  | none => some none
  | some (.str s) => if s = legacyDevice || validDeviceId s then some (some s) else none
  | some _ => none

theorem not_mem_watchPeers {p : String} {v : Json} {peers : List String}
    (h : watchPeers p v = some peers) : p ∉ peers := by
  rw [watchPeers] at h
  split at h
  · cases h
  split at h
  · cases h
  cases h
  simp

end Bluetalk.Relay
