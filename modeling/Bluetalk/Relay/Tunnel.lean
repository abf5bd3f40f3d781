import Bluetalk.Relay.Requests
import Mathlib.Data.List.AList

/-!
# The tunnel table of the relay

`tunnel.rs`: the frames of a tunnel, and for each connection, named by its generation, the
established tunnels, the opens it waits for and the offers made to it. The three maps of a
connection hold the same two fields, so that they are one type; `Kind` says which map is meant.
-/

namespace Bluetalk.Relay

/-- `[u32 BE tunnelId][payload]` -/
def encodeFrame (tunnelId : UInt32) (payload : List UInt8) : List UInt8 :=
  [24, 16, 8, 0].map (fun shift => UInt8.ofNat (tunnelId.toNat >>> shift)) ++ payload

def decodeFrame : List UInt8 → Option (UInt32 × List UInt8)
  | b₃ :: b₂ :: b₁ :: b₀ :: payload =>
    if payload.length > maxFramePayload then none
    else
      let id := UInt32.ofNat (((b₃.toNat * 256 + b₂.toNat) * 256 + b₁.toNat) * 256 + b₀.toNat)
      if id = 0 then none else some (id, payload)
  | _ => none

theorem decodeFrame_encodeFrame {id : UInt32} {payload : List UInt8} (hid : id ≠ 0)
    (hlen : payload.length ≤ maxFramePayload) :
    decodeFrame (encodeFrame id payload) = some (id, payload) := by
  have hbytes : (((id.toNat >>> 24 % 256 * 256 + id.toNat >>> 16 % 256) * 256 +
      id.toNat >>> 8 % 256) * 256 + id.toNat % 256) = id.toNat := by
    have := id.toNat_lt
    omega
  simp [encodeFrame, decodeFrame, Nat.not_lt.mpr hlen, hbytes, hid]

/-- What is taken is a frame of a tunnel, and every frame that is not too long. -/
theorem decodeFrame_eq_some {bytes payload : List UInt8} {id : UInt32} : decodeFrame bytes = some (id, payload) ↔
    bytes = encodeFrame id payload ∧ id ≠ 0 ∧ payload.length ≤ maxFramePayload := by
  constructor
  · fun_cases decodeFrame bytes with
    | case1 | case2 | case4 => exact nofun
    | case3 b₃ b₂ b₁ b₀ rest hlen n hn =>
      intro h
      obtain ⟨hid, rfl⟩ := Prod.mk.inj (Option.some_inj.mp h)
      refine ⟨?_, hid ▸ hn, Nat.le_of_not_lt hlen⟩
      have := b₃.toNat_lt
      have := b₂.toNat_lt
      have := b₁.toNat_lt
      have := b₀.toNat_lt
      simp [← hid, n, encodeFrame, ← UInt8.toNat_inj]
      omega
  · rintro ⟨rfl, hid, hlen⟩
    exact decodeFrame_encodeFrame hid hlen
/-- The other end of a tunnel: `Endpoint`, `PendingOut` (whose `to_gen` is `remoteGen`) and
`PendingIn` (whose `from_gen` is `remoteGen`). -/
structure Endpoint where
  remoteGen : Nat
  remoteId : UInt32
  deriving DecidableEq

/-- The maps of a connection. -/
inductive Kind
  | established
  | pendingOut
  | pendingIn
  deriving DecidableEq

/-- The map in which the other end of a tunnel stands. -/
def Kind.mirror : Kind → Kind
  | .established => .established
  | .pendingOut => .pendingIn
  | .pendingIn => .pendingOut

@[simp] theorem Kind.mirror_mirror : (k : Kind) → k.mirror.mirror = k
  | .established | .pendingOut | .pendingIn => rfl

structure ConnTunnels where
  established : AList fun _ : UInt32 => Endpoint := ∅
  pendingOut : AList fun _ : UInt32 => Endpoint := ∅
  pendingIn : AList fun _ : UInt32 => Endpoint := ∅
  nextHint : UInt32 := 0

namespace ConnTunnels

def get (c : ConnTunnels) : Kind → AList fun _ : UInt32 => Endpoint
  | .established => c.established
  | .pendingOut => c.pendingOut
  | .pendingIn => c.pendingIn

def set (c : ConnTunnels) (m : AList fun _ : UInt32 => Endpoint) : Kind → ConnTunnels
  | .established => { c with established := m }
  | .pendingOut => { c with pendingOut := m }
  | .pendingIn => { c with pendingIn := m }

def used (c : ConnTunnels) (id : UInt32) : Bool :=
  id ∈ c.established || id ∈ c.pendingOut || id ∈ c.pendingIn

def count (c : ConnTunnels) (k : Kind) : Nat := (c.get k).keys.length

def total (c : ConnTunnels) : Nat := c.count .established + c.count .pendingOut + c.count .pendingIn

/-- The loop of `alloc_id`: the first free id from `id` on, among the next `n`. -/
def allocFrom (c : ConnTunnels) : Nat → UInt32 → Option UInt32
  | 0, _ => none
  | n + 1, id => if id ≠ 0 && !c.used id then some id else c.allocFrom n (id + 1)

def allocId (c : ConnTunnels) : Option (UInt32 × ConnTunnels) :=
  if c.total ≥ maxTunnels then none
  else
    let start := if c.nextHint = 0 then 1 else c.nextHint
    (c.allocFrom 4294967295 start).map fun id => (id, { c with nextHint := id + 1 })

end ConnTunnels

structure Tunnels where
  byConn : AList fun _ : Nat => ConnTunnels := ∅

inductive OpenFail
  | limit
  | selfOpen
  | invalid

namespace Tunnels

/-- The maps of a connection, empty ones for a connection without: `entry(gen).or_default()`. -/
def conn (t : Tunnels) (gen : Nat) : ConnTunnels := (t.byConn.lookup gen).getD {}

def setConn (t : Tunnels) (gen : Nat) (c : ConnTunnels) : Tunnels := ⟨t.byConn.insert gen c⟩

/-- What the map `k` of a connection holds under an id. -/
def entry (t : Tunnels) (k : Kind) (gen : Nat) (id : UInt32) : Option Endpoint :=
  ((t.conn gen).get k).lookup id

def insert (t : Tunnels) (k : Kind) (gen : Nat) (id : UInt32) (e : Endpoint) : Tunnels :=
  t.setConn gen ((t.conn gen).set (((t.conn gen).get k).insert id e) k)

/-- `get_mut(&gen)` and, where the connection has maps, `remove(&id)`. -/
def erase (t : Tunnels) (k : Kind) (gen : Nat) (id : UInt32) : Tunnels :=
  match t.byConn.lookup gen with
  | none => t
  | some c => t.setConn gen (c.set ((c.get k).erase id) k)

/-- `open`; `fromPeer` and `toPeer` are the peers of the two connections. -/
def «open» (t : Tunnels) (fromGen : Nat) (fromPeer : String) (localId : UInt32) (toGen : Nat)
    (toPeer : String) : Except OpenFail UInt32 × Tunnels :=
  if fromPeer = toPeer then (.error .selfOpen, t)
  else if localId = 0 then (.error .invalid, t)
  else
    let src := t.conn fromGen
    let t := t.setConn fromGen src
    if src.used localId then (.error .invalid, t)
    else if src.total ≥ maxTunnels || src.count .pendingOut ≥ maxPendingOpens then
      (.error .limit, t)
    else
      let dst := t.conn toGen
      let t := t.setConn toGen dst
      if dst.total ≥ maxTunnels || dst.count .pendingIn ≥ maxPendingOpens then (.error .limit, t)
      else
        match dst.allocId with
        | none => (.error .limit, t)
        | some (remoteId, dst) =>
          let t := t.setConn toGen dst
          let t := t.insert .pendingOut fromGen localId ⟨toGen, remoteId⟩
          let t := t.insert .pendingIn toGen remoteId ⟨fromGen, localId⟩
          (.ok remoteId, t)

/-- The callee accepts. Yields the opener's generation and tunnel id. -/
def accept (t : Tunnels) (gid : Nat) (localId : UInt32) :
    Except OpenFail (Nat × UInt32) × Tunnels :=
  match t.entry .pendingIn gid localId with
  | none => (.error .invalid, t)
  | some pending =>
    let t := t.erase .pendingIn gid localId
    match t.entry .pendingOut pending.remoteGen pending.remoteId with
    | none => (.error .invalid, t)
    | some _ =>
      let t := t.erase .pendingOut pending.remoteGen pending.remoteId
      let t := t.insert .established gid localId pending
      let t := t.insert .established pending.remoteGen pending.remoteId ⟨gid, localId⟩
      (.ok (pending.remoteGen, pending.remoteId), t)

/-- Removes a tunnel from the map `k` of one end and from the mirrored map of the other. Yields
the other end. -/
def unlink (t : Tunnels) (k : Kind) (gid : Nat) (localId : UInt32) : Option (Nat × UInt32) × Tunnels :=
  match t.entry k gid localId with
  | none => (none, t)
  | some e =>
    (some (e.remoteGen, e.remoteId),
      (t.erase k gid localId).erase k.mirror e.remoteGen e.remoteId)

/-- The callee rejects. Yields the opener's generation and tunnel id. -/
def reject (t : Tunnels) (gid : Nat) (localId : UInt32) :
    Except OpenFail (Nat × UInt32) × Tunnels :=
  match t.unlink .pendingIn gid localId with
  | (none, t) => (.error .invalid, t)
  | (some opener, t) => (.ok opener, t)

/-- The open of a connection timed out. -/
def timeoutOpen (t : Tunnels) (fromGen : Nat) (localId : UInt32) :
    Option (Nat × UInt32) × Tunnels :=
  t.unlink .pendingOut fromGen localId

def lookup (t : Tunnels) (gid : Nat) (localId : UInt32) : Option Endpoint :=
  t.entry .established gid localId

/-- Closes an established or pending tunnel. Yields the other end. -/
def close (t : Tunnels) (gid : Nat) (localId : UInt32) : Option (Nat × UInt32) × Tunnels :=
  match t.unlink .established gid localId with
  | (some other, t) => (some other, t)
  | (none, t) =>
    match t.unlink .pendingOut gid localId with
    | (some other, t) => (some other, t)
    | (none, t) => t.unlink .pendingIn gid localId

/-- Removes a connection with all its tunnels. Yields the other ends, to be told; the order of the
maps is as good as any. -/
def dropConn (t : Tunnels) (gid : Nat) : List (Nat × UInt32) × Tunnels :=
  match t.byConn.lookup gid with
  | none => ([], t)
  | some own =>
    let ends := [Kind.established, .pendingOut, .pendingIn].flatMap fun k =>
      (own.get k).entries.map fun s => (k, s.2)
    (ends.map fun p => (p.2.remoteGen, p.2.remoteId),
      ends.foldl (fun t p => t.erase p.1.mirror p.2.remoteGen p.2.remoteId)
        ⟨t.byConn.erase gid⟩)

end Tunnels

end Bluetalk.Relay
