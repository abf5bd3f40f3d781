import Mathlib.Algebra.Group.Nat.Defs

/-!
# The configuration of the network core

`config.rs`: the limits, the timeouts and the discovery settings with their defaults, and what
`NetworkConfig::validate` asks of them before a network is built.
-/

namespace Bluetalk.NetworkCore

/-- A `Duration`, in nanoseconds. -/
abbrev Duration := Nat

namespace Duration

def fromSecs (secs : Nat) : Duration := secs * 1000000000

/-- `as_millis` -/
def asMillis (d : Duration) : Nat := d / 1000000

end Duration

/-- An address with the text that it is shown as. -/
structure SocketAddr where
  ip : String
  isIpv6 : Bool := false
  port : UInt16

def SocketAddr.toString (a : SocketAddr) : String :=
  (if a.isIpv6 then "[" ++ a.ip ++ "]" else a.ip) ++ ":" ++ a.port.toNat.repr

structure NetworkLimits where
  maxFrameBytes : Nat := 8 * 1024 * 1024
  outboundQueueFrames : Nat := 64
  outboundQueueBytes : Nat := 16 * 1024 * 1024
  maxPendingHandshakes : Nat := 32

structure NetworkTimeouts where
  connect : Duration := .fromSecs 5
  handshake : Duration := .fromSecs 8
  write : Duration := .fromSecs 10
  idle : Duration := .fromSecs 90
  heartbeat : Duration := .fromSecs 25

structure DiscoveryConfig where
  bindAddr : SocketAddr := { ip := "0.0.0.0", port := 41235 }
  targets : List SocketAddr := [{ ip := "255.255.255.255", port := 41235 }]
  maxPacketBytes : Nat := 16 * 1024
  maxClockSkew : Duration := .fromSecs 120
  replayWindow : Duration := .fromSecs 180
  replayCacheEntries : Nat := 4096

structure NetworkConfig where
  displayName : String := "BlueTalk user"
  listenAddr : SocketAddr := { ip := "0.0.0.0", port := 41236 }
  /-- `none` disables discovery -/
  discovery : Option DiscoveryConfig := some {}
  limits : NetworkLimits := {}
  timeouts : NetworkTimeouts := {}

/-- The errors of the configuration and of discovery. -/
inductive CoreError
  | invalidConfig (message : String)
  | crypto (message : String)
  | discovery (message : String)
  | serialization (message : String)

def u32Max : Nat := 2 ^ 32 - 1

namespace NetworkConfig

def validateDiscovery (discovery : DiscoveryConfig) : Except CoreError Unit :=
  if discovery.maxPacketBytes < 512 ∨ discovery.maxPacketBytes > 65507 then
    .error (.invalidConfig "discovery max_packet_bytes must be in 512..=65507")
  else if discovery.replayCacheEntries = 0 then
    .error (.invalidConfig "discovery replay_cache_entries must be non-zero")
  else .ok ()

def validate (c : NetworkConfig) : Except CoreError Unit :=
  let nameLen := c.displayName.utf8ByteSize
  if nameLen = 0 ∨ nameLen > 128 then
    .error (.invalidConfig "display_name must contain 1..=128 UTF-8 bytes")
  else if c.limits.maxFrameBytes = 0 ∨ c.limits.maxFrameBytes > 64 * 1024 * 1024 then
    .error (.invalidConfig "max_frame_bytes must be in 1..=67108864")
  else if c.limits.outboundQueueFrames = 0 then
    .error (.invalidConfig "outbound_queue_frames must be non-zero")
  else if c.limits.outboundQueueBytes = 0 ∨ c.limits.outboundQueueBytes > u32Max then
    .error (.invalidConfig "outbound_queue_bytes must be in 1..=u32::MAX")
  else if c.limits.maxPendingHandshakes = 0 then
    .error (.invalidConfig "max_pending_handshakes must be non-zero")
  else if c.timeouts.connect = 0 ∨ c.timeouts.handshake = 0 ∨ c.timeouts.write = 0 ∨
      c.timeouts.idle = 0 ∨ c.timeouts.heartbeat = 0 then
    .error (.invalidConfig "network timeouts must be non-zero")
  else if c.timeouts.idle ≤ c.timeouts.heartbeat then
    .error (.invalidConfig "heartbeat must be shorter than idle timeout")
  else
    match c.discovery with
    | some discovery => validateDiscovery discovery
    | none => .ok ()

theorem validate_of_defaults {c : NetworkConfig} {discovery : DiscoveryConfig} (maxFrameBytes : Nat)
    (hframe : 0 < maxFrameBytes ∧ maxFrameBytes ≤ 64 * 1024 * 1024)
    (hlimits : c.limits = { maxFrameBytes := maxFrameBytes }) (htimeouts : c.timeouts = {})
    (hdiscovery : c.discovery = some discovery)
    (hpacket : discovery.maxPacketBytes = ({} : DiscoveryConfig).maxPacketBytes)
    (hentries : discovery.replayCacheEntries = ({} : DiscoveryConfig).replayCacheEntries) :
    c.validate = .ok () ↔ 0 < c.displayName.utf8ByteSize ∧ c.displayName.utf8ByteSize ≤ 128 := by
  have hrest : validateDiscovery discovery = .ok () := by
    rw [validateDiscovery, hpacket, hentries]
    rfl
  rw [validate, hlimits, htimeouts, hdiscovery]
  dsimp only
  rw [hrest]
  split
  next hbad => exact iff_of_false nofun (by omega)
  next hgood =>
  rw [if_neg (by omega), if_neg (by decide), if_neg (by decide), if_neg (by decide),
    if_neg (by decide), if_neg (by decide)]
  exact iff_of_true rfl (by omega)

end NetworkConfig
end Bluetalk.NetworkCore
