import Mathlib.Data.List.Sort
import Bluetalk.Theory.Keyed
import Bluetalk.Theory.Run
import Bluetalk.Theory.Tasks

/-!
# The session table of the desktop network core

`spawn_session` and the end of `run_session` of `network-core/src/service/session.rs`, and the part
of `ServiceState` they use. Each changes the table under its lock and returns the events it emits
after it released it. The network is started throughout; a device key is a normalised one.
-/

open List

namespace Bluetalk.NetworkCore

inductive ConnectionDirection | inbound | outbound
  deriving DecidableEq

def directDeviceKey : String := "direct"
def protocolVersion : Nat := 2

structure PeerDevice where
  id : String
  name : String
  transport : String
  deriving DecidableEq

structure PeerInfo where
  peerId : String
  displayName : String
  remoteAddress : String
  connectedAtMs : Int
  direction : ConnectionDirection
  protocolVersion : Nat
  authenticatedEncryption : Bool
  deviceKey : String
  deviceName : String
  devices : List PeerDevice
  deriving DecidableEq

inductive NetworkEvent
  | peerConnected (info : PeerInfo)
  | peerDisconnected (peerId reason : String)
  | peerDevices (peerId : String) (devices : List PeerDevice)
  deriving DecidableEq

inductive NetworkError
  | handshake (message : String)
  | duplicatePeer (peerId : String)

/-- What a handshake yields; the id of the connection is a hash of its transcript. -/
structure EstablishedSession where
  remotePeerId : String
  remoteDisplayName : String
  connectionId : String

structure PeerHandle where
  info : PeerInfo
  deviceKey : String
  deviceName : String
  connectionId : String
  /-- the `watch` channel that the session listens to -/
  close : Nat

/-- The key of `peers`. -/
def PeerHandle.key (h : PeerHandle) : String × String := (h.info.peerId, h.deviceKey)

structure ServiceState where
  peers : List PeerHandle := []
  /-- the channels on which a close was requested -/
  closing : List Nat := []

/-- The arguments of `spawn_session`, with the clock and the channel it makes. -/
structure NewSession where
  session : EstablishedSession
  remoteAddress : String
  direction : ConnectionDirection
  deviceKey : String
  deviceName : String
  now : Int
  close : Nat

namespace ServiceState

variable (s : ServiceState)

def findSession (peerId deviceKey : String) : Option PeerHandle :=
  s.peers.find? fun h => h.key = (peerId, deviceKey)

def peerDeviceOf (h : PeerHandle) : PeerDevice :=
  ⟨h.deviceKey, h.deviceName, if h.deviceKey = directDeviceKey then "direct" else "relay"⟩

def devicesOfPeer (peerId : String) : List PeerDevice :=
  ((s.peers.filter fun h => h.info.peerId = peerId).map peerDeviceOf).insertionSort (·.id ≤ ·.id)

def hasPeer (peerId : String) : Bool := s.peers.any fun h => h.info.peerId = peerId

def insert (h : PeerHandle) : ServiceState := { s with peers := put PeerHandle.key h s.peers }

def requestClose (h : PeerHandle) : ServiceState := { s with closing := h.close :: s.closing }

def remove (peerId deviceKey : String) : ServiceState :=
  { s with peers := s.peers.filter fun h => h.key ≠ (peerId, deviceKey) }

end ServiceState

def NewSession.info (n : NewSession) : PeerInfo :=
  ⟨n.session.remotePeerId, n.session.remoteDisplayName, n.remoteAddress, n.now, n.direction,
    protocolVersion, true, n.deviceKey, n.deviceName, []⟩

def NewSession.handle (n : NewSession) : PeerHandle :=
  ⟨n.info, n.deviceKey, n.deviceName, n.session.connectionId, n.close⟩

/-- The direction of the connection that both sides keep. -/
def preferred (own peerId : String) : ConnectionDirection :=
  if own < peerId then .outbound else .inbound

def registeredEvents (s : ServiceState) (n : NewSession) (firstForPeer : Bool) :
    List NetworkEvent :=
  let devices := s.devicesOfPeer n.info.peerId
  (if firstForPeer then [.peerConnected { n.info with devices }] else []) ++
    [.peerDevices n.info.peerId devices]

/-- `spawn_session`: the table, the reply and the events, until the session runs. -/
def spawnSession (own : String) (s : ServiceState) (n : NewSession) :
    Except NetworkError (ServiceState × List NetworkEvent) :=
  if n.session.remotePeerId = own then .error (.handshake "refusing to connect to self")
  else
    let firstForPeer := !s.hasPeer n.info.peerId
    match s.findSession n.info.peerId n.deviceKey with
    | none =>
      let s := s.insert n.handle
      .ok (s, registeredEvents s n firstForPeer)
    | some existing =>
      if n.direction = preferred own n.info.peerId then
        let s := (s.requestClose existing).insert n.handle
        .ok (s, registeredEvents s n firstForPeer)
      else .error (.duplicatePeer n.info.peerId)

/-- The end of `run_session`: the entry goes if it is that of the connection. -/
def endSession (s : ServiceState) (peerId deviceKey connectionId reason : String) :
    ServiceState × List NetworkEvent :=
  match s.findSession peerId deviceKey with
  | none => (s, [])
  | some existing =>
    if existing.connectionId = connectionId then
      let s := s.remove peerId deviceKey
      let remaining := s.devicesOfPeer peerId
      (s, .peerDevices peerId remaining ::
        if remaining.isEmpty then [.peerDisconnected peerId reason] else [])
    else (s, [])

/-! ## The table -/

namespace ServiceState

variable {s s' : ServiceState} {p q d : String} {h : PeerHandle}

@[simp] theorem hasPeer_requestClose : (s.requestClose h).hasPeer p = s.hasPeer p := rfl

theorem hasPeer_eq : s.hasPeer p = (s.peers.map (·.key)).any fun k => k.1 = p := by
  simp [hasPeer, PeerHandle.key, Function.comp_def]

@[simp] theorem hasPeer_insert :
    (s.insert h).hasPeer p = (decide (h.info.peerId = p) || s.hasPeer p) := by
  rw [hasPeer_eq, hasPeer_eq, insert, map_put]
  split
  next hmem =>
    -- the entry of that key is replaced
    have habsorb : decide (h.info.peerId = p) = true →
        (s.peers.map (·.key)).any (fun k => k.1 = p) = true :=
      fun hp => any_eq_true.mpr ⟨h.key, hmem, hp⟩
    cases hp : decide (h.info.peerId = p)
    · rw [Bool.false_or]
    · rw [habsorb hp, Bool.or_true]
  next =>
  rw [any_append, Bool.or_comm]
  simp [PeerHandle.key]

theorem hasPeer_remove_of_ne (hne : p ≠ q) : (s.remove q d).hasPeer p = s.hasPeer p := by
  rw [Bool.eq_iff_iff]
  simp only [hasPeer, remove, any_eq_true, mem_filter, decide_eq_true_eq]
  constructor
  · rintro ⟨h, ⟨hmem, -⟩, hp⟩
    exact ⟨h, hmem, hp⟩
  · rintro ⟨h, hmem, hp⟩
    refine ⟨h, ⟨hmem, fun hkey => hne ?_⟩, hp⟩
    exact hp.symm.trans (congrArg Prod.fst hkey)

theorem devicesOfPeer_isEmpty : (s.devicesOfPeer p).isEmpty = !s.hasPeer p := by
  rw [Bool.eq_iff_iff, List.isEmpty_iff, devicesOfPeer, ← List.length_eq_zero_iff,
    List.length_insertionSort, List.length_map, List.length_eq_zero_iff, List.filter_eq_nil_iff]
  simp [hasPeer]

theorem hasPeer_of_findSession (hfind : s.findSession p d = some h) : s.hasPeer p := by
  have hkey : h.key = (p, d) := by simpa using find?_some hfind
  exact any_eq_true.mpr ⟨h, mem_of_find?_eq_some hfind, decide_eq_true (congrArg Prod.fst hkey)⟩

end ServiceState

/-! ## Which events an operation emits -/

/-- The connects and disconnects of a peer among events. -/
def peerEvents (p : String) (events : List NetworkEvent) : List Bool :=
  events.filterMap fun
    | .peerConnected info => if info.peerId = p then some true else none
    | .peerDisconnected peerId _ => if peerId = p then some false else none
    | .peerDevices _ _ => none

variable {p : String} {s s' : ServiceState} {n : NewSession}

@[simp] theorem peerEvents_append {es es' : List NetworkEvent} :
    peerEvents p (es ++ es') = peerEvents p es ++ peerEvents p es' := filterMap_append

/-- The events tell of each peer whether it came or went. -/
def Tells (s s' : ServiceState) (events : List NetworkEvent) : Prop :=
  ∀ p, peerEvents p events = if s'.hasPeer p = s.hasPeer p then [] else [s'.hasPeer p]

theorem peerEvents_registered :
    peerEvents p (registeredEvents s' n !s.hasPeer n.info.peerId) =
      if (decide (n.info.peerId = p) || s.hasPeer p) = s.hasPeer p then [] else [true] := by
  rw [registeredEvents]
  by_cases hp : n.info.peerId = p
  · subst hp
    cases s.hasPeer n.info.peerId <;> simp [peerEvents]
  · cases s.hasPeer n.info.peerId <;> simp [peerEvents, hp]

theorem spawnSession_tells {own : String} {events : List NetworkEvent} (h : spawnSession own s n = .ok (s', events)) :
    Tells s s' events := by
  have hcame : ∀ s' : ServiceState,
      (∀ p, s'.hasPeer p = (decide (n.info.peerId = p) || s.hasPeer p)) →
      Tells s s' (registeredEvents s' n !s.hasPeer n.info.peerId) := by
    intro s' hs' p
    rw [peerEvents_registered, hs']
    split
    · rfl
    next hne =>
    cases hp : s.hasPeer p
    · rw [hp, Bool.or_false, Bool.not_eq_false] at hne
      rw [hne, Bool.or_false]
    · exact absurd (by rw [hp, Bool.or_true]) hne
  rw [spawnSession] at h
  split at h
  · cases h
  split at h
  · cases h
    exact hcame _ fun p => ServiceState.hasPeer_insert
  split at h
  · cases h
    exact hcame _ fun p => by rw [ServiceState.hasPeer_insert, ServiceState.hasPeer_requestClose]; rfl
  · cases h

theorem endSession_tells (s : ServiceState) (peerId deviceKey connectionId reason : String) :
    Tells s (endSession s peerId deviceKey connectionId reason).1
      (endSession s peerId deviceKey connectionId reason).2 := by
  intro p
  rw [endSession]
  split
  · rw [if_pos rfl]; rfl
  next existing hfind =>
  split
  next =>
    simp only [ServiceState.devicesOfPeer_isEmpty]
    by_cases hp : p = peerId
    · subst hp
      rw [ServiceState.hasPeer_of_findSession hfind]
      cases (s.remove p deviceKey).hasPeer p <;> simp [peerEvents]
    · rw [ServiceState.hasPeer_remove_of_ne hp, if_pos rfl]
      cases (s.remove peerId deviceKey).hasPeer peerId <;> simp [peerEvents, Ne.symm hp]
  next => rw [if_pos rfl]; rfl

end Bluetalk.NetworkCore
