import Bluetalk.Relay.Requests
import Bluetalk.Theory.Keyed
import Bluetalk.Theory.Run

/-!
# The sessions of the web bridge

`attachTunnel` and `forgetSession` of `webBridge/index.js`, the `SessionTable` of `sessionMap.js` and
`PeerSession.close` of `peerProtocol/session.js`. A session is there once its handshake is done;
`attachTunnel` goes on in a turn of its own, and again after it waited for the close of a session
that it replaces. A close that notifies the remote side waits for the write before it calls
`onClose`. `shownGone` is kept for the statements: with each disconnect that was shown, the sessions
of the peer that were open then.
-/

open List Option

namespace Bluetalk.WebBridge

inductive Direction | inbound | outbound
  deriving DecidableEq

/-- `peerInfoFromSession` -/
structure PeerInfo where
  id : String
  name : String
  address : String
  connectedAt : Int
  direction : Direction
  transport : String

structure PeerDevice where
  id : String
  name : String
  transport : String

/-- An entry of the session table; `peer` is the number of its session. -/
structure Entry where
  peerId : String
  deviceKey : String
  deviceName : String
  transport : String
  info : PeerInfo
  peer : Nat

/-- How far `attachTunnel` is with a session. -/
inductive Phase
  | ready
  /-- It waits for the close of another session, unless that one had been closed before. -/
  | replacing (existing : Nat) (waits : Bool)
  | attached
  /-- It closed the session itself. -/
  | refused
  deriving DecidableEq

structure PeerSession where
  /-- whom the tunnel was opened to, or who opened it as the relay says -/
  peerId : String
  deviceKey : String
  deviceName : String
  info : PeerInfo
  phase : Phase := .ready
  /-- the reason it was closed for -/
  closed : Option String := none
  /-- `onClose` was called -/
  ended : Bool := false

inductive UiEvent
  | connected (info : PeerInfo) (devices : List PeerDevice)
  | disconnected (id reason : String)
  | devices (id : String) (devices : List PeerDevice)
  | listSync (peers : List (PeerInfo × List PeerDevice))

/-- What `attachTunnel` is called with, and what the handshake yields. -/
structure Attach where
  peerId : String
  deviceKey : String
  deviceName : String
  initiator : Bool
  remoteAddress : String
  remotePeerId : String
  remoteDisplayName : String
  now : Int

structure Bridge where
  sessions : List PeerSession := []
  table : List Entry := []
  emitted : List UiEvent := []
  shownGone : List (String × List Nat) := []

inductive BridgeAction
  | establish (a : Attach)
  | resume (i : Nat)
  /-- `attachTunnel` goes on after it waited -/
  | enter (i : Nat)
  | close (i : Nat) (reason : String) (notifyRemote : Bool)
  /-- the close that notifies the remote side goes on after its write -/
  | finishClose (i : Nat)

def legacyDeviceKey : String := "legacy"
def directDeviceKey : String := "direct"

def normalizeDeviceKey (value : String) : String :=
  let id := jsTrim value
  if id = "" || id = legacyDeviceKey then legacyDeviceKey
  else if id = directDeviceKey then directDeviceKey
  else if Relay.validDeviceId id then id
  else legacyDeviceKey

def deviceListOfSessions (entries : List Entry) : List PeerDevice :=
  entries.map fun e => ⟨e.deviceKey, e.deviceName, e.transport⟩

def aggregatePeerInfo (entries : List Entry) : Option (PeerInfo × List PeerDevice) :=
  entries.head?.map fun e => (e.info, deviceListOfSessions entries)

/-- The direction that is kept when there are two sessions for a device. -/
def preferred (own id : String) : Direction := if own < id then .outbound else .inbound

def Entry.key (e : Entry) : String × String := (e.peerId, e.deviceKey)

def Attach.info (a : Attach) : PeerInfo :=
  ⟨a.remotePeerId, a.remoteDisplayName, a.remoteAddress, a.now,
    if a.initiator then .outbound else .inbound,
    if a.remoteAddress.startsWith "relay://" then "relay" else "direct"⟩

namespace Bridge

variable (s : Bridge)

def get (peerId deviceKey : String) : Option Entry :=
  s.table.find? fun e => e.key = (peerId, deviceKey)

def forPeer (peerId : String) : List Entry := s.table.filter fun e => e.peerId = peerId

def peerInfos : List (PeerInfo × List PeerDevice) :=
  ((s.table.map (·.peerId)).reverse.dedup.reverse).filterMap fun id =>
    aggregatePeerInfo (s.forPeer id)

def emit (event : UiEvent) : Bridge := { s with emitted := s.emitted ++ [event] }

def modify (i : Nat) (f : PeerSession → PeerSession) : Bridge :=
  { s with sessions := s.sessions.modify i f }

/-- The sessions of a peer that have not been closed. -/
def openOf (peerId : String) : List Nat :=
  (List.range s.sessions.length).filter fun i =>
    (s.sessions[i]?).any fun x => x.info.id = peerId && x.closed.isNone

def isClosed (i : Nat) : Bool := (s.sessions[i]?).any fun x => x.closed.isSome

/-- A disconnect is shown, and with it is noted which sessions are open. -/
def showGone (peerId reason : String) : Bridge :=
  { s with shownGone := s.shownGone ++ [(peerId, s.openOf peerId)] }.emit
    (.disconnected peerId reason)

def forgetSession (peerId deviceKey reason : String) : Bridge :=
  if (s.get peerId deviceKey).isNone then s
  else
    let s := { s with table := s.table.filter fun e => e.key ≠ (peerId, deviceKey) }
    let remaining := s.forPeer peerId
    let s := s.emit (.devices peerId (deviceListOfSessions remaining))
    let s := if remaining.isEmpty then s.showGone peerId reason else s
    s.emit (.listSync s.peerInfos)

/-- `onClose` of a session. -/
def onClose (i : Nat) : Bridge :=
  match s.sessions[i]? with
  | none => s
  | some x =>
    let reason := x.closed.getD ""
    (s.modify i ({ · with ended := true })).forgetSession x.peerId x.deviceKey
      (if reason = "" then "connection closed" else reason)

/-- `this.closed = true`, in a session that is not closed. -/
def markClosed (i : Nat) (reason : String) : Bridge :=
  s.modify i fun x => { x with closed := x.closed.or (some reason) }

/-- `PeerSession.close` up to its await, or to its end where it does not notify the remote side. -/
def close (i : Nat) (reason : String) (notifyRemote : Bool) : Bridge :=
  if s.isClosed i then s
  else
    let s := s.markClosed i reason
    if notifyRemote then s else s.onClose i

/-- The end of `attachTunnel`. -/
def enter (i : Nat) (x : PeerSession) : Bridge :=
  let first := (s.forPeer x.info.id).isEmpty
  let entry : Entry := ⟨x.info.id, x.deviceKey, x.deviceName, x.info.transport, x.info, i⟩
  let s := { s with table := put Entry.key entry s.table }.modify i ({ · with phase := .attached })
  let s := match aggregatePeerInfo (s.forPeer x.info.id) with
    | some (info, devices) => if first then s.emit (.connected info devices) else s
    | none => s
  let s := s.emit (.devices x.info.id (deviceListOfSessions (s.forPeer x.info.id)))
  s.emit (.listSync s.peerInfos)

/-- `attachTunnel` from the end of the handshake to its next await. -/
def resume (own : String) (i : Nat) (x : PeerSession) : Bridge :=
  if x.info.id = own then
    (s.close i "refusing to connect to self" true).modify i ({ · with phase := .refused })
  else
    match s.get x.info.id x.deviceKey with
    | none => s.enter i x
    | some existing =>
      if x.info.direction = preferred own x.info.id then
        let waits := !s.isClosed existing.peer
        (s.close existing.peer "replaced by preferred relay leg" true).modify i
          ({ · with phase := .replacing existing.peer waits })
      else (s.close i "duplicate" true).modify i ({ · with phase := .refused })

/-- A session at the end of its handshake. -/
def establish (a : Attach) : Bridge :=
  { s with sessions := s.sessions ++
      [⟨a.peerId, normalizeDeviceKey a.deviceKey, a.deviceName, a.info, .ready, none, false⟩] }

def step (own : String) (s : Bridge) : BridgeAction → Option Bridge
  | .establish a =>
    -- the initiator expects the peer that it opened the tunnel to
    if a.initiator && a.peerId ≠ "" && a.peerId ≠ a.remotePeerId then none
    else some (s.establish a)
  | .resume i =>
    match s.sessions[i]? with
    | some x => if x.phase = .ready then some (s.resume own i x) else none
    | none => none
  | .enter i =>
    match s.sessions[i]? with
    | some x =>
      match x.phase with
      | .replacing existing waits =>
        if !waits || (s.sessions[existing]?).any (·.ended) then some (s.enter i x) else none
      | .ready | .attached | .refused => none
    | none => none
  | .close i reason notifyRemote =>
    if i < s.sessions.length then some (s.close i reason notifyRemote) else none
  | .finishClose i =>
    match s.sessions[i]? with
    | some x => if x.closed.isSome && !x.ended then some (s.onClose i) else none
    | none => none

/-- The session was entered into the table and has not been closed. -/
def Live (i : Nat) (x : PeerSession) : Prop :=
  s.sessions[i]? = some x ∧ x.phase = .attached ∧ x.closed = none

/-- Every live session has the entry of its peer and device, and a peer was shown disconnected only
when no session of it was open. -/
structure Identified : Prop where
  kept : ∀ i x, s.Live i x → ∃ e, s.get x.info.id x.deviceKey = some e ∧ e.peer = i
  shown : ∀ gone ∈ s.shownGone, gone.2 = []

/-- The open sessions of a peer on their way into the table. -/
def waitingOf (peerId : String) : List Nat :=
  (s.openOf peerId).filter fun i => (s.sessions[i]?).any fun x => x.phase ≠ .attached

/-- The entry under the key of a session that ends is that of a closed session, such as itself;
and if it is the last of the peer, then no session of the peer is on its way into the table. -/
def forgetsClosed (i : Nat) : Bool :=
  (s.sessions[i]?).all fun x =>
    (s.get x.peerId x.deviceKey).all fun e =>
      s.isClosed e.peer &&
        ((s.forPeer x.peerId).any (fun e => e.deviceKey ≠ x.deviceKey) ||
          (s.waitingOf x.peerId).isEmpty)

/-- Sessions are forgotten as they should be, and none is entered in the place of an open one. -/
def minds (s : Bridge) : BridgeAction → Bool
  | .finishClose i => s.forgetsClosed i
  | .close i reason false => s.isClosed i || (s.markClosed i reason).forgetsClosed i
  | .enter i =>
    (s.sessions[i]?).all fun x => (s.get x.info.id x.deviceKey).all fun e => s.isClosed e.peer
  | _ => true

variable {s s' : Bridge} {i j : Nat} {x y : PeerSession} {p k reason : String} {e : Entry}
  {event : UiEvent} {f : PeerSession → PeerSession} {own : String} {a : BridgeAction}

/-! ## What an operation leaves as it was -/

@[simp] theorem emit_sessions : (s.emit event).sessions = s.sessions := rfl
@[simp] theorem emit_table {event : UiEvent} : (s.emit event).table = s.table := rfl
@[simp] theorem emit_shownGone {event : UiEvent} : (s.emit event).shownGone = s.shownGone := rfl
@[simp] theorem modify_table {f : PeerSession → PeerSession} : (s.modify i f).table = s.table := rfl
@[simp] theorem modify_shownGone {f : PeerSession → PeerSession} :
    (s.modify i f).shownGone = s.shownGone := rfl

theorem modify_sessions :
    (s.modify i f).sessions[j]? = if i = j then (s.sessions[j]?).map f else s.sessions[j]? := by
  rw [modify, getElem?_modify]
  split <;> simp

theorem isClosed_iff : s.isClosed i = true ↔
    ∃ x, s.sessions[i]? = some x ∧ x.closed ≠ none := by
  rw [isClosed, Option.any_eq_true]
  simp [Option.isSome_iff_ne_none]

theorem mem_openOf : i ∈ s.openOf p ↔
    ∃ x, s.sessions[i]? = some x ∧ x.info.id = p ∧ x.closed = none := by
  rw [openOf, List.mem_filter, List.mem_range, Option.any_eq_true]
  simp only [Bool.and_eq_true, decide_eq_true_eq, Option.isNone_iff_eq_none]
  refine and_iff_right_of_imp ?_
  rintro ⟨x, hx, -⟩
  exact (List.getElem?_eq_some_iff.mp hx).1

theorem mem_waitingOf : i ∈ s.waitingOf p ↔
    ∃ x, s.sessions[i]? = some x ∧ x.info.id = p ∧ x.closed = none ∧ x.phase ≠ .attached := by
  rw [waitingOf, List.mem_filter, mem_openOf, Option.any_eq_true]
  constructor
  · rintro ⟨⟨x, hx, hp, hopen⟩, y, hy, hphase⟩
    obtain rfl : x = y := some.inj (hx.symm.trans hy)
    exact ⟨x, hx, hp, hopen, of_decide_eq_true hphase⟩
  · rintro ⟨x, hx, hp, hopen, hphase⟩
    exact ⟨⟨x, hx, hp, hopen⟩, x, hx, decide_eq_true hphase⟩

theorem get_key (h : s.get p k = some e) : e.peerId = p ∧ e.deviceKey = k := by
  have hkey := find?_some h
  exact Prod.mk.inj (of_decide_eq_true hkey)

theorem get_mem (h : s.get p k = some e) : e ∈ s.table := mem_of_find?_eq_some h

theorem showGone_if (s : Bridge) (gone : Bool) :
    (if gone then s.showGone p reason else s).sessions = s.sessions ∧
    (if gone then s.showGone p reason else s).table = s.table ∧
    (if gone then s.showGone p reason else s).shownGone =
      s.shownGone ++ if gone then [(p, s.openOf p)] else [] := by
  cases gone with
  | false => exact ⟨rfl, rfl, (append_nil _).symm⟩
  | true => exact ⟨rfl, rfl, rfl⟩

theorem forgetSession_cases :
    (s.get p k = none ∧ s.forgetSession p k reason = s) ∨
    ∃ e, s.get p k = some e ∧
      (s.forgetSession p k reason).sessions = s.sessions ∧
      (s.forgetSession p k reason).table = s.table.filter (fun e => e.key ≠ (p, k)) ∧
      (s.forgetSession p k reason).shownGone = s.shownGone ++
        if ((s.table.filter fun e => e.key ≠ (p, k)).filter fun e => e.peerId = p).isEmpty
        then [(p, s.openOf p)] else [] := by
  cases hget : s.get p k with
  | none =>
    refine .inl ⟨rfl, ?_⟩
    rw [forgetSession, hget]
    rfl
  | some e =>
    refine .inr ⟨e, rfl, ?_⟩
    rw [forgetSession, hget, if_neg (by simp)]
    exact ⟨(showGone_if _ _).1, (showGone_if _ _).2.1, (showGone_if _ _).2.2⟩

/-! ## The table and the sessions -/

/-- Every entry is that of a session that was entered under its peer and device. -/
def Tabled (s : Bridge) : Prop :=
  ∀ e ∈ s.table, ∃ x, s.sessions[e.peer]? = some x ∧ x.info.id = e.peerId ∧
    x.deviceKey = e.deviceKey ∧ x.phase = .attached

theorem Tabled.empty : Tabled {} := nofun

theorem Tabled.modify (H : s.Tabled)
    (hf : ∀ x, s.sessions[i]? = some x →
      (f x).info = x.info ∧ (f x).deviceKey = x.deviceKey ∧
        (x.phase = .attached → (f x).phase = .attached)) :
    (s.modify i f).Tabled := by
  intro e he
  obtain ⟨x, hx, hid, hkey, hphase⟩ := H e he
  rw [modify_sessions]
  split
  next hi =>
    subst hi
    obtain ⟨hinfo, hkey', hphase'⟩ := hf x hx
    exact ⟨f x, by rw [hx, map_some], by rw [hinfo, hid], by rw [hkey', hkey], hphase' hphase⟩
  next => exact ⟨x, hx, hid, hkey, hphase⟩

theorem Tabled.forgetSession (H : s.Tabled) : (s.forgetSession p k reason).Tabled := by
  rcases forgetSession_cases (s := s) (p := p) (k := k) with
    ⟨-, heq⟩ | ⟨e, -, hsessions, htable, -⟩
  · rwa [heq]
  intro e he
  rw [htable] at he
  rw [hsessions]
  exact H e (mem_of_mem_filter he)

theorem Tabled.onClose (H : s.Tabled) : (s.onClose i).Tabled := by
  rw [Bridge.onClose]
  split
  · exact H
  next x hx =>
  refine Tabled.forgetSession (s := s.modify i _) ?_
  exact H.modify fun _ _ => ⟨rfl, rfl, id⟩

theorem Tabled.markClosed (H : s.Tabled) : (s.markClosed i reason).Tabled :=
  H.modify fun _ _ => ⟨rfl, rfl, id⟩

theorem Tabled.close {notify : Bool} (H : s.Tabled) : (s.close i reason notify).Tabled := by
  rw [Bridge.close]
  split
  · exact H
  split
  · exact H.markClosed
  · exact H.markClosed.onClose

theorem enter_spec : (s.enter i x).sessions = s.sessions.modify i ({ · with phase := .attached }) ∧
    (s.enter i x).table = put Entry.key
      ⟨x.info.id, x.deviceKey, x.deviceName, x.info.transport, x.info, i⟩ s.table ∧
    (s.enter i x).shownGone = s.shownGone := by
  simp only [enter, emit_sessions, emit_table, emit_shownGone]
  split
  · split <;> exact ⟨rfl, rfl, rfl⟩
  · exact ⟨rfl, rfl, rfl⟩

theorem Tabled.enter (H : s.Tabled) (hx : s.sessions[i]? = some x) : (s.enter i x).Tabled := by
  obtain ⟨hsessions, htable, -⟩ := enter_spec (s := s) (i := i) (x := x)
  intro e he
  rw [htable] at he
  have hmodify := modify_sessions (s := s) (i := i) (j := e.peer)
    (f := ({ · with phase := .attached }))
  rw [hsessions]
  rcases mem_of_mem_put he with rfl | he
  · refine ⟨{ x with phase := .attached }, ?_, rfl, rfl, rfl⟩
    exact hmodify.trans (by rw [if_pos rfl, hx, map_some])
  obtain ⟨y, hy, hid, hkey, hphase⟩ := H e he
  by_cases hi : i = e.peer
  · refine ⟨{ y with phase := .attached }, ?_, hid, hkey, rfl⟩
    exact hmodify.trans (by rw [if_pos hi, hy, map_some])
  · exact ⟨y, hmodify.trans (by rw [if_neg hi, hy]), hid, hkey, hphase⟩

theorem close_notify : s.close i reason true = s.markClosed i reason := by
  rw [close]
  split
  next hclosed =>
    obtain ⟨x, hx, hreason⟩ := isClosed_iff.mp hclosed
    -- the reason that is there stays
    have hsame : s.sessions.modify i (fun x => { x with closed := x.closed.or (some reason) }) =
        s.sessions := by
      refine ext_getElem? fun j => ?_
      rw [getElem?_modify]
      by_cases hj : i = j
      · subst hj
        obtain ⟨r, hr⟩ := ne_none_iff_exists'.mp hreason
        have hor : x.closed.or (some reason) = x.closed := by rw [hr, some_or]
        simp only [hx, if_true]
        change some { x with closed := x.closed.or (some reason) } = some x
        rw [hor]
      · simp [hj]
    rw [markClosed, modify, hsame]
  · rfl

theorem resume_cases : s.get x.info.id x.deviceKey = none ∧
      s.resume own i x = s.enter i x ∨
    ∃ j reason phase, phase ≠ .attached ∧
      s.resume own i x = (s.markClosed j reason).modify i ({ · with phase := phase }) := by
  rw [resume]
  split
  · exact .inr ⟨i, _, .refused, Phase.noConfusion, by rw [close_notify]⟩
  split
  next hget => exact .inl ⟨hget, rfl⟩
  next existing hget =>
  split
  · exact .inr ⟨existing.peer, _, .replacing _ _, Phase.noConfusion, by rw [close_notify]⟩
  · exact .inr ⟨i, _, .refused, Phase.noConfusion, by rw [close_notify]⟩

theorem markClosed_sessions : (s.markClosed i reason).sessions[j]? =
    if i = j then (s.sessions[j]?).map fun x => { x with closed := x.closed.or (some reason) }
    else s.sessions[j]? := modify_sessions

theorem markClosed_phase (hx : (s.markClosed j reason).sessions[i]? = some x) :
    ∃ y, s.sessions[i]? = some y ∧ x.phase = y.phase := by
  rw [markClosed_sessions] at hx
  split at hx
  · obtain ⟨y, hy, rfl⟩ := map_eq_some_iff.mp hx
    exact ⟨y, hy, rfl⟩
  · exact ⟨x, hx, rfl⟩

theorem Tabled.step (H : s.Tabled) (h : s.step own a = some s') :
    s'.Tabled := by
  cases a with
  | establish a =>
    simp only [Bridge.step] at h
    split at h
    · cases h
    cases h
    intro e he
    obtain ⟨x, hx, hrest⟩ := H e he
    exact ⟨x, List.getElem?_append_left (List.getElem?_eq_some_iff.mp hx).1 ▸ hx, hrest⟩
  | resume i =>
    simp only [Bridge.step] at h
    split at h
    next x hx =>
      split at h
      next hready =>
        cases h
        rcases resume_cases (s := s) (i := i) (x := x) with
          ⟨-, heq⟩ | ⟨j, reason, phase, -, heq⟩ <;> rw [heq]
        · exact H.enter hx
        refine H.markClosed.modify fun y hy => ⟨rfl, rfl, fun hphase => ?_⟩
        obtain ⟨z, hz, hyz⟩ := markClosed_phase hy
        obtain rfl : x = z := some.inj (hx.symm.trans hz)
        rw [hphase, hready] at hyz
        cases hyz
      · cases h
    · cases h
  | enter i =>
    simp only [Bridge.step] at h
    split at h
    next x hx =>
      split at h
      · split at h
        · cases h
          exact H.enter hx
        · cases h
      all_goals cases h
    · cases h
  | close i reason notify =>
    simp only [Bridge.step] at h
    split at h
    · cases h
      exact H.close
    · cases h
  | finishClose i =>
    simp only [Bridge.step] at h
    split at h
    · split at h
      · cases h
        exact H.onClose
      · cases h
    · cases h

/-! ## Which steps keep the identity of the sessions -/

theorem Identified.of_live (H : s.Identified) (htable : s'.table = s.table)
    (hshown : s'.shownGone = s.shownGone)
    (hlive : ∀ i x, s'.Live i x → ∃ y, s.Live i y ∧ y.info = x.info ∧ y.deviceKey = x.deviceKey) :
    s'.Identified where
  kept i x hx := by
    obtain ⟨y, hy, hinfo, hkey⟩ := hlive i x hx
    rw [get, htable, ← hinfo, ← hkey]
    exact H.kept i y hy
  shown := by
    rw [hshown]
    exact H.shown

theorem Identified.modify (H : s.Identified)
    (hf : ∀ x, s.sessions[i]? = some x → (f x).info = x.info ∧ (f x).deviceKey = x.deviceKey ∧
      ((f x).phase = .attached → x.phase = .attached) ∧ ((f x).closed = none → x.closed = none)) :
    (s.modify i f).Identified := by
  refine H.of_live rfl rfl ?_
  rintro j y ⟨hy, hphase, hopen⟩
  rw [modify_sessions] at hy
  split at hy
  next hi =>
    subst hi
    obtain ⟨x, hx, rfl⟩ := map_eq_some_iff.mp hy
    obtain ⟨hinfo, hkey, hphase', hopen'⟩ := hf x hx
    exact ⟨x, ⟨hx, hphase' hphase, hopen' hopen⟩, hinfo.symm, hkey.symm⟩
  next => exact ⟨y, ⟨hy, hphase, hopen⟩, rfl, rfl⟩

theorem Identified.markClosed (H : s.Identified) : (s.markClosed i reason).Identified :=
  H.modify fun _ _ => ⟨rfl, rfl, id, fun h => (or_eq_none_iff.mp h).1⟩

theorem last_iff : ((s.table.filter fun e => e.key ≠ (p, k)).filter
      fun e => e.peerId = p).isEmpty = true ↔
    (s.forPeer p).any (fun e => e.deviceKey ≠ k) = false := by
  rw [List.isEmpty_iff, List.filter_filter, List.filter_eq_nil_iff, forPeer, List.any_eq_false]
  constructor
  · intro h e he hkey
    obtain ⟨hmem, hp⟩ := mem_filter.mp he
    refine h e hmem ?_
    have hne : e.key ≠ (p, k) := fun heq => of_decide_eq_true hkey (Prod.mk.inj heq).2
    rw [hp, decide_eq_true hne]
    rfl
  intro h e hmem hboth
  rw [Bool.and_eq_true, decide_eq_true_eq, decide_eq_true_eq] at hboth
  refine h e (mem_filter.mpr ⟨hmem, decide_eq_true hboth.1⟩) (decide_eq_true fun hkey => ?_)
  exact hboth.2 (Prod.ext hboth.1 hkey)

/-- Forgetting a key is right iff its session is closed and no newer one is on its way. -/
theorem Identified.forgetSession_iff (H : s.Identified) (htabled : s.Tabled) :
    (s.forgetSession p k reason).Identified ↔ (s.get p k).all (fun e => s.isClosed e.peer &&
      ((s.forPeer p).any (fun e => e.deviceKey ≠ k) || (s.waitingOf p).isEmpty)) = true := by
  rcases forgetSession_cases (s := s) (p := p) (k := k) with
    ⟨hget, heq⟩ | ⟨e, hget, hsessions, htable, hshown⟩
  · rw [heq, hget]
    exact iff_of_true H rfl
  rw [hget, Option.all_some, Bool.and_eq_true, Bool.or_eq_true, List.isEmpty_iff]
  obtain ⟨hp, hk⟩ := get_key hget
  obtain ⟨y, hy, hid, hkey, hphase⟩ := htabled e (get_mem hget)
  have hget' : ∀ p' k', (s.forgetSession p k reason).get p' k' =
      if (p, k) = (p', k') then none else s.get p' k' := by
    intro p' k'
    rw [get, htable]
    exact find?_filter_ne
  constructor
  · intro H'
    constructor
    · -- an open session would have lost its entry
      by_contra hopen
      have hnone : y.closed = none := by
        by_contra hne
        exact hopen (isClosed_iff.mpr ⟨y, hy, hne⟩)
      obtain ⟨e', he', -⟩ := H'.kept e.peer y ⟨by rw [hsessions, hy], hphase, hnone⟩
      rw [hget', hid, hkey, hp, hk, if_pos rfl] at he'
      cases he'
    · by_contra hgone
      obtain ⟨hlast, hwait⟩ := not_or.mp hgone
      rw [Bool.not_eq_true] at hlast
      rw [if_pos (last_iff.mpr hlast)] at hshown
      obtain ⟨i, hi⟩ := List.exists_mem_of_ne_nil _ hwait
      obtain ⟨x, hx, hxp, hxopen, -⟩ := mem_waitingOf.mp hi
      have hempty : s.openOf p = [] :=
        H'.shown (p, s.openOf p) (hshown ▸ List.mem_append_right _ (List.mem_singleton.mpr rfl))
      have hmem : i ∈ s.openOf p := mem_openOf.mpr ⟨x, hx, hxp, hxopen⟩
      rw [hempty] at hmem
      cases hmem
  · rintro ⟨hclosed, hgone⟩
    -- the session of the entry that goes is closed
    have hother : ∀ i x, s.Live i x → (p, k) ≠ (x.info.id, x.deviceKey) := by
      rintro i x hlive heq
      obtain ⟨e', he', hi⟩ := H.kept i x hlive
      obtain ⟨h₁, h₂⟩ := Prod.mk.inj heq
      rw [← h₁, ← h₂, hget] at he'
      cases he'
      obtain ⟨z, hz, hzclosed⟩ := isClosed_iff.mp hclosed
      rw [hi, hlive.1] at hz
      cases hz
      exact hzclosed hlive.2.2
    constructor
    · rintro i x ⟨hx, hphase, hopen⟩
      rw [hsessions] at hx
      rw [hget', if_neg (hother i x ⟨hx, hphase, hopen⟩)]
      exact H.kept i x ⟨hx, hphase, hopen⟩
    rw [hshown]
    intro gone hmem
    rcases List.mem_append.mp hmem with hmem | hmem
    · exact H.shown gone hmem
    split at hmem
    next hlast =>
      rw [List.mem_singleton.mp hmem]
      refine List.eq_nil_iff_forall_not_mem.mpr fun i hi => ?_
      obtain ⟨x, hx, hxp, hxopen⟩ := mem_openOf.mp hi
      have hlast := last_iff.mp hlast
      have hwait := hgone.resolve_left (by rw [hlast]; exact Bool.noConfusion)
      by_cases hxphase : x.phase = .attached
      · -- it has an entry, and that is one that stays
        obtain ⟨e', he', -⟩ := H.kept i x ⟨hx, hxphase, hxopen⟩
        obtain ⟨he'p, he'k⟩ := get_key he'
        refine List.any_eq_false.mp hlast e' ?_ (decide_eq_true fun hkey' => ?_)
        · exact List.mem_filter.mpr ⟨get_mem he', decide_eq_true (he'p.trans hxp)⟩
        · refine hother i x ⟨hx, hxphase, hxopen⟩ ?_
          rw [hxp, ← he'k, hkey']
      · have hmem : i ∈ s.waitingOf p := mem_waitingOf.mpr ⟨x, hx, hxp, hxopen, hxphase⟩
        rw [hwait] at hmem
        cases hmem
    · cases hmem

theorem any_modify {q : PeerSession → Bool}
    (hq : ∀ x, q (f x) = q x) :
    ((s.modify i f).sessions[j]?).any q = (s.sessions[j]?).any q := by
  rw [modify_sessions]
  split
  · cases s.sessions[j]? with
    | none => rfl
    | some x => exact hq x
  · rfl

theorem waitingOf_ended :
    (s.modify i ({ · with ended := true })).waitingOf p = s.waitingOf p := by
  have hlength : (s.modify i ({ · with ended := true })).sessions.length = s.sessions.length :=
    List.length_modify ..
  rw [waitingOf, waitingOf, openOf, openOf, hlength, List.filter_filter, List.filter_filter]
  refine List.filter_congr fun j _ => ?_
  exact congrArg₂ and (any_modify fun _ => rfl) (any_modify fun _ => rfl)

theorem Identified.onClose_iff (H : s.Identified) (htabled : s.Tabled) :
    (s.onClose i).Identified ↔ s.forgetsClosed i = true := by
  rw [onClose, forgetsClosed]
  split
  next hnone =>
    rw [hnone]
    exact iff_of_true H rfl
  next x hx =>
  have H' : (s.modify i ({ · with ended := true })).Identified :=
    H.modify fun _ _ => ⟨rfl, rfl, id, id⟩
  have htabled' : (s.modify i ({ · with ended := true })).Tabled :=
    htabled.modify fun _ _ => ⟨rfl, rfl, id⟩
  have hclosed : ∀ j, (s.modify i ({ · with ended := true })).isClosed j = s.isClosed j :=
    fun j => any_modify fun _ => rfl
  rw [hx, all_some]
  refine (H'.forgetSession_iff htabled').trans ?_
  rw [waitingOf_ended]
  simp only [hclosed]
  rfl

theorem Identified.enter_iff (H : s.Identified) (htabled : s.Tabled) (hx : s.sessions[i]? = some x)
    (hphase : x.phase ≠ .attached) : (s.enter i x).Identified ↔
      (s.get x.info.id x.deviceKey).all (fun e => s.isClosed e.peer) = true := by
  obtain ⟨hsessions, htable, hshown⟩ := enter_spec (s := s) (i := i) (x := x)
  have hat : ∀ j, (s.enter i x).sessions[j]? =
      if i = j then (s.sessions[j]?).map ({ · with phase := .attached }) else s.sessions[j]? := by
    intro j
    rw [hsessions]
    exact modify_sessions
  have hget : ∀ p k, (s.enter i x).get p k =
      if (x.info.id, x.deviceKey) = (p, k) then
        some ⟨x.info.id, x.deviceKey, x.deviceName, x.info.transport, x.info, i⟩
      else s.get p k := by
    intro p k
    rw [get, htable]
    exact find?_put
  rw [Option.all_eq_true]
  constructor
  · intro H' e he
    obtain ⟨hp, hk⟩ := get_key he
    obtain ⟨y, hy, hid, hkey, hyphase⟩ := htabled e (get_mem he)
    have hne : i ≠ e.peer := by
      rintro rfl
      obtain rfl : x = y := Option.some.inj (hx.symm.trans hy)
      exact hphase hyphase
    by_contra hopen
    have hnone : y.closed = none := by
      by_contra hclosed
      exact hopen (isClosed_iff.mpr ⟨y, hy, hclosed⟩)
    obtain ⟨e', he', hpeer⟩ := H'.kept e.peer y ⟨by rw [hat, if_neg hne, hy], hyphase, hnone⟩
    rw [hget, if_pos (by rw [hid, hkey, hp, hk])] at he'
    cases he'
    exact hne hpeer
  · intro hclosed
    constructor
    · rintro j y ⟨hy, hyphase, hopen⟩
      rw [hat] at hy
      rw [hget]
      by_cases hj : i = j
      · subst hj
        rw [if_pos rfl, hx, Option.map_some, Option.some.injEq] at hy
        subst hy
        exact ⟨_, if_pos rfl, rfl⟩
      rw [if_neg hj] at hy
      obtain ⟨e, he, hpeer⟩ := H.kept j y ⟨hy, hyphase, hopen⟩
      refine ⟨e, ?_, hpeer⟩
      rw [if_neg fun heq => ?_, he]
      -- the session whose place is taken is closed
      obtain ⟨h₁, h₂⟩ := Prod.mk.inj heq
      obtain ⟨z, hz, hzclosed⟩ := isClosed_iff.mp (hclosed e (by rw [h₁, h₂, he]))
      rw [hpeer, hy] at hz
      cases hz
      exact hzclosed hopen
    · rw [hshown]
      exact H.shown

theorem Identified.step_iff (H : s.Identified)
    (htabled : s.Tabled) (h : s.step own a = some s') : s'.Identified ↔ s.minds a = true := by
  cases a with
  | establish a =>
    simp only [Bridge.step] at h
    split at h
    · cases h
    cases h
    refine iff_of_true (H.of_live rfl rfl ?_) rfl
    rintro i x ⟨hx, hphase, hopen⟩
    rcases Nat.lt_or_ge i s.sessions.length with hi | hi
    · exact ⟨x, ⟨getElem?_append_left hi ▸ hx, hphase, hopen⟩, rfl, rfl⟩
    -- the new session is not attached yet
    have hmem := mem_of_getElem? (getElem?_append_right hi ▸ hx)
    rw [mem_singleton.mp hmem] at hphase
    cases hphase
  | resume i =>
    simp only [Bridge.step] at h
    split at h
    next x hx =>
      split at h
      next hready =>
        cases h
        refine iff_of_true ?_ rfl
        rcases resume_cases (s := s) (i := i) (x := x) with
          ⟨hget, heq⟩ | ⟨j, reason, phase, hphase, heq⟩ <;> rw [heq]
        · refine (H.enter_iff htabled hx (by rw [hready]; exact Phase.noConfusion)).mpr ?_
          rw [hget]
          rfl
        · exact H.markClosed.modify fun _ _ => ⟨rfl, rfl, fun h => absurd h hphase, id⟩
      · cases h
    · cases h
  | enter i =>
    simp only [Bridge.step] at h
    split at h
    next x hx =>
      split at h
      next hphase =>
        split at h
        · cases h
          rw [minds, hx, all_some]
          exact H.enter_iff htabled hx (by rw [hphase]; exact Phase.noConfusion)
        · cases h
      all_goals cases h
    · cases h
  | close i reason notify =>
    simp only [Bridge.step] at h
    split at h
    next =>
      cases h
      cases notify with
      | true =>
        rw [close_notify]
        exact iff_of_true H.markClosed rfl
      | false =>
        rw [minds, Bool.or_eq_true, close]
        by_cases hclosed : s.isClosed i = true
        · rw [if_pos hclosed]
          exact iff_of_true H (.inl hclosed)
        · rw [if_neg hclosed]
          refine (H.markClosed.onClose_iff htabled.markClosed).trans ?_
          exact (or_iff_right hclosed).symm
    · cases h
  | finishClose i =>
    simp only [Bridge.step] at h
    split at h
    · split at h
      · cases h
        exact H.onClose_iff htabled
      · cases h
    · cases h

theorem Identified.empty : Identified {} := by
  refine ⟨fun i x hlive => ?_, nofun⟩
  cases hlive.1

/-- Every live session keeps its entry, and no peer is shown gone while a session of it is open, all
along a run exactly when its steps mind the sessions of others. -/
theorem identified_iff_minds {own : String} {acts : List BridgeAction}
    (h : FreeRun (step own) {} acts s) : Always (step own) Identified {} acts ↔
      Run (step own) (fun s a => s.minds a = true) {} acts s :=
  Run.always_iff (I := Tabled) (fun H hstep => H.step hstep)
    (fun htabled H hstep => H.step_iff htabled hstep) h .empty .empty

/-- Every entry of the table is that of a session that was entered under its peer and device. -/
theorem table_kept {acts : List BridgeAction} : Always (step own) Tabled {} acts :=
  Run.always (fun H h => H.step h) .empty

/-- A tunnel to the peer b for concrete runs. -/
def sampleAttach (deviceKey : String) (initiator : Bool) : Attach :=
  ⟨"b", deviceKey, "", initiator, "relay://host", "b", "B", 0⟩

/-- Two devices of a peer, one of which has its session replaced by the preferred one. -/
theorem identified_iff_minds_replaced : ∃ acts s, FreeRun (step "a") {} acts s ∧
    s.table.map (·.peer) = [0, 2] ∧ Always (step "a") Identified {} acts := by
  let acts : List BridgeAction := [.establish (sampleAttach "device-1" true), .resume 0,
    .establish (sampleAttach "device-2" false), .resume 1,
    .establish (sampleAttach "device-2" true), .resume 2, .finishClose 1, .enter 2]
  have hrun : (exec (step "a") {} acts).map (fun s => s.table.map (·.peer)) = some [0, 2] := by
    decide +kernel
  have hok : allowed (step "a") minds {} acts = true := by decide +kernel
  obtain ⟨s, hs, hend⟩ := map_eq_some_iff.mp hrun
  exact ⟨acts, s, .of_exec hs, hend,
    (identified_iff_minds (.of_exec hs)).mpr (Run.of_allowed hok hs)⟩

/-- A duplicate is rejected, and its close takes the entry of the session that stays. -/
theorem duplicate_forgets : ¬ ∀ acts s, FreeRun (step "a") {} acts s → s.Identified := by
  intro h
  let acts : List BridgeAction := [.establish (sampleAttach "device-1" true), .resume 0,
    .establish (sampleAttach "device-1" false), .resume 1, .finishClose 1]
  have hrun : (exec (step "a") {} acts).map (·.shownGone) = some [("b", [0])] := by
    decide +kernel
  obtain ⟨s, hs, hend⟩ := map_eq_some_iff.mp hrun
  have hmem : ("b", [0]) ∈ s.shownGone := hend ▸ mem_singleton.mpr rfl
  have hgone := (h acts s (.of_exec hs)).shown ("b", [0]) hmem
  cases hgone

end Bridge
end Bluetalk.WebBridge
