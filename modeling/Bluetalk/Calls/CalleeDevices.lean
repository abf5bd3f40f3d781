import Bluetalk.Calls.CallPeers

/-!
# The devices of a callee

A call goes out to every device of a peer, each of which may ring and answer. When the caller takes
an answer, it tells the devices that it knows to ring to stop, or all of them if it knows none. So
the call is left to one device if no other has answered yet, if the others that the offer has
reached or will reach are told, and if none of them answers from then on.
-/

open List Function

namespace Bluetalk.Calls

/-- A call, with the peers and the devices it is about. -/
structure CallSite where
  callerId : String
  calleeId : String
  /-- the caller's device, as the callee's devices know it -/
  callerDevice : Option String
  callId : String
  /-- the callee's devices -/
  keys : List String
  caller : callerId ≠ ""
  callee : calleeId ≠ ""
  text : textOrNull callerDevice = callerDevice
  call : callId ≠ ""
  trimmed : ∀ key ∈ keys, jsTrim key = key ∧ key ≠ ""

structure DeviceCalls where
  caller : CallSpeaker
  device : String → CallSpeaker
  toDevice : String → List CallMessage
  toCaller : String → List CallMessage

inductive DeviceAction
  /-- what the caller dispatches by itself or for other peers -/
  | caller (event : CallState.Event) (now : Int)
  /-- the same of a device -/
  | device (key : String) (event : CallState.Event) (now : Int)
  /-- the next message arrives at a device -/
  | toDevice (key : String) (blocked : Bool) (now : Int)
  /-- the next message of a device arrives -/
  | toCaller (key : String) (blocked : Bool) (now : Int)

namespace DeviceCalls

open CallState CallSpeaker

variable (site : CallSite)

/-- An event that does not come from the other peer of the call: ids of calls are new, and what the
other peer answers arrives as a message. -/
def isOther (site : CallSite) (peerId : String) : Event → Bool
  | .localStart b .. | .remoteOffer b .. => b.callId ≠ some site.callId
  | .remoteAccept b .. => isText b.peerId && b.peerId ≠ some peerId
  | _ => true

def callerSends (s : DeviceCalls) (r : CallSpeaker × List SentMessage) : DeviceCalls :=
  { s with
    caller := r.1
    toDevice := fun key =>
      if key ∈ site.keys then s.toDevice key ++ delivered site.calleeId (some key) r.2
      else s.toDevice key }

def deviceSends (s : DeviceCalls) (key : String) (r : CallSpeaker × List SentMessage) : DeviceCalls :=
  { s with
    device := update s.device key r.1
    toCaller := update s.toCaller key
      (s.toCaller key ++ delivered site.callerId site.callerDevice r.2) }

def step (s : DeviceCalls) : DeviceAction → Option DeviceCalls
  | .caller event now =>
    if isOther site site.calleeId event then some (s.callerSends site (s.caller.dispatch event now))
    else none
  | .device key event now =>
    if key ∈ site.keys ∧ isOther site site.callerId event then
      some (s.deviceSends site key ((s.device key).dispatch event now))
    else none
  | .toDevice key blocked now =>
    match s.toDevice key with
    | [] => none
    | x :: rest =>
      if key ∈ site.keys then
        let r := (s.device key).receive site.callerId (x.stamped site.callerDevice) blocked now
        some { s.deviceSends site key r with toDevice := update s.toDevice key rest }
      else none
  | .toCaller key blocked now =>
    match s.toCaller key with
    | [] => none
    | x :: rest =>
      if key ∈ site.keys then
        let r := s.caller.receive site.calleeId (x.stamped (some key)) blocked now
        some { s.callerSends site r with toCaller := update s.toCaller key rest }
      else none

/-- The call has just been started; the devices may be in other calls. -/
def start (m : CallSpeaker) (callKeyB64 : String) (codecs : List String) (video : Bool) (now : Int)
    (device : String → CallSpeaker) : DeviceCalls :=
  callerSends site { caller := m, device := device, toDevice := fun _ => [], toCaller := fun _ => [] }
    ({ m with state := createIdleCallState }.dispatch
      (PeerCalls.startEvent site.callId callKeyB64 codecs video m.localCapabilities site.calleeId now)
      now)

def isOffer : CallMessage → Bool
  | .offer o => o.callId = site.callId
  | .signal _ => false

/-- A `cancel` of the call. -/
def isCancel : CallMessage → Bool
  | .offer _ => false
  | .signal x => x.op = .cancel && x.callId = site.callId

def isAccept : CallMessage → Bool
  | .offer _ => false
  | .signal x => x.op = .accept && x.callId = site.callId

def ringsIn (s : CallState) : Bool := s.phase = .incoming && s.callId = some site.callId

def activeIn (s : CallState) : Bool := s.phase = .active && s.callId = some site.callId

/-- The call is left to one device: once the caller is active with it and no `cancel` is on the way,
no other device rings or is active in the call. -/
def LeftToOne (s : DeviceCalls) : Prop :=
  activeIn site s.caller.state = true →
    (∀ key ∈ site.keys, ∀ x ∈ s.toDevice key, isCancel site x = false) →
    ∀ key ∈ site.keys, s.caller.state.remoteDevice ≠ some key →
      ringsIn site (s.device key).state = false ∧ activeIn site (s.device key).state = false

/-- The offer is on the way to a device, or rings there. -/
def reached (s : DeviceCalls) (key : String) : Bool :=
  (s.toDevice key).any (isOffer site) || ringsIn site (s.device key).state

/-- The device is told when the answer of another one is taken. -/
def told (s : DeviceCalls) (key answering : String) : Bool :=
  s.caller.state.ringingDevices.contains key ||
    (devicesToCancel s.caller.state.ringingDevices (some answering)).isEmpty

def takes (s : DeviceCalls) (key : String) : Bool :=
  s.caller.state.phase = .outgoing && s.caller.state.callId = some site.callId &&
    (s.toCaller key).head?.any (isAccept site)

/-- When the caller takes an answer, no other device has answered, and every other one that the
offer has reached or will reach is told; and none answers when the caller is active with another. -/
def inTime (s : DeviceCalls) : DeviceAction → Bool
  | .toCaller key _ _ =>
    !s.takes site key || site.keys.all fun other => other = key ||
      !activeIn site (s.device other).state && (!s.reached site other || s.told other key)
  | .device key (.localAccept ..) _ =>
    !(ringsIn site (s.device key).state && activeIn site s.caller.state &&
      s.caller.state.remoteDevice ≠ some key)
  | _ => true

/-! ### What an event makes of a manager -/

/-- The call and the phase are the same. -/
structure Same (s s' : CallState) : Prop where
  phase : s'.phase = s.phase
  callId : s'.callId = s.callId
  peerId : s'.peerId = s.peerId
  remoteDevice : s'.remoteDevice = s.remoteDevice

/-- How an event leads from one state to another. -/
inductive Becomes (s : CallState) (e : Event) (s' : CallState) : Prop
  | same : Same s s' → Becomes s e s'
  | ended : s'.phase = .idle → Becomes s e s'
  | begun {b key codecs video caps} : e = .localStart b key codecs video caps →
      Named b key .outgoing .caller none s' → Becomes s e s'
  | rings {b key codecs ts video caps blocked} :
      e = .remoteOffer b key codecs ts video caps blocked →
      Named b key .incoming .callee (textOrNull b.fromDevice) s' → Becomes s e s'
  | accepts {b codec camera codecs caps} : e = .localAccept b codec camera codecs caps →
      s.phase = .incoming → s'.phase = .active → s'.callId = s.callId → Becomes s e s'
  | answered {b codec caps} : e = .remoteAccept b codec caps → s.phase = .outgoing →
      s.sameCall b = true → s'.phase = .active → s'.callId = s.callId →
      s'.remoteDevice = (if isText b.fromDevice then b.fromDevice else s.remoteDevice) →
      Becomes s e s'

variable {site} {s s' : CallState} {e : Event} {m : CallSpeaker} {now : Int} {peerId fromId : String}
  {x : CallMessage} {blocked : Bool} {device : Option String} {c key : String} {b : Base}
  {y : SentMessage}

theorem Same.refl (s : CallState) : Same s s := ⟨rfl, rfl, rfl, rfl⟩

theorem becomes_reduceCall (s : CallState) (e : Event) : Becomes s e (s.reduceCall e).1 := by
  cases h : s.change e with
  | kept =>
    have hkept := reduceCall_kept h
    exact .same ⟨hkept.phase, hkept.callId, hkept.peerId, hkept.remoteDevice⟩
  | busied =>
    obtain ⟨-, b, key, codecs, ts, video, caps, blocked, rfl, hbusy⟩ := reduceCall_busied h
    rw [hbusy]
    exact .same (.refl s)
  | started =>
    obtain ⟨-, b, key, codecs, video, caps, he, hnamed, -⟩ := reduceCall_started h
    exact .begun he hnamed
  | rang =>
    obtain ⟨-, b, key, codecs, ts, video, caps, blocked, he, hnamed, -⟩ := reduceCall_rang h
    exact .rings he hnamed
  | crossed =>
    obtain ⟨-, b, key, codecs, ts, video, caps, blocked, he, -, -, hnamed, -⟩ :=
      reduceCall_crossed h
    exact .rings he hnamed
  | accepted =>
    obtain ⟨hin, ⟨b, codec, camera, codecs, caps, he⟩, hactive, -⟩ := reduceCall_accepted h
    exact .accepts he hin hactive.phase hactive.callId
  | answered =>
    obtain ⟨hout, b, codec, caps, he, hsame, hactive, -⟩ := reduceCall_answered h
    exact .answered he hout hsame hactive.phase hactive.callId hactive.remoteDevice
  | ended =>
    rw [(reduceCall_ended h).idle]
    exact .ended rfl

theorem text_of_textOrNull {x : Option String} {y : String} (h : textOrNull x = some y) : y ≠ "" := by
  rw [textOrNull] at h
  split at h
  next htext =>
    rw [h, isText_some, decide_eq_true_eq] at htext
    exact htext
  · cases h

theorem named_sendSignal {x : SignalEffect} {t : Option Int} (hy : y ∈ m.sendSignal x t) : y.message.callId ≠ "" := by
  rw [sendSignal] at hy
  split at hy
  next hcall =>
    obtain rfl := mem_singleton.mp hy
    exact text_of_textOrNull hcall
  · exact absurd hy not_mem_nil

theorem named_runEffect {x : Effect} (hy : y ∈ m.runEffect now x) :
    y.message.callId ≠ "" := by
  cases x with
  | sendOffer =>
    rw [runEffect, sendOffer] at hy
    split at hy
    next hcall =>
      obtain rfl := mem_singleton.mp hy
      exact text_of_textOrNull hcall
    · exact absurd hy not_mem_nil
  | sendSignal x => exact named_sendSignal hy
  | cancelOtherDevices peerId callId except ringing =>
    dsimp only [runEffect, cancelOtherDevices] at hy
    split at hy
    next hcall =>
      have hne := text_of_textOrNull hcall
      split at hy
      · obtain ⟨key, -, rfl⟩ := mem_map.mp hy
        exact hne
      · obtain rfl := mem_singleton.mp hy
        exact hne
    · exact absurd hy not_mem_nil
  | _ => exact absurd hy not_mem_nil

theorem named_dispatch (hy : y ∈ (m.dispatch e now).2) :
    y.message.callId ≠ "" := by
  obtain ⟨x, -, hy⟩ := mem_flatMap.mp hy
  exact named_runEffect hy

/-- The event that a message becomes. -/
def messageEvent (fromId : String) (x : CallMessage) (blocked : Bool) (now : Int) : Event :=
  match x with
  | .offer o => offerEvent fromId o blocked now
  | .signal y => signalEvent fromId y now

theorem receive_cases {r : CallSpeaker × List SentMessage}
    (h : r = m.receive fromId x blocked now) :
    r = m.dispatch (messageEvent fromId x blocked now) now ∨
      Same m.state r.1.state ∧
        ∀ y ∈ r.2, (∃ z, y.message = .signal z) ∧ y.message.callId ≠ "" := by
  have hdropped : Same m.state (m, ([] : List SentMessage)).1.state ∧
      ∀ y ∈ (m, ([] : List SentMessage)).2,
        (∃ z, y.message = .signal z) ∧ y.message.callId ≠ "" :=
    ⟨.refl _, fun _ hy => absurd hy not_mem_nil⟩
  cases x with
  | offer o =>
    rw [receive] at h
    split at h
    · exact .inr (h ▸ hdropped)
    · exact .inl h
  | signal y =>
    rw [receive] at h
    split at h
    · exact .inr (h ▸ hdropped)
    rw [handleSignal] at h
    split at h
    · exact .inr (h ▸ hdropped)
    · split at h
      · refine .inr (h ▸ ⟨⟨rfl, rfl, rfl, rfl⟩, fun y hy => ?_⟩)
        refine ⟨?_, named_sendSignal hy⟩
        dsimp only [sendSignal] at hy
        split at hy
        · rw [mem_singleton.mp hy]
          exact ⟨_, rfl⟩
        · exact absurd hy not_mem_nil
      · exact .inr (h ▸ hdropped)
    · exact .inl h

theorem becomes_receive :
    Becomes m.state (messageEvent fromId x blocked now) (m.receive fromId x blocked now).1.state := by
  rcases receive_cases (r := m.receive fromId x blocked now) rfl with h | ⟨hsame, -⟩
  · rw [h]
    exact becomes_reduceCall ..
  · exact .same hsame

theorem change_of_sendOffer (h : Effect.sendOffer ∈ speech (s.reduceCall e).2) :
    s.change e = .started := by
  cases hchange : s.change e with
  | started => rfl
  | kept =>
    obtain ⟨-, op, stream, -, heq⟩ := (reduceCall_kept hchange).speech _ h
    cases heq
  | busied =>
    obtain ⟨-, b, key, codecs, ts, video, caps, blocked, rfl, hbusy⟩ := reduceCall_busied hchange
    rw [hbusy] at h
    cases mem_singleton.mp h
  | rang =>
    obtain ⟨-, b, key, codecs, ts, video, caps, blocked, -, -, -, hspeech⟩ :=
      reduceCall_rang hchange
    rw [hspeech] at h
    cases mem_singleton.mp h
  | crossed =>
    obtain ⟨-, b, key, codecs, ts, video, caps, blocked, -, -, -, -, -, hspeech⟩ :=
      reduceCall_crossed hchange
    rw [hspeech] at h
    rcases mem_cons.mp h with heq | h
    · cases heq
    · cases mem_singleton.mp h
  | accepted =>
    obtain ⟨-, -, -, codec, hspeech⟩ := reduceCall_accepted hchange
    rw [hspeech] at h
    cases mem_singleton.mp h
  | answered =>
    obtain ⟨-, b, codec, caps, -, -, -, hspeech⟩ := reduceCall_answered hchange
    rw [hspeech] at h
    cases mem_singleton.mp h
  | ended =>
    rw [(reduceCall_ended hchange).speech] at h
    obtain ⟨op, -, heq⟩ := mem_map.mp h
    cases heq

theorem offer_of_runEffect {x : Effect} (hy : y ∈ m.runEffect now x)
    (hoffer : isOffer site y.message = true) :
    x = .sendOffer ∧ m.state.callId = some site.callId := by
  cases x with
  | sendOffer =>
    rw [runEffect, sendOffer] at hy
    split at hy
    next peerId callId _ hcall =>
      obtain rfl := mem_singleton.mp hy
      obtain rfl : callId = site.callId := of_decide_eq_true hoffer
      refine ⟨rfl, ?_⟩
      rw [textOrNull] at hcall
      split at hcall
      · exact hcall
      · cases hcall
    · exact absurd hy not_mem_nil
  | sendSignal x =>
    dsimp only [runEffect, sendSignal] at hy
    split at hy
    · obtain rfl := mem_singleton.mp hy
      cases hoffer
    · exact absurd hy not_mem_nil
  | cancelOtherDevices peerId callId except ringing =>
    dsimp only [runEffect, cancelOtherDevices] at hy
    split at hy
    · split at hy
      · obtain ⟨key, -, rfl⟩ := mem_map.mp hy
        cases hoffer
      · obtain rfl := mem_singleton.mp hy
        cases hoffer
    · exact absurd hy not_mem_nil
  | _ => exact absurd hy not_mem_nil

/-- No call is started or offered under the id of this one. -/
def Elsewhere (site : CallSite) : Event → Prop
  | .localStart b .. => b.callId ≠ some site.callId
  | _ => True

theorem no_offer_dispatch (he : Elsewhere site e) (hy : y ∈ (m.dispatch e now).2) : isOffer site y.message = false := by
  by_contra hoffer
  rw [Bool.not_eq_false] at hoffer
  rw [dispatch, flatMap_runEffect, mem_flatMap] at hy
  obtain ⟨x, hx, hy⟩ := hy
  obtain ⟨rfl, hcall⟩ := offer_of_runEffect hy hoffer
  obtain ⟨-, b, key, codecs, video, caps, rfl, hnamed, -⟩ :=
    reduceCall_started (change_of_sendOffer hx)
  exact he (hnamed.callId.symm.trans hcall)

theorem elsewhere_messageEvent : Elsewhere site (messageEvent fromId x blocked now) := by
  cases x with
  | offer o => trivial
  | signal y =>
    rw [messageEvent, signalEvent]
    cases y.op <;> trivial

theorem no_offer_receive (hy : y ∈ (m.receive fromId x blocked now).2) :
    isOffer site y.message = false ∧ y.message.callId ≠ "" := by
  rcases receive_cases (r := m.receive fromId x blocked now) rfl with h | ⟨-, hsignal⟩
  · rw [h] at hy
    exact ⟨no_offer_dispatch elsewhere_messageEvent hy, named_dispatch hy⟩
  obtain ⟨⟨z, hz⟩, hne⟩ := hsignal y hy
  refine ⟨?_, hne⟩
  rw [hz]
  rfl

/-! ### The call in a state -/

theorem ringsIn_iff : ringsIn site s = true ↔ s.phase = .incoming ∧ s.callId = some site.callId := by
  rw [ringsIn, Bool.and_eq_true, decide_eq_true_eq, decide_eq_true_eq]

theorem activeIn_iff : activeIn site s = true ↔ s.phase = .active ∧ s.callId = some site.callId := by
  rw [activeIn, Bool.and_eq_true, decide_eq_true_eq, decide_eq_true_eq]

/-- An offer of the call comes from the caller alone. -/
def FromCaller (site : CallSite) : Event → Prop
  | .localStart b .. => b.callId ≠ some site.callId
  | .remoteOffer b .. =>
    b.callId = some site.callId → b.peerId = some site.callerId ∧ b.fromDevice = site.callerDevice
  | _ => True

/-- The event offers or starts another call, if any. -/
def Unnamed (site : CallSite) : Event → Prop
  | .localStart b .. | .remoteOffer b .. => b.callId ≠ some site.callId
  | _ => True

theorem unnamed_of_isOther (h : isOther site peerId e = true) : Unnamed site e := by
  cases e with
  | localStart b | remoteOffer b =>
    exact of_decide_eq_true (p := b.callId ≠ some site.callId) h
  | _ => trivial

theorem Unnamed.elsewhere (h : Unnamed site e) : Elsewhere site e := by
  cases e with
  | localStart => exact h
  | _ => trivial

theorem Unnamed.fromCaller (h : Unnamed site e) : FromCaller site e := by
  cases e with
  | localStart => exact h
  | remoteOffer => exact fun hcall => absurd hcall h
  | _ => trivial

theorem unnamed_messageEvent (h : isOffer site x = false) :
    Unnamed site (messageEvent fromId x blocked now) := by
  cases x with
  | offer o => exact fun hcall => of_decide_eq_false h (Option.some.inj hcall)
  | signal y =>
    rw [messageEvent, signalEvent]
    cases y.op <;> trivial

theorem fromCaller_messageEvent :
    FromCaller site (messageEvent site.callerId (x.stamped site.callerDevice) blocked now) := by
  cases x with
  | offer o => exact fun _ => ⟨rfl, rfl⟩
  | signal y =>
    rw [CallMessage.stamped, messageEvent, signalEvent]
    cases y.op <;> trivial

/-- What the caller keeps of its call. -/
structure CallerHeld (site : CallSite) (s : CallState) : Prop where
  rings : ringsIn site s = false
  peer : s.phase = .outgoing → s.callId = some site.callId → s.peerId = some site.calleeId

/-- What a device keeps of a call that comes in. -/
structure DeviceHeld (site : CallSite) (s : CallState) : Prop where
  rings : ringsIn site s = true →
    s.peerId = some site.callerId ∧ s.remoteDevice = site.callerDevice
  incoming : s.phase = .outgoing → s.callId ≠ some site.callId

theorem Becomes.not_rings (h : Becomes s e s') (he : Unnamed site e) (hs : ringsIn site s = false) :
    ringsIn site s' = false := by
  by_contra hrings
  rw [Bool.not_eq_false, ringsIn_iff] at hrings
  cases h with
  | same hsame =>
    rw [hsame.phase, hsame.callId, ← ringsIn_iff, hs] at hrings
    cases hrings
  | ended hidle => cases hidle.symm.trans hrings.1
  | begun _ hnamed => cases hnamed.phase.symm.trans hrings.1
  | rings h hnamed =>
    subst h
    exact he (hnamed.callId.symm.trans hrings.2)
  | accepts _ _ hactive | answered _ _ _ hactive => cases hactive.symm.trans hrings.1

theorem CallerHeld.becomes (H : CallerHeld site s) (h : Becomes s e s') (he : Unnamed site e) :
    CallerHeld site s' := by
  refine ⟨h.not_rings he H.rings, fun hout hcall => ?_⟩
  cases h with
  | same hsame =>
    rw [hsame.peerId]
    exact H.peer (hsame.phase.symm.trans hout) (hsame.callId.symm.trans hcall)
  | ended hidle => cases hidle.symm.trans hout
  | begun h hnamed =>
    subst h
    exact absurd (hnamed.callId.symm.trans hcall) he
  | rings _ hnamed => cases hnamed.phase.symm.trans hout
  | accepts _ _ hactive | answered _ _ _ hactive => cases hactive.symm.trans hout

theorem DeviceHeld.becomes (H : DeviceHeld site s) (h : Becomes s e s') (he : FromCaller site e) :
    DeviceHeld site s' := by
  cases h with
  | same hsame =>
    refine ⟨fun hrings => ?_, fun hout => ?_⟩
    · rw [ringsIn_iff, hsame.phase, hsame.callId, ← ringsIn_iff] at hrings
      rw [hsame.peerId, hsame.remoteDevice]
      exact H.rings hrings
    · rw [hsame.callId]
      exact H.incoming (hsame.phase.symm.trans hout)
  | ended hidle =>
    refine ⟨fun hrings => ?_, fun hout => ?_⟩
    · cases hidle.symm.trans (ringsIn_iff.mp hrings).1
    · cases hidle.symm.trans hout
  | begun h hnamed =>
    subst h
    refine ⟨fun hrings => ?_, fun _ hcall => he (hnamed.callId.symm.trans hcall)⟩
    cases hnamed.phase.symm.trans (ringsIn_iff.mp hrings).1
  | rings h hnamed =>
    subst h
    refine ⟨fun hrings => ?_, fun hout => ?_⟩
    · obtain ⟨hpeer, hfrom⟩ := he (hnamed.callId.symm.trans (ringsIn_iff.mp hrings).2)
      rw [hnamed.peerId, hnamed.remoteDevice, hfrom, hpeer]
      exact ⟨rfl, site.text⟩
    · cases hnamed.phase.symm.trans hout
  | accepts _ _ hactive | answered _ _ _ hactive =>
    refine ⟨fun hrings => ?_, fun hout => ?_⟩
    · cases hactive.symm.trans (ringsIn_iff.mp hrings).1
    · cases hactive.symm.trans hout

theorem Becomes.active (h : Becomes s e s') (hactive : activeIn site s' = true) :
    activeIn site s = true ∧ s'.remoteDevice = s.remoteDevice ∨
      ringsIn site s = true ∧ (∃ b codec camera codecs caps,
        e = .localAccept b codec camera codecs caps) ∨
      ∃ b codec caps, e = .remoteAccept b codec caps ∧ s.phase = .outgoing ∧
        s.callId = some site.callId ∧ s.sameCall b = true ∧
        s'.remoteDevice = if isText b.fromDevice then b.fromDevice else s.remoteDevice := by
  rw [activeIn_iff] at hactive
  cases h with
  | same hsame =>
    rw [hsame.phase, hsame.callId, ← activeIn_iff] at hactive
    exact .inl ⟨hactive, hsame.remoteDevice⟩
  | ended hidle => cases hidle.symm.trans hactive.1
  | begun _ hnamed | rings _ hnamed => cases hnamed.phase.symm.trans hactive.1
  | accepts h hin _ hcall =>
    exact .inr (.inl ⟨ringsIn_iff.mpr ⟨hin, hcall.symm.trans hactive.2⟩, _, _, _, _, _, h⟩)
  | answered h hout hsame _ hcall hdevice =>
    exact .inr (.inr ⟨_, _, _, h, hout, hcall.symm.trans hactive.2, hsame, hdevice⟩)

theorem DeviceHeld.not_active (H : DeviceHeld site s) (h : Becomes s e s')
    (hs : activeIn site s = false)
    (haccept : ∀ b codec camera codecs caps, e = .localAccept b codec camera codecs caps →
      ringsIn site s = false) : activeIn site s' = false := by
  by_contra hactive
  rw [Bool.not_eq_false] at hactive
  rcases h.active hactive with ⟨hs', -⟩ | ⟨hrings, b, codec, camera, codecs, caps, he⟩ |
    ⟨b, codec, caps, -, hout, hcall, -⟩
  · rw [hs] at hs'
    cases hs'
  · rw [haccept b codec camera codecs caps he] at hrings
    cases hrings
  · exact H.incoming hout hcall

end DeviceCalls
end Bluetalk.Calls
