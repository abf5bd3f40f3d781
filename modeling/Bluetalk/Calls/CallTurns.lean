import Bluetalk.Calls.CallPeers

/-!
# The turns of a manager

What a manager does is a turn of the protocol, with what it knows of its call as its stage, and what
it says to the other peer as the protocol's messages: what the user, a timer or the connection makes
it do (`acts_own`, `acts_says`), and what it makes of a message (`acts_receive`).
-/

open List Option

namespace Bluetalk.Calls.PeerCalls

open CallState CallProtocol CallSpeaker

/-- What a manager is in for the protocol. -/
def stageOf (s : CallState) : Stage String String :=
  match s.phase, s.callId with
  | .outgoing, some c => .outgoing c s.callKeyB64
  | .incoming, some c => .incoming c s.callKeyB64
  | .active, some c => .active c s.callKeyB64 s.isCaller
  | _, _ => .idle

/-- What a signal says, unless it is about another device. -/
def opMessage (c : String) : SignalOp → Message String String
  | .accept => .accept c
  | .reject | .busy => .decline c
  | .cancel | .endCall => .hangup c
  | _ => .other

def messageOf : CallMessage → Message String String
  | .offer o => .offer o.callId o.callKeyB64
  | .signal x =>
    if x.op = .cancel ∧ isAnsweredElsewhere x.reason then .elsewhere x.callId
    else opMessage x.callId x.op

/-- The smaller id wins a glare. -/
def Before (c c' : String) : Prop := jsLt c c' = true

structure Shaped (peerId : String) (device : Option String) (s : CallState) : Prop where
  free : s.phase = .idle → s.callId = none
  call : s.phase ≠ .idle → ∃ c, s.callId = some c ∧ c ≠ ""
  peer : s.phase ≠ .idle → s.peerId = some peerId
  role : s.phase ≠ .idle → s.role = some .caller ∨ s.role = some .callee
  device : s.remoteDevice = none ∨ s.remoteDevice = device
  caller : s.phase = .outgoing → s.isCaller = true
  callee : s.phase = .incoming → s.isCaller = false

/-- A manager that has taken in `popped` has made a turn of the protocol. -/
structure Acts (peerId : String) (device : Option String) (m : CallSpeaker) (why : Cause)
    (popped : List (Message String String)) (r : CallSpeaker × List SentMessage) : Prop where
  turn : Turn Before why (stageOf m.state) popped (stageOf r.1.state)
    ((delivered peerId device r.2).map messageOf)
  shaped : Shaped peerId device r.1.state
  named : ∀ x ∈ delivered peerId device r.2, x.callId ≠ ""

/-- The other peer, as a manager knows it. -/
structure Known (peerId : String) (device : Option String) : Prop where
  peer : peerId ≠ ""
  text : textOrNull device = device

variable {peerId : String} {device : Option String} {s s' : CallState} {m : CallSpeaker} {e : Event}
  {now : Int} {c key : String} {b : Base} {why : Cause} {popped : List (Message String String)}
  {effects : List Effect} {d : Option String} {t : Option Int} {y : CallMessage} {op : SignalOp}
  {x : CallSignal}

theorem call_stageOf (H : Shaped peerId device s) : (stageOf s).call =
    if s.phase = .idle then none else s.callId := by
  rw [stageOf]
  cases hphase : s.phase with
  | idle => rfl
  | _ =>
    obtain ⟨c, hc, -⟩ := H.call (by rw [hphase]; exact nofun)
    rw [hc]
    rfl

theorem stageOf_idle (h : s.phase = .idle) : stageOf s = .idle := by
  rw [stageOf, h]

theorem stageOf_outgoing (h : s.phase = .outgoing) (hc : s.callId = some c) :
    stageOf s = .outgoing c s.callKeyB64 := by
  rw [stageOf, h, hc]

theorem stageOf_incoming (h : s.phase = .incoming) (hc : s.callId = some c) :
    stageOf s = .incoming c s.callKeyB64 := by
  rw [stageOf, h, hc]

theorem stageOf_active (h : s.phase = .active) (hc : s.callId = some c) :
    stageOf s = .active c s.callKeyB64 s.isCaller := by
  rw [stageOf, h, hc]

theorem of_stage_outgoing (h : stageOf s = .outgoing c key) :
    s.phase = .outgoing ∧ s.callId = some c ∧ s.callKeyB64 = key := by
  rw [stageOf] at h
  split at h
  next hphase hcall =>
    cases h
    exact ⟨hphase, hcall, rfl⟩
  all_goals cases h

theorem phase_of_outgoing (h : stageOf s = .outgoing c key) : s.phase = .outgoing :=
  (of_stage_outgoing h).1

theorem stageOf_activated (h : Activated s s' d effects)
    (hc : s.callId = some c) : stageOf s' = .active c s.callKeyB64 s.isCaller := by
  rw [stageOf_active h.phase (h.callId.trans hc), h.callKeyB64, isCaller, isCaller, h.role]

theorem stageOf_kept (h : Kept s s' effects) : stageOf s' = stageOf s := by
  rw [stageOf, stageOf, isCaller, isCaller, h.phase, h.callId, h.callKeyB64, h.role]

theorem shaped_kept (h : Kept s s' effects) (H : Shaped peerId device s) :
    Shaped peerId device s' := by
  obtain ⟨h0, h1, h2, h3, h4, h5, h6⟩ := H
  refine ⟨?_, ?_, ?_, ?_, ?_, ?_, ?_⟩
  · rwa [h.phase, h.callId]
  · rwa [h.phase, h.callId]
  · rwa [h.phase, h.peerId]
  · rwa [h.phase, h.role]
  · rwa [h.remoteDevice]
  · rwa [h.phase, isCaller, h.role]
  · rwa [h.phase, isCaller, h.role]

theorem shaped_idle : Shaped peerId device createIdleCallState :=
  ⟨fun _ => rfl, fun h => absurd rfl h, fun h => absurd rfl h, fun h => absurd rfl h, .inl rfl, nofun,
    fun _ => rfl⟩

theorem shaped_named {phase : CallPhase} {role : Role} (h : Named b key phase role d s) (hcall : b.callId = some c) (hc : c ≠ "")
    (hpeer : b.peerId = some peerId) (hd : d = none ∨ d = device)
    (hrole : phase = .outgoing ∧ role = .caller ∨ phase = .incoming ∧ role = .callee) :
    Shaped peerId device s where
  free hidle := by
    rw [h.phase] at hidle
    rcases hrole with ⟨rfl, -⟩ | ⟨rfl, -⟩ <;> cases hidle
  call _ := ⟨c, h.callId.trans hcall, hc⟩
  peer _ := h.peerId.trans hpeer
  role _ := by
    rw [h.role]
    rcases hrole with ⟨-, rfl⟩ | ⟨-, rfl⟩
    · exact .inl rfl
    · exact .inr rfl
  device := by rwa [h.remoteDevice]
  caller hphase := by
    rw [h.phase] at hphase
    rcases hrole with ⟨-, rfl⟩ | ⟨rfl, -⟩
    · rw [isCaller, h.role]; rfl
    · cases hphase
  callee hphase := by
    rw [h.phase] at hphase
    rcases hrole with ⟨rfl, -⟩ | ⟨-, rfl⟩
    · cases hphase
    · rw [isCaller, h.role]; rfl

theorem shaped_active (h : Activated s s' d effects) (H : Shaped peerId device s)
    (hphase : s.phase ≠ .idle) (hd : d = none ∨ d = device) : Shaped peerId device s' where
  free hidle := nomatch h.phase.symm.trans hidle
  call _ := h.callId ▸ H.call hphase
  peer _ := h.peerId.trans (H.peer hphase)
  role _ := h.role ▸ H.role hphase
  device := by rwa [h.remoteDevice]
  caller hout := nomatch h.phase.symm.trans hout
  callee hin := nomatch h.phase.symm.trans hin

/-! ### What is said -/

theorem textOrNull_at (hknown : Known peerId device)
    (h : d = none ∨ d = device) : textOrNull d = d := by
  rcases h with rfl | rfl
  · rfl
  · exact hknown.text

theorem delivered_sendSignal {x : SignalEffect} (hknown : Known peerId device)
    (hpeer : x.peerId = some peerId) (hcall : x.callId = some c) (hc : c ≠ "")
    (hx : x.deviceKey = none ∨ x.deviceKey = device)
    (hm : m.state.remoteDevice = none ∨ m.state.remoteDevice = device) :
    ∃ y, delivered peerId device (m.sendSignal x t) = [y] ∧ y.callId = c ∧
      messageOf y = opMessage c x.op := by
  rw [sendSignal_eq hpeer hcall (decide_eq_true hknown.peer) (decide_eq_true hc)]
  refine ⟨.signal {
      op := x.op, callId := c, codec := x.codec, t := t, stream := x.stream
      capabilities :=
        if x.op = .ringing ∨ x.op = .accept then some m.localCapabilities else none },
    ?_, rfl, ?_⟩
  · have hkey : textOrNull (if x.deviceKey.isSome then x.deviceKey else m.state.remoteDevice) = none ∨
        textOrNull (if x.deviceKey.isSome then x.deviceKey else m.state.remoteDevice) = device := by
      split
      · rw [textOrNull_at hknown hx]
        exact hx
      · rw [textOrNull_at hknown hm]
        exact hm
    rw [delivered, filter_cons_of_pos]
    · rfl
    · simpa [SentMessage.reaches] using hkey
  · rw [messageOf, if_neg]
    rintro ⟨-, h⟩
    cases h

theorem delivered_signalEffect (now : Int) (op : SignalOp) (codec : Option String)
    (stream : Option StreamKind)
    (hknown : Known peerId device) (H : Shaped peerId device s) (hphase : s.phase ≠ .idle)
    (hcall : s.callId = some c) (hm : m.state.remoteDevice = none ∨ m.state.remoteDevice = device) :
    ∃ y, delivered peerId device (m.runEffect now (s.signalEffect op codec stream)) = [y] ∧
      y.callId = c ∧ messageOf y = opMessage c op := by
  obtain ⟨c', hcall', hc⟩ := H.call hphase
  obtain rfl : c = c' := some.inj (hcall.symm.trans hcall')
  refine delivered_sendSignal hknown (H.peer hphase) hcall hc ?_ hm
  rw [textOrNull_at hknown H.device]
  exact H.device

theorem delivered_ringing (now : Int) (hknown : Known peerId device) (hpeer : b.peerId = some peerId)
    (hcall : b.callId = some c) (hc : c ≠ "") (hdevice : b.fromDevice = device)
    (hm : m.state.remoteDevice = none ∨ m.state.remoteDevice = device) :
    ∃ y, delivered peerId device (m.runEffect now (ringingSignal b)) = [y] ∧ y.callId = c ∧
      messageOf y = .other := by
  let x : SignalEffect :=
    ⟨.ringing, b.peerId, b.callId, textOrNull (textOrNull b.fromDevice), none, none⟩
  refine delivered_sendSignal (x := x) hknown hpeer hcall hc ?_ hm
  change textOrNull (textOrNull b.fromDevice) = none ∨ textOrNull (textOrNull b.fromDevice) = device
  rw [hdevice, hknown.text, hknown.text]
  exact .inr rfl

theorem delivered_busy (now : Int) (hknown : Known peerId device) (hpeer : b.peerId = some peerId)
    (hcall : b.callId = some c) (hc : c ≠ "") (hdevice : b.fromDevice = device)
    (hm : m.state.remoteDevice = none ∨ m.state.remoteDevice = device) :
    ∃ y, delivered peerId device (m.runEffect now (s.busySignal b)) = [y] ∧ y.callId = c ∧
      messageOf y = .decline c := by
  let x : SignalEffect :=
    ⟨.busy, b.peerId.or s.peerId, b.callId.or s.callId, textOrNull b.fromDevice, none, none⟩
  refine delivered_sendSignal (x := x) hknown ?_ ?_ hc ?_ hm
  · change b.peerId.or s.peerId = _
    rw [hpeer]
    rfl
  · change b.callId.or s.callId = _
    rw [hcall]
    rfl
  · change textOrNull b.fromDevice = none ∨ textOrNull b.fromDevice = device
    rw [hdevice, hknown.text]
    exact .inr rfl

theorem delivered_cancelOther {except : Option String} {ringing : List String}
    (hknown : Known peerId device) (hc : c ≠ "") (hy : y ∈ delivered peerId device
      (m.runEffect now (.cancelOtherDevices (some peerId) (some c) except ringing))) :
    y.callId = c ∧ messageOf y = .elsewhere c := by
  obtain ⟨z, hz, rfl⟩ := mem_map.mp hy
  have hz := (mem_filter.mp hz).1
  have htext : ∀ {x : String} {y : Option String}, x ≠ "" → textOrNull (textOr (some x) y) = some x := by
    intro x y hx
    have htext : isText (some x) = true := decide_eq_true hx
    rw [textOr, if_pos htext, textOrNull_of_isText htext]
  rw [runEffect, cancelOtherDevices, htext hknown.peer, htext hc] at hz
  dsimp only at hz
  split at hz
  · obtain ⟨key, -, rfl⟩ := mem_map.mp hz
    exact ⟨rfl, rfl⟩
  · obtain rfl := mem_singleton.mp hz
    exact ⟨rfl, rfl⟩

theorem kept_delivered (hknown : Known peerId device) (H : Shaped peerId device m.state)
    (h : Kept m.state (m.dispatch e now).1.state (m.state.reduceCall e).2) (hy : y ∈ delivered peerId device (m.dispatch e now).2) : y.callId ≠ "" ∧ messageOf y = .other := by
  rw [delivered_dispatch, mem_flatMap] at hy
  obtain ⟨x, hx, hy⟩ := hy
  obtain ⟨hactive, op, stream, hmedia, rfl⟩ := h.speech x hx
  have hphase : m.state.phase ≠ .idle := by
    rw [hactive]
    exact nofun
  obtain ⟨c, hcall, hc⟩ := H.call hphase
  have hm := (shaped_kept h H).device
  obtain ⟨z, hz, hzc, hzm⟩ := delivered_signalEffect (m := (m.dispatch e now).1) now op none
    stream hknown H hphase hcall hm
  rw [hz, mem_singleton] at hy
  subst hy
  rw [hzc, hzm]
  refine ⟨hc, ?_⟩
  cases op <;> first | rfl | cases hmedia

theorem acts_kept (hknown : Known peerId device) (H : Shaped peerId device m.state)
    (h : Kept m.state (m.dispatch e now).1.state (m.state.reduceCall e).2)
    (hturn : ∀ n, Turn Before why (stageOf m.state) popped (stageOf m.state)
      (List.replicate n .other)) : Acts peerId device m why popped (m.dispatch e now) where
  turn := by
    rw [stageOf_kept h, map_eq_replicate_iff.mpr fun y hy => (kept_delivered hknown H h hy).2]
    exact hturn _
  shaped := shaped_kept h H
  named y hy := (kept_delivered hknown H h hy).1

/-! ### The turns of a manager -/

theorem stageOf_createIdle : stageOf createIdleCallState = .idle := rfl

theorem acts_ended (hknown : Known peerId device) (H : Shaped peerId device m.state)
    (hend : m.state.change e = .ended)
    (hturn : ∀ c, m.state.callId = some c → Turn Before why (stageOf m.state) popped .idle
      ((m.state.farewell e).toList.map (opMessage c))) :
    Acts peerId device m why popped (m.dispatch e now) := by
  have h := reduceCall_ended hend
  have hidle : (m.dispatch e now).1.state = createIdleCallState := h.idle
  obtain ⟨c, hcall, hc⟩ := H.call h.phase
  have hsaid : ∃ ys, delivered peerId device (m.dispatch e now).2 = ys ∧
      (∀ y ∈ ys, y.callId = c) ∧ ys.map messageOf = (m.state.farewell e).toList.map (opMessage c) := by
    rw [delivered_dispatch, h.speech]
    cases m.state.farewell e with
    | none => exact ⟨[], rfl, fun _ hy => absurd hy not_mem_nil, rfl⟩
    | some op =>
      obtain ⟨y, hy, hyc, hym⟩ := delivered_signalEffect (m := (m.dispatch e now).1) now op none
        none hknown H h.phase hcall (.inl (by rw [hidle]; rfl))
      refine ⟨[y], ?_, fun z hz => ?_, ?_⟩
      · rw [toList_some, map_singleton, flatMap_singleton, hy]
      · rw [mem_singleton.mp hz, hyc]
      · rw [map_singleton, hym]
        rfl
  obtain ⟨ys, hys, hysc, hysm⟩ := hsaid
  refine ⟨?_, ?_, ?_⟩
  · rw [hidle, hys, hysm, stageOf_createIdle]
    exact hturn c hcall
  · rw [hidle]
    exact shaped_idle
  rw [hys]
  intro y hy
  rw [hysc y hy]
  exact hc

theorem acts_accepted (hknown : Known peerId device) (H : Shaped peerId device m.state)
    (haccept : m.state.change e = .accepted) : Acts peerId device m .acts [] (m.dispatch e now) := by
  obtain ⟨hin, -, hactive, codec, hspeech⟩ := reduceCall_accepted haccept
  have hphase : m.state.phase ≠ .idle := by
    rw [hin]
    exact nofun
  obtain ⟨c, hcall, hc⟩ := H.call hphase
  have hshaped : Shaped peerId device (m.dispatch e now).1.state :=
    shaped_active hactive H hphase H.device
  obtain ⟨y, hy, hyc, hym⟩ := delivered_signalEffect (m := (m.dispatch e now).1) now .accept
    codec none hknown H hphase hcall hshaped.device
  have hsent : delivered peerId device (m.dispatch e now).2 = [y] := by
    rw [delivered_dispatch, hspeech, flatMap_singleton, hy]
  have hstage : stageOf (m.dispatch e now).1.state = .active c m.state.callKeyB64 false :=
    H.callee hin ▸ stageOf_activated hactive hcall
  refine ⟨?_, hshaped, ?_⟩
  · rw [hsent, hstage, stageOf_incoming hin hcall, map_singleton, hym]
    exact .accepts
  · rw [hsent, forall_mem_singleton, hyc]
    exact hc

theorem ended_own (hown : e.isOwn = true) (hend : s.change e = .ended) :
    s.phase = .incoming ∧ (s.farewell e = some .reject ∨ s.farewell e = none) ∨
      s.phase = .outgoing ∧ s.farewell e = some .cancel ∨
      s.phase = .active ∧ s.farewell e = some .endCall := by
  cases e with
  | localReject b =>
    rw [change, ite_eq_ended] at hend
    exact .inl ⟨hend, .inl rfl⟩
  | localCancel b =>
    rw [change, ite_eq_ended] at hend
    exact .inr (.inl ⟨hend, rfl⟩)
  | localEnd b =>
    rw [change, ite_eq_ended] at hend
    exact .inr (.inr ⟨hend, rfl⟩)
  | ringTimeout b =>
    rw [change, ite_eq_ended, Bool.and_eq_true, Bool.or_eq_true, decide_eq_true_eq,
      decide_eq_true_eq] at hend
    rcases hend.2 with hout | hin
    · exact .inr (.inl ⟨hout, by rw [farewell, if_pos hout]⟩)
    · refine .inl ⟨hin, .inr ?_⟩
      rw [farewell, if_neg]
      exact fun hout => CallPhase.noConfusion (hin.symm.trans hout)
  | connectionLost b =>
    rw [change, ite_eq_ended, Bool.and_eq_true, decide_eq_true_eq] at hend
    exact .inr (.inr ⟨hend.2, rfl⟩)
  | localAccept b codec camera codecs caps =>
    rw [change] at hend
    split at hend <;> cases hend
  | toggleMute | localMedia | localKeyframe | heard | unknown => cases hend
  | _ => cases hown

theorem acts_own (now : Int) (hknown : Known peerId device) (H : Shaped peerId device m.state)
    (hown : e.isOwn = true) : Acts peerId device m .acts [] (m.dispatch e now) := by
  cases hc : m.state.change e with
  | kept => exact acts_kept hknown H (reduceCall_kept hc) .talks
  | started =>
    obtain ⟨-, b, key, codecs, video, caps, rfl, -⟩ := reduceCall_started hc
    cases hown
  | rang =>
    obtain ⟨-, b, key, codecs, ts, video, caps, blocked, rfl, -⟩ := reduceCall_rang hc
    cases hown
  | crossed =>
    obtain ⟨-, b, key, codecs, ts, video, caps, blocked, rfl, -⟩ := reduceCall_crossed hc
    cases hown
  | busied =>
    obtain ⟨-, b, key, codecs, ts, video, caps, blocked, rfl, -⟩ := reduceCall_busied hc
    cases hown
  | answered =>
    obtain ⟨-, b, codec, caps, rfl, -⟩ := reduceCall_answered hc
    cases hown
  | accepted => exact acts_accepted hknown H hc
  | ended =>
    refine acts_ended hknown H hc fun c hcall => ?_
    rcases ended_own hown hc with ⟨hin, hsaid | hsaid⟩ | ⟨hout, hsaid⟩ | ⟨hactive, hsaid⟩
    · rw [hsaid, stageOf_incoming hin hcall]
      exact .declines
    · rw [hsaid, stageOf_incoming hin hcall]
      exact .misses
    · rw [hsaid, stageOf_outgoing hout hcall]
      exact .cancels
    · rw [hsaid, stageOf_active hactive hcall]
      exact .ends

/-- The base of what comes from the peer. -/
def peerBase (peerId c : String) (device : Option String) (now : Int) : Base :=
  { peerId := some peerId, callId := some c, fromDevice := device, now := now }

theorem sameCall_iff (H : Shaped peerId device s) (hc : c ≠ "") :
    s.sameCall (peerBase peerId c device now) = true ↔ (stageOf s).call = some c := by
  have htext : isText (some c) = true := decide_eq_true hc
  rw [call_stageOf H, sameCall]
  split
  · exact iff_of_false Bool.false_ne_true (some_ne_none c).symm
  next hphase =>
  have hpeer : s.peerId = some peerId := H.peer hphase
  by_cases hcall : s.callId = some c
  · simp [peerBase, hpeer, hcall]
  · simp [peerBase, htext, hcall, Ne.symm hcall]

theorem stage_of_call (H : Shaped peerId device s) (h : (stageOf s).call = some c) :
    s.phase ≠ .idle ∧ s.callId = some c := by
  rw [call_stageOf H] at h
  split at h
  · cases h
  next hphase => exact ⟨hphase, h⟩

theorem losesGlare_iff {c' : String} (hc : c ≠ "") (hcall : s.callId = some c') (hc' : c' ≠ "")
    (hb : b.callId = some c) : s.losesGlare b = true ↔ Before c c' := by
  have h : isText (some c) = true := decide_eq_true hc
  have h' : isText (some c') = true := decide_eq_true hc'
  rw [losesGlare, hcall, hb, h, h']
  exact Iff.rfl

theorem stageOf_named (h : Named b key .incoming .callee d s)
    (hb : b.callId = some c) : stageOf s = .incoming c key := by
  rw [stageOf_incoming h.phase (h.callId.trans hb), h.callKeyB64]

section

variable {o : CallOffer} {blocked : Bool} (hknown : Known peerId device)
  (H : Shaped peerId device m.state) (hc : o.callId ≠ "") (hdevice : o.fromDevice = device)
include hknown H hc hdevice

omit H in
theorem acts_rang (h : m.state.change (offerEvent peerId o blocked now) = .rang) :
    Acts peerId device m .hears [.offer o.callId o.callKeyB64] (m.handleOffer peerId o blocked now) := by
  obtain ⟨hidle, b, key, codecs, ts, video, caps, blocked', heq, hnamed, -, hspeech⟩ :=
    reduceCall_rang h
  cases heq
  rw [offerBase_fromDevice, hdevice, hknown.text] at hnamed
  have hshaped : Shaped peerId device (m.handleOffer peerId o blocked now).1.state :=
    shaped_named hnamed rfl hc rfl (.inr rfl) (.inr ⟨rfl, rfl⟩)
  obtain ⟨y, hy, hyc, hym⟩ := delivered_ringing (b := offerBase peerId o now)
    (m := (m.handleOffer peerId o blocked now).1) now hknown rfl rfl hc hdevice hshaped.device
  have hsent : delivered peerId device (m.handleOffer peerId o blocked now).2 = [y] := by
    rw [handleOffer, delivered_dispatch]
    exact (congrArg _ hspeech).trans ((flatMap_singleton ..).trans hy)
  refine ⟨?_, hshaped, ?_⟩
  · rw [hsent, stageOf_idle hidle, map_singleton, hym]
    exact stageOf_named hnamed rfl ▸ .rings
  · rw [hsent, forall_mem_singleton, hyc]
    exact hc

theorem acts_crossed (h : m.state.change (offerEvent peerId o blocked now) = .crossed) :
    Acts peerId device m .hears [.offer o.callId o.callKeyB64] (m.handleOffer peerId o blocked now) := by
  obtain ⟨hout, b, key, codecs, ts, video, caps, blocked', heq, -, hlose, hnamed, -, hspeech⟩ :=
    reduceCall_crossed h
  cases heq
  rw [offerBase_fromDevice, hdevice, hknown.text] at hnamed
  have hphase : m.state.phase ≠ .idle := by
    rw [hout]
    exact nofun
  obtain ⟨c', hcall, hc'⟩ := H.call hphase
  have hbefore : Before o.callId c' := (losesGlare_iff hc hcall hc' rfl).mp hlose
  have hne : o.callId ≠ c' := by
    intro heq
    rw [heq, Before, jsLt_irrefl] at hbefore
    cases hbefore
  have hshaped : Shaped peerId device (m.handleOffer peerId o blocked now).1.state :=
    shaped_named hnamed rfl hc rfl (.inr rfl) (.inr ⟨rfl, rfl⟩)
  obtain ⟨y, hy, hyc, hym⟩ := delivered_signalEffect (m := (m.handleOffer peerId o blocked now).1)
    now .cancel none none hknown H hphase hcall hshaped.device
  obtain ⟨z, hz, hzc, hzm⟩ := delivered_ringing (b := offerBase peerId o now)
    (m := (m.handleOffer peerId o blocked now).1) now hknown rfl rfl hc hdevice hshaped.device
  have hsent : delivered peerId device (m.handleOffer peerId o blocked now).2 = [y, z] := by
    rw [handleOffer, delivered_dispatch]
    refine (congrArg _ hspeech).trans ?_
    rw [flatMap_cons, flatMap_singleton]
    exact congrArg₂ (· ++ ·) hy hz
  refine ⟨?_, hshaped, ?_⟩
  · rw [hsent, stageOf_outgoing hout hcall, map_cons, map_singleton, hym, hzm]
    exact stageOf_named hnamed rfl ▸ .crosses hne hbefore
  rw [hsent]
  rintro x hx
  rcases mem_cons.mp hx with rfl | hx
  · rw [hyc]
    exact hc'
  · rw [mem_singleton.mp hx, hzc]
    exact hc

theorem acts_busied (h : m.state.change (offerEvent peerId o blocked now) = .busied) :
    Acts peerId device m .hears [.offer o.callId o.callKeyB64] (m.handleOffer peerId o blocked now) := by
  have hother : m.state.phase ≠ .outgoing := by
    intro hout
    have hpeer := H.peer (by rw [hout]; exact nofun)
    rw [change_offerEvent, if_pos (c := _ ∧ _) ⟨hout, hpeer⟩] at h
    split at h
    · cases h
    · split at h <;> cases h
  obtain ⟨hphase, b, key, codecs, ts, video, caps, blocked', heq, hbusy⟩ := reduceCall_busied h
  cases heq
  have hsame : (m.handleOffer peerId o blocked now).1 = m := by
    rw [handleOffer, dispatch, hbusy]
  obtain ⟨y, hy, hyc, hym⟩ := delivered_busy (b := offerBase peerId o now) (s := m.state) (m := m)
    now hknown rfl rfl hc hdevice H.device
  have hsent : delivered peerId device (m.handleOffer peerId o blocked now).2 = [y] := by
    rw [handleOffer, delivered_dispatch, hbusy, ← handleOffer, hsame]
    exact (flatMap_singleton ..).trans hy
  refine ⟨?_, ?_, ?_⟩
  · rw [hsent, hsame, map_singleton, hym]
    refine .isBusy fun c k hstage => hother ?_
    exact phase_of_outgoing hstage
  · rw [hsame]
    exact H
  · rw [hsent, forall_mem_singleton, hyc]
    exact hc

theorem acts_offer (blocked : Bool) (now : Int) : ∃ why,
    Acts peerId device m why [.offer o.callId o.callKeyB64] (m.handleOffer peerId o blocked now) ∧
      (blocked = false → isStaleCallOffer o.timestamp now = false → why = .hears) := by
  cases hchange : m.state.change (offerEvent peerId o blocked now) with
  | rang => exact ⟨_, acts_rang hknown hc hdevice hchange, fun _ _ => rfl⟩
  | crossed => exact ⟨_, acts_crossed hknown H hc hdevice hchange, fun _ _ => rfl⟩
  | busied => exact ⟨_, acts_busied hknown H hc hdevice hchange, fun _ _ => rfl⟩
  | kept =>
    have hkept := reduceCall_kept hchange
    by_cases hrefused : (blocked || isStaleCallOffer o.timestamp now) = true
    · refine ⟨.refuses, acts_kept hknown H hkept .refuses, fun hb hs => ?_⟩
      rw [hb, hs] at hrefused
      cases hrefused
    refine ⟨.hears, acts_kept hknown H hkept fun n => ?_, fun _ _ => rfl⟩
    rw [change_offerEvent, if_neg hrefused] at hchange
    split at hchange
    next hglare =>
      obtain ⟨c', hcall, hc'⟩ := H.call (by rw [hglare.1]; exact CallPhase.noConfusion)
      rw [stageOf_outgoing hglare.1 hcall]
      refine .wins n fun hbefore => ?_
      rw [if_pos ((losesGlare_iff hc hcall hc' rfl).mpr hbefore)] at hchange
      cases hchange
    · split at hchange <;> cases hchange
  | started | accepted | answered | ended =>
    have hmem := change_mem (s := m.state) (e := offerEvent peerId o blocked now) 
      (by rw [hchange]; exact Change.noConfusion)
    rw [hchange] at hmem
    simp [offerEvent, Event.mayMake] at hmem

end

section

variable {x : Message String String} (hknown : Known peerId device)
  (H : Shaped peerId device m.state)
include hknown H

theorem acts_ignored (h : m.state.change e = .kept) (hx : Ignorable (stageOf m.state) x) :
    Acts peerId device m .hears [x] (m.dispatch e now) :=
  acts_kept hknown H (reduceCall_kept h) fun n => .ignores n hx

theorem acts_taken (h : m.state.change e = .ended) (hfarewell : m.state.farewell e = none)
    (hturn : Turn Before .hears (stageOf m.state) [x] .idle []) :
    Acts peerId device m .hears [x] (m.dispatch e now) := by
  refine acts_ended hknown H h fun c _ => ?_
  rw [hfarewell]
  exact hturn

theorem acts_answered (hc : c ≠ "") (h : m.state.change e = .answered)
    (hstage : (stageOf m.state).call = some c)
    (hfrom : ∀ b codec caps, e = .remoteAccept b codec caps → b.fromDevice = device) :
    Acts peerId device m .hears [.accept c] (m.dispatch e now) := by
  obtain ⟨hout, b, codec, caps, rfl, -, hactive, hspeech⟩ := reduceCall_answered h
  rw [hfrom b codec caps rfl] at hactive hspeech
  obtain ⟨hphase, hcall⟩ := stage_of_call H hstage
  have hbound : ∀ d, d = device ∨ d = m.state.remoteDevice → d = none ∨ d = device := by
    rintro d (rfl | rfl)
    · exact .inr rfl
    · exact H.device
  have hshaped := shaped_active hactive H hphase (hbound _ (by split <;> simp))
  have hsent : ∀ y ∈ delivered peerId device (m.dispatch (.remoteAccept b codec caps) now).2,
      y.callId = c ∧ messageOf y = .elsewhere c := by
    intro y hy
    rw [delivered_dispatch, hspeech, flatMap_singleton, H.peer hphase, hcall] at hy
    exact delivered_cancelOther hknown hc hy
  have hstage' : stageOf (m.dispatch (.remoteAccept b codec caps) now).1.state =
      .active c m.state.callKeyB64 true := H.caller hout ▸ stageOf_activated hactive hcall
  refine ⟨?_, hshaped, fun y hy => ?_⟩
  · rw [stageOf_outgoing hout hcall, hstage', map_eq_replicate_iff.mpr fun y hy => (hsent y hy).2]
    exact .answered _
  · rw [(hsent y hy).1]
    exact hc

end

theorem textOr_self (x : Option String) : textOr x x = x := by
  rw [textOr, ite_self]

theorem sendSignal_current {stream : Option StreamKind} :
    m.sendSignal { op := op, peerId := none, callId := none, stream := stream } t =
      m.sendSignal
        { op := op, peerId := m.state.peerId, callId := m.state.callId, stream := stream } t := by
  rw [sendSignal, sendSignal, textOr_self, textOr_self]
  rfl

theorem delivered_current (op : SignalOp) (stream : Option StreamKind) (hknown : Known peerId device) (H : Shaped peerId device m.state)
    (hphase : m.state.phase ≠ .idle) (hop : ∀ c, opMessage c op = .other) :
    ∃ y, delivered peerId device
        (m.sendSignal { op := op, peerId := none, callId := none, stream := stream } t) = [y] ∧
      y.callId ≠ "" ∧ messageOf y = .other := by
  obtain ⟨c, hcall, hc⟩ := H.call hphase
  rw [sendSignal_current]
  obtain ⟨y, hy, hyc, hym⟩ := delivered_sendSignal
    (x := { op := op, peerId := m.state.peerId, callId := m.state.callId, stream := stream })
    (t := t) hknown (H.peer hphase) hcall hc (.inl rfl) H.device
  exact ⟨y, hy, hyc ▸ hc, hym.trans (hop c)⟩

section

variable {codec reason : Option String} {t : Option Int} {stream : Option StreamKind}
  {caps : Option Capabilities} (hknown : Known peerId device) (H : Shaped peerId device m.state)
  (hc : c ≠ "")
include hknown H hc

theorem acts_reject : Acts peerId device m .hears [.decline c]
    (m.dispatch (.remoteReject (peerBase peerId c device now)) now) := by
  by_cases hout : m.state.sameCall (peerBase peerId c device now) && m.state.phase = .outgoing
  · refine acts_taken hknown H (if_pos hout) rfl ?_
    rw [Bool.and_eq_true, decide_eq_true_eq, sameCall_iff H hc] at hout
    rw [stageOf_outgoing hout.2 (stage_of_call H hout.1).2]
    exact .declined
  · exact acts_ignored hknown H (if_neg hout) trivial

theorem acts_busy : Acts peerId device m .hears [.decline c]
    (m.dispatch (.remoteBusy (peerBase peerId c device now)) now) := by
  have hchange : m.state.change (.remoteBusy (peerBase peerId c device now)) = .ended ∨
      m.state.change (.remoteBusy (peerBase peerId c device now)) = .kept := by
    rw [change]
    split
    · exact .inl rfl
    · exact .inr rfl
  rcases hchange with hended | hkept
  · refine acts_taken hknown H hended rfl ?_
    rw [change, ite_eq_ended, Bool.and_eq_true, Bool.and_eq_true, decide_eq_true_eq,
      sameCall_iff H hc] at hended
    rw [stageOf_outgoing hended.1.2 (stage_of_call H hended.1.1).2]
    exact .declined
  · exact acts_ignored hknown H hkept trivial

theorem acts_accept : Acts peerId device m .hears [.accept c]
    (m.dispatch (.remoteAccept (peerBase peerId c device now) codec caps) now) := by
  by_cases hout : m.state.sameCall (peerBase peerId c device now) && m.state.phase = .outgoing
  · refine acts_answered hknown H hc (if_pos hout) ?_ fun b _ _ heq => ?_
    · rw [Bool.and_eq_true] at hout
      exact (sameCall_iff H hc).mp hout.1
    · cases heq
      rfl
  · refine acts_ignored hknown H (if_neg hout) fun k hstage => hout ?_
    rw [Bool.and_eq_true]
    exact ⟨(sameCall_iff H hc).mpr (by rw [hstage]; rfl), decide_eq_true (phase_of_outgoing hstage)⟩

theorem acts_end : Acts peerId device m .hears [.hangup c]
    (m.dispatch (.remoteEnd (peerBase peerId c device now)) now) := by
  by_cases hsame : m.state.sameCall (peerBase peerId c device now) = true
  · exact acts_taken hknown H (if_pos hsame) rfl (.hungUp ((sameCall_iff H hc).mp hsame))
  · exact acts_ignored hknown H (if_neg hsame) fun hcall => hsame ((sameCall_iff H hc).mpr hcall)

theorem acts_cancel (reason : Option String) (now : Int) : Acts peerId device m .hears
    [if isAnsweredElsewhere reason then .elsewhere c else .hangup c]
    (m.dispatch (.remoteCancel (peerBase peerId c device now) reason) now) := by
  by_cases hend : m.state.sameCall (peerBase peerId c device now) &&
      (!isAnsweredElsewhere reason || m.state.phase = .incoming)
  · refine acts_taken hknown H (if_pos hend) rfl ?_
    rw [Bool.and_eq_true, sameCall_iff H hc] at hend
    cases helse : isAnsweredElsewhere reason with
    | false => exact .hungUp hend.1
    | true =>
      rw [helse] at hend
      have hin : m.state.phase = .incoming := by simpa using hend.2
      rw [stageOf_incoming hin (stage_of_call H hend.1).2]
      exact .elsewhere
  · refine acts_ignored hknown H (if_neg hend) ?_
    cases helse : isAnsweredElsewhere reason with
    | true => trivial
    | false =>
      intro hcall
      rw [Bool.and_eq_true, sameCall_iff H hc, helse] at hend
      exact hend ⟨hcall, rfl⟩

end

theorem acts_nothing : Acts peerId device m .hears [.other] (m, []) ↔ Shaped peerId device m.state :=
  ⟨Acts.shaped, fun H => ⟨.ignores 0 trivial, H, fun _ hy => absurd hy not_mem_nil⟩⟩

theorem acts_ping (hknown : Known peerId device) (H : Shaped peerId device m.state)
    (hop : x.op = .ping) : Acts peerId device m .hears [.other] (m.handleSignal peerId x now) := by
  rw [handleSignal, hop]
  dsimp only
  split
  next hcurrent =>
    have hphase : m.state.phase ≠ .idle := fun hidle => by
      rw [H.free hidle] at hcurrent
      cases hcurrent.1
    have H' : Shaped peerId device { m.state with lastHeardAt := now } :=
      ⟨H.free, H.call, H.peer, H.role, H.device, H.caller, H.callee⟩
    obtain ⟨y, hy, hyc, hym⟩ := delivered_current
      (m := { m with state := { m.state with lastHeardAt := now } }) (t := x.t) .pong none
      hknown H' hphase fun _ => rfl
    refine ⟨?_, H', ?_⟩
    · rw [hy, map_singleton, hym]
      exact .ignores 1 trivial
    · rw [hy, forall_mem_singleton]
      exact hyc
  · exact acts_nothing.mpr H

theorem acts_signal (hknown : Known peerId device)
    (H : Shaped peerId device m.state) (hc : x.callId ≠ "") (hdevice : x.fromDevice = device) :
    Acts peerId device m .hears [messageOf (.signal x)] (m.handleSignal peerId x now) := by
  have hother : ∀ {e : Event}, m.state.change e = .kept →
      Acts peerId device m .hears [.other] (m.dispatch e now) :=
    fun h => acts_ignored hknown H h trivial
  obtain ⟨op, c, codec, reason, t, stream, caps, fromDevice⟩ := x
  obtain rfl : fromDevice = device := hdevice
  cases op with
  | ringing | videoOn | videoOff | screenOn | screenOff | pong => exact hother rfl
  | accept => exact acts_accept hknown H hc
  | reject => exact acts_reject hknown H hc
  | busy => exact acts_busy hknown H hc
  | endCall => exact acts_end hknown H hc
  | cancel =>
    have h := acts_cancel hknown H hc reason now
    rw [messageOf]
    simp only [true_and]
    exact h
  | keyframe => exact acts_nothing.mpr H
  | ping => exact acts_ping hknown H rfl

theorem acts_receive {x : CallMessage} (blocked : Bool) (now : Int) (hknown : Known peerId device)
    (H : Shaped peerId device m.state) (hc : x.callId ≠ "") : ∃ why,
    Acts peerId device m why [messageOf x] (m.receive peerId (x.stamped device) blocked now) ∧
      (blocked = false → (∀ o, x = .offer o → isStaleCallOffer o.timestamp now = false) →
        why = .hears) := by
  have hpass : shouldDropBoundMessage m.state.remoteDevice device = false := by
    rw [shouldDropBoundMessage]
    rcases H.device with h | h
    · rw [h]
      rfl
    · rw [h]
      simp
  cases x with
  | offer o =>
    obtain ⟨why, hacts, hwhy⟩ := acts_offer (o := { o with fromDevice := device }) hknown H hc rfl
      blocked now
    refine ⟨why, ?_, fun hb hs => hwhy hb (hs o rfl)⟩
    simp only [CallMessage.stamped, receive, hpass, Bool.false_eq_true, if_false]
    exact hacts
  | signal x =>
    refine ⟨.hears, ?_, fun _ _ => rfl⟩
    simp only [CallMessage.stamped, receive, hpass, Bool.false_eq_true, if_false]
    exact acts_signal (x := { x with fromDevice := device }) hknown H hc rfl

theorem delivered_sendOffer (now : Int) (hknown : Known peerId device) (hpeer : m.state.peerId = some peerId)
    (hcall : m.state.callId = some c) (hc : c ≠ "") :
    ∃ y, delivered peerId device (m.runEffect now .sendOffer) = [y] ∧ y.callId = c ∧
      messageOf y = .offer c m.state.callKeyB64 := by
  have hp : textOrNull (some peerId) = some peerId := textOrNull_of_isText (decide_eq_true hknown.peer)
  have hc' : textOrNull (some c) = some c := textOrNull_of_isText (decide_eq_true hc)
  rw [runEffect, sendOffer, hpeer, hcall, hp, hc']
  refine ⟨.offer {
      callId := c, callKeyB64 := m.state.callKeyB64, codecs := m.state.codecs
      video := m.state.mediaVideo, capabilities := m.localCapabilities, timestamp := some now
      sender := some m.displayName },
    ?_, rfl, rfl⟩
  rw [delivered, filter_cons_of_pos]
  · rfl
  · simp [SentMessage.reaches]

theorem acts_says (stream : Option StreamKind) (x : Option Int)
    (hknown : Known peerId device) (H : Shaped peerId device m.state)
    (hop : op = .ping ∨ SignalOp.isMedia op = true) :
    Acts peerId device m .acts [] (m, if m.state.phase = .active then
      m.sendSignal { op := op, peerId := none, callId := none, stream := stream } x else []) := by
  have hother : ∀ c, opMessage c op = .other := by
    intro c
    rcases hop with rfl | hmedia
    · rfl
    · cases op <;> first | rfl | cases hmedia
  split
  next hactive =>
    obtain ⟨y, hy, hyc, hym⟩ := delivered_current (t := x) op stream hknown H
      (by rw [hactive]; exact nofun) hother
    refine ⟨?_, H, ?_⟩
    · rw [hy, map_singleton, hym]
      exact .talks 1
    · rw [hy, forall_mem_singleton]
      exact hyc
  · exact ⟨.talks 0, H, fun x hx => absurd hx not_mem_nil⟩

end Bluetalk.Calls.PeerCalls
