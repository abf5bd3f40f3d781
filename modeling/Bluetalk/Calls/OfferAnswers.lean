import Bluetalk.Calls.Signalling

/-!
# The answer to an offer

An offer that is well formed, not stale and from a peer that is not blocked is to be answered: it
rings, it meets an outgoing call to the same peer, or it is told `busy`. What stands between is the
filter of a bound call, which goes by the device alone.
-/

open List Option

namespace Bluetalk.Calls.CallSpeaker

open CallState

/-- Exactly one of three. -/
def ExactlyOne (p q r : Prop) : Prop := p ∧ ¬ q ∧ ¬ r ∨ ¬ p ∧ q ∧ ¬ r ∨ ¬ p ∧ ¬ q ∧ r

/-- A well-formed offer of a peer, which is not stale. -/
structure FreshOffer (fromId : String) (msg : OfferMessage) (offer : CallOffer) (now : Int) :
    Prop where
  peer : fromId ≠ ""
  sanitized : sanitizeCallOffer msg = some offer
  device : isNullish msg.fromDevice = true ∨ msg.fromDevice = some (.str "") ∨
    boundedString msg.fromDevice callDeviceKeyMaxLen ≠ ""
  fresh : isStaleCallOffer offer.timestamp now = false

/-- A device after any sequence of events. -/
def after (events : List Event) (localCapabilities : Capabilities) (displayName : String) :
    CallSpeaker :=
  { state := Reducer.final reduceCall createIdleCallState events
    localCapabilities := localCapabilities, displayName := displayName }

def toSender (fromId : String) (offer : CallOffer) (signal : CallSignal) : SentMessage :=
  { peerId := fromId, message := .signal signal, deviceKey := offer.fromDevice }

variable (m : CallSpeaker) (fromId : String) (offer : CallOffer) (now : Int)
  (r : CallSpeaker × List SentMessage)

def sentRinging : SentMessage :=
  toSender fromId offer
    { op := .ringing, callId := offer.callId, capabilities := some m.localCapabilities }

/-- The call of the offer rings. -/
def Ringing : Prop :=
  Named (offerBase fromId offer now) offer.callKeyB64 .incoming .callee offer.fromDevice r.1.state

/-- The offer begins to ring, and `ringing` is sent. -/
def Rings : Prop :=
  m.state.phase = .idle ∧ Ringing fromId offer now r ∧ r.2 = [m.sentRinging fromId offer]

/-- The offer meets an outgoing call to the same peer: this goes on, or makes way. -/
def Glares : Prop :=
  m.state.phase = .outgoing ∧ m.state.peerId = some fromId ∧
    if m.state.losesGlare (offerBase fromId offer now) then
      Ringing fromId offer now r ∧
        r.2 = [toSender fromId offer { op := .cancel, callId := m.state.callId.getD "" },
          m.sentRinging fromId offer]
    else r = (m, [])

/-- The sender is told `busy`, and nothing else happens. -/
def Busies : Prop :=
  r = (m, [toSender fromId offer { op := .busy, callId := offer.callId }])

/-- One `busy`, `ringing` or glare answers the offer. -/
def Answered : Prop :=
  ExactlyOne (Rings m fromId offer now r) (Glares m fromId offer now r) (Busies m fromId offer r)

/-- What the bound device of a call is in a run. -/
structure Bound (s : CallState) : Prop where
  free : s.phase = .idle ∨ s.phase = .outgoing → s.remoteDevice = none
  text : textOrNull s.remoteDevice = s.remoteDevice

variable {m fromId offer now r} {s : CallState} {e : Event} {events : List Event}
  {msg : OfferMessage} {caps : Capabilities} {name : String} {x : Option String} {b : Base}
  {key : String}

theorem textOrNull_textOrNull : textOrNull (textOrNull x) = textOrNull x := by
  rw [textOrNull, isText_textOrNull, textOrNull]
  split
  · rfl
  · rfl

theorem bound_idle : Bound createIdleCallState := ⟨fun _ => rfl, rfl⟩

theorem Bound.of_ringing (h : Named b key .incoming .callee (textOrNull b.fromDevice) s) : Bound s where
  free hphase := by
    rw [h.phase] at hphase
    rcases hphase with hphase | hphase <;> cases hphase
  text := by rw [h.remoteDevice, textOrNull_textOrNull]

theorem Bound.of_active (hphase : s.phase = .active) (hdevice : s.remoteDevice = x)
    (hx : textOrNull x = x) : Bound s where
  free hfree := by
    rw [hphase] at hfree
    rcases hfree with hfree | hfree <;> cases hfree
  text := by rw [hdevice, hx]

theorem Bound.step (H : Bound s) : Bound (s.reduceCall e).1 := by
  cases hc : s.change e with
  | kept =>
    have hkept := reduceCall_kept hc
    refine ⟨?_, ?_⟩
    · rw [hkept.phase, hkept.remoteDevice]
      exact H.free
    · rw [hkept.remoteDevice]
      exact H.text
  | busied =>
    obtain ⟨-, b, key, codecs, ts, video, caps, blocked, -, heq⟩ := reduceCall_busied hc
    rw [heq]
    exact H
  | started =>
    obtain ⟨-, b, key, codecs, video, caps, -, hnamed, -⟩ := reduceCall_started hc
    refine ⟨fun _ => hnamed.remoteDevice, ?_⟩
    rw [hnamed.remoteDevice]
    rfl
  | rang =>
    obtain ⟨-, b, key, codecs, ts, video, caps, blocked, -, hnamed, -⟩ := reduceCall_rang hc
    exact .of_ringing hnamed
  | crossed =>
    obtain ⟨-, b, key, codecs, ts, video, caps, blocked, -, -, -, hnamed, -⟩ :=
      reduceCall_crossed hc
    exact .of_ringing hnamed
  | accepted =>
    obtain ⟨-, -, hactive, -⟩ := reduceCall_accepted hc
    exact .of_active hactive.phase hactive.remoteDevice H.text
  | answered =>
    obtain ⟨-, b, codec, caps, -, -, hactive, -⟩ := reduceCall_answered hc
    refine .of_active hactive.phase hactive.remoteDevice ?_
    split
    next htext => exact textOrNull_of_isText htext
    · exact H.text
  | ended =>
    rw [(reduceCall_ended hc).idle]
    exact bound_idle

theorem bound_after : Bound (after events caps name).state := by
  have hfinal : ∀ {s}, Bound s → Bound (Reducer.final reduceCall s events) := by
    induction events with
    | nil => exact id
    | cons e events ih => exact fun H => ih H.step
  exact hfinal bound_idle

theorem fromDevice_of_sanitized (h : sanitizeCallOffer msg = some offer) :
    offer.fromDevice = textField (boundedString msg.fromDevice callDeviceKeyMaxLen) := by
  rw [sanitizeCallOffer] at h
  simp only [ite_none_left_eq_some, Option.some.injEq] at h
  rw [← h.2]

theorem callId_of_sanitized (h : sanitizeCallOffer msg = some offer) : offer.callId ≠ "" := by
  rw [sanitizeCallOffer] at h
  simp only [ite_none_left_eq_some, Option.some.injEq, Bool.or_eq_true, decide_eq_true_eq,
    not_or] at h
  rw [← h.2]
  exact h.1.1

theorem textOrNull_fromDevice (H : FreshOffer fromId msg offer now) :
    textOrNull offer.fromDevice = offer.fromDevice := by
  rw [fromDevice_of_sanitized H.sanitized, textField]
  split
  · rfl
  next hne => exact textOrNull_of_isText (decide_eq_true hne)

theorem passesDevice_iff (H : FreshOffer fromId msg offer now) (hbound : Bound m.state) :
    m.passesDevice msg.fromDevice = true ↔
      offer.fromDevice = none ∨ m.state.remoteDevice = none ∨
        offer.fromDevice = m.state.remoteDevice := by
  have hoffer : textOrNull offer.fromDevice = offer.fromDevice := textOrNull_fromDevice H
  rw [passesDevice_eq H.device, ← fromDevice_of_sanitized H.sanitized, shouldDropBoundMessage]
  have hbound := hbound.text
  rw [textOrNull] at hoffer hbound
  cases hdevice : offer.fromDevice with
  | none => simp
  | some device =>
    have htext : isText (some device) = true := by
      by_contra hnot
      rw [hdevice, if_neg hnot] at hoffer
      cases hoffer
    cases hremote : m.state.remoteDevice with
    | none => simp
    | some bound =>
      have hbound : isText (some bound) = true := by
        by_contra hnot
        rw [hremote, if_neg hnot] at hbound
        cases hbound
      simp [htext, hbound]

theorem change_fresh (H : FreshOffer fromId msg offer now) :
    m.state.change (offerEvent fromId offer false now) =
      if m.state.phase = .outgoing ∧ m.state.peerId = some fromId then
        if m.state.losesGlare (offerBase fromId offer now) then .crossed else .kept
      else if m.state.phase = .idle then .rang else .busied := by
  rw [change_offerEvent, if_neg (by simp [H.fresh])]

theorem isText_fromId (H : FreshOffer fromId msg offer now) : isText (some fromId) = true :=
  decide_eq_true H.peer

theorem isText_callId (H : FreshOffer fromId msg offer now) : isText (some offer.callId) = true :=
  decide_eq_true (callId_of_sanitized H.sanitized)

theorem runEffect_ringing (H : FreshOffer fromId msg offer now)
    (hdevice : m.state.remoteDevice = offer.fromDevice) :
    m.runEffect now (ringingSignal (offerBase fromId offer now)) = [m.sentRinging fromId offer] := by
  have htext := textOrNull_fromDevice H
  rw [ringingSignal, signalEffect, runEffect,
    sendSignal_eq rfl rfl (isText_fromId H) (isText_callId H)]
  simp only [hdevice, offerBase, htext, ite_self]
  rfl

theorem runEffect_cancel (H : FreshOffer fromId msg offer now) (hpeer : s.peerId = some fromId)
    (hcall : isText s.callId = true) (hfree : s.remoteDevice = none)
    (hdevice : m.state.remoteDevice = offer.fromDevice) :
    m.runEffect now (s.signalEffect .cancel) =
      [toSender fromId offer { op := .cancel, callId := s.callId.getD "" }] := by
  obtain ⟨callId, hcallId⟩ : ∃ callId, s.callId = some callId := by
    cases hc : s.callId with
    | none => rw [hc] at hcall; cases hcall
    | some callId => exact ⟨callId, rfl⟩
  have hnone : textOrNull (none : Option String) = none := rfl
  rw [signalEffect, runEffect, sendSignal_eq hpeer hcallId (isText_fromId H) (hcallId ▸ hcall)]
  simp [hfree, hcallId, hdevice, hnone, textOrNull_fromDevice H, toSender]

theorem runEffect_busy (H : FreshOffer fromId msg offer now) (hbound : Bound m.state) :
    m.runEffect now (m.state.busySignal (offerBase fromId offer now)) =
      [{ toSender fromId offer { op := .busy, callId := offer.callId } with
          deviceKey := offer.fromDevice.or m.state.remoteDevice }] := by
  rw [busySignal, runEffect, sendSignal_eq rfl rfl (isText_fromId H) (isText_callId H)]
  simp only [offerBase, textOrNull_fromDevice H]
  cases hdevice : offer.fromDevice with
  | none =>
    have := hbound.text
    simp [toSender, this]
  | some device =>
    have := textOrNull_fromDevice H
    rw [hdevice] at this
    simp [toSender, this]

theorem sent_handleOffer : (m.handleOffer fromId offer false now).2 =
    (speech (m.state.reduceCall (offerEvent fromId offer false now)).2).flatMap
      ((m.handleOffer fromId offer false now).1.runEffect now) := flatMap_runEffect

theorem ringing_of_named {codecs : List String} {ts : Option Int}
    {video blocked : Bool} {capabilities : Capabilities} (H : FreshOffer fromId msg offer now)
    (heq : offerEvent fromId offer false now =
      .remoteOffer b key codecs ts video capabilities blocked)
    (hnamed : Named b key .incoming .callee (textOrNull b.fromDevice) r.1.state) :
    b = offerBase fromId offer now ∧ Ringing fromId offer now r := by
  cases heq
  rw [offerBase_fromDevice, textOrNull_fromDevice H] at hnamed
  exact ⟨rfl, hnamed⟩

theorem rings_of_idle (H : FreshOffer fromId msg offer now) (hidle : m.state.phase = .idle) :
    Rings m fromId offer now (m.handleOffer fromId offer false now) := by
  have hout : ¬ (m.state.phase = .outgoing ∧ m.state.peerId = some fromId) :=
    fun h => nomatch hidle.symm.trans h.1
  have hchange := change_fresh (m := m) H
  rw [if_neg hout, if_pos hidle] at hchange
  obtain ⟨-, b, key, codecs, ts, video, caps, blocked, heq, hnamed, -, hspeech⟩ :=
    reduceCall_rang hchange
  obtain ⟨rfl, hringing⟩ := ringing_of_named (r := m.handleOffer fromId offer false now) H heq hnamed
  refine ⟨hidle, hringing, ?_⟩
  rw [sent_handleOffer, hspeech, flatMap_singleton]
  exact runEffect_ringing H hringing.remoteDevice

theorem glares_of_outgoing (H : FreshOffer fromId msg offer now) (hbound : Bound m.state)
    (hout : m.state.phase = .outgoing) (hpeer : m.state.peerId = some fromId) :
    Glares m fromId offer now (m.handleOffer fromId offer false now) := by
  have hchange := change_fresh (m := m) H
  rw [if_pos ⟨hout, hpeer⟩] at hchange
  refine ⟨hout, hpeer, ?_⟩
  split at hchange
  next hlose =>
    rw [if_pos hlose]
    obtain ⟨-, b, key, codecs, ts, video, caps, blocked, heq, -, -, hnamed, -, hspeech⟩ :=
      reduceCall_crossed hchange
    obtain ⟨rfl, hringing⟩ :=
      ringing_of_named (r := m.handleOffer fromId offer false now) H heq hnamed
    have hcall : isText m.state.callId = true := by
      rw [losesGlare, Bool.and_eq_true, Bool.and_eq_true] at hlose
      exact hlose.1.2
    refine ⟨hringing, ?_⟩
    rw [sent_handleOffer, hspeech, flatMap_cons, flatMap_singleton,
      runEffect_cancel H hpeer hcall (hbound.free (.inr hout)) hringing.remoteDevice,
      runEffect_ringing H hringing.remoteDevice]
    rfl
  next hwin =>
  rw [if_neg hwin, handleOffer, dispatch]
  have hkept : m.state.reduceCall (offerEvent fromId offer false now) = (m.state, []) := by
    rw [offerEvent] at hchange ⊢
    rw [reduceCall, reduceRemoteOffer_eq, hchange]
    rfl
  rw [hkept]
  rfl

/-- In any other state the offer is told `busy`, through its device or that of the call. -/
theorem handleOffer_busy (H : FreshOffer fromId msg offer now) (hbound : Bound m.state)
    (hphase : m.state.phase ≠ .idle)
    (hother : ¬ (m.state.phase = .outgoing ∧ m.state.peerId = some fromId)) :
    m.handleOffer fromId offer false now =
      (m, [{ toSender fromId offer { op := .busy, callId := offer.callId } with
        deviceKey := offer.fromDevice.or m.state.remoteDevice }]) := by
  have hchange := change_fresh (m := m) H
  rw [if_neg hother, if_neg hphase] at hchange
  obtain ⟨-, b, key, codecs, ts, video, caps, blocked, heq, hbusy⟩ := reduceCall_busied hchange
  cases heq
  rw [handleOffer, dispatch, hbusy]
  exact congrArg (Prod.mk m) ((flatMap_singleton ..).trans (runEffect_busy H hbound))

theorem Rings.not_busies (h : Rings m fromId offer now r) : ¬ Busies m fromId offer r := by
  intro hbusy
  have hsent := h.2.2.symm.trans (congrArg Prod.snd hbusy)
  simp [sentRinging, toSender] at hsent

theorem Glares.not_busies (h : Glares m fromId offer now r) : ¬ Busies m fromId offer r := by
  intro hbusy
  have hsent := congrArg Prod.snd hbusy
  obtain ⟨-, -, h⟩ := h
  split at h
  · rw [h.2] at hsent
    simp at hsent
  · rw [h] at hsent
    simp at hsent

theorem answered_idle (H : FreshOffer fromId msg offer now) (hidle : m.state.phase = .idle) :
    Answered m fromId offer now (m.handleOffer fromId offer false now) :=
  have h := rings_of_idle H hidle
  .inl ⟨h, fun hglare => (nomatch hidle.symm.trans hglare.1), h.not_busies⟩

theorem answered_outgoing (H : FreshOffer fromId msg offer now) (hbound : Bound m.state)
    (hout : m.state.phase = .outgoing) (hpeer : m.state.peerId = some fromId) :
    Answered m fromId offer now (m.handleOffer fromId offer false now) :=
  have h := glares_of_outgoing H hbound hout hpeer
  .inr (.inl ⟨fun hrings => (nomatch hout.symm.trans hrings.1), h, h.not_busies⟩)

theorem answered_iff_busies (hphase : m.state.phase ≠ .idle)
    (hother : ¬ (m.state.phase = .outgoing ∧ m.state.peerId = some fromId)) :
    Answered m fromId offer now r ↔ Busies m fromId offer r := by
  have hrings : ¬ Rings m fromId offer now r := fun h => hphase h.1
  have hglares : ¬ Glares m fromId offer now r := fun h => hother ⟨h.1, h.2.1⟩
  simp [Answered, ExactlyOne, hrings, hglares]

theorem answered_of_passes (H : FreshOffer fromId msg offer now) (hbound : Bound m.state) :
    Answered m fromId offer now (m.handleOffer fromId offer false now) ↔
      offer.fromDevice.or m.state.remoteDevice = offer.fromDevice := by
  by_cases hidle : m.state.phase = .idle
  · rw [hbound.free (.inl hidle), or_none]
    exact iff_of_true (answered_idle H hidle) rfl
  by_cases hglare : m.state.phase = .outgoing ∧ m.state.peerId = some fromId
  · rw [hbound.free (.inr hglare.1), or_none]
    exact iff_of_true (answered_outgoing H hbound hglare.1 hglare.2) rfl
  rw [answered_iff_busies hidle hglare, handleOffer_busy H hbound hidle hglare, Busies]
  simp [toSender]

theorem not_answered_of_dropped (hbound : Bound m.state) (hdevice : m.state.remoteDevice ≠ none) :
    ¬ Answered m fromId offer now (m, []) := by
  have hfree := fun h => hdevice (hbound.free h)
  rw [answered_iff_busies (fun h => hfree (.inl h)) fun h => hfree (.inr h.1), Busies]
  simp

/-- A fresh offer is answered exactly in a call that is not bound, or bound to the very device that
the offer names. -/
theorem answered_iff (events : List Event) (caps : Capabilities) (name : String)
    (H : FreshOffer fromId msg offer now) :
    Answered (after events caps name) fromId offer now
        ((after events caps name).handleInboundOffer fromId msg false now) ↔
      (after events caps name).state.remoteDevice = none ∨
        offer.fromDevice = (after events caps name).state.remoteDevice := by
  have hbound : Bound (after events caps name).state := bound_after
  have hpasses := passesDevice_iff H hbound
  generalize after events caps name = m at hbound hpasses ⊢
  rw [handleInboundOffer, if_neg H.peer, H.sanitized]
  cases hp : m.passesDevice msg.fromDevice with
  | false =>
    rw [hp] at hpasses
    simp only [Bool.false_eq_true, false_iff, not_or] at hpasses
    exact iff_of_false (not_answered_of_dropped hbound hpasses.2.1)
      fun h => h.elim hpasses.2.1 hpasses.2.2
  | true =>
    rw [hp] at hpasses
    simp only [true_iff] at hpasses
    refine (answered_of_passes H hbound).trans ?_
    rcases hpasses with hnone | hfree | hsame
    · simp [hnone, eq_comm]
    · simp [hfree]
    · rw [hsame]
      simp

/-- The phone of `p2` calls. -/
def sampleOffer : OfferMessage :=
  { callId := some (.str "c2"), callKeyB64 := some (.str "k2"), timestamp := some (.num 9)
    fromDevice := some (.str "phone-2") }

def sampleCallOffer : CallOffer :=
  { callId := "c2", callKeyB64 := "k2", timestamp := some 9, fromDevice := some "phone-2" }

theorem fresh_sampleOffer : FreshOffer "p2" sampleOffer sampleCallOffer 10 where
  peer := by decide
  sanitized := by decide +kernel
  device := .inr (.inr (by decide +kernel))
  fresh := by decide

/-- A call with a device of `p1` that is active. -/
def boundCall : List Event :=
  [.remoteOffer { peerId := some "p1", callId := some "c1", fromDevice := some "phone-1", now := 1 }
      "k1" [] none false {} false,
    .localAccept { now := 2 } none false none none]

/-- In idle the offer rings. -/
theorem answered_iff_sample : Answered (after [] {} "") "p2" sampleCallOffer 10
    ((after [] {} "").handleInboundOffer "p2" sampleOffer false 10) :=
  (answered_iff [] {} "" fresh_sampleOffer).mpr (.inl rfl)

/-- In a call that is bound to a device of `p1`, the offer of `p2` has no answer. -/
theorem answered_fails_bound : ∃ events fromId msg offer now, FreshOffer fromId msg offer now ∧
    ¬ Answered (after events {} "") fromId offer now
      ((after events {} "").handleInboundOffer fromId msg false now) := by
  refine ⟨boundCall, "p2", sampleOffer, sampleCallOffer, 10, fresh_sampleOffer, ?_⟩
  have hdropped : (after boundCall {} "").passesDevice sampleOffer.fromDevice = false := by
    decide +kernel
  have hnothing : (after boundCall {} "").handleInboundOffer "p2" sampleOffer false 10 =
      (after boundCall {} "", []) := by
    rfl
  exact not_answered_of_dropped bound_after (by decide +kernel)

end Bluetalk.Calls.CallSpeaker
