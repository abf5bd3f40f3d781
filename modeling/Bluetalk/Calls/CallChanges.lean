import Bluetalk.Calls.CallState

/-!
# What an event makes of a call

`change` says of a state and an event which of eight things the state machine does: it begins a
call, rings, turns from a call to that of a glare, accepts, hears that its call was accepted, is
busy, ends its call, or keeps it. For each of them there is one lemma about the next state and about
what is sent, logged and stopped, and what follows goes through these lemmas.
-/

open List

namespace Bluetalk.Calls.CallState

inductive Change
  | kept
  | busied
  | started
  | rang
  | crossed
  | accepted
  | answered
  | ended

/-- The glare is lost, so that the offer replaces the outgoing call. -/
def losesGlare (s : CallState) (b : Base) : Bool :=
  isText b.callId && isText s.callId && jsLt (b.callId.getD "") (s.callId.getD "")

def change (s : CallState) : Event → Change
  | .localStart .. => if s.phase = .idle then .started else .kept
  | .remoteOffer b _ _ timestamp _ _ blocked =>
    if blocked || isStaleCallOffer timestamp b.now then .kept
    else if s.phase = .outgoing ∧ b.peerId = s.peerId then
      if s.losesGlare b then .crossed else .kept
    else if s.phase = .idle then .rang else .busied
  | .localAccept .. => if s.phase = .incoming then .accepted else .kept
  | .remoteAccept b .. => if s.sameCall b && s.phase = .outgoing then .answered else .kept
  | .localReject _ => if s.phase = .incoming then .ended else .kept
  | .localCancel _ => if s.phase = .outgoing then .ended else .kept
  | .localEnd _ => if s.phase = .active then .ended else .kept
  | .remoteReject b | .offerFailed b =>
    if s.sameCall b && s.phase = .outgoing then .ended else .kept
  | .remoteBusy b =>
    if s.sameCall b && s.phase = .outgoing &&
        (applyRemoteBusy s.ringingDevices s.busyDevices b.fromDevice).endBusy then .ended
    else .kept
  | .remoteCancel b reason =>
    if s.sameCall b && (!isAnsweredElsewhere reason || s.phase = .incoming) then .ended else .kept
  | .remoteEnd b => if s.sameCall b then .ended else .kept
  | .ringTimeout b =>
    if s.sameCall b && (s.phase = .outgoing || s.phase = .incoming) then .ended else .kept
  | .connectionLost b => if s.sameCall b && s.phase = .active then .ended else .kept
  | .remoteRinging .. | .toggleMute | .localMedia .. | .remoteMedia .. | .localKeyframe .. |
    .pong .. | .heard _ | .unknown => .kept

/-- What an event that ends a call says to the other side. -/
def farewell (s : CallState) : Event → Option SignalOp
  | .localReject _ => some .reject
  | .localCancel _ => some .cancel
  | .localEnd _ | .connectionLost _ => some .endCall
  | .ringTimeout _ => if s.phase = .outgoing then some .cancel else none
  | _ => none

/-- The effects that send something. -/
def Effect.speaks : Effect → Bool
  | .sendOffer | .sendSignal _ | .cancelOtherDevices .. => true
  | _ => false

def speech (effects : List Effect) : List Effect := effects.filter Effect.speaks

def Effect.logged : Effect → Option CallLogEntry
  | .callLog entry => some entry
  | _ => none

def logs (effects : List Effect) : List CallLogEntry := effects.filterMap Effect.logged

def SignalOp.isMedia : SignalOp → Bool
  | .videoOn | .videoOff | .screenOn | .screenOff | .keyframe => true
  | _ => false

def Event.isAnsweredElsewhere : Event → Bool
  | .remoteCancel _ reason => Calls.isAnsweredElsewhere reason
  | _ => false

/-- The call is the same, and the phase. -/
structure Kept (s s' : CallState) (effects : List Effect) : Prop where
  phase : s'.phase = s.phase
  callId : s'.callId = s.callId
  peerId : s'.peerId = s.peerId
  role : s'.role = s.role
  callKeyB64 : s'.callKeyB64 = s.callKeyB64
  remoteDevice : s'.remoteDevice = s.remoteDevice
  logs : logs effects = []
  speech : ∀ x ∈ speech effects, s.phase = .active ∧ ∃ op stream, SignalOp.isMedia op = true ∧
    x = s.signalEffect op none stream

/-- The state is that of the call that an event names. -/
structure Named (b : Base) (key : String) (phase : CallPhase) (role : Role)
    (device : Option String) (s : CallState) : Prop where
  phase : s.phase = phase
  callId : s.callId = b.callId
  peerId : s.peerId = b.peerId
  role : s.role = some role
  callKeyB64 : s.callKeyB64 = key
  remoteDevice : s.remoteDevice = device

/-- The call becomes active. -/
structure Activated (s s' : CallState) (device : Option String) (effects : List Effect) :
    Prop where
  phase : s'.phase = .active
  callId : s'.callId = s.callId
  peerId : s'.peerId = s.peerId
  role : s'.role = s.role
  callKeyB64 : s'.callKeyB64 = s.callKeyB64
  remoteDevice : s'.remoteDevice = device
  logs : logs effects = []

/-- The call is over. -/
structure Ended (s : CallState) (e : Event) (s' : CallState) (effects : List Effect) : Prop where
  phase : s.phase ≠ .idle
  idle : s' = createIdleCallState
  clears : Effect.clearTimers ∈ effects
  stops : s.phase = .active → Effect.stopMedia ∈ effects
  logs : (logs effects).map (fun entry => (entry.peerId, entry.outgoing)) =
    if e.isAnsweredElsewhere then [] else [(s.peerId, s.isCaller)]
  speech : speech effects = (s.farewell e).toList.map fun op => s.signalEffect op

/-- The signal `ringing` that answers an offer. -/
def ringingSignal (b : Base) : Effect :=
  signalEffect
    { peerId := b.peerId, callId := b.callId, remoteDevice := textOrNull b.fromDevice } .ringing

variable {s : CallState} {e : Event} {b : Base} {p : Prop}

theorem Kept.refl (s : CallState) : Kept s s [] :=
  ⟨rfl, rfl, rfl, rfl, rfl, rfl, rfl, fun _ h => absurd h not_mem_nil⟩

theorem sameCall_phase (h : s.sameCall b) : s.phase ≠ .idle := by
  rw [sameCall] at h
  intro hidle
  rw [if_pos hidle] at h
  exact Bool.false_ne_true h

theorem reduceGlare_eq {incoming : CallState × List Effect} :
    s.reduceGlare b incoming =
      if s.losesGlare b then
        (incoming.1, [s.signalEffect .cancel, .stopRingtone] ++ incoming.2)
      else s.ignore := by
  have htext : ∀ x : Option String, isText x = decide (x.getD "" ≠ "") := by
    intro x
    cases x <;> simp [isText]
  rw [reduceGlare, losesGlare, htext, htext]
  by_cases hin : b.callId.getD "" = ""
  · simp [hin]
  by_cases hout : s.callId.getD "" = ""
  · simp [hout]
  by_cases heq : b.callId.getD "" = s.callId.getD ""
  · simp [heq, jsLt_irrefl]
  cases hlt : jsLt (s.callId.getD "") (b.callId.getD "") with
  | true => simp [hin, hout, heq, jsLt_asymm hlt]
  | false => simp [hin, hout, heq, jsLt_of_not (Ne.symm heq) hlt]

section

variable {b : Base} {key : String} {codecs : List String} {timestamp : Option Int} {video : Bool}
  {capabilities : Capabilities} {blocked : Bool}

theorem reduceRemoteOffer_eq :
    s.reduceRemoteOffer b key codecs timestamp video capabilities blocked =
      match s.change (.remoteOffer b key codecs timestamp video capabilities blocked) with
      | .rang => beginIncoming b key codecs video capabilities
      | .crossed =>
        let incoming := beginIncoming b key codecs video capabilities
        (incoming.1, [s.signalEffect .cancel, .stopRingtone] ++ incoming.2)
      | .busied => (s, [s.busySignal b])
      | _ => s.ignore := by
  rw [reduceRemoteOffer, change, reduceGlare_eq]
  cases blocked with
  | true => rfl
  | false =>
    cases isStaleCallOffer timestamp b.now with
    | true => rfl
    | false =>
      simp only [Bool.or_self, Bool.false_eq_true, if_false, ne_eq, ite_not]
      split
      · split <;> rfl
      · split <;> rfl

theorem change_remoteOffer {x : Change}
    (h : s.change (.remoteOffer b key codecs timestamp video capabilities blocked) = x) :
    x = .kept ∨ x = .rang ∧ s.phase = .idle ∨ x = .busied ∧ s.phase ≠ .idle ∨
      x = .crossed ∧ s.phase = .outgoing ∧ b.peerId = s.peerId ∧ s.losesGlare b = true := by
  rw [change] at h
  split at h
  · exact .inl h.symm
  split at h
  next hglare =>
    split at h
    next hlose => exact .inr (.inr (.inr ⟨h.symm, hglare.1, hglare.2, hlose⟩))
    · exact .inl h.symm
  · split at h
    next hidle => exact .inr (.inl ⟨h.symm, hidle⟩)
    next hidle => exact .inr (.inr (.inl ⟨h.symm, hidle⟩))

theorem named_beginIncoming :
    Named b key .incoming .callee (textOrNull b.fromDevice)
      (beginIncoming b key codecs video capabilities).1 :=
  ⟨rfl, rfl, rfl, rfl, rfl, rfl⟩

end

theorem ite_ended [Decidable p] :
    (if p then Change.ended else .kept) = .kept ↔ ¬ p := by
  split <;> simp [*]

theorem kept_silent {s' : CallState} (hphase : s'.phase = s.phase) (hcallId : s'.callId = s.callId)
    (hpeerId : s'.peerId = s.peerId) (hrole : s'.role = s.role)
    (hkey : s'.callKeyB64 = s.callKeyB64) (hdevice : s'.remoteDevice = s.remoteDevice) :
    Kept s s' [] :=
  ⟨hphase, hcallId, hpeerId, hrole, hkey, hdevice, rfl, fun _ h => absurd h not_mem_nil⟩

theorem reduceCall_kept (h : s.change e = .kept) :
    Kept s (s.reduceCall e).1 (s.reduceCall e).2 := by
  cases e with
  | localStart b key codecs video caps =>
    rw [change] at h
    split at h
    · cases h
    next hp =>
    rw [reduceCall, reduceLocalStart, if_pos hp]
    exact .refl s
  | remoteOffer b key codecs ts video caps blocked =>
    rw [reduceCall, reduceRemoteOffer_eq, h]
    exact .refl s
  | localAccept b codec camera codecs caps =>
    rw [change] at h
    split at h
    · cases h
    next hp =>
    rw [reduceCall, reduceLocalAccept, if_pos hp]
    exact .refl s
  | remoteAccept b codec caps =>
    rw [change] at h
    split at h
    · cases h
    next hp =>
    rw [reduceCall, reduceRemoteAccept, if_pos (by simpa [or_iff_not_imp_left] using hp)]
    exact .refl s
  | localReject b | localCancel b | localEnd b =>
    rw [change, ite_ended] at h
    simp only [reduceCall, reduceLocalReject, reduceLocalCancel, reduceLocalEnd, ne_eq]
    rw [if_pos h]
    exact .refl s
  | remoteReject b | offerFailed b | connectionLost b =>
    rw [change, ite_ended] at h
    simp only [reduceCall, reduceHangup, reduceOfferFailed, reduceConnectionLost]
    rw [if_pos (by simpa [or_iff_not_imp_left, imp_not_comm] using h)]
    exact .refl s
  | remoteCancel b reason =>
    rw [change, ite_ended] at h
    rw [reduceCall, reduceRemoteCancel]
    cases hsame : s.sameCall b
    · exact .refl s
    simp only [hsame, Bool.true_and, Bool.or_eq_true, Bool.not_eq_true', not_or,
      Bool.not_eq_false, decide_eq_true_eq] at h
    simp only [h.1, h.2, Bool.not_true, Bool.false_eq_true, if_true, if_false]
    exact .refl s
  | remoteEnd b =>
    rw [change, ite_ended] at h
    rw [reduceCall, reduceRemoteEnd, if_pos (by simpa using h)]
    exact .refl s
  | remoteBusy b =>
    rw [change, ite_ended] at h
    rw [reduceCall, reduceRemoteBusy]
    split
    · exact .refl s
    next hp =>
    have hend : (applyRemoteBusy s.ringingDevices s.busyDevices b.fromDevice).endBusy = false := by
      simp_all
    simp only [hend, Bool.not_false, if_true]
    exact kept_silent rfl rfl rfl rfl rfl rfl
  | ringTimeout b =>
    rw [change, ite_ended] at h
    simp only [Bool.and_eq_true, Bool.or_eq_true, decide_eq_true_eq, not_and, not_or] at h
    rw [reduceCall, reduceRingTimeout, if_neg, if_neg]
    · exact .refl s
    · intro hp
      simp only [Bool.and_eq_true, decide_eq_true_eq] at hp
      exact (h hp.2).2 hp.1
    · intro hp
      simp only [Bool.and_eq_true, decide_eq_true_eq] at hp
      exact (h hp.2).1 hp.1
  | remoteRinging b caps =>
    rw [reduceCall, reduceRemoteRinging]
    split
    · exact .refl s
    · exact kept_silent rfl rfl rfl rfl rfl rfl
  | toggleMute =>
    rw [reduceCall, reduceToggleMute]
    split
    · exact ⟨rfl, rfl, rfl, rfl, rfl, rfl, rfl, fun _ h => absurd h not_mem_nil⟩
    · exact .refl s
  | localMedia kind b on =>
    rw [reduceCall, reduceLocalMediaFlag]
    split
    · exact .refl s
    next hactive =>
    split
    · exact .refl s
    split
    · exact .refl s
    have hspeech : ∀ x ∈ speech [s.signalEffect (mediaOp kind on) none (some kind),
        if on then .startVideo kind else .stopVideo kind],
        x = s.signalEffect (mediaOp kind on) none (some kind) := by
      intro x hx
      cases on <;> exact mem_singleton.mp hx
    have hmedia : SignalOp.isMedia (mediaOp kind on) = true := by
      cases kind <;> cases on <;> rfl
    refine ⟨?_, ?_, ?_, ?_, ?_, ?_, ?_, fun x hx => ⟨not_not.mp hactive, _, _, hmedia, hspeech x hx⟩⟩
    · cases kind <;> rfl
    · cases kind <;> rfl
    · cases kind <;> rfl
    · cases kind <;> rfl
    · cases kind <;> rfl
    · cases kind <;> rfl
    · cases on <;> rfl
  | remoteMedia kind b on =>
    rw [reduceCall, reduceRemoteMediaFlag]
    split
    · exact .refl s
    split
    · exact .refl s
    · cases kind <;> exact kept_silent rfl rfl rfl rfl rfl rfl
  | localKeyframe b stream =>
    rw [reduceCall, reduceLocalKeyframe]
    split
    · exact .refl s
    next hactive =>
    refine ⟨rfl, rfl, rfl, rfl, rfl, rfl, rfl, fun x hx => ?_⟩
    obtain rfl : x = _ := mem_singleton.mp hx
    exact ⟨not_not.mp hactive, .keyframe, some stream, rfl, rfl⟩
  | pong b t =>
    simp only [reduceCall, reducePong]
    split
    · exact .refl s
    · exact kept_silent rfl rfl rfl rfl rfl rfl
  | heard b =>
    rw [reduceCall, reduceHeard]
    split
    · exact kept_silent rfl rfl rfl rfl rfl rfl
    · exact .refl s
  | unknown => exact .refl s

/-- What an event makes of a call, unless it keeps it. -/
def Event.mayMake : Event → List Change
  | .localStart .. => [.started]
  | .remoteOffer .. => [.rang, .crossed, .busied]
  | .localAccept .. => [.accepted]
  | .remoteAccept .. => [.answered]
  | .localReject _ | .localCancel _ | .localEnd _ | .remoteReject _ | .offerFailed _ |
    .remoteBusy _ | .remoteCancel .. | .remoteEnd _ | .ringTimeout _ | .connectionLost _ => [.ended]
  | .remoteRinging .. | .toggleMute | .localMedia .. | .remoteMedia .. | .localKeyframe .. |
    .pong .. | .heard _ | .unknown => []

theorem change_mem (h : s.change e ≠ .kept) : s.change e ∈ e.mayMake := by
  cases e with
  | remoteOffer b key codecs ts video caps blocked =>
    rcases change_remoteOffer (s := s) (x := s.change _) rfl with hx | hx | hx | hx
    · exact absurd hx h
    · rw [hx.1]; simp [Event.mayMake]
    · rw [hx.1]; simp [Event.mayMake]
    · rw [hx.1]; simp [Event.mayMake]
  | remoteRinging | toggleMute | localMedia | remoteMedia | localKeyframe | pong | heard |
    unknown => exact absurd rfl h
  | _ =>
    rw [change] at h ⊢
    split at h
    next hp => simp only [if_pos hp, Event.mayMake, mem_singleton]
    · exact absurd rfl h

theorem ite_eq_ended [Decidable p] :
    (if p then Change.ended else .kept) = .ended ↔ p := by
  split <;> simp [*]

theorem ended_givenUp (hphase : s.phase ≠ .idle) (he : e.isAnsweredElsewhere = false)
    (hfarewell : s.farewell e = none) : Ended s e (s.givenUp b).1 (s.givenUp b).2 := by
  have hspeech : (s.farewell e).toList.map (fun op => s.signalEffect op) = [] := by
    rw [hfarewell]
    rfl
  have hlogs : (if e.isAnsweredElsewhere then [] else [(s.peerId, s.isCaller)]) =
      [(s.peerId, s.isCaller)] := by
    rw [he]
    rfl
  cases hp : s.phase with
  | idle => exact absurd hp hphase
  | outgoing | incoming =>
    simp only [givenUp, hp]
    exact ⟨hphase, rfl, by simp [idleWith], fun h => absurd (hp.symm.trans h) nofun,
      hlogs.symm ▸ rfl, by rw [hspeech]; rfl⟩
  | active =>
    simp only [givenUp, hp]
    exact ⟨hphase, rfl, by simp [idleWith], fun _ => by simp [idleWith], hlogs.symm ▸ rfl,
      by rw [hspeech]; rfl⟩

theorem reduceCall_ended (h : s.change e = .ended) :
    Ended s e (s.reduceCall e).1 (s.reduceCall e).2 := by
  have hmem : Change.ended ∈ e.mayMake := h ▸ change_mem (h ▸ nofun)
  cases e with
  | localStart | localAccept | remoteAccept | remoteOffer => simp [Event.mayMake] at hmem
  | localReject b =>
    rw [change, ite_eq_ended] at h
    rw [reduceCall, reduceLocalReject, if_neg (not_not.mpr h)]
    exact ⟨by rw [h]; exact nofun, rfl, by simp [idleWith],
      fun hactive => absurd (h.symm.trans hactive) nofun, rfl, rfl⟩
  | localCancel b =>
    rw [change, ite_eq_ended] at h
    rw [reduceCall, reduceLocalCancel, if_neg (not_not.mpr h)]
    exact ⟨by rw [h]; exact nofun, rfl, by simp [idleWith],
      fun hactive => absurd (h.symm.trans hactive) nofun, rfl, rfl⟩
  | localEnd b =>
    rw [change, ite_eq_ended] at h
    rw [reduceCall, reduceLocalEnd, if_neg (not_not.mpr h)]
    exact ⟨by rw [h]; exact nofun, rfl, by simp [idleWith], fun _ => by simp [idleWith], rfl, rfl⟩
  | remoteReject b =>
    rw [change, ite_eq_ended, Bool.and_eq_true, decide_eq_true_eq] at h
    rw [reduceCall, reduceHangup, if_neg (by simp [h.1, h.2])]
    exact ⟨by rw [h.2]; exact nofun, rfl, by simp [idleWith],
      fun hactive => absurd (h.2.symm.trans hactive) nofun, rfl, rfl⟩
  | offerFailed b =>
    rw [change, ite_eq_ended, Bool.and_eq_true, decide_eq_true_eq] at h
    rw [reduceCall, reduceOfferFailed, if_neg (by simp [h.1, h.2])]
    exact ⟨by rw [h.2]; exact nofun, rfl, by simp [idleWith],
      fun hactive => absurd (h.2.symm.trans hactive) nofun, rfl, rfl⟩
  | remoteBusy b =>
    rw [change, ite_eq_ended, Bool.and_eq_true, Bool.and_eq_true, decide_eq_true_eq] at h
    rw [reduceCall, reduceRemoteBusy, if_neg (by simp [h.1.1, h.1.2])]
    simp only [h.2, Bool.not_true, Bool.false_eq_true, if_false]
    exact ⟨by rw [h.1.2]; exact nofun, rfl, by simp [idleWith],
      fun hactive => absurd (h.1.2.symm.trans hactive) nofun, rfl, rfl⟩
  | remoteCancel b reason =>
    rw [change, ite_eq_ended, Bool.and_eq_true, Bool.or_eq_true, Bool.not_eq_true',
      decide_eq_true_eq] at h
    obtain ⟨hsame, hreason⟩ := h
    simp only [reduceCall, reduceRemoteCancel, hsame, Bool.not_true, Bool.false_eq_true, if_false]
    cases helse : Calls.isAnsweredElsewhere reason with
    | false =>
      simp only [Bool.false_eq_true, if_false]
      exact ended_givenUp (sameCall_phase hsame) helse rfl
    | true =>
      have hin : s.phase = .incoming := hreason.resolve_left (by simp [helse])
      simp only [if_true, hin]
      refine ⟨sameCall_phase hsame, rfl, by simp [idleWith],
        fun hactive => absurd (hin.symm.trans hactive) nofun, ?_, rfl⟩
      rw [if_pos (show (Event.remoteCancel b reason).isAnsweredElsewhere = true from helse)]
      rfl
  | remoteEnd b =>
    rw [change, ite_eq_ended] at h
    rw [reduceCall, reduceRemoteEnd, if_neg (by simp [h])]
    exact ended_givenUp (sameCall_phase h) rfl rfl
  | ringTimeout b =>
    rw [change, ite_eq_ended, Bool.and_eq_true, Bool.or_eq_true, decide_eq_true_eq,
      decide_eq_true_eq] at h
    obtain ⟨hsame, hphase⟩ := h
    rw [reduceCall, reduceRingTimeout]
    rcases hphase with hout | hin
    · rw [if_pos (by simp [hout, hsame])]
      refine ⟨sameCall_phase hsame, rfl, by simp [idleWith],
        fun hactive => absurd (hout.symm.trans hactive) nofun, rfl, ?_⟩
      rw [farewell, if_pos hout]
      rfl
    have hnot : ¬ s.phase = .outgoing := fun h => absurd (hin.symm.trans h) nofun
    rw [if_neg (by simp [hnot]), if_pos (by simp [hin, hsame])]
    refine ⟨sameCall_phase hsame, rfl, by simp [idleWith],
      fun hactive => absurd (hin.symm.trans hactive) nofun, rfl, ?_⟩
    rw [farewell, if_neg hnot]
    rfl
  | connectionLost b =>
    rw [change, ite_eq_ended, Bool.and_eq_true, decide_eq_true_eq] at h
    rw [reduceCall, reduceConnectionLost, if_neg (by simp [h.1, h.2])]
    exact ⟨by rw [h.2]; exact nofun, rfl, by simp [idleWith], fun _ => by simp [idleWith], rfl, rfl⟩
  | remoteRinging | toggleMute | localMedia | remoteMedia | localKeyframe | pong | heard |
    unknown => cases h

theorem reduceCall_started (h : s.change e = .started) :
    s.phase = .idle ∧ ∃ b key codecs video capabilities,
      e = .localStart b key codecs video capabilities ∧
      Named b key .outgoing .caller none (s.reduceCall e).1 ∧
      logs (s.reduceCall e).2 = [] ∧ speech (s.reduceCall e).2 = [.sendOffer] := by
  have hmem : Change.started ∈ e.mayMake := h ▸ change_mem (h ▸ nofun)
  cases e with
  | localStart b key codecs video caps =>
    rw [change] at h
    split at h
    next hidle =>
      rw [reduceCall, reduceLocalStart, if_neg (not_not.mpr hidle)]
      exact ⟨hidle, b, key, codecs, video, caps, rfl, ⟨rfl, rfl, rfl, rfl, rfl, rfl⟩, rfl, rfl⟩
    · cases h
  | _ => simp [Event.mayMake] at hmem

theorem eq_remoteOffer (h : s.change e = .rang ∨ s.change e = .crossed ∨ s.change e = .busied) :
    ∃ b key codecs timestamp video capabilities blocked,
      e = .remoteOffer b key codecs timestamp video capabilities blocked := by
  have hmem := change_mem (s := s) (e := e) (by rcases h with h | h | h <;> rw [h] <;> exact nofun)
  cases e with
  | remoteOffer b key codecs ts video caps blocked =>
    exact ⟨b, key, codecs, ts, video, caps, blocked, rfl⟩
  | _ => rcases h with h | h | h <;> simp [h, Event.mayMake] at hmem

theorem reduceCall_rang (h : s.change e = .rang) :
    s.phase = .idle ∧ ∃ b key codecs timestamp video capabilities blocked,
      e = .remoteOffer b key codecs timestamp video capabilities blocked ∧
      Named b key .incoming .callee (textOrNull b.fromDevice) (s.reduceCall e).1 ∧
      logs (s.reduceCall e).2 = [] ∧ speech (s.reduceCall e).2 = [ringingSignal b] := by
  obtain ⟨b, key, codecs, ts, video, caps, blocked, rfl⟩ := eq_remoteOffer (.inl h)
  have hidle : s.phase = .idle := by
    rcases change_remoteOffer h with hx | hx | hx | hx
    · cases hx
    · exact hx.2
    · cases hx.1
    · cases hx.1
  rw [reduceCall, reduceRemoteOffer_eq, h]
  exact ⟨hidle, b, key, codecs, ts, video, caps, blocked, rfl, named_beginIncoming,
    rfl, rfl⟩

theorem reduceCall_crossed (h : s.change e = .crossed) :
    s.phase = .outgoing ∧ ∃ b key codecs timestamp video capabilities blocked,
      e = .remoteOffer b key codecs timestamp video capabilities blocked ∧
      b.peerId = s.peerId ∧ s.losesGlare b = true ∧
      Named b key .incoming .callee (textOrNull b.fromDevice) (s.reduceCall e).1 ∧
      logs (s.reduceCall e).2 = [] ∧
      speech (s.reduceCall e).2 = [s.signalEffect .cancel, ringingSignal b] := by
  obtain ⟨b, key, codecs, ts, video, caps, blocked, rfl⟩ := eq_remoteOffer (.inr (.inl h))
  have hglare : s.phase = .outgoing ∧ b.peerId = s.peerId ∧ s.losesGlare b = true := by
    rcases change_remoteOffer h with hx | hx | hx | hx
    · cases hx
    · cases hx.1
    · cases hx.1
    · exact hx.2
  rw [reduceCall, reduceRemoteOffer_eq, h]
  exact ⟨hglare.1, b, key, codecs, ts, video, caps, blocked, rfl, hglare.2.1, hglare.2.2,
    named_beginIncoming, rfl, rfl⟩

theorem reduceCall_busied (h : s.change e = .busied) :
    s.phase ≠ .idle ∧ ∃ b key codecs timestamp video capabilities blocked,
      e = .remoteOffer b key codecs timestamp video capabilities blocked ∧
      s.reduceCall e = (s, [s.busySignal b]) := by
  obtain ⟨b, key, codecs, ts, video, caps, blocked, rfl⟩ := eq_remoteOffer (.inr (.inr h))
  have hbusy : s.phase ≠ .idle := by
    rcases change_remoteOffer h with hx | hx | hx | hx
    · cases hx
    · cases hx.1
    · exact hx.2
    · cases hx.1
  rw [reduceCall, reduceRemoteOffer_eq, h]
  exact ⟨hbusy, b, key, codecs, ts, video, caps, blocked, rfl, rfl⟩

theorem reduceCall_accepted (h : s.change e = .accepted) :
    s.phase = .incoming ∧ (∃ b codec camera localVideoCodecs capabilities,
      e = .localAccept b codec camera localVideoCodecs capabilities) ∧
      Activated s (s.reduceCall e).1 s.remoteDevice (s.reduceCall e).2 ∧
      ∃ codec, speech (s.reduceCall e).2 = [s.signalEffect .accept codec] := by
  have hmem : Change.accepted ∈ e.mayMake := h ▸ change_mem (h ▸ nofun)
  cases e with
  | localAccept b codec camera codecs caps =>
    rw [change] at h
    split at h
    next hin =>
      simp only [reduceCall, reduceLocalAccept, if_neg (not_not.mpr hin)]
      refine ⟨hin, ⟨b, codec, camera, codecs, caps, rfl⟩, ⟨rfl, rfl, rfl, rfl, rfl, rfl, ?_⟩,
        some ((textOrNull codec).getD "pcm16"), ?_⟩
      · cases camera && peerSupportsVideo s.remoteCapabilities <;> rfl
      · cases camera && peerSupportsVideo s.remoteCapabilities <;> rfl
    · cases h
  | _ => simp [Event.mayMake] at hmem

theorem reduceCall_answered (h : s.change e = .answered) :
    s.phase = .outgoing ∧ ∃ b codec capabilities, e = .remoteAccept b codec capabilities ∧
      s.sameCall b = true ∧
      Activated s (s.reduceCall e).1 (if isText b.fromDevice then b.fromDevice else s.remoteDevice)
        (s.reduceCall e).2 ∧
      speech (s.reduceCall e).2 = [.cancelOtherDevices s.peerId s.callId
        (if isText b.fromDevice then b.fromDevice else s.remoteDevice) s.ringingDevices] := by
  have hmem : Change.answered ∈ e.mayMake := h ▸ change_mem (h ▸ nofun)
  cases e with
  | remoteAccept b codec caps =>
    rw [change] at h
    split at h
    next hp =>
      rw [Bool.and_eq_true, decide_eq_true_eq] at hp
      simp only [reduceCall, reduceRemoteAccept, if_neg (show ¬ (!s.sameCall b ||
        decide (s.phase ≠ .outgoing)) = true by simp [hp.1, hp.2])]
      refine ⟨hp.2, b, codec, caps, rfl, hp.1, ⟨rfl, rfl, rfl, rfl, rfl, rfl, ?_⟩, ?_⟩
      · cases s.mediaVideo && peerSupportsVideo (s.eventCapabilities caps) <;> rfl
      · cases s.mediaVideo && peerSupportsVideo (s.eventCapabilities caps) <;> rfl
    · cases h
  | _ => simp [Event.mayMake] at hmem

end Bluetalk.Calls.CallState
