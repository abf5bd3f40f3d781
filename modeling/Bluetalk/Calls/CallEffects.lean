import Bluetalk.Calls.CallChanges

/-!
# The effects of a run of calls

What a device does for its calls over any sequence of events: a call that ends stops what it has
started, is logged once, and tells nobody but its own peer; and what is about another call leaves
the current one alone.
-/

open List

namespace Bluetalk.Calls.CallState

abbrev CallTurn := Reducer.Turn CallState Event Effect

/-- A call, as it is told apart and logged. -/
structure CallRef where
  peerId : Option String
  callId : Option String
  outgoing : Bool

def current (s : CallState) : List CallRef :=
  if s.phase = .idle then [] else [⟨s.peerId, s.callId, s.isCaller⟩]

/-- The outgoing call makes way for the incoming one. -/
def droppedByGlare (t : CallTurn) : Bool := t.before.phase = .outgoing && t.after.phase = .incoming

def begun (t : CallTurn) : List CallRef :=
  if t.before.phase = .idle || droppedByGlare t then t.after.current else []

def left (t : CallTurn) : List CallRef :=
  if t.after.phase = .idle || droppedByGlare t then t.before.current else []

/-- A call that is dropped by a glare or answered on another device is not logged. -/
def excused (t : CallTurn) : Bool := droppedByGlare t || t.event.isAnsweredElsewhere

/-- The call that an event of the other side or of a timer names. -/
def Event.foreign : Event → Option Base
  | .remoteOffer b .. | .remoteRinging b _ | .remoteAccept b .. | .remoteReject b |
    .remoteCancel b _ | .remoteEnd b | .remoteBusy b | .offerFailed b | .ringTimeout b |
    .connectionLost b | .remoteMedia _ b _ | .pong b _ | .heard b => some b
  | .localStart .. | .localAccept .. | .localReject _ | .localCancel _ | .localEnd _ |
    .toggleMute | .localMedia .. | .localKeyframe .. | .unknown => none

/-- The peer or the call that is named is another one. -/
def namesOther (s : CallState) (b : Base) : Bool :=
  isText b.callId && b.callId ≠ s.callId || isText b.peerId && b.peerId ≠ s.peerId

/-- An offer of the peer that is being called. -/
def isGlareOffer (s : CallState) : Event → Bool
  | .remoteOffer b .. => s.phase = .outgoing && b.peerId = s.peerId
  | _ => false

def turnsOf (events : List Event) : List CallTurn :=
  Reducer.turns reduceCall createIdleCallState events

/-- The discipline that a sequence of events is handled with, from idle on. -/
structure Disciplined (events : List Event) : Prop where
  clears : ∀ t ∈ turnsOf events, t.before.phase ≠ .idle → t.after.phase = .idle →
    Effect.clearTimers ∈ t.effects ∧ (t.before.phase = .active → Effect.stopMedia ∈ t.effects)
  balanced : (turnsOf events).flatMap begun =
    (turnsOf events).flatMap left ++ (Reducer.final reduceCall createIdleCallState events).current
  logged : (logs (Reducer.emitted reduceCall createIdleCallState events)).map
      (fun entry => (entry.peerId, entry.outgoing)) =
    (((turnsOf events).filter fun t => !excused t).flatMap left).map
      fun call => (call.peerId, call.outgoing)
  signals : ∀ t ∈ turnsOf events, t.before.phase ≠ .idle → t.after.phase = .idle →
    ∀ x, Effect.sendSignal x ∈ t.effects →
      x.peerId = t.before.peerId ∧ x.callId = t.before.callId ∧
        x.deviceKey = textOrNull t.before.remoteDevice
  apart : ∀ t ∈ turnsOf events, ∀ b, t.event.foreign = some b → t.before.phase ≠ .idle →
    t.before.namesOther b → t.before.isGlareOffer t.event = false → t.after = t.before

variable {s s' : CallState} {e : Event} {events : List Event} {b : Base}

theorem logs_flatMap {ts : List CallTurn} :
    logs (ts.flatMap Reducer.Turn.effects) = ts.flatMap fun t => logs t.effects :=
  filterMap_flatMap ..

theorem current_eq (hphase : s'.phase = s.phase) (hpeerId : s'.peerId = s.peerId)
    (hcallId : s'.callId = s.callId) (hrole : s'.role = s.role) : s'.current = s.current := by
  rw [current, current, isCaller, isCaller, hphase, hpeerId, hcallId, hrole]

theorem current_of_idle (h : s.phase = .idle) : s.current = [] := if_pos h

theorem ended_of_idle (hs : s.phase ≠ .idle) (h : (s.reduceCall e).1.phase = .idle) :
    s.change e = .ended := by
  cases hc : s.change e with
  | ended => rfl
  | kept => exact absurd ((reduceCall_kept hc).phase.symm.trans h) hs
  | started => exact absurd (reduceCall_started hc).1 hs
  | accepted =>
    obtain ⟨-, -, hactive, -⟩ := reduceCall_accepted hc
    exact absurd (hactive.phase.symm.trans h) nofun
  | answered =>
    obtain ⟨-, b, codec, caps, -, -, hactive, -⟩ := reduceCall_answered hc
    exact absurd (hactive.phase.symm.trans h) nofun
  | rang => exact absurd (reduceCall_rang hc).1 hs
  | crossed =>
    obtain ⟨-, b, key, codecs, ts, video, caps, blocked, -, -, -, hnamed, -⟩ := reduceCall_crossed hc
    exact absurd (hnamed.phase.symm.trans h) nofun
  | busied =>
    obtain ⟨-, b, key, codecs, ts, video, caps, blocked, -, heq⟩ := reduceCall_busied hc
    rw [heq] at h
    exact absurd h hs

theorem turn_clears (hs : s.phase ≠ .idle) (h : (s.reduceCall e).1.phase = .idle) :
    Effect.clearTimers ∈ (s.reduceCall e).2 ∧
      (s.phase = .active → Effect.stopMedia ∈ (s.reduceCall e).2) :=
  have H := reduceCall_ended (ended_of_idle hs h)
  ⟨H.clears, H.stops⟩

theorem turn_signals (hs : s.phase ≠ .idle) (h : (s.reduceCall e).1.phase = .idle)
    {x : SignalEffect} (hx : Effect.sendSignal x ∈ (s.reduceCall e).2) :
    x.peerId = s.peerId ∧ x.callId = s.callId ∧ x.deviceKey = textOrNull s.remoteDevice := by
  have H := reduceCall_ended (ended_of_idle hs h)
  have hspeech : Effect.sendSignal x ∈ speech (s.reduceCall e).2 := mem_filter.mpr ⟨hx, rfl⟩
  rw [H.speech] at hspeech
  obtain ⟨op, -, hop⟩ := mem_map.mp hspeech
  cases hop
  exact ⟨rfl, rfl, rfl⟩

theorem droppedByGlare_of_before (h : s.phase ≠ .outgoing) :
    droppedByGlare (Reducer.turn reduceCall s e) = false := by
  simp [droppedByGlare, Reducer.turn, h]

theorem droppedByGlare_of_after (h : (s.reduceCall e).1.phase ≠ .incoming) :
    droppedByGlare (Reducer.turn reduceCall s e) = false := by
  simp [droppedByGlare, Reducer.turn, h]

theorem begun_eq : begun (Reducer.turn reduceCall s e) =
    if s.phase = .idle || droppedByGlare (Reducer.turn reduceCall s e) then
      (s.reduceCall e).1.current
    else [] := rfl

theorem left_eq : left (Reducer.turn reduceCall s e) =
    if (s.reduceCall e).1.phase = .idle || droppedByGlare (Reducer.turn reduceCall s e) then
      s.current
    else [] := rfl

theorem balanced_of_same (hcurrent : (s.reduceCall e).1.current = s.current)
    (hphase : (s.reduceCall e).1.phase = .idle ↔ s.phase = .idle)
    (hglare : droppedByGlare (Reducer.turn reduceCall s e) = false) :
    begun (Reducer.turn reduceCall s e) = [] ∧ left (Reducer.turn reduceCall s e) = [] := by
  simp only [begun_eq, left_eq, hglare, Bool.or_false, decide_eq_true_eq, hphase, hcurrent]
  by_cases hidle : s.phase = .idle
  · rw [if_pos hidle, current_of_idle hidle]
    exact ⟨rfl, rfl⟩
  · rw [if_neg hidle]
    exact ⟨rfl, rfl⟩

/-- The three ways in which the calls of a turn go on. -/
inductive Passage (s : CallState) (e : Event) : Prop
  /-- no call begins and none ends -/
  | same (hcurrent : (s.reduceCall e).1.current = s.current)
      (hbegun : begun (Reducer.turn reduceCall s e) = [])
      (hleft : left (Reducer.turn reduceCall s e) = []) (hlogs : logs (s.reduceCall e).2 = [])
  /-- a call begins, in idle or in place of the one that a glare drops -/
  | begins (hbegun : begun (Reducer.turn reduceCall s e) = (s.reduceCall e).1.current)
      (hleft : left (Reducer.turn reduceCall s e) = s.current)
      (hlogs : logs (s.reduceCall e).2 = [])
      (hexcused : s.current = [] ∨ excused (Reducer.turn reduceCall s e) = true)
  | ends (h : s.change e = .ended)

theorem passage (s : CallState) (e : Event) : Passage s e := by
  cases hc : s.change e with
  | ended => exact .ends hc
  | kept =>
    have H := reduceCall_kept hc
    have hcurrent := current_eq H.phase H.peerId H.callId H.role
    have hglare : droppedByGlare (Reducer.turn reduceCall s e) = false := by
      by_cases hout : s.phase = .outgoing
      · exact droppedByGlare_of_after (by rw [H.phase, hout]; exact nofun)
      · exact droppedByGlare_of_before hout
    obtain ⟨hbegun, hleft⟩ := balanced_of_same hcurrent (by rw [H.phase]) hglare
    exact .same hcurrent hbegun hleft H.logs
  | busied =>
    obtain ⟨hs, b, key, codecs, ts, video, caps, blocked, -, heq⟩ := reduceCall_busied hc
    have hglare : droppedByGlare (Reducer.turn reduceCall s e) = false := by
      by_cases hout : s.phase = .outgoing
      · exact droppedByGlare_of_after (by rw [heq, hout]; exact nofun)
      · exact droppedByGlare_of_before hout
    obtain ⟨hbegun, hleft⟩ := balanced_of_same (by rw [heq]) (by rw [heq]) hglare
    exact .same (by rw [heq]) hbegun hleft (by rw [heq]; rfl)
  | accepted =>
    obtain ⟨hin, -, H, -⟩ := reduceCall_accepted hc
    have hcurrent : (s.reduceCall e).1.current = s.current := by
      rw [current, current, isCaller, isCaller, H.phase, H.peerId, H.callId, H.role, hin]
      rfl
    have hglare : droppedByGlare (Reducer.turn reduceCall s e) = false :=
      droppedByGlare_of_before (by rw [hin]; exact nofun)
    obtain ⟨hbegun, hleft⟩ := balanced_of_same hcurrent (by rw [H.phase, hin]; simp) hglare
    exact .same hcurrent hbegun hleft H.logs
  | answered =>
    obtain ⟨hout, b, codec, caps, -, -, H, -⟩ := reduceCall_answered hc
    have hcurrent : (s.reduceCall e).1.current = s.current := by
      rw [current, current, isCaller, isCaller, H.phase, H.peerId, H.callId, H.role, hout]
      rfl
    have hglare : droppedByGlare (Reducer.turn reduceCall s e) = false :=
      droppedByGlare_of_after (by rw [H.phase]; exact nofun)
    obtain ⟨hbegun, hleft⟩ := balanced_of_same hcurrent (by rw [H.phase, hout]; simp) hglare
    exact .same hcurrent hbegun hleft H.logs
  | started =>
    obtain ⟨hidle, b, key, codecs, video, caps, -, H, hlogs, -⟩ := reduceCall_started hc
    have hnone := current_of_idle hidle
    refine .begins ?_ ?_ hlogs (.inl hnone)
    · rw [begun_eq, hidle]
      rfl
    · rw [left_eq, hnone, ite_self]
  | rang =>
    obtain ⟨hidle, b, key, codecs, ts, video, caps, blocked, -, H, hlogs, -⟩ := reduceCall_rang hc
    have hnone := current_of_idle hidle
    refine .begins ?_ ?_ hlogs (.inl hnone)
    · rw [begun_eq, hidle]
      rfl
    · rw [left_eq, hnone, ite_self]
  | crossed =>
    obtain ⟨hout, b, key, codecs, ts, video, caps, blocked, -, -, -, H, hlogs, -⟩ :=
      reduceCall_crossed hc
    have hglare : droppedByGlare (Reducer.turn reduceCall s e) = true := by
      exact Bool.and_eq_true_iff.mpr ⟨decide_eq_true hout, decide_eq_true H.phase⟩
    refine .begins ?_ ?_ hlogs (.inr ?_)
    · rw [begun_eq, hglare, Bool.or_true, if_pos rfl]
    · rw [left_eq, hglare, Bool.or_true, if_pos rfl]
    · rw [excused, hglare, Bool.true_or]

theorem ended_turn (h : s.change e = .ended) :
    begun (Reducer.turn reduceCall s e) = [] ∧
      left (Reducer.turn reduceCall s e) = [⟨s.peerId, s.callId, s.isCaller⟩] ∧
      (s.reduceCall e).1.current = [] ∧
      excused (Reducer.turn reduceCall s e) = e.isAnsweredElsewhere := by
  have H := reduceCall_ended h
  have hidle : (s.reduceCall e).1.phase = .idle := by
    rw [H.idle]
    rfl
  have hglare : droppedByGlare (Reducer.turn reduceCall s e) = false :=
    droppedByGlare_of_after (by rw [hidle]; exact nofun)
  have hafter := current_of_idle hidle
  refine ⟨?_, ?_, hafter, ?_⟩
  · rw [begun_eq, hafter, ite_self]
  · rw [left_eq, hidle]
    exact if_neg H.phase
  · rw [excused, hglare, Bool.false_or]
    rfl

theorem turn_balanced : s.current ++ begun (Reducer.turn reduceCall s e) =
    left (Reducer.turn reduceCall s e) ++ (s.reduceCall e).1.current := by
  cases passage s e with
  | same hcurrent hbegun hleft _ => rw [hbegun, hleft, hcurrent, append_nil, nil_append]
  | begins hbegun hleft _ _ => rw [hbegun, hleft]
  | ends h =>
    obtain ⟨hbegun, hleft, hafter, -⟩ := ended_turn h
    rw [hbegun, hleft, hafter, append_nil, append_nil]
    exact if_neg (reduceCall_ended h).phase

theorem turn_logged :
    (logs (s.reduceCall e).2).map (fun entry => (entry.peerId, entry.outgoing)) =
      (if excused (Reducer.turn reduceCall s e) then []
        else left (Reducer.turn reduceCall s e)).map fun call => (call.peerId, call.outgoing) := by
  cases passage s e with
  | same _ _ hleft hlogs => rw [hlogs, hleft, ite_self]; rfl
  | begins _ hleft hlogs hexcused =>
    rw [hlogs, hleft]
    rcases hexcused with hnone | hexcused
    · rw [hnone, ite_self]; rfl
    · rw [if_pos hexcused]; rfl
  | ends h =>
    obtain ⟨-, hleft, -, hexcused⟩ := ended_turn h
    rw [(reduceCall_ended h).logs, hleft, hexcused]
    cases e.isAnsweredElsewhere <;> rfl

theorem sameCall_of_namesOther (h : s.namesOther b) : s.sameCall b = false := by
  rw [namesOther, Bool.or_eq_true] at h
  rw [sameCall]
  split
  · rfl
  · rcases h with h | h
    · rw [if_pos h]
    · rw [if_pos h, ite_self]

theorem turn_apart (hb : e.foreign = some b) (hs : s.phase ≠ .idle)
    (hother : s.namesOther b) (hglare : s.isGlareOffer e = false) : (s.reduceCall e).1 = s := by
  have hsame := sameCall_of_namesOther hother
  cases e with
  | localStart | localAccept | localReject | localCancel | localEnd | toggleMute | localMedia |
    localKeyframe | unknown => cases hb
  | remoteOffer b' key codecs ts video caps blocked =>
    rw [reduceCall, reduceRemoteOffer_eq]
    have hnot : ¬ (s.phase = .outgoing ∧ b'.peerId = s.peerId) := by
      simpa [isGlareOffer] using hglare
    rw [change, if_neg hnot, if_neg hs]
    split
    next h => split at h <;> cases h
    next h => split at h <;> cases h
    · rfl
    · rfl
  | _ =>
    obtain rfl := Option.some.inj hb
    simp [reduceCall, reduceRemoteRinging, reduceRemoteAccept, reduceHangup, reduceRemoteCancel,
      reduceRemoteEnd, reduceRemoteBusy, reduceOfferFailed, reduceRingTimeout,
      reduceConnectionLost, reduceRemoteMediaFlag, reducePong, reduceHeard, hsame, ignore]

theorem reduceCall_disciplined (events : List Event) : Disciplined events where
  clears := Reducer.forall_turns fun _ _ hs h => turn_clears hs h
  balanced := Reducer.conserved current (s := createIdleCallState)
    fun _ _ => turn_balanced
  logged := by
    rw [Reducer.emitted, logs_flatMap, Reducer.flatMap_filter, map_flatMap, map_flatMap]
    refine Reducer.flatMap_turns fun s e => turn_logged.trans ?_
    cases excused (Reducer.turn reduceCall s e) <;> rfl
  signals := Reducer.forall_turns fun _ _ hs h _ hx => turn_signals hs h hx
  apart := Reducer.forall_turns fun _ _ _ hb hs hother hglare => turn_apart hb hs hother hglare

end Bluetalk.Calls.CallState
