import Bluetalk.Calls.CalleeDevices

/-!
# The one device that a call is left to

What each step leaves of a call: once the caller is active, every other device is idle in the call,
or a `cancel` is on the way to it and no offer behind that. It holds as long as the devices answer
in time, and does not when two of them answer at once.
-/

open List Option Function

namespace Bluetalk.Calls.DeviceCalls

open CallState CallSpeaker

variable {site : CallSite} {s s' : CallState} {e : Event} {m : CallSpeaker} {now : Int}
  {peerId fromId : String} {x : CallMessage} {blocked : Bool} {device : Option String}
  {c key : String} {b : Base}

/-- A device does not ring, and nothing on the way to it makes it ring for good. -/
def Settled (site : CallSite) (queue : List CallMessage) (s : CallState) : Prop :=
  (∀ x ∈ queue, isOffer site x = false) ∧ ringsIn site s = false ∨
    ∃ pre x post, queue = pre ++ x :: post ∧ isCancel site x = true ∧
      ∀ y ∈ post, isOffer site y = false

variable {queue sent : List CallMessage} {sents : List SentMessage} {codec : Option String}
  {caps : Option Capabilities}

theorem Settled.append (H : Settled site queue s) (h : ∀ y ∈ sent, isOffer site y = false) :
    Settled site (queue ++ sent) s := by
  rcases H with ⟨hnone, hrings⟩ | ⟨pre, x, post, rfl, hcancel, hpost⟩
  · exact .inl ⟨forall_mem_append.mpr ⟨hnone, h⟩, hrings⟩
  · exact .inr ⟨pre, x, post ++ sent, by simp, hcancel, forall_mem_append.mpr ⟨hpost, h⟩⟩

theorem Settled.mono (H : Settled site queue s)
    (h : ringsIn site s = false → ringsIn site s' = false) : Settled site queue s' := by
  rcases H with ⟨hnone, hrings⟩ | hcancel
  · exact .inl ⟨hnone, h hrings⟩
  · exact .inr hcancel

theorem Settled.tail (H : Settled site (x :: queue) s)
    (hother : isOffer site x = false → ringsIn site s = false → ringsIn site s' = false)
    (hcancel : isCancel site x = true → ringsIn site s' = false) : Settled site queue s' := by
  rcases H with ⟨hnone, hrings⟩ | ⟨pre, y, post, hqueue, hy, hpost⟩
  · rw [forall_mem_cons] at hnone
    exact .inl ⟨hnone.2, hother hnone.1 hrings⟩
  cases pre with
  | nil =>
    obtain ⟨rfl, rfl⟩ := List.cons.inj hqueue
    exact .inl ⟨hpost, hcancel hy⟩
  | cons z pre =>
    obtain ⟨rfl, rfl⟩ := List.cons.inj hqueue
    exact .inr ⟨pre, y, post, rfl, hy, hpost⟩

theorem settled_of_cancel (h : ∀ y ∈ sent, isOffer site y = false) (hx : x ∈ sent)
    (hcancel : isCancel site x = true) : Settled site (queue ++ sent) s := by
  obtain ⟨pre, post, rfl⟩ := append_of_mem hx
  refine .inr ⟨queue ++ pre, x, post, by simp, hcancel, fun y hy => h y ?_⟩
  exact mem_append_right _ (mem_cons_of_mem _ hy)

theorem mem_delivered (hx : x ∈ delivered peerId device sents) :
    ∃ y ∈ sents, y.message = x := by
  obtain ⟨y, hy, rfl⟩ := mem_map.mp hx
  exact ⟨y, (mem_filter.mp hy).1, rfl⟩

theorem not_rings_of_cancel (H : DeviceHeld site s) (hs : m.state = s)
    (hcancel : isCancel site x = true) :
    ringsIn site (m.receive site.callerId (x.stamped site.callerDevice) blocked now).1.state =
      false := by
  subst hs
  cases x with
  | offer o => cases hcancel
  | signal y =>
    rw [isCancel, Bool.and_eq_true, decide_eq_true_eq, decide_eq_true_eq] at hcancel
    obtain ⟨hop, hcall⟩ := hcancel
    cases hrings : ringsIn site m.state with
    | false =>
      refine Becomes.not_rings becomes_receive ?_ hrings
      exact unnamed_messageEvent (x := (CallMessage.signal y).stamped site.callerDevice) rfl
    | true =>
      obtain ⟨hpeer, hdevice⟩ := H.rings hrings
      obtain ⟨hin, hc⟩ := ringsIn_iff.mp hrings
      have hpass : shouldDropBoundMessage m.state.remoteDevice site.callerDevice = false := by
        rw [shouldDropBoundMessage, hdevice]
        simp
      have hsame : m.state.sameCall
          { peerId := some site.callerId, callId := some y.callId, fromDevice := site.callerDevice,
            now := now } = true := by
        simp [sameCall, hin, hc, hcall, hpeer]
      have hend : m.state.change (.remoteCancel
          { peerId := some site.callerId, callId := some y.callId, fromDevice := site.callerDevice,
            now := now } y.reason) = .ended := by
        rw [change, hsame, hin]
        simp
      have hr : m.receive site.callerId ((CallMessage.signal y).stamped site.callerDevice) blocked
          now = m.dispatch (.remoteCancel
            { peerId := some site.callerId, callId := some y.callId,
              fromDevice := site.callerDevice, now := now } y.reason) now := by
        simp only [CallMessage.stamped, receive, hpass, Bool.false_eq_true, if_false, handleSignal,
          signalEvent, hop]
      rw [hr]
      have hidle := (reduceCall_ended hend).idle
      rw [dispatch, hidle]
      rfl

theorem cancel_delivered (site : CallSite) (now : Int) {answering : String} {ringing : List String}
    (hkey : jsTrim key = key ∧ key ≠ "") (hne : key ≠ answering)
    (htold : ringing.contains key = true ∨ (devicesToCancel ringing (some answering)).isEmpty) :
    ∃ x ∈ delivered site.calleeId (some key) (m.runEffect now (.cancelOtherDevices
      (some site.calleeId) (some site.callId) (some answering) ringing)), isCancel site x = true := by
  have htext : ∀ {x : String} {y : Option String}, x ≠ "" →
      textOrNull (textOr (some x) y) = some x := by
    intro x y hx
    have htext : isText (some x) = true := decide_eq_true hx
    rw [textOr, if_pos htext, textOrNull_of_isText htext]
  let x : CallMessage := .signal
    { op := .cancel, callId := site.callId, reason := some "answered-elsewhere" }
  refine ⟨x, ?_, by simp [x, isCancel]⟩
  rw [runEffect, cancelOtherDevices, htext site.callee, htext site.call]
  dsimp only
  split
  next hsome =>
    have hmem : key ∈ devicesToCancel ringing (some answering) := by
      have hcontains := htold.resolve_right fun hempty => by
        rw [isEmpty_iff.mp hempty] at hsome
        exact Nat.lt_irrefl 0 hsome
      refine mem_filter.mpr ⟨mem_uniqueDevices.mpr ⟨some key, ?_, ?_, ?_⟩, ?_⟩
      · exact mem_map_of_mem (contains_iff_mem.mp hcontains)
      · exact hkey.1.symm
      · rw [getD_some, hkey.1]
        exact hkey.2
      · simpa using hne
    refine mem_map.mpr ⟨⟨site.calleeId, x, some key⟩, mem_filter.mpr ⟨?_, ?_⟩, rfl⟩
    · exact mem_map.mpr ⟨key, hmem, rfl⟩
    · simp [SentMessage.reaches]
  next hnone =>
  refine mem_map.mpr ⟨⟨site.calleeId, x, none⟩, mem_filter.mpr ⟨?_, ?_⟩, rfl⟩
  · exact mem_singleton.mpr rfl
  · simp [SentMessage.reaches]

/-- What holds whatever has happened, as long as all have answered in time. -/
structure Held (site : CallSite) (t : DeviceCalls) : Prop where
  caller : CallerHeld site t.caller.state
  device : ∀ key ∈ site.keys, DeviceHeld site (t.device key).state
  answers : ∀ key, ∀ x ∈ t.toCaller key, isOffer site x = false ∧ x.callId ≠ ""
  taken : activeIn site t.caller.state = true → ∃ answering,
    t.caller.state.remoteDevice = some answering ∧ ∀ key ∈ site.keys, key ≠ answering →
      activeIn site (t.device key).state = false ∧
        Settled site (t.toDevice key) (t.device key).state

variable {t t' : DeviceCalls} {act : DeviceAction} {acts : List DeviceAction}
  {r : CallSpeaker × List SentMessage}

theorem callerSends_toDevice (h : key ∈ site.keys) : (t.callerSends site r).toDevice key =
    t.toDevice key ++ delivered site.calleeId (some key) r.2 := if_pos h

theorem no_offer_delivered (h : ∀ y ∈ sents, isOffer site y.message = false) :
    ∀ x ∈ delivered peerId device sents, isOffer site x = false := by
  intro x hx
  obtain ⟨y, hy, rfl⟩ := mem_delivered hx
  exact h y hy

theorem Held.callerSends (H : Held site t) (hcaller : CallerHeld site r.1.state)
    (hsent : ∀ y ∈ r.2, isOffer site y.message = false)
    (hactive : activeIn site r.1.state = true → activeIn site t.caller.state = true ∧
      r.1.state.remoteDevice = t.caller.state.remoteDevice) : Held site (t.callerSends site r) where
  caller := hcaller
  device := H.device
  answers := H.answers
  taken h := by
    obtain ⟨hbefore, hdevice⟩ := hactive h
    obtain ⟨answering, hanswering, hothers⟩ := H.taken hbefore
    refine ⟨answering, hdevice.trans hanswering, fun key hkey hne => ?_⟩
    rw [callerSends_toDevice hkey]
    exact ⟨(hothers key hkey hne).1, (hothers key hkey hne).2.append (no_offer_delivered hsent)⟩

theorem Held.deviceSends (key : String) (queue : List CallMessage) (H : Held site t)
    (hdevice : DeviceHeld site r.1.state)
    (hsent : ∀ y ∈ r.2, isOffer site y.message = false ∧ y.message.callId ≠ "")
    (htaken : activeIn site t.caller.state = true → t.caller.state.remoteDevice ≠ some key →
      key ∈ site.keys → activeIn site (t.device key).state = false →
      Settled site (t.toDevice key) (t.device key).state →
      activeIn site r.1.state = false ∧ Settled site queue r.1.state) :
    Held site { t.deviceSends site key r with
      toDevice := update t.toDevice key queue } where
  caller := H.caller
  device other hkey := by
    by_cases hother : other = key
    · subst hother
      simpa [DeviceCalls.deviceSends] using hdevice
    · simpa [DeviceCalls.deviceSends, hother] using H.device other hkey
  answers other := by
    by_cases hother : other = key
    · subst hother
      simp only [DeviceCalls.deviceSends, update_self, forall_mem_append]
      refine ⟨H.answers other, fun x hx => ?_⟩
      obtain ⟨y, hy, rfl⟩ := mem_delivered hx
      exact hsent y hy
    · simpa [DeviceCalls.deviceSends, hother] using H.answers other
  taken h := by
    obtain ⟨answering, hanswering, hothers⟩ := H.taken h
    refine ⟨answering, hanswering, fun other hkey hne => ?_⟩
    obtain ⟨hactive, hsettled⟩ := hothers other hkey hne
    by_cases hother : other = key
    · subst hother
      have hdevice : t.caller.state.remoteDevice ≠ some other := by
        rw [hanswering]
        exact fun heq => hne (some.inj heq).symm
      simpa [DeviceCalls.deviceSends] using htaken h hdevice hkey hactive hsettled
    · simpa [DeviceCalls.deviceSends, hother] using hothers other hkey hne

theorem Held.caller_event (H : Held site t) (he : isOther site site.calleeId e = true) :
    Held site (t.callerSends site (t.caller.dispatch e now)) := by
  have hunnamed := unnamed_of_isOther he
  have hbecomes := becomes_reduceCall t.caller.state e
  refine H.callerSends (H.caller.becomes hbecomes hunnamed)
    (fun y hy => no_offer_dispatch hunnamed.elsewhere hy) fun hactive => ?_
  rcases hbecomes.active hactive with hbefore | ⟨hrings, -⟩ |
    ⟨b, codec, caps, rfl, hout, hcall, hsame, -⟩
  · exact hbefore
  · rw [H.caller.rings] at hrings
    cases hrings
  · rw [isOther, Bool.and_eq_true, decide_eq_true_eq, ← H.caller.peer hout hcall] at he
    rw [sameCall] at hsame
    simp [he] at hsame

theorem Held.device_event (H : Held site t) (hkey : key ∈ site.keys)
    (he : isOther site site.callerId e = true)
    (haccept : ∀ b codec camera codecs caps, e = .localAccept b codec camera codecs caps →
      activeIn site t.caller.state = true → t.caller.state.remoteDevice ≠ some key →
      ringsIn site (t.device key).state = false) :
    Held site (t.deviceSends site key ((t.device key).dispatch e now)) := by
  have hunnamed := unnamed_of_isOther he
  have hbecomes := becomes_reduceCall (t.device key).state e
  have H' := H.deviceSends key (t.toDevice key) (r := (t.device key).dispatch e now)
    ((H.device key hkey).becomes hbecomes hunnamed.fromCaller)
    (fun y hy => ⟨no_offer_dispatch hunnamed.elsewhere hy, named_dispatch hy⟩)
    fun hactive hdevice _ hidle hsettled =>
      ⟨(H.device key hkey).not_active hbecomes hidle fun b codec camera codecs caps heq =>
        haccept b codec camera codecs caps heq hactive hdevice,
        hsettled.mono (hbecomes.not_rings hunnamed)⟩
  rwa [update_eq_self] at H'

theorem stamped_isOffer : isOffer site (x.stamped device) = isOffer site x := by
  cases x <;> rfl

theorem Held.device_receive (H : Held site t) (hkey : key ∈ site.keys)
    (hqueue : t.toDevice key = x :: queue) :
    Held site { t.deviceSends site key ((t.device key).receive site.callerId
        (x.stamped site.callerDevice) blocked now) with
      toDevice := update t.toDevice key queue } := by
  have hbecomes : Becomes (t.device key).state
      (messageEvent site.callerId (x.stamped site.callerDevice) blocked now) _ :=
    becomes_receive
  refine H.deviceSends key queue ((H.device key hkey).becomes hbecomes fromCaller_messageEvent)
    (fun y hy => no_offer_receive hy) fun _ _ _ hidle hsettled => ⟨?_, ?_⟩
  · refine (H.device key hkey).not_active hbecomes hidle fun b codec camera codecs caps heq => ?_
    cases x with
    | offer o => cases heq
    | signal y =>
      rw [CallMessage.stamped, messageEvent, signalEvent] at heq
      cases hop : y.op <;> rw [hop] at heq <;> cases heq
  · rw [hqueue] at hsettled
    refine hsettled.tail (fun hoffer => hbecomes.not_rings ?_)
      (not_rings_of_cancel (H.device key hkey) rfl)
    exact unnamed_messageEvent (stamped_isOffer.trans hoffer)

theorem callId_of_sameCall (h : s.sameCall b = true) (hb : b.callId = some c) (hc : c ≠ "") :
    s.callId = some c := by
  rw [sameCall] at h
  split at h
  · cases h
  split at h
  · cases h
  next hother =>
  rw [hb, isText_some, decide_eq_true hc, Bool.true_and, decide_eq_true_eq, not_not] at hother
  exact hother.symm

theorem eq_accept (h : messageEvent fromId x blocked now = .remoteAccept b codec caps) :
    ∃ y, x = .signal y ∧ y.op = .accept ∧ b.callId = some y.callId ∧
      b.fromDevice = y.fromDevice := by
  cases x with
  | offer o => cases h
  | signal y =>
    rw [messageEvent, signalEvent] at h
    cases hop : y.op <;> rw [hop] at h <;> cases h
    exact ⟨y, rfl, hop, rfl, rfl⟩

theorem Held.dequeue (H : Held site t) (hqueue : t.toCaller key = x :: queue) :
    Held site { t with toCaller := update t.toCaller key queue } where
  caller := H.caller
  device := H.device
  answers other := by
    by_cases hother : other = key
    · subst hother
      have hanswers := H.answers other
      rw [hqueue, forall_mem_cons] at hanswers
      simpa using hanswers.2
    · simpa [hother] using H.answers other
  taken := H.taken

theorem Held.answered {now' : Int} (H : Held site t) (hkey : key ∈ site.keys)
    (hqueue : t.toCaller key = x :: queue)
    (hintime : t.inTime site (.toCaller key blocked now') = true)
    (hout : t.caller.state.phase = .outgoing) (hcall : t.caller.state.callId = some site.callId)
    (he : messageEvent site.calleeId (x.stamped (some key)) blocked now = .remoteAccept b codec caps)
    (hsame : t.caller.state.sameCall b = true) :
    Held site (t.callerSends site (t.caller.dispatch (.remoteAccept b codec caps) now)) := by
  obtain ⟨y, hy, hop, hbcall, hbdevice⟩ := eq_accept he
  have hfrom : b.fromDevice = some key ∧ isAccept site x = true := by
    cases x with
    | offer o => cases hy
    | signal z =>
      cases hy
      refine ⟨hbdevice, ?_⟩
      have hne := (H.answers key (.signal z) (by rw [hqueue]; exact mem_cons_self)).2
      have heq : some site.callId = some z.callId :=
        hcall.symm.trans (callId_of_sameCall hsame hbcall hne)
      rw [isAccept, Bool.and_eq_true, decide_eq_true_eq, decide_eq_true_eq]
      exact ⟨hop, (some.inj heq).symm⟩
  obtain ⟨hbdevice, haccept⟩ := hfrom
  have hkeyText : isText (some key) = true := decide_eq_true (site.trimmed key hkey).2
  have hchange : t.caller.state.change (.remoteAccept b codec caps) = .answered := by
    rw [change, hsame, hout]
    rfl
  obtain ⟨-, _, _, _, heq, -, hactive, hspeech⟩ := reduceCall_answered hchange
  cases heq
  rw [hbdevice, if_pos hkeyText] at hactive hspeech
  have htakes : t.takes site key = true := by
    simp [takes, hout, hcall, hqueue, haccept]
  have hothers : ∀ other ∈ site.keys, other ≠ key →
      activeIn site (t.device other).state = false ∧
        (t.reached site other = false ∨ t.told other key = true) := by
    intro other hother hne
    rw [inTime, htakes, Bool.not_true, Bool.false_or, List.all_eq_true] at hintime
    simpa [hne] using hintime other hother
  have hsent : ∀ y ∈ (t.caller.dispatch (.remoteAccept b codec caps) now).2,
      isOffer site y.message = false :=
    fun y hy => no_offer_dispatch (e := .remoteAccept b codec caps) trivial hy
  refine ⟨H.caller.becomes (becomes_reduceCall ..) trivial, H.device, H.answers, fun _ => ?_⟩
  refine ⟨key, hactive.remoteDevice, fun other hother hne => ⟨(hothers other hother hne).1, ?_⟩⟩
  rw [callerSends_toDevice hother]
  rcases (hothers other hother hne).2 with hreached | htold
  · rw [reached, Bool.or_eq_false_iff, List.any_eq_false] at hreached
    have hnone : ∀ x ∈ t.toDevice other, isOffer site x = false := fun x hx => by
      simpa using hreached.1 x hx
    exact Settled.append (.inl ⟨hnone, hreached.2⟩) (no_offer_delivered hsent)
  rw [told, Bool.or_eq_true] at htold
  obtain ⟨x, hx, hcancel⟩ := cancel_delivered site now
    (m := (t.caller.dispatch (.remoteAccept b codec caps) now).1) (site.trimmed other hother) hne
    htold
  refine settled_of_cancel (no_offer_delivered hsent) (x := x) ?_ hcancel
  rwa [PeerCalls.delivered_dispatch, hspeech, flatMap_singleton, H.caller.peer hout hcall, hcall]

theorem Held.caller_receive (H : Held site t) (hkey : key ∈ site.keys)
    (hqueue : t.toCaller key = x :: queue)
    (hintime : t.inTime site (.toCaller key blocked now) = true) :
    Held site (t.callerSends site
      (t.caller.receive site.calleeId (x.stamped (some key)) blocked now)) := by
  have hoffer : isOffer site x = false :=
    (H.answers key x (by rw [hqueue]; exact mem_cons_self)).1
  have hbecomes : Becomes t.caller.state
      (messageEvent site.calleeId (x.stamped (some key)) blocked now) _ :=
    becomes_receive
  have hcaller := H.caller.becomes hbecomes (unnamed_messageEvent (stamped_isOffer.trans hoffer))
  have hsent : ∀ y ∈ (t.caller.receive site.calleeId (x.stamped (some key)) blocked now).2,
      isOffer site y.message = false := fun y hy => (no_offer_receive hy).1
  by_cases hnew : activeIn site t.caller.state = false ∧ activeIn site
      (t.caller.receive site.calleeId (x.stamped (some key)) blocked now).1.state = true
  · rcases hbecomes.active hnew.2 with ⟨hbefore, -⟩ | ⟨hrings, -⟩ |
      ⟨b, codec, caps, he, hout, hcall, hsame, -⟩
    · rw [hnew.1] at hbefore
      cases hbefore
    · rw [H.caller.rings] at hrings
      cases hrings
    · have hdispatch := (receive_cases (m := t.caller) (x := x.stamped (some key)) rfl).resolve_right
        fun hkept => by
          have hphase := (activeIn_iff.mp hnew.2).1
          rw [hkept.1.phase, hout] at hphase
          cases hphase
      rw [hdispatch, he]
      exact H.answered hkey hqueue hintime hout hcall he hsame
  · refine H.callerSends hcaller hsent fun hactive => ?_
    rcases hbecomes.active hactive with hbefore | ⟨hrings, -⟩ | ⟨b, codec, caps, -, hout, -⟩
    · exact hbefore
    · rw [H.caller.rings] at hrings
      cases hrings
    · refine absurd ⟨?_, hactive⟩ hnew
      rw [activeIn, hout]
      rfl

theorem Held.step (H : Held site t) (hintime : t.inTime site act = true)
    (h : t.step site act = some t') : Held site t' := by
  cases act with
  | caller e now =>
    rw [DeviceCalls.step] at h
    split at h
    next he =>
      cases h
      exact H.caller_event he
    · cases h
  | device key e now =>
    rw [DeviceCalls.step] at h
    split at h
    next he =>
      cases h
      refine H.device_event he.1 he.2 ?_
      rintro b codec camera codecs caps rfl hactive hdevice
      by_contra hrings
      simp [inTime, hrings, hactive, hdevice] at hintime
    · cases h
  | toDevice key blocked now =>
    rw [DeviceCalls.step] at h
    split at h
    · cases h
    next x queue hqueue =>
    split at h
    next hkey =>
      cases h
      exact H.device_receive hkey hqueue
    · cases h
  | toCaller key blocked now =>
    rw [DeviceCalls.step] at h
    split at h
    · cases h
    next x queue hqueue =>
    split at h
    next hkey =>
      cases h
      exact (H.caller_receive hkey hqueue hintime).dequeue hqueue
    · cases h

variable {callKeyB64 : String} {codecs : List String} {video : Bool} {devices : String → CallSpeaker}

theorem held_start (hnew : ∀ key ∈ site.keys, (devices key).state.callId ≠ some site.callId) :
    Held site (start site m callKeyB64 codecs video now devices) := by
  let event :=
    PeerCalls.startEvent site.callId callKeyB64 codecs video m.localCapabilities site.calleeId now
  have hchange : createIdleCallState.change event = .started := rfl
  obtain ⟨-, b, key, codecs', video', caps, he, hnamed, -⟩ := reduceCall_started hchange
  simp only [event, PeerCalls.startEvent, Event.localStart.injEq] at he
  obtain ⟨rfl, rfl, rfl, rfl, rfl⟩ := he
  have hout : (start site m callKeyB64 codecs video now devices).caller.state.phase = .outgoing :=
    hnamed.phase
  refine ⟨⟨?_, fun _ _ => hnamed.peerId⟩, fun key hkey => ⟨fun hrings => ?_, fun _ => hnew key hkey⟩,
    fun key x hx => absurd hx not_mem_nil, fun hactive => ?_⟩
  · rw [ringsIn, hout]
    rfl
  · exact absurd (ringsIn_iff.mp hrings).2 (hnew key hkey)
  · cases hout.symm.trans (activeIn_iff.mp hactive).1

theorem Held.leftToOne (H : Held site t) : LeftToOne site t := by
  intro hactive harrived key hkey hne
  obtain ⟨answering, hanswering, hothers⟩ := H.taken hactive
  obtain ⟨hidle, hsettled⟩ := hothers key hkey fun heq => hne (heq ▸ hanswering)
  refine ⟨?_, hidle⟩
  rcases hsettled with ⟨-, hrings⟩ | ⟨pre, x, post, hqueue, hcancel, -⟩
  · exact hrings
  · rw [harrived key hkey x (by rw [hqueue]; exact mem_append_right _ mem_cons_self)]
      at hcancel
    cases hcancel

/-- When all answer in time, the call is left to one device in every state of every run. -/
theorem leftToOne_of_inTime
    (hnew : ∀ key ∈ site.keys, (devices key).state.callId ≠ some site.callId)
    (h : Run (step site) (fun t act => t.inTime site act = true)
      (start site m callKeyB64 codecs video now devices) acts t) : LeftToOne site t :=
  (h.invariant (I := Held site) (fun hintime H hstep => H.step hintime hstep)
    (held_start hnew)).leftToOne

def sampleSite : CallSite where
  callerId := "p1"
  calleeId := "p2"
  callerDevice := some "tower"
  callId := "c1"
  keys := ["phone", "tablet"]
  caller := by decide
  callee := by decide
  text := rfl
  call := by decide
  trimmed := by decide +kernel

def sampleStart : DeviceCalls := start sampleSite {} "k1" ["pcm16"] false 1 fun _ => {}

def sampleAccept (key : String) : DeviceAction :=
  .device key (.localAccept { now := 4 } (some "pcm16") false none none) 4

/-- The call rings on both devices, and the caller knows it. -/
def sampleRinging : List DeviceAction :=
  [.toDevice "phone" false 2, .toDevice "tablet" false 2, .toCaller "phone" false 3,
    .toCaller "tablet" false 3]

/-- The phone answers, and the other device is told. -/
theorem leftToOne_of_inTime_sample : ∃ acts t,
    Run (step sampleSite) (fun t act => t.inTime sampleSite act = true) sampleStart acts t ∧
      activeIn sampleSite t.caller.state = true ∧ t.toDevice "tablet" = [] ∧
      LeftToOne sampleSite t := by
  let acts := sampleRinging ++
    [sampleAccept "phone", .toCaller "phone" false 5, .toDevice "tablet" false 6]
  have hallowed : allowed (step sampleSite) (inTime sampleSite) sampleStart acts = true := by
    decide +kernel
  have hexec : (exec (step sampleSite) sampleStart acts).map (fun t =>
      (activeIn sampleSite t.caller.state, t.toDevice "tablet")) = some (true, []) := by
    decide +kernel
  obtain ⟨t, ht, hend⟩ := map_eq_some_iff.mp hexec
  rw [Prod.mk.injEq] at hend
  have hrun := Run.of_allowed hallowed ht
  exact ⟨acts, t, hrun, hend.1, hend.2, leftToOne_of_inTime (by decide) hrun⟩

/-- Both devices answer, the caller takes the phone, and everything arrives: the tablet is active. -/
theorem leftToOne_fails_second_answer : ∃ acts t,
    FreeRun (step sampleSite) sampleStart acts t ∧ ¬ LeftToOne sampleSite t := by
  let acts := sampleRinging ++ [sampleAccept "phone", sampleAccept "tablet",
    .toCaller "phone" false 5, .toCaller "tablet" false 6, .toDevice "tablet" false 7]
  have hexec : (exec (step sampleSite) sampleStart acts).map (fun t =>
      (activeIn sampleSite t.caller.state, t.caller.state.remoteDevice,
        activeIn sampleSite (t.device "tablet").state, t.toDevice "tablet", t.toDevice "phone")) =
      some (true, some "phone", true, [], []) := by
    decide +kernel
  obtain ⟨t, ht, hend⟩ := map_eq_some_iff.mp hexec
  simp only [Prod.mk.injEq] at hend
  obtain ⟨hactive, hdevice, htablet, harrived, harrived'⟩ := hend
  refine ⟨acts, t, .of_exec ht, fun hleft => ?_⟩
  have hnone : ∀ key ∈ sampleSite.keys, ∀ x ∈ t.toDevice key, isCancel sampleSite x = false := by
    intro key hkey
    rcases mem_cons.mp hkey with rfl | hkey
    · rw [harrived']
      exact fun x hx => absurd hx not_mem_nil
    · rw [mem_singleton.mp hkey, harrived]
      exact fun x hx => absurd hx not_mem_nil
  have hidle := (hleft hactive hnone "tablet" (by decide) (by rw [hdevice]; decide)).2
  rw [htablet] at hidle
  cases hidle

end Bluetalk.Calls.DeviceCalls
