import Bluetalk.Calls.CallChanges

/-!
# The devices that are busy

A peer's devices answer an offer with `ringing` or with `busy`. The call is to end as busy when one
of its devices has reported busy and none is left that rings; `applyRemoteBusy` does not end it as
long as it knows of no device that rings.
-/

open List Option

namespace Bluetalk.Calls

/-- A device, as a message names it. -/
structure Device where
  text : String
  named : jsTrim text ≠ ""

namespace Device

def key (d : Device) : String := jsTrim d.text

theorem key_ne (d : Device) : d.key ≠ "" := d.named

theorem isText (d : Device) : isText (some d.text) = true := by
  refine decide_eq_true fun h => d.named ?_
  rw [h]
  rfl

end Device

/-- What a device of the peer answers to the offer. -/
inductive DeviceSignal
  | ringing (device : Device) (now : Int) (capabilities : Option Capabilities)
  | busy (device : Device) (now : Int)

/-- A call that goes out, with the devices that have answered so far. -/
structure CallAttempt where
  state : CallState
  rang : List String := []
  busy : List String := []
  logged : List CallLogEntry := []

namespace CallAttempt

open CallState

def signalBase (s : CallState) (d : Device) (now : Int) : Base :=
  { peerId := s.peerId, callId := s.callId, fromDevice := some d.text, now := now }

/-- What the manager hears of a signal. -/
def event (s : CallState) : DeviceSignal → Event
  | .ringing d now capabilities => .remoteRinging (signalBase s d now) capabilities
  | .busy d now => .remoteBusy (signalBase s d now)

def heard (a : CallAttempt) : DeviceSignal → CallAttempt
  | .ringing d .. => { a with rang := a.rang ++ [d.key] }
  | .busy d _ => { a with busy := a.busy ++ [d.key] }

/-- A signal arrives while the call goes out. -/
def step (a : CallAttempt) (x : DeviceSignal) : Option CallAttempt :=
  if a.state.phase = .outgoing then
    let r := a.state.reduceCall (event a.state x)
    some { a.heard x with state := r.1, logged := a.logged ++ logs r.2 }
  else none

/-- `localStart` in idle -/
def start (b : Base) (callKeyB64 : String) (codecs : Option (List String)) (video : Bool)
    (capabilities : Capabilities) : CallAttempt :=
  { state := (createIdleCallState.reduceCall
      (.localStart b callKeyB64 codecs video capabilities)).1 }

/-- The call is over, and logged as busy. -/
def endedBusy (a : CallAttempt) : Prop :=
  a.state.phase = .idle ∧ ∃ entry ∈ a.logged, entry.outcome = .busy

/-- The call ends as busy exactly when a device is busy and every one that is known to ring is. -/
def BusyLaw (a : CallAttempt) : Prop :=
  a.endedBusy ↔ a.busy ≠ [] ∧ ∀ key ∈ a.rang, key ∈ a.busy

/-- A device that is busy answers when one is known to ring. -/
def afterRinging (a : CallAttempt) : DeviceSignal → Bool
  | .ringing .. => true
  | .busy .. => a.rang ≠ []

/-- What the state knows of the devices while the call goes out. -/
structure Tracks (a : CallAttempt) : Prop where
  trimmed : ∀ key, key ∈ a.rang ∨ key ∈ a.busy → jsTrim key = key ∧ key ≠ ""
  ringing : a.state.phase = .outgoing → ∀ key, key ∈ a.state.ringingDevices ↔ key ∈ a.rang
  busy : a.state.phase = .outgoing → ∀ key, key ∈ a.state.busyDevices ↔ key ∈ a.busy

variable {a a' : CallAttempt} {x : DeviceSignal} {d : Device} {now : Int}
  {capabilities : Option Capabilities} {key : String}

theorem sameCall_signalBase {s : CallState} (d : Device) (now : Int) (h : s.phase = .outgoing) :
    s.sameCall (signalBase s d now) = true := by
  have hphase : s.phase ≠ .idle := by
    rw [h]
    exact nofun
  simp [sameCall, signalBase, hphase]

theorem mem_uniqueDevices_of_trimmed {list : List String} {out : List (Option String)} (h : ∀ key ∈ list, jsTrim key = key ∧ key ≠ "") :
    key ∈ uniqueDevices (list.map some ++ out) ↔ key ∈ list ∨ key ∈ uniqueDevices out := by
  rw [mem_uniqueDevices, mem_uniqueDevices]
  simp only [List.mem_append, List.mem_map, or_and_right, exists_or]
  refine or_congr_left ⟨?_, fun hmem => ?_⟩
  · rintro ⟨_, ⟨k, hk, rfl⟩, rfl, -⟩
    rw [Option.getD_some, (h k hk).1]
    exact hk
  refine ⟨some key, ⟨key, hmem, rfl⟩, ?_, ?_⟩
  · rw [Option.getD_some, (h key hmem).1]
  · rw [getD_some, (h key hmem).1]
    exact (h key hmem).2

theorem mem_uniqueDevices_device :
    key ∈ uniqueDevices [some d.text] ↔ key = d.key := by
  rw [mem_uniqueDevices]
  simp only [mem_singleton, exists_eq_left, getD_some]
  exact and_iff_left d.named

namespace Tracks

theorem ringing_trimmed (H : a.Tracks) (hout : a.state.phase = .outgoing) :
    ∀ key ∈ a.state.ringingDevices, jsTrim key = key ∧ key ≠ "" :=
  fun key h => H.trimmed key (.inl ((H.ringing hout key).mp h))

theorem busy_trimmed (H : a.Tracks) (hout : a.state.phase = .outgoing) :
    ∀ key ∈ a.state.busyDevices, jsTrim key = key ∧ key ≠ "" :=
  fun key h => H.trimmed key (.inr ((H.busy hout key).mp h))

variable {key : String}

theorem mem_ringing (H : a.Tracks) (hout : a.state.phase = .outgoing) :
    key ∈ uniqueDevices (a.state.ringingDevices.map some) ↔ key ∈ a.rang := by
  have h : key ∈ uniqueDevices (a.state.ringingDevices.map some ++ []) ↔ _ :=
    mem_uniqueDevices_of_trimmed (H.ringing_trimmed hout)
  rw [append_nil] at h
  rw [h, H.ringing hout]
  exact or_iff_left not_mem_nil

theorem mem_busy (H : a.Tracks) (hout : a.state.phase = .outgoing) :
    key ∈ uniqueDevices (a.state.busyDevices.map some ++ [some d.text]) ↔
      key ∈ a.busy ++ [d.key] := by
  rw [mem_uniqueDevices_of_trimmed (H.busy_trimmed hout), mem_uniqueDevices_device,
    H.busy hout, mem_append, mem_singleton]

theorem endBusy_iff (H : a.Tracks) (hout : a.state.phase = .outgoing) :
    (applyRemoteBusy a.state.ringingDevices a.state.busyDevices (some d.text)).endBusy = true ↔
      a.rang ≠ [] ∧ ∀ key ∈ a.rang, key ∈ a.busy ++ [d.key] := by
  have hnil : 0 < (uniqueDevices (a.state.ringingDevices.map some)).length ↔ a.rang ≠ [] := by
    rw [length_pos_iff_exists_mem, ← length_pos_iff, length_pos_iff_exists_mem]
    exact exists_congr fun key => H.mem_ringing hout
  simp only [applyRemoteBusy, d.isText, Bool.not_true, Bool.false_eq_true, if_false,
    Bool.and_eq_true, decide_eq_true_eq, hnil, length_eq_zero_iff, filter_eq_nil_iff,
    Bool.not_eq_true', contains_eq_mem, decide_eq_false_iff_not, not_not]
  refine and_congr_right fun _ => forall_congr' fun key => ?_
  rw [H.mem_ringing hout, H.mem_busy hout]

end Tracks

theorem step_ringing (h : step a (.ringing d now capabilities) = some a') :
    a.state.phase = .outgoing ∧ a'.state.phase = .outgoing ∧ a'.rang = a.rang ++ [d.key] ∧
      a'.busy = a.busy ∧ a'.logged = a.logged ∧ a'.state.busyDevices = a.state.busyDevices ∧
      a'.state.ringingDevices =
        uniqueDevices (a.state.ringingDevices.map some ++ [some d.text]) := by
  rw [step] at h
  split at h
  next hout =>
    cases h
    have hsame := sameCall_signalBase d now hout
    rw [event, reduceCall, reduceRemoteRinging, if_neg (by simp [hsame, hout])]
    exact ⟨hout, hout, rfl, rfl, append_nil _, rfl, rfl⟩
  · cases h

theorem step_busy (h : step a (.busy d now) = some a') :
    a.state.phase = .outgoing ∧ a'.rang = a.rang ∧ a'.busy = a.busy ++ [d.key] ∧
      if (applyRemoteBusy a.state.ringingDevices a.state.busyDevices (some d.text)).endBusy then
        a'.endedBusy
      else a'.state.phase = .outgoing ∧ a'.logged = a.logged ∧
        a'.state.ringingDevices = uniqueDevices (a.state.ringingDevices.map some) ∧
        a'.state.busyDevices = uniqueDevices (a.state.busyDevices.map some ++ [some d.text]) := by
  rw [step] at h
  split at h
  next hout =>
    cases h
    have hsame := sameCall_signalBase d now hout
    refine ⟨hout, rfl, rfl, ?_⟩
    have hdevice : (signalBase a.state d now).fromDevice = some d.text := rfl
    simp only [event, reduceCall, reduceRemoteBusy, hsame, hout, hdevice, Bool.not_true, ne_eq,
      not_true, decide_false, Bool.or_self, Bool.false_eq_true, if_false]
    cases hend : (applyRemoteBusy a.state.ringingDevices a.state.busyDevices (some d.text)).endBusy
    · simp only [Bool.not_false, if_true, Bool.false_eq_true, if_false]
      refine ⟨trivial, append_nil _, ?_, ?_⟩
      · simp [applyRemoteBusy, d.isText]
      · simp [applyRemoteBusy, d.isText]
    · exact ⟨rfl, _, mem_append_right _ (mem_singleton_self _), rfl⟩
  · cases h

theorem Tracks.step (H : a.Tracks) (h : step a x = some a') : a'.Tracks := by
  have hkey : ∀ d : Device, jsTrim d.key = d.key ∧ d.key ≠ "" := fun d => ⟨trimBy_trimBy, d.key_ne⟩
  cases x with
  | ringing d now capabilities =>
    obtain ⟨hout, -, hrang, hbusy, -, hbusyDevices, hringing⟩ := step_ringing h
    refine ⟨fun key hmem => ?_, fun _ key => ?_, fun _ key => ?_⟩
    · rw [hrang, hbusy, mem_append, mem_singleton] at hmem
      rcases hmem with (hmem | rfl) | hmem
      · exact H.trimmed key (.inl hmem)
      · exact hkey d
      · exact H.trimmed key (.inr hmem)
    · rw [hringing, mem_uniqueDevices_of_trimmed (H.ringing_trimmed hout),
        mem_uniqueDevices_device, H.ringing hout, hrang, mem_append, mem_singleton]
    · rw [hbusyDevices, hbusy, H.busy hout]
  | busy d now =>
    obtain ⟨hout, hrang, hbusy, hend⟩ := step_busy h
    have htrimmed : ∀ key, key ∈ a'.rang ∨ key ∈ a'.busy → jsTrim key = key ∧ key ≠ "" := by
      intro key hmem
      rw [hrang, hbusy, mem_append, mem_singleton] at hmem
      rcases hmem with hmem | hmem | rfl
      · exact H.trimmed key (.inl hmem)
      · exact H.trimmed key (.inr hmem)
      · exact hkey d
    split at hend
    · have hidle : a'.state.phase ≠ .outgoing := by
        rw [hend.1]
        exact nofun
      exact ⟨htrimmed, fun hout' => absurd hout' hidle, fun hout' => absurd hout' hidle⟩
    obtain ⟨-, -, hringing, hbusyDevices⟩ := hend
    refine ⟨htrimmed, fun _ key => ?_, fun _ key => ?_⟩
    · rw [hringing, hrang, H.mem_ringing hout]
    · rw [hbusyDevices, hbusy, H.mem_busy hout]

theorem not_endedBusy (h : a.state.phase = .outgoing) : ¬ a.endedBusy :=
  fun hended => nomatch h.symm.trans hended.1

theorem Tracks.busyLaw_iff (H : a.Tracks) (hlaw : a.BusyLaw) (h : CallAttempt.step a x = some a') :
    a'.BusyLaw ↔ a.afterRinging x = true := by
  cases x with
  | ringing d now capabilities =>
    obtain ⟨hout, hout', hrang, hbusy, -⟩ := step_ringing h
    refine iff_of_true (iff_of_false (not_endedBusy hout') fun hall => ?_) rfl
    refine not_endedBusy hout (hlaw.mpr ⟨hbusy ▸ hall.1, fun key hkey => ?_⟩)
    have hmem := hall.2 key (by rw [hrang]; exact mem_append_left _ hkey)
    rwa [hbusy] at hmem
  | busy d now =>
    obtain ⟨hout, hrang, hbusy, hend⟩ := step_busy h
    have hsome : a'.busy ≠ [] := by
      rw [hbusy]
      exact append_ne_nil_of_right_ne_nil _ (cons_ne_nil _ _)
    rw [BusyLaw, hrang, and_iff_right hsome, hbusy, afterRinging, decide_eq_true_eq]
    split at hend
    next hbusyEnds =>
      obtain ⟨hring, hall⟩ := (H.endBusy_iff hout).mp hbusyEnds
      exact iff_of_true (iff_of_true hend hall) hring
    next hgoesOn =>
    rw [H.endBusy_iff hout] at hgoesOn
    constructor
    · intro hiff hnone
      refine not_endedBusy hend.1 (hiff.mpr fun key hkey => ?_)
      rw [hnone] at hkey
      exact absurd hkey not_mem_nil
    · intro hring
      exact iff_of_false (not_endedBusy hend.1) fun hall => hgoesOn ⟨hring, hall⟩

variable {b : Base} {callKeyB64 : String} {codecs : Option (List String)} {video : Bool}
  {caps : Capabilities} {signals : List DeviceSignal}

theorem tracks_start : (start b callKeyB64 codecs video caps).Tracks :=
  ⟨fun _ h => by simp [start] at h, fun _ _ => Iff.rfl, fun _ _ => Iff.rfl⟩

/-- Whatever the signals, the state knows the devices that rang and those that were busy. -/
theorem devices_tracked :
    Always step Tracks (start b callKeyB64 codecs video caps) signals :=
  Run.always (fun H h => H.step h) tracks_start

theorem busyLaw_start : (start b callKeyB64 codecs video caps).BusyLaw :=
  iff_of_false (not_endedBusy rfl) fun h => h.1 rfl

/-- A call resolves its devices by the law all along exactly when none of them is busy before one
rings. -/
theorem busyLaw_iff_afterRinging (h : FreeRun step (start b callKeyB64 codecs video caps) signals a) :
    Always step BusyLaw (start b callKeyB64 codecs video caps) signals ↔
      Run step (fun a x => a.afterRinging x = true) (start b callKeyB64 codecs video caps)
        signals a :=
  Run.always_iff (I := Tracks) (fun H hstep => H.step hstep)
    (fun H hlaw hstep => H.busyLaw_iff hlaw hstep) h tracks_start busyLaw_start

def desk : Device := ⟨"desk", by decide⟩

def sampleCall : CallAttempt :=
  start { peerId := some "p1", callId := some "c1", now := 1 } "k" none false {}

/-- The only device rings and is busy then. -/
theorem busyLaw_iff_afterRinging_desk :
    (exec step sampleCall [.ringing desk 2 none, .busy desk 3]).isSome ∧
      Always step BusyLaw sampleCall [.ringing desk 2 none, .busy desk 3] := by
  have hsome : (exec step sampleCall [.ringing desk 2 none, .busy desk 3]).isSome = true := by
    decide +kernel
  have hok : allowed step afterRinging sampleCall [.ringing desk 2 none, .busy desk 3] = true := by
    decide +kernel
  obtain ⟨a, ha⟩ := isSome_iff_exists.mp hsome
  exact ⟨hsome, (busyLaw_iff_afterRinging (.of_exec ha)).mpr (Run.of_allowed hok ha)⟩

/-- The only device is busy at once: the call rings on. -/
theorem busyLaw_fails_at_once :
    ¬ ∀ signals a, FreeRun step sampleCall signals a → Always step BusyLaw sampleCall signals := by
  intro hall
  obtain ⟨a, ha⟩ : ∃ a, step sampleCall (.busy desk 2) = some a := ⟨_, rfl⟩
  have hlaw : a.BusyLaw := (hall _ a (.single trivial ha)).2 a ha
  obtain ⟨-, hrang, hbusy, -⟩ := step_busy ha
  have hend : a.endedBusy := by
    refine hlaw.mpr ⟨?_, fun key hkey => ?_⟩
    · rw [hbusy]
      exact cons_ne_nil _ _
    · rw [hrang] at hkey
      exact absurd hkey not_mem_nil
  cases ha
  exact nomatch hend.1

end CallAttempt
end Bluetalk.Calls
