import Bluetalk.Calls.CallChanges

/-!
# Accepting a call

`accept` of the manager checks that a call rings, and then awaits: whether the codec is supported,
and the capabilities for video. What it dispatches in the end is about the call of that moment.
-/

open List Option

namespace Bluetalk.Calls

def pickAcceptCodec (offered : List String) : String :=
  if offered.contains "opus" then "opus" else "pcm16"

/-- The codec that is accepted with, once it is known whether `opus` is supported. -/
def acceptedCodec (offered : List String) (opusSupported : Bool) : Option String :=
  let picked := pickAcceptCodec offered
  let codec := if picked = "opus" && !opusSupported then "pcm16" else picked
  if offered.contains codec then some codec
  else if offered.contains "pcm16" then some "pcm16"
  else offered.head?

/-- A call as the user sees it ring. -/
structure RingingCall where
  peerId : Option String
  callId : Option String
  deriving DecidableEq

def CallState.ringingCall (s : CallState) : RingingCall := ⟨s.peerId, s.callId⟩

inductive AcceptStage
  /-- `codecIsOpusSupported()` -/
  | probingCodec
  /-- `this.videoProbe` -/
  | probingVideo (codec : Option String)
  deriving DecidableEq

/-- What is left of an `accept`. -/
structure AcceptTask where
  pressedOn : RingingCall
  camera : Bool
  offered : List String
  stage : AcceptStage

/-- An `accept` that has made a call active. -/
structure Activation where
  pressedOn : RingingCall
  activated : RingingCall
  deriving DecidableEq

structure AcceptManager where
  state : CallState := createIdleCallState
  localCapabilities : Capabilities := {}
  tasks : List AcceptTask := []
  activations : List Activation := []

inductive AcceptAction
  /-- the user accepts -/
  | accept (camera : Bool)
  /-- what the `i`-th `accept` awaits has come -/
  | resume (i : Nat) (opusSupported : Bool) (now : Int)
  /-- whatever else the manager dispatches -/
  | dispatch (event : CallState.Event)

namespace AcceptManager

open CallState

def accept (m : AcceptManager) (camera : Bool) : AcceptManager :=
  if m.state.phase ≠ .incoming then m
  else
    let offered := m.state.codecs
    let stage : AcceptStage :=
      if pickAcceptCodec offered = "opus" then .probingCodec
      else .probingVideo (acceptedCodec offered false)
    { m with tasks := m.tasks ++ [⟨m.state.ringingCall, camera, offered, stage⟩] }

/-- `local-accept`, with the call of the moment -/
def acceptEvent (m : AcceptManager) (t : AcceptTask) (codec : Option String) (now : Int) : Event :=
  let camera := t.camera && 0 < m.localCapabilities.video.length &&
    peerSupportsVideo m.state.remoteCapabilities
  .localAccept { peerId := m.state.peerId, callId := m.state.callId, now := now } codec camera
    (some m.localCapabilities.video) (some m.localCapabilities)

/-- The end of `acceptAsync`. -/
def finish (m : AcceptManager) (t : AcceptTask) (codec : Option String) (now : Int) :
    AcceptManager :=
  let next := (m.state.reduceCall (m.acceptEvent t codec now)).1
  { m with
    state := next
    activations :=
      if m.state.phase ≠ .active && next.phase = .active then
        m.activations ++ [⟨t.pressedOn, next.ringingCall⟩]
      else m.activations }

def resume (m : AcceptManager) (i : Nat) (t : AcceptTask) (opusSupported : Bool) (now : Int) :
    AcceptManager :=
  match t.stage with
  | .probingCodec =>
    let stage := .probingVideo (acceptedCodec t.offered opusSupported)
    { m with tasks := m.tasks.set i { t with stage := stage } }
  | .probingVideo codec => { m with tasks := m.tasks.eraseIdx i }.finish t codec now

/-- Only `acceptAsync` dispatches `local-accept`. -/
def Event.isLocalAccept : Event → Bool
  | .localAccept .. => true
  | _ => false

def step (m : AcceptManager) : AcceptAction → Option AcceptManager
  | .accept camera => some (m.accept camera)
  | .resume i opusSupported now => m.tasks[i]?.map fun t => m.resume i t opusSupported now
  | .dispatch event =>
    if Event.isLocalAccept event then none
    else some { m with state := (m.state.reduceCall event).1 }

/-- Only a call that the user has accepted becomes active by it. -/
def Faithful (m : AcceptManager) : Prop :=
  ∀ x ∈ m.activations, x.activated = x.pressedOn

/-- When an `accept` comes to its end, no other call rings than the one it is about. -/
def stillRinging (m : AcceptManager) : AcceptAction → Bool
  | .resume i _ _ => m.tasks[i]?.all fun t =>
      t.stage = .probingCodec || m.state.phase ≠ .incoming || m.state.ringingCall = t.pressedOn
  | _ => true

variable {m m' : AcceptManager} {a : AcceptAction} {t : AcceptTask} {codec : Option String}
  {now : Int} {acts : List AcceptAction} {caps : Capabilities}

theorem finish_of_not_incoming (h : m.state.phase ≠ .incoming) : m.finish t codec now = m := by
  have hignored : (m.state.reduceCall (m.acceptEvent t codec now)).1 = m.state := by
    rw [acceptEvent, reduceCall, reduceLocalAccept, if_pos h]
    rfl
  rw [finish, hignored, if_neg (by simp)]

theorem finish_of_incoming (h : m.state.phase = .incoming) :
    (m.finish t codec now).activations = m.activations ++ [⟨t.pressedOn, m.state.ringingCall⟩] := by
  have hchange : m.state.change (m.acceptEvent t codec now) = .accepted := if_pos h
  obtain ⟨-, -, hactive, -⟩ := reduceCall_accepted hchange
  have hcall : (m.state.reduceCall (m.acceptEvent t codec now)).1.ringingCall = m.state.ringingCall := by
    rw [ringingCall, ringingCall, hactive.peerId, hactive.callId]
  simp only [finish, h, hactive.phase, hcall]
  rfl

theorem faithful_append {x : Activation} (H : m.Faithful)
    (hx : m'.activations = m.activations ++ [x]) : m'.Faithful ↔ x.activated = x.pressedOn := by
  rw [Faithful, hx, forall_mem_append, forall_mem_singleton]
  exact and_iff_right H

theorem faithful_of_eq (H : m.Faithful) (hx : m'.activations = m.activations) : m'.Faithful := by
  rw [Faithful, hx]
  exact H

theorem faithful_finish (H : m.Faithful) :
    (m.finish t codec now).Faithful ↔
      m.state.phase ≠ .incoming ∨ m.state.ringingCall = t.pressedOn := by
  by_cases hin : m.state.phase = .incoming
  · rw [faithful_append H (finish_of_incoming hin)]
    exact ⟨.inr, fun h => h.resolve_left (not_not.mpr hin)⟩
  · rw [finish_of_not_incoming hin]
    exact iff_of_true H (.inl hin)

theorem faithful_step_iff (H : m.Faithful) (h : step m a = some m') :
    m'.Faithful ↔ m.stillRinging a = true := by
  cases a with
  | accept camera =>
    cases h
    refine iff_of_true (faithful_of_eq H ?_) rfl
    rw [accept]
    split
    · rfl
    · rfl
  | dispatch event =>
    rw [step] at h
    split at h
    · cases h
    · cases h
      exact iff_of_true (faithful_of_eq H rfl) rfl
  | resume i opusSupported now =>
    obtain ⟨t, ht, rfl⟩ := map_eq_some_iff.mp h
    rw [stillRinging, ht, all_some, resume]
    cases hstage : t.stage with
    | probingCodec => exact iff_of_true (faithful_of_eq H rfl) rfl
    | probingVideo codec =>
      rw [faithful_finish (m := { m with tasks := m.tasks.eraseIdx i }) H]
      simp

/-- Every call that is accepted is the one the user has accepted, exactly when no accept comes to
its end while another call rings. -/
theorem faithful_iff_stillRinging (h : FreeRun step { localCapabilities := caps } acts m) :
    Always step Faithful { localCapabilities := caps } acts ↔
      Run step (fun m a => m.stillRinging a = true) { localCapabilities := caps } acts m :=
  Run.always_iff (I := fun _ => True) (fun _ _ => trivial)
    (fun _ H hstep => faithful_step_iff H hstep) h trivial fun _ hx => nomatch hx

def offerOf (peerId callId : String) : AcceptAction :=
  .dispatch (.remoteOffer { peerId := some peerId, callId := some callId, now := 1 } "k" [] none
    false {} false)

/-- A call rings and is accepted. -/
theorem faithful_iff_stillRinging_sample : ∃ m,
    FreeRun step {} [offerOf "p1" "c1", .accept false, .resume 0 true 2, .resume 0 true 3] m ∧
      m.activations ≠ [] ∧
      Always step Faithful {}
        [offerOf "p1" "c1", .accept false, .resume 0 true 2, .resume 0 true 3] := by
  have hrun : (exec step {}
      [offerOf "p1" "c1", .accept false, .resume 0 true 2, .resume 0 true 3]).map
        (·.activations) = some [⟨⟨some "p1", some "c1"⟩, ⟨some "p1", some "c1"⟩⟩] := by
    decide +kernel
  have hok : allowed step stillRinging {}
      [offerOf "p1" "c1", .accept false, .resume 0 true 2, .resume 0 true 3] = true := by
    decide +kernel
  obtain ⟨m, hm, hactivations⟩ := map_eq_some_iff.mp hrun
  refine ⟨m, .of_exec hm, ?_, (faithful_iff_stillRinging (.of_exec hm)).mpr (Run.of_allowed hok hm)⟩
  rw [hactivations]
  exact cons_ne_nil _ _

/-- While the accept of one call waits, its caller gives up and another one calls. -/
def otherCaller : List AcceptAction :=
  [offerOf "p1" "c1", .accept false, .resume 0 true 2,
    .dispatch (.remoteCancel { peerId := some "p1", callId := some "c1", now := 3 } none),
    offerOf "p2" "c2", .resume 0 true 4]

/-- The call of the other caller is answered. -/
theorem accepts_other_caller : ∃ m, FreeRun step {} otherCaller m ∧ ¬ m.Faithful := by
  have hrun : (exec step {} otherCaller).map (·.activations) =
      some [⟨⟨some "p1", some "c1"⟩, ⟨some "p2", some "c2"⟩⟩] := by
    decide +kernel
  obtain ⟨m, hm, hactivations⟩ := map_eq_some_iff.mp hrun
  refine ⟨m, .of_exec hm, fun H => ?_⟩
  have heq := H ⟨⟨some "p1", some "c1"⟩, ⟨some "p2", some "c2"⟩⟩
    (by rw [hactivations]; exact mem_singleton_self _)
  exact absurd heq (by decide)

end AcceptManager
end Bluetalk.Calls
